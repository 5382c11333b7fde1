/-
What an outcome says of the stages behind it.

A computation that may fail is a chain of stages, and it succeeds if and only if each
of them does.  The lemmas here take such a chain apart from its outcome.
-/

namespace Except

variable {ε ε' α β : Type}

theorem exists_of_isOk {x : Except ε α} (h : x.isOk = true) : ∃ a, x = .ok a := by
  rcases x with error | a
  · cases h
  · exact ⟨a, rfl⟩

theorem bind_eq_ok {x : Except ε α} {f : α → Except ε β} {b : β} (h : x >>= f = .ok b) :
    ∃ a, x = .ok a ∧ f a = .ok b := by
  rcases x with error | a
  · cases h
  · exact ⟨a, rfl, h⟩

theorem map_eq_ok {x : Except ε α} {f : α → β} {b : β} (h : x.map f = .ok b) :
    ∃ a, x = .ok a ∧ f a = b := by
  rcases x with error | a
  · cases h
  · exact ⟨a, rfl, Except.ok.inj h⟩

/-- A last stage that cannot fail changes the result and nothing else. -/
theorem bind_pure_eq_map (x : Except ε α) (f : α → β) : (x >>= fun a => pure (f a)) = x.map f := by
  rcases x with error | a <;> rfl

theorem mapError_eq_ok {x : Except ε α} {f : ε → ε'} {a : α} (h : x.mapError f = .ok a) :
    x = .ok a := by
  rcases x with error | a'
  · cases h
  · exact congrArg Except.ok (Except.ok.inj h)

theorem mapError_eq_error {x : Except ε α} {f : ε → ε'} {error : ε'}
    (h : x.mapError f = .error error) : ∃ cause, x = .error cause ∧ f cause = error := by
  rcases x with cause | a
  · exact ⟨cause, rfl, Except.error.inj h⟩
  · cases h

theorem bind_eq_error {x : Except ε α} {f : α → Except ε β} {error : ε}
    (h : x >>= f = .error error) : x = .error error ∨ ∃ a, x = .ok a ∧ f a = .error error := by
  rcases x with found | a
  · cases h
    exact Or.inl rfl
  · exact Or.inr ⟨a, rfl, h⟩

/-- Outcomes are told apart as long as errors are. -/
theorem mapError_eq_iff {f : ε → ε'} (hf : ∀ a b, f a = f b → a = b) {x y : Except ε α} :
    x.mapError f = y.mapError f ↔ x = y := by
  refine ⟨?_, congrArg _⟩
  intro h
  rcases x with error | a
  · rcases y with error' | a'
    · rw [hf error error' (Except.error.inj h)]
    · cases h
  · rcases y with error' | a'
    · cases h
    · rw [Except.ok.inj h]

theorem mapM_cons_eq_ok {f : α → Except ε β} {a : α} {l : List α} {found : List β} :
    (a :: l).mapM f = .ok found ↔
      ∃ b others, f a = .ok b ∧ l.mapM f = .ok others ∧ found = b :: others := by
  rw [List.mapM_cons]
  constructor
  · intro h
    obtain ⟨b, hb, h⟩ := bind_eq_ok h
    obtain ⟨others, hothers, h⟩ := bind_eq_ok h
    exact ⟨b, others, hb, hothers, (Except.ok.inj h).symm⟩
  · rintro ⟨b, others, hb, hothers, rfl⟩
    rw [hb, hothers]
    rfl

theorem exists_of_mapM_eq_ok {f : α → Except ε β} {l : List α} :
    ∀ {found : List β}, l.mapM f = .ok found → ∀ b ∈ found, ∃ a ∈ l, f a = .ok b := by
  induction l with
  | nil =>
      intro found h b hb
      cases h
      cases hb
  | cons x rest ih =>
      intro found h b hb
      obtain ⟨y, ys, hx, hrest, rfl⟩ := mapM_cons_eq_ok.mp h
      rcases List.mem_cons.mp hb with rfl | hb
      · exact ⟨x, List.mem_cons_self .., hx⟩
      · obtain ⟨a, ha, hab⟩ := ih hrest b hb
        exact ⟨a, List.mem_cons_of_mem _ ha, hab⟩

theorem mapM_mapError (f : α → Except ε β) (g : ε → ε') (l : List α) :
    (l.mapM fun a => (f a).mapError g) = (l.mapM f).mapError g := by
  induction l with
  | nil => rfl
  | cons a rest ih =>
      rw [List.mapM_cons, List.mapM_cons, ih]
      rcases f a with error | b
      · rfl
      · rcases rest.mapM f with error | others <;> rfl

/-- Outcomes are collected if and only if each of them is a success. -/
theorem mapM_id_eq_ok_iff {l : List (Except ε α)} :
    ∀ {found : List α}, l.mapM id = .ok found ↔ l = found.map .ok := by
  induction l with
  | nil =>
      intro found
      rw [List.mapM_nil, eq_comm (b := found.map _), List.map_eq_nil_iff]
      exact ⟨fun h => (Except.ok.inj h).symm, fun h => congrArg Except.ok h.symm⟩
  | cons x rest ih =>
      intro found
      rw [mapM_cons_eq_ok]
      constructor
      · rintro ⟨b, others, hx, hothers, rfl⟩
        rw [List.map_cons, ← ih.mp hothers, ← hx]
        rfl
      · intro h
        obtain ⟨b, others, rfl, hb, hothers⟩ := List.map_eq_cons_iff.mp h.symm
        exact ⟨b, others, hb.symm, ih.mpr hothers.symm, rfl⟩

/-- Otherwise the first one that fails decides, whatever follows it. -/
theorem mapM_id_eq_error_iff {l : List (Except ε α)} {error : ε} :
    l.mapM id = .error error ↔
      ∃ (front : List α) (back : _), l = front.map .ok ++ .error error :: back := by
  induction l with
  | nil => exact iff_of_false nofun (by simp)
  | cons x rest ih =>
      rw [List.mapM_cons]
      constructor
      · intro h
        rcases bind_eq_error h with hx | ⟨a, hx, h⟩
        · exact ⟨[], rest, by rw [← hx]; rfl⟩
        · rcases bind_eq_error h with hrest | ⟨others, -, h⟩
          · obtain ⟨front, back, rfl⟩ := ih.mp hrest
            exact ⟨a :: front, back, by rw [List.map_cons, ← hx]; rfl⟩
          · cases h
      · rintro ⟨front, back, h⟩
        rcases front with _ | ⟨a, front⟩
        · obtain ⟨rfl, -⟩ := List.cons.inj h
          rfl
        · obtain ⟨rfl, hrest⟩ := List.cons.inj h
          rw [ih.mpr ⟨front, back, hrest⟩]
          rfl

theorem exists_of_foldlM_eq_ok {f : β → α → Except ε β} {l : List α} {c : β} :
    ∀ {b : β}, l.foldlM f b = .ok c → ∀ a ∈ l, ∃ b' c', f b' a = .ok c' := by
  induction l with
  | nil =>
      intro b _ a ha
      cases ha
  | cons x rest ih =>
      intro b h a ha
      rw [List.foldlM_cons] at h
      obtain ⟨next, hx, hrest⟩ := bind_eq_ok h
      rcases List.mem_cons.mp ha with rfl | ha
      · exact ⟨b, next, hx⟩
      · exact ih hrest a ha

/-- Where a fold fails, it has come as far as some member and fails there. -/
theorem exists_of_foldlM_eq_error {f : β → α → Except ε β} {l : List α} {error : ε} :
    ∀ {b : β}, l.foldlM f b = .error error →
      ∃ front a back b', l = front ++ a :: back ∧ front.foldlM f b = .ok b' ∧
        f b' a = .error error := by
  induction l with
  | nil =>
      intro b h
      cases h
  | cons x rest ih =>
      intro b h
      rw [List.foldlM_cons] at h
      rcases bind_eq_error h with hx | ⟨next, hx, hrest⟩
      · exact ⟨[], x, rest, b, rfl, rfl, hx⟩
      · obtain ⟨front, a, back, b', rfl, hfront, ha⟩ := ih hrest
        refine ⟨x :: front, a, back, b', rfl, ?_, ha⟩
        rw [List.foldlM_cons, hx]
        exact hfront

end Except
