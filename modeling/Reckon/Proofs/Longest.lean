/-
What the longest lexeme at a place is.

`longest` looks at one character and at how far its kind goes on.  Here it is compared
with the patterns of the kinds: whatever pattern matches a text, `longest` takes the
whole of it if nothing follows (`longest_of_matches`), and more text behind it only
makes it take more (`longest_mono`).  What it takes matches in turn, so it takes the
longest text that any pattern matches, and takes a stray only where none matches.

`IsLongest` says this of a lexeme without a word on how it was found, and there is one
such lexeme at a place (`isLongest_iff`).
-/
import Reckon.Proofs.Spelling
import Mathlib.Data.List.TakeWhile

namespace Reckon.Lexeme

/-! ### Texts that match a pattern -/

theorem ne_nil_of_matches {kind : Kind} {text : List Char} (h : kind.Matches text) : text ≠ [] := by
  rcases kind with _ | _ | op | _ | _ | _
  · exact h.1
  · obtain ⟨first, more, rfl, -, -⟩ := h
    exact List.cons_ne_nil first more
  · obtain ⟨c, more, hsymbol⟩ := Token.exists_symbol op
    rw [h.trans hsymbol]
    exact List.cons_ne_nil c more
  · rintro rfl
    cases h
  · rintro rfl
    cases h
  · cases h

theorem isWhiteSpace_eq_false_of_matches {kind : Kind} {text : List Char} (h : kind.Matches text) :
    ∀ c ∈ text, isWhiteSpace c = false := by
  rcases kind with _ | _ | op | _ | _ | _
  · intro c hc
    exact isWhiteSpace_eq_false_of_isNamePart (isNamePart_of_isDigit (h.2 c hc))
  · obtain ⟨first, more, rfl, hfirst, hmore⟩ := h
    intro c hc
    rcases List.mem_cons.mp hc with rfl | hc
    · exact isWhiteSpace_eq_false_of_isNamePart (isNamePart_of_isNameStart hfirst)
    · exact isWhiteSpace_eq_false_of_isNamePart (hmore c hc)
  · intro c hc
    rw [show text = op.symbol.toList from h] at hc
    exact isWhiteSpace_eq_false_of_mem_signs (Token.mem_signs_of_mem_symbol op c hc)
  · simp only [show text = ['('] from h, List.mem_singleton, forall_eq]
    decide
  · simp only [show text = [')'] from h, List.mem_singleton, forall_eq]
    decide
  · cases h

/-- A text that a pattern matches is taken as a whole, and for the kind of that pattern. -/
theorem longest_of_matches {kind : Kind} {c : Char} {more : List Char}
    (h : kind.Matches (c :: more)) : longest c more = (kind, more.length) := by
  rcases kind with _ | _ | op | _ | _ | _
  · have hmore : more.takeWhile Char.isDigit = more :=
      List.takeWhile_eq_self_iff.mpr fun d hd => h.2 d (List.mem_cons_of_mem c hd)
    rw [longest_of_isDigit (h.2 c (List.mem_cons_self ..)), hmore]
  · obtain ⟨_, _, heq, hstart, hparts⟩ := h
    cases heq
    rw [longest_of_isNameStart hstart, List.takeWhile_eq_self_iff.mpr hparts]
  · have hlongest : longest c (more ++ []) = (.operator op, more.length) :=
      longest_of_symbol h (by simp)
    rwa [List.append_nil] at hlongest
  · cases h
    exact longest_of_single (by simp [signs]) (by simp)
  · cases h
    exact longest_of_single (by simp [signs]) (by simp)
  · cases h

theorem kind_unique {kind kind' : Kind} {text : List Char} (h : kind.Matches text)
    (h' : kind'.Matches text) : kind = kind' := by
  obtain ⟨c, more, rfl⟩ := List.exists_cons_of_ne_nil (ne_nil_of_matches h)
  have heq := (longest_of_matches h).symm.trans (longest_of_matches h')
  exact (Prod.mk.inj heq).1

/-! ### What is taken matches -/

theorem symbol_of_pairOperator? {c d : Char} {op : Operator} (h : pairOperator? c d = some op) :
    op.symbol.toList = [c, d] := by
  unfold pairOperator? at h
  split at h <;> cases h <;> rfl

theorem singleKind_matches {c : Char} (h : singleKind c ≠ .stray) : (singleKind c).Matches [c] := by
  unfold singleKind at h ⊢
  split at h <;> first | rfl | exact absurd rfl h

theorem take_length_takeWhile (p : Char → Bool) (text : List Char) :
    text.take (text.takeWhile p).length = text.takeWhile p :=
  (List.prefix_iff_eq_take.mp (List.takeWhile_prefix p)).symm

theorem longest_matches {c : Char} {rest : List Char} (h : (longest c rest).1 ≠ .stray) :
    (longest c rest).1.Matches (c :: rest.take (longest c rest).2) := by
  unfold longest at h ⊢
  split_ifs at h ⊢ with hdigit hstart
  · simp only [take_length_takeWhile]
    refine ⟨List.cons_ne_nil _ _, ?_⟩
    intro d hd
    rcases List.mem_cons.mp hd with rfl | hd
    · exact hdigit
    · exact List.mem_takeWhile_imp hd
  · simp only [take_length_takeWhile]
    exact ⟨c, _, rfl, hstart, fun d hd => List.mem_takeWhile_imp hd⟩
  · rcases rest with _ | ⟨d, rest⟩
    · exact singleKind_matches h
    · rcases hpair : pairOperator? c d with _ | op
      · simp only [List.head?_cons, Option.bind_some, hpair] at h ⊢
        exact singleKind_matches h
      · simp only [List.head?_cons, Option.bind_some, hpair]
        exact (symbol_of_pairOperator? hpair).symm

theorem longest_stray {c : Char} {rest : List Char} (h : (longest c rest).1 = .stray) :
    longest c rest = (.stray, 0) := by
  unfold longest at h ⊢
  split_ifs at h ⊢
  split at h
  · cases h
  · exact Prod.ext h rfl

theorem longest_le (c : Char) (rest : List Char) : (longest c rest).2 ≤ rest.length := by
  unfold longest
  split_ifs
  · exact (List.takeWhile_prefix _).length_le
  · exact (List.takeWhile_prefix _).length_le
  · rcases rest with _ | ⟨d, rest⟩
    · exact Nat.le_refl 0
    · simp only [List.head?_cons, Option.bind_some]
      split <;> simp

/-! ### Nothing longer matches -/

theorem length_takeWhile_le (p : Char → Bool) {text rest : List Char} (h : text <+: rest) :
    (text.takeWhile p).length ≤ (rest.takeWhile p).length := by
  obtain ⟨behind, rfl⟩ := h
  rw [List.takeWhile_append]
  split
  · rename_i hall
    rw [hall, List.length_append]
    exact Nat.le_add_right _ _
  · exact Nat.le_refl _

/-- With more text behind it, a place has a lexeme that is at least as long. -/
theorem longest_mono {c : Char} {text rest : List Char} (h : text <+: rest)
    (hkind : (longest c text).1 ≠ .stray) :
    (longest c rest).1 ≠ .stray ∧ (longest c text).2 ≤ (longest c rest).2 := by
  unfold longest at hkind ⊢
  split_ifs at hkind ⊢
  · exact ⟨by simp, length_takeWhile_le Char.isDigit h⟩
  · exact ⟨by simp, length_takeWhile_le isNamePart h⟩
  · rcases text with _ | ⟨d, text⟩
    · -- A sign alone may be the first character of a pair, which is longer.
      replace hkind : singleKind c ≠ .stray := hkind
      split
      · exact ⟨by simp, Nat.zero_le _⟩
      · exact ⟨hkind, Nat.zero_le _⟩
    · obtain ⟨behind, rfl⟩ := h
      exact ⟨hkind, Nat.le_refl _⟩

/-- **Whatever a pattern matches at a place, at least as much is taken there.** -/
theorem le_longest_of_matches {kind : Kind} {c : Char} {text rest : List Char}
    (h : kind.Matches (c :: text)) (hfront : text <+: rest) :
    (longest c rest).1 ≠ .stray ∧ text.length ≤ (longest c rest).2 := by
  have hlongest := longest_of_matches h
  have hkind : kind ≠ .stray := by
    intro hstray
    rw [hstray] at h
    exact h
  have hmono := longest_mono hfront (by rwa [hlongest])
  rwa [hlongest] at hmono

/-! ### The longest lexeme at a place -/

/--
A lexeme in front of a text is the longest one at its place.  Either its characters
match the pattern of its kind, and no longer text from this place on matches any; or
it is a stray, one character that is not white space, and no text from this place on
matches any pattern.
-/
inductive IsLongest (l : Lexeme) (rest : List Char) : Prop
  | lexeme (matching : l.kind.Matches l.chars)
      (maximal : ∀ text, text <+: l.chars ++ rest → l.chars.length < text.length →
        ∀ kind : Kind, ¬ kind.Matches text)
  | stray (unknown : l.kind = .stray) (single : l.more = []) (space : isWhiteSpace l.first = false)
      (unmatched : ∀ text, text <+: l.chars ++ rest → text ≠ [] →
        ∀ kind : Kind, ¬ kind.Matches text)

theorem exists_prefix_of_matches {kind : Kind} {l : Lexeme} {text rest : List Char}
    (h : kind.Matches text) (hfront : text <+: l.chars ++ rest) :
    ∃ more, text = l.first :: more ∧ more <+: l.more ++ rest := by
  rw [chars, List.cons_append] at hfront
  obtain ⟨d, more, rfl⟩ := List.exists_cons_of_ne_nil (ne_nil_of_matches h)
  obtain ⟨rfl, hmore⟩ := List.cons_prefix_cons.mp hfront
  exact ⟨more, rfl, hmore⟩

theorem cons_take_isPrefix (l : Lexeme) (rest : List Char) (n : Nat) :
    l.first :: (l.more ++ rest).take n <+: l.chars ++ rest := by
  rw [chars, List.cons_append]
  exact List.cons_prefix_cons.mpr ⟨rfl, List.take_prefix n _⟩

/-- What the scan takes matches, and no more is matched. -/
theorem isLongest_of_longest {l : Lexeme} {rest : List Char} (hspace : isWhiteSpace l.first = false)
    (h : longest l.first (l.more ++ rest) = (l.kind, l.more.length)) : l.IsLongest rest := by
  by_cases hstray : l.kind = .stray
  · have hnone := longest_stray (by rw [h]; exact hstray)
    have hsingle : l.more = [] := by
      rw [h] at hnone
      exact List.eq_nil_of_length_eq_zero (Prod.mk.inj hnone).2
    refine .stray hstray hsingle hspace ?_
    intro text hfront _ kind hmatches
    obtain ⟨more, rfl, hmore⟩ := exists_prefix_of_matches hmatches hfront
    refine (le_longest_of_matches hmatches hmore).1 ?_
    rw [h]
    exact hstray
  · refine .lexeme ?_ ?_
    · have hkind : (longest l.first (l.more ++ rest)).1 ≠ .stray := by rwa [h]
      have hmatches := longest_matches hkind
      rwa [h, List.take_left] at hmatches
    · intro text hfront hlonger kind hmatches
      obtain ⟨more, rfl, hmore⟩ := exists_prefix_of_matches hmatches hfront
      have hle := (le_longest_of_matches hmatches hmore).2
      rw [h] at hle
      rw [chars, List.length_cons, List.length_cons] at hlonger
      omega

/-- A text that matches and that no longer one does is what the scan takes. -/
theorem longest_of_maximal {l : Lexeme} {rest : List Char} (h : l.kind.Matches l.chars)
    (hmax : ∀ text, text <+: l.chars ++ rest → l.chars.length < text.length →
      ∀ kind : Kind, ¬ kind.Matches text) :
    longest l.first (l.more ++ rest) = (l.kind, l.more.length) := by
  obtain ⟨hkind, hle⟩ := le_longest_of_matches h (List.prefix_append l.more rest)
  have hmatches := longest_matches hkind
  have hlength : (longest l.first (l.more ++ rest)).2 = l.more.length := by
    by_contra hne
    have htaken := longest_le l.first (l.more ++ rest)
    refine hmax _ (cons_take_isPrefix l rest _) ?_ _ hmatches
    rw [chars, List.length_cons, List.length_cons, List.length_take]
    omega
  rw [hlength, List.take_left] at hmatches
  rw [← hlength, ← kind_unique hmatches h]

/-- **The longest lexeme at a place is the one that the scan takes there.** -/
theorem isLongest_iff {l : Lexeme} {rest : List Char} :
    l.IsLongest rest ↔
      isWhiteSpace l.first = false ∧
        longest l.first (l.more ++ rest) = (l.kind, l.more.length) := by
  constructor
  · rintro (⟨hmatches, hmax⟩ | ⟨hstray, hsingle, hspace, hnone⟩)
    · exact ⟨isWhiteSpace_eq_false_of_matches hmatches l.first (List.mem_cons_self ..),
        longest_of_maximal hmatches hmax⟩
    · refine ⟨hspace, ?_⟩
      have hkind : (longest l.first (l.more ++ rest)).1 = .stray := by
        by_contra hkind
        exact hnone _ (cons_take_isPrefix l rest _) (List.cons_ne_nil _ _) _ (longest_matches hkind)
      rw [longest_stray hkind, hstray, hsingle]
      rfl
  · rintro ⟨hspace, hlongest⟩
    exact isLongest_of_longest hspace hlongest

/-! ### What the scan takes -/

section LongestAt

variable {start : Nat} {c : Char} {text : List Char}

theorem chars_longestAt_append :
    (longestAt start c text).chars ++ text.drop (longest c text).2 = c :: text := by
  rw [chars, longestAt, List.cons_append, List.take_append_drop]

theorem isLongest_longestAt (hspace : isWhiteSpace c = false) :
    (longestAt start c text).IsLongest (text.drop (longest c text).2) := by
  refine isLongest_of_longest hspace ?_
  simp only [longestAt, List.take_append_drop, List.length_take,
    Nat.min_eq_left (longest_le c text)]

end LongestAt

end Reckon.Lexeme
