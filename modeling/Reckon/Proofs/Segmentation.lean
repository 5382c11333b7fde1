/-
The lexemes of a text are its one longest-match segmentation.

`Segments` says what a sequence of lexemes is to a text: their stretches hold something,
come one after the other, lie in the text and begin and end between its characters; what
no lexeme takes is white space; and each lexeme is the longest one at its place, or a
stray where there is none (`IsLongest`).  Nothing in it speaks of a scan.

The scan satisfies this, and nothing else does (`segments_iff_scan`).  The proof follows the
scan.  White space at the front is in no lexeme, because no lexeme begins with it.  Any
other character at the front must be in one; that one begins there, so it comes first
and is the longest at this place, and the others are segments of what is left.

A place in a text is a number of bytes, and what stands behind it is a list of
characters.  `Behind` joins the two, so a place that `Behind` speaks of is one between
two characters (`exists_behind_iff`).
-/
import Reckon.Proofs.Longest

namespace Reckon

/-! ### Places in a text -/

theorem utf8ByteSize_ofList (text : List Char) :
    (String.ofList text).utf8ByteSize = byteLength text := by
  induction text with
  | nil => rfl
  | cons c text ih =>
      rw [String.ofList_cons, String.utf8ByteSize_append, String.utf8ByteSize_singleton, ih,
        byteLength_cons]

/-- What stands behind a place, in a text that has `start` bytes before it. -/
def Behind (start : Nat) (text : List Char) (place : Nat) (rest : List Char) : Prop :=
  ∃ before, text = before ++ rest ∧ place = start + byteLength before

theorem exists_behind_iff {source : String} {place : Nat} :
    (∃ rest, Behind 0 source.toList place rest) ↔ (String.Pos.Raw.mk place).IsValid source := by
  rw [String.Pos.Raw.isValid_iff_exists_take_toList]
  constructor
  · rintro ⟨rest, before, htext, hplace⟩
    refine ⟨before.length, ?_⟩
    rw [htext, List.take_left, utf8ByteSize_ofList, hplace, Nat.zero_add]
  · rintro ⟨n, hplace⟩
    refine ⟨source.toList.drop n, source.toList.take n, (List.take_append_drop ..).symm, ?_⟩
    rw [Nat.zero_add, ← utf8ByteSize_ofList]
    exact hplace

namespace Behind

variable {start place : Nat} {c : Char} {front text rest : List Char}

theorem le (h : Behind start text place rest) : start ≤ place := by
  obtain ⟨before, -, rfl⟩ := h
  exact Nat.le_add_right _ _

theorem skip (h : Behind start text place (front ++ rest)) :
    Behind start text (place + byteLength front) rest := by
  obtain ⟨before, rfl, rfl⟩ := h
  refine ⟨before ++ front, (List.append_assoc ..).symm, ?_⟩
  rw [byteLength_append, Nat.add_assoc]

theorem nil_iff : Behind start [] place rest ↔ place = start ∧ rest = [] := by
  constructor
  · rintro ⟨before, htext, hplace⟩
    obtain ⟨rfl, rfl⟩ := List.append_eq_nil_iff.mp htext.symm
    exact ⟨hplace, rfl⟩
  · rintro ⟨rfl, rfl⟩
    exact ⟨[], rfl, rfl⟩

theorem cons_iff : Behind start (c :: text) place rest ↔
    place = start ∧ rest = c :: text ∨ Behind (start + c.utf8Size) text place rest := by
  constructor
  · rintro ⟨before, htext, hplace⟩
    rcases before with _ | ⟨d, before⟩
    · exact .inl ⟨hplace, htext.symm⟩
    · obtain ⟨rfl, rfl⟩ := List.cons.inj htext
      exact .inr ⟨before, rfl, by rw [hplace, byteLength_cons, Nat.add_assoc]⟩
  · rintro (⟨rfl, rfl⟩ | ⟨before, rfl, hplace⟩)
    · exact ⟨[], rfl, rfl⟩
    · exact ⟨c :: before, rfl, by rw [hplace, byteLength_cons, Nat.add_assoc]⟩

theorem append_iff (h : start + byteLength front ≤ place) :
    Behind start (front ++ text) place rest ↔
      Behind (start + byteLength front) text place rest := by
  induction front generalizing start with
  | nil => rfl
  | cons c front ih =>
      have hpos := Char.utf8Size_pos c
      rw [byteLength_cons, ← Nat.add_assoc] at h ⊢
      rw [List.cons_append, cons_iff, or_iff_right (by omega), ih h]

end Behind

/-! ### Segments of a text -/

namespace Lexeme

/--
What the lexemes of a text that has `start` bytes before it are, without a word on how
they are found.
-/
structure Segments (start : Nat) (text : List Char) (lexemes : List Lexeme) : Prop where
  /-- Each lexeme takes something. -/
  nonempty : ∀ l ∈ lexemes, l.start < l.stop
  /-- A lexeme stops before the next ones start. -/
  ordered : lexemes.Pairwise fun l next => l.stop ≤ next.start
  /-- A lexeme stands in the text at its place, and is the longest one there. -/
  placed : ∀ l ∈ lexemes, ∃ rest, Behind start text l.start (l.chars ++ rest) ∧ l.IsLongest rest
  /-- A character that no lexeme takes is white space. -/
  covered : ∀ place c rest, Behind start text place (c :: rest) →
    (∀ l ∈ lexemes, place < l.start ∨ l.stop ≤ place) → isWhiteSpace c = true

/-- Segments begin and end in the text, at boundaries between its characters. -/
theorem Segments.isValid {source : String} {lexemes : List Lexeme}
    (h : Segments 0 source.toList lexemes) {l : Lexeme} (hl : l ∈ lexemes) :
    (String.Pos.Raw.mk l.start).IsValid source ∧ (String.Pos.Raw.mk l.stop).IsValid source := by
  obtain ⟨rest, hbehind, -⟩ := h.placed l hl
  exact ⟨exists_behind_iff.mp ⟨_, hbehind⟩, exists_behind_iff.mp ⟨rest, hbehind.skip⟩⟩

theorem segments_nil_iff {start : Nat} {lexemes : List Lexeme} :
    Segments start [] lexemes ↔ lexemes = [] := by
  constructor
  · intro h
    refine List.eq_nil_iff_forall_not_mem.mpr fun l hl => ?_
    obtain ⟨rest, hbehind, -⟩ := h.placed l hl
    exact List.cons_ne_nil _ _ (Behind.nil_iff.mp hbehind).2
  · rintro rfl
    refine ⟨by simp, List.Pairwise.nil, by simp, ?_⟩
    intro place c rest hbehind
    exact absurd (Behind.nil_iff.mp hbehind).2 (List.cons_ne_nil c rest)

variable {start : Nat} {c : Char} {text : List Char} {lexemes : List Lexeme}

theorem behind_of_isWhiteSpace (hspace : isWhiteSpace c = true) {l : Lexeme} {rest : List Char}
    (h : Behind start (c :: text) l.start (l.chars ++ rest)) (hlongest : l.IsLongest rest) :
    Behind (start + c.utf8Size) text l.start (l.chars ++ rest) := by
  rcases Behind.cons_iff.mp h with ⟨-, htext⟩ | hbehind
  · have hfirst : l.first = c := (List.cons.inj htext).1
    exact absurd hfirst.symm (ne_of_holds hspace (isLongest_iff.mp hlongest).1)
  · exact hbehind

/-- White space at the front of a text is in none of its segments. -/
theorem segments_whiteSpace_iff (hspace : isWhiteSpace c = true) :
    Segments start (c :: text) lexemes ↔ Segments (start + c.utf8Size) text lexemes := by
  constructor
  · intro h
    refine ⟨h.nonempty, h.ordered, ?_, ?_⟩
    · intro l hl
      obtain ⟨rest, hbehind, hlongest⟩ := h.placed l hl
      exact ⟨rest, behind_of_isWhiteSpace hspace hbehind hlongest, hlongest⟩
    · intro place d rest hbehind
      exact h.covered place d rest (Behind.cons_iff.mpr (.inr hbehind))
  · intro h
    refine ⟨h.nonempty, h.ordered, ?_, ?_⟩
    · intro l hl
      obtain ⟨rest, hbehind, hlongest⟩ := h.placed l hl
      exact ⟨rest, Behind.cons_iff.mpr (.inr hbehind), hlongest⟩
    · intro place d rest hbehind hfree
      rcases Behind.cons_iff.mp hbehind with ⟨-, htext⟩ | hbehind
      · rw [(List.cons.inj htext).1]
        exact hspace
      · exact h.covered place d rest hbehind hfree

/-- Any other character at the front of a text is taken by some segment. -/
theorem Segments.exists_taking (hspace : isWhiteSpace c = false)
    (h : Segments start (c :: text) lexemes) : ∃ l ∈ lexemes, l.start ≤ start ∧ start < l.stop := by
  by_contra hnone
  have hfree : ∀ l ∈ lexemes, start < l.start ∨ l.stop ≤ start := by
    intro l hl
    by_contra htaken
    exact hnone ⟨l, hl, by omega, by omega⟩
  have hbehind : Behind start (c :: text) start (c :: text) :=
    Behind.cons_iff.mpr (.inl ⟨rfl, rfl⟩)
  exact ne_of_holds (h.covered start c text hbehind hfree) hspace rfl

/-- That segment is the first one, and starts with the character. -/
theorem Segments.exists_first (hspace : isWhiteSpace c = false)
    (h : Segments start (c :: text) lexemes) :
    ∃ l others rest, lexemes = l :: others ∧ l.start = start ∧ l.chars ++ rest = c :: text ∧
      l.IsLongest rest := by
  obtain ⟨l, hl, hstart, -⟩ := h.exists_taking hspace
  obtain ⟨rest, hbehind, hlongest⟩ := h.placed l hl
  have heq : l.start = start := Nat.le_antisymm hstart hbehind.le
  have htext : l.chars ++ rest = c :: text := by
    rcases Behind.cons_iff.mp hbehind with ⟨-, htext⟩ | hlater
    · exact htext
    · have := hlater.le
      have := Char.utf8Size_pos c
      omega
  rcases lexemes with _ | ⟨first, others⟩
  · cases hl
  rcases List.mem_cons.mp hl with rfl | hl
  · exact ⟨l, others, rest, rfl, heq, htext, hlongest⟩
  · -- One before it would have to stop where the text begins.
    obtain ⟨_, hbefore, -⟩ := h.placed first (List.mem_cons_self ..)
    have := (List.pairwise_cons.mp h.ordered).1 l hl
    have := first.start_lt_stop
    have := hbefore.le
    omega

/-- Behind the first segment, the others are segments of what is left of the text. -/
theorem segments_cons_iff {l : Lexeme} {others : List Lexeme} {rest : List Char}
    (hlongest : l.IsLongest rest) :
    Segments l.start (l.chars ++ rest) (l :: others) ↔ Segments l.stop rest others := by
  constructor
  · intro h
    obtain ⟨hlater, hordered⟩ := List.pairwise_cons.mp h.ordered
    refine ⟨fun l' hl' => h.nonempty l' (List.mem_cons_of_mem l hl'), hordered, ?_, ?_⟩
    · intro l' hl'
      obtain ⟨rest', hbehind, hlongest'⟩ := h.placed l' (List.mem_cons_of_mem l hl')
      exact ⟨rest', (Behind.append_iff (hlater l' hl')).mp hbehind, hlongest'⟩
    · intro place c rest' hbehind hfree
      refine h.covered place c rest' ((Behind.append_iff hbehind.le).mpr hbehind) ?_
      intro l' hl'
      rcases List.mem_cons.mp hl' with rfl | hl'
      · exact .inr hbehind.le
      · exact hfree l' hl'
  · intro h
    have hlater : ∀ l' ∈ others, l.stop ≤ l'.start := by
      intro l' hl'
      obtain ⟨rest', hbehind, -⟩ := h.placed l' hl'
      exact hbehind.le
    refine ⟨fun l' _ => l'.start_lt_stop, List.pairwise_cons.mpr ⟨hlater, h.ordered⟩, ?_, ?_⟩
    · intro l' hl'
      rcases List.mem_cons.mp hl' with rfl | hl'
      · exact ⟨rest, ⟨[], rfl, rfl⟩, hlongest⟩
      · obtain ⟨rest', hbehind, hlongest'⟩ := h.placed l' hl'
        exact ⟨rest', (Behind.append_iff (hlater l' hl')).mpr hbehind, hlongest'⟩
    · intro place c rest' hbehind hfree
      -- The place is not in the first segment, so it is behind it.
      have hplace : l.stop ≤ place := by
        have := hfree l (List.mem_cons_self ..)
        have := hbehind.le
        omega
      refine h.covered place c rest' ((Behind.append_iff hplace).mp hbehind) ?_
      exact fun l' hl' => hfree l' (List.mem_cons_of_mem l hl')

/-! ### The scan -/

theorem IsLongest.eq_longestAt {l : Lexeme} {rest : List Char} (h : l.IsLongest rest)
    (hstart : l.start = start) (htext : l.chars ++ rest = c :: text) :
    l = longestAt start c text := by
  rw [chars, List.cons_append] at htext
  obtain ⟨rfl, rfl⟩ := List.cons.inj htext
  rw [longestAt, (isLongest_iff.mp h).2, List.take_left, ← hstart]

theorem segments_iff_scanFrom (start : Nat) (text : List Char) (lexemes : List Lexeme) :
    Segments start text lexemes ↔ lexemes = scanFrom start text := by
  induction start, text using scanFrom.induct generalizing lexemes with
  | case1 start => rw [scanFrom_nil, segments_nil_iff]
  | case2 start c rest hspace ih =>
      rw [scanFrom_whiteSpace hspace, segments_whiteSpace_iff hspace, ih]
  | case3 start c rest hspace lexeme ih =>
      replace hspace : isWhiteSpace c = false := Bool.eq_false_iff.mpr hspace
      have hstep (others : List Lexeme) :
          Segments start (c :: rest) (lexeme :: others) ↔
            Segments lexeme.stop (rest.drop (longest c rest).2) others := by
        rw [← chars_longestAt_append]
        exact segments_cons_iff (isLongest_longestAt hspace)
      rw [scanFrom_lexeme hspace]
      constructor
      · intro h
        obtain ⟨l, others, behind, rfl, hstart, htext, hlongest⟩ := h.exists_first hspace
        obtain rfl := hlongest.eq_longestAt hstart htext
        rw [(ih others).mp ((hstep others).mp h)]
      · rintro rfl
        exact (hstep _).mpr ((ih _).mpr rfl)

/-- **The lexemes of a text are its segments, and a text has no other segments.** -/
theorem segments_iff_scan (source : String) (lexemes : List Lexeme) :
    Segments 0 source.toList lexemes ↔ lexemes = scan source :=
  segments_iff_scanFrom 0 source.toList lexemes

-- Three signs are cut after the second, and what is left of them begins nothing.
example : (scan "a<== 1b").map Lexeme.text = ["a", "<=", "=", "1", "b"] := by decide +kernel

end Lexeme

end Reckon
