/-
White space cuts a scan in two.

No pattern allows white space, and none is recognized by what stands behind it.  So the longest
lexeme at a place is the same whether the text ends there, or white space and anything else
comes behind (`longest_append`).  The scan of a text with more behind it is then the scan of the
text alone, and a scan that begins where the text stops (`scanFrom_append`).  This is so for any
text: a character that begins nothing is cut off as a stray on its own either way.

Where a scan begins is no more than what is added to every place (`scanFrom_add`).  So white
space in the middle of a text only moves what is behind it.  Without their places the lexemes
are the same whatever the white space is, and so is all that is read from them: tokens, the
characters reported, which lexeme is the first one at fault.
-/
import Reckon.Proofs.Outcome
import Reckon.Proofs.Segmentation

namespace Reckon

namespace Lexeme

/-! ### Places -/

/-- A lexeme so many bytes further on. -/
def shift (offset : Nat) (l : Lexeme) : Lexeme :=
  { l with start := offset + l.start }

theorem stop_shift (offset : Nat) (l : Lexeme) : (l.shift offset).stop = offset + l.stop :=
  Nat.add_assoc offset l.start l.length

/-- A scan that begins further on finds the same lexemes, all of them as much further on. -/
theorem scanFrom_add (offset start : Nat) (text : List Char) :
    scanFrom (offset + start) text = (scanFrom start text).map (shift offset) := by
  induction start, text using scanFrom.induct with
  | case1 start => rw [scanFrom_nil, scanFrom_nil, List.map_nil]
  | case2 start c rest hspace ih =>
      rw [scanFrom_whiteSpace hspace, scanFrom_whiteSpace hspace, Nat.add_assoc, ih]
  | case3 start c rest hspace lexeme ih =>
      replace hspace : isWhiteSpace c = false := Bool.eq_false_iff.mpr hspace
      have hlexeme : longestAt (offset + start) c rest = lexeme.shift offset := rfl
      rw [scanFrom_lexeme hspace, scanFrom_lexeme hspace, hlexeme, stop_shift, ih, List.map_cons]

/-! ### White space behind a text -/

theorem takeWhile_append_of_head {p : Char → Bool} {text rest : List Char}
    (hrest : ∀ c ∈ rest.head?, p c = false) : (text ++ rest).takeWhile p = text.takeWhile p := by
  induction text with
  | nil =>
      have hnone : ([] ++ rest).takeWhile p = [] := takeWhile_of_head (by simp) hrest
      exact hnone
  | cons c text ih =>
      rw [List.cons_append]
      by_cases hc : p c = true
      · rw [List.takeWhile_cons_of_pos hc, List.takeWhile_cons_of_pos hc, ih]
      · rw [List.takeWhile_cons_of_neg hc, List.takeWhile_cons_of_neg hc]

theorem pairOperator?_of_isWhiteSpace {c d : Char} (h : isWhiteSpace d = true) :
    pairOperator? c d = none := by
  rcases hpair : pairOperator? c d with _ | op
  · rfl
  · have hsign : d ∈ signs :=
      Token.mem_signs_of_mem_symbol op d (by simp [symbol_of_pairOperator? hpair])
    exact absurd rfl (ne_of_holds h (isWhiteSpace_eq_false_of_mem_signs hsign))

section

variable {rest : List Char} (hrest : ∀ d ∈ rest.head?, isWhiteSpace d = true)
include hrest

/-- **What is taken at a place does not look past white space.** -/
theorem longest_append (c : Char) (text : List Char) :
    longest c (text ++ rest) = longest c text := by
  have hdigits : (text ++ rest).takeWhile Char.isDigit = text.takeWhile Char.isDigit :=
    takeWhile_append_of_head fun d hd => isDigit_eq_false_of_isWhiteSpace (hrest d hd)
  have hparts : (text ++ rest).takeWhile isNamePart = text.takeWhile isNamePart :=
    takeWhile_append_of_head fun d hd => isNamePart_eq_false_of_isWhiteSpace (hrest d hd)
  have hpair : (text ++ rest).head?.bind (pairOperator? c) =
      text.head?.bind (pairOperator? c) := by
    rcases text with _ | ⟨d, text⟩
    · rw [List.nil_append, List.head?_nil, Option.bind_none, Option.bind_eq_none_iff]
      exact fun d hd => pairOperator?_of_isWhiteSpace (hrest d hd)
    · rfl
  unfold longest
  rw [hdigits, hparts, hpair]

theorem scanFrom_append (start : Nat) (text : List Char) :
    scanFrom start (text ++ rest) =
      scanFrom start text ++ scanFrom (start + byteLength text) rest := by
  induction start, text using scanFrom.induct with
  | case1 start => rw [scanFrom_nil, byteLength_nil, List.nil_append, List.nil_append, Nat.add_zero]
  | case2 start c text hspace ih =>
      rw [List.cons_append, scanFrom_whiteSpace hspace, scanFrom_whiteSpace hspace, ih,
        byteLength_cons, Nat.add_assoc]
  | case3 start c text hspace lexeme ih =>
      replace hspace : isWhiteSpace c = false := Bool.eq_false_iff.mpr hspace
      have hle := longest_le c text
      have hlexeme : longestAt start c (text ++ rest) = lexeme := by
        simp only [lexeme, longestAt, longest_append hrest, List.take_append_of_le_length hle]
      -- What the lexeme takes and what it leaves are the text.
      have hstop : lexeme.stop + byteLength (text.drop (longest c text).2) =
          start + byteLength (c :: text) := by
        rw [← @chars_longestAt_append start c text, byteLength_append, ← Nat.add_assoc]
        rfl
      rw [List.cons_append, scanFrom_lexeme hspace, scanFrom_lexeme hspace, hlexeme,
        longest_append hrest, List.drop_append_of_le_length hle, ih, hstop, List.cons_append]

end

/-- **White space between two texts keeps their scans apart**, and moves the second one on. -/
theorem scan_append {s w t : String} (hne : w ≠ "") (hw : ∀ c ∈ w.toList, isWhiteSpace c = true) :
    scan (s ++ w ++ t) = scan s ++ (scan t).map (shift (s ++ w).utf8ByteSize) := by
  have hhead : ∀ d ∈ (w.toList ++ t.toList).head?, isWhiteSpace d = true := by
    obtain ⟨c, gap, hgap⟩ := List.exists_cons_of_ne_nil (mt String.toList_eq_nil_iff.mp hne)
    intro d hd
    rw [hgap, List.cons_append, List.head?_cons, Option.mem_some_iff] at hd
    exact hw d (by simp [hgap, hd])
  have hbytes : byteLength s.toList + byteLength w.toList = (s ++ w).utf8ByteSize := by
    rw [← byteLength_append, ← String.toList_append, ← utf8ByteSize_ofList, String.ofList_toList]
  unfold scan
  rw [String.toList_append, String.toList_append, List.append_assoc, scanFrom_append hhead,
    scanFrom_gap hw, Nat.zero_add, hbytes]
  exact congrArg _ (scanFrom_add _ 0 _)

end Lexeme

/-! ### Without places -/

/-- An error without its place. It keeps what was found, and how many bytes that takes. -/
def LexicalError.unplaced : LexicalError → LexicalError
  | .unexpected found span => .unexpected found ⟨0, span.length⟩
  | .outOfRange span => .outOfRange ⟨0, span.length⟩

namespace Lexeme

/-- A lexeme without its place. -/
def unplaced (l : Lexeme) : Lexeme :=
  { l with start := 0 }

/-- What a lexeme is read as, a token or a character or number reported without its place. -/
def reading (l : Lexeme) : Except LexicalError Token :=
  l.token.mapError LexicalError.unplaced

/-- A place plays no part but in errors, where it is left out. -/
theorem token_unplaced (l : Lexeme) : l.unplaced.token = l.reading := by
  rcases l with ⟨kind, start, first, more⟩
  cases kind with
  | number =>
      unfold reading Lexeme.token
      by_cases hlimit : Decimal.value (first :: more) < Decimal.limit
      · simp [unplaced, chars, hlimit, Except.mapError]
      · simp [unplaced, chars, hlimit, Except.mapError, LexicalError.unplaced, span, length]
  | name | operator _ | opening | closing | stray => rfl

theorem map_reading (lexemes : List Lexeme) :
    lexemes.map reading = (lexemes.map unplaced).map Lexeme.token := by
  rw [List.map_map]
  exact List.map_congr_left fun l _ => (token_unplaced l).symm

theorem isOk_reading (l : Lexeme) : l.reading.isOk = l.token.isOk := by
  unfold reading
  rcases l.token with error | token <;> rfl

end Lexeme

/-- Two texts that scan alike, but for places. -/
structure SameScan (source source' : String) : Prop where
  /-- They have the same lexemes. -/
  lexemes : (Lexeme.scan source).map Lexeme.unplaced = (Lexeme.scan source').map Lexeme.unplaced
  /-- Lexeme by lexeme the same token is read, or the same character or number is reported. -/
  readings : (Lexeme.scan source).map Lexeme.reading = (Lexeme.scan source').map Lexeme.reading
  /-- As many lexemes are before the first one at fault, if there is one. -/
  fault : ((Lexeme.scan source).findIdx? fun l => !l.token.isOk) =
    (Lexeme.scan source').findIdx? fun l => !l.token.isOk
  /-- They have the same tokens, or the same is reported first. -/
  outcome : (tokenize source).mapError LexicalError.unplaced =
    (tokenize source').mapError LexicalError.unplaced

theorem findIdx?_reading (lexemes : List Lexeme) :
    (lexemes.findIdx? fun l => !l.token.isOk) =
      (lexemes.map Lexeme.reading).findIdx? fun reading => !reading.isOk := by
  rw [List.findIdx?_map]
  congr 1
  funext l
  rw [Function.comp_apply, l.isOk_reading]

theorem tokenize_reading (source : String) :
    (tokenize source).mapError LexicalError.unplaced =
      (((Lexeme.scan source).map Lexeme.reading).mapM id).map (· ++ [.finish]) := by
  have hmapM : ((Lexeme.scan source).map Lexeme.reading).mapM id =
      ((Lexeme.scan source).mapM Lexeme.token).mapError LexicalError.unplaced := by
    rw [List.mapM_map, Function.id_comp]
    exact Except.mapM_mapError ..
  rw [hmapM, tokenize]
  rcases (Lexeme.scan source).mapM Lexeme.token with error | tokens <;> rfl

/-- All of this follows from the lexemes. -/
theorem SameScan.of_lexemes {source source' : String}
    (h : (Lexeme.scan source).map Lexeme.unplaced = (Lexeme.scan source').map Lexeme.unplaced) :
    SameScan source source' := by
  have hreadings : (Lexeme.scan source).map Lexeme.reading =
      (Lexeme.scan source').map Lexeme.reading := by
    rw [Lexeme.map_reading, Lexeme.map_reading, h]
  refine ⟨h, hreadings, ?_, ?_⟩
  · rw [findIdx?_reading, findIdx?_reading, hreadings]
  · rw [tokenize_reading, tokenize_reading, hreadings]

/-- Without places, the lexemes do not tell what white space is between the texts. -/
theorem Lexeme.unplaced_scan_append {s w t : String} (hne : w ≠ "")
    (hw : ∀ c ∈ w.toList, isWhiteSpace c = true) :
    (scan (s ++ w ++ t)).map unplaced = (scan s).map unplaced ++ (scan t).map unplaced := by
  rw [scan_append hne hw, List.map_append, List.map_map]
  rfl

/--
**White space splits a scan.**  Whatever texts are before and behind some white space, also ones
with errors in them, the lexemes of all of it are those of the first text, and those of the
second as many bytes further on as there are before it.

So other white space in its place, and white space at either end of a text, make no difference to
what the lexemes are, to the tokens and characters they are read as, to which of them is the
first error, nor to what `tokenize` gives.  Only places differ.
-/
theorem scan_split (s t : String) {w : String} (hne : w ≠ "")
    (hw : ∀ c ∈ w.toList, isWhiteSpace c = true) :
    Lexeme.scan (s ++ w ++ t) =
      Lexeme.scan s ++ (Lexeme.scan t).map (Lexeme.shift (s ++ w).utf8ByteSize) ∧
    (∀ w' : String, w' ≠ "" → (∀ c ∈ w'.toList, isWhiteSpace c = true) →
      SameScan (s ++ w ++ t) (s ++ w' ++ t)) ∧
    SameScan (w ++ t) t ∧ SameScan (s ++ w) s := by
  have hnothing : (Lexeme.scan "").map Lexeme.unplaced = [] := by
    rw [Lexeme.scan, String.toList_empty, Lexeme.scanFrom_nil, List.map_nil]
  refine ⟨Lexeme.scan_append hne hw, ?_, .of_lexemes ?_, .of_lexemes ?_⟩
  · intro w' hne' hw'
    refine .of_lexemes ?_
    rw [Lexeme.unplaced_scan_append hne hw, Lexeme.unplaced_scan_append hne' hw']
  · have hfront := Lexeme.unplaced_scan_append (s := "") (t := t) hne hw
    rwa [String.empty_append, hnothing, List.nil_append] at hfront
  · have hback := Lexeme.unplaced_scan_append (s := s) (t := "") hne hw
    rwa [String.append_empty, hnothing, List.append_nil] at hback

/--
Two characters of white space, of three bytes and of one, between `<` and `=`, which would be an
operator without them, and a stray behind.
-/
theorem scan_split_wide :
    ("\u2003\n" ≠ "" ∧ (∀ c ∈ "\u2003\n".toList, isWhiteSpace c = true) ∧
      " " ≠ "" ∧ ∀ c ∈ " ".toList, isWhiteSpace c = true) ∧
    Lexeme.scan ("$<" ++ "\u2003\n" ++ "=é€") = [⟨.stray, 0, '$', []⟩, ⟨.operator .lt, 1, '<', []⟩,
      ⟨.stray, 6, '=', []⟩, ⟨.name, 7, 'é', []⟩, ⟨.stray, 9, '€', []⟩] ∧
    SameScan ("$<" ++ "\u2003\n" ++ "=é€") ("$<" ++ " " ++ "=é€") ∧
    SameScan ("\u2003\n" ++ "=é€") "=é€" ∧ SameScan ("$<" ++ "\u2003\n") "$<" := by
  have hne : "\u2003\n" ≠ "" := by decide
  have hwide : ∀ c ∈ "\u2003\n".toList, isWhiteSpace c = true :=
    List.all_eq_true.mp (by decide)
  have hne' : " " ≠ "" := by decide
  have hspace : ∀ c ∈ " ".toList, isWhiteSpace c = true := List.all_eq_true.mp (by decide)
  obtain ⟨hscan, hother, hfront, hback⟩ := scan_split "$<" "=é€" hne hwide
  refine ⟨⟨hne, hwide, hne', hspace⟩, ?_, hother " " hne' hspace, hfront, hback⟩
  rw [hscan]
  decide +kernel

end Reckon
