/-
What a definition is read as.

The first equals sign cuts a text into two halves, and without one the text is no definition.
The white space at the ends of the halves is cut off, and `Trimmed` says what that leaves without
saying how.  What is left of the first half is the name and what is left of the second one is read
as a value.  Each way to fail has its own place in that order, so every text is read as one thing
and no other (`parse_eq_iff`).

A name that holds no equals sign and no white space at its ends can be defined with any value, and
the names of expressions are such names.
-/
import Reckon.Definition
import Reckon.Proofs.Printing
import Reckon.Proofs.SignedDecimal

namespace Reckon

/-! ### White space at the ends -/

/-- All that is cut off a text is white space, and what is left has none at its ends. -/
structure Trimmed (text core : List Char) : Prop where
  padded : ∃ front back, text = front ++ core ++ back ∧
    (∀ c ∈ front, isWhiteSpace c = true) ∧ ∀ c ∈ back, isWhiteSpace c = true
  first : ∀ c ∈ core.head?, isWhiteSpace c = false
  last : ∀ c ∈ core.getLast?, isWhiteSpace c = false

theorem Trimmed.trim_eq {text core : List Char} (h : Trimmed text core) : trim text = core := by
  obtain ⟨⟨front, back, rfl, hfront, hback⟩, hfirst, hlast⟩ := h
  by_cases hcore : core = []
  · subst hcore
    rw [List.append_nil, trim,
      List.dropWhile_eq_nil_iff.mpr (List.forall_mem_append.mpr ⟨hfront, hback⟩)]
    rfl
  · have hdrop : (front ++ core ++ back).dropWhile isWhiteSpace = core ++ back := by
      rw [List.append_assoc]
      refine dropWhile_of_head hfront ?_
      rw [List.head?_append_of_ne_nil _ hcore]
      exact hfirst
    have hreverse : (back.reverse ++ core.reverse).dropWhile isWhiteSpace = core.reverse := by
      refine dropWhile_of_head (by simpa using hback) ?_
      rw [List.head?_reverse]
      exact hlast
    rw [trim, hdrop, List.reverse_append, hreverse, List.reverse_reverse]

theorem trimmed_trim (text : List Char) : Trimmed text (trim text) := by
  generalize hmiddle : text.dropWhile isWhiteSpace = middle
  have hfirst : ∀ c ∈ middle.head?, isWhiteSpace c = false := hmiddle ▸ head?_dropWhile text
  have htext : text = text.takeWhile isWhiteSpace ++ middle := by
    rw [← hmiddle, List.takeWhile_append_dropWhile]
  have hsplit : trim text ++ (middle.reverse.takeWhile isWhiteSpace).reverse = middle := by
    rw [trim, hmiddle, ← List.reverse_append, List.takeWhile_append_dropWhile, List.reverse_reverse]
  refine ⟨⟨text.takeWhile isWhiteSpace, (middle.reverse.takeWhile isWhiteSpace).reverse,
    ?_, ?_, ?_⟩, ?_, ?_⟩
  · rw [List.append_assoc, hsplit, ← htext]
  · exact fun c hc => List.mem_takeWhile_imp hc
  · exact fun c hc => List.mem_takeWhile_imp (List.mem_reverse.mp hc)
  · intro c hc
    refine hfirst c ?_
    rw [← hsplit, List.head?_append, hc]
    rfl
  · rw [trim, hmiddle, List.getLast?_reverse]
    exact head?_dropWhile middle.reverse

/-- **Trimming cuts off the white space at the ends**, all of it and nothing else. -/
theorem trim_eq_iff {text core : List Char} : trim text = core ↔ Trimmed text core :=
  ⟨fun h => h ▸ trimmed_trim text, Trimmed.trim_eq⟩

/-! ### The two halves -/

/-- The first equals sign of a text, with what is before it and what is behind it. -/
structure Halves (text : String) (before after : List Char) : Prop where
  whole : text.toList = before ++ '=' :: after
  first : '=' ∉ before

theorem Halves.takeWhile_eq {text : String} {before after : List Char}
    (h : Halves text before after) :
    text.toList.takeWhile (· ≠ '=') = before ∧ text.toList.dropWhile (· ≠ '=') = '=' :: after := by
  have hbefore : ∀ c ∈ before, decide (c ≠ '=') = true := by
    intro c hc
    simpa using fun heq : c = '=' => h.first (heq ▸ hc)
  have hafter : ∀ c ∈ ('=' :: after).head?, decide (c ≠ '=') = false := by simp
  rw [h.whole]
  exact ⟨takeWhile_of_head hbefore hafter, dropWhile_of_head hbefore hafter⟩

theorem exists_halves {text : String} (h : '=' ∈ text.toList) :
    ∃ before after, Halves text before after := by
  obtain ⟨before, after, hwhole, hfirst⟩ := List.eq_append_cons_of_mem h
  exact ⟨before, after, hwhole, hfirst⟩

namespace Definition

/-- What there is to read in a text: a definition, or why it is none. -/
inductive ReadAs (text : String) : Except DefinitionError Definition → Prop
  | missingEquals (plain : '=' ∉ text.toList) : ReadAs text (.error (.missingEquals text))
  | missingName {before after : List Char} (halves : Halves text before after)
      (blank : Trimmed before []) : ReadAs text (.error (.missingName text))
  | badValue {before after core : List Char} {name : String} {cause : Decimal.Error}
      (halves : Halves text before after) (left : Trimmed before name.toList) (named : name ≠ "")
      (right : Trimmed after core) (refused : Decimal.ReadAs core (.error cause)) :
      ReadAs text (.error (.badValue name cause))
  | definition {before after core : List Char} {name : String} {n : Int64}
      (halves : Halves text before after) (left : Trimmed before name.toList) (named : name ≠ "")
      (right : Trimmed after core) (accepted : Decimal.ReadAs core (.ok n)) :
      ReadAs text (.ok ⟨name, n⟩)

theorem parse_of_halves {text : String} {before after core : List Char} {name : String}
    (halves : Halves text before after) (left : Trimmed before name.toList)
    (right : Trimmed after core) :
    parse text =
      if name = "" then .error (.missingName text)
      else ((Decimal.read core).map fun value => ⟨name, value⟩).mapError (.badValue name) := by
  obtain ⟨htake, hdrop⟩ := halves.takeWhile_eq
  unfold parse
  rw [htake, hdrop]
  simp only [left.trim_eq, right.trim_eq, String.ofList_toList, String.isEmpty_iff]
  rcases Decimal.read core with cause | value <;> rfl

theorem ReadAs.parse_eq {text : String} {outcome : Except DefinitionError Definition}
    (h : ReadAs text outcome) : parse text = outcome := by
  cases h with
  | missingEquals plain =>
      have hdrop : text.toList.dropWhile (· ≠ '=') = [] := by
        refine List.dropWhile_eq_nil_iff.mpr fun c hc => ?_
        simpa using fun heq : c = '=' => plain (heq ▸ hc)
      unfold parse
      rw [hdrop]
  | @missingName before after halves blank =>
      have left : Trimmed before "".toList := blank
      rw [parse_of_halves halves left (trimmed_trim after), if_pos rfl]
  | badValue halves left named right refused =>
      rw [parse_of_halves halves left right, if_neg named, refused.read_eq]
      rfl
  | definition halves left named right accepted =>
      rw [parse_of_halves halves left right, if_neg named, accepted.read_eq]
      rfl

theorem exists_readAs (text : String) : ∃ outcome, ReadAs text outcome := by
  by_cases hplain : '=' ∈ text.toList
  · obtain ⟨before, after, halves⟩ := exists_halves hplain
    have hleft : Trimmed before (String.ofList (trim before)).toList := by
      rw [String.toList_ofList]
      exact trimmed_trim before
    have hright := trimmed_trim after
    by_cases hname : String.ofList (trim before) = ""
    · rw [hname] at hleft
      exact ⟨_, .missingName halves hleft⟩
    · obtain ⟨outcome, hvalue⟩ := Decimal.exists_readAs (trim after)
      cases outcome with
      | error cause => exact ⟨_, .badValue halves hleft hname hright hvalue⟩
      | ok n => exact ⟨_, .definition halves hleft hname hright hvalue⟩
  · exact ⟨_, .missingEquals hplain⟩

/-- **A text is read as what its halves say**, and as nothing else. -/
theorem parse_eq_iff {text : String} {outcome : Except DefinitionError Definition} :
    parse text = outcome ↔ ReadAs text outcome := by
  refine ⟨?_, ReadAs.parse_eq⟩
  intro h
  obtain ⟨found, hfound⟩ := exists_readAs text
  rw [← h, hfound.parse_eq]
  exact hfound

/-! ### What is written -/

/-- A name that a definition can give: there is one, it holds no equals sign, and nothing is cut
off its ends. -/
structure Definable (name : String) : Prop where
  named : name ≠ ""
  plain : '=' ∉ name.toList
  first : ∀ c ∈ name.toList.head?, isWhiteSpace c = false
  last : ∀ c ∈ name.toList.getLast?, isWhiteSpace c = false

theorem definable_of_matches {name : String} (h : Lexeme.Kind.Matches .name name.toList) :
    Definable name := by
  have hparts : ∀ c ∈ name.toList, isNamePart c = true := by
    obtain ⟨first, more, hname, hfirst, hmore⟩ := h
    rw [hname]
    exact List.forall_mem_cons.mpr ⟨isNamePart_of_isNameStart hfirst, hmore⟩
  refine ⟨?_, ?_, ?_, ?_⟩
  · intro hempty
    obtain ⟨first, more, hname, -, -⟩ := h
    rw [hempty] at hname
    cases hname
  · intro hequals
    exact absurd (hparts _ hequals) (by decide +kernel)
  · exact fun c hc => isWhiteSpace_eq_false_of_isNamePart (hparts c (List.mem_of_mem_head? hc))
  · exact fun c hc => isWhiteSpace_eq_false_of_isNamePart (hparts c (List.mem_of_getLast? hc))

/-- Cut off at its ends, a text between two gaps is itself again. -/
theorem trimmed_of_gaps {core : List Char} (a b : Gap)
    (hfirst : ∀ c ∈ core.head?, isWhiteSpace c = false)
    (hlast : ∀ c ∈ core.getLast?, isWhiteSpace c = false) :
    Trimmed (a.text.toList ++ core ++ b.text.toList) core :=
  ⟨⟨_, _, rfl, a.space, b.space⟩, hfirst, hlast⟩

theorem isWhiteSpace_of_mem_chars {i : Int} {c : Char} (hc : c ∈ Decimal.chars i) :
    isWhiteSpace c = false := by
  have hdigit : ∀ c ∈ Decimal.digits i.natAbs, isWhiteSpace c = false := fun c hc =>
    isWhiteSpace_eq_false_of_isNamePart (isNamePart_of_isDigit (Decimal.isDigit_of_mem_digits hc))
  unfold Decimal.chars at hc
  split at hc
  · rcases List.mem_cons.mp hc with hminus | hc
    · exact isWhiteSpace_eq_false_of_mem_signs (hminus ▸ by simp [signs])
    · exact hdigit c hc
  · exact hdigit c hc

/-- **A value that is written with a name is read with the name**, whatever gaps there are. -/
theorem readAs_text {name : String} (h : Definable name) (n : Int64) (a b c d : Gap) :
    ReadAs (a.text ++ name ++ b.text ++ "=" ++ c.text ++ Decimal.text n ++ d.text)
      (.ok ⟨name, n⟩) := by
  have hspace : isWhiteSpace '=' = false := isWhiteSpace_eq_false_of_mem_signs (by simp [signs])
  have hgap : ∀ g : Gap, '=' ∉ g.text.toList := by
    intro g hequals
    rw [g.space _ hequals] at hspace
    cases hspace
  have hchars : ∀ ch ∈ Decimal.chars n.toInt, isWhiteSpace ch = false :=
    fun ch => isWhiteSpace_of_mem_chars
  have halves : Halves (a.text ++ name ++ b.text ++ "=" ++ c.text ++ Decimal.text n ++ d.text)
      (a.text.toList ++ name.toList ++ b.text.toList)
      (c.text.toList ++ Decimal.chars n.toInt ++ d.text.toList) :=
    ⟨by simp [String.toList_append], by simp [hgap, h.plain]⟩
  refine .definition halves (trimmed_of_gaps a b h.first h.last) h.named
    (trimmed_of_gaps c d ?_ ?_) (Decimal.readAs_chars n)
  · exact fun ch hch => hchars ch (List.mem_of_mem_head? hch)
  · exact fun ch hch => hchars ch (List.mem_of_getLast? hch)

/--
**A definition is taken in its format only, and what is none is told apart by its cause.**  The
first equals sign decides where a text is cut, and white space at the ends of the halves does not
count.  Without an equals sign, or without a name before it, there is no definition.  Otherwise
there is one if and only if the second half is a sign, if any, and digits that write a value of
sixty-four bits.  It is refused as empty if nothing is there, as too large or too small if the
digits behind the sign are out of range, whatever comes behind them, and for an invalid digit in
all other cases.

So any value is read back from its text, with white space anywhere around name and value, for any
name that holds no equals sign and no white space at its ends.  The names of expressions are such.
-/
theorem parse_classifies :
    (∀ (text : String) (outcome : Except DefinitionError Definition),
      parse text = outcome ↔ ReadAs text outcome) ∧
    (∀ name : String, Definable name → ∀ (n : Int64) (a b c d : Gap),
      parse (a.text ++ name ++ b.text ++ "=" ++ c.text ++ Decimal.text n ++ d.text) =
        .ok ⟨name, n⟩) ∧
    ∀ name : String, Lexeme.Kind.Matches .name name.toList → Definable name := by
  refine ⟨?_, ?_, ?_⟩
  · intro text outcome
    exact parse_eq_iff
  · intro name h n a b c d
    exact (readAs_text h n a b c d).parse_eq
  · intro name h
    exact definable_of_matches h

/--
The least value for a name with a letter beyond ASCII, wide white space around it; and digits just
above the greatest value, where what follows them does not count any more.
-/
theorem parse_classifies_least :
    (Lexeme.Kind.Matches .name "é_1".toList ∧ Definable "é_1" ∧
      ReadAs "x=+9223372036854775808=1" (.error (.badValue "x" .tooLarge))) ∧
    parse ("\u2003" ++ "é_1" ++ "\t" ++ "=" ++ "\u3000" ++ Decimal.text Int64.minValue ++ "") =
      .ok ⟨"é_1", Int64.minValue⟩ ∧
    parse "x=+9223372036854775808=1" = .error (.badValue "x" .tooLarge) := by
  obtain ⟨hclassifies, hwritten, hnames⟩ := parse_classifies
  have hmatches : Lexeme.Kind.Matches .name "é_1".toList :=
    ⟨'é', ['_', '1'], by decide, by decide +kernel, List.all_eq_true.mp (by decide +kernel)⟩
  have hname := hnames "é_1" hmatches
  have halves : Halves "x=+9223372036854775808=1" ['x'] "+9223372036854775808=1".toList :=
    ⟨by decide, by decide⟩
  have parts : Decimal.Parts "+9223372036854775808=1".toList false "9223372036854775808".toList
      ['=', '1'] :=
    ⟨.plus _, List.all_eq_true.mp (by decide), by simp⟩
  have habove : ReadAs "x=+9223372036854775808=1" (.error (.badValue "x" .tooLarge)) :=
    .badValue halves (trim_eq_iff.mp (by decide +kernel)) (by decide)
      (trim_eq_iff.mp (by decide +kernel)) (.tooLarge parts (by decide +kernel))
  exact ⟨⟨hmatches, hname, habove⟩,
    hwritten "é_1" hname Int64.minValue ⟨"\u2003", List.all_eq_true.mp (by decide)⟩
      ⟨"\t", List.all_eq_true.mp (by decide)⟩ ⟨"\u3000", List.all_eq_true.mp (by decide)⟩
      ⟨"", List.all_eq_true.mp (by decide)⟩,
    (hclassifies _ _).mpr habove⟩

end Definition

end Reckon
