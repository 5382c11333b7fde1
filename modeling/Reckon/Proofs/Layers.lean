/-
Which values names have once arguments are resolved, and which error there is otherwise.

Resolving goes through three layers in order.  The demonstration has no errors, a file of
variables may fail as a whole, and definitions are taken one by one until one of them fails.  So
the error is that of the file, or else that of the first definition that is none
(`foldlM_define_eq_error_iff`).

Where nothing fails, a name is looked up from the last definition backwards.  A definition further
on hides those of the same name and no others, and it hides what the layers below make of the name
as well.  `Last` says so of any list of definitions, and one more definition at the end keeps it
(`Last.concat`).
-/
import Reckon.Cli.Config
import Reckon.Proofs.Defining

namespace Reckon

namespace Definition

/-! ### The name in a text -/

/-- What stands before the first equals sign of a text is the name, apart from white space at its
ends. -/
def Names (text name : String) : Prop :=
  ∃ before after, Halves text before after ∧ Trimmed before name.toList

theorem names_iff {text : String} {d : Definition} (h : parse text = .ok d) {name : String} :
    Names text name ↔ d.name = name := by
  cases parse_eq_iff.mp h with
  | definition halves left named right accepted =>
      constructor
      · rintro ⟨before, after, halves', left'⟩
        have hbefore := halves.takeWhile_eq.1.symm.trans halves'.takeWhile_eq.1
        rw [hbefore] at left
        exact String.toList_inj.mp (left.trim_eq.symm.trans left'.trim_eq)
      · intro hname
        subst hname
        exact ⟨_, _, halves, left⟩

/-- Some definition fails with a cause, and all before it are all right. -/
def FirstFailure (texts : List String) (cause : DefinitionError) : Prop :=
  ∃ front text back, texts = front ++ text :: back ∧
    (∀ earlier ∈ front, ∃ d, parse earlier = .ok d) ∧ parse text = .error cause

/-- What a name stands for after some definitions: the value of the last one that gives it, or what
it stands for below if none does. -/
inductive Last (texts : List String) (name : String) (below : Option Int64) : Option Int64 → Prop
  | defined {front back : List String} {text : String} {value : Int64}
      (split : texts = front ++ text :: back) (parsed : parse text = .ok ⟨name, value⟩)
      (later : ∀ other ∈ back, ¬ Names other name) : Last texts name below (some value)
  | undefined (none : ∀ text ∈ texts, ¬ Names text name) : Last texts name below below

/-- One more definition hides what is before it, if the name is its own. -/
theorem Last.concat {texts : List String} {name text : String} {below found : Option Int64}
    {d : Definition} (h : Last texts name below found) (hparse : parse text = .ok d) :
    Last (texts ++ [text]) name below (if d.name = name then some d.value else found) := by
  by_cases hname : d.name = name
  · rw [if_pos hname]
    subst hname
    have hsplit : texts ++ [text] = texts ++ text :: [] := rfl
    exact .defined hsplit hparse (by simp)
  · rw [if_neg hname]
    have hother : ¬ Names text name := fun hnames => hname ((names_iff hparse).mp hnames)
    cases h with
    | @defined front back text' value split parsed later =>
        have hsplit : texts ++ [text] = front ++ text' :: (back ++ [text]) := by simp [split]
        refine .defined hsplit parsed ?_
        exact List.forall_mem_append.mpr ⟨later, List.forall_mem_singleton.mpr hother⟩
    | undefined none =>
        exact .undefined (List.forall_mem_append.mpr ⟨none, List.forall_mem_singleton.mpr hother⟩)

end Definition

namespace Cli

open Reckon.Definition (Last FirstFailure)

/-! ### Taking definitions -/

section Define

variable {b b' : Bindings} {text : String} {texts : List String} {error : ConfigError}

theorem define_eq_ok_iff : define b text = .ok b' ↔
    ∃ d, Definition.parse text = .ok d ∧ b.insert d.name d.value = b' := by
  unfold define
  rcases Definition.parse text with cause | d <;> simp

theorem define_eq_error_iff : define b text = .error error ↔
    ∃ cause, Definition.parse text = .error cause ∧ .definition cause = error := by
  unfold define
  rcases Definition.parse text with cause | d <;> simp

/-- Definitions are taken if and only if each of them is all right. -/
theorem foldlM_define_eq_ok_iff : (∃ b', texts.foldlM define b = .ok b') ↔
    ∀ text ∈ texts, ∃ d, Definition.parse text = .ok d := by
  constructor
  · rintro ⟨b', h⟩ text htext
    obtain ⟨_, _, hdefine⟩ := Except.exists_of_foldlM_eq_ok h text htext
    obtain ⟨d, hd, -⟩ := define_eq_ok_iff.mp hdefine
    exact ⟨d, hd⟩
  · intro h
    rcases hfold : texts.foldlM define b with error | b'
    · obtain ⟨front, text, back, _, rfl, -, hdefine⟩ := Except.exists_of_foldlM_eq_error hfold
      obtain ⟨cause, hcause, -⟩ := define_eq_error_iff.mp hdefine
      obtain ⟨d, hd⟩ := h text (by simp)
      rw [hd] at hcause
      cases hcause
    · exact ⟨b', rfl⟩

/-- **Otherwise the first one that fails decides.** -/
theorem foldlM_define_eq_error_iff : texts.foldlM define b = .error error ↔
    ∃ cause, FirstFailure texts cause ∧ error = .definition cause := by
  constructor
  · intro h
    obtain ⟨front, text, back, before, rfl, hfront, hdefine⟩ := Except.exists_of_foldlM_eq_error h
    obtain ⟨cause, hcause, rfl⟩ := define_eq_error_iff.mp hdefine
    exact ⟨cause,
      ⟨front, text, back, rfl, foldlM_define_eq_ok_iff.mp ⟨before, hfront⟩, hcause⟩, rfl⟩
  · rintro ⟨cause, ⟨front, text, back, rfl, hearlier, hcause⟩, rfl⟩
    obtain ⟨before, hfront⟩ := (foldlM_define_eq_ok_iff (b := b)).mpr hearlier
    rw [List.foldlM_append, hfront]
    show (text :: back).foldlM define before = _
    rw [List.foldlM_cons, define_eq_error_iff.mpr ⟨cause, hcause, rfl⟩]
    rfl

/-- **After definitions a name stands for what the last one of it says.** -/
theorem last_of_foldlM_define (h : texts.foldlM define b = .ok b') (name : String) :
    Last texts name (b.toVariables name) (b'.toVariables name) := by
  induction texts using List.reverseRecOn generalizing b' with
  | nil =>
      cases h
      exact .undefined (by simp)
  | append_singleton front text ih =>
      rw [List.foldlM_append] at h
      obtain ⟨before, hfront, h⟩ := Except.bind_eq_ok h
      rw [List.foldlM_cons] at h
      obtain ⟨_, hdefine, h⟩ := Except.bind_eq_ok h
      cases h
      obtain ⟨d, hd, rfl⟩ := define_eq_ok_iff.mp hdefine
      rw [Bindings.toVariables_insert]
      exact (ih hfront).concat hd

end Define

/-! ### The layers below -/

/-- What comes of the file of variables: nothing is bound where none is asked for. -/
def Arguments.loaded (load : String → Except ConfigError Bindings) (arguments : Arguments) :
    Except ConfigError Bindings :=
  match arguments.variableFile with
  | some file => load file
  | none => .ok ∅

/-- The variables of the demonstration, which runs if no expression is given. -/
def Arguments.demo (arguments : Arguments) : Bindings :=
  if arguments.expression.isNone then demoVariables else ∅

/-- What a run needs, once its variables are known. -/
def Arguments.configured (arguments : Arguments) (bindings : Bindings) : Config :=
  ⟨arguments.expression.getD demoExpression, bindings, arguments.strict, arguments.postfixOnly,
    arguments.verbose⟩

section Resolve

variable {load : String → Except ConfigError Bindings} {arguments : Arguments}

theorem Config.resolve_eq (load : String → Except ConfigError Bindings) (arguments : Arguments) :
    Config.resolve load arguments =
      (arguments.loaded load >>= fun fromFile =>
        (arguments.definitions.foldlM define (arguments.demo ∪ fromFile)).map
          arguments.configured) := by
  unfold Config.resolve Arguments.loaded
  simp only [← Except.bind_pure_eq_map]
  rcases arguments.variableFile with _ | file <;> rfl

theorem Config.resolve_eq_error_iff {error : ConfigError} :
    Config.resolve load arguments = .error error ↔
      arguments.loaded load = .error error ∨
        (∃ fromFile, arguments.loaded load = .ok fromFile) ∧
          ∃ cause, FirstFailure arguments.definitions cause ∧ error = .definition cause := by
  rw [Config.resolve_eq]
  rcases arguments.loaded load with failure | fromFile
  · simp [bind, Except.bind]
  · rw [← foldlM_define_eq_error_iff (b := arguments.demo ∪ fromFile)]
    show Except.map _ _ = _ ↔ _
    rcases arguments.definitions.foldlM define _ with error | bindings <;> simp [Except.map]

theorem Config.resolve_eq_ok {config : Config}
    (h : Config.resolve load arguments = .ok config) :
    ∃ fromFile bindings, arguments.loaded load = .ok fromFile ∧
      arguments.definitions.foldlM define (arguments.demo ∪ fromFile) = .ok bindings ∧
      config = arguments.configured bindings := by
  rw [Config.resolve_eq] at h
  obtain ⟨fromFile, hloaded, h⟩ := Except.bind_eq_ok h
  obtain ⟨bindings, hfold, h⟩ := Except.map_eq_ok h
  exact ⟨fromFile, bindings, hloaded, hfold, h.symm⟩

theorem Config.exists_resolve_iff :
    (∃ config, Config.resolve load arguments = .ok config) ↔
      (∃ fromFile, arguments.loaded load = .ok fromFile) ∧
        ∀ text ∈ arguments.definitions, ∃ d, Definition.parse text = .ok d := by
  constructor
  · rintro ⟨config, h⟩
    obtain ⟨fromFile, bindings, hloaded, hfold, -⟩ := Config.resolve_eq_ok h
    exact ⟨⟨fromFile, hloaded⟩, foldlM_define_eq_ok_iff.mp ⟨bindings, hfold⟩⟩
  · rintro ⟨⟨fromFile, hloaded⟩, hall⟩
    obtain ⟨bindings, hfold⟩ :=
      (foldlM_define_eq_ok_iff (b := arguments.demo ∪ fromFile)).mpr hall
    refine ⟨arguments.configured bindings, ?_⟩
    rw [Config.resolve_eq, hloaded]
    show Except.map _ _ = _
    rw [hfold]
    rfl

end Resolve

/--
**The last definition of a name wins, and the first error is reported.**  Let the outcome of
loading the file of variables be what it may.  Arguments are refused with its error if there is
one, and otherwise with that of the first definition that fails; they are resolved if and only if
there is neither.  A name then stands for the value of the last definition that gives it, be the
name surrounded by white space or not.  If there is none, it stands for what the file makes of it,
if it does so, and else for its value in the demonstration, but only if no expression is given.
The expression and the switches are those given, or the demonstration's expression.
-/
theorem resolve_layers (load : String → Except ConfigError Bindings) (arguments : Arguments) :
    (∀ error, Config.resolve load arguments = .error error ↔
      arguments.loaded load = .error error ∨
        (∃ fromFile, arguments.loaded load = .ok fromFile) ∧
          ∃ cause, FirstFailure arguments.definitions cause ∧ error = .definition cause) ∧
    ((∃ config, Config.resolve load arguments = .ok config) ↔
      (∃ fromFile, arguments.loaded load = .ok fromFile) ∧
        ∀ text ∈ arguments.definitions, ∃ d, Definition.parse text = .ok d) ∧
    ∀ config, Config.resolve load arguments = .ok config →
      (∃ fromFile, arguments.loaded load = .ok fromFile ∧
        ∀ name, Last arguments.definitions name
          ((fromFile.toVariables name).or (arguments.demo.toVariables name))
          (config.bindings.toVariables name)) ∧
      config.expression = arguments.expression.getD demoExpression ∧
      config.strict = arguments.strict ∧ config.postfixOnly = arguments.postfixOnly ∧
      config.verbose = arguments.verbose := by
  refine ⟨fun error => Config.resolve_eq_error_iff, Config.exists_resolve_iff, ?_⟩
  intro config h
  obtain ⟨fromFile, bindings, hloaded, hfold, rfl⟩ := Config.resolve_eq_ok h
  refine ⟨⟨fromFile, hloaded, ?_⟩, rfl, rfl, rfl, rfl⟩
  intro name
  rw [← Bindings.toVariables_union]
  exact last_of_foldlM_define hfold name

/--
Definitions hide `a` in the file and each other's `b`, which is spelled in two ways, and the file
hides `x` in the demonstration.  Of two definitions that fail the first one is reported.
-/
theorem resolve_layers_hidden :
    let load : String → Except ConfigError Bindings :=
      loadVariables fun _ => .ok "a = 1\nx = 4\n"
    let arguments : Arguments :=
      ⟨none, ["a=5", " b = 7", "b\t=8"], some "vars.toml", true, false, false⟩
    let failing : Arguments := ⟨some "a", ["a=1", "b", "c=?"], none, false, false, false⟩
    ((∃ fromFile, arguments.loaded load = .ok fromFile) ∧
      (∀ text ∈ arguments.definitions, ∃ d, Definition.parse text = .ok d) ∧
      (∃ fromFile, failing.loaded load = .ok fromFile) ∧
      FirstFailure failing.definitions (.missingEquals "b")) ∧
    (∃ config fromFile, Config.resolve load arguments = .ok config ∧
      arguments.loaded load = .ok fromFile ∧
      Last arguments.definitions "b"
        ((fromFile.toVariables "b").or (arguments.demo.toVariables "b"))
        (config.bindings.toVariables "b") ∧
      ["a", "b", "x", "y", "z"].map config.bindings.toVariables =
        [some 5, some 8, some 4, some 2, none] ∧
      config.expression = demoExpression ∧ config.strict = true) ∧
    Config.resolve load failing = .error (.definition (.missingEquals "b")) := by
  intro load arguments failing
  have hloaded : ∃ fromFile, arguments.loaded load = .ok fromFile :=
    Except.exists_of_isOk (by decide +kernel)
  have hall : ∀ text ∈ arguments.definitions, ∃ d, Definition.parse text = .ok d := by
    have hok : arguments.definitions.all (fun text => (Definition.parse text).isOk) = true := by
      decide +kernel
    exact fun text htext => Except.exists_of_isOk (List.all_eq_true.mp hok text htext)
  have hnothing : ∃ fromFile, failing.loaded load = .ok fromFile := ⟨∅, rfl⟩
  have hearlier : ∃ d, Definition.parse "a=1" = .ok d := Except.exists_of_isOk (by decide +kernel)
  have hfirst : FirstFailure failing.definitions (.missingEquals "b") :=
    ⟨["a=1"], "b", ["c=?"], rfl, List.forall_mem_singleton.mpr hearlier, by decide +kernel⟩
  obtain ⟨-, hresolves, hconfig⟩ := resolve_layers load arguments
  obtain ⟨config, hc⟩ := hresolves.mpr ⟨hloaded, hall⟩
  obtain ⟨⟨fromFile, hfromFile, hlast⟩, hexpression, hstrict, -, -⟩ := hconfig config hc
  obtain ⟨herror, -, -⟩ := resolve_layers load failing
  have hvalues : (Config.resolve load arguments).map (fun c =>
      ["a", "b", "x", "y", "z"].map c.bindings.toVariables) =
        .ok [some 5, some 8, some 4, some 2, none] := by decide +kernel
  rw [hc] at hvalues
  exact ⟨⟨hloaded, hall, hnothing, hfirst⟩,
    ⟨config, fromFile, hc, hfromFile, hlast "b", Except.ok.inj hvalues, hexpression, hstrict⟩,
    (herror _).mpr (Or.inr ⟨hnothing, _, hfirst, rfl⟩)⟩

end Cli

end Reckon
