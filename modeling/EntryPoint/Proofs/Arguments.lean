import EntryPoint.CommandLine.Invocation
import Mathlib.Data.List.Basic

/-!
# Elements of a class path in front of other arguments

The option `--classpath` may be given again and again, and its values are collected in order. Other
arguments do not see what it has collected (`readArguments_behind`), and its last value, which is
checked late, is as good as checked (`Invocation.parseBehind_settled`). So elements of a class path
in front of arguments that name an invocation change nothing about it but the class path
(`parse_of_givesElement`).
-/

namespace EntryPoint.CommandLine

/-! ## Other arguments -/

namespace Collected

/-- What is collected once elements of a class path have been given before. -/
def behind (paths : List Path) (collected : Collected) : Collected :=
  { collected with
    given := paths.map (fun path => (Parameter.classPath, path.text)) ++ collected.given }

variable (paths : List Path) (collected : Collected)

/-- An option that may not repeat is none that has been given before. -/
lemma any_given_behind {parameter : Parameter} (h : ¬parameter.repeats = true) :
    (collected.behind paths).given.any (fun (found, _) => decide (found = parameter))
      = collected.given.any (fun (found, _) => decide (found = parameter)) := by
  have hother : Parameter.classPath ≠ parameter := by
    rintro rfl
    exact h rfl
  simp [behind, hother]

lemma record_behind (parameter : Parameter) (value : String) :
    (collected.behind paths).record parameter value
      = (collected.record parameter value).map (behind paths) := by
  have hany := @any_given_behind paths collected parameter
  have hadded : Collected.mk ((collected.behind paths).given ++ [(parameter, value)]) .nothing
      = behind paths ⟨collected.given ++ [(parameter, value)], .nothing⟩ := by
    simp [behind]
  unfold record
  by_cases hrepeats : parameter.repeats = true
  · simp only [hrepeats, not_true_eq_false, false_and, if_false]
    cases parameter.check value with
    | error fault => rfl
    | ok _ => exact congrArg Except.ok hadded
  · rw [hany hrepeats]
    split
    · rfl
    · cases parameter.check value with
      | error fault => rfl
      | ok _ => exact congrArg Except.ok hadded

lemma settle_behind :
    (collected.behind paths).settle = collected.settle.map (behind paths) := by
  rcases collected with ⟨given, _ | parameter | ⟨parameter, value⟩⟩
  · rfl
  · rfl
  · exact record_behind paths ⟨given, .valued parameter value⟩ parameter value

lemma accept_behind (parameter : Parameter) (value : String) :
    (collected.behind paths).accept parameter value
      = (collected.accept parameter value).map (behind paths) := by
  rw [accept, accept, settle_behind]
  cases collected.settle with
  | error fault => rfl
  | ok settled =>
    simp only [Except.map]
    split
    · rfl
    · exact record_behind paths settled parameter value

lemma await_behind (parameter : Parameter) :
    (collected.behind paths).await parameter = (collected.await parameter).map (behind paths) := by
  rw [await, await, settle_behind]
  cases collected.settle with
  | error fault => rfl
  | ok settled => rfl

end Collected

variable (paths : List Path) (collected : Collected)

lemma readLong_behind (scope : Scope) (text : List Char) :
    readLong scope text (collected.behind paths)
      = (readLong scope text collected).map (.behind paths) := by
  unfold readLong
  rcases splitValue text with ⟨name, value⟩
  dsimp only
  cases scope.long? name with
  | none => rfl
  | some parameter =>
    dsimp only
    cases parameter.takesValue <;> cases value
    · exact collected.accept_behind paths parameter ""
    · rfl
    · exact collected.await_behind paths parameter
    · exact collected.accept_behind paths parameter _

lemma readShort_behind (scope : Scope) (letters : List Char) :
    readShort scope letters (collected.behind paths)
      = (readShort scope letters collected).map (.behind paths) := by
  induction letters generalizing collected with
  | nil => rfl
  | cons letter rest ih =>
    rw [readShort, readShort]
    cases scope.short? letter with
    | none => rfl
    | some parameter =>
      simp only
      split
      · split
        · exact collected.await_behind paths parameter
        · exact collected.accept_behind paths parameter _
        · exact collected.accept_behind paths parameter _
      · rw [collected.accept_behind paths]
        cases collected.accept parameter "" with
        | error fault => rfl
        | ok accepted => exact ih accepted

lemma readOption?_behind (scope : Scope) (argument : String) :
    readOption? scope argument (collected.behind paths)
      = (readOption? scope argument collected).map (Except.map (.behind paths)) := by
  unfold readOption?
  split
  · exact congrArg some (readLong_behind paths collected scope _)
  · exact congrArg some (readShort_behind paths collected scope _)
  · rfl

lemma readArgument_behind (argument : String) :
    readArgument .program argument (collected.behind paths)
      = (readArgument .program argument collected).map (.behind paths) := by
  unfold readArgument
  rw [readOption?_behind]
  cases readOption? .program argument collected with
  | some outcome => rfl
  | none =>
    rcases collected with ⟨given, _ | parameter | ⟨parameter, value⟩⟩ <;> rfl

/-- Whatever the program's arguments are, they are read behind elements of a class path as they are
read without them. -/
theorem readArguments_behind (arguments : List String) :
    readArguments .program arguments (collected.behind paths)
      = (readArguments .program arguments collected).map
          fun (found, ending) => (found.behind paths, ending) := by
  induction arguments generalizing collected with
  | nil => rfl
  | cons argument rest ih =>
    have hhelp : isHelpHere .program (collected.behind paths) argument
        = isHelpHere .program collected argument := rfl
    have hcommand : commandHere? .program (collected.behind paths) argument
        = commandHere? .program collected argument := rfl
    rw [readArguments, readArguments, hhelp, hcommand]
    split
    · rfl
    cases commandHere? .program collected argument with
    | some command => rfl
    | none =>
      simp only
      split
      · -- no word may follow a separator
        cases rest <;> rfl
      · rw [readArgument_behind]
        cases readArgument .program argument collected with
        | error fault => rfl
        | ok found => exact ih found

/-! ## What is made of the arguments -/

/-- The invocation that the program's own arguments and their ending make. -/
def Invocation.finish : Collected × Ending → Except UsageFault Invocation
  | (collected, .command scope rest) => do
    let command ← readCommand scope rest
    let collected ← collected.settle
    return ⟨command, .ofCollected collected⟩
  | (collected, .exhausted) => do
    let collected ← collected.settle
    throw (if collected.given.isEmpty then .noArguments else .missingSubcommand)

/-- What the arguments name that follow what has been collected. -/
def Invocation.parseBehind (collected : Collected) (arguments : List String) :
    Except UsageFault Invocation :=
  readArguments .program arguments collected >>= finish

lemma Invocation.parse_eq (arguments : List String) :
    parse arguments = parseBehind .nothing arguments := by
  rw [parse, parseBehind]
  congr 1
  funext outcome
  obtain ⟨found, _ | ⟨scope, rest⟩⟩ := outcome <;> rfl

/-- The options of what was collected behind elements of a class path. -/
lemma Options.ofCollected_behind :
    ofCollected (collected.behind paths)
      = { ofCollected collected with
          classPath := paths ++ (ofCollected collected).classPath } := by
  have hother : ∀ parameter, parameter ≠ .classPath →
      (collected.behind paths).values parameter = collected.values parameter := by
    intro parameter h
    simp [Collected.values, Collected.behind, List.filterMap_append, List.filterMap_map, h.symm]
  have hclassPath : (collected.behind paths).values .classPath
      = paths.map (·.text) ++ collected.values .classPath := by
    simp [Collected.values, Collected.behind, List.filterMap_append, List.filterMap_map]
  have htext : paths.map (Path.mk ∘ fun path => path.text) = paths :=
    List.map_id paths
  simp (disch := decide) only [ofCollected, Collected.value?, Collected.has, hother, hclassPath,
    List.map_append, List.map_map, htext]
  rfl

variable {collected}

/-- The arguments name an invocation if they end at the name of a command whose own arguments can be
read, and the option before that name passes its check. -/
lemma Invocation.parseBehind_eq_ok_iff {arguments : List String} {command : Command}
    {options : Options} :
    parseBehind collected arguments = .ok ⟨command, options⟩ ↔
      ∃ found scope rest settled,
        readArguments .program arguments collected = .ok (found, .command scope rest) ∧
        readCommand scope rest = .ok command ∧ found.settle = .ok settled ∧
        .ofCollected settled = options := by
  unfold parseBehind
  rcases hread : readArguments .program arguments collected with
    fault | ⟨found, _ | ⟨scope, rest⟩⟩
  · simp [Bind.bind, Except.bind]
  · rcases hsettled : found.settle with fault | settled <;>
      simp [finish, hsettled, Bind.bind, Except.bind, throw, throwThe, MonadExceptOf.throw]
  · rcases hcommand : readCommand scope rest with fault | named <;>
      rcases hsettled : found.settle with fault | settled <;>
      simp [finish, hsettled, hcommand, Bind.bind, Except.bind, Pure.pure, Except.pure]

/-- Options behind elements of a class path are options whose class path starts with them. -/
lemma Invocation.parseBehind_behind {arguments : List String} {command : Command}
    {options : Options} (h : parseBehind collected arguments = .ok ⟨command, options⟩) :
    parseBehind (collected.behind paths) arguments
      = .ok ⟨command, { options with classPath := paths ++ options.classPath }⟩ := by
  obtain ⟨found, scope, rest, settled, hread, hcommand, hsettled, rfl⟩ :=
    parseBehind_eq_ok_iff.1 h
  refine parseBehind_eq_ok_iff.2 ⟨found.behind paths, scope, rest, settled.behind paths, ?_,
    hcommand, ?_, Options.ofCollected_behind paths settled⟩
  · rw [readArguments_behind, hread]
    rfl
  · rw [Collected.settle_behind, hsettled]
    rfl

/-! ## Elements of a class path -/

/-- Where no value waits for its check, nothing is left to settle. -/
lemma Collected.settle_of_nothing {settled : Collected} (h : settled.pending = .nothing) :
    settled.settle = .ok settled := by
  rw [settle, h]

section
variable {given : List (Parameter × String)} {settled : Collected} {parameter : Parameter}
  {value : String} (h : (Collected.mk given (.valued parameter value)).settle = .ok settled)
  (hsettled : settled.pending = .nothing)

include h hsettled

lemma Collected.accept_settled (other : Parameter) (text : String) :
    (Collected.mk given (.valued parameter value)).accept other text
      = settled.accept other text := by
  rw [accept, accept, h, settle_of_nothing hsettled]

lemma Collected.await_settled (other : Parameter) :
    (Collected.mk given (.valued parameter value)).await other = settled.await other := by
  rw [await, await, h, settle_of_nothing hsettled]

/-- An argument that looks like an option settles the value before it. -/
lemma readOption?_settled (argument : String) :
    readOption? .program argument ⟨given, .valued parameter value⟩
      = readOption? .program argument settled := by
  unfold readOption?
  split
  · unfold readLong
    simp only [Collected.accept_settled h hsettled, Collected.await_settled h hsettled]
  · unfold readShort
    simp only [Collected.accept_settled h hsettled, Collected.await_settled h hsettled]
  · rfl

/-- A value that passes its check is as good as checked. -/
lemma Invocation.parseBehind_settled (arguments : List String) :
    parseBehind ⟨given, .valued parameter value⟩ arguments = parseBehind settled arguments := by
  have hagain := Collected.settle_of_nothing hsettled
  obtain ⟨known, pending⟩ := settled
  obtain rfl : pending = .nothing := hsettled
  have hexhausted : finish (⟨given, .valued parameter value⟩, .exhausted)
      = finish (⟨known, .nothing⟩, .exhausted) := by
    rw [finish, finish, h, hagain]
  unfold parseBehind
  cases arguments with
  | nil => exact hexhausted
  | cons argument rest =>
    have hhelp : isHelpHere .program ⟨given, .valued parameter value⟩ argument
        = isHelpHere .program ⟨known, .nothing⟩ argument := rfl
    have hcommand : commandHere? .program ⟨given, .valued parameter value⟩ argument
        = commandHere? .program ⟨known, .nothing⟩ argument := rfl
    rw [readArguments, readArguments, hhelp, hcommand]
    split
    · rfl
    cases commandHere? .program ⟨known, .nothing⟩ argument with
    | some command =>
      change finish (⟨given, .valued parameter value⟩, .command command rest)
        = finish (⟨known, .nothing⟩, .command command rest)
      rw [finish, finish, h, hagain]
    | none =>
      simp only
      split
      · cases rest with
        | nil => exact hexhausted
        | cons word words => rfl
      · have hargument : readArgument .program argument ⟨given, .valued parameter value⟩
            = readArgument .program argument ⟨known, .nothing⟩ := by
          rw [readArgument, readArgument, readOption?_settled h rfl]
          rfl
        rw [hargument]

end

/-- The two ways to give an element of the class path: as one argument, or as two, of which the
second must not look like an option. -/
inductive GivesElement (path : Path) : List String → Prop where
  | attached : GivesElement path ["--classpath=" ++ path.text]
  | separate (h : ∀ letter rest, path.text.toList ≠ '-' :: letter :: rest) :
    GivesElement path ["--classpath", path.text]

/-- No command has the name of an option. -/
lemma commandHere?_of_dash {argument : String} {rest : List Char}
    (h : argument.toList = '-' :: rest) (collected : Collected) :
    commandHere? .program collected argument = none ∧
      isHelpHere .program collected argument = false := by
  have hne : ∀ word : String, word.toList.head? ≠ some '-' → argument ≠ word := by
    rintro word hword rfl
    exact hword (by rw [h]; rfl)
  have hname : Scope.ofName? argument = none := by
    unfold Scope.ofName?
    split
    · exact absurd rfl (hne "list" (by decide))
    · exact absurd rfl (hne "inspect" (by decide))
    · exact absurd rfl (hne "resolve" (by decide))
    · exact absurd rfl (hne "emit" (by decide))
    · rfl
  constructor
  · simp [commandHere?, hname]
  · simp [isHelpHere, hne "help" (by decide)]

/-- An argument that looks like an option is read as one. -/
lemma readArguments_of_dash {argument : String} {text : List Char}
    (h : argument.toList = '-' :: '-' :: text) (hne : text ≠ []) (collected : Collected)
    (rest : List String) :
    readArguments .program (argument :: rest) collected
      = (readLong .program text collected).bind (readArguments .program rest) := by
  obtain ⟨hcommand, hhelp⟩ := commandHere?_of_dash h collected
  have hseparator : argument ≠ "--" := by
    rintro rfl
    exact hne (by simpa using h.symm)
  have hargument : readArgument .program argument collected
      = readLong .program text collected := by
    simp only [readArgument, readOption?, h]
  simp only [readArguments, hhelp, hcommand, hargument, hseparator, Bool.false_eq_true, if_false]
  cases readLong .program text collected <;> rfl

/-- The value that an option waits for is the next argument, if that does not look like an
option. -/
lemma readArguments_of_awaiting {argument : String}
    (h : ∀ letter rest, argument.toList ≠ '-' :: letter :: rest) (given : List (Parameter × String))
    (parameter : Parameter) (rest : List String) :
    readArguments .program (argument :: rest) ⟨given, .awaiting parameter⟩
      = readArguments .program rest ⟨given, .valued parameter argument⟩ := by
  have hseparator : argument ≠ "--" := by
    rintro rfl
    exact h '-' [] rfl
  have hoption : readOption? .program argument ⟨given, .awaiting parameter⟩ = none := by
    unfold readOption?
    split
    · rename_i htext
      exact absurd htext (h '-' _)
    · rename_i htext
      exact absurd htext (h _ _)
    · rfl
  simp [readArguments, isHelpHere, commandHere?, hseparator, readArgument, hoption,
    Collected.supply]

/-- What is given as an element is an element in front of what follows. -/
lemma GivesElement.parseBehind {path : Path} {piece : List String} (h : GivesElement path piece)
    (hpath : path.text ≠ "") (given : List (Parameter × String)) (arguments : List String) :
    Invocation.parseBehind ⟨given, .nothing⟩ (piece ++ arguments)
      = Invocation.parseBehind ⟨given ++ [(.classPath, path.text)], .nothing⟩ arguments := by
  have hrecord : ∀ pending, (Collected.mk given pending).record .classPath path.text
      = .ok ⟨given ++ [(.classPath, path.text)], .nothing⟩ := by
    intro pending
    simp [Collected.record, Parameter.repeats, Parameter.check, hpath]
  cases h with
  | attached =>
    have htext : ("--classpath=" ++ path.text).toList
        = '-' :: '-' :: ("classpath".toList ++ '=' :: path.text.toList) := by
      simp
    have hread : readLong .program ("classpath".toList ++ '=' :: path.text.toList) ⟨given, .nothing⟩
        = .ok ⟨given ++ [(.classPath, path.text)], .nothing⟩ := by
      have hsplit : splitValue ("classpath".toList ++ '=' :: path.text.toList)
          = ("classpath", some path.text) := by
        simp [splitValue]
      rw [readLong, hsplit]
      exact hrecord .nothing
    rw [Invocation.parseBehind, List.singleton_append,
      readArguments_of_dash htext (by simp), hread]
    rfl
  | separate h =>
    have hdash : "--classpath".toList = '-' :: '-' :: "classpath".toList := by
      decide
    have hread : readLong .program "classpath".toList ⟨given, .nothing⟩
        = .ok ⟨given, .awaiting .classPath⟩ := by
      have hsplit : splitValue "classpath".toList = ("classpath", none) := by
        decide
      rw [readLong, hsplit]
      rfl
    have hsettle : (Collected.mk given (.valued .classPath path.text)).settle
        = .ok ⟨given ++ [(.classPath, path.text)], .nothing⟩ :=
      hrecord _
    rw [Invocation.parseBehind, List.cons_append, List.singleton_append,
      readArguments_of_dash hdash (by decide), hread]
    change (readArguments .program (path.text :: arguments) ⟨given, .awaiting .classPath⟩
      >>= Invocation.finish) = _
    rw [readArguments_of_awaiting h]
    exact Invocation.parseBehind_settled hsettle rfl arguments

/-- Elements of a class path that are given in front of other arguments come first in the class path
of the invocation that these name. -/
theorem parse_of_givesElement {paths : List Path} {pieces : List (List String)}
    (hpieces : List.Forall₂ GivesElement paths pieces) (hpaths : ∀ path ∈ paths, path.text ≠ "")
    {arguments : List String} {command : Command} {options : Options}
    (h : Invocation.parse arguments = .ok ⟨command, options⟩) :
    Invocation.parse (pieces.flatten ++ arguments)
      = .ok ⟨command, { options with classPath := paths ++ options.classPath }⟩ := by
  have hcollected : ∀ given, Invocation.parseBehind ⟨given, .nothing⟩ (pieces.flatten ++ arguments)
      = Invocation.parseBehind
          ⟨given ++ paths.map (fun path => (.classPath, path.text)), .nothing⟩ arguments := by
    clear h
    induction hpieces with
    | nil => simp
    | @cons path piece paths pieces hpiece _ ih =>
      rw [List.forall_mem_cons] at hpaths
      intro given
      rw [List.flatten_cons, List.append_assoc, hpiece.parseBehind hpaths.1, ih hpaths.2]
      simp
  rw [Invocation.parse_eq] at h ⊢
  rw [Collected.nothing, hcollected []]
  have hbehind := Invocation.parseBehind_behind paths h
  rw [Collected.behind, Collected.nothing, List.append_nil] at hbehind
  exact hbehind

end EntryPoint.CommandLine
