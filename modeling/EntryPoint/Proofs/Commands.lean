import EntryPoint.CommandLine.Program
import EntryPoint.Proofs.Emission
import EntryPoint.Proofs.Nomination
import EntryPoint.Proofs.Printing

/-!
# What the commands have to do with each other

The commands read the same options and the same environment, and each of them assembles the root,
the filter, the class path and the policy from these on its own. They agree all the same: a
resolution that succeeds has examined the classes that are listed, and an emission does what the
resolution announces, or fails as it does. Only an emission writes, if it succeeds and is not
skipped; one that is skipped does not look at the file system at all.
-/

namespace EntryPoint

namespace CommandLine

open Manifest (directoryAt fileAt temporaryAt filePath)

/-! ## What one command does -/

/-- The program does what the command does that its arguments name. -/
lemma run_of_parse {arguments : List String} {invocation : Invocation}
    (h : Invocation.parse arguments = .ok invocation) (environment : Environment)
    (milliseconds : ℕ) (fs : FileSystem) :
    run arguments environment milliseconds fs
      = (.ofResult invocation.options.format (runCommand invocation environment milliseconds fs).1,
        (runCommand invocation environment milliseconds fs).2) := by
  rw [run, h]

/-- What is skipped is the framework's own build. -/
lemma isSkipped_iff {options : Options} {groupId : Option String} :
    isSkipped options groupId = true ↔ groupId = some options.frameworkPackage := by
  cases groupId with
  | none => simp [isSkipped]
  | some group =>
    simp [isSkipped, OwnershipFilter.isFrameworkProject, Options.ownership,
      OwnershipFilter.frameworkPackage_ofPackages]

/-- What a resolution with the given options answers. -/
def Options.resolution (options : Options) (environment : Environment) (fs : FileSystem) :
    Except Failure Resolution :=
  resolve fs (options.resolvedRoot environment) ((options.openClassPath environment fs).source fs)
    options.ownership.allows options.search

section
variable {arguments : List String} {options : Options} {environment : Environment}
  {milliseconds : ℕ} {fs : FileSystem}

/-- A resolution reports what the search finds, or how it fails. -/
lemma run_resolve (hparse : Invocation.parse arguments = .ok ⟨.resolve, options⟩) :
    run arguments environment milliseconds fs
      = (match options.resolution environment fs with
        | .ok resolution =>
          ⟨0, (Report.resolved resolution.entryPoint resolution.candidates.size
            milliseconds).render options.format, ""⟩
        | .error failure => .ofResult options.format (.error (.ofFailure failure)), fs) := by
  rw [run_of_parse hparse]
  simp only [runCommand, runResolve]
  rw [← Options.resolution]
  cases options.resolution environment fs <;> rfl

/-- The classes that a successful resolution has examined are those that are listed. -/
lemma run_list_of_resolution (hparse : Invocation.parse arguments = .ok ⟨.list, options⟩)
    {resolution : Resolution} (h : options.resolution environment fs = .ok resolution) :
    run arguments environment milliseconds fs
      = (⟨0, (Report.classes (options.resolvedRoot environment)
          resolution.candidates.names).render options.format, ""⟩, fs) := by
  obtain ⟨classes, hfind, -⟩ := resolve_eq_ok_iff.1 h
  rw [run_of_parse hparse]
  simp only [runCommand, runList, hfind]
  rfl

/-- An emission for the framework itself does not look at the file system. -/
lemma run_emit_skipped
    (hparse : Invocation.parse arguments
      = .ok ⟨.emit (some options.frameworkPackage), options⟩) :
    run arguments environment milliseconds fs
      = (⟨0, (Report.skipped (filePath (options.resolvedRoot environment))).render options.format,
          ""⟩, fs) := by
  rw [run_of_parse hparse]
  simp only [runCommand, runEmit, if_pos (isSkipped_iff.2 rfl)]
  rfl

section
variable {groupId : Option String}
  (hparse : Invocation.parse arguments = .ok ⟨.emit groupId, options⟩)
  (hgroup : groupId ≠ some options.frameworkPackage)

include hparse hgroup

/-- An emission that is not skipped fails as the resolution does. -/
lemma run_emit_of_failure {failure : Failure}
    (h : options.resolution environment fs = .error failure) :
    run arguments environment milliseconds fs
      = (.ofResult options.format (.error (.ofFailure failure)), fs) := by
  rw [Options.resolution] at h
  rw [run_of_parse hparse]
  simp only [runCommand, runEmit, if_neg (mt isSkipped_iff.1 hgroup), resolveAndEmit, h]

/-- An emission that is not skipped names the class that the resolution finds and leaves a manifest
with the digest that it reports, or else it fails and changes nothing. -/
lemma run_emit_cases (hfs : fs.WellFormed)
    (hlink : ∀ location target, fs.locate (options.resolvedRoot environment) = .ok location →
      fs.get? (directoryAt location) ≠ some (.link target))
    (htemporary : ∀ location, fs.locate (options.resolvedRoot environment) = .ok location →
      fs.get? (temporaryAt location) = none) :
    (∃ resolution location contents changed,
      options.resolution environment fs = .ok resolution ∧
      fs.locate (options.resolvedRoot environment) = .ok location ∧
      changed.get? (fileAt location) = some (.file contents) ∧
      run arguments environment milliseconds fs
        = (⟨0, (Report.emitted resolution.entryPoint.className
            (filePath (options.resolvedRoot environment))
            (Sha256.digest contents).hex).render options.format, ""⟩, changed)) ∨
    (∃ failure, run arguments environment milliseconds fs
      = (.ofResult options.format (.error failure), fs)) := by
  rw [run_of_parse hparse]
  simp only [runCommand, runEmit, if_neg (mt isSkipped_iff.1 hgroup)]
  rcases resolveAndEmit_cases hfs (options.resolvedRoot environment)
      ((options.openClassPath environment fs).source fs) options.ownership.allows options.search
      hlink htemporary with
    ⟨resolution, location, changed, hresolve, hroot, -, hemit, hpublished⟩ | ⟨failure, hemit, -⟩
  · rw [hemit]
    exact Or.inl ⟨resolution, location, _, changed, hresolve, hroot, hpublished.file, rfl⟩
  · rw [hemit]
    exact Or.inr ⟨.ofFailure failure, rfl⟩

end

end

/-! ## What the commands do with the same options -/

/-- An outcome that ends well and consists of what is printed for a report. -/
structure Outcome.Reports (outcome : Outcome) (format : OutputFormat) (report : Report) : Prop where
  status : outcome.status = 0
  printed : report.Prints format outcome.output
  noError : outcome.errorOutput = ""

lemma reports_render (format : OutputFormat) (report : Report) :
    (⟨0, report.render format, ""⟩ : Outcome).Reports format report :=
  ⟨rfl, Report.prints_iff.2 rfl, rfl⟩

/-- How the commands agree that are run with the same options in the same environment, each on the
same file system. -/
structure CommandsAgree (options : Options) (environment : Environment) (fs : FileSystem) :
    Prop where
  /-- The file system stays as it is, but for an emission that ends well without being skipped. -/
  unchanged : ∀ arguments command milliseconds,
    Invocation.parse arguments = .ok ⟨command, options⟩ →
      (run arguments environment milliseconds fs).2 = fs ∨
        ∃ groupId, command = .emit groupId ∧ groupId ≠ some options.frameworkPackage ∧
          (run arguments environment milliseconds fs).1.status = 0
  /-- A resolution that ends well prints the number of the classes that are listed. -/
  counted : ∀ resolving listing milliseconds duration,
    Invocation.parse resolving = .ok ⟨.resolve, options⟩ →
    Invocation.parse listing = .ok ⟨.list, options⟩ →
    (run resolving environment milliseconds fs).1.status = 0 →
      ∃ entryPoint names,
        (run resolving environment milliseconds fs).1.Reports options.format
          (.resolved entryPoint names.length milliseconds) ∧
        (run listing environment duration fs).1.Reports options.format
          (.classes (options.resolvedRoot environment) names)
  /-- An emission that ends well without being skipped prints the main class that is resolved, and
  the digest of what the manifest now holds. -/
  emitted : ∀ emitting resolving groupId milliseconds duration,
    Invocation.parse emitting = .ok ⟨.emit groupId, options⟩ →
    Invocation.parse resolving = .ok ⟨.resolve, options⟩ →
    groupId ≠ some options.frameworkPackage →
    (run emitting environment milliseconds fs).1.status = 0 →
      ∃ entryPoint count location contents,
        (run resolving environment duration fs).1.Reports options.format
          (.resolved entryPoint count duration) ∧
        (run emitting environment milliseconds fs).1.Reports options.format
          (.emitted entryPoint.className (filePath (options.resolvedRoot environment))
            (Sha256.digest contents).hex) ∧
        fs.locate (options.resolvedRoot environment) = .ok location ∧
        (run emitting environment milliseconds fs).2.get? (fileAt location)
          = some (.file contents)
  /-- Where the resolution fails, an emission that is not skipped fails with the same error. -/
  failed : ∀ emitting resolving groupId milliseconds duration,
    Invocation.parse emitting = .ok ⟨.emit groupId, options⟩ →
    Invocation.parse resolving = .ok ⟨.resolve, options⟩ →
    groupId ≠ some options.frameworkPackage →
    (run resolving environment duration fs).1.status ≠ 0 →
      run emitting environment milliseconds fs = ((run resolving environment duration fs).1, fs)
  /-- An emission for the framework itself ends well, in the same way on every file system, and
  leaves each as it is. -/
  skipped : ∀ emitting milliseconds,
    Invocation.parse emitting = .ok ⟨.emit (some options.frameworkPackage), options⟩ →
      ∃ outcome : Outcome,
        outcome.Reports options.format (.skipped (filePath (options.resolvedRoot environment))) ∧
        ∀ other : FileSystem, run emitting environment milliseconds other = (outcome, other)

/-- A resolution that ends well has found something. -/
lemma exists_resolution_of_status {arguments : List String} {options : Options}
    {environment : Environment} {milliseconds : ℕ} {fs : FileSystem}
    (hparse : Invocation.parse arguments = .ok ⟨.resolve, options⟩)
    (hstatus : (run arguments environment milliseconds fs).1.status = 0) :
    ∃ resolution, options.resolution environment fs = .ok resolution := by
  rw [run_resolve hparse] at hstatus
  cases h : options.resolution environment fs with
  | ok resolution => exact ⟨resolution, rfl⟩
  | error failure => simp [h, Outcome.ofResult] at hstatus

/-- Where the manifest's directory is no link and holds no temporary file, the commands agree with
each other, whatever the options and the environment are. -/
theorem commandsAgree {fs : FileSystem} (hfs : fs.WellFormed) (environment : Environment)
    (options : Options)
    (hlink : ∀ location target, fs.locate (options.resolvedRoot environment) = .ok location →
      fs.get? (directoryAt location) ≠ some (.link target))
    (htemporary : ∀ location, fs.locate (options.resolvedRoot environment) = .ok location →
      fs.get? (temporaryAt location) = none) :
    CommandsAgree options environment fs where
  unchanged arguments command milliseconds hparse := by
    cases command with
    | list | inspect | resolve =>
      rw [run_of_parse hparse]
      exact Or.inl rfl
    | emit groupId =>
      by_cases hgroup : groupId = some options.frameworkPackage
      · subst hgroup
        rw [run_emit_skipped hparse]
        exact Or.inl rfl
      · rcases run_emit_cases hparse hgroup hfs hlink htemporary with
          ⟨_, _, _, _, _, _, _, hrun⟩ | ⟨failure, hrun⟩
        · rw [hrun]
          exact Or.inr ⟨groupId, rfl, hgroup, rfl⟩
        · rw [hrun]
          exact Or.inl rfl
  counted resolving listing milliseconds duration hresolving hlisting hstatus := by
    obtain ⟨resolution, h⟩ := exists_resolution_of_status hresolving hstatus
    rw [run_resolve hresolving, h, run_list_of_resolution hlisting h]
    exact ⟨resolution.entryPoint, resolution.candidates.names, reports_render _ _,
      reports_render _ _⟩
  emitted emitting resolving groupId milliseconds duration hemitting hresolving hgroup hstatus := by
    rcases run_emit_cases hemitting hgroup hfs hlink htemporary with
      ⟨resolution, location, contents, changed, h, hroot, hfile, hrun⟩ | ⟨failure, hrun⟩
    · rw [run_resolve hresolving, h, hrun]
      exact ⟨resolution.entryPoint, _, location, contents, reports_render _ _, reports_render _ _,
        hroot, hfile⟩
    · simp [hrun, Outcome.ofResult] at hstatus
  failed emitting resolving groupId milliseconds duration hemitting hresolving hgroup hstatus := by
    rw [run_resolve hresolving] at hstatus ⊢
    cases h : options.resolution environment fs with
    | ok resolution => simp [h] at hstatus
    | error failure => rw [run_emit_of_failure hemitting hgroup h]
  skipped emitting milliseconds hemitting :=
    ⟨_, reports_render _ _, fun _ => run_emit_skipped hemitting⟩

/-- The options of a search for the marked class below a root. -/
def markedOptions (root : String) (format : OutputFormat) : Options :=
  ⟨some ⟨root⟩, [], "LM;", defaultFrameworkPackage, [], false, none, false, format, false⟩

/-- The arguments that give these options, in front of a command. -/
def markedArguments (root format : String) : List String :=
  ["--root", root, "--marker", "LM;", "--format", format]

/-- In the marked build the class is found, counted among the classes that are listed, and named in
the manifest, in both formats; and where there is no build, the search and the emission fail
alike. -/
theorem commandsAgree_markedBuild :
    Invocation.parse (markedArguments "/out" "text" ++ ["resolve"])
      = .ok ⟨.resolve, markedOptions "/out" .text⟩ ∧
    Invocation.parse (markedArguments "/out" "text" ++ ["list"])
      = .ok ⟨.list, markedOptions "/out" .text⟩ ∧
    Invocation.parse (markedArguments "/out" "text" ++ ["emit"])
      = .ok ⟨.emit none, markedOptions "/out" .text⟩ ∧
    (run (markedArguments "/out" "text" ++ ["resolve"]) [] 0 markedBuild).1
      = ⟨0, "main_class: A\ncandidates: 1\nduration_ms: 0\n", ""⟩ ∧
    (run (markedArguments "/out" "text" ++ ["list"]) [] 0 markedBuild).1 = ⟨0, "A\n", ""⟩ ∧
    (run (markedArguments "/out" "text" ++ ["emit"]) [] 0 markedBuild).1
      = ⟨0, String.join [
        "main_class: A\n",
        "manifest: /out/META-INF/MANIFEST.MF\n",
        "sha256: a3514045723d3256fcfc45ba71c8d5979b89e36cdf667ad7fa7389097c1f4909\n"], ""⟩ ∧
    CommandsAgree (markedOptions "/out" .text) [] markedBuild ∧
    Invocation.parse (markedArguments "/out" "json" ++ ["resolve"])
      = .ok ⟨.resolve, markedOptions "/out" .json⟩ ∧
    Invocation.parse (markedArguments "/out" "json" ++ ["list"])
      = .ok ⟨.list, markedOptions "/out" .json⟩ ∧
    Invocation.parse (markedArguments "/out" "json" ++ ["emit"])
      = .ok ⟨.emit none, markedOptions "/out" .json⟩ ∧
    Invocation.parse (markedArguments "/out" "json" ++ ["emit", "--group-id", "com._7aske.grain"])
      = .ok ⟨.emit (some (markedOptions "/out" .json).frameworkPackage),
          markedOptions "/out" .json⟩ ∧
    (run (markedArguments "/out" "json" ++ ["resolve"]) [] 0 markedBuild).1
      = ⟨0, String.join [
        "\x7b\n",
        "  \"main_class\": \"A\",\n",
        "  \"annotations\": [\n",
        "    \"LM;\"\n",
        "  ],\n",
        "  \"candidates\": 1,\n",
        "  \"duration_ms\": 0\n",
        "\x7d\n"], ""⟩ ∧
    (run (markedArguments "/out" "json" ++ ["list"]) [] 0 markedBuild).1
      = ⟨0, String.join [
        "\x7b\n",
        "  \"root\": \"/out\",\n",
        "  \"classes\": [\n",
        "    \"A\"\n",
        "  ]\n",
        "\x7d\n"], ""⟩ ∧
    (run (markedArguments "/out" "json" ++ ["emit"]) [] 0 markedBuild).1
      = ⟨0, String.join [
        "\x7b\n",
        "  \"skipped\": false,\n",
        "  \"main_class\": \"A\",\n",
        "  \"manifest_path\": \"/out/META-INF/MANIFEST.MF\",\n",
        "  \"manifest_sha256\": ",
        "\"a3514045723d3256fcfc45ba71c8d5979b89e36cdf667ad7fa7389097c1f4909\"\n",
        "\x7d\n"], ""⟩ ∧
    CommandsAgree (markedOptions "/out" .json) [] markedBuild ∧
    Invocation.parse (markedArguments "/in" "json" ++ ["resolve"])
      = .ok ⟨.resolve, markedOptions "/in" .json⟩ ∧
    Invocation.parse (markedArguments "/in" "json" ++ ["emit"])
      = .ok ⟨.emit none, markedOptions "/in" .json⟩ ∧
    (run (markedArguments "/in" "json" ++ ["emit"]) [] 0 markedBuild).1
      = ⟨1, "", String.join [
        "Error: I/O error at /in: No such file or directory (os error 2)\n",
        "\n",
        "Caused by:\n",
        "    No such file or directory (os error 2)\n"]⟩ ∧
    CommandsAgree (markedOptions "/in" .json) [] markedBuild := by
  have hfs : markedBuild.WellFormed := by
    decide +kernel
  have hroot : markedBuild.locate ⟨"/out"⟩ = .ok ["out"] := by
    decide
  have hmissing : markedBuild.locate ⟨"/in"⟩ = .error .notFound := by
    decide
  have hbuild : ∀ format, CommandsAgree (markedOptions "/out" format) [] markedBuild := by
    refine fun format => commandsAgree hfs [] _ ?_ ?_
    · intro location target h
      cases hroot.symm.trans h
      simp [directoryAt, markedBuild, FileSystem.get?, List.lookup_cons]
    · intro location h
      cases hroot.symm.trans h
      decide
  have hnone : CommandsAgree (markedOptions "/in" .json) [] markedBuild := by
    refine commandsAgree hfs [] _ ?_ ?_
    · intro location target h
      cases hmissing.symm.trans h
    · intro location h
      cases hmissing.symm.trans h
  refine ⟨?_, ?_, ?_, ?_, ?_, ?_, hbuild .text, ?_, ?_, ?_, ?_, ?_, ?_, ?_, hbuild .json,
    ?_, ?_, ?_, hnone⟩ <;> decide +kernel

end CommandLine

end EntryPoint
