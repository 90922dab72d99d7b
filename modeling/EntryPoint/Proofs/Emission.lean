import EntryPoint.Emission
import EntryPoint.Proofs.Manifest.Storage
import EntryPoint.Proofs.Resolution

/-!
# Emitting is all or nothing

A search that fails has written nothing, and a search that succeeds has found its root, so that what
is written afterwards is what `Record.written` says: the manifest of the entry point that was found,
or nothing.
-/

namespace EntryPoint

open Manifest (Record Published Unobstructed directoryAt fileAt temporaryAt)

/-- What is emitted is the record of the class that is found, and it has been written. -/
lemma resolveAndEmit_eq_ok_iff {fs changed : FileSystem} {root : Path} {source : ByteSource}
    {allows : String → Bool} {options : SearchOptions} {record : Record} :
    resolveAndEmit fs root source allows options = (.ok record, changed) ↔
      ∃ resolution path, resolve fs root source allows options = .ok resolution ∧
        record = Record.ofMainClass resolution.entryPoint.className ∧
        record.write fs root = (.ok path, changed) := by
  rw [resolveAndEmit]
  constructor
  · intro h
    split at h
    · cases congrArg Prod.fst h
    · rename_i resolution hresolve
      simp only at h
      split at h
      · rename_i path after hwrite
        cases h
        exact ⟨resolution, path, hresolve, rfl, hwrite⟩
      · cases congrArg Prod.fst h
  · rintro ⟨resolution, path, hresolve, rfl, hwrite⟩
    simp only [hresolve, hwrite]

section
variable {fs : FileSystem} (hfs : fs.WellFormed) (root : Path) (source : ByteSource)
  (allows : String → Bool) (options : SearchOptions)
  (hlink : ∀ location target, fs.locate root = .ok location →
    fs.get? (directoryAt location) ≠ some (.link target))
  (htemporary : ∀ location, fs.locate root = .ok location →
    fs.get? (temporaryAt location) = none)

include hfs hlink htemporary in
/-- The record of the class that is found is published if the search succeeds and nothing is in the
way of the manifest, and otherwise nothing has changed. -/
lemma resolveAndEmit_cases :
    (∃ resolution location changed, resolve fs root source allows options = .ok resolution ∧
      fs.locate root = .ok location ∧ Unobstructed fs location ∧
      resolveAndEmit fs root source allows options
        = (.ok (Record.ofMainClass resolution.entryPoint.className), changed) ∧
      Published (Record.ofMainClass resolution.entryPoint.className) location fs changed) ∨
    (∃ failure, resolveAndEmit fs root source allows options = (.error failure, fs) ∧
      ∀ resolution location, resolve fs root source allows options = .ok resolution →
        fs.locate root = .ok location → ¬Unobstructed fs location) := by
  cases hresolve : resolve fs root source allows options with
  | error failure =>
    refine Or.inr ⟨failure, ?_, fun resolution location h => ?_⟩
    · simp only [resolveAndEmit, hresolve]
    · cases h
  | ok resolution =>
    obtain ⟨location, hroot, hlocation⟩ := exists_locate_of_resolve hresolve
    have hlink' : ∀ target, fs.get? (directoryAt location) ≠ some (.link target) :=
      fun target => hlink location target hroot
    have htemporary' := htemporary location hroot
    simp only [resolveAndEmit, hresolve,
      Record.write_eq_written _ hfs hroot hlocation hlink' htemporary']
    rcases (Record.ofMainClass resolution.entryPoint.className).written_cases hfs hlink'
      htemporary' with ⟨hfree, changed, hok, hpublished⟩ | ⟨hobstructed, failure, herror⟩
    · rw [hok]
      exact Or.inl ⟨resolution, location, changed, rfl, hroot, hfree, rfl, hpublished⟩
    · rw [herror]
      refine Or.inr ⟨failure, rfl, fun _ other _ hother => ?_⟩
      rw [hroot] at hother
      cases hother
      exact hobstructed

end

/-- Where the manifest's directory is no link and holds no temporary file, emission is all or
nothing. If it fails, whatever the reason, the file system is exactly as before. If it gives a
record, then that is the record, in the current version of the format, of the class that the search
finds in the file system as it was; the manifest holds its rendered text, whose digest the record
gives; no temporary file remains; and nothing else has changed but that the manifest's directory
exists. It gives a record exactly if the search succeeds and nothing is in the way. -/
theorem resolveAndEmit_all_or_nothing {fs : FileSystem} (hfs : fs.WellFormed) (root : Path)
    (source : ByteSource) (allows : String → Bool) (options : SearchOptions)
    (hlink : ∀ location target, fs.locate root = .ok location →
      fs.get? (directoryAt location) ≠ some (.link target))
    (htemporary : ∀ location, fs.locate root = .ok location →
      fs.get? (temporaryAt location) = none) :
    (∀ failure changed,
      resolveAndEmit fs root source allows options = (.error failure, changed) →
        changed = fs) ∧
    (∀ record changed,
      resolveAndEmit fs root source allows options = (.ok record, changed) →
        ∃ resolution location, resolve fs root source allows options = .ok resolution ∧
          fs.locate root = .ok location ∧
          record = ⟨"1.0", resolution.entryPoint.className⟩ ∧
          record.digest = (Sha256.digest (Bytes.ofText record.render)).hex ∧
          Published record location fs changed) ∧
    ((∃ record changed, resolveAndEmit fs root source allows options = (.ok record, changed)) ↔
      ∃ resolution location, resolve fs root source allows options = .ok resolution ∧
        fs.locate root = .ok location ∧ Unobstructed fs location) := by
  rcases resolveAndEmit_cases hfs root source allows options hlink htemporary with
    ⟨resolution, location, after, hresolve, hroot, hfree, hok, hpublished⟩ |
    ⟨failure, herror, hobstructed⟩
  · rw [hok]
    refine ⟨?_, ?_, ?_⟩
    · intro failure changed h
      cases congrArg Prod.fst h
    · intro record changed h
      cases h
      exact ⟨resolution, location, hresolve, hroot, rfl, rfl, hpublished⟩
    · exact iff_of_true ⟨_, _, rfl⟩ ⟨resolution, location, hresolve, hroot, hfree⟩
  · rw [herror]
    refine ⟨?_, ?_, ?_⟩
    · intro _ changed h
      exact (congrArg Prod.snd h).symm
    · intro record changed h
      cases congrArg Prod.fst h
    · constructor
      · rintro ⟨record, changed, h⟩
        cases congrArg Prod.fst h
      · rintro ⟨resolution, location, hresolve, hroot, hfree⟩
        exact absurd hfree (hobstructed resolution location hresolve hroot)

/-- A build with one marked class and, in the place of its manifest, a link that leads nowhere. -/
def markedBuild : FileSystem :=
  ⟨[(["out"], .directory), (["out", "A.class"], .file markedClass),
    (["out", "META-INF"], .directory), (["out", "META-INF", "MANIFEST.MF"], .link "nowhere")], []⟩

/-- Emission replaces the link by the manifest, and the record gives the digest of what is then
there. -/
theorem resolveAndEmit_markedBuild :
    Published ⟨"1.0", "A"⟩ ["out"] markedBuild
      (resolveAndEmit markedBuild ⟨"/out"⟩ (.ofDirectory markedBuild ⟨"/out"⟩) (fun _ => true)
        ⟨"LM;", .strict, false⟩).2 ∧
    Record.render ⟨"1.0", "A"⟩ = "Manifest-Version: 1.0\r\nMain-Class: A\r\n\r\n" ∧
    Record.digest ⟨"1.0", "A"⟩
      = "a3514045723d3256fcfc45ba71c8d5979b89e36cdf667ad7fa7389097c1f4909" := by
  have hfs : markedBuild.WellFormed := by
    decide +kernel
  have hroot : markedBuild.locate ⟨"/out"⟩ = .ok ["out"] := by
    decide
  have hrun : (resolveAndEmit markedBuild ⟨"/out"⟩ (.ofDirectory markedBuild ⟨"/out"⟩)
      (fun _ => true) ⟨"LM;", .strict, false⟩).1 = .ok ⟨"1.0", "A"⟩ := by
    decide +kernel
  obtain ⟨-, hok, -⟩ := resolveAndEmit_all_or_nothing hfs ⟨"/out"⟩
    (.ofDirectory markedBuild ⟨"/out"⟩) (fun _ => true) ⟨"LM;", .strict, false⟩
    (by
      intro location target h
      rw [hroot] at h
      cases h
      simp [directoryAt, markedBuild, FileSystem.get?, List.lookup_cons])
    (by
      intro location h
      rw [hroot] at h
      cases h
      decide)
  obtain ⟨resolution, location, -, hlocation, -, hdigest, hpublished⟩ := hok _ _ (Prod.ext hrun rfl)
  rw [hroot] at hlocation
  cases hlocation
  refine ⟨hpublished, by decide +kernel, ?_⟩
  rw [hdigest]
  decide +kernel

end EntryPoint
