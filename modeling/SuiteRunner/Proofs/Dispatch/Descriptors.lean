import SuiteRunner.Dispatch.Descriptors
import SuiteRunner.Proofs.Wire.Request

/-! # What is put on the wire

A suite is described case by case and file by file, and what is described can be written down. -/
namespace SuiteRunner.Dispatch

open Wire (Descriptor Request)

/-- A descriptor has the name of its case and the absolute forms of its files. -/
def Describes (cwd : Path) (c : TestCase) (t : Descriptor) : Prop :=
  t.name = c.name ∧ List.Forall₂ (fun file path => resolveFile cwd file = .ok path) c.files t.files

private theorem describeCase_eq_ok_iff {cwd : Path} {c : TestCase} {t : Descriptor} :
    describeCase cwd c = .ok t ↔ Describes cwd c t := by
  obtain ⟨name, files⟩ := t
  rw [Describes, ← mapM_eq_ok_iff]
  unfold describeCase
  cases c.files.mapM (resolveFile cwd) with
  | error fault => simp [bind, Except.bind]
  | ok paths => simp [bind, Except.bind, eq_comm]

theorem describe_eq_ok_iff {cwd : Path} {cases : List TestCase} {tests : List Descriptor} :
    describe cwd cases = .ok tests ↔ List.Forall₂ (Describes cwd) cases tests := by
  simp only [describe, mapM_eq_ok_iff, describeCase_eq_ok_iff]

private theorem text?_isSome_of_resolveFile {cwd file path : Path}
    (h : resolveFile cwd file = .ok path) : path.text?.isSome = true := by
  unfold resolveFile at h
  split at h
  · cases h
  · split at h
    · obtain rfl := Except.ok.inj h
      assumption
    · cases h

theorem encode?_of_describe {cwd : Path} {cases : List TestCase} {tests : List Descriptor}
    (h : describe cwd cases = .ok tests) (id : Nat) :
    ∃ frame, (Request.mk id tests).encode? = some frame := by
  rw [← Option.isSome_iff_exists, Wire.encode?_isSome_iff]
  intro t ht file hfile
  obtain ⟨c, -, hfiles⟩ := exists_of_forall₂ (describe_eq_ok_iff.mp h) ht
  obtain ⟨f, hf⟩ := exists_of_forall₂ hfiles hfile
  exact text?_isSome_of_resolveFile hf

end SuiteRunner.Dispatch
