import SuiteRunner.Proofs.Dispatch.Exchange
import SuiteRunner.Proofs.Path
import SuiteRunner.Proofs.Text.Utf8

/-! # Suites that cannot be sent

One file that cannot be sent is enough to keep its whole suite off the wire. All cases of the suite
fail then, and for everybody else it is as if the suite had no cases. -/
namespace SuiteRunner.Dispatch

open Suite (Located)
open Wire (Descriptor Request)

/-! ## Files -/

/-- Why a file cannot be sent: it has no path, or an absolute form that is no text. -/
inductive FaultOf (cwd : Path) : Path → FileFault → Prop where
  | emptyPath {file : Path} (empty : file.bytes = []) : FaultOf cwd file (.emptyPath file)
  | notText {file absolute : Path} (resolved : file.absolute? cwd = some absolute)
      (invalid : ¬absolute.bytes.toByteArray.IsValidUTF8) : FaultOf cwd file (.notText absolute)

def Unsendable (cwd file : Path) : Prop := ∃ fault, FaultOf cwd file fault

private theorem unsendable_iff {cwd file : Path} :
    Unsendable cwd file ↔ file.bytes = [] ∨
      ∃ a, file.absolute? cwd = some a ∧ ¬a.bytes.toByteArray.IsValidUTF8 := by
  constructor
  · rintro ⟨fault, hempty | ⟨hresolved, hinvalid⟩⟩
    · exact .inl hempty
    · exact .inr ⟨_, hresolved, hinvalid⟩
  · rintro (hempty | ⟨a, hresolved, hinvalid⟩)
    · exact ⟨_, .emptyPath hempty⟩
    · exact ⟨_, .notText hresolved hinvalid⟩

/-- What a file is sent as. -/
structure SentAs (cwd file absolute : Path) : Prop where
  resolved : file.absolute? cwd = some absolute
  valid : absolute.bytes.toByteArray.IsValidUTF8

variable {cwd file : Path} {cases : List TestCase}

theorem text?_isSome_iff {p : Path} :
    p.text?.isSome = true ↔ p.bytes.toByteArray.IsValidUTF8 := Text.Utf8.decode?_isSome_iff

theorem resolveFile_eq_ok_iff {absolute : Path} :
    resolveFile cwd file = .ok absolute ↔ SentAs cwd file absolute := by
  unfold resolveFile
  split
  · next hnone =>
    refine ⟨nofun, fun h => ?_⟩
    have hresolved := h.resolved
    rw [hnone] at hresolved
    cases hresolved
  · next a ha =>
    constructor
    · intro h
      split at h
      · next htext =>
        obtain rfl := Except.ok.inj h
        exact ⟨ha, text?_isSome_iff.mp htext⟩
      · cases h
    · intro h
      obtain rfl : a = absolute := Option.some.inj (ha.symm.trans h.resolved)
      rw [if_pos (text?_isSome_iff.mpr h.valid)]

theorem resolveFile_eq_error_iff {fault : FileFault} :
    resolveFile cwd file = .error fault ↔ FaultOf cwd file fault := by
  unfold resolveFile
  split
  · next hnone =>
    have hempty := Path.absolute?_eq_none_iff.mp hnone
    constructor
    · intro h
      obtain rfl := Except.error.inj h
      exact .emptyPath hempty
    · intro h
      cases h with
      | emptyPath _ => rfl
      | notText hresolved _ =>
        rw [hnone] at hresolved
        cases hresolved
  · next a ha =>
    constructor
    · intro h
      split at h
      · cases h
      · next htext =>
        obtain rfl := Except.error.inj h
        exact .notText ha fun hvalid => htext (text?_isSome_iff.mpr hvalid)
    · intro h
      cases h with
      | emptyPath hempty =>
        rw [Path.absolute?_eq_none_iff.mpr hempty] at ha
        cases ha
      | notText hresolved hinvalid =>
        obtain rfl := Option.some.inj (ha.symm.trans hresolved)
        rw [if_neg fun htext => hinvalid (text?_isSome_iff.mp htext)]

/-- A file can be sent or not, and there is one way to it. -/
theorem exists_sentAs_iff : (∃ absolute, SentAs cwd file absolute) ↔ ¬Unsendable cwd file := by
  simp only [Unsendable, ← resolveFile_eq_ok_iff, ← resolveFile_eq_error_iff]
  cases resolveFile cwd file <;> simp

/-! ## Suites -/

private theorem describeCase_eq_error_iff {c : TestCase} {fault : FileFault} :
    describeCase cwd c = .error fault ↔ ∃ before file after, c.files = before ++ file :: after ∧
      (∀ f ∈ before, ¬Unsendable cwd f) ∧ FaultOf cwd file fault := by
  have hmapM : describeCase cwd c = .error fault ↔
      c.files.mapM (resolveFile cwd) = .error fault := by
    unfold describeCase
    cases c.files.mapM (resolveFile cwd) <;> simp [bind, Except.bind]
  rw [hmapM, mapM_eq_error_iff]
  simp only [resolveFile_eq_ok_iff, resolveFile_eq_error_iff, exists_sentAs_iff]

theorem exists_describeCase_iff {c : TestCase} :
    (∃ t, describeCase cwd c = .ok t) ↔ ∀ f ∈ c.files, ¬Unsendable cwd f := by
  have hmapM : (∃ t, describeCase cwd c = .ok t) ↔
      ∃ paths, c.files.mapM (resolveFile cwd) = .ok paths := by
    unfold describeCase
    cases c.files.mapM (resolveFile cwd) <;> simp [bind, Except.bind]
  rw [hmapM, exists_mapM_iff]
  simp only [resolveFile_eq_ok_iff, exists_sentAs_iff]

/-- The fault of a suite is that of the first file that has one, case by case and file by file. -/
theorem describe_eq_error_iff {fault : FileFault} :
    describe cwd cases = .error fault ↔ ∃ before c after, cases = before ++ c :: after ∧
      (∀ c' ∈ before, ∀ f ∈ c'.files, ¬Unsendable cwd f) ∧
      ∃ front file back, c.files = front ++ file :: back ∧ (∀ f ∈ front, ¬Unsendable cwd f) ∧
        FaultOf cwd file fault := by
  simp only [describe, mapM_eq_error_iff, exists_describeCase_iff, describeCase_eq_error_iff]

/-- A suite can be sent if all its files can. -/
theorem exists_describe_iff :
    (∃ tests, describe cwd cases = .ok tests) ↔ ∀ c ∈ cases, ∀ f ∈ c.files, ¬Unsendable cwd f := by
  simp only [describe, exists_mapM_iff, exists_describeCase_iff]

private theorem exists_fault_iff :
    (∃ fault, describe cwd cases = .error fault) ↔
      ∃ c ∈ cases, ∃ f ∈ c.files, Unsendable cwd f := by
  have hother : (∃ fault, describe cwd cases = .error fault) ↔
      ¬∃ tests, describe cwd cases = .ok tests := by
    cases describe cwd cases <;> simp
  rw [hother, exists_describe_iff]
  push Not
  rfl

theorem nonempty_of_fault {fault : FileFault} (h : describe cwd cases = .error fault) :
    cases.isEmpty = false := by
  cases cases with
  | nil => cases h
  | cons c cases => rfl

/-! ## The tree without them -/

mutual
/-- A tree without the cases of the suites that cannot be sent. -/
def sendablePart (cwd : Path) : Suite → Suite
  | .mk name cases suites =>
    .mk name (if (describe cwd cases).isOk then cases else []) (sendableParts cwd suites)

def sendableParts (cwd : Path) : List Suite → List Suite
  | [] => []
  | s :: ss => sendablePart cwd s :: sendableParts cwd ss
end

theorem sendableParts_eq (cwd : Path) (ss : List Suite) :
    sendableParts cwd ss = ss.map (sendablePart cwd) := by
  induction ss with
  | nil => rfl
  | cons s ss ih => simp [sendableParts, ih]

private theorem name_sendablePart (cwd : Path) (s : Suite) :
    (sendablePart cwd s).name = s.name := by
  cases s
  rfl

private theorem suites_sendablePart (cwd : Path) (s : Suite) :
    (sendablePart cwd s).suites = s.suites.map (sendablePart cwd) := by
  cases s with
  | mk name cases suites =>
    rw [sendablePart, sendableParts_eq]
    rfl

theorem cases_sendablePart (cwd : Path) (s : Suite) :
    (sendablePart cwd s).cases = if (describe cwd s.cases).isOk then s.cases else [] := by
  cases s
  rfl

/-- The same place in the tree without them. -/
def sendableAt (cwd : Path) (l : Located) : Located := ⟨l.path, sendablePart cwd l.suite⟩

namespace Dispatcher

theorem children_sendableAt (cwd : Path) (l : Located) :
    children (sendableAt cwd l) = (children l).map (sendableAt cwd) := by
  simp [children, sendableAt, suites_sendablePart, Suite.childPath, name_sendablePart,
    Function.comp_def]

mutual
theorem suiteSize_sendablePart (cwd : Path) : ∀ s, suiteSize (sendablePart cwd s) = suiteSize s
  | .mk name cases suites => by
    rw [sendablePart, suiteSize, suiteSize, suitesSize_sendableParts cwd suites]

theorem suitesSize_sendableParts (cwd : Path) :
    ∀ ss, suitesSize (sendableParts cwd ss) = suitesSize ss
  | [] => rfl
  | s :: ss => by
    rw [sendableParts, suitesSize, suitesSize, suiteSize_sendablePart cwd s,
      suitesSize_sendableParts cwd ss]
end

/-! ## Two runs that look alike from outside -/

/-- The second dispatcher has the same to do but for the suites that cannot be sent, and has kept
other records. Nobody who is connected to the two can tell them apart. -/
def Alike (d d' : Dispatcher) : Prop :=
  ∃ summary console log,
    d' = { d with todo := d.todo.map (sendableAt d.cwd), summary, console, log }

variable {d d' : Dispatcher}

private theorem alike_start (d : Dispatcher) (root : Suite) :
    Alike (d.start root) (d.start (sendablePart d.cwd root)) :=
  ⟨d.summary, d.console, d.log, rfl⟩

theorem Alike.isReady (h : Alike d d') : d'.isReady = d.isReady := by
  obtain ⟨summary, console, log, rfl⟩ := h
  rfl

theorem Alike.todo (h : Alike d d') : d'.todo = d.todo.map (sendableAt d.cwd) := by
  obtain ⟨summary, console, log, rfl⟩ := h
  rfl

theorem Alike.remaining (h : Alike d d') : d'.remaining = d.remaining := by
  have hsuites : (·.suite) ∘ sendableAt d.cwd = sendablePart d.cwd ∘ (·.suite) := rfl
  rw [Dispatcher.remaining, h.todo, List.map_map, hsuites, ← List.map_map, ← sendableParts_eq,
    suitesSize_sendableParts]
  rfl

/-! ### Visiting -/

theorem Alike.openBatch (h : Alike d d') (now : Nat) (path : String) (cases : List TestCase)
    (tests : List Descriptor) :
    Alike (d.openBatch now path cases tests) (d'.openBatch now path cases tests) := by
  obtain ⟨summary, console, log, rfl⟩ := h
  simp only [Dispatcher.openBatch]
  split
  · exact ⟨summary, console, log, rfl⟩
  · split
    · exact ⟨_, console, log, rfl⟩
    · exact ⟨_, console, _, rfl⟩

theorem Alike.beginSuite (h : Alike d d') {tests : List Descriptor}
    (hd : describe d.cwd cases = .ok tests) (now : Nat) (path : String) :
    Alike (d.beginSuite now path cases) (d'.beginSuite now path cases) := by
  obtain ⟨summary, console, log, rfl⟩ := h
  simp only [Dispatcher.beginSuite, print, hd]
  exact Alike.openBatch ⟨summary, _, log, rfl⟩ now path cases tests

/-- A suite that cannot be sent is passed by both: the one fails its cases, the other finds none. -/
theorem Alike.visit_unsendable (h : Alike d d') {l : Located} {rest : List Located}
    {fault : FileFault} (ht : d.todo = l :: rest) (hd : describe d.cwd l.suite.cases = .error fault)
    (now : Nat) : Alike (d.visit now) (d'.visit now) := by
  have hnone : (sendableAt d.cwd l).suite.cases.isEmpty = true := by
    rw [sendableAt, cases_sendablePart, hd]
    rfl
  have ht' : d'.todo = sendableAt d.cwd l :: rest.map (sendableAt d.cwd) := by
    rw [h.todo, ht, List.map_cons]
  obtain ⟨console, log, hvisit⟩ := Dispatcher.visit_unsendable now ht (nonempty_of_fault hd) hd
  rw [hvisit, visit_empty now ht' hnone, children_sendableAt, ← List.map_append]
  obtain ⟨summary, console', log', rfl⟩ := h
  exact ⟨summary, console', log', rfl⟩

theorem Alike.visit (h : Alike d d') (now : Nat) : Alike (d.visit now) (d'.visit now) := by
  have ht' := h.todo
  cases ht : d.todo with
  | nil =>
    rw [ht, List.map_nil] at ht'
    simp only [Dispatcher.visit, ht, ht']
    obtain ⟨summary, console, log, rfl⟩ := h
    exact ⟨summary, console, log, rfl⟩
  | cons l rest =>
    cases hd : describe d.cwd l.suite.cases with
    | error fault => exact h.visit_unsendable ht hd now
    | ok tests =>
      have hsame : (sendableAt d.cwd l).suite.cases = l.suite.cases := by
        rw [sendableAt, cases_sendablePart, hd]
        rfl
      have hgo : Alike { d with todo := children l ++ rest }
          { d' with todo := children (sendableAt d.cwd l) ++ rest.map (sendableAt d.cwd) } := by
        rw [children_sendableAt, ← List.map_append]
        obtain ⟨summary, console, log, rfl⟩ := h
        exact ⟨summary, console, log, rfl⟩
      rw [ht, List.map_cons] at ht'
      simp only [Dispatcher.visit, ht, ht', hsame]
      split
      · exact hgo
      · exact hgo.beginSuite hd now l.path

theorem Alike.settleFor (h : Alike d d') (now n : Nat) :
    Alike (settleFor now n d) (settleFor now n d') := by
  induction n generalizing d d' with
  | zero => exact h
  | succ n ih =>
    simp only [Dispatcher.settleFor, h.isReady]
    split
    · exact ih (h.visit now)
    · exact h

theorem Alike.settle (h : Alike d d') (now : Nat) : Alike (d.settle now) (d'.settle now) := by
  rw [Dispatcher.settle, Dispatcher.settle, h.remaining]
  exact h.settleFor now _

/-! ### Awaiting -/

theorem Alike.classify (h : Alike d d') (path absent : String) (l : List (TestCase × Ticket))
    (n : Nat) : Alike (d.classify path absent l n).1 (d'.classify path absent l n).1 := by
  induction l generalizing d d' n with
  | nil => exact h
  | cons e l ih =>
    obtain ⟨c, t⟩ := e
    obtain ⟨summary, console, log, rfl⟩ := h
    cases hm : failureMessage? absent (d.pending.take t).2 with
    | none =>
      simp only [Dispatcher.classify, hm]
      exact ih ⟨summary, console, log, rfl⟩ n
    | some message =>
      simp only [Dispatcher.classify, hm]
      exact ih ⟨_, _, log, rfl⟩ (n + 1)

theorem Alike.conclude (h : Alike d d') (now : Nat) (b : Batch) (absent : String) :
    Alike (d.conclude now b absent) (d'.conclude now b absent) := by
  obtain ⟨summary, console, log, hclassify⟩ := h.classify b.path absent (b.cases.zip b.tickets) 0
  simp only [Dispatcher.conclude, hclassify]
  exact ⟨_, _, _, rfl⟩

theorem Alike.handleFrame (h : Alike d d') (now : Nat) (text : String) :
    Alike (d.handleFrame now text) (d'.handleFrame now text) := by
  obtain ⟨summary, console, log, rfl⟩ := h
  simp only [Dispatcher.handleFrame]
  split
  · exact ⟨summary, console, _, rfl⟩
  · split <;> exact ⟨summary, console, _, rfl⟩

theorem Alike.receive (h : Alike d d') (now : Nat) (b : Batch) (text : String) :
    Alike (d.receive now b text) (d'.receive now b text) := by
  have hframe := h.handleFrame now text
  have hpending : (d'.handleFrame now text).pending = (d.handleFrame now text).pending := by
    obtain ⟨summary, console, log, heq⟩ := hframe
    rw [heq]
  simp only [Dispatcher.receive, hpending]
  split
  · exact hframe.conclude now b ""
  · obtain ⟨summary, console, log, heq⟩ := hframe
    exact ⟨summary, console, log, by rw [heq]⟩

theorem Alike.timeOut (h : Alike d d') (now : Nat) (b : Batch) :
    Alike (d.timeOut now b) (d'.timeOut now b) := by
  obtain ⟨summary, console, log, rfl⟩ := h
  simp only [Dispatcher.timeOut]
  split
  · exact Alike.conclude ⟨summary, _, _, rfl⟩ now b _
  · exact ⟨summary, console, log, rfl⟩

theorem Alike.feed (h : Alike d d') (now : Nat) (i : Input) :
    Alike (d.feed now i) (d'.feed now i) := by
  have hphase : d'.phase = d.phase := by
    obtain ⟨summary, console, log, rfl⟩ := h
    rfl
  simp only [Dispatcher.feed, hphase]
  split
  · obtain ⟨summary, console, log, rfl⟩ := h
    exact ⟨summary, console, log, rfl⟩
  · obtain ⟨summary, console, log, rfl⟩ := h
    exact ⟨summary, console, log, rfl⟩
  · exact h.receive now _ _
  · obtain ⟨summary, console, log, rfl⟩ := h
    exact ⟨summary, console, log, rfl⟩
  · exact h.timeOut now _
  · exact h

theorem Alike.step (h : Alike d d') (now : Nat) (i : Input) :
    Alike (d.step now i) (d'.step now i) :=
  (h.feed now i).settle now

end Dispatcher

namespace World

/-- Two worlds that differ in their dispatchers only, and in these only where nobody looks. -/
def Alike (w w' : World) : Prop :=
  ∃ dispatcher, w.dispatcher.Alike dispatcher ∧ w' = { w with dispatcher }

variable {w w' : World}

private theorem alike_opening (d : Dispatcher) (now : Nat) (root : Suite) (capacity : Option Nat) :
    Alike (opening d now root capacity) (opening d now (sendablePart d.cwd root) capacity) :=
  ⟨_, (Dispatcher.alike_start d root).settle now, rfl⟩

theorem Alike.offer (h : Alike w w') : w'.offer = w.offer := by
  obtain ⟨d, ⟨summary, console, log, rfl⟩, rfl⟩ := h
  rfl

theorem Alike.deadline? (h : Alike w w') : w'.deadline? = w.deadline? := by
  obtain ⟨d, ⟨summary, console, log, rfl⟩, rfl⟩ := h
  rfl

theorem Alike.take (h : Alike w w') (i : Input) : Alike (w.take i) (w'.take i) := by
  obtain ⟨d, hd, rfl⟩ := h
  have hconsume : World.consume { w with dispatcher := d } i = w.consume i := by
    obtain ⟨summary, console, log, rfl⟩ := hd
    rfl
  refine ⟨_, hd.step w.clock i, ?_⟩
  simp only [World.take, hconsume]

/-- What is possible in the one world is in the other, and leaves them alike. -/
theorem Alike.does? (h : Alike w w') (e : Deed) : Option.Rel Alike (w.does? e) (w'.does? e) := by
  cases e with
  | takes i =>
    simp only [World.does?, h.offer]
    split
    · exact .some (h.take i)
    · exact .none
  | receives =>
    obtain ⟨d, hd, rfl⟩ := h
    simp only [World.does?]
    split
    · exact .none
    · exact .some ⟨d, hd, rfl⟩
  | sends frame =>
    obtain ⟨d, hd, rfl⟩ := h
    simp only [World.does?]
    split
    · exact .some ⟨d, hd, rfl⟩
    · exact .none
  | stopsSending =>
    obtain ⟨d, hd, rfl⟩ := h
    exact .some ⟨d, hd, rfl⟩
  | stopsReceiving =>
    obtain ⟨d, hd, rfl⟩ := h
    exact .some ⟨d, hd, rfl⟩
  | waits ms =>
    simp only [World.does?, h.offer, h.deadline?]
    obtain ⟨d, hd, rfl⟩ := h
    split
    · exact .some ⟨d, hd, rfl⟩
    · exact .none

theorem Alike.replay? (h : Alike w w') (deeds : List Deed) :
    Option.Rel Alike (w.replay? deeds) (w'.replay? deeds) := by
  induction deeds generalizing w w' with
  | nil => exact .some h
  | cons e deeds ih =>
    have hdoes := h.does? e
    simp only [World.replay?]
    revert hdoes
    generalize w.does? e = u, w'.does? e = u'
    rintro (hu | -)
    · exact ih hu
    · exact .none

end World

/-! ## What becomes of a suite -/

/-- A descriptor has the name of its case, and its files in absolute form and as text. -/
structure Conveys (cwd : Path) (c : TestCase) (t : Descriptor) : Prop where
  name : t.name = c.name
  files : List.Forall₂ (SentAs cwd) c.files t.files
  absolute : cwd.isAbsolute = true → ∀ file ∈ t.files, file.isAbsolute = true

private theorem conveys_of_describes {c : TestCase} {t : Descriptor} (h : Describes cwd c t) :
    Conveys cwd c t := by
  have hfiles : List.Forall₂ (SentAs cwd) c.files t.files :=
    h.2.imp fun _ _ => resolveFile_eq_ok_iff.mp
  refine ⟨h.1, hfiles, fun hcwd file hfile => ?_⟩
  obtain ⟨f, hf⟩ := exists_of_forall₂ hfiles hfile
  exact Path.isAbsolute_of_absolute? hcwd hf.resolved

namespace Dispatcher

variable {d : Dispatcher} {fault : FileFault}

private theorem beginSuite_unsendable (h : describe d.cwd cases = .error fault) (now : Nat)
    (path : String) : ∃ console log, d.beginSuite now path cases = { d with
        summary := { d.summary with
          testsRun := d.summary.testsRun + cases.length
          failures := d.summary.failures ++
            cases.map fun c => ⟨path ++ "/" ++ c.name, fault.message⟩ }
        console
        log } := by
  have hbegin : d.beginSuite now path cases =
      (d.print [.running path]).failUnsendable now path cases fault.message := by
    simp only [beginSuite, print, h]
  rw [hbegin]
  exact failUnsendable_eq (d.print [.running path]) now path cases fault.message

/-- The traversal goes on with what lies below the suite, and then with what comes after it. -/
theorem settle_unsendable {l : Located} {rest : List Located} (hr : d.isReady = true)
    (ht : d.todo = l :: rest) (h : describe d.cwd l.suite.cases = .error fault) (now : Nat) :
    d.settle now = (({ d with todo := children l ++ rest }).beginSuite now l.path
      l.suite.cases).settle now := by
  have hvisit : d.visit now =
      ({ d with todo := children l ++ rest }).beginSuite now l.path l.suite.cases := by
    simp [visit, ht, nonempty_of_fault h]
  rw [← hvisit, settle, settle, remaining_visit ht, settleFor, if_pos hr]

end Dispatcher

/-- One file that cannot be sent keeps its suite off the wire: the cases of the suite fail, all with
what is wrong with the first such file, and the run goes on as if the suite had none. -/
theorem unsendable_suite_atomic (d : Dispatcher) (now : Nat) (path : String)
    (cases : List TestCase) :
    ((∃ fault, describe d.cwd cases = .error fault) ↔ ∃ c ∈ cases, ∃ f ∈ c.files,
      f.bytes = [] ∨ ∃ a, f.absolute? d.cwd = some a ∧ ¬a.bytes.toByteArray.IsValidUTF8) ∧
    (∀ fault, describe d.cwd cases = .error fault ↔
      ∃ before c after, cases = before ++ c :: after ∧
        (∀ c' ∈ before, ∀ f ∈ c'.files, ¬Unsendable d.cwd f) ∧
        ∃ front file back, c.files = front ++ file :: back ∧
          (∀ f ∈ front, ¬Unsendable d.cwd f) ∧ FaultOf d.cwd file fault) ∧
    (∀ tests, describe d.cwd cases = .ok tests → List.Forall₂ (Conveys d.cwd) cases tests ∧
      ∀ id, ∃ frame, (Request.mk id tests).encode? = some frame) ∧
    (∀ fault, describe d.cwd cases = .error fault → ∃ console log,
      d.beginSuite now path cases =
        { d with
          summary := { d.summary with
            testsRun := d.summary.testsRun + cases.length
            failures := d.summary.failures ++
              cases.map fun c => ⟨path ++ "/" ++ c.name, fault.message⟩ }
          console
          log }) ∧
    (∀ l rest fault, d.isReady = true → d.todo = l :: rest →
      describe d.cwd l.suite.cases = .error fault →
      d.settle now = (({ d with todo := Dispatcher.children l ++ rest }).beginSuite now l.path
        l.suite.cases).settle now) ∧
    ∀ root capacity deeds, Option.Rel World.Alike
      ((World.opening d now root capacity).replay? deeds)
      ((World.opening d now (sendablePart d.cwd root) capacity).replay? deeds) := by
  refine ⟨?_, fun fault => describe_eq_error_iff, fun tests h => ⟨?_, encode?_of_describe h⟩,
    fun fault h => Dispatcher.beginSuite_unsendable h now path,
    fun l rest fault hr ht h => Dispatcher.settle_unsendable hr ht h now,
    fun root capacity deeds => (World.alike_opening d now root capacity).replay? deeds⟩
  · simp only [exists_fault_iff, unsendable_iff]
  · exact (describe_eq_ok_iff.mp h).imp fun _ _ => conveys_of_describes

/-- A name that is no text among good ones, behind an empty one. -/
def mixedCases : List TestCase :=
  [⟨"good", [⟨[97]⟩]⟩, ⟨"bad", [⟨[98]⟩, ⟨[]⟩, ⟨[0xFF]⟩]⟩]

theorem unsendable_suite_atomic_mixed :
    describe ⟨[Path.slash]⟩ mixedCases = .error (.emptyPath ⟨[]⟩) ∧
    ∃ console log,
      (Dispatcher.fresh ⟨500, false⟩ 2 default ⟨[Path.slash]⟩).beginSuite 0 "/s" mixedCases =
        { Dispatcher.fresh ⟨500, false⟩ 2 default ⟨[Path.slash]⟩ with
          summary := { (Summary.start default) with
            testsRun := 2
            failures := [⟨"/s/good", (FileFault.emptyPath ⟨[]⟩).message⟩,
              ⟨"/s/bad", (FileFault.emptyPath ⟨[]⟩).message⟩] }
          console
          log } := by
  have hfault : describe ⟨[Path.slash]⟩ mixedCases = .error (.emptyPath ⟨[]⟩) := by decide +kernel
  exact ⟨hfault, (unsendable_suite_atomic (.fresh ⟨500, false⟩ 2 default ⟨[Path.slash]⟩) 0 "/s"
    mixedCases).2.2.2.1 _ hfault⟩

end SuiteRunner.Dispatch
