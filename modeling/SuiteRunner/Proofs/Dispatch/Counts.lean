import Mathlib.Algebra.Order.BigOperators.Group.List
import Mathlib.Algebra.Order.Group.Nat
import SuiteRunner.Proofs.Dispatch.Accounts

/-! # The numbers of a run agree

Tests are counted for the whole tree, when their suite is handed out, in the line that closes the
suite, and as failures. At every moment of a run these numbers fit together. -/
namespace SuiteRunner.Dispatch

open Suite (Located upcoming)
open Wire (Response Verdict)
open Dispatcher (timeoutMessage)

/-! ## Reading the console -/

/-- The tests and the failures that a closing line counts. -/
def Line.counts? : Line → Option (Nat × Nat)
  | .progress run failed _ _ => some (run, failed)
  | _ => none

/-- The missing results that a line tells of, and of how many tests. -/
def Line.lacks? : Line → Option (Nat × Nat)
  | .timedOut missing total => some (missing, total)
  | _ => none

/-- What does not depend on the clock can be read off the untimed lines. -/
theorem filterMap_untimed {α : Type} {f : Line → Option α} (h : ∀ l, f l.untimed = f l)
    (lines : List Line) : (lines.map Line.untimed).filterMap f = lines.filterMap f := by
  rw [List.filterMap_map]
  exact List.filterMap_congr fun l _ => h l

theorem filterMap_announce {α : Type} {f : Line → Option α} (h : ∀ name n, f (.failure name n) = none)
    (number : Nat) (names : List String) :
    (Dispatcher.announce number names).filterMap f = [] := by
  simp [Dispatcher.announce, h]

private theorem counts_transcript (number : Nat) (as : List Account) :
    (transcript number as).filterMap Line.counts? = as.map fun a => (a.size, a.failed.length) := by
  induction as generalizing number with
  | nil => rfl
  | cons a as ih =>
    have hnone : (Dispatcher.announce number (a.failed.map (·.1.name))).filterMap Line.counts? = [] :=
      filterMap_announce (fun _ _ => rfl) _ _
    rw [transcript, List.filterMap_append, ih, Account.lines, Account.outcome,
      List.filterMap_cons_none rfl, List.filterMap_append, List.filterMap_append, hnone]
    cases a.lacking <;> rfl

private theorem lacks_transcript (number : Nat) (as : List Account) :
    (transcript number as).filterMap Line.lacks? =
      as.filterMap fun a => a.lacking.map (·, a.size) := by
  induction as generalizing number with
  | nil => rfl
  | cons a as ih =>
    have hnone : (Dispatcher.announce number (a.failed.map (·.1.name))).filterMap Line.lacks? = [] :=
      filterMap_announce (fun _ _ => rfl) _ _
    rw [transcript, List.filterMap_append, ih, Account.lines, Account.outcome,
      List.filterMap_cons_none rfl, List.filterMap_append, List.filterMap_append, hnone]
    cases h : a.lacking <;> simp [List.filterMap_cons, Line.lacks?, h]

/-! ## The numbers of one suite -/

private theorem length_suiteReasons_le (cases : List TestCase) (results : Nat → Option Verdict) :
    (suiteReasons cases results).length ≤ cases.length := by
  have hle := List.length_filterMap_le
    (fun c : TestCase × Nat => (Reason.of? (results c.2)).map (c.1, ·)) cases.zipIdx
  rwa [List.length_zipIdx] at hle

/-- The tests that fail for want of a result are those without one. -/
theorem length_unanswered (cases : List TestCase) (heard : Hearing) (id : Nat) :
    ((suiteReasons cases (verdict? heard id)).filter (·.2 = .unanswered)).length =
      (missing heard id cases.length).length := by
  have hcount (l : List (TestCase × Nat)) :
      ((l.filterMap fun c => (Reason.of? (verdict? heard id c.2)).map (c.1, ·)).filter
        (·.2 = .unanswered)).length =
      ((l.map (·.2)).filter fun i => (verdict? heard id i).isNone).length := by
    induction l with
    | nil => rfl
    | cons c l ih =>
      cases hv : verdict? heard id c.2 with
      | none =>
        rw [List.filterMap_cons, hv]
        simpa [Reason.of?, hv] using ih
      | some v =>
        rw [List.filterMap_cons, hv]
        cases v <;> simpa [Reason.of?, hv] using ih
  rw [suiteReasons, hcount, List.zipIdx_map_snd, ← List.range_eq_range', missing]

section

variable {cwd : Path} {heard : Hearing} {id : Nat}

private theorem failed_le_size (l : Located) :
    (account cwd heard id l).failed.length ≤ (account cwd heard id l).size := by
  cases hd : describe cwd l.suite.cases with
  | error fault => simp [account_of_error hd, Account.size]
  | ok tests =>
    rw [account_of_ok hd]
    exact length_suiteReasons_le _ _

private theorem lacking_eq_unanswered (l : Located) {k : Nat}
    (h : (account cwd heard id l).lacking = some k) :
    k = ((account cwd heard id l).failed.filter (·.2 = .unanswered)).length := by
  cases hd : describe cwd l.suite.cases with
  | error fault => simp [account_of_error hd] at h
  | ok tests =>
    rw [account_of_ok hd] at h ⊢
    simp only at h ⊢
    split at h
    · rw [length_unanswered]
      exact (Option.some.inj h).symm
    · cases h

/-- What holds of every account holds of those of some suites. -/
theorem forall_mem_accounts {P : Account → Prop} (h : ∀ id l, P (account cwd heard id l))
    (xs : List Located) : ∀ a ∈ accounts cwd heard id xs, P a := by
  induction xs generalizing id with
  | nil => simp [accounts]
  | cons l xs ih =>
    intro a ha
    rw [accounts, List.mem_append] at ha
    rcases ha with ha | ha
    · split at ha
      · simp at ha
      · rw [List.mem_singleton.mp ha]
        exact h id l
    · exact ih a ha

private theorem failedCount_le (xs : List Located) :
    failedCount (accounts cwd heard id xs) ≤ caseCount xs := by
  have hsizes : ((accounts cwd heard id xs).map (·.size)).sum = caseCount xs := accounts_sizes id xs
  rw [← hsizes, failedCount]
  exact List.sum_le_sum (forall_mem_accounts (fun _ l => failed_le_size l) xs)

end

namespace Dispatcher

variable {d₀ d d₁ d' : Dispatcher} {root : Suite} {heard : Hearing} {now : Nat}

/-! ## Nothing is taken back -/

/-- What was sent, recorded and counted in `d` still is in `d'`. -/
structure Grows (d d' : Dispatcher) : Prop where
  sent : d.sent <+: d'.sent
  failures : d.summary.failures <+: d'.summary.failures
  testsRun : d.summary.testsRun ≤ d'.summary.testsRun

theorem Grows.of_eq (hs : d'.sent = d.sent) (h : d'.summary = d.summary) : Grows d d' := by
  constructor
  · exact hs ▸ List.prefix_rfl
  · exact h ▸ List.prefix_rfl
  · rw [h]

theorem Grows.refl (d : Dispatcher) : Grows d d := .of_eq rfl rfl

theorem Grows.trans (h : Grows d d₁) (h' : Grows d₁ d') : Grows d d' where
  sent := h.sent.trans h'.sent
  failures := h.failures.trans h'.failures
  testsRun := h.testsRun.trans h'.testsRun

private theorem grows_logFailures (d : Dispatcher) (path : String) (fs : List (TestCase × String)) :
    Grows d (d.logFailures path fs) := by
  rw [logFailures_eq]
  exact ⟨List.prefix_rfl, List.prefix_append _ _, Nat.le_refl _⟩

theorem grows_classify (path absent : String) (l : List (TestCase × Ticket)) (d : Dispatcher)
    (n : Nat) : Grows d (d.classify path absent l n).1 := by
  induction l generalizing d n with
  | nil => exact .refl d
  | cons e l ih =>
    obtain ⟨c, t⟩ := e
    have htake : Grows d { d with pending := (d.pending.take t).1 } := .of_eq rfl rfl
    cases hm : failureMessage? absent (d.pending.take t).2 with
    | none =>
      simp only [classify, hm]
      exact htake.trans (ih _ n)
    | some message =>
      have hlog : Grows { d with pending := (d.pending.take t).1 }
          (({ d with pending := (d.pending.take t).1 } : Dispatcher).logFailure path c message) :=
        ⟨List.prefix_rfl, List.prefix_append _ _, Nat.le_refl _⟩
      simp only [classify, hm]
      exact (htake.trans hlog).trans (ih _ (n + 1))

private theorem grows_conclude (d : Dispatcher) (now : Nat) (b : Batch) (absent : String) :
    Grows d (d.conclude now b absent) :=
  (grows_classify b.path absent (b.cases.zip b.tickets) d 0).trans (.of_eq rfl rfl)

theorem grows_feed (d : Dispatcher) (now : Nat) (i : Input) : Grows d (d.feed now i) := by
  unfold feed
  split
  · exact ⟨List.prefix_append _ _, List.prefix_rfl, Nat.le_refl _⟩
  · exact .of_eq rfl rfl
  · next b text hp =>
    obtain ⟨pending, log, he, -⟩ := d.handleFrame_eq now text
    have hframe : Grows d (d.handleFrame now text) := by
      rw [he]
      exact .of_eq rfl rfl
    simp only [receive]
    split
    · exact hframe.trans (grows_conclude _ now b "")
    · exact hframe.trans (.of_eq rfl rfl)
  · exact .of_eq rfl rfl
  · next b hp =>
    by_cases hgo : d.settings.continueOnTimeout = true
    · rw [timeOut_goes_on hgo]
      have hlapse : Grows d (d.lapse now b) := .of_eq rfl rfl
      exact hlapse.trans (grows_conclude _ now b _)
    · rw [timeOut, if_neg hgo]
      exact .of_eq rfl rfl
  · exact .refl d

private theorem grows_openBatch (d : Dispatcher) (now : Nat) (path : String) (cases : List TestCase)
    (tests : List Wire.Descriptor) : Grows d (d.openBatch now path cases tests) := by
  have hcount : Grows d { d with summary := d.summary.recordRun cases.length } :=
    ⟨List.prefix_rfl, List.prefix_rfl, Nat.le_add_right _ _⟩
  simp only [openBatch]
  split
  · exact .of_eq rfl rfl
  · split
    · exact hcount.trans (.of_eq rfl rfl)
    · exact hcount.trans (.of_eq rfl rfl)

theorem grows_visit (d : Dispatcher) (now : Nat) : Grows d (d.visit now) := by
  unfold visit
  split
  · exact .of_eq rfl rfl
  · next l rest ht =>
    have hprint : Grows d (({ d with todo := children l ++ rest } : Dispatcher).print
        [.running l.path]) := .of_eq rfl rfl
    simp only
    split
    · exact .of_eq rfl rfl
    · unfold beginSuite
      simp only
      split
      · obtain ⟨console, log, he⟩ := failUnsendable_eq
          (({ d with todo := children l ++ rest } : Dispatcher).print [.running l.path]) now l.path
          l.suite.cases _
        rw [he]
        exact hprint.trans ⟨List.prefix_rfl, List.prefix_append _ _, Nat.le_add_right _ _⟩
      · exact hprint.trans (grows_openBatch _ now l.path l.suite.cases _)

theorem grows_settle (d : Dispatcher) (now : Nat) : Grows d (d.settle now) :=
  settleFor_induction (P := Grows d) (fun d' _ h => h.trans (grows_visit d' now)) _ d (.refl d)

theorem grows_step (d : Dispatcher) (now : Nat) (i : Input) : Grows d (d.step now i) :=
  (grows_feed d now i).trans (grows_settle _ now)

/-! ## The moments of a run -/

/-- The states between the steps of a run, each with what was heard by then. -/
inductive Passes (d₀ : Dispatcher) (root : Suite) : Dispatcher → Hearing → Prop where
  | start : Passes d₀ root (d₀.start root) []
  | visit {d : Dispatcher} {heard : Hearing} (h : Passes d₀ root d heard)
      (ready : d.isReady = true) (now : Nat) : Passes d₀ root (d.visit now) heard
  | feed {d : Dispatcher} {heard : Hearing} (h : Passes d₀ root d heard) (now : Nat) (i : Input) :
      Passes d₀ root (d.feed now i) (heard ++ d.hears i)

private theorem passes_run (d₀ : Dispatcher) (now : Nat) (root : Suite)
    (inputs : List (Nat × Input)) :
    Passes d₀ root (d₀.run now root inputs) (d₀.heard now root inputs) :=
  run_induction .start (fun _ _ now ready h => h.visit ready now) (fun _ _ now i h => h.feed now i)
    now inputs

theorem Passes.chronicle (h : Passes d₀ root d heard) (hq : d₀.pending.Quiet) :
    Chronicle d₀ (root.preorder "") d heard := by
  induction h with
  | start => exact chronicle_start hq root
  | visit _ ready now ih => exact ih.visit ready now
  | feed _ now i ih => exact ih.feed now i

/-- The state in which an input makes a dispatcher close a batch, the batch, and the text for its
missing results. -/
def closing? (d : Dispatcher) (now : Nat) (i : Input) : Option (Dispatcher × Batch × String) :=
  match d.phase, i with
  | .awaiting b, .frame text =>
    if (d.handleFrame now text).pending.outstanding b.id = 0 then
      some (d.handleFrame now text, b, "")
    else none
  | .awaiting b, .expired =>
    if d.settings.continueOnTimeout then some (d.lapse now b, b, timeoutMessage d.window) else none
  | _, _ => none

/-- The tests of a suite that cannot be sent are counted. -/
def counted (d : Dispatcher) (now : Nat) (l : Located) (rest : List Located) (fault : FileFault) :
    Dispatcher :=
  { d with
    todo := children l ++ rest
    console := d.console ++ [.running l.path]
    log := d.log ++ [(now, .unsendable l.path fault.message)]
    summary := d.summary.recordRun l.suite.cases.length }

/-- The states within a step: failures are recorded one after the other, here the first `n` of a
suite that cannot be sent, or those of the first `n` tests of a batch that is closed. `d'` is the
state after the step. -/
inductive Amid (d : Dispatcher) : Dispatcher → Dispatcher → Prop where
  | unsendable {l : Located} {rest : List Located} {fault : FileFault} (ready : d.isReady = true)
      (todo : d.todo = l :: rest) (nonempty : l.suite.cases.isEmpty = false)
      (h : describe d.cwd l.suite.cases = .error fault) (now n : Nat) :
      Amid d
        ((d.counted now l rest fault).logFailures l.path
          ((l.suite.cases.take n).map (·, fault.message)))
        (d.visit now)
  | closing {now : Nat} {i : Input} {d₁ : Dispatcher} {b : Batch} {absent : String}
      (h : d.closing? now i = some (d₁, b, absent)) (n : Nat) :
      Amid d (d₁.classify b.path absent ((b.cases.zip b.tickets).take n) 0).1 (d.feed now i)

private theorem feed_of_closing {i : Input} {b : Batch} {absent : String}
    (h : d.closing? now i = some (d₁, b, absent)) :
    d.feed now i = d₁.conclude now b absent ∧ Grows d d₁ := by
  unfold closing? at h
  split at h
  · next text hp =>
    split at h
    · next h0 =>
      cases h
      obtain ⟨pending, log, he, -⟩ := d.handleFrame_eq now text
      exact ⟨by simp [feed, hp, receive, h0], .of_eq (by rw [he]) (by rw [he])⟩
    · cases h
  · next hp =>
    split at h
    · next hgo =>
      cases h
      refine ⟨?_, .of_eq rfl rfl⟩
      simp only [feed, hp]
      rw [timeOut_goes_on hgo]
    · cases h
  · cases h

private theorem classify_append (path absent : String) (xs ys : List (TestCase × Ticket))
    (d : Dispatcher) (n : Nat) : d.classify path absent (xs ++ ys) n =
      (d.classify path absent xs n).1.classify path absent ys (d.classify path absent xs n).2 := by
  induction xs generalizing d n with
  | nil => rfl
  | cons e xs ih =>
    obtain ⟨c, t⟩ := e
    cases hm : failureMessage? absent (d.pending.take t).2 with
    | none => simp only [List.cons_append, classify, hm, ih]
    | some message => simp only [List.cons_append, classify, hm, ih]

private theorem logFailures_append (d : Dispatcher) (path : String)
    (xs ys : List (TestCase × String)) :
    d.logFailures path (xs ++ ys) = (d.logFailures path xs).logFailures path ys :=
  List.foldl_append

/-- Tests are counted before any of their failures is recorded. -/
theorem Amid.grows (h : Amid d d₁ d') :
    Grows d d₁ ∧ Grows d₁ d' ∧ d'.summary.testsRun = d₁.summary.testsRun := by
  cases h with
  | @unsendable l rest fault ready todo nonempty hd now n =>
    have hcounted : Grows d (d.counted now l rest fault) :=
      ⟨List.prefix_rfl, List.prefix_rfl, Nat.le_add_right _ _⟩
    have hvisit : d.visit now =
        (((d.counted now l rest fault).logFailures l.path
            ((l.suite.cases.take n).map (·, fault.message))).logFailures l.path
          ((l.suite.cases.drop n).map (·, fault.message))).printProgress l.suite.cases.length
            l.suite.cases.length now now := by
      rw [visit_fails now todo nonempty hd, failUnsendable_logs, ← logFailures_append,
        ← List.map_append, List.take_append_drop]
      rfl
    rw [hvisit]
    refine ⟨hcounted.trans (grows_logFailures _ _ _),
      (grows_logFailures _ _ _).trans (.of_eq rfl rfl), ?_⟩
    rw [logFailures_eq _ _ ((l.suite.cases.drop n).map (·, fault.message))]
    rfl
  | @closing now i before b absent hclosing n =>
    obtain ⟨hfeed, hgrows⟩ := feed_of_closing hclosing
    have hsplit := classify_append b.path absent ((b.cases.zip b.tickets).take n)
      ((b.cases.zip b.tickets).drop n) before 0
    rw [List.take_append_drop] at hsplit
    rw [hfeed, conclude, hsplit]
    refine ⟨hgrows.trans (grows_classify _ _ _ _ _), ?_, ?_⟩
    · exact (grows_classify _ _ _ _ _).trans (.of_eq rfl rfl)
    · exact (frame_classify _ _ _ _ _).testsRun

/-! ## The balance -/

/-- The numbers of a run in one of its states. The suites `done` are dealt with, and `current` is
the one in flight or the one that the run was given up at, if there is one. -/
structure Balanced (settings : DispatchSettings) (cwd : Path) (d : Dispatcher) (heard : Hearing)
    (done current : List Located) : Prop where
  underWay : UnderWay settings (batches cwd done).length d.phase current
  /-- Each suite with test cases that is dealt with has one line that counts its tests and those
  of them that failed. -/
  suites : (accounts cwd heard 0 done).map (·.suite) = done.filter fun l => !l.suite.cases.isEmpty
  lines : d.console.filterMap Line.counts? =
    (accounts cwd heard 0 done).map fun a => (a.size, a.failed.length)
  recorded : d.summary.failures =
    (accounts cwd heard 0 done).flatMap (·.failures (timeoutMessage settings.batchSpan))
  run : ((d.console.filterMap Line.counts?).map (·.1)).sum + caseCount current =
    d.summary.testsRun
  failed : ((d.console.filterMap Line.counts?).map (·.2)).sum = d.summary.failures.length
  /-- The missing results that are told of are the failures for want of a result. -/
  lacking : d.console.filterMap Line.lacks? =
    (accounts cwd heard 0 done).filterMap fun a => a.lacking.map (·, a.size)
  unanswered : ∀ a ∈ accounts cwd heard 0 done, ∀ k, a.lacking = some k →
    k = (a.failed.filter (·.2 = .unanswered)).length

section

variable {settings : DispatchSettings} {total : Nat} {begun : Moment} {cwd : Path}

theorem Told.balanced {done current : List Located}
    (h : Told (fresh settings total begun cwd) d heard done current)
    (hunder : UnderWay settings (batches cwd done).length d.phase current)
    (hrun : d.summary.testsRun = caseCount (done ++ current)) :
    Balanced settings cwd d heard done current := by
  have hconsole : d.console.map Line.untimed = transcript 1 (accounts cwd heard 0 done) ++
      current.map fun l => .running l.path := h.console
  have hfailures : d.summary.failures =
      (accounts cwd heard 0 done).flatMap (·.failures (timeoutMessage settings.batchSpan)) :=
    h.failures
  have hlines : d.console.filterMap Line.counts? =
      (accounts cwd heard 0 done).map fun a => (a.size, a.failed.length) := by
    rw [← filterMap_untimed (fun l => by cases l <;> rfl), hconsole, List.filterMap_append,
      counts_transcript]
    simp [Line.counts?]
  have hlacks : d.console.filterMap Line.lacks? =
      (accounts cwd heard 0 done).filterMap fun a => a.lacking.map (·, a.size) := by
    rw [← filterMap_untimed (fun l => by cases l <;> rfl), hconsole, List.filterMap_append,
      lacks_transcript]
    simp [Line.lacks?]
  refine ⟨hunder, accounts_suites 0 done, hlines, hfailures, ?_, ?_, hlacks, ?_⟩
  · rw [hlines, List.map_map, hrun, caseCount_append]
    exact congrArg (· + caseCount current) (accounts_sizes 0 done)
  · rw [hlines, hfailures, List.map_map, length_flatMap_failures]
    rfl
  · exact forall_mem_accounts (fun _ l _ h => lacking_eq_unanswered l h) done

/-- The suites that are counted are those dealt with and the one under way. -/
theorem Passes.balanced (h : Passes (fresh settings total begun cwd) root d heard) :
    ∃ done current, root.preorder "" = done ++ current ++ upcoming d.todo ∧
      d.summary.testsRun = caseCount (done ++ current) ∧
      Balanced settings cwd d heard done current := by
  have hchronicle := h.chronicle Pending.quiet_empty
  obtain ⟨done, current, horder, hunder, htold⟩ := hchronicle.told
  obtain ⟨seen, hseen, hrun, -⟩ := hchronicle.ledger.begun
  obtain rfl : seen = done ++ current := List.append_cancel_right (hseen.symm.trans horder)
  rw [show (fresh settings total begun cwd).summary.testsRun = 0 from rfl, Nat.zero_add] at hrun
  rw [show (fresh settings total begun cwd).nextId = 0 from rfl, Nat.zero_add] at hunder
  exact ⟨done, current, horder, hrun, htold.balanced hunder hrun⟩

theorem Passes.failures_le (h : Passes (fresh settings total begun cwd) root d heard) :
    d.summary.failures.length ≤ d.summary.testsRun := by
  obtain ⟨done, current, -, hrun, hbalanced⟩ := h.balanced
  calc d.summary.failures.length
      = failedCount (accounts cwd heard 0 done) := by
        rw [hbalanced.recorded, length_flatMap_failures]
    _ ≤ caseCount done := failedCount_le done
    _ ≤ caseCount (done ++ current) := by
        rw [caseCount_append]
        exact Nat.le_add_right _ _
    _ = d.summary.testsRun := hrun.symm

theorem Passes.testsRun_add (h : Passes (fresh settings total begun cwd) root d heard) :
    d.summary.testsRun + caseCount (upcoming d.todo) = root.testCount := by
  obtain ⟨done, current, horder, hrun, -⟩ := h.balanced
  rw [hrun, ← caseCount_append, ← horder, Suite.testCount_eq_sum root ""]
  rfl

theorem Passes.testsRun_le (h : Passes (fresh settings total begun cwd) root d heard) :
    d.summary.testsRun ≤ root.testCount :=
  h.testsRun_add ▸ Nat.le_add_right _ _

private theorem Passes.testsRun_of_completed
    (h : Passes (fresh settings total begun cwd) root d heard)
    (he : d.ending? = some .completed) : d.summary.testsRun = root.testCount := by
  have htodo : d.todo = [] :=
    (h.chronicle Pending.quiet_empty).ledger.ended (phase_of_ending? he)
  have hall := h.testsRun_add
  rwa [htodo] at hall

end

theorem Passes.amid (h : Passes d₀ root d heard) (ha : Amid d d₁ d') :
    ∃ heard', Passes d₀ root d' heard' := by
  cases ha with
  | unsendable ready todo nonempty hd now n => exact ⟨heard, h.visit ready now⟩
  | @closing now i _ _ _ hclosing n => exact ⟨_, h.feed now i⟩

/-- The numbers of a run of `root` in one of its states and within the steps that it can take
there. -/
structure Conserved (settings : DispatchSettings) (cwd : Path) (root : Suite) (d : Dispatcher)
    (heard : Hearing) : Prop where
  failures_le : d.summary.failures.length ≤ d.summary.testsRun
  testsRun_le : d.summary.testsRun ≤ root.testCount
  completed : d.ending? = some .completed → d.summary.testsRun = root.testCount
  balanced : ∃ done current, root.preorder "" = done ++ current ++ upcoming d.todo ∧
    Balanced settings cwd d heard done current
  visit : ∀ now, d.summary.testsRun ≤ (d.visit now).summary.testsRun
  feed : ∀ now i, d.summary.testsRun ≤ (d.feed now i).summary.testsRun
  amid : ∀ d₁ d', Amid d d₁ d' →
    d.summary.testsRun ≤ d₁.summary.testsRun ∧ d₁.summary.testsRun ≤ d'.summary.testsRun ∧
      d₁.summary.failures.length ≤ d₁.summary.testsRun ∧ d₁.summary.testsRun ≤ root.testCount

/-- At every moment of every run there are no more failures than tests handed out, and no more of
those than tests in the tree; tests that were handed out stay so, and a completed run has handed
out all of them. The lines that close the suites count all tests but those of the suite under way
and all failures, and a line that tells of missing results counts the failures for want of one. -/
theorem counts_conserved (settings : DispatchSettings) (begun : Moment) (cwd : Path)
    (root : Suite) :
    (∀ now inputs, Passes (fresh settings root.testCount begun cwd) root
      ((fresh settings root.testCount begun cwd).run now root inputs)
      ((fresh settings root.testCount begun cwd).heard now root inputs)) ∧
    ∀ d heard, Passes (fresh settings root.testCount begun cwd) root d heard →
      Conserved settings cwd root d heard := by
  refine ⟨fun now inputs => passes_run _ now root inputs, fun d heard h => ?_⟩
  obtain ⟨done, current, horder, -, hbalanced⟩ := h.balanced
  refine ⟨h.failures_le, h.testsRun_le, h.testsRun_of_completed, ⟨done, current, horder, hbalanced⟩,
    fun now => (grows_visit d now).testsRun, fun now i => (grows_feed d now i).testsRun, ?_⟩
  intro d₁ d' ha
  obtain ⟨hbefore, hafter, hsame⟩ := ha.grows
  obtain ⟨heard', h'⟩ := h.amid ha
  refine ⟨hbefore.testsRun, hafter.testsRun, ?_, hsame ▸ h'.testsRun_le⟩
  calc d₁.summary.failures.length
      ≤ d'.summary.failures.length := hafter.failures.length_le
    _ ≤ d'.summary.testsRun := h'.failures_le
    _ = d₁.summary.testsRun := hsame

/-- A suite that gets one of its two results, one that cannot be sent, and one that is well. -/
def mixedTree : Suite :=
  .mk "" [] [.mk "slow" [⟨"s1", []⟩, ⟨"s2", []⟩] [], .mk "nameless" [⟨"n", [⟨[]⟩]⟩] [],
    .mk "well" [⟨"w", []⟩] []]

def mixedInputs : List (Nat × Input) :=
  [(0, .accepted), (5, .frame (Response.mk 0 1 (.failed (some "boom"))).encode), (505, .expired),
    (505, .accepted), (506, .frame (Response.mk 1 0 .ok).encode)]

theorem counts_conserved_mixed :
    ∃ d heard, d = (fresh ⟨500, true⟩ 4 default ⟨[Path.slash]⟩).run 0 mixedTree mixedInputs ∧
      d.console.filterMap Line.counts? = [(2, 2), (1, 1), (1, 0)] ∧
      d.console.filterMap Line.lacks? = [(1, 2)] ∧ d.summary.testsRun = 4 ∧
      Conserved ⟨500, true⟩ ⟨[Path.slash]⟩ mixedTree d heard := by
  have h := counts_conserved ⟨500, true⟩ default ⟨[Path.slash]⟩ mixedTree
  exact ⟨_, _, rfl, by decide +kernel, by decide +kernel, by decide +kernel,
    h.2 _ _ (h.1 0 mixedInputs)⟩

end Dispatcher

end SuiteRunner.Dispatch
