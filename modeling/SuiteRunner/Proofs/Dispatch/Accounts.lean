import SuiteRunner.Proofs.Dispatch.Ledger

/-! # What a run tells of its suites

A suite with test cases is announced, its failures are told with their numbers, and a line counts
them. What a run has printed and recorded so far are the accounts of the suites that it has dealt
with, one after the other, and the announcement of the one that is under way. -/
namespace SuiteRunner.Dispatch

open Suite (Located upcoming)
open Wire (Descriptor Verdict)
open Dispatcher (announce timeoutMessage)

/-- What a suite came to. -/
structure Account where
  suite : Located
  /-- How many tests had no result when the watchdog expired, if it did. -/
  lacking : Option Nat
  /-- The tests that failed, in the order of the cases. -/
  failed : List (TestCase × Reason)

/-- A line apart from what the clock has to do with it. -/
def Line.untimed : Line → Line
  | .progress run failed _ _ => .progress run failed default default
  | l => l

namespace Account

def size (a : Account) : Nat := a.suite.suite.cases.length

/-- The failures as they are recorded; `absent` is the text for a test without a result. -/
def failures (absent : String) (a : Account) : List Failure :=
  a.failed.map (failureFor a.suite.path absent)

/-- What is printed after the announcement, the first failure having the given number. -/
def outcome (number : Nat) (a : Account) : List Line :=
  (a.lacking.map (Line.timedOut · a.size)).toList ++ announce number (a.failed.map (·.1.name)) ++
    [.progress a.size a.failed.length default default, .blank]

def lines (number : Nat) (a : Account) : List Line :=
  .running a.suite.path :: a.outcome number

end Account

/-- What some suites print one after the other. -/
def transcript (number : Nat) : List Account → List Line
  | [] => []
  | a :: as => a.lines number ++ transcript (number + a.failed.length) as

/-- The account of a suite that has test cases; `id` is that of its batch if it can be sent. -/
def account (cwd : Path) (heard : Hearing) (id : Nat) (l : Located) : Account :=
  match describe cwd l.suite.cases with
  | .error fault => ⟨l, none, l.suite.cases.map (·, .unsendable fault)⟩
  | .ok _ =>
    ⟨l, if (id, Input.expired) ∈ heard then
        some (missing heard id l.suite.cases.length).length
      else none,
      suiteReasons l.suite.cases (verdict? heard id)⟩

/-- The accounts of some suites in order, the first batch among them having the given id. -/
def accounts (cwd : Path) (heard : Hearing) : Nat → List Located → List Account
  | _, [] => []
  | id, l :: rest =>
    (if l.suite.cases.isEmpty then [] else [account cwd heard id l]) ++
      accounts cwd heard (id + (batches cwd [l]).length) rest

/-- Number of failures in some accounts. -/
def failedCount (as : List Account) : Nat := (as.map (·.failed.length)).sum

section

variable {cwd : Path} {heard : Hearing} {absent : String}

theorem accounts_append (id : Nat) (xs ys : List Located) :
    accounts cwd heard id (xs ++ ys) =
      accounts cwd heard id xs ++ accounts cwd heard (id + (batches cwd xs).length) ys := by
  induction xs generalizing id with
  | nil => simp [accounts, batches]
  | cons l xs ih =>
    have hb : batches cwd (l :: xs) = batches cwd [l] ++ batches cwd xs :=
      batches_append cwd [l] xs
    simp only [List.cons_append, accounts, ih, hb, List.length_append, List.append_assoc,
      Nat.add_assoc]

private theorem accounts_singleton {l : Located} (hc : l.suite.cases.isEmpty = false) (id : Nat) :
    accounts cwd heard id [l] = [account cwd heard id l] := by
  simp [accounts, hc]

theorem account_suite (id : Nat) (l : Located) : (account cwd heard id l).suite = l := by
  unfold account
  split <;> rfl

/-- There is one account for each suite that has test cases. -/
theorem accounts_suites (id : Nat) (xs : List Located) :
    (accounts cwd heard id xs).map (·.suite) = xs.filter fun l => !l.suite.cases.isEmpty := by
  induction xs generalizing id with
  | nil => rfl
  | cons l xs ih =>
    rw [accounts, List.map_append, ih, List.filter_cons]
    cases l.suite.cases.isEmpty <;> simp [account_suite]

theorem accounts_sizes (id : Nat) (xs : List Located) :
    ((accounts cwd heard id xs).map (·.size)).sum = caseCount xs := by
  have hmap : (accounts cwd heard id xs).map (·.size) =
      (xs.filter fun l => !l.suite.cases.isEmpty).map fun l => l.suite.cases.length := by
    rw [← accounts_suites, List.map_map]
    rfl
  rw [hmap, caseCount]
  clear hmap
  induction xs with
  | nil => rfl
  | cons l xs ih =>
    rw [List.filter_cons]
    cases hc : l.suite.cases.isEmpty with
    | true =>
      have hnil : l.suite.cases = [] := by simpa using hc
      simpa [hnil] using ih
    | false => simpa using ih

theorem account_of_error {l : Located} {fault : FileFault}
    (h : describe cwd l.suite.cases = .error fault) (id : Nat) :
    account cwd heard id l = ⟨l, none, l.suite.cases.map (·, .unsendable fault)⟩ := by
  simp [account, h]

theorem account_of_ok {l : Located} {tests : List Descriptor}
    (h : describe cwd l.suite.cases = .ok tests) (id : Nat) :
    account cwd heard id l =
      ⟨l, if (id, Input.expired) ∈ heard then
          some (missing heard id l.suite.cases.length).length
        else none,
        suiteReasons l.suite.cases (verdict? heard id)⟩ := by
  simp [account, h]

/-- What is heard of another batch does not concern a suite. -/
theorem account_hear {id id' : Nat} (h : id' ≠ id) (i : Input) (l : Located) :
    account cwd (heard ++ [(id', i)]) id l = account cwd heard id l := by
  have hverdict : verdict? (heard ++ [(id', i)]) id = verdict? heard id :=
    funext fun index => verdict?_append_of_ne h heard i index
  have hmem : (id, Input.expired) ∈ heard ++ [(id', i)] ↔ (id, Input.expired) ∈ heard := by
    simp [Ne.symm h]
  simp only [account, missing, hverdict, hmem]

private theorem accounts_hear {id id' : Nat} {xs : List Located}
    (h : id + (batches cwd xs).length ≤ id') (i : Input) :
    accounts cwd (heard ++ [(id', i)]) id xs = accounts cwd heard id xs := by
  induction xs generalizing id with
  | nil => rfl
  | cons l xs ih =>
    have hb : batches cwd (l :: xs) = batches cwd [l] ++ batches cwd xs :=
      batches_append cwd [l] xs
    rw [hb, List.length_append, ← Nat.add_assoc] at h
    have hfirst : (if l.suite.cases.isEmpty then [] else [account cwd (heard ++ [(id', i)]) id l]) =
        if l.suite.cases.isEmpty then [] else [account cwd heard id l] := by
      cases hc : l.suite.cases.isEmpty with
      | true => rfl
      | false =>
        cases hd : describe cwd l.suite.cases with
        | error fault => rw [account_of_error hd, account_of_error hd]
        | ok tests =>
          rw [batches_of_ok hc hd, List.length_singleton] at h
          rw [account_hear (by omega)]
    rw [accounts, accounts, hfirst, ih h]

private theorem transcript_append (number : Nat) (xs ys : List Account) :
    transcript number (xs ++ ys) =
      transcript number xs ++ transcript (number + failedCount xs) ys := by
  induction xs generalizing number with
  | nil => rfl
  | cons a xs ih => simp [transcript, ih, failedCount, Nat.add_assoc]

theorem length_flatMap_failures (as : List Account) :
    (as.flatMap (·.failures absent)).length = failedCount as := by
  simp [List.length_flatMap, Account.failures, failedCount]

end

/-! ## What is printed and recorded -/

namespace Dispatcher

variable {d₀ d d' : Dispatcher} {plan : List Located} {heard : Hearing} {done : List Located}
  {l : Located}

/-- A run that began with `d₀` has told all of the suites `done` and announced `current`. -/
structure Told (d₀ d : Dispatcher) (heard : Hearing) (done current : List Located) : Prop where
  console : d.console.map Line.untimed = d₀.console.map Line.untimed ++
    transcript (d₀.summary.failures.length + 1) (accounts d₀.cwd heard d₀.nextId done) ++
    current.map fun l => .running l.path
  failures : d.summary.failures = d₀.summary.failures ++
    (accounts d₀.cwd heard d₀.nextId done).flatMap (·.failures (timeoutMessage d₀.window))

theorem Told.of_eq {current : List Located} (h : Told d₀ d heard done current)
    (hc : d'.console = d.console) (hf : d'.summary.failures = d.summary.failures) :
    Told d₀ d' heard done current where
  console := hc ▸ h.console
  failures := hf ▸ h.failures

theorem Told.hear {current : List Located} {id : Nat} (h : Told d₀ d heard done current)
    (hid : d₀.nextId + (batches d₀.cwd done).length ≤ id) (i : Input) :
    Told d₀ d (heard ++ [(id, i)]) done current := by
  have hsame : accounts d₀.cwd (heard ++ [(id, i)]) d₀.nextId done =
      accounts d₀.cwd heard d₀.nextId done := accounts_hear hid i
  exact ⟨hsame ▸ h.console, hsame ▸ h.failures⟩

/-- A suite is announced before anything else is told of it. -/
theorem Told.announce (h : Told d₀ d heard done []) (l : Located)
    (hc : d'.console = d.console ++ [.running l.path])
    (hf : d'.summary.failures = d.summary.failures) : Told d₀ d' heard done [l] where
  console := by
    rw [hc, List.map_append, h.console, List.map_nil, List.append_nil]
    rfl
  failures := hf ▸ h.failures

/-- Nothing is told of a suite without test cases. -/
theorem Told.pass (h : Told d₀ d heard done []) (hc : l.suite.cases.isEmpty = true) :
    Told d₀ d heard (done ++ [l]) [] := by
  have hsame : accounts d₀.cwd heard d₀.nextId (done ++ [l]) =
      accounts d₀.cwd heard d₀.nextId done := by
    simp [accounts_append, accounts, hc]
  exact ⟨hsame ▸ h.console, hsame ▸ h.failures⟩

/-- The suite that is under way is told to its end. -/
theorem Told.close (h : Told d₀ d heard done [l]) (hne : l.suite.cases.isEmpty = false)
    {a : Account} (ha : a = account d₀.cwd heard (d₀.nextId + (batches d₀.cwd done).length) l)
    (hc : d'.console.map Line.untimed =
      d.console.map Line.untimed ++ a.outcome (d.summary.failures.length + 1))
    (hf : d'.summary.failures =
      d.summary.failures ++ a.failures (timeoutMessage d₀.window)) :
    Told d₀ d' heard (done ++ [l]) [] := by
  have hall : accounts d₀.cwd heard d₀.nextId (done ++ [l]) =
      accounts d₀.cwd heard d₀.nextId done ++ [a] := by
    rw [accounts_append, accounts_singleton hne, ha]
  have hsuite : a.suite = l := ha ▸ account_suite _ l
  -- The numbers go on where those of the suites before have stopped.
  have hnumber : d.summary.failures.length + 1 = d₀.summary.failures.length + 1 +
      failedCount (accounts d₀.cwd heard d₀.nextId done) := by
    rw [h.failures, List.length_append, length_flatMap_failures]
    omega
  constructor
  · rw [hc, h.console, hall, transcript_append, hnumber]
    simp [transcript, Account.lines, hsuite]
  · rw [hf, h.failures, hall, List.flatMap_append]
    simp

/-! ### One suite after the other -/

theorem console_logFailures (d : Dispatcher) (path : String) (fs : List (TestCase × String)) :
    (d.logFailures path fs).console.map Line.untimed = d.console.map Line.untimed ++
      Dispatcher.announce (d.summary.failures.length + 1) (fs.map (·.1.name)) := by
  rw [logFailures_eq]
  simp [Dispatcher.announce, Function.comp_def, Line.untimed]

theorem console_printProgress (d : Dispatcher) (run failed begun now : Nat) :
    (d.printProgress run failed begun now).console.map Line.untimed =
      d.console.map Line.untimed ++ [.progress run failed default default, .blank] := by
  simp [printProgress, print, Line.untimed]

/-- A suite that cannot be sent is told at once. -/
theorem Told.fail {fault : FileFault} (h : Told d₀ d heard done [l])
    (hne : l.suite.cases.isEmpty = false)
    (hd : describe d₀.cwd l.suite.cases = .error fault) (now : Nat) :
    Told d₀ (d.failUnsendable now l.path l.suite.cases fault.message) heard (done ++ [l]) [] := by
  refine h.close hne (account_of_error hd _).symm ?_ ?_
  · rw [failUnsendable_logs, console_printProgress, console_logFailures]
    simp [Account.outcome, Account.size, Summary.recordRun, note, Function.comp_def]
  · rw [failUnsendable_logs, logFailures_eq]
    simp [printProgress, print, Summary.recordRun, Account.failures, failureFor, Reason.message,
      Function.comp_def]

/-- A batch that is over is told with what its results amount to. `d₁` has already printed how many
of them are missing, if that is to be told. -/
theorem Told.conclude {d₁ : Dispatcher} {b : Batch} {tests : List Descriptor} {absent : String}
    {empty : Mailbox} (lacking : Option Nat) (h : Told d₀ d heard done [l])
    (hc : Carries d₀ d plan done b l tests) (hn : b.tickets.Nodup)
    (hempty : empty = .waiting ∨ empty = .spent)
    (hbox : ∀ i t, b.tickets[i]? = some t →
      d₁.pending.box t = mailboxOf empty (verdict? heard b.id i))
    (hlacking : lacking = if (b.id, Input.expired) ∈ heard then
      some (missing heard b.id b.size).length else none)
    (hconsole : d₁.console = d.console ++ (lacking.map (Line.timedOut · b.size)).toList)
    (hfailures : d₁.summary.failures = d.summary.failures)
    (habsent : absent = timeoutMessage d₀.window ∨
      ∀ i < b.cases.length, (verdict? heard b.id i).isSome = true) (now : Nat) :
    Told d₀ (d₁.conclude now b absent) heard (done ++ [l]) [] := by
  obtain ⟨boxes, he⟩ := conclude_logs d₁ now b absent hempty hn hc.tickets hbox
  have haccount : account d₀.cwd heard (d₀.nextId + (batches d₀.cwd done).length) l =
      ⟨l, lacking, suiteReasons b.cases (verdict? heard b.id)⟩ := by
    rw [account_of_ok hc.described, ← hc.id, hlacking, hc.cases, Batch.size, hc.cases]
  have hsize : l.suite.cases.length = b.size := by rw [Batch.size, hc.cases]
  refine h.close hc.nonempty haccount.symm ?_ ?_
  · have hlog : (d₁.conclude now b absent).console.map Line.untimed =
        (d₁.logFailures b.path ((suiteReasons b.cases (verdict? heard b.id)).map
          fun f => (f.1, f.2.message absent))).console.map Line.untimed ++
        [.progress b.size (suiteReasons b.cases (verdict? heard b.id)).length default default,
          .blank] := by
      rw [he, console_printProgress]
    rw [hlog, console_logFailures, hconsole, hfailures, Account.outcome, Account.size, hsize,
      List.map_map]
    cases lacking <;> simp [Line.untimed, Function.comp_def]
  · rw [he, logFailures_eq, Account.failures, ← suiteFailures_eq, List.map_map]
    have hsame : suiteFailures l.path (timeoutMessage d₀.window) b.cases (verdict? heard b.id) =
        suiteFailures b.path absent b.cases (verdict? heard b.id) := by
      rw [hc.path]
      rcases habsent with rfl | hall
      · rfl
      · exact suiteFailures_congr hall
    rw [hsame, suiteFailures_eq]
    simp [printProgress, print, hfailures, failureFor, Function.comp_def]

section

variable {b : Batch} {tests : List Descriptor}

theorem Told.receive (h : Told d₀ d heard done [l]) (hc : Carries d₀ d plan done b l tests)
    (hin : d.pending.InFlight b.id b.tickets (verdict? heard b.id))
    (hu : (b.id, Input.expired) ∉ heard) (now : Nat) (text : String) :
    (d.receive now b text).phase = .ready ∧
        Told d₀ (d.receive now b text) (heard ++ [(b.id, .frame text)]) (done ++ [l]) [] ∨
      (∃ watchdog, (d.receive now b text).phase = .awaiting { b with watchdog }) ∧
        Told d₀ (d.receive now b text) (heard ++ [(b.id, .frame text)]) done [l] := by
  obtain ⟨pending, log, he, -⟩ := d.handleFrame_eq now text
  have hin' := inFlight_handleFrame hin now text
  have htold := h.hear (Nat.le_of_eq hc.id.symm) (.frame text)
  by_cases h0 : (d.handleFrame now text).pending.outstanding b.id = 0
  · have hall := hin'.outstanding_eq_zero_iff.mp h0
    rw [hc.tickets] at hall
    rw [Dispatcher.receive, if_pos h0]
    refine .inl ⟨rfl, htold.conclude none hc hin'.nodup (.inl rfl) hin'.box ?_ ?_ ?_ (.inr hall)
      now⟩
    · rw [if_neg (by simpa using hu)]
    · rw [he]
      simp
    · rw [he]
  · rw [Dispatcher.receive, if_neg h0]
    exact .inr ⟨⟨_, rfl⟩, htold.of_eq (by rw [he]) (by rw [he])⟩

/-- Nobody waits for the batch any more, and it was told how many results are missing. -/
def lapse (d : Dispatcher) (now : Nat) (b : Batch) : Dispatcher :=
  { d with
    pending := (d.pending.abandon b.id).1
    console := d.console ++ [.timedOut (d.pending.outstanding b.id) b.size]
    log := d.log ++ [(now, .timedOut (.batchTimeout b.id b.path (d.pending.outstanding b.id) b.size
      d.window))] }

theorem timeOut_goes_on (hgo : d.settings.continueOnTimeout = true) (now : Nat) :
    d.timeOut now b = (d.lapse now b).conclude now b (timeoutMessage d.window) := by
  simp [Dispatcher.timeOut, hgo, note, print, lapse, window]

/-- The tests that are counted as missing are those without a result. -/
theorem Told.timeOut (h : Told d₀ d heard done [l]) (hc : Carries d₀ d plan done b l tests)
    (hin : d.pending.InFlight b.id b.tickets (verdict? heard b.id))
    (hsettings : d.settings = d₀.settings) (hgo : d.settings.continueOnTimeout = true)
    (now : Nat) :
    (d.timeOut now b).phase = .ready ∧
      Told d₀ (d.timeOut now b) (heard ++ [(b.id, .expired)]) (done ++ [l]) [] := by
  have hin' : d.pending.InFlight b.id b.tickets (verdict? (heard ++ [(b.id, .expired)]) b.id) := by
    rw [verdict?_append_silent fun _ => rfl]
    exact hin
  have htold := h.hear (Nat.le_of_eq hc.id.symm) .expired
  have hlacking : d.pending.outstanding b.id =
      (missing (heard ++ [(b.id, .expired)]) b.id b.size).length := by
    rw [hin'.outstanding_eq, hc.tickets]
    rfl
  rw [timeOut_goes_on hgo]
  refine ⟨rfl, htold.conclude (some (d.pending.outstanding b.id)) hc hin'.nodup (.inr rfl)
    hin'.abandon.2 ?_ ?_ ?_ (.inl ?_) now⟩
  · rw [if_pos (by simp), hlacking]
  · rfl
  · rfl
  · exact congrArg timeoutMessage (window_eq hsettings)

end

/-! ## Along a run -/

/-- The suite under way in each phase: that of the batch in flight, which has the id `id`, or the
one that the run was given up at. -/
def UnderWay (settings : DispatchSettings) (id : Nat) : Phase → List Located → Prop
  | .ready, current => current = []
  | .sending b _, current | .awaiting b, current =>
    ∃ l, current = [l] ∧ b.id = id ∧ b.cases = l.suite.cases
  | .ended .completed, current => current = []
  | .ended (.aborted fault), current =>
    ∃ l, current = [l] ∧ l.suite.cases.isEmpty = false ∧ Blames settings l id fault
  | .ended _, _ => False

/-- What a run that began with `d₀` has told so far. -/
structure Chronicle (d₀ : Dispatcher) (plan : List Located) (d : Dispatcher) (heard : Hearing) :
    Prop where
  ledger : Ledger d₀ plan d heard
  told : ∃ done current, plan = done ++ current ++ upcoming d.todo ∧
    UnderWay d₀.settings (d₀.nextId + (batches d₀.cwd done).length) d.phase current ∧
    Told d₀ d heard done current
  /-- The watchdog of a batch expires once. -/
  unexpired : ∀ b, d.inFlight? = some b → (b.id, Input.expired) ∉ heard

theorem chronicle_start (h : d₀.pending.Quiet) (root : Suite) :
    Chronicle d₀ (root.preorder "") (d₀.start root) [] where
  ledger := ledger_start h root
  told := by
    refine ⟨[], [], by simp [start, upcoming], rfl, ?_, ?_⟩ <;> simp [start, accounts, transcript]
  unexpired b hb := by cases hb

section

variable {done : List Located} {l : Located}

/-- Between two suites. -/
theorem Chronicle.of_ready (hledger : Ledger d₀ plan d heard)
    (horder : plan = done ++ upcoming d.todo) (hp : d.phase = .ready)
    (htold : Told d₀ d heard done []) : Chronicle d₀ plan d heard := by
  refine ⟨hledger, ⟨done, [], ?_, ?_, htold⟩, fun b hb => ?_⟩
  · rw [List.append_nil]
    exact horder
  · rw [hp]
    rfl
  · simp [inFlight?, hp] at hb

/-- While the results of a suite are awaited. -/
theorem Chronicle.of_awaiting {b : Batch} (hledger : Ledger d₀ plan d heard)
    (horder : plan = done ++ [l] ++ upcoming d.todo) (hp : d.phase = .awaiting b)
    (hid : b.id = d₀.nextId + (batches d₀.cwd done).length) (hcases : b.cases = l.suite.cases)
    (htold : Told d₀ d heard done [l]) (hunexpired : (b.id, Input.expired) ∉ heard) :
    Chronicle d₀ plan d heard := by
  refine ⟨hledger, ⟨done, [l], horder, ?_, htold⟩, fun b' hb' => ?_⟩
  · rw [hp]
    exact ⟨l, rfl, hid, hcases⟩
  · rw [inFlight?, hp] at hb'
    obtain rfl := Option.some.inj hb'
    exact hunexpired

end

theorem Chronicle.visit (h : Chronicle d₀ plan d heard) (hr : d.isReady = true) (now : Nat) :
    Chronicle d₀ plan (d.visit now) heard := by
  have hledger := h.ledger.visit hr now
  obtain ⟨done, current, horder, hunder, htold⟩ := h.told
  obtain ⟨done', hb, hs⟩ := h.ledger.course
  have hphase := phase_of_isReady hr
  rw [hphase] at hs hunder
  obtain ⟨hq, horder', hnext, -⟩ := hs
  obtain rfl : current = [] := hunder
  rw [List.append_nil] at horder
  obtain rfl : done = done' := List.append_cancel_right (horder.symm.trans horder')
  cases ht : d.todo with
  | nil =>
    rw [visit_nil now hq ht] at hledger ⊢
    refine ⟨hledger, ⟨done, [], ?_, rfl, htold.of_eq rfl rfl⟩, fun b hb => ?_⟩
    · rw [List.append_nil]
      exact horder
    · simp [finish, inFlight?] at hb
  | cons l rest =>
    have hplan : plan = done ++ [l] ++ upcoming (children l ++ rest) := by
      rw [horder, ht, Suite.upcoming_cons, List.append_assoc]
      rfl
    cases hc : l.suite.cases.isEmpty with
    | true =>
      rw [visit_empty now ht hc] at hledger ⊢
      exact .of_ready hledger hplan hphase ((htold.pass hc).of_eq rfl rfl)
    | false =>
      cases hd : describe d.cwd l.suite.cases with
      | error fault =>
        have hstays : (d.visit now).phase = .ready := by
          rw [visit_fails now ht hc hd, phase_failUnsendable]
          exact hphase
        have hannounced : Told d₀ (({ d with todo := children l ++ rest }).print
            [.running l.path]) heard done [l] := htold.announce l rfl rfl
        have htold' := hannounced.fail hc (hb.cwd ▸ hd) now
        rw [← visit_fails now ht hc hd] at htold'
        exact .of_ready hledger ((todo_visit ht now).symm ▸ hplan) hstays htold'
      | ok tests =>
        obtain ⟨frame, -, he⟩ := visit_opens now hq ht hc hd
        rw [he] at hledger ⊢
        refine ⟨hledger, ⟨done, [l], hplan, ⟨l, rfl, hnext, rfl⟩, ?_⟩, fun b hb' => ?_⟩
        · exact htold.announce l rfl rfl
        · obtain rfl := Option.some.inj hb'
          exact fun hm => absurd (hb.ids _ hm) (Nat.lt_irrefl _)

/-- The suite under way is that of the batch in flight. -/
theorem Chronicle.inFlight {b : Batch} (h : Chronicle d₀ plan d heard)
    (hb : d.inFlight? = some b) :
    ∃ done l tests, Carries d₀ d plan done b l tests ∧
      d.pending.InFlight b.id b.tickets (verdict? heard b.id) ∧ d.settings = d₀.settings ∧
      Told d₀ d heard done [l] := by
  obtain ⟨done, current, horder, hunder, htold⟩ := h.told
  obtain ⟨done', hbehind, hs⟩ := h.ledger.course
  obtain ⟨l', tests, hc, hin⟩ := hs.inFlight hb
  have hcurrent : ∃ l, current = [l] := by
    unfold inFlight? at hb
    cases hp : d.phase with
    | ready => simp [hp] at hb
    | ended e => simp [hp] at hb
    | sending b' frame =>
      rw [hp] at hunder
      obtain ⟨l, rfl, -⟩ := hunder
      exact ⟨l, rfl⟩
    | awaiting b' =>
      rw [hp] at hunder
      obtain ⟨l, rfl, -⟩ := hunder
      exact ⟨l, rfl⟩
  obtain ⟨l, rfl⟩ := hcurrent
  have hsame : done ++ [l] ++ upcoming d.todo = done' ++ [l'] ++ upcoming d.todo := by
    rw [← horder, hc.order, List.append_assoc]
    rfl
  obtain ⟨rfl, hl⟩ := List.append_inj' (List.append_cancel_right hsame) rfl
  obtain rfl := List.singleton_inj.mp hl
  exact ⟨done, l, tests, hc, hin, hbehind.settings, htold⟩

theorem Chronicle.feed (h : Chronicle d₀ plan d heard) (now : Nat) (i : Input) :
    Chronicle d₀ plan (d.feed now i) (heard ++ d.hears i) := by
  have hledger := h.ledger.feed now i
  cases hphase : d.phase with
  | ready => simpa [Dispatcher.feed, hears, hphase] using h
  | ended e => simpa [Dispatcher.feed, hears, hphase] using h
  | sending b frame =>
    have hflight : d.inFlight? = some b := by simp [inFlight?, hphase]
    obtain ⟨done, l, tests, hc, -, -, htold⟩ := h.inFlight hflight
    have horder : plan = done ++ [l] ++ upcoming d.todo := by rw [hc.order]; simp
    have hears_eq : heard ++ d.hears i = heard := by simp [hears, hphase]
    rw [hears_eq] at hledger ⊢
    cases i with
    | accepted =>
      simp only [Dispatcher.feed, hphase] at hledger ⊢
      exact .of_awaiting hledger horder rfl hc.id hc.cases (htold.of_eq rfl rfl)
        (h.unexpired b hflight)
    | refused =>
      simp only [Dispatcher.feed, hphase] at hledger ⊢
      refine ⟨hledger, ⟨done, [l], horder, ⟨l, rfl, hc.nonempty, hc.id⟩, htold.of_eq rfl rfl⟩, ?_⟩
      intro b' hb'
      cases hb'
    | frame text => simpa [Dispatcher.feed, hphase] using h
    | closed => simpa [Dispatcher.feed, hphase] using h
    | expired => simpa [Dispatcher.feed, hphase] using h
  | awaiting b =>
    have hflight : d.inFlight? = some b := by simp [inFlight?, hphase]
    obtain ⟨done, l, tests, hc, hin, hsettings, htold⟩ := h.inFlight hflight
    have horder : plan = done ++ [l] ++ upcoming d.todo := by rw [hc.order]; simp
    have hears_eq : d.hears i = [(b.id, i)] := by simp [hears, hphase]
    have htold' := htold.hear (Nat.le_of_eq hc.id.symm) i
    have hunexpired := h.unexpired b hflight
    rw [hears_eq] at hledger ⊢
    cases i with
    | accepted =>
      simp only [Dispatcher.feed, hphase] at hledger ⊢
      exact .of_awaiting hledger horder hphase hc.id hc.cases htold' (by simpa using hunexpired)
    | refused =>
      simp only [Dispatcher.feed, hphase] at hledger ⊢
      exact .of_awaiting hledger horder hphase hc.id hc.cases htold' (by simpa using hunexpired)
    | closed =>
      simp only [Dispatcher.feed, hphase] at hledger ⊢
      refine ⟨hledger, ⟨done, [l], horder, ⟨l, rfl, hc.nonempty, hc.id, hc.path⟩,
        htold'.of_eq rfl rfl⟩, ?_⟩
      intro b' hb'
      cases hb'
    | frame text =>
      simp only [Dispatcher.feed, hphase] at hledger ⊢
      have htodo : (d.receive now b text).todo = d.todo := (frame_receive d now b text).todo
      rcases htold.receive hc hin hunexpired now text with ⟨hready, htold⟩ | ⟨⟨w, hwait⟩, htold⟩
      · exact .of_ready hledger (htodo ▸ horder) hready htold
      · exact .of_awaiting hledger (htodo ▸ horder) hwait hc.id hc.cases htold
          (by simpa using hunexpired)
    | expired =>
      simp only [Dispatcher.feed, hphase] at hledger ⊢
      have htodo : (d.timeOut now b).todo = d.todo := (frame_timeOut d now b).todo
      by_cases hgo : d.settings.continueOnTimeout = true
      · obtain ⟨hready, htold⟩ := htold.timeOut hc hin hsettings hgo now
        exact .of_ready hledger (htodo ▸ horder) hready htold
      · rw [Dispatcher.timeOut, if_neg hgo] at hledger ⊢
        rw [Bool.not_eq_true, hsettings] at hgo
        have htotal : b.size = l.suite.cases.length := by rw [Batch.size, hc.cases]
        refine ⟨hledger, ⟨done, [l], horder, ⟨l, rfl, hc.nonempty, hgo, hc.id, hc.path, htotal,
          window_eq hsettings⟩, htold'.of_eq rfl rfl⟩, ?_⟩
        intro b' hb'
        cases hb'

/-- Every run tells its suites in order. -/
theorem chronicle_run (h : d₀.pending.Quiet) (now : Nat) (root : Suite)
    (inputs : List (Nat × Input)) :
    Chronicle d₀ (root.preorder "") (d₀.run now root inputs) (d₀.heard now root inputs) :=
  run_induction (chronicle_start h root) (fun _ _ now hr hd => hd.visit hr now)
    (fun _ _ now i hd => hd.feed now i) now inputs

theorem chronicle_fresh (settings : DispatchSettings) (total : Nat) (begun : Moment) (cwd : Path)
    (now : Nat) (root : Suite) (inputs : List (Nat × Input)) :
    Chronicle (fresh settings total begun cwd) (root.preorder "")
      ((fresh settings total begun cwd).run now root inputs)
      ((fresh settings total begun cwd).heard now root inputs) :=
  chronicle_run Pending.quiet_empty now root inputs

end Dispatcher

end SuiteRunner.Dispatch
