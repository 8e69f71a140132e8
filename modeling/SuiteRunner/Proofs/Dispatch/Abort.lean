import SuiteRunner.Proofs.Dispatch.Ledger

/-! # Runs that are given up

A run is given up while a batch is in flight, and then nothing of that batch is recorded but that
its tests were handed out. -/
namespace SuiteRunner.Dispatch

open Suite (Located upcoming)
open Wire (Descriptor Request Response Verdict)

namespace Dispatcher

variable {d₀ d : Dispatcher} {plan : List Located} {heard : Hearing} {i : Input} {b : Batch}
  {fault : RunFault}

/-- The batch that an input makes a dispatcher give up, and the fault it does so with. -/
def fatal? (d : Dispatcher) (i : Input) : Option (Batch × RunFault) :=
  match d.phase, i with
  | .sending b _, .refused => some (b, .sendFailed b.id)
  | .awaiting b, .closed => some (b, .channelClosed b.id b.path)
  | .awaiting b, .expired =>
    if d.settings.continueOnTimeout then none
    else some (b, .batchTimeout b.id b.path (d.pending.outstanding b.id) b.size d.window)
  | _, _ => none

/-- A run is given up because the request is refused, because nothing more will come, or because of
silence where the run is not to go on after it. -/
theorem fatal_cases (h : d.fatal? i = some (b, fault)) :
    (∃ frame, d.phase = .sending b frame) ∧ i = .refused ∧ fault = .sendFailed b.id ∨
    d.phase = .awaiting b ∧ i = .closed ∧ fault = .channelClosed b.id b.path ∨
    d.phase = .awaiting b ∧ i = .expired ∧ d.settings.continueOnTimeout = false ∧
      fault = .batchTimeout b.id b.path (d.pending.outstanding b.id) b.size d.window := by
  unfold fatal? at h
  split at h
  · next frame hp =>
    cases h
    exact .inl ⟨⟨frame, hp⟩, rfl, rfl⟩
  · next hp =>
    cases h
    exact .inr (.inl ⟨hp, rfl, rfl⟩)
  · next hp =>
    split at h
    · cases h
    · next hstop =>
      cases h
      exact .inr (.inr ⟨hp, rfl, by simpa using hstop, rfl⟩)
  · cases h

private theorem feed_of_fatal (h : d.fatal? i = some (b, fault)) (now : Nat) :
    d.feed now i = d.giveUp b fault := by
  obtain ⟨⟨frame, hp⟩, rfl, rfl⟩ | ⟨hp, rfl, rfl⟩ | ⟨hp, rfl, hstop, rfl⟩ := fatal_cases h
  · simp [feed, hp]
  · simp [feed, hp]
  · simp [feed, hp, timeOut, hstop]

/-- No other input ends a run early. -/
theorem fatal_of_feed {now : Nat} (h : (d.feed now i).phase = .ended (.aborted fault)) :
    d.phase = .ended (.aborted fault) ∨ ∃ b, d.fatal? i = some (b, fault) := by
  unfold feed at h
  split at h
  · cases h
  · next b frame hp =>
    cases h
    exact .inr ⟨b, by simp [fatal?, hp]⟩
  · simp only [receive] at h
    split at h <;> cases h
  · next b hp =>
    cases h
    exact .inr ⟨b, by simp [fatal?, hp]⟩
  · next b hp =>
    simp only [timeOut] at h
    split at h
    · cases h
    · next hstop =>
      cases h
      exact .inr ⟨b, by simp [fatal?, hp, hstop]⟩
  · exact .inl h

/-- Visiting a suite never gives up a run. -/
theorem visit_ne_aborted (hr : d.isReady = true) (now : Nat) (fault : RunFault) :
    (d.visit now).phase ≠ .ended (.aborted fault) := by
  have hphase := phase_of_isReady hr
  intro h
  unfold visit at h
  split at h
  · simp only [finish] at h
    split at h <;> cases h
  · simp only at h
    split at h
    · simp [hphase] at h
    · unfold beginSuite at h
      simp only at h
      split at h
      · simp [phase_failUnsendable, print, hphase] at h
      · simp only [openBatch] at h
        split at h
        · cases h
        · split at h <;> cases h

theorem settle_aborted {now : Nat} (h : (d.settle now).phase = .ended (.aborted fault)) :
    d.phase = .ended (.aborted fault) := by
  have hkeep := settleFor_induction
    (P := fun d' => d'.phase = .ended (.aborted fault) → d.phase = .ended (.aborted fault))
    (fun d' hr _ hd' => absurd hd' (visit_ne_aborted hr now fault)) (d.remaining + 1) d id
  exact hkeep h

theorem fatal_of_step {now : Nat} (h : (d.step now i).phase = .ended (.aborted fault)) :
    d.phase = .ended (.aborted fault) ∨ ∃ b, d.fatal? i = some (b, fault) :=
  fatal_of_feed (settle_aborted h)

/-- A run that was given up went on until an input was fatal, and stayed as that left it. -/
theorem exists_fatal (hq : d₀.pending.Quiet) {now : Nat} {root : Suite}
    {inputs : List (Nat × Input)}
    (h : (d₀.run now root inputs).phase = .ended (.aborted fault)) :
    ∃ d heard i b, Ledger d₀ (root.preorder "") d heard ∧ d.fatal? i = some (b, fault) ∧
      d₀.run now root inputs = d.giveUp b fault ∧
      d₀.heard now root inputs = heard ++ d.hears i := by
  let Over (d : Dispatcher) (heard : Hearing) : Prop :=
    d.phase = .ended (.aborted fault) → ∃ d' heard' i b, Ledger d₀ (root.preorder "") d' heard' ∧
      d'.fatal? i = some (b, fault) ∧ d = d'.giveUp b fault ∧ heard = heard' ++ d'.hears i
  have hrun := run_induction
    (P := fun d heard => Ledger d₀ (root.preorder "") d heard ∧ Over d heard)
    ⟨ledger_start hq root, fun h => by cases h⟩ ?_ ?_ now inputs
  · exact hrun.2 h
  · intro d heard now hr hd
    exact ⟨hd.1.visit hr now, fun h => absurd h (visit_ne_aborted hr now fault)⟩
  · intro d heard now i hd
    refine ⟨hd.1.feed now i, fun h => ?_⟩
    rcases fatal_of_feed h with hp | ⟨b, hb⟩
    · -- The run was over before, and takes nothing in any more.
      have hfeed : d.feed now i = d := by simp [feed, hp]
      have hears_eq : d.hears i = [] := by simp [hears, hp]
      rw [hfeed, hears_eq, List.append_nil]
      exact hd.2 hp
    · exact ⟨d, heard, i, b, hd.1, hb, feed_of_fatal hb now, rfl⟩

/-! ## What is left of the run -/

/-- The suites whose requests were taken: that of the last one was, unless it was refused. -/
def takenWith (fault : RunFault) (before : List Located) (s : Located) : List Located :=
  match fault with
  | .sendFailed _ => before
  | _ => before ++ [s]

/-- A run of a fresh dispatcher was given up at the suite `s`, which comes right after `before`. -/
structure GivenUp (settings : DispatchSettings) (cwd : Path) (d : Dispatcher) (heard : Hearing)
    (before : List Located) (s : Located) (fault : RunFault) : Prop where
  /-- The suite has tests, and they can be sent. -/
  request : ∃ tests, batches cwd [s] = [(s, tests)]
  blames : Blames settings s (batches cwd before).length fault
  lacking : ∀ batch path lacking total window,
    fault = .batchTimeout batch path lacking total window →
      lacking = (missing heard batch total).length ∧ 1 ≤ lacking ∧ lacking ≤ total
  /-- The suites before it have all their results, or the run went on without those missing. -/
  settled : ∀ j b, (batches cwd before)[j]? = some b →
    Settled settings heard j b.1.suite.cases.length
  failures : d.summary.failures =
    failuresFrom cwd (timeoutMessage settings.batchSpan) (verdict? heard) 0 before
  testsRun : d.summary.testsRun = caseCount (before ++ [s])
  nextId : d.nextId = (batches cwd before).length + 1
  mailboxes : d.pending.boxes.length = sentCount cwd (before ++ [s])
  sent : d.sent.map some = (requests cwd 0 (takenWith fault before s)).map Request.encode?

private theorem inFlight_of_fatal (h : d.fatal? i = some (b, fault)) : d.inFlight? = some b := by
  obtain ⟨⟨frame, hp⟩, -⟩ | ⟨hp, -⟩ | ⟨hp, -⟩ := fatal_cases h <;> simp [inFlight?, hp]

section

variable {done : List Located}

/-- The fault tells of the batch in flight, and its request was taken unless it was refused. -/
theorem Stands.fatal (hs : Stands d₀ d plan heard done d.phase)
    (hsettings : d.settings = d₀.settings) (h : d.fatal? i = some (b, fault)) :
    ∃ l tests, Carries d₀ d plan done b l tests ∧
      d.pending.InFlight b.id b.tickets (verdict? heard b.id) ∧
      Blames d₀.settings l b.id fault ∧ Sent d₀ d (takenWith fault done l) := by
  obtain ⟨⟨frame, hp⟩, rfl, rfl⟩ | ⟨hp, rfl, rfl⟩ | ⟨hp, rfl, hstop, rfl⟩ := fatal_cases h
  · rw [hp] at hs
    obtain ⟨l, tests, hc, hin, -, hsent⟩ := hs
    exact ⟨l, tests, hc, hin, rfl, hsent⟩
  · rw [hp] at hs
    obtain ⟨l, tests, hc, hin, hsent⟩ := hs
    exact ⟨l, tests, hc, hin, ⟨rfl, hc.path⟩, hsent⟩
  · rw [hp] at hs
    obtain ⟨l, tests, hc, hin, hsent⟩ := hs
    have htotal : b.size = l.suite.cases.length := by rw [Batch.size, hc.cases]
    exact ⟨l, tests, hc, hin, ⟨hsettings ▸ hstop, rfl, hc.path, htotal, window_eq hsettings⟩, hsent⟩

theorem Behind.hears (hb : Behind d₀ d heard done) (hs : Stands d₀ d plan heard done d.phase)
    (i : Input) : Behind d₀ d (heard ++ d.hears i) done := by
  unfold Dispatcher.hears
  split
  · next b hp =>
    rw [hp] at hs
    obtain ⟨l, tests, hc, -, -⟩ := hs
    exact hb.hear_batch hc i
  · rwa [List.append_nil]

end

/-- The fatal input brings no result. -/
theorem verdict?_fatal (h : d.fatal? i = some (b, fault)) (heard : Hearing) :
    verdict? (heard ++ d.hears i) b.id = verdict? heard b.id := by
  obtain ⟨⟨frame, hp⟩, rfl, -⟩ | ⟨hp, rfl, -⟩ | ⟨hp, rfl, -⟩ := fatal_cases h
  · simp [Dispatcher.hears, hp]
  · rw [Dispatcher.hears, hp]
    exact verdict?_append_silent (fun _ => rfl) heard
  · rw [Dispatcher.hears, hp]
    exact verdict?_append_silent (fun _ => rfl) heard

/-- The fault of a silent worker counts the tests of the batch that have no result. -/
theorem lacking_of_fatal {done : List Located} {l : Located} {tests : List Descriptor}
    (hc : Carries d₀ d plan done b l tests)
    (hin : d.pending.InFlight b.id b.tickets (verdict? heard b.id))
    (howing : d.pending.outstanding b.id ≠ 0) (h : d.fatal? i = some (b, fault))
    (batch : Nat) (path : String) (lacking total : Nat) (window : Span)
    (hfault : fault = .batchTimeout batch path lacking total window) :
    lacking = (missing (heard ++ d.hears i) batch total).length ∧ 1 ≤ lacking ∧
      lacking ≤ total := by
  have hverdict := verdict?_fatal h heard
  have hmissing : d.pending.outstanding b.id =
      (missing (heard ++ d.hears i) b.id b.size).length := by
    rw [hin.outstanding_eq, hc.tickets, missing, missing, hverdict]
    rfl
  obtain ⟨-, -, rfl⟩ | ⟨-, -, rfl⟩ | ⟨-, -, -, rfl⟩ := fatal_cases h
  · cases hfault
  · cases hfault
  · cases hfault
    refine ⟨hmissing, Nat.one_le_iff_ne_zero.mpr howing, ?_⟩
    rw [hmissing]
    exact length_missing_le _ _ _

theorem givenUp_of_aborted {settings : DispatchSettings} {total : Nat} {begun : Moment} {cwd : Path}
    {now : Nat} {root : Suite} {inputs : List (Nat × Input)} {fault : RunFault}
    (h : ((fresh settings total begun cwd).run now root inputs).phase = .ended (.aborted fault)) :
    ∃ before s after, root.preorder "" = before ++ s :: after ∧
      GivenUp settings cwd ((fresh settings total begun cwd).run now root inputs)
        ((fresh settings total begun cwd).heard now root inputs) before s fault := by
  obtain ⟨d, heard, i, b, hledger, hfatal, hrun, hheard⟩ := exists_fatal Pending.quiet_empty h
  rw [hrun, hheard]
  obtain ⟨done, hb, hs⟩ := hledger.course
  obtain ⟨l, tests, hc, hin, hblames, hsent⟩ := hs.fatal hb.settings hfatal
  obtain ⟨seen, horder, htests, hboxes⟩ := hledger.begun
  have hb' := hb.hears hs i
  have hid : b.id = (batches cwd done).length := by
    simpa [fresh] using hc.id
  -- The suites that were begun are those behind and the one in flight.
  obtain rfl : seen = done ++ [l] := by
    have hcancel : seen ++ upcoming d.todo = (done ++ [l]) ++ upcoming d.todo := by
      rw [← horder, hc.order]
      simp
    exact List.append_cancel_right hcancel
  refine ⟨done, l, upcoming d.todo, hc.order, ?_⟩
  exact {
    request := ⟨tests, batches_of_ok hc.nonempty hc.described⟩
    blames := hid ▸ hblames
    lacking := lacking_of_fatal hc hin (hledger.owing b (inFlight_of_fatal hfatal)) hfatal
    settled := fun j b' hj => by simpa [fresh] using hb'.settled j b' hj
    failures := hb'.failures
    testsRun := htests.trans (Nat.zero_add _)
    nextId := hc.next.trans (congrArg (· + 1) hid)
    mailboxes := (frame_giveUp d b fault).boxes.trans (hboxes.trans (Nat.zero_add _))
    sent := by simpa [Sent, fresh, giveUp, finish] using hsent }

/-- A run that does not end well is given up at one suite: the request was refused, the worker went
away, or it was silent for too long where silence is fatal. The failures are those of the suites
before that one, its own tests are the last ones counted, and no later suite was begun. -/
theorem run_givenUp (settings : DispatchSettings) (total : Nat) (begun : Moment) (cwd : Path)
    (now : Nat) (root : Suite) (inputs : List (Nat × Input)) (e : Ending)
    (h : ((fresh settings total begun cwd).run now root inputs).ending? = some e)
    (hne : e ≠ .completed) :
    ∃ before s after fault, e = .aborted fault ∧ root.preorder "" = before ++ s :: after ∧
      GivenUp settings cwd ((fresh settings total begun cwd).run now root inputs)
        ((fresh settings total begun cwd).heard now root inputs) before s fault := by
  obtain rfl | ⟨fault, rfl⟩ :=
    (course_fresh settings total begun cwd now root inputs).ending_cases h
  · exact absurd rfl hne
  · obtain ⟨before, s, after, horder, hgiven⟩ := givenUp_of_aborted (phase_of_ending? h)
    exact ⟨before, s, after, fault, rfl, horder, hgiven⟩

/-- One suite that is through with a failure, and one that gets only one of its two results. -/
def hastyTree : Suite :=
  .mk "" [] [.mk "first" [⟨"f", []⟩] [], .mk "second" [⟨"s1", []⟩, ⟨"s2", []⟩] [],
    .mk "third" [⟨"t", []⟩] []]

def hastyInputs : List (Nat × Input) :=
  [(0, .accepted), (1, .frame (Response.mk 0 0 (.failed (some "boom"))).encode), (1, .accepted),
    (2, .frame (Response.mk 1 1 (.failed (some "lost"))).encode), (502, .expired)]

theorem run_givenUp_hasty :
    ∃ d heard, d = (fresh ⟨500, false⟩ 4 default ⟨[Path.slash]⟩).run 0 hastyTree hastyInputs ∧
      d.ending? = some (.aborted (.batchTimeout 1 "/second" 1 2 (.ofMillis 500))) ∧
      d.summary.failures = [⟨"/first/f", "boom"⟩] ∧ d.summary.testsRun = 3 ∧
      ∃ before s after fault,
        Ending.aborted (.batchTimeout 1 "/second" 1 2 (.ofMillis 500)) = .aborted fault ∧
        hastyTree.preorder "" = before ++ s :: after ∧
        GivenUp ⟨500, false⟩ ⟨[Path.slash]⟩ d heard before s fault := by
  have h : (((fresh ⟨500, false⟩ 4 default ⟨[Path.slash]⟩).run 0 hastyTree hastyInputs).ending?,
      ((fresh ⟨500, false⟩ 4 default ⟨[Path.slash]⟩).run 0 hastyTree hastyInputs).summary.failures,
      ((fresh ⟨500, false⟩ 4 default ⟨[Path.slash]⟩).run 0 hastyTree hastyInputs).summary.testsRun) =
      (some (.aborted (.batchTimeout 1 "/second" 1 2 (.ofMillis 500))),
        [⟨"/first/f", "boom"⟩], 3) := by decide +kernel
  rw [Prod.mk.injEq, Prod.mk.injEq] at h
  obtain ⟨hended, hfailures, htests⟩ := h
  exact ⟨_, _, rfl, hended, hfailures, htests, run_givenUp _ _ _ _ _ _ _ _ hended nofun⟩

end Dispatcher

end SuiteRunner.Dispatch
