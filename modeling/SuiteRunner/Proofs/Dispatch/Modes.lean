import SuiteRunner.Proofs.Dispatch.Counts
import SuiteRunner.Proofs.Dispatch.Exchange
import SuiteRunner.Proofs.Dispatch.Failures

/-! # Giving up or going on

Whether a run goes on after silence is a setting that is looked at when a watchdog has expired, and
at no other time. So two runs that differ in it alone are the same run up to that point; from there
on the one that goes on only adds to what the other one has left. -/
namespace SuiteRunner.Dispatch

open Suite (Located upcoming)
open Wire (Descriptor Response Verdict)

/-! ## The setting is not looked at -/

namespace Dispatcher

/-- The same dispatcher, which goes on after silence or does not. -/
def withMode (go : Bool) (d : Dispatcher) : Dispatcher :=
  { d with settings := { d.settings with continueOnTimeout := go } }

variable {d : Dispatcher} (go : Bool) (now : Nat)

private theorem failUnsendable_withMode (d : Dispatcher) (path : String) (cases : List TestCase)
    (message : String) : (d.withMode go).failUnsendable now path cases message =
      (d.failUnsendable now path cases message).withMode go := by
  rw [failUnsendable_logs, failUnsendable_logs, logFailures_eq, logFailures_eq]
  rfl

private theorem openBatch_withMode (d : Dispatcher) (path : String) (cases : List TestCase)
    (tests : List Descriptor) : (d.withMode go).openBatch now path cases tests =
      (d.openBatch now path cases tests).withMode go := by
  simp only [openBatch, withMode]
  split
  · rfl
  · split <;> rfl

private theorem beginSuite_withMode (d : Dispatcher) (path : String) (cases : List TestCase) :
    (d.withMode go).beginSuite now path cases = (d.beginSuite now path cases).withMode go := by
  have hcwd : ((d.withMode go).print [.running path]).cwd = (d.print [.running path]).cwd := rfl
  simp only [beginSuite, hcwd]
  split
  · exact failUnsendable_withMode go now (d.print [.running path]) path cases _
  · exact openBatch_withMode go now (d.print [.running path]) path cases _

private theorem visit_withMode (d : Dispatcher) :
    (d.withMode go).visit now = (d.visit now).withMode go := by
  have htodo : (d.withMode go).todo = d.todo := rfl
  simp only [visit, htodo]
  split
  · rfl
  · next l rest ht =>
    split
    · rfl
    · exact beginSuite_withMode go now { d with todo := children l ++ rest } l.path l.suite.cases

private theorem settleFor_withMode (n : Nat) (d : Dispatcher) :
    settleFor now n (d.withMode go) = (settleFor now n d).withMode go := by
  induction n generalizing d with
  | zero => rfl
  | succ n ih =>
    have hready : (d.withMode go).isReady = d.isReady := rfl
    simp only [settleFor, hready]
    split
    · rw [visit_withMode, ih]
    · rfl

theorem settle_withMode (d : Dispatcher) :
    (d.withMode go).settle now = (d.settle now).withMode go :=
  settleFor_withMode go now (d.remaining + 1) d

private theorem classify_withMode (path absent : String) (l : List (TestCase × Ticket))
    (d : Dispatcher) (n : Nat) : (d.withMode go).classify path absent l n =
      ((d.classify path absent l n).1.withMode go, (d.classify path absent l n).2) := by
  induction l generalizing d n with
  | nil => rfl
  | cons e l ih =>
    obtain ⟨c, t⟩ := e
    have hpending : (d.withMode go).pending = d.pending := rfl
    cases hm : failureMessage? absent (d.pending.take t).2 with
    | none =>
      simp only [classify, hpending, hm]
      exact ih { d with pending := (d.pending.take t).1 } n
    | some message =>
      simp only [classify, hpending, hm]
      exact ih (({ d with pending := (d.pending.take t).1 }).logFailure path c message) (n + 1)

private theorem conclude_withMode (d : Dispatcher) (b : Batch) (absent : String) :
    (d.withMode go).conclude now b absent = (d.conclude now b absent).withMode go := by
  simp only [conclude, classify_withMode]
  rfl

private theorem handleFrame_withMode (d : Dispatcher) (text : String) :
    (d.withMode go).handleFrame now text = (d.handleFrame now text).withMode go := by
  have hpending : (d.withMode go).pending = d.pending := rfl
  simp only [handleFrame, hpending]
  split
  · rfl
  · split <;> rfl

private theorem receive_withMode (d : Dispatcher) (b : Batch) (text : String) :
    (d.withMode go).receive now b text = (d.receive now b text).withMode go := by
  have hpending : ((d.handleFrame now text).withMode go).pending =
      (d.handleFrame now text).pending := rfl
  simp only [receive, handleFrame_withMode, hpending]
  split
  · exact conclude_withMode go now _ b ""
  · rfl

/-- Only the end of the watchdog is taken in a way that depends on the setting. -/
theorem feed_withMode {i : Input} (hi : i ≠ .expired) (d : Dispatcher) :
    (d.withMode go).feed now i = (d.feed now i).withMode go := by
  have hphase : (d.withMode go).phase = d.phase := rfl
  simp only [feed, hphase]
  split
  · rfl
  · rfl
  · exact receive_withMode go now d _ _
  · rfl
  · exact absurd rfl hi
  · rfl

private theorem step_withMode {i : Input} (hi : i ≠ .expired) (d : Dispatcher) :
    (d.withMode go).step now i = (d.step now i).withMode go := by
  rw [step, feed_withMode go now hi, settle_withMode, step]

end Dispatcher

namespace World

variable {w w' : World} {go : Bool}

def withMode (go : Bool) (w : World) : World := { w with dispatcher := w.dispatcher.withMode go }

private theorem offer_withMode (go : Bool) (w : World) : (w.withMode go).offer = w.offer := rfl

private theorem take_withMode {i : Input} (hi : i ≠ .expired) (go : Bool) (w : World) :
    (w.withMode go).take i = (w.take i).withMode go := by
  simp only [World.take, withMode, Dispatcher.step_withMode go w.clock hi]
  rfl

/-- What is possible in the one world is in the other, and it comes to the same. -/
theorem does?_withMode {e : Deed} (he : e ≠ .takes .expired) (go : Bool) (w : World) :
    (w.withMode go).does? e = (w.does? e).map (withMode go) := by
  cases e with
  | takes i =>
    have hi : i ≠ .expired := fun h => he (h ▸ rfl)
    simp only [does?, offer_withMode, take_withMode hi]
    split <;> rfl
  | receives =>
    have hworker : (w.withMode go).worker = w.worker := rfl
    simp only [does?, hworker]
    split <;> rfl
  | sends frame =>
    have hworker : (w.withMode go).worker = w.worker := rfl
    simp only [does?, hworker]
    split <;> rfl
  | stopsSending => rfl
  | stopsReceiving => rfl
  | waits ms =>
    have hclock : (w.withMode go).clock = w.clock := rfl
    have hdeadline : (w.withMode go).deadline? = w.deadline? := rfl
    simp only [does?, offer_withMode, hclock, hdeadline]
    split <;> rfl

private theorem opening_withMode (go : Bool) (d : Dispatcher) (now : Nat) (root : Suite)
    (capacity : Option Nat) :
    opening (d.withMode go) now root capacity = (opening d now root capacity).withMode go := by
  have hstart : (d.withMode go).start root = (d.start root).withMode go := rfl
  rw [opening, hstart, Dispatcher.settle_withMode]
  rfl

private theorem does?_withMode_eq_none {e : Deed} (h : w.does? e = none) (go : Bool) :
    (w.withMode go).does? e = none := by
  by_cases he : e = .takes .expired
  · subst he
    simp only [does?] at h
    split at h
    · cases h
    · next hoffer => exact if_neg hoffer
  · rw [does?_withMode he, h]
    rfl

/-- The watchdog is found to have expired only while results are awaited. -/
theorem awaiting_of_expired (h : w.offer = some .expired) :
    ∃ b, w.dispatcher.phase = .awaiting b := by
  obtain ⟨b, frame, -, ⟨-, hi⟩ | ⟨-, -, hi⟩⟩ | ⟨b, hp, -⟩ := offer_cases h
  · cases hi
  · cases hi
  · exact ⟨b, hp⟩

end World

/-! ## Plays -/

/-- What happens next, given the requests that were queued, the time, what the dispatcher finds and
all that has happened. Any worker that goes by what it was sent and by the time is of this kind, and
so is any order in which worker and dispatcher act. -/
abbrev Strategy := List String → Nat → Option Input → List Deed → Deed

def Deed.isSending : Deed → Bool
  | .sends _ => true
  | _ => false

/-- A worker that, given the requests and the time, is to have sent some frames by then. The
dispatcher takes what it finds, and time passes where nobody has anything to do. -/
def Strategy.ofWorker (worker : List String → Nat → List String) : Strategy :=
  fun sent now found past =>
    match found, (worker sent now)[past.countP Deed.isSending]? with
    | some i, _ => .takes i
    | none, some frame => .sends frame
    | none, none => .waits 1

/-- A world and all that has happened in it, the oldest deed first. -/
structure Play where
  world : World
  past : List Deed

namespace Play

def opening (d : Dispatcher) (now : Nat) (root : Suite) (capacity : Option Nat) : Play :=
  ⟨.opening d now root capacity, []⟩

def next (s : Strategy) (p : Play) : Deed :=
  s p.world.dispatcher.sent p.world.clock p.world.offer p.past

/-- What is not possible is not done. -/
def move (s : Strategy) (p : Play) : Play :=
  match p.world.does? (p.next s) with
  | some w => ⟨w, p.past ++ [p.next s]⟩
  | none => p

def after (s : Strategy) (p : Play) : Nat → Play
  | 0 => p
  | n + 1 => (p.after s n).move s

def withMode (go : Bool) (p : Play) : Play := { p with world := p.world.withMode go }

variable {s : Strategy} {p : Play}

theorem move_of_some {w : World} (h : p.world.does? (p.next s) = some w) :
    p.move s = ⟨w, p.past ++ [p.next s]⟩ := by
  simp [move, h]

theorem move_of_none (h : p.world.does? (p.next s) = none) : p.move s = p := by
  simp [move, h]

/-- What a play has come to is what its past leads to. -/
theorem replay?_after (d : Dispatcher) (now : Nat) (root : Suite) (capacity : Option Nat)
    (s : Strategy) (n : Nat) :
    (World.opening d now root capacity).replay? ((opening d now root capacity).after s n).past =
      some ((opening d now root capacity).after s n).world := by
  induction n with
  | zero => rfl
  | succ n ih =>
    rw [after]
    cases hd : ((opening d now root capacity).after s n).world.does?
        (((opening d now root capacity).after s n).next s) with
    | none =>
      rw [move_of_none hd]
      exact ih
    | some w =>
      rw [move_of_some hd, World.replay?_append, ih]
      simp [World.replay?, hd]

theorem past_move (s : Strategy) (p : Play) : p.past <+: (p.move s).past := by
  cases hd : p.world.does? (p.next s) with
  | none => exact (move_of_none hd).symm ▸ List.prefix_rfl
  | some w =>
    rw [move_of_some hd]
    exact List.prefix_append _ _

private theorem past_after {m n : Nat} (h : m ≤ n) (s : Strategy) (p : Play) :
    (p.after s m).past <+: (p.after s n).past := by
  induction h with
  | refl => exact List.prefix_rfl
  | step _ ih => exact ih.trans (past_move s _)

/-- Nothing that was queued, recorded or counted is taken back. -/
theorem grows_move (s : Strategy) (p : Play) :
    Dispatcher.Grows p.world.dispatcher (p.move s).world.dispatcher := by
  cases hd : p.world.does? (p.next s) with
  | none =>
    rw [move_of_none hd]
    exact .refl _
  | some w =>
    rw [move_of_some hd]
    by_cases he : ∃ i, p.next s = .takes i
    · obtain ⟨i, hi⟩ := he
      rw [hi] at hd
      obtain ⟨-, rfl⟩ := World.does?_takes hd
      exact Dispatcher.grows_step _ _ _
    · obtain ⟨hsame, -⟩ := World.does?_dispatcher (fun i hi => he ⟨i, hi⟩) hd
      exact .of_eq (by rw [hsame]) (by rw [hsame])

private theorem grows_after {m n : Nat} (h : m ≤ n) (s : Strategy) (p : Play) :
    Dispatcher.Grows (p.after s m).world.dispatcher (p.after s n).world.dispatcher := by
  induction h with
  | refl => exact .refl _
  | step _ ih => exact ih.trans (grows_move s _)

/-- A dispatcher that has ended finds nothing any more. -/
theorem move_of_ended {e : Ending} (h : p.world.dispatcher.ending? = some e) (s : Strategy) :
    (p.move s).world.dispatcher = p.world.dispatcher := by
  have hphase := Dispatcher.phase_of_ending? h
  cases hd : p.world.does? (p.next s) with
  | none => rw [move_of_none hd]
  | some w =>
    rw [move_of_some hd]
    refine (World.does?_dispatcher (fun i hi => ?_) hd).1
    rw [hi] at hd
    obtain ⟨hoffer, -⟩ := World.does?_takes hd
    simp [World.offer, hphase] at hoffer

private theorem after_of_ended {e : Ending} {m n : Nat} (hmn : m ≤ n)
    (h : (p.after s m).world.dispatcher.ending? = some e) :
    (p.after s n).world.dispatcher = (p.after s m).world.dispatcher := by
  induction hmn with
  | refl => rfl
  | step _ ih => exact (move_of_ended (ih ▸ h) s).trans ih

/-! ## Up to the first expiry -/

private theorem move_withMode (go : Bool) (h : Deed.takes .expired ∉ (p.move s).past) :
    (p.withMode go).move s = (p.move s).withMode go := by
  have hnext : (p.withMode go).next s = p.next s := rfl
  cases hd : p.world.does? (p.next s) with
  | none =>
    have hd' : (p.withMode go).world.does? ((p.withMode go).next s) = none :=
      World.does?_withMode_eq_none hd go
    rw [move_of_none hd, move_of_none hd']
  | some w =>
    rw [move_of_some hd] at h ⊢
    have he : p.next s ≠ .takes .expired := by
      intro he
      simp [he] at h
    have hd' : (p.withMode go).world.does? ((p.withMode go).next s) = some (w.withMode go) := by
      rw [hnext]
      exact (World.does?_withMode he go p.world).trans (by rw [hd]; rfl)
    rw [move_of_some hd']
    rfl

theorem after_withMode (go : Bool) {n : Nat} (h : Deed.takes .expired ∉ (p.after s n).past) :
    (p.withMode go).after s n = (p.after s n).withMode go := by
  induction n with
  | zero => rfl
  | succ n ih =>
    have hn : Deed.takes .expired ∉ (p.after s n).past :=
      fun hm => h ((past_move s _).subset hm)
    rw [after, ih hn, move_withMode go h]
    rfl

/-- Both runs find that the watchdog has expired, and from there on they differ. -/
theorem move_expired (h : Deed.takes .expired ∉ p.past)
    (h' : Deed.takes .expired ∈ (p.move s).past) :
    (∃ b, p.world.dispatcher.phase = .awaiting b) ∧
      p.move s = ⟨p.world.take .expired, p.past ++ [.takes .expired]⟩ ∧
      ∀ go, (p.withMode go).move s =
        ⟨(p.world.withMode go).take .expired, p.past ++ [.takes .expired]⟩ := by
  cases hd : p.world.does? (p.next s) with
  | none =>
    rw [move_of_none hd] at h'
    exact absurd h' h
  | some w =>
    rw [move_of_some hd, List.mem_append, List.mem_singleton] at h'
    have hnext : p.next s = .takes .expired := (h'.resolve_left h).symm
    have hmove := move_of_some hd
    rw [hnext] at hd hmove
    obtain ⟨hoffer, rfl⟩ := World.does?_takes hd
    refine ⟨World.awaiting_of_expired hoffer, hmove, fun go => ?_⟩
    have hnext' : (p.withMode go).next s = .takes .expired := hnext
    have hd' : (p.withMode go).world.does? ((p.withMode go).next s) =
        some ((p.world.withMode go).take .expired) := by
      rw [hnext']
      exact if_pos hoffer
    rw [move_of_some hd', hnext']
    rfl

/-- There is a first time at which the watchdog is found to have expired. -/
theorem exists_first {n : Nat} (h0 : Deed.takes .expired ∉ p.past)
    (h : Deed.takes .expired ∈ (p.after s n).past) :
    ∃ k < n, Deed.takes .expired ∉ (p.after s k).past ∧
      Deed.takes .expired ∈ (p.after s (k + 1)).past := by
  induction n with
  | zero => exact absurd h h0
  | succ n ih =>
    by_cases hn : Deed.takes .expired ∈ (p.after s n).past
    · obtain ⟨k, hk, hfirst⟩ := ih hn
      exact ⟨k, Nat.lt_succ_of_lt hk, hfirst⟩
    · exact ⟨n, Nat.lt_succ_self n, hn, h⟩

/-- Two runs in different modes find the watchdog expired for the first time in the same move. -/
theorem first_expiry {n : Nat} (h0 : Deed.takes .expired ∉ p.past)
    (h : Deed.takes .expired ∈ (p.after s n).past) (go : Bool) :
    ∃ k < n, Deed.takes .expired ∉ (p.after s k).past ∧
      (∃ b, (p.after s k).world.dispatcher.phase = .awaiting b) ∧
      p.after s (k + 1) =
        ⟨(p.after s k).world.take .expired, (p.after s k).past ++ [.takes .expired]⟩ ∧
      (p.withMode go).after s (k + 1) = ⟨((p.after s k).world.withMode go).take .expired,
        (p.after s k).past ++ [.takes .expired]⟩ := by
  obtain ⟨k, hk, hbefore, hafter⟩ := exists_first h0 h
  obtain ⟨hawaits, hmove, hmode⟩ := move_expired hbefore hafter
  refine ⟨k, hk, hbefore, hawaits, hmove, ?_⟩
  rw [after, after_withMode go hbefore]
  exact hmode go

end Play

/-! ## From the first expiry on -/

namespace Dispatcher

/-- The two runs after the watchdog of the batch `id`, made from the suite `l`, has expired with
`pending` results missing. Both had heard `heard` before; `stop` is the run that was given up. -/
structure Parted (settings : DispatchSettings) (cwd : Path) (root : Suite) (heard : Hearing)
    (stop go : Dispatcher) (l : Located) (id pending : Nat) : Prop where
  suite : ∃ front back tests, root.preorder "" = front ++ l :: back ∧
    id = (batches cwd front).length ∧ batches cwd [l] = [(l, tests)]
  aborted : stop.ending? = some (.aborted
    (.batchTimeout id l.path pending l.suite.cases.length settings.batchSpan))
  sent : stop.sent <+: go.sent
  testsRun : stop.summary.testsRun ≤ go.summary.testsRun
  /-- The run that goes on adds the failures of the suite, by what was heard of it, and others later. -/
  failures : ∃ later, go.summary.failures = stop.summary.failures ++
    ((suiteReasons l.suite.cases (verdict? heard id)).map
      (failureFor l.path (timeoutMessage settings.batchSpan)) ++ later)
  pending : ((suiteReasons l.suite.cases (verdict? heard id)).filter (·.2 = .unanswered)).length =
    pending

variable {d₀ d : Dispatcher} {plan : List Located} {heard : Hearing} {b : Batch}

/-- A run that is given up records nothing more, and has counted the missing results. -/
theorem step_expired_stop (hp : d.phase = .awaiting b)
    (hstop : d.settings.continueOnTimeout = false) (now : Nat) :
    d.step now .expired = d.giveUp b
      (.batchTimeout b.id b.path (d.pending.outstanding b.id) b.size d.window) := by
  have hfeed : d.feed now .expired = d.giveUp b
      (.batchTimeout b.id b.path (d.pending.outstanding b.id) b.size d.window) := by
    simp [feed, hp, timeOut, hstop]
  rw [step, hfeed]
  exact settleFor_of_not_ready rfl now _

/-- A run that goes on records the failures of the batch and grows from there. -/
theorem step_expired_go {tests : List Descriptor} {done : List Located} {l : Located}
    (hp : d.phase = .awaiting b) (hgo : d.settings.continueOnTimeout = true)
    (hc : Carries d₀ d plan done b l tests)
    (hin : d.pending.InFlight b.id b.tickets (verdict? heard b.id)) (now : Nat) :
    ∃ d', Grows d' (d.step now .expired) ∧ d'.sent = d.sent ∧
      d'.summary.testsRun = d.summary.testsRun ∧
      d'.summary.failures = d.summary.failures ++
        (suiteReasons l.suite.cases (verdict? heard b.id)).map
          (failureFor l.path (timeoutMessage d.window)) := by
  refine ⟨d.feed now .expired, grows_settle _ now, ?_⟩
  have hfeed : d.feed now .expired = (d.lapse now b).conclude now b (timeoutMessage d.window) := by
    rw [← timeOut_goes_on hgo]
    simp [feed, hp]
  obtain ⟨boxes, console, he⟩ := conclude_eq (d.lapse now b) now b (timeoutMessage d.window)
    (.inr rfl) hin.nodup hc.tickets hin.abandon.2
  rw [hfeed, he, suiteFailures_eq, hc.path, hc.cases]
  exact ⟨rfl, rfl, rfl⟩

/-- What the two runs have come to, from the state in which the watchdog is found to have expired. -/
theorem Course.parted {settings : DispatchSettings} {total : Nat} {begun : Moment} {cwd : Path}
    {root : Suite} (h : Course (fresh { settings with continueOnTimeout := false } total begun cwd)
      (root.preorder "") d heard) (hp : d.phase = .awaiting b) (now : Nat) :
    ∃ l id pending, ∀ go, Grows ((d.withMode true).step now .expired) go →
      Parted settings cwd root heard (d.step now .expired) go l id pending := by
  obtain ⟨done, hbehind, hs⟩ := h
  rw [hp] at hs
  obtain ⟨l, tests, hc, hin, -⟩ := hs
  have hwindow : d.window = settings.batchSpan := window_eq hbehind.settings
  have hmode : d.settings.continueOnTimeout = false := by rw [hbehind.settings]; rfl
  have hsize : b.size = l.suite.cases.length := by rw [Batch.size, hc.cases]
  obtain ⟨d', hgrows, hsent, hrun, hfailures⟩ := @step_expired_go _ (d.withMode true) _ _ b _ _ _
    hp rfl (hc.of_eq rfl rfl) hin now
  refine ⟨l, b.id, d.pending.outstanding b.id, fun go hgo => ?_⟩
  have hall := hgrows.trans hgo
  rw [step_expired_stop hp hmode now, hc.path, hsize, hwindow]
  refine ⟨?_, rfl, hsent ▸ hall.sent, hrun ▸ hall.testsRun, ?_, ?_⟩
  · refine ⟨done, upcoming d.todo, tests, hc.order, ?_, batches_of_ok hc.nonempty hc.described⟩
    exact hc.id.trans (Nat.zero_add _)
  · obtain ⟨later, hlater⟩ := hall.failures
    refine ⟨later, ?_⟩
    rw [← hlater, hfailures, List.append_assoc, ← hwindow]
    rfl
  · rw [length_unanswered, hin.outstanding_eq, hc.tickets, hc.cases]

end Dispatcher

section

variable (settings : DispatchSettings) (total : Nat) (begun : Moment) (cwd : Path) (now : Nat)
  (root : Suite) (capacity : Option Nat) (s : Strategy)

/-- A fresh dispatcher and its worker after `n` moves. -/
def playFresh (n : Nat) : Play :=
  (Play.opening (.fresh settings total begun cwd) now root capacity).after s n

private theorem playFresh_withMode (go : Bool) (n : Nat) :
    playFresh { settings with continueOnTimeout := go } total begun cwd now root capacity s n =
      ((Play.opening (.fresh settings total begun cwd) now root capacity).withMode go).after s n := by
  have hopening : Play.opening (.fresh { settings with continueOnTimeout := go } total begun cwd)
      now root capacity =
      (Play.opening (.fresh settings total begun cwd) now root capacity).withMode go :=
    congrArg (Play.mk · [])
      (World.opening_withMode go (.fresh settings total begun cwd) now root capacity)
  rw [playFresh, hopening]

private theorem course_playFresh (n : Nat) :
    Dispatcher.Course (.fresh settings total begun cwd) (root.preorder "")
      (playFresh settings total begun cwd now root capacity s n).world.dispatcher
      ((Dispatcher.fresh settings total begun cwd).heard now root
        (inputs now (playFresh settings total begun cwd now root capacity s n).past)) := by
  have hreplay := Play.replay?_after (.fresh settings total begun cwd) now root capacity s n
  rw [show (playFresh settings total begun cwd now root capacity s n).world.dispatcher = _ from
    World.replay?_opening hreplay]
  exact Dispatcher.course_fresh settings total begun cwd now root _

/-- Two runs that differ only in what is to be done after silence are the same until a watchdog is
found to have expired, and if that never happens they are the same for good. After it the run that
is given up has sent, counted and recorded what the other one had by then; the other one goes on
with the failures of the suite, of which as many are for want of a result as the fault counts. -/
theorem runs_agree_until_expiry :
    let stop := playFresh { settings with continueOnTimeout := false } total begun cwd now root
      capacity s
    let go := playFresh { settings with continueOnTimeout := true } total begun cwd now root
      capacity s
    (∀ n, Deed.takes .expired ∉ (stop n).past → go n = (stop n).withMode true) ∧
    (∀ n, Deed.takes .expired ∈ (stop n).past ↔ Deed.takes .expired ∈ (go n).past) ∧
    ∀ n, Deed.takes .expired ∈ (stop n).past → ∃ k < n,
      Deed.takes .expired ∉ (stop k).past ∧
      (stop (k + 1)).past = (stop k).past ++ [.takes .expired] ∧
      (go (k + 1)).past = (stop k).past ++ [.takes .expired] ∧
      ∃ l id pending, ∀ i j, k < i → k < j →
        Dispatcher.Parted settings cwd root
          ((Dispatcher.fresh { settings with continueOnTimeout := false } total begun cwd).heard now
            root (inputs now (stop k).past))
          (stop i).world.dispatcher (go j).world.dispatcher l id pending := by
  intro stop go
  have hgo (n : Nat) : go n = ((Play.opening
      (.fresh { settings with continueOnTimeout := false } total begun cwd) now root
      capacity).withMode true).after s n :=
    playFresh_withMode { settings with continueOnTimeout := false } total begun cwd now root
      capacity s true n
  have hsame (n : Nat) (h : Deed.takes .expired ∉ (stop n).past) :
      go n = (stop n).withMode true := by
    rw [hgo]
    exact Play.after_withMode true h
  have hfirst (n : Nat) (h : Deed.takes .expired ∈ (stop n).past) : ∃ k < n,
      Deed.takes .expired ∉ (stop k).past ∧
      (∃ b, (stop k).world.dispatcher.phase = .awaiting b) ∧
      stop (k + 1) =
        ⟨(stop k).world.take .expired, (stop k).past ++ [.takes .expired]⟩ ∧
      go (k + 1) = ⟨((stop k).world.withMode true).take .expired,
        (stop k).past ++ [.takes .expired]⟩ := by
    simp only [hgo]
    exact Play.first_expiry (by simp [Play.opening]) h true
  refine ⟨hsame, fun n => ⟨fun h => ?_, fun h => ?_⟩, fun n h => ?_⟩
  · obtain ⟨k, hk, -, -, -, hboth⟩ := hfirst n h
    have hpast : (go (k + 1)).past <+: (go n).past := Play.past_after (Nat.succ_le_of_lt hk) s _
    rw [hboth] at hpast
    exact hpast.subset (by simp)
  · by_contra hnot
    rw [hsame n hnot] at h
    exact hnot h
  · obtain ⟨k, hk, hbefore, ⟨b, hp⟩, hstop, hboth⟩ := hfirst n h
    obtain ⟨l, id, pending, hparted⟩ :=
      (course_playFresh { settings with continueOnTimeout := false } total begun cwd now root
        capacity s k).parted hp (stop k).world.clock
    refine ⟨k, hk, hbefore, hstop ▸ rfl, hboth ▸ rfl, l, id, pending, fun i j hi hj => ?_⟩
    have hgrows : Dispatcher.Grows (go (k + 1)).world.dispatcher (go j).world.dispatcher :=
      Play.grows_after (Nat.succ_le_of_lt hj) s _
    rw [hboth] at hgrows
    have hended : (stop (k + 1)).world.dispatcher.ending? = some (.aborted
        (.batchTimeout id l.path pending l.suite.cases.length settings.batchSpan)) := by
      rw [hstop]
      exact (hparted _ hgrows).aborted
    have hstays : (stop i).world.dispatcher = (stop (k + 1)).world.dispatcher :=
      Play.after_of_ended (Nat.succ_le_of_lt hi) hended
    rw [hstays, hstop]
    exact hparted _ hgrows

end

/-- Answers the second test of the first request, and the second request. -/
def fitfulWorker (sent : List String) (_ : Nat) : List String :=
  [(Response.mk 0 1 (.failed (some "boom"))).encode, (Response.mk 1 0 .ok).encode].take sent.length

theorem runs_agree_until_expiry_fitful :
    ∃ stop go : Play, stop = playFresh ⟨3, false⟩ 3 default ⟨[Path.slash]⟩ 0 Dispatcher.slowTree none
        (.ofWorker fitfulWorker) 10 ∧
      go = playFresh ⟨3, true⟩ 3 default ⟨[Path.slash]⟩ 0 Dispatcher.slowTree none
        (.ofWorker fitfulWorker) 10 ∧
      stop.world.dispatcher.ending? =
        some (.aborted (.batchTimeout 0 "/slow" 1 2 (.ofMillis 3))) ∧
      go.world.dispatcher.ending? = some .completed ∧
      go.world.dispatcher.summary.failures =
        [⟨"/slow/s1", "No result received: worker inactive for 0.003 seconds"⟩,
          ⟨"/slow/s2", "boom"⟩] ∧
      ∃ heard l id pending, Dispatcher.Parted ⟨3, true⟩ ⟨[Path.slash]⟩ Dispatcher.slowTree heard
        stop.world.dispatcher go.world.dispatcher l id pending := by
  have h := runs_agree_until_expiry ⟨3, true⟩ 3 default ⟨[Path.slash]⟩ 0 Dispatcher.slowTree none
    (.ofWorker fitfulWorker)
  dsimp only at h
  obtain ⟨k, hk, -, -, -, l, id, pending, hparted⟩ := h.2.2 10 (by decide +kernel)
  exact ⟨_, _, rfl, rfl, by decide +kernel, by decide +kernel, by decide +kernel, _, l, id, pending,
    hparted 10 10 hk hk⟩

end SuiteRunner.Dispatch
