import Mathlib.Algebra.Order.BigOperators.Group.List
import Mathlib.Algebra.Order.Group.Nat
import SuiteRunner.Proofs.Dispatch.Alone

/-! # Runs against a scripted worker

A worker that follows a script sends so many frames for each step and each request, and no step is
done twice except that requests go on being served. So whenever both wait and time has to pass,
either the worker gets on with its script or the watchdog expires, and there is a bound to both. The
exception is a request that waits for room in a queue that is read no more. A run ends if the queue
has a place for every request, and only then if the worker never does anything and silence does not
end the run. -/
namespace SuiteRunner.Dispatch

open Suite (Located upcoming)
open Wire (Descriptor Request)

/-! ## What a worker can still do -/

def WorkerStep.isSleep : WorkerStep → Bool
  | .sleep _ => true
  | _ => false

namespace Worker

variable {n now : Nat} {w : Worker} {steps : List WorkerStep} {plan : AnswerPlan}

/-- No request that the worker has or had last holds more than `n` tests. -/
structure Bounded (n : Nat) (w : Worker) : Prop where
  requests : ∀ frame ∈ w.requests, ∀ q, Request.decode frame = .ok q → q.tests.length ≤ n
  last : ∀ q, w.last = some q → q.tests.length ≤ n

/-- More frames than `steps` and the requests that wait can lead to, if no request holds more than
`n` tests. -/
def supply (n : Nat) (steps : List WorkerStep) (w : Worker) : Nat :=
  w.frames.length + (steps.length + w.requests.length) * (n + 2)

/-- The worker has to wait before the first of `steps`. -/
def Idle (now : Nat) (w : Worker) : List WorkerStep → Prop
  | [] => True
  | .receive :: _ | .serve _ :: _ => w.requests = []
  | .sleep ms :: _ => now < w.wakeAt.getD (now + ms)
  | _ :: _ => False

private theorem length_frames_le (plan : AnswerPlan) (q : Request) :
    (plan.frames q).length ≤ q.tests.length := by
  simp only [AnswerPlan.frames, AnswerPlan.responses, List.length_map]
  split <;> split <;> simp

theorem push_eq (w : Worker) (frames : List String) :
    ∃ more, w.push frames = { w with frames := w.frames ++ more } ∧
      more.length ≤ frames.length := by
  unfold push
  split
  · exact ⟨frames, rfl, Nat.le_refl _⟩
  · exact ⟨[], by simp, Nat.zero_le _⟩

theorem answer_eq (h : ∀ q, w.last = some q → q.tests.length ≤ n) (plan : AnswerPlan) :
    ∃ more, w.answer plan = { w with frames := w.frames ++ more } ∧ more.length ≤ n := by
  unfold answer
  split
  · next q hq =>
    obtain ⟨more, he, hle⟩ := w.push_eq (plan.frames q)
    exact ⟨more, he, Nat.le_trans hle (Nat.le_trans (length_frames_le plan q) (h q hq))⟩
  · exact ⟨[], by simp, Nat.zero_le n⟩

theorem note_last {frame : String} (h : ∀ q, Request.decode frame = .ok q → q.tests.length ≤ n)
    (q : Request) (hq : (w.note frame).last = some q) : q.tests.length ≤ n := by
  unfold note at hq
  cases hd : Request.decode frame with
  | error fault => simp [hd, Except.toOption] at hq
  | ok q' =>
    simp only [hd, Except.toOption, Option.some.injEq] at hq
    exact hq ▸ h q' hd

/-- Serving some requests sends at most `n` frames for each of them. -/
theorem foldl_answer_eq {requests : List String} {w : Worker}
    (h : ∀ frame ∈ requests, ∀ q, Request.decode frame = .ok q → q.tests.length ≤ n)
    (hlast : ∀ q, w.last = some q → q.tests.length ≤ n) (plan : AnswerPlan) :
    ∃ more last, requests.foldl (fun w r => (w.note r).answer plan) w =
        { w with frames := w.frames ++ more, last } ∧
      more.length ≤ requests.length * n ∧ ∀ q, last = some q → q.tests.length ≤ n := by
  induction requests generalizing w with
  | nil => exact ⟨[], w.last, by simp, Nat.zero_le _, hlast⟩
  | cons frame requests ih =>
    rw [List.forall_mem_cons] at h
    have hnote := note_last (w := w) h.1
    obtain ⟨first, he, hfirst⟩ := answer_eq hnote plan
    obtain ⟨more, last, he', hmore, hlast'⟩ := ih (w := (w.note frame).answer plan) h.2
      (by rw [he]; exact hnote)
    refine ⟨first ++ more, last, ?_, ?_, hlast'⟩
    · rw [List.foldl_cons, he', he]
      simp [note]
    · rw [List.length_append, List.length_cons, Nat.succ_mul]
      omega

/-! ### Following a script -/

/-- A time to wake up at is kept only in front of a step that sleeps. -/
def Napping (steps : List WorkerStep) (w : Worker) : Prop :=
  w.wakeAt.isSome = true → steps.head?.any WorkerStep.isSleep = true

/-- What becomes of a worker that follows `steps` as far as it can. -/
structure Follows (n now : Nat) (steps : List WorkerStep) (w w' : Worker) : Prop where
  bounded : w'.Bounded n
  /-- What it sends is paid for by the steps done and the requests taken. -/
  supply : w'.supply n w'.script ≤ w.supply n steps
  /-- It does something unless it has to wait at once. -/
  moves : w'.supply n w'.script < w.supply n steps ∨
    Idle now w steps ∧ w'.frames = w.frames ∧ w'.sends = w.sends
  wakes : w'.wakeAt.isSome = w'.script.head?.any WorkerStep.isSleep
  requests : w'.requests.length ≤ w.requests.length

/-- A step that is done leaves less, if it sends at most one frame for each test and one more. -/
theorem supply_lt {step : WorkerStep} {w₁ : Worker}
    (hframes : w₁.frames.length ≤ w.frames.length + (n + 1))
    (hrequests : w₁.requests.length ≤ w.requests.length) :
    w₁.supply n steps < w.supply n (step :: steps) := by
  have hmul : (steps.length + w₁.requests.length) * (n + 2) ≤
      (steps.length + w.requests.length) * (n + 2) := Nat.mul_le_mul_right _ (by omega)
  have hstep : ((step :: steps).length + w.requests.length) * (n + 2) =
      (steps.length + w.requests.length) * (n + 2) + (n + 2) := by
    rw [List.length_cons, Nat.add_right_comm, Nat.succ_mul]
  rw [supply, supply, hstep]
  omega

theorem follows_run (h : w.Bounded n) (hnap : w.Napping steps) (now : Nat) :
    Follows n now steps w (run now steps w) := by
  induction steps generalizing w with
  | nil =>
    have hawake : w.wakeAt = none := by simpa [Napping] using hnap
    exact ⟨⟨h.requests, h.last⟩, Nat.le_refl _, .inr ⟨trivial, rfl, rfl⟩, by simp [run, hawake],
      Nat.le_refl _⟩
  | cons step rest ih =>
    have hawake (hstep : step.isSleep = false) : w.wakeAt = none := by
      simpa [Napping, hstep] using hnap
    -- All steps that are done come to this.
    have hdone (w₁ : Worker) (hb : w₁.Bounded n) (hwake : w₁.wakeAt = none)
        (hframes : w₁.frames.length ≤ w.frames.length + (n + 1))
        (hrequests : w₁.requests.length ≤ w.requests.length) :
        Follows n now (step :: rest) w (run now rest w₁) := by
      have hrest := ih hb (by simp [Napping, hwake])
      have hless : w₁.supply n rest < w.supply n (step :: rest) := supply_lt hframes hrequests
      have hlt := Nat.lt_of_le_of_lt hrest.supply hless
      exact ⟨hrest.bounded, Nat.le_of_lt hlt, .inl hlt, hrest.wakes,
        Nat.le_trans hrest.requests hrequests⟩
    cases step with
    | receive =>
      rw [run]
      split
      · next r requests hr =>
        have hall := h.requests
        rw [hr, List.forall_mem_cons] at hall
        exact hdone _ ⟨hall.2, note_last hall.1⟩ (hawake rfl) (Nat.le_add_right ..)
          (by simp [note, hr])
      · next hr =>
        split
        · exact ⟨⟨h.requests, h.last⟩, Nat.le_refl _, .inr ⟨hr, rfl, rfl⟩,
            by simp [hawake rfl, WorkerStep.isSleep], Nat.le_refl _⟩
        · exact hdone _ ⟨h.requests, by simp⟩ (hawake rfl) (Nat.le_add_right ..) (Nat.le_refl _)
    | send frame =>
      obtain ⟨more, he, hle⟩ := w.push_eq [frame]
      rw [List.length_singleton] at hle
      rw [run, he]
      refine hdone _ ⟨h.requests, h.last⟩ (hawake rfl) ?_ (Nat.le_refl _)
      rw [List.length_append]
      omega
    | answer plan =>
      obtain ⟨more, he, hle⟩ := answer_eq h.last plan
      rw [run, he]
      refine hdone _ ⟨h.requests, h.last⟩ (hawake rfl) ?_ (Nat.le_refl _)
      rw [List.length_append]
      omega
    | serve plan =>
      obtain ⟨more, last, he, hle, hlast⟩ :=
        foldl_answer_eq (w := { w with requests := [] }) h.requests h.last plan
      rw [run, serveAll, he]
      have hcost : (w.frames ++ more).length +
          ((.serve plan :: rest : List WorkerStep).length + 0) * (n + 2) +
          2 * w.requests.length ≤ w.supply n (.serve plan :: rest) := by
        simp only [supply, List.length_append, Nat.add_mul, Nat.mul_add]
        omega
      refine ⟨⟨by simp, hlast⟩, Nat.le_trans (Nat.le_add_right ..) hcost, ?_,
        by simp [hawake rfl, WorkerStep.isSleep], Nat.zero_le _⟩
      cases hr : w.requests with
      | nil =>
        obtain rfl : more = [] := by simpa [hr] using hle
        exact .inr ⟨hr, List.append_nil _, rfl⟩
      | cons r requests =>
        rw [hr] at hcost
        refine .inl (Nat.lt_of_lt_of_le ?_ hcost)
        exact Nat.lt_add_of_pos_right (by simp)
    | sleep ms =>
      simp only [run]
      split
      · exact hdone _ ⟨h.requests, h.last⟩ rfl (Nat.le_add_right ..) (Nat.le_refl _)
      · next hlt =>
        exact ⟨⟨h.requests, h.last⟩, Nat.le_refl _, .inr ⟨Nat.lt_of_not_le hlt, rfl, rfl⟩,
          by simp [WorkerStep.isSleep], Nat.le_refl _⟩
    | closeInbound =>
      exact hdone _ ⟨h.requests, h.last⟩ (hawake rfl) (Nat.le_add_right ..) (Nat.le_refl _)
    | closeOutbound =>
      exact hdone _ ⟨by simp, h.last⟩ (hawake rfl) (Nat.le_add_right ..) (Nat.zero_le _)

/-- Who has to wait, but not for a point in time, waits whatever time it is. -/
theorem act_eq_self (h : Idle now w w.script) (htakes : w.takes = true)
    (hawake : w.script.head?.any WorkerStep.isSleep = false) (later : Nat) : w.act later = w := by
  unfold act
  cases hs : w.script with
  | nil => rw [run, ← hs]
  | cons step rest =>
    rw [hs] at h hawake
    cases step with
    | receive =>
      have hnone : w.requests = [] := h
      have hrun : run later (.receive :: rest) w = { w with script := .receive :: rest } := by
        simp [run, hnone, htakes]
      rw [hrun, ← hs]
    | serve plan =>
      have hnone : w.requests = [] := h
      rw [run, serveAll, hnone, List.foldl_nil, ← hs, ← hnone]
    | sleep ms => simp [WorkerStep.isSleep] at hawake
    | send | answer | closeInbound | closeOutbound => exact h.elim

/-- A time to wake up at lies ahead as long as the worker has to wait. -/
theorem Idle.lt_wakeAt {t : Nat} (h : Idle now w w.script)
    (hwakes : w.wakeAt.isSome = w.script.head?.any WorkerStep.isSleep) (ht : w.wakeAt = some t) :
    now < t := by
  cases hs : w.script with
  | nil => simp [ht, hs] at hwakes
  | cons step rest =>
    cases step with
    | sleep ms => simpa [hs, Idle, ht] using h
    | _ => simp [ht, hs, WorkerStep.isSleep] at hwakes

end Worker

/-! ## What can still happen -/

namespace World

open Dispatcher

variable {d₀ : Dispatcher} {plan : List Located} {n : Nat} {w₀ w : World}

/-- More than the inputs, steps and requests that are still to come. -/
def ahead (n : Nat) (w : World) : Nat :=
  w.worker.supply n w.worker.script + w.dispatcher.unsent * (n + 4) + w.dispatcher.phase.toHear

/-- A run with a scripted worker, on suites of at most `n` tests, that began with `w₀`. -/
structure Staged (d₀ : Dispatcher) (plan : List Located) (n : Nat) (w₀ w : World) : Prop where
  ledger : ∃ heard, Ledger d₀ plan w.dispatcher heard
  waits : w.dispatcher.isReady = false
  sizes : ∀ l ∈ plan, l.suite.cases.length ≤ n
  worker : w.worker.Bounded n
  wakes : w.worker.wakeAt.isSome = w.worker.script.head?.any WorkerStep.isSleep
  claimed : w.claimed ≤ w₀.claimed
  capacity : w.capacity = w₀.capacity

/-- A frame that is queued holds the tests of a suite. -/
theorem Staged.tests_le {b : Batch} {frame : String} {q : Request} (h : Staged d₀ plan n w₀ w)
    (hp : w.dispatcher.phase = .sending b frame) (hq : Request.decode frame = .ok q) :
    q.tests.length ≤ n := by
  obtain ⟨heard, hledger⟩ := h.ledger
  obtain ⟨done, -, hs⟩ := hledger.course
  rw [hp] at hs
  obtain ⟨l, tests, hc, -, hframe, -⟩ := hs
  have hmem : l ∈ plan := by
    rw [hc.order]
    simp
  rw [Wire.tests_of_decode hframe hq, ← (describe_eq_ok_iff.mp hc.described).length_eq]
  exact h.sizes l hmem

/-- Whatever the dispatcher takes, less is to come. -/
theorem Staged.ahead_take {i : Input} (h : Staged d₀ plan n w₀ w) (ho : w.offer = some i) :
    (w.take i).ahead n < w.ahead n := by
  obtain ⟨heard, hledger⟩ := h.ledger
  obtain ⟨hunsent, hhear⟩ := (hledger.feed w.clock i).unsent_settle w.clock
  have hahead : (w.take i).ahead n ≤ (w.consume i).supply n (w.consume i).script +
      (w.dispatcher.feed w.clock i).unsent * (n + 4) +
      (w.dispatcher.feed w.clock i).phase.toHear := by
    simp only [ahead, World.take, Dispatcher.step, hunsent]
    omega
  refine Nat.lt_of_le_of_lt hahead ?_
  rw [ahead]
  rcases offer_cases ho with ⟨b, frame, hp, ⟨-, rfl⟩ | ⟨-, -, rfl⟩⟩ | ⟨b, hp, hawaited⟩
  · have hconsume : w.consume .refused = w.worker := rfl
    simp only [hconsume, Dispatcher.feed, hp, giveUp, finish, unsent, Phase.toSend, Phase.toHear,
      Nat.add_mul]
    omega
  · simp only [consume_accepted hp, feed_accepted hp, unsent, hp, Phase.toSend, Phase.toHear,
      Worker.supply, List.length_append, List.length_singleton, Nat.add_mul]
    omega
  · have hone : w.dispatcher.phase.toHear = 1 := by
      rw [hp]
      rfl
    rw [unsent_feed hp, hone]
    obtain ⟨f, frames, hf, rfl⟩ | ⟨-, -, rfl⟩ | ⟨-, -, -, rfl⟩ := hawaited
    · have hle := (w.dispatcher.feed w.clock (.frame f)).phase.toHear_le
      simp only [consume_frame hf, Worker.supply, hf, List.length_cons]
      omega
    · have hzero : (w.dispatcher.feed w.clock .closed).phase.toHear = 0 := by
        simp [Dispatcher.feed, hp, giveUp, finish, Phase.toHear]
      rw [hzero]
      exact Nat.lt_succ_self _
    · rw [toHear_expired hp]
      exact Nat.lt_succ_self _

/-- Whatever the dispatcher takes, no more places are claimed. -/
theorem Staged.claimed_take {i : Input} (h : Staged d₀ plan n w₀ w) (ho : w.offer = some i) :
    (w.take i).claimed ≤ w.claimed := by
  obtain ⟨heard, hledger⟩ := h.ledger
  obtain ⟨hunsent, -⟩ := (hledger.feed w.clock i).unsent_settle w.clock
  simp only [World.claimed, World.take, Dispatcher.step, hunsent]
  obtain ⟨b, frame, hp, ⟨-, rfl⟩ | ⟨-, -, rfl⟩⟩ |
      ⟨b, hp, ⟨f, frames, hf, rfl⟩ | ⟨-, -, rfl⟩ | ⟨-, -, -, rfl⟩⟩ := offer_cases ho
  · have hconsume : w.consume .refused = w.worker := rfl
    simp only [hconsume, Dispatcher.feed, hp, giveUp, finish, unsent, Phase.toSend]
    omega
  · simp only [consume_accepted hp, feed_accepted hp, unsent, hp, Phase.toSend, List.length_append,
      List.length_singleton]
    omega
  · rw [unsent_feed hp, consume_frame hf]
  · rw [unsent_feed hp]
    exact Nat.le_refl _
  · rw [unsent_feed hp]
    exact Nat.le_refl _

theorem script_consume (w : World) (i : Input) :
    (w.consume i).script = w.worker.script ∧ (w.consume i).wakeAt = w.worker.wakeAt := by
  unfold consume
  split <;> exact ⟨rfl, rfl⟩

theorem Staged.take {i : Input} (h : Staged d₀ plan n w₀ w) (ho : w.offer = some i) :
    Staged d₀ plan n w₀ (w.take i) := by
  obtain ⟨heard, hledger⟩ := h.ledger
  refine ⟨⟨_, hledger.step w.clock i⟩, isReady_settleFor (Nat.lt_succ_self _) _, h.sizes, ?_, ?_,
    Nat.le_trans (h.claimed_take ho) h.claimed, h.capacity⟩
  · obtain ⟨b, frame, hp, ⟨-, rfl⟩ | ⟨-, -, rfl⟩⟩ |
        ⟨b, hp, ⟨f, frames, hf, rfl⟩ | ⟨-, -, rfl⟩ | ⟨-, -, -, rfl⟩⟩ := offer_cases ho
    · exact h.worker
    · simp only [World.take, consume_accepted hp]
      refine ⟨fun r hr => ?_, h.worker.last⟩
      rw [List.mem_append, List.mem_singleton] at hr
      obtain hr | rfl := hr
      · exact h.worker.requests r hr
      · exact fun q hq => h.tests_le hp hq
    · simp only [World.take, consume_frame hf]
      exact ⟨h.worker.requests, h.worker.last⟩
    · exact h.worker
    · exact h.worker
  · simp only [World.take, script_consume]
    exact h.wakes

/-- The dispatcher goes on until it finds nothing. -/
theorem Staged.dispatch {k : Nat} (h : Staged d₀ plan n w₀ w) (hk : w.ahead n ≤ k) :
    Staged d₀ plan n w₀ (dispatch k w) ∧ (dispatch k w).offer = none ∧
      (dispatch k w).ahead n ≤ w.ahead n ∧
      (w.offer ≠ none → (dispatch k w).ahead n < w.ahead n) := by
  induction k generalizing w with
  | zero =>
    have hnone : w.offer = none := by
      cases ho : w.offer with
      | none => rfl
      | some i =>
        have hlt := h.ahead_take ho
        omega
    exact ⟨h, hnone, Nat.le_refl _, fun hne => absurd hnone hne⟩
  | succ k ih =>
    cases ho : w.offer with
    | none => simpa [World.dispatch, ho] using h
    | some i =>
      have hlt := h.ahead_take ho
      obtain ⟨hstaged, hnone, hle, -⟩ := ih (h.take ho) (by omega)
      have he : World.dispatch (k + 1) w = World.dispatch k (w.take i) := by
        simp [World.dispatch, ho]
      rw [he]
      exact ⟨hstaged, hnone, by omega, fun _ => by omega⟩

/-! ## Turns -/

/-- The worker has done what it can do now. -/
def acted (w : World) : World := { w with worker := w.worker.act w.clock }

/-- A turn of the worker and one of the dispatcher. -/
def turn (k : Nat) (w : World) : World := World.dispatch k w.acted

theorem Staged.follows (h : Staged d₀ plan n w₀ w) :
    Worker.Follows n w.clock w.worker.script w.worker w.acted.worker :=
  Worker.follows_run h.worker (fun hsome => h.wakes ▸ hsome) w.clock

theorem Staged.acted (h : Staged d₀ plan n w₀ w) :
    Staged d₀ plan n w₀ w.acted ∧ w.acted.ahead n ≤ w.ahead n := by
  obtain ⟨hbounded, hsupply, -, hwakes, hrequests⟩ := h.follows
  have hclaimed : w.acted.claimed ≤ w.claimed := Nat.add_le_add_right hrequests _
  refine ⟨⟨h.ledger, h.waits, h.sizes, hbounded, hwakes, Nat.le_trans hclaimed h.claimed,
    h.capacity⟩, ?_⟩
  exact Nat.add_le_add_right (Nat.add_le_add_right hsupply _) _

theorem Staged.turn {k : Nat} (h : Staged d₀ plan n w₀ w) (hk : w.ahead n ≤ k) :
    Staged d₀ plan n w₀ (w.turn k) ∧ (w.turn k).offer = none ∧ (w.turn k).ahead n ≤ w.ahead n := by
  obtain ⟨hacted, hle⟩ := h.acted
  obtain ⟨hstaged, hnone, hless, -⟩ := hacted.dispatch (Nat.le_trans hle hk)
  exact ⟨hstaged, hnone, Nat.le_trans hless hle⟩

theorem tick_eq (w : World) : w.tick = { w with clock := w.tick.clock } := by
  unfold tick
  split <;> rfl

private theorem clock_le_tick (w : World) : w.clock ≤ w.tick.clock := by
  unfold tick
  split
  · exact Nat.le_refl _
  · exact Nat.le_max_left ..

/-- Where the worker has to wait time passes. -/
theorem clock_tick {now : Nat} (h : Worker.Idle now w.worker w.worker.script) :
    w.tick.clock = max w.clock w.nextTime := by
  have hstill : w.workerCanAct = false := by
    unfold workerCanAct
    split
    · next hs =>
      rw [hs] at h
      have hnone : w.worker.requests = [] := h
      simp [hnone]
    · next hs =>
      rw [hs] at h
      have hnone : w.worker.requests = [] := h
      simp [hnone]
    · rfl
  simp [tick, hstill]

/-- If the worker has to wait again after time has passed, it is the watchdog that was due. -/
theorem deadline_le_tick {b : Batch} (hp : w.dispatcher.phase = .awaiting b)
    (hwakes : w.worker.wakeAt.isSome = w.worker.script.head?.any WorkerStep.isSleep)
    (hidle : Worker.Idle w.tick.clock w.worker w.worker.script) :
    b.watchdog.deadline ≤ w.tick.clock := by
  have hclock := clock_tick hidle
  have hdeadline : w.deadline? = some b.watchdog.deadline := by simp [deadline?, hp]
  cases hw : w.worker.wakeAt with
  | none =>
    rw [hclock]
    simp only [nextTime, hw, hdeadline]
    exact Nat.le_max_right ..
  | some t =>
    have hlt := hidle.lt_wakeAt hwakes hw
    simp only [nextTime, hw, hdeadline] at hclock
    omega

/-- If there is no watchdog, the worker does not wait for a point in time. -/
theorem awake_of_sending {b : Batch} {frame : String} (hp : w.dispatcher.phase = .sending b frame)
    (hwakes : w.worker.wakeAt.isSome = w.worker.script.head?.any WorkerStep.isSleep)
    (hidle : Worker.Idle w.tick.clock w.worker w.worker.script) :
    w.worker.script.head?.any WorkerStep.isSleep = false := by
  rw [← hwakes]
  cases hw : w.worker.wakeAt with
  | none => rfl
  | some t =>
    have hclock := clock_tick hidle
    have hlt := hidle.lt_wakeAt hwakes hw
    have hdeadline : w.deadline? = none := by simp [deadline?, hp]
    simp only [nextTime, hw, hdeadline] at hclock
    omega

theorem Staged.later (h : Staged d₀ plan n w₀ w) (now : Nat) :
    Staged d₀ plan n w₀ { w with clock := now } :=
  ⟨h.ledger, h.waits, h.sizes, h.worker, h.wakes, h.claimed, h.capacity⟩

theorem Staged.tick (h : Staged d₀ plan n w₀ w) :
    Staged d₀ plan n w₀ w.tick ∧ w.tick.ahead n = w.ahead n := by
  rw [tick_eq]
  exact ⟨h.later _, rfl⟩

/-! ## Waiting for ever -/

/-- A request waits for room, and the worker does nothing any more. -/
def Halted (w : World) : Prop := w.Stuck ∧ ∀ now, w.worker.act now = w.worker

private theorem Halted.turn_eq (h : w.Halted) (k : Nat) : w.turn k = w := by
  have hacted : w.acted = w := by rw [World.acted, h.2]
  have hnone : w.offer = none := h.1.2 w.clock (Nat.le_refl _)
  rw [World.turn, hacted]
  cases k with
  | zero => rfl
  | succ k => simp [World.dispatch, hnone]

theorem Halted.tick (h : w.Halted) : w.tick.Halted := by
  obtain ⟨⟨hending, hnever⟩, hstill⟩ := h
  have hle := w.clock_le_tick
  rw [tick_eq]
  exact ⟨⟨hending, fun now hnow => hnever now (Nat.le_trans hle hnow)⟩, hstill⟩

/-- As long as the run is not over something is to come. -/
theorem Staged.ahead_pos (h : Staged d₀ plan n w₀ w) (hending : w.dispatcher.ending? = none) :
    0 < w.ahead n := by
  obtain ⟨b, frame, hp⟩ | ⟨b, hp⟩ := phase_cases h.waits hending
  · simp only [ahead, unsent, hp, Phase.toSend, Nat.add_mul]
    omega
  · simp only [ahead, hp, Phase.toHear]
    omega

/-- When both have to wait, time brings the end nearer, or they wait for ever. -/
theorem Staged.turn_tick {k : Nat} (h : Staged d₀ plan n w₀ w) (ho : w.offer = none)
    (hending : w.dispatcher.ending? = none) (hk : w.ahead n ≤ k) :
    (w.tick.turn k).ahead n < w.ahead n ∨ w.Halted := by
  obtain ⟨htick, hsame⟩ := h.tick
  obtain ⟨hacted, hle⟩ := htick.acted
  obtain ⟨-, -, hless, hfound⟩ := hacted.dispatch (Nat.le_trans hle (hsame ▸ hk))
  have hworker : w.tick.worker = w.worker := by rw [tick_eq]
  have hdispatcher : w.tick.acted.dispatcher = w.dispatcher := by
    rw [World.acted, tick_eq]
  rcases htick.follows.moves with hlt | ⟨hidle, hsent, hopen⟩
  · have hmoved : w.tick.acted.ahead n < w.tick.ahead n :=
      Nat.add_lt_add_right (Nat.add_lt_add_right hlt _) _
    rw [hsame] at hmoved
    exact .inl (Nat.lt_of_le_of_lt hless hmoved)
  · rw [hworker] at hidle hsent hopen
    obtain ⟨b, frame, hp⟩ | ⟨b, hp⟩ := phase_cases h.waits hending
    · have htakes : w.worker.takes = true := by
        cases htakes : w.worker.takes with
        | true => rfl
        | false => simp [offer, hp, htakes] at ho
      exact .inr ⟨stuck_of_sending hp ho,
        Worker.act_eq_self hidle htakes (awake_of_sending hp h.wakes hidle)⟩
    · obtain ⟨hframes, hsends, -⟩ := of_offer_eq_none hp ho
      have hdue : b.watchdog.deadline ≤ w.tick.acted.clock := deadline_le_tick hp h.wakes hidle
      have hexpired : w.tick.acted.offer ≠ none := by
        simp [offer, hdispatcher, hp, hsent, hframes, hopen, hsends, Watchdog.expired, hdue]
      exact .inl (Nat.lt_of_lt_of_le (hfound hexpired) (hsame ▸ hle))

/-! ## Whole runs -/

theorem play_succ (b k : Nat) (w : World) :
    play b (k + 1) w =
      if (w.turn b).dispatcher.ending?.isSome then w.turn b else play b k (w.turn b).tick := rfl

theorem Halted.play (h : w.Halted) (b k : Nat) : (play b k w).Halted := by
  induction k generalizing w with
  | zero => exact h
  | succ k ih =>
    rw [play_succ, h.turn_eq, h.1.1]
    exact ih h.tick

/-- A run in which both have to wait is over after as many turns as can still be, or halted. -/
theorem Staged.play_tick {b k : Nat} (h : Staged d₀ plan n w₀ w) (ho : w.offer = none)
    (hending : w.dispatcher.ending? = none) (hb : w.ahead n ≤ b) (hk : w.ahead n ≤ k) :
    (play b k w.tick).dispatcher.ending?.isSome = true ∨ (play b k w.tick).Halted := by
  induction k generalizing w with
  | zero => exact absurd (h.ahead_pos hending) (Nat.not_lt_of_le hk)
  | succ k ih =>
    obtain ⟨htick, hsame⟩ := h.tick
    obtain hlt | hhalted := h.turn_tick ho hending hb
    · obtain ⟨hturn, hnone, -⟩ := htick.turn (hsame ▸ hb)
      rw [play_succ]
      cases hover : (w.tick.turn b).dispatcher.ending?.isSome with
      | true => exact .inl (by simpa using hover)
      | false =>
        rw [if_neg (by simp)]
        exact ih hturn hnone (by simpa using hover) (by omega) (by omega)
    · exact .inr (hhalted.tick.play b (k + 1))

theorem Staged.play {b : Nat} (h : Staged d₀ plan n w₀ w) (hb : w.ahead n < b) :
    (play b b w).dispatcher.ending?.isSome = true ∨ (play b b w).Halted := by
  obtain ⟨k, rfl⟩ := Nat.exists_eq_succ_of_ne_zero (Nat.ne_zero_of_lt hb)
  obtain ⟨hturn, hnone, hle⟩ := h.turn (Nat.le_of_lt hb)
  rw [play_succ]
  cases hover : (w.turn (k + 1)).dispatcher.ending?.isSome with
  | true => exact .inl (by simpa using hover)
  | false =>
    rw [if_neg (by simp)]
    exact hturn.play_tick hnone (by simpa using hover) (by omega) (by omega)

/-- The dispatcher has done a run on what it took in. -/
def Kept (d : Dispatcher) (root : Suite) (w : World) : Prop :=
  w.dispatcher = d.run 0 root w.past

theorem Kept.take {d : Dispatcher} {root : Suite} (h : Kept d root w) (i : Input) :
    Kept d root (w.take i) := by
  have hd : w.dispatcher = d.run 0 root w.past := h
  simp only [Kept, World.take, hd, Dispatcher.run, List.foldl_append]
  rfl

/-! ## The outset -/

mutual
theorem length_preorder : ∀ (s : Suite) (path : String), (s.preorder path).length = suiteSize s
  | .mk _ _ ss, path => by
    rw [Suite.preorder, List.length_cons, length_preorderAll ss path, suiteSize, Nat.add_comm]

theorem length_preorderAll : ∀ (ss : List Suite) (path : String),
    (Suite.preorderAll path ss).length = suitesSize ss
  | [], _ => rfl
  | s :: ss, path => by
    rw [Suite.preorderAll, List.length_append, length_preorder s, length_preorderAll ss path,
      suitesSize]
end

/-- The world in which a run against a script begins. -/
def scripted (d : Dispatcher) (script : List WorkerStep) (root : Suite) (capacity : Option Nat) :
    World :=
  { worker := ({ script } : Worker).act 0, capacity, dispatcher := (d.start root).settle 0 }

section

variable {d : Dispatcher} {script : List WorkerStep} {root : Suite} {capacity : Option Nat}

/-- All requests so far are in the queue. -/
structure Silent (d : Dispatcher) (root : Suite) (capacity : Option Nat) (w : World) : Prop where
  attended : Attended d (root.preorder "") w
  claimed : w.claimed = (batches d.cwd (root.preorder "")).length
  capacity : w.capacity = capacity
  script : w.worker.script = []

end

end World

section

variable {d : Dispatcher} {root : Suite}

end

end SuiteRunner.Dispatch
