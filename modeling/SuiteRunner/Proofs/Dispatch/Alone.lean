import SuiteRunner.Proofs.Dispatch.Abort
import SuiteRunner.Proofs.Dispatch.Exchange
import SuiteRunner.Proofs.Dispatch.Failures

/-! # A dispatcher that is left alone

The worker stays connected but does nothing any more. The dispatcher then comes to one rest, however
it waits: it ends, or a request waits for room for ever. It ends exactly if the outbound queue has a
place for each request that it comes to. -/
namespace SuiteRunner.Dispatch

open Suite (Located upcoming)

/-- A request waits for room. -/
def Phase.toSend : Phase → Nat
  | .sending .. => 1
  | _ => 0

/-- Results are awaited. -/
def Phase.toHear : Phase → Nat
  | .awaiting _ => 1
  | _ => 0

theorem Phase.toHear_le (p : Phase) : p.toHear ≤ 1 := by
  cases p <;> simp [Phase.toHear]

/-- Whether it needs no worker. -/
def Deed.isOwn : Deed → Bool
  | .takes _ => true
  | .waits _ => true
  | _ => false

def Deed.isTaking : Deed → Bool
  | .takes _ => true
  | _ => false

namespace Dispatcher

/-- Number of requests that are still to be queued. -/
def unsent (d : Dispatcher) : Nat :=
  (batches d.cwd (upcoming d.todo)).length + d.phase.toSend

variable {d₀ d : Dispatcher} {plan : List Located} {heard : Hearing}

/-- Visiting a suite makes no request but one that was to come. -/
theorem Ledger.unsent_visit (h : Ledger d₀ plan d heard) (hr : d.isReady = true) (now : Nat) :
    (d.visit now).unsent = d.unsent ∧ (d.visit now).phase.toHear = 0 := by
  obtain ⟨done, -, hs⟩ := h.course
  have hphase := phase_of_isReady hr
  rw [hphase] at hs
  cases ht : d.todo with
  | nil =>
    rw [visit_nil now hs.1 ht]
    simp [unsent, finish, hphase, ht, Phase.toSend, Phase.toHear]
  | cons l rest =>
    have hbatches : batches d.cwd (upcoming d.todo) =
        batches d.cwd [l] ++ batches d.cwd (upcoming (children l ++ rest)) := by
      rw [ht, Suite.upcoming_cons, ← batches_append]
      rfl
    rcases batches_singleton d.cwd l with hnone | ⟨hc, tests, hd, hone⟩
    · obtain ⟨failures, console, log, he⟩ := visit_skips ht hnone now
      rw [he]
      simp [unsent, hphase, hbatches, hnone, Phase.toSend, Phase.toHear]
    · obtain ⟨frame, -, he⟩ := visit_opens now hs.1 ht hc hd
      rw [he]
      simp [unsent, hphase, hbatches, hone, Phase.toSend, Phase.toHear]

theorem Ledger.unsent_settle (h : Ledger d₀ plan d heard) (now : Nat) :
    (d.settle now).unsent = d.unsent ∧ (d.settle now).phase.toHear ≤ d.phase.toHear := by
  have hkeep := settleFor_induction
    (P := fun d' => Ledger d₀ plan d' heard ∧ d'.unsent = d.unsent ∧
      d'.phase.toHear ≤ d.phase.toHear)
    (fun d' hr hd' => by
      obtain ⟨hunsent, hhear⟩ := hd'.1.unsent_visit hr now
      exact ⟨hd'.1.visit hr now, hunsent.trans hd'.2.1, by rw [hhear]; exact Nat.zero_le _⟩)
    (d.remaining + 1) d ⟨h, rfl, Nat.le_refl _⟩
  exact hkeep.2

/-- While results are awaited no input makes a request wait. -/
theorem toSend_feed {b : Batch} (hp : d.phase = .awaiting b) (now : Nat) (i : Input) :
    (d.feed now i).phase.toSend = 0 := by
  unfold feed
  split
  · rfl
  · rfl
  · simp only [receive]
    split <;> rfl
  · rfl
  · simp only [timeOut]
    split <;> rfl
  · rw [hp]
    rfl

theorem toHear_expired {b : Batch} (hp : d.phase = .awaiting b) (now : Nat) :
    (d.feed now .expired).phase.toHear = 0 := by
  simp only [feed, hp, timeOut]
  split <;> rfl

/-- A dispatcher that has gone as far as it can waits for room or for results. -/
theorem phase_cases (hwaits : d.isReady = false) (hending : d.ending? = none) :
    (∃ b frame, d.phase = .sending b frame) ∨ ∃ b, d.phase = .awaiting b := by
  cases hp : d.phase with
  | ready => simp [isReady, hp] at hwaits
  | sending b frame => exact .inl ⟨b, frame, rfl⟩
  | awaiting b => exact .inr ⟨b, rfl⟩
  | ended e => simp [ending?, hp] at hending

theorem unsent_feed {b : Batch} (hp : d.phase = .awaiting b) (now : Nat) (i : Input) :
    (d.feed now i).unsent = d.unsent := by
  rcases frame_feed d now i with ⟨b', frame, hp', -⟩ | hframe
  · rw [hp] at hp'
    cases hp'
  · rw [unsent, unsent, toSend_feed hp, hframe.todo, hframe.cwd, hp]
    rfl

end Dispatcher

namespace World

open Dispatcher

/-- The inputs that the dispatcher can still take if the worker does nothing: the frames queued, and
for each request its queueing and the end of the wait for its results. -/
def burden (w : World) : Nat :=
  w.worker.frames.length + 2 * w.dispatcher.unsent + w.dispatcher.phase.toHear

/-- Places in the outbound queue that are taken or will be. -/
def claimed (w : World) : Nat := w.worker.requests.length + w.dispatcher.unsent

/-- The outbound queue has a place for every request to come. -/
def HasPlaces (w : World) : Prop := ∀ n, w.capacity = some n → w.claimed ≤ n

/-- The outbound queue has a place for so many requests. -/
def HasPlacesFor (w : World) (k : Nat) : Prop :=
  ∀ n, w.capacity = some n → w.worker.requests.length + k ≤ n

/-- The run is not over, and however long it waits it finds nothing. -/
def Stuck (w : World) : Prop :=
  w.dispatcher.ending? = none ∧
    ∀ now, w.clock ≤ now → ({ w with clock := now } : World).offer = none

variable {d₀ : Dispatcher} {plan : List Located} {heard : Hearing} {w w' : World}

theorem hasRoom_iff :
    w.hasRoom = true ↔ ∀ n, w.capacity = some n → w.worker.requests.length < n := by
  cases hcapacity : w.capacity <;> simp [hasRoom, hcapacity]

/-- Every input brings the end nearer, and the outbound queue no nearer to overflow. -/
theorem Connected.take_burden {i : Input} (h : Connected d₀ plan w heard)
    (ho : w.offer = some i) :
    (w.take i).burden < w.burden ∧ (w.take i).claimed = w.claimed := by
  have hfed := h.ledger.feed w.clock i
  obtain ⟨hunsent, hhear⟩ := hfed.unsent_settle w.clock
  obtain ⟨b, frame, hp, -, rfl⟩ | ⟨b, hp, ⟨f, frames, hf, rfl⟩ | ⟨hf, -, rfl⟩⟩ := h.offer_cases ho
  · rw [feed_accepted hp] at hunsent hhear
    have hstep : w.dispatcher.step w.clock .accepted = Dispatcher.settle
        { w.dispatcher with sent := w.dispatcher.sent ++ [frame], phase := .awaiting b }
        w.clock := by
      rw [Dispatcher.step, feed_accepted hp]
    simp only [burden, claimed, World.take, consume_accepted hp, hstep, hunsent, List.length_append,
      List.length_singleton]
    simp only [unsent, hp, Phase.toSend, Phase.toHear] at hhear ⊢
    omega
  · have hle := (w.dispatcher.feed w.clock (.frame f)).phase.toHear_le
    have hone : w.dispatcher.phase.toHear = 1 := by
      rw [hp]
      rfl
    simp only [burden, claimed, World.take, consume_frame hf, Dispatcher.step, hunsent,
      unsent_feed hp, hf, hone, List.length_cons, and_true]
    omega
  · have hconsume : w.consume .expired = w.worker := rfl
    have hzero := toHear_expired hp w.clock
    have hone : w.dispatcher.phase.toHear = 1 := by
      rw [hp]
      rfl
    simp only [burden, claimed, World.take, hconsume, Dispatcher.step, hunsent, unsent_feed hp,
      hone, and_true]
    omega

/-! ## Waiting alone -/

/-- A worker stays connected, its queue holds no more than it can, and the run was not given up but
for silence. -/
structure Attended (d₀ : Dispatcher) (plan : List Located) (w : World) : Prop where
  connected : ∃ heard, Connected d₀ plan w heard
  fits : ∀ n, w.capacity = some n → w.worker.requests.length ≤ n
  faults : ∀ fault, w.dispatcher.phase = .ended (.aborted fault) →
    d₀.settings.continueOnTimeout = false ∧ ∃ batch path lacking total window,
      fault = .batchTimeout batch path lacking total window

theorem attended_opening (hq : d₀.pending.Quiet) (now : Nat) (root : Suite)
    (capacity : Option Nat) : Attended d₀ (root.preorder "") (opening d₀ now root capacity) where
  connected := ⟨[], connected_opening hq now root capacity⟩
  fits n _ := Nat.zero_le n
  faults fault hfault := by cases settle_aborted hfault

theorem Attended.take {i : Input} (h : Attended d₀ plan w) (ho : w.offer = some i) :
    Attended d₀ plan (w.take i) := by
  obtain ⟨heard, hconnected⟩ := h.connected
  refine ⟨⟨_, hconnected.take i⟩, fun n hn => ?_, fun fault hfault => ?_⟩
  · obtain ⟨b, frame, hp, hroom, rfl⟩ | ⟨b, hp, ⟨f, frames, hf, rfl⟩ | ⟨hf, -, rfl⟩⟩ :=
      hconnected.offer_cases ho
    · have hlt := hasRoom_iff.mp hroom n hn
      simp only [World.take, consume_accepted hp, List.length_append, List.length_singleton]
      omega
    · exact h.fits n hn
    · exact h.fits n hn
  · obtain ⟨done, hb, -⟩ := hconnected.ledger.course
    rcases fatal_of_step hfault with hended | ⟨b, hfatal⟩
    · simp [offer, hended] at ho
    · obtain ⟨⟨frame, hp⟩, rfl, -⟩ | ⟨hp, rfl, -⟩ | ⟨-, -, hstop, hbatch⟩ := fatal_cases hfatal
      · have hnever := hconnected.offer_cases ho
        simp at hnever
      · have hnever := hconnected.offer_cases ho
        simp at hnever
      · exact ⟨hb.settings ▸ hstop, _, _, _, _, _, hbatch⟩

theorem Attended.does? {e : Deed} (h : Attended d₀ plan w) (hd : w.does? e = some w')
    (hsending : e ≠ .stopsSending) (hreceiving : e ≠ .stopsReceiving) : Attended d₀ plan w' := by
  by_cases he : ∃ i, e = .takes i
  · obtain ⟨i, rfl⟩ := he
    obtain ⟨ho, rfl⟩ := does?_takes hd
    exact h.take ho
  · have hne : ∀ i, e ≠ .takes i := fun i hi => he ⟨i, hi⟩
    obtain ⟨heard, hconnected⟩ := h.connected
    have hconnected' := hconnected.other hd hne hsending hreceiving
    obtain ⟨worker, rfl, -, -, -, hrequests⟩ := does?_other hne hd
    exact ⟨⟨heard, hconnected'⟩, fun n hn => Nat.le_trans hrequests (h.fits n hn), h.faults⟩

/-- Neither the clock nor a wider queue matters. -/
theorem Attended.of_same {u : World} (h : Attended d₀ plan w)
    (hdispatcher : u.dispatcher = w.dispatcher) (hworker : u.worker = w.worker)
    (hcapacity : ∀ n, u.capacity = some n → w.capacity = some n) : Attended d₀ plan u := by
  obtain ⟨⟨heard, hconnected⟩, hfits, hfaults⟩ := h
  refine ⟨⟨heard, ?_⟩, fun n hn => hworker ▸ hfits n (hcapacity n hn), hdispatcher ▸ hfaults⟩
  exact ⟨hdispatcher ▸ hconnected.ledger, hdispatcher ▸ hconnected.waits,
    hworker ▸ hconnected.takes, hworker ▸ hconnected.sends⟩

/-- Who awaits results finds something at the deadline at the latest. -/
theorem not_stuck_of_awaiting {b : Batch} (hp : w.dispatcher.phase = .awaiting b) : ¬ w.Stuck := by
  rintro ⟨-, hnever⟩
  have hnone := hnever (max w.clock b.watchdog.deadline) (Nat.le_max_left _ _)
  obtain ⟨-, -, hlt⟩ := of_offer_eq_none
    (w := { w with clock := max w.clock b.watchdog.deadline }) hp hnone
  exact absurd hlt (Nat.not_lt_of_le (Nat.le_max_right w.clock b.watchdog.deadline))

/-- Time makes no room. -/
theorem stuck_of_sending {b : Batch} {frame : String} (hp : w.dispatcher.phase = .sending b frame)
    (ho : w.offer = none) : w.Stuck := by
  refine ⟨by simp [ending?, hp], fun now _ => ?_⟩
  rw [← ho]
  simp only [offer, hp]
  rfl

theorem Attended.waits (h : Attended d₀ plan w) : w.dispatcher.isReady = false := by
  obtain ⟨heard, hconnected⟩ := h.connected
  exact hconnected.waits

/-- A dispatcher that has a place for what it sends always has something to wait for. -/
theorem HasPlaces.not_stuck (hplaces : w.HasPlaces) (hwaits : w.dispatcher.isReady = false) :
    ¬ w.Stuck := by
  intro hstuck
  obtain ⟨b, frame, hp⟩ | ⟨b, hp⟩ := phase_cases hwaits hstuck.1
  · have hroom : w.hasRoom = true := by
      refine hasRoom_iff.mpr fun n hn => ?_
      have hle := hplaces n hn
      simp only [claimed, unsent, hp, Phase.toSend] at hle
      omega
    have hnone := hstuck.2 w.clock (Nat.le_refl _)
    cases htakes : w.worker.takes <;> simp [offer, hp, htakes, hroom] at hnone
  · exact not_stuck_of_awaiting hp hstuck

/-- What the dispatcher does alone. -/
structure Alone (w : World) (deeds : List Deed) (w' : World) : Prop where
  replay : w.replay? deeds = some w'
  own : ∀ e ∈ deeds, e.isOwn = true

theorem Alone.trans {u : World} {front back : List Deed} (h : Alone w front u)
    (h' : Alone u back w') : Alone w (front ++ back) w' := by
  refine ⟨?_, fun e he => ?_⟩
  · rw [replay?_append, h.replay]
    exact h'.replay
  · rcases List.mem_append.mp he with he | he
    · exact h.own e he
    · exact h'.own e he

/-- Alone, the dispatcher takes what it finds or waits where it finds nothing. -/
theorem Alone.cases_first {e : Deed} {deeds : List Deed} (h : Alone w (e :: deeds) w') :
    (∃ i, e = .takes i ∧ w.offer = some i ∧ Alone (w.take i) deeds w') ∨
    ∃ ms, e = .waits ms ∧ w.offer = none ∧ (∀ deadline ∈ w.deadline?, w.clock + ms ≤ deadline) ∧
      Alone { w with clock := w.clock + ms } deeds w' := by
  obtain ⟨u, hu, hrest⟩ := replay?_cons h.replay
  obtain ⟨hfirst, hown⟩ := List.forall_mem_cons.mp h.own
  cases e with
  | takes i =>
    obtain ⟨ho, rfl⟩ := does?_takes hu
    exact .inl ⟨i, rfl, ho, hrest, hown⟩
  | waits ms =>
    obtain ⟨ho, hdeadline, rfl⟩ := does?_waits hu
    exact .inr ⟨ms, rfl, ho, hdeadline, hrest, hown⟩
  | receives | sends | stopsSending | stopsReceiving => cases hfirst

theorem Alone.take {i : Input} {deeds : List Deed} (ho : w.offer = some i)
    (h : Alone (w.take i) deeds w') : Alone w (.takes i :: deeds) w' := by
  refine ⟨?_, List.forall_mem_cons.mpr ⟨rfl, h.own⟩⟩
  rw [replay?, World.does?, if_pos ho]
  exact h.replay

theorem Alone.wait {ms : Nat} {deeds : List Deed} (ho : w.offer = none)
    (hdeadline : ∀ deadline ∈ w.deadline?, w.clock + ms ≤ deadline)
    (h : Alone { w with clock := w.clock + ms } deeds w') : Alone w (.waits ms :: deeds) w' := by
  refine ⟨?_, List.forall_mem_cons.mpr ⟨rfl, h.own⟩⟩
  rw [replay?, World.does?, if_pos ⟨ho, hdeadline⟩]
  exact h.replay

theorem Alone.refl (w : World) : Alone w [] w := ⟨rfl, by simp⟩

/-- Goes backwards over what the dispatcher does alone. -/
theorem Alone.induction {P : World → Prop} {deeds : List Deed} (h : Alone w deeds w') (rest : P w')
    (take : ∀ u i, u.offer = some i → P (u.take i) → P u)
    (wait : ∀ u ms, P { u with clock := u.clock + ms } → P u) : P w := by
  induction deeds generalizing w with
  | nil =>
    obtain rfl := Option.some.inj h.replay
    exact rest
  | cons e deeds ih =>
    obtain ⟨i, -, ho, hback⟩ | ⟨ms, -, -, -, hback⟩ := h.cases_first
    · exact take w i ho (ih hback)
    · exact wait w ms (ih hback)

/-- What is lost for the end is won by the inputs, and the outbound queue fills as foreseen. -/
theorem Attended.alone {deeds : List Deed} (h : Attended d₀ plan w) (ha : Alone w deeds w') :
    Attended d₀ plan w' ∧ w'.claimed = w.claimed ∧ w'.capacity = w.capacity ∧
      deeds.countP Deed.isTaking + w'.burden ≤ w.burden := by
  induction deeds generalizing w with
  | nil =>
    obtain rfl := Option.some.inj ha.replay
    exact ⟨h, rfl, rfl, by simp⟩
  | cons e deeds ih =>
    obtain ⟨i, rfl, ho, hrest⟩ | ⟨ms, rfl, -, -, hrest⟩ := ha.cases_first
    · obtain ⟨heard, hconnected⟩ := h.connected
      obtain ⟨hless, hsame⟩ := hconnected.take_burden ho
      obtain ⟨hattended, hclaimed, hcapacity, hburden⟩ := ih (h.take ho) hrest
      refine ⟨hattended, hclaimed.trans hsame, hcapacity, ?_⟩
      rw [List.countP_cons_of_pos rfl]
      omega
    · have hlater := h.of_same (u := { w with clock := w.clock + ms }) rfl rfl fun _ hn => hn
      obtain ⟨hattended, hclaimed, hcapacity, hburden⟩ := ih hlater hrest
      refine ⟨hattended, hclaimed, hcapacity, ?_⟩
      rw [List.countP_cons_of_neg (by simp [Deed.isTaking])]
      exact hburden

/-! ## Coming to rest -/

/-- The run is over, or waits for ever. -/
def AtRest (w : World) : Prop := w.dispatcher.ending? ≠ none ∨ w.Stuck

theorem AtRest.offer_eq_none (h : w.AtRest) : w.offer = none := by
  rcases h with hended | ⟨-, hnever⟩
  · obtain ⟨e, he⟩ := Option.ne_none_iff_exists'.mp hended
    simp [offer, phase_of_ending? he]
  · exact hnever w.clock (Nat.le_refl _)

theorem AtRest.later (h : w.AtRest) (ms : Nat) :
    ({ w with clock := w.clock + ms } : World).AtRest := by
  rcases h with hended | ⟨hending, hnever⟩
  · exact .inl hended
  · exact .inr ⟨hending, fun now hnow => hnever now (Nat.le_trans (Nat.le_add_right _ _) hnow)⟩

/-- What is at rest stays as it is. -/
theorem AtRest.alone {deeds : List Deed} (h : w.AtRest) (ha : Alone w deeds w') :
    w'.dispatcher = w.dispatcher ∧ w'.worker = w.worker := by
  refine ha.induction (P := fun u => u.AtRest → w'.dispatcher = u.dispatcher ∧
    w'.worker = u.worker) (fun _ => ⟨rfl, rfl⟩) (fun u i ho _ hu => ?_) (fun u ms ih hu => ?_) h
  · simp [hu.offer_eq_none] at ho
  · exact ih (hu.later ms)

/-- What is found is taken at once. -/
theorem Alone.through_take {i : Input} {deeds : List Deed} (ha : Alone w deeds w')
    (ho : w.offer = some i) (hrest : w'.AtRest) : ∃ back, Alone (w.take i) back w' := by
  cases deeds with
  | nil =>
    obtain rfl := Option.some.inj ha.replay
    simp [hrest.offer_eq_none] at ho
  | cons e deeds =>
    obtain ⟨j, -, hj, hback⟩ | ⟨ms, -, hnone, -⟩ := ha.cases_first
    · obtain rfl : i = j := Option.some.inj (ho.symm.trans hj)
      exact ⟨deeds, hback⟩
    · simp [hnone] at ho

/-- Who awaits results and finds nothing waits until the deadline, at once or bit by bit. -/
theorem Alone.through_deadline {b : Batch} {deeds : List Deed} (ha : Alone w deeds w')
    (hp : w.dispatcher.phase = .awaiting b) (ho : w.offer = none) (hrest : w'.AtRest) :
    ∃ back, Alone { w with clock := b.watchdog.deadline } back w' := by
  induction deeds generalizing w with
  | nil =>
    obtain rfl := Option.some.inj ha.replay
    rcases hrest with hended | hstuck
    · simp [ending?, hp] at hended
    · exact absurd hstuck (not_stuck_of_awaiting hp)
  | cons e deeds ih =>
    obtain ⟨i, -, hi, -⟩ | ⟨ms, -, -, hdeadline, hback⟩ := ha.cases_first
    · simp [ho] at hi
    · have hle : w.clock + ms ≤ b.watchdog.deadline := hdeadline _ (by simp [deadline?, hp])
      cases hu : ({ w with clock := w.clock + ms } : World).offer with
      | none =>
        have hlater := ih hback hp hu
        exact hlater
      | some i =>
        obtain ⟨hframes, hsends, -⟩ := of_offer_eq_none hp ho
        have hdue : b.watchdog.deadline ≤ w.clock + ms := by
          simp only [offer, hp, hframes, hsends, Watchdog.expired] at hu
          by_contra hlt
          simp [hlt] at hu
        rw [Nat.le_antisymm hle hdue] at hback
        exact ⟨deeds, hback⟩

theorem offer_of_sending {b : Batch} {frame : String} (hp : w.dispatcher.phase = .sending b frame)
    (htakes : w.worker.takes = true) :
    w.offer = if w.hasRoom = true then some .accepted else none := by
  simp [offer, hp, htakes]

private theorem offer_at_deadline {b : Batch} (hp : w.dispatcher.phase = .awaiting b)
    (ho : w.offer = none) :
    ({ w with clock := b.watchdog.deadline } : World).offer = some .expired := by
  obtain ⟨hframes, hsends, -⟩ := of_offer_eq_none hp ho
  simp [offer, hp, hframes, hsends, Watchdog.expired]

/-- A dispatcher that is not at rest can go on alone, and in one way only. -/
theorem Attended.exists_next (h : Attended d₀ plan w) (hgoing : ¬ w.AtRest) :
    ∃ front u, Alone w front u ∧ u.burden < w.burden ∧
      ∀ deeds w', Alone w deeds w' → w'.AtRest → ∃ back, Alone u back w' := by
  obtain ⟨heard, hconnected⟩ := h.connected
  cases ho : w.offer with
  | some i =>
    exact ⟨[.takes i], w.take i, (Alone.refl _).take ho, (hconnected.take_burden ho).1,
      fun deeds w' ha hrest => ha.through_take ho hrest⟩
  | none =>
    have hending : w.dispatcher.ending? = none := by
      by_contra hended
      exact hgoing (.inl hended)
    obtain ⟨b, frame, hp⟩ | ⟨b, hp⟩ := phase_cases h.waits hending
    · exact absurd (.inr (stuck_of_sending hp ho)) hgoing
    · have hexpired := offer_at_deadline hp ho
      have hlt := (of_offer_eq_none hp ho).2.2
      obtain ⟨_, hconnected'⟩ := (h.of_same (u := { w with clock := b.watchdog.deadline })
        rfl rfl fun _ hn => hn).connected
      have hfront := (Alone.refl _).take hexpired
      have hclock : w.clock + (b.watchdog.deadline - w.clock) = b.watchdog.deadline := by omega
      refine ⟨[.waits (b.watchdog.deadline - w.clock), .takes .expired], _,
        .wait ho (by simp [deadline?, hp, hclock]) ?_, (hconnected'.take_burden hexpired).1, ?_⟩
      · rw [hclock]
        exact hfront
      · intro deeds w' ha hrest
        obtain ⟨back, hback⟩ := ha.through_deadline hp ho hrest
        exact hback.through_take hexpired hrest

/-- Left alone, a dispatcher comes to its end or gets stuck. -/
theorem Attended.exists_rest (h : Attended d₀ plan w) : ∃ deeds u, Alone w deeds u ∧ u.AtRest := by
  induction hn : w.burden using Nat.strongRecOn generalizing w with
  | ind n ih =>
    by_cases hrest : w.AtRest
    · exact ⟨[], w, .refl w, hrest⟩
    · obtain ⟨front, u, hfront, hless, -⟩ := h.exists_next hrest
      obtain ⟨hu, -⟩ := h.alone hfront
      obtain ⟨back, v, hback, hv⟩ := ih u.burden (hn ▸ hless) hu rfl
      exact ⟨front ++ back, v, hfront.trans hback, hv⟩

/-- However it waits, a dispatcher that is left alone comes to the same rest. -/
theorem Attended.rest_unique {u v : World} {deeds deeds' : List Deed} (h : Attended d₀ plan w)
    (ha : Alone w deeds u) (hu : u.AtRest) (ha' : Alone w deeds' v) (hv : v.AtRest) :
    u.dispatcher = v.dispatcher ∧ u.worker = v.worker := by
  induction hn : w.burden using Nat.strongRecOn generalizing w deeds deeds' with
  | ind n ih =>
    by_cases hrest : w.AtRest
    · obtain ⟨hdispatcher, hworker⟩ := hrest.alone ha
      obtain ⟨hdispatcher', hworker'⟩ := hrest.alone ha'
      exact ⟨hdispatcher.trans hdispatcher'.symm, hworker.trans hworker'.symm⟩
    · obtain ⟨front, next, hfront, hless, hthrough⟩ := h.exists_next hrest
      obtain ⟨back, hback⟩ := hthrough _ u ha hu
      obtain ⟨back', hback'⟩ := hthrough _ v ha' hv
      exact ih next.burden (hn ▸ hless) (h.alone hfront).1 hback hback' rfl

/-! ## Places -/

/-- The same, but with a queue that is never full. -/
def unbounded (w : World) : World := { w with capacity := none }

/-- If there were always room, the dispatcher would come to its end with so many more requests. -/
def Asks (w : World) (k : Nat) : Prop :=
  ∃ deeds u, Alone w.unbounded deeds u ∧ u.dispatcher.ending? ≠ none ∧
    u.worker.requests.length = w.worker.requests.length + k

/-- A bound on the queue shows only where a request finds no room. -/
theorem offer_unbounded (h : ∀ b frame, w.dispatcher.phase = .sending b frame →
    w.worker.takes = true → w.hasRoom = true) : w.unbounded.offer = w.offer := by
  cases hp : w.dispatcher.phase with
  | sending b frame =>
    cases htakes : w.worker.takes with
    | true =>
      rw [offer_of_sending hp htakes, if_pos (h b frame hp htakes)]
      exact offer_of_sending (w := w.unbounded) hp htakes
    | false => simp [offer, unbounded, hp, htakes]
  | awaiting b =>
    simp only [offer, unbounded, hp]
    rfl
  | ready | ended e => simp only [offer, unbounded, hp]

private theorem requests_consume_le (w : World) (i : Input) :
    w.worker.requests.length ≤ (w.consume i).requests.length := by
  unfold consume
  split <;> simp

theorem Alone.requests_le {deeds : List Deed} (h : Alone w deeds w') :
    w.worker.requests.length ≤ w'.worker.requests.length := by
  refine h.induction (P := fun u => u.worker.requests.length ≤ w'.worker.requests.length)
    (Nat.le_refl _) (fun u i _ hu => ?_) (fun u ms hu => hu)
  exact Nat.le_trans (u.requests_consume_le i) hu

/-- A run that ends has found room all the way, so it does not need the bound. -/
theorem Alone.unbounded {deeds : List Deed} (h : Alone w deeds w')
    (hended : w'.dispatcher.ending? ≠ none) : Alone w.unbounded deeds w'.unbounded := by
  induction deeds generalizing w with
  | nil =>
    obtain rfl := Option.some.inj h.replay
    exact .refl _
  | cons e deeds ih =>
    obtain ⟨i, rfl, ho, hrest⟩ | ⟨ms, rfl, ho, hdeadline, hrest⟩ := h.cases_first
    · have hsame : w.unbounded.offer = w.offer := by
        refine offer_unbounded fun b frame hp htakes => ?_
        by_contra hfull
        simp [offer_of_sending hp htakes, hfull] at ho
      exact .take (hsame.trans ho) (ih hrest)
    · have hsame : w.unbounded.offer = w.offer := by
        refine offer_unbounded fun b frame hp htakes => ?_
        have hstuck : w.AtRest := .inr (stuck_of_sending hp ho)
        rw [(hstuck.alone h).1] at hended
        simp [ending?, hp] at hended
      exact .wait (hsame.trans ho) hdeadline (ih hrest)

/-- What a dispatcher does on an unbounded queue it can do on one with places for its requests. -/
theorem Alone.bounded {u : World} {deeds : List Deed} (h : Alone w.unbounded deeds u)
    (hfits : ∀ n, w.capacity = some n → u.worker.requests.length ≤ n) :
    ∃ w', Alone w deeds w' ∧ w'.dispatcher = u.dispatcher ∧ w'.worker = u.worker := by
  induction deeds generalizing w with
  | nil =>
    obtain rfl := Option.some.inj h.replay
    exact ⟨w, .refl w, rfl, rfl⟩
  | cons e deeds ih =>
    obtain ⟨i, rfl, ho, hrest⟩ | ⟨ms, rfl, ho, hdeadline, hrest⟩ := h.cases_first
    · have hsame : w.unbounded.offer = w.offer := by
        refine offer_unbounded fun b frame hp htakes => ?_
        obtain rfl : i = .accepted :=
          Option.some.inj (ho.symm.trans (offer_of_sending (w := w.unbounded) hp htakes))
        have hle := hrest.requests_le
        simp only [World.take, consume_accepted (w := w.unbounded) hp, List.length_append] at hle
        exact hasRoom_iff.mpr fun n hn => Nat.lt_of_lt_of_le (Nat.lt_of_succ_le hle) (hfits n hn)
      obtain ⟨w', hw', hu⟩ := ih (w := w.take i) hrest hfits
      exact ⟨w', .take (hsame.symm.trans ho) hw', hu⟩
    · have hsame : w.unbounded.offer = w.offer := by
        refine offer_unbounded fun b frame hp htakes => ?_
        cases ho.symm.trans (offer_of_sending (w := w.unbounded) hp htakes)
      obtain ⟨w', hw', hu⟩ := ih (w := { w with clock := w.clock + ms }) hrest hfits
      exact ⟨w', .wait (hsame.symm.trans ho) hdeadline hw', hu⟩

theorem Attended.unbounded (h : Attended d₀ plan w) : Attended d₀ plan w.unbounded :=
  h.of_same rfl rfl (by simp [World.unbounded])

theorem Attended.exists_asks (h : Attended d₀ plan w) : ∃ k, w.Asks k := by
  obtain ⟨deeds, u, ha, hended | hstuck⟩ := h.unbounded.exists_rest
  · obtain ⟨k, hk⟩ := Nat.exists_eq_add_of_le ha.requests_le
    exact ⟨k, deeds, u, ha, hended, hk⟩
  · obtain ⟨hu, -, hcapacity, -⟩ := h.unbounded.alone ha
    have hplaces : u.HasPlaces := by simp [HasPlaces, hcapacity, World.unbounded]
    exact absurd hstuck (hplaces.not_stuck hu.waits)

/-- A dispatcher that is left alone ends exactly if all requests that it comes to have a place. -/
theorem Attended.ends_iff {k : Nat} (h : Attended d₀ plan w) (hk : w.Asks k) :
    (∃ deeds w', Alone w deeds w' ∧ w'.dispatcher.ending? ≠ none) ↔ w.HasPlacesFor k := by
  obtain ⟨free, u, hfree, hended, hrequests⟩ := hk
  constructor
  · rintro ⟨deeds, w', ha, hended'⟩ n hn
    obtain ⟨hw', -, hcapacity, -⟩ := h.alone ha
    obtain ⟨-, hworker⟩ := h.unbounded.rest_unique hfree (.inl hended) (ha.unbounded hended')
      (.inl hended')
    have hfits := hw'.fits n (hcapacity.trans hn)
    rw [← hrequests, hworker]
    exact hfits
  · intro hplaces
    obtain ⟨w', ha, hdispatcher, -⟩ := hfree.bounded fun n hn => hrequests ▸ hplaces n hn
    exact ⟨free, w', ha, hdispatcher ▸ hended⟩

theorem Attended.stuck_iff {k : Nat} (h : Attended d₀ plan w) (hk : w.Asks k) :
    (∃ deeds w', Alone w deeds w' ∧ w'.Stuck) ↔ ¬ w.HasPlacesFor k := by
  rw [← h.ends_iff hk]
  constructor
  · rintro ⟨deeds, u, ha, hstuck⟩ ⟨deeds', v, ha', hended⟩
    have hsame := (h.rest_unique ha (.inr hstuck) ha' (.inl hended)).1
    exact hended (hsame ▸ hstuck.1)
  · intro hnever
    obtain ⟨deeds, u, ha, hended | hstuck⟩ := h.exists_rest
    · exact absurd ⟨deeds, u, ha, hended⟩ hnever
    · exact ⟨deeds, u, ha, hstuck⟩

/-- A run that goes on after silence ends when no request is left. -/
theorem Attended.unsent_of_ended (h : Attended d₀ plan w)
    (hgo : d₀.settings.continueOnTimeout = true) (hending : w.dispatcher.ending? ≠ none) :
    w.dispatcher.unsent = 0 := by
  obtain ⟨heard, hconnected⟩ := h.connected
  obtain ⟨e, he⟩ := Option.ne_none_iff_exists'.mp hending
  have hphase := phase_of_ending? he
  obtain rfl | ⟨fault, rfl⟩ := hconnected.ledger.course.ending_cases he
  · have htodo := hconnected.ledger.ended hphase
    simp [unsent, htodo, hphase, upcoming, batches, Phase.toSend]
  · have hstop := (h.faults fault hphase).1
    rw [hgo] at hstop
    cases hstop

/-- If the run goes on after silence, it comes to all requests. -/
theorem Attended.asks_all {k : Nat} (h : Attended d₀ plan w)
    (hgo : d₀.settings.continueOnTimeout = true) (hk : w.Asks k) : k = w.dispatcher.unsent := by
  obtain ⟨deeds, u, ha, hended, hrequests⟩ := hk
  obtain ⟨hu, hclaimed, -, -⟩ := h.unbounded.alone ha
  have hunsent := hu.unsent_of_ended hgo hended
  simp only [claimed, World.unbounded, hunsent, hrequests] at hclaimed
  omega

private theorem Attended.take_silent {i : Input} (h : Attended d₀ plan w)
    (hstop : d₀.settings.continueOnTimeout = false) (hframes : w.worker.frames = [])
    (ho : w.offer = some i) : (w.take i).worker.frames = [] ∧
      (w.take i).worker.requests.length + (w.take i).dispatcher.phase.toSend =
        w.worker.requests.length + w.dispatcher.phase.toSend := by
  obtain ⟨heard, hconnected⟩ := h.connected
  obtain ⟨b, frame, hp, -, rfl⟩ | ⟨b, hp, ⟨f, frames, hf, -⟩ | ⟨-, -, rfl⟩⟩ :=
    hconnected.offer_cases ho
  · have hstep : w.dispatcher.step w.clock .accepted =
        { w.dispatcher with sent := w.dispatcher.sent ++ [frame], phase := .awaiting b } := by
      rw [Dispatcher.step, feed_accepted hp]
      exact settleFor_of_not_ready rfl _ _
    simp [World.take, consume_accepted hp, hframes, hstep, hp, Phase.toSend]
  · simp [hframes] at hf
  · obtain ⟨done, hb, -⟩ := hconnected.ledger.course
    have hsettings : w.dispatcher.settings.continueOnTimeout = false := hb.settings ▸ hstop
    have hstep : (w.dispatcher.step w.clock .expired).phase.toSend = 0 := by
      simp only [Dispatcher.step, Dispatcher.feed, hp, timeOut, hsettings]
      rw [Dispatcher.settle, settleFor_of_not_ready rfl]
      rfl
    refine ⟨hframes, ?_⟩
    simp only [World.take, hstep, hp]
    rfl

/-- Where silence ends the run and no frame is left, no request is queued but the next. -/
theorem Attended.alone_silent {deeds : List Deed} (h : Attended d₀ plan w)
    (hstop : d₀.settings.continueOnTimeout = false) (hframes : w.worker.frames = [])
    (ha : Alone w deeds w') : w'.worker.requests.length + w'.dispatcher.phase.toSend =
      w.worker.requests.length + w.dispatcher.phase.toSend := by
  refine ha.induction (P := fun u => Attended d₀ plan u → u.worker.frames = [] →
    w'.worker.requests.length + w'.dispatcher.phase.toSend =
      u.worker.requests.length + u.dispatcher.phase.toSend) (fun _ _ => rfl)
    (fun u i ho ih hu hnone => ?_) (fun u ms ih hu hnone => ?_) h hframes
  · obtain ⟨hnone', hsame⟩ := hu.take_silent hstop hnone ho
    exact (ih (hu.take ho) hnone').trans hsame
  · exact ih (hu.of_same rfl rfl fun _ hn => hn) hnone

/-- Where silence ends the run, it needs a place for the next request only. -/
theorem Attended.asks_next {k : Nat} (h : Attended d₀ plan w)
    (hstop : d₀.settings.continueOnTimeout = false) (hframes : w.worker.frames = [])
    (hk : w.Asks k) : k = w.dispatcher.phase.toSend := by
  obtain ⟨deeds, u, ha, hended, hrequests⟩ := hk
  obtain ⟨e, he⟩ := Option.ne_none_iff_exists'.mp hended
  have hsame := h.unbounded.alone_silent hstop hframes ha
  simp only [phase_of_ending? he, Phase.toSend, hrequests, World.unbounded] at hsame
  exact Nat.add_left_cancel hsame

theorem Attended.hasPlaces_alone {deeds : List Deed} (h : Attended d₀ plan w)
    (ha : Alone w deeds w') : w'.HasPlaces ↔ w.HasPlaces := by
  obtain ⟨-, hclaimed, hcapacity, -⟩ := h.alone ha
  rw [HasPlaces, HasPlaces, hclaimed, hcapacity]

/-- Without places for all requests, a run that goes on after silence gets stuck. -/
theorem Attended.exists_stuck (h : Attended d₀ plan w)
    (hgo : d₀.settings.continueOnTimeout = true) (hplaces : ¬ w.HasPlaces) :
    ∃ deeds u, Alone w deeds u ∧ u.Stuck := by
  obtain ⟨k, hk⟩ := h.exists_asks
  obtain rfl := h.asks_all hgo hk
  exact (h.stuck_iff hk).mpr hplaces

theorem claimed_opening (hq : d₀.pending.Quiet) (now : Nat) (root : Suite)
    (capacity : Option Nat) :
    (opening d₀ now root capacity).claimed = (batches d₀.cwd (root.preorder "")).length := by
  have hunsent := ((ledger_start hq root).unsent_settle now).1
  simp only [claimed, opening, hunsent]
  simp [unsent, start, upcoming, Phase.toSend]

end World

end SuiteRunner.Dispatch
