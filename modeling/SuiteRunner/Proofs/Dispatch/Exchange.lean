import SuiteRunner.Dispatch.Simulation
import SuiteRunner.Proofs.Dispatch.Ledger

/-! # A dispatcher and any worker

The two act in any order, and meet only in their queues. The worker takes requests and sends frames
when it likes and whatever it likes. The dispatcher takes what it finds, and time passes only while
it finds nothing, so it is never late for a frame or for a deadline. -/
namespace SuiteRunner.Dispatch

open Suite (Located)
open Wire (Verdict)

/-- What one of the two does, or that time passes. -/
inductive Deed where
  | takes (i : Input)
  /-- The worker takes the oldest request. -/
  | receives
  | sends (frame : String)
  /-- The worker sends nothing more, or takes no more requests. -/
  | stopsSending
  | stopsReceiving
  | waits (ms : Nat)
deriving DecidableEq, Repr

/-- The time after a deed. -/
def Deed.ends (now : Nat) : Deed → Nat
  | .waits ms => now + ms
  | _ => now

namespace World

/-- The deed is done if it is possible. -/
def does? (w : World) : Deed → Option World
  | .takes i => if w.offer = some i then some (w.take i) else none
  | .receives =>
    match w.worker.requests with
    | [] => none
    | _ :: requests => some { w with worker := { w.worker with requests } }
  | .sends frame =>
    if w.worker.sends then some { w with worker := w.worker.push [frame] } else none
  | .stopsSending => some { w with worker := { w.worker with sends := false } }
  | .stopsReceiving =>
    some { w with worker := { w.worker with takes := false, requests := [] } }
  | .waits ms =>
    if w.offer = none ∧ ∀ deadline ∈ w.deadline?, w.clock + ms ≤ deadline then
      some { w with clock := w.clock + ms }
    else none

def replay? (w : World) : List Deed → Option World
  | [] => some w
  | e :: deeds => (w.does? e).bind (·.replay? deeds)

/-- A run that has just begun, with a worker that did nothing yet. -/
def opening (d : Dispatcher) (now : Nat) (root : Suite) (capacity : Option Nat) : World where
  clock := now
  worker := { script := [] }
  capacity
  dispatcher := (d.start root).settle now

end World

/-- What the dispatcher takes in, and when. -/
def inputs (now : Nat) : List Deed → List (Nat × Input)
  | [] => []
  | .takes i :: deeds => (now, i) :: inputs now deeds
  | e :: deeds => inputs (e.ends now) deeds

/-- The first answer to a test among some frames. -/
def firstAnswer? (frames : List String) (id index : Nat) : Option Verdict :=
  frames.findSome? fun f => (Input.frame f).answer? id index

theorem firstAnswer?_append (xs ys : List String) (id index : Nat) :
    firstAnswer? (xs ++ ys) id index = (firstAnswer? xs id index).or (firstAnswer? ys id index) := by
  simp [firstAnswer?, List.findSome?_append]

theorem firstAnswer?_singleton (f : String) (id index : Nat) :
    firstAnswer? [f] id index = (Input.frame f).answer? id index := by
  simp [firstAnswer?]

theorem exists_of_firstAnswer? {frames : List String} {id index : Nat} {v : Verdict}
    (h : firstAnswer? frames id index = some v) :
    ∃ f ∈ frames, (Input.frame f).answer? id index = some v := by
  obtain ⟨f, hf, hv⟩ := List.exists_of_findSome?_eq_some h
  exact ⟨f, hf, hv⟩

namespace World

variable {w w' : World}

/-! ## What a deed can do -/

/-- The dispatcher finds something only where it waits for it. -/
theorem offer_cases {i : Input} (h : w.offer = some i) :
    (∃ b frame, w.dispatcher.phase = .sending b frame ∧
      (w.worker.takes = false ∧ i = .refused ∨
        w.worker.takes = true ∧ w.hasRoom = true ∧ i = .accepted)) ∨
    ∃ b, w.dispatcher.phase = .awaiting b ∧
      ((∃ f rest, w.worker.frames = f :: rest ∧ i = .frame f) ∨
        w.worker.frames = [] ∧ w.worker.sends = false ∧ i = .closed ∨
        w.worker.frames = [] ∧ w.worker.sends = true ∧ b.watchdog.deadline ≤ w.clock ∧
          i = .expired) := by
  unfold offer at h
  split at h
  · next b frame hp =>
    refine .inl ⟨b, frame, hp, ?_⟩
    split at h
    · next htakes => exact .inl ⟨by simpa using htakes, (Option.some.inj h).symm⟩
    · next htakes =>
      split at h
      · next hroom => exact .inr ⟨by simpa using htakes, hroom, (Option.some.inj h).symm⟩
      · cases h
  · next b hp =>
    refine .inr ⟨b, hp, ?_⟩
    split at h
    · next f rest hf => exact .inl ⟨f, rest, hf, (Option.some.inj h).symm⟩
    · next hf =>
      split at h
      · next hsends => exact .inr (.inl ⟨hf, by simpa using hsends, (Option.some.inj h).symm⟩)
      · next hsends =>
        split at h
        · next hexp =>
          exact .inr (.inr ⟨hf, by simpa using hsends, by simpa [Watchdog.expired] using hexp,
            (Option.some.inj h).symm⟩)
        · cases h
  · cases h

/-- Where results are awaited and nothing is found, the worker may still send and the deadline is
still to come. -/
theorem of_offer_eq_none {b : Batch} (hp : w.dispatcher.phase = .awaiting b)
    (h : w.offer = none) :
    w.worker.frames = [] ∧ w.worker.sends = true ∧ w.clock < b.watchdog.deadline := by
  unfold offer at h
  rw [hp] at h
  simp only at h
  split at h
  · cases h
  · next hf =>
    split at h
    · cases h
    · next hsends =>
      split at h
      · cases h
      · next hexp => exact ⟨hf, by simpa using hsends, by simpa [Watchdog.expired] using hexp⟩

theorem does?_takes {i : Input} (h : w.does? (.takes i) = some w') :
    w.offer = some i ∧ w' = w.take i := by
  simp only [does?] at h
  split at h
  · next hoffer => exact ⟨hoffer, (Option.some.inj h).symm⟩
  · cases h

theorem does?_receives (h : w.does? .receives = some w') :
    ∃ request requests, w.worker.requests = request :: requests ∧
      w' = { w with worker := { w.worker with requests } } := by
  simp only [does?] at h
  split at h
  · cases h
  · next request requests hr => exact ⟨request, requests, hr, (Option.some.inj h).symm⟩

theorem does?_sends {frame : String} (h : w.does? (.sends frame) = some w') :
    w.worker.sends = true ∧
      w' = { w with worker := { w.worker with frames := w.worker.frames ++ [frame] } } := by
  simp only [does?] at h
  split at h
  · next hsends =>
    refine ⟨hsends, ?_⟩
    rw [← Option.some.inj h, Worker.push, if_pos hsends]
  · cases h

theorem does?_waits {ms : Nat} (h : w.does? (.waits ms) = some w') :
    w.offer = none ∧ (∀ deadline ∈ w.deadline?, w.clock + ms ≤ deadline) ∧
      w' = { w with clock := w.clock + ms } := by
  simp only [does?] at h
  split at h
  · next hfree => exact ⟨hfree.1, hfree.2, (Option.some.inj h).symm⟩
  · cases h

theorem replay?_cons {e : Deed} {deeds : List Deed} (h : w.replay? (e :: deeds) = some w') :
    ∃ u, w.does? e = some u ∧ u.replay? deeds = some w' :=
  Option.bind_eq_some_iff.mp h

theorem replay?_append (w : World) (front back : List Deed) :
    w.replay? (front ++ back) = (w.replay? front).bind (·.replay? back) := by
  induction front generalizing w with
  | nil => rfl
  | cons e front ih =>
    simp only [List.cons_append, replay?]
    cases w.does? e with
    | none => rfl
    | some u => exact ih u

/-- What holds at first and is kept by every deed holds in the end. -/
theorem replay?_induction {P : World → Prop} {deeds : List Deed}
    (step : ∀ u u' e, e ∈ deeds → u.does? e = some u' → P u → P u')
    (h : w.replay? deeds = some w') (start : P w) : P w' := by
  induction deeds generalizing w with
  | nil =>
    obtain rfl := Option.some.inj h
    exact start
  | cons e deeds ih =>
    obtain ⟨u, hu, hrest⟩ := replay?_cons h
    exact ih (fun v v' e' he' => step v v' e' (List.mem_cons_of_mem _ he')) hrest
      (step w u e List.mem_cons_self hu start)

/-- What the worker does, and waiting, concerns only its side and the clock. -/
theorem does?_other {e : Deed} (he : ∀ i, e ≠ .takes i) (h : w.does? e = some w') :
    ∃ worker, w' = { w with clock := e.ends w.clock, worker } ∧
      (e ≠ .stopsSending → worker.sends = w.worker.sends) ∧
      (w.worker.sends = false → worker.sends = false) ∧
      (e ≠ .stopsReceiving → worker.takes = w.worker.takes) ∧
      worker.requests.length ≤ w.worker.requests.length := by
  cases e with
  | takes i => exact absurd rfl (he i)
  | receives =>
    obtain ⟨request, requests, hr, rfl⟩ := does?_receives h
    refine ⟨_, rfl, fun _ => rfl, id, fun _ => rfl, ?_⟩
    rw [hr]
    exact Nat.le_succ _
  | sends frame =>
    obtain ⟨-, rfl⟩ := does?_sends h
    exact ⟨_, rfl, fun _ => rfl, id, fun _ => rfl, Nat.le_refl _⟩
  | stopsSending =>
    obtain rfl := Option.some.inj h
    exact ⟨_, rfl, fun hne => absurd rfl hne, fun _ => rfl, fun _ => rfl, Nat.le_refl _⟩
  | stopsReceiving =>
    obtain rfl := Option.some.inj h
    exact ⟨_, rfl, fun _ => rfl, id, fun hne => absurd rfl hne, Nat.zero_le _⟩
  | waits ms =>
    obtain ⟨-, -, rfl⟩ := does?_waits h
    exact ⟨_, rfl, fun _ => rfl, id, fun _ => rfl, Nat.le_refl _⟩

/-- Only what it takes concerns the dispatcher. -/
theorem does?_dispatcher {e : Deed} (he : ∀ i, e ≠ .takes i) (h : w.does? e = some w') :
    w'.dispatcher = w.dispatcher ∧ w'.clock = e.ends w.clock := by
  obtain ⟨worker, rfl, -⟩ := does?_other he h
  exact ⟨rfl, rfl⟩

private theorem clock_le_of_does? {e : Deed} (h : w.does? e = some w') : w.clock ≤ w'.clock := by
  by_cases he : ∃ i, e = .takes i
  · obtain ⟨i, rfl⟩ := he
    obtain ⟨-, rfl⟩ := does?_takes h
    exact Nat.le_refl _
  · obtain ⟨-, hc⟩ := does?_dispatcher (fun i hi => he ⟨i, hi⟩) h
    rw [hc]
    cases e <;> simp [Deed.ends]

theorem clock_le_of_replay? {deeds : List Deed} (h : w.replay? deeds = some w') :
    w.clock ≤ w'.clock :=
  replay?_induction (P := fun u => w.clock ≤ u.clock)
    (fun _ _ _ _ hu hle => Nat.le_trans hle (clock_le_of_does? hu)) h (Nat.le_refl _)

/-! ## The run that the dispatcher sees -/

private theorem replay?_dispatcher {deeds : List Deed} (h : w.replay? deeds = some w') :
    w'.dispatcher =
      (inputs w.clock deeds).foldl (fun d i => d.step i.1 i.2) w.dispatcher := by
  induction deeds generalizing w with
  | nil =>
    obtain rfl := Option.some.inj h
    rfl
  | cons e deeds ih =>
    obtain ⟨u, hu, hrest⟩ := replay?_cons h
    have hu' := ih hrest
    by_cases he : ∃ i, e = .takes i
    · obtain ⟨i, rfl⟩ := he
      obtain ⟨-, rfl⟩ := does?_takes hu
      exact hu'
    · have hne : ∀ i, e ≠ .takes i := fun i hi => he ⟨i, hi⟩
      obtain ⟨hd, hc⟩ := does?_dispatcher hne hu
      rw [hu', hd, hc, inputs]
      exact fun i => hne i

/-- Whatever order the two act in, the dispatcher does a run. -/
theorem replay?_opening {d : Dispatcher} {now : Nat} {root : Suite} {capacity : Option Nat}
    {deeds : List Deed} (h : (opening d now root capacity).replay? deeds = some w) :
    w.dispatcher = d.run now root (inputs now deeds) :=
  replay?_dispatcher h

/-! ## Workers that stay connected -/

/-- A dispatcher that began with `d₀` has heard `heard`, and its worker has stopped nothing. -/
structure Connected (d₀ : Dispatcher) (plan : List Located) (w : World) (heard : Hearing) :
    Prop where
  ledger : Dispatcher.Ledger d₀ plan w.dispatcher heard
  waits : w.dispatcher.isReady = false
  takes : w.worker.takes = true
  sends : w.worker.sends = true

variable {d₀ : Dispatcher} {plan : List Located} {heard : Hearing}

theorem connected_opening (hq : d₀.pending.Quiet) (now : Nat) (root : Suite)
    (capacity : Option Nat) : Connected d₀ (root.preorder "") (opening d₀ now root capacity) [] where
  ledger := (Dispatcher.ledger_start hq root).settle now
  waits := Dispatcher.isReady_settleFor (Nat.lt_succ_self _) now
  takes := rfl
  sends := rfl

theorem consume_accepted {b : Batch} {frame : String}
    (hp : w.dispatcher.phase = .sending b frame) :
    w.consume .accepted = { w.worker with requests := w.worker.requests ++ [frame] } := by
  simp [consume, hp]

theorem consume_frame {f : String} {frames : List String} (hf : w.worker.frames = f :: frames) :
    w.consume (.frame f) = { w.worker with frames } := by
  simp [consume, hf]

theorem take_worker (w : World) (i : Input) :
    (w.take i).worker.takes = w.worker.takes ∧ (w.take i).worker.sends = w.worker.sends := by
  simp only [World.take, consume]
  split <;> exact ⟨rfl, rfl⟩

theorem Connected.take (h : Connected d₀ plan w heard) (i : Input) :
    Connected d₀ plan (w.take i) (heard ++ w.dispatcher.hears i) := by
  obtain ⟨htakes, hsends⟩ := w.take_worker i
  exact ⟨h.ledger.step w.clock i, Dispatcher.isReady_settleFor (Nat.lt_succ_self _) _,
    htakes.trans h.takes, hsends.trans h.sends⟩

/-- The dispatcher hears nothing of what the worker does. -/
theorem Connected.other {e : Deed} (h : Connected d₀ plan w heard) (hd : w.does? e = some w')
    (he : ∀ i, e ≠ .takes i) (hsending : e ≠ .stopsSending) (hreceiving : e ≠ .stopsReceiving) :
    Connected d₀ plan w' heard := by
  obtain ⟨worker, rfl, hsends, -, htakes, -⟩ := does?_other he hd
  exact ⟨h.ledger, h.waits, (htakes hreceiving).trans h.takes, (hsends hsending).trans h.sends⟩

/-- A worker that stays connected never makes the dispatcher find an end. -/
theorem Connected.offer_cases {i : Input} (h : Connected d₀ plan w heard)
    (ho : w.offer = some i) :
    (∃ b frame, w.dispatcher.phase = .sending b frame ∧ w.hasRoom = true ∧ i = .accepted) ∨
    ∃ b, w.dispatcher.phase = .awaiting b ∧
      ((∃ f rest, w.worker.frames = f :: rest ∧ i = .frame f) ∨
        w.worker.frames = [] ∧ b.watchdog.deadline ≤ w.clock ∧ i = .expired) := by
  obtain ⟨b, frame, hp, ⟨htakes, -⟩ | ⟨-, hroom, rfl⟩⟩ |
      ⟨b, hp, hframe | ⟨-, hsends, -⟩ | ⟨hf, -, hdue, rfl⟩⟩ := World.offer_cases ho
  · simp [h.takes] at htakes
  · exact .inl ⟨b, frame, hp, hroom, rfl⟩
  · exact .inr ⟨b, hp, .inl hframe⟩
  · simp [h.sends] at hsends
  · exact .inr ⟨b, hp, .inr ⟨hf, hdue, rfl⟩⟩

end World

end SuiteRunner.Dispatch
