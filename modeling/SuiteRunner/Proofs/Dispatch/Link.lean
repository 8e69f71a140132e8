import Mathlib.Data.List.Induction
import SuiteRunner.Proofs.Dispatch.Abort
import SuiteRunner.Proofs.Dispatch.Watchdog
import SuiteRunner.Proofs.Transport.Pump

/-! # A worker behind a socket

What the worker sends goes through the reader and its bounded queue before the dispatcher gets it.
Reader, dispatcher and time go on in any order, so each of the two may be late. -/
namespace SuiteRunner.Dispatch

open Suite (Located)
open Transport (Pump Queue SocketFrame)
open Wire (Response)

/-! ## What is received, and by which batch -/

def Input.text? : Input → Option String
  | .frame text => some text
  | _ => none

/-- All texts that were received. -/
def textsOf (past : List (Nat × Input)) : List String := past.filterMap (·.2.text?)

/-- The texts that the batch `id` has heard. -/
def toldTo (heard : Hearing) (id : Nat) : List String :=
  heard.filterMap fun e => if e.1 = id then e.2.text? else none

theorem toldTo_append (heard : Hearing) (id : Nat) (i : Input) :
    toldTo (heard ++ [(id, i)]) id = toldTo heard id ++ i.text?.toList := by
  cases h : i.text? <;> simp [toldTo, h]

private theorem toldTo_append_of_ne {id id' : Nat} (h : id' ≠ id) (heard : Hearing) (i : Input) :
    toldTo (heard ++ [(id', i)]) id = toldTo heard id := by
  simp [toldTo, h]

/-- The results of a batch are those that the texts it has heard bring. -/
theorem verdict?_eq_firstAnswer? (heard : Hearing) (id index : Nat) :
    verdict? heard id index = firstAnswer? (toldTo heard id) id index := by
  induction heard using List.reverseRecOn with
  | nil => rfl
  | append_singleton heard e ih =>
    obtain ⟨id', i⟩ := e
    rw [verdict?_append, ih]
    by_cases h : id' = id
    · subst h
      rw [toldTo_append, firstAnswer?_append, if_pos rfl]
      congr 1
      cases i with
      | frame text => exact (firstAnswer?_singleton text id' index).symm
      | _ => rfl
    · rw [toldTo_append_of_ne h, if_neg h, Option.or_none]

namespace Dispatcher

variable {d₀ d : Dispatcher} {plan : List Located} {heard : Hearing} {b : Batch}

theorem run_concat (d : Dispatcher) (now : Nat) (root : Suite) (inputs : List (Nat × Input))
    (t : Nat) (i : Input) :
    d.run now root (inputs ++ [(t, i)]) = (d.run now root inputs).step t i := by
  simp [run]

theorem heard_concat (d : Dispatcher) (now : Nat) (root : Suite) (inputs : List (Nat × Input))
    (t : Nat) (i : Input) : d.heard now root (inputs ++ [(t, i)]) =
      d.heard now root inputs ++ (d.run now root inputs).hears i := by
  have hhearing (inputs : List (Nat × Input)) (d : Dispatcher) :
      d.hearing (inputs ++ [(t, i)]) =
        d.hearing inputs ++ (inputs.foldl (fun d i => d.step i.1 i.2) d).hears i := by
    induction inputs generalizing d with
    | nil => simp [hearing]
    | cons first inputs ih => simp [hearing, ih]
  exact hhearing inputs _

theorem ledger_run (h : d₀.pending.Quiet) (now : Nat) (root : Suite)
    (inputs : List (Nat × Input)) :
    Ledger d₀ (root.preorder "") (d₀.run now root inputs) (d₀.heard now root inputs) :=
  run_induction (ledger_start h root) (fun _ _ now hr hd => hd.visit hr now)
    (fun _ _ now i hd => hd.feed now i) now inputs

theorem Ledger.results (h : Ledger d₀ plan d heard) (hb : d.inFlight? = some b) :
    d.pending.InFlight b.id b.tickets (verdict? heard b.id) ∧ b.tickets.length = b.size ∧
      b.id < d.nextId := by
  obtain ⟨done, -, hs⟩ := h.course
  obtain ⟨l, tests, hc, hin⟩ := hs.inFlight hb
  exact ⟨hin, hc.tickets, by rw [hc.next]; exact Nat.lt_succ_self _⟩

/-- A batch in flight has a test without a result. -/
theorem Ledger.exists_lacking (h : Ledger d₀ plan d heard) (hb : d.inFlight? = some b) :
    ∃ k < b.size, verdict? heard b.id k = none := by
  obtain ⟨hin, hsize, -⟩ := h.results hb
  by_contra hall
  push Not at hall
  apply h.owing b hb
  rw [hin.outstanding_eq_zero_iff, hsize]
  exact fun k hk => Option.isSome_iff_ne_none.mpr (hall k hk)

/-- A batch that is awaited goes on with every frame until it has all its results, and is over with
the end of the frames or with expiry. -/
theorem Ledger.step_awaiting (h : Ledger d₀ plan d heard) (hp : d.phase = .awaiting b) (now : Nat)
    (i : Input) :
    (∃ b', (d.step now i).phase = .awaiting b' ∧ b'.id = b.id ∧ b'.size = b.size) ∨
    (d.step now i).Past b.id ∧ (i = .closed ∨ i = .expired ∨
      ∀ k < b.size, (verdict? (heard ++ [(b.id, i)]) b.id k).isSome = true) := by
  obtain ⟨hin, hsize, hid⟩ := h.results (show d.inFlight? = some b by simp [inFlight?, hp])
  have hstays (hfeed : d.feed now i = d) :
      ∃ b', (d.step now i).phase = .awaiting b' ∧ b'.id = b.id ∧ b'.size = b.size := by
    refine ⟨b, ?_, rfl, rfl⟩
    rw [Dispatcher.step, hfeed, Dispatcher.settle, settleFor_of_not_ready (by simp [isReady, hp])]
    exact hp
  cases i with
  | accepted => exact .inl (hstays (by simp [Dispatcher.feed, hp]))
  | refused => exact .inl (hstays (by simp [Dispatcher.feed, hp]))
  | closed =>
    refine .inr ⟨past_of_feed hid ?_, .inl rfl⟩
    simp [Dispatcher.feed, hp, giveUp, finish, inFlight?]
  | expired =>
    refine .inr ⟨past_of_feed hid ?_, .inr (.inl rfl)⟩
    simp only [Dispatcher.feed, hp, timeOut]
    split <;> rfl
  | frame text =>
    have hin' := inFlight_handleFrame hin now text
    have hfeed : d.feed now (.frame text) = d.receive now b text := by simp [Dispatcher.feed, hp]
    by_cases h0 : (d.handleFrame now text).pending.outstanding b.id = 0
    · refine .inr ⟨past_of_feed hid ?_, .inr (.inr ?_)⟩
      · rw [hfeed, receive, if_pos h0]
        rfl
      · rw [← hsize]
        exact hin'.outstanding_eq_zero_iff.mp h0
    · left
      refine ⟨{ b with watchdog := b.watchdog.refresh now }, ?_, rfl, rfl⟩
      rw [Dispatcher.step, hfeed, receive, if_neg h0, Dispatcher.settle, settleFor_of_not_ready rfl]

/-- A batch that has heard the end of the frames or expiry is over. -/
theorem past_of_heard (hq : d₀.pending.Quiet) (now : Nat) (root : Suite)
    (inputs : List (Nat × Input)) {id : Nat} {i : Input}
    (h : (id, i) ∈ d₀.heard now root inputs) (hi : i = .closed ∨ i = .expired) :
    (d₀.run now root inputs).Past id := by
  induction inputs using List.reverseRecOn with
  | nil => simp [heard, hearing] at h
  | append_singleton inputs input ih =>
    obtain ⟨t, j⟩ := input
    rw [heard_concat, List.mem_append] at h
    rw [run_concat]
    rcases h with h | h
    · exact (ih h).step t j
    · unfold hears at h
      split at h
      · next b hp =>
        obtain ⟨rfl, rfl⟩ := Prod.mk.inj (List.mem_singleton.mp h)
        have hledger := ledger_run hq now root inputs
        have hb : (d₀.run now root inputs).inFlight? = some b := by simp [inFlight?, hp]
        refine past_of_feed (hledger.results hb).2.2 ?_
        rcases hi with rfl | rfl
        · simp [feed, hp, giveUp, finish, inFlight?]
        · simp only [feed, hp, timeOut]
          split <;> rfl
      · simp at h

/-- A run is given up for a batch only if the batch has heard why. -/
theorem heard_of_aborted (hq : d₀.pending.Quiet) {now : Nat} {root : Suite}
    {inputs : List (Nat × Input)} {fault : RunFault}
    (h : (d₀.run now root inputs).ending? = some (.aborted fault)) :
    (∀ id path, fault = .channelClosed id path → (id, .closed) ∈ d₀.heard now root inputs) ∧
      ∀ id path lacking total window, fault = .batchTimeout id path lacking total window →
        (id, .expired) ∈ d₀.heard now root inputs := by
  obtain ⟨d, heard, i, b, -, hfatal, -, hheard⟩ := exists_fatal hq (phase_of_ending? h)
  rw [hheard]
  obtain ⟨-, -, rfl⟩ | ⟨hp, rfl, rfl⟩ | ⟨hp, rfl, -, rfl⟩ := fatal_cases hfatal
  · simp
  · refine ⟨fun id path heq => ?_, by simp⟩
    cases heq
    simp [hears, hp]
  · refine ⟨by simp, fun id path lacking total window heq => ?_⟩
    cases heq
    simp [hears, hp]

end Dispatcher

/-! ## The link -/

structure Link where
  world : World
  pump : Pump

inductive Turn where
  | reader
  /-- The dispatcher takes what it finds. -/
  | takes (i : Input)
  /-- The worker takes the oldest request, or takes no more. -/
  | receives
  | stopsReceiving
  /-- Time passes, whatever waits. -/
  | passes (ms : Nat)
deriving DecidableEq, Repr

namespace Link

/-- What the dispatcher sees of its worker is the queue. -/
def view (l : Link) : World :=
  { l.world with
    worker := { l.world.worker with
      frames := l.pump.queue.items
      sends := !l.pump.queue.senderGone } }

def take (l : Link) (i : Input) : Link where
  world := l.view.take i
  pump := if i.text?.isSome then l.pump.received else l.pump

def turn? (l : Link) : Turn → Option Link
  | .reader => some { l with pump := l.pump.advance }
  | .takes i => if l.view.offer = some i then some (l.take i) else none
  | .receives => (l.world.does? .receives).map ({ l with world := · })
  | .stopsReceiving => (l.world.does? .stopsReceiving).map ({ l with world := · })
  | .passes ms => some { l with world := { l.world with clock := l.world.clock + ms } }

def replay? (l : Link) : List Turn → Option Link
  | [] => some l
  | t :: turns => (l.turn? t).bind (·.replay? turns)

/-- A run that has just begun. All that the worker will ever send is still on the socket. -/
def opening (d : Dispatcher) (now : Nat) (root : Suite) (room : Option Nat) (capacity : Nat)
    (frames : List SocketFrame) : Link where
  world := .opening d now root room
  pump := .start capacity frames

variable {l l' : Link} {t : Turn} {turns : List Turn} {b : Batch} {i : Input}

/-- While a batch is awaited the dispatcher looks into the queue first, and at the watchdog only if
the queue has nothing yet. -/
theorem offer_awaiting (hp : l.world.dispatcher.phase = .awaiting b) :
    l.view.offer = match l.pump.queue.receive.2 with
      | .item text => some (.frame text)
      | .ended => some .closed
      | .nothingYet => if b.watchdog.expired l.world.clock then some .expired else none := by
  have hview : l.view.dispatcher.phase = .awaiting b := hp
  obtain ⟨text, rest, hitems, heq⟩ | ⟨hitems, hgone, heq⟩ | ⟨hitems, hgone, heq⟩ :=
    l.pump.queue.receive_cases <;> rw [heq, World.offer, hview] <;> simp [view, hitems]
  · simp [hgone]
  · simp [hgone]

/-- What a batch takes that is awaited. -/
theorem receive_of_offer (hp : l.world.dispatcher.phase = .awaiting b)
    (h : l.view.offer = some i) :
    (∃ text, i = .frame text ∧ l.pump.queue.receive.2 = .item text) ∨
    i = .closed ∧ l.pump.queue.receive.2 = .ended ∨
    i = .expired ∧ l.pump.queue.receive.2 = .nothingYet := by
  rw [offer_awaiting hp] at h
  cases hgot : l.pump.queue.receive.2 with
  | item text =>
    rw [hgot] at h
    exact .inl ⟨text, (Option.some.inj h).symm, rfl⟩
  | ended =>
    rw [hgot] at h
    exact .inr (.inl ⟨(Option.some.inj h).symm, rfl⟩)
  | nothingYet =>
    rw [hgot] at h
    simp only at h
    split at h
    · exact .inr (.inr ⟨(Option.some.inj h).symm, rfl⟩)
    · cases h

theorem awaiting_of_offer (h : l.view.offer = some i) (hi : i = .closed ∨ i = .expired) :
    ∃ b, l.world.dispatcher.phase = .awaiting b := by
  obtain ⟨b, frame, -, ⟨-, rfl⟩ | ⟨-, -, rfl⟩⟩ | ⟨b, hp, -⟩ := World.offer_cases h
  · simp at hi
  · simp at hi
  · exact ⟨b, hp⟩

private theorem awaiting_of_deadline {deadline : Nat} (h : l.world.deadline? = some deadline) :
    ∃ b, l.world.dispatcher.phase = .awaiting b := by
  unfold World.deadline? at h
  split at h
  · next b hp => exact ⟨b, hp⟩
  · cases h

/-- The dispatcher takes something, or nothing changes for it but that the reader may go on. -/
theorem turn_cases (h : l.turn? t = some l') :
    (∃ i, t = .takes i ∧ l.view.offer = some i ∧ l' = l.take i) ∨
    l'.world.dispatcher = l.world.dispatcher ∧ l'.world.past = l.world.past ∧
      (l'.pump = l.pump ∨ l'.pump = l.pump.advance) := by
  cases t with
  | reader =>
    obtain rfl := Option.some.inj h
    exact .inr ⟨rfl, rfl, .inr rfl⟩
  | takes i =>
    simp only [turn?] at h
    split at h
    · next hoffer => exact .inl ⟨i, rfl, hoffer, (Option.some.inj h).symm⟩
    · cases h
  | receives =>
    obtain ⟨world, hworld, rfl⟩ := Option.map_eq_some_iff.mp h
    obtain ⟨-, -, -, rfl⟩ := World.does?_receives hworld
    exact .inr ⟨rfl, rfl, .inl rfl⟩
  | stopsReceiving =>
    obtain rfl := Option.some.inj h
    exact .inr ⟨rfl, rfl, .inl rfl⟩
  | passes ms =>
    obtain rfl := Option.some.inj h
    exact .inr ⟨rfl, rfl, .inl rfl⟩

theorem replay?_cons (h : l.replay? (t :: turns) = some l') :
    ∃ u, l.turn? t = some u ∧ u.replay? turns = some l' :=
  Option.bind_eq_some_iff.mp h

/-- What is kept by every turn holds in the end. -/
theorem replay?_induction {P : Link → Prop} (step : ∀ u u' t, u.turn? t = some u' → P u → P u')
    (h : l.replay? turns = some l') (start : P l) : P l' := by
  induction turns generalizing l with
  | nil =>
    obtain rfl := Option.some.inj h
    exact start
  | cons t turns ih =>
    obtain ⟨u, hu, hrest⟩ := replay?_cons h
    exact ih hrest (step l u t hu start)

/-! ## What holds of every link -/

/-- The dispatcher that began with `d₀` does a run, and no text of the worker is lost. -/
structure Reached (d₀ : Dispatcher) (now : Nat) (root : Suite) (frames : List SocketFrame)
    (l : Link) : Prop where
  pump : l.pump.Attended
  run : l.world.dispatcher = d₀.run now root l.world.past
  texts : textsOf l.world.past ++ l.pump.rest = SocketFrame.texts frames

variable {d₀ : Dispatcher} {now : Nat} {root : Suite} {frames : List SocketFrame} {id size : Nat}

private theorem reached_opening (d₀ : Dispatcher) (now : Nat) (root : Suite) (room : Option Nat)
    (capacity : Nat) (frames : List SocketFrame) :
    Reached d₀ now root frames (opening d₀ now root room capacity frames) where
  pump := Pump.attended_start capacity frames
  run := rfl
  texts := Pump.rest_start capacity frames

theorem Reached.take (h : Reached d₀ now root frames l) (hoffer : l.view.offer = some i) :
    Reached d₀ now root frames (l.take i) := by
  have hrun : (l.take i).world.dispatcher = d₀.run now root (l.take i).world.past := by
    have hstep : (l.take i).world.dispatcher = l.world.dispatcher.step l.world.clock i := rfl
    rw [hstep, h.run]
    exact (Dispatcher.run_concat d₀ now root l.world.past l.world.clock i).symm
  have htexts : textsOf (l.take i).world.past = textsOf l.world.past ++ i.text?.toList := by
    have hpast : (l.take i).world.past = l.world.past ++ [(l.world.clock, i)] := rfl
    rw [hpast, textsOf, List.filterMap_append]
    cases hi : i.text? <;> simp [textsOf, hi]
  cases i with
  | frame text =>
    obtain ⟨b, frame, -, ⟨-, hi⟩ | ⟨-, -, hi⟩⟩ | ⟨b, hp, -⟩ := World.offer_cases hoffer
    · cases hi
    · cases hi
    · obtain ⟨text', hi, hgot⟩ | ⟨hi, -⟩ | ⟨hi, -⟩ := receive_of_offer hp hoffer
      · cases hi
        refine ⟨h.pump.received, hrun, ?_⟩
        have hrest := l.pump.rest_received
        rw [hgot] at hrest
        rw [htexts, ← h.texts, ← hrest, List.append_assoc]
        rfl
      · cases hi
      · cases hi
  | accepted => exact ⟨h.pump, hrun, by rw [htexts, ← h.texts, List.append_assoc]; rfl⟩
  | refused => exact ⟨h.pump, hrun, by rw [htexts, ← h.texts, List.append_assoc]; rfl⟩
  | closed => exact ⟨h.pump, hrun, by rw [htexts, ← h.texts, List.append_assoc]; rfl⟩
  | expired => exact ⟨h.pump, hrun, by rw [htexts, ← h.texts, List.append_assoc]; rfl⟩

theorem Reached.turn (h : Reached d₀ now root frames l) (ht : l.turn? t = some l') :
    Reached d₀ now root frames l' := by
  obtain ⟨i, -, hoffer, rfl⟩ | ⟨hdispatcher, hpast, hpump | hpump⟩ := turn_cases ht
  · exact h.take hoffer
  · exact ⟨hpump ▸ h.pump, by rw [hdispatcher, hpast]; exact h.run,
      by rw [hpast, hpump]; exact h.texts⟩
  · exact ⟨hpump ▸ h.pump.advance, by rw [hdispatcher, hpast]; exact h.run,
      by rw [hpast, hpump, Pump.rest_advance h.pump]; exact h.texts⟩

theorem Reached.replay (h : Reached d₀ now root frames l) (hr : l.replay? turns = some l') :
    Reached d₀ now root frames l' :=
  replay?_induction (fun _ _ _ ht hu => hu.turn ht) hr h

theorem Reached.ledger (h : Reached d₀ now root frames l) (hq : d₀.pending.Quiet) :
    Dispatcher.Ledger d₀ (root.preorder "") l.world.dispatcher
      (d₀.heard now root l.world.past) := by
  rw [h.run]
  exact Dispatcher.ledger_run hq now root l.world.past

theorem Reached.heard_take (h : Reached d₀ now root frames l) (i : Input) :
    d₀.heard now root (l.take i).world.past =
      d₀.heard now root l.world.past ++ l.world.dispatcher.hears i := by
  rw [h.run]
  exact Dispatcher.heard_concat d₀ now root l.world.past l.world.clock i

/-! ## A batch that is answered -/

/-- Some of the texts still to be received: they are used from the front, and what is added is added
at the end. -/
structure Supply (part : Pump → List String) : Prop where
  grows : ∀ p : Pump, p.Attended → ∃ more, part p.advance = part p ++ more
  used : ∀ p : Pump, p.queue.receive.2.item?.toList ++ part p.received = part p

private theorem supply_items : Supply (·.queue.items) where
  grows _ h := Pump.items_advance h
  used p := by
    unfold Pump.received
    obtain ⟨a, rest, hitems, heq⟩ | ⟨-, -, heq⟩ | ⟨-, -, heq⟩ := p.queue.receive_cases <;> rw [heq]
    · rw [hitems]
      rfl
    · rfl
    · rfl

private theorem supply_rest : Supply Pump.rest where
  grows _ h := ⟨[], by rw [Pump.rest_advance h, List.append_nil]⟩
  used := Pump.rest_received

/-- The batch `id` is awaited, and what it has heard and what is in supply for it together answer
all its tests. -/
structure Answered (part : Pump → List String) (heard : Hearing) (id size : Nat) (l : Link) :
    Prop where
  batch : ∃ b, l.world.dispatcher.phase = .awaiting b ∧ b.id = id ∧ b.size = size
  answers : ∀ k < size, (firstAnswer? (toldTo heard id ++ part l.pump) id k).isSome = true

variable {part : Pump → List String}

theorem Answered.take (hpart : Supply part)
    (h : Answered part (d₀.heard now root l.world.past) id size l)
    (hr : Reached d₀ now root frames l) (hq : d₀.pending.Quiet) (hoffer : l.view.offer = some i) :
    Answered part (d₀.heard now root (l.take i).world.past) id size (l.take i) ∨
      (l.take i).world.dispatcher.Past id := by
  obtain ⟨b, hp, rfl, rfl⟩ := h.batch
  have hears_eq : l.world.dispatcher.hears i = [(b.id, i)] := by simp [Dispatcher.hears, hp]
  -- The text that is taken moves from the front of the supply to what the batch has heard.
  have hmoved : i.text?.toList ++ part (l.take i).pump = part l.pump := by
    obtain ⟨text, rfl, hgot⟩ | ⟨rfl, -⟩ | ⟨rfl, -⟩ := receive_of_offer hp hoffer
    · have hused := hpart.used l.pump
      rw [hgot] at hused
      exact hused
    · rfl
    · rfl
  rcases (hr.ledger hq).step_awaiting hp l.world.clock i with ⟨b', hp', hid, hsize⟩ | ⟨hpast, -⟩
  · left
    refine ⟨⟨b', hp', hid, hsize⟩, fun k hk => ?_⟩
    rw [hr.heard_take, hears_eq, toldTo_append, List.append_assoc, hmoved]
    exact h.answers k hk
  · exact .inr hpast

theorem Answered.turn (hpart : Supply part)
    (h : Answered part (d₀.heard now root l.world.past) id size l)
    (hr : Reached d₀ now root frames l) (hq : d₀.pending.Quiet) (ht : l.turn? t = some l') :
    Answered part (d₀.heard now root l'.world.past) id size l' ∨ l'.world.dispatcher.Past id := by
  obtain ⟨i, -, hoffer, rfl⟩ | ⟨hdispatcher, hpast, hpump⟩ := turn_cases ht
  · exact h.take hpart hr hq hoffer
  · left
    obtain ⟨more, hmore⟩ : ∃ more, part l'.pump = part l.pump ++ more := by
      rcases hpump with hpump | hpump
      · exact ⟨[], by rw [hpump, List.append_nil]⟩
      · rw [hpump]
        exact hpart.grows l.pump hr.pump
    refine ⟨hdispatcher ▸ h.batch, fun k hk => ?_⟩
    rw [hpast, hmore, ← List.append_assoc, firstAnswer?_append, Option.isSome_or, h.answers k hk]
    rfl

/-- Where the supply is used up, the batch would have all its results and be over. -/
theorem Answered.supply_ne_nil (h : Answered part (d₀.heard now root l.world.past) id size l)
    (hr : Reached d₀ now root frames l) (hq : d₀.pending.Quiet) : part l.pump ≠ [] := by
  intro hnil
  obtain ⟨b, hp, rfl, rfl⟩ := h.batch
  obtain ⟨k, hk, hnone⟩ :=
    (hr.ledger hq).exists_lacking (b := b) (by simp [Dispatcher.inFlight?, hp])
  have hsome := h.answers k hk
  rw [hnil, List.append_nil, ← verdict?_eq_firstAnswer?, hnone] at hsome
  cases hsome

/-- A turn adds to what the batch `id` has heard only what it finds while it is awaited. -/
theorem Reached.mem_heard_turn (hr : Reached d₀ now root frames l) (ht : l.turn? t = some l')
    (h : (id, i) ∈ d₀.heard now root l'.world.past) :
    (id, i) ∈ d₀.heard now root l.world.past ∨
      t = .takes i ∧ l.view.offer = some i ∧
        ∃ b, l.world.dispatcher.phase = .awaiting b ∧ b.id = id := by
  obtain ⟨j, rfl, hoffer, rfl⟩ | ⟨-, hpast, -⟩ := turn_cases ht
  · rw [hr.heard_take, List.mem_append] at h
    rcases h with h | h
    · exact .inl h
    · unfold Dispatcher.hears at h
      split at h
      · next b hp =>
        obtain ⟨rfl, rfl⟩ := Prod.mk.inj (List.mem_singleton.mp h)
        exact .inr ⟨rfl, hoffer, b, hp, rfl⟩
      · simp at h
  · exact .inl (hpast ▸ h)

/-- A batch that is over hears nothing more. -/
theorem mem_heard_of_past (hr : Reached d₀ now root frames l) (hover : l.world.dispatcher.Past id)
    (hreplay : l.replay? turns = some l') (h : (id, i) ∈ d₀.heard now root l'.world.past) :
    (id, i) ∈ d₀.heard now root l.world.past := by
  induction turns generalizing l with
  | nil =>
    obtain rfl := Option.some.inj hreplay
    exact h
  | cons t turns ih =>
    obtain ⟨u, hu, hrest⟩ := replay?_cons hreplay
    have hover' : u.world.dispatcher.Past id := by
      obtain ⟨j, -, -, rfl⟩ | ⟨hdispatcher, -, -⟩ := turn_cases hu
      · exact hover.step l.world.clock j
      · exact hdispatcher ▸ hover
    rcases hr.mem_heard_turn hu (ih (hr.turn hu) hover' hrest) with hmem | ⟨-, -, b, hp, hid⟩
    · exact hmem
    · exact absurd hid (hover.2 b (by simp [Dispatcher.inFlight?, hp]))

/-- A batch with a supply of answers never hears what is found only where the supply is used up. -/
theorem Answered.unheard (hpart : Supply part)
    (h : Answered part (d₀.heard now root l.world.past) id size l)
    (hr : Reached d₀ now root frames l) (hq : d₀.pending.Quiet)
    (hreplay : l.replay? turns = some l')
    (hlast : ∀ front back u, turns = front ++ .takes i :: back → l.replay? front = some u →
      u.view.offer = some i → part u.pump = [])
    (hmem : (id, i) ∈ d₀.heard now root l'.world.past) :
    (id, i) ∈ d₀.heard now root l.world.past := by
  induction turns generalizing l with
  | nil =>
    obtain rfl := Option.some.inj hreplay
    exact hmem
  | cons t turns ih =>
    obtain ⟨u, hu, hrest⟩ := replay?_cons hreplay
    have hmem' : (id, i) ∈ d₀.heard now root u.world.past := by
      rcases h.turn hpart hr hq hu with h' | hover
      · refine ih h' (hr.turn hu) hrest fun front back v hsplit hfront => ?_
        refine hlast (t :: front) back v (by rw [hsplit]; rfl) ?_
        rw [replay?, hu]
        exact hfront
      · exact mem_heard_of_past (hr.turn hu) hover hrest hmem
    rcases hr.mem_heard_turn hu hmem' with hmem' | ⟨rfl, hoffer, -⟩
    · exact hmem'
    · exact absurd (hlast [] turns l rfl rfl hoffer) (h.supply_ne_nil hr hq)

/-- The batch `id` is awaited, or has heard an end or expiry, or has all its results. -/
def Accounted (heard : Hearing) (id size : Nat) (l : Link) : Prop :=
  (∃ b, l.world.dispatcher.phase = .awaiting b ∧ b.id = id ∧ b.size = size) ∨
    (id, .closed) ∈ heard ∨ (id, .expired) ∈ heard ∨
      ∀ k < size, (verdict? heard id k).isSome = true

theorem Accounted.turn (h : Accounted (d₀.heard now root l.world.past) id size l)
    (hr : Reached d₀ now root frames l) (hq : d₀.pending.Quiet) (ht : l.turn? t = some l') :
    Accounted (d₀.heard now root l'.world.past) id size l' := by
  obtain ⟨i, -, -, rfl⟩ | ⟨hdispatcher, hpast, -⟩ := turn_cases ht
  · rw [hr.heard_take]
    obtain ⟨b, hp, rfl, rfl⟩ | hclosed | hexpired | hall := h
    · have hears_eq : l.world.dispatcher.hears i = [(b.id, i)] := by simp [Dispatcher.hears, hp]
      rw [hears_eq]
      rcases (hr.ledger hq).step_awaiting hp l.world.clock i with hawaited | ⟨-, rfl | rfl | hall⟩
      · exact .inl hawaited
      · exact .inr (.inl (by simp))
      · exact .inr (.inr (.inl (by simp)))
      · exact .inr (.inr (.inr hall))
    · exact .inr (.inl (List.mem_append_left _ hclosed))
    · exact .inr (.inr (.inl (List.mem_append_left _ hexpired)))
    · refine .inr (.inr (.inr fun k hk => ?_))
      rw [verdict?, List.findSome?_append, Option.isSome_or, ← verdict?, hall k hk]
      rfl
  · rw [Accounted, hdispatcher, hpast]
    exact h

/-! ## The channel -/

private theorem rest_of_closed (h : l.pump.Attended) (hoffer : l.view.offer = some .closed) :
    l.pump.rest = [] := by
  obtain ⟨b, hp⟩ := awaiting_of_offer hoffer (.inl rfl)
  obtain ⟨text, hi, -⟩ | ⟨-, hgot⟩ | ⟨hi, -⟩ := receive_of_offer hp hoffer
  · cases hi
  · exact h.rest_of_ended hgot
  · cases hi

private theorem items_of_offer (hoffer : l.view.offer = some i) (hi : i = .closed ∨ i = .expired) :
    l.pump.queue.items = [] := by
  obtain ⟨b, hp⟩ := awaiting_of_offer hoffer hi
  obtain ⟨a, rest, -, heq⟩ | ⟨hitems, -⟩ | ⟨hitems, -⟩ := l.pump.queue.receive_cases
  · obtain ⟨text, rfl, -⟩ | ⟨-, hgot⟩ | ⟨-, hgot⟩ := receive_of_offer hp hoffer
    · simp at hi
    · simp [heq] at hgot
    · simp [heq] at hgot
  · exact hitems
  · exact hitems

/-- A batch that is awaited has heard neither an end nor expiry. -/
theorem Answered.not_mem (hpart : Supply part)
    (h : Answered part (d₀.heard now root l.world.past) id size l)
    (hr : Reached d₀ now root frames l) (hq : d₀.pending.Quiet)
    (hreplay : l.replay? turns = some l')
    (hi : i = .closed ∨ i = .expired)
    (hlast : ∀ front back u, turns = front ++ .takes i :: back → l.replay? front = some u →
      u.view.offer = some i → part u.pump = []) :
    (id, i) ∉ d₀.heard now root l'.world.past := by
  intro hmem
  obtain ⟨b, hp, rfl, rfl⟩ := h.batch
  have hover : l.world.dispatcher.Past b.id := by
    rw [hr.run]
    exact Dispatcher.past_of_heard hq now root _ (h.unheard hpart hr hq hreplay hlast hmem) hi
  exact hover.2 b (by simp [Dispatcher.inFlight?, hp]) rfl

/-- The batch `id` was not given up, neither for an end of the frames nor for silence: it is still
awaited or has all its results. -/
structure Unharmed (heard : Hearing) (id size : Nat) (l : Link) : Prop where
  not_closed : (id, .closed) ∉ heard
  not_expired : (id, .expired) ∉ heard
  not_aborted : ∀ path, l.world.dispatcher.ending? ≠ some (.aborted (.channelClosed id path))
  not_timedOut : ∀ path lacking total window, l.world.dispatcher.ending? ≠
    some (.aborted (.batchTimeout id path lacking total window))
  results : (∃ b, l.world.dispatcher.phase = .awaiting b ∧ b.id = id ∧ b.size = size) ∨
    ∀ k < size, (verdict? heard id k).isSome = true

theorem Reached.ending_ne (h : Reached d₀ now root frames l) (hq : d₀.pending.Quiet)
    (hclosed : (id, .closed) ∉ d₀.heard now root l.world.past) (path : String) :
    l.world.dispatcher.ending? ≠ some (.aborted (.channelClosed id path)) := by
  rw [h.run]
  intro hended
  exact hclosed ((Dispatcher.heard_of_aborted hq hended).1 id path rfl)

private theorem Reached.unharmed (hr : Reached d₀ now root frames l) (hq : d₀.pending.Quiet)
    (hp : l.world.dispatcher.phase = .awaiting b) (hreplay : l.replay? turns = some l')
    (hclosed : (b.id, .closed) ∉ d₀.heard now root l'.world.past)
    (hexpired : (b.id, .expired) ∉ d₀.heard now root l'.world.past) :
    Unharmed (d₀.heard now root l'.world.past) b.id b.size l' := by
  have hr' := hr.replay hreplay
  refine ⟨hclosed, hexpired, hr'.ending_ne hq hclosed, ?_, ?_⟩
  · rw [hr'.run]
    intro path lacking total window hended
    exact hexpired ((Dispatcher.heard_of_aborted hq hended).2 _ _ _ _ _ rfl)
  · have hkept := replay?_induction
      (P := fun u => Reached d₀ now root frames u ∧
        Accounted (d₀.heard now root u.world.past) b.id b.size u)
      (fun u u' t ht hu => ⟨hu.1.turn ht, hu.2.turn hu.1 hq ht⟩) hreplay
      ⟨hr, .inl ⟨b, hp, rfl, rfl⟩⟩
    obtain hawaited | hheard | hheard | hall := hkept.2
    · exact .inl hawaited
    · exact absurd hheard hclosed
    · exact absurd hheard hexpired
    · exact .inr hall

/-- The watchdog is found expired only when the reader has nothing left to hand over. -/
def Prompt (l : Link) (turns : List Turn) : Prop :=
  ∀ front back u, turns = front ++ .takes .expired :: back → l.replay? front = some u →
    u.pump.rest = []

/-- The channel passes on the texts of the worker's frames in order, and its end is seen after the
last of them, however reader and receiver take turns. So a worker that has answered all tests of the
batch in flight may close at once: the batch never hears of it, and does not expire either if its
answers were queued in time, or if the reader is not late. -/
theorem channel_faithful (capacity : Nat) (frames : List SocketFrame) :
    (∀ moves, Queue.taken (Pump.run moves (.start capacity frames)).2 <+:
        SocketFrame.texts frames ∧
      ∀ before after, (Pump.run moves (.start capacity frames)).2 = before ++ .ended :: after →
        Queue.taken before = SocketFrame.texts frames) ∧
    ∀ (d : Dispatcher) (now : Nat) (root : Suite) (room : Option Nat) (turns : List Turn)
      (l : Link), d.pending.Quiet →
      (opening d now root room capacity frames).replay? turns = some l →
      textsOf l.world.past <+: SocketFrame.texts frames ∧
      (l.view.offer = some .closed → textsOf l.world.past = SocketFrame.texts frames) ∧
      ∀ b more l', l.world.dispatcher.phase = .awaiting b → l.replay? more = some l' →
        (Answered Pump.rest (d.heard now root l.world.past) b.id b.size l →
          (b.id, .closed) ∉ d.heard now root l'.world.past ∧
          (∀ path, l'.world.dispatcher.ending? ≠ some (.aborted (.channelClosed b.id path))) ∧
          (l.Prompt more → Unharmed (d.heard now root l'.world.past) b.id b.size l')) ∧
        (Answered (·.queue.items) (d.heard now root l.world.past) b.id b.size l →
          Unharmed (d.heard now root l'.world.past) b.id b.size l') := by
  constructor
  · intro moves
    have hattended := Pump.attended_start capacity frames
    refine ⟨⟨_, Pump.taken_append_rest moves hattended⟩, fun before after hsplit => ?_⟩
    exact Pump.taken_of_ended hattended hsplit
  intro d now root room turns l hq hreplay
  have hr := (reached_opening d now root room capacity frames).replay hreplay
  refine ⟨⟨_, hr.texts⟩, fun hoffer => ?_, fun b more l' hp hmore => ⟨fun h => ?_, fun h => ?_⟩⟩
  · rw [← hr.texts, rest_of_closed hr.pump hoffer, List.append_nil]
  · have hclosed : (b.id, .closed) ∉ d.heard now root l'.world.past :=
      h.not_mem supply_rest hr hq hmore (.inl rfl)
        fun front back u _ hfront hoffer => rest_of_closed (hr.replay hfront).pump hoffer
    refine ⟨hclosed, (hr.replay hmore).ending_ne hq hclosed, fun hprompt => ?_⟩
    refine hr.unharmed hq hp hmore hclosed (h.not_mem supply_rest hr hq hmore (.inr rfl) ?_)
    exact fun front back u hsplit hfront _ => hprompt front back u hsplit hfront
  · have hnot (i : Input) (hi : i = .closed ∨ i = .expired) :
        (b.id, i) ∉ d.heard now root l'.world.past :=
      h.not_mem supply_items hr hq hmore hi fun _ _ _ _ _ hoffer => items_of_offer hoffer hi
    exact hr.unharmed hq hp hmore (hnot _ (.inl rfl)) (hnot _ (.inr rfl))

/-- Two answers among frames that say nothing, and an end right behind them. -/
def partingFrames : List SocketFrame :=
  [.ping, .binary (Text.Utf8.encode (Response.mk 0 1 .ok).encode), .binary [0xFF],
    .text (Response.mk 0 0 (.failed (some "boom"))).encode, .close, .text "late"]

def partingSuite : Suite := .mk "" [⟨"a", []⟩, ⟨"b", []⟩] []

def partingDispatcher : Dispatcher := .fresh ⟨500, false⟩ 2 default ⟨[Path.slash]⟩

/-- The request is taken, the reader goes on to the end, and then nobody does anything for long. -/
def partingTurns : List Turn :=
  [.takes .accepted, .reader, .reader, .reader, .reader, .reader, .reader, .reader, .passes 9000]

def partingRest : List Turn :=
  [.takes (.frame (Response.mk 0 1 .ok).encode),
    .takes (.frame (Response.mk 0 0 (.failed (some "boom"))).encode)]

theorem channel_faithful_parting :
    ∃ l l', (opening partingDispatcher 0 partingSuite none 2 partingFrames).replay? partingTurns =
        some l ∧
      l.pump.queue.senderGone = true ∧ l.world.deadline? = some 500 ∧ l.world.clock = 9000 ∧
      l.replay? partingRest = some l' ∧ l'.world.dispatcher.ending? = some .completed ∧
      Unharmed (partingDispatcher.heard 0 partingSuite l'.world.past) 0 2 l' := by
  have hrun : ((opening partingDispatcher 0 partingSuite none 2 partingFrames).replay?
      partingTurns).any (fun l => l.pump.queue.senderGone ∧ l.world.deadline? = some 500 ∧
        l.world.clock = 9000 ∧
        l.world.dispatcher.inFlight?.map (fun b => (b.id, b.size)) = some (0, 2) ∧
        (∀ k < 2, (firstAnswer? (toldTo (partingDispatcher.heard 0 partingSuite l.world.past) 0 ++
          l.pump.queue.items) 0 k).isSome = true) ∧
        (l.replay? partingRest).any (·.world.dispatcher.ending? = some .completed)) = true := by
    decide +kernel
  cases hl : (opening partingDispatcher 0 partingSuite none 2 partingFrames).replay?
      partingTurns with
  | none => simp [hl] at hrun
  | some l =>
    rw [hl, Option.any_some, decide_eq_true_eq] at hrun
    obtain ⟨hgone, hdeadline, hclock, hbatch, hanswers, hrest⟩ := hrun
    cases hl' : l.replay? partingRest with
    | none => simp [hl'] at hrest
    | some l' =>
      rw [hl', Option.any_some, decide_eq_true_eq] at hrest
      obtain ⟨b, hp⟩ := awaiting_of_deadline hdeadline
      have hsame : (b.id, b.size) = (0, 2) := by
        simpa [Dispatcher.inFlight?, hp] using hbatch
      obtain ⟨hid, hsize⟩ := Prod.mk.inj hsame
      have hfaithful := ((channel_faithful 2 partingFrames).2 partingDispatcher 0 partingSuite none
        partingTurns l Pending.quiet_empty hl).2.2 b partingRest l' hp hl'
      rw [hid, hsize] at hfaithful
      exact ⟨l, l', rfl, hgone, hdeadline, hclock, hl', hrest,
        hfaithful.2 ⟨⟨b, hp, hid, hsize⟩, hanswers⟩⟩

end Link

end SuiteRunner.Dispatch
