import SuiteRunner.Proofs.Dispatch.Continuations
import SuiteRunner.Proofs.Dispatch.Exchange

/-! # When the watchdog expires

Frames come while a batch is awaited, each at its time. They decide alone whether the wait ends by
expiry, and when. -/
namespace SuiteRunner.Dispatch

open Suite (Located upcoming)
open Wire (Response Verdict)

/-! ## Schedules -/

/-- When the frames come that a batch could hear, and when the worker stops sending. -/
structure Schedule where
  /-- When the watchdog was armed. -/
  armed : Nat
  arrivals : List (Nat × String)
  closing : Option Nat

namespace Schedule

/-- The time of the last one of the first `k` frames. -/
def last (s : Schedule) : Nat → Nat
  | 0 => s.armed
  | k + 1 => (s.arrivals[k]?.map (·.1)).getD s.armed

/-- The first answer to a test among the first `k` frames. -/
def answer? (s : Schedule) (k id index : Nat) : Option Verdict :=
  firstAnswer? ((s.arrivals.take k).map (·.2)) id index

/-- Some test of the batch `id` has no answer among the first `k` frames. -/
def Lacking (s : Schedule) (id size k : Nat) : Prop := ∃ i < size, s.answer? k id i = none

/-- After `k` frames the batch lacks an answer, and nothing comes for a whole window. -/
structure Silent (s : Schedule) (id size window k : Nat) : Prop where
  reached : k ≤ s.arrivals.length
  lacking : s.Lacking id size k
  frames : k < s.arrivals.length → s.last k + window ≤ s.last (k + 1)
  closing : ∀ c, s.closing = some c → s.last k + window ≤ c

/-- Nothing comes at the very end of a window. -/
def Untied (s : Schedule) (window : Nat) : Prop :=
  (∀ k < s.arrivals.length, s.last (k + 1) ≠ s.last k + window) ∧
    s.closing ≠ some (s.last s.arrivals.length + window)

instance (s : Schedule) (window : Nat) : Decidable (s.Untied window) :=
  inferInstanceAs (Decidable (_ ∧ _))

/-- There are `k` frames or more, and each of the first `k` comes before a window is over. -/
structure Timely (s : Schedule) (window k : Nat) : Prop where
  reached : k ≤ s.arrivals.length
  early : ∀ j < k, s.last (j + 1) < s.last j + window

/-- The schedule that the deeds from `now` on make of one. -/
def after (s : Schedule) (now : Nat) : List Deed → Schedule
  | [] => s
  | .sends frame :: deeds => after { s with arrivals := s.arrivals ++ [(now, frame)] } now deeds
  | .stopsSending :: deeds => after { s with closing := s.closing.or (some now) } now deeds
  | e :: deeds => after s (e.ends now) deeds

/-- More comes, but not before `now`. -/
structure Extends (s : Schedule) (now : Nat) (s' : Schedule) : Prop where
  armed : s'.armed = s.armed
  arrivals : ∃ more, s'.arrivals = s.arrivals ++ more ∧ ∀ a ∈ more, now ≤ a.1
  closing : s'.closing = s.closing ∨ s.closing = none ∧ ∃ c, s'.closing = some c ∧ now ≤ c

variable {s s' s'' : Schedule} {now now' id size window k : Nat}

theorem Extends.refl (s : Schedule) (now : Nat) : s.Extends now s :=
  ⟨rfl, ⟨[], by simp, by simp⟩, .inl rfl⟩

theorem Extends.trans (h : s.Extends now s') (hle : now ≤ now') (h' : s'.Extends now' s'') :
    s.Extends now s'' := by
  obtain ⟨more, harrivals, htimes⟩ := h.arrivals
  obtain ⟨more', harrivals', htimes'⟩ := h'.arrivals
  refine ⟨h'.armed.trans h.armed, ⟨more ++ more', ?_, ?_⟩, ?_⟩
  · rw [harrivals', harrivals, List.append_assoc]
  · intro a ha
    rcases List.mem_append.mp ha with ha | ha
    · exact htimes a ha
    · exact Nat.le_trans hle (htimes' a ha)
  · rcases h'.closing with hclosing' | ⟨hnone, c, hc, hlate⟩
    · rw [hclosing']
      exact h.closing
    · refine .inr ⟨?_, c, hc, Nat.le_trans hle hlate⟩
      rcases h.closing with hclosing | ⟨hnone', -⟩
      · rw [← hclosing, hnone]
      · exact hnone'

theorem after_cons (s : Schedule) (now : Nat) (e : Deed) (deeds : List Deed) :
    s.after now (e :: deeds) = (s.after now [e]).after (e.ends now) deeds := by
  cases e <;> rfl

theorem extends_after_singleton (s : Schedule) (now : Nat) (e : Deed) :
    s.Extends now (s.after now [e]) := by
  cases e with
  | sends frame => exact ⟨rfl, ⟨[(now, frame)], rfl, by simp⟩, .inl rfl⟩
  | stopsSending =>
    refine ⟨rfl, ⟨[], by simp [after], by simp⟩, ?_⟩
    cases hc : s.closing with
    | none => exact .inr ⟨rfl, now, by simp [after, hc], Nat.le_refl _⟩
    | some c => exact .inl (by simp [after, hc])
  | takes i => exact .refl s now
  | receives => exact .refl s now
  | stopsReceiving => exact .refl s now
  | waits ms => exact .refl s now

theorem extends_after (s : Schedule) (now : Nat) (deeds : List Deed) :
    s.Extends now (s.after now deeds) := by
  induction deeds generalizing s now with
  | nil => exact .refl s now
  | cons e deeds ih =>
    have hle : now ≤ e.ends now := by cases e <;> simp [Deed.ends]
    rw [after_cons]
    exact (extends_after_singleton s now e).trans hle (ih _ _)

theorem Extends.getElem? (h : s.Extends now s') {j : Nat} (hj : j < s.arrivals.length) :
    s'.arrivals[j]? = s.arrivals[j]? := by
  obtain ⟨more, harrivals, -⟩ := h.arrivals
  rw [harrivals, List.getElem?_append_left hj]

theorem Extends.last (h : s.Extends now s') (hk : k ≤ s.arrivals.length) :
    s'.last k = s.last k := by
  cases k with
  | zero => exact h.armed
  | succ k => rw [Schedule.last, Schedule.last, h.getElem? hk, h.armed]

theorem Extends.answer? (h : s.Extends now s') (hk : k ≤ s.arrivals.length) (id index : Nat) :
    s'.answer? k id index = s.answer? k id index := by
  obtain ⟨more, harrivals, -⟩ := h.arrivals
  rw [Schedule.answer?, Schedule.answer?, harrivals, List.take_append_of_le_length hk]

/-- What is answered stays answered. -/
theorem answer?_mono {j : Nat} (h : s.answer? j id k = none) {i : Nat} (hi : i ≤ j) :
    s.answer? i id k = none := by
  have hsplit : s.arrivals.take j = s.arrivals.take i ++ (s.arrivals.drop i).take (j - i) := by
    rw [← List.take_add, Nat.add_sub_cancel' hi]
  rw [answer?, hsplit, List.map_append, firstAnswer?_append, Option.or_eq_none_iff] at h
  exact h.1

private theorem answer?_succ {a : Nat × String} (h : s.arrivals[k]? = some a) (id index : Nat) :
    s.answer? (k + 1) id index =
      (s.answer? k id index).or ((Input.frame a.2).answer? id index) := by
  rw [answer?, List.take_add_one, h, List.map_append, firstAnswer?_append]
  simp [firstAnswer?_singleton, answer?]

theorem last_succ {a : Nat × String} (h : s.arrivals[k]? = some a) : s.last (k + 1) = a.1 := by
  simp [last, h]

theorem Timely.extends (h : s.Timely window k) (hs : s.Extends now s') : s'.Timely window k := by
  obtain ⟨more, harrivals, -⟩ := hs.arrivals
  have hreached := h.reached
  refine ⟨?_, fun j hj => ?_⟩
  · rw [harrivals, List.length_append]
    exact Nat.le_trans hreached (Nat.le_add_right _ _)
  · rw [hs.last (by omega), hs.last (by omega)]
    exact h.early j hj

theorem Timely.succ (h : s.Timely window k) {a : Nat × String} (ha : s.arrivals[k]? = some a)
    (hlt : a.1 < s.last k + window) : s.Timely window (k + 1) := by
  refine ⟨(List.getElem?_eq_some_iff.mp ha).1, fun j hj => ?_⟩
  rcases Nat.lt_succ_iff_lt_or_eq.mp hj with hj | rfl
  · exact h.early j hj
  · rwa [last_succ ha]

theorem Timely.not_silent (h : s.Timely window k) {j : Nat} (hj : j < k) :
    ¬ s.Silent id size window j := by
  intro hsilent
  have hreached := h.reached
  have hle := hsilent.frames (by omega)
  have hlt := h.early j hj
  omega

/-- There is no silence where the batch is complete in time. -/
theorem Timely.not_silent_of_complete (h : s.Timely window k) (hc : ¬ s.Lacking id size k)
    (j : Nat) : ¬ s.Silent id size window j := by
  intro hsilent
  rcases Nat.lt_or_ge j k with hj | hj
  · exact h.not_silent hj hsilent
  · obtain ⟨i, hi, hnone⟩ := hsilent.lacking
    exact hc ⟨i, hi, answer?_mono hnone hj⟩

/-- There is no silence where the worker stops in time after the last frame. -/
theorem Timely.not_silent_of_closing (h : s.Timely window s.arrivals.length) {c : Nat}
    (hc : s.closing = some c) (hlt : c < s.last s.arrivals.length + window) (j : Nat) :
    ¬ s.Silent id size window j := by
  intro hsilent
  rcases Nat.lt_or_ge j s.arrivals.length with hj | hj
  · exact h.not_silent hj hsilent
  · obtain rfl : j = s.arrivals.length := Nat.le_antisymm hsilent.reached hj
    have hle := hsilent.closing c hc
    omega

end Schedule

/-! ## Batches that are over -/

namespace Dispatcher

variable {d : Dispatcher} {id now : Nat} {i : Input}

/-- The batch `id` was in flight and never will be again. -/
def Past (d : Dispatcher) (id : Nat) : Prop :=
  id < d.nextId ∧ ∀ b, d.inFlight? = some b → b.id ≠ id

/-- A batch gets an id that none has had. -/
theorem visit_id (hr : d.isReady = true) (now : Nat) :
    d.nextId ≤ (d.visit now).nextId ∧
      ∀ b, (d.visit now).inFlight? = some b → b.id = d.nextId := by
  have hphase := phase_of_isReady hr
  unfold visit
  split
  · exact ⟨Nat.le_refl _, fun b hb => by simp [finish, inFlight?] at hb⟩
  · simp only
    split
    · exact ⟨Nat.le_refl _, fun b hb => by simp [inFlight?, hphase] at hb⟩
    · unfold beginSuite
      simp only
      split
      · obtain ⟨console, log, he⟩ := failUnsendable_eq
          (({ d with todo := _ } : Dispatcher).print [.running _]) now _ _ _
        rw [he]
        exact ⟨Nat.le_refl _, fun b hb => by simp [print, inFlight?, hphase] at hb⟩
      · simp only [openBatch]
        split
        · exact ⟨Nat.le_succ _, fun b hb => by simp [finish, inFlight?] at hb⟩
        · split
          · exact ⟨Nat.le_succ _, fun b hb => by simp [finish, inFlight?] at hb⟩
          · refine ⟨Nat.le_succ _, fun b hb => ?_⟩
            obtain rfl := Option.some.inj hb
            rfl

theorem nextId_feed (d : Dispatcher) (now : Nat) (i : Input) :
    (d.feed now i).nextId = d.nextId := by
  rcases frame_feed d now i with ⟨b, frame, hp, rfl⟩ | hframe
  · rw [feed_accepted hp]
  · exact hframe.nextId

/-- No input brings a batch into flight. -/
theorem feed_id {b : Batch} (h : (d.feed now i).inFlight? = some b) :
    ∃ b', d.inFlight? = some b' ∧ b.id = b'.id := by
  unfold feed at h
  split at h
  · next b' frame hp =>
    obtain rfl := Option.some.inj h
    exact ⟨b', by simp [inFlight?, hp], rfl⟩
  · cases h
  · next b' text hp =>
    simp only [receive] at h
    split at h
    · cases h
    · obtain rfl := Option.some.inj h
      exact ⟨b', by simp [inFlight?, hp], rfl⟩
  · cases h
  · simp only [timeOut] at h
    split at h <;> cases h
  · exact ⟨b, h, rfl⟩

theorem Past.settle (h : d.Past id) (now : Nat) : (d.settle now).Past id := by
  refine settleFor_induction (P := (Past · id)) (fun d' hr hd' => ?_) _ d h
  obtain ⟨hle, hnew⟩ := visit_id hr now
  refine ⟨Nat.lt_of_lt_of_le hd'.1 hle, fun b hb => ?_⟩
  rw [hnew b hb]
  exact Nat.ne_of_gt hd'.1

theorem Past.step (h : d.Past id) (now : Nat) (i : Input) : (d.step now i).Past id := by
  refine Past.settle ⟨?_, fun b hb => ?_⟩ now
  · rw [nextId_feed]
    exact h.1
  · obtain ⟨b', hb', heq⟩ := feed_id hb
    rw [heq]
    exact h.2 b' hb'

/-- A batch is over once an input has left nothing in flight. -/
theorem past_of_feed (hid : id < d.nextId) (h : (d.feed now i).inFlight? = none) :
    (d.step now i).Past id := by
  refine Past.settle ⟨?_, fun b hb => ?_⟩ now
  · rwa [nextId_feed]
  · rw [h] at hb
    cases hb

end Dispatcher

/-! ## What is taken while a batch is awaited -/

namespace World

/-- What a deed lets the batch `id` hear, and when. -/
def hearsFor (w : World) (id : Nat) : Deed → List (Nat × Input)
  | .takes i =>
    match w.dispatcher.phase with
    | .awaiting b => if b.id = id then [(w.clock, i)] else []
    | _ => []
  | _ => []

/-- All that the batch `id` hears in the course of some deeds. -/
def during (id : Nat) : World → List Deed → List (Nat × Input)
  | _, [] => []
  | w, e :: deeds =>
    match w.does? e with
    | none => []
    | some u => w.hearsFor id e ++ u.during id deeds

variable {w w' : World} {id : Nat}

theorem during_cons {e : Deed} (h : w.does? e = some w') (deeds : List Deed) :
    w.during id (e :: deeds) = w.hearsFor id e ++ w'.during id deeds := by
  rw [during, h]

theorem hearsFor_other {e : Deed} (he : ∀ i, e ≠ .takes i) : w.hearsFor id e = [] := by
  cases e with
  | takes i => exact absurd rfl (he i)
  | _ => rfl

private theorem past_does? {e : Deed} (h : w.dispatcher.Past id) (hd : w.does? e = some w') :
    w'.dispatcher.Past id ∧ w.hearsFor id e = [] := by
  by_cases he : ∃ i, e = .takes i
  · obtain ⟨i, rfl⟩ := he
    obtain ⟨-, rfl⟩ := does?_takes hd
    refine ⟨h.step w.clock i, ?_⟩
    simp only [hearsFor]
    split
    · next b hp => rw [if_neg (h.2 b (by simp [Dispatcher.inFlight?, hp]))]
    · rfl
  · have hne : ∀ i, e ≠ .takes i := fun i hi => he ⟨i, hi⟩
    rw [(does?_dispatcher hne hd).1]
    exact ⟨h, hearsFor_other hne⟩

theorem during_of_past {deeds : List Deed} (h : w.dispatcher.Past id)
    (hr : w.replay? deeds = some w') : w.during id deeds = [] := by
  induction deeds generalizing w with
  | nil => rfl
  | cons e deeds ih =>
    obtain ⟨u, hu, hrest⟩ := replay?_cons hr
    obtain ⟨hpast, hnone⟩ := past_does? h hu
    rw [during_cons hu, hnone, ih hpast hrest]
    rfl

end World

/-! ## Waiting -/

/-- A batch has heard the first `k` frames of a schedule, which came in time, and is awaited. The
others have only just come. -/
structure Waiting (s : Schedule) (id size window k : Nat) (b : Batch) (w : World) : Prop where
  phase : w.dispatcher.phase = .awaiting b
  ident : b.id = id
  tickets : b.tickets.length = size
  watchdog : b.watchdog = ⟨window, s.last k + window⟩
  results : w.dispatcher.pending.InFlight id b.tickets (s.answer? k id)
  lacking : s.Lacking id size k
  timely : s.Timely window k
  queued : w.worker.frames = (s.arrivals.drop k).map (·.2)
  present : ∀ a ∈ s.arrivals.drop k, a.1 = w.clock
  due : w.clock ≤ s.last k + window
  sending : w.worker.sends = true → s.closing = none
  stopped : w.worker.sends = false → s.closing = some w.clock
  next : id < w.dispatcher.nextId

namespace Waiting

variable {s s' : Schedule} {id size window k : Nat} {b : Batch} {w w' : World}

theorem hearsFor (h : Waiting s id size window k b w) (i : Input) :
    w.hearsFor id (.takes i) = [(w.clock, i)] := by
  simp [World.hearsFor, h.phase, h.ident]

theorem drop_eq (h : Waiting s id size window k b w) {f : String} {frames : List String}
    (hf : w.worker.frames = f :: frames) :
    s.arrivals[k]? = some (w.clock, f) ∧ frames = (s.arrivals.drop (k + 1)).map (·.2) := by
  have hqueued := h.queued
  rw [hf] at hqueued
  cases hdrop : s.arrivals.drop k with
  | nil => simp [hdrop] at hqueued
  | cons a rest =>
    rw [hdrop, List.map_cons, List.cons.injEq] at hqueued
    have hrest : s.arrivals.drop (k + 1) = rest := by
      rw [← List.drop_drop, hdrop]
      rfl
    have hclock : a.1 = w.clock := h.present a (by simp [hdrop])
    have hget : s.arrivals[k]? = some a := by
      rw [← List.head?_drop, hdrop]
      rfl
    rw [hget, hrest]
    exact ⟨by rw [← hclock, hqueued.1], hqueued.2⟩

theorem reached_all (h : Waiting s id size window k b w) (hf : w.worker.frames = []) :
    k = s.arrivals.length := by
  have hqueued := h.queued
  rw [hf] at hqueued
  have hnil : s.arrivals.drop k = [] := by simpa using hqueued.symm
  exact Nat.le_antisymm h.timely.reached (List.drop_eq_nil_iff.mp hnil)

/-! ### What others do meanwhile -/

theorem receives (h : Waiting s id size window k b w) (hd : w.does? .receives = some w') :
    Waiting s id size window k b w' := by
  obtain ⟨-, -, -, rfl⟩ := World.does?_receives hd
  exact { h with }

theorem stopsReceiving (h : Waiting s id size window k b w)
    (hd : w.does? .stopsReceiving = some w') : Waiting s id size window k b w' := by
  obtain rfl := Option.some.inj hd
  exact { h with }

theorem waits {ms : Nat} (h : Waiting s id size window k b w)
    (hd : w.does? (.waits ms) = some w') : Waiting s id size window k b w' := by
  obtain ⟨hoffer, hdeadline, rfl⟩ := World.does?_waits hd
  obtain ⟨hframes, hsends, -⟩ := World.of_offer_eq_none h.phase hoffer
  have hall := h.reached_all hframes
  refine { h with present := ?_, due := ?_, stopped := ?_ }
  · simp [hall]
  · have hle := hdeadline (s.last k + window) (by simp [World.deadline?, h.phase, h.watchdog])
    exact hle
  · intro hstopped
    simp [hsends] at hstopped

theorem sends {frame : String} (h : Waiting s id size window k b w)
    (hd : w.does? (.sends frame) = some w') :
    Waiting (s.after w.clock [.sends frame]) id size window k b w' := by
  obtain ⟨-, rfl⟩ := World.does?_sends hd
  have hextends := s.extends_after_singleton w.clock (.sends frame)
  have harrivals : (s.after w.clock [.sends frame]).arrivals =
      s.arrivals ++ [(w.clock, frame)] := rfl
  have hdrop : (s.arrivals ++ [(w.clock, frame)]).drop k =
      s.arrivals.drop k ++ [(w.clock, frame)] := List.drop_append_of_le_length h.timely.reached
  refine { h with
    watchdog := ?_, results := ?_, lacking := ?_, timely := h.timely.extends hextends,
    queued := ?_, present := ?_, due := ?_ }
  · rw [hextends.last h.timely.reached]
    exact h.watchdog
  · have hsame : (s.after w.clock [.sends frame]).answer? k id = s.answer? k id :=
      funext fun index => hextends.answer? h.timely.reached id index
    rw [hsame]
    exact h.results
  · obtain ⟨i, hi, hnone⟩ := h.lacking
    exact ⟨i, hi, (hextends.answer? h.timely.reached id i).trans hnone⟩
  · rw [harrivals, hdrop, List.map_append, ← h.queued]
    rfl
  · rw [harrivals, hdrop]
    intro a ha
    rcases List.mem_append.mp ha with ha | ha
    · exact h.present a ha
    · rw [List.mem_singleton.mp ha]
  · rw [hextends.last h.timely.reached]
    exact h.due

theorem stopsSending (h : Waiting s id size window k b w)
    (hd : w.does? .stopsSending = some w') :
    Waiting (s.after w.clock [.stopsSending]) id size window k b w' := by
  obtain rfl := Option.some.inj hd
  have hextends := s.extends_after_singleton w.clock .stopsSending
  refine { h with
    timely := h.timely.extends hextends, sending := nofun, stopped := fun _ => ?_ }
  cases hsends : w.worker.sends with
  | true => simp [Schedule.after, h.sending hsends]
  | false => simp [Schedule.after, h.stopped hsends]

theorem other {e : Deed} (h : Waiting s id size window k b w) (hd : w.does? e = some w')
    (he : ∀ i, e ≠ .takes i) : Waiting (s.after w.clock [e]) id size window k b w' := by
  cases e with
  | takes i => exact absurd rfl (he i)
  | receives => exact h.receives hd
  | sends frame => exact h.sends hd
  | stopsSending => exact h.stopsSending hd
  | stopsReceiving => exact h.stopsReceiving hd
  | waits ms => exact h.waits hd

/-! ### What the batch hears -/

/-- The next frame completes the batch, or the wait goes on with a new window. -/
theorem frame (h : Waiting s id size window k b w) {f : String} {frames : List String}
    (hf : w.worker.frames = f :: frames) (hlt : w.clock < s.last k + window) :
    ¬ s.Lacking id size (k + 1) ∧ (w.take (.frame f)).dispatcher.Past id ∨
      ∃ b', Waiting s id size window (k + 1) b' (w.take (.frame f)) := by
  obtain ⟨harrival, hframes⟩ := h.drop_eq hf
  obtain ⟨pending, log, he, hin⟩ := w.dispatcher.handleFrame_eq w.clock f
  have hresults : pending.InFlight id b.tickets (s.answer? (k + 1) id) := by
    have hsucc : s.answer? (k + 1) id =
        fun i => (s.answer? k id i).or ((Input.frame f).answer? id i) :=
      funext fun index => Schedule.answer?_succ harrival id index
    rw [hsucc]
    exact hin _ _ _ h.results
  by_cases h0 : pending.outstanding id = 0
  · have hall := hresults.outstanding_eq_zero_iff.mp h0
    rw [h.tickets] at hall
    refine .inl ⟨?_, ?_⟩
    · rintro ⟨i, hi, hnone⟩
      have hsome := hall i hi
      rw [hnone] at hsome
      cases hsome
    · refine Dispatcher.past_of_feed h.next ?_
      have hfeed : w.dispatcher.feed w.clock (.frame f) =
          (w.dispatcher.handleFrame w.clock f).conclude w.clock b "" := by
        simp [Dispatcher.feed, h.phase, Dispatcher.receive, he, h.ident, h0]
      rw [hfeed]
      rfl
  · have hstep : w.dispatcher.step w.clock (.frame f) =
        { w.dispatcher with
          pending
          log
          phase := .awaiting { b with watchdog := b.watchdog.refresh w.clock } } := by
      have hfeed : w.dispatcher.feed w.clock (.frame f) =
          { w.dispatcher with
            pending
            log
            phase := .awaiting { b with watchdog := b.watchdog.refresh w.clock } } := by
        simp [Dispatcher.feed, h.phase, Dispatcher.receive, he, h.ident, h0]
      rw [Dispatcher.step, hfeed]
      exact Dispatcher.settleFor_of_not_ready rfl _ _
    have hlast : s.last (k + 1) = w.clock := Schedule.last_succ harrival
    rw [World.take, hstep, World.consume_frame hf]
    refine .inr ⟨{ b with watchdog := b.watchdog.refresh w.clock }, ?_⟩
    refine { h with
      phase := rfl, watchdog := ?_, results := hresults, lacking := ?_,
      timely := h.timely.succ harrival hlt, queued := hframes, present := ?_, due := ?_ }
    · simp [Watchdog.refresh, h.watchdog, hlast]
    · rw [hresults.outstanding_eq_zero_iff, h.tickets] at h0
      obtain ⟨i, hi⟩ := not_forall.mp h0
      obtain ⟨hlt', hnone⟩ := Classical.not_imp.mp hi
      exact ⟨i, hlt', by simpa using hnone⟩
    · intro a ha
      refine h.present a (List.mem_of_mem_drop (i := 1) ?_)
      rwa [List.drop_drop]
    · rw [hlast]
      exact Nat.le_add_right _ _

theorem ends {i : Input} (h : Waiting s id size window k b w) (hi : i = .closed ∨ i = .expired) :
    (w.take i).dispatcher.Past id := by
  refine Dispatcher.past_of_feed h.next ?_
  rcases hi with rfl | rfl
  · simp [Dispatcher.feed, h.phase, Dispatcher.giveUp, Dispatcher.finish, Dispatcher.inFlight?]
  · simp only [Dispatcher.feed, h.phase, Dispatcher.timeOut]
    split <;> rfl

end Waiting

/-! ## The law -/

private theorem Schedule.after_stopsSending {s : Schedule} {c : Nat} (hc : s.closing = some c)
    (now : Nat) : s.after now [.stopsSending] = s := by
  obtain ⟨armed, arrivals, closing⟩ := s
  obtain rfl : closing = some c := hc
  rfl

/-- A worker that has stopped sending adds nothing to a schedule. -/
theorem after_of_stopped {s : Schedule} {c : Nat} (hc : s.closing = some c) {w w' : World}
    (hsends : w.worker.sends = false) {deeds : List Deed} (hr : w.replay? deeds = some w')
    (now : Nat) : s.after now deeds = s := by
  induction deeds generalizing w now with
  | nil => rfl
  | cons e deeds ih =>
    obtain ⟨u, hu, hrest⟩ := World.replay?_cons hr
    have hsends' : u.worker.sends = false := by
      by_cases he : ∃ i, e = .takes i
      · obtain ⟨i, rfl⟩ := he
        obtain ⟨-, rfl⟩ := World.does?_takes hu
        exact (w.take_worker i).2.trans hsends
      · obtain ⟨worker, rfl, -, hstays, -⟩ := World.does?_other (fun i hi => he ⟨i, hi⟩) hu
        exact hstays hsends
    have hsame : s.after now [e] = s := by
      cases e with
      | sends frame =>
        have hopen := (World.does?_sends hu).1
        simp [hsends] at hopen
      | stopsSending => exact Schedule.after_stopsSending hc now
      | takes i => rfl
      | receives => rfl
      | stopsReceiving => rfl
      | waits ms => rfl
    rw [Schedule.after_cons, hsame]
    exact ih hsends' hrest _

/-- A batch hears the frames of a schedule after the first `k`, each at its time, until it is
complete, the worker stops sending or the watchdog expires. The last comes about at the end of the
first window without a frame or an end of the frames, if there is one by `horizon`. -/
structure Obeys (s : Schedule) (id size window k horizon : Nat) (wait : List (Nat × Input)) :
    Prop where
  frames : ∃ n fin, (∀ e ∈ fin, e.2 = .closed ∨ e.2 = .expired) ∧
    wait = ((s.arrivals.drop k).take n).map (fun a => (a.1, .frame a.2)) ++ fin
  expiry : ∀ t, (t, .expired) ∈ wait ↔ ∃ j, s.Silent id size window j ∧
    (∀ i < j, ¬ s.Silent id size window i) ∧ t = s.last j + window ∧ t ≤ horizon

namespace Obeys

variable {s : Schedule} {id size window k horizon : Nat}

theorem frame {wait : List (Nat × Input)} {a : Nat × String}
    (h : Obeys s id size window (k + 1) horizon wait) (ha : s.arrivals[k]? = some a) :
    Obeys s id size window k horizon ((a.1, .frame a.2) :: wait) := by
  obtain ⟨n, fin, hfin, hwait⟩ := h.frames
  have hdrop : s.arrivals.drop k = a :: s.arrivals.drop (k + 1) :=
    List.drop_eq_getElem?_toList_append.trans (by rw [ha]; rfl)
  refine ⟨⟨n + 1, fin, hfin, ?_⟩, fun t => ?_⟩
  · rw [hdrop, hwait]
    rfl
  · rw [← h.expiry t]
    simp

/-- Without silence nothing expires. -/
theorem of_not_silent {fin : List (Nat × Input)} (hfin : ∀ e ∈ fin, e.2 = .closed)
    (h : ∀ j, ¬ s.Silent id size window j) : Obeys s id size window k horizon fin := by
  refine ⟨⟨0, fin, fun e he => .inl (hfin e he), by simp⟩, fun t => ?_⟩
  constructor
  · intro hmem
    cases hfin _ hmem
  · rintro ⟨j, hsilent, -⟩
    exact absurd hsilent (h j)

/-- The first silence is where the watchdog expires. -/
theorem of_silent {j : Nat} (h : s.Silent id size window j)
    (hleast : ∀ i < j, ¬ s.Silent id size window i) (hle : s.last j + window ≤ horizon) :
    Obeys s id size window k horizon [(s.last j + window, .expired)] := by
  refine ⟨⟨0, _, by simp, rfl⟩, fun t => ?_⟩
  constructor
  · intro hmem
    obtain rfl : t = s.last j + window := by simpa using hmem
    exact ⟨j, h, hleast, rfl, hle⟩
  · rintro ⟨j', h', hleast', rfl, -⟩
    obtain rfl : j' = j := by
      rcases Nat.lt_trichotomy j' j with hlt | heq | hgt
      · exact absurd h' (hleast j' hlt)
      · exact heq
      · exact absurd h (hleast' j hgt)
    simp

end Obeys

/-- Where all frames are heard and the window is over, the silence is the first one. -/
theorem Waiting.silent {s s' : Schedule} {id size window k : Nat} {b : Batch} {w : World}
    (h : Waiting s id size window k b w) (hf : w.worker.frames = [])
    (hsends : w.worker.sends = true) (hclock : s.last k + window = w.clock)
    (hextends : s.Extends w.clock s') :
    s'.Silent id size window k ∧ ∀ j < k, ¬ s'.Silent id size window j := by
  have hlast := hextends.last h.timely.reached
  obtain ⟨more, harrivals, hmore⟩ := hextends.arrivals
  refine ⟨⟨?_, ?_, ?_, ?_⟩, fun j hj => (h.timely.extends hextends).not_silent hj⟩
  · rw [harrivals, List.length_append]
    exact Nat.le_trans h.timely.reached (Nat.le_add_right _ _)
  · obtain ⟨i, hi, hnone⟩ := h.lacking
    exact ⟨i, hi, (hextends.answer? h.timely.reached id i).trans hnone⟩
  · intro hlt
    obtain ⟨a, ha⟩ : ∃ a, s'.arrivals[k]? = some a := ⟨_, List.getElem?_eq_getElem hlt⟩
    rw [hlast, hclock, Schedule.last_succ ha]
    rw [harrivals, h.reached_all hf, List.getElem?_append_right (Nat.le_refl _)] at ha
    exact hmore a (List.mem_of_getElem? ha)
  · intro c hc
    rw [hlast, hclock]
    rcases hextends.closing with hclosing | ⟨-, c', hc', hle⟩
    · rw [hclosing, h.sending hsends] at hc
      cases hc
    · obtain rfl : c' = c := Option.some.inj (hc'.symm.trans hc)
      exact hle

section

variable {s : Schedule} {id size window k : Nat} {b : Batch} {w w' : World} {deeds : List Deed}

/-- The only window that may be without a frame is the present one, and it is not at its end. -/
theorem Waiting.obeys_nil (h : Waiting s id size window k b w) (hrest : w.offer = none) :
    Obeys s id size window k w.clock [] := by
  obtain ⟨hframes, -, hclock⟩ := World.of_offer_eq_none h.phase hrest
  have hall := h.reached_all hframes
  rw [h.watchdog] at hclock
  refine ⟨⟨0, [], by simp, by simp⟩, fun t => ⟨by simp, ?_⟩⟩
  rintro ⟨j, hsilent, -, rfl, hle⟩
  have hreached := hsilent.reached
  rcases Nat.lt_or_ge j k with hj | hj
  · exact absurd hsilent (h.timely.not_silent hj)
  · obtain rfl : j = k := by omega
    exact absurd hclock (Nat.not_lt_of_le hle)

/-- A frame that is queued came before the deadline. -/
theorem Waiting.clock_lt (h : Waiting s id size window k b w) {f : String} {frames : List String}
    (hf : w.worker.frames = f :: frames) (huntied : (s.after w.clock deeds).Untied window) :
    w.clock < s.last k + window := by
  obtain ⟨harrival, -⟩ := h.drop_eq hf
  have hreached := (List.getElem?_eq_some_iff.mp harrival).1
  have hextends := s.extends_after w.clock deeds
  have harrival' : (s.after w.clock deeds).arrivals[k]? = some (w.clock, f) := by
    rw [hextends.getElem? hreached, harrival]
  have hne := huntied.1 k (List.getElem?_eq_some_iff.mp harrival').1
  rw [Schedule.last_succ harrival', hextends.last h.timely.reached] at hne
  exact Nat.lt_of_le_of_ne h.due hne

private theorem Waiting.obeys_closed (h : Waiting s id size window k b w)
    (hf : w.worker.frames = [])
    (hsends : w.worker.sends = false) (hr : (w.take .closed).replay? deeds = some w')
    (huntied : (s.after w.clock deeds).Untied window) :
    Obeys (s.after w.clock deeds) id size window k w'.clock
      ((w.clock, .closed) :: (w.take .closed).during id deeds) := by
  have hclosing := h.stopped hsends
  have hsame : s.after w.clock deeds = s :=
    after_of_stopped hclosing ((w.take_worker .closed).2.trans hsends) hr w.clock
  have hall := h.reached_all hf
  have htimely := h.timely
  have hdue := h.due
  rw [hall] at htimely hdue
  rw [hsame] at huntied ⊢
  have hlt : w.clock < s.last s.arrivals.length + window := by
    refine Nat.lt_of_le_of_ne hdue fun heq => huntied.2 ?_
    rw [hclosing, heq]
  rw [World.during_of_past (h.ends (.inl rfl)) hr]
  exact .of_not_silent (by simp) (htimely.not_silent_of_closing hclosing hlt)

private theorem Waiting.obeys_expired (h : Waiting s id size window k b w)
    (hf : w.worker.frames = [])
    (hsends : w.worker.sends = true) (hdue : s.last k + window ≤ w.clock)
    (hr : (w.take .expired).replay? deeds = some w') :
    Obeys (s.after w.clock deeds) id size window k w'.clock
      ((w.clock, .expired) :: (w.take .expired).during id deeds) := by
  have hclock : s.last k + window = w.clock := Nat.le_antisymm hdue h.due
  have hextends := s.extends_after w.clock deeds
  have hlast := hextends.last h.timely.reached
  obtain ⟨hsilent, hleast⟩ := h.silent hf hsends hclock hextends
  have hle := World.clock_le_of_replay? hr
  have hexpired : Obeys (s.after w.clock deeds) id size window k w'.clock
      [((s.after w.clock deeds).last k + window, .expired)] := by
    refine .of_silent hsilent hleast ?_
    rw [hlast, hclock]
    exact hle
  rw [hlast, hclock] at hexpired
  rw [World.during_of_past (h.ends (.inr rfl)) hr]
  exact hexpired

/-- A batch that the next frame completes hears nothing after it. -/
theorem Waiting.obeys_complete (h : Waiting s id size window k b w) {f : String}
    {frames : List String} (hf : w.worker.frames = f :: frames)
    (hlt : w.clock < s.last k + window) (hcomplete : ¬ s.Lacking id size (k + 1))
    (hpast : (w.take (.frame f)).dispatcher.Past id)
    (hr : (w.take (.frame f)).replay? deeds = some w') :
    Obeys (s.after w.clock deeds) id size window (k + 1) w'.clock
      ((w.take (.frame f)).during id deeds) := by
  obtain ⟨harrival, -⟩ := h.drop_eq hf
  have htimely := h.timely.succ harrival hlt
  have hextends := s.extends_after w.clock deeds
  have hcomplete' : ¬ (s.after w.clock deeds).Lacking id size (k + 1) := by
    rintro ⟨i, hi, hnone⟩
    exact hcomplete ⟨i, hi, (hextends.answer? htimely.reached id i).symm.trans hnone⟩
  rw [World.during_of_past hpast hr]
  exact .of_not_silent (by simp) ((htimely.extends hextends).not_silent_of_complete hcomplete')

theorem Waiting.law (h : Waiting s id size window k b w) (hr : w.replay? deeds = some w')
    (hrest : w'.offer = none) (huntied : (s.after w.clock deeds).Untied window) :
    Obeys (s.after w.clock deeds) id size window k w'.clock (w.during id deeds) := by
  induction deeds generalizing s k b w with
  | nil =>
    obtain rfl := Option.some.inj hr
    exact h.obeys_nil hrest
  | cons e deeds ih =>
    obtain ⟨u, hu, hreplay⟩ := World.replay?_cons hr
    rw [World.during_cons hu]
    by_cases he : ∃ i, e = .takes i
    · obtain ⟨i, rfl⟩ := he
      obtain ⟨hoffer, rfl⟩ := World.does?_takes hu
      have hsame : s.after w.clock (.takes i :: deeds) = s.after w.clock deeds := rfl
      rw [hsame] at huntied ⊢
      rw [h.hearsFor]
      obtain ⟨b', frame, hp, -⟩ |
          ⟨b', hp, ⟨f, frames, hf, rfl⟩ | ⟨hf, hsends, rfl⟩ | ⟨hf, hsends, hdue, rfl⟩⟩ :=
        World.offer_cases hoffer
      · rw [h.phase] at hp
        cases hp
      · have hlt := h.clock_lt hf huntied
        obtain ⟨harrival, -⟩ := h.drop_eq hf
        have hreached := (List.getElem?_eq_some_iff.mp harrival).1
        have hget := (s.extends_after w.clock deeds).getElem? hreached
        refine Obeys.frame ?_ (hget.trans harrival)
        rcases h.frame hf hlt with ⟨hcomplete, hpast⟩ | ⟨b'', h'⟩
        · exact h.obeys_complete hf hlt hcomplete hpast hreplay
        · exact ih h' hreplay huntied
      · exact h.obeys_closed hf hsends hreplay huntied
      · obtain rfl : b = b' := Phase.awaiting.inj (h.phase.symm.trans hp)
        rw [h.watchdog] at hdue
        exact h.obeys_expired hf hsends hdue hreplay
    · have hne : ∀ i, e ≠ .takes i := fun i hi => he ⟨i, hi⟩
      have h' := h.other hu hne
      rw [World.hearsFor_other hne, List.nil_append]
      rw [Schedule.after_cons, ← (World.does?_dispatcher hne hu).2] at huntied ⊢
      exact ih h' hreplay huntied

end

/-- The schedule of the batch that is awaited, given the deeds to come. -/
def World.schedule (w : World) (deeds : List Deed) : Schedule :=
  Schedule.after ⟨w.clock, w.worker.frames.map (w.clock, ·), none⟩ w.clock deeds

/-- A batch that was just sent waits for everything. -/
theorem waiting_of_visit {d : Dispatcher} {now : Nat} {b : Batch} {frame : String}
    (hq : d.pending.Quiet) (hr : d.isReady = true) (hp : (d.visit now).phase = .sending b frame)
    {w : World} (hd : w.dispatcher = (d.visit now).feed now .accepted) (hclock : w.clock = now)
    (hsends : w.worker.sends = true) :
    Waiting ⟨w.clock, w.worker.frames.map (w.clock, ·), none⟩ b.id b.size d.settings.batchTimeout 0
      b w := by
  have hphase := Dispatcher.phase_of_isReady hr
  cases ht : d.todo with
  | nil =>
    rw [Dispatcher.visit_nil now hq ht] at hp
    cases hp
  | cons l rest =>
    rcases Dispatcher.batches_singleton d.cwd l with hnone | ⟨hc, tests, htests, -⟩
    · obtain ⟨failures, console, log, he⟩ := Dispatcher.visit_skips ht hnone now
      rw [he, hphase] at hp
      cases hp
    · obtain ⟨frame', -, he⟩ := Dispatcher.visit_opens now hq ht hc htests
      obtain ⟨hlength, hin⟩ := hq.enroll d.nextId l.suite.cases.length
      rw [Dispatcher.feed_accepted hp, he] at hd
      rw [he] at hp
      cases hp
      have hpos : 0 < l.suite.cases.length := List.length_pos_iff.mpr (by simpa using hc)
      have hnone : Schedule.answer? ⟨w.clock, w.worker.frames.map (w.clock, ·), none⟩ 0 d.nextId =
          fun _ => none := by
        funext index
        simp [Schedule.answer?, firstAnswer?]
      refine ⟨?_, rfl, hlength, ?_, ?_, ⟨0, hpos, ?_⟩, ⟨Nat.zero_le _, ?_⟩, ?_, ?_, ?_, ?_, ?_, ?_⟩
      · rw [hd]
      · simp [Watchdog.arm, Schedule.last, hclock]
      · rw [hd, hnone]
        exact hin
      · rw [hnone]
      · intro j hj
        omega
      · simp [Function.comp_def]
      · simp
      · simp [Schedule.last]
      · simp
      · simp [hsends]
      · rw [hd]
        exact Nat.lt_succ_self _

/-- A batch is sent the moment its watchdog is armed, and from then on its worker does anything at
any time, though nothing at the very end of a window. What the batch hears follows the law, so
frames that are less than a window apart never let it expire. Nothing ever expires while a frame is
queued. -/
theorem watchdog_law {d : Dispatcher} (hd : Dispatcher.Reachable d) (hr : d.isReady = true)
    (now : Nat) (b : Batch) (frame : String) (hopen : (d.visit now).phase = .sending b frame)
    (w w' : World) (hw : w.dispatcher = (d.visit now).feed now .accepted) (hclock : w.clock = now)
    (hsends : w.worker.sends = true) (deeds : List Deed) (hreplay : w.replay? deeds = some w')
    (hrest : w'.offer = none) (huntied : (w.schedule deeds).Untied d.settings.batchTimeout) :
    Obeys (w.schedule deeds) b.id b.size d.settings.batchTimeout 0 w'.clock (w.during b.id deeds) ∧
      ((∀ k ≤ (w.schedule deeds).arrivals.length, (w.schedule deeds).Lacking b.id b.size k →
          k < (w.schedule deeds).arrivals.length ∧
            (w.schedule deeds).last (k + 1) <
              (w.schedule deeds).last k + d.settings.batchTimeout) →
        ∀ t, (t, .expired) ∉ w.during b.id deeds) ∧
      ∀ front back u, deeds = front ++ .takes .expired :: back → w.replay? front = some u →
        u.worker.frames = [] := by
  obtain ⟨d₀, plan, heard, -, done, -, hs⟩ := hd.course
  rw [Dispatcher.phase_of_isReady hr] at hs
  have hwaiting := waiting_of_visit hs.1 hr hopen hw hclock hsends
  have hlaw := hwaiting.law hreplay hrest huntied
  refine ⟨hlaw, fun hfrequent t hmem => ?_, fun front back u hsplit hfront => ?_⟩
  · obtain ⟨k, hsilent, -⟩ := (hlaw.expiry t).mp hmem
    obtain ⟨hk, hlt⟩ := hfrequent k hsilent.reached hsilent.lacking
    exact absurd (hsilent.frames hk) (Nat.not_le_of_lt hlt)
  · rw [hsplit, World.replay?_append, hfront, Option.bind_some] at hreplay
    obtain ⟨u', hu', -⟩ := World.replay?_cons hreplay
    obtain ⟨b', frame', -, ⟨-, hi⟩ | ⟨-, -, hi⟩⟩ |
        ⟨b', -, ⟨f, rest, -, hi⟩ | ⟨-, -, hi⟩ | ⟨hf, -, -, -⟩⟩ :=
      World.offer_cases (World.does?_takes hu').1
    · cases hi
    · cases hi
    · cases hi
    · cases hi
    · exact hf

/-- A run that is about to visit its only suite. -/
def lonelySuite : Dispatcher :=
  (Dispatcher.fresh ⟨500, false⟩ 2 default ⟨[Path.slash]⟩).start
    (.mk "" [⟨"a", []⟩, ⟨"b", []⟩] [])

/-- The suite was sent just now, and something is queued already. -/
def lonelyWorld : World where
  worker := { script := [], frames := ["junk"] }
  dispatcher := (lonelySuite.visit 0).feed 0 .accepted

/-- One answer and a frame about no test, neither of them late, and then silence. -/
def lonelyDeeds : List Deed :=
  [.takes (.frame "junk"), .waits 300, .sends (Response.mk 0 1 .ok).encode,
    .takes (.frame (Response.mk 0 1 .ok).encode), .waits 400, .sends (Response.mk 9 9 .ok).encode,
    .takes (.frame (Response.mk 9 9 .ok).encode), .waits 500, .takes .expired]

theorem watchdog_law_lonely :
    ∃ (w : World) (b : Batch), lonelyWorld.replay? lonelyDeeds = some w ∧
      Obeys (lonelyWorld.schedule lonelyDeeds) b.id b.size 500 0 w.clock
        (lonelyWorld.during b.id lonelyDeeds) ∧
      (1200, .expired) ∈ lonelyWorld.during b.id lonelyDeeds := by
  have hreachable : Dispatcher.Reachable lonelySuite := .start (.fresh ..) rfl _
  obtain ⟨b, frame, hphase, hid⟩ :
      ∃ b frame, (lonelySuite.visit 0).phase = .sending b frame ∧ b.id = 0 :=
    ⟨_, _, rfl, rfl⟩
  have hexpired : (1200, Input.expired) ∈ lonelyWorld.during 0 lonelyDeeds := by decide +kernel
  have huntied : (lonelyWorld.schedule lonelyDeeds).Untied 500 := by decide +kernel
  have hrest : (lonelyWorld.replay? lonelyDeeds).any (·.offer.isNone) = true := by decide +kernel
  cases hreplay : lonelyWorld.replay? lonelyDeeds with
  | none => simp [hreplay] at hrest
  | some w =>
    rw [hreplay, Option.any_some, Option.isNone_iff_eq_none] at hrest
    have hlaw := watchdog_law hreachable rfl 0 b frame hphase lonelyWorld w rfl rfl rfl lonelyDeeds
      hreplay hrest huntied
    exact ⟨w, b, rfl, hlaw.1, hid ▸ hexpired⟩

end SuiteRunner.Dispatch
