import SuiteRunner.Transport.Pump

/-! # Nothing is lost between socket and queue

Whatever the reader and the receiver do, the texts that were received, those in the queue, the one
that waits for room and those still on the socket make up one and the same sequence. -/
namespace SuiteRunner.Transport

namespace SocketFrame

@[simp] theorem texts_nil : texts [] = [] := rfl

private theorem texts_of_isLast {f : SocketFrame} (h : f.isLast = true)
    (frames : List SocketFrame) : texts (f :: frames) = [] := by
  simp [texts, h]

private theorem texts_of_not_isLast {f : SocketFrame} (h : f.isLast = false)
    (frames : List SocketFrame) : texts (f :: frames) = f.text?.toList ++ texts frames := by
  cases hf : f.text? <;> simp [texts, h, hf]

end SocketFrame

namespace Queue

variable {α : Type}

def Received.item? : Received α → Option α
  | .item a => some a
  | .nothingYet | .ended => none

/-- The items among all that a receiver got. -/
def taken (got : List (Received α)) : List α := got.filterMap Received.item?

/-- There is no end while something is left, and no end but that of the sender. -/
theorem receive_cases (q : Queue α) :
    (∃ a rest, q.items = a :: rest ∧ q.receive = ({ q with items := rest }, .item a)) ∨
    q.items = [] ∧ q.senderGone = true ∧ q.receive = (q, .ended) ∨
    q.items = [] ∧ q.senderGone = false ∧ q.receive = (q, .nothingYet) := by
  unfold receive
  cases hitems : q.items with
  | cons a rest => exact .inl ⟨a, rest, rfl, rfl⟩
  | nil =>
    cases hgone : q.senderGone with
    | true => exact .inr (.inl ⟨rfl, rfl, rfl⟩)
    | false => exact .inr (.inr ⟨rfl, rfl, rfl⟩)

end Queue

namespace Pump

variable {p : Pump}

/-- Somebody receives, and a reader that has ended has nothing left. -/
structure Attended (p : Pump) : Prop where
  receiver : p.queue.receiverGone = false
  ended : p.queue.senderGone = true → p.held = none ∧ p.socket = []

/-- The texts that are still to be received. -/
def rest (p : Pump) : List String := p.queue.items ++ p.held.toList ++ SocketFrame.texts p.socket

theorem attended_start (capacity : Nat) (socket : List SocketFrame) :
    (start capacity socket).Attended :=
  ⟨rfl, nofun⟩

theorem rest_start (capacity : Nat) (socket : List SocketFrame) :
    (start capacity socket).rest = SocketFrame.texts socket := rfl

/-! ## The reader -/

private theorem Attended.senderGone_eq_false (h : p.Attended) {text : String}
    (hheld : p.held = some text) : p.queue.senderGone = false := by
  cases hgone : p.queue.senderGone with
  | false => rfl
  | true =>
    have hnone := (h.ended hgone).1
    simp [hheld] at hnone

/-- The reader does nothing, hands its text over, ends, or takes a frame off the socket. -/
theorem advance_cases (h : p.Attended) :
    p.advance = p ∨
    (∃ text, p.held = some text ∧ p.queue.senderGone = false ∧ p.advance =
      { p with queue := { p.queue with items := p.queue.items ++ [text] }, held := none }) ∨
    (∃ f frames, p.held = none ∧ p.socket = f :: frames ∧ f.isLast = true ∧
      p.advance = { p with socket := [], queue := p.queue.dropSender }) ∨
    ∃ f frames, p.held = none ∧ p.socket = f :: frames ∧ f.isLast = false ∧
      p.advance = { p with socket := frames, held := f.text? } := by
  cases hheld : p.held with
  | some text =>
    have hgone := h.senderGone_eq_false hheld
    by_cases hroom : p.queue.items.length < p.queue.capacity
    · refine .inr (.inl ⟨text, rfl, hgone, ?_⟩)
      simp [advance, hheld, push, Queue.send, h.receiver, hgone, hroom]
    · left
      simp [advance, hheld, push, Queue.send, h.receiver, hgone, hroom]
  | none =>
    cases hsocket : p.socket with
    | nil =>
      left
      simp [advance, hheld, take, hsocket]
    | cons f frames =>
      cases hlast : f.isLast with
      | true =>
        refine .inr (.inr (.inl ⟨f, frames, rfl, rfl, hlast, ?_⟩))
        simp [advance, hheld, take, hsocket, hlast]
      | false =>
        refine .inr (.inr (.inr ⟨f, frames, rfl, rfl, hlast, ?_⟩))
        simp [advance, hheld, take, hsocket, hlast]

theorem Attended.advance (h : p.Attended) : p.advance.Attended := by
  obtain heq | ⟨text, -, hgone, heq⟩ | ⟨f, frames, hheld, -, -, heq⟩ |
      ⟨f, frames, -, hsocket, -, heq⟩ := advance_cases h
  · rwa [heq]
  · rw [heq]
    exact ⟨h.receiver, fun hended => absurd hended (by simp [hgone])⟩
  · rw [heq]
    exact ⟨h.receiver, fun _ => ⟨hheld, rfl⟩⟩
  · rw [heq]
    refine ⟨h.receiver, fun hended => ?_⟩
    have hempty := (h.ended hended).2
    simp [hsocket] at hempty

/-- The reader neither drops a text nor makes one up, and keeps their order. -/
theorem rest_advance (h : p.Attended) : p.advance.rest = p.rest := by
  obtain heq | ⟨text, hheld, -, heq⟩ | ⟨f, frames, hheld, hsocket, hlast, heq⟩ |
      ⟨f, frames, hheld, hsocket, hlast, heq⟩ := advance_cases h
  · rw [heq]
  · rw [heq]
    simp [rest, hheld]
  · rw [heq]
    simp [rest, hheld, hsocket, SocketFrame.texts_of_isLast hlast, Queue.dropSender]
  · rw [heq]
    simp [rest, hheld, hsocket, SocketFrame.texts_of_not_isLast hlast]

/-- What was handed over stays in the queue until it is received. -/
theorem items_advance (h : p.Attended) :
    ∃ more, p.advance.queue.items = p.queue.items ++ more := by
  obtain heq | ⟨text, -, -, heq⟩ | ⟨f, frames, -, -, -, heq⟩ | ⟨f, frames, -, -, -, heq⟩ :=
    advance_cases h
  · exact ⟨[], by rw [heq, List.append_nil]⟩
  · exact ⟨[text], by rw [heq]⟩
  · exact ⟨[], by rw [heq, List.append_nil]; rfl⟩
  · exact ⟨[], by rw [heq, List.append_nil]⟩

/-! ## The receiver -/

/-- The pump after somebody looked into the queue. -/
def received (p : Pump) : Pump := { p with queue := p.queue.receive.1 }

theorem Attended.received (h : p.Attended) : p.received.Attended := by
  unfold Pump.received
  obtain ⟨a, rest, -, heq⟩ | ⟨-, -, heq⟩ | ⟨-, -, heq⟩ := p.queue.receive_cases <;> rw [heq]
  · exact ⟨h.receiver, h.ended⟩
  · exact h
  · exact h

/-- What is received comes off the front of what is still to be received. -/
theorem rest_received (p : Pump) :
    p.queue.receive.2.item?.toList ++ p.received.rest = p.rest := by
  unfold Pump.received
  obtain ⟨a, rest, hitems, heq⟩ | ⟨-, -, heq⟩ | ⟨-, -, heq⟩ := p.queue.receive_cases <;> rw [heq]
  · simp [Pump.rest, hitems, Queue.Received.item?]
  · rfl
  · rfl

/-- The end comes last. -/
theorem Attended.rest_of_ended (h : p.Attended) (hended : p.queue.receive.2 = .ended) :
    p.rest = [] := by
  obtain ⟨a, rest, -, heq⟩ | ⟨hitems, hgone, -⟩ | ⟨-, -, heq⟩ := p.queue.receive_cases
  · rw [heq] at hended
    cases hended
  · obtain ⟨hheld, hsocket⟩ := h.ended hgone
    simp [rest, hitems, hheld, hsocket]
  · rw [heq] at hended
    cases hended

/-! ## Any interleaving -/

theorem run_receiver (moves : List Move) (p : Pump) :
    (run (.receiver :: moves) p).2 = p.queue.receive.2 :: (run moves p.received).2 := rfl

/-- What was received and what is still to come is what there was. -/
theorem taken_append_rest (moves : List Move) (h : p.Attended) :
    Queue.taken (run moves p).2 ++ (run moves p).1.rest = p.rest := by
  induction moves generalizing p with
  | nil => rfl
  | cons move moves ih =>
    cases move with
    | reader => exact (ih h.advance).trans (rest_advance h)
    | receiver =>
      have htaken : Queue.taken (run (.receiver :: moves) p).2 =
          p.queue.receive.2.item?.toList ++ Queue.taken (run moves p.received).2 := by
        rw [run_receiver, Queue.taken, List.filterMap_cons]
        cases p.queue.receive.2.item? <;> rfl
      have hrest : (run (.receiver :: moves) p).1.rest = (run moves p.received).1.rest := rfl
      rw [htaken, hrest, List.append_assoc, ih h.received]
      exact rest_received p

/-- Whoever finds the end has received everything. -/
theorem taken_of_ended {moves : List Move} {before after : List (Queue.Received String)}
    (h : p.Attended) (hsplit : (run moves p).2 = before ++ .ended :: after) :
    Queue.taken before = p.rest := by
  induction moves generalizing p before with
  | nil => simp [run] at hsplit
  | cons move moves ih =>
    cases move with
    | reader => exact (ih h.advance hsplit).trans (rest_advance h)
    | receiver =>
      rw [run_receiver] at hsplit
      cases before with
      | nil =>
        have hended : p.queue.receive.2 = .ended := (List.cons.inj hsplit).1
        rw [h.rest_of_ended hended]
        rfl
      | cons got before =>
        obtain ⟨hgot, hrest⟩ := List.cons.inj hsplit
        have htaken : Queue.taken (got :: before) = got.item?.toList ++ Queue.taken before := by
          rw [Queue.taken, List.filterMap_cons]
          cases got.item? <;> rfl
        rw [htaken, ih h.received hrest, ← hgot]
        exact rest_received p

end Pump

end SuiteRunner.Transport
