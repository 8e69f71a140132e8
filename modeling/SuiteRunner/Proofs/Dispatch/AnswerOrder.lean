import SuiteRunner.Proofs.Dispatch.Abort
import SuiteRunner.Proofs.Dispatch.Exchange
import SuiteRunner.Proofs.Dispatch.Failures
import SuiteRunner.Proofs.Dispatch.Sequence

/-! # The order of answers

A worker that answers every test it is given decides what a run comes to by its results alone. In
which order it sends them, and what else it sends, does not matter. -/
namespace SuiteRunner.Dispatch

open Suite (Located upcoming)
open Wire (Descriptor Request Response Verdict)

/-- Number of tests of the batch `id` among some suites. -/
def batchSize (cwd : Path) (suites : List Located) (id : Nat) : Nat :=
  ((batches cwd suites)[id]?.map fun b => b.1.suite.cases.length).getD 0

/-- A worker has taken `taken` requests and answered the tests `answered`. From here on it answers
every test of each request, after it took the request and with the result that the test has. What
else it sends cannot be read, is about no test of the run, or is about one that it has answered. -/
def Diligent (size : Nat → Nat) (results : Nat → Nat → Verdict) :
    Nat → List (Nat × Nat) → List Deed → Prop
  | taken, answered, [] => ∀ id < taken, ∀ i < size id, (id, i) ∈ answered
  | taken, answered, .receives :: deeds => Diligent size results (taken + 1) answered deeds
  | taken, answered, .sends frame :: deeds =>
    match Response.decode frame with
    | .error _ => Diligent size results taken answered deeds
    | .ok r =>
      if size r.id ≤ r.index ∨ (r.id, r.index) ∈ answered then
        Diligent size results taken answered deeds
      else
        r.id < taken ∧ r.verdict = results r.id r.index ∧
          Diligent size results taken ((r.id, r.index) :: answered) deeds
  | taken, answered, .takes _ :: deeds => Diligent size results taken answered deeds
  | taken, answered, .waits _ :: deeds => Diligent size results taken answered deeds
  | _, _, .stopsSending :: _ => False
  | _, _, .stopsReceiving :: _ => False

instance Diligent.decidable (size : Nat → Nat) (results : Nat → Nat → Verdict) :
    ∀ deeds taken answered, Decidable (Diligent size results taken answered deeds)
  | [], taken, answered =>
    inferInstanceAs (Decidable (∀ id < taken, ∀ i < size id, (id, i) ∈ answered))
  | .receives :: deeds, taken, answered => decidable size results deeds (taken + 1) answered
  | .sends frame :: deeds, taken, answered =>
    match h : Response.decode frame with
    | .error _ =>
      have := decidable size results deeds taken answered
      decidable_of_iff (Diligent size results taken answered deeds) (by simp [Diligent, h])
    | .ok r =>
      have := decidable size results deeds taken answered
      have := decidable size results deeds taken ((r.id, r.index) :: answered)
      decidable_of_iff (if size r.id ≤ r.index ∨ (r.id, r.index) ∈ answered then
          Diligent size results taken answered deeds
        else
          r.id < taken ∧ r.verdict = results r.id r.index ∧
            Diligent size results taken ((r.id, r.index) :: answered) deeds)
        (by simp only [Diligent, h])
  | .takes _ :: deeds, taken, answered => decidable size results deeds taken answered
  | .waits _ :: deeds, taken, answered => decidable size results deeds taken answered
  | .stopsSending :: _, _, _ => inferInstanceAs (Decidable False)
  | .stopsReceiving :: _, _, _ => inferInstanceAs (Decidable False)

/-! ## Answers in frames -/

/-- The frames of a hearing. -/
def framesOf (heard : Hearing) : List String :=
  heard.filterMap fun e =>
    match e.2 with
    | .frame text => some text
    | _ => none

private theorem framesOf_append (heard : Hearing) (id : Nat) (text : String) :
    framesOf (heard ++ [(id, .frame text)]) = framesOf heard ++ [text] := by
  simp [framesOf]

/-- A frame of a diligent worker tells nothing new about a test, or it is the answer to one. -/
theorem Diligent.sends {size : Nat → Nat} {results : Nat → Nat → Verdict} {taken : Nat}
    {answered : List (Nat × Nat)} {frame : String} {deeds : List Deed}
    (h : Diligent size results taken answered (.sends frame :: deeds)) :
    (∀ id i, i < size id → (id, i) ∉ answered → (Input.frame frame).answer? id i = none) ∧
        Diligent size results taken answered deeds ∨
      ∃ id i, id < taken ∧ (∀ id' i', (Input.frame frame).answer? id' i' =
          if id = id' ∧ i = i' then some (results id i) else none) ∧
        (id, i) ∉ answered ∧ Diligent size results taken ((id, i) :: answered) deeds := by
  simp only [Diligent] at h
  split at h
  · next fault hd => exact .inl ⟨fun id i _ _ => by simp [Input.answer?, hd], h⟩
  · next r hd =>
    split at h
    · next hnoise =>
      refine .inl ⟨fun id i hi hnew => ?_, h⟩
      simp only [Input.answer?, hd]
      rw [if_neg]
      intro hkey
      obtain ⟨rfl, rfl⟩ := hkey
      rcases hnoise with hle | hmem
      · omega
      · exact hnew hmem
    · next hnew =>
      obtain ⟨htaken, hverdict, hrest⟩ := h
      refine .inr ⟨r.id, r.index, htaken, fun id' i' => ?_, fun hmem => hnew (.inr hmem), hrest⟩
      simp only [Input.answer?, hd, hverdict]

/-! ## Keeping abreast -/

namespace Dispatcher

variable {d₀ d : Dispatcher} {plan : List Located} {heard : Hearing}

/-- While a batch is awaited its request is the last one sent, and all batches before it have their
results if none of them was waited for in vain. -/
theorem Course.awaiting (h : Course d₀ plan d heard) (h0 : d₀.nextId = 0) (hs0 : d₀.sent = [])
    {b : Batch} (hp : d.phase = .awaiting b) :
    d.sent.length = b.id + 1 ∧ batchSize d₀.cwd plan b.id = b.tickets.length ∧
      d.pending.InFlight b.id b.tickets (verdict? heard b.id) ∧
      ((∀ id, (id, .expired) ∉ heard) → ∀ id < b.id, ∀ i < batchSize d₀.cwd plan id,
        (verdict? heard id i).isSome = true) := by
  obtain ⟨done, hb, hs⟩ := h
  rw [hp] at hs
  obtain ⟨l, tests, hc, hin, hsent⟩ := hs
  have hone := batches_of_ok hc.nonempty hc.described
  have hid : b.id = (batches d₀.cwd done).length := by rw [hc.id, h0, Nat.zero_add]
  refine ⟨?_, ?_, hin, fun hpatient id hlt i hi => ?_⟩
  · rw [hsent.length_eq hs0, batches_append, hone, List.length_append, hid]
    rfl
  · rw [batchSize, hc.getElem?_batches h0, hc.tickets, hc.cases]
    rfl
  · rw [hid] at hlt
    have hget : (batches d₀.cwd plan)[id]? = some (batches d₀.cwd done)[id] := by
      rw [hc.order, batches_append, List.getElem?_append_left hlt, List.getElem?_eq_getElem hlt]
    rw [batchSize, hget] at hi
    have hsettled := hb.settled id _ (List.getElem?_eq_getElem hlt)
    rw [h0, Nat.zero_add] at hsettled
    rcases hsettled with hall | ⟨-, hexpired⟩
    · exact hall i hi
    · exact absurd hexpired (hpatient id)

end Dispatcher

open Dispatcher

/-- A worker that has taken `taken` requests and answered the tests `answered` keeps up with a
dispatcher that began with `d₀` and has heard `heard`. -/
structure Abreast (d₀ : Dispatcher) (plan : List Located) (results : Nat → Nat → Verdict)
    (w : World) (heard : Hearing) (taken : Nat) (answered : List (Nat × Nat)) : Prop where
  connected : World.Connected d₀ plan w heard
  going : ∀ fault, w.dispatcher.phase ≠ .ended (.aborted fault)
  patient : ∀ id, (id, .expired) ∉ heard
  room : w.capacity ≠ some 0
  received : taken + w.worker.requests.length = w.dispatcher.sent.length
  /-- Tests are answered after their request was taken. -/
  causal : ∀ f ∈ framesOf heard ++ w.worker.frames, ∀ id i, i < batchSize d₀.cwd plan id →
    (Input.frame f).answer? id i ≠ none → id < taken
  first : ∀ id i, i < batchSize d₀.cwd plan id →
    firstAnswer? (framesOf heard ++ w.worker.frames) id i =
      if (id, i) ∈ answered then some (results id i) else none
  /-- The first answer to a test comes while its batch is awaited. -/
  windows : ∀ id i, i < batchSize d₀.cwd plan id →
    verdict? heard id i = firstAnswer? (framesOf heard) id i

namespace Abreast

variable {d₀ : Dispatcher} {plan : List Located} {results : Nat → Nat → Verdict} {w w' : World}
  {heard : Hearing} {taken : Nat} {answered : List (Nat × Nat)}

theorem receives (h : Abreast d₀ plan results w heard taken answered)
    (hd : w.does? .receives = some w') : Abreast d₀ plan results w' heard (taken + 1) answered := by
  obtain ⟨request, requests, hr, rfl⟩ := World.does?_receives hd
  have hreceived := h.received
  rw [hr, List.length_cons] at hreceived
  exact { h with
    connected := h.connected.other hd nofun nofun nofun
    received := by
      simp only
      omega
    causal := fun f hf id i hi ha => Nat.lt_succ_of_lt (h.causal f hf id i hi ha) }

theorem waiting {ms : Nat} (h : Abreast d₀ plan results w heard taken answered)
    (hd : w.does? (.waits ms) = some w') : Abreast d₀ plan results w' heard taken answered := by
  have hconnected := h.connected.other hd nofun nofun nofun
  obtain ⟨-, -, rfl⟩ := World.does?_waits hd
  exact { h with connected := hconnected }

/-- A test that is answered was answered after its request was taken. -/
theorem lt_taken (h : Abreast d₀ plan results w heard taken answered) {id i : Nat}
    (hi : i < batchSize d₀.cwd plan id) (hmem : (id, i) ∈ answered) : id < taken := by
  have hfirst := h.first id i hi
  rw [if_pos hmem] at hfirst
  obtain ⟨f, hf, hv⟩ := exists_of_firstAnswer? hfirst
  exact h.causal f hf id i hi (by simp [hv])

/-- A frame is sent that may answer a test, if that is the first answer to it. -/
theorem saying {frame : String} {answered' : List (Nat × Nat)}
    (h : Abreast d₀ plan results w heard taken answered) (hd : w.does? (.sends frame) = some w')
    (hcausal : ∀ id i, i < batchSize d₀.cwd plan id →
      (Input.frame frame).answer? id i ≠ none → id < taken)
    (hfirst : ∀ id i, i < batchSize d₀.cwd plan id →
      (if (id, i) ∈ answered then some (results id i) else none).or
          ((Input.frame frame).answer? id i) =
        if (id, i) ∈ answered' then some (results id i) else none) :
    Abreast d₀ plan results w' heard taken answered' := by
  have hconnected := h.connected.other hd nofun nofun nofun
  obtain ⟨-, rfl⟩ := World.does?_sends hd
  refine { h with connected := hconnected, causal := ?_, first := ?_ }
  · simp only [← List.append_assoc]
    intro f hf id i hi ha
    rcases List.mem_append.mp hf with hf | hf
    · exact h.causal f hf id i hi ha
    · obtain rfl := List.mem_singleton.mp hf
      exact hcausal id i hi ha
  · intro id i hi
    simp only [← List.append_assoc]
    rw [firstAnswer?_append, h.first id i hi, firstAnswer?_singleton]
    exact hfirst id i hi

private theorem noise {frame : String} (h : Abreast d₀ plan results w heard taken answered)
    (hd : w.does? (.sends frame) = some w')
    (hnoise : ∀ id i, i < batchSize d₀.cwd plan id → (id, i) ∉ answered →
      (Input.frame frame).answer? id i = none) :
    Abreast d₀ plan results w' heard taken answered := by
  refine h.saying hd (fun id i hi ha => ?_) fun id i hi => ?_
  · by_cases hmem : (id, i) ∈ answered
    · exact h.lt_taken hi hmem
    · exact absurd (hnoise id i hi hmem) ha
  · by_cases hmem : (id, i) ∈ answered
    · simp [hmem]
    · simp [hmem, hnoise id i hi hmem]

theorem answer {frame : String} {id i : Nat} (h : Abreast d₀ plan results w heard taken answered)
    (hd : w.does? (.sends frame) = some w') (htaken : id < taken) (hnew : (id, i) ∉ answered)
    (hanswer : ∀ id' i', (Input.frame frame).answer? id' i' =
      if id = id' ∧ i = i' then some (results id i) else none) :
    Abreast d₀ plan results w' heard taken ((id, i) :: answered) := by
  refine h.saying hd (fun id' i' _ ha => ?_) fun id' i' _ => ?_
  · rw [hanswer] at ha
    by_cases hkey : id = id' ∧ i = i'
    · exact hkey.1 ▸ htaken
    · simp [hkey] at ha
  · rw [hanswer]
    by_cases hkey : id = id' ∧ i = i'
    · obtain ⟨rfl, rfl⟩ := hkey
      simp [hnew]
    · have hne : (id', i') ≠ (id, i) := by
        rintro heq
        obtain ⟨rfl, rfl⟩ := Prod.mk.inj heq
        exact hkey ⟨rfl, rfl⟩
      simp [hkey, hne]

theorem accepted {b : Batch} {frame : String}
    (h : Abreast d₀ plan results w heard taken answered)
    (hp : w.dispatcher.phase = .sending b frame) :
    Abreast d₀ plan results (w.take .accepted) heard taken answered := by
  have hconnected := h.connected.take .accepted
  have hears_eq : w.dispatcher.hears .accepted = [] := by simp [Dispatcher.hears, hp]
  have hstep : w.dispatcher.step w.clock .accepted =
      { w.dispatcher with sent := w.dispatcher.sent ++ [frame], phase := .awaiting b } := by
    rw [Dispatcher.step, feed_accepted hp]
    exact settleFor_of_not_ready rfl _ _
  rw [hears_eq, List.append_nil, World.take, hstep, World.consume_accepted hp] at hconnected
  rw [World.take, hstep, World.consume_accepted hp]
  refine { h with connected := hconnected, going := by simp, received := ?_ }
  simp only [List.length_append, List.length_singleton]
  have hreceived := h.received
  omega

/-- An answer that is heard is about the batch in flight, or about one that has all its answers. -/
theorem frame (h : Abreast d₀ plan results w heard taken answered) (h0 : d₀.nextId = 0)
    (hs0 : d₀.sent = []) {b : Batch} (hp : w.dispatcher.phase = .awaiting b) {f : String}
    {frames : List String} (hf : w.worker.frames = f :: frames) :
    Abreast d₀ plan results (w.take (.frame f)) (heard ++ [(b.id, .frame f)]) taken answered := by
  obtain ⟨hlength, -, -, hbehind⟩ := h.connected.ledger.course.awaiting h0 hs0 hp
  have hears_eq : w.dispatcher.hears (.frame f) = [(b.id, .frame f)] := by
    simp [Dispatcher.hears, hp]
  have hconnected := h.connected.take (.frame f)
  have hfed := h.connected.ledger.feed w.clock (.frame f)
  rw [hears_eq] at hconnected hfed
  have hsent : (w.dispatcher.step w.clock (.frame f)).sent = w.dispatcher.sent := by
    rcases frame_feed w.dispatcher w.clock (.frame f) with ⟨b', frame, hp', -⟩ | hframe
    · simp [hp] at hp'
    · exact (hfed.sent_settle w.clock).trans hframe.sent
  have hsaid : framesOf (heard ++ [(b.id, .frame f)]) ++ frames =
      framesOf heard ++ w.worker.frames := by
    rw [framesOf_append, hf]
    simp
  rw [World.take, World.consume_frame hf] at hconnected ⊢
  refine { h with
    connected := hconnected, going := ?_, patient := ?_, received := ?_, causal := ?_, first := ?_,
    windows := ?_ }
  · intro fault hfault
    rcases fatal_of_step hfault with hended | ⟨b', hfatal⟩
    · simp [hp] at hended
    · simp [fatal?, hp] at hfatal
  · simpa using h.patient
  · rw [hsent]
    exact h.received
  · rw [hsaid]
    exact h.causal
  · rw [hsaid]
    exact h.first
  · intro id i hi
    rw [verdict?_append, framesOf_append, firstAnswer?_append, firstAnswer?_singleton,
      h.windows id i hi]
    by_cases hid : b.id = id
    · rw [if_pos hid]
    · rw [if_neg hid]
      cases ha : (Input.frame f).answer? id i with
      | none => rfl
      | some v =>
        -- The request of this test was taken, so its batch is over and has the answer already.
        have htaken := h.causal f (by simp [hf]) id i hi (by simp [ha])
        have hreceived := h.received
        have hsome := hbehind h.patient id (by omega) i hi
        rw [h.windows id i hi] at hsome
        obtain ⟨v', hv'⟩ := Option.isSome_iff_exists.mp hsome
        rw [hv']
        rfl

theorem taking (h : Abreast d₀ plan results w heard taken answered) (h0 : d₀.nextId = 0)
    (hs0 : d₀.sent = []) {i : Input} (hd : w.does? (.takes i) = some w') (hi : i ≠ .expired) :
    ∃ heard', Abreast d₀ plan results w' heard' taken answered := by
  obtain ⟨hoffer, rfl⟩ := World.does?_takes hd
  obtain ⟨b, frame, hp, -, rfl⟩ | ⟨b, hp, ⟨f, frames, hf, rfl⟩ | ⟨-, -, rfl⟩⟩ :=
    h.connected.offer_cases hoffer
  · exact ⟨heard, h.accepted hp⟩
  · exact ⟨_, h.frame h0 hs0 hp hf⟩
  · exact absurd rfl hi

/-- A diligent worker keeps up to the end, and then has answered all that it has taken. -/
theorem replay {deeds : List Deed} (h : Abreast d₀ plan results w heard taken answered)
    (h0 : d₀.nextId = 0) (hs0 : d₀.sent = []) (hr : w.replay? deeds = some w')
    (hdiligent : Diligent (batchSize d₀.cwd plan) results taken answered deeds)
    (hpatient : .takes .expired ∉ deeds) :
    ∃ heard' taken' answered', Abreast d₀ plan results w' heard' taken' answered' ∧
      ∀ id < taken', ∀ i < batchSize d₀.cwd plan id, (id, i) ∈ answered' := by
  induction deeds generalizing w heard taken answered with
  | nil =>
    obtain rfl := Option.some.inj hr
    exact ⟨heard, taken, answered, h, hdiligent⟩
  | cons e deeds ih =>
    obtain ⟨u, hu, hrest⟩ := World.replay?_cons hr
    rw [List.mem_cons, not_or] at hpatient
    cases e with
    | takes i =>
      have hi : i ≠ .expired := fun heq => hpatient.1 (heq ▸ rfl)
      obtain ⟨heard', h'⟩ := h.taking h0 hs0 hu hi
      exact ih h' hrest hdiligent hpatient.2
    | receives => exact ih (h.receives hu) hrest hdiligent hpatient.2
    | sends frame =>
      rcases hdiligent.sends with ⟨hnoise, hd⟩ | ⟨id, i, htaken, hanswer, hnew, hd⟩
      · exact ih (h.noise hu hnoise) hrest hd hpatient.2
      · exact ih (h.answer hu htaken hnew hanswer) hrest hd hpatient.2
    | stopsSending => exact hdiligent.elim
    | stopsReceiving => exact hdiligent.elim
    | waits ms => exact ih (h.waiting hu) hrest hdiligent hpatient.2

theorem opening {d : Dispatcher} {capacity : Option Nat} (hq : d.pending.Quiet)
    (hs0 : d.sent = []) (hroom : capacity ≠ some 0) (now : Nat) (root : Suite) :
    Abreast d (root.preorder "") results (World.opening d now root capacity) [] 0 [] := by
  have hstart := ledger_start hq root
  refine ⟨World.connected_opening hq now root capacity, ?_, ?_, hroom, ?_, ?_, ?_, ?_⟩
  · intro fault hfault
    cases settle_aborted hfault
  · simp
  · have hsent := hstart.sent_settle now
    simp only [World.opening]
    rw [hsent]
    simp [start, hs0]
  · simp [World.opening, framesOf]
  · simp [World.opening, framesOf, firstAnswer?]
  · simp [verdict?, framesOf, firstAnswer?]

/-- Where nothing is left to take, nothing is left to do. -/
theorem completed (h : Abreast d₀ plan results w heard taken answered) (h0 : d₀.nextId = 0)
    (hs0 : d₀.sent = [])
    (hall : ∀ id < taken, ∀ i < batchSize d₀.cwd plan id, (id, i) ∈ answered)
    (hoffer : w.offer = none) (hrequests : w.worker.requests = []) :
    w.dispatcher.ending? = some .completed := by
  cases hp : w.dispatcher.phase with
  | ready =>
    have hwaits := h.connected.waits
    simp [isReady, hp] at hwaits
  | sending b frame =>
    -- An empty queue has room.
    have hroom : w.hasRoom = true := by
      unfold World.hasRoom
      split
      · next n hn =>
        have hpos : n ≠ 0 := fun heq => h.room (heq ▸ hn)
        simpa [hrequests] using Nat.pos_of_ne_zero hpos
      · rfl
    simp [World.offer, hp, h.connected.takes, hroom] at hoffer
  | awaiting b =>
    obtain ⟨hframes, -, -⟩ := World.of_offer_eq_none hp hoffer
    obtain ⟨hlength, hsize, hin, -⟩ := h.connected.ledger.course.awaiting h0 hs0 hp
    have hreceived := h.received
    rw [hrequests, List.length_nil] at hreceived
    refine absurd ?_ (h.connected.ledger.owing b (by simp [inFlight?, hp]))
    rw [hin.outstanding_eq_zero_iff]
    intro i hi
    rw [← hsize] at hi
    have hfirst := h.first b.id i hi
    rw [hframes, List.append_nil, if_pos (hall b.id (by omega) i hi), ← h.windows b.id i hi]
      at hfirst
    rw [hfirst]
    rfl
  | ended e =>
    have he : w.dispatcher.ending? = some e := by simp [ending?, hp]
    obtain rfl | ⟨fault, rfl⟩ := h.connected.ledger.course.ending_cases he
    · exact he
    · exact absurd hp (h.going fault)

/-- What a completed run comes to is told by the tree and the results. -/
theorem outcome (h : Abreast d₀ plan results w heard taken answered) (h0 : d₀.nextId = 0)
    (hended : w.dispatcher.ending? = some .completed) :
    Sent d₀ w.dispatcher plan ∧
      w.dispatcher.summary.testsRun = d₀.summary.testsRun + caseCount plan ∧
      w.dispatcher.summary.failures = d₀.summary.failures ++
        failuresFrom d₀.cwd (timeoutMessage d₀.window) (fun id i => some (results id i)) 0 plan := by
  obtain ⟨hb, hsent⟩ := h.connected.ledger.course.behind_of_completed hended
  refine ⟨hsent, ?_, ?_⟩
  · obtain ⟨seen, horder, htests, -⟩ := h.connected.ledger.begun
    rw [h.connected.ledger.ended (phase_of_ending? hended)] at horder
    rw [htests, horder]
    simp [upcoming]
  · rw [hb.failures, h0]
    congr 1
    apply failuresFrom_congr
    intro id b hid i hi
    rw [Nat.zero_add]
    have hsize : i < batchSize d₀.cwd plan id := by
      rw [batchSize, hid]
      exact hi
    have hsettled := hb.settled id b hid
    rw [h0, Nat.zero_add] at hsettled
    rcases hsettled with hsome | ⟨-, hexpired⟩
    · obtain ⟨v, hv⟩ := Option.isSome_iff_exists.mp (hsome i hi)
      have hfirst := h.first id i hsize
      rw [firstAnswer?_append, ← h.windows id i hsize, hv] at hfirst
      by_cases hmem : (id, i) ∈ answered
      · rw [if_pos hmem] at hfirst
        rw [hv]
        exact hfirst
      · rw [if_neg hmem] at hfirst
        cases hfirst
    · exact absurd hexpired (h.patient id)

end Abreast

/-! ## Two runs -/

/-- A run of a tree against a diligent worker, seen to its end: the worker has taken all requests,
and the dispatcher finds nothing any more. The worker is never silent for too long. -/
structure Served (d : Dispatcher) (root : Suite) (results : Nat → Nat → Verdict)
    (deeds : List Deed) (w : World) : Prop where
  replay : ∃ now capacity, capacity ≠ some 0 ∧
    (World.opening d now root capacity).replay? deeds = some w
  diligent : Diligent (batchSize d.cwd (root.preorder "")) results 0 [] deeds
  patient : .takes .expired ∉ deeds
  taken : w.worker.requests = []
  rest : w.offer = none

/-- Whether a run is such a one can be computed. -/
theorem exists_served {d : Dispatcher} {root : Suite} {results : Nat → Nat → Verdict}
    {deeds : List Deed} (now : Nat) (capacity : Option Nat) (hroom : capacity ≠ some 0)
    (hreplay : ((World.opening d now root capacity).replay? deeds).any
      (fun w => w.worker.requests.isEmpty && w.offer.isNone) = true)
    (hdiligent : Diligent (batchSize d.cwd (root.preorder "")) results 0 [] deeds)
    (hpatient : .takes .expired ∉ deeds) : ∃ w, Served d root results deeds w := by
  cases hw : (World.opening d now root capacity).replay? deeds with
  | none => simp [hw] at hreplay
  | some w =>
    rw [hw, Option.any_some, Bool.and_eq_true, List.isEmpty_iff, Option.isNone_iff_eq_none]
      at hreplay
    exact ⟨w, ⟨now, capacity, hroom, hw⟩, hdiligent, hpatient, hreplay.1, hreplay.2⟩

theorem Served.outcome {settings : DispatchSettings} {total : Nat} {begun : Moment} {cwd : Path}
    {root : Suite} {results : Nat → Nat → Verdict} {deeds : List Deed} {w : World}
    (h : Served (fresh settings total begun cwd) root results deeds w) :
    w.dispatcher.ending? = some .completed ∧
      w.dispatcher.sent.map some = (requests cwd 0 (root.preorder "")).map Request.encode? ∧
      w.dispatcher.summary.testsRun = caseCount (root.preorder "") ∧
      w.dispatcher.summary.failures =
        failuresFrom cwd (timeoutMessage settings.batchSpan) (fun id i => some (results id i)) 0
          (root.preorder "") := by
  obtain ⟨now, capacity, hroom, hreplay⟩ := h.replay
  have hopening : Abreast (fresh settings total begun cwd) (root.preorder "") results
      (World.opening (fresh settings total begun cwd) now root capacity) [] 0 [] :=
    Abreast.opening Pending.quiet_empty rfl hroom now root
  obtain ⟨heard, taken, answered, habreast, hall⟩ :=
    hopening.replay rfl rfl hreplay h.diligent h.patient
  have hended := habreast.completed rfl rfl hall h.rest h.taken
  obtain ⟨hsent, htests, hfailures⟩ := habreast.outcome rfl hended
  exact ⟨hended, hsent, htests.trans (Nat.zero_add _), hfailures⟩

/-- Against two workers that have the same results, a tree is run with the same requests, the same
count of tests and the same failures, which stand in the order of the tests. -/
theorem served_alike (settings : DispatchSettings) (total : Nat) (begun : Moment) (cwd : Path)
    (root : Suite) (results : Nat → Nat → Verdict) (deeds₁ deeds₂ : List Deed) (w₁ w₂ : World)
    (h₁ : Served (fresh settings total begun cwd) root results deeds₁ w₁)
    (h₂ : Served (fresh settings total begun cwd) root results deeds₂ w₂) :
    w₁.dispatcher.ending? = some .completed ∧ w₂.dispatcher.ending? = some .completed ∧
      w₁.dispatcher.sent = w₂.dispatcher.sent ∧
      w₁.dispatcher.summary.testsRun = w₂.dispatcher.summary.testsRun ∧
      w₁.dispatcher.summary.failures = w₂.dispatcher.summary.failures ∧
      w₁.dispatcher.summary.failures =
        failuresFrom cwd (timeoutMessage settings.batchSpan) (fun id i => some (results id i)) 0
          (root.preorder "") := by
  obtain ⟨hended₁, hsent₁, htests₁, hfailures₁⟩ := h₁.outcome
  obtain ⟨hended₂, hsent₂, htests₂, hfailures₂⟩ := h₂.outcome
  have hsent : w₁.dispatcher.sent = w₂.dispatcher.sent :=
    (List.map_inj_right fun _ _ => Option.some.inj).mp (hsent₁.trans hsent₂.symm)
  exact ⟨hended₁, hended₂, hsent, htests₁.trans htests₂.symm, hfailures₁.trans hfailures₂.symm,
    hfailures₁⟩

def pairTree : Suite :=
  .mk "" [] [.mk "first" [⟨"a", []⟩, ⟨"b", []⟩] [], .mk "second" [⟨"c", []⟩] []]

def pairResults (id index : Nat) : Verdict :=
  if id = 0 ∧ index = 0 then .failed (some "boom") else .ok

def answerFrame (id index : Nat) : String := (Response.mk id index (pairResults id index)).encode

/-- One answer after the other. -/
def orderlyDeeds : List Deed :=
  [.takes .accepted, .receives, .sends (answerFrame 0 0), .takes (.frame (answerFrame 0 0)),
    .sends (answerFrame 0 1), .takes (.frame (answerFrame 0 1)), .takes .accepted, .receives,
    .waits 20, .sends (answerFrame 1 0), .takes (.frame (answerFrame 1 0))]

/-- The same answer taken back, which is heard only while the next batch is awaited. -/
def recanted : String := (Response.mk 0 1 (.failed (some "late"))).encode

/-- Answers the other way round, among other frames. -/
def noisyDeeds : List Deed :=
  [.sends "junk", .takes .accepted, .takes (.frame "junk"), .receives, .sends (answerFrame 7 0),
    .sends (answerFrame 0 1), .sends (answerFrame 0 0), .sends recanted,
    .takes (.frame (answerFrame 7 0)), .takes (.frame (answerFrame 0 1)),
    .takes (.frame (answerFrame 0 0)), .takes .accepted, .takes (.frame recanted), .receives,
    .sends (answerFrame 1 0), .takes (.frame (answerFrame 1 0))]

theorem served_alike_noisy :
    ∃ w₁ w₂, Served (fresh ⟨500, false⟩ 3 default ⟨[Path.slash]⟩) pairTree pairResults
        orderlyDeeds w₁ ∧
      Served (fresh ⟨500, false⟩ 3 default ⟨[Path.slash]⟩) pairTree pairResults noisyDeeds w₂ ∧
      w₁.dispatcher.sent = w₂.dispatcher.sent ∧
      w₁.dispatcher.summary.failures = [⟨"/first/a", "boom"⟩] ∧
      w₂.dispatcher.summary.failures = [⟨"/first/a", "boom"⟩] := by
  obtain ⟨w₁, h₁⟩ : ∃ w, Served (fresh ⟨500, false⟩ 3 default ⟨[Path.slash]⟩) pairTree
      pairResults orderlyDeeds w :=
    exists_served 0 (some 1) (by decide) (by decide +kernel)
      (by decide +kernel) (by decide +kernel)
  obtain ⟨w₂, h₂⟩ : ∃ w, Served (fresh ⟨500, false⟩ 3 default ⟨[Path.slash]⟩) pairTree
      pairResults noisyDeeds w :=
    exists_served 9 none (by decide) (by decide +kernel)
      (by decide +kernel) (by decide +kernel)
  obtain ⟨-, -, hsent, -, hsame, hfailures⟩ := served_alike _ _ _ _ _ _ _ _ _ _ h₁ h₂
  have hboom : failuresFrom ⟨[Path.slash]⟩ (timeoutMessage (DispatchSettings.batchSpan ⟨500, false⟩))
      (fun id i => some (pairResults id i)) 0 (pairTree.preorder "") = [⟨"/first/a", "boom"⟩] := by
    decide +kernel
  exact ⟨w₁, w₂, h₁, h₂, hsent, hfailures.trans hboom, hsame ▸ hfailures.trans hboom⟩

end SuiteRunner.Dispatch
