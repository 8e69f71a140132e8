import SuiteRunner.Proofs.Dispatch.Course

/-! # The sequence of requests

The frames of a run are the requests of the suites that can be sent, in pre-order and numbered from
zero, each after the one before it is over. -/
namespace SuiteRunner.Dispatch

open Suite (Located upcoming)
open Wire (Descriptor Request)

private theorem of_mem_batches {cwd : Path} {suites : List Located} {b : Located × List Descriptor}
    (h : b ∈ batches cwd suites) :
    b.1.suite.cases ≠ [] ∧ List.Forall₂ (Describes cwd) b.1.suite.cases b.2 := by
  obtain ⟨l, -, hb⟩ := List.mem_filterMap.mp h
  unfold batchOf? at hb
  split at hb
  · cases hb
  · next hne =>
    obtain ⟨tests, htests, rfl⟩ := Option.map_eq_some_iff.mp hb
    refine ⟨by simpa using hne, describe_eq_ok_iff.mp ?_⟩
    cases hd : describe cwd l.suite.cases with
    | error fault => simp [hd, Except.toOption] at htests
    | ok tests' =>
      rw [hd] at htests
      cases htests
      rfl

private theorem getElem?_requests (cwd : Path) (id : Nat) (suites : List Located) (j : Nat) :
    (requests cwd id suites)[j]? = (batches cwd suites)[j]?.map fun b => ⟨id + j, b.2⟩ := by
  simp only [requests, List.getElem?_map, List.getElem?_zipIdx, Option.map_map]
  rfl

namespace Dispatcher

variable {d₀ d : Dispatcher} {plan : List Located} {heard : Hearing} {done : List Located}

/-- All batches but the last one are over, where at most one of them is not among those behind. -/
theorem Behind.settled_append (h : Behind d₀ d heard done) {tail : List Located}
    (htail : (batches d₀.cwd tail).length ≤ 1) (j : Nat) (b : Located × List Descriptor)
    (hj : j + 1 < (batches d₀.cwd (done ++ tail)).length)
    (hb : (batches d₀.cwd (done ++ tail))[j]? = some b) :
    Settled d₀.settings heard (d₀.nextId + j) b.1.suite.cases.length := by
  rw [batches_append, List.length_append] at hj
  rw [batches_append, List.getElem?_append_left (by omega)] at hb
  exact h.settled j b hb

section

variable {front : List Located}

theorem Sent.length_eq (h : Sent d₀ d front) (h0 : d₀.sent = []) :
    d.sent.length = (batches d₀.cwd front).length := by
  rw [Sent, h0] at h
  simpa [requests] using congrArg List.length h

theorem Sent.getElem? (h : Sent d₀ d front) (h0 : d₀.sent = []) {j : Nat} {frame : String}
    (hj : d.sent[j]? = some frame) :
    ∃ b, (batches d₀.cwd front)[j]? = some b ∧
      (Request.mk (d₀.nextId + j) b.2).encode? = some frame := by
  have hframe : (d.sent.map some)[j]? = some (some frame) := by
    rw [List.getElem?_map, hj]
    rfl
  rw [h, h0, List.map_nil, List.nil_append, List.getElem?_map, getElem?_requests,
    Option.map_map] at hframe
  obtain ⟨b, hb, hencode⟩ := Option.map_eq_some_iff.mp hframe
  exact ⟨b, hb, hencode⟩

end

/-- What is sent belongs to the first suites of the plan. -/
theorem Course.sent (h : Course d₀ plan d heard) :
    ∃ front back, plan = front ++ back ∧ Sent d₀ d front ∧
      (∀ j b, j + 1 < (batches d₀.cwd front).length → (batches d₀.cwd front)[j]? = some b →
        Settled d₀.settings heard (d₀.nextId + j) b.1.suite.cases.length) ∧
      (d.ending? = some .completed → back = []) := by
  obtain ⟨done, hb, hs⟩ := h
  have hone (l : Located) : (batches d₀.cwd [l]).length ≤ 1 := List.length_filterMap_le _ _
  have hdone : ∀ j b, j + 1 < (batches d₀.cwd done).length → (batches d₀.cwd done)[j]? = some b →
      Settled d₀.settings heard (d₀.nextId + j) b.1.suite.cases.length :=
    fun j b _ hj => hb.settled j b hj
  unfold ending?
  cases hp : d.phase with
  | ready =>
    rw [hp] at hs
    obtain ⟨-, horder, -, hsent⟩ := hs
    exact ⟨done, _, horder, hsent, hdone, nofun⟩
  | sending b frame =>
    rw [hp] at hs
    obtain ⟨l, tests, hc, -, -, hsent⟩ := hs
    exact ⟨done, _, hc.order, hsent, hdone, nofun⟩
  | awaiting b =>
    rw [hp] at hs
    obtain ⟨l, tests, hc, -, hsent⟩ := hs
    refine ⟨done ++ [l], upcoming d.todo, ?_, hsent, hb.settled_append (hone l), nofun⟩
    simpa using hc.order
  | ended e =>
    rw [hp] at hs
    cases e with
    | completed =>
      obtain ⟨-, rfl, hsent⟩ := hs
      exact ⟨plan, [], by simp, hsent, hdone, fun _ => rfl⟩
    | aborted fault =>
      obtain ⟨-, l, rest, rfl, -, hsent | hsent⟩ := hs
      · exact ⟨done, _, rfl, hsent, hdone, nofun⟩
      · exact ⟨done ++ [l], rest, by simp, hsent, hb.settled_append (hone l), nofun⟩
    | unencodable batch => exact hs.elim
    | broken assertion => exact hs.elim

/-- The frames of a run of a fresh dispatcher. -/
structure InOrder (settings : DispatchSettings) (cwd : Path) (root : Suite) (d : Dispatcher)
    (heard : Hearing) : Prop where
  /-- The frame at place `j` holds the request of the suite at place `j` among those to be sent, and
  is read as that request as long as its number fits sixty-four bits. -/
  frames : ∀ j frame, d.sent[j]? = some frame → ∃ b, (batches cwd (root.preorder ""))[j]? = some b ∧
    b.1.suite.cases ≠ [] ∧ List.Forall₂ (Describes cwd) b.1.suite.cases b.2 ∧
    (Request.mk j b.2).encode? = some frame ∧
    (j < 2 ^ 64 → Request.decode frame = .ok ⟨j, b.2⟩)
  /-- With frame `j + 1` sent, batch `j` is over. -/
  settled : ∀ j b, j + 1 < d.sent.length → (batches cwd (root.preorder ""))[j]? = some b →
    Settled settings heard j b.1.suite.cases.length
  inFlight : ∀ b, d.inFlight? = some b → ∃ l tests,
    (batches cwd (root.preorder ""))[b.id]? = some (l, tests) ∧ b.path = l.path ∧
    b.cases = l.suite.cases
  all : d.ending? = some .completed → d.sent.length = (batches cwd (root.preorder "")).length
  /-- Nothing more can be sent without an input. -/
  waits : d.isReady = false

theorem Carries.getElem?_batches {b : Batch} {l : Located} {tests : List Descriptor}
    (h : Carries d₀ d plan done b l tests) (h0 : d₀.nextId = 0) :
    (batches d₀.cwd plan)[b.id]? = some (l, tests) := by
  have hsplit : batches d₀.cwd plan =
      batches d₀.cwd done ++ (l, tests) :: batches d₀.cwd (upcoming d.todo) := by
    rw [h.order, batches_append, List.append_cancel_left_eq, ← List.singleton_append,
      batches_append, batches_of_ok h.nonempty h.described]
    rfl
  rw [hsplit, h.id, h0, Nat.zero_add, List.getElem?_append_right (Nat.le_refl _), Nat.sub_self]
  rfl

/-- Every run sends the requests of the suites that have tests and can be described, in recursive
pre-order, numbered without gaps and each after the one before it is over; a completed run has sent
all of them. The path of a suite spells the way down to it. -/
theorem run_inOrder (settings : DispatchSettings) (total : Nat) (begun : Moment) (cwd : Path)
    (now : Nat) (root : Suite) (inputs : List (Nat × Input)) :
    InOrder settings cwd root ((fresh settings total begun cwd).run now root inputs)
        ((fresh settings total begun cwd).heard now root inputs) ∧
      root.preorder "" = root.trails.map fun t => ⟨Suite.trailPath t, t.getLastD root⟩ := by
  have hrun := course_fresh settings total begun cwd now root inputs
  have hwaits := isReady_run (fresh settings total begun cwd) now root inputs
  generalize (fresh settings total begun cwd).run now root inputs = d at hrun hwaits ⊢
  generalize (fresh settings total begun cwd).heard now root inputs = heard at hrun ⊢
  obtain ⟨front, back, horder, hsent, hsettled, hall⟩ := hrun.sent
  have hlen : d.sent.length = (batches cwd front).length := hsent.length_eq rfl
  have hfront : ∀ j, j < d.sent.length →
      (batches cwd (root.preorder ""))[j]? = (batches cwd front)[j]? := by
    intro j hj
    rw [horder, batches_append, List.getElem?_append_left (hlen ▸ hj)]
  have hid (j : Nat) : (fresh settings total begun cwd).nextId + j = j := Nat.zero_add j
  refine ⟨⟨?_, ?_, ?_, ?_, hwaits⟩, ?_⟩
  · intro j frame hj
    obtain ⟨b, hb, hencode⟩ := hsent.getElem? rfl hj
    obtain ⟨hne, hdescribes⟩ := of_mem_batches (List.mem_of_getElem? hb)
    rw [hid] at hencode
    have hlt := (List.getElem?_eq_some_iff.mp hj).1
    exact ⟨b, (hfront j hlt).trans hb, hne, hdescribes, hencode,
      fun hsmall => Wire.decode_of_encode? hsmall hencode⟩
  · intro j b hj hb
    rw [hfront j (by omega)] at hb
    have hover := hsettled j b (hlen ▸ hj) hb
    rwa [hid] at hover
  · intro b hb
    obtain ⟨done, -, hs⟩ := hrun
    obtain ⟨l, tests, hc, -⟩ := hs.inFlight hb
    exact ⟨l, tests, hc.getElem?_batches rfl, hc.path, hc.cases⟩
  · intro he
    rw [hlen, horder, hall he, List.append_nil]
  · rw [Suite.preorder_eq_trails]
    simp

end Dispatcher

end SuiteRunner.Dispatch
