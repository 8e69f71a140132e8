import SuiteRunner.Proofs.Dispatch.Alone
import SuiteRunner.Transport.Connection

/-! # A worker that does nothing any more

The watchdog bounds the wait for results, but not the wait for room in the outbound queue. So a run
against a dead worker ends if the queue has a place for every request that it comes to, and else it
waits for ever. If the run goes on after silence, these are all requests that are left; if silence
ends it, only the next one, and those after requests that are answered already. -/
namespace SuiteRunner.Dispatch

open World Dispatcher

/-- What a run against a worker that stays connected comes to. It is given up only for silence, and
at the first batch that lacks a result; if it is not, it has all failures in order, those of missing
results among them, and results are missing only where the run goes on without them. -/
def Outcome (settings : DispatchSettings) (cwd : Path) (root : Suite) (d : Dispatcher)
    (heard : Hearing) : Ending → Prop
  | .completed =>
    d.summary.failures = failuresFrom cwd (timeoutMessage settings.batchSpan) (verdict? heard) 0
        (root.preorder "") ∧
      (settings.continueOnTimeout = false → ∀ id b, (batches cwd (root.preorder ""))[id]? = some b →
        ∀ i < b.1.suite.cases.length, (verdict? heard id i).isSome = true)
  | .aborted fault =>
    settings.continueOnTimeout = false ∧
      (∃ batch path lacking total window,
        fault = .batchTimeout batch path lacking total window) ∧
      ∃ before s after, root.preorder "" = before ++ s :: after ∧
        GivenUp settings cwd d heard before s fault
  | _ => False

section

variable {settings : DispatchSettings} {total : Nat} {begun : Moment} {cwd : Path} {now : Nat}
  {root : Suite} {capacity : Option Nat} {w : World}

private theorem attended_replay {deeds : List Deed} (hsending : .stopsSending ∉ deeds)
    (hreceiving : .stopsReceiving ∉ deeds)
    (h : (opening (fresh settings total begun cwd) now root capacity).replay? deeds = some w) :
    Attended (fresh settings total begun cwd) (root.preorder "") w := by
  refine replay?_induction (fun u u' e he hd hu => ?_) h
    (attended_opening Pending.quiet_empty now root capacity)
  refine hu.does? hd ?_ ?_
  · rintro rfl
    exact hsending he
  · rintro rfl
    exact hreceiving he

private theorem outcome_of_attended {inputs : List (Nat × Input)}
    (h : Attended (fresh settings total begun cwd) (root.preorder "") w)
    (hrun : w.dispatcher = (fresh settings total begun cwd).run now root inputs) {e : Ending}
    (he : w.dispatcher.ending? = some e) :
    Outcome settings cwd root w.dispatcher ((fresh settings total begun cwd).heard now root inputs)
      e := by
  have hcourse := course_fresh settings total begun cwd now root inputs
  rw [← hrun] at hcourse
  obtain rfl | ⟨fault, rfl⟩ := hcourse.ending_cases he
  · obtain ⟨hb, -⟩ := hcourse.behind_of_completed he
    refine ⟨hb.failures, fun hstop id b hid i hi => ?_⟩
    have hsettled := hb.settled id b hid
    rw [show (fresh settings total begun cwd).nextId + id = id from Nat.zero_add id] at hsettled
    rcases hsettled with hall | ⟨hgo, -⟩
    · exact hall i hi
    · exact absurd (hstop.symm.trans hgo) Bool.false_ne_true
  · have hphase := phase_of_ending? he
    obtain ⟨hstop, hfault⟩ := h.faults fault hphase
    rw [hrun] at hphase ⊢
    exact ⟨hstop, hfault, givenUp_of_aborted hphase⟩

end

/-- A worker stays connected but does nothing any more. Where the outbound queue has a place for
every request to come, the run is never stuck, takes a bounded number of inputs and ends as it
should. Where it has not, a run that goes on after silence gets stuck. In either mode the run ends
exactly if there is a place for each request that it comes to: all that are left if it goes on after
silence, and else, with no frame left to read, the next one only. -/
theorem dead_worker_law (settings : DispatchSettings) (total : Nat) (begun : Moment) (cwd : Path)
    (now : Nat) (root : Suite) (capacity : Option Nat) (past : List Deed) (w : World)
    (hpast : (opening (fresh settings total begun cwd) now root capacity).replay? past = some w)
    (hsending : .stopsSending ∉ past) (hreceiving : .stopsReceiving ∉ past) :
    (w.HasPlaces →
      (∃ deeds w', Alone w deeds w' ∧ w'.dispatcher.ending? ≠ none) ∧
      ∀ deeds w', Alone w deeds w' →
        ¬ w'.Stuck ∧ deeds.countP Deed.isTaking ≤ w.burden ∧
        ∀ e, w'.dispatcher.ending? = some e → Outcome settings cwd root w'.dispatcher
          ((fresh settings total begun cwd).heard now root (inputs now (past ++ deeds))) e) ∧
    (¬ w.HasPlaces → settings.continueOnTimeout = true →
      ∃ deeds w', Alone w deeds w' ∧ w'.Stuck) ∧
    ∃ k, w.Asks k ∧
      (settings.continueOnTimeout = true → k = w.dispatcher.unsent) ∧
      (settings.continueOnTimeout = false → w.worker.frames = [] →
        k = w.dispatcher.phase.toSend) ∧
      ((∃ deeds w', Alone w deeds w' ∧ w'.dispatcher.ending? ≠ none) ↔ w.HasPlacesFor k) ∧
      ((∃ deeds w', Alone w deeds w' ∧ w'.Stuck) ↔ ¬ w.HasPlacesFor k) ∧
      ∀ deeds w' e, Alone w deeds w' → w'.dispatcher.ending? = some e →
        Outcome settings cwd root w'.dispatcher
          ((fresh settings total begun cwd).heard now root (inputs now (past ++ deeds))) e := by
  have hw := attended_replay hsending hreceiving hpast
  have houtcome : ∀ deeds w' e, Alone w deeds w' → w'.dispatcher.ending? = some e →
      Outcome settings cwd root w'.dispatcher
        ((fresh settings total begun cwd).heard now root (inputs now (past ++ deeds))) e := by
    intro deeds w' e ha he
    have hwhole : (opening (fresh settings total begun cwd) now root capacity).replay?
        (past ++ deeds) = some w' := by
      rw [replay?_append, hpast]
      exact ha.replay
    exact outcome_of_attended (hw.alone ha).1 (replay?_opening hwhole) he
  obtain ⟨k, hk⟩ := hw.exists_asks
  refine ⟨fun hplaces => ⟨?_, fun deeds w' ha => ?_⟩,
    fun hplaces hgo => hw.exists_stuck hgo hplaces, k, hk, fun hgo => hw.asks_all hgo hk,
    fun hstop hframes => hw.asks_next hstop hframes hk, hw.ends_iff hk, hw.stuck_iff hk, houtcome⟩
  · obtain ⟨deeds, w', ha, hended | hstuck⟩ := hw.exists_rest
    · exact ⟨deeds, w', ha, hended⟩
    · have hplaces' := (hw.hasPlaces_alone ha).mpr hplaces
      exact absurd hstuck (hplaces'.not_stuck (hw.alone ha).1.waits)
  · obtain ⟨hw', -, -, hburden⟩ := hw.alone ha
    have hplaces' := (hw.hasPlaces_alone ha).mpr hplaces
    exact ⟨hplaces'.not_stuck hw'.waits, by omega, fun e he => houtcome deeds w' e ha he⟩

def twoSuites : Suite := .mk "" [] [.mk "a" [⟨"t", []⟩] [], .mk "b" [⟨"t", []⟩] []]

/-- The first request is queued, and the queue has a place for the second. -/
theorem dead_worker_law_two :
    ∃ w : World, (opening (fresh ⟨500, true⟩ 2 default ⟨[Path.slash]⟩) 0 twoSuites
        (some 2)).replay? [.takes .accepted] = some w ∧ w.HasPlaces ∧
      (∃ deeds w', Alone w deeds w' ∧ w'.dispatcher.ending? ≠ none) ∧
      ∀ deeds w', Alone w deeds w' → ¬ w'.Stuck ∧ deeds.countP Deed.isTaking ≤ 4 := by
  have hfits : ((opening (fresh ⟨500, true⟩ 2 default ⟨[Path.slash]⟩) 0 twoSuites
      (some 2)).replay? [.takes .accepted]).any
        (fun w => w.capacity == some 2 && w.claimed ≤ 2 && w.burden ≤ 4) = true := by
    decide +kernel
  cases hw : (opening (fresh ⟨500, true⟩ 2 default ⟨[Path.slash]⟩) 0 twoSuites
      (some 2)).replay? [.takes .accepted] with
  | none => simp [hw] at hfits
  | some w =>
    simp only [hw, Option.any_some, Bool.and_eq_true, beq_iff_eq, decide_eq_true_eq] at hfits
    obtain ⟨⟨hcapacity, hclaimed⟩, hburden⟩ := hfits
    have hplaces : w.HasPlaces := by
      intro n hn
      obtain rfl : 2 = n := Option.some.inj (hcapacity.symm.trans hn)
      exact hclaimed
    obtain ⟨hends, halone⟩ := (dead_worker_law _ _ _ _ _ _ _ _ w hw (by simp) (by simp)).1 hplaces
    refine ⟨w, rfl, hplaces, hends, fun deeds w' ha => ?_⟩
    obtain ⟨hfree, hcount, -⟩ := halone deeds w' ha
    exact ⟨hfree, Nat.le_trans hcount hburden⟩

/-- One suite more than the queue of a connection has places. -/
def crowd : Suite := .mk "" [] (List.replicate 257 (.mk "s" [⟨"t", []⟩] []))

/-- A worker that never does anything keeps the run waiting for ever. -/
theorem dead_worker_hangs :
    ∃ deeds w, Alone (opening (fresh ⟨500, true⟩ 257 default ⟨[Path.slash]⟩) 0 crowd
      (some Transport.channelCapacity)) deeds w ∧ w.Stuck := by
  have hbatches : (batches ⟨[Path.slash]⟩ (crowd.preorder "")).length = 257 := by decide +kernel
  refine (attended_opening Pending.quiet_empty 0 crowd _).exists_stuck rfl fun hplaces => ?_
  have hle := hplaces _ rfl
  rw [claimed_opening Pending.quiet_empty] at hle
  simp only [fresh, hbatches, Transport.channelCapacity] at hle
  omega

end SuiteRunner.Dispatch
