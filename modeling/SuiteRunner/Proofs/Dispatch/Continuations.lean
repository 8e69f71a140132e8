import SuiteRunner.Proofs.Dispatch.Course

/-! # No continuation outlives its batch

The table of waiting tests is empty whenever no batch is in flight, over any number of runs of one
dispatcher and however each of them ends. -/
namespace SuiteRunner.Dispatch

open Suite (Located)
open Wire (Response Verdict)

namespace Dispatcher

variable {d : Dispatcher}

/-- The states of a dispatcher that does any number of runs, one after the other. -/
inductive Reachable : Dispatcher → Prop where
  | fresh (settings : DispatchSettings) (total : Nat) (begun : Moment) (cwd : Path) :
      Reachable (Dispatcher.fresh settings total begun cwd)
  | start {d : Dispatcher} (h : Reachable d) (idle : d.inFlight? = none) (root : Suite) :
      Reachable (d.start root)
  | visit {d : Dispatcher} (h : Reachable d) (ready : d.isReady = true) (now : Nat) :
      Reachable (d.visit now)
  | feed {d : Dispatcher} (h : Reachable d) (now : Nat) (i : Input) : Reachable (d.feed now i)

theorem Reachable.run (h : Reachable d) (idle : d.inFlight? = none) (now : Nat) (root : Suite)
    (inputs : List (Nat × Input)) : Reachable (d.run now root inputs) :=
  run_induction (P := fun d _ => Reachable d) (h.start idle root)
    (fun _ _ now ready hd => hd.visit ready now) (fun _ _ now i hd => hd.feed now i) now inputs

/-! ## The table in each phase -/

theorem Stands.quiet {d₀ : Dispatcher} {plan : List Located} {heard : Hearing}
    {done : List Located} (h : Stands d₀ d plan heard done d.phase) (idle : d.inFlight? = none) :
    d.pending.Quiet := by
  unfold inFlight? at idle
  cases hp : d.phase with
  | ready =>
    rw [hp] at h
    exact h.1
  | sending b frame => simp [hp] at idle
  | awaiting b => simp [hp] at idle
  | ended e =>
    rw [hp] at h
    cases e with
    | completed => exact h.1
    | aborted fault => exact h.1
    | unencodable batch => exact h.elim
    | broken assertion => exact h.elim

/-- Every state belongs to a run that found the table empty. -/
theorem Reachable.course (h : Reachable d) :
    ∃ d₀ plan heard, d₀.pending.Quiet ∧ Course d₀ plan d heard := by
  induction h with
  | fresh settings total begun cwd =>
    refine ⟨Dispatcher.fresh settings total begun cwd, [], [], Pending.quiet_empty, [], ?_, ?_⟩
    · exact ⟨rfl, rfl, by simp [failuresFrom], by simp [batches], by simp⟩
    · exact ⟨Pending.quiet_empty, rfl, rfl, rfl⟩
  | @start d h idle root ih =>
    -- A new run has the table that the last one left, and that one is empty.
    obtain ⟨d₀, plan, heard, -, done, -, hs⟩ := ih
    have hq := hs.quiet idle
    exact ⟨d, root.preorder "", [], hq, course_start hq root⟩
  | visit h ready now ih =>
    obtain ⟨d₀, plan, heard, hq, hd⟩ := ih
    exact ⟨d₀, plan, heard, hq, course_visit hd ready now⟩
  | feed h now i ih =>
    obtain ⟨d₀, plan, heard, hq, hd⟩ := ih
    exact ⟨d₀, plan, _, hq, course_feed hd now i⟩

/-! ## Batches that are complete -/

/-- With a result in every mailbox the text for a missing one is not looked at. -/
theorem classify_congr (path absent absent' : String) (l : List (TestCase × Ticket)) (n : Nat)
    (hn : (l.map (·.2)).Nodup) (hbox : ∀ e ∈ l, ∃ v, d.pending.box e.2 = .holding v) :
    d.classify path absent l n = d.classify path absent' l n := by
  induction l generalizing d n with
  | nil => rfl
  | cons e l ih =>
    obtain ⟨c, t⟩ := e
    rw [List.map_cons, List.nodup_cons] at hn
    obtain ⟨v, hv⟩ := hbox (c, t) (by simp)
    have htaken : (d.pending.take t).2 = .verdict v := by rw [Pending.take_snd, hv]
    have hrest : ∀ e ∈ l, ∃ v, (d.pending.take t).1.box e.2 = .holding v := by
      intro e he
      have hne : e.2 ≠ t := fun heq => hn.1 (List.mem_map.mpr ⟨e, he, heq⟩)
      obtain ⟨boxes, -, hother⟩ := d.pending.take_fst t
      rw [hother _ hne]
      exact hbox e (List.mem_cons_of_mem _ he)
    cases v with
    | ok =>
      simp only [classify, htaken, failureMessage?]
      exact ih n hn.2 hrest
    | failed message =>
      simp only [classify, htaken, failureMessage?]
      exact ih (n + 1) hn.2 hrest

private theorem conclude_congr {b : Batch} (now : Nat) (absent absent' : String)
    (hn : b.tickets.Nodup) (hl : b.tickets.length = b.cases.length)
    (hbox : ∀ t ∈ b.tickets, ∃ v, d.pending.box t = .holding v) :
    d.conclude now b absent = d.conclude now b absent' := by
  have hnodup : ((b.cases.zip b.tickets).map (·.2)).Nodup := by
    rwa [List.map_snd_zip (Nat.le_of_eq hl)]
  have hzip : ∀ e ∈ b.cases.zip b.tickets, ∃ v, d.pending.box e.2 = .holding v :=
    fun e he => hbox e.2 (List.of_mem_zip he).2
  rw [conclude, classify_congr b.path absent absent' _ 0 hnodup hzip, conclude]

/-- The table of a dispatcher holds what the batch in flight needs and nothing else. -/
structure Tidy (d : Dispatcher) : Prop where
  idle : d.inFlight? = none → d.pending.entries = [] ∧ d.pending.counts = []
  own : ∀ b, d.inFlight? = some b → ∀ e ∈ d.pending.entries, e.1.1 = b.id
  /-- No run ends with a broken assertion. -/
  ending : ∀ e, d.ending? = some e →
    e = .completed ∨ ∃ fault, e = .aborted fault ∧ ∀ window, fault ≠ .connectionTimeout window
  /-- A batch that is complete has all its results, so nothing stands in for a missing one. -/
  complete : ∀ b now text, d.phase = .awaiting b →
    (d.handleFrame now text).pending.outstanding b.id = 0 →
      b.tickets.length = b.cases.length ∧
      (∀ t ∈ b.tickets, ∃ v, (d.handleFrame now text).pending.box t = .holding v) ∧
      ∀ absent, d.receive now b text = (d.handleFrame now text).conclude now b absent

private theorem Course.tidy {d₀ : Dispatcher} {plan : List Located} {heard : Hearing}
    (h : Course d₀ plan d heard) : Tidy d := by
  obtain ⟨done, hbehind, hs⟩ := h
  constructor
  · intro idle
    have hq := hs.quiet idle
    exact ⟨hq.2, hq.counts⟩
  · intro b hb e he
    obtain ⟨l, tests, -, hin⟩ := hs.inFlight hb
    exact ((hin.mem_entries e.1 e.2).mp he).1
  · intro e he
    rw [phase_of_ending? he] at hs
    cases e with
    | completed => exact .inl rfl
    | aborted fault =>
      obtain ⟨-, l, rest, -, hblames, -⟩ := hs
      refine .inr ⟨fault, rfl, fun window hw => ?_⟩
      subst hw
      exact hblames
    | unencodable batch => exact hs.elim
    | broken assertion => exact hs.elim
  · intro b now text hp h0
    obtain ⟨l, tests, hc, hin⟩ := hs.inFlight (b := b) (by simp [inFlight?, hp])
    obtain ⟨pending, log, he, hstep⟩ := d.handleFrame_eq now text
    have hin' := hstep _ _ _ hin
    have hpending : (d.handleFrame now text).pending = pending := by rw [he]
    rw [← hpending] at hin'
    have hall := hin'.outstanding_eq_zero_iff.mp h0
    have hbox : ∀ t ∈ b.tickets, ∃ v, (d.handleFrame now text).pending.box t = .holding v := by
      intro t ht
      obtain ⟨i, hi, rfl⟩ := List.mem_iff_getElem.mp ht
      obtain ⟨v, hv⟩ := Option.isSome_iff_exists.mp (hall i hi)
      refine ⟨v, ?_⟩
      rw [hin'.box i _ (List.getElem?_eq_getElem hi), hv]
      rfl
    refine ⟨hc.tickets, hbox, fun absent => ?_⟩
    rw [receive, if_pos h0]
    exact conclude_congr now "" absent hin'.nodup hc.tickets hbox

/-- Whatever trees a dispatcher is given and whatever the worker does, the table is empty whenever
no batch is in flight, no assertion ever fails, and a complete batch has all its results. Runs lead
to such states again. -/
theorem tidy_of_reachable (h : Reachable d) :
    Tidy d ∧ (d.inFlight? = none → ∀ now root inputs, Reachable (d.run now root inputs)) := by
  obtain ⟨d₀, plan, heard, -, hd⟩ := h.course
  exact ⟨hd.tidy, fun idle now root inputs => h.run idle now root inputs⟩

/-- A run that ends before its request is taken, and one after it that gets its result. -/
theorem tidy_after_refusal :
    ∃ d e : Dispatcher, d.ending? = some (.aborted (.sendFailed 0)) ∧ Tidy d ∧
      e = d.run 7 (.mk "" [⟨"t", []⟩] [])
        [(7, .accepted), (8, .frame (Response.mk 1 0 .ok).encode)] ∧
      e.ending? = some .completed ∧ Tidy e := by
  have h₀ := Reachable.fresh ⟨500, false⟩ 1 default ⟨[Path.slash]⟩
  have h₁ := (tidy_of_reachable h₀).2 rfl 0 (.mk "" [⟨"t", []⟩] []) [(0, .refused)]
  have h₂ := (tidy_of_reachable h₁).2 (Option.isNone_iff_eq_none.mp (by decide +kernel)) 7
    (.mk "" [⟨"t", []⟩] []) [(7, .accepted), (8, .frame (Response.mk 1 0 .ok).encode)]
  exact ⟨_, _, by decide +kernel, (tidy_of_reachable h₁).1, rfl, by decide +kernel,
    (tidy_of_reachable h₂).1⟩

end Dispatcher

end SuiteRunner.Dispatch
