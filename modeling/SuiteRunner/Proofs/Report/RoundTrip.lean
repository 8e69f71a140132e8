import SuiteRunner.Proofs.Json.Doubles
import SuiteRunner.Proofs.Json.Pretty
import SuiteRunner.Proofs.Json.Records
import SuiteRunner.Proofs.Report.File
import SuiteRunner.Proofs.Text.Utf8
import SuiteRunner.Proofs.Time.Stamp

/-! # Reports can be read by the programs they are meant for

Whatever happens to a summary, the report that is written for it is read as the same report. -/
namespace SuiteRunner

/-! ## Summaries that calls lead to -/

/-- A reading that both clocks can give: the date is in the calendar's range, and a span of time that
ends there has its seconds in sixty-four bits. -/
structure Moment.IsValid (m : Moment) : Prop where
  date : m.date.IsValid
  ticks : m.ticks < word64 * 1000000000

theorem Moment.IsValid.atMost_since {now start : Moment} (h : now.IsValid) :
    Binary64.AtMost (now.since start).seconds 73 := by
  have hticks := h.ticks
  apply Span.atMost_seconds
  · simp only [Moment.since, Span.ofNanos]
    omega
  · exact Nat.mod_lt _ (by decide)

namespace Summary

/-- The reading of the clocks that a call makes. -/
def Operation.moment? : Operation → Option Moment
  | .finish now | .abort now _ => some now
  | .recordRun _ | .recordFailure _ _ => none

/-- The count of tests fits sixty-four bits and the times are such as the clocks give. -/
structure Sound (s : Summary) : Prop where
  testsRun : s.testsRun < word64
  started : s.started.IsValid
  finished : ∀ f ∈ s.finished, f.date.IsValid ∧ Binary64.AtMost f.elapsed.seconds 73

private theorem sound_start {now : Moment} (h : now.IsValid) : (start now).Sound :=
  ⟨Nat.two_pow_pos 64, h, by simp [start]⟩

theorem Sound.finish {s : Summary} (h : s.Sound) {now : Moment} (hnow : now.IsValid) :
    (s.finish now).Sound := by
  refine ⟨h.testsRun, h.started, fun f hf => ?_⟩
  obtain rfl := Option.some.inj hf
  cases hfinished : s.finished with
  | none => exact ⟨hnow.date, hnow.atMost_since⟩
  | some f => exact h.finished f hfinished

theorem Sound.step {s s' : Summary} (h : s.Sound) {op : Operation}
    (hop : ∀ m ∈ op.moment?, m.IsValid) (hstep : s.step? op = some s') : s'.Sound := by
  cases op with
  | recordRun count =>
    obtain ⟨hlt, rfl⟩ : s.testsRun + count < word64 ∧ s.recordRun count = s' := by
      simpa [step?, recordRun?] using hstep
    exact ⟨hlt, h.started, h.finished⟩
  | recordFailure path message =>
    obtain rfl := Option.some.inj hstep
    exact ⟨h.testsRun, h.started, h.finished⟩
  | finish now =>
    obtain rfl := Option.some.inj hstep
    exact h.finish (hop now rfl)
  | abort now cause =>
    obtain rfl := Option.some.inj hstep
    have hcause : ({ s with abortCause := some cause } : Summary).Sound :=
      ⟨h.testsRun, h.started, h.finished⟩
    exact hcause.finish (hop now rfl)

theorem Sound.replay {s s' : Summary} {ops : List Operation} (h : s.Sound)
    (hops : ∀ op ∈ ops, ∀ m ∈ op.moment?, m.IsValid) (hreplay : s.replay? ops = some s') :
    s'.Sound := by
  induction ops generalizing s with
  | nil => exact Option.some.inj hreplay ▸ h
  | cons op ops ih =>
    obtain ⟨s₁, hstep, hreplay⟩ := Option.bind_eq_some_iff.mp hreplay
    obtain ⟨hop, hops⟩ := List.forall_mem_cons.mp hops
    exact ih (h.step hop hstep) hops hreplay

end Summary

/-! ## Reading what was written -/

namespace Report

open Json (Node Shape Writable memberNodes node)

private theorem failureOfNode_failureJson (f : Failure) :
    failureOfNode (node (failureJson f)) = .ok f :=
  rfl

theorem stampOfNode_stampJson {t : Stamp} (h : t.IsValid) :
    stampOfNode (node (stampJson t)) = .ok t := by
  have hread : Stamp.read? t.text.toList = some t := by
    rw [Stamp.text, String.toList_ofList, Stamp.read?_write h]
  have htext : (node (stampJson t)).toText = .ok t.text := rfl
  simp only [stampOfNode, htext, bind, Except.bind, hread]
  rfl

/-- A report whose parts can all be written and read. -/
structure Sound (r : Report) : Prop where
  testsRun : r.testsRun < word64
  testsFailed : r.testsFailed < word64
  startedAt : r.startedAt.IsValid
  finishedAt : ∀ t ∈ r.finishedAt, t.IsValid
  elapsed : r.elapsed.AtMost 73

private theorem sound_ofSummary {s : Summary} (h : s.Sound) (hfailed : s.failed < word64)
    {now : Moment} (hnow : now.IsValid) : (ofSummary s now).Sound where
  testsRun := h.testsRun
  testsFailed := hfailed
  startedAt := h.started.date
  finishedAt := by
    intro t ht
    obtain ⟨f, hf, rfl⟩ := Option.map_eq_some_iff.mp ht
    exact (h.finished f hf).1
  elapsed := by
    simp only [ofSummary, Summary.elapsed]
    split
    · next f hf => exact (h.finished f hf).2
    · exact hnow.atMost_since

private theorem forall_mem_optional {α : Type} {name : String} {toJson : α → Json}
    {P : String × Json → Prop} (h : ∀ a, P (name, toJson a)) (x : Option α) :
    ∀ m ∈ optional name toJson x, P m := by
  cases x with
  | none => simp [optional]
  | some a => simpa [optional] using h a

/-- The end of the run is stored if it is there. -/
private theorem members_finished {d : Draft} (hnew : d.finishedAt = none) {x : Option Stamp}
    (hx : ∀ t ∈ x, t.IsValid) (ms : List (String × Json)) :
    shape.members d (memberNodes (optional "finished_at" stampJson x ++ ms)) =
      shape.members { d with finishedAt := x.map some } (memberNodes ms) := by
  cases x with
  | none =>
    cases d
    cases hnew
    rfl
  | some t =>
    have hstore : shape.store d "finished_at" (node (stampJson t)) =
        .ok { d with finishedAt := some (some t) } := by
      have hstamp := stampOfNode_stampJson (hx t rfl)
      rw [stampJson, node] at hstamp ⊢
      simp only [shape, Node.toOption, hstamp]
      rfl
    refine Shape.members_cons (by decide) ?_ hstore (memberNodes ms)
    simp [shape, hnew]

/-- So is the cause of an abort. -/
private theorem members_aborted {d : Draft} (hnew : d.aborted = none) (x : Option String)
    (ms : List (String × Json)) :
    shape.members d (memberNodes (optional "aborted" .string x ++ ms)) =
      shape.members { d with aborted := x.map some } (memberNodes ms) := by
  cases x with
  | none =>
    cases d
    cases hnew
    rfl
  | some cause =>
    refine Shape.members_cons (by decide) ?_ rfl (memberNodes ms)
    simp [shape, hnew]

section

variable {r : Report} (h : r.Sound)

include h

private theorem Sound.writable : r.toJson.Writable := by
  have helapsed := (Json.readable_write elapsedLayout h.elapsed (by decide)).1
  rw [toJson, Writable, Json.writableMembers_iff]
  simp only [List.forall_mem_append, List.forall_mem_cons, List.not_mem_nil, false_implies,
    implies_true, and_true]
  refine ⟨⟨⟨⟨Json.writable_nat _, Json.writable_nat _, trivial, trivial⟩,
    forall_mem_optional (fun _ => trivial) _⟩, ?_, ?_⟩, forall_mem_optional (fun _ => trivial) _⟩
  · rwa [Writable, String.toList_ofList]
  · rw [Writable, Json.writableItems_iff, List.forall_mem_map]
    exact fun f _ => ⟨trivial, trivial, trivial⟩

/-- The members of a report are stored one after the other; those that are left out stay absent. -/
theorem Sound.read_toJson : ∃ x, shape.read {} (node r.toJson) = .ok
    { testsRun := some r.testsRun, testsFailed := some r.testsFailed, success := some r.success,
      startedAt := some r.startedAt, finishedAt := r.finishedAt.map some, elapsed := some x,
      failures := some r.failures, aborted := r.aborted.map some } := by
  obtain ⟨x, hx⟩ := Json.exists_toDouble
    (Json.readable_write elapsedLayout h.elapsed (by decide)).2
  have hfailures : (node (.array (r.failures.map failureJson))).toList failureOfNode =
      .ok r.failures := by
    apply Json.toList_nodes
    rw [List.forall₂_map_left_iff]
    exact List.forall₂_same.mpr fun f _ => failureOfNode_failureJson f
  have hrunStored : shape.store {} "tests_run" (node (.nat r.testsRun)) =
      .ok { testsRun := some r.testsRun } := by
    simp only [shape, Json.toNat_nat h.testsRun]
    rfl
  have hfailedStored (d : Draft) : shape.store d "tests_failed" (node (.nat r.testsFailed)) =
      .ok { d with testsFailed := some r.testsFailed } := by
    simp only [shape, Json.toNat_nat h.testsFailed]
    rfl
  have hstartedStored (d : Draft) : shape.store d "started_at" (node (stampJson r.startedAt)) =
      .ok { d with startedAt := some r.startedAt } := by
    simp only [shape, stampOfNode_stampJson h.startedAt]
    rfl
  have helapsedStored (d : Draft) : shape.store d "elapsed_secs"
      (node (.number (String.ofList (elapsedLayout.write r.elapsed)))) =
      .ok { d with elapsed := some x } := by
    simp only [shape, node, String.toList_ofList, hx]
    rfl
  have hfailuresStored (d : Draft) : shape.store d "failures"
      (node (.array (r.failures.map failureJson))) = .ok { d with failures := some r.failures } := by
    simp only [shape, hfailures]
    rfl
  refine ⟨x, Shape.read_object ?_⟩
  simp only [List.append_assoc, List.cons_append, List.nil_append]
  rw [memberNodes, Shape.members_cons (by decide) rfl hrunStored, memberNodes,
    Shape.members_cons (by decide) rfl (hfailedStored _), memberNodes,
    Shape.members_cons (by decide) rfl rfl, memberNodes,
    Shape.members_cons (by decide) rfl (hstartedStored _),
    members_finished rfl h.finishedAt, memberNodes,
    Shape.members_cons (by decide) rfl (helapsedStored _), memberNodes,
    Shape.members_cons (by decide) rfl (hfailuresStored _),
    ← List.append_nil (optional "aborted" .string r.aborted), members_aborted rfl]
  rfl

private theorem Sound.read_text : ∃ x, read r.text = .ok { r with elapsed := x } := by
  obtain ⟨x, hread⟩ := h.read_toJson
  refine ⟨x, ?_⟩
  rw [read, text, Json.decode_renderPretty _ h.writable, ofNode, hread]
  cases hf : r.finishedAt <;> cases ha : r.aborted <;> simp [Json.required, bind, Except.bind]

end

/-! ## The round trip -/

private theorem success_ofSummary_iff (s : Summary) (now : Moment) :
    (ofSummary s now).success = true ↔
      (ofSummary s now).failures = [] ∧ (ofSummary s now).aborted = none := by
  simp [ofSummary, Summary.success]

/-- A report on a summary is saved without a fault where its file can be made and there is room for
it. What the file holds then is a text. It is read as the report on that summary, of which at most the
elapsed seconds are another number, and which counts its failures right. -/
theorem written_report_reads_back {start now : Moment} {ops : List Summary.Operation} {s : Summary}
    {fs : FileSystem} {file : Path} {loc : Location} {room : Option Nat}
    (hstart : start.IsValid) (hnow : now.IsValid)
    (hops : ∀ op ∈ ops, ∀ m ∈ op.moment?, m.IsValid)
    (hreplay : (Summary.start start).replay? ops = some s) (hfailed : s.failures.length < word64)
    (hloc : fs.fileLocation file = .ok loc)
    (hplace : fs.entry? loc = none ∨ ∃ old, fs.entry? loc = some (.file old))
    (hroom : ∀ n ∈ room, (Text.Utf8.encode (ofSummary s now).text).length ≤ n) :
    ∃ files bytes text r, (ofSummary s now).save fs room file = (files, .ok ()) ∧
      files.contentAt file = .ok bytes ∧ Text.Utf8.decode? bytes = some text ∧
      read text = .ok r ∧ r = { ofSummary s now with elapsed := r.elapsed } ∧
      r.testsFailed = r.failures.length ∧
      (r.success = true ↔ r.failures = [] ∧ r.aborted = none) := by
  have hsound : s.Sound := (Summary.sound_start hstart).replay hops hreplay
  obtain ⟨x, hread⟩ := (sound_ofSummary hsound hfailed hnow).read_text
  obtain ⟨files, hsave, hcontent⟩ := exists_save _ _ hloc hplace hroom
  exact ⟨files, _, _, _, hsave, hcontent, Text.Utf8.decode?_encode _, hread, rfl, rfl,
    success_ofSummary_iff s now⟩

/-- The year zero. -/
def dawn : Moment := ⟨⟨-62167219200, 123456⟩, 7⟩

/-- A leap second, and the last moment that the clocks can show. -/
def dusk : Moment := ⟨⟨1483228799, 1500000000⟩, word64 * 1000000000 - 1⟩

/-- Failures after the end, a second end, and texts with everything that has to be escaped. -/
def restlessCalls : List Summary.Operation :=
  [.recordRun 3, .recordFailure "/a/é \"b\"" "1\n2\x01😀", .abort dusk "gone\\",
    .recordFailure "" "", .finish dawn]

/-- A file system with a report from another time. -/
def stale : FileSystem where
  entries := [([Text.Utf8.encode "r.json"], .file (Text.Utf8.encode "\x7b\x7d"))]

theorem written_report_reads_back_restless :
    ∃ s files bytes text r, (Summary.start dawn).replay? restlessCalls = some s ∧
      (ofSummary s dusk).save stale none (.ofString "/r.json") = (files, .ok ()) ∧
      files.contentAt (.ofString "/r.json") = .ok bytes ∧ Text.Utf8.decode? bytes = some text ∧
      read text = .ok r ∧ r.testsRun = 3 ∧ r.testsFailed = 2 ∧ r.success = false ∧
      r.failures = [⟨"/a/é \"b\"", "1\n2\x01😀"⟩, ⟨"", ""⟩] ∧ r.aborted = some "gone\\" ∧
      r.finishedAt = some dusk.date := by
  have hdawn : dawn.IsValid := ⟨⟨by decide, by decide, by decide⟩, by decide⟩
  have hdusk : dusk.IsValid := ⟨⟨by decide, by decide, by decide⟩, by decide⟩
  have hops : ∀ op ∈ restlessCalls, ∀ m ∈ op.moment?, m.IsValid := by
    simp [restlessCalls, Summary.Operation.moment?, hdawn, hdusk]
  have hloc : stale.fileLocation (.ofString "/r.json") = .ok [Text.Utf8.encode "r.json"] := by
    decide +kernel
  have hplace : stale.entry? [Text.Utf8.encode "r.json"] =
      some (.file (Text.Utf8.encode "\x7b\x7d")) := by
    decide +kernel
  obtain ⟨files, bytes, text, r, hsave, hcontent, htext, hread, hr, -⟩ :=
    written_report_reads_back hdawn hdusk hops rfl (by decide) hloc (.inr ⟨_, hplace⟩)
      (by simp : ∀ n ∈ (none : Option Nat), _)
  refine ⟨_, files, bytes, text, r, rfl, hsave, hcontent, htext, hread, ?_⟩
  rw [hr]
  exact ⟨rfl, rfl, rfl, rfl, rfl, rfl⟩

end Report

end SuiteRunner
