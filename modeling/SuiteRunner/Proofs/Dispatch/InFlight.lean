import SuiteRunner.Dispatch.Machine
import SuiteRunner.Proofs.Dispatch.Pending

/-! # A batch in flight

While a batch is awaited the table holds nothing but its tests, and each of their mailboxes holds the
first result that came for it. -/
namespace SuiteRunner.Dispatch

open Wire (Verdict Response)

/-- The mailbox of a test, given the result it has got, if any. -/
def mailboxOf (empty : Mailbox) : Option Verdict → Mailbox
  | none => empty
  | some v => .holding v

/-- The result that an input brings for the test at `index` of the batch `id`. -/
def Input.answer? (id index : Nat) : Input → Option Verdict
  | .frame text =>
    match Response.decode text with
    | .ok r => if r.id = id ∧ r.index = index then some r.verdict else none
    | .error _ => none
  | _ => none

namespace Pending

/-- Nobody waits. -/
def Quiet (p : Pending) : Prop := p.WellFormed ∧ p.entries = []

/-- The tests of one batch, by index, have these results so far, and nobody else waits. -/
structure InFlight (p : Pending) (id : Nat) (tickets : List Ticket)
    (results : Nat → Option Verdict) : Prop where
  wellFormed : p.WellFormed
  nodup : tickets.Nodup
  mem_entries : ∀ k t, (k, t) ∈ p.entries ↔
    k.1 = id ∧ tickets[k.2]? = some t ∧ results k.2 = none
  box : ∀ i t, tickets[i]? = some t → p.box t = mailboxOf .waiting (results i)

theorem quiet_empty : Quiet {} := ⟨wellFormed_empty, rfl⟩

theorem Quiet.isEmpty {p : Pending} (h : p.Quiet) : p.isEmpty = true := by
  simp [Pending.isEmpty, h.2]

theorem Quiet.counts {p : Pending} (h : p.Quiet) : p.counts = [] := h.1.counts_eq_nil h.2

theorem Quiet.boxes {p : Pending} (h : p.Quiet) (boxes : List Mailbox) :
    Quiet { p with boxes } := by
  obtain ⟨hp, he⟩ := h
  refine ⟨⟨hp.keys, hp.tickets, ?_, ?_, hp.ids, hp.positive, hp.counted⟩, he⟩ <;> simp [he]

/-- Where nobody waits a batch can be registered, and then none of its tests has a result. -/
theorem Quiet.enroll {p : Pending} (h : p.Quiet) (id len : Nat) :
    (p.newTickets len).length = len ∧
      (p.enroll id len).InFlight id (p.newTickets len) fun _ => none := by
  obtain ⟨hp, he⟩ := h
  have h0 : p.outstanding id = 0 := hp.outstanding_eq_zero_iff.mpr (by simp [he])
  refine ⟨by simp [newTickets], hp.enroll h0 len, p.newTickets_nodup len, ?_, ?_⟩
  · rintro ⟨b, i⟩ t
    rw [newTickets_getElem?_eq_some_iff]
    simp only [Pending.enroll, he, List.nil_append, List.mem_map, List.mem_range, and_true]
    constructor
    · intro hcase
      obtain ⟨i', hi, heq⟩ := hcase
      obtain ⟨⟨rfl, rfl⟩, rfl⟩ := heq
      exact ⟨rfl, hi, rfl⟩
    · intro hcase
      obtain ⟨rfl, hi, rfl⟩ := hcase
      exact ⟨i, hi, rfl⟩
  · intro i t ht
    obtain ⟨hlt, rfl⟩ := newTickets_getElem?_eq_some_iff.mp ht
    rw [box_enroll, if_pos (by omega)]
    rfl

/-- A first result fills its mailbox; all else changes nothing. -/
theorem InFlight.resolve {p : Pending} {id : Nat} {tickets : List Ticket}
    {results : Nat → Option Verdict} (h : p.InFlight id tickets results) (r : Response) :
    (p.resolve r).1.InFlight id tickets fun i =>
      (results i).or (if r.id = id ∧ r.index = i then some r.verdict else none) := by
  have hp := h.wellFormed
  obtain ⟨hnone, hr⟩ | ⟨t, hm, ⟨hb, hr⟩ | ⟨hb, hr⟩⟩ := hp.resolve_cases r
  · -- Whoever is in flight under this key has a result already.
    have hkeep (i : Nat) (t : Ticket) (ht : tickets[i]? = some t) :
        (results i).or (if r.id = id ∧ r.index = i then some r.verdict else none) = results i := by
      cases hres : results i with
      | some v => rfl
      | none =>
        rw [if_neg]
        · rfl
        · intro hcase
          obtain ⟨rfl, rfl⟩ := hcase
          exact hnone t ((h.mem_entries _ t).mpr ⟨rfl, ht, hres⟩)
    rw [hr]
    refine ⟨hp, h.nodup, fun k t => ?_, fun i t ht => ?_⟩
    · rw [h.mem_entries]
      constructor
      · intro hcase
        obtain ⟨hid, ht, hres⟩ := hcase
        exact ⟨hid, ht, (hkeep _ _ ht).trans hres⟩
      · intro hcase
        obtain ⟨hid, ht, hres⟩ := hcase
        exact ⟨hid, ht, (hkeep _ _ ht).symm.trans hres⟩
    · rw [hkeep i t ht]
      exact h.box i t ht
  · obtain ⟨rfl, ht, hres⟩ := (h.mem_entries _ t).mp hm
    have hwf := hp.resolve r
    rw [hr] at hwf ⊢
    refine ⟨hwf, h.nodup, fun k u => ?_, fun i u hu => ?_⟩
    · rw [entries_setBox, mem_entries_forget, h.mem_entries]
      constructor
      · intro hcase
        obtain ⟨⟨hid, hu, hres⟩, hne⟩ := hcase
        refine ⟨hid, hu, ?_⟩
        rw [hres, if_neg]
        · rfl
        · intro hcase
          obtain ⟨-, hi⟩ := hcase
          exact hne (Prod.ext hid hi.symm)
      · intro hcase
        obtain ⟨hid, hu, hor⟩ := hcase
        obtain ⟨hres, hif⟩ := Option.or_eq_none_iff.mp hor
        refine ⟨⟨hid, hu, hres⟩, ?_⟩
        rintro rfl
        simp at hif
    · by_cases hi : r.index = i
      · subst hi
        obtain rfl : t = u := Option.some.inj (ht.symm.trans hu)
        have hlt : t < (p.forget (r.id, r.index)).boxes.length := hp.issued _ hm
        rw [box_setBox_self hlt, hres, if_pos ⟨rfl, rfl⟩]
        rfl
      · have hne : t ≠ u := by
          rintro rfl
          have hlt : r.index < tickets.length := (List.getElem?_eq_some_iff.mp ht).1
          exact hi ((List.getElem?_inj hlt h.nodup).mp (ht.trans hu.symm))
        rw [box_setBox_of_ne hne, if_neg (by simp [hi]), Option.or_none]
        exact h.box i u hu
  · -- Nobody leaves a mailbox of a batch in flight.
    obtain ⟨-, ht, hres⟩ := (h.mem_entries _ t).mp hm
    rw [h.box _ t ht] at hb
    cases hr : results r.index <;> simp [hr, mailboxOf] at hb

theorem InFlight.outstanding_eq_zero_iff {p : Pending} {id : Nat} {tickets : List Ticket}
    {results : Nat → Option Verdict} (h : p.InFlight id tickets results) :
    p.outstanding id = 0 ↔ ∀ i < tickets.length, (results i).isSome = true := by
  rw [h.wellFormed.outstanding_eq_zero_iff]
  constructor
  · intro hall i hi
    cases hres : results i with
    | some v => rfl
    | none =>
      have hm := (h.mem_entries (id, i) tickets[i]).mpr ⟨rfl, List.getElem?_eq_getElem hi, hres⟩
      exact absurd rfl (hall _ hm)
  · rintro hall ⟨k, t⟩ hm -
    obtain ⟨-, ht, hres⟩ := (h.mem_entries k t).mp hm
    have hsome := hall k.2 (List.getElem?_eq_some_iff.mp ht).1
    simp [hres] at hsome

theorem InFlight.quiet {p : Pending} {id : Nat} {tickets : List Ticket}
    {results : Nat → Option Verdict} (h : p.InFlight id tickets results)
    (h0 : p.outstanding id = 0) : p.Quiet := by
  refine ⟨h.wellFormed, List.eq_nil_iff_forall_not_mem.mpr ?_⟩
  rintro ⟨k, t⟩ hm
  exact h.wellFormed.outstanding_eq_zero_iff.mp h0 _ hm ((h.mem_entries k t).mp hm).1

/-- Giving up a batch leaves nobody waiting and keeps the results that came. -/
theorem InFlight.abandon {p : Pending} {id : Nat} {tickets : List Ticket}
    {results : Nat → Option Verdict} (h : p.InFlight id tickets results) :
    (p.abandon id).1.Quiet ∧
      ∀ i t, tickets[i]? = some t → (p.abandon id).1.box t = mailboxOf .spent (results i) := by
  refine ⟨⟨h.wellFormed.abandon id, ?_⟩, fun i t ht => ?_⟩
  · rw [entries_abandon, List.filter_eq_nil_iff]
    rintro ⟨k, t⟩ hm
    simp [ofBatch, ((h.mem_entries k t).mp hm).1]
  · rw [box_abandon, h.box i t ht]
    cases hres : results i with
    | some v =>
      split <;> rfl
    | none =>
      have hm := (h.mem_entries (id, i) t).mpr ⟨rfl, ht, hres⟩
      rw [if_pos]
      · rfl
      · exact List.mem_map.mpr ⟨_, List.mem_filter.mpr ⟨hm, by simp [ofBatch]⟩, rfl⟩

end Pending

/-! ## Reading the results -/

/-- The failure that a test is recorded with, given its result. -/
def failureOf (path absent : String) (c : TestCase) : Option Verdict → Option Failure
  | some .ok => none
  | some (.failed message) => some ⟨path ++ "/" ++ c.name, message.getD ""⟩
  | none => some ⟨path ++ "/" ++ c.name, absent⟩

/-- The failures of a suite in the order of its cases, given their results by index. -/
def suiteFailures (path absent : String) (cases : List TestCase)
    (results : Nat → Option Verdict) : List Failure :=
  cases.zipIdx.filterMap fun c => failureOf path absent c.1 (results c.2)

/-- Why a test is recorded as failed. -/
inductive Reason where
  | reported (message : Option String)
  | unanswered
  | unsendable (fault : FileFault)
deriving DecidableEq, Repr

/-- The text of a failure; `absent` is for a test without a result. -/
def Reason.message (absent : String) : Reason → String
  | .reported message => message.getD ""
  | .unanswered => absent
  | .unsendable fault => fault.message

/-- Why a test fails, given its result. -/
def Reason.of? : Option Verdict → Option Reason
  | some .ok => none
  | some (.failed message) => some (.reported message)
  | none => some .unanswered

/-- The tests that fail, in the order of the cases. -/
def suiteReasons (cases : List TestCase) (results : Nat → Option Verdict) :
    List (TestCase × Reason) :=
  cases.zipIdx.filterMap fun c => (Reason.of? (results c.2)).map (c.1, ·)

/-- A failed test as it is recorded. -/
def failureFor (path absent : String) (f : TestCase × Reason) : Failure :=
  ⟨path ++ "/" ++ f.1.name, f.2.message absent⟩

theorem suiteFailures_eq (path absent : String) (cases : List TestCase)
    (results : Nat → Option Verdict) :
    suiteFailures path absent cases results =
      (suiteReasons cases results).map (failureFor path absent) := by
  rw [suiteFailures, suiteReasons, List.map_filterMap]
  apply List.filterMap_congr
  rintro ⟨c, i⟩ -
  cases hr : results i with
  | none => rfl
  | some v => cases v <;> rfl

namespace Pending

theorem take_snd (p : Pending) (t : Ticket) :
    (p.take t).2 = match p.box t with
      | .holding v => .verdict v
      | .waiting => .notYet
      | _ => .never := by
  unfold take
  cases p.box t <;> rfl

theorem take_fst (p : Pending) (t : Ticket) : ∃ boxes, (p.take t).1 = { p with boxes } ∧
    ∀ u ≠ t, (p.take t).1.box u = p.box u := by
  unfold take
  cases p.box t with
  | holding v => exact ⟨_, rfl, fun u hu => box_setBox_of_ne hu.symm⟩
  | waiting => exact ⟨p.boxes, rfl, fun _ _ => rfl⟩
  | spent => exact ⟨p.boxes, rfl, fun _ _ => rfl⟩
  | deserted => exact ⟨p.boxes, rfl, fun _ _ => rfl⟩

end Pending

namespace Dispatcher

/-- Records and announces some failures of a suite. -/
def logFailures (d : Dispatcher) (path : String) (fs : List (TestCase × String)) : Dispatcher :=
  fs.foldl (fun d f => d.logFailure path f.1 f.2) d

/-- The lines that announce some failures, numbered from `number` on. -/
def announce (number : Nat) (names : List String) : List Line :=
  (names.zipIdx number).map fun n => .failure n.1 n.2

theorem logFailures_eq (d : Dispatcher) (path : String) (fs : List (TestCase × String)) :
    d.logFailures path fs =
      { d with
        summary := { d.summary with
          failures := d.summary.failures ++ fs.map fun f => ⟨path ++ "/" ++ f.1.name, f.2⟩ }
        console := d.console ++
          announce (d.summary.failures.length + 1) (fs.map (·.1.name)) } := by
  induction fs generalizing d with
  | nil => simp [logFailures, announce]
  | cons f fs ih =>
    have hstep : d.logFailures path (f :: fs) = (d.logFailure path f.1 f.2).logFailures path fs :=
      rfl
    rw [hstep, ih]
    simp [logFailure, print, Summary.recordFailure, announce]

/-- The table does not matter for what is recorded. -/
theorem logFailures_pending (d : Dispatcher) (pending : Pending) (path : String)
    (fs : List (TestCase × String)) :
    ({ d with pending } : Dispatcher).logFailures path fs =
      { d.logFailures path fs with pending } := by
  rw [logFailures_eq, logFailures_eq]

/-- The failures that some mailboxes amount to. -/
def failuresIn (p : Pending) (absent : String) (l : List (TestCase × Ticket)) :
    List (TestCase × String) :=
  l.filterMap fun e => (failureMessage? absent (p.take e.2).2).map (e.1, ·)

/-- Reading the mailboxes of distinct tests empties them and records what they amount to. -/
theorem classify_eq (path absent : String) (l : List (TestCase × Ticket)) (d : Dispatcher)
    (n : Nat) (hn : (l.map (·.2)).Nodup) :
    ∃ boxes, d.classify path absent l n =
      ({ d.logFailures path (failuresIn d.pending absent l) with
          pending := { d.pending with boxes } },
        n + (failuresIn d.pending absent l).length) := by
  induction l generalizing d n with
  | nil => exact ⟨d.pending.boxes, rfl⟩
  | cons e l ih =>
    obtain ⟨c, t⟩ := e
    rw [List.map_cons, List.nodup_cons] at hn
    obtain ⟨boxes, hp, hbox⟩ := d.pending.take_fst t
    -- The other mailboxes still tell what they told before.
    have hrest : failuresIn (d.pending.take t).1 absent l = failuresIn d.pending absent l := by
      apply List.filterMap_congr
      intro e he
      have hne : e.2 ≠ t := fun heq => hn.1 (List.mem_map.mpr ⟨e, he, heq⟩)
      rw [Pending.take_snd, Pending.take_snd, hbox _ hne]
    cases hm : failureMessage? absent (d.pending.take t).2 with
    | none =>
      have hcons : failuresIn d.pending absent ((c, t) :: l) = failuresIn d.pending absent l := by
        simp [failuresIn, hm]
      obtain ⟨boxes', he⟩ := ih { d with pending := (d.pending.take t).1 } n hn.2
      refine ⟨boxes', ?_⟩
      simp only [classify, hm, hcons]
      rw [he, hrest, logFailures_pending, hp]
    | some message =>
      have hcons : failuresIn d.pending absent ((c, t) :: l) =
          (c, message) :: failuresIn d.pending absent l := by
        simp [failuresIn, hm]
      obtain ⟨boxes', he⟩ :=
        ih (({ d with pending := (d.pending.take t).1 }).logFailure path c message) (n + 1) hn.2
      refine ⟨boxes', ?_⟩
      have hlog : ({ d with pending := (d.pending.take t).1 } : Dispatcher).logFailure path c
          message = { d.logFailure path c message with pending := (d.pending.take t).1 } := rfl
      simp only [classify, hm, hcons]
      rw [he, hlog, hrest, logFailures_pending, hp, List.length_cons, Nat.add_right_comm]
      rfl

private theorem failureMessage?_take {p : Pending} {t : Ticket} {empty : Mailbox}
    {result : Option Verdict}
    (hempty : empty = .waiting ∨ empty = .spent) (hbox : p.box t = mailboxOf empty result)
    (absent : String) :
    failureMessage? absent (p.take t).2 = (Reason.of? result).map (Reason.message absent) := by
  rw [Pending.take_snd, hbox]
  cases result with
  | none => obtain rfl | rfl := hempty <;> rfl
  | some v => cases v <;> rfl

private theorem zip_tickets (cases : List TestCase) (tickets : List Ticket)
    (hl : tickets.length = cases.length) :
    cases.zip tickets = cases.zipIdx.map fun c => (c.1, tickets.getD c.2 0) := by
  apply List.ext_getElem
  · simp [hl]
  · intro i h₁ h₂
    have hi : i < tickets.length := by
      rw [List.length_zip] at h₁
      omega
    simp [hi]

/-- A batch is closed with the failures that its results amount to, and with a line that counts
them. -/
theorem conclude_logs (d : Dispatcher) (now : Nat) (b : Batch) (absent : String)
    {results : Nat → Option Verdict} {empty : Mailbox}
    (hempty : empty = .waiting ∨ empty = .spent) (hn : b.tickets.Nodup)
    (hl : b.tickets.length = b.cases.length)
    (hbox : ∀ i t, b.tickets[i]? = some t → d.pending.box t = mailboxOf empty (results i)) :
    ∃ boxes, d.conclude now b absent =
      ({ d.logFailures b.path
            ((suiteReasons b.cases results).map fun f => (f.1, f.2.message absent)) with
          pending := { d.pending with boxes }
          phase := .ready } : Dispatcher).printProgress b.size
        (suiteReasons b.cases results).length b.begun now := by
  have hnodup : ((b.cases.zip b.tickets).map (·.2)).Nodup := by
    rwa [List.map_snd_zip (Nat.le_of_eq hl)]
  obtain ⟨boxes, he⟩ := classify_eq b.path absent (b.cases.zip b.tickets) d 0 hnodup
  have hfailures : failuresIn d.pending absent (b.cases.zip b.tickets) =
      (suiteReasons b.cases results).map fun f => (f.1, f.2.message absent) := by
    rw [failuresIn, zip_tickets _ _ hl, List.filterMap_map, suiteReasons, List.map_filterMap]
    apply List.filterMap_congr
    rintro ⟨c, i⟩ hc
    have hi : i < b.tickets.length := hl ▸ List.snd_lt_of_mem_zipIdx hc
    have htake := failureMessage?_take hempty (hbox i (b.tickets.getD i 0) (by simp [hi])) absent
    simp only [Function.comp, htake, Option.map_map]
    rfl
  refine ⟨boxes, ?_⟩
  rw [conclude, he, hfailures, List.length_map, Nat.zero_add]

theorem conclude_eq (d : Dispatcher) (now : Nat) (b : Batch) (absent : String)
    {results : Nat → Option Verdict} {empty : Mailbox}
    (hempty : empty = .waiting ∨ empty = .spent) (hn : b.tickets.Nodup)
    (hl : b.tickets.length = b.cases.length)
    (hbox : ∀ i t, b.tickets[i]? = some t → d.pending.box t = mailboxOf empty (results i)) :
    ∃ boxes console, d.conclude now b absent =
      { d with
        summary := { d.summary with
          failures := d.summary.failures ++ suiteFailures b.path absent b.cases results }
        pending := { d.pending with boxes }
        phase := .ready
        console } := by
  obtain ⟨boxes, he⟩ := conclude_logs d now b absent hempty hn hl hbox
  refine ⟨boxes, (d.conclude now b absent).console, ?_⟩
  rw [he, logFailures_eq, List.map_map, suiteFailures_eq]
  rfl

/-- Without a missing result it does not matter what a missing one would be recorded as. -/
theorem suiteFailures_congr {path absent absent' : String} {cases : List TestCase}
    {results : Nat → Option Verdict} (h : ∀ i < cases.length, (results i).isSome = true) :
    suiteFailures path absent cases results = suiteFailures path absent' cases results := by
  apply List.filterMap_congr
  rintro ⟨c, i⟩ hc
  obtain ⟨v, hv⟩ := Option.isSome_iff_exists.mp (h i (List.snd_lt_of_mem_zipIdx hc))
  cases v <;> simp [hv, failureOf]

/-- A frame changes only the table and the log. -/
theorem handleFrame_eq (d : Dispatcher) (now : Nat) (text : String) :
    ∃ pending log, d.handleFrame now text = { d with pending, log } ∧
      ∀ id tickets results, d.pending.InFlight id tickets results →
        pending.InFlight id tickets fun i =>
          (results i).or ((Input.frame text).answer? id i) := by
  unfold handleFrame
  cases hd : Response.decode text with
  | error fault =>
    refine ⟨d.pending, _, rfl, fun id tickets results h => ?_⟩
    simpa [Input.answer?, hd] using h
  | ok r =>
    simp only [Input.answer?, hd]
    cases hr : d.pending.resolve r with
    | mk pending resolution =>
      cases resolution <;>
        exact ⟨pending, _, rfl, fun id tickets results h => by simpa [hr] using h.resolve r⟩

end Dispatcher

end SuiteRunner.Dispatch
