import Mathlib.Data.List.Induction
import SuiteRunner.Proofs.Dispatch.Pending

/-! # Histories of the table of waiting tests

A table is what a sequence of operations has made of the empty one. Its entries, its counts and the
mailboxes are told from that sequence alone. -/
namespace SuiteRunner.Dispatch

open Wire (Verdict Response)

namespace Pending

/-- What can happen to a table. The last one is the loss of a reader. -/
inductive Op where
  | register (id len : Nat)
  | resolve (r : Response)
  | abandon (id : Nat)
  | desert (t : Ticket)
deriving DecidableEq, Repr

/-- A batch that is still outstanding cannot be registered. -/
def Op.next? (p : Pending) : Op → Option Pending
  | .register id len => (p.register? id len).map (·.1)
  | .resolve r => some (p.resolve r).1
  | .abandon id => some (p.abandon id).1
  | .desert t => some (p.desert t)

def replay? (p : Pending) : List Op → Option Pending
  | [] => some p
  | o :: os => (o.next? p).bind (replay? · os)

/-- The mailbox that gets a result in an operation, and that result. -/
def Op.delivery? (p : Pending) : Op → Option (Ticket × Verdict)
  | .resolve r =>
    match p.ticket? (r.id, r.index), (p.resolve r).2 with
    | some t, .delivered => some (t, r.verdict)
    | _, _ => none
  | _ => none

def deliveries (p : Pending) : List Op → List (Ticket × Verdict)
  | [] => []
  | o :: os => (o.delivery? p).toList ++ ((o.next? p).map (deliveries · os)).getD []

/-- The results that go into one mailbox. -/
def received (p : Pending) (t : Ticket) (ops : List Op) : List Verdict :=
  (p.deliveries ops).filterMap fun d => if d.1 = t then some d.2 else none

/-- The batch an operation is about. -/
def Op.batch? : Op → Option Nat
  | .register id _ => some id
  | .resolve r => some r.id
  | .abandon id => some id
  | .desert _ => none

/-- After this nobody waits under the key any more. -/
def Op.settles (k : Key) : Op → Bool
  | .resolve r => (r.id, r.index) = k
  | .abandon id => id = k.1
  | _ => false

/-- The first such operation decides what becomes of a mailbox that waits under the key. -/
def Op.concerns (k : Key) (t : Ticket) (o : Op) : Bool := o.settles k || o = .desert t

/-- What it leaves in that mailbox. -/
def Op.leaves : Op → Mailbox
  | .resolve r => .holding r.verdict
  | .desert _ => .deserted
  | _ => .spent

/-- The test was registered and nothing has settled it since. -/
def OpenAfter (ops : List Op) (k : Key) : Prop :=
  ∃ before len after, ops = before ++ .register k.1 len :: after ∧ k.2 < len ∧
    ∀ o ∈ after, o.settles k = false

/-- The mailbox was handed out under the key, and `after` is what came afterwards. -/
def HandedOut (ops : List Op) (k : Key) (t : Ticket) (after : List Op) : Prop :=
  ∃ before len p q tickets, ops = before ++ .register k.1 len :: after ∧
    replay? {} before = some p ∧ p.register? k.1 len = some (q, tickets) ∧ tickets[k.2]? = some t

/-- The result for a mailbox that was handed out under a key, given what came afterwards. -/
def firstResult (k : Key) (t : Ticket) (after : List Op) : Option Verdict :=
  match after.find? (·.concerns k t) with
  | some (.resolve r) => some r.verdict
  | _ => none

/-- The state of such a mailbox. -/
def fate (k : Key) (t : Ticket) (after : List Op) : Mailbox :=
  if .desert t ∈ after then .deserted
  else ((after.find? (·.concerns k t)).map Op.leaves).getD .waiting

theorem replay?_append (p : Pending) (xs ys : List Op) :
    p.replay? (xs ++ ys) = (p.replay? xs).bind (replay? · ys) := by
  induction xs generalizing p with
  | nil => rfl
  | cons o xs ih =>
    cases h : o.next? p with
    | none => simp [replay?, h]
    | some p' => simp [replay?, h, ih]

private theorem deliveries_append {p q : Pending} {xs : List Op} (h : p.replay? xs = some q)
    (ys : List Op) : p.deliveries (xs ++ ys) = p.deliveries xs ++ q.deliveries ys := by
  induction xs generalizing p with
  | nil =>
    obtain rfl : p = q := by simpa [replay?] using h
    rfl
  | cons o xs ih =>
    cases ho : o.next? p with
    | none => simp [replay?, ho] at h
    | some p' =>
      have h' : p'.replay? xs = some q := by simpa [replay?, ho] using h
      simp [deliveries, ho, ih h']

/-! ## What one operation does -/

theorem WellFormed.next_register {p p' : Pending} {id len : Nat} (h : p.WellFormed)
    (ho : (Op.register id len).next? p = some p') :
    p.outstanding id = 0 ∧ p' = p.enroll id len := by
  obtain ⟨⟨q, tickets⟩, hr, rfl⟩ := Option.map_eq_some_iff.mp ho
  exact ⟨(h.register?_eq_some hr).1, (h.register?_eq_some hr).2.1⟩

theorem WellFormed.next {p p' : Pending} {o : Op} (h : p.WellFormed) (ho : o.next? p = some p') :
    p'.WellFormed := by
  cases o with
  | register id len =>
    obtain ⟨h0, rfl⟩ := h.next_register ho
    exact h.enroll h0 len
  | resolve r =>
    obtain rfl := Option.some.inj ho
    exact h.resolve r
  | abandon id =>
    obtain rfl := Option.some.inj ho
    exact h.abandon id
  | desert t =>
    obtain rfl := Option.some.inj ho
    exact h.desert t

/-- Entries come with a registration and go when they are settled. -/
theorem WellFormed.mem_entries_next {p p' : Pending} {o : Op} (h : p.WellFormed)
    (ho : o.next? p = some p') (k : Key) (t : Ticket) :
    (k, t) ∈ p'.entries ↔
      (k, t) ∈ p.entries ∧ o.settles k = false ∨
        ∃ len, o = .register k.1 len ∧ k.2 < len ∧ t = p.boxes.length + k.2 := by
  cases o with
  | register id len =>
    obtain ⟨h0, rfl⟩ := h.next_register ho
    obtain ⟨b, i⟩ := k
    simp only [Pending.enroll, List.mem_append, List.mem_map, List.mem_range, Op.settles, and_true]
    constructor
    · intro hcase
      rcases hcase with hm | ⟨i', hi, he⟩
      · exact .inl hm
      · obtain ⟨⟨rfl, rfl⟩, rfl⟩ := he
        exact .inr ⟨len, rfl, hi, rfl⟩
    · intro hcase
      rcases hcase with hm | ⟨len', he, hi, rfl⟩
      · exact .inl hm
      · obtain ⟨rfl, rfl⟩ := he
        exact .inr ⟨i, hi, rfl⟩
  | resolve r =>
    obtain rfl := Option.some.inj ho
    simp only [Op.settles, reduceCtorEq, false_and, exists_false, or_false, decide_eq_false_iff_not]
    obtain ⟨hnone, hr⟩ | ⟨u, hm, ⟨-, hr⟩ | ⟨-, hr⟩⟩ := h.resolve_cases r <;> rw [hr]
    · refine ⟨fun hk => ⟨hk, ?_⟩, fun hk => hk.1⟩
      rintro rfl
      exact hnone t hk
    · simp [mem_entries_forget, @eq_comm _ k]
    · simp [mem_entries_forget, @eq_comm _ k]
  | abandon id =>
    obtain rfl := Option.some.inj ho
    simp [Op.settles, ofBatch, @eq_comm _ id]
  | desert u =>
    obtain rfl := Option.some.inj ho
    simp [Op.settles, Pending.desert]

theorem WellFormed.boxes_length_next {p p' : Pending} {o : Op} (h : p.WellFormed)
    (ho : o.next? p = some p') : p.boxes.length ≤ p'.boxes.length := by
  cases o with
  | register id len =>
    obtain ⟨h0, rfl⟩ := h.next_register ho
    simp [Pending.enroll]
  | resolve r =>
    obtain rfl := Option.some.inj ho
    obtain ⟨-, hr⟩ | ⟨u, -, ⟨-, hr⟩ | ⟨-, hr⟩⟩ := h.resolve_cases r <;> simp [hr, Pending.forget]
  | abandon id =>
    obtain rfl := Option.some.inj ho
    simp
  | desert u =>
    obtain rfl := Option.some.inj ho
    simp [Pending.desert]

/-- A mailbox changes only when its reader leaves or when it waits under a key that is settled. -/
theorem WellFormed.box_next {p p' : Pending} {o : Op} (h : p.WellFormed)
    (ho : o.next? p = some p') {t : Nat} (ht : t < p.boxes.length)
    (hk : ∀ k, (k, t) ∈ p.entries → o.settles k = false ∨ p.box t ≠ .waiting) :
    p'.box t = if o = .desert t then .deserted else p.box t := by
  cases o with
  | register id len =>
    obtain ⟨h0, rfl⟩ := h.next_register ho
    simp only [box_enroll, reduceCtorEq, ↓reduceIte]
    rw [if_neg (by omega)]
  | resolve r =>
    obtain rfl := Option.some.inj ho
    simp only [reduceCtorEq, ↓reduceIte]
    obtain ⟨hnone, hr⟩ | ⟨u, hm, ⟨hb, hr⟩ | ⟨-, hr⟩⟩ := h.resolve_cases r <;> rw [hr]
    · apply box_setBox_of_ne
      rintro rfl
      rcases hk _ hm with hs | hw
      · simp [Op.settles] at hs
      · exact hw hb
    · rfl
  | abandon id =>
    obtain rfl := Option.some.inj ho
    simp only [reduceCtorEq, ↓reduceIte, box_abandon]
    split
    · next hmem =>
      obtain ⟨e, he, rfl⟩ := List.mem_map.mp hmem
      obtain ⟨hm, hid⟩ := List.mem_filter.mp he
      rcases hk e.1 hm with hs | hw
      · simp_all [Op.settles, ofBatch]
      · rw [(h.unanswered e hm).resolve_left hw]
        rfl
    · rfl
  | desert u =>
    obtain rfl := Option.some.inj ho
    simp only [Pending.desert, box_setBox, Op.desert.injEq]
    by_cases hu : u = t
    · simp [hu, ht]
    · simp [hu]

theorem WellFormed.delivery?_eq_some_iff {p : Pending} {o : Op} {t : Ticket} {v : Verdict}
    (h : p.WellFormed) :
    o.delivery? p = some (t, v) ↔
      ∃ r, o = .resolve r ∧ r.verdict = v ∧ ((r.id, r.index), t) ∈ p.entries ∧
        p.box t = .waiting := by
  cases o with
  | resolve r =>
    simp only [Op.delivery?, Op.resolve.injEq, exists_eq_left', h.ticket?_eq_some_iff.symm]
    obtain ⟨hnone, hr⟩ | ⟨u, hm, ⟨hb, hr⟩ | ⟨hb, hr⟩⟩ := h.resolve_cases r
    · have ht : p.ticket? (r.id, r.index) = none :=
        Option.eq_none_iff_forall_ne_some.mpr fun u hu => hnone u (h.ticket?_eq_some_iff.mp hu)
      simp [ht]
    · rw [h.ticket?_eq_some_iff.mpr hm, hr]
      simp only [Option.some.injEq, Prod.mk.injEq]
      constructor
      · intro hcase
        obtain ⟨rfl, hv⟩ := hcase
        exact ⟨hv, rfl, hb⟩
      · intro hcase
        obtain ⟨hv, rfl, -⟩ := hcase
        exact ⟨rfl, hv⟩
    · rw [h.ticket?_eq_some_iff.mpr hm, hr]
      simp only [reduceCtorEq, Option.some.injEq, false_iff, not_and]
      rintro - rfl hw
      rw [hb] at hw
      cases hw
  | register id len => simp [Op.delivery?]
  | abandon id => simp [Op.delivery?]
  | desert u => simp [Op.delivery?]

/-- A mailbox that has been handed out and will never get a result any more. -/
def Closed (p : Pending) (t : Nat) : Prop :=
  t < p.boxes.length ∧ ∀ k, (k, t) ∈ p.entries → p.box t ≠ .waiting

private theorem WellFormed.closed_next {p p' : Pending} {o : Op} (h : p.WellFormed)
    (ho : o.next? p = some p') {t : Nat} (hc : p.Closed t) :
    p'.Closed t ∧ p'.box t = if o = .desert t then .deserted else p.box t := by
  have hbox := h.box_next ho hc.1 fun k hk => .inr (hc.2 k hk)
  refine ⟨⟨Nat.lt_of_lt_of_le hc.1 (h.boxes_length_next ho), fun k hk => ?_⟩, hbox⟩
  rcases (h.mem_entries_next ho k t).mp hk with ⟨hm, -⟩ | ⟨len, -, -, rfl⟩
  · rw [hbox]
    split
    · simp
    · exact hc.2 k hm
  · exact absurd hc.1 (by simp)

theorem received_cons {p p' : Pending} {o : Op} (ho : o.next? p = some p') (t : Ticket)
    (os : List Op) :
    p.received t (o :: os) =
      ((o.delivery? p).toList.filterMap fun d => if d.1 = t then some d.2 else none) ++
        p'.received t os := by
  simp [received, deliveries, ho]

/-- Nothing goes into such a mailbox, and only its reader can still leave. -/
theorem WellFormed.closed_replay {p q : Pending} {ops : List Op} (h : p.WellFormed)
    (hr : p.replay? ops = some q) {t : Nat} (hc : p.Closed t) :
    p.received t ops = [] ∧ q.box t = if .desert t ∈ ops then .deserted else p.box t := by
  induction ops generalizing p with
  | nil =>
    obtain rfl := Option.some.inj hr
    simp [received, deliveries]
  | cons o os ih =>
    obtain ⟨p', ho, hr'⟩ := Option.bind_eq_some_iff.mp hr
    obtain ⟨hc', hbox⟩ := h.closed_next ho hc
    obtain ⟨hrec, hq⟩ := ih (h.next ho) hr' hc'
    constructor
    · rw [received_cons ho, hrec, List.append_nil, List.filterMap_eq_nil_iff]
      rintro ⟨u, v⟩ hd
      obtain ⟨r, -, -, hm, hw⟩ := h.delivery?_eq_some_iff.mp (Option.mem_toList.mp hd)
      rw [if_neg]
      rintro rfl
      exact hc.2 _ hm hw
    · rw [hq, hbox]
      by_cases h₁ : o = .desert t <;> by_cases h₂ : Op.desert t ∈ os <;>
        simp [h₁, h₂, eq_comm (a := Op.desert t)]

/-- Two keys never share a mailbox. -/
theorem WellFormed.key_unique {p : Pending} (h : p.WellFormed) {k k' : Key} {t : Ticket}
    (hk : (k, t) ∈ p.entries) (hk' : (k', t) ∈ p.entries) : k = k' :=
  congrArg Prod.fst (List.inj_on_of_nodup_map h.tickets hk hk' rfl)

/-- The mailbox of a test that waits is closed by the first operation that concerns it. -/
theorem WellFormed.closed_of_concerns {p p' : Pending} {o : Op} (h : p.WellFormed)
    (ho : o.next? p = some p') {k : Key} {t : Nat} (hk : (k, t) ∈ p.entries)
    (hw : p.box t = .waiting) (hc : o.concerns k t = true) :
    p'.Closed t ∧ p'.box t = o.leaves := by
  have ht : t < p.boxes.length := h.issued _ hk
  have ht' := Nat.lt_of_lt_of_le ht (h.boxes_length_next ho)
  cases o with
  | register id len => simp [Op.concerns, Op.settles] at hc
  | resolve r =>
    obtain rfl : (r.id, r.index) = k := by simpa [Op.concerns, Op.settles] using hc
    obtain rfl := Option.some.inj ho
    have hgone (k' : Key) : (k', t) ∉ (p.resolve r).1.entries := by
      intro hm
      rcases (h.mem_entries_next ho k' t).mp hm with ⟨hm, hs⟩ | ⟨len, hreg, -⟩
      · rw [h.key_unique hm hk] at hs
        simp [Op.settles] at hs
      · cases hreg
    refine ⟨⟨ht', fun k' hm => absurd hm (hgone k')⟩, ?_⟩
    obtain ⟨hnone, -⟩ | ⟨u, hm, ⟨hb, hr⟩ | ⟨hb, hr⟩⟩ := h.resolve_cases r
    · exact absurd hk (hnone t)
    · obtain rfl : u = t := congrArg Prod.snd (List.inj_on_of_nodup_map h.keys hm hk rfl)
      rw [hr]
      exact box_setBox_self ht
    · obtain rfl : u = t := congrArg Prod.snd (List.inj_on_of_nodup_map h.keys hm hk rfl)
      rw [hb] at hw
      cases hw
  | abandon id =>
    obtain rfl : id = k.1 := by simpa [Op.concerns, Op.settles] using hc
    obtain rfl := Option.some.inj ho
    have hbox : (p.abandon k.1).1.box t = .spent := by
      rw [box_abandon, if_pos, hw]
      · rfl
      · exact List.mem_map.mpr ⟨_, List.mem_filter.mpr ⟨hk, by simp [ofBatch]⟩, rfl⟩
    exact ⟨⟨ht', fun k' _ => by simp [hbox]⟩, hbox⟩
  | desert u =>
    obtain rfl : u = t := by simpa [Op.concerns, Op.settles] using hc
    obtain rfl := Option.some.inj ho
    have hbox : (p.desert u).box u = .deserted := box_setBox_self ht
    exact ⟨⟨ht', fun k' _ => by simp [hbox]⟩, hbox⟩

/-- What a test that waits is going to get. -/
theorem WellFormed.waiting_replay {p q : Pending} {ops : List Op} (h : p.WellFormed)
    (hr : p.replay? ops = some q) {k : Key} {t : Nat} (hk : (k, t) ∈ p.entries)
    (hw : p.box t = .waiting) :
    p.received t ops = (firstResult k t ops).toList ∧ q.box t = fate k t ops := by
  induction ops generalizing p with
  | nil =>
    obtain rfl := Option.some.inj hr
    simp [received, deliveries, firstResult, fate, hw]
  | cons o os ih =>
    obtain ⟨p', ho, hr'⟩ := Option.bind_eq_some_iff.mp hr
    have hown {u : Ticket} {v : Verdict} (hd : o.delivery? p = some (u, v)) (hu : u = t) :
        ∃ r, o = .resolve r ∧ r.verdict = v ∧ o.settles k = true := by
      subst hu
      obtain ⟨r, rfl, hv, hm, -⟩ := h.delivery?_eq_some_iff.mp hd
      exact ⟨r, rfl, hv, by simp [Op.settles, h.key_unique hm hk]⟩
    by_cases hc : o.concerns k t = true
    · -- The operation decides; nothing that follows matters but the loss of the reader.
      obtain ⟨hclosed, hbox⟩ := h.closed_of_concerns ho hk hw hc
      obtain ⟨hrec, hq⟩ := (h.next ho).closed_replay hr' hclosed
      rw [received_cons ho, hrec, hq, hbox, List.append_nil]
      simp only [firstResult, fate, List.find?_cons, hc]
      cases o with
      | register id len => simp [Op.concerns, Op.settles] at hc
      | resolve r =>
        have hkey : (r.id, r.index) = k := by simpa [Op.concerns, Op.settles] using hc
        have hd : (Op.resolve r).delivery? p = some (t, r.verdict) :=
          h.delivery?_eq_some_iff.mpr ⟨r, rfl, rfl, hkey ▸ hk, hw⟩
        simp [hd, Op.leaves]
      | abandon id => simp [Op.delivery?, Op.leaves]
      | desert u =>
        obtain rfl : u = t := by simpa [Op.concerns, Op.settles] using hc
        simp [Op.delivery?, Op.leaves]
    · have hs : o.settles k = false := by
        by_contra hs
        simp [Op.concerns, Bool.not_eq_false _ ▸ hs] at hc
      have hne : o ≠ .desert t := by
        rintro rfl
        simp [Op.concerns] at hc
      have hk' : (k, t) ∈ p'.entries := (h.mem_entries_next ho k t).mpr (.inl ⟨hk, hs⟩)
      have hw' : p'.box t = .waiting := by
        rw [h.box_next ho (h.issued _ hk), if_neg hne, hw]
        intro k' hm
        exact .inl (h.key_unique hm hk ▸ hs)
      obtain ⟨hrec, hq⟩ := ih (h.next ho) hr' hk' hw'
      have hnone : ((o.delivery? p).toList.filterMap fun d => if d.1 = t then some d.2 else none) =
          [] := by
        rw [List.filterMap_eq_nil_iff]
        rintro ⟨u, v⟩ hd
        rw [if_neg]
        intro hu
        obtain ⟨r, -, -, hs'⟩ := hown (Option.mem_toList.mp hd) hu
        simp [hs] at hs'
      rw [received_cons ho, hnone, hrec, hq]
      simp [firstResult, fate, hc, Ne.symm hne]

/-! ## Whole histories -/

theorem WellFormed.replay {p q : Pending} {ops : List Op} (h : p.WellFormed)
    (hr : p.replay? ops = some q) : q.WellFormed := by
  induction ops generalizing p with
  | nil =>
    obtain rfl := Option.some.inj hr
    exact h
  | cons o os ih =>
    obtain ⟨p', ho, hr'⟩ := Option.bind_eq_some_iff.mp hr
    exact ih (h.next ho) hr'

/-- A mailbox that does not exist yet has got nothing. -/
theorem WellFormed.received_eq_nil {p q : Pending} {ops : List Op} (h : p.WellFormed)
    (hr : p.replay? ops = some q) {t : Nat} (ht : q.boxes.length ≤ t) :
    p.boxes.length ≤ q.boxes.length ∧ p.received t ops = [] := by
  induction ops generalizing p with
  | nil =>
    obtain rfl := Option.some.inj hr
    exact ⟨Nat.le_refl _, rfl⟩
  | cons o os ih =>
    obtain ⟨p', ho, hr'⟩ := Option.bind_eq_some_iff.mp hr
    obtain ⟨hle, hrec⟩ := ih (h.next ho) hr'
    have hle' := Nat.le_trans (h.boxes_length_next ho) hle
    refine ⟨hle', ?_⟩
    rw [received_cons ho, hrec, List.append_nil, List.filterMap_eq_nil_iff]
    rintro ⟨u, v⟩ hd
    obtain ⟨r, -, -, hm, -⟩ := h.delivery?_eq_some_iff.mp (Option.mem_toList.mp hd)
    have hu : u < p.boxes.length := h.issued _ hm
    rw [if_neg]
    rintro rfl
    exact Nat.not_lt.mpr (Nat.le_trans hle' ht) hu

private theorem openAfter_concat {ops : List Op} {o : Op} {k : Key} :
    OpenAfter (ops ++ [o]) k ↔
      OpenAfter ops k ∧ o.settles k = false ∨ ∃ len, o = .register k.1 len ∧ k.2 < len := by
  constructor
  · intro hcase
    obtain ⟨before, len, after, heq, hlt, hs⟩ := hcase
    rcases List.eq_nil_or_concat after with rfl | ⟨after, o', rfl⟩
    · obtain ⟨-, he⟩ := List.append_inj' heq rfl
      exact .inr ⟨len, by simpa using he, hlt⟩
    · rw [List.concat_eq_append, ← List.cons_append, ← List.append_assoc] at heq
      obtain ⟨rfl, he⟩ := List.append_inj' heq rfl
      obtain rfl : o = o' := by simpa using he
      exact .inl ⟨⟨before, len, after, rfl, hlt, fun x hx => hs x (by simp [hx])⟩, hs o (by simp)⟩
  · intro hcase
    rcases hcase with ⟨⟨before, len, after, rfl, hlt, hs⟩, ho⟩ | ⟨len, rfl, hlt⟩
    · refine ⟨before, len, after ++ [o], by simp, hlt, fun x hx => ?_⟩
      rcases List.mem_append.mp hx with hx | hx
      · exact hs x hx
      · rwa [List.mem_singleton.mp hx]
    · exact ⟨ops, len, [], rfl, hlt, by simp⟩

/-- The keys of a table are those of the open tests. -/
theorem exists_mem_entries_iff {ops : List Op} {p : Pending} (hr : replay? {} ops = some p)
    (k : Key) : (∃ t, (k, t) ∈ p.entries) ↔ OpenAfter ops k := by
  induction ops using List.reverseRecOn generalizing p with
  | nil =>
    obtain rfl := Option.some.inj hr
    simp [OpenAfter]
  | append_singleton ops o ih =>
    rw [replay?_append] at hr
    obtain ⟨p₀, hr₀, hr₁⟩ := Option.bind_eq_some_iff.mp hr
    obtain ⟨p', ho, hp'⟩ := Option.bind_eq_some_iff.mp hr₁
    obtain rfl := Option.some.inj hp'
    have h := wellFormed_empty.replay hr₀
    simp only [openAfter_concat, ← ih hr₀, h.mem_entries_next ho k]
    constructor
    · intro hcase
      obtain ⟨t, ⟨hm, hs⟩ | ⟨len, hreg, hlt, -⟩⟩ := hcase
      · exact .inl ⟨⟨t, hm⟩, hs⟩
      · exact .inr ⟨len, hreg, hlt⟩
    · intro hcase
      rcases hcase with ⟨⟨t, hm⟩, hs⟩ | ⟨len, hreg, hlt⟩
      · exact ⟨t, .inl ⟨hm, hs⟩⟩
      · exact ⟨_, .inr ⟨len, hreg, hlt, rfl⟩⟩

/-- Right after it was handed out a mailbox waits, and nothing has gone into it before. -/
theorem HandedOut.spec {ops after : List Op} {k : Key} {t : Nat} {q : Pending}
    (h : HandedOut ops k t after) (hr : replay? {} ops = some q) :
    ∃ p : Pending, p.WellFormed ∧ p.replay? after = some q ∧ (k, t) ∈ p.entries ∧
      p.box t = .waiting ∧ received {} t ops = p.received t after := by
  obtain ⟨before, len, p₀, p₁, tickets, rfl, hb, hreg, ht⟩ := h
  have h₀ := wellFormed_empty.replay hb
  obtain ⟨h0, rfl, rfl⟩ := h₀.register?_eq_some hreg
  have ho : (Op.register k.1 len).next? p₀ = some (p₀.enroll k.1 len) := by
    simp [Op.next?, hreg]
  obtain ⟨hlt, rfl⟩ := newTickets_getElem?_eq_some_iff.mp ht
  have hm : (k, p₀.boxes.length + k.2) ∈ (p₀.enroll k.1 len).entries :=
    (h₀.mem_entries_next ho k _).mpr (.inr ⟨len, rfl, hlt, rfl⟩)
  refine ⟨p₀.enroll k.1 len, h₀.next ho, ?_, hm, ?_, ?_⟩
  · rw [replay?_append, hb] at hr
    simpa [replay?, ho] using hr
  · rw [box_enroll, if_pos (by omega)]
  · have hsplit : received {} (p₀.boxes.length + k.2) (before ++ Op.register k.1 len :: after) =
        received {} (p₀.boxes.length + k.2) before ++
          p₀.received (p₀.boxes.length + k.2) (Op.register k.1 len :: after) := by
      simp [received, deliveries_append hb]
    rw [hsplit, (wellFormed_empty.received_eq_nil hb (Nat.le_add_right _ _)).2, received_cons ho]
    rfl

/-- The key under which a mailbox was handed out stays the only one it can be reached by. -/
theorem WellFormed.owner_replay {p q : Pending} {ops : List Op} (h : p.WellFormed)
    (hr : p.replay? ops = some q) {k : Key} {t : Nat} (ht : t < p.boxes.length)
    (hk : ∀ k', (k', t) ∈ p.entries → k' = k) :
    t < q.boxes.length ∧ ∀ k', (k', t) ∈ q.entries → k' = k := by
  induction ops generalizing p with
  | nil =>
    obtain rfl := Option.some.inj hr
    exact ⟨ht, hk⟩
  | cons o os ih =>
    obtain ⟨p', ho, hr'⟩ := Option.bind_eq_some_iff.mp hr
    refine ih (h.next ho) hr' (Nat.lt_of_lt_of_le ht (h.boxes_length_next ho)) fun k' hm => ?_
    rcases (h.mem_entries_next ho k' t).mp hm with ⟨hm, -⟩ | ⟨len, -, -, rfl⟩
    · exact hk k' hm
    · exact absurd ht (by simp)

private theorem WellFormed.entriesOf_next {p p' : Pending} {o : Op} (h : p.WellFormed)
    (ho : o.next? p = some p') {id : Nat} (hb : o.batch? ≠ some id) :
    p'.entriesOf id = p.entriesOf id := by
  cases o with
  | register b len =>
    obtain ⟨-, rfl⟩ := h.next_register ho
    have hne : id ≠ b := fun he => hb (by simp [Op.batch?, he])
    simp [entriesOf_enroll, hne]
  | resolve r =>
    obtain rfl := Option.some.inj ho
    have hforget : (p.forget (r.id, r.index)).entriesOf id = p.entriesOf id := by
      rw [entriesOf, entriesOf, Pending.forget, List.filter_filter]
      apply List.filter_congr
      intro e _
      by_cases he : e.1 = (r.id, r.index)
      · have hne : r.id ≠ id := fun heq => hb (by simp [Op.batch?, heq])
        simp [ofBatch, he, hne]
      · simp [he]
    obtain ⟨-, hr⟩ | ⟨u, -, ⟨-, hr⟩ | ⟨-, hr⟩⟩ := h.resolve_cases r <;> rw [hr]
    · exact hforget
    · exact hforget
  | abandon b =>
    obtain rfl := Option.some.inj ho
    have hne : id ≠ b := fun he => hb (by simp [Op.batch?, he])
    rw [entriesOf_abandon, if_neg hne]
  | desert u =>
    obtain rfl := Option.some.inj ho
    rfl

private theorem Op.settles_eq_false {o : Op} {k : Key} (hb : o.batch? ≠ some k.1) :
    o.settles k = false := by
  cases o with
  | resolve r =>
    simp only [Op.settles, decide_eq_false_iff_not]
    rintro rfl
    exact hb rfl
  | abandon id =>
    simp only [Op.settles, decide_eq_false_iff_not]
    rintro rfl
    exact hb rfl
  | register id len => rfl
  | desert u => rfl

/-- What a table owes to its history. -/
structure Accounted (ops : List Op) (p : Pending) : Prop where
  counted : ∀ id, p.outstanding id = (p.entriesOf id).length
  positive : ∀ c ∈ p.counts, 0 < c.2
  total : p.size = (p.counts.map (·.2)).sum
  /-- A batch can be registered whenever none of its tests is outstanding. -/
  registers : ∀ id len, (p.register? id len).isSome = true ↔ p.outstanding id = 0
  /-- A result for an open test always finds a count that it can take one from. -/
  decrement : ∀ r : Response, OpenAfter ops (r.id, r.index) →
    ∃ n, p.counts.lookup r.id = some (n + 1) ∧ (p.resolve r).1.outstanding r.id = n
  /-- All other results find nobody and change nothing. -/
  stray : ∀ r : Response, ¬OpenAfter ops (r.id, r.index) → p.resolve r = (p, .unknown)
  /-- At most one result goes into a mailbox: that of the first result on its key, unless the batch
  was given up or the reader left before. -/
  received : ∀ k t after, HandedOut ops k t after →
    received {} t ops = (firstResult k t after).toList ∧ p.box t = fate k t after
  /-- Giving up a batch tells the open tests in order and leaves none. -/
  givenUp : ∀ id, (p.abandon id).2.Pairwise (· < ·) ∧
    (∀ i, i ∈ (p.abandon id).2 ↔ OpenAfter ops (id, i)) ∧ (p.abandon id).1.outstanding id = 0
  /-- Operations on other batches change neither entries nor counts nor mailboxes of a batch. -/
  isolated : ∀ (o : Op) (p' : Pending) (id : Nat), o.batch? ≠ some id → o.next? p = some p' →
    p'.entriesOf id = p.entriesOf id ∧ p'.outstanding id = p.outstanding id ∧
      ∀ i t after, HandedOut ops (id, i) t after → o ≠ .desert t → p'.box t = p.box t

theorem history_accounted {ops : List Op} {p : Pending} (hr : replay? {} ops = some p) :
    Accounted ops p := by
  have h := wellFormed_empty.replay hr
  refine ⟨h.counted, h.positive, h.size_eq_sum, ?_, ?_, ?_, ?_, ?_, ?_⟩
  · intro id len
    constructor
    · intro hsome
      obtain ⟨q, hq⟩ := Option.isSome_iff_exists.mp hsome
      exact (h.register?_eq_some hq).1
    · intro h0
      rw [h.register?_of_outstanding h0 len]
      rfl
  · intro r hopen
    obtain ⟨t, hm⟩ := (exists_mem_entries_iff hr _).mpr hopen
    have hpos : p.outstanding r.id ≠ 0 := fun h0 => h.outstanding_eq_zero_iff.mp h0 _ hm rfl
    obtain ⟨n, hn⟩ := Nat.exists_eq_succ_of_ne_zero hpos
    refine ⟨n, ?_, ?_⟩
    · rw [h.lookup_counts, ← h.counted, if_neg hpos, hn]
    · have hforget := h.outstanding_forget (r.id, r.index) r.id
      rw [if_pos rfl, hn] at hforget
      obtain ⟨hnone, -⟩ | ⟨u, -, ⟨-, hres⟩ | ⟨-, hres⟩⟩ := h.resolve_cases r
      · exact absurd hm (hnone t)
      · rw [hres]
        exact hforget
      · rw [hres]
        exact hforget
  · intro r hclosed
    obtain ⟨-, hres⟩ | ⟨u, hm, -⟩ := h.resolve_cases r
    · exact hres
    · exact absurd ((exists_mem_entries_iff hr _).mp ⟨u, hm⟩) hclosed
  · intro k t after hout
    obtain ⟨p₁, h₁, hr₁, hm, hw, hrec⟩ := hout.spec hr
    rw [hrec]
    exact h₁.waiting_replay hr₁ hm hw
  · intro id
    refine ⟨h.waitingIndices_sorted id, fun i => ?_, by simp [outstanding_abandon]⟩
    exact mem_waitingIndices.trans (exists_mem_entries_iff hr (id, i))
  · intro o p' id hb ho
    -- A mailbox of the batch can be reached by its own key only, and that key is not settled.
    have hentries := h.entriesOf_next ho hb
    refine ⟨hentries, by rw [(h.next ho).counted, h.counted, hentries], ?_⟩
    intro i t after hout hne
    obtain ⟨p₁, h₁, hr₁, hm, -, -⟩ := hout.spec hr
    obtain ⟨ht, hown⟩ := h₁.owner_replay hr₁ (h₁.issued _ hm) fun k' hk' => h₁.key_unique hk' hm
    rw [h.box_next ho ht, if_neg hne]
    intro k' hk'
    rw [hown k' hk']
    exact .inl (Op.settles_eq_false hb)

/-- A batch with a late, a repeated and a lost result, whose id is used again. -/
theorem history_accounted_reuse :
    ∃ p, replay? {} [.register 3 2, .resolve ⟨3, 1, .ok⟩, .resolve ⟨3, 1, .failed none⟩, .abandon 3,
        .resolve ⟨3, 0, .ok⟩, .register 3 1, .register 4 0, .desert 2, .resolve ⟨3, 0, .ok⟩] =
          some p ∧
      Accounted [.register 3 2, .resolve ⟨3, 1, .ok⟩, .resolve ⟨3, 1, .failed none⟩, .abandon 3,
        .resolve ⟨3, 0, .ok⟩, .register 3 1, .register 4 0, .desert 2, .resolve ⟨3, 0, .ok⟩] p :=
  ⟨_, rfl, history_accounted rfl⟩

end Pending

end SuiteRunner.Dispatch
