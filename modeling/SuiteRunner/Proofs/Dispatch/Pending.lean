import Mathlib.Algebra.Ring.Nat
import Mathlib.Data.List.Nodup
import SuiteRunner.Dispatch.Pending

/-! # The table of waiting tests is consistent

The table keeps what it knows twice, as entries and as counts for each batch. `WellFormed` says that
the two agree, and every operation keeps it. -/
namespace SuiteRunner.Dispatch

open Wire (Verdict Response)

namespace Pending

/-! ## Mailboxes -/

theorem box_setBox (p : Pending) (t u : Ticket) (b : Mailbox) :
    (p.setBox t b).box u = if t = u ∧ t < p.boxes.length then b else p.box u := by
  by_cases h : t = u
  · subst h
    by_cases ht : t < p.boxes.length <;> simp [box, setBox, ht]
  · simp [box, setBox, h]

theorem box_setBox_of_ne {p : Pending} {t u : Ticket} {b : Mailbox} (h : t ≠ u) :
    (p.setBox t b).box u = p.box u := by
  simp [box_setBox, h]

theorem box_setBox_self {p : Pending} {t : Ticket} {b : Mailbox} (h : t < p.boxes.length) :
    (p.setBox t b).box t = b := by
  simp [box_setBox, h]

theorem box_eq_spent_of_le {p : Pending} {t : Ticket} (h : p.boxes.length ≤ t) :
    p.box t = .spent := by
  simp [box, h]

@[simp] theorem boxes_length_setBox (p : Pending) (t : Ticket) (b : Mailbox) :
    (p.setBox t b).boxes.length = p.boxes.length := by
  simp [setBox]

@[simp] theorem entries_setBox (p : Pending) (t : Ticket) (b : Mailbox) :
    (p.setBox t b).entries = p.entries := rfl

@[simp] theorem counts_setBox (p : Pending) (t : Ticket) (b : Mailbox) :
    (p.setBox t b).counts = p.counts := rfl

@[simp] theorem release_release (b : Mailbox) :
    Mailbox.release (Mailbox.release b) = Mailbox.release b := by
  cases b <;> rfl

@[simp] theorem entries_releaseAll (p : Pending) (ts : List Ticket) :
    (p.releaseAll ts).entries = p.entries := by
  induction ts generalizing p with
  | nil => rfl
  | cons t ts ih => exact ih _

@[simp] theorem counts_releaseAll (p : Pending) (ts : List Ticket) :
    (p.releaseAll ts).counts = p.counts := by
  induction ts generalizing p with
  | nil => rfl
  | cons t ts ih => exact ih _

@[simp] theorem boxes_length_releaseAll (p : Pending) (ts : List Ticket) :
    (p.releaseAll ts).boxes.length = p.boxes.length := by
  induction ts generalizing p with
  | nil => rfl
  | cons t ts ih => exact (ih _).trans (boxes_length_setBox p t _)

private theorem box_releaseAll (p : Pending) (ts : List Ticket) (u : Ticket) :
    (p.releaseAll ts).box u = if u ∈ ts then Mailbox.release (p.box u) else p.box u := by
  induction ts generalizing p with
  | nil => simp [releaseAll]
  | cons t ts ih =>
    have hstep : (p.setBox t (Mailbox.release (p.box t))).box u =
        if u = t then Mailbox.release (p.box u) else p.box u := by
      by_cases hut : u = t
      · subst hut
        by_cases hlt : u < p.boxes.length
        · simp [box_setBox, hlt]
        · simp [box_setBox, hlt, box_eq_spent_of_le (Nat.le_of_not_lt hlt), Mailbox.release]
      · simp [box_setBox, hut, Ne.symm hut]
    change ((p.setBox t (Mailbox.release (p.box t))).releaseAll ts).box u = _
    rw [ih, hstep]
    by_cases hut : u = t <;> by_cases hus : u ∈ ts <;> simp [hut, hus]

/-! ## Look-ups -/

theorem mem_of_lookup {α β : Type} [BEq α] [LawfulBEq α] {l : List (α × β)} {a : α} {b : β}
    (h : l.lookup a = some b) : (a, b) ∈ l := by
  obtain ⟨l₁, l₂, rfl, -⟩ := List.lookup_eq_some_iff.mp h
  simp

theorem ne_of_nodup_map {α β : Type} {f : α → β} {l₁ l₂ : List α} {a : α}
    (h : ((l₁ ++ a :: l₂).map f).Nodup) : ∀ e ∈ l₁ ++ l₂, f e ≠ f a := by
  rw [List.map_append, List.map_cons] at h
  obtain ⟨-, h₂, h₁⟩ := List.nodup_append.mp h
  intro e he
  rcases List.mem_append.mp he with he | he
  · exact h₁ _ (List.mem_map_of_mem he) _ List.mem_cons_self
  · intro heq
    exact (List.nodup_cons.mp h₂).1 (heq ▸ List.mem_map_of_mem he)

theorem lookup_of_mem {α β : Type} [BEq α] [LawfulBEq α] {l : List (α × β)} {a : α} {b : β}
    (hn : (l.map (·.1)).Nodup) (h : (a, b) ∈ l) : l.lookup a = some b := by
  obtain ⟨l₁, l₂, rfl⟩ := List.append_of_mem h
  refine List.lookup_eq_some_iff.mpr ⟨l₁, l₂, rfl, fun e he => ?_⟩
  simpa using (ne_of_nodup_map hn e (List.mem_append_left _ he)).symm

theorem lookup_cons_ite {α β : Type} [DecidableEq α] (k a : α) (b : β) (l : List (α × β)) :
    ((k, b) :: l).lookup a = if a = k then some b else l.lookup a := by
  by_cases h : a = k
  · simp [h]
  · rw [List.lookup_cons, beq_false_of_ne h, if_neg h]

/-! ## The representation invariant -/

/-- The entries of one batch. -/
def entriesOf (p : Pending) (id : Nat) : List (Key × Ticket) := p.entries.filter (ofBatch id)

/-- Entries and counts tell the same story, and every entry has a mailbox of its own that has not
got a result. -/
structure WellFormed (p : Pending) : Prop where
  keys : (p.entries.map (·.1)).Nodup
  tickets : (p.entries.map (·.2)).Nodup
  issued : ∀ e ∈ p.entries, e.2 < p.boxes.length
  unanswered : ∀ e ∈ p.entries, p.box e.2 = .waiting ∨ p.box e.2 = .deserted
  ids : (p.counts.map (·.1)).Nodup
  positive : ∀ c ∈ p.counts, 0 < c.2
  counted : ∀ id, p.outstanding id = (p.entriesOf id).length

theorem wellFormed_empty : WellFormed {} := by
  constructor <;> simp [outstanding, entriesOf]

namespace WellFormed

variable {p : Pending}

theorem ticket?_eq_some_iff (h : p.WellFormed) {k : Key} {t : Ticket} :
    p.ticket? k = some t ↔ (k, t) ∈ p.entries :=
  ⟨mem_of_lookup, lookup_of_mem h.keys⟩

/-- A count is there exactly for the batches with an entry, and it is never zero. -/
theorem lookup_counts (h : p.WellFormed) (id : Nat) :
    p.counts.lookup id =
      if (p.entriesOf id).length = 0 then none else some (p.entriesOf id).length := by
  have hc := h.counted id
  unfold outstanding at hc
  cases hl : p.counts.lookup id with
  | none => simp_all
  | some n =>
    have hn : 0 < n := h.positive _ (mem_of_lookup hl)
    rw [hl, Option.getD_some] at hc
    rw [← hc, if_neg (by omega)]

theorem outstanding_eq_zero_iff (h : p.WellFormed) {id : Nat} :
    p.outstanding id = 0 ↔ ∀ e ∈ p.entries, e.1.1 ≠ id := by
  rw [h.counted, List.length_eq_zero_iff, entriesOf, List.filter_eq_nil_iff]
  simp [ofBatch]

theorem counts_eq_nil (h : p.WellFormed) (he : p.entries = []) : p.counts = [] := by
  cases hc : p.counts with
  | nil => rfl
  | cons c cs =>
    have hlookup := h.lookup_counts c.1
    simp [hc, entriesOf, he] at hlookup

/-- Counts of distinct batches that cover all entries add up to the number of entries. -/
theorem length_eq_sum_counts {counts : List (Nat × Nat)} (hn : (counts.map (·.1)).Nodup)
    (entries : List (Key × Ticket))
    (hc : ∀ c ∈ counts, (entries.filter (ofBatch c.1)).length = c.2)
    (he : ∀ e ∈ entries, e.1.1 ∈ counts.map (·.1)) :
    entries.length = (counts.map (·.2)).sum := by
  induction counts generalizing entries with
  | nil =>
    have : entries = [] := List.eq_nil_iff_forall_not_mem.mpr fun e h => by simpa using he e h
    simp [this]
  | cons c counts ih =>
    rw [List.map_cons, List.nodup_cons] at hn
    -- The first batch takes its entries away; the rest is counted by the other batches.
    let others := entries.filter fun e => !ofBatch c.1 e
    have hsplit : entries.length = (entries.filter (ofBatch c.1)).length + others.length :=
      List.length_eq_length_filter_add _
    have hothers : others.length = (counts.map (·.2)).sum := by
      apply ih hn.2
      · intro c' hc'
        have hne : c'.1 ≠ c.1 := fun h => hn.1 (h ▸ List.mem_map_of_mem hc')
        rw [← hc c' (List.mem_cons_of_mem _ hc'), List.filter_filter]
        congr 1
        apply List.filter_congr
        intro e _
        by_cases h : e.1.1 = c'.1 <;> simp [ofBatch, h, hne]
      · intro e h
        obtain ⟨hmem, hb⟩ := List.mem_filter.mp h
        have := he e hmem
        simp_all [ofBatch]
    rw [hsplit, hc c List.mem_cons_self, hothers, List.map_cons, List.sum_cons]

theorem size_eq_sum (h : p.WellFormed) : p.size = (p.counts.map (·.2)).sum := by
  apply length_eq_sum_counts h.ids
  · intro c hc
    have hl := lookup_of_mem h.ids (a := c.1) (b := c.2) hc
    have ho := h.counted c.1
    simpa [outstanding, hl, entriesOf] using ho.symm
  · intro e he
    have hne : p.outstanding e.1.1 ≠ 0 := fun h0 => h.outstanding_eq_zero_iff.mp h0 e he rfl
    cases hl : p.counts.lookup e.1.1 with
    | none => simp [outstanding, hl] at hne
    | some n => exact List.mem_map.mpr ⟨_, mem_of_lookup hl, rfl⟩

end WellFormed

/-! ## Registering -/

/-- The mailboxes that a batch of `len` tests gets. -/
def newTickets (p : Pending) (len : Nat) : List Ticket :=
  (List.range len).map (p.boxes.length + ·)

theorem newTickets_getElem?_eq_some_iff {p : Pending} {len i t : Nat} :
    (p.newTickets len)[i]? = some t ↔ i < len ∧ p.boxes.length + i = t := by
  simp [newTickets, List.getElem?_eq_some_iff]

theorem newTickets_nodup (p : Pending) (len : Nat) : (p.newTickets len).Nodup :=
  List.nodup_range.map fun _ _ h => Nat.add_left_cancel h

/-- The table with a batch added to it. -/
def enroll (p : Pending) (id len : Nat) : Pending where
  entries := p.entries ++ (List.range len).map fun i => ((id, i), p.boxes.length + i)
  counts := if len = 0 then p.counts else p.counts ++ [(id, len)]
  boxes := p.boxes ++ List.replicate len .waiting

theorem register?_eq (p : Pending) (id len : Nat) :
    p.register? id len =
      if (p.counts.lookup id).isSome then none else some (p.enroll id len, p.newTickets len) := by
  have hz : (batchKeys id len).zip (p.newTickets len) =
      (List.range len).map fun i => ((id, i), p.boxes.length + i) := by
    rw [batchKeys, newTickets, List.zip_map']
  unfold register? enroll
  rw [← hz]
  rfl

theorem WellFormed.register?_eq_some {p q : Pending} (h : p.WellFormed) {id len : Nat}
    {tickets : List Ticket} (hr : p.register? id len = some (q, tickets)) :
    p.outstanding id = 0 ∧ q = p.enroll id len ∧ tickets = p.newTickets len := by
  rw [register?_eq, h.lookup_counts, ← h.counted] at hr
  by_cases h0 : p.outstanding id = 0
  · simp_all
  · simp [h0] at hr

theorem WellFormed.register?_of_outstanding {p : Pending} (h : p.WellFormed) {id : Nat}
    (h0 : p.outstanding id = 0) (len : Nat) :
    p.register? id len = some (p.enroll id len, p.newTickets len) := by
  rw [register?_eq, h.lookup_counts, ← h.counted, if_pos h0]
  rfl

theorem box_enroll (p : Pending) (id len t : Nat) :
    (p.enroll id len).box t =
      if p.boxes.length ≤ t ∧ t < p.boxes.length + len then .waiting else p.box t := by
  by_cases h : t < p.boxes.length
  · rw [if_neg (by omega)]
    simp [box, enroll, List.getElem?_append_left h]
  · rw [box_eq_spent_of_le (Nat.le_of_not_lt h)]
    by_cases h' : t < p.boxes.length + len
    · rw [if_pos (by omega)]
      simp [box, enroll, List.getElem?_append_right (Nat.le_of_not_lt h),
        (by omega : t - p.boxes.length < len)]
    · rw [if_neg (by omega)]
      apply box_eq_spent_of_le
      simp [enroll]
      omega

theorem entriesOf_enroll (p : Pending) (id len b : Nat) :
    (p.enroll id len).entriesOf b = p.entriesOf b ++
      if b = id then (List.range len).map fun i => ((id, i), p.boxes.length + i) else [] := by
  simp only [entriesOf, enroll, List.filter_append]
  congr 1
  by_cases h : b = id
  · rw [if_pos h, List.filter_eq_self]
    simp [ofBatch, h]
  · rw [if_neg h, List.filter_eq_nil_iff]
    simp [ofBatch, Ne.symm h]

theorem outstanding_enroll (p : Pending) {id : Nat} (h : p.outstanding id = 0) (len b : Nat)
    (hp : p.WellFormed) :
    (p.enroll id len).outstanding b = if b = id then len else p.outstanding b := by
  have hnone : p.counts.lookup id = none := by
    rw [hp.lookup_counts, ← hp.counted, h, if_pos rfl]
  unfold outstanding
  by_cases hl : len = 0
  · by_cases hb : b = id <;> simp [enroll, hl, hb, hnone]
  · by_cases hb : b = id
    · simp [enroll, hl, hb, List.lookup_append, hnone]
    · simp [enroll, hl, hb, List.lookup_append]

theorem WellFormed.enroll {p : Pending} (h : p.WellFormed) {id : Nat} (h0 : p.outstanding id = 0)
    (len : Nat) : (p.enroll id len).WellFormed where
  keys := by
    simp only [Pending.enroll, List.map_append, List.map_map, Function.comp_def]
    refine List.nodup_append.mpr ⟨h.keys, ?_, ?_⟩
    · exact List.nodup_range.map fun i j hij => congrArg Prod.snd hij
    · intro k hk k' hk' hkk
      obtain ⟨e, he, rfl⟩ := List.mem_map.mp hk
      obtain ⟨i, -, rfl⟩ := List.mem_map.mp hk'
      exact h.outstanding_eq_zero_iff.mp h0 e he (congrArg Prod.fst hkk)
  tickets := by
    simp only [Pending.enroll, List.map_append, List.map_map, Function.comp_def]
    refine List.nodup_append.mpr ⟨h.tickets, ?_, ?_⟩
    · exact List.nodup_range.map fun i j hij => Nat.add_left_cancel hij
    · intro t ht t' ht' htt
      obtain ⟨e, he, rfl⟩ := List.mem_map.mp ht
      obtain ⟨i, -, rfl⟩ := List.mem_map.mp ht'
      exact Nat.not_le_of_lt (h.issued e he) (htt ▸ Nat.le_add_right _ i)
  issued := by
    intro e he
    simp only [Pending.enroll, List.mem_append, List.length_append, List.length_replicate] at he ⊢
    rcases he with he | he
    · exact Nat.lt_add_right len (h.issued e he)
    · obtain ⟨i, hi, rfl⟩ := List.mem_map.mp he
      simpa using hi
  unanswered := by
    intro e he
    rw [box_enroll]
    simp only [Pending.enroll, List.mem_append] at he
    rcases he with he | he
    · rw [if_neg (fun hh => Nat.not_le_of_lt (h.issued e he) hh.1)]
      exact h.unanswered e he
    · obtain ⟨i, hi, rfl⟩ := List.mem_map.mp he
      rw [if_pos ⟨Nat.le_add_right _ _, Nat.add_lt_add_left (List.mem_range.mp hi) _⟩]
      exact .inl rfl
  ids := by
    have hnone : p.counts.lookup id = none := by
      rw [h.lookup_counts, ← h.counted, h0, if_pos rfl]
    by_cases hl : len = 0
    · simpa [Pending.enroll, hl] using h.ids
    · simp only [Pending.enroll, hl, ↓reduceIte, List.map_append]
      refine List.nodup_append.mpr ⟨h.ids, by simp, ?_⟩
      intro b hb b' hb' hbb
      obtain ⟨c, hc, rfl⟩ := List.mem_map.mp hb
      have := List.lookup_eq_none_iff.mp hnone c hc
      simp_all
  positive := by
    by_cases hl : len = 0
    · simpa [Pending.enroll, hl] using h.positive
    · intro c hc
      simp only [Pending.enroll, hl, ↓reduceIte, List.mem_append, List.mem_singleton] at hc
      rcases hc with hc | rfl
      · exact h.positive c hc
      · exact Nat.pos_of_ne_zero hl
  counted := by
    intro b
    rw [p.outstanding_enroll h0 len b h, entriesOf_enroll, List.length_append, ← h.counted]
    by_cases hb : b = id <;> simp [hb, h0]

/-! ## Resolving -/

private theorem settle_ids_sublist (counts : List (Nat × Nat)) (id : Nat) :
    ((settle counts id).map (·.1)).Sublist (counts.map (·.1)) := by
  fun_induction settle counts id with
  | case1 => exact .slnil
  | case2 n rest hle => exact List.sublist_cons_self _ _
  | case3 n rest hlt => exact List.Sublist.refl _
  | case4 i n rest hne ih => exact ih.cons_cons _

private theorem settle_positive {counts : List (Nat × Nat)} (h : ∀ c ∈ counts, 0 < c.2) (id : Nat) :
    ∀ c ∈ settle counts id, 0 < c.2 := by
  fun_induction settle counts id with
  | case1 => simp
  | case2 n rest hle => exact fun c hc => h c (List.mem_cons_of_mem _ hc)
  | case3 n rest hlt =>
    intro c hc
    rcases List.mem_cons.mp hc with rfl | hc
    · change 0 < n - 1
      omega
    · exact h c (List.mem_cons_of_mem _ hc)
  | case4 i n rest hne ih =>
    intro c hc
    rcases List.mem_cons.mp hc with rfl | hc
    · exact h _ List.mem_cons_self
    · exact ih (fun c hc => h c (List.mem_cons_of_mem _ hc)) c hc

/-- One test less for the batch itself, and no change for the others. -/
theorem lookup_settle {counts : List (Nat × Nat)} (hn : (counts.map (·.1)).Nodup) (id b : Nat) :
    ((settle counts id).lookup b).getD 0 =
      if b = id then (counts.lookup id).getD 0 - 1 else (counts.lookup b).getD 0 := by
  fun_induction settle counts id with
  | case1 => simp
  | case2 n rest hle =>
    rw [List.map_cons, List.nodup_cons] at hn
    by_cases hb : b = id
    · have hnone : rest.lookup id = none := by
        refine List.lookup_eq_none_iff.mpr fun e he => ?_
        have hne : id ≠ e.1 := by
          rintro rfl
          exact hn.1 (List.mem_map_of_mem (f := (·.1)) he)
        simpa using hne
      simp only [hb, hnone, ↓reduceIte, List.lookup_cons_self, Option.getD_some, Option.getD_none]
      omega
    · simp [hb, lookup_cons_ite]
  | case3 n rest hlt =>
    by_cases hb : b = id <;> simp [hb, lookup_cons_ite]
  | case4 i n rest hne ih =>
    rw [List.map_cons, List.nodup_cons] at hn
    rw [lookup_cons_ite, lookup_cons_ite, lookup_cons_ite, if_neg (Ne.symm hne)]
    by_cases hbi : b = i
    · simp [hbi, hne]
    · simp [hbi, ih hn.2]

/-- The table after a result for a test that waits, apart from the mailbox. -/
def forget (p : Pending) (k : Key) : Pending :=
  { p with entries := p.entries.filter (·.1 ≠ k), counts := settle p.counts k.1 }

/-- Exactly the entry with the key is gone. -/
theorem WellFormed.entries_forget {p : Pending} (h : p.WellFormed) {k : Key} {t : Ticket}
    (hk : (k, t) ∈ p.entries) :
    ∃ l₁ l₂, p.entries = l₁ ++ (k, t) :: l₂ ∧ (p.forget k).entries = l₁ ++ l₂ := by
  obtain ⟨l₁, l₂, he⟩ := List.append_of_mem hk
  refine ⟨l₁, l₂, he, ?_⟩
  have hne := ne_of_nodup_map (he ▸ h.keys)
  have hkeep : (l₁ ++ l₂).filter (fun e => decide (e.1 ≠ k)) = l₁ ++ l₂ :=
    List.filter_eq_self.mpr fun e hm => decide_eq_true (hne e hm)
  rw [← hkeep]
  simp [forget, he]

theorem mem_entries_forget {p : Pending} {k : Key} {e : Key × Ticket} :
    e ∈ (p.forget k).entries ↔ e ∈ p.entries ∧ e.1 ≠ k := by
  simp [forget]

theorem WellFormed.outstanding_forget {p : Pending} (h : p.WellFormed) (k : Key) (b : Nat) :
    (p.forget k).outstanding b =
      if b = k.1 then p.outstanding b - 1 else p.outstanding b := by
  by_cases hb : b = k.1 <;> simp [outstanding, forget, lookup_settle h.ids, hb]

theorem WellFormed.forget {p : Pending} (h : p.WellFormed) {k : Key} {t : Ticket}
    (hk : (k, t) ∈ p.entries) : (p.forget k).WellFormed where
  keys := h.keys.sublist (List.filter_sublist.map _)
  tickets := h.tickets.sublist (List.filter_sublist.map _)
  issued e he := h.issued e (mem_entries_forget.mp he).1
  unanswered e he := h.unanswered e (mem_entries_forget.mp he).1
  ids := h.ids.sublist (settle_ids_sublist _ _)
  positive := settle_positive h.positive _
  counted b := by
    rw [h.outstanding_forget, h.counted]
    obtain ⟨l₁, l₂, he, hf⟩ := h.entries_forget hk
    simp only [entriesOf, he, hf, List.filter_append, List.filter_cons, List.length_append]
    by_cases hb : b = k.1
    · subst hb
      simp [ofBatch]
    · simp [ofBatch, hb, Ne.symm hb]

/-- A result goes only where nobody has answered yet, so entries stay without a result. -/
theorem WellFormed.setBox {p : Pending} (h : p.WellFormed) {t : Ticket} {b : Mailbox}
    (ht : ∀ e ∈ p.entries, e.2 = t → b = .deserted) : (p.setBox t b).WellFormed where
  keys := h.keys
  tickets := h.tickets
  issued e he := by simpa using h.issued e he
  unanswered e he := by
    rw [box_setBox]
    by_cases hc : t = e.2 ∧ t < p.boxes.length
    · rw [if_pos hc]
      exact .inr (ht e he hc.1.symm)
    · rw [if_neg hc]
      exact h.unanswered e he
  ids := h.ids
  positive := h.positive
  counted := h.counted

private theorem WellFormed.ticket_ne_of_forget {p : Pending} (h : p.WellFormed) {k : Key}
    {t : Ticket} (hk : (k, t) ∈ p.entries) : ∀ e ∈ (p.forget k).entries, e.2 ≠ t := by
  obtain ⟨l₁, l₂, he, hf⟩ := h.entries_forget hk
  rw [hf]
  exact ne_of_nodup_map (he ▸ h.tickets)

/-- A result finds nobody, somebody who reads it, or somebody who is gone. -/
theorem WellFormed.resolve_cases {p : Pending} (h : p.WellFormed) (r : Response) :
    ((∀ t, ((r.id, r.index), t) ∉ p.entries) ∧ p.resolve r = (p, .unknown)) ∨
      ∃ t, ((r.id, r.index), t) ∈ p.entries ∧
        (p.box t = .waiting ∧
            p.resolve r = ((p.forget (r.id, r.index)).setBox t (.holding r.verdict), .delivered) ∨
          p.box t = .deserted ∧ p.resolve r = (p.forget (r.id, r.index), .unknown)) := by
  cases ht : p.ticket? (r.id, r.index) with
  | none =>
    refine .inl ⟨fun t hm => ?_, by simp [Pending.resolve, ht]⟩
    rw [h.ticket?_eq_some_iff.mpr hm] at ht
    cases ht
  | some t =>
    have hm := h.ticket?_eq_some_iff.mp ht
    refine .inr ⟨t, hm, ?_⟩
    rcases h.unanswered _ hm with hb | hb
    · exact .inl ⟨hb, by simp only [Pending.resolve, ht, hb, Pending.forget]⟩
    · exact .inr ⟨hb, by simp only [Pending.resolve, ht, hb, Pending.forget]⟩

theorem WellFormed.resolve {p : Pending} (h : p.WellFormed) (r : Response) :
    (p.resolve r).1.WellFormed := by
  obtain ⟨-, hr⟩ | ⟨t, hm, ⟨-, hr⟩ | ⟨-, hr⟩⟩ := h.resolve_cases r <;> rw [hr]
  · exact h
  · exact (h.forget hm).setBox fun e he het => absurd het (h.ticket_ne_of_forget hm e he)
  · exact h.forget hm

/-! ## Giving up, dropping and taking -/

@[simp] theorem entries_abandon (p : Pending) (id : Nat) :
    (p.abandon id).1.entries = p.entries.filter fun e => !ofBatch id e := by
  simp [abandon]

@[simp] theorem counts_abandon (p : Pending) (id : Nat) :
    (p.abandon id).1.counts = p.counts.filter (·.1 ≠ id) := by
  simp [abandon]

@[simp] theorem boxes_length_abandon (p : Pending) (id : Nat) :
    (p.abandon id).1.boxes.length = p.boxes.length := by
  simp [abandon]

theorem box_abandon (p : Pending) (id : Nat) (t : Ticket) :
    (p.abandon id).1.box t =
      if t ∈ (p.entriesOf id).map (·.2) then Mailbox.release (p.box t) else p.box t := by
  simp only [abandon, box_releaseAll]
  rfl

theorem outstanding_abandon (p : Pending) (id b : Nat) :
    (p.abandon id).1.outstanding b = if b = id then 0 else p.outstanding b := by
  unfold outstanding
  rw [counts_abandon]
  induction p.counts with
  | nil => simp
  | cons c counts ih =>
    obtain ⟨i, n⟩ := c
    by_cases hi : i = id
    · subst hi
      rw [lookup_cons_ite]
      by_cases hb : b = i <;> simp_all
    · simp only [List.filter_cons, hi, ne_eq, not_false_eq_true, decide_true, ↓reduceIte,
        lookup_cons_ite]
      by_cases hbi : b = i
      · simp [hbi, hi]
      · simpa [hbi] using ih

theorem entriesOf_abandon (p : Pending) (id b : Nat) :
    (p.abandon id).1.entriesOf b = if b = id then [] else p.entriesOf b := by
  rw [entriesOf, entries_abandon, List.filter_filter]
  by_cases hb : b = id
  · rw [if_pos hb, List.filter_eq_nil_iff]
    simp [hb]
  · rw [if_neg hb, entriesOf]
    apply List.filter_congr
    intro e _
    by_cases he : e.1.1 = b <;> simp [ofBatch, he, hb]

theorem WellFormed.abandon {p : Pending} (h : p.WellFormed) (id : Nat) :
    (p.abandon id).1.WellFormed where
  keys := by
    rw [entries_abandon]
    exact h.keys.sublist (List.filter_sublist.map _)
  tickets := by
    rw [entries_abandon]
    exact h.tickets.sublist (List.filter_sublist.map _)
  issued e he := by
    rw [entries_abandon] at he
    simpa using h.issued e (List.mem_filter.mp he).1
  unanswered e he := by
    rw [entries_abandon] at he
    obtain ⟨hm, hid⟩ := List.mem_filter.mp he
    rw [box_abandon, if_neg]
    · exact h.unanswered e hm
    · -- Tickets are distinct, so the ticket of another batch is not among those given up.
      intro ht
      obtain ⟨e', he', heq⟩ := List.mem_map.mp ht
      obtain ⟨hm', hid'⟩ := List.mem_filter.mp he'
      obtain rfl := List.inj_on_of_nodup_map h.tickets hm' hm heq
      simp [hid'] at hid
  ids := by
    rw [counts_abandon]
    exact h.ids.sublist (List.filter_sublist.map _)
  positive c hc := by
    rw [counts_abandon] at hc
    exact h.positive c (List.mem_filter.mp hc).1
  counted b := by
    rw [outstanding_abandon, entriesOf_abandon, h.counted]
    by_cases hb : b = id <;> simp [hb]

theorem WellFormed.desert {p : Pending} (h : p.WellFormed) (t : Ticket) : (p.desert t).WellFormed :=
  h.setBox fun _ _ _ => rfl

theorem mem_waitingIndices {p : Pending} {id i : Nat} :
    i ∈ p.waitingIndices id ↔ ∃ t, ((id, i), t) ∈ p.entries := by
  simp only [waitingIndices, List.mem_mergeSort, List.mem_map, List.mem_filter, ofBatch]
  constructor
  · intro hcase
    obtain ⟨⟨⟨b, j⟩, t⟩, ⟨hm, hb⟩, rfl⟩ := hcase
    obtain rfl : b = id := by simpa using hb
    exact ⟨t, hm⟩
  · intro hcase
    obtain ⟨t, hm⟩ := hcase
    exact ⟨((id, i), t), ⟨hm, by simp⟩, rfl⟩

theorem WellFormed.waitingIndices_sorted {p : Pending} (h : p.WellFormed) (id : Nat) :
    (p.waitingIndices id).Pairwise (· < ·) := by
  have hnodup : (p.waitingIndices id).Nodup := by
    refine (List.mergeSort_perm _ _).nodup_iff.mpr ?_
    refine List.Nodup.map_on ?_ ((List.Nodup.of_map _ h.keys).filter _)
    intro e he e' he' hi
    obtain ⟨hm, hb⟩ := List.mem_filter.mp he
    obtain ⟨hm', hb'⟩ := List.mem_filter.mp he'
    have hkey : e.1 = e'.1 := Prod.ext (by simp_all [ofBatch]) hi
    exact List.inj_on_of_nodup_map h.keys hm hm' hkey
  have hle : (p.waitingIndices id).Pairwise (· ≤ ·) := by
    have hsorted : (p.waitingIndices id).Pairwise fun a b => decide (a ≤ b) = true :=
      List.pairwise_mergeSort (by simpa using fun a b c => Nat.le_trans)
        (by simpa using Nat.le_total) _
    simpa using hsorted
  exact hle.imp₂ (fun a b hab hne => Nat.lt_of_le_of_ne hab hne) hnodup

end Pending

end SuiteRunner.Dispatch
