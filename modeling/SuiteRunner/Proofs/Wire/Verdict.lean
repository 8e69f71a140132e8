import SuiteRunner.Proofs.Json.Reordering
import SuiteRunner.Wire.Response

/-! # What a verdict is read from

The status of a verdict decides which of its other members count. They may stand before it, so all
of them are taken in first. -/
namespace SuiteRunner.Wire

open Json (DistinctNames Node Reorders memberNodes node nodes)

/-- The word for a status. -/
def Status.word : Status → String
  | .ok => "OK"
  | .failed => "failed"

/-- A value that stands for a message or for none. -/
def IsMessage : Json → Option String → Prop
  | .null, m => m = none
  | .string s, m => m = some s
  | _, _ => False

/-- What the value of `result` tells. Members other than `status` and `errorMessage` do not count,
nor does the message of a test that passed. -/
inductive Tells : Json → Verdict → Prop where
  | ok {ms : List (String × Json)} (h : ("status", .string "OK") ∈ ms) : Tells (.object ms) .ok
  | failed {ms : List (String × Json)} (h : ("status", .string "failed") ∈ ms)
      (hm : ∀ x, ("errorMessage", x) ∉ ms) : Tells (.object ms) (.failed none)
  | failedWith {ms : List (String × Json)} {x : Json} {m : Option String}
      (h : ("status", .string "failed") ∈ ms) (hx : ("errorMessage", x) ∈ ms)
      (hm : IsMessage x m) : Tells (.object ms) (.failed m)
  | okItem : Tells (.array [.string "OK"]) .ok
  | failedItem : Tells (.array [.string "failed"]) (.failed none)
  | failedItems {x : Json} {m : Option String} (hm : IsMessage x m) :
      Tells (.array [.string "failed", x]) (.failed m)

theorem messageOfJson_eq_ok_iff {x : Json} {m : Option String} :
    messageOfJson x = .ok m ↔ IsMessage x m := by
  cases x <;> simp [messageOfJson, IsMessage, eq_comm]

theorem status_ofNode_iff {x : Json} {s : Status} :
    Status.ofNode (node x) = .ok s ↔ x = .string s.word := by
  constructor
  · intro h
    obtain ⟨text, htext, h⟩ := bind_eq_ok_iff.mp h
    cases x with
    | string word =>
      obtain rfl := Except.ok.inj htext
      split at h <;> first | (cases h; rfl) | cases h
    | _ => cases htext
  · rintro rfl
    cases s <;> rfl

theorem filter_name_eq_nil {ms : List (String × Json)} {name : String}
    (h : ∀ x, (name, x) ∉ ms) : ms.filter (·.1 = name) = [] := by
  rw [List.filter_eq_nil_iff]
  rintro ⟨name', x⟩ hx
  rw [decide_eq_true_eq]
  rintro rfl
  exact h x hx

private theorem filter_name {ms : List (String × Json)} (hms : DistinctNames ms) {name : String}
    {x : Json} (hx : (name, x) ∈ ms) : ms.filter (·.1 = name) = [(name, x)] := by
  induction ms with
  | nil => simp at hx
  | cons m ms ih =>
    obtain ⟨name', y⟩ := m
    obtain ⟨hnew, hms⟩ := Json.distinctNames_cons.mp hms
    obtain hx | hx := List.mem_cons.mp hx
    · cases hx
      rw [List.filter_cons_of_pos (by simp), filter_name_eq_nil hnew]
    · have hne : name' ≠ name := by
        rintro rfl
        exact hnew x hx
      rw [List.filter_cons_of_neg (by simpa using hne), ih hms hx]

private theorem verdictMembers_status {x : Json} {ns : List (Option String × Node)}
    {result : Option Status × List (String × Json)} :
    verdictMembers none ((some "status", node x) :: ns) = .ok result ↔
      ∃ s : Status, x = .string s.word ∧ verdictMembers (some s) ns = .ok result := by
  simp only [← status_ofNode_iff, ← bind_eq_ok_iff]
  rfl

private theorem verdictMembers_other {name : String} {x : Json} (hname : name ≠ "status")
    (hx : (node x).value verdictDepth = .ok x) {status st : Option Status}
    {ns : List (Option String × Node)} {rest : List (String × Json)} :
    verdictMembers status ((some name, node x) :: ns) = .ok (st, rest) ↔
      ∃ rest', rest = (name, x) :: rest' ∧ verdictMembers status ns = .ok (st, rest') := by
  rw [verdictMembers]
  simp only [Json.wholeString, bind, Except.bind, if_neg hname, hx]
  cases verdictMembers status ns with
  | error e => simp
  | ok result =>
    obtain ⟨st', rest'⟩ := result
    simp only [Except.ok.injEq, Prod.mk.injEq]
    constructor
    · rintro ⟨rfl, rfl⟩
      exact ⟨rest', rfl, rfl, rfl⟩
    · rintro ⟨_, rfl, rfl, rfl⟩
      exact ⟨rfl, rfl⟩

/-- The members of a verdict are taken in as they are, apart from the status. -/
theorem verdictMembers_eq_ok_iff {ms : List (String × Json)} (hms : DistinctNames ms)
    (hvalue : ∀ m ∈ ms, (node m.2).value verdictDepth = .ok m.2) {status st : Option Status}
    (hstatus : status = none ∨ ∀ x, ("status", x) ∉ ms) {rest : List (String × Json)} :
    verdictMembers status (memberNodes ms) = .ok (st, rest) ↔
      rest = ms.filter (·.1 ≠ "status") ∧
        ((∃ s : Status, ("status", .string s.word) ∈ ms ∧ st = some s) ∨
          (∀ x, ("status", x) ∉ ms) ∧ st = status) := by
  induction ms generalizing status rest with
  | nil => simp [memberNodes, verdictMembers, eq_comm, and_comm]
  | cons m ms ih =>
    obtain ⟨name, x⟩ := m
    obtain ⟨hnew, hms'⟩ := Json.distinctNames_cons.mp hms
    have hvalue' := fun m hm => hvalue m (List.mem_cons_of_mem _ hm)
    rw [memberNodes]
    by_cases hname : name = "status"
    · subst hname
      obtain rfl : status = none := hstatus.resolve_right fun h => h x (List.mem_cons_self ..)
      rw [verdictMembers_status, List.filter_cons_of_neg (by simp)]
      constructor
      · rintro ⟨s, rfl, h⟩
        obtain ⟨hrest, ⟨s', hs', -⟩ | ⟨-, rfl⟩⟩ := (ih hms' hvalue' (.inr hnew)).mp h
        · exact absurd hs' (hnew _)
        · exact ⟨hrest, .inl ⟨s, List.mem_cons_self .., rfl⟩⟩
      · rintro ⟨hrest, ⟨s, hs, rfl⟩ | ⟨hnone, -⟩⟩
        · obtain hs | hs := List.mem_cons.mp hs
          · refine ⟨s, (Prod.mk.inj hs).2.symm, ?_⟩
            exact (ih hms' hvalue' (.inr hnew)).mpr ⟨hrest, .inr ⟨hnew, rfl⟩⟩
          · exact absurd hs (hnew _)
        · exact absurd (List.mem_cons_self ..) (hnone x)
    · have hskip : ∀ y, ("status", y) ∈ (name, x) :: ms ↔ ("status", y) ∈ ms := by
        intro y
        simp [Ne.symm hname]
      simp only [hskip] at hstatus ⊢
      rw [verdictMembers_other hname (hvalue _ (List.mem_cons_self ..)),
        List.filter_cons_of_pos (by simpa using hname)]
      simp only [ih hms' hvalue' hstatus]
      constructor
      · rintro ⟨rest', rfl, rfl, h⟩
        exact ⟨rfl, h⟩
      · rintro ⟨rfl, h⟩
        exact ⟨_, rfl, rfl, h⟩

private theorem messageOfMembers_eq_ok_iff {ms : List (String × Json)} (hms : DistinctNames ms)
    {m : Option String} : messageOfMembers (ms.filter (·.1 ≠ "status")) = .ok m ↔
      (∃ x, ("errorMessage", x) ∈ ms ∧ IsMessage x m) ∨
        (∀ x, ("errorMessage", x) ∉ ms) ∧ m = none := by
  have hfilter : (ms.filter (·.1 ≠ "status")).filter (·.1 = "errorMessage") =
      ms.filter (·.1 = "errorMessage") := by
    rw [List.filter_filter]
    refine List.filter_congr fun m _ => ?_
    by_cases hm : m.1 = "errorMessage" <;> simp [hm]
  rw [messageOfMembers, hfilter]
  by_cases hx : ∃ x, ("errorMessage", x) ∈ ms
  · obtain ⟨x, hx⟩ := hx
    simp only [filter_name hms hx, messageOfJson_eq_ok_iff]
    constructor
    · exact fun hm => .inl ⟨x, hx, hm⟩
    · rintro (⟨y, hy, hm⟩ | ⟨hnone, -⟩)
      · exact hms.eq hx hy ▸ hm
      · exact absurd hx (hnone x)
  · have hnone := not_exists.mp hx
    rw [filter_name_eq_nil hnone]
    constructor
    · intro h
      exact .inr ⟨hnone, (Except.ok.inj h).symm⟩
    · rintro (⟨x, hm, -⟩ | ⟨-, rfl⟩)
      · exact absurd hm (hnone x)
      · rfl

private theorem verdict_ofNode_object_iff {ms : List (String × Json)} (hms : DistinctNames ms)
    (hvalue : ∀ m ∈ ms, (node m.2).value verdictDepth = .ok m.2) {v : Verdict} :
    Verdict.ofNode (node (.object ms)) = .ok v ↔ Tells (.object ms) v := by
  have hread : Verdict.ofNode (node (.object ms)) = .ok v ↔
      ∃ s : Status, ("status", .string s.word) ∈ ms ∧
        Verdict.ofMembers (ms.filter (·.1 ≠ "status")) s = .ok v := by
    constructor
    · intro h
      obtain ⟨⟨st, rest⟩, hmembers, h⟩ := bind_eq_ok_iff.mp h
      obtain ⟨-, -, h⟩ := bind_eq_ok_iff.mp h
      obtain ⟨s, hs, h⟩ := bind_eq_ok_iff.mp h
      obtain ⟨rfl, ⟨s', hs', rfl⟩ | ⟨-, rfl⟩⟩ :=
        (verdictMembers_eq_ok_iff hms hvalue (.inl rfl)).mp hmembers
      · obtain rfl := Except.ok.inj hs
        exact ⟨s', hs', h⟩
      · cases hs
    · rintro ⟨s, hs, h⟩
      have hmembers := (verdictMembers_eq_ok_iff hms hvalue (.inl rfl)).mpr
        ⟨rfl, .inl ⟨s, hs, rfl⟩⟩
      simp only [node, Verdict.ofNode, hmembers]
      exact h
  rw [hread]
  constructor
  · rintro ⟨s, hs, h⟩
    cases s with
    | ok =>
      obtain rfl := Except.ok.inj h
      exact .ok hs
    | failed =>
      obtain ⟨m, hm, h⟩ := bind_eq_ok_iff.mp h
      obtain rfl := Except.ok.inj h
      obtain ⟨x, hx, hm⟩ | ⟨hnone, rfl⟩ := (messageOfMembers_eq_ok_iff hms).mp hm
      · exact .failedWith hs hx hm
      · exact .failed hs hnone
  · have hfailed {m : Option String} (hm : (∃ x, ("errorMessage", x) ∈ ms ∧ IsMessage x m) ∨
        (∀ x, ("errorMessage", x) ∉ ms) ∧ m = none) :
        Verdict.ofMembers (ms.filter (·.1 ≠ "status")) .failed = .ok (.failed m) := by
      rw [Verdict.ofMembers, (messageOfMembers_eq_ok_iff hms).mpr hm]
      rfl
    intro h
    cases h with
    | ok hs => exact ⟨.ok, hs, rfl⟩
    | failed hs hnone => exact ⟨.failed, hs, hfailed (.inr ⟨hnone, rfl⟩)⟩
    | failedWith hs hx hm => exact ⟨.failed, hs, hfailed (.inl ⟨_, hx, hm⟩)⟩

private theorem verdict_ofItems_iff {s : Status} {xs : List Json} {v : Verdict} :
    Verdict.ofItems s xs = .ok v ↔ Tells (.array (.string s.word :: xs)) v := by
  constructor
  · intro h
    unfold Verdict.ofItems at h
    split at h
    · obtain rfl := Except.ok.inj h
      exact .okItem
    · obtain rfl := Except.ok.inj h
      exact .failedItem
    · obtain ⟨m, hm, h⟩ := bind_eq_ok_iff.mp h
      obtain rfl := Except.ok.inj h
      exact .failedItems (messageOfJson_eq_ok_iff.mp hm)
    · cases h
  · generalize hys : Json.string s.word :: xs = ys
    intro h
    cases h with
    | okItem =>
      cases s with
      | ok =>
        obtain rfl := (List.cons.inj hys).2
        rfl
      | failed => simp [Status.word] at hys
    | failedItem =>
      cases s with
      | ok => simp [Status.word] at hys
      | failed =>
        obtain rfl := (List.cons.inj hys).2
        rfl
    | failedItems hm =>
      cases s with
      | ok => simp [Status.word] at hys
      | failed =>
        obtain rfl := (List.cons.inj hys).2
        rw [Verdict.ofItems, messageOfJson_eq_ok_iff.mpr hm]
        rfl

private theorem exists_word_of_tells {xs : List Json} {v : Verdict} (h : Tells (.array xs) v) :
    ∃ (s : Status) (ys : List Json), xs = .string s.word :: ys := by
  cases h with
  | okItem => exact ⟨.ok, [], rfl⟩
  | failedItem => exact ⟨.failed, [], rfl⟩
  | failedItems hm => exact ⟨.failed, _, rfl⟩

private theorem verdict_ofNode_array_iff {xs : List Json}
    (hvalue : ∀ ys, (∃ y, xs = y :: ys) → Json.valueItems verdictDepth (nodes ys) = .ok ys)
    {v : Verdict} : Verdict.ofNode (node (.array xs)) = .ok v ↔ Tells (.array xs) v := by
  constructor
  · intro h
    cases xs with
    | nil =>
      obtain ⟨-, -, h⟩ := bind_eq_ok_iff.mp h
      cases h
    | cons x xs =>
      obtain ⟨s, hs, h⟩ := bind_eq_ok_iff.mp h
      obtain ⟨ys, hys, h⟩ := bind_eq_ok_iff.mp h
      obtain ⟨-, -, hitems⟩ := bind_eq_ok_iff.mp h
      rw [hvalue xs ⟨x, rfl⟩] at hys
      obtain rfl := Except.ok.inj hys
      obtain rfl := status_ofNode_iff.mp hs
      exact verdict_ofItems_iff.mp hitems
  · intro h
    obtain ⟨s, ys, rfl⟩ := exists_word_of_tells h
    have hitems := hvalue ys ⟨_, rfl⟩
    have hs := status_ofNode_iff.mpr (rfl : Json.string s.word = .string s.word)
    simp only [node, nodes, Verdict.ofNode, hitems] at hs ⊢
    rw [hs]
    exact verdict_ofItems_iff.mpr h

/-- A verdict is read exactly from the values that tell one. -/
theorem verdict_ofNode_iff {z : Json} (hdistinct : z.names.Nodup)
    (hfits : ∀ x ∈ z.parts, x.fitsDouble = true) (hdepth : z.depth ≤ verdictDepth) {v : Verdict} :
    Verdict.ofNode (node z) = .ok v ↔ Tells z v := by
  cases z with
  | object ms =>
    refine verdict_ofNode_object_iff hdistinct fun m hm => ?_
    rw [Json.depth] at hdepth
    refine Json.value_node m.2 (fun x hx => hfits x ?_) ?_
    · exact List.mem_cons_of_mem _ (Json.mem_partsMembers.mpr ⟨m, hm, hx⟩)
    · exact Nat.lt_of_le_of_lt (Json.depthMembers_le_iff.mp (Nat.le_refl _) m hm) hdepth
  | array xs =>
    refine verdict_ofNode_array_iff ?_
    rintro ys ⟨y, rfl⟩
    rw [Json.depth, Json.depthItems] at hdepth
    refine Json.valueItems_nodes ys (fun x hx => hfits x ?_) (by omega)
    exact List.mem_cons_of_mem _ (List.mem_append_right _ hx)
  | _ =>
    refine ⟨fun h => ?_, fun h => ?_⟩
    · cases h
    · cases h

theorem IsMessage.depth {x : Json} {m : Option String} (h : IsMessage x m) : x.depth = 0 := by
  cases x <;> first | rfl | exact absurd h id

theorem Tells.reorders {x y : Json} {v : Verdict} (hx : Tells x v) (h : Reorders x y) :
    Tells y v := by
  have hobject {ms : List (String × Json)} (h : Reorders (.object ms) y) :
      ∃ ns, y = .object ns := by
    obtain ⟨_, ns, rfl, -⟩ := h
    exact ⟨ns, rfl⟩
  cases hx with
  | ok hs =>
    obtain ⟨ns, rfl⟩ := hobject h
    exact .ok (h.scalar_member hs rfl)
  | failed hs hnone =>
    obtain ⟨ns, rfl⟩ := hobject h
    refine .failed (h.scalar_member hs rfl) fun x hx => ?_
    obtain ⟨z, hz, -⟩ := h.symm.member hx
    exact hnone z hz
  | failedWith hs hx hm =>
    obtain ⟨ns, rfl⟩ := hobject h
    exact .failedWith (h.scalar_member hs rfl) (h.scalar_member hx hm.depth) hm
  | okItem =>
    obtain ⟨ys, rfl, hys⟩ := h
    obtain rfl := hys.eq_of_depth (by simp [Json.depth])
    exact .okItem
  | failedItem =>
    obtain ⟨ys, rfl, hys⟩ := h
    obtain rfl := hys.eq_of_depth (by simp [Json.depth])
    exact .failedItem
  | failedItems hm =>
    obtain ⟨ys, rfl, hys⟩ := h
    obtain rfl := hys.eq_of_depth (by simp [Json.depth, hm.depth])
    exact .failedItems hm

end SuiteRunner.Wire
