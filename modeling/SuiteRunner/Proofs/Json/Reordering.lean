import SuiteRunner.Proofs.Json.Records

/-! # Values up to the order of members

A value with its members in another order, at any level, is the same value to a reader that asks
for members by name. -/
namespace SuiteRunner.Json

/-! ## Parts of a value -/

mutual
/-- A value and everything inside it. -/
def parts : Json → List Json
  | .array xs => .array xs :: partsItems xs
  | .object ms => .object ms :: partsMembers ms
  | j => [j]

def partsItems : List Json → List Json
  | [] => []
  | x :: xs => parts x ++ partsItems xs

def partsMembers : List (String × Json) → List Json
  | [] => []
  | (_, x) :: ms => parts x ++ partsMembers ms
end

mutual
/-- How many containers are nested in each other. -/
def depth : Json → Nat
  | .array xs => depthItems xs + 1
  | .object ms => depthMembers ms + 1
  | _ => 0

def depthItems : List Json → Nat
  | [] => 0
  | x :: xs => max (depth x) (depthItems xs)

def depthMembers : List (String × Json) → Nat
  | [] => 0
  | (_, x) :: ms => max (depth x) (depthMembers ms)
end

def names : Json → List String
  | .object ms => ms.map Prod.fst
  | _ => []

/-- Whether a value is no number whose conversion to a double overflows. The digits and their
scaling are rounded one after the other. -/
def fitsDouble : Json → Bool
  | .number l => (Numeric.ofChars? l.toList).isSome
  | _ => true

theorem mem_parts_self (j : Json) : j ∈ j.parts := by
  cases j <;> simp [parts]

theorem mem_partsMembers {x : Json} {ms : List (String × Json)} :
    x ∈ partsMembers ms ↔ ∃ m ∈ ms, x ∈ m.2.parts := by
  induction ms with
  | nil => simp [partsMembers]
  | cons m ms ih => simp [partsMembers, ih]

private theorem mem_partsItems {x : Json} {xs : List Json} :
    x ∈ partsItems xs ↔ ∃ y ∈ xs, x ∈ y.parts := by
  induction xs with
  | nil => simp [partsItems]
  | cons y ys ih => simp [partsItems, ih]

theorem depthMembers_le_iff {ms : List (String × Json)} {d : Nat} :
    depthMembers ms ≤ d ↔ ∀ m ∈ ms, m.2.depth ≤ d := by
  induction ms with
  | nil => simp [depthMembers]
  | cons m ms ih => rw [depthMembers, Nat.max_le, ih, List.forall_mem_cons]

private theorem depthItems_le_iff {xs : List Json} {d : Nat} :
    depthItems xs ≤ d ↔ ∀ x ∈ xs, x.depth ≤ d := by
  induction xs with
  | nil => simp [depthItems]
  | cons x xs ih => rw [depthItems, Nat.max_le, ih, List.forall_mem_cons]

/-! ## Taking in a whole value -/

mutual
/-- A value is taken in as it is, if its numbers can be held and the limit on its depth is kept. -/
theorem value_node : ∀ (j : Json) {limit : Nat}, (∀ x ∈ j.parts, x.fitsDouble = true) →
    j.depth < limit → (node j).value limit = .ok j
  | .null, _, _, _ | .bool _, _, _, _ | .string _, _, _, _ => rfl
  | .number l, _, hfits, _ => by
    have hnumber : (Numeric.ofChars? l.toList).isSome = true := hfits _ (mem_parts_self _)
    simp [node, Node.value, hnumber]
  | .array xs, limit, hfits, hdepth => by
    rw [depth] at hdepth
    have hxs := valueItems_nodes xs (fun x hx => hfits x (List.mem_cons_of_mem _ hx))
      (show depthItems xs < limit - 1 by omega)
    simp only [node, Node.value, if_neg (show ¬ limit ≤ 1 by omega), hxs]
    rfl
  | .object ms, limit, hfits, hdepth => by
    rw [depth] at hdepth
    have hms := valueMembers_memberNodes ms (fun x hx => hfits x (List.mem_cons_of_mem _ hx))
      (show depthMembers ms < limit - 1 by omega)
    simp only [node, Node.value, if_neg (show ¬ limit ≤ 1 by omega), hms]
    rfl

theorem valueItems_nodes : ∀ (xs : List Json) {limit : Nat},
    (∀ x ∈ partsItems xs, x.fitsDouble = true) → depthItems xs < limit →
    valueItems limit (nodes xs) = .ok xs
  | [], _, _, _ => rfl
  | x :: xs, limit, hfits, hdepth => by
    rw [depthItems] at hdepth
    have hx := value_node x (fun y hy => hfits y (List.mem_append_left _ hy))
      (show x.depth < limit by omega)
    have hxs := valueItems_nodes xs (fun y hy => hfits y (List.mem_append_right _ hy))
      (show depthItems xs < limit by omega)
    simp only [nodes, valueItems, hx, hxs]
    rfl

theorem valueMembers_memberNodes : ∀ (ms : List (String × Json)) {limit : Nat},
    (∀ x ∈ partsMembers ms, x.fitsDouble = true) → depthMembers ms < limit →
    valueMembers limit (memberNodes ms) = .ok ms
  | [], _, _, _ => rfl
  | (_, x) :: ms, limit, hfits, hdepth => by
    rw [depthMembers] at hdepth
    have hx := value_node x (fun y hy => hfits y (List.mem_append_left _ hy))
      (show x.depth < limit by omega)
    have hms := valueMembers_memberNodes ms (fun y hy => hfits y (List.mem_append_right _ hy))
      (show depthMembers ms < limit by omega)
    simp only [memberNodes, valueMembers, wholeString, hx, hms]
    rfl
end

/-! ## Other orders of members -/

mutual
/-- The same value with the members of its objects in any order. -/
def Reorders : Json → Json → Prop
  | .array xs => fun y => ∃ ys, y = .array ys ∧ ReordersItems xs ys
  | .object ms => fun y => ∃ ns ns', y = .object ns' ∧ ReordersMembers ms ns ∧ ns.Perm ns'
  | x => fun y => y = x

def ReordersItems : List Json → List Json → Prop
  | [] => fun ys => ys = []
  | x :: xs => fun ys => ∃ y ys', ys = y :: ys' ∧ Reorders x y ∧ ReordersItems xs ys'

def ReordersMembers : List (String × Json) → List (String × Json) → Prop
  | [] => fun ns => ns = []
  | (name, x) :: ms => fun ns =>
    ∃ y ns', ns = (name, y) :: ns' ∧ Reorders x y ∧ ReordersMembers ms ns'
end

private theorem names_of_reordersMembers {ms ns : List (String × Json)}
    (h : ReordersMembers ms ns) : ns.map Prod.fst = ms.map Prod.fst := by
  induction ms generalizing ns with
  | nil =>
    obtain rfl : ns = [] := h
    rfl
  | cons m ms ih =>
    obtain ⟨y, ns', rfl, -, hrest⟩ := h
    rw [List.map_cons, List.map_cons, ih hrest]

private theorem reordersMembers_perm {ms ms' ns : List (String × Json)} (hperm : ms.Perm ms')
    (h : ReordersMembers ms ns) : ∃ ns', ReordersMembers ms' ns' ∧ ns.Perm ns' := by
  induction hperm generalizing ns with
  | nil => exact ⟨ns, h, .rfl⟩
  | cons m _ ih =>
    obtain ⟨y, rest, rfl, hy, hrest⟩ := h
    obtain ⟨ns', hns', hperm⟩ := ih hrest
    exact ⟨(m.1, y) :: ns', ⟨y, ns', rfl, hy, hns'⟩, hperm.cons _⟩
  | swap m m' ms =>
    obtain ⟨y, _, rfl, hy, y', rest, rfl, hy', hrest⟩ := h
    exact ⟨_, ⟨y', _, rfl, hy', y, rest, rfl, hy, hrest⟩, .swap ..⟩
  | trans _ _ ih ih' =>
    obtain ⟨ns₁, h₁, hperm₁⟩ := ih h
    obtain ⟨ns₂, h₂, hperm₂⟩ := ih' h₁
    exact ⟨ns₂, h₂, hperm₁.trans hperm₂⟩

mutual
theorem Reorders.refl : ∀ x : Json, Reorders x x
  | .null | .bool _ | .number _ | .string _ => rfl
  | .array xs => ⟨xs, rfl, .refl xs⟩
  | .object ms => ⟨ms, ms, rfl, .refl ms, .refl ms⟩

theorem ReordersItems.refl : ∀ xs : List Json, ReordersItems xs xs
  | [] => rfl
  | x :: xs => ⟨x, xs, rfl, .refl x, .refl xs⟩

theorem ReordersMembers.refl : ∀ ms : List (String × Json), ReordersMembers ms ms
  | [] => rfl
  | (_, x) :: ms => ⟨x, ms, rfl, .refl x, .refl ms⟩
end

mutual
theorem Reorders.symm : ∀ {x y : Json}, Reorders x y → Reorders y x
  | .null, _, rfl | .bool _, _, rfl | .number _, _, rfl | .string _, _, rfl => rfl
  | .array xs, _, ⟨_, rfl, h⟩ => ⟨xs, rfl, h.symm⟩
  | .object ms, _, ⟨_, _, rfl, h, hperm⟩ => by
    obtain ⟨ms', hms', hperm'⟩ := reordersMembers_perm hperm h.symm
    exact ⟨ms', ms, rfl, hms', hperm'.symm⟩

theorem ReordersItems.symm : ∀ {xs ys : List Json}, ReordersItems xs ys → ReordersItems ys xs
  | [], _, rfl => rfl
  | x :: xs, _, ⟨_, _, rfl, hx, hxs⟩ => ⟨x, xs, rfl, hx.symm, hxs.symm⟩

theorem ReordersMembers.symm : ∀ {ms ns : List (String × Json)}, ReordersMembers ms ns →
    ReordersMembers ns ms
  | [], _, rfl => rfl
  | (_, x) :: ms, _, ⟨_, _, rfl, hx, hms⟩ => ⟨x, ms, rfl, hx.symm, hms.symm⟩
end

theorem ReordersMembers.member {ms ns : List (String × Json)} (h : ReordersMembers ms ns)
    {name : String} {x : Json} (hx : (name, x) ∈ ms) : ∃ y, (name, y) ∈ ns ∧ Reorders x y := by
  induction ms generalizing ns with
  | nil => simp at hx
  | cons m ms ih =>
    obtain ⟨y, ns', rfl, hy, hrest⟩ := h
    obtain rfl | hx := List.mem_cons.mp hx
    · exact ⟨y, List.mem_cons_self .., hy⟩
    · obtain ⟨z, hz, hxz⟩ := ih hrest hx
      exact ⟨z, List.mem_cons_of_mem _ hz, hxz⟩

theorem Reorders.member {ms ns : List (String × Json)} (h : Reorders (.object ms) (.object ns))
    {name : String} {x : Json} (hx : (name, x) ∈ ms) : ∃ y, (name, y) ∈ ns ∧ Reorders x y := by
  obtain ⟨_, _, hns, h, hperm⟩ := h
  obtain rfl := Json.object.inj hns
  obtain ⟨y, hy, hxy⟩ := h.member hx
  exact ⟨y, hperm.mem_iff.mp hy, hxy⟩

mutual
/-- Every part of a reordered value is a reordered part. -/
theorem exists_part : ∀ (x : Json) {y z : Json}, Reorders x y → z ∈ y.parts →
    ∃ w ∈ x.parts, Reorders w z
  | .null, _, _, rfl, hz | .bool _, _, _, rfl, hz | .number _, _, _, rfl, hz
  | .string _, _, _, rfl, hz => ⟨_, hz, by
    obtain rfl := List.mem_singleton.mp hz
    rfl⟩
  | .array xs, _, z, ⟨ys, rfl, hys⟩, hz => by
    obtain rfl | hz := List.mem_cons.mp hz
    · exact ⟨.array xs, mem_parts_self _, ys, rfl, hys⟩
    · obtain ⟨y, hy, hz⟩ := mem_partsItems.mp hz
      obtain ⟨w, hw, hwz⟩ := exists_part_items xs hys hy hz
      exact ⟨w, List.mem_cons_of_mem _ hw, hwz⟩
  | .object ms, _, z, ⟨ns, ns', rfl, hns, hperm⟩, hz => by
    obtain rfl | hz := List.mem_cons.mp hz
    · exact ⟨.object ms, mem_parts_self _, ns, ns', rfl, hns, hperm⟩
    · obtain ⟨m, hm, hz⟩ := mem_partsMembers.mp hz
      obtain ⟨w, hw, hwz⟩ := exists_part_members ms hns (hperm.mem_iff.mpr hm) hz
      exact ⟨w, List.mem_cons_of_mem _ hw, hwz⟩

theorem exists_part_items : ∀ (xs : List Json) {ys : List Json} {y z : Json},
    ReordersItems xs ys → y ∈ ys → z ∈ y.parts → ∃ w ∈ partsItems xs, Reorders w z
  | [], _, _, _, rfl, hy, _ => by simp at hy
  | x :: xs, _, y, z, ⟨y', ys', rfl, hx, hxs⟩, hy, hz => by
    obtain rfl | hy := List.mem_cons.mp hy
    · obtain ⟨w, hw, hwz⟩ := exists_part x hx hz
      exact ⟨w, List.mem_append_left _ hw, hwz⟩
    · obtain ⟨w, hw, hwz⟩ := exists_part_items xs hxs hy hz
      exact ⟨w, List.mem_append_right _ hw, hwz⟩

theorem exists_part_members : ∀ (ms : List (String × Json)) {ns : List (String × Json)}
    {n : String × Json} {z : Json}, ReordersMembers ms ns → n ∈ ns → z ∈ n.2.parts →
    ∃ w ∈ partsMembers ms, Reorders w z
  | [], _, _, _, rfl, hn, _ => by simp at hn
  | (_, x) :: ms, _, n, z, ⟨y, ns', rfl, hx, hms⟩, hn, hz => by
    obtain rfl | hn := List.mem_cons.mp hn
    · obtain ⟨w, hw, hwz⟩ := exists_part x hx hz
      exact ⟨w, List.mem_append_left _ hw, hwz⟩
    · obtain ⟨w, hw, hwz⟩ := exists_part_members ms hms hn hz
      exact ⟨w, List.mem_append_right _ hw, hwz⟩
end

mutual
theorem depth_le_of_reorders : ∀ (x : Json) {y : Json} {d : Nat}, Reorders x y → x.depth ≤ d →
    y.depth ≤ d
  | .null, _, _, rfl, h | .bool _, _, _, rfl, h | .number _, _, _, rfl, h
  | .string _, _, _, rfl, h => h
  | .array xs, _, 0, ⟨ys, rfl, hys⟩, h => by simp [depth] at h
  | .array xs, _, d + 1, ⟨ys, rfl, hys⟩, h => by
    rw [depth] at h ⊢
    refine Nat.succ_le_succ (depthItems_le_iff.mpr fun y hy => ?_)
    exact depth_le_of_reordersItems xs hys (Nat.le_of_succ_le_succ h) y hy
  | .object ms, _, 0, ⟨ns, ns', rfl, hns, hperm⟩, h => by simp [depth] at h
  | .object ms, _, d + 1, ⟨ns, ns', rfl, hns, hperm⟩, h => by
    rw [depth] at h ⊢
    refine Nat.succ_le_succ (depthMembers_le_iff.mpr fun n hn => ?_)
    exact depth_le_of_reordersMembers ms hns (Nat.le_of_succ_le_succ h) n (hperm.mem_iff.mpr hn)

theorem depth_le_of_reordersItems : ∀ (xs : List Json) {ys : List Json} {d : Nat},
    ReordersItems xs ys → depthItems xs ≤ d → ∀ y ∈ ys, y.depth ≤ d
  | [], _, _, rfl, _ => by simp
  | x :: xs, _, _, ⟨y, ys', rfl, hx, hxs⟩, h => by
    rw [depthItems, Nat.max_le] at h
    exact List.forall_mem_cons.mpr
      ⟨depth_le_of_reorders x hx h.1, depth_le_of_reordersItems xs hxs h.2⟩

theorem depth_le_of_reordersMembers : ∀ (ms : List (String × Json)) {ns : List (String × Json)}
    {d : Nat}, ReordersMembers ms ns → depthMembers ms ≤ d → ∀ n ∈ ns, n.2.depth ≤ d
  | [], _, _, rfl, _ => by simp
  | (_, x) :: ms, _, _, ⟨y, ns', rfl, hx, hms⟩, h => by
    rw [depthMembers, Nat.max_le] at h
    exact List.forall_mem_cons.mpr
      ⟨depth_le_of_reorders x hx h.1, depth_le_of_reordersMembers ms hms h.2⟩
end

private theorem Reorders.names_perm {x y : Json} (h : Reorders x y) : x.names.Perm y.names := by
  cases x with
  | object ms =>
    obtain ⟨ns, ns', rfl, hns, hperm⟩ := h
    rw [names, ← names_of_reordersMembers hns]
    exact hperm.map Prod.fst
  | array xs =>
    obtain ⟨ys, rfl, -⟩ := h
    exact .rfl
  | _ =>
    obtain rfl : y = _ := h
    exact .rfl

private theorem Reorders.fitsDouble_eq {x y : Json} (h : Reorders x y) :
    y.fitsDouble = x.fitsDouble := by
  cases x with
  | object ms =>
    obtain ⟨ns, ns', rfl, -, -⟩ := h
    rfl
  | array xs =>
    obtain ⟨ys, rfl, -⟩ := h
    rfl
  | _ =>
    obtain rfl : y = _ := h
    rfl

/-! A value that is no container has only one order. -/

theorem Reorders.eq_of_depth {x y : Json} (h : Reorders x y) (hx : x.depth = 0) : y = x := by
  cases x with
  | array xs => simp [depth] at hx
  | object ms => simp [depth] at hx
  | _ => exact h

theorem ReordersItems.eq_of_depth {xs ys : List Json} (h : ReordersItems xs ys)
    (hxs : ∀ x ∈ xs, x.depth = 0) : ys = xs := by
  induction xs generalizing ys with
  | nil => exact h
  | cons x xs ih =>
    obtain ⟨y, ys', rfl, hx, hrest⟩ := h
    rw [hx.eq_of_depth (hxs x (List.mem_cons_self ..)),
      ih hrest fun x' hx' => hxs x' (List.mem_cons_of_mem _ hx')]

theorem Reorders.scalar_member {ms ns : List (String × Json)}
    (h : Reorders (.object ms) (.object ns)) {name : String} {x : Json} (hx : (name, x) ∈ ms)
    (hdepth : x.depth = 0) : (name, x) ∈ ns := by
  obtain ⟨y, hy, hxy⟩ := h.member hx
  exact hxy.eq_of_depth hdepth ▸ hy

/-! ## Orderly values and all their texts -/

/-- A value that is read alike everywhere in a document: no object in it names a member twice, it is
not nested too deep, and no number in it is too large for a double. -/
structure Orderly (j : Json) : Prop where
  distinct : ∀ x ∈ j.parts, x.names.Nodup
  shallow : j.depth ≤ 100
  fits : ∀ x ∈ j.parts, x.fitsDouble = true

theorem Orderly.reorders {x y : Json} (h : x.Orderly) (hxy : Reorders x y) : y.Orderly := by
  refine ⟨fun z hz => ?_, depth_le_of_reorders x hxy h.shallow, fun z hz => ?_⟩
  · obtain ⟨w, hw, hwz⟩ := exists_part x hxy hz
    exact hwz.names_perm.nodup_iff.mp (h.distinct w hw)
  · obtain ⟨w, hw, hwz⟩ := exists_part x hxy hz
    rw [hwz.fitsDouble_eq]
    exact h.fits w hw

theorem Orderly.distinctNames {ms : List (String × Json)} (h : Orderly (.object ms)) :
    DistinctNames ms :=
  h.distinct _ (mem_parts_self _)

/-- A text of a value: members in any order, blanks between tokens, strings spelled in any way. -/
def Renders (j : Json) (t : String) : Prop := ∃ j', Reorders j j' ∧ Padded (Spells j') t.toList

/-- Whatever is read from a text is read from the value, with its members in some order. -/
theorem Renders.exists_decode {j : Json} {t : String} (h : Renders j t) :
    ∃ j', Reorders j j' ∧ j'.Writable ∧
      ∀ {α : Type} (read : Node → Except Fault α), decode read t = read (node j') := by
  obtain ⟨j', hj', ht⟩ := h
  refine ⟨j', hj', ?_, fun read => ?_⟩
  · obtain ⟨before, core, after, -, hcore, -, -⟩ := ht
    exact writable_of_spells j' hcore
  · have hread := decode_spells read ht
    rwa [String.ofList_toList] at hread

end SuiteRunner.Json
