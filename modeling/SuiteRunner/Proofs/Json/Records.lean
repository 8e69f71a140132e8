import Mathlib.Data.List.Nodup
import SuiteRunner.Proofs.Json.Reading

/-! # Records are read field by field

The members of a record may come in any order and unknown ones are passed over, so each field is
what the member of its name says. -/
namespace SuiteRunner.Json

/-! ## Members that nobody asked for -/

mutual
theorem skip_node : ∀ j : Json, (node j).skip = .ok ()
  | .null | .bool _ | .number _ | .string _ => rfl
  | .array xs => by
    simp only [node, Node.skip, skipItems_nodes xs]
    rfl
  | .object ms => by
    simp only [node, Node.skip, skipMembers_memberNodes ms]
    rfl

theorem skipItems_nodes : ∀ xs : List Json, skipItems (nodes xs) = .ok ()
  | [] => rfl
  | x :: xs => by
    simp only [nodes, skipItems, skip_node x, skipItems_nodes xs]
    rfl

theorem skipMembers_memberNodes : ∀ ms : List (String × Json), skipMembers (memberNodes ms) = .ok ()
  | [] => rfl
  | (_, x) :: ms => by
    simp only [memberNodes, skipMembers, skip_node x, skipMembers_memberNodes ms]
    rfl
end

/-! ## Lists -/

theorem toList_nodes {α : Type} {read : Node → Except Fault α} {js : List Json} {xs : List α}
    (h : List.Forall₂ (fun j x => read (node j) = .ok x) js xs) :
    (node (.array js)).toList read = .ok xs := by
  have hmap : (nodes js).mapM read = .ok xs := by
    rw [nodes_eq_map, mapM_eq_ok_iff, List.forall₂_map_left_iff]
    exact h
  simp only [node, Node.toList, hmap]
  rfl

/-! ## Single members -/

section

variable {σ : Type} {shape : Shape σ} {r r' : σ} {name : String} {n : Node}

private theorem Shape.member_of_store (hname : name ∈ shape.names) (hnew : shape.has r name = false)
    (hstore : shape.store r name n = .ok r') : shape.member r name n = .ok r' := by
  simp [Shape.member, hname, hnew, hstore]

private theorem Shape.member_unknown (hname : name ∉ shape.names) (hskip : n.skip = .ok ()) :
    shape.member r name n = .ok r := by
  simp [Shape.member, hname, hskip, bind, Except.bind]

theorem Shape.member_cases (h : shape.member r name n = .ok r') :
    (name ∈ shape.names ∧ shape.has r name = false ∧ shape.store r name n = .ok r') ∨
      (name ∉ shape.names ∧ r' = r) := by
  unfold Shape.member at h
  split at h
  · next hname =>
    split at h
    · cases h
    · next hnew => exact .inl ⟨hname, by simpa using hnew, h⟩
  · next hname =>
    obtain ⟨-, -, h⟩ := bind_eq_ok_iff.mp h
    exact .inr ⟨hname, (Except.ok.inj h).symm⟩

theorem Shape.members_some (ns : List (Option String × Node)) :
    shape.members r ((some name, n) :: ns) = shape.member r name n >>= (shape.members · ns) := rfl

theorem Shape.members_cons (hname : name ∈ shape.names) (hnew : shape.has r name = false)
    (hstore : shape.store r name n = .ok r') (ns : List (Option String × Node)) :
    shape.members r ((some name, n) :: ns) = shape.members r' ns := by
  rw [Shape.members_some, Shape.member_of_store hname hnew hstore]
  rfl

theorem Shape.read_object {members : List (Option String × Node)}
    (h : shape.members r members = .ok r') : shape.read r (.object members none) = .ok r' := by
  simp only [Shape.read, h, checkEnding, bind, Except.bind]

theorem Shape.read_object_iff {members : List (Option String × Node)} :
    shape.read r (.object members none) = .ok r' ↔ shape.members r members = .ok r' := by
  refine ⟨fun h => ?_, Shape.read_object⟩
  obtain ⟨r₁, hmembers, h⟩ := bind_eq_ok_iff.mp h
  exact Except.ok.inj h ▸ hmembers

end

theorem required_eq_ok_iff {α : Type} {x : Option α} {a : α} : required x = .ok a ↔ x = some a := by
  cases x <;> simp [required]

/-! ## What storing keeps -/

section

variable {σ : Type} {shape : Shape σ} {P : σ → Prop}
  (hstore : ∀ {r name n r'}, name ∈ shape.names → P r → shape.store r name n = .ok r' → P r')

include hstore

private theorem Shape.members_keeps {r r' : σ} {ns : List (Option String × Node)} (hr : P r)
    (h : shape.members r ns = .ok r') : P r' := by
  induction ns generalizing r with
  | nil => exact Except.ok.inj h ▸ hr
  | cons m ns ih =>
    obtain ⟨name, -, h⟩ := bind_eq_ok_iff.mp h
    obtain ⟨r₁, hmember, h⟩ := bind_eq_ok_iff.mp h
    refine ih ?_ h
    obtain ⟨hname, -, hr₁⟩ | ⟨-, rfl⟩ := Shape.member_cases hmember
    · exact hstore hname hr hr₁
    · exact hr

private theorem Shape.items_keeps {r r' : σ} {names : List String} {ns : List Node}
    {end_ : Option Cut} (hnames : ∀ name ∈ names, name ∈ shape.names) (hr : P r)
    (h : shape.items r names ns end_ = .ok r') : P r' := by
  induction names generalizing r ns with
  | nil =>
    cases ns with
    | nil =>
      obtain ⟨-, -, h⟩ := bind_eq_ok_iff.mp h
      exact Except.ok.inj h ▸ hr
    | cons n ns => cases h
  | cons name names ih =>
    cases ns with
    | nil =>
      obtain ⟨-, -, h⟩ := bind_eq_ok_iff.mp h
      cases h
    | cons n ns =>
      obtain ⟨r₁, hr₁, h⟩ := bind_eq_ok_iff.mp h
      obtain ⟨hname, hnames⟩ := List.forall_mem_cons.mp hnames
      exact ih hnames (hstore hname hr hr₁) h

/-- What every stored value keeps holds of a record that was read. -/
theorem Shape.read_keeps {r r' : σ} {n : Node} (hr : P r) (h : shape.read r n = .ok r') : P r' := by
  cases n with
  | object members end_ =>
    obtain ⟨r₁, hmembers, h⟩ := bind_eq_ok_iff.mp h
    obtain ⟨-, -, h⟩ := bind_eq_ok_iff.mp h
    exact Except.ok.inj h ▸ Shape.members_keeps hstore hr hmembers
  | array items end_ => exact Shape.items_keeps hstore (fun _ hname => hname) hr h
  | _ => cases h

end

/-! ## Objects without repeated names -/

/-- No name stands twice in a list of members. -/
def DistinctNames (ms : List (String × Json)) : Prop := (ms.map Prod.fst).Nodup

theorem DistinctNames.eq {ms : List (String × Json)} (h : DistinctNames ms) {name : String}
    {x y : Json} (hx : (name, x) ∈ ms) (hy : (name, y) ∈ ms) : x = y :=
  (Prod.mk.inj (List.inj_on_of_nodup_map h hx hy rfl)).2

theorem distinctNames_cons {name : String} {x : Json} {ms : List (String × Json)} :
    DistinctNames ((name, x) :: ms) ↔ (∀ y, (name, y) ∉ ms) ∧ DistinctNames ms := by
  simp [DistinctNames]

/-- A field: where a record keeps it while it is filled, and how its value is read. -/
structure Shape.Field {σ α : Type} (shape : Shape σ) (name : String) (get : σ → Option α)
    (read : Node → Except Fault α) : Prop where
  mem : name ∈ shape.names
  stored : ∀ {r r' n}, shape.store r name n = .ok r' → ∃ a, read n = .ok a ∧ get r' = some a
  other : ∀ {r r' n name'}, name' ∈ shape.names → name' ≠ name →
    shape.store r name' n = .ok r' → get r' = get r

section

variable {σ α : Type} {shape : Shape σ} {name : String} {get : σ → Option α}
  {read : Node → Except Fault α}

/-- A field is what the member of its name says, and stays as it was if there is none. -/
theorem Shape.Field.members (f : shape.Field name get read) {ms : List (String × Json)}
    (hms : DistinctNames ms) {r r' : σ} (h : shape.members r (memberNodes ms) = .ok r') :
    (∀ x, (name, x) ∈ ms → ∃ a, read (node x) = .ok a ∧ get r' = some a) ∧
      ((∀ x, (name, x) ∉ ms) → get r' = get r) := by
  induction ms generalizing r with
  | nil =>
    obtain rfl := Except.ok.inj h
    simp
  | cons m ms ih =>
    obtain ⟨name', y⟩ := m
    obtain ⟨hnew, hms⟩ := distinctNames_cons.mp hms
    rw [memberNodes, Shape.members_some] at h
    obtain ⟨r₁, hmember, h⟩ := bind_eq_ok_iff.mp h
    obtain ⟨hin, hout⟩ := ih hms h
    by_cases hname : name' = name
    · subst hname
      obtain ⟨-, -, hstore⟩ | ⟨hunknown, -⟩ := Shape.member_cases hmember
      · obtain ⟨a, ha, hget⟩ := f.stored hstore
        refine ⟨fun x hx => ?_, fun hnone => absurd (List.mem_cons_self ..) (hnone y)⟩
        obtain hx | hx := List.mem_cons.mp hx
        · cases hx
          exact ⟨a, ha, (hout hnew).trans hget⟩
        · exact absurd hx (hnew x)
      · exact absurd f.mem hunknown
    · have hkeep : get r₁ = get r := by
        obtain ⟨hmem, -, hstore⟩ | ⟨-, rfl⟩ := Shape.member_cases hmember
        · exact f.other hmem hname hstore
        · rfl
      refine ⟨fun x hx => ?_, fun hnone => ?_⟩
      · obtain hx | hx := List.mem_cons.mp hx
        · exact absurd (Prod.mk.inj hx).1.symm hname
        · exact hin x hx
      · rw [hout fun x hx => hnone x (List.mem_cons_of_mem _ hx), hkeep]

theorem Shape.Field.eq_some_iff (f : shape.Field name get read) {ms : List (String × Json)}
    (hms : DistinctNames ms) {r r' : σ} (h : shape.members r (memberNodes ms) = .ok r')
    (hr : get r = none) {a : α} :
    get r' = some a ↔ ∃ x, (name, x) ∈ ms ∧ read (node x) = .ok a := by
  obtain ⟨hin, hout⟩ := f.members hms h
  constructor
  · intro ha
    by_cases hx : ∃ x, (name, x) ∈ ms
    · obtain ⟨x, hx⟩ := hx
      obtain ⟨b, hb, hget⟩ := hin x hx
      rw [ha] at hget
      exact ⟨x, hx, Option.some.inj hget ▸ hb⟩
    · rw [hout (not_exists.mp hx), hr] at ha
      cases ha
  · rintro ⟨x, hx, ha⟩
    obtain ⟨b, hb, hget⟩ := hin x hx
    rw [ha] at hb
    rw [hget, Except.ok.inj hb]

/-- An object can be read if every known member can be stored. -/
theorem Shape.exists_members
    (hother : ∀ {r r' n name name'}, name ∈ shape.names → name' ∈ shape.names → name' ≠ name →
      shape.store r name n = .ok r' → shape.has r' name' = shape.has r name')
    {ms : List (String × Json)} (hms : DistinctNames ms)
    (hstore : ∀ name x, (name, x) ∈ ms → name ∈ shape.names →
      ∀ r, ∃ r', shape.store r name (node x) = .ok r') {r : σ}
    (hnew : ∀ name x, (name, x) ∈ ms → name ∈ shape.names → shape.has r name = false) :
    ∃ r', shape.members r (memberNodes ms) = .ok r' := by
  induction ms generalizing r with
  | nil => exact ⟨r, rfl⟩
  | cons m ms ih =>
    obtain ⟨name, x⟩ := m
    obtain ⟨hfresh, hms⟩ := distinctNames_cons.mp hms
    have hstore' := fun name' y hy => hstore name' y (List.mem_cons_of_mem _ hy)
    have hnew' := fun name' y hy => hnew name' y (List.mem_cons_of_mem _ hy)
    rw [memberNodes]
    by_cases hname : name ∈ shape.names
    · obtain ⟨r₁, hr₁⟩ := hstore name x (List.mem_cons_self ..) hname r
      rw [Shape.members_cons hname (hnew name x (List.mem_cons_self ..) hname) hr₁]
      refine ih hms hstore' fun name' y hy hname' => ?_
      have hne : name' ≠ name := by
        rintro rfl
        exact hfresh y hy
      rw [hother hname hname' hne hr₁]
      exact hnew' name' y hy hname'
    · rw [Shape.members_some, Shape.member_unknown hname (skip_node x)]
      exact ih hms hstore' hnew'

end

end SuiteRunner.Json
