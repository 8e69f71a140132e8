import Mathlib.Data.List.Nodup
import SuiteRunner.FileSystem
import SuiteRunner.Proofs.Path
import SuiteRunner.Proofs.Traverse

/-! # Well-formed file systems

In a well-formed file system what a path leads to does not depend on the order of the entries, and a
directory lists each of its names once. Whatever is made in it leaves it well formed, and what is
written to a file is read from it again. -/
namespace SuiteRunner

namespace FileSystem

/-- A name that an entry can have. -/
structure IsProper (n : Name) : Prop where
  nonempty : n ≠ []
  noSlash : Path.slash ∉ n

instance (n : Name) : Decidable (IsProper n) :=
  decidable_of_iff (n ≠ [] ∧ Path.slash ∉ n) ⟨fun h => ⟨h.1, h.2⟩, fun h => ⟨h.1, h.2⟩⟩

/-- Entries have proper names, and no two are at one location. -/
structure WellFormed (fs : FileSystem) : Prop where
  proper : ∀ e ∈ fs.entries, ∀ n ∈ e.1, IsProper n
  distinct : (fs.entries.map Prod.fst).Nodup

variable {fs : FileSystem} {p : Path} {loc : Location} {ns : List Name} {n : Name}

/-! ## Listings -/

theorem length_le_of_locate (h : fs.locate p = .ok loc) : p.bytes.length ≤ maxPath := by
  rw [locate, resolve] at h
  simp only [guard_eq_ok_iff] at h
  exact Nat.not_lt.mp h.2.2.1

theorem list_eq_ok_iff : fs.list p = .ok ns ↔ ∃ loc, fs.locate p = .ok loc ∧
    fs.isDirectoryAt loc = true ∧ (loc, .list) ∉ fs.forbidden ∧
    fs.entries.filterMap (childName? loc) = ns := by
  rw [list, bind_eq_ok_iff]
  simp only [guard_eq_ok_iff, Bool.not_eq_true', Bool.not_eq_false, Except.ok.injEq]

theorem childName?_eq_some_iff {e : Location × Entry} :
    childName? loc e = some n ↔ e.1 = loc ++ [n] := by
  rw [childName?]
  constructor
  · intro h
    split_ifs at h with hloc
    rw [← hloc]
    exact (List.dropLast_append_getLast? n h).symm
  · intro h
    simp [h]

theorem length_le_of_list (h : fs.list p = .ok ns) : p.bytes.length ≤ maxPath := by
  obtain ⟨loc, hloc, -⟩ := list_eq_ok_iff.mp h
  exact length_le_of_locate hloc

theorem WellFormed.isProper (hfs : fs.WellFormed) (h : fs.list p = .ok ns) (hn : n ∈ ns) :
    IsProper n := by
  obtain ⟨loc, -, -, -, rfl⟩ := list_eq_ok_iff.mp h
  obtain ⟨e, he, hchild⟩ := List.mem_filterMap.mp hn
  apply hfs.proper e he
  simp [childName?_eq_some_iff.mp hchild]

theorem WellFormed.nodup (hfs : fs.WellFormed) (h : fs.list p = .ok ns) : ns.Nodup := by
  obtain ⟨loc, -, -, -, rfl⟩ := list_eq_ok_iff.mp h
  have hentries : fs.entries.Pairwise fun e e' => e.1 ≠ e'.1 := List.pairwise_map.mp hfs.distinct
  refine hentries.filterMap (childName? loc) ?_
  rintro e e' hne n hn n' hn' rfl
  exact hne ((childName?_eq_some_iff.mp hn).trans (childName?_eq_some_iff.mp hn').symm)

/-! ## The order of the entries -/

variable {es : List (Location × Entry)}

private theorem lookup_perm {α β : Type} [BEq α] [LawfulBEq α] {k : α} {l l' : List (α × β)}
    (hperm : l.Perm l') (hnodup : (l.map Prod.fst).Nodup) : l.lookup k = l'.lookup k := by
  induction hperm with
  | nil => rfl
  | cons e _ ih =>
    obtain ⟨a, b⟩ := e
    simp only [List.lookup_cons, ih (List.nodup_cons.mp hnodup).2]
  | swap e e' l =>
    obtain ⟨a, b⟩ := e
    obtain ⟨a', b'⟩ := e'
    have hne : a' ≠ a := by
      rintro rfl
      simp at hnodup
    by_cases ha : k = a
    · have ha' : (a == a') = false := beq_eq_false_iff_ne.mpr hne.symm
      simp [List.lookup_cons, ha, ha']
    · have ha' : (k == a) = false := beq_eq_false_iff_ne.mpr ha
      simp [List.lookup_cons, ha']
  | trans h₁ _ ih₁ ih₂ => exact (ih₁ hnodup).trans (ih₂ ((h₁.map Prod.fst).nodup hnodup))

theorem entry?_perm (hfs : fs.WellFormed) (hperm : es.Perm fs.entries) (loc : Location) :
    entry? { fs with entries := es } loc = fs.entry? loc := by
  cases loc with
  | nil => rfl
  | cons n ns => exact (lookup_perm hperm.symm hfs.distinct).symm

theorem isDirectoryAt_congr {fs fs' : FileSystem} (hentry : fs'.entry? loc = fs.entry? loc) :
    fs'.isDirectoryAt loc = fs.isDirectoryAt loc := by
  simp [isDirectoryAt, hentry]

/-- Going down asks a file system for nothing but its entries one by one and what is forbidden. -/
theorem descend_congr {fs fs' : FileSystem} {aim : Aim}
    {follow : Location → List Name → Except Fault Location}
    (hentry : ∀ loc, fs'.entry? loc = fs.entry? loc) (hforbidden : fs'.forbidden = fs.forbidden) :
    ∀ loc ns, fs'.descend aim follow loc ns = fs.descend aim follow loc ns := by
  intro loc ns
  induction ns generalizing loc with
  | nil => rfl
  | cons n ns ih =>
    simp only [descend, isDirectoryAt_congr (hentry _), hentry, hforbidden, ih]

theorem walk_congr {fs fs' : FileSystem} {aim : Aim}
    (hentry : ∀ loc, fs'.entry? loc = fs.entry? loc) (hforbidden : fs'.forbidden = fs.forbidden) :
    ∀ links loc ns, fs'.walk aim links loc ns = fs.walk aim links loc ns := by
  intro links
  induction links with
  | zero => exact descend_congr hentry hforbidden
  | succ links ih =>
    have hfollow : fs'.walk aim links = fs.walk aim links := funext₂ ih
    intro loc ns
    rw [walk, walk, hfollow]
    exact descend_congr hentry hforbidden loc ns

theorem locate_perm (hfs : fs.WellFormed) (hperm : es.Perm fs.entries) (p : Path) :
    locate { fs with entries := es } p = fs.locate p := by
  simp only [locate, resolve, walk_congr (entry?_perm hfs hperm) rfl]

theorem isDirectory_perm (hfs : fs.WellFormed) (hperm : es.Perm fs.entries) (p : Path) :
    isDirectory { fs with entries := es } p = fs.isDirectory p := by
  simp only [isDirectory, locate_perm hfs hperm, isDirectoryAt_congr (entry?_perm hfs hperm _)]

/-- Two answers to the question for the names in a directory that differ at most in their order. -/
inductive SameListing : Except Fault (List Name) → Except Fault (List Name) → Prop where
  | fault (e : Fault) : SameListing (.error e) (.error e)
  | names {ns ns' : List Name} (perm : ns'.Perm ns) : SameListing (.ok ns) (.ok ns')

theorem list_perm (hfs : fs.WellFormed) (hperm : es.Perm fs.entries) (p : Path) :
    SameListing (fs.list p) (list { fs with entries := es } p) := by
  simp only [list, locate_perm hfs hperm, isDirectoryAt_congr (entry?_perm hfs hperm _)]
  cases fs.locate p with
  | error e => exact .fault e
  | ok loc =>
    simp only [bind, Except.bind]
    split_ifs
    · exact .fault _
    · exact .fault _
    · exact .names (hperm.filterMap _)

/-! ## Making entries -/

theorem slash_notMem_of_mem_steps (hn : n ∈ steps p) : Path.slash ∉ n := by
  rw [steps, List.mem_append] at hn
  rcases hn with hn | hn
  · exact Path.slash_notMem_of_mem_splitFrom (by simp) (List.mem_filter.mp hn).1
  · split_ifs at hn
    · simp [List.mem_singleton.mp hn]
    · simp at hn

theorem isProper_concat (hloc : ∀ m ∈ loc, IsProper m) (hn : IsProper n) :
    ∀ m ∈ loc ++ [n], IsProper m := by
  rw [List.forall_mem_append, List.forall_mem_singleton]
  exact ⟨hloc, hn⟩

/-- Where a path starts, or a link that is met at a location. -/
theorem isProper_start (hloc : ∀ n ∈ loc, IsProper n) :
    ∀ n ∈ (if p.isAbsolute then [] else loc), IsProper n := by
  split_ifs
  · simp
  · exact hloc

section Descent

variable {aim : Aim} {follow : Location → List Name → Except Fault Location} {loc' : Location}

/-- The ways to go on from a directory by one name: staying, going up, ending at a free place,
following a link, entering anything else. -/
theorem descend_cons_eq_ok (h : fs.descend aim follow loc (n :: ns) = .ok loc') :
    ((n = [] ∨ n = Path.here) ∧ fs.descend aim follow loc ns = .ok loc') ∨
    (n = Path.up ∧ fs.descend aim follow loc.dropLast ns = .ok loc') ∨
    (n ≠ [] ∧ fs.entry? (loc ++ [n]) = none ∧ loc ++ [n] = loc') ∨
    (∃ target, fs.entry? (loc ++ [n]) = some (.link target) ∧
      follow (if target.isAbsolute then [] else loc) (steps target ++ ns) = .ok loc') ∨
    (n ≠ [] ∧ (fs.entry? (loc ++ [n])).isSome = true ∧
      fs.descend aim follow (loc ++ [n]) ns = .ok loc') := by
  rw [descend, guard_eq_ok_iff] at h
  obtain ⟨-, h⟩ := h
  by_cases hempty : n = []
  · rw [if_pos hempty] at h
    exact .inl ⟨.inl hempty, h⟩
  rw [if_neg hempty, guard_eq_ok_iff] at h
  obtain ⟨-, h⟩ := h
  by_cases hhere : n = Path.here
  · rw [if_pos hhere] at h
    exact .inl ⟨.inr hhere, h⟩
  rw [if_neg hhere] at h
  by_cases hup : n = Path.up
  · rw [if_pos hup] at h
    exact .inr (.inl ⟨hup, h⟩)
  rw [if_neg hup, guard_eq_ok_iff, guard_eq_ok_iff] at h
  obtain ⟨-, -, h⟩ := h
  split at h
  · rename_i hentry
    split_ifs at h
    exact .inr (.inr (.inl ⟨hempty, hentry, Except.ok.inj h⟩))
  · rename_i target hentry
    exact .inr (.inr (.inr (.inl ⟨target, hentry, h⟩)))
  · rename_i e hentry
    exact .inr (.inr (.inr (.inr ⟨hempty, by simp [hentry], h⟩)))

/-- Names that a path can have between its slashes lead from a proper location to proper ones. -/
def KeepsProper (go : Location → List Name → Except Fault Location) : Prop :=
  ∀ loc ns loc', (∀ n ∈ loc, IsProper n) → (∀ n ∈ ns, Path.slash ∉ n) → go loc ns = .ok loc' →
    ∀ n ∈ loc', IsProper n

private theorem keepsProper_descend (hfollow : KeepsProper follow) :
    KeepsProper (fs.descend aim follow) := by
  intro loc ns loc' hloc hns h
  induction ns generalizing loc with
  | nil =>
    obtain rfl := Except.ok.inj h
    exact hloc
  | cons n ns ih =>
    obtain ⟨hn, hns⟩ := List.forall_mem_cons.mp hns
    obtain ⟨-, h⟩ | ⟨-, h⟩ | ⟨hempty, -, rfl⟩ | ⟨target, -, h⟩ | ⟨hempty, -, h⟩ :=
      descend_cons_eq_ok h
    · exact ih loc hloc hns h
    · exact ih _ (fun m hm => hloc m (List.dropLast_subset loc hm)) hns h
    · exact isProper_concat hloc ⟨hempty, hn⟩
    · refine hfollow _ _ _ (isProper_start hloc) ?_ h
      exact List.forall_mem_append.mpr ⟨fun _ => slash_notMem_of_mem_steps, hns⟩
    · exact ih _ (isProper_concat hloc ⟨hempty, hn⟩) hns h

end Descent

theorem keepsProper_walk {aim : Aim} (links : Nat) : KeepsProper (fs.walk aim links) := by
  induction links with
  | zero =>
    apply keepsProper_descend
    intro loc ns loc' _ _ h
    cases h
  | succ links ih => exact keepsProper_descend ih

private theorem entry?_isSome_of_mem (h : loc ∈ fs.entries.map Prod.fst) :
    (fs.entry? loc).isSome = true := by
  cases loc with
  | nil => rfl
  | cons n ns =>
    obtain ⟨e, he, hkey⟩ := List.mem_map.mp h
    rw [ entry?, Option.isSome_iff_ne_none]
    · intro hnone
      have := List.lookup_eq_none_iff.mp hnone e he
      simp [hkey] at this
    · simp

theorem WellFormed.put (hfs : fs.WellFormed) (hloc : ∀ n ∈ loc, IsProper n) (e : Entry) :
    (fs.put loc e).WellFormed := by
  rw [FileSystem.put]
  split_ifs with hsome
  · have hkeys : (fs.entries.map fun x => if x.1 = loc then (loc, e) else x).map Prod.fst
        = fs.entries.map Prod.fst := by
      rw [List.map_map]
      apply List.map_congr_left
      intro x _
      simp only [Function.comp]
      split_ifs with hx
      · exact hx.symm
      · rfl
    constructor
    · intro x hx
      obtain ⟨y, hy, hxy⟩ := List.mem_map.mp (hkeys ▸ List.mem_map_of_mem hx)
      rw [← hxy]
      exact hfs.proper y hy
    · simpa only [hkeys] using hfs.distinct
  · constructor
    · intro x hx
      rcases List.mem_append.mp hx with hx | hx
      · exact hfs.proper x hx
      · obtain rfl := List.mem_singleton.mp hx
        exact hloc
    · rw [List.map_append, List.map_singleton, List.nodup_append_comm, List.singleton_append,
        List.nodup_cons]
      refine ⟨?_, hfs.distinct⟩
      intro hmem
      exact hsome (entry?_isSome_of_mem hmem)

theorem isProper_of_resolve {aim : Aim} (hcwd : ∀ n ∈ fs.cwd, IsProper n)
    (hns : ∀ n ∈ ns, Path.slash ∉ n) (h : fs.resolve aim p ns = .ok loc) :
    ∀ n ∈ loc, IsProper n := by
  simp only [resolve, guard_eq_ok_iff] at h
  exact keepsProper_walk maxLinks _ _ _ (isProper_start hcwd) hns h.2.2.2

theorem WellFormed.fill (hfs : fs.WellFormed) (hcwd : ∀ n ∈ fs.cwd, IsProper n)
    (h : fs.fileLocation p = .ok loc) (content : List Text.Utf8.Byte) :
    (fs.fill loc content).WellFormed := by
  rw [fileLocation, bind_eq_ok_iff] at h
  obtain ⟨place, hplace, hloc⟩ := h
  split_ifs at hloc
  obtain rfl := Except.ok.inj hloc
  rw [FileSystem.fill]
  split
  · exact hfs
  · exact hfs
  · exact hfs.put (isProper_of_resolve hcwd (fun _ => slash_notMem_of_mem_steps) hplace) _

theorem WellFormed.makeLink {fs' : FileSystem} (hfs : fs.WellFormed)
    (hcwd : ∀ n ∈ fs.cwd, IsProper n) {target : Path} (h : fs.makeLink p target = .ok fs') :
    fs'.WellFormed := by
  rw [FileSystem.makeLink, bind_eq_ok_iff] at h
  obtain ⟨dir, hdir, h⟩ := h
  have hproper := isProper_of_resolve hcwd
    (fun _ hn => slash_notMem_of_mem_steps (List.dropLast_subset _ hn)) hdir
  split at h
  · cases h
  · cases h
  · rename_i n hempty hlast
    split_ifs at h
    obtain rfl := Except.ok.inj h
    have hslash := slash_notMem_of_mem_steps (List.mem_of_getLast? hlast)
    exact hfs.put (isProper_concat hproper ⟨hempty, hslash⟩) _

theorem WellFormed.makeBelow {fs' : FileSystem} (hfs : fs.WellFormed)
    (hloc : ∀ n ∈ loc, IsProper n) (hns : ∀ n ∈ ns, Path.slash ∉ n)
    (h : fs.makeBelow loc ns = .ok fs') : fs'.WellFormed := by
  induction ns generalizing fs loc with
  | nil =>
    obtain rfl := Except.ok.inj h
    exact hfs
  | cons n ns ih =>
    obtain ⟨hn, hns⟩ := List.forall_mem_cons.mp hns
    rw [FileSystem.makeBelow] at h
    split at h
    · cases h
    · rename_i place hplace
      have hproper := keepsProper_walk maxLinks loc [n] place hloc (by simpa using hn) hplace
      split at h
      · exact ih (hfs.put hproper _) hproper hns h
      · exact ih hfs hproper hns h
      · cases h

theorem WellFormed.makeDirectories {fs' : FileSystem} (hfs : fs.WellFormed)
    (hcwd : ∀ n ∈ fs.cwd, IsProper n) (h : fs.makeDirectories p = .ok fs') :
    fs'.WellFormed := by
  refine hfs.makeBelow (isProper_start hcwd) (fun n hn => ?_) h
  exact Path.slash_notMem_of_mem_splitFrom (by simp) (List.mem_filter.mp hn).1

/-! ## Reading back -/

section

variable {α β : Type} [BEq α] [LawfulBEq α] [DecidableEq α]

theorem lookup_cons_eq_ite (k a : α) (b : β) (l : List (α × β)) :
    ((a, b) :: l).lookup k = if k = a then some b else l.lookup k := by
  by_cases h : k = a
  · simp [h]
  · rw [List.lookup_cons, beq_false_of_ne h, if_neg h]

private theorem lookup_replace (k k' : α) (v : β) (l : List (α × β)) :
    (l.map fun x => if x.1 = k then (k, v) else x).lookup k' =
      if k' = k then (l.lookup k).map fun _ => v else l.lookup k' := by
  induction l with
  | nil => simp
  | cons x l ih =>
    obtain ⟨a, b⟩ := x
    have hhead : (if a = k then (k, v) else (a, b)) = (a, if a = k then v else b) := by
      split_ifs with h
      · rw [h]
      · rfl
    simp only [List.map_cons, hhead, lookup_cons_eq_ite, ih]
    by_cases hk : k' = k
    · subst hk
      by_cases ha : k' = a <;> simp [ha]
    · by_cases ha : k' = a
      · have hak : a ≠ k := ha ▸ hk
        simp [ha, hak]
      · simp [ha, hk]

end

theorem entry?_of_ne_nil (h : loc ≠ []) : fs.entry? loc = fs.entries.lookup loc := by
  cases loc with
  | nil => exact absurd rfl h
  | cons n ns => rfl

/-- What is put at a place is found there, and all else is left alone. -/
theorem entry?_put (hloc : loc ≠ []) (e : Entry) (loc' : Location) :
    FileSystem.entry? (fs.put loc e) loc' = if loc' = loc then some e else fs.entry? loc' := by
  by_cases hnil : loc' = []
  · subst hnil
    rw [if_neg (Ne.symm hloc)]
    rfl
  rw [entry?_of_ne_nil hnil, entry?_of_ne_nil hnil, FileSystem.put, entry?_of_ne_nil hloc]
  cases hold : fs.entries.lookup loc with
  | some old =>
    have hentries := lookup_replace loc loc' e fs.entries
    rw [hold] at hentries
    exact hentries
  | none =>
    simp only [Option.isSome_none, Bool.false_eq_true, if_false, List.lookup_append]
    split_ifs with heq
    · simp [heq, hold]
    · simp [lookup_cons_eq_ite, heq]

section Filling

variable {fs' : FileSystem} {c : List Text.Utf8.Byte}

/-- A file that is put where a way leads does not stand in the way: it is entered only at the end. -/
theorem descend_put {follow follow' : Location → List Name → Except Fault Location}
    (hentry : ∀ l, fs'.entry? l = if l = loc then some (.file c) else fs.entry? l)
    (hforbidden : fs'.forbidden = fs.forbidden)
    (hplace : fs.entry? loc = none ∨ ∃ old, fs.entry? loc = some (.file old))
    (hfollow : ∀ l ns, follow l ns = .ok loc → follow' l ns = .ok loc) (l : Location)
    (ns : List Name) (h : fs.descend .place follow l ns = .ok loc) :
    fs'.descend .existing follow' l ns = .ok loc := by
  induction ns generalizing l with
  | nil => exact h
  | cons n ns ih =>
    rw [descend, guard_eq_ok_iff] at h
    obtain ⟨hdirectory, h⟩ := h
    have hne : l ≠ loc := by
      rintro rfl
      obtain hnone | ⟨old, hold⟩ := hplace
      · simp [isDirectoryAt, hnone] at hdirectory
      · simp [isDirectoryAt, hold] at hdirectory
    have hdirectory' : fs'.isDirectoryAt l = true := by
      simpa [isDirectoryAt, hentry, hne] using hdirectory
    rw [descend, guard_eq_ok_iff]
    refine ⟨by simp [hdirectory'], ?_⟩
    by_cases hempty : n = []
    · rw [if_pos hempty] at h ⊢
      exact ih l h
    rw [if_neg hempty, guard_eq_ok_iff] at h ⊢
    rw [hforbidden]
    obtain ⟨hallowed, h⟩ := h
    refine ⟨hallowed, ?_⟩
    by_cases hhere : n = Path.here
    · rw [if_pos hhere] at h ⊢
      exact ih l h
    rw [if_neg hhere] at h ⊢
    by_cases hup : n = Path.up
    · rw [if_pos hup] at h ⊢
      exact ih _ h
    rw [if_neg hup, guard_eq_ok_iff] at h
    rw [if_neg hup, guard_eq_ok_iff]
    refine ⟨by simp, ?_⟩
    obtain ⟨-, h⟩ := h
    rw [guard_eq_ok_iff] at h ⊢
    obtain ⟨hshort, h⟩ := h
    refine ⟨hshort, ?_⟩
    by_cases hlast : l ++ [n] = loc
    · rw [hentry, if_pos hlast]
      rw [hlast] at h ⊢
      obtain hnone | ⟨old, hold⟩ := hplace
      · rw [hnone] at h
        simp only [true_and] at h
        split_ifs at h with hns
        rw [hns]
        rfl
      · rw [hold] at h
        exact ih _ h
    · rw [hentry, if_neg hlast]
      cases hnext : fs.entry? (l ++ [n]) with
      | none =>
        rw [hnext] at h
        simp only at h
        split_ifs at h
        exact absurd (Except.ok.inj h) hlast
      | some e =>
        rw [hnext] at h
        cases e with
        | link target => exact hfollow _ _ h
        | file content => exact ih _ h
        | directory => exact ih _ h
        | void => exact ih _ h
        | sealed content => exact ih _ h

private theorem walk_put
    (hentry : ∀ l, fs'.entry? l = if l = loc then some (.file c) else fs.entry? l)
    (hforbidden : fs'.forbidden = fs.forbidden)
    (hplace : fs.entry? loc = none ∨ ∃ old, fs.entry? loc = some (.file old)) (links : Nat)
    (l : Location) (ns : List Name) (h : fs.walk .place links l ns = .ok loc) :
    fs'.walk .existing links l ns = .ok loc := by
  induction links generalizing l ns with
  | zero => exact descend_put hentry hforbidden hplace (fun _ _ hfollow => by cases hfollow) l ns h
  | succ links ih => exact descend_put hentry hforbidden hplace ih l ns h

/-- What is written to a file, new or not, is read from it under the same path. -/
theorem contentAt_fill (h : fs.fileLocation p = .ok loc)
    (hplace : fs.entry? loc = none ∨ ∃ old, fs.entry? loc = some (.file old)) :
    (fs.fill loc c).contentAt p = .ok c := by
  rw [fileLocation, bind_eq_ok_iff] at h
  obtain ⟨place, hresolve, h⟩ := h
  split_ifs at h
  obtain rfl := Except.ok.inj h
  have hne : place ≠ [] := by
    rintro rfl
    obtain hnone | ⟨old, hold⟩ := hplace
    · cases hnone
    · cases hold
  have hfill : fs.fill place c = fs.put place (.file c) := by
    obtain hnone | ⟨old, hold⟩ := hplace
    · simp [fill, hnone]
    · simp [fill, hold]
  have hentry : ∀ l, FileSystem.entry? (fs.put place (.file c)) l =
      if l = place then some (.file c) else fs.entry? l := entry?_put hne (.file c)
  have hcwd : (fs.put place (.file c)).cwd = fs.cwd := by
    unfold FileSystem.put
    split <;> rfl
  have hforbidden : (fs.put place (.file c)).forbidden = fs.forbidden := by
    unfold FileSystem.put
    split <;> rfl
  have hlocate : (fs.put place (.file c)).locate p = .ok place := by
    simp only [resolve, guard_eq_ok_iff] at hresolve
    simp only [locate, resolve, guard_eq_ok_iff, hcwd]
    obtain ⟨hzero, hempty, hlong, hwalk⟩ := hresolve
    exact ⟨hzero, hempty, hlong, walk_put hentry hforbidden hplace _ _ _ hwalk⟩
  rw [hfill, contentAt, hlocate]
  simp only [bind, Except.bind, hentry, if_true]

end Filling

end FileSystem

end SuiteRunner
