import SuiteRunner.Proofs.Discovery.Manifest
import SuiteRunner.Proofs.Resolution

/-! # Trees with cycles

A link can lead back into a directory that a walk has come through. A walk goes round in such a
cycle only so often: each round crosses a link, and a path with too many links leads nowhere. Until
then it goes down, and there are only so many levels to go down. What it ends in then is a fault. -/
namespace SuiteRunner

namespace FileSystem

/-- No entry has one of the names that stand for a directory itself and the one around it. -/
def NoDots (fs : FileSystem) : Prop :=
  ∀ e ∈ fs.entries, ∀ n ∈ e.1, n ≠ Path.here ∧ n ≠ Path.up

/-- The level of the deepest entry. -/
def height (fs : FileSystem) : Nat := (fs.entries.map fun e => e.1.length).foldr max 0

/-- How many levels a walk can still go down from a location that it has come to across some links:
those below it, and all of them again for each link that is left. -/
def budget (fs : FileSystem) (k : Nat) (l : Location) : Nat :=
  (maxLinks - k) * (fs.height + 1) + (fs.height - l.length)

variable {fs : FileSystem} {p q : Path} {l l' : Location} {n : Name} {ns : List Name} {k k' : Nat}

private theorem length_le_height {e : Location × Entry} (h : e ∈ fs.entries) :
    e.1.length ≤ fs.height := by
  have hmax (xs : List Nat) (x : Nat) (hx : x ∈ xs) : x ≤ xs.foldr max 0 := by
    induction xs with
    | nil => cases hx
    | cons y xs ih =>
      rw [List.foldr_cons]
      rcases List.mem_cons.mp hx with rfl | hx
      · exact Nat.le_max_left _ _
      · exact Nat.le_trans (ih hx) (Nat.le_max_right _ _)
  exact hmax _ _ (List.mem_map_of_mem h)

private theorem budget_lt (fs : FileSystem) (k : Nat) (l : Location) :
    fs.budget k l < (maxLinks + 1) * (fs.height + 1) := by
  have hlinks : (maxLinks - k) * (fs.height + 1) ≤ maxLinks * (fs.height + 1) :=
    Nat.mul_le_mul_right _ (Nat.sub_le _ _)
  rw [budget, Nat.add_mul, Nat.one_mul]
  omega

/-- Going down a level takes one from the budget. -/
theorem budget_concat_lt (h : l.length < fs.height) : fs.budget k (l ++ [n]) < fs.budget k l := by
  simp only [budget, List.length_append, List.length_singleton]
  omega

/-- Crossing a link takes more than can be gained by what lies behind it. -/
theorem budget_lt_of_link (hk : k < k') (hle : k' ≤ maxLinks) :
    fs.budget k' l' < fs.budget k l := by
  have hlinks : (maxLinks - k' + 1) * (fs.height + 1) ≤ (maxLinks - k) * (fs.height + 1) :=
    Nat.mul_le_mul_right _ (by omega)
  rw [Nat.add_mul, Nat.one_mul] at hlinks
  simp only [budget]
  omega

end FileSystem

namespace Discovery

open FileSystem (maxLinks maxPath)
open Text.Utf8 (encode)

variable {fs : FileSystem} {d : DiscoverySettings} {p q root : Path} {name : String} {n : Name}
  {ns : List Name} {loc : Location} {depth r k : Nat}

/-! ## Levels -/

/-- A directory and those below it, in whatever way they are reached, are on at most so many
levels. -/
def Within (fs : FileSystem) : Nat → Path → Prop
  | 0, _ => False
  | r + 1, p => ∀ n, Subdirectory fs p n → Within fs r (p.join ⟨n⟩)

private theorem budget_lt_of_subdirectory (hfs : fs.WellFormed) (hdots : fs.NoDots)
    (hp : fs.Resolves p k loc) (hchild : Subdirectory fs p n) :
    ∃ k' loc', fs.Resolves (p.join ⟨n⟩) k' loc' ∧ fs.budget k' loc' < fs.budget k loc := by
  obtain ⟨⟨ns, hns, hn⟩, hdir⟩ := hchild
  have hproper := hfs.isProper hns hn
  obtain ⟨loc', hloc', -⟩ := FileSystem.isDirectory_eq_ok_iff.mp hdir
  obtain ⟨k', hk'⟩ := FileSystem.locate_eq_ok_iff.mp hloc'
  -- The entry itself, which lies one level below.
  obtain ⟨here, hhere, -, -, rfl⟩ := FileSystem.list_eq_ok_iff.mp hns
  obtain rfl := FileSystem.locate_unique hp hhere
  obtain ⟨e, he, hname⟩ := List.mem_filterMap.mp hn
  have hentry := FileSystem.childName?_eq_some_iff.mp hname
  have hlevel : here.length < fs.height := by
    have hle := FileSystem.length_le_height he
    rw [hentry, List.length_append, List.length_singleton] at hle
    omega
  obtain ⟨hnothere, hnotup⟩ := hdots e he n (by simp [hentry])
  obtain ⟨k₂, rfl, hlast⟩ := hp.join hproper hk'
  refine ⟨_, _, hk', ?_⟩
  obtain ⟨rfl, rfl⟩ | hlink := hlast.cases_entry hproper hnothere hnotup
  · exact FileSystem.budget_concat_lt hlevel
  · exact FileSystem.budget_lt_of_link (Nat.lt_add_of_pos_right hlink) hk'.links_le

private theorem within_of_resolves (hfs : fs.WellFormed) (hdots : fs.NoDots)
    (hp : fs.Resolves p k loc) (hr : fs.budget k loc < r) : Within fs r p := by
  induction r generalizing p k loc with
  | zero => cases hr
  | succ r ih =>
    intro n hn
    obtain ⟨k', loc', hchild, hlt⟩ := budget_lt_of_subdirectory hfs hdots hp hn
    exact ih hchild (by omega)

/-- Links keep a tree within so many levels, and were there no bound on the length of a path. -/
theorem within_of_links (hfs : fs.WellFormed) (hdots : fs.NoDots) (root : Path) :
    Within fs ((maxLinks + 1) * (fs.height + 1)) root := by
  cases hroot : fs.locate root with
  | ok loc =>
    obtain ⟨k, hk⟩ := FileSystem.locate_eq_ok_iff.mp hroot
    exact within_of_resolves hfs hdots hk (fs.budget_lt k loc)
  | error e =>
    rw [Nat.add_mul, Nat.one_mul, ← Nat.add_assoc]
    rintro n ⟨⟨ns, hns, -⟩, -⟩
    obtain ⟨loc, hloc, -⟩ := FileSystem.list_eq_ok_iff.mp hns
    cases hloc.symm.trans hroot

private theorem within_of_length (hfs : fs.WellFormed) (hpos : 0 < r)
    (h : maxPath < p.bytes.length + r) : Within fs r p := by
  induction r generalizing p with
  | zero => cases hpos
  | succ r ih =>
    rintro n ⟨⟨ns, hns, hn⟩, hdir⟩
    have hproper := hfs.isProper hns hn
    have hlonger := Path.length_lt_join (p := p) hproper.nonempty hproper.noSlash
    obtain ⟨loc, hloc, -⟩ := FileSystem.isDirectory_eq_ok_iff.mp hdir
    have hlength := FileSystem.length_le_of_locate hloc
    exact ih (by omega) (by omega)

/-- A walk that may go deeper than there are levels makes nothing of it. -/
theorem Within.walk_eq (h : Within fs r p) (hr : r ≤ depth) :
    walk fs d depth p name = walk fs d r p name := by
  induction r generalizing p name depth with
  | zero => cases h
  | succ r ih =>
    obtain ⟨depth, rfl⟩ : ∃ m, depth = m + 1 := ⟨depth - 1, by omega⟩
    cases hns : fs.list p with
    | error e =>
      have hfault := sortedNames_of_fault hns
      rw [walk_succ_of_fault hfault, walk_succ_of_fault hfault]
    | ok ns =>
      have hsorted := sortedNames_of_list hns
      by_cases hleaf : Leaf d ns
      · rw [walk_succ_of_leaf hsorted hleaf, walk_succ_of_leaf hsorted hleaf]
      · have hentries : (sortNames ns).mapM (visitEntry fs (walk fs d depth) p) =
            (sortNames ns).mapM (visitEntry fs (walk fs d r) p) := by
          refine mapM_congr fun n hn => visitEntry_congr rfl fun hdir => ?_
          exact ih (h n ⟨⟨ns, hns, mem_sortNames.mp hn⟩, hdir⟩) (by omega)
        rw [walk_succ_of_group hsorted hleaf, walk_succ_of_group hsorted hleaf, hentries]

private theorem Within.walk_depthBound (hfs : fs.WellFormed) (h : Within fs r root)
    (hr : r ≤ depth) : walk fs d depth root name = walk fs d depthBound root name := by
  have hbound : Within fs depthBound root :=
    within_of_length hfs (Nat.succ_pos _) (by rw [depthBound]; omega)
  calc walk fs d depth root name
    _ = walk fs d r root name := h.walk_eq hr
    _ = walk fs d (max r depthBound) root name := (h.walk_eq (Nat.le_max_left _ _)).symm
    _ = walk fs d depthBound root name := hbound.walk_eq (Nat.le_max_right _ _)

/-! ## Going round -/

/-- What a directory holds is found from every path that leads to it, if there are no faults. -/
theorem Visited.mirror_step (hfs : fs.WellFormed) (hreadable : Readable fs d root) {y : Path}
    (hy : Visited fs d root y) (hsame : fs.locate y = fs.locate p) (hns : fs.list p = .ok ns)
    (hgroup : ¬Leaf d ns) (hn : n ∈ ns) (hpn : fs.locate (p.join ⟨n⟩) = .ok loc)
    (hat : fs.isDirectoryAt loc = true) :
    Visited fs d root (y.join ⟨n⟩) ∧ fs.locate (y.join ⟨n⟩) = .ok loc ∧
      y.bytes.length < (y.join ⟨n⟩).bytes.length := by
  have hproper := hfs.isProper hns hn
  have hlist : fs.list y = .ok ns := (FileSystem.list_congr hsame).trans hns
  have hyn : fs.locate (y.join ⟨n⟩) = .ok loc := by
    obtain ⟨b, hb⟩ := hreadable.known y ns hy hlist hgroup n hn
    obtain ⟨loc', hloc', -⟩ := FileSystem.isDirectory_eq_ok_iff.mp hb
    obtain ⟨here, hhere, -⟩ := FileSystem.list_eq_ok_iff.mp hns
    rw [FileSystem.locate_join_unique hproper hhere (hsame.trans hhere) hpn hloc', hloc']
  refine ⟨.step hy ⟨ns, hlist, hgroup⟩ ⟨⟨ns, hlist, hn⟩, ?_⟩, hyn,
    Path.length_lt_join hproper.nonempty hproper.noSlash⟩
  exact FileSystem.isDirectory_eq_ok_iff.mpr ⟨loc, hyn, hat⟩

/-- A walk can be repeated from another path to where it began. -/
theorem Visited.mirror (hfs : fs.WellFormed) (hreadable : Readable fs d root) {x : Path}
    (hx : Visited fs d root x) (hsame : fs.locate x = fs.locate q) (hp : Visited fs d q p) :
    ∃ y, Visited fs d root y ∧ fs.locate y = fs.locate p ∧ x.bytes.length ≤ y.bytes.length := by
  induction hp with
  | root => exact ⟨x, hx, hsame, Nat.le_refl _⟩
  | @step p n _ hgroup hchild ih =>
    obtain ⟨y, hy, hloc, hlength⟩ := ih
    obtain ⟨ns, hns, hleaf⟩ := hgroup
    obtain ⟨⟨ns', hns', hn⟩, hdir⟩ := hchild
    obtain rfl := Except.ok.inj (hns.symm.trans hns')
    obtain ⟨loc, hpn, hat⟩ := FileSystem.isDirectory_eq_ok_iff.mp hdir
    obtain ⟨hvisited, hyn, hlonger⟩ := hy.mirror_step hfs hreadable hloc hns hleaf hn hpn hat
    exact ⟨y.join ⟨n⟩, hvisited, hyn.trans hpn.symm, by omega⟩

/-- Once round leads to where it began under a longer path, and then there is a longer one yet. -/
theorem exists_visited_of_cycle (hfs : fs.WellFormed) (hreadable : Readable fs d root)
    (hq : Visited fs d root q) (hp : Visited fs d q p) (hns : fs.list p = .ok ns)
    (hgroup : ¬Leaf d ns) (hn : n ∈ ns) (hqloc : fs.locate q = .ok loc)
    (hpn : fs.locate (p.join ⟨n⟩) = .ok loc) (length : Nat) :
    ∃ x, Visited fs d root x ∧ fs.locate x = .ok loc ∧ length ≤ x.bytes.length := by
  have hat : fs.isDirectoryAt loc = true := by
    obtain ⟨ms, hms⟩ := hreadable.listed q hq
    obtain ⟨loc', hloc', hat, -⟩ := FileSystem.list_eq_ok_iff.mp hms
    rwa [Except.ok.inj (hqloc.symm.trans hloc')]
  induction length with
  | zero => exact ⟨q, hq, hqloc, Nat.zero_le _⟩
  | succ length ih =>
    obtain ⟨x, hx, hxloc, hlength⟩ := ih
    obtain ⟨y, hy, hloc, hle⟩ := hx.mirror hfs hreadable (hxloc.trans hqloc.symm) hp
    obtain ⟨hvisited, hyn, hlonger⟩ := hy.mirror_step hfs hreadable hloc hns hgroup hn hpn hat
    exact ⟨y.join ⟨n⟩, hvisited, hyn, by omega⟩

private theorem not_readable_of_cycle (hfs : fs.WellFormed) (hq : Visited fs d root q)
    (hp : Visited fs d q p) (hns : fs.list p = .ok ns) (hgroup : ¬Leaf d ns) (hn : n ∈ ns)
    (hqloc : fs.locate q = .ok loc) (hpn : fs.locate (p.join ⟨n⟩) = .ok loc) :
    ¬Readable fs d root := by
  intro hreadable
  obtain ⟨x, hx, hxloc, hlength⟩ :=
    exists_visited_of_cycle hfs hreadable hq hp hns hgroup hn hqloc hpn (maxPath + 1)
  have := FileSystem.length_le_of_locate hxloc
  omega

/-- Links that lead back do no harm. A path across too many links leads nowhere, so a tree has only
so many levels, however it is walked, and a walk that may go deeper comes to the same end. If an
entry of a group is a directory that the walk has come through, that end is a fault. -/
theorem discover_ends_at_cycles (hfs : fs.WellFormed) (hdots : fs.NoDots) (d : DiscoverySettings)
    (root : Path) :
    (∀ p k loc, 0 ∉ p.bytes → p.bytes ≠ [] → p.bytes.length ≤ maxPath →
      fs.Leads k (fs.origin p) (FileSystem.steps p) loc →
      fs.locate p = if k ≤ maxLinks then .ok loc else .error .tooManyLinks) ∧
    Within fs ((maxLinks + 1) * (fs.height + 1)) root ∧
    (∀ depth, (maxLinks + 1) * (fs.height + 1) ≤ depth →
      walk fs d depth root rootName = walk fs d depthBound root rootName) ∧
    (∀ q p ns n loc, Visited fs d root q → Visited fs d q p → fs.list p = .ok ns → ¬Leaf d ns →
      n ∈ ns → fs.locate q = .ok loc → fs.locate (p.join ⟨n⟩) = .ok loc →
      ∃ e, discover fs d root = .error e) := by
  have hwithin := within_of_links hfs hdots root
  refine ⟨fun p k loc => FileSystem.locate_of_leads, hwithin,
    fun depth => hwithin.walk_depthBound hfs, ?_⟩
  intro q p ns n loc hq hp hns hgroup hn hqloc hpn
  cases hdiscover : discover fs d root with
  | error e => exact ⟨e, rfl⟩
  | ok m =>
    exact absurd (manifestOf_of_discover hfs hdiscover).1
      (not_readable_of_cycle hfs hq hp hns hgroup hn hqloc hpn)

/-- A directory in another one, with a link back. -/
def roundTree : FileSystem where
  entries := [
    (["t"].map encode, .directory),
    (["t", "a"].map encode, .directory),
    (["t", "a", "back"].map encode, .link (.ofString ".."))]

theorem discover_ends_at_cycles_roundTree : roundTree.WellFormed ∧ roundTree.NoDots ∧
    roundTree.locate (.ofString "/t/a/back") = roundTree.locate (.ofString "/t") ∧
    ∃ e, discover roundTree {} (.ofString "/t") = .error e := by
  have hfs : roundTree.WellFormed := ⟨by decide +kernel, by decide +kernel⟩
  have hdots : roundTree.NoDots := by unfold FileSystem.NoDots; decide +kernel
  have ht : roundTree.locate (.ofString "/t") = .ok (["t"].map encode) := by decide +kernel
  have hback : roundTree.locate ((Path.ofString "/t/a").join ⟨encode "back"⟩) =
      .ok (["t"].map encode) := by decide +kernel
  have hlist : roundTree.list (.ofString "/t") = .ok (["a"].map encode) := by decide +kernel
  have hvisited : Visited roundTree {} (.ofString "/t") ((Path.ofString "/t").join ⟨encode "a"⟩) :=
    .step .root ⟨_, hlist, by decide +kernel⟩ ⟨⟨_, hlist, by simp⟩, by decide +kernel⟩
  have hjoin : (Path.ofString "/t").join ⟨encode "a"⟩ = .ofString "/t/a" := by decide +kernel
  rw [hjoin] at hvisited
  refine ⟨hfs, hdots, by decide +kernel, ?_⟩
  exact (discover_ends_at_cycles hfs hdots {} (.ofString "/t")).2.2.2 (.ofString "/t")
    (.ofString "/t/a") (["back"].map encode) (encode "back") (["t"].map encode) .root hvisited
    (by decide +kernel) (by decide +kernel) (by simp) ht hback

end Discovery

end SuiteRunner
