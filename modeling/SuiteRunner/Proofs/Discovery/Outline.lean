import SuiteRunner.Discovery
import SuiteRunner.Proofs.FileSystem
import SuiteRunner.Proofs.Suite

/-! # What a directory tree holds

Which directories of a tree matter, what makes the tree readable, and which suites and test cases
stand for it. Nothing here depends on the order in which directories list their names, and a tree
has at most one outline. -/
namespace SuiteRunner.Discovery

open Text.Utf8 (encode decodeLossy)

/-- The names in a directory that make it a leaf. -/
def Leaf (d : DiscoverySettings) (ns : List Name) : Prop :=
  encode d.runtimeFile ∈ ns ∧ encode d.testFile ∈ ns

instance (d : DiscoverySettings) (ns : List Name) : Decidable (Leaf d ns) :=
  inferInstanceAs (Decidable (_ ∧ _))

section Tree

variable (fs : FileSystem) (d : DiscoverySettings)

def LeafAt (p : Path) : Prop := ∃ ns, fs.list p = .ok ns ∧ Leaf d ns

/-- A directory that can be listed and is no leaf. -/
def GroupAt (p : Path) : Prop := ∃ ns, fs.list p = .ok ns ∧ ¬Leaf d ns

/-- A name in a directory that leads into another one, through links if need be. -/
def Subdirectory (p : Path) (n : Name) : Prop :=
  (∃ ns, fs.list p = .ok ns ∧ n ∈ ns) ∧ fs.isDirectory (p.join ⟨n⟩) = .ok true

/-- The directories that matter: the first one and the sub-directories of those that are no
leaves. -/
inductive Visited (root : Path) : Path → Prop where
  | root : Visited root root
  | step {p : Path} {n : Name} (parent : Visited root p) (group : GroupAt fs d p)
      (child : Subdirectory fs p n) : Visited root (p.join ⟨n⟩)

/-- All directories that matter can be listed, and what the entries of the groups among them are can
be found out. -/
structure Readable (root : Path) : Prop where
  listed : ∀ p, Visited fs d root p → ∃ ns, fs.list p = .ok ns
  known : ∀ p ns, Visited fs d root p → fs.list p = .ok ns → ¬Leaf d ns →
    ∀ n ∈ ns, ∃ b, fs.isDirectory (p.join ⟨n⟩) = .ok b

/-! ## Outlines -/

/-- The names with a property, in byte order. -/
structure InOrder (ns : List Name) (P : Name → Prop) : Prop where
  sorted : ns.Pairwise (· < ·)
  mem_iff : ∀ n, n ∈ ns ↔ P n

structure IsCase (p : Path) (name : String) (profile : Profile) (c : TestCase) : Prop where
  name_eq : c.name = name ++ " " ++ profile.label
  files_eq : c.files = [p.join (.ofString d.runtimeFile), p.join (.ofString profile.file)]

/-- The test cases of a leaf, one for each profile whose file is there. -/
def CasesOf (p : Path) (name : String) (cs : List TestCase) : Prop :=
  ∃ ns, fs.list p = .ok ns ∧ Leaf d ns ∧
    List.Forall₂ (IsCase d p name) (d.profiles.filter fun profile => holds ns profile.file) cs

mutual
/-- The suite of a group: the test cases of the leaves in it, and the suites of the groups in it. -/
inductive SuiteOf : Path → String → Suite → Prop where
  | mk {p : Path} {name : String} {leaves groups : List Name} {cs : List (List TestCase)}
      {ss : List Suite} (group : GroupAt fs d p)
      (leaves_inOrder : InOrder leaves fun n => Subdirectory fs p n ∧ LeafAt fs d (p.join ⟨n⟩))
      (groups_inOrder : InOrder groups fun n => Subdirectory fs p n ∧ GroupAt fs d (p.join ⟨n⟩))
      (cases : List.Forall₂ (fun n => CasesOf fs d (p.join ⟨n⟩) (decodeLossy n)) leaves cs)
      (suites : SuitesOf p groups ss) : SuiteOf p name (.mk name cs.flatten ss)

inductive SuitesOf : Path → List Name → List Suite → Prop where
  | nil {p : Path} : SuitesOf p [] []
  | cons {p : Path} {n : Name} {ns : List Name} {s : Suite} {ss : List Suite}
      (first : SuiteOf (p.join ⟨n⟩) (decodeLossy n) s) (rest : SuitesOf p ns ss) :
      SuitesOf p (n :: ns) (s :: ss)
end

/-- The top suite holds the test cases of a leaf, or one suite for a group. -/
inductive TopOf (root : Path) : Suite → Prop where
  | leaf {cs : List TestCase} (cases : CasesOf fs d root "root" cs) : TopOf root (.mk "root" cs [])
  | group {s : Suite} (suite : SuiteOf fs d root "root" s) : TopOf root (.mk "root" [] [s])

structure ManifestOf (root : Path) (m : Manifest) : Prop where
  top : TopOf fs d root m.root
  total : m.total = ((m.root.preorder "root").map fun l => l.suite.cases.length).sum

end Tree

variable {fs : FileSystem} {d : DiscoverySettings} {p root : Path} {name : String} {n : Name}

theorem LeafAt.not_groupAt (h : LeafAt fs d p) : ¬GroupAt fs d p := by
  rintro ⟨ns, hns, hgroup⟩
  obtain ⟨ns', hns', hleaf⟩ := h
  obtain rfl := Except.ok.inj (hns.symm.trans hns')
  exact hgroup hleaf

theorem CasesOf.leafAt {cs : List TestCase} (h : CasesOf fs d p name cs) : LeafAt fs d p := by
  obtain ⟨ns, hns, hleaf, -⟩ := h
  exact ⟨ns, hns, hleaf⟩

theorem SuiteOf.groupAt {s : Suite} (h : SuiteOf fs d p name s) : GroupAt fs d p := by
  cases h
  assumption

/-! ## A tree has one outline -/

theorem InOrder.nodup {ns : List Name} {P : Name → Prop} (h : InOrder ns P) : ns.Nodup := by
  refine h.sorted.imp ?_
  rintro n _ hlt rfl
  exact List.lt_irrefl n hlt

theorem InOrder.unique {ns ns' : List Name} {P : Name → Prop} (h : InOrder ns P)
    (h' : InOrder ns' P) : ns = ns' := by
  have hperm : ns.Perm ns' := by
    rw [List.perm_ext_iff_of_nodup h.nodup h'.nodup]
    exact fun n => (h.mem_iff n).trans (h'.mem_iff n).symm
  refine hperm.eq_of_pairwise ?_ h.sorted h'.sorted
  exact fun a b _ _ hab hba => absurd hba (List.lt_asymm hab)

theorem InOrder.filter {ns : List Name} {P Q : Name → Prop} [DecidablePred Q] (h : InOrder ns P) :
    InOrder (ns.filter Q) fun n => P n ∧ Q n where
  sorted := h.sorted.filter _
  mem_iff n := by simp [h.mem_iff]

theorem IsCase.unique {profile : Profile} {c c' : TestCase} (h : IsCase d p name profile c)
    (h' : IsCase d p name profile c') : c = c' := by
  cases c
  cases c'
  rw [TestCase.mk.injEq]
  exact ⟨h.name_eq.trans h'.name_eq.symm, h.files_eq.trans h'.files_eq.symm⟩

theorem CasesOf.unique {cs cs' : List TestCase} (h : CasesOf fs d p name cs)
    (h' : CasesOf fs d p name cs') : cs = cs' := by
  obtain ⟨ns, hns, -, hcs⟩ := h
  obtain ⟨ns', hns', -, hcs'⟩ := h'
  obtain rfl := Except.ok.inj (hns.symm.trans hns')
  have hunique : Relator.RightUnique (IsCase d p name) := fun _ _ _ => IsCase.unique
  exact hunique.forall₂ hcs hcs'

mutual
theorem SuiteOf.unique : ∀ {p : Path} {name : String} {s s' : Suite},
    SuiteOf fs d p name s → SuiteOf fs d p name s' → s = s'
  | p, _, _, _, .mk _ hleaves hgroups hcs hss, .mk _ hleaves' hgroups' hcs' hss' => by
    have hunique : Relator.RightUnique fun (n : Name) =>
        CasesOf fs d (p.join ⟨n⟩) (decodeLossy n) := fun _ _ _ => CasesOf.unique
    obtain rfl := hleaves.unique hleaves'
    obtain rfl := hgroups.unique hgroups'
    rw [hunique.forall₂ hcs hcs', hss.unique hss']

theorem SuitesOf.unique : ∀ {p : Path} {ns : List Name} {ss ss' : List Suite},
    SuitesOf fs d p ns ss → SuitesOf fs d p ns ss' → ss = ss'
  | _, _, _, _, .nil, .nil => rfl
  | _, _, _, _, .cons hs hss, .cons hs' hss' => by rw [hs.unique hs', hss.unique hss']
end

theorem TopOf.unique {s s' : Suite} (h : TopOf fs d root s) (h' : TopOf fs d root s') : s = s' := by
  cases h with
  | leaf hcs =>
    cases h' with
    | leaf hcs' => rw [hcs.unique hcs']
    | group hs' => exact absurd hs'.groupAt hcs.leafAt.not_groupAt
  | group hs =>
    cases h' with
    | leaf hcs' => exact absurd hs.groupAt hcs'.leafAt.not_groupAt
    | group hs' => rw [hs.unique hs']

theorem ManifestOf.unique {m m' : Manifest} (h : ManifestOf fs d root m)
    (h' : ManifestOf fs d root m') : m = m' := by
  obtain ⟨s, k⟩ := m
  obtain ⟨s', k'⟩ := m'
  obtain rfl : s = s' := h.top.unique h'.top
  rw [Manifest.mk.injEq]
  exact ⟨rfl, h.total.trans h'.total.symm⟩

/-! ## Visits and readability, one directory at a time -/

theorem Visited.of_below (hgroup : GroupAt fs d p) (hchild : Subdirectory fs p n) {q : Path}
    (h : Visited fs d (p.join ⟨n⟩) q) : Visited fs d p q := by
  induction h with
  | root => exact .step .root hgroup hchild
  | step _ hgroup' hchild' ih => exact .step ih hgroup' hchild'

/-- A visit ends where it starts or goes through a sub-directory first. -/
theorem Visited.cases_first {q : Path} (h : Visited fs d p q) :
    q = p ∨ GroupAt fs d p ∧ ∃ n, Subdirectory fs p n ∧ Visited fs d (p.join ⟨n⟩) q := by
  induction h with
  | root => exact .inl rfl
  | step _ hgroup hchild ih =>
    right
    obtain rfl | ⟨hfirst, n, hn, hvisited⟩ := ih
    · exact ⟨hgroup, _, hchild, .root⟩
    · exact ⟨hfirst, n, hn, .step hvisited hgroup hchild⟩

theorem LeafAt.readable (h : LeafAt fs d p) : Readable fs d p := by
  have heq : ∀ q, Visited fs d p q → q = p := fun q hq =>
    hq.cases_first.resolve_right fun hbelow => h.not_groupAt hbelow.1
  obtain ⟨ns, hns, hleaf⟩ := h
  constructor
  · intro q hq
    exact ⟨ns, heq q hq ▸ hns⟩
  · intro q ms hq hms hgroup
    rw [heq q hq, hns] at hms
    exact absurd (Except.ok.inj hms ▸ hleaf) hgroup

theorem readable_iff {ns : List Name} (hns : fs.list p = .ok ns) (hgroup : ¬Leaf d ns) :
    Readable fs d p ↔ (∀ n ∈ ns, ∃ b, fs.isDirectory (p.join ⟨n⟩) = .ok b) ∧
      ∀ n, Subdirectory fs p n → Readable fs d (p.join ⟨n⟩) := by
  constructor
  · intro h
    refine ⟨h.known p ns .root hns hgroup, fun n hn => ?_⟩
    exact ⟨fun q hq => h.listed q (hq.of_below ⟨ns, hns, hgroup⟩ hn),
      fun q ms hq => h.known q ms (hq.of_below ⟨ns, hns, hgroup⟩ hn)⟩
  · rintro ⟨hknown, hbelow⟩
    constructor
    · intro q hq
      obtain rfl | ⟨-, n, hn, hq⟩ := hq.cases_first
      · exact ⟨ns, hns⟩
      · exact (hbelow n hn).listed q hq
    · intro q ms hq hms hgroup'
      obtain rfl | ⟨-, n, hn, hq⟩ := hq.cases_first
      · obtain rfl := Except.ok.inj (hns.symm.trans hms)
        exact hknown
      · exact (hbelow n hn).known q ms hq hms hgroup'

end SuiteRunner.Discovery
