import SuiteRunner.Config.Validation
import SuiteRunner.Proofs.Discovery.Manifest
import SuiteRunner.Proofs.Dispatch.Course
import SuiteRunner.Proofs.Text.Utf8

/-! # Tests are told apart by their paths

A test is reported under the path of its suite, a slash and its name. No two tests of a manifest are
reported alike if the names in the tree are text and the labels of the profiles hold neither a slash
nor a space: the slashes then separate the directories, and the last space the label. -/
namespace SuiteRunner

/-! ## One sign between two texts -/

/-- The first of some equal signs shows where it is. -/
theorem append_cons_inj_first {α : Type} {a b x y : List α} {c : α} (ha : c ∉ a) (hb : c ∉ b)
    (h : a ++ c :: x = b ++ c :: y) : a = b ∧ x = y := by
  induction a generalizing b with
  | nil =>
    cases b with
    | nil => exact ⟨rfl, List.tail_eq_of_cons_eq h⟩
    | cons d b => exact absurd (List.head_eq_of_cons_eq h ▸ List.mem_cons_self) hb
  | cons d a ih =>
    cases b with
    | nil => exact absurd (List.head_eq_of_cons_eq h ▸ List.mem_cons_self) ha
    | cons e b =>
      obtain ⟨rfl, hrest⟩ := List.cons.inj h
      rw [List.mem_cons, not_or] at ha hb
      obtain ⟨rfl, rfl⟩ := ih ha.2 hb.2 hrest
      exact ⟨rfl, rfl⟩

/-- So does the last one. -/
theorem append_cons_inj_last {α : Type} {a b x y : List α} {c : α} (hx : c ∉ x) (hy : c ∉ y)
    (h : a ++ c :: x = b ++ c :: y) : a = b ∧ x = y := by
  have hreverse : x.reverse ++ c :: a.reverse = y.reverse ++ c :: b.reverse := by
    simpa using congrArg List.reverse h
  obtain ⟨hxy, hab⟩ := append_cons_inj_first (by simpa using hx) (by simpa using hy) hreverse
  exact ⟨List.reverse_injective hab, List.reverse_injective hxy⟩

private theorem eq_of_append_slash {a b x y : String} (ha : '/' ∉ a.toList) (hb : '/' ∉ b.toList)
    (h : a ++ "/" ++ x = b ++ "/" ++ y) : a = b := by
  have hlist : a.toList ++ '/' :: x.toList = b.toList ++ '/' :: y.toList := by
    simpa using congrArg String.toList h
  exact String.toList_inj.mp (append_cons_inj_first ha hb hlist).1

private theorem eq_of_append_space {a b x y : String} (hx : ' ' ∉ x.toList) (hy : ' ' ∉ y.toList)
    (h : a ++ " " ++ x = b ++ " " ++ y) : a = b := by
  have hlist : a.toList ++ ' ' :: x.toList = b.toList ++ ' ' :: y.toList := by
    simpa using congrArg String.toList h
  exact String.toList_inj.mp (append_cons_inj_last hx hy hlist).1

/-! ## Trees -/

namespace Suite

/-- What the tests of some suites are reported as. -/
def testPaths (suites : List Located) : List String :=
  suites.flatMap fun l => l.suite.cases.map fun c => l.path ++ "/" ++ c.name

/-- In every suite of a tree the cases have different names without a slash, and so have the suites
below it. All cases have a property. -/
inductive Distinct (P : TestCase → Prop) : Suite → Prop where
  | mk {name : String} {cases : List TestCase} {suites : List Suite}
      (plain_cases : ∀ c ∈ cases, P c ∧ '/' ∉ c.name.toList)
      (distinct_cases : (cases.map (·.name)).Nodup)
      (plain_suites : ∀ s ∈ suites, '/' ∉ s.name.toList)
      (distinct_suites : (suites.map (·.name)).Nodup)
      (below_suites : ∀ s ∈ suites, Distinct P s) : Distinct P (.mk name cases suites)

variable {P : TestCase → Prop} {s : Suite}

theorem preorder_mk (path name : String) (cases : List TestCase) (suites : List Suite) :
    preorder path (.mk name cases suites) =
      ⟨path, .mk name cases suites⟩ :: suites.flatMap fun s => s.preorder (childPath path s) := by
  rw [preorder, preorderAll_eq, upcoming, List.flatMap_map]
  rfl

private theorem testPaths_mk (path name : String) (cases : List TestCase) (suites : List Suite) :
    testPaths (preorder path (.mk name cases suites)) =
      cases.map (fun c => path ++ "/" ++ c.name) ++
        suites.flatMap fun s => testPaths (s.preorder (childPath path s)) := by
  rw [preorder_mk, testPaths, List.flatMap_cons, List.flatMap_assoc]
  rfl

/-- Below a suite all paths begin with its own. -/
theorem exists_of_mem_testPaths {path t : String} (h : t ∈ testPaths (s.preorder path)) :
    ∃ tail, t = path ++ "/" ++ tail := by
  rw [preorder_eq_trails, testPaths, List.mem_flatMap] at h
  obtain ⟨l, hl, ht⟩ := h
  obtain ⟨trail, -, rfl⟩ := List.mem_map.mp hl
  obtain ⟨c, -, rfl⟩ := List.mem_map.mp ht
  cases trail with
  | nil => exact ⟨c.name, by simp [trailPath]⟩
  | cons s trail =>
    exact ⟨s.name ++ trailPath trail ++ "/" ++ c.name, by
      simp only [trailPath_cons, String.append_assoc]⟩

private theorem Distinct.forall_cases (h : Distinct P s) (path : String) :
    ∀ l ∈ s.preorder path, ∀ c ∈ l.suite.cases, P c := by
  induction h generalizing path with
  | mk hcases _ _ _ _ ih =>
    rw [preorder_mk, List.forall_mem_cons]
    refine ⟨fun c hc => (hcases c hc).1, fun l hl => ?_⟩
    obtain ⟨s, hs, hl⟩ := List.mem_flatMap.mp hl
    exact ih s hs _ l hl

theorem Distinct.nodup (h : Distinct P s) (path : String) :
    (testPaths (s.preorder path)).Nodup := by
  induction h generalizing path with
  | mk hcases hdistinct hsuites hdistinct' _ ih =>
    have hcancel {x y : String} : path ++ "/" ++ x = path ++ "/" ++ y → x = y :=
      (String.append_right_inj _).mp
    have hbelow {s : Suite} {t : String} (h : t ∈ testPaths (s.preorder (childPath path s))) :
        ∃ tail, t = path ++ "/" ++ (s.name ++ "/" ++ tail) := by
      obtain ⟨tail, rfl⟩ := exists_of_mem_testPaths h
      exact ⟨tail, by simp only [childPath, String.append_assoc]⟩
    rw [testPaths_mk, List.nodup_append]
    refine ⟨?_, List.nodup_flatMap.mpr ⟨fun s hs => ih s hs _, ?_⟩, ?_⟩
    · rw [List.Nodup, List.pairwise_map] at hdistinct ⊢
      exact hdistinct.imp fun hne heq => hne (hcancel heq)
    -- Two suites: the part of a path up to the next slash is the name of one of them.
    · refine (List.pairwise_map.mp hdistinct').imp_of_mem fun {s s'} hs hs' hne t ht ht' => ?_
      obtain ⟨tail, rfl⟩ := hbelow ht
      obtain ⟨tail', htail⟩ := hbelow ht'
      exact hne (eq_of_append_slash (hsuites s hs) (hsuites s' hs') (hcancel htail))
    -- A case and a suite: only the path of the latter goes on with a slash.
    · rintro t ht _ ht' rfl
      obtain ⟨c, hc, rfl⟩ := List.mem_map.mp ht
      obtain ⟨s, -, ht'⟩ := List.mem_flatMap.mp ht'
      obtain ⟨tail, htail⟩ := hbelow ht'
      refine (hcases c hc).2 ?_
      rw [hcancel htail]
      simp

end Suite

/-! ## Names and settings -/

private theorem slash_mem_encode {s : String} (h : '/' ∈ s.toList) :
    Path.slash ∈ Text.Utf8.encode s :=
  List.mem_flatMap.mpr ⟨'/', h, by decide⟩

/-- Profiles that pass have different labels, and none has the runtime file for its file. -/
theorem checkProfiles_eq_ok {runtimeFile : String} {index : Nat} {before : List String}
    {profiles : List Profile} (h : checkProfiles runtimeFile index before profiles = .ok ()) :
    (profiles.map (·.label)).Nodup ∧
      ∀ p ∈ profiles, p.label ∉ before ∧ p.file ≠ runtimeFile := by
  induction profiles generalizing index before with
  | nil => simp
  | cons p ps ih =>
    rw [checkProfiles, bind_eq_ok_iff] at h
    obtain ⟨⟨⟩, hp, hps⟩ := h
    obtain ⟨hnodup, hrest⟩ := ih hps
    simp only [Profile.check, guard_eq_ok_iff] at hp
    rw [List.map_cons, List.nodup_cons, List.forall_mem_cons]
    refine ⟨⟨fun hmem => ?_, hnodup⟩, ⟨hp.2.2.2.1, hp.2.2.1⟩, fun q hq => ?_⟩
    · obtain ⟨q, hq, hlabel⟩ := List.mem_map.mp hmem
      exact (hrest q hq).1 (by simp [hlabel])
    · exact ⟨fun hmem => (hrest q hq).1 (List.mem_append_left _ hmem), (hrest q hq).2⟩

namespace Discovery

open Text.Utf8 (encode decodeLossy)

/-- Settings that pass, with labels in which nothing can be taken for a separator. -/
structure PlainSettings (d : DiscoverySettings) : Prop where
  accepted : d.check = .ok ()
  noSpace : ∀ profile ∈ d.profiles, ' ' ∉ profile.label.toList
  noSlash : ∀ profile ∈ d.profiles, '/' ∉ profile.label.toList

theorem PlainSettings.profiles {d : DiscoverySettings} (h : PlainSettings d) :
    (d.profiles.map (·.label)).Nodup ∧ ∀ p ∈ d.profiles, p.file ≠ d.runtimeFile := by
  have haccepted := h.accepted
  simp only [DiscoverySettings.check, guard_eq_ok_iff] at haccepted
  obtain ⟨hnodup, hfiles⟩ := checkProfiles_eq_ok haccepted.2.2.2.2
  exact ⟨hnodup, fun p hp => (hfiles p hp).2⟩

/-- The names of the directories that matter are text. -/
def TextNames (fs : FileSystem) (d : DiscoverySettings) (root : Path) : Prop :=
  ∀ p n, Visited fs d root p → Subdirectory fs p n → n.toByteArray.IsValidUTF8

/-- A test case runs the runtime file and the file of a profile, both in one leaf. -/
def RunsIn (fs : FileSystem) (d : DiscoverySettings) (root : Path) (c : TestCase) : Prop :=
  ∃ dir profile, Visited fs d root dir ∧ LeafAt fs d dir ∧ profile ∈ d.profiles ∧
    c.files = [dir.join (.ofString d.runtimeFile), dir.join (.ofString profile.file)] ∧
    dir.join (.ofString d.runtimeFile) ≠ dir.join (.ofString profile.file)

variable {fs : FileSystem} {d : DiscoverySettings} {p root : Path} {name : String} {n : Name}

/-! ## Leaves -/

theorem CasesOf.runsIn (hfs : fs.WellFormed) (hd : PlainSettings d) (hp : Visited fs d root p)
    {cs : List TestCase} (h : CasesOf fs d p name cs) : ∀ c ∈ cs, RunsIn fs d root c := by
  intro c hc
  obtain ⟨ns, hns, hleaf, hcs⟩ := h
  obtain ⟨profile, hprofile, hcase⟩ := exists_mem_of_forall₂ hcs hc
  obtain ⟨hmem, hholds⟩ := List.mem_filter.mp hprofile
  refine ⟨p, profile, hp, ⟨ns, hns, hleaf⟩, hmem, hcase.files_eq, fun heq => ?_⟩
  have hruntime := (hfs.isProper hns hleaf.1).noSlash
  have hfile := (hfs.isProper hns (of_decide_eq_true hholds)).noSlash
  have hsame := Text.Utf8.encode_injective (Path.join_inj hruntime hfile heq)
  exact hd.profiles.2 profile hmem hsame.symm

theorem CasesOf.exists_name {cs : List TestCase} (h : CasesOf fs d p name cs) {c : TestCase}
    (hc : c ∈ cs) : ∃ profile ∈ d.profiles, c.name = name ++ " " ++ profile.label := by
  obtain ⟨ns, -, -, hcs⟩ := h
  obtain ⟨profile, hprofile, hcase⟩ := exists_mem_of_forall₂ hcs hc
  exact ⟨profile, (List.mem_filter.mp hprofile).1, hcase.name_eq⟩

theorem CasesOf.slash_notMem (hd : PlainSettings d) (hname : '/' ∉ name.toList)
    {cs : List TestCase} (h : CasesOf fs d p name cs) : ∀ c ∈ cs, '/' ∉ c.name.toList := by
  intro c hc
  obtain ⟨profile, hprofile, heq⟩ := h.exists_name hc
  rw [heq]
  simp [hname, hd.noSlash profile hprofile]

theorem CasesOf.nodup (hd : PlainSettings d) {cs : List TestCase} (h : CasesOf fs d p name cs) :
    (cs.map (·.name)).Nodup := by
  obtain ⟨ns, -, -, hcs⟩ := h
  have hnames (ps : List Profile) (cs : List TestCase)
      (h : List.Forall₂ (IsCase d p name) ps cs) :
      cs.map (·.name) = ps.map fun profile => name ++ " " ++ profile.label := by
    induction h with
    | nil => rfl
    | cons hcase _ ih => rw [List.map_cons, List.map_cons, ih, hcase.name_eq]
  have hlabels := List.pairwise_map.mp hd.profiles.1
  rw [hnames _ _ hcs, List.Nodup, List.pairwise_map]
  exact (hlabels.filter _).imp fun hne heq => hne ((String.append_right_inj _).mp heq)

/-! ## Groups -/

private theorem slash_notMem_decodeLossy (hvalid : n.toByteArray.IsValidUTF8)
    (hproper : FileSystem.IsProper n) : '/' ∉ (decodeLossy n).toList := by
  intro hmem
  apply hproper.noSlash
  rw [← Text.Utf8.encode_decodeLossy hvalid]
  exact slash_mem_encode hmem

theorem decodeLossy_inj {m n : Name} (hm : m.toByteArray.IsValidUTF8)
    (hn : n.toByteArray.IsValidUTF8) (h : decodeLossy m = decodeLossy n) : m = n := by
  rw [← Text.Utf8.encode_decodeLossy hm, h, Text.Utf8.encode_decodeLossy hn]

theorem Subdirectory.isProper (hfs : fs.WellFormed) (h : Subdirectory fs p n) :
    FileSystem.IsProper n := by
  obtain ⟨⟨ns, hns, hn⟩, -⟩ := h
  exact hfs.isProper hns hn

/-- The cases of different leaves have different names, as their labels end them at a space. -/
theorem nodup_cases (hd : PlainSettings d) {leaves : List Name} {css : List (List TestCase)}
    (hvalid : ∀ n ∈ leaves, n.toByteArray.IsValidUTF8) (hnodup : leaves.Nodup)
    (h : List.Forall₂ (fun n => CasesOf fs d (p.join ⟨n⟩) (decodeLossy n)) leaves css) :
    (css.flatten.map (·.name)).Nodup := by
  induction h with
  | nil => simp
  | @cons n cs leaves css hcs hrest ih =>
    rw [List.forall_mem_cons] at hvalid
    rw [List.nodup_cons] at hnodup
    rw [List.flatten_cons, List.map_append, List.nodup_append]
    refine ⟨hcs.nodup hd, ih hvalid.2 hnodup.2, ?_⟩
    rintro t ht _ ht' rfl
    obtain ⟨c, hc, rfl⟩ := List.mem_map.mp ht
    obtain ⟨c', hc', heq⟩ := List.mem_map.mp ht'
    obtain ⟨cs', hcs', hmem⟩ := List.mem_flatten.mp hc'
    obtain ⟨n', hn', hcases⟩ := exists_mem_of_forall₂ hrest hcs'
    obtain ⟨profile, hprofile, hname⟩ := hcs.exists_name hc
    obtain ⟨profile', hprofile', hname'⟩ := hcases.exists_name hmem
    rw [hname, hname'] at heq
    have hsame := eq_of_append_space (hd.noSpace _ hprofile') (hd.noSpace _ hprofile) heq
    exact hnodup.1 (decodeLossy_inj (hvalid.2 n' hn') hvalid.1 hsame ▸ hn')

theorem SuiteOf.name_eq {s : Suite} (h : SuiteOf fs d p name s) : s.name = name := by
  cases h
  rfl

theorem SuitesOf.names {ns : List Name} {ss : List Suite} (h : SuitesOf fs d p ns ss) :
    ss.map (·.name) = ns.map decodeLossy := by
  induction ss generalizing ns with
  | nil => cases h; rfl
  | cons s ss ih =>
    cases h with
    | cons hfirst hrest => rw [List.map_cons, List.map_cons, ih hrest, hfirst.name_eq]

mutual
theorem SuiteOf.distinct (hfs : fs.WellFormed) (hd : PlainSettings d)
    (hnames : TextNames fs d root) : ∀ {p : Path} {name : String} {s : Suite},
    Visited fs d root p → SuiteOf fs d p name s → s.Distinct (RunsIn fs d root)
  | p, _, _, hp, .mk hgroup hleaves hgroups hcs hss => by
    have hvalid (n : Name) (hn : Subdirectory fs p n) : n.toByteArray.IsValidUTF8 :=
      hnames p n hp hn
    have hplain (n : Name) (hn : Subdirectory fs p n) : '/' ∉ (decodeLossy n).toList :=
      slash_notMem_decodeLossy (hvalid n hn) (hn.isProper hfs)
    have hleaf n hn := ((hleaves.mem_iff n).mp hn).1
    have hsub n hn := ((hgroups.mem_iff n).mp hn).1
    refine .mk (fun c hc => ?_)
      (nodup_cases hd (fun n hn => hvalid n (hleaf n hn)) hleaves.nodup hcs) (fun s hs => ?_) ?_
      (hss.distinct hfs hd hnames hp hgroup hsub)
    · obtain ⟨cs, hmem, hc⟩ := List.mem_flatten.mp hc
      obtain ⟨n, hn, hcases⟩ := exists_mem_of_forall₂ hcs hmem
      exact ⟨hcases.runsIn hfs hd (.step hp hgroup (hleaf n hn)) c hc,
        hcases.slash_notMem hd (hplain n (hleaf n hn)) c hc⟩
    · have hname : s.name ∈ List.map decodeLossy _ := hss.names ▸ List.mem_map_of_mem hs
      obtain ⟨n, hn, heq⟩ := List.mem_map.mp hname
      exact heq ▸ hplain n (hsub n hn)
    · rw [hss.names]
      refine hgroups.nodup.map_on fun m hm n hn heq => ?_
      exact decodeLossy_inj (hvalid m (hsub m hm)) (hvalid n (hsub n hn)) heq

theorem SuitesOf.distinct (hfs : fs.WellFormed) (hd : PlainSettings d)
    (hnames : TextNames fs d root) : ∀ {p : Path} {ns : List Name} {ss : List Suite},
    Visited fs d root p → GroupAt fs d p → (∀ n ∈ ns, Subdirectory fs p n) →
    SuitesOf fs d p ns ss → ∀ s ∈ ss, s.Distinct (RunsIn fs d root)
  | _, _, _, _, _, _, .nil => by simp
  | _, _, _, hp, hgroup, hsub, .cons hfirst hrest => by
    rw [List.forall_mem_cons] at hsub ⊢
    exact ⟨hfirst.distinct hfs hd hnames (.step hp hgroup hsub.1),
      hrest.distinct hfs hd hnames hp hgroup hsub.2⟩
end

theorem TopOf.distinct (hfs : fs.WellFormed) (hd : PlainSettings d) (hnames : TextNames fs d root)
    {s : Suite} (h : TopOf fs d root s) : s.Distinct (RunsIn fs d root) := by
  have hroot : '/' ∉ "root".toList := by decide
  cases h with
  | leaf hcs =>
    exact .mk (fun c hc => ⟨hcs.runsIn hfs hd .root c hc, hcs.slash_notMem hd hroot c hc⟩)
      (hcs.nodup hd) nofun List.nodup_nil nofun
  | group hs =>
    refine .mk nofun List.nodup_nil ?_ (List.nodup_singleton _) ?_
    · rw [List.forall_mem_singleton, hs.name_eq]
      exact hroot
    · rw [List.forall_mem_singleton]
      exact hs.distinct hfs hd hnames .root

end Discovery

/-! ## What a run reports -/

namespace Dispatch

open Suite (Located testPaths)
open Wire (Verdict)

private theorem path_of_failureOf {path absent : String} {c : TestCase} {v : Option Verdict}
    {f : Failure} (h : failureOf path absent c v = some f) : f.path = path ++ "/" ++ c.name := by
  unfold failureOf at h
  split at h
  · cases h
  · rw [← Option.some.inj h]
  · rw [← Option.some.inj h]

private theorem suiteFailures_sublist (path absent : String) (cases : List TestCase)
    (results : Nat → Option Verdict) :
    ((suiteFailures path absent cases results).map (·.path)).Sublist
      (cases.map fun c => path ++ "/" ++ c.name) := by
  have hnumbered (numbered : List (TestCase × Nat)) :
      ((numbered.filterMap fun c => failureOf path absent c.1 (results c.2)).map (·.path)).Sublist
        (numbered.map fun c => path ++ "/" ++ c.1.name) := by
    induction numbered with
    | nil => exact .slnil
    | cons c numbered ih =>
      cases hc : failureOf path absent c.1 (results c.2) with
      | none =>
        simp only [List.filterMap_cons, hc]
        exact ih.cons _
      | some f =>
        simp only [List.filterMap_cons, hc, List.map_cons, path_of_failureOf hc]
        exact ih.cons_cons _
  have hcases : cases.zipIdx.map (fun c => path ++ "/" ++ c.1.name) =
      cases.map fun c => path ++ "/" ++ c.name := by
    conv_rhs => rw [← List.zipIdx_map_fst 0 cases, List.map_map]
    rfl
  exact hcases ▸ hnumbered cases.zipIdx

private theorem failuresFrom_sublist (cwd : Path) (absent : String)
    (verdicts : Nat → Nat → Option Verdict) (id : Nat) (suites : List Located) :
    ((failuresFrom cwd absent verdicts id suites).map (·.path)).Sublist (testPaths suites) := by
  induction suites generalizing id with
  | nil => exact .slnil
  | cons l rest ih =>
    rw [testPaths, List.flatMap_cons, failuresFrom]
    split
    · exact (ih id).trans (List.sublist_append_right _ _)
    · split
      · rw [List.map_append, List.map_map]
        exact .append (.refl _) (ih id)
      · rw [List.map_append]
        exact .append (suiteFailures_sublist _ _ _ _) (ih (id + 1))

namespace Dispatcher

theorem Stands.exists_rest {d₀ d : Dispatcher} {plan done : List Located} {heard : Hearing}
    {phase : Phase} (h : Stands d₀ d plan heard done phase) : ∃ rest, plan = done ++ rest := by
  cases phase with
  | ready => exact ⟨_, h.2.1⟩
  | sending b frame =>
    obtain ⟨l, tests, hcarries, -⟩ := h
    exact ⟨_, hcarries.order⟩
  | awaiting b =>
    obtain ⟨l, tests, hcarries, -⟩ := h
    exact ⟨_, hcarries.order⟩
  | ended e =>
    cases e with
    | completed => exact ⟨[], h.2.1.symm ▸ (List.append_nil done).symm⟩
    | aborted fault =>
      obtain ⟨-, l, rest, horder, -⟩ := h
      exact ⟨_, horder⟩
    | unencodable batch => exact h.elim
    | broken assertion => exact h.elim

/-- At any point of a run the failures are reported under some of the paths, each at most once. -/
theorem failures_sublist {d : Dispatcher} (hq : d.pending.Quiet) (hnone : d.summary.failures = [])
    (now : Nat) (root : Suite) (inputs : List (Nat × Input)) :
    ((d.run now root inputs).summary.failures.map (·.path)).Sublist
      (testPaths (root.preorder "")) := by
  obtain ⟨done, hbehind, hstands⟩ := course_run hq now root inputs
  obtain ⟨rest, hplan⟩ := hstands.exists_rest
  rw [hbehind.failures, hnone, List.nil_append, hplan, testPaths, List.flatMap_append]
  exact (failuresFrom_sublist _ _ _ _ done).trans (List.sublist_append_left _ _)

end Dispatcher

end Dispatch

namespace Discovery

open Suite (testPaths)
open Text.Utf8 (encode decodeLossy)

/-- No two tests of a manifest are reported under one path, and so no two failures of a run. Each
test has two files, the runtime file and that of its profile in the same directory. -/
theorem testPaths_identify {fs : FileSystem} {d : DiscoverySettings} {root : Path} {m : Manifest}
    (hfs : fs.WellFormed) (hd : PlainSettings d) (hnames : TextNames fs d root)
    (h : discover fs d root = .ok m) :
    (testPaths (m.root.preorder "")).Nodup ∧
    (∀ l ∈ m.root.preorder "", ∀ c ∈ l.suite.cases, RunsIn fs d root c) ∧
    ∀ (r : Dispatch.Dispatcher) (now : Nat) (inputs : List (Nat × Dispatch.Input)),
      r.pending.Quiet → r.summary.failures = [] →
      ((r.run now m.root inputs).summary.failures.map (·.path)).Sublist
          (testPaths (m.root.preorder "")) ∧
        ((r.run now m.root inputs).summary.failures.map (·.path)).Nodup := by
  have hdistinct := (manifestOf_of_discover hfs h).2.top.distinct hfs hd hnames
  have hnodup := hdistinct.nodup ""
  refine ⟨hnodup, hdistinct.forall_cases "", fun r now inputs hq hnone => ?_⟩
  have hsublist := Dispatch.Dispatcher.failures_sublist hq hnone now m.root inputs
  exact ⟨hsublist, hsublist.nodup hnodup⟩

/-- A leaf with a space in its name and two profiles. -/
def spacedTree : FileSystem where
  entries := [
    (["t"].map encode, .directory),
    (["t", "a b"].map encode, .directory),
    (["t", "a b", "test.js"].map encode, .file []),
    (["t", "a b", "test-min.js"].map encode, .file []),
    (["t", "a b", "runtime.js"].map encode, .file [])]

def spacedCases : List TestCase :=
  [⟨"a b simple", [.ofString "/t/a b/runtime.js", .ofString "/t/a b/test.js"]⟩,
    ⟨"a b minified", [.ofString "/t/a b/runtime.js", .ofString "/t/a b/test-min.js"]⟩]

private theorem discover_spacedTree : discover spacedTree {} (.ofString "/t") =
    .ok ⟨.mk "root" [] [.mk "root" spacedCases []], 2⟩ := by
  have hlist : spacedTree.list (.ofString "/t") = .ok [encode "a b"] := by decide +kernel
  have hsort : sortNames [encode "a b"] = [encode "a b"] := List.mergeSort_singleton _
  have hleaf : spacedTree.list (.ofString "/t/a b") =
      .ok (["test.js", "test-min.js", "runtime.js"].map encode) := by decide +kernel
  have hcases : leafCases {} (.ofString "/t/a b") "a b"
      (["test.js", "test-min.js", "runtime.js"].map encode) = spacedCases := by decide +kernel
  have hbelow : walk spacedTree {} FileSystem.maxPath (.ofString "/t/a b") "a b" =
      .ok (.cases spacedCases) := by
    rw [← hcases]
    exact walk_succ_of_leaf (sortedNames_of_list hleaf) (by decide +kernel)
  have hjoin : (Path.ofString "/t").join ⟨encode "a b"⟩ = .ofString "/t/a b" := by decide +kernel
  have hname : decodeLossy (encode "a b") = "a b" := by decide +kernel
  have hentry : visitEntry spacedTree (walk spacedTree {} FileSystem.maxPath) (.ofString "/t")
      (encode "a b") = .ok [.cases spacedCases] := by
    rw [visitEntry_eq_ok_iff, hjoin, hname]
    exact .inr ⟨by decide +kernel, _, hbelow, rfl⟩
  have hwalk : walk spacedTree {} depthBound (.ofString "/t") "root" =
      .ok (.suite (.mk "root" spacedCases [])) := by
    rw [depthBound, walk_succ_of_group (sortedNames_of_list hlist) (by decide +kernel), hsort,
      List.mapM_cons, hentry, List.mapM_nil]
    rfl
  exact discover_eq_ok_iff.mpr ⟨_, hwalk, rfl⟩

/-- The settings that are taken without any others are plain. -/
theorem plainSettings_default : PlainSettings {} :=
  ⟨by decide +kernel, by decide +kernel, by decide +kernel⟩

private theorem textNames_of_entries {fs : FileSystem}
    (h : ∀ e ∈ fs.entries, ∀ n ∈ e.1, n.toByteArray.IsValidUTF8) (d : DiscoverySettings)
    (root : Path) : TextNames fs d root := by
  rintro p n - ⟨⟨ns, hns, hn⟩, -⟩
  obtain ⟨loc, -, -, -, rfl⟩ := FileSystem.list_eq_ok_iff.mp hns
  obtain ⟨e, he, hname⟩ := List.mem_filterMap.mp hn
  apply h e he
  simp [FileSystem.childName?_eq_some_iff.mp hname]

theorem testPaths_identify_spacedTree : spacedTree.WellFormed ∧
    testPaths (Suite.preorder "" (.mk "root" [] [.mk "root" spacedCases []])) =
      ["/root/a b simple", "/root/a b minified"] ∧
    (testPaths (Suite.preorder "" (.mk "root" [] [.mk "root" spacedCases []]))).Nodup := by
  have hfs : spacedTree.WellFormed := ⟨by decide +kernel, by decide +kernel⟩
  have hdecoded : ∀ e ∈ spacedTree.entries, ∀ n ∈ e.1, (Text.Utf8.decode? n).isSome = true := by
    decide +kernel
  have hnames : TextNames spacedTree {} (.ofString "/t") := textNames_of_entries
    (fun e he n hn => Text.Utf8.decode?_isSome_iff.mp (hdecoded e he n hn)) {} _
  exact ⟨hfs, by decide +kernel,
    (testPaths_identify hfs plainSettings_default hnames discover_spacedTree).1⟩

end Discovery

end SuiteRunner
