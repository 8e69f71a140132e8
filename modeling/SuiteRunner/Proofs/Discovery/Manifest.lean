import SuiteRunner.Proofs.Discovery.Outline

/-! # Discovery finds what a tree holds

A walk succeeds just when the tree is readable, and then gives the outline of the tree. It looks at
nothing but the listings of the directories it visits and the entries of the groups among them. -/
namespace SuiteRunner.Discovery

open Text.Utf8 (encode decodeLossy)
open FileSystem (SameListing)

variable {fs fs' : FileSystem} {d : DiscoverySettings} {p root : Path} {name : String} {n : Name}
  {ns : List Name} {depth : Nat}

/-! ## Names in byte order -/

theorem sortNames_perm (ns : List Name) : (sortNames ns).Perm ns := List.mergeSort_perm ns _

@[simp] theorem mem_sortNames : n ∈ sortNames ns ↔ n ∈ ns := (sortNames_perm ns).mem_iff

theorem pairwise_sortNames (ns : List Name) : (sortNames ns).Pairwise (· ≤ ·) := by
  have htrans : ∀ a b c : Name, decide (a ≤ b) = true → decide (b ≤ c) = true →
      decide (a ≤ c) = true := by simpa using fun _ _ _ => List.le_trans
  have htotal : ∀ a b : Name, (decide (a ≤ b) || decide (b ≤ a)) = true := by
    simpa using List.le_total
  exact (List.pairwise_mergeSort htrans htotal ns).imp of_decide_eq_true

private theorem sortNames_congr {ns ns' : List Name} (h : ns'.Perm ns) :
    sortNames ns' = sortNames ns := by
  refine List.Perm.eq_of_pairwise ?_ (pairwise_sortNames ns') (pairwise_sortNames ns) ?_
  · exact fun a b _ _ => List.le_antisymm
  · exact ((sortNames_perm ns').trans h).trans (sortNames_perm ns).symm

private theorem inOrder_sortNames (h : ns.Nodup) : InOrder (sortNames ns) (· ∈ ns) where
  sorted := by
    have hnodup : (sortNames ns).Nodup := (sortNames_perm ns).nodup_iff.mpr h
    refine (pairwise_sortNames ns).imp₂ ?_ hnodup
    exact fun _ _ => Std.lt_of_le_of_ne
  mem_iff _ := mem_sortNames

@[simp] theorem holds_sortNames {file : String} : holds (sortNames ns) file = holds ns file := by
  simp [holds]

theorem isLeaf_sortNames : isLeaf d (sortNames ns) = true ↔ Leaf d ns := by
  simp [isLeaf, holds, Leaf]

theorem casesOf_leafCases (hns : fs.list p = .ok ns) (hleaf : Leaf d ns) :
    CasesOf fs d p name (leafCases d p name ns) := by
  refine ⟨ns, hns, hleaf, ?_⟩
  rw [leafCases, List.forall₂_map_right_iff]
  exact List.forall₂_same.mpr fun profile _ => ⟨rfl, rfl⟩

/-- What a directory adds to the suite around it stands for it. -/
def Describes (fs : FileSystem) (d : DiscoverySettings) (p : Path) (name : String) :
    Contribution → Prop
  | .cases cs => CasesOf fs d p name cs
  | .suite s => SuiteOf fs d p name s

/-! ## One directory -/

theorem sortedNames_of_list (h : fs.list p = .ok ns) : sortedNames fs p = .ok (sortNames ns) := by
  simp only [sortedNames, h]

theorem sortedNames_of_fault {e : FileSystem.Fault} (h : fs.list p = .error e) :
    sortedNames fs p = .error (.unreadable p e) := by
  simp only [sortedNames, h]

theorem walk_succ_of_fault {e : DiscoveryFault} (h : sortedNames fs p = .error e) :
    walk fs d (depth + 1) p name = .error e := by
  rw [walk, h]
  rfl

theorem walk_succ_of_leaf (hns : sortedNames fs p = .ok (sortNames ns)) (hleaf : Leaf d ns) :
    walk fs d (depth + 1) p name = .ok (.cases (leafCases d p name ns)) := by
  have hcond : isLeaf d (sortNames ns) = true := isLeaf_sortNames.mpr hleaf
  have hcases : leafCases d p name (sortNames ns) = leafCases d p name ns := by
    simp only [leafCases, holds_sortNames]
  simp [walk, hns, hcond, hcases, bind, Except.bind]

theorem walk_succ_of_group (hns : sortedNames fs p = .ok (sortNames ns)) (hgroup : ¬Leaf d ns) :
    walk fs d (depth + 1) p name = (do
      let children ← (sortNames ns).mapM (visitEntry fs (walk fs d depth) p)
      .ok (.suite (gather name children.flatten))) := by
  have hcond : ¬isLeaf d (sortNames ns) = true := fun h => hgroup (isLeaf_sortNames.mp h)
  simp [walk, hns, hcond, bind, Except.bind]

section Entries

variable {go : Path → String → Except DiscoveryFault Contribution}

theorem visitEntry_eq_ok_iff {cs : List Contribution} : visitEntry fs go p n = .ok cs ↔
    fs.isDirectory (p.join ⟨n⟩) = .ok false ∧ [] = cs ∨
    fs.isDirectory (p.join ⟨n⟩) = .ok true ∧
      ∃ c, go (p.join ⟨n⟩) (decodeLossy n) = .ok c ∧ [c] = cs := by
  rw [visitEntry]
  cases fs.isDirectory (p.join ⟨n⟩) with
  | error e => simp
  | ok b =>
    cases b <;> simp [bind_eq_ok_iff]

private theorem forall₂_of_mapM_visitEntry {children : List (List Contribution)}
    (h : ns.mapM (visitEntry fs go p) = .ok children) :
    (∀ n ∈ ns, ∃ b, fs.isDirectory (p.join ⟨n⟩) = .ok b) ∧
      List.Forall₂ (fun n c => go (p.join ⟨n⟩) (decodeLossy n) = .ok c)
        (ns.filter fun n => fs.isDirectory (p.join ⟨n⟩) = .ok true) children.flatten := by
  rw [mapM_eq_ok_iff] at h
  induction h with
  | nil => simp
  | cons hfirst _ ih =>
    obtain ⟨hknown, hrest⟩ := ih
    rw [List.forall_mem_cons, List.flatten_cons]
    obtain ⟨hdir, rfl⟩ | ⟨hdir, c, hgo, rfl⟩ := visitEntry_eq_ok_iff.mp hfirst
    · rw [List.filter_cons_of_neg (by simp [hdir])]
      exact ⟨⟨⟨_, hdir⟩, hknown⟩, hrest⟩
    · rw [List.filter_cons_of_pos (by simp [hdir])]
      exact ⟨⟨⟨_, hdir⟩, hknown⟩, .cons hgo hrest⟩

private theorem exists_mapM_visitEntry (hknown : ∀ n ∈ ns, ∃ b, fs.isDirectory (p.join ⟨n⟩) = .ok b)
    (hgo : ∀ n ∈ ns, fs.isDirectory (p.join ⟨n⟩) = .ok true →
      ∃ c, go (p.join ⟨n⟩) (decodeLossy n) = .ok c) :
    ∃ children, ns.mapM (visitEntry fs go p) = .ok children := by
  simp only [mapM_eq_ok_iff]
  refine exists_forall₂ fun n hn => ?_
  obtain ⟨b, hb⟩ := hknown n hn
  cases b with
  | false => exact ⟨[], visitEntry_eq_ok_iff.mpr (.inl ⟨hb, rfl⟩)⟩
  | true =>
    obtain ⟨c, hc⟩ := hgo n hn hb
    exact ⟨[c], visitEntry_eq_ok_iff.mpr (.inr ⟨hb, c, hc, rfl⟩)⟩

end Entries

/-! ## Whole trees -/

open Classical in
/-- Sub-directories fall into leaves and groups, each kept in order. -/
theorem exists_split {dirs : List Name} {cs : List Contribution}
    (h : List.Forall₂ (fun n => Describes fs d (p.join ⟨n⟩) (decodeLossy n)) dirs cs) :
    (∃ css, List.Forall₂ (fun n => CasesOf fs d (p.join ⟨n⟩) (decodeLossy n))
        (dirs.filter fun n => LeafAt fs d (p.join ⟨n⟩)) css ∧
      css.flatten = cs.flatMap Contribution.casesOf) ∧
    SuitesOf fs d p (dirs.filter fun n => GroupAt fs d (p.join ⟨n⟩))
      (cs.flatMap Contribution.suitesOf) := by
  induction h with
  | nil => exact ⟨⟨[], .nil, rfl⟩, .nil⟩
  | @cons n c dirs cs hfirst _ ih =>
    obtain ⟨⟨css, hcss, hflat⟩, hss⟩ := ih
    cases c with
    | cases cs =>
      have hleaf : LeafAt fs d (p.join ⟨n⟩) := CasesOf.leafAt hfirst
      rw [List.filter_cons_of_pos (by simpa using hleaf),
        List.filter_cons_of_neg (by simpa using hleaf.not_groupAt)]
      exact ⟨⟨cs :: css, .cons hfirst hcss, by simp [hflat, Contribution.casesOf]⟩, hss⟩
    | suite s =>
      have hgroup : GroupAt fs d (p.join ⟨n⟩) := SuiteOf.groupAt hfirst
      have hleaf : ¬LeafAt fs d (p.join ⟨n⟩) := fun hleaf => hleaf.not_groupAt hgroup
      rw [List.filter_cons_of_neg (by simpa using hleaf),
        List.filter_cons_of_pos (by simpa using hgroup)]
      exact ⟨⟨css, hcss, by simp [hflat, Contribution.casesOf]⟩, .cons hfirst hss⟩

theorem suiteOf_gather {dirs : List Name} {cs : List Contribution} (hgroup : GroupAt fs d p)
    (hdirs : InOrder dirs (Subdirectory fs p))
    (h : List.Forall₂ (fun n => Describes fs d (p.join ⟨n⟩) (decodeLossy n)) dirs cs) :
    SuiteOf fs d p name (gather name cs) := by
  classical
  obtain ⟨⟨css, hcss, hflat⟩, hss⟩ := exists_split h
  rw [gather, ← hflat]
  exact .mk hgroup hdirs.filter hdirs.filter hcss hss

private theorem inOrder_subdirectories (hfs : fs.WellFormed) (hns : fs.list p = .ok ns) :
    InOrder ((sortNames ns).filter fun n => fs.isDirectory (p.join ⟨n⟩) = .ok true)
      (Subdirectory fs p) where
  sorted := (inOrder_sortNames (hfs.nodup hns)).sorted.filter _
  mem_iff n := by simp [Subdirectory, hns]

/-- What a walk gives stands for the tree, which is readable then. -/
theorem describes_of_walk (hfs : fs.WellFormed) {c : Contribution}
    (h : walk fs d depth p name = .ok c) : Readable fs d p ∧ Describes fs d p name c := by
  induction depth generalizing p name c with
  | zero => cases h
  | succ depth ih =>
    cases hns : fs.list p with
    | error e =>
      rw [walk_succ_of_fault (sortedNames_of_fault hns)] at h
      cases h
    | ok ns =>
      have hsorted := sortedNames_of_list hns
      by_cases hleaf : Leaf d ns
      · rw [walk_succ_of_leaf hsorted hleaf] at h
        obtain rfl := Except.ok.inj h
        exact ⟨LeafAt.readable ⟨ns, hns, hleaf⟩, casesOf_leafCases hns hleaf⟩
      · rw [walk_succ_of_group hsorted hleaf, bind_eq_ok_iff] at h
        obtain ⟨children, hchildren, hc⟩ := h
        obtain rfl := Except.ok.inj hc
        obtain ⟨hknown, hwalks⟩ := forall₂_of_mapM_visitEntry hchildren
        have hdirs := inOrder_subdirectories hfs hns
        obtain ⟨hreadable, hdescribed⟩ := (List.forall₂_and_left _ _).mp (hwalks.imp fun n c => ih)
        constructor
        · rw [readable_iff hns hleaf]
          exact ⟨fun n hn => hknown n (mem_sortNames.mpr hn),
            fun n hn => hreadable n ((hdirs.mem_iff n).mpr hn)⟩
        · exact suiteOf_gather ⟨ns, hns, hleaf⟩ hdirs hdescribed

/-- A walk through a readable tree gets to its end if it may go deep enough. -/
theorem exists_walk (hfs : fs.WellFormed) (h : Readable fs d p)
    (hdepth : FileSystem.maxPath < p.bytes.length + depth) :
    ∃ c, walk fs d depth p name = .ok c := by
  -- Each level adds a name to the path, and a path that can be listed has at most `maxPath` bytes.
  induction depth generalizing p name with
  | zero =>
    obtain ⟨ns, hns⟩ := h.listed p .root
    have := FileSystem.length_le_of_list hns
    omega
  | succ depth ih =>
    obtain ⟨ns, hns⟩ := h.listed p .root
    have hsorted := sortedNames_of_list hns
    by_cases hleaf : Leaf d ns
    · exact ⟨_, walk_succ_of_leaf hsorted hleaf⟩
    · obtain ⟨hknown, hbelow⟩ := (readable_iff hns hleaf).mp h
      simp only [walk_succ_of_group hsorted hleaf, bind_eq_ok_iff]
      have hgo : ∀ n ∈ sortNames ns, fs.isDirectory (p.join ⟨n⟩) = .ok true →
          ∃ c, walk fs d depth (p.join ⟨n⟩) (decodeLossy n) = .ok c := by
        intro n hn hdir
        have hproper := hfs.isProper hns (mem_sortNames.mp hn)
        have hlonger := Path.length_lt_join (p := p) hproper.nonempty hproper.noSlash
        exact ih (hbelow n ⟨⟨ns, hns, mem_sortNames.mp hn⟩, hdir⟩) (by omega)
      obtain ⟨children, hchildren⟩ :=
        exists_mapM_visitEntry (fun n hn => hknown n (mem_sortNames.mp hn)) hgo
      exact ⟨_, children, hchildren, rfl⟩

/-! ## What a walk looks at -/

/-- Two file systems give the same answers about all directories that matter: the same names, in
whatever order, and for groups the same kinds of entries. -/
structure SameView (fs fs' : FileSystem) (d : DiscoverySettings) (root : Path) : Prop where
  listing : ∀ p, Visited fs d root p → SameListing (fs.list p) (fs'.list p)
  kinds : ∀ p ns, Visited fs d root p → fs.list p = .ok ns → ¬Leaf d ns →
    ∀ n ∈ ns, fs'.isDirectory (p.join ⟨n⟩) = fs.isDirectory (p.join ⟨n⟩)

theorem SameView.below (h : SameView fs fs' d p) (hgroup : GroupAt fs d p)
    (hchild : Subdirectory fs p n) : SameView fs fs' d (p.join ⟨n⟩) where
  listing q hq := h.listing q (hq.of_below hgroup hchild)
  kinds q ns hq := h.kinds q ns (hq.of_below hgroup hchild)

private theorem sameView_of_perm (hfs : fs.WellFormed) {es : List (Location × FileSystem.Entry)}
    (h : es.Perm fs.entries) (d : DiscoverySettings) (root : Path) :
    SameView fs { fs with entries := es } d root where
  listing p _ := FileSystem.list_perm hfs h p
  kinds p _ _ _ _ n _ := FileSystem.isDirectory_perm hfs h (p.join ⟨n⟩)

private theorem sortedNames_congr (h : SameListing (fs.list p) (fs'.list p)) :
    sortedNames fs' p = sortedNames fs p := by
  rw [sortedNames, sortedNames]
  generalize fs.list p = answer, fs'.list p = answer' at h
  cases h with
  | fault e => rfl
  | names hperm => simp only [sortNames_congr hperm]

theorem visitEntry_congr {go go' : Path → String → Except DiscoveryFault Contribution}
    (hkind : fs'.isDirectory (p.join ⟨n⟩) = fs.isDirectory (p.join ⟨n⟩))
    (hgo : fs.isDirectory (p.join ⟨n⟩) = .ok true →
      go' (p.join ⟨n⟩) (decodeLossy n) = go (p.join ⟨n⟩) (decodeLossy n)) :
    visitEntry fs' go' p n = visitEntry fs go p n := by
  simp only [visitEntry, hkind]
  split
  · rfl
  · rfl
  · rename_i hdir
    rw [hgo hdir]

theorem walk_congr (h : SameView fs fs' d p) :
    walk fs' d depth p name = walk fs d depth p name := by
  induction depth generalizing p name with
  | zero => rfl
  | succ depth ih =>
    have hsame := sortedNames_congr (h.listing p .root)
    cases hns : fs.list p with
    | error e =>
      have hfault := sortedNames_of_fault hns
      rw [walk_succ_of_fault hfault, walk_succ_of_fault (hsame.trans hfault)]
    | ok ns =>
      have hsorted := sortedNames_of_list hns
      have hsorted' := hsame.trans hsorted
      by_cases hleaf : Leaf d ns
      · rw [walk_succ_of_leaf hsorted hleaf, walk_succ_of_leaf hsorted' hleaf]
      · have hentries : (sortNames ns).mapM (visitEntry fs' (walk fs' d depth) p) =
            (sortNames ns).mapM (visitEntry fs (walk fs d depth) p) := by
          refine mapM_congr fun n hn => ?_
          have hmem : n ∈ ns := mem_sortNames.mp hn
          refine visitEntry_congr (h.kinds p ns .root hns hleaf n hmem) fun hdir => ?_
          exact ih (h.below ⟨ns, hns, hleaf⟩ ⟨⟨ns, hns, hmem⟩, hdir⟩)
        rw [walk_succ_of_group hsorted hleaf, walk_succ_of_group hsorted' hleaf, hentries]

/-! ## Manifests -/

/-- The top suite, given what the first directory adds to it. -/
def top : Contribution → Suite
  | .cases cs => .mk "root" cs []
  | .suite s => .mk "root" [] [s]

theorem discover_eq_ok_iff {m : Manifest} : discover fs d root = .ok m ↔
    ∃ c, walk fs d depthBound root "root" = .ok c ∧ ⟨top c, (top c).testCount⟩ = m := by
  rw [discover, bind_eq_ok_iff]
  refine exists_congr fun c => and_congr_right fun _ => ?_
  cases c <;> simp [top, rootName]

private theorem manifestOf_top {c : Contribution} (h : Describes fs d root "root" c) :
    ManifestOf fs d root ⟨top c, (top c).testCount⟩ where
  top := by
    cases c with
    | cases cs => exact .leaf h
    | suite s => exact .group h
  total := (top c).testCount_eq_sum "root"

theorem manifestOf_of_discover (hfs : fs.WellFormed) {m : Manifest}
    (h : discover fs d root = .ok m) : Readable fs d root ∧ ManifestOf fs d root m := by
  obtain ⟨c, hwalk, rfl⟩ := discover_eq_ok_iff.mp h
  obtain ⟨hreadable, hdescribes⟩ := describes_of_walk hfs hwalk
  exact ⟨hreadable, manifestOf_top hdescribes⟩

private theorem exists_discover (hfs : fs.WellFormed) (h : Readable fs d root) :
    ∃ m, discover fs d root = .ok m := by
  have hdepth : FileSystem.maxPath < root.bytes.length + depthBound := by
    simp only [depthBound]
    omega
  obtain ⟨c, hwalk⟩ := exists_walk hfs h hdepth
  exact ⟨_, discover_eq_ok_iff.mpr ⟨c, hwalk, rfl⟩⟩

private theorem discover_congr (h : SameView fs fs' d root) :
    discover fs' d root = discover fs d root := by
  rw [discover, discover, walk_congr h]

/-- Discovery gives a manifest just when the tree is readable. The manifest is the outline of the
tree with the number of its test cases. Neither the order in which directories list their names nor
anything below a leaf has a part in it. -/
theorem discover_eq_outline (hfs : fs.WellFormed) (d : DiscoverySettings) (root : Path) :
    ((∃ m, discover fs d root = .ok m) ↔ Readable fs d root) ∧
    (∀ m, discover fs d root = .ok m ↔ Readable fs d root ∧ ManifestOf fs d root m) ∧
    (∀ fs', SameView fs fs' d root → discover fs' d root = discover fs d root) ∧
    (∀ es : List (Location × FileSystem.Entry), es.Perm fs.entries →
      discover { fs with entries := es } d root = discover fs d root) := by
  refine ⟨⟨?_, exists_discover hfs⟩, fun m => ⟨manifestOf_of_discover hfs, ?_⟩,
    fun fs' => discover_congr, fun es hperm => discover_congr (sameView_of_perm hfs hperm d root)⟩
  · rintro ⟨m, hm⟩
    exact (manifestOf_of_discover hfs hm).1
  · rintro ⟨hreadable, hmanifest⟩
    obtain ⟨m', hm'⟩ := exists_discover hfs hreadable
    rw [hm', (manifestOf_of_discover hfs hm').2.unique hmanifest]

/-- A directory with a file in it and a link to a leaf elsewhere. The leaf holds a link to
nothing. -/
def linkedTree : FileSystem where
  entries := [
    (["z"].map encode, .directory),
    (["z", "test.js"].map encode, .file []),
    (["z", "lost"].map encode, .link (.ofString "nowhere")),
    (["z", "runtime.js"].map encode, .file []),
    (["t"].map encode, .directory),
    (["t", "l"].map encode, .link (.ofString "../z")),
    (["t", "README"].map encode, .file [])]

private theorem wellFormed_linkedTree :
    linkedTree.WellFormed := ⟨by decide +kernel, by decide +kernel⟩

theorem list_linkedTree : linkedTree.list (.ofString "/t") = .ok (["l", "README"].map encode) := by
  decide +kernel

private theorem subdirectory_linkedTree_iff :
    Subdirectory linkedTree (.ofString "/t") n ↔ n = encode "l" := by
  constructor
  · rintro ⟨⟨ns, hns, hn⟩, hdir⟩
    obtain rfl := Except.ok.inj (list_linkedTree.symm.trans hns)
    simp only [List.map_cons, List.map_nil, List.mem_cons, List.not_mem_nil, or_false] at hn
    rcases hn with rfl | rfl
    · rfl
    · revert hdir
      decide +kernel
  · rintro rfl
    exact ⟨⟨_, list_linkedTree, by simp⟩, by decide +kernel⟩

theorem discover_eq_outline_linkedTree : linkedTree.WellFormed ∧
    discover linkedTree {} (.ofString "/t") = .ok ⟨.mk "root" [] [.mk "root"
      [⟨"l simple", [.ofString "/t/l/runtime.js", .ofString "/t/l/test.js"]⟩] []], 1⟩ := by
  have hgroup : ¬Leaf {} (["l", "README"].map encode) := by decide +kernel
  have hjoin : (Path.ofString "/t").join ⟨encode "l"⟩ = .ofString "/t/l" := by decide +kernel
  have hcases : CasesOf linkedTree {} (.ofString "/t/l") "l"
      [⟨"l simple", [.ofString "/t/l/runtime.js", .ofString "/t/l/test.js"]⟩] := by
    let ns : List Name := ["test.js", "lost", "runtime.js"].map encode
    have hns : linkedTree.list (.ofString "/t/l") = .ok ns := by decide +kernel
    have hleaf : leafCases {} (.ofString "/t/l") "l" ns =
        [⟨"l simple", [.ofString "/t/l/runtime.js", .ofString "/t/l/test.js"]⟩] := by decide +kernel
    exact hleaf ▸ casesOf_leafCases hns (by decide +kernel)
  have hreadable : Readable linkedTree {} (.ofString "/t") := by
    refine (readable_iff list_linkedTree hgroup).mpr ⟨by decide +kernel, fun n hn => ?_⟩
    rw [subdirectory_linkedTree_iff.mp hn, hjoin]
    exact hcases.leafAt.readable
  have hdirs : InOrder [encode "l"] (Subdirectory linkedTree (.ofString "/t")) :=
    ⟨List.pairwise_singleton _ _, fun n => by rw [List.mem_singleton, subdirectory_linkedTree_iff]⟩
  have hname : decodeLossy (encode "l") = "l" := by decide +kernel
  have hsuite : SuiteOf linkedTree {} (.ofString "/t") "root" (gather "root" [.cases _]) :=
    suiteOf_gather ⟨_, list_linkedTree, hgroup⟩ hdirs
      (.cons (by rw [hjoin, hname]; exact hcases) .nil)
  exact ⟨wellFormed_linkedTree, ((discover_eq_outline wellFormed_linkedTree {} _).2.1 _).mpr
    ⟨hreadable, .group hsuite, by decide +kernel⟩⟩

end SuiteRunner.Discovery
