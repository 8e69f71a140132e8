import SuiteRunner.Proofs.FileSystem

/-! # Where paths lead

A way through the file system is gone name by name. Each name is a step to another location or a
link, whose names then come first. `Leads` says how many links a way crosses and where it ends, both
of which a path determines, and a path is resolved as long as the links are not too many. -/
namespace SuiteRunner

namespace FileSystem

/-- What a name in a directory comes to: a location, or a link with the place where its names
start. -/
inductive Move where
  | step (loc : Location)
  | link (start : Location) (names : List Name)

def move? (fs : FileSystem) (loc : Location) (n : Name) : Option Move :=
  if !fs.isDirectoryAt loc then none
  else if n = [] then some (.step loc)
  else if fs.forbidden.contains (loc, .search) then none
  else if n = Path.here then some (.step loc)
  else if n = Path.up then some (.step loc.dropLast)
  else if maxName < n.length then none
  else
    match fs.entry? (loc ++ [n]) with
    | some (.link target) => some (.link (if target.isAbsolute then [] else loc) (steps target))
    | some _ => some (.step (loc ++ [n]))
    | none => none

/-- Some names lead from one location to another and cross a number of links. -/
inductive Leads (fs : FileSystem) : Nat → Location → List Name → Location → Prop where
  | done {loc : Location} : Leads fs 0 loc [] loc
  | go {loc loc' l : Location} {n : Name} {ns : List Name} {k : Nat}
      (move : fs.move? loc n = some (.step loc')) (rest : Leads fs k loc' ns l) :
      Leads fs k loc (n :: ns) l
  | follow {loc start l : Location} {n : Name} {ns names : List Name} {k : Nat}
      (move : fs.move? loc n = some (.link start names)) (rest : Leads fs k start (names ++ ns) l) :
      Leads fs (k + 1) loc (n :: ns) l

variable {fs : FileSystem} {loc loc' l l' : Location} {n : Name} {ns ms : List Name} {k k' : Nat}

/-! ## Ways -/

/-- A way crosses so many links, and ends in one place. -/
theorem Leads.unique (h : Leads fs k loc ns l) (h' : Leads fs k' loc ns l') : k = k' ∧ l = l' := by
  induction h generalizing k' with
  | done =>
    cases h'
    exact ⟨rfl, rfl⟩
  | go hmove _ ih =>
    cases h' with
    | go hmove' hrest' =>
      cases hmove.symm.trans hmove'
      exact ih hrest'
    | follow hmove' _ => cases hmove.symm.trans hmove'
  | follow hmove _ ih =>
    cases h' with
    | go hmove' _ => cases hmove.symm.trans hmove'
    | follow hmove' hrest' =>
      cases hmove.symm.trans hmove'
      obtain ⟨rfl, rfl⟩ := ih hrest'
      exact ⟨rfl, rfl⟩

/-- A way can be gone in two parts. -/
theorem leads_append_iff : Leads fs k loc (ns ++ ms) l ↔
    ∃ k₁ k₂ mid, k = k₁ + k₂ ∧ Leads fs k₁ loc ns mid ∧ Leads fs k₂ mid ms l := by
  constructor
  · intro h
    generalize hall : ns ++ ms = all at h
    induction h generalizing ns with
    | done =>
      obtain ⟨rfl, rfl⟩ := List.append_eq_nil_iff.mp hall
      exact ⟨0, 0, _, rfl, .done, .done⟩
    | @go loc loc' l n rest k hmove hrest ih =>
      cases ns with
      | nil =>
        obtain rfl : ms = n :: rest := hall
        exact ⟨0, k, loc, (Nat.zero_add k).symm, .done, .go hmove hrest⟩
      | cons n' ns =>
        obtain ⟨rfl, hall'⟩ := List.cons.inj hall
        obtain ⟨k₁, k₂, mid, hk, hfirst, hsecond⟩ := ih hall'
        exact ⟨k₁, k₂, mid, hk, .go hmove hfirst, hsecond⟩
    | @follow loc start l n rest names k hmove hrest ih =>
      cases ns with
      | nil =>
        obtain rfl : ms = n :: rest := hall
        exact ⟨0, k + 1, loc, (Nat.zero_add _).symm, .done, .follow hmove hrest⟩
      | cons n' ns =>
        obtain ⟨rfl, rfl⟩ := List.cons.inj hall
        obtain ⟨k₁, k₂, mid, hk, hfirst, hsecond⟩ := ih (List.append_assoc names ns ms)
        exact ⟨k₁ + 1, k₂, mid, by omega, .follow hmove hfirst, hsecond⟩
  · rintro ⟨k₁, k₂, mid, rfl, hfirst, hsecond⟩
    induction hfirst with
    | done => exact (Nat.zero_add k₂).symm ▸ hsecond
    | go hmove _ ih => exact .go hmove (ih hsecond)
    | follow hmove _ ih =>
      rw [Nat.add_right_comm]
      exact .follow hmove (List.append_assoc _ _ _ ▸ ih hsecond)

private theorem move?_nil (h : fs.isDirectoryAt loc = true) :
    fs.move? loc [] = some (.step loc) := by
  simp [move?, h]

private theorem isDirectoryAt_of_move? {m : Move} (h : fs.move? loc n = some m) :
    fs.isDirectoryAt loc = true := by
  cases hdir : fs.isDirectoryAt loc with
  | true => rfl
  | false => simp [move?, hdir] at h

theorem Leads.isDirectoryAt (h : Leads fs k loc (n :: ns) l) : fs.isDirectoryAt loc = true := by
  cases h with
  | go hmove _ => exact isDirectoryAt_of_move? hmove
  | follow hmove _ => exact isDirectoryAt_of_move? hmove

/-! ## Resolving -/

variable {links : Nat}

theorem descend_of_move? {follow : Location → List Name → Except Fault Location} {m : Move}
    (h : fs.move? loc n = some m) (ns : List Name) :
    fs.descend .existing follow loc (n :: ns) =
      match m with
      | .step loc' => fs.descend .existing follow loc' ns
      | .link start names => follow start (names ++ ns) := by
  simp only [move?, List.contains_iff_mem] at h
  simp only [descend, reduceCtorEq, false_and, if_false]
  split_ifs at h ⊢
  · obtain rfl := Option.some.inj h
    rfl
  · obtain rfl := Option.some.inj h
    rfl
  · obtain rfl := Option.some.inj h
    rfl
  · generalize fs.entry? (loc ++ [n]) = entry at h ⊢
    cases entry with
    | none => cases h
    | some e =>
      cases e <;> (obtain rfl := Option.some.inj h; rfl)

private theorem exists_fault_of_move? {follow : Location → List Name → Except Fault Location}
    (h : fs.move? loc n = none) (ns : List Name) :
    ∃ e, fs.descend .existing follow loc (n :: ns) = .error e := by
  simp only [move?, List.contains_iff_mem] at h
  simp only [descend, reduceCtorEq, false_and, if_false]
  split_ifs at h ⊢
  · exact ⟨_, rfl⟩
  · exact ⟨_, rfl⟩
  · exact ⟨_, rfl⟩
  · generalize fs.entry? (loc ++ [n]) = entry at h ⊢
    cases entry with
    | none => exact ⟨_, rfl⟩
    | some e => cases e <;> cases h

private theorem walk_of_step (h : fs.move? loc n = some (.step loc')) (links : Nat)
    (ns : List Name) : fs.walk .existing links loc (n :: ns) = fs.walk .existing links loc' ns := by
  cases links <;> exact descend_of_move? h ns

/-- A way is gone to its end unless it crosses more links than are allowed. -/
theorem Leads.walk (h : Leads fs k loc ns l) (links : Nat) :
    fs.walk .existing links loc ns = if k ≤ links then .ok l else .error .tooManyLinks := by
  induction h generalizing links with
  | done => cases links <;> rfl
  | go hmove _ ih => rw [walk_of_step hmove, ih]
  | follow hmove _ ih =>
    cases links with
    | zero => exact descend_of_move? hmove _
    | succ links =>
      rw [FileSystem.walk, descend_of_move? hmove]
      simp only [ih, Nat.add_le_add_iff_right]

private theorem exists_leads_of_descend {follow : Location → List Name → Except Fault Location}
    (hfollow : ∀ loc ns, follow loc ns = .ok l → ∃ k, Leads fs k loc ns l)
    (h : fs.descend .existing follow loc ns = .ok l) : ∃ k, Leads fs k loc ns l := by
  induction ns generalizing loc with
  | nil =>
    obtain rfl := Except.ok.inj h
    exact ⟨0, .done⟩
  | cons n ns ih =>
    cases hmove : fs.move? loc n with
    | none =>
      obtain ⟨e, he⟩ : ∃ e, fs.descend .existing follow loc (n :: ns) = .error e :=
        exists_fault_of_move? hmove ns
      cases h.symm.trans he
    | some m =>
      rw [descend_of_move? hmove] at h
      cases m with
      | step loc' =>
        obtain ⟨k, hk⟩ := ih h
        exact ⟨k, .go hmove hk⟩
      | link start names =>
        obtain ⟨k, hk⟩ := hfollow _ _ h
        exact ⟨k + 1, .follow hmove hk⟩

private theorem exists_leads_of_walk (h : fs.walk .existing links loc ns = .ok l) :
    ∃ k, Leads fs k loc ns l := by
  induction links generalizing loc ns with
  | zero =>
    refine exists_leads_of_descend (fun loc ns hfollow => ?_) h
    cases hfollow
  | succ links ih => exact exists_leads_of_descend (fun _ _ => ih) h

theorem walk_eq_ok_iff :
    fs.walk .existing links loc ns = .ok l ↔ ∃ k ≤ links, Leads fs k loc ns l := by
  constructor
  · intro h
    obtain ⟨k, hk⟩ := exists_leads_of_walk h
    rw [hk.walk] at h
    split_ifs at h with hle
    exact ⟨k, hle, hk⟩
  · rintro ⟨k, hle, hk⟩
    rw [hk.walk, if_pos hle]

/-- Where a path starts. -/
def origin (fs : FileSystem) (p : Path) : Location := if p.isAbsolute then [] else fs.cwd

/-- A path leads to a location across some links, and can be resolved. -/
structure Resolves (fs : FileSystem) (p : Path) (k : Nat) (l : Location) : Prop where
  noZero : 0 ∉ p.bytes
  nonempty : p.bytes ≠ []
  length_le : p.bytes.length ≤ maxPath
  links_le : k ≤ maxLinks
  leads : Leads fs k (fs.origin p) (steps p) l

variable {p q : Path}

theorem locate_eq_ok_iff : fs.locate p = .ok l ↔ ∃ k, Resolves fs p k l := by
  simp only [locate, resolve, guard_eq_ok_iff, walk_eq_ok_iff, List.isEmpty_iff, Nat.not_lt]
  constructor
  · rintro ⟨hzero, hempty, hlength, k, hk, hleads⟩
    exact ⟨k, hzero, hempty, hlength, hk, hleads⟩
  · rintro ⟨k, hzero, hempty, hlength, hk, hleads⟩
    exact ⟨hzero, hempty, hlength, k, hk, hleads⟩

/-- A path that can be taken at all leads to its end, unless it crosses too many links. -/
theorem locate_of_leads (hzero : 0 ∉ p.bytes) (hempty : p.bytes ≠ [])
    (hlength : p.bytes.length ≤ maxPath) (h : Leads fs k (fs.origin p) (steps p) l) :
    fs.locate p = if k ≤ maxLinks then .ok l else .error .tooManyLinks := by
  rw [locate, resolve, if_neg hzero, if_neg (by simpa using hempty),
    if_neg (Nat.not_lt.mpr hlength)]
  exact h.walk maxLinks

private theorem endsInSlash_append (hn : IsProper n) (bytes : List Text.Utf8.Byte) :
    Path.endsInSlash ⟨bytes ++ n⟩ = false := by
  rw [Path.endsInSlash, decide_eq_false_iff_not, List.getLast?_append_of_ne_nil _ hn.nonempty]
  exact fun hlast => hn.noSlash (List.mem_of_getLast? hlast)

private theorem steps_append_slash (bytes : List Text.Utf8.Byte) (hn : IsProper n) :
    steps ⟨bytes ++ Path.slash :: n⟩ = (Path.splitFrom [] bytes).filter (· ≠ []) ++ [n] := by
  have hend : Path.endsInSlash ⟨bytes ++ Path.slash :: n⟩ = false := by
    simpa using endsInSlash_append hn (bytes ++ [Path.slash])
  have hname : Path.splitFrom [] n = [n] := Path.splitFrom_of_slash_notMem hn.noSlash []
  rw [steps, hend, Path.split, Path.splitFrom_append_slash, hname]
  simp [hn.nonempty]

/-- With a name behind it a path goes on from where it led before, a slash at its end or not. -/
theorem steps_join (hp : p.bytes ≠ []) (hn : IsProper n) :
    ∃ body, steps p = body ++ (if p.endsInSlash then [[]] else []) ∧
      steps (p.join ⟨n⟩) = body ++ [n] := by
  refine ⟨p.split.filter (· ≠ []), rfl, ?_⟩
  rw [Path.join, Path.isAbsolute_of_slash_notMem hn.noSlash]
  simp only [Bool.false_eq_true, if_false, List.isEmpty_iff, hp, Bool.or_eq_true, false_or]
  split_ifs with hslash
  · obtain ⟨front, hfront⟩ := List.getLast?_eq_some_iff.mp (of_decide_eq_true hslash)
    have hsplit : p.split = Path.splitFrom [] front ++ [[]] := by
      rw [Path.split, hfront, Path.splitFrom_append_slash]
      rfl
    rw [hfront, List.append_assoc, List.singleton_append, steps_append_slash front hn, hsplit]
    simp
  · exact steps_append_slash p.bytes hn

theorem origin_join (hp : p.bytes ≠ []) (hn : IsProper n) :
    fs.origin (p.join ⟨n⟩) = fs.origin p := by
  have hhead : (p.join ⟨n⟩).bytes.head? = p.bytes.head? := by
    rw [Path.join, Path.isAbsolute_of_slash_notMem hn.noSlash]
    obtain ⟨b, bytes, hbytes⟩ := List.exists_cons_of_ne_nil hp
    simp only [Bool.false_eq_true, if_false]
    split_ifs <;> simp [hbytes]
  rw [origin, origin, Path.isAbsolute, Path.isAbsolute, hhead]

theorem Resolves.exists_body (h : Resolves fs p k l) (hn : IsProper n) :
    ∃ body, Leads fs k (fs.origin p) body l ∧ steps (p.join ⟨n⟩) = body ++ [n] := by
  obtain ⟨body, hsteps, hjoin⟩ := steps_join h.nonempty hn
  have hleads := h.leads
  rw [hsteps, leads_append_iff] at hleads
  obtain ⟨k₁, k₂, mid, rfl, hfirst, hlast⟩ := hleads
  have hsame : k₂ = 0 ∧ l = mid := by
    split_ifs at hlast
    · exact hlast.unique (.go (move?_nil hlast.isDirectoryAt) .done)
    · exact hlast.unique .done
  obtain ⟨rfl, rfl⟩ := hsame
  exact ⟨body, hfirst, hjoin⟩

/-- A name in a directory leads on from where the path of the directory has led. -/
theorem Resolves.join (h : Resolves fs p k l) (hn : IsProper n)
    (h' : Resolves fs (p.join ⟨n⟩) k' l') : ∃ k₂, k' = k + k₂ ∧ Leads fs k₂ l [n] l' := by
  obtain ⟨body, hbody, hjoin⟩ := h.exists_body hn
  have hleads := h'.leads
  rw [hjoin, origin_join h.nonempty hn, leads_append_iff] at hleads
  obtain ⟨k₁, k₂, mid, rfl, hfirst, hlast⟩ := hleads
  obtain ⟨rfl, rfl⟩ := hfirst.unique hbody
  exact ⟨k₂, rfl, hlast⟩

private theorem eq_concat_of_move? (hn : IsProper n) (hhere : n ≠ Path.here) (hup : n ≠ Path.up)
    (h : fs.move? l n = some (.step l')) : l' = l ++ [n] := by
  simp only [move?, hn.nonempty, hhere, hup, if_false] at h
  split_ifs at h
  split at h
  · cases h
  · exact (Move.step.inj (Option.some.inj h)).symm
  · cases h

/-- An entry of a directory is on the next level or behind a link. -/
theorem Leads.cases_entry (hn : IsProper n) (hhere : n ≠ Path.here) (hup : n ≠ Path.up)
    (h : Leads fs k l [n] l') : k = 0 ∧ l' = l ++ [n] ∨ 0 < k := by
  cases h with
  | go hmove hrest =>
    cases hrest
    exact .inl ⟨rfl, eq_concat_of_move? hn hhere hup hmove⟩
  | follow _ _ => exact .inr (Nat.succ_pos _)

theorem locate_unique (h : Resolves fs p k l) (h' : fs.locate p = .ok l') : l' = l := by
  obtain ⟨k', hk'⟩ := locate_eq_ok_iff.mp h'
  exact (hk'.leads.unique h.leads).2

/-- Where an entry of a directory is depends only on where the directory is. -/
theorem locate_join_unique (hn : IsProper n) {loc : Location} (hp : fs.locate p = .ok loc)
    (hq : fs.locate q = .ok loc) (hpn : fs.locate (p.join ⟨n⟩) = .ok l)
    (hqn : fs.locate (q.join ⟨n⟩) = .ok l') : l = l' := by
  obtain ⟨k, hk⟩ := locate_eq_ok_iff.mp hp
  obtain ⟨k', hk'⟩ := locate_eq_ok_iff.mp hq
  obtain ⟨j, hj⟩ := locate_eq_ok_iff.mp hpn
  obtain ⟨j', hj'⟩ := locate_eq_ok_iff.mp hqn
  obtain ⟨i, -, hi⟩ := hk.join hn hj
  obtain ⟨i', -, hi'⟩ := hk'.join hn hj'
  exact (hi.unique hi').2

theorem list_congr (h : fs.locate p = fs.locate q) : fs.list p = fs.list q := by
  rw [list, list, h]

theorem isDirectory_eq_ok_iff {b : Bool} :
    fs.isDirectory p = .ok b ↔ ∃ loc, fs.locate p = .ok loc ∧ fs.isDirectoryAt loc = b := by
  rw [isDirectory, bind_eq_ok_iff]
  simp only [Except.ok.injEq]

end FileSystem

end SuiteRunner
