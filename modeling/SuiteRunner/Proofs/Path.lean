import SuiteRunner.Path

/-! # Paths, their names and their absolute forms -/
namespace SuiteRunner.Path

/-! ## Names -/

theorem isAbsolute_of_slash_notMem {n : Name} (h : slash ∉ n) : isAbsolute ⟨n⟩ = false := by
  simp only [isAbsolute, decide_eq_false_iff_not]
  intro hhead
  exact h (List.mem_of_mem_head? hhead)

theorem length_lt_join {p : Path} {n : Name} (hn : n ≠ []) (hslash : slash ∉ n) :
    p.bytes.length < (p.join ⟨n⟩).bytes.length := by
  have hpos : 0 < n.length := List.length_pos_iff.mpr hn
  simp only [join, isAbsolute_of_slash_notMem hslash, Bool.false_eq_true, if_false]
  split <;> simp only [List.length_append, List.length_cons] <;> omega

theorem slash_notMem_of_mem_splitFrom {part : Name} {bs : List Text.Utf8.Byte} {n : Name}
    (hpart : slash ∉ part) (hn : n ∈ splitFrom part bs) : slash ∉ n := by
  fun_induction splitFrom part bs with
  | case1 part =>
    obtain rfl := List.mem_singleton.mp hn
    simpa using hpart
  | case2 part bs ih =>
    rcases List.mem_cons.mp hn with rfl | hn
    · simpa using hpart
    · exact ih (by simp) hn
  | case3 part b bs hb ih =>
    exact ih (by simp [hpart, Ne.symm hb]) hn

theorem join_inj {p : Path} {m n : Name} (hm : slash ∉ m) (hn : slash ∉ n)
    (h : p.join ⟨m⟩ = p.join ⟨n⟩) : m = n := by
  simp only [join, isAbsolute_of_slash_notMem hm, isAbsolute_of_slash_notMem hn,
    Bool.false_eq_true, if_false] at h
  cases hend : p.bytes.isEmpty || p.endsInSlash <;> simpa [hend] using h

theorem splitFrom_append_slash (part : Name) (xs ys : List Text.Utf8.Byte) :
    splitFrom part (xs ++ slash :: ys) = splitFrom part xs ++ splitFrom [] ys := by
  induction xs generalizing part with
  | nil => simp [splitFrom]
  | cons b xs ih =>
    simp only [List.cons_append, splitFrom]
    split
    · rw [ih, List.cons_append]
    · exact ih _

theorem splitFrom_of_slash_notMem {n : Name} (h : slash ∉ n) (part : Name) :
    splitFrom part n = [part.reverse ++ n] := by
  induction n generalizing part with
  | nil => simp [splitFrom]
  | cons b n ih =>
    rw [List.mem_cons, not_or] at h
    obtain ⟨hb, hn⟩ := h
    rw [splitFrom, if_neg (Ne.symm hb), ih hn]
    simp

/-! ## Absolute paths -/

private theorem isAbsolute_iff {p : Path} :
    p.isAbsolute = true ↔ ∃ bytes, p.bytes = slash :: bytes := by
  rw [isAbsolute, decide_eq_true_eq]
  cases p.bytes <;> simp

private theorem isAbsolute_join {p : Path} (h : p.isAbsolute = true) (q : Path) :
    (p.join q).isAbsolute = true := by
  obtain ⟨bytes, hbytes⟩ := isAbsolute_iff.mp h
  unfold join
  split
  · assumption
  · split <;> simp [isAbsolute, hbytes]

private theorem isAbsolute_anchor {cwd : Path} (h : cwd.isAbsolute = true) (p : Path) :
    (p.anchor cwd).isAbsolute = true := by
  unfold anchor
  split
  · rfl
  · rfl
  · rfl
  · exact h

/-- The absolute form of a path is absolute if the directory that it starts from is. -/
theorem isAbsolute_of_absolute? {p cwd a : Path} (hcwd : cwd.isAbsolute = true)
    (h : p.absolute? cwd = some a) : a.isAbsolute = true := by
  have hjoin (names : List Name) (q : Path) (hq : q.isAbsolute = true) :
      (names.foldl (fun q n => q.join ⟨n⟩) q).isAbsolute = true := by
    induction names generalizing q with
    | nil => exact hq
    | cons n names ih => exact ih _ (isAbsolute_join hq ⟨n⟩)
  have hnames := hjoin p.names _ (isAbsolute_anchor hcwd p)
  unfold absolute? at h
  split at h
  · cases h
  · obtain rfl := Option.some.inj h
    split
    · exact isAbsolute_join hnames _
    · exact hnames

theorem absolute?_eq_none_iff {p cwd : Path} : p.absolute? cwd = none ↔ p.bytes = [] := by
  unfold absolute?
  split <;> simp_all

end SuiteRunner.Path
