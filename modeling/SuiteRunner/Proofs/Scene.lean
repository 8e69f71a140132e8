import SuiteRunner.Proofs.ExitStatus
import SuiteRunner.Scene

/-! # File systems of scenes

Whatever a scene says, the file system that it sets up is well formed, and so is the one that a
command leaves behind in it. -/
namespace SuiteRunner

/-- What every step of a fold keeps holds at its end. -/
theorem foldlM_induction {α β : Type} {P : β → Prop} {f : β → α → Option β}
    (step : ∀ b a b', P b → f b a = some b' → P b') {l : List α} {b b' : β}
    (h : l.foldlM f b = some b') (start : P b) : P b' := by
  induction l generalizing b with
  | nil =>
    obtain rfl := Option.some.inj h
    exact start
  | cons a l ih =>
    rw [List.foldlM_cons, Option.bind_eq_bind, Option.bind_eq_some_iff] at h
    obtain ⟨c, hc, hrest⟩ := h
    exact ih hrest (step b a c start hc)

private theorem eq_ok_of_toOption {ε α : Type} {x : Except ε α} {a : α} (h : x.toOption = some a) :
    x = .ok a := by
  cases x with
  | error e => cases h
  | ok a' =>
    obtain rfl := Option.some.inj h
    rfl

namespace FileSystem

/-- Well formed, and paths start at a place that can be. -/
structure Sound (fs : FileSystem) : Prop where
  wellFormed : fs.WellFormed
  cwd : ∀ n ∈ fs.cwd, IsProper n

variable {fs fs' : FileSystem} {p : Path} {loc : Location}

theorem cwd_put (fs : FileSystem) (loc : Location) (e : Entry) : (fs.put loc e).cwd = fs.cwd := by
  unfold put
  split <;> rfl

theorem Sound.fill (h : fs.Sound) (hloc : fs.fileLocation p = .ok loc)
    (content : List Text.Utf8.Byte) : (fs.fill loc content).Sound := by
  refine ⟨h.wellFormed.fill h.cwd hloc content, ?_⟩
  have hcwd : (fs.fill loc content).cwd = fs.cwd := by
    unfold FileSystem.fill
    split
    · rfl
    · rfl
    · exact cwd_put ..
  exact hcwd ▸ h.cwd

theorem Sound.store {content : List Text.Utf8.Byte} (h : fs.Sound)
    (hstore : fs.store p content = .ok fs') : fs'.Sound := by
  rw [FileSystem.store, bind_eq_ok_iff] at hstore
  obtain ⟨loc, hloc, hfill⟩ := hstore
  obtain rfl := Except.ok.inj hfill
  exact h.fill hloc content

theorem Sound.makeLink {target : Path} (h : fs.Sound) (hlink : fs.makeLink p target = .ok fs') :
    fs'.Sound := by
  refine ⟨h.wellFormed.makeLink h.cwd hlink, ?_⟩
  rw [FileSystem.makeLink, bind_eq_ok_iff] at hlink
  obtain ⟨dir, -, hlink⟩ := hlink
  split at hlink
  · cases hlink
  · cases hlink
  · split_ifs at hlink
    obtain rfl := Except.ok.inj hlink
    rw [cwd_put]
    exact h.cwd

private theorem cwd_makeBelow {ns : List Name} (h : fs.makeBelow loc ns = .ok fs') :
    fs'.cwd = fs.cwd := by
  induction ns generalizing fs loc with
  | nil =>
    obtain rfl := Except.ok.inj h
    rfl
  | cons n ns ih =>
    rw [makeBelow] at h
    split at h
    · cases h
    · split at h
      · rw [ih h, cwd_put]
      · exact ih h
      · cases h

theorem Sound.makeDirectories (h : fs.Sound) (hmake : fs.makeDirectories p = .ok fs') :
    fs'.Sound :=
  ⟨h.wellFormed.makeDirectories h.cwd hmake, cwd_makeBelow hmake ▸ h.cwd⟩

end FileSystem

/-! ## Reading a scene -/

namespace Scene

variable {fs fs' : FileSystem} {w w' : Surroundings}

private theorem sound_addEntry? {e : String × Json} (h : fs.Sound)
    (hadd : addEntry? fs e = some fs') : fs'.Sound := by
  unfold addEntry? at hadd
  split at hadd
  · exact h.makeDirectories (eq_ok_of_toOption hadd)
  · obtain ⟨above, habove, hstore⟩ := Option.bind_eq_some_iff.mp hadd
    exact (h.makeDirectories (eq_ok_of_toOption habove)).store (eq_ok_of_toOption hstore)
  · obtain ⟨above, habove, hlink⟩ := Option.bind_eq_some_iff.mp hadd
    exact (h.makeDirectories (eq_ok_of_toOption habove)).makeLink (eq_ok_of_toOption hlink)
  · cases hadd

private theorem sound_addMember? {m : String × Json} (h : w.files.Sound)
    (hadd : addMember? w m = some w') : w'.files.Sound := by
  unfold addMember? at hadd
  split at hadd
  · obtain ⟨files, hfiles, hw⟩ := Option.bind_eq_some_iff.mp hadd
    obtain rfl := Option.some.inj hw
    exact foldlM_induction (fun _ _ _ => sound_addEntry?) hfiles h
  · obtain ⟨steps, -, hw⟩ := Option.bind_eq_some_iff.mp hadd
    obtain rfl := Option.some.inj hw
    exact h
  · obtain rfl := Option.some.inj hadd
    exact h
  · obtain ⟨n, -, hw⟩ := Option.bind_eq_some_iff.mp hadd
    obtain rfl := Option.some.inj hw
    exact h
  · cases hadd

private theorem sound_read? {text : String} (h : read? text = some w) : w.files.Sound := by
  unfold read? at h
  split at h
  · exact foldlM_induction (P := fun w => w.files.Sound) (fun _ _ _ => sound_addMember?) h
      ⟨⟨by simp, by simp⟩, by simp⟩
  · cases h

end Scene

/-! ## After a command -/

namespace Program

variable {w : Surroundings}

private theorem sound_saveReport (h : w.files.Sound) (c : Config) (s : Summary) (now : Moment) :
    (saveReport c s w now).1.Sound := by
  cases hfile : c.output.jsonOutput with
  | none => simpa [saveReport, hfile] using h
  | some file =>
    rw [files_saveReport hfile]
    cases hloc : w.files.fileLocation file with
    | error cause => simpa [Report.save, hloc] using h
    | ok loc =>
      rw [Report.save_of_fileLocation hloc]
      exact h.fill hloc _

private theorem sound_runOptions (h : w.files.Sound) (o : Options) :
    (runOptions o w).files.Sound := by
  unfold runOptions
  split
  · exact h
  · simp only
    split
    · exact h
    · rw [(finish_cases _ rfl).1]
      exact sound_saveReport h _ _ _
    · exact h

/-- A scene sets up a well-formed file system, and no command that is run in it spoils it. -/
theorem wellFormed_run {text : String} (h : Scene.read? text = some w) (args : List String)
    (env : Option String) : w.files.WellFormed ∧ (run args env w).files.WellFormed := by
  have hsound := Scene.sound_read? h
  refine ⟨hsound.wellFormed, ?_⟩
  unfold run
  split
  · exact hsound.wellFormed
  · exact (sound_runOptions hsound _).wellFormed

end Program

end SuiteRunner
