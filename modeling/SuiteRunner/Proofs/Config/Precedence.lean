import SuiteRunner.Config.Options
import SuiteRunner.Proofs.Config.Duration
import SuiteRunner.Proofs.Traverse

/-! # Precedence of the command line

Each setting comes from the command line if it is given there, and stays what it was otherwise.
Checking a command line and merging it read the same durations, so that what passes the check can
always be merged. -/
namespace SuiteRunner.Options

open Text (IsGap)

/-! ## One setting -/

/-- A setting before and after something was given for it or nothing; `Gives x` are the values that
`x` stands for. -/
inductive Replaced {α β : Type} (Gives : α → β → Prop) : Option α → β → β → Prop
  | given {x : α} {before after : β} (h : Gives x after) : Replaced Gives (some x) before after
  | kept (before : β) : Replaced Gives none before before

/-- A text that is read as so many milliseconds. -/
def Reads (s : String) (ms : Nat) : Prop := Duration.parse s = .ok ms

section

variable {α β : Type} {Gives : α → β → Prop} {given : Option α} {before after : β}

/-- Giving the same again changes nothing. -/
theorem Replaced.again (h : Replaced Gives given before after) :
    Replaced Gives given after after := by
  cases h with
  | given h => exact .given h
  | kept => exact .kept _

private theorem exists_replaced_iff :
    (∃ after, Replaced Gives given before after) ↔ ∀ x ∈ given, ∃ y, Gives x y := by
  constructor
  · rintro ⟨after, h | _⟩ x hx
    · obtain rfl := Option.some.inj hx
      exact ⟨after, h⟩
    · cases hx
  · intro h
    cases given with
    | none => exact ⟨before, .kept before⟩
    | some x =>
      obtain ⟨y, hy⟩ := h x rfl
      exact ⟨y, .given hy⟩

/-- What is given replaces the setting by way of `f`. -/
theorem replaced_elim_iff (f : α → β) :
    after = given.elim before f ↔ Replaced (fun x y => y = f x) given before after := by
  constructor
  · rintro rfl
    cases given with
    | none => exact .kept before
    | some x => exact .given rfl
  · rintro (h | _)
    · exact h
    · rfl

private theorem replaced_getD_iff {before after : α} :
    after = given.getD before ↔ Replaced (fun x y => y = x) given before after := by
  have helim : given.getD before = given.elim before id := by cases given <;> rfl
  rw [helim]
  exact replaced_elim_iff id

private theorem replaced_or_iff {before after : Option α} :
    after = given.or before ↔ Replaced (fun x y => y = some x) given before after := by
  have helim : given.or before = given.elim before some := by cases given <;> rfl
  rw [helim]
  exact replaced_elim_iff some

end

section

variable {context : DurationFault → MergeFault} {given : Option String} {before after : Nat}

/-- A duration is stored as the number of milliseconds that it is read as. -/
theorem mergeDuration_eq_ok_iff :
    mergeDuration context given before = .ok after ↔ Replaced Reads given before after := by
  constructor
  · intro h
    cases given with
    | none =>
      obtain rfl := Except.ok.inj h
      exact .kept before
    | some s =>
      cases hparse : Duration.parse s with
      | error cause => simp [mergeDuration, hparse] at h
      | ok ms =>
        obtain ⟨w, -, -, hfits, rfl⟩ := Duration.parse_eq_ok_iff.mp hparse
        obtain rfl : w.millis = after := by
          simpa [mergeDuration, hparse, Duration.toMillis_ofMillis hfits] using h
        exact .given hparse
  · rintro (hparse | _)
    · obtain ⟨w, -, -, hfits, rfl⟩ := Duration.parse_eq_ok_iff.mp hparse
      rw [Reads] at hparse
      simp [mergeDuration, hparse, Duration.toMillis_ofMillis hfits]
    · rfl

private theorem checkDuration_eq_ok_iff :
    checkDuration given = .ok () ↔ ∀ s ∈ given, ∃ ms, Reads s ms := by
  cases given with
  | none => simp [checkDuration]
  | some s => cases hparse : Duration.parse s <;> simp [checkDuration, Reads, hparse]

end

/-! ## All settings -/

/-- Settings with those of a command line on top. -/
structure Merged (o : Options) (base c : Config) : Prop where
  discovery : c.discovery = base.discovery
  host : Replaced (fun given host => host = given) o.host base.server.host c.server.host
  port : Replaced (fun given port => port = given) o.port base.server.port c.server.port
  connectTimeout :
    Replaced Reads o.connectTimeout base.server.connectTimeout c.server.connectTimeout
  batchTimeout : Replaced Reads o.batchTimeout base.dispatch.batchTimeout c.dispatch.batchTimeout
  jsonOutput : Replaced (fun given file => file = some given) o.jsonOutput base.output.jsonOutput
    c.output.jsonOutput
  continueOnTimeout : c.dispatch.continueOnTimeout =
    (o.continueOnTimeout || base.dispatch.continueOnTimeout)
  debug : c.output.debug = (o.debug || base.output.debug)

/-- Each timeout that is given is a duration. -/
def TimeoutsRead (o : Options) : Prop :=
  ∀ s, o.connectTimeout = some s ∨ o.batchTimeout = some s → ∃ ms, Duration.parse s = .ok ms

variable {o : Options} {base c : Config}

theorem timeoutsRead_iff : o.TimeoutsRead ↔
    (∀ s ∈ o.connectTimeout, ∃ ms, Reads s ms) ∧ ∀ s ∈ o.batchTimeout, ∃ ms, Reads s ms := by
  constructor
  · exact fun h => ⟨fun s hs => h s (.inl hs), fun s hs => h s (.inr hs)⟩
  · rintro ⟨hconnect, hbatch⟩ s (hs | hs)
    · exact hconnect s hs
    · exact hbatch s hs

/-- Merging gives the settings that the command line stands on top of, and no others. -/
theorem merge_eq_ok_iff : o.merge base = .ok c ↔ Merged o base c := by
  unfold merge
  simp only [bind_eq_ok_iff, mergeDuration_eq_ok_iff]
  constructor
  · rintro ⟨connectTimeout, hconnect, batchTimeout, hbatch, h⟩
    obtain rfl := Except.ok.inj h
    exact ⟨rfl, replaced_getD_iff.mp rfl, replaced_getD_iff.mp rfl, hconnect, hbatch,
      replaced_or_iff.mp rfl, rfl, rfl⟩
  · intro h
    refine ⟨_, h.connectTimeout, _, h.batchTimeout, ?_⟩
    rw [← h.discovery, ← replaced_getD_iff.mpr h.host, ← replaced_getD_iff.mpr h.port,
      ← replaced_or_iff.mpr h.jsonOutput, ← h.continueOnTimeout, ← h.debug]

theorem exists_merge_iff : (∃ c, o.merge base = .ok c) ↔ o.TimeoutsRead := by
  rw [timeoutsRead_iff]
  constructor
  · rintro ⟨c, h⟩
    have hmerged := merge_eq_ok_iff.mp h
    exact ⟨exists_replaced_iff.mp ⟨_, hmerged.connectTimeout⟩,
      exists_replaced_iff.mp ⟨_, hmerged.batchTimeout⟩⟩
  · rintro ⟨hconnect, hbatch⟩
    obtain ⟨connectTimeout, hconnect⟩ := exists_replaced_iff.mpr hconnect
    obtain ⟨batchTimeout, hbatch⟩ := exists_replaced_iff.mpr hbatch
    simp only [merge, bind_eq_ok_iff, mergeDuration_eq_ok_iff]
    exact ⟨_, connectTimeout, hconnect, batchTimeout, hbatch, rfl⟩

theorem Merged.again (h : Merged o base c) : Merged o c c where
  discovery := rfl
  host := h.host.again
  port := h.port.again
  connectTimeout := h.connectTimeout.again
  batchTimeout := h.batchTimeout.again
  jsonOutput := h.jsonOutput.again
  continueOnTimeout := by rw [h.continueOnTimeout, ← Bool.or_assoc, Bool.or_self]
  debug := by rw [h.debug, ← Bool.or_assoc, Bool.or_self]

/-! ## The check -/

theorem check_eq_ok_iff :
    o.check = .ok () ↔ (∀ host ∈ o.host, ¬ IsGap host.toList) ∧ o.TimeoutsRead := by
  have hhost : (∀ host ∈ o.host, ¬ IsGap host.toList) ↔ o.host.any Text.blank = false := by
    simp only [← Text.blank_iff]
    cases o.host <;> simp
  rw [hhost, timeoutsRead_iff, ← checkDuration_eq_ok_iff, ← checkDuration_eq_ok_iff]
  cases hany : o.host.any Text.blank with
  | true => simp [check, hany, bind, Except.bind]
  | false =>
    simp only [check, hany, Bool.false_eq_true, if_false, bind_eq_ok_iff]
    constructor
    · rintro ⟨⟨⟩, hconnect, hbatch⟩
      exact ⟨trivial, hconnect, hbatch⟩
    · rintro ⟨-, hconnect, hbatch⟩
      exact ⟨(), hconnect, hbatch⟩

/-- Once the durations are known to be readable, only the configuration file is left to fail. -/
theorem build_eq_error_iff (h : o.TimeoutsRead) {fs : FileSystem} {fault : BuildFault} :
    o.build fs = .error fault ↔ ∃ file cause, o.config = some file ∧
      Config.ofFile fs file = .error cause ∧ fault = .file cause := by
  have hmerge (base : Config) : ∃ c, o.merge base = .ok c := exists_merge_iff.mpr h
  cases hconfig : o.config with
  | none =>
    obtain ⟨c, hc⟩ := hmerge {}
    simp [build, hconfig, hc, bind, Except.bind]
  | some file =>
    cases hread : Config.ofFile fs file with
    | error cause => simp [build, hconfig, hread, bind, Except.bind, eq_comm]
    | ok base =>
      obtain ⟨c, hc⟩ := hmerge base
      simp [build, hconfig, hread, hc, bind, Except.bind]

/-- The command line takes precedence. Merging succeeds exactly if each timeout that is given is a
duration; it replaces what is given, sets the flags that are set on either side, and a second time
changes nothing. The check fails on the same durations, and besides them only on a blank host; after
it only the configuration file can keep the settings from being built. -/
theorem command_line_takes_precedence (o : Options) (base : Config) (fs : FileSystem) :
    ((∃ c, o.merge base = .ok c) ↔ o.TimeoutsRead) ∧
    (∀ c, o.merge base = .ok c ↔ Merged o base c) ∧
    (∀ c, o.merge base = .ok c → o.merge c = .ok c) ∧
    (o.check = .ok () → (∃ c, o.merge base = .ok c) ∧
      ∀ fault, o.build fs = .error fault ↔ ∃ file cause, o.config = some file ∧
        Config.ofFile fs file = .error cause ∧ fault = .file cause) ∧
    ((∃ c, o.merge base = .ok c) → (∀ host ∈ o.host, ¬ IsGap host.toList) → o.check = .ok ()) := by
  refine ⟨exists_merge_iff, fun c => merge_eq_ok_iff, ?_, ?_, ?_⟩
  · intro c h
    exact merge_eq_ok_iff.mpr (merge_eq_ok_iff.mp h).again
  · intro h
    have hread := (check_eq_ok_iff.mp h).2
    exact ⟨exists_merge_iff.mpr hread, fun fault => build_eq_error_iff hread⟩
  · intro h hhost
    exact check_eq_ok_iff.mpr ⟨hhost, exists_merge_iff.mp h⟩

end SuiteRunner.Options
