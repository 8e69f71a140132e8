import SuiteRunner.Program

/-! # Chains of causes

A fault is told by its causes, each one followed by its own cause. -/
namespace SuiteRunner

/-! ## The causes of each fault -/

def DurationFault.causes : DurationFault → List String
  | .badFormat text cause => ["Invalid duration format: " ++ text, cause.message]
  | .outOfRange text => ["Duration out of range: " ++ text]

def Options.Fault.causes : Options.Fault → List String
  | .noHost => ["--host must not be empty"]
  | .badDuration cause => cause.causes

def Config.FileFault.causes : Config.FileFault → List String
  | .unreadable file cause => ["Failed to read config file: " ++ file.display, cause.message]
  | .notText file =>
    ["Failed to read config file: " ++ file.display, "stream did not contain valid UTF-8"]
  | .malformed file =>
    ["Failed to parse config file: " ++ file.display, "Failed to parse TOML configuration"]

def Options.MergeFault.causes : Options.MergeFault → List String
  | .connectTimeout cause => "Invalid connect timeout" :: cause.causes
  | .batchTimeout cause => "Invalid batch timeout" :: cause.causes

def DiscoveryFault.causes : DiscoveryFault → List String
  | .unreadable directory cause => ["Failed to read directory: " ++ directory.display, cause.message]
  | .unknown entry cause => ["Failed to stat: " ++ entry.display, cause.message]

def Coordinator.Fault.causes : Coordinator.Fault → List String
  | .invalid cause => ["Configuration validation failed", cause.message]
  | .discovery root cause => ("Test discovery failed under " ++ root.display) :: cause.causes
  | .listen address (.bind cause) => ["Failed to bind worker listener on " ++ address, cause]
  | .listen _ (.localAddress cause) => ["Failed to read listener address", cause]
  | .accept cause => [cause.message]

def Report.WriteFault.causes : Report.WriteFault → List String
  | .cannotCreate file cause => ["Failed to create JSON report: " ++ file.display, cause.message]
  | .cannotWrite file cause => ["Failed to write JSON report: " ++ file.display, cause.message]

def Program.Fault.causes : Program.Fault → List String
  | .options cause => cause.causes
  | .build (.file cause) => cause.causes
  | .build (.merging cause) => cause.causes
  | .run cause => cause.causes
  | .report cause => cause.causes

/-! ## Messages -/

section

variable {a b joined : String}

theorem join_cons {bs : List String} (hne : bs ≠ []) (h : b = ": ".intercalate bs)
    (hjoined : joined = a ++ ": ") : joined ++ b = ": ".intercalate (a :: bs) := by
  rw [String.intercalate_cons_of_ne_nil hne, h, hjoined]

theorem join_two (h : joined = a ++ ": ") : joined ++ b = ": ".intercalate [a, b] :=
  join_cons (List.cons_ne_nil _ _) String.intercalate_singleton.symm h

private theorem join_last (h : joined = ": " ++ b) : a ++ joined = ": ".intercalate [a, b] := by
  rw [h, ← String.append_assoc]
  exact join_two rfl

end

theorem DurationFault.fullMessage_eq (f : DurationFault) :
    f.causes ≠ [] ∧ f.fullMessage = ": ".intercalate f.causes := by
  cases f with
  | badFormat text cause => exact ⟨List.cons_ne_nil _ _, join_two rfl⟩
  | outOfRange text => exact ⟨List.cons_ne_nil _ _, String.intercalate_singleton.symm⟩

theorem Options.Fault.message_eq (f : Options.Fault) : f.message = ": ".intercalate f.causes := by
  cases f with
  | noHost => exact String.intercalate_singleton.symm
  | badDuration cause => exact cause.fullMessage_eq.2

theorem Options.MergeFault.message_eq (f : Options.MergeFault) :
    f.message = ": ".intercalate f.causes := by
  cases f with
  | connectTimeout cause =>
    exact join_cons cause.fullMessage_eq.1 cause.fullMessage_eq.2 (by simp)
  | batchTimeout cause =>
    exact join_cons cause.fullMessage_eq.1 cause.fullMessage_eq.2 (by simp)

theorem Config.FileFault.message_eq (f : Config.FileFault) :
    f.message = ": ".intercalate f.causes := by
  cases f with
  | unreadable file cause => exact join_two rfl
  | notText file => exact join_last (by simp)
  | malformed file => exact join_two rfl

theorem DiscoveryFault.message_eq (f : DiscoveryFault) :
    f.causes ≠ [] ∧ f.message = ": ".intercalate f.causes := by
  cases f <;> exact ⟨List.cons_ne_nil _ _, join_two rfl⟩

theorem Coordinator.Fault.message_eq (f : Coordinator.Fault) :
    f.message = ": ".intercalate f.causes := by
  cases f with
  | invalid cause => exact join_two (by simp)
  | discovery root cause => exact join_cons cause.message_eq.1 cause.message_eq.2 rfl
  | listen address cause =>
    cases cause with
    | bind cause => exact join_two rfl
    | localAddress cause => exact join_two (by simp)
  | accept cause => exact String.intercalate_singleton.symm

theorem Report.WriteFault.message_eq (f : Report.WriteFault) :
    f.message = ": ".intercalate f.causes := by
  cases f with
  | cannotCreate file cause => exact join_two rfl
  | cannotWrite file cause => exact join_two rfl

/-- A fault is told by its causes in order. -/
theorem Program.Fault.message_eq (f : Program.Fault) : f.message = ": ".intercalate f.causes := by
  cases f with
  | options cause => exact cause.message_eq
  | build cause =>
    cases cause with
    | file cause => exact cause.message_eq
    | merging cause => exact cause.message_eq
  | run cause => exact cause.message_eq
  | report cause => exact cause.message_eq

end SuiteRunner
