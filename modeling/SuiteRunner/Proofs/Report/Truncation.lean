import SuiteRunner.Proofs.ExitStatus

/-! # Reports that are cut off

A disk may have room for a part of a report only. That is noticed if a byte is refused before the
last pieces are in the buffer; for what the buffer then holds nobody asks, so that a report which
lacks some of its last bytes, or all of a short one, passes for a complete one. -/
namespace SuiteRunner

open Text.Utf8 (Byte encode)

namespace BufferedSink

/-! ## What is handed on in time -/

/-- The bytes that are handed on before the last piece is in the buffer. -/
def passed (buffer : List Byte) : List (List Byte) → List Byte
  | [] => []
  | p :: ps => (handover buffer p).1 ++ passed (handover buffer p).2 ps

/-- The bytes that are in the buffer then. -/
def leftover (buffer : List Byte) : List (List Byte) → List Byte
  | [] => buffer
  | p :: ps => leftover (handover buffer p).2 ps

theorem passed_append_leftover (buffer : List Byte) (pieces : List (List Byte)) :
    passed buffer pieces ++ leftover buffer pieces = buffer ++ pieces.flatten := by
  induction pieces generalizing buffer with
  | nil => simp [passed, leftover]
  | cons p ps ih =>
    rw [passed, leftover, List.append_assoc, ih, ← List.append_assoc, handover_append,
      List.append_assoc, List.flatten_cons]

private theorem leftover_concat (buffer p : List Byte) (pieces : List (List Byte)) :
    leftover buffer (pieces ++ [p]) = (handover (leftover buffer pieces) p).2 := by
  induction pieces generalizing buffer with
  | nil => rfl
  | cons q qs ih => exact ih _

/-- All pieces are accepted exactly if those bytes are taken. -/
theorem writeAll_isOk_iff (b : BufferedSink) (pieces : List (List Byte)) :
    (∃ b', b.writeAll pieces = .ok b') ↔ (b.sink.put (passed b.buffer pieces)).2 = true := by
  induction pieces generalizing b with
  | nil =>
    have hnone : (b.sink.put []).2 = true := by
      unfold Sink.put
      split <;> simp
    exact ⟨fun _ => hnone, fun _ => ⟨b, rfl⟩⟩
  | cons p ps ih =>
    rw [passed, Sink.put_append_snd, Bool.and_eq_true]
    simp only [writeAll, write_eq]
    cases hdone : (b.sink.put (handover b.buffer p).1).2 with
    | false => simp [bind, Except.bind]
    | true => simpa [bind, Except.bind] using ih ⟨_, (handover b.buffer p).2⟩

private theorem length_handover_le (buffer p : List Byte) :
    (handover buffer p).2.length ≤ capacity := by
  unfold handover
  split
  · exact Nat.zero_le _
  · next hsmall =>
    split
    · exact Nat.le_of_not_le hsmall
    · rw [List.length_append]
      omega

theorem length_leftover_le {buffer : List Byte} (h : buffer.length ≤ capacity)
    (pieces : List (List Byte)) : (leftover buffer pieces).length ≤ capacity := by
  induction pieces generalizing buffer with
  | nil => exact h
  | cons p ps ih => exact ih (length_handover_le buffer p)

/-- A text that is shorter than the buffer stays in it until the end. -/
theorem passed_of_short {buffer : List Byte} {pieces : List (List Byte)}
    (h : (buffer ++ pieces.flatten).length < capacity) : passed buffer pieces = [] := by
  induction pieces generalizing buffer with
  | nil => rfl
  | cons p ps ih =>
    rw [List.flatten_cons, List.length_append, List.length_append] at h
    have hstays : handover buffer p = ([], buffer ++ p) := by
      simp [handover, show ¬capacity ≤ p.length by omega,
        show ¬capacity < buffer.length + p.length by omega]
    rw [passed, hstays, List.nil_append]
    apply ih
    rw [List.append_assoc, List.length_append, List.length_append]
    omega

/-- A small last piece is still in the buffer at the end. -/
theorem leftover_ne_nil {p : List Byte} (hne : p ≠ []) (hsmall : p.length < capacity)
    (buffer : List Byte) (pieces : List (List Byte)) : leftover buffer (pieces ++ [p]) ≠ [] := by
  rw [leftover_concat, handover, if_neg (by omega)]
  split
  · exact hne
  · simp [hne]

end BufferedSink

namespace Report

/-! ## Reports -/

/-- However a text is cut into pieces, that it could not be written is noticed exactly if there is no
room for the bytes that are handed on in time. -/
theorem pour_snd_iff (n : Nat) (pieces : List (List Byte)) :
    (pour { room := some n } pieces).2 = true ↔ (BufferedSink.passed [] pieces).length ≤ n := by
  have hok := BufferedSink.writeAll_isOk_iff ⟨{ room := some n }, []⟩ pieces
  have hput : (Sink.put { room := some n } (BufferedSink.passed [] pieces)).2 = true ↔
      (BufferedSink.passed [] pieces).length ≤ n := by
    simp [Sink.put]
  rw [← hput, ← hok, pour]
  cases BufferedSink.writeAll ⟨{ room := some n }, []⟩ pieces <;> simp

/-- The bytes of a report for which an error is noticed. -/
def passed (r : Report) : List Byte := BufferedSink.passed [] r.pieces

/-- The bytes for which none is. -/
def leftover (r : Report) : List Byte := BufferedSink.leftover [] r.pieces

theorem passed_append_leftover (r : Report) : r.passed ++ r.leftover = encode r.text := by
  rw [passed, leftover, BufferedSink.passed_append_leftover, flatten_pieces, List.nil_append]

theorem length_leftover_le (r : Report) : r.leftover.length ≤ 8192 :=
  BufferedSink.length_leftover_le (Nat.zero_le _) r.pieces

/-- The last bracket is never among the bytes that are handed on in time. -/
theorem leftover_ne_nil (r : Report) : r.leftover ≠ [] := by
  obtain ⟨ps, hps⟩ : ∃ ps, r.pieces = ps ++ [Text.Utf8.encodeChars ['\x7d']] := by
    obtain ⟨ps, hps⟩ := Json.exists_prettyPieces_concat _ 0
    exact ⟨ps.map Text.Utf8.encodeChars, by rw [pieces, toJson, hps, List.map_append]; rfl⟩
  rw [leftover, hps]
  exact BufferedSink.leftover_ne_nil (by decide) (by decide) [] ps

theorem passed_of_short (r : Report) (h : (encode r.text).length < 8192) : r.passed = [] := by
  apply BufferedSink.passed_of_short
  rwa [List.nil_append, flatten_pieces]

section

variable {fs : FileSystem} {file : Path} {loc : Location}

private theorem save_of_room (hloc : fs.fileLocation file = .ok loc)
    (hplace : fs.entry? loc = none ∨ ∃ old, fs.entry? loc = some (.file old)) (r : Report)
    (n : Nat) :
    r.save fs (some n) file = (fs.fill loc ((encode r.text).take n),
      if r.passed.length ≤ n then .ok () else .error (.cannotWrite file .noSpace)) := by
  have hroom : fs.roomAt (some n) loc = (some n, .noSpace) := by
    obtain hnone | ⟨old, hold⟩ := hplace
    · simp [FileSystem.roomAt, hnone]
    · simp [FileSystem.roomAt, hold]
  have hfiles := save_of_fileLocation hloc r (some n)
  rw [Sink.fits] at hfiles
  have hresult : (r.save fs (some n) file).2 =
      if r.passed.length ≤ n then .ok () else .error (.cannotWrite file .noSpace) := by
    simp only [save, hloc, hroom, passed, ← pour_snd_iff]
  rw [← hfiles, ← hresult]

end

end Report

/-! ## The command -/

namespace Program

/-- What a command leaves behind if there is room for `n` bytes of its report, after it has printed
something and settled its status otherwise. -/
structure CutOff (r : Report) (file : Path) (n : Nat) (printed : String) (code : Nat)
    (out : Outcome) : Prop where
  /-- The file has as much of the text as there was room for. -/
  content : out.files.contentAt file = .ok ((encode r.text).take n)
  /-- The report passes for complete exactly if there was room for all but the leftover. -/
  accepted : r.passed.length ≤ n → out.exitCode = some code ∧
    out.console = printed ++ ("JSON report written to: " ++ file.display ++ "\n")
  refused : n < r.passed.length → out.exitCode = some 1 ∧
    out.console = printed ++ ("Error: " ++ ("Failed to write JSON report: " ++ file.display ++
      ": " ++ "No space left on device (os error 28)") ++ "\n")
  parts : r.passed ++ r.leftover = encode r.text
  /-- At least the last byte can be lost without notice, and never more than the buffer holds. -/
  lossy : r.leftover ≠ []
  buffered : r.leftover.length ≤ 8192
  /-- A report that is shorter than the buffer can be lost altogether. -/
  short : (encode r.text).length < 8192 → r.passed = []

section

variable {c : Config} {s : Summary} {w : Surroundings} {file : Path} {loc : Location} {n : Nat}

theorem saveReport_of_room (hfile : c.output.jsonOutput = some file)
    (hloc : w.files.fileLocation file = .ok loc)
    (hplace : w.files.entry? loc = none ∨ ∃ old, w.files.entry? loc = some (.file old))
    (hroom : w.room = some n) (now : Moment) :
    saveReport c s w now = (w.files.fill loc ((encode (Report.ofSummary s now).text).take n),
      if (Report.ofSummary s now).passed.length ≤ n then
        .ok ("JSON report written to: " ++ file.display ++ "\n")
      else .error (.report (.cannotWrite file .noSpace))) := by
  simp only [saveReport, hfile, hroom, Report.save_of_room hloc hplace]
  by_cases hle : (Report.ofSummary s now).passed.length ≤ n
  · simp only [if_pos hle]
  · simp only [if_neg hle]

/-- A report that is cut off in its leftover is told to be written. -/
theorem finish_of_room (hfile : c.output.jsonOutput = some file)
    (hloc : w.files.fileLocation file = .ok loc)
    (hplace : w.files.entry? loc = none ∨ ∃ old, w.files.entry? loc = some (.file old))
    (hroom : w.room = some n) (out : Coordinator.Outcome)
    (hle : (Report.ofSummary s (w.start.after out.elapsed)).passed.length ≤ n) :
    (finish c s w out).exitCode = some s.exitCode ∧
      (finish c s w out).console = out.console ++ s.report (w.start.after out.elapsed) ++
        ("JSON report written to: " ++ file.display ++ "\n") := by
  simp only [finish, saveReport_of_room hfile hloc hplace hroom, if_pos hle]
  exact ⟨trivial, trivial⟩

/-- Whether or not an error is told, the file keeps what there was room for. -/
theorem contentAt_finish_of_room (hfile : c.output.jsonOutput = some file)
    (hloc : w.files.fileLocation file = .ok loc)
    (hplace : w.files.entry? loc = none ∨ ∃ old, w.files.entry? loc = some (.file old))
    (hroom : w.room = some n) (out : Coordinator.Outcome) :
    (finish c s w out).files.contentAt file =
      .ok ((encode (Report.ofSummary s (w.start.after out.elapsed)).text).take n) := by
  have hfiles : (finish c s w out).files = w.files.fill loc
      ((encode (Report.ofSummary s (w.start.after out.elapsed)).text).take n) := by
    simp only [finish, saveReport_of_room hfile hloc hplace hroom]
    split <;> rfl
  rw [hfiles, FileSystem.contentAt_fill hloc hplace]

/-- How much room there is matters to nothing before the report. -/
def Underway.withRoom {o : Options} (r : Underway o w) (room : Option Nat) :
    Underway o { w with room := room } where
  config := r.config
  manifest := r.manifest
  worker := r.worker
  accepted := r.accepted
  built := r.built
  valid := r.valid
  found := r.found
  listening := r.listening
  connected := r.connected

/-- A run of which all but the leftover of the report fits ends as if the report had been written. -/
theorem Underway.runOptions_of_room {o : Options} (r : Underway o w) {e : Dispatch.Ending}
    (he : r.dispatcher.ending? = some e) (hfile : r.config.output.jsonOutput = some file)
    (hloc : w.files.fileLocation file = .ok loc)
    (hplace : w.files.entry? loc = none ∨ ∃ old, w.files.entry? loc = some (.file old))
    (hroom : w.room = some n)
    (hle : (Report.ofSummary (r.summary e) (w.start.after r.elapsed)).passed.length ≤ n) :
    (runOptions o w).exitCode = some (r.summary e).exitCode ∧
      (∃ printed, (runOptions o w).console =
        printed ++ ("JSON report written to: " ++ file.display ++ "\n")) ∧
      (runOptions o w).files.contentAt file =
        .ok ((encode (Report.ofSummary (r.summary e) (w.start.after r.elapsed)).text).take n) := by
  rw [r.runOptions_of_some he]
  obtain ⟨hcode, hconsole⟩ := finish_of_room hfile hloc hplace hroom
    { console := r.printed
      requests := r.dispatcher.sent
      elapsed := r.elapsed
      result := some (.ok (r.summary e)) } hle
  exact ⟨hcode, ⟨_, hconsole⟩, contentAt_finish_of_room hfile hloc hplace hroom _⟩

end

/-- Whatever the summary and however much room there is, an error is told exactly if the report is
cut off before its leftover, the last bytes that the buffer holds; a report that is cut off there is
told to be written. -/
theorem reported_up_to_leftover (c : Config) (s : Summary) (w : Surroundings)
    (out : Coordinator.Outcome) {file : Path} {loc : Location} {n : Nat}
    (hfile : c.output.jsonOutput = some file) (hloc : w.files.fileLocation file = .ok loc)
    (hplace : w.files.entry? loc = none ∨ ∃ old, w.files.entry? loc = some (.file old))
    (hroom : w.room = some n) :
    CutOff (Report.ofSummary s (w.start.after out.elapsed)) file n
      (out.console ++ s.report (w.start.after out.elapsed)) s.exitCode (finish c s w out) := by
  constructor
  case content => exact contentAt_finish_of_room hfile hloc hplace hroom out
  case accepted => exact finish_of_room hfile hloc hplace hroom out
  case refused =>
    intro hlt
    simp only [finish, saveReport_of_room hfile hloc hplace hroom, if_neg (Nat.not_le.mpr hlt)]
    exact ⟨trivial, rfl⟩
  case parts => exact Report.passed_append_leftover _
  case lossy => exact Report.leftover_ne_nil _
  case buffered => exact Report.length_leftover_le _
  case short => exact Report.passed_of_short _

/-- One test for a worker that answers, and room for so many bytes of the report. -/
def cramped (n : Nat) : Surroundings := { attended [.serve {}] with room := some n }

theorem fileLocation_cramped (n : Nat) :
    (cramped n).files.fileLocation (.ofString "/r.json") = .ok (["r.json"].map encode) := by
  have h : loneTest.fileLocation (.ofString "/r.json") = .ok (["r.json"].map encode) := by
    decide +kernel
  exact h

/-- How a command ends that ran no test. -/
def idle (n : Nat) : Outcome :=
  finish (attendedRun [.serve {}]).config (.start default) (cramped n) { result := none }

/-- The first forty bytes of a report are told to be the report. -/
theorem reported_up_to_leftover_forty :
    (cramped 40).files.fileLocation (.ofString "/r.json") = .ok (["r.json"].map encode) ∧
      (idle 40).exitCode = some 0 ∧ (idle 40).files.contentAt (.ofString "/r.json") =
        .ok (encode "\x7b\n  \"tests_run\": 0,\n  \"tests_failed\": 0,") := by
  have h : CutOff (Report.ofSummary (.start default) default) (.ofString "/r.json") 40 _ 0
      (idle 40) :=
    reported_up_to_leftover _ (.start default) (cramped 40) { result := none } rfl
      (fileLocation_cramped 40) (.inl (by decide +kernel)) rfl
  have hpassed := h.short (by rw [← Report.flatten_pieces]; decide +kernel)
  refine ⟨fileLocation_cramped 40, (h.accepted (by rw [hpassed]; exact Nat.zero_le 40)).1, ?_⟩
  rw [h.content, ← Report.flatten_pieces]
  decide +kernel

def crampedRun (n : Nat) : Underway loneOptions (cramped n) :=
  (attendedRun [.serve {}]).withRoom (some n)

/-- Every test passes and nothing of the report gets to the file: the command succeeds, and says that
the report was written. -/
theorem empty_report_passes_for_written :
    (run ["/t", "--json-output", "/r.json"] none (cramped 0)).exitCode = some 0 ∧
      (∃ printed, (run ["/t", "--json-output", "/r.json"] none (cramped 0)).console =
        printed ++ ("JSON report written to: " ++ Path.display (.ofString "/r.json") ++ "\n")) ∧
      (run ["/t", "--json-output", "/r.json"] none (cramped 0)).files.contentAt
        (.ofString "/r.json") = .ok [] ∧
      ∀ r : Report, encode r.text ≠ [] := by
  have hparse : CommandLine.parse ["/t", "--json-output", "/r.json"] none = .ok loneOptions := by
    decide +kernel
  have ⟨hended, hcode⟩ : (crampedRun 0).dispatcher.ending? = some .completed ∧
      ((crampedRun 0).summary .completed).exitCode = 0 := by
    decide +kernel
  have hpassed : (Report.ofSummary ((crampedRun 0).summary .completed)
      ((cramped 0).start.after (crampedRun 0).elapsed)).passed.length ≤ 0 := by
    rw [Report.passed_of_short]
    · exact Nat.le_refl 0
    · rw [← Report.flatten_pieces]
      decide +kernel
  have hrun : run ["/t", "--json-output", "/r.json"] none (cramped 0) =
      runOptions loneOptions (cramped 0) := by
    rw [run, hparse]
  obtain ⟨hexit, hconsole, hcontent⟩ := (crampedRun 0).runOptions_of_room hended rfl
    (fileLocation_cramped 0) (.inl (by decide +kernel)) rfl hpassed
  rw [List.take_zero] at hcontent
  rw [hrun]
  refine ⟨?_, hconsole, hcontent, ?_⟩
  · rw [hexit, hcode]
  · intro r h
    exact r.leftover_ne_nil (List.append_eq_nil_iff.mp (r.passed_append_leftover.trans h)).2

end Program

end SuiteRunner
