import SuiteRunner.Proofs.FileSystem
import SuiteRunner.Proofs.Json.Pieces
import SuiteRunner.Report.File

/-! # What ends up in the file

The file gets the text in pieces, through a buffer, and may take no more at any point. Still it is as
if the whole text had been handed on at once: it holds all of it, or as much as there was room for. -/
namespace SuiteRunner

open Text.Utf8 (Byte)

namespace Sink

/-- As much of some bytes as there is room for. -/
def fits : Option Nat → List Byte → List Byte
  | none, bs => bs
  | some n, bs => bs.take n

variable {s : Sink}

private theorem written_put (s : Sink) (bs : List Byte) :
    (s.put bs).1.written = s.written ++ fits s.room bs := by
  cases hr : s.room <;> simp [put, hr, fits]

theorem put_put (s : Sink) (xs ys : List Byte) :
    ((s.put xs).1.put ys).1 = (s.put (xs ++ ys)).1 := by
  cases hr : s.room with
  | none => simp [put, hr]
  | some n => simp [put, hr, List.take_append, Nat.sub_sub]

theorem put_nil (s : Sink) : (s.put []).1 = s := by
  obtain ⟨written, room⟩ := s
  cases room <;> simp [put]

/-- A file that could not take everything takes nothing more. -/
theorem put_of_full {xs : List Byte} (h : (s.put xs).2 = false) (ys : List Byte) :
    (s.put (xs ++ ys)).1 = (s.put xs).1 := by
  cases hr : s.room with
  | none => simp [put, hr] at h
  | some n =>
    have hlt : n < xs.length := by simpa [put, hr] using h
    have hzero : n - xs.length = 0 := by omega
    have hzero' : n - (xs.length + ys.length) = 0 := by omega
    simp [put, hr, List.take_append, hzero, hzero']

/-- What there is room for is taken completely. -/
theorem put_snd_of_room {bs : List Byte} (h : ∀ n ∈ s.room, bs.length ≤ n) : (s.put bs).2 = true := by
  cases hr : s.room with
  | none => simp [put, hr]
  | some n => simpa [put, hr] using h n hr

/-- Two parts are taken completely exactly if both together are. -/
theorem put_append_snd (s : Sink) (xs ys : List Byte) :
    (s.put (xs ++ ys)).2 = ((s.put xs).2 && ((s.put xs).1.put ys).2) := by
  cases hr : s.room with
  | none => simp [put, hr]
  | some n =>
    simp only [put, hr, List.length_append]
    rw [Bool.eq_iff_iff, Bool.and_eq_true]
    simp only [decide_eq_true_eq]
    omega

end Sink

namespace BufferedSink

/-- What is handed on when a piece comes to a buffer, and what is in the buffer then. -/
def handover (buffer piece : List Byte) : List Byte × List Byte :=
  if capacity ≤ piece.length then (buffer ++ piece, [])
  else if capacity < buffer.length + piece.length then (buffer, piece)
  else ([], buffer ++ piece)

theorem handover_append (buffer piece : List Byte) :
    (handover buffer piece).1 ++ (handover buffer piece).2 = buffer ++ piece := by
  unfold handover
  split
  · exact List.append_nil _
  · split <;> rfl

/-- If a part is not taken completely the rest is lost. -/
theorem write_eq (b : BufferedSink) (piece : List Byte) :
    b.write piece = if (b.sink.put (handover b.buffer piece).1).2 then
        .ok ⟨(b.sink.put (handover b.buffer piece).1).1, (handover b.buffer piece).2⟩
      else .error ⟨(b.sink.put (handover b.buffer piece).1).1, []⟩ := by
  have hnone : (b.sink.put []).2 = true := by
    unfold Sink.put
    split <;> simp
  by_cases hlarge : capacity ≤ piece.length
  · have hfits : ¬b.buffer.length + piece.length < capacity := by omega
    by_cases hflush : capacity < b.buffer.length + piece.length
    · simp only [handover, hlarge, ↓reduceIte, Sink.put_append_snd]
      cases hdone : (b.sink.put b.buffer).2 with
      | false => simp [write, hfits, hflush, hdone, Sink.put_of_full hdone]
      | true =>
        rw [← Sink.put_put]
        cases hall : ((b.sink.put b.buffer).1.put piece).2 <;>
          simp [write, hfits, hflush, hdone, hlarge, hall]
    · -- Then the buffer is empty.
      have hempty : b.buffer = [] := List.length_eq_zero_iff.mp (by omega)
      rw [hempty, List.length_nil, Nat.zero_add] at hfits hflush
      cases hall : (b.sink.put piece).2 <;>
        simp [handover, write, hempty, hfits, hflush, hlarge, hall]
  · by_cases hflush : capacity < b.buffer.length + piece.length
    · have hfits : ¬b.buffer.length + piece.length < capacity := by omega
      cases hdone : (b.sink.put b.buffer).2 <;>
        simp [handover, write, hfits, hflush, hdone, hlarge]
    · by_cases hfits : b.buffer.length + piece.length < capacity <;>
        simp [handover, write, hfits, hflush, hlarge, hnone, Sink.put_nil]

theorem write_cases (b : BufferedSink) (piece : List Byte) :
    ∃ part rest, b.buffer ++ piece = part ++ rest ∧
      (b.write piece = .ok ⟨(b.sink.put part).1, rest⟩ ∨
        (b.sink.put part).2 = false ∧ b.write piece = .error ⟨(b.sink.put part).1, []⟩) := by
  refine ⟨_, _, (handover_append b.buffer piece).symm, ?_⟩
  rw [write_eq]
  cases hdone : (b.sink.put (handover b.buffer piece).1).2 with
  | true => exact .inl (by simp)
  | false => exact .inr ⟨rfl, by simp⟩

/-- However the pieces are cut and whether or not something fails, the file holds in the end what it
would hold if everything had been handed on at once. -/
theorem close_writeAll (b : BufferedSink) (pieces : List (List Byte)) :
    (∀ b', b.writeAll pieces = .ok b' → b'.close = (b.sink.put (b.buffer ++ pieces.flatten)).1) ∧
      ∀ b', b.writeAll pieces = .error b' →
        b'.close = (b.sink.put (b.buffer ++ pieces.flatten)).1 := by
  induction pieces generalizing b with
  | nil =>
    refine ⟨fun b' h => ?_, fun b' h => ?_⟩
    · obtain rfl := Except.ok.inj h
      simp [close]
    · cases h
  | cons piece pieces ih =>
    obtain ⟨part, rest, hparts, hok | ⟨hfull, herror⟩⟩ := b.write_cases piece
    · have hrest : b.writeAll (piece :: pieces) =
          writeAll ⟨(b.sink.put part).1, rest⟩ pieces := by
        simp [writeAll, hok, bind, Except.bind]
      have hsame : (b.sink.put (b.buffer ++ (piece :: pieces).flatten)).1 =
          ((b.sink.put part).1.put (rest ++ pieces.flatten)).1 := by
        rw [List.flatten_cons, ← List.append_assoc, hparts, Sink.put_put, List.append_assoc]
      rw [hrest, hsame]
      exact ih _
    · have hrest : b.writeAll (piece :: pieces) = .error ⟨(b.sink.put part).1, []⟩ := by
        simp [writeAll, herror, bind, Except.bind]
      rw [hrest]
      refine ⟨fun b' h => (by cases h), fun b' h => ?_⟩
      obtain rfl := Except.error.inj h
      rw [close, Sink.put_nil, List.flatten_cons, ← List.append_assoc, hparts, List.append_assoc,
        Sink.put_of_full hfull]

/-- A file that can take all pieces together takes them one after the other. -/
theorem exists_writeAll (b : BufferedSink) (pieces : List (List Byte))
    (h : (b.sink.put (b.buffer ++ pieces.flatten)).2 = true) : ∃ b', b.writeAll pieces = .ok b' := by
  induction pieces generalizing b with
  | nil => exact ⟨b, rfl⟩
  | cons piece pieces ih =>
    obtain ⟨part, rest, hparts, hwrite⟩ := b.write_cases piece
    rw [List.flatten_cons, ← List.append_assoc, hparts, List.append_assoc, Sink.put_append_snd,
      Bool.and_eq_true] at h
    rcases hwrite with hok | ⟨hfull, -⟩
    · simpa [writeAll, hok, bind, Except.bind] using ih ⟨(b.sink.put part).1, rest⟩ h.2
    · simp [hfull] at h

end BufferedSink

namespace Report

private theorem pour_eq (s : Sink) (pieces : List (List Byte)) :
    (pour s pieces).1 = (s.put pieces.flatten).1 := by
  obtain ⟨hok, herror⟩ := BufferedSink.close_writeAll ⟨s, []⟩ pieces
  unfold pour
  cases h : BufferedSink.writeAll ⟨s, []⟩ pieces with
  | ok b => exact hok b h
  | error b => exact herror b h

private theorem flatten_map_encodeChars (parts : List (List Char)) :
    (parts.map Text.Utf8.encodeChars).flatten = Text.Utf8.encodeChars parts.flatten := by
  induction parts with
  | nil => rfl
  | cons p ps ih =>
    rw [List.map_cons, List.flatten_cons, ih, List.flatten_cons, Text.Utf8.encodeChars,
      Text.Utf8.encodeChars, Text.Utf8.encodeChars, List.flatMap_append]

theorem flatten_pieces (r : Report) : r.pieces.flatten = Text.Utf8.encode r.text := by
  rw [pieces, flatten_map_encodeChars, Json.flatten_prettyPieces, text, Json.renderPretty,
    Text.Utf8.encode, String.toList_ofList]

/-- Where the file can be made, it gets the text, as far as there is room. -/
theorem save_of_fileLocation {fs : FileSystem} {file : Path} {loc : Location}
    (h : fs.fileLocation file = .ok loc) (r : Report) (room : Option Nat) :
    (r.save fs room file).1 = fs.fill loc (Sink.fits room (Text.Utf8.encode r.text)) := by
  simp only [save, h, pour_eq, flatten_pieces, Sink.written_put, List.nil_append]
  unfold FileSystem.fill FileSystem.roomAt
  cases fs.entry? loc with
  | none => rfl
  | some entry => cases entry <;> rfl

/-- Where the file can be made and there is room for the text, nothing goes wrong and the file holds
the text. -/
theorem exists_save {fs : FileSystem} {file : Path} {loc : Location} (r : Report)
    (room : Option Nat) (h : fs.fileLocation file = .ok loc)
    (hplace : fs.entry? loc = none ∨ ∃ old, fs.entry? loc = some (.file old))
    (hroom : ∀ n ∈ room, (Text.Utf8.encode r.text).length ≤ n) :
    ∃ files, r.save fs room file = (files, .ok ()) ∧
      files.contentAt file = .ok (Text.Utf8.encode r.text) := by
  have hroomAt : (fs.roomAt room loc).1 = room := by
    obtain hnone | ⟨old, hold⟩ := hplace
    · simp [FileSystem.roomAt, hnone]
    · simp [FileSystem.roomAt, hold]
  have htakes : (Sink.put { room } r.pieces.flatten).2 = true := by
    rw [flatten_pieces]
    exact Sink.put_snd_of_room hroom
  obtain ⟨b, hb⟩ := BufferedSink.exists_writeAll ⟨{ room }, []⟩ r.pieces htakes
  have hdone : (r.save fs room file).2 = .ok () := by simp [save, h, hroomAt, pour, hb]
  have hfits : Sink.fits room (Text.Utf8.encode r.text) = Text.Utf8.encode r.text := by
    cases hr : room with
    | none => rfl
    | some n => exact List.take_of_length_le (hroom n hr)
  refine ⟨(r.save fs room file).1, Prod.ext rfl hdone, ?_⟩
  rw [save_of_fileLocation h, hfits, FileSystem.contentAt_fill h hplace]

end Report

end SuiteRunner
