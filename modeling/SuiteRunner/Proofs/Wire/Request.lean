import SuiteRunner.Proofs.Json.Numbers
import SuiteRunner.Proofs.Json.Records
import SuiteRunner.Proofs.Text.Utf8
import SuiteRunner.Wire.Request

/-! # Requests survive the wire -/
namespace SuiteRunner.Wire

open Json (Node Shape Writable WritableItems memberNodes node toList_nodes)

/-! ## What has a frame -/

private theorem toJson?_isSome_iff {t : Descriptor} :
    t.toJson?.isSome = true ↔ ∀ file ∈ t.files, file.text?.isSome = true := by
  rw [← mapM_isSome_iff]
  unfold Descriptor.toJson?
  cases t.files.mapM Path.text? <;> simp

/-- Exactly the requests whose files are all valid text have a frame. -/
theorem encode?_isSome_iff {r : Request} :
    r.encode?.isSome = true ↔ ∀ t ∈ r.tests, ∀ file ∈ t.files, file.text?.isSome = true := by
  simp only [← toJson?_isSome_iff]
  rw [← mapM_isSome_iff]
  unfold Request.encode? Request.toJson?
  cases r.tests.mapM Descriptor.toJson? <;> simp

/-! ## What a frame is read as -/

private theorem ofString_of_text? {p : Path} {s : String} (h : p.text? = some s) :
    Path.ofString s = p := by
  rw [Path.ofString, Text.Utf8.encode_of_decode? h]

/-- The JSON form of a test is read as that test. -/
theorem ofNode_toJson? {t : Descriptor} {j : Json} (h : t.toJson? = some j) :
    j.Writable ∧ Descriptor.ofNode (node j) = .ok t := by
  obtain ⟨texts, htexts, h⟩ := Option.bind_eq_some_iff.mp h
  obtain rfl := Option.some.inj h
  rw [mapM_eq_some_iff] at htexts
  have hfiles : (node (.array (texts.map .string))).toList Node.toText = .ok texts := by
    apply toList_nodes
    rw [List.forall₂_map_left_iff]
    exact List.forall₂_same.mpr fun s _ => rfl
  have hpaths : texts.map Path.ofString = t.files := by
    have hall : List.Forall₂ (· = ·) t.files (texts.map Path.ofString) :=
      List.forall₂_map_right_iff.mpr (htexts.imp fun _ _ h => (ofString_of_text? h).symm)
    rw [List.forall₂_eq_eq_eq] at hall
    exact hall.symm
  constructor
  · refine ⟨trivial, ?_, trivial⟩
    exact Json.writableItems_iff.mpr (by simp [Writable])
  · have hstore : descriptorShape.store { name := some t.name } "files"
        (node (.array (texts.map .string))) =
        .ok { name := some t.name, files := some t.files } := by
      rw [← hpaths]
      simp only [descriptorShape, hfiles]
      rfl
    have hread : descriptorShape.read {} (node (.object [("name", .string t.name),
        ("files", .array (texts.map .string))])) =
        .ok { name := some t.name, files := some t.files } := by
      refine Shape.read_object ?_
      simp only [memberNodes]
      rw [Shape.members_cons (by decide) rfl rfl, Shape.members_cons (by decide) rfl hstore]
      rfl
    rw [Descriptor.ofNode, hread]
    rfl

/-- A frame is an object with the id and the tests, which are read as those of the request. -/
theorem exists_of_encode? {r : Request} {frame : String} (h : r.encode? = some frame) :
    ∃ js, frame = (Json.object [("id", .nat r.id), ("tests", .array js)]).render ∧
      Writable (.object [("id", .nat r.id), ("tests", .array js)]) ∧
      (node (.array js)).toList Descriptor.ofNode = .ok r.tests := by
  obtain ⟨j, hj, rfl⟩ := Option.map_eq_some_iff.mp h
  obtain ⟨js, hjs, hj⟩ := Option.bind_eq_some_iff.mp hj
  obtain rfl := Option.some.inj hj
  rw [mapM_eq_some_iff] at hjs
  refine ⟨js, rfl, ⟨Json.writable_nat r.id, Json.writableItems_iff.mpr fun j hj => ?_, trivial⟩, ?_⟩
  · obtain ⟨t, ht⟩ := exists_of_forall₂ hjs hj
    exact (ofNode_toJson? ht).1
  · exact toList_nodes (hjs.flip.imp fun _ _ h => (ofNode_toJson? h).2)

/-- A frame is read as the request it was made for. -/
theorem decode_of_encode? {r : Request} {frame : String} (hid : r.id < 2 ^ 64)
    (h : r.encode? = some frame) : Request.decode frame = .ok r := by
  obtain ⟨js, rfl, hwritable, htests⟩ := exists_of_encode? h
  have hid' : requestShape.store {} "id" (node (.nat r.id)) = .ok { id := some r.id } := by
    simp only [requestShape, Json.toNat_nat hid]
    rfl
  have hstore : requestShape.store { id := some r.id } "tests" (node (.array js)) =
      .ok { id := some r.id, tests := some r.tests } := by
    simp only [requestShape, htests]
    rfl
  have hread : requestShape.read {} (node (.object [("id", .nat r.id), ("tests", .array js)])) =
      .ok { id := some r.id, tests := some r.tests } := by
    refine Shape.read_object ?_
    simp only [memberNodes]
    rw [Shape.members_cons (by decide) rfl hid', Shape.members_cons (by decide) rfl hstore]
    rfl
  rw [Request.decode, Json.decode_render _ hwritable, Request.ofNode, hread]
  rfl

/-- Whatever its id is, no frame is read as one with other tests. -/
theorem tests_of_decode {r q : Request} {frame : String} (h : r.encode? = some frame)
    (hq : Request.decode frame = .ok q) : q.tests = r.tests := by
  obtain ⟨js, rfl, hwritable, htests⟩ := exists_of_encode? h
  rw [Request.decode, Json.decode_render _ hwritable, Request.ofNode] at hq
  obtain ⟨draft, hread, hq⟩ := bind_eq_ok_iff.mp hq
  obtain ⟨id, hid, hq⟩ := bind_eq_ok_iff.mp hq
  obtain ⟨tests, htests', hq⟩ := bind_eq_ok_iff.mp hq
  obtain rfl := Except.ok.inj hq
  rw [Json.required_eq_ok_iff] at htests'
  have hmembers := Shape.read_object_iff.mp hread
  simp only [memberNodes] at hmembers
  rw [Shape.members_some] at hmembers
  obtain ⟨first, hfirst, hmembers⟩ := bind_eq_ok_iff.mp hmembers
  obtain ⟨-, -, hfirst⟩ | ⟨hname, -⟩ := Shape.member_cases hfirst
  · obtain ⟨k, -, hfirst⟩ := bind_eq_ok_iff.mp hfirst
    obtain rfl := Except.ok.inj hfirst
    have hstore : requestShape.store { id := some k } "tests" (node (.array js)) =
        .ok { id := some k, tests := some r.tests } := by
      simp only [requestShape, htests]
      rfl
    have hlast := (Shape.members_cons (by decide) rfl hstore []).symm.trans hmembers
    obtain rfl := Except.ok.inj hlast
    exact (Option.some.inj htests').symm
  · exact absurd (by decide) hname

/-! ## Frames and requests belong together -/

/-- A request has a frame exactly if all its files are valid UTF-8. The frame is read as the request
it was made for, and no other request has the same one. -/
theorem request_roundTrip (r : Request) (hid : r.id < 2 ^ 64) :
    (r.encode?.isSome = true ↔
      ∀ t ∈ r.tests, ∀ file ∈ t.files, file.bytes.toByteArray.IsValidUTF8) ∧
    ∀ frame, r.encode? = some frame →
      Request.decode frame = .ok r ∧
      ∀ r' : Request, r'.id < 2 ^ 64 → r'.encode? = some frame → r' = r := by
  refine ⟨?_, fun frame hframe => ⟨decode_of_encode? hid hframe, fun r' hid' hframe' => ?_⟩⟩
  · rw [encode?_isSome_iff]
    simp only [Path.text?, Text.Utf8.decode?_isSome_iff]
  · have hr := decode_of_encode? hid hframe
    rw [decode_of_encode? hid' hframe'] at hr
    exact Except.ok.inj hr

/-- The largest id, a name with every kind of escape in its frame, and a test without files. -/
theorem request_roundTrip_widest :
    let r : Request := ⟨2 ^ 64 - 1, [⟨"\"a\\b\n\x01😀", [.ofString "/é"]⟩, ⟨"", []⟩]⟩
    let frame := "\x7b\"id\":18446744073709551615,\"tests\":[" ++
      "\x7b\"name\":\"\\\"a\\\\b\\n\\u0001😀\",\"files\":[\"/é\"]\x7d," ++
      "\x7b\"name\":\"\",\"files\":[]\x7d]\x7d"
    r.id < 2 ^ 64 ∧ r.encode? = some frame ∧ Request.decode frame = .ok r := by
  intro r frame
  have hid : r.id < 2 ^ 64 := by decide
  have hframe : r.encode? = some frame := by decide +kernel
  exact ⟨hid, hframe, ((request_roundTrip r hid).2 frame hframe).1⟩

end SuiteRunner.Wire
