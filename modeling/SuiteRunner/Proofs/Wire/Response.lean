import SuiteRunner.Proofs.Json.Numbers
import SuiteRunner.Proofs.Wire.Verdict

/-! # What a response is read from

Any text of a value is read alike, as the response that the members of the value say. In particular
a response is read back from its own frame. -/
namespace SuiteRunner.Wire

open Json (DistinctNames IsNatural Node Orderly Renders Reorders Shape Writable memberNodes node
  required)

/-- What a response has to say, in any order and among any other members. -/
structure Conforms (ms : List (String × Json)) (e : Response) : Prop where
  id : ∃ x, ("id", x) ∈ ms ∧ IsNatural x e.id
  index : ∃ x, ("index", x) ∈ ms ∧ IsNatural x e.index
  result : ∃ x, ("result", x) ∈ ms ∧ Tells x e.verdict

theorem store_id {d d' : ResponseDraft} {n : Node} :
    responseShape.store d "id" n = .ok d' ↔
      ∃ k, n.toNat = .ok k ∧ d' = { d with id := some k } :=
  bind_ok_eq_ok_iff

theorem store_index {d d' : ResponseDraft} {n : Node} :
    responseShape.store d "index" n = .ok d' ↔
      ∃ k, n.toNat = .ok k ∧ d' = { d with index := some k } :=
  bind_ok_eq_ok_iff

theorem store_result {d d' : ResponseDraft} {n : Node} :
    responseShape.store d "result" n = .ok d' ↔
      ∃ v, Verdict.ofNode n = .ok v ∧ d' = { d with verdict := some v } :=
  bind_ok_eq_ok_iff

theorem mem_responseNames {name : String} (h : name ∈ responseShape.names) :
    name = "id" ∨ name = "index" ∨ name = "result" := by
  simpa [responseShape] using h

/-- Whatever is stored, one field changes and the others stay. -/
theorem store_cases {d d' : ResponseDraft} {name : String} {n : Node}
    (hname : name ∈ responseShape.names) (h : responseShape.store d name n = .ok d') :
    (name = "id" ∧ ∃ k, n.toNat = .ok k ∧ d' = { d with id := some k }) ∨
    (name = "index" ∧ ∃ k, n.toNat = .ok k ∧ d' = { d with index := some k }) ∨
    (name = "result" ∧ ∃ v, Verdict.ofNode n = .ok v ∧ d' = { d with verdict := some v }) := by
  obtain rfl | rfl | rfl := mem_responseNames hname
  · exact .inl ⟨rfl, store_id.mp h⟩
  · exact .inr (.inl ⟨rfl, store_index.mp h⟩)
  · exact .inr (.inr ⟨rfl, store_result.mp h⟩)

private theorem field_id : responseShape.Field "id" ResponseDraft.id Node.toNat where
  mem := by decide
  stored h := by
    obtain ⟨k, hk, rfl⟩ := store_id.mp h
    exact ⟨k, hk, rfl⟩
  other hmem hname h := by
    obtain ⟨rfl, -⟩ | ⟨-, k, -, rfl⟩ | ⟨-, v, -, rfl⟩ := store_cases hmem h
    · exact absurd rfl hname
    · rfl
    · rfl

private theorem field_index : responseShape.Field "index" ResponseDraft.index Node.toNat where
  mem := by decide
  stored h := by
    obtain ⟨k, hk, rfl⟩ := store_index.mp h
    exact ⟨k, hk, rfl⟩
  other hmem hname h := by
    obtain ⟨-, k, -, rfl⟩ | ⟨rfl, -⟩ | ⟨-, v, -, rfl⟩ := store_cases hmem h
    · rfl
    · exact absurd rfl hname
    · rfl

private theorem field_result :
    responseShape.Field "result" ResponseDraft.verdict Verdict.ofNode where
  mem := by decide
  stored h := by
    obtain ⟨v, hv, rfl⟩ := store_result.mp h
    exact ⟨v, hv, rfl⟩
  other hmem hname h := by
    obtain ⟨-, k, -, rfl⟩ | ⟨-, k, -, rfl⟩ | ⟨rfl, -⟩ := store_cases hmem h
    · rfl
    · rfl
    · exact absurd rfl hname

private theorem exists_draft {ms : List (String × Json)} (hms : DistinctNames ms) {k k' : Nat}
    {v : Verdict} (hid : ∃ x, ("id", x) ∈ ms ∧ (node x).toNat = .ok k)
    (hindex : ∃ x, ("index", x) ∈ ms ∧ (node x).toNat = .ok k')
    (hresult : ∃ x, ("result", x) ∈ ms ∧ Verdict.ofNode (node x) = .ok v) :
    ∃ d, responseShape.members {} (memberNodes ms) = .ok d := by
  obtain ⟨x, hx, hid⟩ := hid
  obtain ⟨y, hy, hindex⟩ := hindex
  obtain ⟨z, hz, hresult⟩ := hresult
  refine Shape.exists_members ?_ hms ?_ ?_
  · intro r r' n name name' hmem hmem' hname h
    obtain ⟨rfl, k, -, rfl⟩ | ⟨rfl, k, -, rfl⟩ | ⟨rfl, v, -, rfl⟩ := store_cases hmem h <;>
      obtain rfl | rfl | rfl := mem_responseNames hmem' <;>
        first | rfl | exact absurd rfl hname
  · intro name w hw hmem r
    obtain rfl | rfl | rfl := mem_responseNames hmem
    · exact ⟨_, store_id.mpr ⟨k, hms.eq hx hw ▸ hid, rfl⟩⟩
    · exact ⟨_, store_index.mpr ⟨k', hms.eq hy hw ▸ hindex, rfl⟩⟩
    · exact ⟨_, store_result.mpr ⟨v, hms.eq hz hw ▸ hresult, rfl⟩⟩
  · intro name w _ hmem
    obtain rfl | rfl | rfl := mem_responseNames hmem <;> rfl

theorem response_ofNode_iff {ms : List (String × Json)} (hms : DistinctNames ms) {e : Response} :
    Response.ofNode (node (.object ms)) = .ok e ↔
      (∃ x, ("id", x) ∈ ms ∧ (node x).toNat = .ok e.id) ∧
      (∃ x, ("index", x) ∈ ms ∧ (node x).toNat = .ok e.index) ∧
      ∃ x, ("result", x) ∈ ms ∧ Verdict.ofNode (node x) = .ok e.verdict := by
  have hdraft {d : ResponseDraft} (h : responseShape.members {} (memberNodes ms) = .ok d) :
      ((∃ x, ("id", x) ∈ ms ∧ (node x).toNat = .ok e.id) ∧
        (∃ x, ("index", x) ∈ ms ∧ (node x).toNat = .ok e.index) ∧
        ∃ x, ("result", x) ∈ ms ∧ Verdict.ofNode (node x) = .ok e.verdict) ↔
      d.id = some e.id ∧ d.index = some e.index ∧ d.verdict = some e.verdict := by
    rw [field_id.eq_some_iff hms h rfl, field_index.eq_some_iff hms h rfl,
      field_result.eq_some_iff hms h rfl]
  constructor
  · intro h
    obtain ⟨d, hd, h⟩ := bind_eq_ok_iff.mp h
    obtain ⟨k, hk, h⟩ := bind_eq_ok_iff.mp h
    obtain ⟨k', hk', h⟩ := bind_eq_ok_iff.mp h
    obtain ⟨v, hv, h⟩ := bind_eq_ok_iff.mp h
    obtain rfl := Except.ok.inj h
    rw [Json.required_eq_ok_iff] at hk hk' hv
    exact (hdraft (Shape.read_object_iff.mp hd)).mpr ⟨hk, hk', hv⟩
  · intro h
    obtain ⟨d, hd⟩ := exists_draft hms h.1 h.2.1 h.2.2
    obtain ⟨hid, hindex, hverdict⟩ := (hdraft hd).mp h
    rw [node, Response.ofNode, Shape.read_object hd]
    simp only [bind, Except.bind, hid, hindex, hverdict, required]

/-- A response is read exactly from the objects that say what it has to say. -/
theorem response_ofNode_iff_conforms {ms : List (String × Json)} (h : Orderly (.object ms))
    (hwritable : Writable (.object ms)) {e : Response} :
    Response.ofNode (node (.object ms)) = .ok e ↔ Conforms ms e := by
  have hnumber {name : String} {n : Nat} : (∃ x, (name, x) ∈ ms ∧ (node x).toNat = .ok n) ↔
      ∃ x, (name, x) ∈ ms ∧ IsNatural x n := by
    refine exists_congr fun x => and_congr_right fun hx => ?_
    exact Json.toNat_node_iff (Json.writableMembers_iff.mp hwritable _ hx)
  have hresult : (∃ x, ("result", x) ∈ ms ∧ Verdict.ofNode (node x) = .ok e.verdict) ↔
      ∃ x, ("result", x) ∈ ms ∧ Tells x e.verdict := by
    refine exists_congr fun x => and_congr_right fun hx => ?_
    have hparts : ∀ y ∈ x.parts, y ∈ (Json.object ms).parts := fun y hy =>
      List.mem_cons_of_mem _ (Json.mem_partsMembers.mpr ⟨_, hx, hy⟩)
    have hdepth := h.shallow
    rw [Json.depth, Nat.succ_le_iff] at hdepth
    have hle : x.depth ≤ _ := Json.depthMembers_le_iff.mp (Nat.le_refl _) _ hx
    refine verdict_ofNode_iff (h.distinct x (hparts x (Json.mem_parts_self x)))
      (fun y hy => h.fits y (hparts y hy)) ?_
    rw [verdictDepth]
    exact Nat.le_of_lt (by omega)
  rw [response_ofNode_iff h.distinctNames, hnumber, hnumber, hresult]
  exact ⟨fun ⟨hid, hindex, hresult⟩ => ⟨hid, hindex, hresult⟩,
    fun ⟨hid, hindex, hresult⟩ => ⟨hid, hindex, hresult⟩⟩

/-! ## The order of members does not count -/

theorem Conforms.reorders {ms ns : List (String × Json)} {e : Response} (h : Conforms ms e)
    (hns : Reorders (.object ms) (.object ns)) : Conforms ns e := by
  have hnumber {name : String} {n : Nat} (hx : ∃ x, (name, x) ∈ ms ∧ IsNatural x n) :
      ∃ y, (name, y) ∈ ns ∧ IsNatural y n := by
    obtain ⟨x, hx, hn⟩ := hx
    refine ⟨x, hns.scalar_member hx ?_, hn⟩
    obtain ⟨l, rfl, -⟩ := hn
    rfl
  obtain ⟨x, hx, hv⟩ := h.result
  obtain ⟨y, hy, hxy⟩ := hns.member hx
  exact ⟨hnumber h.id, hnumber h.index, y, hy, hv.reorders hxy⟩

/-! ## Any text of a value says the same -/

/-- Results that differ at most in members that do not count. -/
inductive SameResult : Json → Json → Prop where
  | refl (x : Json) : SameResult x x
  | object {ms ns : List (String × Json)}
      (h : ∀ name ∈ ["status", "errorMessage"], ∀ x, (name, x) ∈ ms ↔ (name, x) ∈ ns) :
      SameResult (.object ms) (.object ns)

/-- Responses that differ at most in members that do not count. -/
structure SameEssentials (ms ns : List (String × Json)) : Prop where
  numbers : ∀ name ∈ ["id", "index"], ∀ x, (name, x) ∈ ms ↔ (name, x) ∈ ns
  left : ∀ x, ("result", x) ∈ ms → ∃ y, ("result", y) ∈ ns ∧ SameResult x y
  right : ∀ y, ("result", y) ∈ ns → ∃ x, ("result", x) ∈ ms ∧ SameResult x y

theorem SameResult.symm {x y : Json} (h : SameResult x y) : SameResult y x := by
  cases h with
  | refl => exact .refl x
  | object h => exact .object fun name hname z => (h name hname z).symm

theorem SameEssentials.symm {ms ns : List (String × Json)} (h : SameEssentials ms ns) :
    SameEssentials ns ms where
  numbers name hname x := (h.numbers name hname x).symm
  left y hy := by
    obtain ⟨x, hx, hxy⟩ := h.right y hy
    exact ⟨x, hx, hxy.symm⟩
  right x hx := by
    obtain ⟨y, hy, hxy⟩ := h.left x hx
    exact ⟨y, hy, hxy.symm⟩

theorem Tells.same {x y : Json} {v : Verdict} (hx : Tells x v) (h : SameResult x y) :
    Tells y v := by
  cases h with
  | refl => exact hx
  | object h =>
    have hstatus := h "status" (by simp)
    have hmessage := h "errorMessage" (by simp)
    cases hx with
    | ok hs => exact .ok ((hstatus _).mp hs)
    | failed hs hnone => exact .failed ((hstatus _).mp hs) fun z hz => hnone z ((hmessage z).mpr hz)
    | failedWith hs hx hm => exact .failedWith ((hstatus _).mp hs) ((hmessage _).mp hx) hm

theorem Conforms.same {ms ns : List (String × Json)} {e : Response} (h : Conforms ms e)
    (hns : SameEssentials ms ns) : Conforms ns e := by
  obtain ⟨x, hx, hid⟩ := h.id
  obtain ⟨y, hy, hindex⟩ := h.index
  obtain ⟨z, hz, hv⟩ := h.result
  obtain ⟨z', hz', hzz'⟩ := hns.left z hz
  exact ⟨⟨x, (hns.numbers "id" (by simp) x).mp hx, hid⟩,
    ⟨y, (hns.numbers "index" (by simp) y).mp hy, hindex⟩, z', hz', hv.same hzz'⟩

private theorem decode_renders_iff {ms : List (String × Json)} {t : String}
    (h : Orderly (.object ms))
    (ht : Renders (.object ms) t) {e : Response} : Response.decode t = .ok e ↔ Conforms ms e := by
  obtain ⟨j, hj, hwritable, hdecode⟩ := ht.exists_decode
  obtain ⟨_, ns, rfl, -⟩ := id hj
  rw [Response.decode, hdecode, response_ofNode_iff_conforms (h.reorders hj) hwritable]
  exact ⟨fun hns => hns.reorders hj.symm, fun hms => hms.reorders hj⟩

/-- Any text of an orderly object is read alike: as the response that the object says, and with an
error if it says none. Members that a response does not ask for make no difference. -/
theorem decode_depends_on_value {ms : List (String × Json)} {t : String} (h : Orderly (.object ms))
    (ht : Renders (.object ms) t) :
    (∀ e, Response.decode t = .ok e ↔ Conforms ms e) ∧
    ((∀ e, ¬ Conforms ms e) → ∃ fault, Response.decode t = .error fault) ∧
    ∀ ns u, Orderly (.object ns) → Renders (.object ns) u → SameEssentials ms ns →
      ∀ e, Response.decode t = .ok e ↔ Response.decode u = .ok e := by
  refine ⟨fun e => decode_renders_iff h ht, fun hnone => ?_, fun ns u hns hu hsame e => ?_⟩
  · cases hdecode : Response.decode t with
    | error fault => exact ⟨fault, rfl⟩
    | ok e => exact absurd ((decode_renders_iff h ht).mp hdecode) (hnone e)
  · rw [decode_renders_iff h ht, decode_renders_iff hns hu]
    exact ⟨fun hms => hms.same hsame, fun hns => hns.same hsame.symm⟩

/-- All members in the opposite order, one that nobody asked for, and blanks around them. -/
theorem decode_depends_on_value_shuffled :
    let ms : List (String × Json) := [("id", .nat 0), ("extra", .array [.null]), ("index", .nat 1),
      ("result", .object [("status", .string "failed"), ("errorMessage", .string "a")])]
    let t := " \x7b\"result\":\x7b\"errorMessage\":\"a\",\"status\":\"failed\"\x7d," ++
      "\"index\":1,\"extra\":[null],\"id\":0\x7d\n"
    Orderly (.object ms) ∧ Renders (.object ms) t ∧
      Response.decode t = .ok ⟨0, 1, .failed (some "a")⟩ := by
  intro ms t
  let ms' : List (String × Json) := [("id", .nat 0), ("extra", .array [.null]), ("index", .nat 1),
    ("result", .object [("errorMessage", .string "a"), ("status", .string "failed")])]
  have horderly : Orderly (.object ms) := ⟨by decide, by decide, by decide +kernel⟩
  have hreorders : Reorders (.object ms) (.object ms'.reverse) := by
    refine ⟨ms', _, rfl, ⟨_, _, rfl, rfl, _, _, rfl, ⟨_, rfl, _, _, rfl, rfl, rfl⟩, _, _, rfl, rfl,
      _, _, rfl, ?_, rfl⟩, (List.reverse_perm ms').symm⟩
    exact ⟨_, _, rfl, ⟨_, _, rfl, rfl, _, _, rfl, rfl, rfl⟩, .swap ..⟩
  have hwritable : Writable (.object ms'.reverse) :=
    ⟨⟨trivial, trivial, trivial⟩, Json.writable_nat 1, ⟨trivial, trivial⟩, Json.writable_nat 0,
      trivial⟩
  have hrenders : Renders (.object ms) t :=
    ⟨_, hreorders, [' '], _, ['\n'], by simp [Json.Blank, Json.isSpace],
      Json.spells_compact _ hwritable, by simp [Json.Blank, Json.isSpace], by decide +kernel⟩
  have hconforms : Conforms ms ⟨0, 1, .failed (some "a")⟩ :=
    ⟨⟨.nat 0, by simp [ms], Json.isNatural_nat (by decide)⟩,
      ⟨.nat 1, by simp [ms], Json.isNatural_nat (by decide)⟩,
      _, .tail _ (.tail _ (.tail _ (.head _))), .failedWith (.head _) (.tail _ (.head _)) rfl⟩
  exact ⟨horderly, hrenders, ((decode_depends_on_value horderly hrenders).1 _).mpr hconforms⟩

/-- What counts is whether the conversion of a number overflows, not whether the number is beyond
the largest double. This one is not, and without its last zero it is read. -/
theorem decode_refuses_number_in_range :
    let ms : List (String × Json) := [("id", .nat 0), ("index", .nat 0), ("result",
      .object [("status", .string "OK"), ("size", .number "1.797693134862315660e308")])]
    let text (number : String) := "\x7b\"id\":0,\"index\":0,\"result\":\x7b\"status\":\"OK\"," ++
      "\"size\":" ++ number ++ "\x7d\x7d"
    (∀ x ∈ (Json.object ms).parts, x.names.Nodup) ∧ (Json.object ms).depth ≤ 100 ∧
      (∀ x ∈ (Json.object ms).parts, x.withinDoubles = true) ∧
      Renders (.object ms) (text "1.797693134862315660e308") ∧ Conforms ms ⟨0, 0, .ok⟩ ∧
      Response.decode (text "1.797693134862315660e308") = .error .malformed ∧
      Response.decode (text "1.79769313486231566e308") = .ok ⟨0, 0, .ok⟩ := by
  intro ms text
  have hdigits (ds : List Char) (hne : ds.isEmpty = false) (h : ds.all Text.isDigit = true) :
      Json.Digits ds := ⟨by simpa using hne, List.all_eq_true.mp h⟩
  have hnumeral : Json.IsNumeral "1.797693134862315660e308".toList :=
    ⟨[], ['1'], '.' :: "797693134862315660".toList, 'e' :: ([] ++ "308".toList), by decide +kernel,
      .inl rfl, hdigits _ rfl rfl, by simp, .digits (hdigits _ rfl (by decide +kernel)),
      .digits (.inl rfl) (.inl rfl) (hdigits _ rfl (by decide +kernel))⟩
  have hwritable : Writable (.object ms) :=
    ⟨Json.writable_nat 0, Json.writable_nat 0, ⟨trivial, hnumeral, trivial⟩, trivial⟩
  have hrenders : Renders (.object ms) (text "1.797693134862315660e308") :=
    ⟨_, .refl _, [], _, [], by simp [Json.Blank], Json.spells_compact _ hwritable,
      by simp [Json.Blank], by decide +kernel⟩
  have hconforms : Conforms ms ⟨0, 0, .ok⟩ :=
    ⟨⟨.nat 0, by simp [ms], Json.isNatural_nat (by decide)⟩,
      ⟨.nat 0, by simp [ms], Json.isNatural_nat (by decide)⟩,
      _, .tail _ (.tail _ (.head _)), .ok (.head _)⟩
  exact ⟨by decide, by decide, by decide +kernel, hrenders, hconforms, by decide +kernel,
    by decide +kernel⟩

/-! ## Responses survive the wire -/

/-- Both numbers of a response fit sixty-four bits. -/
def Response.InRange (e : Response) : Prop := e.id < 2 ^ 64 ∧ e.index < 2 ^ 64

private theorem writable_verdict (v : Verdict) : Writable v.toJson := by
  rcases v with _ | _ | m <;> simp [Verdict.toJson, Writable, Json.WritableMembers]

private theorem verdict_ofNode_toJson (v : Verdict) : Verdict.ofNode (node v.toJson) = .ok v := by
  rcases v with _ | _ | m <;> rfl

private theorem decode_encode {e : Response} (h : e.InRange) :
    Response.decode e.encode = .ok e := by
  have hwritable : e.toJson.Writable :=
    ⟨Json.writable_nat e.id, Json.writable_nat e.index, writable_verdict e.verdict, trivial⟩
  rw [Response.decode, Response.encode, Json.decode_render _ hwritable]
  refine (response_ofNode_iff (by simp [DistinctNames])).mpr ⟨⟨.nat e.id, by simp, ?_⟩,
    ⟨.nat e.index, by simp, ?_⟩, ⟨e.verdict.toJson, by simp, verdict_ofNode_toJson e.verdict⟩⟩
  · exact Json.toNat_nat h.1
  · exact Json.toNat_nat h.2

def ResponseDraft.InRange (d : ResponseDraft) : Prop :=
  (∀ n, d.id = some n → n < 2 ^ 64) ∧ ∀ n, d.index = some n → n < 2 ^ 64

private theorem inRange_store {d d' : ResponseDraft} {name : String} {n : Node}
    (hname : name ∈ responseShape.names) (hd : d.InRange)
    (h : responseShape.store d name n = .ok d') : d'.InRange := by
  have hlt {k k' : Nat} (hk : n.toNat = .ok k) (hk' : some k = some k') : k' < 2 ^ 64 := by
    obtain ⟨literal, -, hliteral⟩ := Json.toNat_eq_ok_iff.mp hk
    exact Option.some.inj hk' ▸ Json.lt_of_ofChars? hliteral
  obtain ⟨-, k, hk, rfl⟩ | ⟨-, k, hk, rfl⟩ | ⟨-, v, -, rfl⟩ := store_cases hname h
  · exact ⟨fun k' => hlt hk, hd.2⟩
  · exact ⟨hd.1, fun k' => hlt hk⟩
  · exact hd

private theorem inRange_of_decode {text : String} {e : Response}
    (h : Response.decode text = .ok e) : e.InRange := by
  obtain ⟨n, h⟩ := Json.exists_node_of_decode h
  obtain ⟨d, hd, h⟩ := bind_eq_ok_iff.mp h
  obtain ⟨k, hk, h⟩ := bind_eq_ok_iff.mp h
  obtain ⟨k', hk', h⟩ := bind_eq_ok_iff.mp h
  obtain ⟨v, -, h⟩ := bind_eq_ok_iff.mp h
  obtain rfl := Except.ok.inj h
  rw [Json.required_eq_ok_iff] at hk hk'
  have hrange : d.InRange := Shape.read_keeps inRange_store (by simp [ResponseDraft.InRange]) hd
  exact ⟨hrange.1 k hk, hrange.2 k' hk'⟩

/-- Every response is read back from its own frame, which no other response has. So whatever can be
read at all is read again after it was written. -/
theorem response_roundTrip :
    (∀ e : Response, e.InRange → Response.decode e.encode = .ok e ∧
      ∀ e' : Response, e'.InRange → e'.encode = e.encode → e' = e) ∧
    ∀ text e, Response.decode text = .ok e → Response.decode e.encode = .ok e := by
  refine ⟨fun e he => ⟨decode_encode he, fun e' he' hsame => ?_⟩,
    fun text e h => decode_encode (inRange_of_decode h)⟩
  have hdecode := decode_encode he'
  rw [hsame, decode_encode he] at hdecode
  exact (Except.ok.inj hdecode).symm

/-- No message and an empty one stay apart, and a message with all kinds of escapes comes back. -/
theorem response_roundTrip_messages :
    Response.encode ⟨2 ^ 64 - 1, 0, .failed none⟩ ≠
        Response.encode ⟨2 ^ 64 - 1, 0, .failed (some "")⟩ ∧
      Response.decode (Response.encode ⟨2 ^ 64 - 1, 0, .failed (some "\"\\\x00😀")⟩) =
        .ok ⟨2 ^ 64 - 1, 0, .failed (some "\"\\\x00😀")⟩ := by
  have hrange (v : Verdict) : Response.InRange ⟨2 ^ 64 - 1, 0, v⟩ := by
    simp [Response.InRange]
  refine ⟨fun h => ?_, (response_roundTrip.1 _ (hrange _)).1⟩
  have heq := (response_roundTrip.1 _ (hrange _)).2 _ (hrange _) h
  simp at heq

end SuiteRunner.Wire
