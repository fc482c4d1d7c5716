import SessionSyntax.Proofs.Decoding
import SessionSyntax.Proofs.Writing

/-! Decoding recovers the tree from the JSON it was written as, and from every variant of that. -/
namespace SessionSyntax

namespace Json

theorem Varies.of_string (varies : Varies (.string text) json) : json = .string text := by
  cases varies
  rfl

theorem Varies.of_array (varies : Varies (.array elements) json) :
    ∃ others, json = .array others ∧ List.Forall₂ Varies elements others := by
  cases varies with
  | array all => exact ⟨_, rfl, all⟩

theorem Varies.of_object (varies : Varies (.object fields) json) :
    ∃ others, List.Forall₂ FieldVaries fields others ∧ Carries others json := by
  cases varies with
  | node all carries => exact ⟨_, all, carries⟩

theorem FieldVaries.of_plain {value : Json} (varies : FieldVaries (name, value) field)
    (plain : name ∉ symbolFields) : ∃ other, field = (name, other) ∧ value.Varies other := by
  cases varies with
  | symbol member => exact absurd member plain
  | value varies => exact ⟨_, rfl, varies⟩

theorem FieldVaries.of_symbol {symbol : Symbol} (varies : FieldVaries (name, symbol.toJson) field)
    (canonical : symbol.Canonical) :
    ∃ other, field = (name, other) ∧ Decoder.symbol other = .ok symbol := by
  have own := Symbol.ofWord_of_canonical canonical
  cases varies with
  | symbol _ named same =>
    refine ⟨_, rfl, Decoder.symbol_eq_ok_iff.mpr ⟨_, rfl, named, ?_⟩⟩
    rw [← own]
    exact congrArg Symbol.mk same
  | value varies =>
    obtain rfl := varies.of_string
    exact ⟨_, rfl, Decoder.symbol_eq_ok_iff.mpr ⟨_, rfl, canonical.1, own⟩⟩

/-- A decoder that recovers each value recovers a list of them. -/
theorem forall₂_of_varied {item : Decoder α} {write : α → Json} {values : List α}
    (varied : List.Forall₂ Varies (values.map write) others)
    (each : ∀ value ∈ values, ∀ other ∈ others, (write value).Varies other → item other = .ok value) :
    List.Forall₂ (fun other value => item other = .ok value) others values := by
  induction values generalizing others with
  | nil =>
    cases varied
    exact .nil
  | cons value values ih =>
    cases varied with
    | cons varies varied =>
      refine .cons (each value (by simp) _ (by simp) varies) (ih varied fun value member other among => ?_)
      exact each value (List.mem_cons_of_mem _ member) other (List.mem_cons_of_mem _ among)

end Json

theorem Payload.allToJson_eq_map (payloads : List Payload) :
    Payload.allToJson payloads = payloads.map Payload.toJson := by
  induction payloads with
  | nil => rfl
  | cons payload payloads ih => rw [Payload.allToJson, ih, List.map_cons]

theorem Payload.carries_of_varies
    (varies : Json.Varies (.object [("kind", .string name), ("of", held)]) json) :
    ∃ other, Json.Carries [("kind", .string name), ("of", other)] json ∧ held.Varies other := by
  obtain ⟨_, _ | ⟨first, _ | ⟨second, _ | _⟩⟩, carries⟩ := varies.of_object
  obtain ⟨_, rfl, kind⟩ := first.of_plain (by decide)
  obtain ⟨other, rfl, varies⟩ := second.of_plain (by decide)
  obtain rfl := kind.of_string
  exact ⟨other, carries, varies⟩

theorem Decoder.payloadTag_string (setting : Setting) (json : Json) (name : String) :
    payloadTag setting json (.string name) = variantOf payloadTags name := by
  cases json <;> rfl

theorem Decoder.basicKind_toJson (setting : Setting) (kind : BasicKind) :
    basicKind setting kind.toJson = .ok kind := by
  cases kind <;> rfl

theorem Payload.decode_node (tagged : Decoder.variantOf Decoder.payloadTags name = .ok tag)
    (varies : Json.Varies (.object [("kind", .string name), ("of", held)]) json)
    (enough : json.depth < n) (inside : ∀ n other, held.Varies other → other.depth < n →
      Decoder.payloadOf setting (Decoder.payloadWithin setting n) tag other = .ok payload) :
    Decoder.payloadWithin setting n json = .ok payload := by
  obtain ⟨n, rfl⟩ := Nat.exists_eq_add_one.mpr (Nat.zero_lt_of_lt enough)
  obtain ⟨other, carries, varies⟩ := Payload.carries_of_varies varies
  -- One level of the allowance pays for the node, since what it carries is nested less deep.
  have below : other.depth < json.depth := carries.depth_lt (.tail _ (.head _))
  refine Decoder.payloadWithin_succ_eq_ok_iff.mpr ⟨_, tag, other, carries, ?_, ?_⟩
  · rw [Decoder.payloadTag_string, tagged]
  · exact inside n other varies (by omega)

theorem Payload.decode_varied (payload : Payload) (setting : Decoder.Setting)
    (varies : payload.toJson.Varies json) (enough : json.depth < n) :
    Decoder.payloadWithin setting n json = .ok payload := by
  induction payload generalizing json n with
  | basic kind =>
    refine Payload.decode_node rfl varies enough fun n other varies _ => ?_
    obtain rfl := varies.of_string
    exact map_eq_ok_iff.mpr ⟨kind, Decoder.basicKind_toJson setting kind, rfl⟩
  | list element =>
    refine Payload.decode_node rfl varies enough fun n other varies _ => ?_
    obtain rfl := varies.of_string
    exact map_eq_ok_iff.mpr ⟨element, Decoder.basicKind_toJson setting element, rfl⟩
  | tuple elements ih =>
    obtain ⟨first, rest⟩ := elements
    rw [Payload.toJson, Payload.allToJson_eq_map, ← List.map_cons] at varies
    refine Payload.decode_node rfl varies enough fun n held varies below => ?_
    obtain ⟨others, rfl, varied⟩ := varies.of_array
    refine map_eq_ok_iff.mpr ⟨⟨first, rest⟩, Decoder.nonEmpty_eq_ok_iff.mpr ⟨others, rfl, ?_⟩, rfl⟩
    refine Json.forall₂_of_varied varied fun payload member other among varies => ?_
    exact ih payload member varies ((Json.depth_lt_array among).trans below)

theorem Branch.allToJson_eq_map (branches : List Branch) :
    Branch.allToJson branches = branches.map Branch.toJson := by
  induction branches with
  | nil => rfl
  | cons branch branches ih => rw [Branch.allToJson, ih, List.map_cons]

theorem Branch.decode_varied {branch : Branch} (canonical : branch.Canonical)
    (setting : Decoder.Setting) {session : Decoder Session} (varies : branch.toJson.Varies json)
    (next : branch.continuation.Canonical → ∀ other, branch.continuation.toJson.Varies other →
      other.depth < json.depth → session other = .ok branch.continuation) :
    Decoder.branchWith setting session json = .ok branch := by
  obtain ⟨label, payload, continuation⟩ := branch
  obtain ⟨canonical, further⟩ := canonical
  rw [Branch.toJson] at varies
  obtain ⟨_, _ | ⟨first, _ | ⟨second, _ | ⟨third, _ | _⟩⟩⟩, carries⟩ := varies.of_object
  obtain ⟨label, rfl, named⟩ := first.of_symbol canonical
  obtain ⟨inside, rfl, carried⟩ := second.of_plain (by decide)
  obtain ⟨behind, rfl, continued⟩ := third.of_plain (by decide)
  have below : behind.depth < json.depth := carries.depth_lt (.tail _ (.tail _ (.head _)))
  exact Decoder.branchWith_eq_ok_iff.mpr ⟨label, inside, behind, carries, named,
    payload.decode_varied setting carried (Nat.lt_succ_self _), next further behind continued below⟩

theorem Session.decode_node (tagged : Decoder.variantOf Decoder.sessionTags name = .ok variant)
    (varies : Json.Varies (.object (("kind", .string name) :: fields)) json) (enough : json.depth < n)
    (holds : ∀ n others, List.Forall₂ Json.FieldVaries fields others →
      (∀ field value, (field, value) ∈ others → value.depth < n) →
      Decoder.SessionHolds (Decoder.sessionWithin .inside n) variant others session) :
    Decoder.sessionWithin setting n json = .ok session := by
  obtain ⟨n, rfl⟩ := Nat.exists_eq_add_one.mpr (Nat.zero_lt_of_lt enough)
  obtain ⟨_, _ | ⟨first, others⟩, carries⟩ := varies.of_object
  obtain ⟨_, rfl, kind⟩ := first.of_plain (by decide)
  obtain rfl := kind.of_string
  refine Decoder.sessionWithin_succ_eq_ok_iff.mpr ⟨_, variant, _, carries, tagged, holds n _ others ?_⟩
  intro field value member
  have below := carries.depth_lt (List.mem_cons_of_mem _ member)
  omega

theorem Session.decode_varied {session : Session} (canonical : session.Canonical)
    (setting : Decoder.Setting) (varies : session.toJson.Varies json) (enough : json.depth < n) :
    Decoder.sessionWithin setting n json = .ok session := by
  induction session generalizing setting json n with
  | done =>
    refine Session.decode_node rfl varies enough fun n _ fields _ => ?_
    cases fields
    exact .done
  | handler name =>
    refine Session.decode_node rfl varies enough fun n _ fields _ => ?_
    obtain _ | ⟨first, _ | _⟩ := fields
    obtain ⟨held, rfl, named⟩ := first.of_symbol canonical
    exact .handler named
  | choice polarity role branches ih =>
    obtain ⟨first, rest⟩ := branches
    obtain ⟨canonical, one, others⟩ := canonical
    have all := List.forall_mem_cons.mpr ⟨one, Branch.allCanonical_iff.mp others⟩
    have tagged : Decoder.variantOf Decoder.sessionTags polarity.name = .ok (.choice polarity) := by
      cases polarity <;> rfl
    rw [Session.toJson, Branch.allToJson_eq_map, ← List.map_cons] at varies
    refine Session.decode_node tagged varies enough fun n _ fields below => ?_
    obtain _ | ⟨name, _ | ⟨held, _ | _⟩⟩ := fields
    obtain ⟨name, rfl, called⟩ := name.of_symbol canonical
    obtain ⟨held, rfl, varies⟩ := held.of_plain (by decide)
    obtain ⟨others, rfl, varied⟩ := varies.of_array
    have outside := below "branches" (.array others) (by simp)
    refine .choice called (Decoder.nonEmpty_eq_ok_iff.mpr ⟨others, rfl, ?_⟩)
    refine Json.forall₂_of_varied varied fun branch member other among varies => ?_
    have inside := Json.depth_lt_array among
    refine Branch.decode_varied (all branch member) .inside varies fun further behind continued below => ?_
    exact ih branch member further .inside continued (by omega)

theorem Json.carries_object (distinct : (fields.map Prod.fst).Nodup) :
    Json.Carries fields (.object fields) := by
  refine .members fun field member => ?_
  obtain ⟨before, after, rfl⟩ := List.append_of_mem member
  rw [List.map_append, List.map_cons, List.nodup_append] at distinct
  refine List.lookup_eq_some_iff.mpr ⟨before, after, rfl, fun other among => ?_⟩
  have apart := distinct.2.2 other.1 (List.mem_map_of_mem among) field.1 List.mem_cons_self
  simpa using apart.symm

theorem Json.varies_object (distinct : (fields.map Prod.fst).Nodup)
    (each : ∀ field ∈ fields, Json.Varies field.2 field.2) : Json.Varies (.object fields) (.object fields) :=
  .node (List.forall₂_same.mpr fun field member => .value (each field member))
    (Json.carries_object distinct)

theorem Json.varies_array {write : α → Json} {values : List α}
    (each : ∀ value ∈ values, (write value).Varies (write value)) :
    Json.Varies (.array (values.map write)) (.array (values.map write)) := by
  refine .array (List.forall₂_same.mpr fun element member => ?_)
  obtain ⟨value, among, rfl⟩ := List.mem_map.mp member
  exact each value among

theorem Payload.varies_toJson (payload : Payload) : payload.toJson.Varies payload.toJson := by
  induction payload with
  | basic kind | list kind =>
    exact Json.varies_object (by simp) (by simp [BasicKind.toJson, Json.Varies.string])
  | tuple elements ih =>
    obtain ⟨first, rest⟩ := elements
    have held := Json.varies_array ih
    rw [Payload.toJson, Payload.allToJson_eq_map]
    exact Json.varies_object (by simp) (by simpa [Json.Varies.string] using held)

theorem Branch.varies_toJson {branch : Branch}
    (next : branch.continuation.toJson.Varies branch.continuation.toJson) :
    branch.toJson.Varies branch.toJson := by
  obtain ⟨label, payload, continuation⟩ := branch
  have carried := payload.varies_toJson
  rw [Branch.toJson]
  exact Json.varies_object (by simp) (by simp [Symbol.toJson, Json.Varies.string, carried, next])

theorem Session.varies_toJson (session : Session) : session.toJson.Varies session.toJson := by
  induction session with
  | done => exact Json.varies_object (by simp) (by simp [Json.Varies.string])
  | handler name => exact Json.varies_object (by simp) (by simp [Symbol.toJson, Json.Varies.string])
  | choice polarity role branches ih =>
    obtain ⟨first, rest⟩ := branches
    have held := Json.varies_array fun branch member => Branch.varies_toJson (ih branch member)
    rw [Session.toJson, Branch.allToJson_eq_map]
    exact Json.varies_object (by cases polarity <;> simp [Polarity.roleField])
      (by simpa [Symbol.toJson, Json.Varies.string] using held)

/-- Decoding undoes encoding for every tree whose symbols are canonical, handlers named `end`
included, and gives the same tree for every variant of the JSON that it is written as. -/
theorem decoding_undoes_encoding :
    (∀ session : Session, session.Canonical → Session.ofJson session.toJson = .ok session ∧
      ∀ json, session.toJson.Varies json → Session.ofJson json = .ok session) ∧
    (∀ branch : Branch, branch.Canonical → Branch.ofJson branch.toJson = .ok branch ∧
      ∀ json, branch.toJson.Varies json → Branch.ofJson json = .ok branch) ∧
    (∀ payload : Payload, Payload.ofJson payload.toJson = .ok payload ∧
      ∀ json, payload.toJson.Varies json → Payload.ofJson json = .ok payload) := by
  have sessions {session : Session} (canonical : session.Canonical) (json : Json)
      (varies : session.toJson.Varies json) : Session.ofJson json = .ok session :=
    Session.decode_varied canonical .outside varies (Nat.lt_succ_self _)
  have branches {branch : Branch} (canonical : branch.Canonical) (json : Json)
      (varies : branch.toJson.Varies json) : Branch.ofJson json = .ok branch :=
    Branch.decode_varied canonical .outside varies fun further other continued _ =>
      sessions further other continued
  have payloads (payload : Payload) (json : Json) (varies : payload.toJson.Varies json) :
      Payload.ofJson json = .ok payload :=
    payload.decode_varied .outside varies (Nat.lt_succ_self _)
  refine ⟨fun session canonical => ?_, fun branch canonical => ?_, fun payload => ?_⟩
  · exact ⟨sessions canonical _ session.varies_toJson, sessions canonical⟩
  · exact ⟨branches canonical _ (Branch.varies_toJson branch.continuation.varies_toJson),
      branches canonical⟩
  · exact ⟨payloads payload _ payload.varies_toJson, payloads payload⟩

/-- Arrays and objects mixed, a member that nothing reads, and three names respelled. -/
theorem decoding_undoes_encoding_mixed :
    Session.ofJson (.array [.string "send", .string "A", .array [.object [
      ("extra", .null), ("continuation", .array [.string "named_handler", .string "END"]),
      ("payload", .array [.string "basic", .string "unit"]), ("label", .string "getX")]]]) =
    .ok (.send ⟨"a"⟩ ⟨⟨"get_x"⟩, .basic .unit, .handler ⟨"end"⟩⟩) := by
  have canonical (raw : String) (named : isIdentifier raw.toList) :=
    Symbol.canonical_ofWord named
  have tree : Session.Canonical
      (.send ⟨"a"⟩ ⟨⟨"get_x"⟩, .basic .unit, .handler ⟨"end"⟩⟩) :=
    ⟨canonical "a" rfl, ⟨canonical "get_x" rfl, canonical "end" rfl⟩, trivial⟩
  have continuation : Json.Varies (Session.toJson (.handler ⟨"end"⟩))
      (.array [.string "named_handler", .string "END"]) :=
    .node (.cons (.value (.string _)) (.cons (.symbol (by decide) rfl (by decide)) .nil)) .elements
  have payload : Json.Varies (Payload.toJson (.basic .unit))
      (.array [.string "basic", .string "unit"]) :=
    .node (.cons (.value (.string _)) (.cons (.value (.string _)) .nil)) .elements
  have label : Json.FieldVaries ("label", .string "get_x") ("label", .string "getX") :=
    .symbol (by decide) rfl (by decide)
  have branch : Json.Varies (Branch.toJson ⟨⟨"get_x"⟩, .basic .unit, .handler ⟨"end"⟩⟩)
      (.object [("extra", .null), ("continuation", .array [.string "named_handler", .string "END"]),
        ("payload", .array [.string "basic", .string "unit"]), ("label", .string "getX")]) :=
    .node (.cons label (.cons (.value payload) (.cons (.value continuation) .nil)))
      (.members (by simp [List.lookup]))
  refine (decoding_undoes_encoding.1 _ tree).2 _ ?_
  exact .node (.cons (.value (.string _)) (.cons (.symbol (by decide) rfl (by decide))
    (.cons (.value (.array (.cons branch .nil))) .nil))) .elements

end SessionSyntax
