import SessionSyntax.Json.Decode
import SessionSyntax.Proofs.Building

/-! What is decoded, and as what: for each decoder the values that it accepts. Objects and arrays
are one case throughout, since a decoder asks no more of either than that it carries the fields. Other
JSON for the same tree is told without a decoder, from the JSON that the tree is written as: a node may
have further members, in any order, or be the array of its members' values, and a symbol may be spelled
in any way that has the same canonical form. So is JSON that no tree may come from: at some depth a
tuple or a list of branches is empty, or what stands for a symbol is not an identifier. -/
namespace SessionSyntax

namespace Json

/-- The value is an object that has the given members among others, or the array of their values. -/
inductive Carries (fields : List (String × Json)) : Json → Prop where
  | members : (∀ field ∈ fields, members.lookup field.1 = some field.2) →
      Carries fields (.object members)
  | elements : Carries fields (.array (fields.map Prod.snd))

/-- The members that hold symbols. -/
def symbolFields : List String := ["to", "from", "handler", "label"]

mutual

/-- The second value stands for the same as the first one, which is as it was written. -/
inductive Varies : Json → Json → Prop where
  | string (text : String) : Varies (.string text) (.string text)
  | array : List.Forall₂ Varies elements others → Varies (.array elements) (.array others)
  | node : List.Forall₂ FieldVaries fields others → Carries others json → Varies (.object fields) json

inductive FieldVaries : String × Json → String × Json → Prop where
  | symbol : name ∈ symbolFields → isIdentifier raw.toList → normalize raw = normalize text →
      FieldVaries (name, .string text) (name, .string raw)
  | value : Varies value other → FieldVaries (name, value) (name, other)

end

/-- The value of a node's field, found by name in an object and by place in an array. -/
inductive HasField (name : String) (place : Nat) (value : Json) : Json → Prop where
  | member : members.lookup name = some value → HasField name place value (.object members)
  | element : elements[place]? = some value → HasField name place value (.array elements)

def IsIdentifier : Json → Prop
  | .string raw => isIdentifier raw.toList
  | _ => False

end Json

namespace Decoder

/-- The tag of a payload as it is read in the given node. -/
def payloadTag (setting : Setting) : Json → Decoder PayloadTag
  | .object _ => bare setting payloadTags
  | _ => tag setting payloadTags

/-- At some depth a tuple has no elements. Only what is read counts: members that a node of its kind
does not have may hold anything. -/
inductive FlawedPayload (setting : Setting) : Json → Prop where
  | empty : Json.HasField "kind" 0 kind json → payloadTag setting json kind = .ok .tuple →
      Json.HasField "of" 1 (.array []) json → FlawedPayload setting json
  | element : Json.HasField "kind" 0 kind json → payloadTag setting json kind = .ok .tuple →
      Json.HasField "of" 1 (.array elements) json → element ∈ elements →
      FlawedPayload setting element → FlawedPayload setting json

mutual

inductive FlawedBranch : Setting → Json → Prop where
  | label : Json.HasField "label" 0 name json → ¬name.IsIdentifier → FlawedBranch setting json
  | payload : Json.HasField "payload" 1 held json → FlawedPayload setting held →
      FlawedBranch setting json
  | continuation : Json.HasField "continuation" 2 held json → FlawedSession setting held →
      FlawedBranch setting json

/-- Whatever the setting of a session, its branches stand inside of it. -/
inductive FlawedSession : Setting → Json → Prop where
  | role : Json.HasField "kind" 0 kind json → tag setting sessionTags kind = .ok (.choice polarity) →
      Json.HasField polarity.roleField 1 name json → ¬name.IsIdentifier → FlawedSession setting json
  | empty : Json.HasField "kind" 0 kind json → tag setting sessionTags kind = .ok (.choice polarity) →
      Json.HasField "branches" 2 (.array []) json → FlawedSession setting json
  | branch : Json.HasField "kind" 0 kind json → tag setting sessionTags kind = .ok (.choice polarity) →
      Json.HasField "branches" 2 (.array elements) json → element ∈ elements →
      FlawedBranch .inside element → FlawedSession setting json
  | handler : Json.HasField "kind" 0 kind json → tag setting sessionTags kind = .ok .handler →
      Json.HasField "handler" 1 name json → ¬name.IsIdentifier → FlawedSession setting json

end

end Decoder

theorem bind_eq_ok_iff {first : Except ε α} {next : α → Except ε β} :
    first >>= next = .ok b ↔ ∃ a, first = .ok a ∧ next a = .ok b :=
  except_bind_eq_ok_iff

theorem pure_eq_ok_iff {a b : α} : (pure a : Except ε α) = .ok b ↔ a = b := by
  simp [pure, Except.pure]

theorem map_eq_ok_iff {first : Except ε α} {g : α → β} :
    g <$> first = .ok b ↔ ∃ a, first = .ok a ∧ g a = b := by
  cases first <;> simp [Functor.map, Except.map]

namespace Json

theorem carries_object_iff : Carries fields (.object members) ↔
    ∀ field ∈ fields, members.lookup field.1 = some field.2 :=
  ⟨fun | .members found => found, .members⟩

theorem carries_array_iff : Carries fields (.array elements) ↔ elements = fields.map Prod.snd :=
  ⟨fun | .elements => rfl, by rintro rfl; exact .elements⟩

theorem depth_lt_array (member : element ∈ elements) : element.depth < (array elements).depth := by
  have := depth_le_deepestElement member
  rw [depth]
  omega

theorem Carries.depth_lt {value : Json} (carries : Carries fields json)
    (member : (name, value) ∈ fields) : value.depth < json.depth := by
  cases carries with
  | members found =>
    have below : value.depth ≤ _ := depth_le_deepestMember (found _ member)
    rw [depth]
    omega
  | elements => exact depth_lt_array (List.mem_map.mpr ⟨_, member, rfl⟩)

end Json

namespace Decoder

theorem symbol_eq_ok_iff : symbol json = .ok name ↔
    ∃ raw, json = .string raw ∧ isIdentifier raw.toList ∧ Symbol.ofWord raw.toList = name := by
  cases json with
  | string raw =>
    have read : symbol (.string raw) = .ok name ↔ Symbol.ofRaw raw = .ok name := by
      rw [symbol]
      cases Symbol.ofRaw raw <;> simp [Except.mapError]
    simp [read, Symbol.ofRaw_eq_ok_iff]
  | _ => simp [symbol]

theorem nonEmpty_array (item : Decoder α) (elements : List Json) :
    nonEmpty item (.array elements) = gather item id .emptyCollection elements := by
  rw [nonEmpty, gather]
  change Except.bind _ _ = _
  congr 1

theorem nonEmpty_eq_ok_iff {item : Decoder α} : nonEmpty item json = .ok values ↔
    ∃ elements, json = .array elements ∧
      List.Forall₂ (fun element value => item element = .ok value) elements values.toList := by
  cases json with
  | array elements => simp [nonEmpty_array, gather_eq_ok_iff]
  | _ => simp [nonEmpty]

theorem required_eq_ok_iff : required name found = .ok a ↔ found = some a := by
  cases found <;> simp [required]

theorem member?_eq_ok_some_iff {item : Decoder α} : member? name item members = .ok (some a) ↔
    ∃ value, members.lookup name = some value ∧ item value = .ok a := by
  cases found : members.lookup name <;> simp [member?, found, map_eq_ok_iff]

theorem member_eq_ok_iff {item : Decoder α} : member name item members = .ok a ↔
    ∃ value, members.lookup name = some value ∧ item value = .ok a := by
  rw [member, bind_eq_ok_iff, ← member?_eq_ok_some_iff]
  simp [required_eq_ok_iff]

theorem next_eq_ok_iff {item : Decoder α} : next item elements = .ok (a, rest) ↔
    ∃ element, elements = element :: rest ∧ item element = .ok a := by
  cases elements with
  | nil => simp [next]
  | cons element others => simp [next, bind_eq_ok_iff, pure, Except.pure, and_comm]

theorem finish_eq_ok_iff : finish elements = .ok done ↔ elements = [] := by
  cases elements <;> simp [finish]

theorem branchWith_eq_ok_iff {session : Decoder Session} {made : Branch} :
    branchWith setting session json = .ok made ↔ ∃ label inside next,
      Json.Carries [("label", label), ("payload", inside), ("continuation", next)] json ∧
        symbol label = .ok made.label ∧ payload setting inside = .ok made.payload ∧
          session next = .ok made.continuation := by
  obtain ⟨label, inside, continuation⟩ := made
  cases json with
  | object members =>
    simp only [branchWith, bind_eq_ok_iff, required_eq_ok_iff, pure_eq_ok_iff, Json.carries_object_iff]
    constructor
    · rintro ⟨_, last, _, first, _, middle, _, rfl, _, rfl, _, rfl, ⟨⟩⟩
      obtain ⟨next, third, continued⟩ := member?_eq_ok_some_iff.mp last
      obtain ⟨name, one, named⟩ := member?_eq_ok_some_iff.mp first
      obtain ⟨carried, second, inside⟩ := member?_eq_ok_some_iff.mp middle
      exact ⟨name, carried, next, by simp [one, second, third], named, inside, continued⟩
    · rintro ⟨name, carried, next, found, named, inside, continued⟩
      obtain ⟨one, second, third⟩ := by simpa using found
      exact ⟨_, member?_eq_ok_some_iff.mpr ⟨_, third, continued⟩,
        _, member?_eq_ok_some_iff.mpr ⟨_, one, named⟩,
        _, member?_eq_ok_some_iff.mpr ⟨_, second, inside⟩, _, rfl, _, rfl, _, rfl, rfl⟩
  | array elements =>
    simp only [branchWith, bind_eq_ok_iff, Prod.exists, next_eq_ok_iff, finish_eq_ok_iff, pure_eq_ok_iff,
      Json.carries_array_iff]
    constructor
    · rintro ⟨_, _, ⟨name, rfl, named⟩, _, _, ⟨carried, rfl, inside⟩, _, _, ⟨next, rfl, continued⟩,
        _, rfl, ⟨⟩⟩
      exact ⟨name, carried, next, rfl, named, inside, continued⟩
    · rintro ⟨name, carried, next, rfl, named, inside, continued⟩
      exact ⟨_, _, ⟨_, rfl, named⟩, _, _, ⟨_, rfl, inside⟩, _, _, ⟨_, rfl, continued⟩, (), rfl, rfl⟩
  | _ =>
    constructor
    · rintro ⟨⟩
    · rintro ⟨_, _, _, ⟨⟩, _⟩

theorem payloadWithin_succ_eq_ok_iff : payloadWithin setting (n + 1) json = .ok made ↔
    ∃ kind tag held, Json.Carries [("kind", kind), ("of", held)] json ∧
      payloadTag setting json kind = .ok tag ∧
        payloadOf setting (payloadWithin setting n) tag held = .ok made := by
  cases json with
  | object members =>
    simp only [payloadWithin, bind_eq_ok_iff, member_eq_ok_iff, Json.carries_object_iff]
    constructor
    · rintro ⟨tag, ⟨kind, one, tagged⟩, held, two, decoded⟩
      exact ⟨kind, tag, held, by simp [one, two], tagged, decoded⟩
    · rintro ⟨kind, tag, held, found, tagged, decoded⟩
      obtain ⟨one, two⟩ := by simpa using found
      exact ⟨tag, ⟨kind, one, tagged⟩, held, two, decoded⟩
  | array elements =>
    simp only [payloadWithin, bind_eq_ok_iff, Prod.exists, next_eq_ok_iff, finish_eq_ok_iff, pure_eq_ok_iff,
      Json.carries_array_iff]
    constructor
    · rintro ⟨tag, _, ⟨kind, rfl, tagged⟩, _, _, ⟨held, rfl, decoded⟩, _, rfl, rfl⟩
      exact ⟨kind, tag, held, rfl, tagged, decoded⟩
    · rintro ⟨kind, tag, held, rfl, tagged, decoded⟩
      exact ⟨tag, _, ⟨kind, rfl, tagged⟩, _, _, ⟨held, rfl, decoded⟩, (), rfl, rfl⟩
  | _ =>
    constructor
    · rintro ⟨⟩
    · rintro ⟨_, _, _, ⟨⟩, _⟩

/-- What the fields behind a session's tag must hold for the session to be as given. -/
inductive SessionHolds (session : Decoder Session) :
    SessionTag → List (String × Json) → Session → Prop where
  | done : SessionHolds session .done [] .done
  | choice : symbol name = .ok role → nonEmpty (branchWith .inside session) held = .ok branches →
      SessionHolds session (.choice polarity) [(polarity.roleField, name), ("branches", held)]
        (.choice polarity role branches)
  | handler : symbol held = .ok name →
      SessionHolds session .handler [("handler", held)] (.handler name)

theorem sessionMembers_eq_ok_iff {session : Decoder Session} :
    sessionMembers session members variant = .ok made ↔ ∃ fields,
      (∀ field ∈ fields, members.lookup field.1 = some field.2) ∧
        SessionHolds session variant fields made := by
  cases variant with
  | done =>
    constructor
    · rintro ⟨⟩
      exact ⟨[], by simp, .done⟩
    · rintro ⟨_, _, ⟨⟩⟩
      rfl
  | choice polarity =>
    simp only [sessionMembers, bind_eq_ok_iff, required_eq_ok_iff, pure_eq_ok_iff]
    constructor
    · rintro ⟨_, branches, _, role, _, rfl, _, rfl, rfl⟩
      obtain ⟨held, second, built⟩ := member?_eq_ok_some_iff.mp branches
      obtain ⟨name, first, named⟩ := member?_eq_ok_some_iff.mp role
      exact ⟨_, by simp [first, second], .choice named built⟩
    · rintro ⟨_, found, _ | ⟨named, built⟩⟩
      obtain ⟨first, second⟩ := by simpa using found
      exact ⟨_, member?_eq_ok_some_iff.mpr ⟨_, second, built⟩,
        _, member?_eq_ok_some_iff.mpr ⟨_, first, named⟩, _, rfl, _, rfl, rfl⟩
  | handler =>
    simp only [sessionMembers, map_eq_ok_iff, member_eq_ok_iff]
    constructor
    · rintro ⟨name, ⟨held, found, named⟩, rfl⟩
      exact ⟨_, by simp [found], .handler named⟩
    · rintro ⟨_, found, _ | _ | named⟩
      exact ⟨_, ⟨_, by simpa using found, named⟩, rfl⟩

theorem sessionElements_eq_ok_iff {session : Decoder Session} :
    sessionElements session elements variant = .ok made ↔ ∃ fields,
      elements = fields.map Prod.snd ∧ SessionHolds session variant fields made := by
  cases variant with
  | done =>
    simp only [sessionElements, bind_eq_ok_iff, finish_eq_ok_iff, pure_eq_ok_iff]
    constructor
    · rintro ⟨_, rfl, rfl⟩
      exact ⟨[], rfl, .done⟩
    · rintro ⟨_, rfl, ⟨⟩⟩
      exact ⟨(), rfl, rfl⟩
  | choice polarity =>
    simp only [sessionElements, bind_eq_ok_iff, Prod.exists, next_eq_ok_iff, finish_eq_ok_iff,
      pure_eq_ok_iff]
    constructor
    · rintro ⟨_, _, ⟨name, rfl, named⟩, _, _, ⟨held, rfl, built⟩, _, rfl, rfl⟩
      exact ⟨_, rfl, .choice named built⟩
    · rintro ⟨_, rfl, _ | ⟨named, built⟩⟩
      exact ⟨_, _, ⟨_, rfl, named⟩, _, _, ⟨_, rfl, built⟩, (), rfl, rfl⟩
  | handler =>
    simp only [sessionElements, bind_eq_ok_iff, Prod.exists, next_eq_ok_iff, finish_eq_ok_iff,
      pure_eq_ok_iff]
    constructor
    · rintro ⟨_, _, ⟨held, rfl, named⟩, _, rfl, rfl⟩
      exact ⟨_, rfl, .handler named⟩
    · rintro ⟨_, rfl, _ | _ | named⟩
      exact ⟨_, _, ⟨_, rfl, named⟩, (), rfl, rfl⟩

theorem sessionWithin_succ_eq_ok_iff : sessionWithin setting (n + 1) json = .ok made ↔
    ∃ kind variant fields, Json.Carries (("kind", kind) :: fields) json ∧
      tag setting sessionTags kind = .ok variant ∧
        SessionHolds (sessionWithin .inside n) variant fields made := by
  cases json with
  | object members =>
    simp only [sessionWithin, bind_eq_ok_iff, member_eq_ok_iff, sessionMembers_eq_ok_iff,
      Json.carries_object_iff, List.forall_mem_cons]
    constructor
    · rintro ⟨variant, ⟨kind, one, tagged⟩, fields, found, holds⟩
      exact ⟨kind, variant, fields, ⟨one, found⟩, tagged, holds⟩
    · rintro ⟨kind, variant, fields, ⟨one, found⟩, tagged, holds⟩
      exact ⟨variant, ⟨kind, one, tagged⟩, fields, found, holds⟩
  | array elements =>
    rw [exists₃_congr fun _ _ _ => and_congr_left fun _ => Json.carries_array_iff]
    cases elements with
    | nil => simp [sessionWithin]
    | cons first rest =>
      simp only [sessionWithin, bind_eq_ok_iff, sessionElements_eq_ok_iff]
      constructor
      · rintro ⟨variant, tagged, fields, rfl, holds⟩
        exact ⟨first, variant, fields, rfl, tagged, holds⟩
      · rintro ⟨kind, variant, fields, same, tagged, holds⟩
        obtain ⟨rfl, rfl⟩ := List.cons.inj same
        exact ⟨variant, tagged, fields, rfl, holds⟩
  | _ =>
    constructor
    · rintro ⟨⟩
    · rintro ⟨_, _, _, ⟨⟩, _⟩

end Decoder

end SessionSyntax
