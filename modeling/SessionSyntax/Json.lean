import SessionSyntax.Session

/-! JSON values as trees, and the JSON form of session types. Members of an object are found by name;
their order means nothing. Every node is an object whose `kind` tells what it is; symbols are
their canonical text, and a binary is `"binary"` here, whatever its keyword. -/
namespace SessionSyntax

inductive Json where
  | null
  | bool (value : Bool)
  /-- The number `mantissa / 10 ^ places`; it was written as an integer where there are no
  places. -/
  | number (mantissa : Int) (places : Nat)
  | string (text : String)
  | array (elements : List Json)
  | object (members : List (String × Json))
  deriving Inhabited, Repr

namespace Json

mutual

/-- How deep arrays and objects are nested. -/
def depth : Json → Nat
  | array elements => 1 + deepestElement elements
  | object members => 1 + deepestMember members
  | _ => 0

def deepestElement : List Json → Nat
  | [] => 0
  | element :: rest => max element.depth (deepestElement rest)

def deepestMember : List (String × Json) → Nat
  | [] => 0
  | (_, value) :: rest => max value.depth (deepestMember rest)

end

theorem depth_le_deepestElement {element : Json} {elements : List Json}
    (member : element ∈ elements) : element.depth ≤ deepestElement elements := by
  induction elements with
  | nil => simp at member
  | cons first rest ih =>
    simp only [deepestElement]
    rcases List.mem_cons.mp member with rfl | later
    · omega
    · have := ih later; omega

theorem depth_le_deepestMember {name : String} {value : Json} {members : List (String × Json)}
    (found : members.lookup name = some value) : value.depth ≤ deepestMember members := by
  induction members with
  | nil => simp at found
  | cons first rest ih =>
    obtain ⟨key, other⟩ := first
    simp only [deepestMember]
    rw [List.lookup_cons] at found
    split at found
    · cases found; omega
    · have := ih found; omega

end Json

def Symbol.toJson (symbol : Symbol) : Json := .string symbol.text

def BasicKind.name : BasicKind → String
  | binary => "binary"
  | number => "number"
  | unit => "unit"
  | boolean => "boolean"

def BasicKind.toJson (kind : BasicKind) : Json := .string kind.name

mutual

def Payload.toJson : Payload → Json
  | .basic kind => .object [("kind", .string "basic"), ("of", kind.toJson)]
  | .list element => .object [("kind", .string "list"), ("of", element.toJson)]
  | .tuple ⟨first, rest⟩ =>
    .object [("kind", .string "tuple"), ("of", .array (first.toJson :: Payload.allToJson rest))]

def Payload.allToJson : List Payload → List Json
  | [] => []
  | payload :: rest => payload.toJson :: Payload.allToJson rest

end

def Polarity.name : Polarity → String
  | send => "send"
  | receive => "receive"

/-- The member that holds the role: one sends to it, or receives from it. -/
def Polarity.roleField : Polarity → String
  | send => "to"
  | receive => "from"

mutual

def Session.toJson : Session → Json
  | .done => .object [("kind", .string "end")]
  | .choice polarity role ⟨first, rest⟩ =>
    .object [("kind", .string polarity.name), (polarity.roleField, role.toJson),
      ("branches", .array (first.toJson :: Branch.allToJson rest))]
  | .handler name => .object [("kind", .string "named_handler"), ("handler", name.toJson)]

def Branch.toJson : Branch → Json
  | ⟨label, payload, continuation⟩ =>
    .object [("label", label.toJson), ("payload", payload.toJson),
      ("continuation", continuation.toJson)]

def Branch.allToJson : List Branch → List Json
  | [] => []
  | branch :: rest => branch.toJson :: Branch.allToJson rest

end

end SessionSyntax
