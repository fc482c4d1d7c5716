import SessionSyntax.Json

/-! Reading trees from JSON. A node may be an object with its members in any order and others
besides, or an array of its kind and its fields in their order. Symbols are checked and brought
into canonical form, and empty lists are refused. What a session holds is read a little more
freely than what stands outside of one: see `Setting`. -/
namespace SessionSyntax

inductive DecodeError where
  | missingField (name : String)
  | unknownVariant (name : String) (known : List String)
  | emptyCollection
  | invalidIdentifier (refused : InvalidIdentifier)
  /-- A value of another type, or an array of another length, than can stand there. -/
  | mismatch
  deriving DecidableEq, Repr

/-- The message, for the errors that have one of their own. -/
def DecodeError.message? : DecodeError → Option String
  | missingField name => some ("missing field `" ++ name ++ "`")
  | unknownVariant name known =>
    some ("unknown variant `" ++ name ++ "`, expected one of " ++
      String.intercalate ", " (known.map fun variant => "`" ++ variant ++ "`"))
  | emptyCollection => some NonEmpty.refusal
  | invalidIdentifier refused => some refused.message
  | mismatch => none

abbrev Decoder (α : Type) : Type := Json → Except DecodeError α

namespace Decoder

def symbol : Decoder Symbol
  | .string raw => (Symbol.ofRaw raw).mapError .invalidIdentifier
  | _ => .error .mismatch

/-- Looks a name up in a table of variants. -/
def variantOf (table : List (String × α)) (name : String) : Except DecodeError α :=
  match table.lookup name with
  | some variant => .ok variant
  | none => .error (.unknownVariant name (table.map Prod.fst))

/-- Where a value stands. Inside a session a tag may be the index of a variant in its table, and
an empty object may stand for null. -/
inductive Setting where
  | outside
  | inside
  deriving DecidableEq, Repr

/-- A tag that tells how to read what comes with it. -/
def tag (setting : Setting) (table : List (String × α)) : Decoder α
  | .string name => variantOf table name
  | .number (.ofNat index) 0 =>
    match setting, table[index]? with
    | .inside, some (_, variant) => .ok variant
    | _, _ => .error .mismatch
  | _ => .error .mismatch

def null (setting : Setting) : Decoder Unit
  | .null => .ok ()
  | .object [] => if setting = .inside then .ok () else .error .mismatch
  | _ => .error .mismatch

/-- A variant that holds nothing stands by its name, or as an object whose only member has that
name and is null. -/
def bare (setting : Setting) (table : List (String × α)) : Decoder α
  | .string name => variantOf table name
  | .object [(name, value)] => do
    let variant ← variantOf table name
    null setting value
    return variant
  | _ => .error .mismatch

def basicKinds : List (String × BasicKind) := BasicKind.all.map fun kind => (kind.name, kind)

def basicKind (setting : Setting) : Decoder BasicKind := bare setting basicKinds

/-- A natural number of at most the given size. -/
def natUpTo (largest : Nat) : Decoder Nat
  | .number (.ofNat n) 0 => if n ≤ largest then .ok n else .error .mismatch
  | _ => .error .mismatch

/-- All elements are read before emptiness is looked at. -/
def nonEmpty (item : Decoder α) : Decoder (NonEmpty α)
  | .array elements => do
    match NonEmpty.ofList? (← elements.mapM item) with
    | some values => return values
    | none => .error .emptyCollection
  | _ => .error .mismatch

/-- Reads a member if it is there. -/
def member? (name : String) (item : Decoder α) (members : List (String × Json)) :
    Except DecodeError (Option α) :=
  match members.lookup name with
  | some value => some <$> item value
  | none => .ok none

def required (name : String) : Option α → Except DecodeError α
  | some value => .ok value
  | none => .error (.missingField name)

def member (name : String) (item : Decoder α) (members : List (String × Json)) :
    Except DecodeError α := do
  required name (← member? name item members)

/-- Reads the next of an array's elements; answers those that follow too. -/
def next (item : Decoder α) : List Json → Except DecodeError (α × List Json)
  | [] => .error .mismatch
  | element :: rest => do return (← item element, rest)

/-- Refuses elements that nothing has read. -/
def finish : List Json → Except DecodeError Unit
  | [] => .ok ()
  | _ :: _ => .error .mismatch

inductive PayloadTag where
  | basic
  | list
  | tuple
  deriving DecidableEq, Repr

def payloadTags : List (String × PayloadTag) :=
  [("basic", .basic), ("list", .list), ("tuple", .tuple)]

/-- What a payload is of, by its tag. -/
def payloadOf (setting : Setting) (payload : Decoder Payload) : PayloadTag → Decoder Payload
  | .basic => fun json => .basic <$> basicKind setting json
  | .list => fun json => .list <$> basicKind setting json
  | .tuple => fun json => .tuple <$> nonEmpty payload json

/-- Payloads in JSON that is nested less deep than the given number. The tag is a bare variant
among the members of an object, and a plain tag at the front of an array. -/
def payloadWithin (setting : Setting) : Nat → Decoder Payload
  | 0 => fun _ => .error .mismatch
  | n + 1 => fun
    | .object members => do
      let tag ← member "kind" (bare setting payloadTags) members
      member "of" (payloadOf setting (payloadWithin setting n) tag) members
    | .array elements => do
      let (tag, rest) ← next (tag setting payloadTags) elements
      let (payload, rest) ← next (payloadOf setting (payloadWithin setting n) tag) rest
      finish rest
      return payload
    | _ => .error .mismatch

def payload (setting : Setting) : Decoder Payload := fun json =>
  payloadWithin setting (json.depth + 1) json

/-- Members are read in the order of their names; only then is a missing one reported, the label
first. -/
def branchWith (setting : Setting) (session : Decoder Session) : Decoder Branch
  | .object members => do
    let continuation ← member? "continuation" session members
    let label ← member? "label" symbol members
    let payload ← member? "payload" (payload setting) members
    let label ← required "label" label
    let payload ← required "payload" payload
    let continuation ← required "continuation" continuation
    return ⟨label, payload, continuation⟩
  | .array elements => do
    let (label, rest) ← next symbol elements
    let (payload, rest) ← next (payload setting) rest
    let (continuation, rest) ← next session rest
    finish rest
    return ⟨label, payload, continuation⟩
  | _ => .error .mismatch

inductive SessionTag where
  | done
  | choice (polarity : Polarity)
  | handler
  deriving DecidableEq, Repr

def sessionTags : List (String × SessionTag) :=
  [("end", .done), ("receive", .choice .receive), ("send", .choice .send),
    ("named_handler", .handler)]

/-- Reads the members of a session of the given tag, with the sessions inside it read as given. The
branches come before the role, in the order of their names, but a missing role is reported
first. -/
def sessionMembers (session : Decoder Session) (members : List (String × Json)) :
    SessionTag → Except DecodeError Session
  | .done => .ok .done
  | .choice polarity => do
    let branches ← member? "branches" (nonEmpty (branchWith .inside session)) members
    let role ← member? polarity.roleField symbol members
    let role ← required polarity.roleField role
    let branches ← required "branches" branches
    return .choice polarity role branches
  | .handler => .handler <$> member "handler" symbol members

/-- Reads the elements behind the tag of a session. -/
def sessionElements (session : Decoder Session) (elements : List Json) :
    SessionTag → Except DecodeError Session
  | .done => do
    finish elements
    return .done
  | .choice polarity => do
    let (role, rest) ← next symbol elements
    let (branches, rest) ← next (nonEmpty (branchWith .inside session)) rest
    finish rest
    return .choice polarity role branches
  | .handler => do
    let (name, rest) ← next symbol elements
    finish rest
    return .handler name

/-- Sessions in JSON that is nested less deep than the given number. The setting is that of the
session itself; what it holds is inside. -/
def sessionWithin (setting : Setting) : Nat → Decoder Session
  | 0 => fun _ => .error .mismatch
  | n + 1 => fun
    | .object members => do
      let tag ← member "kind" (tag setting sessionTags) members
      sessionMembers (sessionWithin .inside n) members tag
    | .array [] => .error (.missingField "kind")
    | .array (first :: rest) => do
      let tag ← tag setting sessionTags first
      sessionElements (sessionWithin .inside n) rest tag
    | _ => .error .mismatch

def session (setting : Setting) : Decoder Session := fun json =>
  sessionWithin setting (json.depth + 1) json

def branch (setting : Setting) : Decoder Branch := branchWith setting (session setting)

end Decoder

def Symbol.ofJson : Decoder Symbol := Decoder.symbol

def BasicKind.ofJson : Decoder BasicKind := Decoder.basicKind .outside

def Payload.ofJson : Decoder Payload := Decoder.payload .outside

def Session.ofJson : Decoder Session := Decoder.session .outside

def Branch.ofJson : Decoder Branch := Decoder.branch .outside

end SessionSyntax
