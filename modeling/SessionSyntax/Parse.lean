import SessionSyntax.ParseError
import SessionSyntax.Rule

/-! Reading session types and payload types from text. Blanks at both ends of a text are put aside,
and the nesting of brackets is checked before any rule is tried; then the longest phrase at the front
is matched and built, and nothing but blanks may be left behind it. Places count from the front of
what is between the blanks, until they are told in an error. -/
namespace SessionSyntax

structure Config where
  /-- How deep parentheses and braces may nest. -/
  maxDepth : Nat := 64
  deriving DecidableEq, Repr

def Config.withMaxDepth (config : Config) (maxDepth : Nat) : Config :=
  { config with maxDepth := maxDepth }

/-- A text without the blanks around it, and how many bytes of blanks were in front. -/
structure Content where
  full : String
  offset : Nat
  text : List Char

namespace Content

def ofText (full : String) : Content :=
  let text := full.toList.dropWhile isBlank
  ⟨full, Text.size full.toList - Text.size text, (text.reverse.dropWhile isBlank).reverse⟩

/-- The offset of the first bracket behind which the nesting exceeds the limit. The count goes on from
`depth`, the offsets from `offset`. -/
def overflowFrom? (limit depth offset : Nat) : List Char → Option Nat
  | [] => none
  | c :: cs =>
    if limit < Text.nest depth c then some offset
    else overflowFrom? limit (Text.nest depth c) (offset + c.utf8Size) cs

def overflow? (content : Content) (limit : Nat) : Option Nat :=
  overflowFrom? limit 0 0 content.text

def spanOf (content : Content) (start stop : Nat) : Span :=
  Span.ofOffsets content.full (content.offset + start) (content.offset + stop)

/-- Points a fault into the whole text. -/
def locate (content : Content) : Fault → ParseError
  | .tooDeep place limit => ⟨.tooDeep (limit + 1) limit, content.spanOf place (place + 1)⟩
  | .unexpected place wanted =>
    let found := (Text.behind place content.text).head?
    ⟨.unexpected wanted found, content.spanOf place (place + found.elim 0 Char.utf8Size)⟩
  | .unknownType name =>
    ⟨.unknownType name.text, content.spanOf name.index (name.index + Text.size name.letters)⟩
  | .emptyCollection opening closing collection =>
    ⟨.emptyCollection collection, content.spanOf opening (closing + 1)⟩
  | .leftover place =>
    ⟨.leftover (String.ofList (Text.behind place content.text)),
      content.spanOf place (Text.size content.text)⟩

end Content

/-- How one kind of expression is matched and built. -/
structure Reader (σ α : Type) where
  /-- What the expression is called in logs. -/
  title : String
  /-- Matches with at most the given number of sessions and payloads inside one another. -/
  rule : Nat → Rule σ
  build : σ → Logged α

/-- A step of reading, for logs. -/
inductive Event where
  | started (title : String) (length maxDepth : Nat)
  | built (note : Note)
  | succeeded (title : String)
  | failed (title : String) (error : ParseError)
  deriving DecidableEq, Repr

namespace Reader

/-- Reads what is between the blanks. Every phrase inside another one takes up characters of its own,
so that their number bounds the nesting of phrases. -/
def read (reader : Reader σ α) (config : Config) (content : Content) : Logged α :=
  match content.overflow? config.maxDepth with
  | some place => .fail (.tooDeep place config.maxDepth)
  | none =>
    match reader.rule (content.text.length + 1) ⟨0, content.text⟩ .initial with
    | ⟨none, frontier⟩ => .fail (.unexpected frontier.place (Part.sorted frontier.wanted))
    | ⟨some (shape, behind), _⟩ => do
      let value ← reader.build shape
      let remaining := behind.rest.dropWhile isBlank
      if remaining.isEmpty then return value
      else .fail (.leftover (Text.size content.text - Text.size remaining))

/-- Reads a whole text. -/
def parse (reader : Reader σ α) (config : Config) (text : String) : Except ParseError α :=
  let content := Content.ofText text
  (reader.read config content).result.mapError content.locate

/-- The steps of reading a whole text. -/
def events (reader : Reader σ α) (config : Config) (text : String) : List Event :=
  let notes := (reader.read config (Content.ofText text)).notes
  let outcome := match reader.parse config text with
    | .ok _ => Event.succeeded reader.title
    | .error error => Event.failed reader.title error
  .started reader.title text.utf8ByteSize config.maxDepth :: notes.map .built ++ [outcome]

end Reader

def sessionReader : Reader SessionShape Session :=
  ⟨"session type", Rule.session, SessionShape.build⟩

def payloadReader : Reader PayloadShape Payload :=
  ⟨"payload type", Rule.payload, fun shape => .ofExcept shape.build⟩

namespace Session

def parseWith (config : Config) (text : String) : Except ParseError Session :=
  sessionReader.parse config text

def parse (text : String) : Except ParseError Session := parseWith {} text

/-- Reads texts one after the other up to the first that is refused; its index comes with the
error. -/
def parseAllFrom (index : Nat) : List String → Except (Nat × ParseError) (List Session)
  | [] => .ok []
  | text :: rest => do
    let session ← (parse text).mapError (index, ·)
    return session :: (← parseAllFrom (index + 1) rest)

def parseAll (texts : List String) : Except (Nat × ParseError) (List Session) :=
  parseAllFrom 0 texts

end Session

namespace Payload

def parseWith (config : Config) (text : String) : Except ParseError Payload :=
  payloadReader.parse config text

def parse (text : String) : Except ParseError Payload := parseWith {} text

end Payload

end SessionSyntax
