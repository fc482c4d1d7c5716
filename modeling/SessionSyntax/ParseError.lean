import SessionSyntax.Shape
import SessionSyntax.Text

/-! Why a text was refused, where, and the words for it. A place is shown under a message by its
line, with carets below the characters meant. -/
namespace SessionSyntax

open Text

/-- A place in a text. `offset` is where it was asked for, in bytes; `start` and `stop` are the
positions of the nearest character boundaries at or before both ends. -/
structure Span where
  offset : Nat
  start : Position
  stop : Position
  /-- The line on which the place starts. -/
  snippet : String
  deriving DecidableEq, Repr

namespace Span

/-- The place between two byte offsets. Offsets beyond the text stand for its end, and an end
before the start for the start. -/
def ofOffsets (text : String) (start stop : Nat) : Span :=
  let chars := text.toList
  let here := Position.after (upTo start chars)
  ⟨start, here, Position.after (upTo (max start stop) chars),
    String.ofList (lineAt here.line chars)⟩

def spaces (n : Nat) : String := String.ofList (List.replicate n ' ')

/-- Columns left of the bar; there is room for three digits at least. -/
def gutter (span : Span) : Nat := max 3 (toString span.start.line).length

/-- How many carets are drawn. A place that goes on beyond its first line is marked to the end of
that line. -/
def carets (span : Span) : Nat :=
  if span.start.line = span.stop.line then max 1 (span.stop.column - span.start.column)
  else max 1 (span.snippet.length + 1 - span.start.column)

def snippetLine (span : Span) : String :=
  let number := toString span.start.line
  spaces (span.gutter - number.length) ++ number ++ " | " ++ span.snippet

def caretLine (span : Span) : String :=
  spaces (span.gutter + 3 + (span.start.column - 1)) ++
    String.ofList (List.replicate span.carets '^')

/-- The message, where it applies, and the marked line. -/
def render (span : Span) (message : String) : String :=
  "\n" ++ message ++ "\n  --> input:" ++ toString span.start.line ++ ":" ++
    toString span.start.column ++ "\n" ++ spaces span.gutter ++ " |\n" ++ span.snippetLine ++
    "\n" ++ span.caretLine ++ "\n"

end Span

inductive Cause where
  /-- One of the wanted parts was missing before `found`, or before the end where nothing was
  found. -/
  | unexpected (wanted : List Part) (found : Option Char)
  | unknownType (name : String)
  /-- The whole content behind a complete expression. -/
  | leftover (remaining : String)
  | emptyCollection (collection : Collection)
  | tooDeep (depth limit : Nat)
  deriving DecidableEq, Repr

structure ParseError where
  cause : Cause
  span : Span
  deriving DecidableEq, Repr

def Collection.describe : Collection → String
  | branches => "branch list"
  | tupleElements => "tuple"

/-- How much of a leftover a message shows. -/
def previewLength : Nat := 32

def preview (text : String) : String :=
  let chars := text.toList
  if chars.length ≤ previewLength then text
  else String.ofList (chars.take previewLength) ++ "..."

namespace Cause

/-- What was wanted and what was found instead. -/
def expectation (wanted : List Part) (found : Option Char) : String :=
  let found := match found with
    | some c => "`" ++ String.singleton c ++ "`"
    | none => "end of input"
  if wanted.isEmpty then "unexpected " ++ found
  else "expected " ++ alternatives (wanted.map Part.describe) ++ ", found " ++ found

def message : Cause → String
  | unexpected wanted found => "Syntax error: " ++ expectation wanted found
  | unknownType name =>
    "Unknown payload type `" ++ name ++ "`: expected string, number, unit or boolean"
  | leftover remaining =>
    "Unexpected input after a complete expression: `" ++ preview remaining ++ "`"
  | emptyCollection collection =>
    "Empty " ++ collection.describe ++ ": at least one element is required"
  | tooDeep depth limit =>
    "Nesting depth " ++ toString depth ++ " exceeds the limit of " ++ toString limit

end Cause

/-- The message with the place shown below it. -/
def ParseError.render (error : ParseError) : String := error.span.render error.cause.message

instance : ToString ParseError := ⟨ParseError.render⟩

end SessionSyntax
