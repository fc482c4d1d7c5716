import SessionSyntax.Lexeme
import SessionSyntax.Parse

/-! Reading lists of lexemes. Every phrase of the grammar is matched on whole words and marks here,
so that no rule has to skip blanks or to find where a word ends; reading a text comes to the same as
reading its lexemes. -/
namespace SessionSyntax

namespace Matcher

/-- The next lexeme, if it is the given mark; answers its index. -/
def mark (c : Char) : Matcher Lexeme Nat := fun cursor frontier =>
  match cursor.rest with
  | .mark d :: rest =>
    if c = d then ⟨some (cursor.index, ⟨cursor.index + 1, rest⟩), frontier⟩ else ⟨none, frontier⟩
  | _ => ⟨none, frontier⟩

/-- The next lexeme, if it is an accepted word. -/
def word (accept : List Char → Bool) : Matcher Lexeme Word := fun cursor frontier =>
  match cursor.rest with
  | .word letters :: rest =>
    if accept letters then
      ⟨some (⟨cursor.index, letters⟩, ⟨cursor.index + 1, rest⟩), frontier⟩
    else ⟨none, frontier⟩
  | _ => ⟨none, frontier⟩

def identifier : Matcher Lexeme Word := named .identifier (word isIdentifier)

def colon : Matcher Lexeme Nat := named .colon (mark ':')

def dot : Matcher Lexeme Nat := named .dot (mark '.')

def comma : Matcher Lexeme Nat := named .comma (mark ',')

def closeParen : Matcher Lexeme Nat := named .closeParen (mark ')')

def closeBrace : Matcher Lexeme Nat := named .closeBrace (mark '\x7d')

/-- Phrases separated by commas, or none at all. -/
def commaList (item : Matcher Lexeme α) : Matcher Lexeme (List α) := do
  let items ← optional do
    let first ← item
    let rest ← repeated do
      let _ ← comma
      item
    return first :: rest
  return items.getD []

def basicName : Matcher Lexeme Word := named .basic (word isIdentifier)

def listShape : Matcher Lexeme PayloadShape := named .list do
  let name ← basicName
  let _ ← mark '['
  let _ ← mark ']'
  return .list name

def tupleShape (payload : Matcher Lexeme PayloadShape) : Matcher Lexeme PayloadShape := named .tuple do
  let opening ← mark '('
  let elements ← commaList payload
  let closing ← closeParen
  return .tuple opening elements closing

/-- A payload whose elements are matched by `element`. -/
def payloadOver (element : Matcher Lexeme PayloadShape) : Matcher Lexeme PayloadShape :=
  named .payloadType do
    tupleShape element <|> listShape <|> (.basic <$> basicName)

/-- Payloads with at most the given number of payloads inside one another. -/
def payloadShape : Nat → Matcher Lexeme PayloadShape
  | 0 => fail
  | n + 1 => payloadOver (payloadShape n)

def branchShape (payload : Matcher Lexeme PayloadShape) (session : Matcher Lexeme SessionShape) :
    Matcher Lexeme BranchShape := named .branch do
  let label ← identifier
  let _ ← mark '('
  let payload ← payload
  let _ ← closeParen
  let _ ← dot
  let continuation ← session
  return ⟨label, payload, continuation⟩

def choiceShape (polarity : Polarity) (branch : Matcher Lexeme BranchShape) :
    Matcher Lexeme SessionShape := do
  let sign ← mark polarity.sign
  let role ← identifier
  let _ ← colon
  let _ ← mark '\x7b'
  let branches ← commaList branch
  let closing ← closeBrace
  return .choice polarity sign role branches closing

def doneShape : Matcher Lexeme SessionShape :=
  named .done ((.done ·.index) <$> word (· == Session.endWord.toList))

def handlerShape : Matcher Lexeme SessionShape := named .handler (.handler <$> identifier)

/-- A session whose payloads and continuations are matched by the given matchers. -/
def sessionOver (payload : Matcher Lexeme PayloadShape) (continuation : Matcher Lexeme SessionShape) :
    Matcher Lexeme SessionShape :=
  let branch := branchShape payload continuation
  named .sessionType do
    doneShape
    <|> named .receive (choiceShape .receive branch)
    <|> named .send (choiceShape .send branch)
    <|> handlerShape

/-- Sessions with at most the given number of sessions and payloads inside one another. -/
def sessionShape : Nat → Matcher Lexeme SessionShape
  | 0 => fail
  | n + 1 => sessionOver (payloadShape n) (sessionShape n)

end Matcher

namespace Source

def spanOf (source : Source) (first last : Nat) : Span :=
  Span.ofOffsets source.text (source.startOf first) (source.stopOf last)

/-- Points a fault of the lexemes into the text. -/
def locate (source : Source) : Fault → ParseError
  | .tooDeep place limit => ⟨.tooDeep (limit + 1) limit, source.spanOf place place⟩
  | .unexpected place wanted =>
    let found := (source.lexemes[place]?).bind Lexeme.first?
    let start := source.startOf place
    let stop := start + (found.elim 0 Char.utf8Size)
    ⟨.unexpected wanted found, Span.ofOffsets source.text start stop⟩
  | .unknownType name => ⟨.unknownType name.text, source.spanOf name.index name.index⟩
  | .emptyCollection opening closing collection =>
    ⟨.emptyCollection collection, source.spanOf opening closing⟩
  | .leftover place =>
    let start := source.startOf place
    ⟨.leftover (source.slice start source.contentEnd),
      Span.ofOffsets source.text start source.contentEnd⟩

end Source

/-- How one kind of expression is matched among lexemes, and built. -/
structure LexemeReader (σ α : Type) where
  /-- Matches with at most the given number of sessions and payloads inside one another. -/
  shape : Nat → Matcher Lexeme σ
  build : σ → Logged α

namespace LexemeReader

/-- Reads a list of lexemes. Every phrase inside another one takes up lexemes of its own, so that
their number bounds the nesting of phrases. -/
def read (reader : LexemeReader σ α) (config : Config) (lexemes : List Lexeme) : Logged α :=
  match overflow? config.maxDepth lexemes with
  | some place => .fail (.tooDeep place config.maxDepth)
  | none =>
    match reader.shape (lexemes.length + 1) ⟨0, lexemes⟩ .initial with
    | ⟨none, frontier⟩ => .fail (.unexpected frontier.place (Part.sorted frontier.wanted))
    | ⟨some (shape, cursor), _⟩ => do
      let value ← reader.build shape
      if cursor.rest.isEmpty then return value else .fail (.leftover cursor.index)

/-- Reads the lexemes of a whole text. -/
def parse (reader : LexemeReader σ α) (config : Config) (text : String) : Except ParseError α :=
  let source := Source.ofText text
  (reader.read config source.lexemes).result.mapError source.locate

def session : LexemeReader SessionShape Session := ⟨Matcher.sessionShape, SessionShape.build⟩

def payload : LexemeReader PayloadShape Payload :=
  ⟨Matcher.payloadShape, fun shape => .ofExcept shape.build⟩

end LexemeReader

end SessionSyntax
