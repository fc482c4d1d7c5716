import SessionSyntax.Shape
import SessionSyntax.Text

/-! The grammar of session types and payload types, rule by rule, on the characters of a text.

    payload = tuple | list | basic          session = end | receive | send | handler
    basic   = identifier                    receive = "&" identifier ":" block
    list    = basic "[" "]"                 send    = "+" identifier ":" block
    tuple   = "(" [payload {"," payload}] ")"   block   = "{" [branch {"," branch}] "}"
                                            branch  = identifier "(" payload ")" "." session

Alternatives are tried from left to right. Blanks are skipped between any two parts of a rule, before
the next part is tried, and nowhere else. The rules for words are atomic: nothing is skipped inside of
them, and only the word as a whole is entered in the frontier where it is missing. The brackets that
open something, and the signs, are entered nowhere; the other marks are parts with names of their
own. -/
namespace SessionSyntax

/-- An atomic rule takes characters off the front of a text, as they stand. Its result is what was
taken, and what follows. -/
def Scanner : Type := List Char → Option (List Char × List Char)

namespace Scanner

def isWhitespace (c : Char) : Bool := c == ' ' || c == '\t' || c == '\r' || c == '\n'

def isLetter (c : Char) : Bool := 'a' ≤ c && c ≤ 'z' || 'A' ≤ c && c ≤ 'Z'

def isDigit (c : Char) : Bool := '0' ≤ c && c ≤ '9'

/-- What may follow in an identifier, and may not follow the word `end`. -/
def isIdentChar (c : Char) : Bool := isDigit c || isLetter c || c == '_'

/-- One accepted character. -/
def one (accept : Char → Bool) : Scanner
  | c :: cs => if accept c then some ([c], cs) else none
  | [] => none

/-- As many accepted characters as there are. -/
def many (accept : Char → Bool) : Scanner := fun text =>
  some (text.takeWhile accept, text.dropWhile accept)

/-- Just these letters. -/
def exactly (letters : List Char) : Scanner := fun text =>
  if letters.isPrefixOf text then some (letters, text.drop letters.length) else none

/-- Nothing, unless an accepted character follows. -/
def notBefore (accept : Char → Bool) : Scanner := fun text =>
  if text.head?.any accept then none else some ([], text)

def andThen (first second : Scanner) : Scanner := fun text => do
  let (front, rest) ← first text
  let (back, rest) ← second rest
  return (front ++ back, rest)

def identifier : Scanner := andThen (one fun c => isLetter c || c == '_') (many isIdentChar)

def endWord : Scanner := andThen (exactly Session.endWord.toList) (notBefore isIdentChar)

end Scanner

abbrev Rule : Type → Type := Matcher Char

namespace Rule

open Matcher (fail named optional repeated)

/-- Skips blanks. -/
def blanks : Rule Unit := fun here frontier =>
  let skipped := here.rest.takeWhile Scanner.isWhitespace
  let rest := here.rest.dropWhile Scanner.isWhitespace
  ⟨some ((), ⟨here.index + Text.size skipped, rest⟩), frontier⟩

/-- The next character, if it is the given one; answers its offset. -/
def literal (c : Char) : Rule Nat := fun here frontier =>
  match here.rest with
  | d :: rest =>
    if c = d then ⟨some (here.index, ⟨here.index + d.utf8Size, rest⟩), frontier⟩
    else ⟨none, frontier⟩
  | [] => ⟨none, frontier⟩

/-- What an atomic rule takes, as a word at its offset. -/
def atomic (scanner : Scanner) : Rule Word := fun here frontier =>
  match scanner here.rest with
  | some (letters, rest) =>
    ⟨some (⟨here.index, letters⟩, ⟨here.index + Text.size letters, rest⟩), frontier⟩
  | none => ⟨none, frontier⟩

/-- As many matches as there are, with blanks between them. -/
def many (rule : Rule α) : Rule (List α) :=
  (do return (← rule) :: (← repeated do blanks; rule)) <|> pure []

def identifier : Rule Word := named .identifier (atomic .identifier)

def colon : Rule Nat := named .colon (literal ':')

def dot : Rule Nat := named .dot (literal '.')

def comma : Rule Nat := named .comma (literal ',')

def closeParen : Rule Nat := named .closeParen (literal ')')

def closeBrace : Rule Nat := named .closeBrace (literal '\x7d')

def commaThen (item : Rule α) : Rule α := do
  let _ ← comma
  blanks
  item

/-- Phrases separated by commas, or none at all. -/
def commaList (item : Rule α) : Rule (List α) := do
  let items ← optional do
    let first ← item
    blanks
    let rest ← many (commaThen item)
    return first :: rest
  return items.getD []

def basic : Rule Word := named .basic (atomic .identifier)

def list : Rule PayloadShape := named .list do
  let name ← basic
  blanks
  let _ ← literal '['
  blanks
  let _ ← literal ']'
  return .list name

def tuple (element : Rule PayloadShape) : Rule PayloadShape := named .tuple do
  let opening ← literal '('
  blanks
  let elements ← commaList element
  blanks
  let closing ← closeParen
  return .tuple opening elements closing

/-- A payload whose elements are matched by `element`. -/
def payloadOver (element : Rule PayloadShape) : Rule PayloadShape := named .payloadType do
  tuple element <|> list <|> (.basic <$> basic)

/-- Payloads with at most the given number of payloads inside one another. -/
def payload : Nat → Rule PayloadShape
  | 0 => fail
  | n + 1 => payloadOver (payload n)

def branch (payload : Rule PayloadShape) (session : Rule SessionShape) : Rule BranchShape :=
  named .branch do
    let label ← identifier
    blanks
    let _ ← literal '('
    blanks
    let payload ← payload
    blanks
    let _ ← closeParen
    blanks
    let _ ← dot
    blanks
    let continuation ← session
    return ⟨label, payload, continuation⟩

def choice (polarity : Polarity) (branch : Rule BranchShape) : Rule SessionShape := do
  let sign ← literal polarity.sign
  blanks
  let role ← identifier
  blanks
  let _ ← colon
  blanks
  let _ ← literal '\x7b'
  blanks
  let branches ← commaList branch
  blanks
  let closing ← closeBrace
  return .choice polarity sign role branches closing

def done : Rule SessionShape := named .done ((.done ·.index) <$> atomic .endWord)

/-- The last alternative of a session: every identifier is one. -/
def handler : Rule SessionShape := named .handler (.handler <$> identifier)

/-- A session whose payloads and continuations are matched by the given rules. -/
def sessionOver (payload : Rule PayloadShape) (continuation : Rule SessionShape) :
    Rule SessionShape :=
  let branch := branch payload continuation
  named .sessionType do
    done
    <|> named .receive (choice .receive branch)
    <|> named .send (choice .send branch)
    <|> handler

/-- Sessions with at most the given number of sessions and payloads inside one another. -/
def session : Nat → Rule SessionShape
  | 0 => fail
  | n + 1 => sessionOver (payload n) (session n)

end Rule

end SessionSyntax
