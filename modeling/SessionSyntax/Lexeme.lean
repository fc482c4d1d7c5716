import SessionSyntax.Session
import SessionSyntax.Text

/-! The words and marks of a text. A word is a maximal run of ASCII letters, digits and underscores;
every other character is a mark by itself, and blanks only separate. What a text means is stated over
its lexemes; the offsets of a token serve to point into the text. Which lexemes stand in a text, and
where, is also told without saying how they are found; and so is what they say apart from how their
names are spelled. -/
namespace SessionSyntax

inductive Lexeme where
  | word (letters : List Char)
  | mark (c : Char)
  deriving DecidableEq, Repr

/-- The lexeme's first character; a word is never empty where a text was scanned. -/
def Lexeme.first? : Lexeme → Option Char
  | word letters => letters.head?
  | mark c => some c

def Lexeme.chars : Lexeme → List Char
  | word letters => letters
  | mark c => [c]

/-- A lexeme and the byte offsets of both its ends. -/
structure Token where
  lexeme : Lexeme
  start : Nat
  stop : Nat
  deriving DecidableEq, Repr

namespace Token

/-- Puts a word character that ends at `stop` before the tokens behind it: it joins a word that
begins there, and is a word of its own otherwise. -/
def join (c : Char) (start stop : Nat) : List Token → List Token
  | ⟨.word letters, next, last⟩ :: rest =>
    if next = stop then ⟨.word (c :: letters), start, last⟩ :: rest
    else ⟨.word [c], start, stop⟩ :: ⟨.word letters, next, last⟩ :: rest
  | rest => ⟨.word [c], start, stop⟩ :: rest

/-- The tokens of a text that begins at the given offset. -/
def scan (start : Nat) : List Char → List Token
  | [] => []
  | c :: cs =>
    let stop := start + c.utf8Size
    if isBlank c then scan stop cs
    else if isWordChar c then join c start stop (scan stop cs)
    else ⟨.mark c, start, stop⟩ :: scan stop cs

end Token

/-- A text with its tokens. -/
structure Source where
  text : String
  tokens : List Token

namespace Source

def ofText (text : String) : Source := ⟨text, Token.scan 0 text.toList⟩

def lexemes (source : Source) : List Lexeme := source.tokens.map (·.lexeme)

/-- Where the last token ends; in a text without tokens, where the text ends. -/
def contentEnd (source : Source) : Nat :=
  match source.tokens.getLast? with
  | some token => token.stop
  | none => Text.size source.text.toList

/-- Where the token of the given index starts; the end of the content stands for all beyond. -/
def startOf (source : Source) (index : Nat) : Nat :=
  match source.tokens[index]? with
  | some token => token.start
  | none => source.contentEnd

def stopOf (source : Source) (index : Nat) : Nat :=
  match source.tokens[index]? with
  | some token => token.stop
  | none => source.contentEnd

/-- The text between two byte offsets. -/
def slice (source : Source) (start stop : Nat) : String :=
  let chars := source.text.toList
  String.ofList ((Text.upTo stop chars).drop (Text.upTo start chars).length)

end Source

namespace Lexeme

def opens : Lexeme → Bool
  | mark c => c == '(' || c == '\x7b'
  | word _ => false

def closes : Lexeme → Bool
  | mark c => c == ')' || c == '\x7d'
  | word _ => false

/-- The nesting behind a lexeme, from the nesting before it. A closing bracket that closes nothing
leaves the count at zero. -/
def nest (depth : Nat) (lexeme : Lexeme) : Nat :=
  if lexeme.opens then depth + 1 else if lexeme.closes then depth - 1 else depth

end Lexeme

/-- Index of the first lexeme behind which the nesting exceeds the limit. The count goes on from
`depth`, the indices from `index`. -/
def overflowFrom? (limit depth index : Nat) : List Lexeme → Option Nat
  | [] => none
  | lexeme :: rest =>
    if limit < lexeme.nest depth then some index
    else overflowFrom? limit (lexeme.nest depth) (index + 1) rest

/-- The highest nesting behind any beginning of the lexemes. -/
def peakFrom (depth : Nat) : List Lexeme → Nat
  | [] => depth
  | lexeme :: rest => max depth (peakFrom (lexeme.nest depth) rest)

def peak (lexemes : List Lexeme) : Nat := peakFrom 0 lexemes

def overflow? (limit : Nat) (lexemes : List Lexeme) : Option Nat :=
  overflowFrom? limit 0 0 lexemes

/-- The lexemes stand in the text one after the other, with any blanks between them and at both ends,
and at least one blank, or a mark, between two words. -/
inductive Spaced : List Char → List Lexeme → Prop where
  | nil : Spaced [] []
  | blank (c : Char) : isBlank c → Spaced text ls → Spaced (c :: text) ls
  | mark (c : Char) : ¬isBlank c → ¬isWordChar c → Spaced text ls →
      Spaced (c :: text) (.mark c :: ls)
  | word (letters : List Char) : letters ≠ [] → (∀ c ∈ letters, isWordChar c) →
      (∀ c, text.head? = some c → ¬isWordChar c) → Spaced text ls →
      Spaced (letters ++ text) (.word letters :: ls)

/-- A word goes on from the end of one text to the front of the other. -/
def WordGoesOn (before after : List Char) : Prop :=
  (∃ c, before.getLast? = some c ∧ isWordChar c) ∧ ∃ c, after.head? = some c ∧ isWordChar c

/-- A text with no blank at its front. -/
def Unindented (text : List Char) : Prop := ∀ c, text.head? = some c → ¬isBlank c

/-- A text with no blank at its end. -/
def Trimmed (text : List Char) : Prop := ∀ c, text.getLast? = some c → ¬isBlank c

/-- The lexeme of the given index starts behind `before`. The place behind the last one is where that
one ends; a text without lexemes has a single place, which is its end. -/
structure Place (text : List Char) (ls : List Lexeme) (index : Nat) (before after : List Char) :
    Prop where
  split : text = before ++ after
  front : Spaced before (ls.take index)
  behind : Spaced after (ls.drop index)
  start : index < ls.length → Unindented after
  finish : ls ≠ [] → ls.length ≤ index → Trimmed before
  blank : ls = [] → after = []

/-- The place of the given index has the given offset in bytes. -/
def StandsAt (text : List Char) (ls : List Lexeme) (index offset : Nat) : Prop :=
  ∃ before after, Place text ls index before after ∧ offset = Text.size before

/-- What a lexeme says apart from how a name is spelled. -/
inductive Key where
  /-- The word that ends a session, where one may end. -/
  | done
  | lexeme (lexeme : Lexeme)
  deriving DecidableEq, Repr

/-- What a word stands for at a place among lexemes, told without a grammar: names stand outside of all
parentheses and keywords inside. -/
inductive Scope where
  /-- A session begins here: at the front, and behind every dot. The word is a handler or an end. -/
  | session
  /-- The word is a role or a label. -/
  | name
  /-- Inside of a label's parentheses, and of the given number of further ones. -/
  | keyword (depth : Nat)
  deriving DecidableEq, Repr

namespace Scope

/-- The scope behind a lexeme. -/
def behind : Scope → Lexeme → Scope
  | keyword depth, .mark c =>
    if c = '(' then keyword (depth + 1)
    else if c = ')' then match depth with
      | 0 => name
      | depth + 1 => keyword depth
    else keyword depth
  | keyword depth, .word _ => keyword depth
  | _, .mark c => if c = '(' then keyword 0 else if c = '.' then session else name
  | _, .word _ => name

def key : Scope → Lexeme → Key
  | _, .mark c => .lexeme (.mark c)
  | keyword _, .word letters => .lexeme (.word letters)
  | name, .word letters => .lexeme (.word (normalizeChars letters))
  | session, .word letters =>
    if letters = Session.endWord.toList then .done else .lexeme (.word (normalizeChars letters))

end Scope

def keysFrom (scope : Scope) : List Lexeme → List Key
  | [] => []
  | l :: ls => scope.key l :: keysFrom (scope.behind l) ls

/-- The lexemes with every name spelled canonically. -/
def Lexeme.keys (ls : List Lexeme) : List Key := keysFrom .session ls

end SessionSyntax
