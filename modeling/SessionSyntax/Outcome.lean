import SessionSyntax.Grammar
import SessionSyntax.Parse

/-! What the outcome of reading tells of a text, stated by the text and its lexemes alone. A text may be
wrong in several ways at once; which one is told follows a fixed precedence, from the nesting of
brackets anywhere in the text, over the longest phrase at its front, to what is left behind that
phrase. An error points at a piece of the text, which is what it speaks of, and its message underlines
the piece; it tells the leftmost offence, the parts that are needed where the text breaks off, or what
is left over. The log tells the handlers and choices that building was done with before. -/
namespace SessionSyntax

/-- The ways in which reading a text can end. -/
inductive Verdict where
  | tooDeep
  | unexpected
  /-- Something in the longest phrase offends. -/
  | refused
  | leftover
  | accepted
  deriving DecidableEq, Repr

def Cause.verdict : Cause → Verdict
  | tooDeep .. => .tooDeep
  | unexpected .. => .unexpected
  | unknownType _ | emptyCollection _ => .refused
  | leftover _ => .leftover

def Verdict.ofResult : Except ParseError α → Verdict
  | .ok _ => .accepted
  | .error error => error.cause.verdict

section

variable (spelled : Nat → σ → List Lexeme → Prop) (offends : σ → Fault → Prop)

/-- The longest phrase at the front of the lexemes is as described, together with what is left
behind it. -/
def LongestAs (ls : List Lexeme) (described : σ → List Lexeme → Prop) : Prop :=
  ∃ shape front rest, ls = front ++ rest ∧ Longest spelled shape front rest ∧ described shape rest

/-- When reading a text with the given lexemes ends in a verdict. Blanks at the ends of the text
count neither as nesting nor as a leftover. -/
def Verdict.Applies (limit : Nat) (text : List Char) (ls : List Lexeme) : Verdict → Prop
  | tooDeep => ¬Text.NestsWithin limit text
  | unexpected => Text.NestsWithin limit text ∧ ∀ shape front, front <+: ls → ¬spelled 0 shape front
  | refused => Text.NestsWithin limit text ∧
      LongestAs spelled ls fun shape _ => ∃ fault, offends shape fault
  | leftover => Text.NestsWithin limit text ∧
      LongestAs spelled ls fun shape rest => (∀ fault, ¬offends shape fault) ∧ rest ≠ []
  | accepted => Text.NestsWithin limit text ∧
      LongestAs spelled ls fun shape rest => (∀ fault, ¬offends shape fault) ∧ rest = []

end

/-- The first character of the lexeme at a place; none behind the last one. -/
def charAt (ls : List Lexeme) (place : Nat) : Option Char := (ls[place]?).bind Lexeme.first?

/-- The error tells a need with which the front of the lexemes breaks off. -/
structure Need.Told (need : Need) (text : List Char) (front rest : List Lexeme)
    (error : ParseError) : Prop where
  cause : error.cause =
    .unexpected need.wanted (charAt (front ++ rest) (need.place front.length))
  message : error.cause.message =
    "Syntax error: expected " ++ alternatives (need.wanted.map Part.describe) ++ ", found " ++
      (charAt (front ++ rest) (need.place front.length)).elim "end of input"
        (fun c => "`" ++ String.singleton c ++ "`")
  stands : StandsAt text (front ++ rest) (need.place front.length) error.span.offset

/-- The need is for a part that the grammar names. The brackets that open a block and a payload and
that close a list are no such parts. -/
def Need.Named : Need → Prop
  | block _ | opening .. | bracket .. => False
  | _ => True

/-- The lexemes are followed as far as phrases go. There is a need with which they break off, and
what is claimed holds of each such need. -/
def BreaksOff (spelled : Nat → σ → List Lexeme → Prop) (breaks : Nat → List Lexeme → Need → Prop)
    (ls : List Lexeme) (claimed : List Lexeme → List Lexeme → Need → Prop) : Prop :=
  ∃ front rest, ls = front ++ rest ∧ Stalls spelled front rest ∧
    (∃ need, breaks 0 front need) ∧ ∀ need, breaks 0 front need → claimed front rest need

/-- The causes tell the same; what is left over is the same up to its blanks. -/
def Cause.Alike : Cause → Cause → Prop
  | leftover one, leftover two => ∃ ms, Spaced one.toList ms ∧ Spaced two.toList ms
  | one, two => one = two

/-- Both texts, with the given lexemes, lead to the same result, or to errors of one kind at the same
place among the lexemes. -/
def SameOutcome (first second : List Char) (ls : List Lexeme) :
    Except ParseError α → Except ParseError α → Prop
  | .ok one, .ok two => one = two
  | .error one, .error two => one.cause.Alike two.cause ∧
    ∃ index, StandsAt first ls index one.span.offset ∧ StandsAt second ls index two.span.offset
  | _, _ => False

/-- Behind `before` the text goes on with what remains of it, which is not blank at either end, and
ends with blanks. No word goes on from the one half to the other. -/
structure SplitsOff (text before remaining blanks : List Char) : Prop where
  split : text = before ++ remaining ++ blanks
  filled : remaining ≠ []
  begins : Unindented remaining
  ends : Trimmed remaining
  blank : ∀ c ∈ blanks, isBlank c
  apart : ¬WordGoesOn before remaining

/-- The text begins with the two brackets that make a list of a name before them. -/
def OpensList (text : List Char) : Prop :=
  ∃ blanks more, text = '[' :: blanks ++ ']' :: more ∧ ∀ c ∈ blanks, isBlank c

/-- The result is an error that tells, from the offset on, what remains behind an expression. -/
def TellsLeftover (result : Except ParseError α) (offset : Nat) (remaining : String) : Prop :=
  ∃ error, result = .error error ∧ error.cause = .leftover remaining ∧ error.span.offset = offset

/-- The place is that of a piece of a text with what is written before and behind it. -/
structure Span.Points (span : Span) (before inside after : List Char) : Prop where
  offset : span.offset = Text.size before
  start : span.start.Behind before
  stop : span.stop.Behind (before ++ inside)
  reaches : span.start.Reaches span.stop
  snippet : Text.LineAround before (inside ++ after) span.snippet.toList

/-- The piece of the text, with what is written behind it, is what the cause speaks of. Where
something is missing the message also names the character that is found instead. -/
def Cause.Shown (inside after : List Char) : Cause → Prop
  | unexpected wanted (some c) => inside = [c] ∧ ¬isBlank c ∧
      (unexpected wanted (some c)).message = "Syntax error: expected " ++
        alternatives (wanted.map Part.describe) ++ ", found " ++ ("`" ++ String.singleton c ++ "`")
  | unexpected wanted none => inside = [] ∧ (∀ c ∈ after, isBlank c) ∧
      (unexpected wanted none).message = "Syntax error: expected " ++
        alternatives (wanted.map Part.describe) ++ ", found " ++ "end of input"
  | unknownType name => inside = name.toList
  | leftover remaining => inside = remaining.toList ∧ ∀ c ∈ after, isBlank c
  | emptyCollection .tupleElements => Unindented inside ∧ Trimmed inside ∧
      Spaced inside [.mark '(', .mark ')']
  | emptyCollection .branches => Unindented inside ∧ Trimmed inside ∧
      ∃ polarity role, isIdentifier role ∧ Spaced inside
        [.mark (Polarity.sign polarity), .word role, .mark ':', .mark '\x7b', .mark '\x7d']
  | tooDeep .. => inside = ['('] ∨ inside = ['\x7b']

/-- The error points at a piece of the text, which is what it speaks of. -/
def ParseError.PointsInto (error : ParseError) (text : List Char) : Prop :=
  ∃ before inside after, text = before ++ inside ++ after ∧
    error.span.Points before inside after ∧ error.cause.Shown inside after

/-- The causes by which what offends in a phrase is told. -/
inductive Fault.ToldAs : Fault → Cause → Prop where
  | unknownType : ToldAs (.unknownType name) (.unknownType name.text)
  | emptyCollection :
      ToldAs (.emptyCollection opening closing collection) (.emptyCollection collection)

/-- The error tells the fault, at the piece of the text that it is, and whatever else offends starts
further behind. -/
structure TellsLeftmost (offends : Fault → Prop) (text : List Char) (ls : List Lexeme)
    (fault : Fault) (error : ParseError) : Prop where
  among : offends fault
  cause : fault.ToldAs error.cause
  points : error.PointsInto text
  stands : StandsAt text ls fault.index error.span.offset
  leftmost : ∀ other, offends other → other = fault ∨
    ∃ offset, StandsAt text ls other.index offset ∧ error.span.offset < offset

/-- A tree is built if nothing in the phrase offends. If something does, it is the leftmost such
thing that building comes to and that is told of the whole text. -/
structure TellsOffences (offends : Fault → Prop) (text : List Char) (ls : List Lexeme)
    (built : Except Fault α) (result : Except ParseError α) : Prop where
  clean : (∀ fault, ¬offends fault) → ∃ a, built = .ok a
  told : (∃ fault, offends fault) → ∃ fault error, built = .error fault ∧ result = .error error ∧
    TellsLeftmost offends text ls fault error

/-- Results by limit, where the limit only selects. Below the nesting of the text its first bracket
beyond the limit is told; from there on every limit gives the same. -/
structure SelectedByLimit (results : Nat → Except ParseError α) (text : String) : Prop where
  tooDeep_iff : ∀ limit, Verdict.ofResult (results limit) = .tooDeep ↔
    limit < Text.highest Text.nesting text.toList
  told : ∀ limit, limit < Text.highest Text.nesting text.toList →
    ∃ before bracket after, text.toList = before ++ bracket :: after ∧
      (bracket = '(' ∨ bracket = '\x7b') ∧ Text.NestsWithin limit before ∧
      Text.nesting (before ++ [bracket]) = limit + 1 ∧
      results limit = .error ⟨.tooDeep (limit + 1) limit,
        Span.ofOffsets text (Text.size before) (Text.size (before ++ [bracket]))⟩
  steady : ∀ one two, Text.highest Text.nesting text.toList ≤ one →
    Text.highest Text.nesting text.toList ≤ two → results one = results two

/-- Both texts are accepted within the same limits. -/
def SameLimits (results others : Nat → Except ParseError α) : Prop :=
  ∀ limit, (∃ a, results limit = .ok a) ↔ ∃ a, others limit = .ok a

/-- The number in decimal, with blanks before it up to the width. -/
def flushRight (width number : Nat) : List Char :=
  let digits := Nat.toDigits 10 number
  List.replicate (width - digits.length) ' ' ++ digits

/-- The room for the numbers of lines, which is that of three digits at least. -/
def gutterWidth (number : Nat) : Nat := max 3 (Nat.toDigits 10 number).length

/-- What is written before a line of a text: its number and a bar. -/
def margin (number : Nat) : List Char := flushRight (gutterWidth number) number ++ [' ', '|', ' ']

/-- The message ends with two lines: the given line of a text behind its margin, and as many blanks
as make up the margin and what stands left of the column, with carets behind them. -/
def EndsWithCarets (message : List Char) (number column : Nat) (line : List Char) (carets : Nat) :
    Prop :=
  '\n' ∉ line ∧ (margin number).length = gutterWidth number + 3 ∧ ∃ ahead, message = ahead ++ '\n' ::
    (margin number ++ line) ++ '\n' ::
    (List.replicate (gutterWidth number + 3 + (column - 1)) ' ' ++ List.replicate carets '^') ++
    ['\n']

/-- The error's message underlines a piece of the text. The line shown is made up of what stands left
of the piece, what of it is marked, which is all of its first line, and what stands right of this. -/
structure ParseError.Underlines (error : ParseError)
    (before inside after left marked right : List Char) : Prop where
  points : error.span.Points before inside after
  shown : error.cause.Shown inside after
  first : Text.FirstLine inside marked
  line : error.span.snippet.toList = left ++ marked ++ right
  column : error.span.start.column = left.length + 1
  message : EndsWithCarets (toString error).toList error.span.start.line error.span.start.column
    error.span.snippet.toList (max 1 marked.length)
  /-- The carets keep to the line, except for the one behind a line that ends too early. -/
  fits : left.length + max 1 marked.length ≤ error.span.snippet.toList.length ∨
    (∃ wanted, error.cause = .unexpected wanted none) ∧ marked = [] ∧ right = []

/-- Before the offset the text begins some phrase, and it still does so with a blank and any of the
wanted parts behind it. -/
structure SoundAdvice (spelled : Nat → σ → List Lexeme → Prop) (text : List Char) (offset : Nat)
    (wanted : List Part) : Prop where
  filled : wanted ≠ []
  distinct : (wanted.map Part.describe).Nodup
  goes : ∃ before after front, text = before ++ after ∧ offset = Text.size before ∧
    Spaced before front ∧ Viable spelled 0 front ∧
    ∀ part ∈ wanted, ∀ phrase ms, Spaced phrase ms → part.Phrase ms →
      ∃ ls, Spaced (before ++ ' ' :: phrase) ls ∧ Viable spelled 0 ls

def Event.note? : Event → Option Note
  | .built note => some note
  | _ => none

/-- The notes among the steps of reading. -/
def notesOf (events : List Event) : List Note := events.filterMap Event.note?

mutual

/-- A note of every handler and every choice of a tree. A choice comes behind all that its branches
hold, and these are gone through from left to right. -/
def Session.notes : Session → List Note
  | .done => []
  | .handler name => [.handler name]
  | .choice _ role ⟨⟨_, _, next⟩, rest⟩ =>
    next.notes ++ Session.notesAmong rest ++ [.choice role (rest.length + 1)]

def Session.notesAmong : List Branch → List Note
  | [] => []
  | ⟨_, _, next⟩ :: rest => next.notes ++ Session.notesAmong rest

end

/-- A handler or a choice of a phrase: the note of it, and the index of its last lexeme. -/
structure Occurrence where
  note : Note
  last : Nat
  deriving DecidableEq, Repr

mutual

/-- The handlers and choices of a phrase, in the order of the notes of them. -/
def SessionShape.occurrences : SessionShape → List Occurrence
  | .done _ => []
  | .handler name => [⟨.handler name.symbol, name.index⟩]
  | .choice _ _ role branches closing =>
    BranchShape.occurrencesAmong branches ++ [⟨.choice role.symbol branches.length, closing⟩]

def BranchShape.occurrencesAmong : List BranchShape → List Occurrence
  | [] => []
  | ⟨_, _, next⟩ :: rest => next.occurrences ++ BranchShape.occurrencesAmong rest

end

/-- The lexeme of the given index ends at the offset in bytes. -/
def EndsAt (text : List Char) (ls : List Lexeme) (index offset : Nat) : Prop :=
  ∃ before after, text = before ++ after ∧ Spaced before (ls.take (index + 1)) ∧
    Spaced after (ls.drop (index + 1)) ∧ Trimmed before ∧ offset = Text.size before

/-- The notes are those of the occurrences that come before something. All the others come behind
it. -/
def NotesUpTo (before behind : Occurrence → Prop) (occurrences : List Occurrence)
    (notes : List Note) : Prop :=
  ∃ told later, occurrences = told ++ later ∧ notes = told.map (·.note) ∧
    (∀ occurrence ∈ told, before occurrence) ∧ ∀ occurrence ∈ later, behind occurrence

/-- The notes are those of the handlers and choices that end at the offset or before it. -/
def SessionShape.NotesUpToOffset (shape : SessionShape) (text : List Char) (ls : List Lexeme)
    (offset : Nat) (notes : List Note) : Prop :=
  NotesUpTo (fun occurrence => ∃ stop, EndsAt text ls occurrence.last stop ∧ stop ≤ offset)
    (fun occurrence => ∃ stop, EndsAt text ls occurrence.last stop ∧ offset < stop)
    shape.occurrences notes

/-- The notes that go with a result of reading a text. -/
def Session.NotesFit (text : List Char) (limit : Nat) (notes : List Note) :
    Except ParseError Session → Prop
  | .ok session => notes = session.notes
  | .error ⟨.tooDeep .., _⟩ | .error ⟨.unexpected .., _⟩ => notes = []
  | .error ⟨.leftover remaining, span⟩ => ∃ before blanks session,
    SplitsOff text before remaining.toList blanks ∧ span.offset = Text.size before ∧
      Session.parseWith ⟨limit⟩ (String.ofList before) = .ok session ∧ notes = session.notes
  | .error ⟨.unknownType _, span⟩ | .error ⟨.emptyCollection _, span⟩ => ∃ ls, Spaced text ls ∧
    LongestAs SessionShape.Spelled ls fun shape _ => shape.NotesUpToOffset text ls span.offset notes

end SessionSyntax
