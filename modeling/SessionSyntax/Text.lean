/-! Texts: positions, lines and the nesting of brackets. Lines and columns count from one, columns in
characters, and offsets in bytes. A line ends with LF or CR LF; a CR anywhere else is a character of
its line. Brackets are counted character by character: parentheses and braces alike, or braces alone,
and a closing bracket that closes nothing leaves the count at zero. -/
namespace SessionSyntax

/-- Space, tab, CR and LF. -/
def isBlank (c : Char) : Bool := c == ' ' || c == '\t' || c == '\r' || c == '\n'

namespace Text

structure Position where
  line : Nat
  column : Nat
  deriving DecidableEq, Repr

def Position.origin : Position := ⟨1, 1⟩

/-- The position behind a character. The CR of a CR LF still takes a column: it is the LF that
begins the next line. -/
def Position.next (here : Position) (c : Char) : Position :=
  if c = '\n' then ⟨here.line + 1, 1⟩ else ⟨here.line, here.column + 1⟩

/-- The position behind a whole text that begins at the origin. -/
def Position.after (before : List Char) : Position := before.foldl Position.next .origin

/-- Length in bytes of the UTF-8 form. -/
def size : List Char → Nat
  | [] => 0
  | c :: cs => c.utf8Size + size cs

/-- The longest beginning of a text that takes at most the given number of bytes. -/
def upTo : Nat → List Char → List Char
  | _, [] => []
  | bytes, c :: cs => if c.utf8Size ≤ bytes then c :: upTo (bytes - c.utf8Size) cs else []

/-- What follows that beginning. -/
def behind (bytes : Nat) (text : List Char) : List Char := text.drop (upTo bytes text).length

/-- The text up to its first line end. -/
def firstLine : List Char → List Char
  | [] => []
  | '\n' :: _ => []
  | '\r' :: '\n' :: _ => []
  | c :: cs => c :: firstLine cs

/-- What follows the given number of line ends; nothing if there are fewer. -/
def skipLines : Nat → List Char → List Char
  | 0, cs => cs
  | _ + 1, [] => []
  | n + 1, c :: cs => if c = '\n' then skipLines n cs else skipLines (n + 1) cs

/-- The line of the given number, without its line end. -/
def lineAt (number : Nat) (text : List Char) : List Char := firstLine (skipLines (number - 1) text)

/-- A text falls into whole lines and the beginning of another one. -/
structure LastLine (before earlier left : List Char) : Prop where
  split : before = earlier ++ left
  whole : earlier = [] ∨ earlier.getLast? = some '\n'
  within : '\n' ∉ left

/-- The position counts the line ends before a place, and the characters since the last one. -/
structure Position.Behind (before : List Char) (position : Position) : Prop where
  line : position.line = 1 + before.count '\n'
  column : ∃ earlier left, LastLine before earlier left ∧ position.column = 1 + left.length

/-- The one position is before the other. -/
def Position.Precedes (start stop : Position) : Prop :=
  start.line < stop.line ∨ start.line = stop.line ∧ start.column < stop.column

/-- Neither position is before the other one. -/
def Position.Reaches (start stop : Position) : Prop :=
  start.line < stop.line ∨ start.line = stop.line ∧ start.column ≤ stop.column

/-- The line is what a text begins with up to its first LF or CR LF, or all of a text without them. -/
def FirstLine (text line : List Char) : Prop :=
  '\n' ∉ line ∧ (text = line ∨ (∃ later, text = line ++ '\r' :: '\n' :: later) ∨
    line.getLast? ≠ some '\r' ∧ ∃ later, text = line ++ '\n' :: later)

/-- The line is the whole one that holds the place between two halves of a text. -/
def LineAround (before after line : List Char) : Prop :=
  ∃ earlier left, LastLine before earlier left ∧ FirstLine (left ++ after) line

/-- The nesting behind a character, from the nesting before it. -/
def nest (depth : Nat) (c : Char) : Nat :=
  if c = '(' ∨ c = '\x7b' then depth + 1 else if c = ')' ∨ c = '\x7d' then depth - 1 else depth

/-- The nesting behind a whole text. -/
def nesting (text : List Char) : Nat := text.foldl nest 0

/-- The nesting exceeds the limit behind no beginning of the text. -/
def NestsWithin (limit : Nat) (text : List Char) : Prop :=
  ∀ before, before <+: text → nesting before ≤ limit

instance : Decidable (NestsWithin limit text) :=
  decidable_of_iff ((List.range (text.length + 1)).all fun n => nesting (text.take n) ≤ limit) <| by
    simp only [List.all_eq_true, List.mem_range, decide_eq_true_eq, Nat.lt_succ_iff]
    constructor
    · intro all before front
      rw [List.prefix_iff_eq_take.mp front]
      exact all before.length front.length_le
    · intro within n _
      exact within _ (List.take_prefix n text)

/-- Of the brackets only the braces count. -/
def nestBraces (depth : Nat) (c : Char) : Nat :=
  if c = '\x7b' then depth + 1 else if c = '\x7d' then depth - 1 else depth

/-- The braces that a text leaves open. -/
def openBraces (text : List Char) : Nat := text.foldl nestBraces 0

/-- The highest count behind any beginning of the text. -/
def highest (count : List Char → Nat) (text : List Char) : Nat :=
  ((List.range (text.length + 1)).map fun n => count (text.take n)).foldr max 0

end Text

end SessionSyntax
