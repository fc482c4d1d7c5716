import SessionSyntax.Proofs.Cutting

/-! Positions tell places. Every offset has one, that of the last character boundary up to it; later
boundaries have later positions; and the column of a character is its place on the line shown. The
place between two offsets may also be found by steps that might fail: going back to a character
boundary, cutting the text there, and looking up a line among all lines. None of them does. -/
namespace SessionSyntax

namespace Text

/-- What stands before an offset, if a character begins there or the text ends. -/
def cut? (bytes : Nat) : List Char → Option (List Char)
  | [] => if bytes = 0 then some [] else none
  | c :: cs =>
    if bytes = 0 then some []
    else if c.utf8Size ≤ bytes then (cut? (bytes - c.utf8Size) cs).map (c :: ·)
    else none

/-- Goes back byte by byte until the text can be cut. There is no going back from the first offset. -/
def backToCut? (text : List Char) : Nat → Option Nat
  | 0 => if (cut? 0 text).isSome then some 0 else none
  | offset + 1 =>
    if (cut? (offset + 1) text).isSome then some (offset + 1) else backToCut? text offset

/-- The position at an offset, or at the end of the text for offsets beyond it. -/
def positionAt? (text : List Char) (offset : Nat) : Option Position :=
  (backToCut? text (min offset (size text))).map fun boundary =>
    ((cut? boundary text).map Position.after).getD .origin

/-- The text in pieces. An LF is the last character of its piece, and only the last piece may be
without one. -/
def pieces : List Char → List (List Char)
  | [] => []
  | c :: cs =>
    if c = '\n' then [c] :: pieces cs
    else (c :: (pieces cs).headD []) :: (pieces cs).tail

/-- The lines of a text without their ends. Behind the last line end there is a line only if something
stands there. -/
def lines (text : List Char) : List (List Char) := (pieces text).map firstLine

/-- A character begins at the offset, or the text ends there. -/
def IsBoundary (text : List Char) (offset : Nat) : Prop :=
  ∃ before, before <+: text ∧ size before = offset

/-- The text before its last character boundary within a number of bytes. -/
structure LastBoundary (text : List Char) (bytes : Nat) (before : List Char) : Prop where
  front : before <+: text
  within : size before ≤ bytes
  last : ∀ offset, IsBoundary text offset → offset ≤ bytes → offset ≤ size before

/-- The character is an LF, or the CR of a CR LF. -/
def InLineEnd (c : Char) (after : List Char) : Prop :=
  c = '\n' ∨ c = '\r' ∧ after.head? = some '\n'

end Text

namespace Span

open Text

def ofOffsets? (text : String) (start stop : Nat) : Option Span := do
  let chars := text.toList
  let here ← positionAt? chars start
  let there ← positionAt? chars (max start stop)
  return ⟨start, here, there, String.ofList ((lines chars)[here.line - 1]?.getD [])⟩

/-- The span lies between the last boundaries up to both offsets, which are brought into the text and
into order, and shows the character at its start. -/
structure Between (span : Span) (text : List Char) (start stop : Nat) : Prop where
  offset : span.offset = start
  begins : ∃ before, LastBoundary text (min start (size text)) before ∧ span.start.Behind before
  ends : ∃ before, LastBoundary text (min (max start stop) (size text)) before ∧
    span.stop.Behind before
  reaches : span.start.Reaches span.stop
  shown : ∀ before c after, LastBoundary text (min start (size text)) before →
    text = before ++ c :: after → ¬InLineEnd c after →
    span.snippet.toList[span.start.column - 1]? = some c

end Span

namespace Text

variable {text before front longer : List Char}

theorem size_eq_zero_iff : size text = 0 ↔ text = [] := by
  constructor
  · intro empty
    by_contra filled
    exact Nat.ne_of_gt (size_pos filled) empty
  · rintro rfl
    rfl

theorem prefix_of_size_le (one : front <+: text) (two : longer <+: text)
    (le : size front ≤ size longer) : front <+: longer := by
  rcases List.prefix_or_prefix_of_prefix one two with shorter | ⟨rest, rfl⟩
  · exact shorter
  · rw [size_append] at le
    obtain rfl : rest = [] := size_eq_zero_iff.mp (by omega)
    simp

theorem eq_of_size_eq (one : front <+: text) (two : longer <+: text) (same : size front = size longer) :
    front = longer :=
  (prefix_of_size_le one two (Nat.le_of_eq same)).eq_of_length_le
    (prefix_of_size_le two one (Nat.le_of_eq same.symm)).length_le

theorem IsBoundary.le_size (boundary : IsBoundary text offset) : offset ≤ size text := by
  obtain ⟨before, ⟨after, rfl⟩, rfl⟩ := boundary
  rw [size_append]
  exact Nat.le_add_right ..

theorem isBoundary_cons_iff : IsBoundary (c :: cs) offset ↔
    offset = 0 ∨ ∃ rest, IsBoundary cs rest ∧ offset = c.utf8Size + rest := by
  constructor
  · rintro ⟨before, front, rfl⟩
    rcases List.prefix_cons_iff.mp front with rfl | ⟨behind, rfl, later⟩
    · exact .inl rfl
    · exact .inr ⟨_, ⟨behind, later, rfl⟩, rfl⟩
  · rintro (rfl | ⟨_, ⟨behind, later, rfl⟩, rfl⟩)
    · exact ⟨[], List.nil_prefix, rfl⟩
    · exact ⟨c :: behind, List.cons_prefix_cons.mpr ⟨rfl, later⟩, rfl⟩

theorem LastBoundary.unique (one : LastBoundary text bytes front)
    (two : LastBoundary text bytes longer) :
    front = longer := by
  have le := two.last _ ⟨front, one.front, rfl⟩ one.within
  have ge := one.last _ ⟨longer, two.front, rfl⟩ two.within
  exact eq_of_size_eq one.front two.front (Nat.le_antisymm le ge)

theorem upTo_lastBoundary (bytes : Nat) (text : List Char) :
    LastBoundary text bytes (upTo bytes text) := by
  induction text generalizing bytes with
  | nil => exact ⟨List.nil_prefix, Nat.zero_le _, fun _ boundary _ => boundary.le_size⟩
  | cons c cs ih =>
    by_cases fits : c.utf8Size ≤ bytes
    · obtain ⟨front, within, last⟩ := ih (bytes - c.utf8Size)
      rw [upTo, if_pos fits]
      refine ⟨List.cons_prefix_cons.mpr ⟨rfl, front⟩, ?_, ?_⟩
      · rw [size]
        omega
      · intro offset boundary le
        rcases isBoundary_cons_iff.mp boundary with rfl | ⟨rest, later, rfl⟩
        · exact Nat.zero_le _
        · exact Nat.add_le_add_left (last rest later (by omega)) c.utf8Size
    · rw [upTo, if_neg fits]
      refine ⟨List.nil_prefix, Nat.zero_le _, ?_⟩
      intro offset boundary le
      rcases isBoundary_cons_iff.mp boundary with rfl | ⟨rest, _, rfl⟩
      · exact Nat.le_refl 0
      · omega

theorem lastBoundary_min_iff :
    LastBoundary text (min bytes (size text)) before ↔ LastBoundary text bytes before := by
  constructor
  · intro ⟨front, within, last⟩
    refine ⟨front, by omega, ?_⟩
    intro offset boundary le
    exact last offset boundary (Nat.le_min.mpr ⟨le, boundary.le_size⟩)
  · intro ⟨front, within, last⟩
    have inside : IsBoundary text (size before) := ⟨before, front, rfl⟩
    refine ⟨front, Nat.le_min.mpr ⟨within, inside.le_size⟩, ?_⟩
    intro offset boundary le
    exact last offset boundary (Nat.le_min.mp le).1

theorem cut?_eq_some_iff : cut? bytes text = some before ↔ before <+: text ∧ size before = bytes := by
  induction text generalizing bytes before with
  | nil =>
    rw [cut?, List.prefix_nil]
    constructor
    · intro found
      split at found
      case isTrue none =>
        obtain rfl := Option.some.inj found
        exact ⟨rfl, none.symm⟩
      case isFalse => cases found
    · rintro ⟨rfl, rfl⟩
      rfl
  | cons c cs ih =>
    have wide := c.utf8Size_pos
    rw [cut?, List.prefix_cons_iff]
    constructor
    · intro found
      split at found
      case isTrue none =>
        obtain rfl := Option.some.inj found
        exact ⟨.inl rfl, none.symm⟩
      case isFalse =>
        split at found
        case isTrue fits =>
          obtain ⟨behind, cut, rfl⟩ := Option.map_eq_some_iff.mp found
          obtain ⟨front, rest⟩ := ih.mp cut
          exact ⟨.inr ⟨behind, rfl, front⟩, by rw [size]; omega⟩
        case isFalse => cases found
    · rintro ⟨rfl | ⟨behind, rfl, front⟩, rfl⟩
      · rfl
      · have cut := ih.mpr ⟨front, rfl⟩
        rw [size, if_neg (by omega), if_pos (Nat.le_add_right ..), Nat.add_sub_cancel_left, cut]
        rfl

theorem isSome_cut?_iff : (cut? bytes text).isSome ↔ IsBoundary text bytes := by
  simp only [Option.isSome_iff_exists, cut?_eq_some_iff, IsBoundary]

/-- Going back always ends at the last boundary, and never goes on beyond the beginning of the text. -/
theorem backToCut?_eq (text : List Char) (offset : Nat) :
    backToCut? text offset = some (size (upTo offset text)) := by
  induction offset with
  | zero =>
    have start : size (upTo 0 text) = 0 := Nat.le_zero.mp (upTo_lastBoundary 0 text).within
    have boundary : IsBoundary text 0 := ⟨[], List.nil_prefix, rfl⟩
    rw [start, backToCut?, if_pos (isSome_cut?_iff.mpr boundary)]
  | succ offset ih =>
    obtain ⟨front, within, last⟩ := upTo_lastBoundary (offset + 1) text
    by_cases boundary : IsBoundary text (offset + 1)
    · have here := last _ boundary (Nat.le_refl _)
      rw [backToCut?, if_pos (isSome_cut?_iff.mpr boundary), Nat.le_antisymm within here]
    · -- The last boundary up to here is then the last one up to the offset before.
      have other : size (upTo (offset + 1) text) ≠ offset + 1 :=
        fun same => boundary ⟨_, front, same⟩
      have below : LastBoundary text offset (upTo (offset + 1) text) :=
        ⟨front, by omega, fun _ earlier le => last _ earlier (by omega)⟩
      rw [backToCut?, if_neg (mt isSome_cut?_iff.mp boundary), ih,
        below.unique (upTo_lastBoundary offset text)]

theorem positionAt?_eq (text : List Char) (offset : Nat) :
    positionAt? text offset = some (Position.after (upTo offset text)) := by
  have same : upTo (min offset (size text)) text = upTo offset text :=
    (lastBoundary_min_iff.mp (upTo_lastBoundary _ text)).unique (upTo_lastBoundary offset text)
  have cut := cut?_eq_some_iff.mpr ⟨(upTo_lastBoundary offset text).front, rfl⟩
  rw [positionAt?, backToCut?_eq, same, Option.map_some, cut]
  rfl

/-- The first piece is all of the text, or goes up to its first line end. -/
theorem exists_first_piece (text : List Char) : ∃ later, text = (pieces text).headD [] ++ later ∧
    ('\n' ∈ (pieces text).headD [] ∨ later = []) := by
  induction text with
  | nil => exact ⟨[], rfl, .inr rfl⟩
  | cons c cs ih =>
    by_cases ends : c = '\n'
    · rw [pieces, if_pos ends]
      exact ⟨cs, rfl, .inl (by simp [ends])⟩
    · obtain ⟨later, split, piece⟩ := ih
      rw [pieces, if_neg ends]
      exact ⟨later, congrArg (c :: ·) split, piece.imp_left (List.mem_cons_of_mem c)⟩

/-- A line that goes on is the same in its first piece as in the whole text. -/
theorem firstLine_cons_piece (c : Char) (cs : List Char) :
    firstLine (c :: cs) = firstLine (c :: (pieces cs).headD []) := by
  obtain ⟨later, split, ends | rfl⟩ := exists_first_piece cs
  · have whole := firstLine_append_of_mem (List.mem_cons_of_mem c ends) later
    rw [List.cons_append, ← split] at whole
    exact whole
  · rw [List.append_nil] at split
    rw [← split]

/-- Skipping line ends comes to the line that has as many lines before it. -/
theorem firstLine_skipLines (n : Nat) (text : List Char) :
    firstLine (skipLines n text) = (lines text)[n]?.getD [] := by
  induction text generalizing n with
  | nil => cases n <;> rfl
  | cons c cs ih =>
    by_cases ends : c = '\n'
    · subst ends
      cases n with
      | zero => rfl
      | succ n => rw [skipLines, if_pos rfl, ih]; rfl
    · have split : lines (c :: cs) =
          firstLine (c :: (pieces cs).headD []) :: (lines cs).tail := by
        rw [lines, pieces, if_neg ends, List.map_cons, List.map_tail, lines]
      rw [split]
      cases n with
      | zero => exact firstLine_cons_piece c cs
      | succ n => rw [skipLines, if_neg ends, ih, List.getElem?_cons_succ, List.getElem?_tail]

end Text

open Text

theorem Span.ofOffsets?_eq (text : String) (start stop : Nat) :
    Span.ofOffsets? text start stop = some (Span.ofOffsets text start stop) := by
  simp only [ofOffsets?, ofOffsets, positionAt?_eq, lineAt, firstLine_skipLines]
  rfl

/-- A character that belongs to no line end is shown, in its column, on the line of its place. -/
theorem getElem?_lineAt (before : List Char) (apart : ¬InLineEnd c after) :
    (lineAt (Position.after before).line (before ++ c :: after))[(Position.after before).column - 1]? =
      some c := by
  obtain ⟨other, single⟩ := not_or.mp apart
  obtain ⟨earlier, left, last, line⟩ := lineAt_around before (c :: after)
  obtain ⟨_, again, split, column⟩ := (Position.after_behind before).column
  have here : (Position.after before).column - 1 = left.length := by
    rw [column, split.unique last, Nat.add_sub_cancel_left]
  -- The line goes on over the character, which neither ends it nor begins its end.
  have shown : firstLine (left ++ c :: after) = left ++ c :: firstLine after := by
    rw [firstLine_append last.within (by simpa using fun _ => other),
      firstLine_cons other fun carriage next => single ⟨carriage, next⟩]
  rw [here, line.eq_firstLine, shown, List.getElem?_append_right (Nat.le_refl _), Nat.sub_self]
  rfl

theorem Span.ofOffsets_between (text : String) (start stop : Nat) :
    (Span.ofOffsets text start stop).Between text.toList start stop := by
  have begins := upTo_lastBoundary start text.toList
  have ends := upTo_lastBoundary (max start stop) text.toList
  refine ⟨rfl, ?_, ?_, ?_, ?_⟩
  · exact ⟨_, lastBoundary_min_iff.mpr begins, Position.after_behind _⟩
  · exact ⟨_, lastBoundary_min_iff.mpr ends, Position.after_behind _⟩
  · have le : size (upTo start text.toList) ≤ max start stop := by
      have := begins.within
      omega
    have later := ends.last _ ⟨_, begins.front, rfl⟩ le
    obtain ⟨inside, split⟩ := prefix_of_size_le begins.front ends.front later
    have reaches := Position.after_reaches (upTo start text.toList) inside
    rwa [split] at reaches
  · intro before c after last split apart
    obtain rfl := (lastBoundary_min_iff.mp last).unique begins
    have shown := getElem?_lineAt (upTo start text.toList) apart
    rw [← split] at shown
    simpa [ofOffsets] using shown

theorem upTo_of_boundary (front : before <+: text) : upTo (size before) text = before := by
  obtain ⟨after, rfl⟩ := front
  exact upTo_size before after

/-- Later boundaries have later positions. -/
theorem Span.start_precedes {text : String} (one : IsBoundary text.toList here)
    (two : IsBoundary text.toList there) (lt : here < there) (stop last : Nat) :
    (Span.ofOffsets text here stop).start.Precedes (Span.ofOffsets text there last).start := by
  obtain ⟨before, front, rfl⟩ := one
  obtain ⟨longer, beginning, rfl⟩ := two
  obtain ⟨inside, rfl⟩ := prefix_of_size_le front beginning (Nat.le_of_lt lt)
  have filled : inside ≠ [] := by
    rintro rfl
    simp at lt
  simp only [ofOffsets, upTo_of_boundary front, upTo_of_boundary beginning]
  exact Position.after_precedes before filled

theorem Text.Position.Precedes.ne {start stop : Position} (precedes : start.Precedes stop) :
    start ≠ stop := by
  rintro rfl
  rcases precedes with line | ⟨_, column⟩
  · exact Nat.lt_irrefl _ line
  · exact Nat.lt_irrefl _ column

/-- Different boundaries have different positions. -/
theorem Span.eq_of_start_eq {text : String} {stop last : Nat} (one : IsBoundary text.toList here)
    (two : IsBoundary text.toList there)
    (same : (Span.ofOffsets text here stop).start = (Span.ofOffsets text there last).start) :
    here = there := by
  rcases Nat.lt_trichotomy here there with lt | same | gt
  · exact absurd same (start_precedes one two lt _ _).ne
  · exact same
  · exact absurd same.symm (start_precedes two one gt _ _).ne

/-- Between any two offsets there is a span, which going back step by step comes to as well. It holds
the positions of the last character boundaries up to both offsets and shows the character at its start
on its line. Over the boundaries of a text the positions increase, and so tell them apart. -/
theorem positions_tell_places (text : String) :
    (∀ start stop, Span.ofOffsets? text start stop = some (Span.ofOffsets text start stop) ∧
      (Span.ofOffsets text start stop).Between text.toList start stop) ∧
    (∀ here there stop last, IsBoundary text.toList here → IsBoundary text.toList there →
      here < there →
      (Span.ofOffsets text here stop).start.Precedes (Span.ofOffsets text there last).start) ∧
    (∀ here there stop last, IsBoundary text.toList here → IsBoundary text.toList there →
      (Span.ofOffsets text here stop).start = (Span.ofOffsets text there last).start →
      here = there) := by
  refine ⟨?_, ?_, ?_⟩
  · intro start stop
    exact ⟨Span.ofOffsets?_eq text start stop, Span.ofOffsets_between text start stop⟩
  · intro here there stop last one two lt
    exact Span.start_precedes one two lt stop last
  · intro here there stop last one two same
    exact Span.eq_of_start_eq one two same

/-- An offset within the last character, behind a CR LF, with an end before it; and two boundaries. -/
theorem positions_tell_places_crlf :
    Span.ofOffsets? "a\r\né" 4 1 = some ⟨4, ⟨2, 1⟩, ⟨2, 1⟩, "é"⟩ ∧
    (Span.ofOffsets "a\r\né" 4 1).Between "a\r\né".toList 4 1 ∧
    (Span.ofOffsets "a\r\né" 2 9).start.Precedes (Span.ofOffsets "a\r\né" 5 0).start := by
  obtain ⟨spans, increasing, _⟩ := positions_tell_places "a\r\né"
  refine ⟨(spans 4 1).1.trans rfl, (spans 4 1).2, increasing 2 5 9 0 ?_ ?_ (by decide)⟩
  · exact ⟨"a\r".toList, ⟨"\né".toList, rfl⟩, rfl⟩
  · exact ⟨"a\r\né".toList, ⟨[], rfl⟩, rfl⟩

end SessionSyntax
