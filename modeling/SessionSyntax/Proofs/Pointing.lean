import SessionSyntax.Proofs.Expectations

/-! Every error points into the text that was read. The faults of a list of lexemes name lexemes
that are there, and are what the fault says; so the piece of the text that they are written in is
what the error shows. -/
namespace SessionSyntax

theorem Span.ofOffsets_points {text : String} (split : text.toList = before ++ inside ++ after) :
    (Span.ofOffsets text (Text.size before) (Text.size (before ++ inside))).Points before inside
      after := by
  obtain ⟨start, stop⟩ := Text.upTo_piece split
  have order : Text.size before ≤ Text.size (before ++ inside) := by
    rw [Text.size_append]
    exact Nat.le_add_right ..
  simp only [Span.ofOffsets, start, Nat.max_eq_right order, stop]
  refine ⟨rfl, Text.Position.after_behind _, Text.Position.after_behind _,
    Text.Position.after_reaches _ _, ?_⟩
  simpa [split] using Text.lineAt_around before (inside ++ after)

/-- The inner lexemes stand among the others, from the place on. -/
def Holds (ls : List Lexeme) (place : Nat) (inner : List Lexeme) : Prop :=
  ∃ front rest, ls = front ++ inner ++ rest ∧ front.length = place

theorem Holds.trans (outer : Holds ls place part) (inner : Holds part within ms) :
    Holds ls (place + within) ms := by
  obtain ⟨front, rest, rfl, rfl⟩ := outer
  obtain ⟨before, after, rfl, rfl⟩ := inner
  exact ⟨front ++ before, after ++ rest, by simp, by simp⟩

/-- What is within the inner lexemes is within the others. -/
theorem Holds.bounds (holds : Holds ls ahead part)
    (within : place + ahead ≤ index ∧ index < place + ahead + part.length) :
    place ≤ index ∧ index < place + ls.length := by
  obtain ⟨front, rest, rfl, rfl⟩ := holds
  simp only [List.length_append]
  omega

/-- The lexemes that the fault names are there. -/
def Fault.Stands (ls : List Lexeme) : Fault → Prop
  | .tooDeep place _ => ∃ c, (c = '(' ∨ c = '\x7b') ∧ Holds ls place [.mark c]
  | .unexpected _ wanted => wanted ≠ []
  | .unknownType name => Holds ls name.index [.word name.letters]
  | .emptyCollection opening closing .tupleElements =>
    closing = opening + 1 ∧ Holds ls opening [.mark '(', .mark ')']
  | .emptyCollection opening closing .branches => closing = opening + 4 ∧
    ∃ polarity role, isIdentifier role ∧ Holds ls opening
      [.mark (Polarity.sign polarity), .word role, .mark ':', .mark '\x7b', .mark '\x7d']
  | .leftover place => place < ls.length

theorem Series.exists_of_mem {stands : Nat → α → List Lexeme → Prop}
    (series : Series stands place items ls) (member : item ∈ items) :
    ∃ within part, Holds ls within part ∧ stands (place + within) item part := by
  induction series with
  | @one place first ls one =>
    obtain rfl := List.mem_singleton.mp member
    exact ⟨0, ls, ⟨[], [], by simp, rfl⟩, one⟩
  | @more place first ls rest ms one _ ih =>
    rcases List.mem_cons.mp member with rfl | member
    · exact ⟨0, ls, ⟨[], .mark ',' :: ms, by simp, rfl⟩, one⟩
    · obtain ⟨within, part, holds, stand⟩ := ih member
      have behind : Holds (ls ++ .mark ',' :: ms) (ls.length + 1) ms :=
        ⟨ls ++ [.mark ','], [], by simp, by simp⟩
      exact ⟨_, part, behind.trans holds, by rwa [← Nat.add_assoc, ← Nat.add_assoc]⟩

theorem PayloadShape.Offends.stands {shape : PayloadShape} (offends : shape.Offends fault)
    (spelled : PayloadShape.Spelled place shape ls) (holds : Holds all place ls) :
    fault.Stands all := by
  induction offends generalizing place ls with
  | basic =>
    cases spelled
    exact holds
  | list =>
    cases spelled
    exact holds.trans ⟨[], [.mark '[', .mark ']'], rfl, rfl⟩
  | empty =>
    cases spelled with
    | empty => exact ⟨rfl, holds⟩
    | tuple series => cases series
  | element member _ ih =>
    cases spelled with
    | empty => cases member
    | @tuple _ _ ls series =>
      obtain ⟨within, part, inside, stand⟩ := series.exists_of_mem member
      have elements : Holds (.mark '(' :: ls ++ [.mark ')']) 1 ls :=
        ⟨[.mark '('], [.mark ')'], by simp, rfl⟩
      exact ih stand ((holds.trans elements).trans inside)

theorem BranchShape.Spelled.holds
    (spelled : BranchShape.Spelled SessionShape.Spelled place branch ls) :
    (∃ part, Holds ls 2 part ∧ PayloadShape.Spelled (place + 2) branch.payload part) ∧
      ∃ within part, Holds ls within part ∧
        SessionShape.Spelled (place + within) branch.continuation part := by
  cases spelled with
  | @mk name _ carried ls next ms named phrase continues =>
    constructor
    · exact ⟨ls, ⟨[.word name, .mark '('], .mark ')' :: .mark '.' :: ms, by simp, rfl⟩, phrase⟩
    · refine ⟨2 + ls.length + 2, ms, ⟨.word name :: .mark '(' :: ls ++ [.mark ')', .mark '.'], [],
        by simp, by simp; omega⟩, ?_⟩
      simpa only [Nat.add_assoc] using continues

theorem SessionShape.Spelled.exists_branch
    (spelled : SessionShape.Spelled place (.choice polarity sign role branches closing) ls)
    (member : branch ∈ branches) : ∃ within part, Holds ls within part ∧
      BranchShape.Spelled SessionShape.Spelled (place + within) branch part := by
  cases spelled with
  | empty => cases member
  | @choice role _ _ ls _ _ series =>
    obtain ⟨within, part, inside, stand⟩ := series.exists_of_mem member
    have block : Holds (.mark polarity.sign :: .word role :: .mark ':' :: .mark '\x7b' :: ls ++
        [.mark '\x7d']) 4 ls :=
      ⟨[.mark polarity.sign, .word role, .mark ':', .mark '\x7b'], [.mark '\x7d'], by simp, rfl⟩
    exact ⟨_, part, block.trans inside, by rwa [← Nat.add_assoc]⟩

theorem SessionShape.Spelled.exists_continuation
    (spelled : SessionShape.Spelled place (.choice polarity sign role branches closing) ls)
    (member : branch ∈ branches) : ∃ within part, Holds ls within part ∧
      SessionShape.Spelled (place + within) branch.continuation part := by
  obtain ⟨outer, part, holds, phrase⟩ := spelled.exists_branch member
  obtain ⟨inner, next, continues, session⟩ := phrase.holds.2
  exact ⟨_, next, holds.trans continues, by rwa [← Nat.add_assoc]⟩

theorem SessionShape.Offends.stands {shape : SessionShape} (offends : shape.Offends fault)
    (spelled : SessionShape.Spelled place shape ls) (holds : Holds all place ls) :
    fault.Stands all := by
  induction offends generalizing place ls with
  | @empty polarity =>
    cases spelled with
    | empty _ named => exact ⟨rfl, polarity, _, named, holds⟩
    | choice _ _ series => cases series
  | payload member offends =>
    obtain ⟨within, part, inside, branch⟩ := spelled.exists_branch member
    obtain ⟨carried, inner, phrase⟩ := branch.holds.1
    exact offends.stands phrase ((holds.trans inside).trans inner)
  | continuation member _ ih =>
    obtain ⟨within, part, inside, phrase⟩ := spelled.exists_continuation member
    exact ih phrase (holds.trans inside)

/-- What offends in a phrase stands where the phrase does. -/
def OffencesStand (spelled : Nat → σ → List Lexeme → Prop) (offends : σ → Fault → Prop) : Prop :=
  ∀ ⦃shape fault ls all⦄, offends shape fault → spelled 0 shape ls → Holds all 0 ls → fault.Stands all

theorem session_offencesStand : OffencesStand SessionShape.Spelled SessionShape.Offends :=
  fun _ _ _ _ offends spelled holds => offends.stands spelled holds

theorem payload_offencesStand : OffencesStand PayloadShape.Spelled PayloadShape.Offends :=
  fun _ _ _ _ offends spelled holds => offends.stands spelled holds

theorem stands_of_overflow? (exceeded : overflow? limit ls = some place) (bound : Nat) :
    (Fault.tooDeep place bound).Stands ls := by
  obtain ⟨front, l, rest, rfl, rfl, _, opens, _⟩ := exists_of_overflow? exceeded
  cases l with
  | word => simp [Lexeme.opens] at opens
  | mark c => exact ⟨c, by simpa [Lexeme.opens] using opens, front, rest, by simp, by simp⟩

/-- Whatever is told to be wrong with the lexemes of a text names lexemes that are there. -/
theorem LexemeReader.Follows.fault_stands {reader : LexemeReader σ α}
    (follows : reader.Follows spelled offends) (needs : reader.Needs spelled breaks)
    (stands : OffencesStand spelled offends)
    (refused : (reader.read ⟨limit⟩ ls).result = .error fault) : fault.Stands ls := by
  cases exceeded : overflow? limit ls with
  | some place =>
    obtain rfl : .tooDeep place limit = fault := by simpa [LexemeReader.read, exceeded] using refused
    exact stands_of_overflow? exceeded limit
  | none =>
    have within := overflow?_eq_none_iff.mp exceeded
    by_cases begun : ∃ matched begins, begins <+: ls ∧ spelled 0 matched begins
    · obtain ⟨_, _, begins, phrase⟩ := begun
      obtain ⟨matched, front, rest, rfl, longest⟩ := exists_longest begins phrase
      rw [follows.read_longest within longest] at refused
      rcases except_bind_eq_error_iff.mp refused with unbuilt | ⟨built, _, behind⟩
      · exact stands (follows.refused unbuilt) longest.phrase ⟨[], rest, by simp, rfl⟩
      · cases rest with
        | nil => simp at behind
        | cons l rest =>
          obtain rfl : .leftover front.length = fault := by simpa using behind
          simp [Fault.Stands]
    · have no : NoPhrase spelled ls := fun shape front begins phrase =>
        begun ⟨shape, front, begins, phrase⟩
      obtain ⟨front, rest, rfl, stalls⟩ := exists_stalls needs.begins ls
      obtain ⟨need, off⟩ := needs.breaks_off no stalls.viable
      rw [needs.read_eq within stalls off] at refused
      cases refused
      exact need.wanted_ne_nil

/-- The error points at a piece of the text, which is what it speaks of. The piece has no blanks at
its ends; or there is nothing in it, where the content of the text ends. -/
structure ParseError.Frames (error : ParseError) (text before inside after : List Char) : Prop where
  split : text = before ++ inside ++ after
  points : error.span.Points before inside after
  shown : error.cause.Shown inside after
  edges : inside ≠ [] ∧ Unindented inside ∧ Trimmed inside ∨
    inside = [] ∧ (∃ wanted, error.cause = .unexpected wanted none) ∧ (Trimmed before ∨ after = [])

namespace Source

variable {text : String} {ls inner : List Lexeme}

@[simp] theorem ofText_text (text : String) : (ofText text).text = text := rfl

/-- Lexemes that stand one behind the other are shown by the piece of the text that they take up. -/
theorem exists_spanOf (spaced : Spaced text.toList ls) (holds : Holds ls first inner)
    (filled : inner ≠ []) (last : first + inner.length - 1 = place) :
    ∃ before inside after, text.toList = before ++ inside ++ after ∧
      ((ofText text).spanOf first place).Points before inside after ∧
      Unindented inside ∧ Trimmed inside ∧ Spaced inside inner := by
  obtain ⟨front, rest, rfl, rfl⟩ := holds
  obtain ⟨before, inside, after, split, begins, ends, _, stands, _, start, stop⟩ :=
    exists_stretch spaced filled
  rw [last] at stop
  refine ⟨before, inside, after, split, ?_, begins, ends, stands⟩
  rw [spanOf, start, stop]
  exact Span.ofOffsets_points split

theorem locate_unexpected_frames (spaced : Spaced text.toList ls) (filled : wanted ≠ [])
    (place : Nat) : ∃ before inside after,
      ((ofText text).locate (.unexpected place wanted)).Frames text.toList before inside after := by
  have lexed := (spaced_iff text).mp spaced
  obtain ⟨before, after, stands, start⟩ := standsAt_startOf spaced place
  by_cases inside : place < ls.length
  · have written := stands.behind
    have begins := stands.start inside
    rw [List.drop_eq_getElem_cons inside] at written
    obtain ⟨behind, rfl, _, _⟩ := written.first_token begins
    obtain ⟨c, cs, chars⟩ := List.exists_cons_of_ne_nil
      (spaced.chars_ne_nil ls[place] (List.getElem_mem inside))
    have found : (ls[place]?).bind Lexeme.first? = some c := by
      rw [List.getElem?_eq_getElem inside, Option.bind_some, Lexeme.first?_eq_head?, chars]
      rfl
    have unblank : ¬isBlank c := begins c (by simp [chars])
    have split : text.toList = before ++ [c] ++ (cs ++ behind) := by
      simp [stands.split, chars]
    refine ⟨before, [c], cs ++ behind, split, ?_, ?_, .inl ?_⟩
    · simpa [locate, lexed, start, found, Text.size_append, Text.size] using
        Span.ofOffsets_points split
    · simp only [locate, lexed, found]
      exact ⟨rfl, unblank, Cause.message_unexpected filled (some c)⟩
    · simpa [Unindented, Trimmed] using unblank
  · have beyond : ls.length ≤ place := Nat.le_of_not_lt inside
    have found : ls[place]? = none := List.getElem?_eq_none beyond
    have written := stands.behind
    rw [List.drop_of_length_le beyond] at written
    have split : text.toList = before ++ [] ++ after := by simp [stands.split]
    refine ⟨before, [], after, split, ?_, ?_, .inr ⟨rfl, ?_, ?_⟩⟩
    · simpa [locate, lexed, start, found] using Span.ofOffsets_points split
    · simp only [locate, lexed, found]
      exact ⟨rfl, written.blank_of_nil, Cause.message_unexpected filled none⟩
    · exact ⟨wanted, by simp [locate, lexed, found]⟩
    · by_cases empty : ls = []
      · exact .inr (stands.blank empty)
      · exact .inl (stands.finish empty beyond)

/-- From one of its lexemes on, what remains of a text splits off. -/
theorem exists_remaining (spaced : Spaced text.toList ls) (inside : place < ls.length) :
    ∃ before remaining blanks, SplitsOff text.toList before remaining blanks ∧
      Spaced remaining (ls.drop place) ∧ (ofText text).startOf place = Text.size before ∧
      (ofText text).contentEnd = Text.size (before ++ remaining) := by
  have filled : ls.drop place ≠ [] := by simpa using inside
  have count : (ls.take place).length = place := List.length_take_of_le (Nat.le_of_lt inside)
  rw [← List.take_append_drop place ls] at spaced
  obtain ⟨before, remaining, blanks, splits, front, behind⟩ := exists_splitsOff spaced filled
  obtain ⟨start, stop⟩ := offsets_of_splitsOff splits front behind
  rw [count] at start
  exact ⟨before, remaining, blanks, splits, behind, start, stop⟩

theorem locate_leftover_frames (spaced : Spaced text.toList ls) (inside : place < ls.length) :
    ∃ before inside after,
      ((ofText text).locate (.leftover place)).Frames text.toList before inside after := by
  obtain ⟨before, remaining, blanks, splits, _, start, stop⟩ := exists_remaining spaced inside
  refine ⟨before, remaining, blanks, splits.split, ?_, ?_,
    .inl ⟨splits.filled, splits.begins, splits.ends⟩⟩
  · simpa [locate, start, stop] using Span.ofOffsets_points splits.split
  · simpa [locate, Cause.Shown, start, stop, slice_eq splits.split] using splits.blank

theorem locate_frames (spaced : Spaced text.toList ls) (stands : fault.Stands ls) :
    ∃ before inside after, ((ofText text).locate fault).Frames text.toList before inside after := by
  cases fault with
  | tooDeep place limit =>
    obtain ⟨c, bracket, holds⟩ := stands
    obtain ⟨before, inside, after, split, points, begins, ends, written⟩ :=
      exists_spanOf spaced holds (by simp) rfl
    refine ⟨before, inside, after, split, points, ?_, .inl ⟨written.filled (by simp), begins, ends⟩⟩
    simpa [locate, Cause.Shown, Lexeme.chars, written.eq_chars begins ends] using bracket
  | unexpected place wanted => exact locate_unexpected_frames spaced stands place
  | unknownType name =>
    obtain ⟨before, inside, after, split, points, begins, ends, written⟩ :=
      exists_spanOf spaced stands (by simp) rfl
    refine ⟨before, inside, after, split, points, ?_, .inl ⟨written.filled (by simp), begins, ends⟩⟩
    simp [locate, Cause.Shown, Lexeme.chars, Word.text, written.eq_chars begins ends]
  | emptyCollection opening closing collection =>
    cases collection with
    | tupleElements =>
      obtain ⟨rfl, holds⟩ := stands
      obtain ⟨before, inside, after, split, points, begins, ends, written⟩ :=
        exists_spanOf spaced holds (by simp) rfl
      exact ⟨before, inside, after, split, points, ⟨begins, ends, written⟩,
        .inl ⟨written.filled (by simp), begins, ends⟩⟩
    | branches =>
      obtain ⟨rfl, polarity, role, named, holds⟩ := stands
      obtain ⟨before, inside, after, split, points, begins, ends, written⟩ :=
        exists_spanOf spaced holds (by simp) rfl
      exact ⟨before, inside, after, split, points, ⟨begins, ends, polarity, role, named, written⟩,
        .inl ⟨written.filled (by simp), begins, ends⟩⟩
  | leftover place => exact locate_leftover_frames spaced stands

theorem locate_points (spaced : Spaced text.toList ls) (stands : fault.Stands ls) :
    ((ofText text).locate fault).PointsInto text.toList := by
  obtain ⟨before, inside, after, frames⟩ := locate_frames spaced stands
  exact ⟨before, inside, after, frames.split, frames.points, frames.shown⟩

end Source

theorem LexemeReader.Follows.points_into {reader : LexemeReader σ α}
    (follows : reader.Follows spelled offends)
    (needs : reader.Needs spelled breaks) (stands : OffencesStand spelled offends) {text : String}
    (refused : reader.parse ⟨limit⟩ text = .error error) : error.PointsInto text.toList := by
  obtain ⟨fault, read, rfl⟩ := LexemeReader.parse_eq_error_iff.mp refused
  exact Source.locate_points ((spaced_iff text).mpr rfl) (follows.fault_stands needs stands read)

/-- Every error points into the text that was given, with all its blanks: at a piece of it which is
what the error speaks of, and by its offset, its positions and its line. -/
theorem error_points_into_text (text : String) (limit : Nat) :
    (∀ error, Session.parseWith ⟨limit⟩ text = .error error → error.PointsInto text.toList) ∧
    (∀ error, Payload.parseWith ⟨limit⟩ text = .error error → error.PointsInto text.toList) := by
  rw [Session.parseWith_eq, Payload.parseWith_eq]
  constructor
  · intro error refused
    exact LexemeReader.session_follows.points_into LexemeReader.session_needs session_offencesStand
      refused
  · intro error refused
    exact LexemeReader.payload_follows.points_into LexemeReader.payload_needs payload_offencesStand
      refused

theorem error_points_into_text_second_line :
    (∃ error, Session.parseWith ⟨4⟩ "\r\n(é" = .error error ∧
      error.PointsInto "\r\n(é".toList) ∧
    (∃ error, Payload.parseWith ⟨4⟩ "\r\n(é" = .error error ∧
      error.PointsInto "\r\n(é".toList) := by
  have points := error_points_into_text "\r\n(é" 4
  exact ⟨⟨_, rfl, points.1 _ rfl⟩, ⟨_, rfl, points.2 _ rfl⟩⟩

end SessionSyntax
