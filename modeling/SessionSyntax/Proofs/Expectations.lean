import SessionSyntax.Proofs.Reading
import SessionSyntax.Proofs.Stopping
import SessionSyntax.Proofs.Viability

/-! A text without a phrase at its front is refused with just what is needed where it breaks off.
Nothing of what was tried before that place, in whatever construct, is left in the message. -/
namespace SessionSyntax

open Matcher

theorem Need.sorted_wanted (need : Need) : Part.sorted need.wanted = need.wanted := by
  cases need with
  | session | role | colon | block | dot | separator => rfl
  | branch first | opening _ first | payload first => cases first <;> rfl
  | bracket _ seat | behind seat => cases seat <;> rfl

theorem Need.wanted_ne_nil (need : Need) : need.wanted ≠ [] := by
  cases need with
  | bracket _ seat | behind seat => cases seat <;> simp [wanted, Seat.wanted]
  | _ => simp [wanted]

theorem Need.exists_takes (need : Need) : ∃ l, need.Takes l := by
  have named := Session.isIdentifier_endWord
  cases need with
  | session => exact ⟨_, .leaf named⟩
  | role => exact ⟨_, .role named⟩
  | colon => exact ⟨_, .colon⟩
  | block => exact ⟨_, .block⟩
  | branch => exact ⟨_, .label named⟩
  | opening => exact ⟨_, .opening⟩
  | payload => exact ⟨_, .tuple⟩
  | bracket => exact ⟨_, .bracket⟩
  | behind => exact ⟨_, .closing⟩
  | dot => exact ⟨_, .dot⟩
  | separator => exact ⟨_, .closeBrace⟩

theorem Cause.expectation_of_wanted (filled : wanted ≠ []) (found : Option Char) :
    Cause.expectation wanted found =
      "expected " ++ alternatives (wanted.map Part.describe) ++ ", found " ++
        found.elim "end of input" (fun c => "`" ++ String.singleton c ++ "`") := by
  have some : ¬wanted.isEmpty := by simpa using filled
  cases found with
  | none => exact if_neg some
  | some c => exact if_neg some

theorem Cause.message_unexpected (filled : wanted ≠ []) (found : Option Char) :
    (Cause.unexpected wanted found).message =
      "Syntax error: expected " ++ alternatives (wanted.map Part.describe) ++ ", found " ++
        found.elim "end of input" (fun c => "`" ++ String.singleton c ++ "`") := by
  have told : (unexpected wanted found).message = "Syntax error: " ++ expectation wanted found := rfl
  have begins (s : String) :
      "Syntax error: expected " ++ s = "Syntax error: " ++ ("expected " ++ s) := by
    rw [← String.append_assoc]
    simp
  rw [told, expectation_of_wanted filled]
  simp only [String.append_assoc, begins]

theorem exists_stalls {spelled : Nat → σ → List Lexeme → Prop} (viable : Viable spelled 0 front)
    (ls : List Lexeme) :
    ∃ more rest, ls = more ++ rest ∧ Stalls spelled (front ++ more) rest := by
  induction ls generalizing front with
  | nil => exact ⟨[], [], rfl, by simpa using viable, fun _ _ absent => by cases absent⟩
  | cons l ls ih =>
    by_cases further : Viable spelled 0 (front ++ [l])
    · obtain ⟨more, rest, rfl, stalls⟩ := ih further
      exact ⟨l :: more, rest, rfl, by simpa using stalls⟩
    · refine ⟨[], l :: ls, rfl, by simpa using viable, fun _ _ next => ?_⟩
      obtain ⟨rfl, rfl⟩ := List.cons.inj next
      simpa using further

theorem Need.Named.place_eq {need : Need} (named : need.Named) (here : Nat) :
    need.place here = here := by
  cases need with
  | block | opening | bracket => cases named
  | _ => rfl

theorem PayloadShape.SeriesBreaks.place_lt
    (breaks : PayloadShape.SeriesBreaks first place front need) (unnamed : ¬need.Named)
    (ends : place + front.length = there) : need.place there < there := by
  induction breaks with
  | start | behind => exact absurd trivial unnamed
  | list => exact ends ▸ Nat.lt_succ_self _
  | tuple _ ih | more _ _ ih => exact ih unnamed (by rw [← ends]; simp; omega)

theorem PayloadShape.Breaks.place_lt (breaks : PayloadShape.Breaks place front need)
    (unnamed : ¬need.Named) (ends : place + front.length = there) : need.place there < there := by
  cases breaks with
  | start => exact absurd trivial unnamed
  | tuple inner => exact inner.place_lt unnamed (by rw [← ends]; simp; omega)

mutual

theorem SessionShape.Breaks.place_lt (unnamed : ¬need.Named) (ends : place + front.length = there) :
    SessionShape.Breaks place front need → need.place there < there
  | .start | .role _ | .colon _ _ => absurd trivial unnamed
  | .block _ _ => ends ▸ Nat.lt_add_of_pos_right (by simp)
  | .inside _ _ inner => BranchShape.SeriesBreaks.place_lt unnamed (by rw [← ends]; simp; omega) inner

theorem BranchShape.SeriesBreaks.place_lt (unnamed : ¬need.Named)
    (ends : place + front.length = there) :
    BranchShape.SeriesBreaks first place front need → need.place there < there
  | .start | .closing _ _ | .dot _ _ | .behind _ => absurd trivial unnamed
  | .opening _ => ends ▸ Nat.lt_succ_self _
  | .payload _ inner => inner.place_lt unnamed (by rw [← ends]; simp; omega)
  | .list _ _ => ends ▸ Nat.lt_succ_self _
  | .continuation _ _ inner =>
    SessionShape.Breaks.place_lt unnamed (by rw [← ends]; simp; omega) inner
  | .more _ inner => BranchShape.SeriesBreaks.place_lt unnamed (by rw [← ends]; simp; omega) inner

end

/-- The reader stops with the need of what breaks off, and the need takes what can go on. -/
structure LexemeReader.Needs (reader : LexemeReader σ α) (spelled : Nat → σ → List Lexeme → Prop)
    (breaks : Nat → List Lexeme → Need → Prop) : Prop where
  begins : Viable spelled 0 []
  breaks_off : ∀ {front rest}, NoPhrase spelled (front ++ rest) → Viable spelled 0 front →
    ∃ need, breaks 0 front need
  takes : ∀ {front need l}, breaks 0 front need → need.Takes l → Viable spelled 0 (front ++ [l])
  stops : ∀ {front rest need}, breaks 0 front need → need.Stuck rest →
    (reader.shape ((front ++ rest).length + 1)).Stops ⟨0, front ++ rest⟩ (need.left front.length)
  place_lt : ∀ {front need}, breaks 0 front need → ¬need.Named →
    need.place front.length < front.length

theorem LexemeReader.session_needs :
    LexemeReader.session.Needs SessionShape.Spelled SessionShape.Breaks where
  begins := session_viable_nil 0
  breaks_off := by
    rintro front rest no ⟨shape, more, phrase⟩
    refine phrase.breaks ⟨more, rfl⟩ fun whole => ?_
    exact no shape front ⟨rest, rfl⟩ (whole ▸ phrase)
  takes breaks takes := breaks.viable takes
  stops breaks stuck := breaks.stops stuck (Nat.zero_add _)
    (by rw [List.length_append]; omega)
  place_lt breaks unnamed := breaks.place_lt unnamed (Nat.zero_add _)

theorem LexemeReader.payload_needs :
    LexemeReader.payload.Needs PayloadShape.Spelled PayloadShape.Breaks where
  begins := payload_viable_nil 0
  breaks_off := by
    rintro front rest no ⟨shape, more, phrase⟩
    have short : front ≠ front ++ more := fun whole => no shape front ⟨rest, rfl⟩ (whole ▸ phrase)
    rcases phrase.breaks ⟨more, rfl⟩ short with breaks | ⟨name, named, rfl | rfl⟩
    · exact breaks
    · exact absurd (.basic named) (no _ [.word name] ⟨rest, rfl⟩)
    · exact absurd (.basic named) (no _ [.word name] ⟨.mark '[' :: rest, rfl⟩)
  takes breaks takes := breaks.viable takes
  stops breaks stuck := breaks.stops stuck (Nat.zero_add _)
    (by rw [List.length_append]; omega)
  place_lt breaks unnamed := breaks.place_lt unnamed (Nat.zero_add _)

namespace LexemeReader

variable {reader : LexemeReader σ α} {spelled : Nat → σ → List Lexeme → Prop}
  {breaks : Nat → List Lexeme → Need → Prop}

theorem Needs.stuck (needs : reader.Needs spelled breaks) (stalls : Stalls spelled front rest)
    (off : breaks 0 front need) : need.Stuck rest := by
  intro l more next takes
  exact stalls.stuck l more next (needs.takes off takes)

theorem Needs.read_eq (needs : reader.Needs spelled breaks)
    (within : peak (front ++ rest) ≤ limit) (stalls : Stalls spelled front rest)
    (off : breaks 0 front need) :
    (reader.read ⟨limit⟩ (front ++ rest)).result =
      .error (.unexpected (need.place front.length) need.wanted) := by
  have stops := needs.stops off (needs.stuck stalls off) .initial Frontier.clear_initial
  rw [read, overflow?_eq_none_iff.mpr within]
  simp only [stops, Need.left, Need.sorted_wanted]
  rfl

theorem Needs.told (needs : reader.Needs spelled breaks) {text : String}
    (spaced : Spaced text.toList (front ++ rest)) (nested : Text.NestsWithin limit text.toList)
    (stalls : Stalls spelled front rest) (off : breaks 0 front need) :
    ∃ error, reader.parse ⟨limit⟩ text = .error error ∧ need.Told text.toList front rest error := by
  have lexed := (spaced_iff text).mp spaced
  have read := needs.read_eq ((peak_le_iff spaced).mpr nested) stalls off
  refine ⟨_, by rw [parse, lexed, read]; rfl, ?_, ?_, ?_⟩
  · simp only [Source.locate, lexed, charAt]
  · simp only [Source.locate, lexed, charAt, Cause.message_unexpected need.wanted_ne_nil]
  · exact Source.standsAt_startOf spaced _

/-- A text without a phrase at its front breaks off behind its longest viable beginning. -/
theorem Needs.breaksOff (needs : reader.Needs spelled breaks) (no : NoPhrase spelled ls)
    (claimed : List Lexeme → List Lexeme → Need → Prop)
    (holds : ∀ front rest need, ls = front ++ rest → Stalls spelled front rest →
      breaks 0 front need → claimed front rest need) : BreaksOff spelled breaks ls claimed := by
  obtain ⟨front, rest, rfl, stalls⟩ := exists_stalls needs.begins ls
  exact ⟨front, rest, rfl, stalls, needs.breaks_off no stalls.viable, fun need off =>
    holds front rest need rfl stalls off⟩

/-- The error on a text that has no phrase at its front tells the need with which the text breaks
off. -/
theorem Needs.refuses (needs : reader.Needs spelled breaks) {text : String}
    (spaced : Spaced text.toList ls) (nested : Text.NestsWithin limit text.toList)
    (no : NoPhrase spelled ls) :
    BreaksOff spelled breaks ls fun front rest need =>
      ∃ error, reader.parse ⟨limit⟩ text = .error error ∧ need.Told text.toList front rest error := by
  refine needs.breaksOff no _ fun front rest need split stalls off => ?_
  subst split
  exact needs.told spaced nested stalls off

/-- What is told of a named part is told where the lexemes break off, and of other parts before. -/
theorem Needs.offset_iff (needs : reader.Needs spelled breaks) (off : breaks 0 front need)
    (spaced : Spaced text (front ++ rest)) (told : need.Told text front rest error)
    (furthest : StandsAt text (front ++ rest) front.length offset) :
    error.span.offset ≤ offset ∧ (error.span.offset = offset ↔ need.Named) := by
  by_cases named : need.Named
  · have stands := told.stands
    rw [named.place_eq] at stands
    have same := stands.unique furthest
    exact ⟨Nat.le_of_eq same, iff_of_true same named⟩
  · obtain ⟨before, after, here, start⟩ := told.stands
    obtain ⟨longer, last, there, stop⟩ := furthest
    have earlier := needs.place_lt off named
    have apart := here.lt there spaced earlier (by simp; omega)
    rw [← start, ← stop] at apart
    exact ⟨Nat.le_of_lt apart, iff_of_false (Nat.ne_of_lt apart) named⟩

theorem Needs.furthest (needs : reader.Needs spelled breaks) {text : String}
    (spaced : Spaced text.toList ls) (nested : Text.NestsWithin limit text.toList)
    (no : NoPhrase spelled ls) :
    BreaksOff spelled breaks ls fun front _ need =>
      ∃ error, reader.parse ⟨limit⟩ text = .error error ∧
        ∀ furthest, StandsAt text.toList ls front.length furthest →
          error.span.offset ≤ furthest ∧ (error.span.offset = furthest ↔ need.Named) := by
  refine needs.breaksOff no _ fun front rest need split stalls off => ?_
  subst split
  obtain ⟨error, refused, told⟩ := needs.told spaced nested stalls off
  exact ⟨error, refused, fun furthest stands => needs.offset_iff off spaced told stands⟩

/-- Where lexemes break off and what is needed does not follow, no phrase begins them. -/
theorem Needs.noPhrase (needs : reader.Needs spelled breaks)
    (follows : reader.Follows spelled offends) (off : breaks 0 front need)
    (stuck : need.Stuck rest) : NoPhrase spelled (front ++ rest) := by
  intro shape begins ahead phrase
  obtain ⟨longest, first, last, split, begun⟩ := exists_longest ahead phrase
  have stops := needs.stops off stuck .initial Frontier.clear_initial
  have found := follows.finds begun (n := (front ++ rest).length + 1) (by simp [split]; omega) .initial
  rw [← split, stops] at found
  cases found

/-- A need takes just the lexemes with which what breaks off can go on. -/
theorem Needs.viable_iff (needs : reader.Needs spelled breaks)
    (follows : reader.Follows spelled offends) (off : breaks 0 front need) :
    Viable spelled 0 (front ++ [l]) ↔ need.Takes l := by
  constructor
  · rintro ⟨shape, more, phrase⟩
    by_contra refused
    have stuck : need.Stuck (l :: more) := by
      rintro k rest same
      obtain ⟨rfl, rfl⟩ := List.cons.inj same
      exact refused
    exact needs.noPhrase follows off stuck shape _ ⟨[], by simp⟩ phrase
  · exact needs.takes off

theorem Needs.stalls (needs : reader.Needs spelled breaks) (follows : reader.Follows spelled offends)
    (off : breaks 0 front need) (stuck : need.Stuck rest) : Stalls spelled front rest := by
  obtain ⟨l, takes⟩ := need.exists_takes
  refine ⟨(needs.takes off takes).beginning, fun k more next viable => ?_⟩
  exact stuck k more next ((needs.viable_iff follows off).mp viable)

end LexemeReader

/-- A tuple that is never closed is no session from its first lexeme on, and as a payload breaks off
at its end. -/
theorem noPhrase_open_tuple :
    Spaced "(unit".toList [.mark '(', .word "unit".toList] ∧ Text.NestsWithin 64 "(unit".toList ∧
    NoPhrase SessionShape.Spelled [.mark '(', .word "unit".toList] ∧
    NoPhrase PayloadShape.Spelled [.mark '(', .word "unit".toList] := by
  have spaced : Spaced "(unit".toList [.mark '(', .word "unit".toList] :=
    (spaced_iff "(unit").mpr (by decide)
  have session : (Need.session).Stuck [.mark '(', .word "unit".toList] := by
    rintro l more next (polarity | _)
    · cases polarity <;> simp [Polarity.sign] at next
    · cases next
  have payload : PayloadShape.Breaks 0 [.mark '(', .word "unit".toList] (.behind .tuple true) :=
    .tuple (.behind (.basic (by decide)))
  refine ⟨spaced, (peak_le_iff spaced).mp (by decide), ?_, ?_⟩
  · exact LexemeReader.session_needs.noPhrase LexemeReader.session_follows .start session
  · exact LexemeReader.payload_needs.noPhrase LexemeReader.payload_follows payload fun _ _ absent =>
      by cases absent

/-- The error on a text that has no phrase at its front is told by the need with which the text
breaks off: the parts are those that are needed there, and they are told at the place of the need. -/
theorem error_tells_need (text : String) (limit : Nat) (spaced : Spaced text.toList ls)
    (nested : Text.NestsWithin limit text.toList) :
    (NoPhrase SessionShape.Spelled ls →
      BreaksOff SessionShape.Spelled SessionShape.Breaks ls fun front rest need =>
        ∃ error, Session.parseWith ⟨limit⟩ text = .error error ∧
          need.Told text.toList front rest error) ∧
    (NoPhrase PayloadShape.Spelled ls →
      BreaksOff PayloadShape.Spelled PayloadShape.Breaks ls fun front rest need =>
        ∃ error, Payload.parseWith ⟨limit⟩ text = .error error ∧
          need.Told text.toList front rest error) := by
  rw [Session.parseWith_eq, Payload.parseWith_eq]
  exact ⟨LexemeReader.session_needs.refuses spaced nested,
    LexemeReader.payload_needs.refuses spaced nested⟩

theorem error_tells_need_open_tuple :
    (BreaksOff SessionShape.Spelled SessionShape.Breaks [.mark '(', .word "unit".toList]
      fun front rest need => ∃ error, Session.parseWith ⟨64⟩ "(unit" = .error error ∧
        need.Told "(unit".toList front rest error) ∧
    (BreaksOff PayloadShape.Spelled PayloadShape.Breaks [.mark '(', .word "unit".toList]
      fun front rest need => ∃ error, Payload.parseWith ⟨64⟩ "(unit" = .error error ∧
        need.Told "(unit".toList front rest error) := by
  obtain ⟨spaced, nested, session, payload⟩ := noPhrase_open_tuple
  have told := error_tells_need "(unit" 64 spaced nested
  exact ⟨told.1 session, told.2 payload⟩

/-- An error stands where the text breaks off, at the start of the first token that goes on no
phrase, just if the part needed there is a named one. Where it is one of the other brackets, the
error stands before that token, so that the furthest place of failure is not told. -/
theorem offset_furthest_iff_named (text : String) (limit : Nat) (spaced : Spaced text.toList ls)
    (nested : Text.NestsWithin limit text.toList) :
    (NoPhrase SessionShape.Spelled ls →
      BreaksOff SessionShape.Spelled SessionShape.Breaks ls fun front _ need =>
        ∃ error, Session.parseWith ⟨limit⟩ text = .error error ∧
          ∀ furthest, StandsAt text.toList ls front.length furthest →
            error.span.offset ≤ furthest ∧ (error.span.offset = furthest ↔ need.Named)) ∧
    (NoPhrase PayloadShape.Spelled ls →
      BreaksOff PayloadShape.Spelled PayloadShape.Breaks ls fun front _ need =>
        ∃ error, Payload.parseWith ⟨limit⟩ text = .error error ∧
          ∀ furthest, StandsAt text.toList ls front.length furthest →
            error.span.offset ≤ furthest ∧ (error.span.offset = furthest ↔ need.Named)) := by
  rw [Session.parseWith_eq, Payload.parseWith_eq]
  exact ⟨LexemeReader.session_needs.furthest spaced nested,
    LexemeReader.payload_needs.furthest spaced nested⟩

theorem offset_furthest_iff_named_open_tuple :
    (BreaksOff SessionShape.Spelled SessionShape.Breaks [.mark '(', .word "unit".toList]
      fun front _ need => ∃ error, Session.parseWith ⟨64⟩ "(unit" = .error error ∧
        ∀ furthest, StandsAt "(unit".toList [.mark '(', .word "unit".toList] front.length furthest →
          error.span.offset ≤ furthest ∧ (error.span.offset = furthest ↔ need.Named)) ∧
    (BreaksOff PayloadShape.Spelled PayloadShape.Breaks [.mark '(', .word "unit".toList]
      fun front _ need => ∃ error, Payload.parseWith ⟨64⟩ "(unit" = .error error ∧
        ∀ furthest, StandsAt "(unit".toList [.mark '(', .word "unit".toList] front.length furthest →
          error.span.offset ≤ furthest ∧ (error.span.offset = furthest ↔ need.Named)) := by
  obtain ⟨spaced, nested, session, payload⟩ := noPhrase_open_tuple
  have told := offset_furthest_iff_named "(unit" 64 spaced nested
  exact ⟨told.1 session, told.2 payload⟩

/-- A choice without its block is told at its sign, three lexemes before the one that is no brace. -/
theorem missing_block_told_at_sign :
    Spaced "&a:x".toList [.mark '&', .word ['a'], .mark ':', .word ['x']] ∧
    Text.NestsWithin 64 "&a:x".toList ∧
    NoPhrase SessionShape.Spelled [.mark '&', .word ['a'], .mark ':', .word ['x']] ∧
    Stalls SessionShape.Spelled [.mark '&', .word ['a'], .mark ':'] [.word ['x']] ∧
    StandsAt "&a:x".toList [.mark '&', .word ['a'], .mark ':', .word ['x']] 3 3 ∧
    ∃ error, Session.parseWith ⟨64⟩ "&a:x" = .error error ∧ error.span.offset = 0 := by
  have spaced : Spaced "&a:x".toList [.mark '&', .word ['a'], .mark ':', .word ['x']] :=
    (spaced_iff "&a:x").mpr (by decide)
  have off : SessionShape.Breaks 0 [.mark '&', .word ['a'], .mark ':'] (.block 0) :=
    .block .receive (by decide)
  have stuck : (Need.block 0).Stuck [.word ['x']] := by
    rintro l more next ⟨⟩
    cases next
  refine ⟨spaced, (peak_le_iff spaced).mp (by decide), ?_, ?_, ?_, ?_⟩
  · exact LexemeReader.session_needs.noPhrase LexemeReader.session_follows off stuck
  · exact LexemeReader.session_needs.stalls LexemeReader.session_follows off stuck
  · exact Source.standsAt_startOf spaced 3
  · exact ⟨_, rfl, rfl⟩

end SessionSyntax
