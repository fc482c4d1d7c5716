import SessionSyntax.Proofs.Verdicts

/-! What is left over behind an expression. A phrase at the front of a text is the longest one
whatever follows it, but for a bare name that the brackets of a list follow; so an error about a
leftover comes down to how the text before it is read on its own. -/
namespace SessionSyntax

open Matcher

namespace Source

theorem of_leftover {source : Source}
    (told : (source.locate fault).cause = .leftover remaining) : ∃ place, fault = .leftover place := by
  cases fault with
  | leftover place => exact ⟨place, rfl⟩
  | _ => simp [locate] at told

/-- A leftover is located where it splits off from the text, and told in full. -/
theorem locate_leftover {text : String} (splits : SplitsOff text.toList before remaining blanks)
    (front : Spaced before ls) (behind : Spaced remaining ms) :
    ((ofText text).locate (.leftover ls.length)).cause = .leftover (String.ofList remaining) ∧
      ((ofText text).locate (.leftover ls.length)).span.offset = Text.size before := by
  obtain ⟨start, stop⟩ := offsets_of_splitsOff splits front behind
  constructor
  · simp only [locate, start, stop, slice_eq splits.split]
  · simp only [locate, start, Span.ofOffsets]

end Source

namespace LexemeReader

variable {reader : LexemeReader σ α} {spelled : Nat → σ → List Lexeme → Prop}
  {offends : σ → Fault → Prop}

theorem Follows.parse_eq_ok_iff_of_spaced (follows : reader.Follows spelled offends) {text : String}
    (spaced : Spaced text.toList ls) :
    reader.parse ⟨limit⟩ text = .ok a ↔ Text.NestsWithin limit text.toList ∧
      ∃ matched, spelled 0 matched ls ∧ (reader.build matched).result = .ok a := by
  rw [parse_eq_ok_iff, (spaced_iff text).mp spaced, follows.read_eq_ok_iff, peak_le_iff spaced]

/-- A phrase that is found at the front of the lexemes is the longest one. -/
theorem Follows.longest_of_finds (follows : reader.Follows spelled offends)
    (phrase : spelled 0 matched front) (bound : (front ++ rest).length ≤ n)
    (finds : (reader.shape n).Finds ⟨0, front ++ rest⟩ matched ⟨front.length, rest⟩) :
    Longest spelled matched front rest := by
  obtain ⟨other, begins, left, split, longest⟩ := exists_longest ⟨rest, rfl⟩ phrase
  have short : begins.length ≤ n := by
    rw [split, List.length_append] at bound
    omega
  have found := follows.finds longest short .initial
  rw [← split, finds .initial] at found
  obtain ⟨rfl, same, rfl⟩ : matched = other ∧ front.length = begins.length ∧ rest = left := by
    simpa using found
  obtain rfl := List.append_cancel_right split
  exact longest

/-- Something is left over just behind the longest phrase, where a tree can be built from that. -/
theorem Follows.read_leftover_iff (follows : reader.Follows spelled offends)
    (refused : ∀ {shape fault}, offends shape fault → fault.verdict = .refused) :
    (reader.read ⟨limit⟩ ls).result = .error (.leftover place) ↔
      peak ls ≤ limit ∧ ∃ matched front rest a, ls = front ++ rest ∧
        Longest spelled matched front rest ∧ (reader.build matched).result = .ok a ∧
        rest ≠ [] ∧ place = front.length := by
  constructor
  · intro read
    rcases follows.read_cases limit ls with ⟨_, told⟩ | ⟨_, _, told⟩ |
      ⟨within, matched, front, rest, rfl, longest, told⟩
    · simp [told] at read
    · simp [told] at read
    · rw [told] at read
      rcases except_bind_eq_error_iff.mp read with unbuilt | ⟨a, built, behind⟩
      · cases refused (follows.refused unbuilt)
      · refine ⟨within, matched, front, rest, a, rfl, longest, built, ?_⟩
        cases rest with
        | nil => simp at behind
        | cons => simpa [eq_comm] using behind
  · rintro ⟨within, matched, front, rest, a, rfl, longest, built, filled, rfl⟩
    rw [follows.read_longest within longest, built]
    simp [Except.bind, filled]

/-- Where a tree is built from the longest phrase, what stands before the leftover is read as that
tree on its own. -/
theorem Follows.splits_of_longest (follows : reader.Follows spelled offends) {text : String}
    (spaced : Spaced text.toList (front ++ rest)) (nested : Text.NestsWithin limit text.toList)
    (longest : Longest spelled matched front rest) (built : (reader.build matched).result = .ok a)
    (filled : rest ≠ []) : ∃ before left blanks, SplitsOff text.toList before left blanks ∧
      Spaced left rest ∧
      ((Source.ofText text).locate (.leftover front.length)).cause = .leftover (String.ofList left) ∧
      ((Source.ofText text).locate (.leftover front.length)).span.offset = Text.size before ∧
      reader.parse ⟨limit⟩ (String.ofList before) = .ok a := by
  obtain ⟨before, left, blanks, splits, ahead, behind⟩ := Source.exists_splitsOff spaced filled
  obtain ⟨shown, stands⟩ := Source.locate_leftover splits ahead behind
  refine ⟨before, left, blanks, splits, behind, shown, stands, ?_⟩
  apply (follows.parse_eq_ok_iff_of_spaced (by simpa using ahead)).mpr
  refine ⟨?_, matched, longest.phrase, built⟩
  rw [String.toList_ofList]
  intro begins front
  apply nested begins
  apply front.trans
  exact ⟨left ++ blanks, by rw [splits.split, List.append_assoc]⟩

/-- A leftover is told just if what stands before it is read on its own, and does not go on with
it. -/
theorem Follows.tellsLeftover_iff (follows : reader.Follows spelled offends)
    (refused : ∀ {shape fault}, offends shape fault → fault.verdict = .refused)
    (goesOn : α → List Char → Prop)
    (longest_iff : ∀ {matched front rest left a}, (reader.build matched).result = .ok a →
      Unindented left → Spaced left rest →
      (Longest spelled matched front rest ↔ spelled 0 matched front ∧ ¬goesOn a left))
    (text : String) (limit offset : Nat) (remaining : String) :
    TellsLeftover (reader.parse ⟨limit⟩ text) offset remaining ↔
      Text.NestsWithin limit text.toList ∧ ∃ before blanks,
        SplitsOff text.toList before remaining.toList blanks ∧ offset = Text.size before ∧
        ∃ a, reader.parse ⟨limit⟩ (String.ofList before) = .ok a ∧ ¬goesOn a remaining.toList := by
  constructor
  · rintro ⟨error, told, cause, rfl⟩
    obtain ⟨fault, read, rfl⟩ := parse_eq_error_iff.mp told
    obtain ⟨place, rfl⟩ := Source.of_leftover cause
    have spaced : Spaced text.toList (Source.ofText text).lexemes := (spaced_iff text).mpr rfl
    obtain ⟨within, matched, front, rest, a, split, longest, built, filled, rfl⟩ :=
      (follows.read_leftover_iff refused).mp read
    have nested := (peak_le_iff spaced).mp within
    rw [split] at spaced
    obtain ⟨before, left, blanks, splits, behind, shown, stands, accepted⟩ :=
      follows.splits_of_longest spaced nested longest built filled
    obtain rfl : String.ofList left = remaining := by simpa using shown.symm.trans cause
    obtain ⟨_, stops⟩ := (longest_iff built splits.begins behind).mp longest
    exact ⟨nested, before, blanks, by simpa using splits, stands, a, accepted, by simpa using stops⟩
  · rintro ⟨nested, before, blanks, splits, rfl, a, accepted, stops⟩
    obtain ⟨front, ahead⟩ := exists_spaced before
    obtain ⟨rest, behind⟩ := exists_spaced remaining.toList
    obtain ⟨_, matched, phrase, built⟩ :=
      (follows.parse_eq_ok_iff_of_spaced (by simpa using ahead)).mp accepted
    have spaced := splits.spaced ahead behind
    have longest := (longest_iff built splits.begins behind).mpr ⟨phrase, stops⟩
    have read := (follows.read_leftover_iff refused).mpr ⟨(peak_le_iff spaced).mpr nested, matched,
      front, rest, a, rfl, longest, built, splits.lexemes_ne_nil behind, rfl⟩
    rw [← (spaced_iff text).mp spaced] at read
    obtain ⟨shown, stands⟩ := Source.locate_leftover splits ahead behind
    exact ⟨_, parse_eq_error_iff.mpr ⟨_, read, rfl⟩, by simpa using shown, stands⟩

end LexemeReader

theorem PayloadShape.isBasic_of_build {shape : PayloadShape} (built : shape.build = .ok payload) :
    payload.isBasic = shape.isBare := by
  cases shape with
  | basic name =>
    obtain ⟨_, _, made⟩ := except_bind_eq_ok_iff.mp (PayloadShape.build_basic name ▸ built)
    cases made
    rfl
  | list name =>
    obtain ⟨_, _, made⟩ := except_bind_eq_ok_iff.mp (PayloadShape.build_list name ▸ built)
    cases made
    rfl
  | tuple opening elements closing =>
    obtain ⟨_, rfl, _⟩ := gather_eq_ok_iff.mp (PayloadShape.build_tuple .. ▸ built)
    rfl

theorem session_longest_iff :
    Longest SessionShape.Spelled shape front rest ↔ SessionShape.Spelled 0 shape front := by
  refine ⟨Longest.phrase, fun phrase => ?_⟩
  have bound := (List.prefix_append front rest).length_le
  refine LexemeReader.session_follows.longest_of_finds phrase (Nat.le_refl _) ?_
  simpa [LexemeReader.session] using phrase.finds bound rest

theorem payload_longest_iff :
    Longest PayloadShape.Spelled shape front rest ↔
      PayloadShape.Spelled 0 shape front ∧ ¬(shape.isBare ∧ ListTail rest) := by
  constructor
  · intro longest
    refine ⟨longest.phrase, ?_⟩
    rintro ⟨bare, tail⟩
    cases shape with
    | basic name => exact PayloadShape.not_listTail_of_longest longest tail
    | list | tuple => cases bare
  · rintro ⟨phrase, apart⟩
    have bound := (List.prefix_append front rest).length_le
    refine LexemeReader.payload_follows.longest_of_finds phrase (Nat.le_refl _) ?_
    have apart : ∀ name, shape = .basic name → ¬ListTail rest := by
      rintro name rfl tail
      exact apart ⟨rfl, tail⟩
    simpa [LexemeReader.payload] using phrase.finds bound rest apart

/-- The brackets of a list are told on the characters as on the lexemes. -/
theorem opensList_iff (begins : Unindented text) (spaced : Spaced text ls) :
    OpensList text ↔ ListTail ls := by
  constructor
  · rintro ⟨blanks, more, rfl, blank⟩
    obtain ⟨ms, behind⟩ := exists_spaced more
    have closing : Spaced (']' :: more) (.mark ']' :: ms) :=
      .mark ']' (by decide) (by decide) behind
    have inner := (spaced_nil_iff.mpr blank).append closing
      (not_wordGoesOn_cons (by decide) blanks more)
    obtain rfl := spaced.unique (.mark '[' (by decide) (by decide) inner)
    exact ⟨ms, rfl⟩
  · rintro ⟨ms, rfl⟩
    obtain ⟨inner, rfl, spaced, _⟩ := spaced.first_token begins
    obtain ⟨blanks, closing, cut, begins⟩ := spaced.cut_start (List.nil_append _).symm (by simp)
    obtain ⟨more, rfl, _⟩ := cut.behind.first_token begins
    exact ⟨blanks, more, by simp [cut.split, Lexeme.chars], cut.ahead.blank_of_nil⟩

/-- A leftover is told just where the text splits into an expression that is accepted on its own and
a rest that cannot go on with it: no word goes on over the seam, and no bare name goes on as a
list. -/
theorem leftover_told_iff (text : String) (limit offset : Nat) (remaining : String) :
    (TellsLeftover (Session.parseWith ⟨limit⟩ text) offset remaining ↔
      Text.NestsWithin limit text.toList ∧ ∃ before blanks,
        SplitsOff text.toList before remaining.toList blanks ∧ offset = Text.size before ∧
        ∃ session, Session.parseWith ⟨limit⟩ (String.ofList before) = .ok session) ∧
    (TellsLeftover (Payload.parseWith ⟨limit⟩ text) offset remaining ↔
      Text.NestsWithin limit text.toList ∧ ∃ before blanks,
        SplitsOff text.toList before remaining.toList blanks ∧ offset = Text.size before ∧
        ∃ payload, Payload.parseWith ⟨limit⟩ (String.ofList before) = .ok payload ∧
          ¬(payload.isBasic ∧ OpensList remaining.toList)) := by
  simp only [Session.parseWith_eq, Payload.parseWith_eq]
  constructor
  · have told := LexemeReader.session_follows.tellsLeftover_iff SessionShape.Offends.verdict
      (fun _ _ => False) (fun _ _ _ => by simpa using session_longest_iff) text limit offset remaining
    simp only [not_false_eq_true, and_true] at told
    exact told
  · refine LexemeReader.payload_follows.tellsLeftover_iff PayloadShape.Offends.verdict
      (fun payload left => payload.isBasic ∧ OpensList left) ?_ text limit offset remaining
    intro matched front rest left payload built begins behind
    rw [payload_longest_iff, PayloadShape.isBasic_of_build built, opensList_iff begins behind]

end SessionSyntax
