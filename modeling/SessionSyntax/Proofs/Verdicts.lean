import SessionSyntax.Proofs.Pointing

/-! Every text is told one verdict, by one precedence, also where it is wrong in several ways. Only the
lexemes of a text matter for what it is read as. Reading its characters comes to the same as reading
the lexemes alone, so that texts with the same ones agree up to where the text is pointed into; and
there an index among the lexemes becomes an offset in each of the texts. -/
namespace SessionSyntax

/-- The verdict that a fault leads to, wherever in the text it is located. -/
def Fault.verdict : Fault → Verdict
  | .tooDeep .. => .tooDeep
  | .unexpected .. => .unexpected
  | .unknownType _ | .emptyCollection .. => .refused
  | .leftover _ => .leftover

@[simp] theorem Source.locate_verdict (source : Source) (fault : Fault) :
    (source.locate fault).cause.verdict = fault.verdict := by
  cases fault <;> rfl

theorem PayloadShape.Offends.verdict {shape : PayloadShape} (offends : shape.Offends fault) :
    fault.verdict = .refused := by
  induction offends with
  | basic | list | empty => rfl
  | element _ _ ih => exact ih

theorem SessionShape.Offends.verdict {shape : SessionShape} (offends : shape.Offends fault) :
    fault.verdict = .refused := by
  induction offends with
  | empty => rfl
  | payload _ offends => exact offends.verdict
  | continuation _ _ ih => exact ih

namespace LexemeReader

variable {reader : LexemeReader σ α} {spelled : Nat → σ → List Lexeme → Prop}
  {offends : σ → Fault → Prop}

theorem verdict_of_read_error {text : String}
    (refused : (reader.read ⟨limit⟩ (Source.ofText text).lexemes).result = .error fault) :
    Verdict.ofResult (reader.parse ⟨limit⟩ text) = fault.verdict := by
  rw [parse, refused]
  exact Source.locate_verdict ..

theorem verdict_of_read_ok {text : String}
    (accepted : (reader.read ⟨limit⟩ (Source.ofText text).lexemes).result = .ok a) :
    Verdict.ofResult (reader.parse ⟨limit⟩ text) = .accepted := by
  rw [parse_eq_ok_iff text |>.mpr accepted, Verdict.ofResult]

theorem Follows.verdict_of_applies (follows : reader.Follows spelled offends)
    (refused : ∀ {shape fault}, offends shape fault → fault.verdict = .refused) {text : String}
    (spaced : Spaced text.toList ls)
    (applies : verdict.Applies spelled offends limit text.toList ls) :
    Verdict.ofResult (reader.parse ⟨limit⟩ text) = verdict := by
  obtain rfl := (spaced_iff text).mp spaced
  have within : peak _ ≤ limit ↔ _ := peak_le_iff spaced
  generalize lexed : (Source.ofText text).lexemes = ls at *
  cases verdict with
  | tooDeep =>
    obtain ⟨place, read⟩ := reader.read_tooDeep (within.not.mpr applies)
    exact verdict_of_read_error (lexed ▸ read)
  | unexpected =>
    obtain ⟨nested, no⟩ := applies
    obtain ⟨place, wanted, read⟩ := follows.read_unexpected (within.mpr nested) no
    exact verdict_of_read_error (lexed ▸ read)
  | refused =>
    obtain ⟨nested, matched, front, rest, rfl, longest, fault, offence⟩ := applies
    have read := follows.read_longest (within.mpr nested) longest
    cases built : (reader.build matched).result with
    | ok a => exact absurd built (follows.offended offence a)
    | error fault =>
      rw [built, ← lexed] at read
      exact (verdict_of_read_error read).trans (refused (follows.refused built))
  | leftover =>
    obtain ⟨nested, matched, front, rest, rfl, longest, clean, more⟩ := applies
    have read := follows.read_longest (within.mpr nested) longest
    cases built : (reader.build matched).result with
    | ok a =>
      rw [built, ← lexed] at read
      simp only [Except.bind, List.isEmpty_iff, more, ↓reduceIte] at read
      exact verdict_of_read_error read
    | error fault => exact absurd (follows.refused built) (clean fault)
  | accepted =>
    obtain ⟨nested, matched, front, rest, rfl, longest, clean, rfl⟩ := applies
    have read := follows.read_longest (within.mpr nested) longest
    cases built : (reader.build matched).result with
    | ok a =>
      rw [built, ← lexed] at read
      exact verdict_of_read_ok read
    | error fault => exact absurd (follows.refused built) (clean fault)

end LexemeReader

theorem exists_verdict (spelled : Nat → σ → List Lexeme → Prop) (offends : σ → Fault → Prop)
    (limit : Nat) (text : List Char) (ls : List Lexeme) :
    ∃ verdict : Verdict, verdict.Applies spelled offends limit text ls := by
  by_cases within : Text.NestsWithin limit text
  · by_cases begun : ∃ shape front, front <+: ls ∧ spelled 0 shape front
    · obtain ⟨_, _, begins, phrase⟩ := begun
      obtain ⟨shape, front, rest, split, longest⟩ := exists_longest begins phrase
      by_cases offence : ∃ fault, offends shape fault
      · exact ⟨.refused, within, shape, front, rest, split, longest, offence⟩
      · have clean : ∀ fault, ¬offends shape fault := not_exists.mp offence
        by_cases done : rest = []
        · exact ⟨.accepted, within, shape, front, rest, split, longest, clean, done⟩
        · exact ⟨.leftover, within, shape, front, rest, split, longest, clean, done⟩
    · refine ⟨.unexpected, within, fun shape front begins phrase => ?_⟩
      exact begun ⟨shape, front, begins, phrase⟩
  · exact ⟨.tooDeep, within⟩

theorem LexemeReader.Follows.verdict_iff {reader : LexemeReader σ α}
    (follows : reader.Follows spelled offends)
    (refused : ∀ {shape fault}, offends shape fault → fault.verdict = .refused) (limit : Nat)
    (text : String) (verdict : Verdict) :
    Verdict.ofResult (reader.parse ⟨limit⟩ text) = verdict ↔
      ∃ ls, Spaced text.toList ls ∧ verdict.Applies spelled offends limit text.toList ls := by
  constructor
  · intro told
    obtain ⟨ls, spaced⟩ := exists_spaced text.toList
    obtain ⟨other, applies⟩ := exists_verdict spelled offends limit text.toList ls
    obtain rfl := told.symm.trans (follows.verdict_of_applies refused spaced applies)
    exact ⟨ls, spaced, applies⟩
  · rintro ⟨ls, spaced, applies⟩
    exact follows.verdict_of_applies refused spaced applies

/-- The verdict on a text is just the one that its nesting, the longest phrase at its front and
what is left behind it call for, in this order. -/
theorem verdict_eq_iff (text : String) (limit : Nat) (verdict : Verdict) :
    (Verdict.ofResult (Session.parseWith ⟨limit⟩ text) = verdict ↔
      ∃ ls, Spaced text.toList ls ∧
        verdict.Applies SessionShape.Spelled SessionShape.Offends limit text.toList ls) ∧
    (Verdict.ofResult (Payload.parseWith ⟨limit⟩ text) = verdict ↔
      ∃ ls, Spaced text.toList ls ∧
        verdict.Applies PayloadShape.Spelled PayloadShape.Offends limit text.toList ls) := by
  rw [Session.parseWith_eq, Payload.parseWith_eq]
  exact ⟨LexemeReader.session_follows.verdict_iff SessionShape.Offends.verdict limit text verdict,
    LexemeReader.payload_follows.verdict_iff PayloadShape.Offends.verdict limit text verdict⟩

namespace Source

variable {first second text : String} {ls : List Lexeme}

theorem locate_offset (source : Source) (fault : Fault) :
    (source.locate fault).span.offset = source.startOf fault.index := by
  cases fault <;> rfl

theorem locate_alike (one : Spaced first.toList ls) (two : Spaced second.toList ls)
    (stands : fault.Stands ls) :
    ((ofText first).locate fault).cause.Alike ((ofText second).locate fault).cause := by
  cases fault with
  | tooDeep | unknownType | emptyCollection => exact rfl
  | unexpected place wanted =>
    simp only [locate, (spaced_iff first).mp one, (spaced_iff second).mp two]
    exact rfl
  | leftover place =>
    obtain ⟨_, _, _, splits, written, start, stop⟩ := exists_remaining one stands
    obtain ⟨_, _, _, resplits, rewritten, restart, restop⟩ := exists_remaining two stands
    refine ⟨ls.drop place, ?_, ?_⟩
    · rwa [start, stop, slice_eq splits.split, String.toList_ofList]
    · rwa [restart, restop, slice_eq resplits.split, String.toList_ofList]

end Source

theorem LexemeReader.Follows.sameOutcome {reader : LexemeReader σ α}
    (follows : reader.Follows spelled offends)
    (needs : reader.Needs spelled breaks) (stands : OffencesStand spelled offends)
    {first second : String} (one : Spaced first.toList ls) (two : Spaced second.toList ls)
    (limit : Nat) :
    SameOutcome first.toList second.toList ls (reader.parse ⟨limit⟩ first)
      (reader.parse ⟨limit⟩ second) := by
  simp only [LexemeReader.parse, (spaced_iff first).mp one, (spaced_iff second).mp two]
  cases read : (reader.read ⟨limit⟩ ls).result with
  | ok a => exact rfl
  | error fault =>
    have stands := follows.fault_stands needs stands read
    refine ⟨Source.locate_alike one two stands, fault.index, ?_, ?_⟩
    · rw [Source.locate_offset]
      exact Source.standsAt_startOf one fault.index
    · rw [Source.locate_offset]
      exact Source.standsAt_startOf two fault.index

/-- Texts with the same lexemes are read alike, within any limit on nesting. -/
theorem outcome_of_lexemes (first second : String) (limit : Nat) (one : Spaced first.toList ls)
    (two : Spaced second.toList ls) :
    SameOutcome first.toList second.toList ls (Session.parseWith ⟨limit⟩ first)
      (Session.parseWith ⟨limit⟩ second) ∧
    SameOutcome first.toList second.toList ls (Payload.parseWith ⟨limit⟩ first)
      (Payload.parseWith ⟨limit⟩ second) := by
  simp only [Session.parseWith_eq, Payload.parseWith_eq]
  constructor
  · exact LexemeReader.session_follows.sameOutcome LexemeReader.session_needs session_offencesStand
      one two limit
  · exact LexemeReader.payload_follows.sameOutcome LexemeReader.payload_needs payload_offencesStand
      one two limit

theorem outcome_of_lexemes_spread :
    SameOutcome "end,x y".toList " end\t,x\ny ".toList
      [.word "end".toList, .mark ',', .word ['x'], .word ['y']]
      (Session.parseWith ⟨64⟩ "end,x y") (Session.parseWith ⟨64⟩ " end\t,x\ny ") ∧
    SameOutcome "end,x y".toList " end\t,x\ny ".toList
      [.word "end".toList, .mark ',', .word ['x'], .word ['y']]
      (Payload.parseWith ⟨64⟩ "end,x y") (Payload.parseWith ⟨64⟩ " end\t,x\ny ") :=
  outcome_of_lexemes _ _ 64 ((spaced_iff _).mpr (by decide)) ((spaced_iff _).mpr (by decide))

end SessionSyntax
