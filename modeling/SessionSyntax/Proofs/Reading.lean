import SessionSyntax.Proofs.Equivalence

/-! Reading, phase by phase: the guard, the longest phrase at the front, the tree built from it, and
what is left behind it. The steps are the same for sessions and payloads; `LexemeReader.Follows` says
what they need to know of a reader. So the texts whose lexemes spell a tree, within the limit on
nesting, are read as that tree, and no text spells two. -/
namespace SessionSyntax

open Matcher

theorem exists_longest {spelled : Nat → σ → List Lexeme → Prop} (front : begins <+: ls)
    (phrase : spelled 0 shape begins) :
    ∃ shape front rest, ls = front ++ rest ∧ Longest spelled shape front rest := by
  by_cases longer : ∃ other more, more <+: ls ∧ spelled 0 other more ∧ begins.length < more.length
  · obtain ⟨other, more, front, phrase, longer⟩ := longer
    have := front.length_le
    exact exists_longest front phrase
  · obtain ⟨rest, rfl⟩ := front
    refine ⟨shape, begins, rest, rfl, phrase, fun other more front phrase => ?_⟩
    exact Nat.le_of_not_lt fun lt => longer ⟨other, more, front, phrase, lt⟩
termination_by ls.length - begins.length

theorem Longest.whole {spelled : Nat → σ → List Lexeme → Prop} (phrase : spelled 0 shape ls) :
    Longest spelled shape ls [] :=
  ⟨phrase, fun _ _ front _ => by simpa using front.length_le⟩

/-- The reader matches the longest phrase of a grammar, and builds those without offences. -/
structure LexemeReader.Follows (reader : LexemeReader σ α) (spelled : Nat → σ → List Lexeme → Prop)
    (offends : σ → Fault → Prop) : Prop where
  sound : ∀ n, (reader.shape n).Sound spelled
  finds : ∀ {shape front rest n}, Longest spelled shape front rest → front.length ≤ n →
    (reader.shape n).Finds ⟨0, front ++ rest⟩ shape ⟨front.length, rest⟩
  refused : ∀ {shape fault}, (reader.build shape).result = .error fault → offends shape fault
  offended : ∀ {shape fault}, offends shape fault → ∀ a, (reader.build shape).result ≠ .ok a

theorem LexemeReader.session_follows :
    LexemeReader.session.Follows SessionShape.Spelled SessionShape.Offends where
  sound := sessionShape_sound
  finds longest bound := by simpa [LexemeReader.session] using longest.phrase.finds bound _
  refused := SessionShape.offends_of_build
  offended := SessionShape.Offends.not_built

/-- A name that the brackets of a list follow is not the longest phrase. -/
theorem PayloadShape.not_listTail_of_longest
    (longest : Longest PayloadShape.Spelled (.basic name) front rest) : ¬ListTail rest := by
  rintro ⟨more, rfl⟩
  cases longest.phrase with
  | basic named =>
    have short := longest.longest _ _ ⟨more, by simp⟩ (.list named)
    simp at short

theorem LexemeReader.payload_follows :
    LexemeReader.payload.Follows PayloadShape.Spelled PayloadShape.Offends where
  sound := payloadShape_sound
  finds := by
    intro shape front rest n longest bound
    have apart : ∀ name, shape = .basic name → ¬ListTail rest := by
      rintro name rfl
      exact PayloadShape.not_listTail_of_longest longest
    simpa [LexemeReader.payload] using longest.phrase.finds bound rest apart
  refused := PayloadShape.offends_of_build
  offended := PayloadShape.Offends.not_built

namespace LexemeReader

variable {reader : LexemeReader σ α} {spelled : Nat → σ → List Lexeme → Prop}
  {offends : σ → Fault → Prop}

theorem read_eq_tooDeep (reader : LexemeReader σ α) (exceeded : ¬peak ls ≤ limit) :
    ∃ place, reader.read ⟨limit⟩ ls = .fail (.tooDeep place limit) := by
  cases first : overflow? limit ls with
  | none => exact absurd (overflow?_eq_none_iff.mp first) exceeded
  | some place => exact ⟨place, by simp [read, first]⟩

theorem read_tooDeep (reader : LexemeReader σ α) (exceeded : ¬peak ls ≤ limit) :
    ∃ place, (reader.read ⟨limit⟩ ls).result = .error (.tooDeep place limit) := by
  obtain ⟨place, read⟩ := reader.read_eq_tooDeep exceeded
  exact ⟨place, congrArg Logged.result read⟩

theorem Follows.read_eq_unexpected (follows : reader.Follows spelled offends)
    (within : peak ls ≤ limit) (no : ∀ shape begins, begins <+: ls → ¬spelled 0 shape begins) :
    ∃ place wanted, reader.read ⟨limit⟩ ls = .fail (.unexpected place wanted) := by
  have misses : (reader.shape (ls.length + 1)).Misses ⟨0, ls⟩ := by
    refine misses_of_not_found fun _ shape there found => ?_
    obtain ⟨front, phrase, spans⟩ := follows.sound _ found
    exact no shape front ⟨there.rest, spans.rest.symm⟩ phrase
  have missed := misses .initial
  rcases attempt : reader.shape (ls.length + 1) ⟨0, ls⟩ .initial with ⟨found, frontier⟩
  rw [attempt] at missed
  subst missed
  exact ⟨frontier.place, Part.sorted frontier.wanted, by
    simp [read, overflow?_eq_none_iff.mpr within, attempt]⟩

theorem Follows.read_unexpected (follows : reader.Follows spelled offends)
    (within : peak ls ≤ limit) (no : ∀ shape begins, begins <+: ls → ¬spelled 0 shape begins) :
    ∃ place wanted, (reader.read ⟨limit⟩ ls).result = .error (.unexpected place wanted) := by
  obtain ⟨place, wanted, read⟩ := follows.read_eq_unexpected within no
  exact ⟨place, wanted, congrArg Logged.result read⟩

/-- What reading comes to where the longest phrase is the matched one. -/
def behindPhrase (reader : LexemeReader σ α) (matched : σ) (front rest : List Lexeme) : Logged α := do
  let value ← reader.build matched
  if rest.isEmpty then return value else .fail (.leftover front.length)

theorem result_behindPhrase (reader : LexemeReader σ α) (matched : σ) (front rest : List Lexeme) :
    (reader.behindPhrase matched front rest).result =
      (reader.build matched).result.bind fun a =>
        if rest.isEmpty then .ok a else .error (.leftover front.length) := by
  rw [behindPhrase, Logged.result_bind]
  congr 1
  funext a
  split <;> rfl

theorem Follows.read_eq_longest (follows : reader.Follows spelled offends)
    (within : peak (front ++ rest) ≤ limit) (longest : Longest spelled matched front rest) :
    reader.read ⟨limit⟩ (front ++ rest) = reader.behindPhrase matched front rest := by
  have found := follows.finds longest (n := (front ++ rest).length + 1) (by simp; omega) .initial
  rcases attempt : reader.shape ((front ++ rest).length + 1) ⟨0, front ++ rest⟩ .initial with
    ⟨_, frontier⟩
  rw [attempt] at found
  subst found
  rw [read, overflow?_eq_none_iff.mpr within]
  simp only [attempt, behindPhrase]

theorem Follows.read_longest (follows : reader.Follows spelled offends)
    (within : peak (front ++ rest) ≤ limit) (longest : Longest spelled matched front rest) :
    (reader.read ⟨limit⟩ (front ++ rest)).result = (reader.build matched).result.bind fun a =>
      if rest.isEmpty then .ok a else .error (.leftover front.length) := by
  rw [follows.read_eq_longest within longest, result_behindPhrase]

/-- All that reading can come to: the brackets nest too deep, no phrase begins the lexemes, or the
longest one that does is built. -/
theorem Follows.read_eq_cases (follows : reader.Follows spelled offends) (limit : Nat)
    (ls : List Lexeme) :
    (∃ place, reader.read ⟨limit⟩ ls = .fail (.tooDeep place limit)) ∨
    (∃ place wanted, reader.read ⟨limit⟩ ls = .fail (.unexpected place wanted)) ∨
    peak ls ≤ limit ∧ ∃ matched front rest, ls = front ++ rest ∧
      Longest spelled matched front rest ∧
      reader.read ⟨limit⟩ ls = reader.behindPhrase matched front rest := by
  by_cases within : peak ls ≤ limit
  · by_cases begun : ∃ matched begins, begins <+: ls ∧ spelled 0 matched begins
    · obtain ⟨_, _, begins, phrase⟩ := begun
      obtain ⟨matched, front, rest, rfl, longest⟩ := exists_longest begins phrase
      exact .inr (.inr ⟨within, matched, front, rest, rfl, longest,
        follows.read_eq_longest within longest⟩)
    · exact .inr (.inl (follows.read_eq_unexpected within fun matched begins front phrase =>
        begun ⟨matched, begins, front, phrase⟩))
  · exact .inl (reader.read_eq_tooDeep within)

theorem Follows.read_cases (follows : reader.Follows spelled offends) (limit : Nat)
    (ls : List Lexeme) :
    (∃ place, (reader.read ⟨limit⟩ ls).result = .error (.tooDeep place limit)) ∨
    (∃ place wanted, (reader.read ⟨limit⟩ ls).result = .error (.unexpected place wanted)) ∨
    peak ls ≤ limit ∧ ∃ matched front rest, ls = front ++ rest ∧
      Longest spelled matched front rest ∧
      (reader.read ⟨limit⟩ ls).result = (reader.build matched).result.bind fun a =>
        if rest.isEmpty then .ok a else .error (.leftover front.length) := by
  rcases follows.read_eq_cases limit ls with ⟨place, read⟩ | ⟨place, wanted, read⟩ |
    ⟨within, matched, front, rest, split, longest, read⟩
  · exact .inl ⟨place, congrArg Logged.result read⟩
  · exact .inr (.inl ⟨place, wanted, congrArg Logged.result read⟩)
  · refine .inr (.inr ⟨within, matched, front, rest, split, longest, ?_⟩)
    rw [read, result_behindPhrase]

/-- Just what is spelled by the whole of the lexemes, with its brackets within the limit, is read. -/
theorem Follows.read_eq_ok_iff (follows : reader.Follows spelled offends) :
    (reader.read ⟨limit⟩ ls).result = .ok a ↔
      peak ls ≤ limit ∧ ∃ matched, spelled 0 matched ls ∧ (reader.build matched).result = .ok a := by
  constructor
  · intro accepted
    rcases follows.read_cases limit ls with ⟨_, refused⟩ | ⟨_, _, refused⟩ |
      ⟨within, matched, front, rest, rfl, longest, read⟩
    · simp [refused] at accepted
    · simp [refused] at accepted
    · rw [read] at accepted
      obtain ⟨built, done, finished⟩ := except_bind_eq_ok_iff.mp accepted
      cases rest with
      | nil =>
        cases finished
        exact ⟨within, matched, by simpa using longest.phrase, done⟩
      | cons => simp at finished
  · rintro ⟨within, matched, phrase, built⟩
    have read := follows.read_longest (by simpa using within) (Longest.whole phrase)
    rw [List.append_nil] at read
    rw [read, built]
    rfl

/-- The phrases of a grammar are unambiguous: no lexemes spell two of them. -/
theorem Follows.unambiguous (follows : reader.Follows spelled offends) (one : spelled 0 first ls)
    (two : spelled 0 second ls) : first = second := by
  have finds {matched} (phrase : spelled 0 matched ls) :=
    follows.finds (Longest.whole phrase) (Nat.le_refl _) .initial
  have same := (finds one).symm.trans (finds two)
  simpa using same

theorem parse_eq_error_iff {text : String} :
    reader.parse config text = .error error ↔ ∃ fault,
      (reader.read config (Source.ofText text).lexemes).result = .error fault ∧
        (Source.ofText text).locate fault = error := by
  rw [parse]
  cases (reader.read config (Source.ofText text).lexemes).result <;> simp [Except.mapError]

theorem parse_eq_ok_iff (text : String) :
    reader.parse ⟨limit⟩ text = .ok a ↔
      (reader.read ⟨limit⟩ (Source.ofText text).lexemes).result = .ok a := by
  rw [parse]
  cases (reader.read ⟨limit⟩ (Source.ofText text).lexemes).result <;> simp [Except.mapError]

end LexemeReader

theorem Session.spelled_iff {session : Session} :
    session.Spelled ls ↔
      ∃ shape : SessionShape, shape.Spelled 0 ls ∧
        (LexemeReader.session.build shape).result = .ok session :=
  ⟨fun spelled => spelled.exists_shape 0, fun ⟨_, phrase, built⟩ => phrase.tree built⟩

theorem Payload.spelled_iff {payload : Payload} :
    payload.Spelled ls ↔
      ∃ shape : PayloadShape, shape.Spelled 0 ls ∧
        (LexemeReader.payload.build shape).result = .ok payload :=
  ⟨fun spelled => spelled.exists_shape 0, fun ⟨_, phrase, built⟩ => phrase.tree built⟩

/-- A text is accepted as a tree just if its lexemes spell the tree. -/
theorem LexemeReader.Follows.parse_eq_ok_iff_spelled {reader : LexemeReader σ α}
    (follows : reader.Follows spelled offends) {derives : α → List Lexeme → Prop}
    (derives_iff : ∀ {a ls}, derives a ls ↔
      ∃ shape, spelled 0 shape ls ∧ (reader.build shape).result = .ok a)
    (limit : Nat) (text : String) (a : α) :
    reader.parse ⟨limit⟩ text = .ok a ↔
      Text.NestsWithin limit text.toList ∧ ∃ ls, Spaced text.toList ls ∧ derives a ls := by
  rw [LexemeReader.parse_eq_ok_iff, follows.read_eq_ok_iff, ← derives_iff,
    peak_le_iff ((spaced_iff text).mpr rfl)]
  simp [spaced_iff]

theorem Session.parseWith_eq_ok_iff (limit : Nat) (text : String) (session : Session) :
    Session.parseWith ⟨limit⟩ text = .ok session ↔
      Text.NestsWithin limit text.toList ∧ ∃ ls, Spaced text.toList ls ∧ session.Spelled ls := by
  rw [Session.parseWith_eq]
  exact LexemeReader.session_follows.parse_eq_ok_iff_spelled Session.spelled_iff limit text session

theorem Payload.parseWith_eq_ok_iff (limit : Nat) (text : String) (payload : Payload) :
    Payload.parseWith ⟨limit⟩ text = .ok payload ↔
      Text.NestsWithin limit text.toList ∧ ∃ ls, Spaced text.toList ls ∧ payload.Spelled ls := by
  rw [Payload.parseWith_eq]
  exact LexemeReader.payload_follows.parse_eq_ok_iff_spelled Payload.spelled_iff limit text payload

theorem Session.spelled_of_parse (spaced : Spaced text.toList ls)
    (read : Session.parseWith ⟨limit⟩ text = .ok session) : session.Spelled ls := by
  obtain ⟨_, _, again, spelled⟩ := (Session.parseWith_eq_ok_iff ..).mp read
  exact spaced.unique again ▸ spelled

theorem Payload.spelled_of_parse (spaced : Spaced text.toList ls)
    (read : Payload.parseWith ⟨limit⟩ text = .ok payload) : payload.Spelled ls := by
  obtain ⟨_, _, again, spelled⟩ := (Payload.parseWith_eq_ok_iff ..).mp read
  exact spaced.unique again ▸ spelled

/-- The text has at most one reading: one list of lexemes, and one tree that they spell. -/
def Unambiguous (spelled : α → List Lexeme → Prop) (text : List Char) : Prop :=
  ∀ first second ls ms, Spaced text ls → Spaced text ms → spelled first ls → spelled second ms →
    first = second ∧ ls = ms

theorem unambiguous_of_spelled {spelled : α → List Lexeme → Prop} (text : String)
    (same : ∀ {first second ls}, spelled first ls → spelled second ls → first = second) :
    Unambiguous spelled text.toList := by
  intro first second ls ms one two
  obtain rfl := one.unique two
  exact fun first second => ⟨same first second, rfl⟩

theorem LexemeReader.Follows.unambiguous_tree {reader : LexemeReader σ α}
    (follows : reader.Follows spelled offends) {derives : α → List Lexeme → Prop}
    (derives_iff : ∀ {a ls}, derives a ls ↔
      ∃ shape, spelled 0 shape ls ∧ (reader.build shape).result = .ok a)
    (one : derives first ls) (two : derives second ls) : first = second := by
  obtain ⟨shape, phrase, built⟩ := derives_iff.mp one
  obtain ⟨other, again, rebuilt⟩ := derives_iff.mp two
  obtain rfl := follows.unambiguous phrase again
  exact Except.ok.inj (built.symm.trans rebuilt)

/-- Reading accepts just the language of the grammar, and gives the one tree that the text spells.
Neither trees nor phrases, which may also offend, are spelled in two ways by one text. -/
theorem accepts_iff_spelled (text : String) (limit : Nat) :
    (∀ session, Session.parseWith ⟨limit⟩ text = .ok session ↔
      Text.NestsWithin limit text.toList ∧ ∃ ls, Spaced text.toList ls ∧ session.Spelled ls) ∧
    (∀ payload, Payload.parseWith ⟨limit⟩ text = .ok payload ↔
      Text.NestsWithin limit text.toList ∧ ∃ ls, Spaced text.toList ls ∧ payload.Spelled ls) ∧
    Unambiguous Session.Spelled text.toList ∧ Unambiguous Payload.Spelled text.toList ∧
    Unambiguous (SessionShape.Spelled 0) text.toList ∧
    Unambiguous (PayloadShape.Spelled 0) text.toList := by
  refine ⟨?_, ?_, ?_, ?_, ?_, ?_⟩
  · exact Session.parseWith_eq_ok_iff limit text
  · exact Payload.parseWith_eq_ok_iff limit text
  · exact unambiguous_of_spelled text (LexemeReader.session_follows.unambiguous_tree Session.spelled_iff)
  · exact unambiguous_of_spelled text (LexemeReader.payload_follows.unambiguous_tree Payload.spelled_iff)
  · exact unambiguous_of_spelled text LexemeReader.session_follows.unambiguous
  · exact unambiguous_of_spelled text LexemeReader.payload_follows.unambiguous

end SessionSyntax
