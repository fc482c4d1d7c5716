import SessionSyntax.Proofs.RoundTrip
import SessionSyntax.Proofs.Verdicts

/-! The limit on nesting only selects. What a text is read as depends on the limit no further than
that the text must nest within it; and how deep a text nests can be told from its tree. -/
namespace SessionSyntax

/-- The bracket at which the limit is exceeded first, and the error that points at it. -/
theorem LexemeReader.parse_tooDeep (reader : LexemeReader σ α) {text : String}
    (exceeded : limit < Text.highest Text.nesting text.toList) :
    ∃ before bracket after, text.toList = before ++ bracket :: after ∧
      (bracket = '(' ∨ bracket = '\x7b') ∧ Text.NestsWithin limit before ∧
      Text.nesting (before ++ [bracket]) = limit + 1 ∧
      reader.parse ⟨limit⟩ text = .error ⟨.tooDeep (limit + 1) limit,
        Span.ofOffsets text (Text.size before) (Text.size (before ++ [bracket]))⟩ := by
  have spaced : Spaced text.toList (Source.ofText text).lexemes := (spaced_iff text).mpr rfl
  rw [spaced.highest_nesting] at exceeded
  cases told : overflow? limit (Source.ofText text).lexemes with
  | none => exact absurd (overflow?_eq_none_iff.mp told) (Nat.not_le.mpr exceeded)
  | some place =>
    obtain ⟨front, l, rest, split, rfl, within, opens, behind⟩ := exists_of_overflow? told
    rw [split, ← List.singleton_append, ← List.append_assoc] at spaced
    obtain ⟨before, inside, after, cut, begins, ends, ahead, written, _, start, stop⟩ :=
      Source.exists_stretch spaced (by simp)
    cases l with
    | word => simp [Lexeme.opens] at opens
    | mark c =>
      obtain rfl : inside = [c] := written.eq_chars begins ends
      have counted : Text.nesting (before ++ [c]) = limit + 1 := by
        rw [Text.nesting, List.foldl_append, ahead.foldl_nest, ← behind, Text.nest_mark]
        rfl
      refine ⟨before, c, after, by simpa using cut, by simpa [Lexeme.opens] using opens,
        (peak_le_iff ahead).mp within, counted, ?_⟩
      rw [List.length_singleton, Nat.add_sub_cancel] at stop
      simp [LexemeReader.parse, LexemeReader.read, told, Logged.fail, Except.mapError, Source.locate,
        Source.spanOf, start, stop]

theorem LexemeReader.parse_steady (reader : LexemeReader σ α) {text : String}
    (first : Text.highest Text.nesting text.toList ≤ one)
    (second : Text.highest Text.nesting text.toList ≤ two) :
    reader.parse ⟨one⟩ text = reader.parse ⟨two⟩ text := by
  have spaced : Spaced text.toList (Source.ofText text).lexemes := (spaced_iff text).mpr rfl
  rw [spaced.highest_nesting, ← overflow?_eq_none_iff] at first second
  rw [LexemeReader.parse, LexemeReader.parse, LexemeReader.read, LexemeReader.read, first, second]

theorem LexemeReader.Follows.selectedByLimit {reader : LexemeReader σ α}
    (follows : reader.Follows spelled offends)
    (refused : ∀ {shape fault}, offends shape fault → fault.verdict = .refused) (text : String) :
    SelectedByLimit (fun limit => reader.parse ⟨limit⟩ text) text where
  tooDeep_iff limit := by
    rw [follows.verdict_iff refused]
    simp only [Verdict.Applies, Text.nestsWithin_iff, Nat.not_le]
    constructor
    · rintro ⟨_, _, exceeded⟩
      exact exceeded
    · intro exceeded
      obtain ⟨ls, spaced⟩ := exists_spaced text.toList
      exact ⟨ls, spaced, exceeded⟩
  told _ exceeded := reader.parse_tooDeep exceeded
  steady _ _ first second := reader.parse_steady first second

theorem session_selectedByLimit (text : String) :
    SelectedByLimit (fun limit => Session.parseWith ⟨limit⟩ text) text := by
  simp only [Session.parseWith_eq]
  exact LexemeReader.session_follows.selectedByLimit SessionShape.Offends.verdict text

theorem payload_selectedByLimit (text : String) :
    SelectedByLimit (fun limit => Payload.parseWith ⟨limit⟩ text) text := by
  simp only [Payload.parseWith_eq]
  exact LexemeReader.payload_follows.selectedByLimit PayloadShape.Offends.verdict text

namespace SelectedByLimit

variable {results others : Nat → Except ParseError α} {text more : String}

theorem within_of_accepted (selected : SelectedByLimit results text) (read : results limit = .ok a) :
    Text.highest Text.nesting text.toList ≤ limit := by
  apply Nat.le_of_not_lt
  intro exceeded
  obtain ⟨_, _, _, _, _, _, _, refused⟩ := selected.told limit exceeded
  rw [read] at refused
  cases refused

/-- Of a text that is accepted within some limit the nesting tells by which others it is. -/
theorem accepted_iff (selected : SelectedByLimit results text) (read : results limit = .ok a)
    (other : Nat) :
    (∃ b, results other = .ok b) ↔ Text.highest Text.nesting text.toList ≤ other := by
  constructor
  · rintro ⟨b, reread⟩
    exact selected.within_of_accepted reread
  · intro within
    have same := selected.steady limit other (selected.within_of_accepted read) within
    exact ⟨a, same ▸ read⟩

theorem sameLimits (one : SelectedByLimit results text) (two : SelectedByLimit others more)
    (read : results limit = .ok a) (reread : others limit = .ok b)
    (same : Text.highest Text.nesting text.toList = Text.highest Text.nesting more.toList) :
    SameLimits results others := by
  intro other
  rw [one.accepted_iff read, two.accepted_iff reread, same]

end SelectedByLimit

theorem Session.highest_render {session : Session} (canonical : session.Canonical) :
    Text.highest Text.nesting session.render.toList = session.nesting := by
  obtain ⟨ls, spelled, writes⟩ := canonical.render_spelled
  rw [spelled.highest_nesting writes.spaced, Session.nesting_settled]

theorem Payload.highest_render (payload : Payload) :
    Text.highest Text.nesting payload.render.toList = payload.nesting := by
  obtain ⟨ls, spelled, writes⟩ := payload.render_spelled
  exact spelled.highest_nesting writes.spaced

/-- A limit on nesting only selects among texts. It refuses a text just if brackets nest beyond it,
and at the first one that does; apart from that it has no effect. The nesting of a text that is
accepted is that of its tree, so that the rendered tree is accepted within the same limits; and its
braces alone nest as deep as the choices of the tree. -/
theorem limit_only_selects (text : String) :
    SelectedByLimit (fun limit => Session.parseWith ⟨limit⟩ text) text ∧
    SelectedByLimit (fun limit => Payload.parseWith ⟨limit⟩ text) text ∧
    (∀ limit session, Session.parseWith ⟨limit⟩ text = .ok session →
      Text.highest Text.nesting text.toList = session.nesting ∧
      Text.highest Text.nesting session.render.toList = session.nesting ∧
      SameLimits (fun limit => Session.parseWith ⟨limit⟩ text)
        (fun limit => Session.parseWith ⟨limit⟩ session.render) ∧
      Text.highest Text.openBraces text.toList = session.depth) ∧
    (∀ limit payload, Payload.parseWith ⟨limit⟩ text = .ok payload →
      Text.highest Text.nesting text.toList = payload.nesting ∧
      Text.highest Text.nesting payload.render.toList = payload.nesting ∧
      SameLimits (fun limit => Payload.parseWith ⟨limit⟩ text)
        (fun limit => Payload.parseWith ⟨limit⟩ payload.render)) := by
  refine ⟨session_selectedByLimit text, payload_selectedByLimit text, ?_, ?_⟩
  · intro limit session read
    obtain ⟨within, ls, spaced, spelled⟩ := (Session.parseWith_eq_ok_iff ..).mp read
    have nests := spelled.highest_nesting spaced
    have rendered := Session.highest_render spelled.canonical
    have reread := spelled.canonical.parse_render (Session.nestsWithin_render read)
    have limits := (session_selectedByLimit text).sameLimits (session_selectedByLimit session.render)
      read reread (nests.trans rendered.symm)
    exact ⟨nests, rendered, limits, spelled.highest_openBraces spaced⟩
  · intro limit payload read
    obtain ⟨within, ls, spaced, spelled⟩ := (Payload.parseWith_eq_ok_iff ..).mp read
    have nests := spelled.highest_nesting spaced
    have rendered := payload.highest_render
    have small : Text.NestsWithin limit payload.render.toList := by
      rw [Text.nestsWithin_iff, rendered, ← nests]
      exact Text.nestsWithin_iff.mp within
    have limits := (payload_selectedByLimit text).sameLimits (payload_selectedByLimit payload.render)
      read (payload.parse_render small) (nests.trans rendered.symm)
    exact ⟨nests, rendered, limits⟩

/-- The tuple in the payload takes the third level; only the first of the three is a choice. -/
theorem limit_only_selects_third_level :
    (Text.highest Text.nesting "+A:\x7bx((unit)).END\x7d".toList = 3 ∧
      Text.highest Text.openBraces "+A:\x7bx((unit)).END\x7d".toList = 1 ∧
      (∃ a, Session.parseWith ⟨3⟩ "+a:\x7bx((unit)).end\x7d" = .ok a) ∧
      Verdict.ofResult (Session.parseWith ⟨2⟩ "+A:\x7bx((unit)).END\x7d") = .tooDeep) ∧
    Text.highest Text.nesting "(unit, (number [ ]))".toList = 2 := by
  have sessions := limit_only_selects "+A:\x7bx((unit)).END\x7d"
  have payloads := limit_only_selects "(unit, (number [ ]))"
  have read : Session.parseWith ⟨3⟩ "+A:\x7bx((unit)).END\x7d" = .ok (.send ⟨"a"⟩
      ⟨⟨"x"⟩, .tuple ⟨.basic .unit, []⟩, .handler ⟨"end"⟩⟩) := by
    rw [Session.parseWith_eq]
    cbv
  have reread : Payload.parseWith ⟨2⟩ "(unit, (number [ ]))" =
      .ok (.tuple ⟨.basic .unit, [.tuple ⟨.list .number, []⟩]⟩) := by
    rw [Payload.parseWith_eq]
    cbv
  obtain ⟨nests, _, limits, braces⟩ := sessions.2.2.1 3 _ read
  refine ⟨⟨nests, braces, (limits 3).mp ⟨_, read⟩, ?_⟩, (payloads.2.2.2 2 _ reread).1⟩
  apply (sessions.1.tooDeep_iff 2).mpr
  rw [nests]
  decide

end SessionSyntax
