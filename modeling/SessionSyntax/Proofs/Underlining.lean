import SessionSyntax.Proofs.Pointing

/-! Every error's message underlines what the error points at. The line that is shown and the columns
of both ends of a piece are found in different ways; they agree because no piece begins or ends within
a line end. -/
namespace SessionSyntax

theorem ne_newline_of_unblank (unblank : ¬isBlank c) : c ≠ '\n' ∧ c ≠ '\r' := by
  constructor
  · rintro rfl
    exact unblank rfl
  · rintro rfl
    exact unblank rfl

theorem Text.LastLine.append (last : LastLine before earlier left) (within : '\n' ∉ inside) :
    LastLine (before ++ inside) earlier (left ++ inside) := by
  refine ⟨by rw [last.split, List.append_assoc], last.whole, ?_⟩
  simpa [within] using last.within

namespace Span.Points

variable {span : Span} {before inside after earlier left : List Char}

theorem column (points : span.Points before inside after) (last : Text.LastLine before earlier left) :
    span.start.column = left.length + 1 := by
  obtain ⟨_, other, again, column⟩ := points.start.column
  rw [column, again.unique last, Nat.add_comm]

theorem stop_column (points : span.Points before inside after)
    (last : Text.LastLine before earlier left) (within : '\n' ∉ inside) :
    span.stop.column = left.length + inside.length + 1 := by
  obtain ⟨_, other, again, column⟩ := points.stop.column
  rw [column, again.unique (last.append within), List.length_append, Nat.add_comm]

/-- Both ends of a piece are on one line just if no line ends within the piece. -/
theorem line_eq_iff (points : span.Points before inside after) :
    span.start.line = span.stop.line ↔ '\n' ∉ inside := by
  rw [points.start.line, points.stop.line, List.count_append, ← List.count_eq_zero]
  omega

end Span.Points

namespace ParseError.Frames

variable {error : ParseError} {text before inside after earlier left : List Char}

/-- No line end is cut in two where the piece begins. -/
theorem apart_start (frames : error.Frames text before inside after)
    (last : Text.LastLine before earlier left) (carriage : left.getLast? = some '\r') :
    (inside ++ after).head? ≠ some '\n' := by
  rcases frames.edges with ⟨filled, begins, _⟩ | ⟨rfl, _, tight | rfl⟩
  · obtain ⟨c, cs, rfl⟩ := List.exists_cons_of_ne_nil filled
    simpa using (ne_newline_of_unblank (begins c rfl)).1
  · have blank : before.getLast? = some '\r' := by
      rw [last.split, List.getLast?_append, carriage, Option.some_or]
    exact absurd rfl (tight '\r' blank)
  · simp

/-- No line end is cut in two where the piece ends. -/
theorem apart_stop (frames : error.Frames text before inside after)
    (carriage : inside.getLast? = some '\r') : after.head? ≠ some '\n' := by
  rcases frames.edges with ⟨_, _, ends⟩ | ⟨rfl, _⟩
  · exact absurd rfl (ends '\r' carriage)
  · cases carriage

/-- The line goes on from what stands left of the piece with the first line of the piece, and ends
with it if a line ends within the piece. -/
theorem snippet (frames : error.Frames text before inside after)
    (last : Text.LastLine before earlier left) : ∃ right,
      error.span.snippet.toList = left ++ Text.firstLine inside ++ right ∧
        ('\n' ∈ inside → right = []) := by
  obtain ⟨_, other, again, line⟩ := frames.points.snippet
  rw [line.eq_firstLine, again.unique last,
    Text.firstLine_append last.within (frames.apart_start last)]
  by_cases ends : '\n' ∈ inside
  · refine ⟨[], ?_, fun _ => rfl⟩
    rw [Text.firstLine_append_of_mem ends, List.append_nil]
  · refine ⟨Text.firstLine after, ?_, fun within => absurd within ends⟩
    rw [Text.firstLine_append ends frames.apart_stop, Text.firstLine_eq_self ends, List.append_assoc]

/-- Where there is something in the piece, some of it stands on its first line. -/
theorem firstLine_ne_nil (frames : error.Frames text before inside after) (filled : inside ≠ []) :
    Text.firstLine inside ≠ [] := by
  rcases frames.edges with ⟨_, begins, _⟩ | ⟨empty, _⟩
  · obtain ⟨c, cs, rfl⟩ := List.exists_cons_of_ne_nil filled
    obtain ⟨line, carriage⟩ := ne_newline_of_unblank (begins c rfl)
    rw [Text.firstLine_cons line fun same => absurd same carriage]
    exact List.cons_ne_nil c _
  · exact absurd empty filled

end ParseError.Frames

/-- There are as many carets as characters of the piece on its first line, and at least one. -/
theorem Span.Points.carets_eq {span : Span} (points : span.Points before inside after)
    (last : Text.LastLine before earlier left)
    (snippet : span.snippet.toList = left ++ Text.firstLine inside ++ right)
    (ends : '\n' ∈ inside → right = []) :
    span.carets = max 1 (Text.firstLine inside).length := by
  by_cases within : '\n' ∈ inside
  · have apart : span.start.line ≠ span.stop.line := mt points.line_eq_iff.mp (not_not_intro within)
    have width : span.snippet.length = left.length + (Text.firstLine inside).length := by
      rw [← String.length_toList, snippet, ends within, List.append_nil, List.length_append]
    rw [Span.carets, if_neg apart, points.column last, width]
    congr 1
    omega
  · rw [Span.carets, if_pos (points.line_eq_iff.mpr within), points.column last,
      points.stop_column last within, Text.firstLine_eq_self within]
    congr 1
    omega

theorem Span.toList_spaces (n : Nat) : (spaces n).toList = List.replicate n ' ' := by
  rw [spaces, String.toList_ofList]

theorem toList_toString (n : Nat) : (toString n).toList = Nat.toDigits 10 n := by
  change (String.ofList (Nat.toDigits 10 n)).toList = _
  rw [String.toList_ofList]

theorem Span.gutter_eq (span : Span) : span.gutter = gutterWidth span.start.line := by
  rw [gutter, ← String.length_toList, toList_toString, gutterWidth]

theorem length_margin (number : Nat) : (margin number).length = gutterWidth number + 3 := by
  have room : (Nat.toDigits 10 number).length ≤ gutterWidth number := Nat.le_max_right ..
  simp only [margin, flushRight, List.length_append, List.length_replicate, List.length_cons,
    List.length_nil]
  omega

theorem Span.toList_snippetLine (span : Span) :
    span.snippetLine.toList = margin span.start.line ++ span.snippet.toList := by
  have number := toList_toString span.start.line
  have bar : " | ".toList = [' ', '|', ' '] := rfl
  simp only [snippetLine, String.toList_append, toList_spaces, gutter_eq, margin, flushRight, bar,
    ← String.length_toList, number]

theorem Span.toList_caretLine (span : Span) : span.caretLine.toList =
    List.replicate (gutterWidth span.start.line + 3 + (span.start.column - 1)) ' ' ++
      List.replicate span.carets '^' := by
  rw [caretLine, String.toList_append, toList_spaces, String.toList_ofList, gutter_eq]

/-- A rendered message ends with the line shown and the carets. -/
theorem Span.render_endsWithCarets (span : Span) (message : String)
    (single : '\n' ∉ span.snippet.toList) :
    EndsWithCarets (span.render message).toList span.start.line span.start.column
      span.snippet.toList span.carets := by
  refine ⟨single, length_margin _, ("\n" ++ message ++ "\n  --> input:" ++ toString span.start.line ++
    ":" ++ toString span.start.column ++ "\n" ++ spaces span.gutter ++ " |").toList, ?_⟩
  have lineEnd : "\n".toList = ['\n'] := rfl
  have bar : " |\n".toList = " |".toList ++ ['\n'] := rfl
  rw [render, ← toList_snippetLine, ← toList_caretLine]
  simp only [String.toList_append, lineEnd, bar, List.append_assoc, List.cons_append, List.nil_append]

theorem ParseError.Frames.underlines {error : ParseError}
    (frames : error.Frames text before inside after) :
    ∃ left marked right, error.Underlines before inside after left marked right := by
  obtain ⟨earlier, left, last⟩ := Text.exists_lastLine before
  obtain ⟨right, snippet, ends⟩ := frames.snippet last
  have carets := frames.points.carets_eq last snippet ends
  have single : '\n' ∉ error.span.snippet.toList := by
    obtain ⟨_, _, _, line⟩ := frames.points.snippet
    exact line.1
  refine ⟨left, Text.firstLine inside, right, frames.points, frames.shown, Text.firstLine_spec inside,
    snippet, frames.points.column last, ?_, ?_⟩
  · rw [← carets]
    exact error.span.render_endsWithCarets error.cause.message single
  · rw [snippet, List.length_append, List.length_append]
    by_cases filled : inside = []
    · obtain ⟨empty, _⟩ | ⟨_, wanted, _⟩ := frames.edges
      · exact absurd filled empty
      · subst filled
        cases right with
        | nil => exact .inr ⟨wanted, rfl, rfl⟩
        | cons c cs => exact .inl (by simp [Text.firstLine])
    · have some := List.length_pos_iff.mpr (frames.firstLine_ne_nil filled)
      exact .inl (by omega)

theorem LexemeReader.Follows.frames {reader : LexemeReader σ α}
    (follows : reader.Follows spelled offends)
    (needs : reader.Needs spelled breaks) (stands : OffencesStand spelled offends) {text : String}
    (refused : reader.parse ⟨limit⟩ text = .error error) :
    ∃ before inside after, error.Frames text.toList before inside after := by
  obtain ⟨fault, read, rfl⟩ := LexemeReader.parse_eq_error_iff.mp refused
  exact Source.locate_frames ((spaced_iff text).mpr rfl) (follows.fault_stands needs stands read)

/-- The message of every error ends with the line on which the error is, behind the number of the
line, and with carets below just those characters of the line that are part of what the error points
at; if there are none, with one caret at the place where something is missing. -/
theorem message_underlines (text : String) (limit : Nat) :
    (∀ error, Session.parseWith ⟨limit⟩ text = .error error →
      ∃ before inside after left marked right, text.toList = before ++ inside ++ after ∧
        error.Underlines before inside after left marked right) ∧
    (∀ error, Payload.parseWith ⟨limit⟩ text = .error error →
      ∃ before inside after left marked right, text.toList = before ++ inside ++ after ∧
        error.Underlines before inside after left marked right) := by
  rw [Session.parseWith_eq, Payload.parseWith_eq]
  constructor
  · intro error refused
    obtain ⟨before, inside, after, frames⟩ :=
      LexemeReader.session_follows.frames LexemeReader.session_needs session_offencesStand refused
    obtain ⟨left, marked, right, underlines⟩ := frames.underlines
    exact ⟨before, inside, after, left, marked, right, frames.split, underlines⟩
  · intro error refused
    obtain ⟨before, inside, after, frames⟩ :=
      LexemeReader.payload_follows.frames LexemeReader.payload_needs payload_offencesStand refused
    obtain ⟨left, marked, right, underlines⟩ := frames.underlines
    exact ⟨before, inside, after, left, marked, right, frames.split, underlines⟩

theorem message_underlines_second_line :
    (∃ error, Session.parseWith ⟨4⟩ "\r\n(é" = .error error ∧
      ∃ before inside after left marked right, "\r\n(é".toList = before ++ inside ++ after ∧
        error.Underlines before inside after left marked right) ∧
    (∃ error, Payload.parseWith ⟨4⟩ "\r\n(é" = .error error ∧
      ∃ before inside after left marked right, "\r\n(é".toList = before ++ inside ++ after ∧
        error.Underlines before inside after left marked right) := by
  have underlined := message_underlines "\r\n(é" 4
  exact ⟨⟨_, rfl, underlined.1 _ rfl⟩, ⟨_, rfl, underlined.2 _ rfl⟩⟩

end SessionSyntax
