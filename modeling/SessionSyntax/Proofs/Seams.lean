import SessionSyntax.Outcome
import SessionSyntax.Proofs.Cutting

/-! Texts put together have the lexemes of both, unless a word goes on over the seam. Only the
characters on both sides of the seam matter for this. So a text falls into what stands before one of
its lexemes and what remains, and any such halves are those that the offsets of the lexemes tell. -/
namespace SessionSyntax

theorem spaced_blank_iff (blank : isBlank c) : Spaced (c :: text) ls ↔ Spaced text ls := by
  constructor
  · intro spaced
    generalize whole : c :: text = all at spaced
    cases spaced with
    | nil => cases whole
    | blank _ _ spaced =>
      obtain ⟨rfl, rfl⟩ := List.cons.inj whole
      exact spaced
    | mark _ unblank =>
      obtain ⟨rfl, rfl⟩ := List.cons.inj whole
      exact absurd blank unblank
    | word letters filled letter =>
      obtain ⟨d, ds, rfl⟩ := List.exists_cons_of_ne_nil filled
      obtain ⟨rfl, _⟩ := List.cons.inj whole
      exact absurd blank (not_isBlank_of_isWordChar (letter c (by simp)))
  · exact .blank c blank

theorem spaced_mark_iff (unblank : ¬isBlank c) (apart : ¬isWordChar c) :
    Spaced (c :: text) (.mark c :: ls) ↔ Spaced text ls := by
  constructor
  · intro spaced
    obtain ⟨behind, whole, spaced, _⟩ := spaced.first_token (by simpa [Unindented] using unblank)
    obtain ⟨_, rfl⟩ := List.cons.inj whole
    exact spaced
  · exact .mark c unblank apart

theorem spaced_word_iff (filled : letters ≠ []) (letter : ∀ c ∈ letters, isWordChar c) :
    Spaced (letters ++ text) (.word letters :: ls) ↔
      (∀ c, text.head? = some c → ¬isWordChar c) ∧ Spaced text ls := by
  constructor
  · intro spaced
    generalize whole : letters ++ text = all at spaced
    cases spaced with
    | blank c blank =>
      obtain ⟨d, ds, rfl⟩ := List.exists_cons_of_ne_nil filled
      obtain ⟨rfl, _⟩ := List.cons.inj whole
      exact absurd blank (not_isBlank_of_isWordChar (letter d (by simp)))
    | word _ _ _ apart spaced =>
      obtain rfl := List.append_cancel_left whole
      exact ⟨apart, spaced⟩
  · rintro ⟨apart, spaced⟩
    exact .word letters filled letter apart spaced

theorem not_wordGoesOn_nil (after : List Char) : ¬WordGoesOn [] after := by simp [WordGoesOn]

theorem not_wordGoesOn_cons (apart : ¬isWordChar c) (before after : List Char) :
    ¬WordGoesOn before (c :: after) := by
  simpa [WordGoesOn] using fun _ _ _ => apart

theorem wordGoesOn_append_iff (filled : text ≠ []) (front after : List Char) :
    WordGoesOn (front ++ text) after ↔ WordGoesOn text after := by
  rw [WordGoesOn, WordGoesOn, List.getLast?_append, List.getLast?_eq_some_getLast filled,
    Option.some_or]

/-- A character that belongs to no word makes no difference in front of a text. -/
theorem wordGoesOn_cons_iff (apart : ¬isWordChar c) (text after : List Char) :
    WordGoesOn (c :: text) after ↔ WordGoesOn text after := by
  by_cases filled : text = []
  · subst filled
    simp [WordGoesOn, apart]
  · exact wordGoesOn_append_iff filled [c] after

theorem not_wordGoesOn_word_iff (filled : letters ≠ []) (letter : ∀ c ∈ letters, isWordChar c)
    (after : List Char) :
    ¬WordGoesOn letters after ↔ ∀ c, after.head? = some c → ¬isWordChar c := by
  have ends : ∃ c, letters.getLast? = some c ∧ isWordChar c :=
    ⟨letters.getLast filled, List.getLast?_eq_some_getLast filled, letter _ (List.getLast_mem filled)⟩
  simp [WordGoesOn, ends]

/-- Texts put together have the lexemes of both just if no word goes on over the seam. -/
theorem Spaced.append_iff (front : Spaced before ls) (back : Spaced after ms) :
    Spaced (before ++ after) (ls ++ ms) ↔ ¬WordGoesOn before after := by
  induction front with
  | nil => exact iff_of_true back (not_wordGoesOn_nil after)
  | blank c blank _ ih =>
    have apart : ¬isWordChar c := fun letter => not_isBlank_of_isWordChar letter blank
    rw [List.cons_append, spaced_blank_iff blank, ih, wordGoesOn_cons_iff apart]
  | mark c unblank apart _ ih =>
    rw [List.cons_append, List.cons_append, spaced_mark_iff unblank apart, ih,
      wordGoesOn_cons_iff apart]
  | @word text _ letters filled letter apart spaced ih =>
    rw [List.append_assoc, List.cons_append, spaced_word_iff filled letter, ih]
    cases text with
    | nil =>
      rw [List.append_nil, not_wordGoesOn_word_iff filled letter]
      exact and_iff_left (not_wordGoesOn_nil after)
    | cons d ds =>
      rw [wordGoesOn_append_iff (List.cons_ne_nil d ds)]
      exact and_iff_right (by simpa using apart)

theorem Spaced.append (front : Spaced before ls) (back : Spaced after ms)
    (apart : ¬WordGoesOn before after) : Spaced (before ++ after) (ls ++ ms) :=
  (front.append_iff back).mpr apart

theorem not_wordGoesOn_blanks (blank : ∀ c ∈ after, isBlank c) (before : List Char) :
    ¬WordGoesOn before after := by
  rintro ⟨_, c, head, letter⟩
  exact not_isBlank_of_isWordChar letter (blank c (List.mem_of_head? head))

theorem wordGoesOn_append_right_iff (filled : text ≠ []) (before after : List Char) :
    WordGoesOn before (text ++ after) ↔ WordGoesOn before text := by
  obtain ⟨c, cs, rfl⟩ := List.exists_cons_of_ne_nil filled
  rfl

theorem spaced_nil_iff : Spaced text [] ↔ ∀ c ∈ text, isBlank c := by
  constructor
  · exact Spaced.blank_of_nil
  · intro blank
    induction text with
    | nil => exact .nil
    | cons c cs ih =>
      obtain ⟨first, others⟩ := List.forall_mem_cons.mp blank
      exact .blank c first (ih others)

namespace SplitsOff

variable {text before remaining blanks : List Char} {ls ms : List Lexeme}

theorem behind (splits : SplitsOff text before remaining blanks) (behind : Spaced remaining ms) :
    Spaced (remaining ++ blanks) ms := by
  simpa using behind.append (spaced_nil_iff.mpr splits.blank)
    (not_wordGoesOn_blanks splits.blank remaining)

theorem spaced (splits : SplitsOff text before remaining blanks) (front : Spaced before ls)
    (behind : Spaced remaining ms) : Spaced text (ls ++ ms) := by
  rw [splits.split, List.append_assoc]
  refine front.append (splits.behind behind) ?_
  rw [wordGoesOn_append_right_iff splits.filled]
  exact splits.apart

theorem lexemes_ne_nil (splits : SplitsOff text before remaining blanks)
    (behind : Spaced remaining ms) : ms ≠ [] := by
  rintro rfl
  obtain ⟨c, cs, rfl⟩ := List.exists_cons_of_ne_nil splits.filled
  exact splits.begins c rfl (behind.blank_of_nil c (by simp))

theorem begins_behind (splits : SplitsOff text before remaining blanks) :
    Unindented (remaining ++ blanks) := by
  obtain ⟨c, cs, rfl⟩ := List.exists_cons_of_ne_nil splits.filled
  exact splits.begins

theorem ends_before (splits : SplitsOff text before remaining blanks) :
    Trimmed (before ++ remaining) := by
  rw [Trimmed, List.getLast?_append, List.getLast?_eq_some_getLast splits.filled, Option.some_or]
  simpa [Trimmed, List.getLast?_eq_some_getLast splits.filled] using splits.ends

/-- What remains stands where its first lexeme does. -/
theorem stands_start (splits : SplitsOff text before remaining blanks) (front : Spaced before ls)
    (behind : Spaced remaining ms) : StandsAt text (ls ++ ms) ls.length (Text.size before) := by
  have filled := splits.lexemes_ne_nil behind
  refine ⟨before, remaining ++ blanks, ?_, rfl⟩
  constructor
  · rw [splits.split, List.append_assoc]
  · simpa using front
  · simpa using splits.behind behind
  · exact fun _ => splits.begins_behind
  · intro _ beyond
    have := List.length_pos_iff.mpr filled
    simp only [List.length_append] at beyond
    omega
  · simp [filled]

/-- What remains ends where its last lexeme does. -/
theorem stands_stop (splits : SplitsOff text before remaining blanks) (front : Spaced before ls)
    (behind : Spaced remaining ms) :
    StandsAt text (ls ++ ms) (ls ++ ms).length (Text.size (before ++ remaining)) := by
  refine ⟨before ++ remaining, blanks, ?_, rfl⟩
  constructor
  · exact splits.split
  · rw [List.take_length]
    exact front.append behind splits.apart
  · rw [List.drop_length]
    exact spaced_nil_iff.mpr splits.blank
  · exact fun inside => absurd inside (Nat.lt_irrefl _)
  · exact fun _ _ => splits.ends_before
  · simp [splits.lexemes_ne_nil behind]

end SplitsOff

namespace Source

variable {text : String} {ls ms : List Lexeme}

/-- Before each of its lexemes, what remains of a text splits off. -/
theorem exists_splitsOff (spaced : Spaced text.toList (ls ++ ms)) (filled : ms ≠ []) :
    ∃ before remaining blanks, SplitsOff text.toList before remaining blanks ∧
      Spaced before ls ∧ Spaced remaining ms := by
  have whole := spaced
  rw [← List.append_nil ms, ← List.append_assoc] at spaced
  obtain ⟨before, remaining, blanks, split, begins, ends, front, written, none, _⟩ :=
    exists_stretch spaced filled
  have some := written.filled filled
  have behind := written.append none (not_wordGoesOn_blanks none.blank_of_nil remaining)
  rw [List.append_nil] at behind
  have apart : ¬WordGoesOn before remaining := by
    rw [split, List.append_assoc, front.append_iff behind, wordGoesOn_append_right_iff some] at whole
    exact whole
  exact ⟨before, remaining, blanks, ⟨split, some, begins, ends, none.blank_of_nil, apart⟩, front,
    written⟩

/-- What remains of a text starts and ends at the offsets that are told for its lexemes. -/
theorem offsets_of_splitsOff (splits : SplitsOff text.toList before remaining blanks)
    (front : Spaced before ls) (behind : Spaced remaining ms) :
    (ofText text).startOf ls.length = Text.size before ∧
      (ofText text).contentEnd = Text.size (before ++ remaining) := by
  have spaced := splits.spaced front behind
  constructor
  · exact (standsAt_startOf spaced ls.length).unique (splits.stands_start front behind)
  · rw [← startOf_beyond spaced (Nat.le_refl _)]
    exact (standsAt_startOf spaced _).unique (splits.stands_stop front behind)

end Source

end SessionSyntax
