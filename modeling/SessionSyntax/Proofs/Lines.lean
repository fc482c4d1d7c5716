import SessionSyntax.ParseError

/-! Positions and lines are found where they stand in the text. -/
namespace SessionSyntax

namespace Text

theorem size_append (before after : List Char) :
    size (before ++ after) = size before + size after := by
  induction before with
  | nil => simp [size]
  | cons c cs ih => simp [size, ih, Nat.add_assoc]

/-- As many bytes as a beginning of the text takes are those of this beginning. -/
theorem upTo_size (before after : List Char) : upTo (size before) (before ++ after) = before := by
  induction before with
  | nil =>
    cases after with
    | nil => rfl
    | cons c cs =>
      have := c.utf8Size_pos
      simp [upTo, size]; omega
  | cons c cs ih => simp [upTo, size, ih]

/-- A piece of the text lies between the sizes of what stands before it and up to its end. -/
theorem upTo_piece (split : text = before ++ inside ++ after) :
    upTo (size before) text = before ∧ upTo (size (before ++ inside)) text = before ++ inside := by
  subst split
  constructor
  · rw [List.append_assoc, upTo_size]
  · rw [upTo_size]

theorem exists_lastLine (before : List Char) : ∃ earlier left, LastLine before earlier left := by
  induction before with
  | nil => exact ⟨[], [], rfl, .inl rfl, by simp⟩
  | cons c cs ih =>
    obtain ⟨earlier, left, rfl, whole, within⟩ := ih
    by_cases begun : earlier = []
    · subst begun
      by_cases ends : c = '\n'
      · exact ⟨[c], left, rfl, .inr (by simp [ends]), within⟩
      · exact ⟨[], c :: left, rfl, .inl rfl, by simp [within, Ne.symm ends]⟩
    · refine ⟨c :: earlier, left, rfl, .inr ?_, within⟩
      rw [List.getLast?_cons_of_ne_nil begun]
      exact whole.resolve_left begun

/-- What stands before a place on its line is told by the text before it. -/
theorem LastLine.unique (one : LastLine before earlier left) (two : LastLine before first last) :
    left = last := by
  have same := one.split.symm.trans two.split
  -- Lines between the two ends would be whole, and lie within the longer of both.
  have none {front between rest : List Char} (whole : front ++ between = [] ∨
      (front ++ between).getLast? = some '\n') (within : '\n' ∉ between ++ rest) : between = [] := by
    rcases List.eq_nil_or_concat between with rfl | ⟨others, c, rfl⟩
    · rfl
    · obtain rfl : c = '\n' := by simpa [← List.append_assoc] using whole
      simp at within
  rcases List.append_eq_append_iff.mp same with ⟨between, rfl, rfl⟩ | ⟨between, rfl, rfl⟩
  · rw [none two.whole one.within, List.nil_append]
  · rw [none one.whole two.within, List.nil_append]

theorem foldl_next_of_not_mem {left : List Char} (within : '\n' ∉ left) (here : Position) :
    left.foldl Position.next here = ⟨here.line, here.column + left.length⟩ := by
  induction left generalizing here with
  | nil => rfl
  | cons c cs ih =>
    obtain ⟨other, within⟩ : '\n' ≠ c ∧ '\n' ∉ cs := by simpa using within
    rw [List.foldl_cons, ih within, Position.next, if_neg (Ne.symm other)]
    simp [Nat.add_assoc, Nat.add_comm 1]

theorem line_foldl_next (before : List Char) (here : Position) :
    (before.foldl Position.next here).line = here.line + before.count '\n' := by
  induction before generalizing here with
  | nil => rfl
  | cons c cs ih =>
    rw [List.foldl_cons, ih, Position.next]
    split <;> simp_all
    omega

/-- A whole line ends at the first column of the next one. -/
theorem column_after_whole (whole : earlier = [] ∨ earlier.getLast? = some '\n') :
    (Position.after earlier).column = 1 := by
  rcases List.eq_nil_or_concat earlier with rfl | ⟨front, c, rfl⟩
  · rfl
  · obtain rfl : c = '\n' := by simpa using whole
    simp [Position.after, Position.next]

theorem Position.after_behind (before : List Char) : (Position.after before).Behind before := by
  refine ⟨line_foldl_next before .origin, ?_⟩
  obtain ⟨earlier, left, last⟩ := exists_lastLine before
  refine ⟨earlier, left, last, ?_⟩
  have column := column_after_whole last.whole
  rw [Position.after] at column
  rw [Position.after, last.split, List.foldl_append, foldl_next_of_not_mem last.within, column]

/-- Going on in a text one always comes to a later line or column. -/
theorem Position.after_precedes (before : List Char) (filled : inside ≠ []) :
    (Position.after before).Precedes (Position.after (before ++ inside)) := by
  rw [Position.after, Position.after, List.foldl_append]
  by_cases within : '\n' ∈ inside
  · have some := List.count_pos_iff.mpr within
    exact .inl (by rw [line_foldl_next inside]; omega)
  · rw [foldl_next_of_not_mem within]
    exact .inr ⟨rfl, Nat.lt_add_of_pos_right (List.length_pos_iff.mpr filled)⟩

theorem Position.Precedes.reaches (precedes : Precedes start stop) : start.Reaches stop :=
  precedes.imp_right fun ⟨line, column⟩ => ⟨line, Nat.le_of_lt column⟩

theorem Position.after_reaches (before inside : List Char) :
    (Position.after before).Reaches (Position.after (before ++ inside)) := by
  by_cases empty : inside = []
  · rw [empty, List.append_nil]
    exact .inr ⟨rfl, Nat.le_refl _⟩
  · exact (Position.after_precedes before empty).reaches

theorem firstLine_spec (text : List Char) : FirstLine text (firstLine text) := by
  fun_induction firstLine text with
  | case1 => exact ⟨by simp, .inl rfl⟩
  | case2 later => exact ⟨by simp, .inr (.inr ⟨by simp, later, rfl⟩)⟩
  | case3 later => exact ⟨by simp, .inr (.inl ⟨later, rfl⟩)⟩
  | case4 c cs other apart ih =>
    obtain ⟨within, rest⟩ := ih
    refine ⟨by simp [within, Ne.symm other], ?_⟩
    rcases rest with whole | ⟨later, split⟩ | ⟨tight, later, split⟩
    · exact .inl (congrArg (c :: ·) whole)
    · exact .inr (.inl ⟨later, congrArg (c :: ·) split⟩)
    · refine .inr (.inr ⟨?_, later, congrArg (c :: ·) split⟩)
      by_cases empty : firstLine cs = []
      · -- A CR before this LF would have ended the line.
        rw [empty] at split ⊢
        simpa using fun same => apart later same split
      · rwa [List.getLast?_cons_of_ne_nil empty]

theorem firstLine_cons (other : c ≠ '\n') (apart : c = '\r' → cs.head? ≠ some '\n') :
    firstLine (c :: cs) = c :: firstLine cs := by
  rw [firstLine]
  · exact other
  · rintro later rfl rfl
    exact apart rfl rfl

/-- The first line goes on with what stands behind the beginning of a line, unless a line end is cut
in two between them. -/
theorem firstLine_append (within : '\n' ∉ left)
    (apart : left.getLast? = some '\r' → rest.head? ≠ some '\n') :
    firstLine (left ++ rest) = left ++ firstLine rest := by
  induction left with
  | nil => rfl
  | cons c cs ih =>
    obtain ⟨other, within⟩ : '\n' ≠ c ∧ '\n' ∉ cs := by simpa using within
    cases cs with
    | nil => exact firstLine_cons (Ne.symm other) (by simpa using apart)
    | cons d ds =>
      have next : d ≠ '\n' := fun same => within (by simp [same])
      have tail := ih within (by simpa using apart)
      rw [List.cons_append, firstLine_cons (Ne.symm other) (by simpa using fun _ => next), tail]
      rfl

theorem firstLine_eq_self (within : '\n' ∉ text) : firstLine text = text := by
  have whole : firstLine (text ++ []) = text ++ firstLine [] := firstLine_append within (by simp)
  simpa [firstLine] using whole

/-- What stands behind a text makes no difference to its first line, where that ends within it. -/
theorem firstLine_append_of_mem (ends : '\n' ∈ text) (after : List Char) :
    firstLine (text ++ after) = firstLine text := by
  fun_induction firstLine text with
  | case1 => cases ends
  | case2 | case3 => rfl
  | case4 c cs other apart ih =>
    have later : '\n' ∈ cs := by simpa [Ne.symm other] using ends
    obtain ⟨d, ds, rfl⟩ := List.exists_cons_of_ne_nil (List.ne_nil_of_mem later)
    have next : c = '\r' → d ≠ '\n' := fun same line => apart ds same (by rw [line])
    rw [List.cons_append, firstLine_cons other (by simpa using next), ih later]

theorem FirstLine.eq_firstLine (first : FirstLine text line) : line = firstLine text := by
  obtain ⟨within, rfl | ⟨later, rfl⟩ | ⟨tight, later, rfl⟩⟩ := first
  · exact (firstLine_eq_self within).symm
  · rw [firstLine_append within (by simp), firstLine, List.append_nil]
  · rw [firstLine_append within fun last => absurd last tight, firstLine, List.append_nil]

theorem skipLines_whole (whole : earlier = [] ∨ earlier.getLast? = some '\n') (after : List Char) :
    skipLines (earlier.count '\n') (earlier ++ after) = after := by
  induction earlier with
  | nil => cases after <;> rfl
  | cons c cs ih =>
    have ends : (c :: cs).getLast? = some '\n' := whole.resolve_left (List.cons_ne_nil c cs)
    by_cases last : cs = []
    · subst last
      obtain rfl : c = '\n' := by simpa using ends
      cases after <;> rfl
    · rw [List.getLast?_cons_of_ne_nil last] at ends
      have more := List.count_pos_iff.mpr (List.mem_of_getLast? ends)
      have rest := ih (.inr ends)
      by_cases same : c = '\n'
      · subst same
        rw [List.count_cons_self, List.cons_append, skipLines, if_pos rfl, rest]
      · obtain ⟨k, some⟩ := Nat.exists_eq_succ_of_ne_zero (Nat.ne_of_gt more)
        rw [some] at rest
        rw [List.count_cons_of_ne same, List.cons_append, some, skipLines, if_neg same, rest]

theorem lineAt_around (before after : List Char) :
    LineAround before after (lineAt (Position.after before).line (before ++ after)) := by
  obtain ⟨earlier, left, last⟩ := exists_lastLine before
  refine ⟨earlier, left, last, ?_⟩
  have line := (Position.after_behind before).line
  have count : before.count '\n' = earlier.count '\n' := by
    rw [last.split, List.count_append, List.count_eq_zero.mpr last.within, Nat.add_zero]
  rw [lineAt, line, Nat.add_sub_cancel_left, count, last.split, List.append_assoc,
    skipLines_whole last.whole]
  exact firstLine_spec _

end Text

end SessionSyntax
