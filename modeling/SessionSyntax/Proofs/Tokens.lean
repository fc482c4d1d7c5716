import Mathlib.Data.List.TakeWhile
import SessionSyntax.Lexeme

/-! The lexemes of a text are those, and only those, that stand in it with blanks between them;
and counting brackets on the lexemes comes to the same as counting them in the text. -/
namespace SessionSyntax

theorem not_isBlank_of_isWordChar (letter : isWordChar c) : ¬isBlank c := by
  intro blank
  simp only [isBlank, Bool.or_eq_true, beq_iff_eq] at blank
  rcases blank with ((rfl | rfl) | rfl) | rfl <;> revert letter <;> decide

namespace Token

theorem start_le_of_mem_join (c : Char) (start stop : Nat)
    (later : ∀ token ∈ tokens, start ≤ token.start) :
    ∀ token ∈ join c start stop tokens, start ≤ token.start := by
  intro token member
  unfold join at member
  split at member
  · split at member
    · rcases List.mem_cons.mp member with rfl | member
      · exact Nat.le_refl _
      · exact later token (by simp [member])
    · rcases List.mem_cons.mp member with rfl | member
      · exact Nat.le_refl _
      · exact later token member
  · rcases List.mem_cons.mp member with rfl | member
    · exact Nat.le_refl _
    · exact later token member

theorem start_le_of_mem_scan (text : List Char) (start : Nat) :
    ∀ token ∈ scan start text, start ≤ token.start := by
  induction text generalizing start with
  | nil => simp [scan]
  | cons c cs ih =>
    have behind := fun token member =>
      Nat.le_trans (Nat.le_add_right start c.utf8Size) (ih (start + c.utf8Size) token member)
    rw [scan]
    split
    · exact behind
    · split
      · exact start_le_of_mem_join c start _ behind
      · intro token member
        rcases List.mem_cons.mp member with rfl | member
        · exact Nat.le_refl _
        · exact behind token member

/-- A word begins right behind a place only where a word character stands there. -/
theorem word_start_ne (apart : ∀ d, text.head? = some d → ¬isWordChar d)
    (tokens : scan place text = ⟨.word letters, next, last⟩ :: rest) : next ≠ place := by
  cases text with
  | nil => simp [scan] at tokens
  | cons d ds =>
    rw [scan] at tokens
    split at tokens
    · have later := start_le_of_mem_scan ds (place + d.utf8Size) ⟨.word letters, next, last⟩
        (by simp [tokens])
      have := d.utf8Size_pos
      simp only at later; omega
    · simp [apart d rfl] at tokens

theorem join_scan (c : Char) (start stop : Nat)
    (apart : ∀ d, text.head? = some d → ¬isWordChar d) :
    join c start stop (scan stop text) = ⟨.word [c], start, stop⟩ :: scan stop text := by
  cases tokens : scan stop text with
  | nil => rfl
  | cons token rest =>
    obtain ⟨letters | d, next, last⟩ := token
    · simp [join, word_start_ne apart tokens]
    · rfl

theorem scan_cons_word (letter : isWordChar c) (cs : List Char) (start : Nat) :
    scan start (c :: cs) =
      join c start (start + c.utf8Size) (scan (start + c.utf8Size) cs) := by
  simp [scan, letter, not_isBlank_of_isWordChar letter]

theorem scan_word (start : Nat) (filled : letters ≠ []) (word : ∀ c ∈ letters, isWordChar c)
    (apart : ∀ d, text.head? = some d → ¬isWordChar d) :
    scan start (letters ++ text) =
      ⟨.word letters, start, start + Text.size letters⟩ ::
        scan (start + Text.size letters) text := by
  induction letters generalizing start with
  | nil => exact absurd rfl filled
  | cons c cs ih =>
    rw [List.cons_append, scan_cons_word (word c (by simp))]
    cases cs with
    | nil => simpa [Text.size] using join_scan c start (start + c.utf8Size) apart
    | cons d ds =>
      rw [ih _ (by simp) fun e member => word e (List.mem_cons_of_mem c member)]
      simp [join, Text.size, Nat.add_assoc]

end Token

theorem Spaced.lexemes_scan (spaced : Spaced text ls) (start : Nat) :
    (Token.scan start text).map (·.lexeme) = ls := by
  induction spaced generalizing start with
  | nil => rfl
  | blank c blank _ ih => rw [Token.scan, if_pos blank, ih]
  | mark c unblank apart _ ih => simp [Token.scan, unblank, apart, ih]
  | word letters filled word apart _ ih =>
    rw [Token.scan_word start filled word apart, List.map_cons, ih]

theorem Spaced.length_le (spaced : Spaced text ls) : ls.length ≤ text.length := by
  induction spaced with
  | nil => exact Nat.le_refl _
  | blank _ _ _ ih => exact Nat.le_succ_of_le ih
  | mark _ _ _ _ ih => exact Nat.succ_le_succ ih
  | word letters filled _ _ _ ih =>
    have := List.length_pos_iff.mpr filled
    rw [List.length_cons, List.length_append]
    omega

theorem Spaced.unique (one : Spaced text ls) (two : Spaced text ms) : ls = ms :=
  (one.lexemes_scan 0).symm.trans (two.lexemes_scan 0)

theorem exists_spaced (text : List Char) : ∃ ls, Spaced text ls := by
  match text with
  | [] => exact ⟨[], .nil⟩
  | c :: cs =>
    by_cases blank : isBlank c
    · obtain ⟨ls, spaced⟩ := exists_spaced cs
      exact ⟨ls, .blank c blank spaced⟩
    by_cases letter : isWordChar c
    · obtain ⟨ls, spaced⟩ := exists_spaced (cs.dropWhile isWordChar)
      have word : ∀ d ∈ c :: cs.takeWhile isWordChar, isWordChar d := by
        intro d member
        rcases List.mem_cons.mp member with rfl | member
        · exact letter
        · exact List.mem_takeWhile_imp member
      have apart : ∀ d, (cs.dropWhile isWordChar).head? = some d → ¬isWordChar d := by
        intro d head
        have stops := List.head?_dropWhile_not isWordChar cs
        simpa [head] using stops
      exact ⟨_, by simpa using Spaced.word _ (by simp) word apart spaced⟩
    · obtain ⟨ls, spaced⟩ := exists_spaced cs
      exact ⟨_, .mark c blank letter spaced⟩
termination_by text.length
decreasing_by
  all_goals simp only [List.length_cons]
  · omega
  · have := List.length_dropWhile_le isWordChar cs; omega
  · omega

/-- The lexemes of a text are the ones that stand in it. -/
theorem spaced_iff (text : String) : Spaced text.toList ls ↔ (Source.ofText text).lexemes = ls := by
  constructor
  · intro spaced
    exact spaced.lexemes_scan 0
  · rintro rfl
    obtain ⟨ls, spaced⟩ := exists_spaced text.toList
    have same : (Source.ofText text).lexemes = ls := spaced.lexemes_scan 0
    rwa [same]

theorem le_peakFrom (depth : Nat) (ls : List Lexeme) : depth ≤ peakFrom depth ls := by
  cases ls with
  | nil => exact Nat.le_refl _
  | cons l ls => exact Nat.le_max_left ..

theorem peakFrom_still (still : l.nest depth = depth) (ls : List Lexeme) :
    peakFrom depth (l :: ls) = peakFrom depth ls := by
  rw [peakFrom, still]
  exact Nat.max_eq_right (le_peakFrom depth ls)

theorem peakFrom_opening (opens : l.opens) (depth : Nat) (ls : List Lexeme) :
    peakFrom depth (l :: ls) = peakFrom (depth + 1) ls := by
  have := le_peakFrom (depth + 1) ls
  rw [peakFrom, Lexeme.nest, if_pos opens]
  omega

theorem overflowFrom?_eq_none_iff (bound : depth ≤ limit) (index : Nat) :
    overflowFrom? limit depth index ls = none ↔ peakFrom depth ls ≤ limit := by
  induction ls generalizing depth index with
  | nil => simpa [peakFrom, overflowFrom?] using bound
  | cons l ls ih =>
    rw [overflowFrom?, peakFrom]
    split
    case isTrue exceeded =>
      have := le_peakFrom (l.nest depth) ls
      simp only [reduceCtorEq, false_iff]; omega
    case isFalse within =>
      rw [ih (by omega)]; omega

theorem overflow?_eq_none_iff : overflow? limit ls = none ↔ peak ls ≤ limit :=
  overflowFrom?_eq_none_iff (Nat.zero_le _) 0

theorem foldl_nest_le_peakFrom (depth : Nat) (ls : List Lexeme) :
    ls.foldl Lexeme.nest depth ≤ peakFrom depth ls := by
  induction ls generalizing depth with
  | nil => exact Nat.le_refl _
  | cons l ls ih => exact Nat.le_trans (ih _) (Nat.le_max_right ..)

/-- A limit is first exceeded by one, and by an opening bracket. -/
theorem Lexeme.opens_of_exceeds (within : depth ≤ limit) (exceeds : limit < nest depth l) :
    l.opens ∧ l.nest depth = limit + 1 := by
  rw [nest] at exceeds ⊢
  split at exceeds
  case isTrue opens => exact ⟨opens, by rw [if_pos opens]; omega⟩
  case isFalse => split at exceeds <;> omega

/-- The lexeme of the index exceeds the limit, and none before it does. -/
theorem exists_of_overflowFrom? (within : depth ≤ limit)
    (exceeded : overflowFrom? limit depth index ls = some place) :
    ∃ front l rest, ls = front ++ l :: rest ∧ place = index + front.length ∧
      peakFrom depth front ≤ limit ∧ limit < l.nest (front.foldl Lexeme.nest depth) := by
  induction ls generalizing depth index with
  | nil => cases exceeded
  | cons l ls ih =>
    rw [overflowFrom?] at exceeded
    split at exceeded
    case isTrue beyond =>
      obtain rfl : index = place := by simpa using exceeded
      exact ⟨[], l, ls, rfl, rfl, within, beyond⟩
    case isFalse short =>
      obtain ⟨front, m, rest, rfl, rfl, inside, beyond⟩ := ih (Nat.le_of_not_lt short) exceeded
      exact ⟨l :: front, m, rest, rfl, by simp; omega, Nat.max_le.mpr ⟨within, inside⟩, beyond⟩

theorem exists_of_overflow? (exceeded : overflow? limit ls = some place) :
    ∃ front l rest, ls = front ++ l :: rest ∧ place = front.length ∧ peak front ≤ limit ∧
      l.opens ∧ l.nest (front.foldl Lexeme.nest 0) = limit + 1 := by
  obtain ⟨front, l, rest, split, index, inside, beyond⟩ :=
    exists_of_overflowFrom? (Nat.zero_le _) exceeded
  have short := Nat.le_trans (foldl_nest_le_peakFrom 0 front) inside
  exact ⟨front, l, rest, split, by simpa using index, inside, Lexeme.opens_of_exceeds short beyond⟩

namespace Text

theorem nest_of_isBlank (blank : isBlank c) (depth : Nat) : nest depth c = depth := by
  simp only [isBlank, Bool.or_eq_true, beq_iff_eq] at blank
  rcases blank with ((rfl | rfl) | rfl) | rfl <;> rfl

theorem nest_of_isWordChar (letter : isWordChar c) (depth : Nat) : nest depth c = depth := by
  have other (d : Char) (mark : ¬isWordChar d) : c ≠ d := by
    rintro rfl
    exact mark letter
  simp [nest, other '(' (by decide), other '\x7b' (by decide), other ')' (by decide),
    other '\x7d' (by decide)]

theorem nest_mark (depth : Nat) (c : Char) : (Lexeme.mark c).nest depth = nest depth c := by
  simp [Lexeme.nest, Lexeme.opens, Lexeme.closes, nest]

section Prefixes

variable {step : Nat → Char → Nat}

/-- The count goes on behind the first character of a text that does not exceed the limit. -/
theorem forall_prefix_cons (depth : Nat) (c : Char) (cs : List Char) :
    (∀ before, before <+: c :: cs → before.foldl step depth ≤ limit) ↔
      depth ≤ limit ∧ ∀ before, before <+: cs → before.foldl step (step depth c) ≤ limit := by
  simp only [List.prefix_cons_iff]
  constructor
  · intro within
    exact ⟨within [] (.inl rfl), fun before front => within (c :: before) (.inr ⟨_, rfl, front⟩)⟩
  · rintro ⟨bound, within⟩ before (rfl | ⟨before, rfl, front⟩)
    · exact bound
    · exact within before front

/-- Characters that do not count make no difference in front of a text. -/
theorem forall_prefix_append (depth : Nat) (still : ∀ c ∈ skipped, step depth c = depth)
    (text : List Char) :
    (∀ before, before <+: skipped ++ text → before.foldl step depth ≤ limit) ↔
      ∀ before, before <+: text → before.foldl step depth ≤ limit := by
  induction skipped with
  | nil => rfl
  | cons c cs ih =>
    rw [List.cons_append, forall_prefix_cons, still c (by simp),
      ih fun d member => still d (List.mem_cons_of_mem c member)]
    exact and_iff_right_of_imp fun within => within [] text.nil_prefix

end Prefixes

end Text

theorem Spaced.peakFrom_le_iff (spaced : Spaced text ls) (depth limit : Nat) :
    peakFrom depth ls ≤ limit ↔
      ∀ before, before <+: text → before.foldl Text.nest depth ≤ limit := by
  induction spaced generalizing depth with
  | nil => simp [peakFrom]
  | @blank text _ c blank _ ih =>
    have still : ∀ d ∈ [c], Text.nest depth d = depth := by simpa using Text.nest_of_isBlank blank depth
    rw [ih, ← Text.forall_prefix_append depth still text, List.singleton_append]
  | mark c _ _ _ ih => rw [Text.forall_prefix_cons, ← ih, peakFrom, Text.nest_mark, Nat.max_le]
  | @word text ls letters _ word _ _ ih =>
    have still : ∀ d ∈ letters, Text.nest depth d = depth := fun d member =>
      Text.nest_of_isWordChar (word d member) depth
    have same : peakFrom depth (.word letters :: ls) = peakFrom depth ls :=
      Nat.max_eq_right (le_peakFrom depth ls)
    rw [same, ih, Text.forall_prefix_append depth still text]

theorem Spaced.foldl_nest (spaced : Spaced text ls) (depth : Nat) :
    text.foldl Text.nest depth = ls.foldl Lexeme.nest depth := by
  induction spaced generalizing depth with
  | nil => rfl
  | blank c blank _ ih => rw [List.foldl_cons, Text.nest_of_isBlank blank, ih]
  | mark c _ _ _ ih => rw [List.foldl_cons, List.foldl_cons, Text.nest_mark, ih]
  | word letters _ word _ _ ih =>
    have still : letters.foldl Text.nest depth = depth :=
      List.foldlRecOn letters Text.nest (motive := (· = depth)) rfl fun _ same c member => by
        rw [same, Text.nest_of_isWordChar (word c member)]
    rw [List.foldl_append, still, ih]
    rfl

/-- The guard on the lexemes of a text keeps to the nesting of the text itself. -/
theorem peak_le_iff (spaced : Spaced text ls) : peak ls ≤ limit ↔ Text.NestsWithin limit text :=
  spaced.peakFrom_le_iff 0 limit

end SessionSyntax
