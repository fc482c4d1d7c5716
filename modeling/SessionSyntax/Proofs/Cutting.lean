import SessionSyntax.Proofs.Lines
import SessionSyntax.Proofs.Tokens

/-! Texts cut between two lexemes. The tokens of both halves are those of the whole, so that the
offsets of a token are the sizes of what stands before it and up to its end. -/
namespace SessionSyntax

/-- The text falls into two halves, and so do its lexemes and its tokens. -/
structure Cut (text before after : List Char) (front rest : List Lexeme) : Prop where
  split : text = before ++ after
  ahead : Spaced before front
  behind : Spaced after rest
  tokens : ∀ start, Token.scan start text =
    Token.scan start before ++ Token.scan (start + Text.size before) after

namespace Cut

theorem none (spaced : Spaced text ls) : Cut text [] text [] ls :=
  ⟨rfl, .nil, spaced, fun _ => rfl⟩

theorem blank (cut : Cut text before after front rest) (blank : isBlank c) :
    Cut (c :: text) (c :: before) after front rest := by
  refine ⟨by rw [cut.split]; rfl, .blank c blank cut.ahead, cut.behind, fun start => ?_⟩
  simp only [Token.scan, if_pos blank, cut.tokens, Text.size, Nat.add_assoc]

theorem mark (cut : Cut text before after front rest) (unblank : ¬isBlank c)
    (apart : ¬isWordChar c) : Cut (c :: text) (c :: before) after (.mark c :: front) rest := by
  refine ⟨by rw [cut.split]; rfl, .mark c unblank apart cut.ahead, cut.behind, fun start => ?_⟩
  simp only [Token.scan, if_neg unblank, if_neg apart, cut.tokens, Text.size, Nat.add_assoc,
    List.cons_append]

theorem word (cut : Cut text before after front rest) (filled : letters ≠ [])
    (letter : ∀ c ∈ letters, isWordChar c) (apart : ∀ c, text.head? = some c → ¬isWordChar c) :
    Cut (letters ++ text) (letters ++ before) after (.word letters :: front) rest := by
  have inner : ∀ c, before.head? = some c → ¬isWordChar c := by
    intro c head
    refine apart c ?_
    rw [cut.split, List.head?_append, head, Option.some_or]
  refine ⟨by rw [cut.split, List.append_assoc], .word letters filled letter inner cut.ahead,
    cut.behind, fun start => ?_⟩
  rw [Token.scan_word start filled letter apart, Token.scan_word start filled letter inner,
    cut.tokens, Text.size_append, Nat.add_assoc]
  rfl

end Cut

theorem unindented_word (filled : letters ≠ []) (letter : ∀ c ∈ letters, isWordChar c)
    (text : List Char) : Unindented (letters ++ text) := by
  intro c head
  cases letters with
  | nil => exact absurd rfl filled
  | cons d ds =>
    obtain rfl : d = c := by simpa using head
    exact not_isBlank_of_isWordChar (letter d (by simp))

/-- A text can be cut before any of its lexemes. -/
theorem Spaced.cut_start (spaced : Spaced text ls) (split : ls = front ++ rest) (filled : rest ≠ []) :
    ∃ before after, Cut text before after front rest ∧ Unindented after := by
  induction spaced generalizing front with
  | nil => exact absurd (List.append_eq_nil_iff.mp split.symm).2 filled
  | blank c blank _ ih =>
    obtain ⟨before, after, cut, tight⟩ := ih split
    exact ⟨_, _, cut.blank blank, tight⟩
  | @mark text ls c unblank apart spaced ih =>
    rcases List.cons_eq_append_iff.mp split with ⟨rfl, rfl⟩ | ⟨front, rfl, others⟩
    · exact ⟨_, _, Cut.none (.mark c unblank apart spaced), by simpa [Unindented] using unblank⟩
    · obtain ⟨before, after, cut, tight⟩ := ih others
      exact ⟨_, _, cut.mark unblank apart, tight⟩
  | @word text ls letters named letter apart spaced ih =>
    rcases List.cons_eq_append_iff.mp split with ⟨rfl, rfl⟩ | ⟨front, rfl, others⟩
    · exact ⟨_, _, Cut.none (.word letters named letter apart spaced),
        unindented_word named letter text⟩
    · obtain ⟨before, after, cut, tight⟩ := ih others
      exact ⟨_, _, cut.word named letter apart, tight⟩

theorem trimmed_append (ends : Trimmed before) (tight : Trimmed after) :
    Trimmed (before ++ after) := by
  intro c last
  rw [List.getLast?_append] at last
  rcases Option.or_eq_some_iff.mp last with last | ⟨_, last⟩
  · exact tight c last
  · exact ends c last

theorem trimmed_word (letter : ∀ c ∈ letters, isWordChar c) : Trimmed letters :=
  fun c last => not_isBlank_of_isWordChar (letter c (List.mem_of_getLast? last))

theorem Spaced.filled (spaced : Spaced text ls) (filled : ls ≠ []) : text ≠ [] := by
  rintro rfl
  generalize none : [] = text at spaced
  cases spaced with
  | nil => exact filled rfl
  | blank | mark => cases none
  | word letters named => exact named (List.append_eq_nil_iff.mp none.symm).1

/-- Where no lexeme stands there are only blanks. -/
theorem Spaced.blank_of_nil (spaced : Spaced text []) : ∀ c ∈ text, isBlank c := by
  generalize none : [] = ls at spaced
  induction spaced with
  | nil => simp
  | blank c blank _ ih => simpa [blank] using ih none
  | mark | word => cases none

/-- A text can be cut behind any of its lexemes, and before all of them. -/
theorem Spaced.cut_stop (spaced : Spaced text ls) (split : ls = front ++ rest) :
    ∃ before after, Cut text before after front rest ∧ Trimmed before := by
  induction spaced generalizing front with
  | nil =>
    obtain ⟨rfl, rfl⟩ := List.append_eq_nil_iff.mp split.symm
    exact ⟨_, _, Cut.none .nil, by simp [Trimmed]⟩
  | blank c blank spaced ih =>
    by_cases empty : front = []
    · subst empty
      subst split
      exact ⟨_, _, Cut.none (.blank c blank spaced), by simp [Trimmed]⟩
    · obtain ⟨before, after, cut, tight⟩ := ih split
      obtain ⟨d, ds, rfl⟩ := List.exists_cons_of_ne_nil (cut.ahead.filled empty)
      exact ⟨_, _, cut.blank blank, by simpa [Trimmed] using tight⟩
  | @mark text ls c unblank apart spaced ih =>
    rcases List.cons_eq_append_iff.mp split with ⟨rfl, rfl⟩ | ⟨front, rfl, others⟩
    · exact ⟨_, _, Cut.none (.mark c unblank apart spaced), by simp [Trimmed]⟩
    · obtain ⟨before, after, cut, tight⟩ := ih others
      have ends : Trimmed [c] := by simpa [Trimmed] using unblank
      exact ⟨_, _, cut.mark unblank apart, trimmed_append ends tight⟩
  | @word text ls letters named letter apart spaced ih =>
    rcases List.cons_eq_append_iff.mp split with ⟨rfl, rfl⟩ | ⟨front, rfl, others⟩
    · exact ⟨_, _, Cut.none (.word letters named letter apart spaced), by simp [Trimmed]⟩
    · obtain ⟨before, after, cut, tight⟩ := ih others
      exact ⟨_, _, cut.word named letter apart, trimmed_append (trimmed_word letter) tight⟩

theorem Spaced.length_scan (spaced : Spaced text ls) (start : Nat) :
    (Token.scan start text).length = ls.length := by
  rw [← spaced.lexemes_scan start, List.length_map]

/-- In a text that begins with no blank the first lexeme takes up the first characters. -/
theorem Spaced.first_token (spaced : Spaced text (l :: ls)) (tight : Unindented text) :
    ∃ behind, text = l.chars ++ behind ∧ Spaced behind ls ∧
      ∀ start, Token.scan start text = ⟨l, start, start + Text.size l.chars⟩ ::
        Token.scan (start + Text.size l.chars) behind := by
  cases spaced with
  | blank c blank => exact absurd blank (tight c rfl)
  | @mark text _ c unblank apart spaced =>
    refine ⟨text, rfl, spaced, fun start => ?_⟩
    simp [Token.scan, unblank, apart, Lexeme.chars, Text.size]
  | @word text _ letters named letter apart spaced =>
    exact ⟨text, rfl, spaced, fun start => Token.scan_word start named letter apart⟩

theorem Spaced.eq_nil_of_trimmed (spaced : Spaced behind []) (tight : Trimmed (front ++ behind)) :
    behind = [] := by
  rcases List.eq_nil_or_concat behind with empty | ⟨blanks, c, rfl⟩
  · exact empty
  · have blank := spaced.blank_of_nil c (by simp)
    exact absurd blank (tight c (by simp [← List.append_assoc]))

/-- A single lexeme is written as it is. -/
theorem Spaced.eq_chars (spaced : Spaced text [l]) (begins : Unindented text) (ends : Trimmed text) :
    text = l.chars := by
  obtain ⟨behind, rfl, none, _⟩ := spaced.first_token begins
  rw [none.eq_nil_of_trimmed ends, List.append_nil]

/-- In a text that ends with no blank the last lexeme takes up the last characters. -/
theorem Spaced.last_token (spaced : Spaced text (front ++ [l])) (tight : Trimmed text) (start : Nat) :
    ∃ first, (Token.scan start text).getLast? = some ⟨l, first, start + Text.size text⟩ := by
  obtain ⟨before, after, cut, begins⟩ := spaced.cut_start rfl (by simp)
  obtain ⟨behind, rfl, none, tokens⟩ := cut.behind.first_token begins
  rw [cut.split, ← List.append_assoc] at tight
  obtain rfl := none.eq_nil_of_trimmed tight
  refine ⟨start + Text.size before, ?_⟩
  rw [cut.tokens, tokens, cut.split]
  simp [Token.scan, Text.size_append, Nat.add_assoc]

theorem Spaced.scan_nil (spaced : Spaced text []) (start : Nat) : Token.scan start text = [] :=
  List.eq_nil_of_length_eq_zero (spaced.length_scan start)

namespace Source

variable {text : String} {ls front inner rest : List Lexeme}

theorem slice_eq (split : text.toList = before ++ inside ++ after) :
    (ofText text).slice (Text.size before) (Text.size (before ++ inside)) = String.ofList inside := by
  obtain ⟨start, stop⟩ := Text.upTo_piece split
  simp only [slice, ofText, start, stop, List.drop_left]

theorem startOf_cut (cut : Cut text.toList before after front rest) (tight : Unindented after)
    (filled : rest ≠ []) : (ofText text).startOf front.length = Text.size before := by
  obtain ⟨l, others, rfl⟩ := List.exists_cons_of_ne_nil filled
  obtain ⟨_, _, _, tokens⟩ := cut.behind.first_token tight
  simp [startOf, ofText, cut.tokens, tokens, cut.ahead.length_scan 0]

/-- The lexemes between two others are written from where the first of them starts to where the last
one ends. -/
theorem exists_stretch (spaced : Spaced text.toList (front ++ inner ++ rest)) (filled : inner ≠ []) :
    ∃ before inside after, text.toList = before ++ inside ++ after ∧ Unindented inside ∧
      Trimmed inside ∧ Spaced before front ∧ Spaced inside inner ∧ Spaced after rest ∧
      (ofText text).startOf front.length = Text.size before ∧
      (ofText text).stopOf (front.length + inner.length - 1) = Text.size (before ++ inside) := by
  rw [List.append_assoc] at spaced
  obtain ⟨before, behind, cut, begins⟩ := spaced.cut_start rfl (by simp [filled])
  obtain ⟨inside, after, stretch, ends⟩ := cut.behind.cut_stop rfl
  have start := startOf_cut cut begins (by simp [filled])
  refine ⟨before, inside, after, by rw [cut.split, stretch.split, List.append_assoc], ?_, ends,
    cut.ahead, stretch.ahead, stretch.behind, start, ?_⟩
  · intro c head
    refine begins c ?_
    rw [stretch.split, List.head?_append, head, Option.some_or]
  · rcases List.eq_nil_or_concat inner with empty | ⟨others, l, rfl⟩
    · exact absurd empty filled
    rw [List.concat_eq_append] at stretch ⊢
    obtain ⟨first, last⟩ := stretch.ahead.last_token ends (Text.size before)
    have ahead := cut.ahead.length_scan 0
    have count := stretch.ahead.length_scan (Text.size before)
    rw [List.length_append, List.length_singleton] at count ⊢
    have token : (ofText text).tokens[front.length + others.length]? =
        some ⟨l, first, Text.size before + Text.size inside⟩ := by
      rw [List.getLast?_eq_getElem?, count, Nat.add_sub_cancel] at last
      rw [ofText, cut.tokens, stretch.tokens, ← ahead, List.getElem?_append_right (Nat.le_add_right ..),
        Nat.add_sub_cancel_left, Nat.zero_add, List.getElem?_append_left (by omega), last]
    rw [← Nat.add_assoc, Nat.add_sub_cancel, stopOf, token, Text.size_append]

/-- The content of a text ends where its last lexeme does. -/
theorem contentEnd_eq (spaced : Spaced text.toList ls) (filled : ls ≠ []) :
    ∃ before after, Cut text.toList before after ls [] ∧ Trimmed before ∧
      (ofText text).contentEnd = Text.size before := by
  obtain ⟨before, after, cut, tight⟩ := spaced.cut_stop (List.append_nil ls).symm
  refine ⟨before, after, cut, tight, ?_⟩
  rcases List.eq_nil_or_concat ls with empty | ⟨front, l, rfl⟩
  · exact absurd empty filled
  rw [List.concat_eq_append] at cut
  obtain ⟨start, last⟩ := cut.ahead.last_token tight 0
  simp [contentEnd, ofText, cut.tokens, cut.behind.scan_nil, last]

theorem startOf_beyond (spaced : Spaced text.toList ls) (beyond : ls.length ≤ index) :
    (ofText text).startOf index = (ofText text).contentEnd := by
  have absent : (ofText text).tokens[index]? = none := by
    simpa [ofText, spaced.length_scan] using beyond
  simp [startOf, absent]

/-- Every index is that of a place, which starts at the offset that is told for it. -/
theorem standsAt_startOf (spaced : Spaced text.toList ls) (index : Nat) :
    StandsAt text.toList ls index ((ofText text).startOf index) := by
  by_cases inside : index < ls.length
  · have filled : ls.drop index ≠ [] := by simpa using inside
    obtain ⟨before, after, cut, tight⟩ := spaced.cut_start (List.take_append_drop ..).symm filled
    have start := startOf_cut cut tight filled
    rw [List.length_take_of_le (Nat.le_of_lt inside)] at start
    refine ⟨before, after, ⟨cut.split, cut.ahead, cut.behind, fun _ => tight, ?_, ?_⟩, start⟩
    · exact fun _ beyond => absurd inside (Nat.not_lt.mpr beyond)
    · rintro rfl
      exact absurd inside (Nat.not_lt_zero index)
  have beyond : ls.length ≤ index := Nat.le_of_not_lt inside
  have front : ls.take index = ls := List.take_of_length_le beyond
  have rest : ls.drop index = [] := List.drop_of_length_le beyond
  rw [startOf_beyond spaced beyond]
  by_cases filled : ls = []
  · subst filled
    refine ⟨text.toList, [], ⟨by simp, by simpa using spaced, by simpa using Spaced.nil, ?_, ?_, ?_⟩,
      ?_⟩
    · exact fun short => absurd short inside
    · exact fun filled => absurd rfl filled
    · exact fun _ => rfl
    · simp [contentEnd, ofText, spaced.scan_nil]
  · obtain ⟨before, after, cut, tight, stop⟩ := contentEnd_eq spaced filled
    refine ⟨before, after, ⟨cut.split, by rw [front]; exact cut.ahead,
      by rw [rest]; exact cut.behind, ?_, ?_, ?_⟩, stop⟩
    · exact fun short => absurd short inside
    · exact fun _ _ => tight
    · exact fun empty => absurd empty filled

end Source

theorem Spaced.filter_eq (spaced : Spaced text ls) :
    text.filter (!isBlank ·) = ls.flatMap Lexeme.chars := by
  induction spaced with
  | nil => rfl
  | blank c blank _ ih => simpa [blank] using ih
  | mark c unblank _ _ ih => simp [unblank, ih, Lexeme.chars]
  | word letters _ letter _ _ ih =>
    have kept : letters.filter (!isBlank ·) = letters :=
      List.filter_eq_self.mpr fun c member => by simpa using not_isBlank_of_isWordChar (letter c member)
    rw [List.filter_append, kept, ih]
    rfl

theorem Spaced.chars_ne_nil (spaced : Spaced text ls) : ∀ l ∈ ls, l.chars ≠ [] := by
  induction spaced with
  | nil => simp
  | blank _ _ _ ih => exact ih
  | mark c _ _ _ ih => simpa [Lexeme.chars] using ih
  | word letters named _ _ _ ih => simpa [Lexeme.chars, named] using ih

theorem Lexeme.first?_eq_head? (l : Lexeme) : l.first? = l.chars.head? := by
  cases l <;> rfl

theorem Text.size_pos (filled : text ≠ []) : 0 < size text := by
  obtain ⟨c, cs, rfl⟩ := List.exists_cons_of_ne_nil filled
  exact Nat.lt_of_lt_of_le c.utf8Size_pos (Nat.le_add_right ..)

theorem Place.prefixes (one : Place text ls index before after)
    (two : Place text ls later longer last) : before <+: longer ∨ longer <+: before :=
  List.prefix_or_prefix_of_prefix ⟨after, one.split.symm⟩ ⟨last, two.split.symm⟩

/-- Of two beginnings of a text, the one with fewer lexemes is shorter. -/
theorem Spaced.size_lt (one : Spaced before (ls.take fewer)) (two : Spaced longer (ls.take more))
    (prefixes : before <+: longer ∨ longer <+: before) (spaced : Spaced text ls)
    (lt : fewer < more) (inside : fewer < ls.length) : Text.size before < Text.size longer := by
  have chars : (before.filter (!isBlank ·)).length < (longer.filter (!isBlank ·)).length := by
    obtain ⟨k, rfl⟩ : ∃ k, more = fewer + (k + 1) := ⟨more - fewer - 1, by omega⟩
    have filled := List.length_pos_iff.mpr (spaced.chars_ne_nil ls[fewer] (List.getElem_mem inside))
    rw [one.filter_eq, two.filter_eq, List.take_add, List.drop_eq_getElem_cons inside,
      List.take_succ_cons, List.flatMap_append, List.flatMap_cons]
    simp only [List.length_append]
    omega
  rcases prefixes with ⟨between, rfl⟩ | ⟨between, rfl⟩
  · have filled : between ≠ [] := by
      rintro rfl
      simp at chars
    have := Text.size_pos filled
    rw [Text.size_append]
    omega
  · rw [List.filter_append, List.length_append] at chars
    omega

/-- What stands before the place of a lexeme is shorter than what stands before any place behind it. -/
theorem Place.lt (one : Place text ls index before after) (two : Place text ls later longer last)
    (spaced : Spaced text ls) (behind : index < later) (inside : index < ls.length) :
    Text.size before < Text.size longer :=
  one.front.size_lt two.front (one.prefixes two) spaced behind inside

theorem Place.eq_of_prefix (one : Place text ls index before after)
    (two : Place text ls index longer last) (front : before <+: longer) : before = longer := by
  obtain ⟨between, rfl⟩ := front
  have blanks : ∀ c ∈ between, isBlank c := by
    have same := one.front.filter_eq.trans two.front.filter_eq.symm
    rw [List.filter_append, List.self_eq_append_right, List.filter_eq_nil_iff] at same
    simpa using same
  have tail : after = between ++ last := by
    have same := one.split.symm.trans two.split
    rwa [List.append_assoc, List.append_cancel_left_eq] at same
  by_cases inside : index < ls.length
  · cases between with
    | nil => simp
    | cons c cs =>
      have tight := one.start inside c (by simp [tail])
      exact absurd (blanks c (by simp)) tight
  by_cases filled : ls = []
  · have none := one.blank filled
    simp_all
  · rcases List.eq_nil_or_concat between with rfl | ⟨front, c, rfl⟩
    · simp
    · have tight := two.finish filled (Nat.le_of_not_lt inside) c (by simp)
      exact absurd (blanks c (by simp)) tight

theorem StandsAt.unique (one : StandsAt text ls index offset) (two : StandsAt text ls index other) :
    offset = other := by
  obtain ⟨before, after, here, rfl⟩ := one
  obtain ⟨longer, last, there, rfl⟩ := two
  rcases here.prefixes there with front | front
  · rw [here.eq_of_prefix there front]
  · rw [there.eq_of_prefix here front]

theorem StandsAt.lt (one : StandsAt text ls index offset) (two : StandsAt text ls later other)
    (spaced : Spaced text ls) (behind : index < later) (inside : index < ls.length) :
    offset < other := by
  obtain ⟨before, after, here, rfl⟩ := one
  obtain ⟨longer, last, there, rfl⟩ := two
  exact here.lt there spaced behind inside

end SessionSyntax
