import SessionSyntax.LexemeReader
import SessionSyntax.Proofs.Seams

/-! What rules find on the characters of a text, and where. The classes of characters that the grammar
is written with are those of the symbols and of the blanks around a text; so an atomic rule takes just
the identifier that begins a text, up to where no word could go on. Putting aside the blanks around a
text takes no lexeme away, and skipping blanks leads to where the next lexeme starts; so the places
where rules are tried are those of the lexemes, in the same order. -/
namespace SessionSyntax

namespace Scanner

theorem isWhitespace_eq : isWhitespace = isBlank := rfl

theorem isLetter_eq (c : Char) : isLetter c = c.isAlpha := by
  have upper : c.isUpper = ('A' ≤ c && c ≤ 'Z') := Bool.decide_and ..
  have lower : c.isLower = ('a' ≤ c && c ≤ 'z') := rfl
  rw [isLetter, ← lower, ← upper]
  exact Bool.or_comm ..

theorem isDigit_eq (c : Char) : isDigit c = c.isDigit := rfl

theorem isIdentChar_eq : isIdentChar = isWordChar := by
  funext c
  rw [isIdentChar, isWordChar, Char.isAlphanum, isLetter_eq, isDigit_eq, Bool.or_comm c.isDigit]

variable {accept : Char → Bool} {text letters rest : List Char}

theorem one_eq_some_iff :
    one accept text = some (letters, rest) ↔ ∃ c, accept c ∧ letters = [c] ∧ text = c :: rest := by
  cases text with
  | nil => simp [one]
  | cons c cs =>
    by_cases accepted : accept c
    · simp only [one, accepted, ↓reduceIte, Option.some.injEq, Prod.mk.injEq, List.cons.injEq]
      constructor
      · rintro ⟨rfl, rfl⟩
        exact ⟨c, accepted, rfl, rfl, rfl⟩
      · rintro ⟨d, _, rfl, rfl, rfl⟩
        exact ⟨rfl, rfl⟩
    · simp only [one, accepted, Bool.false_eq_true, ↓reduceIte, reduceCtorEq, false_iff]
      rintro ⟨d, kept, _, same⟩
      obtain ⟨rfl, _⟩ := List.cons.inj same
      exact accepted kept

/-- A run of accepted characters is taken as far as it goes. -/
theorem many_eq_some_iff :
    many accept text = some (letters, rest) ↔ text = letters ++ rest ∧ (∀ c ∈ letters, accept c) ∧
      ∀ c, rest.head? = some c → ¬accept c := by
  simp only [many, Option.some.injEq, Prod.mk.injEq]
  constructor
  · rintro ⟨rfl, rfl⟩
    refine ⟨List.takeWhile_append_dropWhile.symm, fun c member => List.mem_takeWhile_imp member, ?_⟩
    intro c head
    have stops := List.head?_dropWhile_not accept text
    simpa [head] using stops
  · rintro ⟨rfl, run, stops⟩
    rw [List.takeWhile_append_of_pos run, List.dropWhile_append_of_pos run]
    cases rest with
    | nil => simp
    | cons c cs =>
      have other : ¬accept c := stops c rfl
      rw [List.takeWhile_cons_of_neg other, List.dropWhile_cons_of_neg other, List.append_nil]
      exact ⟨rfl, rfl⟩

/-- A text begins with one run that goes as far as accepted characters do. -/
theorem run_unique {taken behind : List Char} (run : ∀ c ∈ letters, accept c)
    (stops : ∀ c, rest.head? = some c → ¬accept c) (again : ∀ c ∈ taken, accept c)
    (ends : ∀ c, behind.head? = some c → ¬accept c) (same : letters ++ rest = taken ++ behind) :
    letters = taken := by
  have one := many_eq_some_iff.mpr ⟨rfl, run, stops⟩
  have two := many_eq_some_iff.mpr ⟨same, again, ends⟩
  exact (Prod.mk.inj (Option.some.inj (one.symm.trans two))).1

theorem exactly_eq_some_iff (word : List Char) :
    exactly word text = some (letters, rest) ↔ letters = word ∧ text = word ++ rest := by
  rw [exactly]
  by_cases begins : word <+: text
  · obtain ⟨behind, rfl⟩ := begins
    simp [@eq_comm _ letters]
  · rw [if_neg (by simpa using begins)]
    refine iff_of_false (by simp) ?_
    rintro ⟨_, rfl⟩
    exact begins ⟨rest, rfl⟩

theorem notBefore_eq_some_iff :
    notBefore accept text = some (letters, rest) ↔
      letters = [] ∧ rest = text ∧ ∀ c, text.head? = some c → ¬accept c := by
  rw [notBefore]
  split
  case isTrue follows =>
    obtain ⟨c, head, accepted⟩ := Option.any_eq_true .. |>.mp follows
    exact iff_of_false (by simp) fun stops => stops.2.2 c head accepted
  case isFalse free =>
    have stops : ∀ c, text.head? = some c → ¬accept c := fun c head accepted =>
      free (by rw [head]; exact accepted)
    simp only [Option.some.injEq, Prod.mk.injEq, @eq_comm _ [], @eq_comm _ text]
    exact ⟨fun taken => ⟨taken.1, taken.2, stops⟩, fun taken => ⟨taken.1, taken.2.1⟩⟩

theorem andThen_eq_some_iff {first second : Scanner} :
    andThen first second text = some (letters, rest) ↔ ∃ front behind back,
      first text = some (front, behind) ∧ second behind = some (back, rest) ∧
        letters = front ++ back := by
  simp [andThen, Option.bind_eq_some_iff, @eq_comm _ letters]

/-- An identifier is taken as far as words go. -/
theorem identifier_eq_some_iff :
    identifier text = some (letters, rest) ↔ text = letters ++ rest ∧ isIdentifier letters ∧
      ∀ c, rest.head? = some c → ¬isWordChar c := by
  have begins (c : Char) : (isLetter c || c == '_') = isWordStart c := by rw [isLetter_eq, isWordStart]
  simp only [identifier, andThen_eq_some_iff, one_eq_some_iff, many_eq_some_iff, begins,
    isIdentChar_eq]
  constructor
  · rintro ⟨_, _, others, ⟨c, start, rfl, rfl⟩, ⟨rfl, run, stops⟩, rfl⟩
    exact ⟨rfl, isIdentifier_cons_iff.mpr ⟨start, run⟩, stops⟩
  · rintro ⟨rfl, named, stops⟩
    cases letters with
    | nil => cases named
    | cons c cs =>
      obtain ⟨start, run⟩ := isIdentifier_cons_iff.mp named
      exact ⟨_, _, cs, ⟨c, start, rfl, rfl⟩, ⟨rfl, run, stops⟩, rfl⟩

/-- The word that ends a session is taken where no word goes on behind it. -/
theorem endWord_eq_some_iff :
    endWord text = some (letters, rest) ↔ letters = Session.endWord.toList ∧
      text = letters ++ rest ∧ ∀ c, rest.head? = some c → ¬isWordChar c := by
  simp only [endWord, andThen_eq_some_iff, exactly_eq_some_iff, notBefore_eq_some_iff,
    isIdentChar_eq]
  constructor
  · rintro ⟨_, behind, _, ⟨rfl, rfl⟩, ⟨rfl, rfl, stops⟩, rfl⟩
    exact ⟨List.append_nil _, by rw [List.append_nil], stops⟩
  · rintro ⟨rfl, rfl, stops⟩
    exact ⟨_, rest, [], ⟨rfl, rfl⟩, ⟨rfl, rfl, stops⟩, (List.append_nil _).symm⟩

end Scanner

namespace Rule

theorem blanks_eq (here : Cursor Char) (frontier : Frontier) : blanks here frontier =
    ⟨some ((), ⟨here.index + Text.size (here.rest.takeWhile isBlank), here.rest.dropWhile isBlank⟩),
      frontier⟩ := by
  rw [blanks, Scanner.isWhitespace_eq]

theorem of_found_literal {frontier : Frontier}
    (found : (literal c here frontier).found = some (place, there)) :
    place = here.index ∧ here.rest = c :: there.rest ∧ there.index = here.index + c.utf8Size := by
  rcases here with ⟨index, _ | ⟨d, rest⟩⟩
  · simp [literal] at found
  · by_cases same : c = d
    · simp only [literal, same, ↓reduceIte, Option.some.injEq, Prod.mk.injEq] at found
      obtain ⟨rfl, rfl⟩ := found
      exact ⟨rfl, by rw [same], by rw [same]⟩
    · simp [literal, same] at found

theorem of_found_atomic {frontier : Frontier}
    (found : (atomic scanner here frontier).found = some (word, there)) :
    scanner here.rest = some (word.letters, there.rest) ∧ word.index = here.index ∧
      there.index = here.index + Text.size word.letters := by
  cases taken : scanner here.rest with
  | none => simp [atomic, taken] at found
  | some result =>
    simp only [atomic, taken, Option.some.injEq, Prod.mk.injEq] at found
    obtain ⟨rfl, rfl⟩ := found
    exact ⟨rfl, rfl, rfl⟩

end Rule

theorem Token.scan_append_left (blank : ∀ c ∈ blanks, isBlank c) (start : Nat) (text : List Char) :
    scan start (blanks ++ text) = scan (start + Text.size blanks) text := by
  induction blanks generalizing start with
  | nil => rfl
  | cons c cs ih =>
    rw [List.cons_append, scan, if_pos (blank c (by simp)),
      ih fun d member => blank d (List.mem_cons_of_mem c member), Text.size, Nat.add_assoc]

theorem Token.scan_append_right (blank : ∀ c ∈ blanks, isBlank c) (start : Nat) (text : List Char) :
    scan start (text ++ blanks) = scan start text := by
  induction text generalizing start with
  | nil =>
    have none := Token.scan_append_left blank start []
    rwa [List.append_nil] at none
  | cons c cs ih => simp only [List.cons_append, scan, ih]

namespace Content

/-- The whole text with its tokens. -/
def source (content : Content) : Source := Source.ofText content.full

/-- The text is the whole one without the blanks at both ends. -/
structure Trims (content : Content) : Prop where
  split : ∃ front back, content.full.toList = front ++ content.text ++ back ∧
    content.offset = Text.size front ∧ (∀ c ∈ front, isBlank c) ∧ ∀ c ∈ back, isBlank c
  unindented : Unindented content.text
  trimmed : Trimmed content.text
  blank : content.text = [] → content.offset = Text.size content.full.toList

end Content

theorem unindented_dropWhile (text : List Char) : Unindented (text.dropWhile isBlank) := by
  intro c head
  have stops := List.head?_dropWhile_not isBlank text
  simpa [head] using stops

theorem Unindented.eq_nil (tight : Unindented text) (blank : ∀ c ∈ text, isBlank c) : text = [] := by
  cases text with
  | nil => rfl
  | cons c cs => exact absurd (blank c (by simp)) (tight c rfl)

theorem Content.trims_ofText (full : String) : (ofText full).Trims := by
  have begins := unindented_dropWhile full.toList
  have ahead : ∀ c ∈ full.toList.takeWhile isBlank, isBlank c :=
    fun c member => List.mem_takeWhile_imp member
  have whole : full.toList.takeWhile isBlank ++ full.toList.dropWhile isBlank = full.toList :=
    List.takeWhile_append_dropWhile
  simp only [ofText]
  generalize full.toList.dropWhile isBlank = text at begins whole
  generalize full.toList.takeWhile isBlank = front at ahead whole
  have offset : Text.size full.toList - Text.size text = Text.size front := by
    rw [← whole, Text.size_append, Nat.add_sub_cancel]
  have behind : ∀ c ∈ (text.reverse.takeWhile isBlank).reverse, isBlank c :=
    fun c member => List.mem_takeWhile_imp (List.mem_reverse.mp member)
  have halves : (text.reverse.dropWhile isBlank).reverse ++ (text.reverse.takeWhile isBlank).reverse =
      text := by
    rw [← List.reverse_append, List.takeWhile_append_dropWhile, List.reverse_reverse]
  refine ⟨⟨front, _, ?_, offset, ahead, behind⟩, ?_, ?_, ?_⟩
  · rw [List.append_assoc, halves, whole]
  · intro c head
    refine begins c ?_
    rw [← halves, List.head?_append, head, Option.some_or]
  · intro c last
    rw [List.getLast?_reverse] at last
    exact unindented_dropWhile _ c last
  · intro (none : (text.reverse.dropWhile isBlank).reverse = [])
    rw [none, List.nil_append] at halves
    obtain rfl := begins.eq_nil (halves ▸ behind)
    rfl

namespace Content.Trims

variable {content : Content}

theorem tokens (trims : content.Trims) :
    content.source.tokens = Token.scan content.offset content.text := by
  obtain ⟨front, back, split, offset, ahead, behind⟩ := trims.split
  rw [source, Source.ofText, split, List.append_assoc, Token.scan_append_left ahead, Nat.zero_add,
    Token.scan_append_right behind, offset]

theorem contentEnd (trims : content.Trims) :
    content.source.contentEnd = content.offset + Text.size content.text := by
  obtain ⟨ls, spaced⟩ := exists_spaced content.text
  rcases List.eq_nil_or_concat ls with rfl | ⟨front, l, rfl⟩
  · have none := trims.unindented.eq_nil spaced.blank_of_nil
    rw [Source.contentEnd, trims.tokens, none, trims.blank none]
    rfl
  · rw [List.concat_eq_append] at spaced
    obtain ⟨first, last⟩ := spaced.last_token trims.trimmed content.offset
    rw [Source.contentEnd, trims.tokens, last]

end Content.Trims

/-- The place in the text and the place among its lexemes are one and the same. Blanks may still be
between the place in the text and the next lexeme. -/
structure Content.Meets (content : Content) (here : Cursor Char) (there : Cursor Lexeme) : Prop where
  split : ∃ before, content.text = before ++ here.rest ∧ here.index = Text.size before
  tokens : content.source.tokens.drop there.index =
    Token.scan (content.offset + here.index) here.rest
  rest : there.rest = content.source.lexemes.drop there.index
  bound : there.index ≤ content.source.tokens.length

/-- The offset is that of the next lexeme, which has the index; or both are the end. -/
def Content.Settled (content : Content) (offset index : Nat) : Prop :=
  ∃ rest ls, content.Meets ⟨offset, rest⟩ ⟨index, ls⟩ ∧ Unindented rest

namespace Content.Meets

variable {content : Content} {here : Cursor Char} {there : Cursor Lexeme}

theorem initial (trims : content.Trims) :
    content.Meets ⟨0, content.text⟩ ⟨0, content.source.lexemes⟩ :=
  ⟨⟨[], rfl, rfl⟩, trims.tokens, rfl, Nat.zero_le _⟩

theorem settled (meets : content.Meets here there) (tight : Unindented here.rest) :
    content.Settled here.index there.index := ⟨here.rest, there.rest, meets, tight⟩

theorem lexemes (meets : content.Meets here there) :
    there.rest = (Token.scan (content.offset + here.index) here.rest).map (·.lexeme) := by
  rw [meets.rest, Source.lexemes, ← List.map_drop, meets.tokens]

theorem spaced (meets : content.Meets here there) : Spaced here.rest there.rest := by
  obtain ⟨ls, spaced⟩ := exists_spaced here.rest
  rwa [meets.lexemes, spaced.lexemes_scan]

theorem getElem?_tokens (meets : content.Meets here there) : content.source.tokens[there.index]? =
    (Token.scan (content.offset + here.index) here.rest).head? := by
  rw [← meets.tokens, List.head?_drop]

theorem blanks (meets : content.Meets here there) :
    content.Meets ⟨here.index + Text.size (here.rest.takeWhile isBlank),
      here.rest.dropWhile isBlank⟩ there := by
  obtain ⟨before, split, offset⟩ := meets.split
  have halves : here.rest.takeWhile isBlank ++ here.rest.dropWhile isBlank = here.rest :=
    List.takeWhile_append_dropWhile
  refine ⟨⟨before ++ here.rest.takeWhile isBlank, ?_, ?_⟩, ?_, meets.rest, meets.bound⟩
  · rw [List.append_assoc, halves, split]
  · rw [offset, Text.size_append]
  · have blank : ∀ c ∈ here.rest.takeWhile isBlank, isBlank c :=
      fun c member => List.mem_takeWhile_imp member
    rw [meets.tokens, ← Nat.add_assoc, ← Token.scan_append_left blank, halves]

/-- The token at the front of the text stands at the index. -/
theorem step (meets : content.Meets here there) (split : here.rest = taken ++ behind)
    (token : Token.scan (content.offset + here.index) here.rest =
      ⟨l, content.offset + here.index, content.offset + here.index + Text.size taken⟩ ::
        Token.scan (content.offset + here.index + Text.size taken) behind) :
    ∃ more, there.rest = l :: more ∧
      content.Meets ⟨here.index + Text.size taken, behind⟩ ⟨there.index + 1, more⟩ ∧
      content.source.startOf there.index = content.offset + here.index ∧
      content.source.stopOf there.index = content.offset + here.index + Text.size taken := by
  have at_index : content.source.tokens[there.index]? = _ :=
    meets.getElem?_tokens.trans (congrArg List.head? token)
  obtain ⟨before, whole, offset⟩ := meets.split
  refine ⟨_, meets.lexemes.trans (by rw [token, List.map_cons]), ⟨⟨before ++ taken, ?_, ?_⟩, ?_, ?_, ?_⟩,
    ?_, ?_⟩
  · rw [whole, split, List.append_assoc]
  · rw [offset, Text.size_append]
  · rw [← List.tail_drop, meets.tokens, token, List.tail_cons, Nat.add_assoc]
  · rw [Source.lexemes, ← List.map_drop, ← List.tail_drop, meets.tokens, token, List.tail_cons]
  · exact (List.getElem?_eq_some_iff.mp at_index).1
  · rw [Source.startOf, at_index]
    rfl
  · rw [Source.stopOf, at_index]
    rfl

/-- What follows in the text begins with the first character of the next lexeme. -/
theorem head? (meets : content.Meets here there) (tight : Unindented here.rest) :
    here.rest.head? = there.rest.head?.bind Lexeme.first? := by
  have spaced := meets.spaced
  cases stands : there.rest with
  | nil =>
    rw [stands] at spaced
    rw [tight.eq_nil spaced.blank_of_nil]
    rfl
  | cons l more =>
    rw [stands] at spaced
    obtain ⟨behind, split, _⟩ := spaced.first_token tight
    obtain ⟨c, cs, chars⟩ := List.exists_cons_of_ne_nil (spaced.chars_ne_nil l (by simp))
    simp [split, chars, Lexeme.first?_eq_head?]

theorem startOf (meets : content.Meets here there) (trims : content.Trims)
    (tight : Unindented here.rest) :
    content.source.startOf there.index = content.offset + here.index := by
  cases stands : there.rest with
  | nil =>
    have spaced := meets.spaced
    rw [stands] at spaced
    have none := tight.eq_nil spaced.blank_of_nil
    obtain ⟨before, split, offset⟩ := meets.split
    have ends : here.index = Text.size content.text := by
      rw [split, none, List.append_nil, offset]
    have absent := meets.getElem?_tokens
    rw [none] at absent
    rw [Source.startOf, absent, ends, ← trims.contentEnd]
    rfl
  | cons l more =>
    have spaced := meets.spaced
    rw [stands] at spaced
    obtain ⟨behind, split, _, token⟩ := spaced.first_token tight
    obtain ⟨_, _, _, start, _⟩ := meets.step split (token _)
    exact start

end Content.Meets

theorem Text.behind_size (before after : List Char) :
    behind (size before) (before ++ after) = after := by
  rw [behind, upTo_size, List.drop_left]

namespace Content.Settled

variable {content : Content} {offset index other later : Nat}

theorem startOf (settled : content.Settled offset index) (trims : content.Trims) :
    content.source.startOf index = content.offset + offset := by
  obtain ⟨_, _, meets, tight⟩ := settled
  exact meets.startOf trims tight

theorem offset_lt (one : content.Settled offset index) (two : content.Settled other later)
    (trims : content.Trims) (behind : index < later) : offset < other := by
  have spaced : Spaced content.full.toList content.source.lexemes := (spaced_iff _).mpr rfl
  have inside : index < content.source.lexemes.length := by
    obtain ⟨_, _, last, _⟩ := two
    rw [Source.lexemes, List.length_map]
    exact Nat.lt_of_lt_of_le behind last.bound
  have order : content.source.startOf index < content.source.startOf later :=
    (Source.standsAt_startOf spaced index).lt (Source.standsAt_startOf spaced later) spaced behind inside
  rw [one.startOf trims, two.startOf trims] at order
  omega

/-- Offsets are in the order of the indices. -/
theorem lt_iff (one : content.Settled offset index) (two : content.Settled other later)
    (trims : content.Trims) : offset < other ↔ index < later := by
  constructor
  · intro before
    rcases Nat.lt_trichotomy index later with ahead | rfl | behind
    · exact ahead
    · have := one.startOf trims
      have := two.startOf trims
      omega
    · have := two.offset_lt one trims behind
      omega
  · exact one.offset_lt two trims

theorem eq_iff (one : content.Settled offset index) (two : content.Settled other later)
    (trims : content.Trims) : offset = other ↔ index = later := by
  have := one.lt_iff two trims
  have := two.lt_iff one trims
  omega

theorem head?_behind (settled : content.Settled offset index) :
    (Text.behind offset content.text).head? =
      (content.source.lexemes[index]?).bind Lexeme.first? := by
  obtain ⟨rest, ls, meets, tight⟩ := settled
  obtain ⟨before, split, rfl⟩ : ∃ before, content.text = before ++ rest ∧ offset = Text.size before :=
    meets.split
  have next : ls.head? = content.source.lexemes[index]? := by rw [← List.head?_drop, ← meets.rest]
  rw [split, Text.behind_size, ← next]
  exact meets.head? tight

end Content.Settled

end SessionSyntax
