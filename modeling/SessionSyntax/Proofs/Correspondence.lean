import Mathlib.Data.List.Forall2
import SessionSyntax.Proofs.Phrases
import SessionSyntax.Proofs.Places

/-! Rules on the characters of a text and matchers on its lexemes, side by side. A rule is followed by
a matcher if they find the same wherever both are tried at one place, go on at one place, and leave the
same parts wanted at the same place. What they find is alike but for places, which count bytes on the
one side and lexemes on the other. This holds of single marks and words, and of whatever is combined
from rules and matchers of which it holds. -/
namespace SessionSyntax

/-- A matcher goes on from where it was tried. -/
theorem Matcher.Sound.length_le {matcher : Matcher Lexeme α} {stands : Nat → α → List Lexeme → Prop}
    {frontier : Frontier} (sound : matcher.Sound stands)
    (found : (matcher here frontier).found = some (a, there)) :
    there.rest.length ≤ here.rest.length := by
  obtain ⟨ls, _, spans⟩ := sound found
  rw [spans.rest, List.length_append]
  exact Nat.le_add_left ..

namespace Content

variable (content : Content)

/-- The same parts are wanted at the same place. -/
structure Wants (reached frontier : Frontier) : Prop where
  settled : content.Settled reached.place frontier.place
  wanted : reached.wanted = frontier.wanted

/-- What was found is alike, and the same is wanted. -/
structure Agrees (alike : α → β → Prop) (one : Attempt Char α) (other : Attempt Lexeme β) : Prop where
  found : Option.Rel (fun a b => alike a.1 b.1 ∧ content.Meets a.2 b.2) one.found other.found
  wants : content.Wants one.frontier other.frontier

/-- Wherever a rule and a matcher are tried at one place, before which no blanks are left to be skipped,
they agree. -/
def Follows (alike : α → β → Prop) (rule : Rule α) (matcher : Matcher Lexeme β) : Prop :=
  ∀ ⦃here there reached frontier⦄, content.Meets here there → Unindented here.rest →
    content.Wants reached frontier → content.Agrees alike (rule here reached) (matcher there frontier)

/-- They agree, though there may be blanks to be skipped. -/
def Trails (alike : α → β → Prop) (rule : Rule α) (matcher : Matcher Lexeme β) : Prop :=
  ∀ ⦃here there reached frontier⦄, content.Meets here there → content.Wants reached frontier →
    content.Agrees alike (rule here reached) (matcher there frontier)

variable {content : Content} {alike : α → β → Prop} {akin : γ → δ → Prop}
  {here : Cursor Char} {there : Cursor Lexeme} {reached frontier : Frontier}

theorem Wants.count {place : Nat} (wants : content.Wants reached frontier) (trims : content.Trims)
    (settled : content.Settled place index) : reached.count place = frontier.count index := by
  simp only [Frontier.count, wants.settled.eq_iff settled trims, wants.wanted]

theorem Wants.miss {place : Nat} (wants : content.Wants reached frontier) (trims : content.Trims)
    (settled : content.Settled place index) (part : Part) (before : Nat) :
    content.Wants (reached.miss part place before) (frontier.miss part index before) := by
  simp only [Frontier.miss, wants.count trims settled, wants.settled.lt_iff settled trims,
    wants.settled.eq_iff settled trims, wants.wanted]
  split
  case isTrue => exact wants
  case isFalse =>
    split
    case isTrue => exact ⟨settled, rfl⟩
    case isFalse =>
      split
      case isTrue => exact ⟨settled, rfl⟩
      case isFalse => exact wants

theorem agrees_of_missed (wants : content.Wants reached frontier) :
    content.Agrees alike ⟨none, reached⟩ ⟨none, frontier⟩ := ⟨.none, wants⟩

theorem agrees_of_found (same : alike a b) (meets : content.Meets here there)
    (wants : content.Wants reached frontier) :
    content.Agrees alike ⟨some (a, here), reached⟩ ⟨some (b, there), frontier⟩ :=
  ⟨.some ⟨same, meets⟩, wants⟩

theorem Agrees.cases (agrees : content.Agrees alike one other) :
    (∃ reached frontier, one = ⟨none, reached⟩ ∧ other = ⟨none, frontier⟩ ∧
      content.Wants reached frontier) ∨
    ∃ a b here there reached frontier, one = ⟨some (a, here), reached⟩ ∧
      other = ⟨some (b, there), frontier⟩ ∧ alike a b ∧ content.Meets here there ∧
      content.Wants reached frontier := by
  obtain ⟨found, wants⟩ := agrees
  obtain ⟨_ | ⟨a, here⟩, reached⟩ := one
  · obtain ⟨_ | _, frontier⟩ := other
    · exact .inl ⟨reached, frontier, rfl, rfl, wants⟩
    · cases found
  · obtain ⟨_ | ⟨b, there⟩, frontier⟩ := other
    · cases found
    · cases found with
      | some both => exact .inr ⟨a, b, here, there, reached, frontier, rfl, rfl, both.1, both.2, wants⟩

theorem Agrees.bind {first : Rule α} {one : Matcher Lexeme β} {next : α → Rule γ}
    {follow : β → Matcher Lexeme δ}
    (agrees : content.Agrees alike (first here reached) (one there frontier))
    (more : ∀ {a b behind after left kept}, (one there frontier).found = some (b, after) →
      alike a b → content.Meets behind after → content.Wants left kept →
      content.Agrees akin (next a behind left) (follow b after kept)) :
    content.Agrees akin ((first >>= next) here reached) ((one >>= follow) there frontier) := by
  rcases agrees.cases with ⟨_, _, missed, lacked, wants⟩ |
    ⟨a, b, _, _, _, _, found, matched, same, meets, wants⟩
  · rw [Matcher.bind_of_missed next missed, Matcher.bind_of_missed follow lacked]
    exact agrees_of_missed wants
  · rw [Matcher.bind_of_found next found, Matcher.bind_of_found follow matched]
    exact more (congrArg Attempt.found matched) same meets wants

theorem Agrees.orElse {first second : Rule α} {one other : Matcher Lexeme β}
    (agrees : content.Agrees alike (first here reached) (one there frontier))
    (otherwise : ∀ {left kept}, content.Wants left kept →
      content.Agrees alike (second here left) (other there kept)) :
    content.Agrees alike ((first <|> second) here reached) ((one <|> other) there frontier) := by
  rcases agrees.cases with ⟨_, _, missed, lacked, wants⟩ |
    ⟨a, b, _, _, _, _, found, matched, same, meets, wants⟩
  · rw [Matcher.orElse_of_missed second missed, Matcher.orElse_of_missed other lacked]
    exact otherwise wants
  · rw [Matcher.orElse_of_matched second found, Matcher.orElse_of_matched other matched]
    exact agrees_of_found same meets wants

theorem Trails.follows {rule : Rule α} {matcher : Matcher Lexeme β}
    (trails : content.Trails alike rule matcher) : content.Follows alike rule matcher :=
  fun _ _ _ _ meets _ wants => trails meets wants

theorem trails_pure {a : α} {b : β} (same : alike a b) :
    content.Trails alike (pure a) (pure b) :=
  fun _ _ _ _ meets wants => agrees_of_found same meets wants

/-- Skipping blanks leads to where the matcher is. -/
theorem Follows.behind_blanks {rule : Rule α} {matcher : Matcher Lexeme β}
    (follows : content.Follows alike rule matcher) :
    content.Trails alike (do Rule.blanks; rule) matcher := by
  intro here there reached frontier meets wants
  rw [Matcher.bind_of_found _ (Rule.blanks_eq here reached)]
  exact follows meets.blanks (unindented_dropWhile here.rest) wants

theorem Follows.bind {first : Rule α} {one : Matcher Lexeme β} {next : α → Rule γ}
    {follow : β → Matcher Lexeme δ} (follows : content.Follows alike first one)
    (more : ∀ a b, alike a b → content.Trails akin (next a) (follow b)) :
    content.Follows akin (first >>= next) (one >>= follow) :=
  fun _ _ _ _ meets tight wants => (follows meets tight wants).bind fun _ same behind left =>
    more _ _ same behind left

theorem Follows.orElse {first second : Rule α} {one other : Matcher Lexeme β}
    (follows : content.Follows alike first one) (otherwise : content.Follows alike second other) :
    content.Follows alike (first <|> second) (one <|> other) :=
  fun _ _ _ _ meets tight wants => (follows meets tight wants).orElse fun wants =>
    otherwise meets tight wants

theorem Follows.map {rule : Rule α} {matcher : Matcher Lexeme β} {f : α → γ} {g : β → δ}
    (follows : content.Follows alike rule matcher) (same : ∀ a b, alike a b → akin (f a) (g b)) :
    content.Follows akin (f <$> rule) (g <$> matcher) :=
  follows.bind fun a b both => trails_pure (same a b both)

theorem Follows.named {rule : Rule α} {matcher : Matcher Lexeme β}
    (follows : content.Follows alike rule matcher) (trims : content.Trims) (part : Part) :
    content.Follows alike (Matcher.named part rule) (Matcher.named part matcher) := by
  intro here there reached frontier meets tight wants
  rcases (follows meets tight wants).cases with ⟨_, _, missed, lacked, left⟩ |
    ⟨a, b, _, _, _, _, found, matched, same, behind, left⟩
  · rw [Matcher.named_of_missed part missed, Matcher.named_of_missed part lacked,
      wants.count trims (meets.settled tight)]
    exact agrees_of_missed (left.miss trims (meets.settled tight) part _)
  · rw [Matcher.named_of_matched part found, Matcher.named_of_matched part matched]
    exact agrees_of_found same behind left

theorem follows_fail : content.Follows alike Matcher.fail Matcher.fail :=
  fun _ _ _ _ _ _ wants => agrees_of_missed wants

/-- The lexeme of the index takes up so many bytes from the place on. -/
structure Covers (content : Content) (place size index : Nat) : Prop where
  start : content.source.startOf index = content.offset + place
  stop : content.source.stopOf index = content.offset + place + size

/-- Both words are written alike, and are the same one of the text. -/
structure Words (content : Content) (one other : Word) : Prop where
  letters : one.letters = other.letters
  covers : content.Covers one.index (Text.size one.letters) other.index

/-- The byte at the place is the mark of the index. -/
def Marks (content : Content) (place index : Nat) : Prop := content.Covers place 1 index

/-- What stands at a place: nothing more, or a mark, or a word as far as it goes. -/
inductive Front (content : Content) : Cursor Char → Cursor Lexeme → Prop where
  | ends : Front content ⟨place, []⟩ ⟨index, []⟩
  | mark : ¬isWordChar c → content.Covers place c.utf8Size index →
      content.Meets ⟨place + c.utf8Size, behind⟩ ⟨index + 1, more⟩ →
      Front content ⟨place, c :: behind⟩ ⟨index, .mark c :: more⟩
  | word : letters ≠ [] → (∀ c ∈ letters, isWordChar c) →
      (∀ c, behind.head? = some c → ¬isWordChar c) → content.Covers place (Text.size letters) index →
      content.Meets ⟨place + Text.size letters, behind⟩ ⟨index + 1, more⟩ →
      Front content ⟨place, letters ++ behind⟩ ⟨index, .word letters :: more⟩

theorem Meets.front (meets : content.Meets here there) (tight : Unindented here.rest) :
    content.Front here there := by
  obtain ⟨place, rest⟩ := here
  obtain ⟨index, ls⟩ := there
  have spaced : Spaced rest ls := meets.spaced
  cases spaced with
  | nil => exact .ends
  | blank c blank => exact absurd blank (tight c rfl)
  | @mark behind more c unblank apart =>
    have token : Token.scan (content.offset + place) (c :: behind) =
        ⟨.mark c, content.offset + place, content.offset + place + Text.size [c]⟩ ::
          Token.scan (content.offset + place + Text.size [c]) behind := by
      simp [Token.scan, unblank, apart, Text.size]
    obtain ⟨_, same, after, start, stop⟩ := meets.step rfl token
    obtain ⟨_, rfl⟩ := List.cons.inj same
    exact .mark apart ⟨start, stop⟩ after
  | @word behind more letters filled letter apart =>
    obtain ⟨_, same, after, start, stop⟩ := meets.step rfl
      (Token.scan_word (content.offset + place) filled letter apart)
    obtain ⟨_, rfl⟩ := List.cons.inj same
    exact .word filled letter apart ⟨start, stop⟩ after

/-- Marks of one byte. -/
theorem follows_literal (apart : ¬isWordChar c) (single : c.utf8Size = 1) :
    content.Follows content.Marks (Rule.literal c) (Matcher.mark c) := by
  intro here there reached frontier meets tight wants
  cases meets.front tight with
  | ends => exact agrees_of_missed wants
  | @mark d _ _ _ _ _ covers after =>
    by_cases same : c = d
    · subst same
      simp only [Rule.literal, Matcher.mark, ↓reduceIte]
      rw [single] at covers
      exact agrees_of_found covers (by rwa [single] at after ⊢) wants
    · simp only [Rule.literal, Matcher.mark, same, ↓reduceIte]
      exact agrees_of_missed wants
  | @word letters _ _ _ _ filled letter =>
    obtain ⟨d, ds, rfl⟩ := List.exists_cons_of_ne_nil filled
    have other : c ≠ d := by
      rintro rfl
      exact apart (letter c (by simp))
    simp only [Rule.literal, List.cons_append, Matcher.mark, other, ↓reduceIte]
    exact agrees_of_missed wants

/-- An atomic rule for words is followed by the matcher of the words it takes. -/
theorem follows_atomic {scanner : Scanner} {accept : List Char → Bool}
    (takes : ∀ {text letters rest}, scanner text = some (letters, rest) ↔
      accept letters ∧ text = letters ++ rest ∧ ∀ c, rest.head? = some c → ¬isWordChar c)
    (word : ∀ {letters}, accept letters → letters ≠ [] ∧ ∀ c ∈ letters, isWordChar c) :
    content.Follows content.Words (Rule.atomic scanner) (Matcher.word accept) := by
  intro here there reached frontier meets tight wants
  have missed (other : ∀ letters rest, accept letters → here.rest = letters ++ rest →
      (∀ c, rest.head? = some c → ¬isWordChar c) → False) :
      Rule.atomic scanner here reached = ⟨none, reached⟩ := by
    cases taken : scanner here.rest with
    | none => simp only [Rule.atomic, taken]
    | some result =>
      obtain ⟨accepted, split, stops⟩ := takes.mp taken
      exact (other result.1 result.2 accepted split stops).elim
  cases meets.front tight with
  | ends =>
    rw [missed fun letters rest accepted split _ =>
      (word accepted).1 (List.append_eq_nil_iff.mp split.symm).1]
    exact agrees_of_missed wants
  | @mark d _ _ _ _ apart =>
    rw [missed fun letters rest accepted split _ => ?_]
    · exact agrees_of_missed wants
    · obtain ⟨filled, letter⟩ := word accepted
      obtain ⟨c, cs, rfl⟩ := List.exists_cons_of_ne_nil filled
      obtain ⟨rfl, _⟩ := List.cons.inj split
      exact apart (letter d (by simp))
  | @word letters _ _ _ _ _ letter apart covers after =>
    by_cases accepted : accept letters
    · simp only [Rule.atomic, takes.mpr ⟨accepted, rfl, apart⟩, Matcher.word, accepted, ↓reduceIte]
      exact agrees_of_found ⟨rfl, covers⟩ after wants
    · rw [missed fun taken rest kept split stops => ?_]
      · simp only [Matcher.word, accepted, Bool.false_eq_true, ↓reduceIte]
        exact agrees_of_missed wants
      · obtain rfl := Scanner.run_unique letter apart (word kept).2 stops split
        exact accepted kept

theorem follows_name :
    content.Follows content.Words (Rule.atomic .identifier) (Matcher.word isIdentifier) := by
  refine follows_atomic ?_ fun named =>
    ⟨ne_nil_of_isIdentifier named, isWordChar_of_isIdentifier named⟩
  intro text letters rest
  rw [Scanner.identifier_eq_some_iff]
  exact and_left_comm

theorem follows_endWord : content.Follows content.Words (Rule.atomic .endWord)
    (Matcher.word (· == Session.endWord.toList)) := by
  refine follows_atomic ?_ fun same => ?_
  · intro text letters rest
    rw [Scanner.endWord_eq_some_iff, beq_iff_eq]
  · obtain rfl := beq_iff_eq.mp same
    have named := Session.isIdentifier_endWord
    exact ⟨ne_nil_of_isIdentifier named, isWordChar_of_isIdentifier named⟩

section Series

variable {rule : Rule α} {matcher : Matcher Lexeme β}

/-- The number of matches is bounded on both sides by what follows. -/
theorem Follows.repeatedUpTo (follows : content.Follows alike rule matcher)
    (progress : ∀ {there frontier b after}, (matcher there frontier).found = some (b, after) →
      after.rest.length < there.rest.length)
    (meets : content.Meets here there) (wants : content.Wants reached frontier)
    (short : there.rest.length < n) (less : there.rest.length < m) :
    content.Agrees (List.Forall₂ alike)
      (Matcher.repeatedUpTo (do Rule.blanks; rule) n here reached)
      (Matcher.repeatedUpTo matcher m there frontier) := by
  induction n generalizing m here there reached frontier with
  | zero => exact absurd short (Nat.not_lt_zero _)
  | succ n ih =>
    obtain ⟨m, rfl⟩ : ∃ k, m = k + 1 := ⟨m - 1, by omega⟩
    refine Agrees.orElse ?_ fun left => agrees_of_found .nil meets left
    refine (follows.behind_blanks meets wants).bind fun found same behind left => ?_
    have taken := progress found
    refine (ih behind left (by omega) (by omega)).bind fun _ others after kept => ?_
    exact agrees_of_found (.cons same others) after kept

theorem Follows.many (follows : content.Follows alike rule matcher)
    (progress : ∀ {there frontier b after}, (matcher there frontier).found = some (b, after) →
      after.rest.length < there.rest.length) :
    content.Follows (List.Forall₂ alike) (Rule.many rule) (Matcher.repeated matcher) := by
  intro here there reached frontier meets tight wants
  refine Agrees.orElse ?_ fun left => agrees_of_found .nil meets left
  refine (follows meets tight wants).bind fun found same behind left => ?_
  have taken := progress found
  have short := behind.spaced.length_le
  refine (follows.repeatedUpTo progress behind left (by omega) taken).bind
    fun _ others after kept => ?_
  exact agrees_of_found (.cons same others) after kept

theorem follows_comma (trims : content.Trims) :
    content.Follows content.Marks Rule.comma Matcher.comma :=
  (follows_literal (by decide) rfl).named trims .comma

theorem Follows.commaList (follows : content.Follows alike rule matcher) (trims : content.Trims)
    {stands : Nat → β → List Lexeme → Prop} (sound : matcher.Sound stands) :
    content.Follows (List.Forall₂ alike) (Rule.commaList rule) (Matcher.commaList matcher) := by
  have another : content.Follows alike (Rule.commaThen rule) (Matcher.commaThen matcher) :=
    (follows_comma trims).bind fun _ _ _ => follows.behind_blanks
  have others := another.many fun {there frontier b after} found => by
    obtain ⟨_, middle, _, separator, item⟩ := Matcher.of_found_bind found
    have := sound.length_le item
    rw [(Matcher.of_found_comma separator).rest, List.length_append, List.length_singleton]
    omega
  have offered : content.Follows (Option.Rel (List.Forall₂ alike))
      (Matcher.optional do
        let first ← rule
        Rule.blanks
        let rest ← Rule.many (Rule.commaThen rule)
        return first :: rest)
      (Matcher.optional do
        let first ← matcher
        let rest ← Matcher.repeated (Matcher.commaThen matcher)
        return first :: rest) := by
    refine Follows.orElse (Follows.map ?_ fun _ _ same => .some same) (trails_pure .none).follows
    refine follows.bind fun first one same => ?_
    refine (others.bind fun rest more series => ?_).behind_blanks
    exact trails_pure (.cons same series)
  refine offered.bind fun one other same => trails_pure ?_
  cases same with
  | none => exact .nil
  | some both => exact both

end Series

end Content

end SessionSyntax
