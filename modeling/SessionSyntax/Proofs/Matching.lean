import SessionSyntax.Grammar
import SessionSyntax.LexemeReader

/-! What matchers find, apart from the frontier they keep. `Finds` and `Misses` hold at every
frontier, so that a match never depends on attempts made before it. What a matcher found is read
backwards through the combinators, one inversion lemma each; series between commas are treated
once for all their members. -/
namespace SessionSyntax

/-- From the first cursor up to the second stand the given lexemes. -/
structure Cursor.Spans (here : Cursor Lexeme) (ls : List Lexeme) (there : Cursor Lexeme) : Prop where
  rest : here.rest = ls ++ there.rest
  index : there.index = here.index + ls.length

namespace Cursor.Spans

theorem append (first : Spans here ls middle) (second : Spans middle ms there) :
    Spans here (ls ++ ms) there :=
  ⟨by rw [first.rest, second.rest, List.append_assoc],
    by rw [second.index, first.index, List.length_append, Nat.add_assoc]⟩

theorem cons (first : Spans here [l] middle) (second : Spans middle ms there) :
    Spans here (l :: ms) there := first.append second

end Cursor.Spans

namespace Matcher

variable {frontier : Frontier}

def Finds (matcher : Matcher Lexeme α) (here : Cursor Lexeme) (a : α) (there : Cursor Lexeme) : Prop :=
  ∀ frontier, (matcher here frontier).found = some (a, there)

def Misses (matcher : Matcher Lexeme α) (here : Cursor Lexeme) : Prop :=
  ∀ frontier, (matcher here frontier).found = none

/-- What the matcher finds stands where it was tried, spelled by the lexemes up to the place behind. -/
def Sound (matcher : Matcher Lexeme α) (stands : Nat → α → List Lexeme → Prop) : Prop :=
  ∀ {here frontier a there}, (matcher here frontier).found = some (a, there) →
    ∃ ls, stands here.index a ls ∧ here.Spans ls there

theorem misses_of_not_found {matcher : Matcher Lexeme α}
    (never : ∀ frontier a there, (matcher here frontier).found ≠ some (a, there)) :
    matcher.Misses here := by
  intro frontier
  cases found : (matcher here frontier).found with
  | none => rfl
  | some result => exact absurd found (never frontier result.1 result.2)

/-- What commas introduce, once per member. -/
def commaThen (item : Matcher Lexeme α) : Matcher Lexeme α := do
  let _ ← comma
  item

theorem of_found_mark (found : (mark c here frontier).found = some (place, there)) :
    place = here.index ∧ here.Spans [.mark c] there := by
  rcases here with ⟨index, _ | ⟨_ | d, rest⟩⟩
  · simp [mark] at found
  · simp [mark] at found
  · by_cases same : c = d
    · simp only [mark, same, ↓reduceIte, Option.some.injEq, Prod.mk.injEq] at found
      obtain ⟨rfl, rfl⟩ := found
      exact ⟨rfl, by simp [same], rfl⟩
    · simp [mark, same] at found

theorem of_found_word (found : (word accept here frontier).found = some (name, there)) :
    ∃ letters, accept letters ∧ name = ⟨here.index, letters⟩ ∧
      here.Spans [.word letters] there := by
  rcases here with ⟨index, _ | ⟨letters | _, rest⟩⟩
  · simp [word] at found
  · by_cases accepted : accept letters
    · simp only [word, accepted, ↓reduceIte, Option.some.injEq, Prod.mk.injEq] at found
      obtain ⟨rfl, rfl⟩ := found
      exact ⟨letters, accepted, rfl, rfl, rfl⟩
    · simp [word, accepted] at found
  · simp [word] at found

theorem of_found_comma (found : (comma here frontier).found = some (place, there)) :
    here.Spans [.mark ','] there :=
  (of_found_mark ((found_named .comma (mark ',') here frontier).symm.trans found)).2

theorem finds_pure (a : α) (here : Cursor Lexeme) :
    (pure a : Matcher Lexeme α).Finds here a here := fun _ => rfl

theorem Finds.bind {first : Matcher Lexeme α} {next : α → Matcher Lexeme β}
    (one : first.Finds here a middle)
    (two : (next a).Finds middle b there) : (first >>= next).Finds here b there := by
  intro frontier
  rw [found_bind, one frontier]
  exact two _

theorem Finds.cons {first : Matcher Lexeme α} {others : Matcher Lexeme (List α)}
    (one : first.Finds here a middle) (two : others.Finds middle as there) :
    (do return (← first) :: (← others) : Matcher Lexeme (List α)).Finds here (a :: as) there :=
  one.bind (two.bind (finds_pure (a :: as) there))

theorem Finds.map {matcher : Matcher Lexeme α} (finds : matcher.Finds here a there) (g : α → β) :
    (g <$> matcher).Finds here (g a) there := finds.bind (finds_pure (g a) there)

theorem Finds.orElse {first : Matcher Lexeme α} (finds : first.Finds here a there)
    (second : Matcher Lexeme α) :
    (first <|> second).Finds here a there := by
  intro frontier
  rw [found_orElse, finds frontier, Option.some_or]

theorem Misses.orElse {first second : Matcher Lexeme α} (misses : first.Misses here)
    (finds : second.Finds here a there) : (first <|> second).Finds here a there := by
  intro frontier
  rw [found_orElse, misses frontier, Option.none_or]
  exact finds _

theorem Misses.bind {first : Matcher Lexeme α} (misses : first.Misses here)
    (next : α → Matcher Lexeme β) :
    (first >>= next).Misses here := by
  intro frontier
  rw [found_bind, misses frontier]
  rfl

theorem Misses.map {matcher : Matcher Lexeme α} (misses : matcher.Misses here) (g : α → β) :
    (g <$> matcher).Misses here := misses.bind _

theorem Finds.commaList {item : Matcher Lexeme α} (one : item.Finds here a middle)
    (two : (repeatedUpTo (commaThen item) (middle.rest.length + 1)).Finds middle as there) :
    (commaList item).Finds here (a :: as) there := by
  have others : (repeated (commaThen item)).Finds middle as there := two
  exact (((one.cons others).map some).orElse _).bind (finds_pure (a :: as) there)

theorem Misses.commaList {item : Matcher Lexeme α} (misses : item.Misses here) :
    (commaList item).Finds here [] here :=
  (((misses.bind _).map some).orElse (finds_pure none here)).bind (finds_pure [] here)

theorem Finds.named {matcher : Matcher Lexeme α} (finds : matcher.Finds here a there) (part : Part) :
    (named part matcher).Finds here a there := by
  intro frontier
  rw [found_named, finds frontier]

theorem finds_mark (c : Char) (place : Nat) (rest : List Lexeme) :
    (mark c).Finds ⟨place, .mark c :: rest⟩ place ⟨place + 1, rest⟩ := by
  intro frontier; simp [mark]

theorem finds_word {accept : List Char → Bool} (accepted : accept letters) (place : Nat)
    (rest : List Lexeme) :
    (word accept).Finds ⟨place, .word letters :: rest⟩ ⟨place, letters⟩ ⟨place + 1, rest⟩ := by
  intro frontier; simp [word, accepted]

theorem mark_misses (other : ∀ rest, here.rest ≠ .mark c :: rest) : (mark c).Misses here := by
  refine misses_of_not_found fun frontier place there found => ?_
  exact other there.rest (of_found_mark found).2.rest

theorem word_misses (other : ∀ letters rest, accept letters → here.rest ≠ .word letters :: rest) :
    (word accept).Misses here := by
  refine misses_of_not_found fun frontier name there found => ?_
  obtain ⟨letters, accepted, _, spans⟩ := of_found_word found
  exact other letters there.rest accepted spans.rest

theorem Misses.named {matcher : Matcher Lexeme α} (misses : matcher.Misses here) (part : Part) :
    (named part matcher).Misses here := by
  intro frontier
  rw [found_named, misses frontier]

section Series

variable {item : Matcher Lexeme α} {stands : Nat → α → List Lexeme → Prop}

theorem of_found_repeated
    (sound : item.Sound stands) (n : Nat)
    (found : (repeatedUpTo (commaThen item) n here frontier).found = some (items, there)) :
    (items = [] ∧ there = here) ∨
      ∃ ls, Series stands (here.index + 1) items ls ∧ here.Spans (.mark ',' :: ls) there := by
  induction n generalizing here frontier items with
  | zero => exact .inl (of_found_pure found)
  | succ n ih =>
    rcases of_found_orElse found with again | ⟨_, _, stopped⟩
    · obtain ⟨first, middle, _, next, more⟩ := of_found_bind again
      obtain ⟨others, last, _, rest, done⟩ := of_found_bind more
      obtain ⟨rfl, rfl⟩ := of_found_pure done
      obtain ⟨_, behind, _, separator, one⟩ := of_found_bind next
      have comma := of_found_comma separator
      obtain ⟨ls, stand, spans⟩ := sound one
      rw [comma.index] at stand
      rcases ih rest with ⟨rfl, rfl⟩ | ⟨ms, series, tail⟩
      · exact .inr ⟨ls, .one stand, comma.cons spans⟩
      · rw [spans.index, comma.index] at series
        exact .inr ⟨ls ++ .mark ',' :: ms, .more stand series, comma.cons (spans.append tail)⟩
    · exact .inl (of_found_pure stopped)

/-- A list between commas is empty, or a series of what its item matches. -/
theorem of_found_commaList
    (sound : item.Sound stands)
    (found : (commaList item here frontier).found = some (items, there)) :
    (items = [] ∧ there = here) ∨
      ∃ ls, Series stands here.index items ls ∧ here.Spans ls there := by
  obtain ⟨chosen, last, _, offered, done⟩ := of_found_bind found
  obtain ⟨rfl, rfl⟩ := of_found_pure done
  rcases of_found_optional offered with ⟨list, rfl, matched⟩ | ⟨rfl, rfl⟩
  · obtain ⟨first, middle, _, one, more⟩ := of_found_bind matched
    obtain ⟨others, last, _, rest, done⟩ := of_found_bind more
    obtain ⟨rfl, rfl⟩ := of_found_pure done
    obtain ⟨ls, stand, spans⟩ := sound one
    rcases of_found_repeated sound _ rest with ⟨rfl, rfl⟩ | ⟨ms, series, tail⟩
    · exact .inr ⟨ls, .one stand, spans⟩
    · rw [spans.index] at series
      exact .inr ⟨ls ++ .mark ',' :: ms, .more stand series, spans.append tail⟩
  · exact .inl ⟨rfl, rfl⟩

end Series

/-- What makes a list of the name before it. -/
def ListTail (rest : List Lexeme) : Prop := ∃ more, rest = .mark '[' :: .mark ']' :: more

theorem not_listTail_mark (other : c ≠ '[') : ¬ListTail (.mark c :: rest) := by
  rintro ⟨more, same⟩
  injection same with head
  exact other (Lexeme.mark.inj head)

/-- The matcher takes up just these lexemes, whatever follows, unless it makes a list of a name. -/
def TakesUp (matcher : Matcher Lexeme α) (place : Nat) (a : α) (ls : List Lexeme) : Prop :=
  ∀ rest, ¬ListTail rest → matcher.Finds ⟨place, ls ++ rest⟩ a ⟨place + ls.length, rest⟩

section Series

variable {item : Matcher Lexeme α}

theorem commaThen_finds (finds : item.Finds ⟨place + 1, ls⟩ a there) :
    (commaThen item).Finds ⟨place, .mark ',' :: ls⟩ a there :=
  ((finds_mark ',' place ls).named .comma).bind finds

theorem repeated_finds_nil (item : Matcher Lexeme α) (apart : ∀ more, rest ≠ .mark ',' :: more)
    (place n : Nat) :
    (repeatedUpTo (commaThen item) n).Finds ⟨place, rest⟩ [] ⟨place, rest⟩ := by
  cases n with
  | zero => exact finds_pure [] _
  | succ n =>
    have stops : (commaThen item).Misses ⟨place, rest⟩ := ((mark_misses apart).named .comma).bind _
    exact (stops.bind _).orElse (finds_pure [] _)

theorem repeated_finds (series : Series item.TakesUp (place + 1) items ls)
    (apart : ∀ more, rest ≠ .mark ',' :: more) (closed : ¬ListTail rest)
    (bound : items.length ≤ n) :
    (repeatedUpTo (commaThen item) n).Finds ⟨place, .mark ',' :: ls ++ rest⟩ items
      ⟨place + 1 + ls.length, rest⟩ := by
  obtain ⟨n, rfl⟩ : ∃ k, n = k + 1 := ⟨n - 1, by cases series <;> simp at bound <;> omega⟩
  generalize behind : place + 1 = start at series
  induction series generalizing place n with
  | one takes =>
    subst behind
    exact ((commaThen_finds (takes rest closed)).cons
      (repeated_finds_nil item apart _ n)).orElse _
  | @more start a ls others ms takes series ih =>
    subst behind
    have first := commaThen_finds (takes (.mark ',' :: ms ++ rest) (not_listTail_mark (by decide)))
    obtain ⟨n, rfl⟩ : ∃ k, n = k + 1 := ⟨n - 1, by cases series <;> simp at bound <;> omega⟩
    have tail := ih n (by simpa using bound) rfl
    have spot : place + 1 + (ls ++ .mark ',' :: ms).length = place + 1 + ls.length + 1 + ms.length := by
      simp; omega
    rw [spot, List.cons_append, List.append_assoc]
    exact (first.cons tail).orElse _

/-- A series is found as a whole where neither a comma nor the tail of a list follows. -/
theorem commaList_finds (series : Series item.TakesUp place items ls) (rest : List Lexeme)
    (apart : ∀ more, rest ≠ .mark ',' :: more) (closed : ¬ListTail rest) :
    (commaList item).Finds ⟨place, ls ++ rest⟩ items ⟨place + ls.length, rest⟩ := by
  cases series with
  | one takes => exact (takes rest closed).commaList (repeated_finds_nil item apart _ _)
  | @more _ a ls others ms takes series =>
    have first := takes (.mark ',' :: ms ++ rest) (not_listTail_mark (by decide))
    have tail := repeated_finds series apart closed (n := (.mark ',' :: ms ++ rest).length + 1)
      (by have := series.length_le; simp; omega)
    have spot : place + (ls ++ .mark ',' :: ms).length = place + ls.length + 1 + ms.length := by
      simp; omega
    rw [spot, List.append_assoc]
    exact first.commaList tail

end Series

end Matcher

end SessionSyntax
