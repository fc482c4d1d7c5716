import SessionSyntax.Proofs.Matching

/-! What matching leaves in the frontier. A match never leaves anything wanted at the place behind
it, whatever was tried on the way to it; so where the next thing is missing, only that is wanted.
`Tidy` and `Keeps` say so of matches. `Stops` tells the frontier that a failed attempt leaves, which
depends on nothing that was tried before. -/
namespace SessionSyntax

namespace Frontier

variable {frontier : Frontier} {place : Nat}

/-- Nothing is wanted at the place or behind it. -/
structure Clear (frontier : Frontier) (place : Nat) : Prop where
  le : frontier.place ≤ place
  count : frontier.count place = 0

theorem clear_initial : initial.Clear 0 := ⟨Nat.le_refl 0, rfl⟩

theorem clear_of_lt (before : frontier.place < place) : frontier.Clear place :=
  ⟨Nat.le_of_lt before, if_neg (Nat.ne_of_lt before)⟩

/-- A part missing before the frontier is not entered. -/
theorem miss_of_lt (beyond : place < frontier.place) (part : Part) (before : Nat) :
    frontier.miss part place before = frontier := by
  have elsewhere : frontier.place ≠ place := Nat.ne_of_gt beyond
  have behind : ¬frontier.place < place := Nat.lt_asymm beyond
  simp only [miss, elsewhere, behind, ↓reduceIte, ite_self]

theorem Clear.miss (clear : frontier.Clear place) (part : Part) :
    frontier.miss part place 0 = ⟨place, [part]⟩ := by
  obtain ⟨le, count⟩ := clear
  by_cases here : frontier.place = place
  · simp [Frontier.miss, count, here]
  · have before : frontier.place < place := by omega
    simp [Frontier.miss, count, before]

theorem place_miss_le (part : Part) (before : Nat) (near : frontier.place ≤ place) :
    (frontier.miss part place before).place ≤ place := by
  unfold miss
  split
  · exact near
  · split
    · exact Nat.le_refl _
    · split
      · exact Nat.le_refl _
      · exact near

end Frontier

namespace Matcher

variable {frontier reached : Frontier}

/-- The matcher is missed without a trace. -/
def Silent (matcher : Matcher Lexeme α) (here : Cursor Lexeme) : Prop :=
  ∀ frontier, matcher here frontier = ⟨none, frontier⟩

/-- The matcher is found without a trace. -/
def Plain (matcher : Matcher Lexeme α) (here : Cursor Lexeme) (a : α) (there : Cursor Lexeme) : Prop :=
  ∀ frontier, matcher here frontier = ⟨some (a, there), frontier⟩

theorem plain_mark (c : Char) (place : Nat) (rest : List Lexeme) :
    (mark c).Plain ⟨place, .mark c :: rest⟩ place ⟨place + 1, rest⟩ := by
  intro frontier
  simp [mark]

theorem plain_word {accept : List Char → Bool} (accepted : accept letters) (place : Nat)
    (rest : List Lexeme) :
    (word accept).Plain ⟨place, .word letters :: rest⟩ ⟨place, letters⟩ ⟨place + 1, rest⟩ := by
  intro frontier
  simp [word, accepted]

theorem Plain.named {matcher : Matcher Lexeme α} (plain : matcher.Plain here a there) (part : Part) :
    (named part matcher).Plain here a there :=
  fun frontier => named_of_matched part (plain frontier)

/-- The matcher leaves no trace, found or missed. -/
def Still (matcher : Matcher Lexeme α) : Prop :=
  ∀ here frontier, (matcher here frontier).frontier = frontier

theorem still_pure (a : α) : (pure a : Matcher Lexeme α).Still := fun _ _ => rfl

theorem still_mark (c : Char) : (mark c).Still := by
  intro here frontier
  unfold mark
  split
  · split <;> rfl
  · rfl

theorem still_word (accept : List Char → Bool) : (word accept).Still := by
  intro here frontier
  unfold word
  split
  · split <;> rfl
  · rfl

theorem Still.bind {first : Matcher Lexeme α} {next : α → Matcher Lexeme β} (still : first.Still)
    (stills : ∀ a, (next a).Still) : (first >>= next).Still := by
  intro here frontier
  have same := still here frontier
  rcases attempt : first here frontier with ⟨_ | ⟨a, middle⟩, reached⟩
  · rw [attempt] at same
    rw [bind_of_missed next attempt, ← same]
  · rw [attempt] at same
    rw [bind_of_found next attempt, stills a, ← same]

/-- Trying the matcher enters nothing beyond the place. -/
def Near (matcher : Matcher Lexeme α) : Prop :=
  ∀ ⦃here frontier⦄, frontier.place ≤ here.index →
    (matcher here frontier).frontier.place ≤ here.index

theorem Still.near {matcher : Matcher Lexeme α} (still : matcher.Still) : matcher.Near := by
  intro here frontier start
  rw [still here frontier]
  exact start

theorem Near.named {matcher : Matcher Lexeme α} (near : matcher.Near) (part : Part) :
    (named part matcher).Near := by
  intro here frontier start
  have close := near start
  rcases attempt : matcher here frontier with ⟨_ | ⟨a, there⟩, reached⟩
  · rw [attempt] at close
    rw [named_of_missed part attempt]
    exact Frontier.place_miss_le part _ close
  · rw [attempt] at close
    rw [named_of_matched part attempt]
    exact close

theorem Near.bind {first : Matcher Lexeme α} {next : α → Matcher Lexeme β} (near : first.Near)
    (still : ∀ a, (next a).Still) : (first >>= next).Near := by
  intro here frontier start
  have close := near start
  rcases attempt : first here frontier with ⟨_ | ⟨a, middle⟩, reached⟩
  · rw [attempt] at close
    rw [bind_of_missed next attempt]
    exact close
  · rw [attempt] at close
    rw [bind_of_found next attempt, still a]
    exact close

theorem Misses.silent {matcher : Matcher Lexeme α} (misses : matcher.Misses here)
    (still : matcher.Still) :
    matcher.Silent here := by
  intro frontier
  have found := misses frontier
  have left := still here frontier
  rcases attempt : matcher here frontier with ⟨result, reached⟩
  simp only [attempt] at found left
  rw [found, left]

theorem mark_silent (other : ∀ rest, here.rest ≠ .mark c :: rest) : (mark c).Silent here :=
  (mark_misses other).silent (still_mark c)

theorem word_silent {accept : List Char → Bool}
    (other : ∀ letters rest, accept letters → here.rest ≠ .word letters :: rest) :
    (word accept).Silent here :=
  (word_misses other).silent (still_word accept)

theorem Silent.bind {first : Matcher Lexeme α} (silent : first.Silent here)
    (next : α → Matcher Lexeme β) :
    (first >>= next).Silent here :=
  fun frontier => bind_of_missed next (silent frontier)

theorem Plain.bind_silent {first : Matcher Lexeme α} {next : α → Matcher Lexeme β}
    (plain : first.Plain here a middle) (silent : (next a).Silent middle) :
    (first >>= next).Silent here :=
  fun frontier => (bind_of_found next (plain frontier)).trans (silent frontier)

/-- From a frontier that is not beyond the place, a match leaves nothing wanted behind it. -/
def Tidy (matcher : Matcher Lexeme α) : Prop :=
  ∀ ⦃here frontier a there reached⦄, frontier.place ≤ here.index →
    matcher here frontier = ⟨some (a, there), reached⟩ → reached.place < there.index

/-- The same from a frontier before the place, also where nothing is taken up. -/
def Keeps (matcher : Matcher Lexeme α) : Prop :=
  ∀ ⦃here frontier a there reached⦄, frontier.place < here.index →
    matcher here frontier = ⟨some (a, there), reached⟩ → reached.place < there.index

theorem Tidy.keeps {matcher : Matcher Lexeme α} (tidy : matcher.Tidy) : matcher.Keeps :=
  fun _ _ _ _ _ before matched => tidy (Nat.le_of_lt before) matched

theorem keeps_pure (a : α) : (pure a : Matcher Lexeme α).Keeps := by
  intro here frontier b there reached before matched
  cases matched
  exact before

theorem Tidy.bind {first : Matcher Lexeme α} {next : α → Matcher Lexeme β} (tidy : first.Tidy)
    (keeps : ∀ a, (next a).Keeps) : (first >>= next).Tidy := by
  intro here frontier b there reached near matched
  obtain ⟨a, middle, between, one, two⟩ := of_matched_bind matched
  exact keeps a (tidy near one) two

theorem Keeps.bind {first : Matcher Lexeme α} {next : α → Matcher Lexeme β} (kept : first.Keeps)
    (keeps : ∀ a, (next a).Keeps) : (first >>= next).Keeps := by
  intro here frontier b there reached before matched
  obtain ⟨a, middle, between, one, two⟩ := of_matched_bind matched
  exact keeps a (kept before one) two

theorem Tidy.map {matcher : Matcher Lexeme α} (tidy : matcher.Tidy) (g : α → β) : (g <$> matcher).Tidy :=
  tidy.bind fun a => keeps_pure (g a)

theorem Tidy.named {matcher : Matcher Lexeme α} (tidy : matcher.Tidy) (part : Part) :
    (Matcher.named part matcher).Tidy :=
  fun _ _ _ _ _ near matched => tidy near (of_matched_named matched)

theorem Still.tidy {matcher : Matcher Lexeme α} (still : matcher.Still)
    (spans : ∀ {here frontier a there}, (matcher here frontier).found = some (a, there) →
      ∃ l, here.Spans [l] there) : matcher.Tidy := by
  intro here frontier a there reached near matched
  obtain ⟨l, span⟩ := spans (congrArg Attempt.found matched)
  have same : reached = frontier := (congrArg Attempt.frontier matched).symm.trans (still here frontier)
  rw [same, span.index]
  exact Nat.lt_succ_of_le near

theorem tidy_mark (c : Char) : (mark c).Tidy :=
  (still_mark c).tidy fun found => ⟨_, (of_found_mark found).2⟩

theorem tidy_word (accept : List Char → Bool) : (word accept).Tidy :=
  (still_word accept).tidy fun found =>
    let ⟨_, _, _, spans⟩ := of_found_word found
    ⟨_, spans⟩

/-- Found, from wherever the frontier is not beyond, with nothing wanted behind. -/
def Passes (matcher : Matcher Lexeme α) (here : Cursor Lexeme) (a : α) (there : Cursor Lexeme) : Prop :=
  ∀ frontier, frontier.place ≤ here.index → ∃ reached,
    matcher here frontier = ⟨some (a, there), reached⟩ ∧ reached.place < there.index

theorem Finds.passes {matcher : Matcher Lexeme α} (finds : matcher.Finds here a there)
    (tidy : matcher.Tidy) : matcher.Passes here a there := by
  intro frontier near
  have found := finds frontier
  rcases attempt : matcher here frontier with ⟨_, reached⟩
  rw [attempt] at found
  subst found
  exact ⟨reached, rfl, tidy near attempt⟩

/-- Where nothing is wanted yet, the matcher is missed and leaves just this frontier. -/
def Stops (matcher : Matcher Lexeme α) (here : Cursor Lexeme) (left : Frontier) : Prop :=
  ∀ frontier, frontier.Clear here.index → matcher here frontier = ⟨none, left⟩

theorem Stops.bind {first : Matcher Lexeme α} (stops : first.Stops here left)
    (next : α → Matcher Lexeme β) :
    (first >>= next).Stops here left :=
  fun frontier clear => bind_of_missed next (stops frontier clear)

theorem Passes.bind_stops {first : Matcher Lexeme α} {next : α → Matcher Lexeme β}
    (passes : first.Passes here a middle) (stops : (next a).Stops middle left) :
    (first >>= next).Stops here left := by
  intro frontier clear
  obtain ⟨between, one, before⟩ := passes frontier clear.le
  rw [bind_of_found next one]
  exact stops between (Frontier.clear_of_lt before)

/-- The matcher is missed behind the place, which leaves just this frontier whatever is wanted
there. -/
def Falters (matcher : Matcher Lexeme α) (here : Cursor Lexeme) (left : Frontier) : Prop :=
  ∀ frontier, frontier.place ≤ here.index → matcher here frontier = ⟨none, left⟩

theorem Falters.stops {matcher : Matcher Lexeme α} (falters : matcher.Falters here left) :
    matcher.Stops here left :=
  fun frontier clear => falters frontier clear.le

theorem Plain.bind_falters {first : Matcher Lexeme α} {next : α → Matcher Lexeme β}
    (plain : first.Plain here a middle) (moves : here.index < middle.index)
    (stops : (next a).Stops middle left) : (first >>= next).Falters here left := by
  intro frontier near
  rw [bind_of_found next (plain frontier)]
  exact stops frontier (Frontier.clear_of_lt (Nat.lt_of_le_of_lt near moves))

/-- A part that is missed at once is wanted. -/
theorem Silent.named_stops {matcher : Matcher Lexeme α} (silent : matcher.Silent here) (part : Part) :
    (named part matcher).Stops here ⟨here.index, [part]⟩ := by
  intro frontier clear
  rw [named_of_missed part (silent frontier), clear.count, clear.miss]

theorem Silent.place_named_le {matcher : Matcher Lexeme α} (silent : matcher.Silent here) (part : Part)
    (near : frontier.place ≤ here.index)
    (missed : named part matcher here frontier = ⟨none, reached⟩) : reached.place ≤ here.index := by
  rw [named_of_missed part (silent frontier)] at missed
  cases missed
  exact Frontier.place_miss_le part _ near

/-- A part is not wanted before the frontier that its attempt left. -/
theorem named_of_missed_beyond {matcher : Matcher Lexeme α} (part : Part)
    (missed : matcher here frontier = ⟨none, reached⟩) (beyond : here.index < reached.place) :
    named part matcher here frontier = ⟨none, reached⟩ := by
  rw [named_of_missed part missed, Frontier.miss_of_lt beyond]

/-- Behind others wanted at its place such a part is wanted as well. -/
theorem Silent.named_adds {matcher : Matcher Lexeme α} (silent : matcher.Silent here) (part : Part)
    (wanted : List Part) :
    named part matcher here ⟨here.index, wanted⟩ = ⟨none, ⟨here.index, wanted ++ [part]⟩⟩ := by
  rw [named_of_missed part (silent _)]
  simp [Frontier.miss, Frontier.count]

/-- A part that comes to a single other one, which is missing, is told by that one. -/
theorem named_adds_child {matcher : Matcher Lexeme α} (part : Part)
    (missed : matcher here ⟨here.index, wanted⟩ = ⟨none, ⟨here.index, wanted ++ [child]⟩⟩) :
    named part matcher here ⟨here.index, wanted⟩ = ⟨none, ⟨here.index, wanted ++ [child]⟩⟩ := by
  rw [named_of_missed part missed]
  simp [Frontier.miss, Frontier.count]

/-- What is wanted beyond the place at which a part begins is told instead of the part. -/
theorem Stops.named_beyond {matcher : Matcher Lexeme α} (stops : matcher.Stops here left) (part : Part)
    (beyond : here.index < left.place) : (named part matcher).Stops here left :=
  fun frontier clear => named_of_missed_beyond part (stops frontier clear) beyond

/-- A single part wanted where another one begins is told instead of that one. -/
theorem Stops.named_child {matcher : Matcher Lexeme α} (stops : matcher.Stops here ⟨here.index, [child]⟩)
    (part : Part) : (named part matcher).Stops here ⟨here.index, [child]⟩ := by
  intro frontier clear
  rw [named_of_missed part (stops frontier clear), clear.count]
  simp [Frontier.miss, Frontier.count]

section Series

variable {item : Matcher Lexeme α}

theorem repeatedUpTo_of_matched
    (one : commaThen item here frontier = ⟨some (a, middle), between⟩)
    (others : repeatedUpTo (commaThen item) n middle between = ⟨some (as, there), reached⟩) :
    repeatedUpTo (commaThen item) (n + 1) here frontier = ⟨some (a :: as, there), reached⟩ := by
  refine orElse_of_matched _ ?_
  rw [bind_of_found _ one, bind_of_found _ others]
  rfl

theorem repeatedUpTo_of_missed (missed : commaThen item here frontier = ⟨none, reached⟩) (n : Nat) :
    repeatedUpTo (commaThen item) (n + 1) here frontier = ⟨some ([], here), reached⟩ := by
  rw [repeatedUpTo, orElse_of_missed _ (bind_of_missed _ missed)]
  rfl

theorem commaList_of_matched (one : item here frontier = ⟨some (a, middle), between⟩)
    (others : repeatedUpTo (commaThen item) (middle.rest.length + 1) middle between =
      ⟨some (as, there), reached⟩) :
    commaList item here frontier = ⟨some (a :: as, there), reached⟩ := by
  have repeats : repeated (commaThen item) middle between = ⟨some (as, there), reached⟩ := others
  have body : (do return (← item) :: (← repeated (commaThen item)) : Matcher Lexeme (List α))
      here frontier =
      ⟨some (a :: as, there), reached⟩ := by
    rw [bind_of_found _ one, bind_of_found _ repeats]
    rfl
  have offered : optional (do return (← item) :: (← repeated (commaThen item))) here frontier =
      ⟨some (some (a :: as), there), reached⟩ :=
    orElse_of_matched _ (bind_of_found _ body)
  exact bind_of_found _ offered

theorem commaList_of_missed (missed : item here frontier = ⟨none, reached⟩) :
    commaList item here frontier = ⟨some ([], here), reached⟩ := by
  have offered : optional (do return (← item) :: (← repeated (commaThen item))) here frontier =
      ⟨some (none, here), reached⟩ :=
    orElse_of_missed _ (bind_of_missed _ (bind_of_missed _ missed))
  exact bind_of_found _ offered

/-- Matching goes on with the members of a series: with the first one, or with one behind a comma,
which is counted among as many more as there may be. -/
def members (item : Matcher Lexeme α) (n : Nat) (first : Bool) : Matcher Lexeme (List α) := fun here =>
  if first then commaList item here
  else repeatedUpTo (commaThen item) (n + 1) ⟨here.index - 1, .mark ',' :: here.rest⟩

theorem commaThen_behind (item : Matcher Lexeme α) (behind : 0 < here.index) :
    commaThen item ⟨here.index - 1, .mark ',' :: here.rest⟩ frontier = item here frontier := by
  have comma := (plain_mark ',' (here.index - 1) here.rest).named .comma
  have spot : (⟨here.index - 1 + 1, here.rest⟩ : Cursor Lexeme) = here := by
    rw [Nat.sub_add_cancel behind]
  rw [commaThen]
  exact (bind_of_found _ (comma frontier)).trans (by rw [spot])

theorem members_of_matched (behind : 0 < here.index)
    (one : item here frontier = ⟨some (a, middle), between⟩)
    (others : repeatedUpTo (commaThen item) (if first then middle.rest.length + 1 else n) middle
      between = ⟨some (as, there), reached⟩) :
    members item n first here frontier = ⟨some (a :: as, there), reached⟩ := by
  cases first with
  | true => exact commaList_of_matched one others
  | false => exact repeatedUpTo_of_matched ((commaThen_behind item behind).trans one) others

/-- The list is found and what should close it is missing, which leaves just this frontier. -/
def Unclosed (list : Matcher Lexeme (List α)) (closer : Matcher Lexeme Nat) (here : Cursor Lexeme)
    (left : Frontier) :
    Prop :=
  ∀ frontier, frontier.Clear here.index → ∃ items there reached,
    list here frontier = ⟨some (items, there), reached⟩ ∧ closer there reached = ⟨none, left⟩

theorem Unclosed.stops {list : Matcher Lexeme (List α)} {closer : Matcher Lexeme Nat}
    (unclosed : Unclosed list closer here left) (next : List α → Nat → Matcher Lexeme β) :
    (list >>= fun items => closer >>= next items).Stops here left := by
  intro frontier clear
  obtain ⟨items, there, reached, found, missed⟩ := unclosed frontier clear
  exact (bind_of_found _ found).trans (bind_of_missed _ missed)

variable {part : Part} {c : Char} {place : Nat} {rest : List Lexeme} {first : Bool} {n : Nat}

/-- The first member breaks off beyond its start. -/
theorem Stops.unclosed_beyond (stops : item.Stops here left) (beyond : here.index < left.place)
    (other : ∀ more, here.rest ≠ .mark c :: more) :
    Unclosed (members item n true) (named part (mark c)) here left := by
  intro frontier clear
  refine ⟨[], here, left, commaList_of_missed (stops frontier clear), ?_⟩
  exact named_of_missed_beyond part (mark_silent other left) beyond

/-- The first member is missing at once, so that the series might as well be closed. -/
theorem Stops.unclosed_first (stops : item.Stops here ⟨here.index, wanted⟩)
    (other : ∀ more, here.rest ≠ .mark c :: more) :
    Unclosed (members item n true) (named part (mark c)) here ⟨here.index, wanted ++ [part]⟩ := by
  intro frontier clear
  refine ⟨[], here, _, commaList_of_missed (stops frontier clear), ?_⟩
  exact (mark_silent other).named_adds part wanted

/-- A member behind a comma breaks off, at its start or beyond. What might close the series is then
tried before the comma, where nothing is wanted any more. -/
theorem Stops.unclosed_next (stops : item.Stops here left) (reaches : here.index ≤ left.place)
    (behind : 0 < here.index) (apart : c ≠ ',') :
    Unclosed (members item n false) (named part (mark c)) here left := by
  intro frontier clear
  have missed := (commaThen_behind item behind).trans (stops frontier clear)
  refine ⟨[], _, left, repeatedUpTo_of_missed missed n, ?_⟩
  exact named_of_missed_beyond part (mark_silent (by simp [apart.symm]) left) (by simp only; omega)

/-- A member is missing where the series might as well be closed, if it is the first one. -/
theorem Stops.unclosed_start (stops : item.Stops here ⟨here.index, wanted⟩)
    (behind : 0 < here.index) (apart : c ≠ ',')
    (other : first → ∀ more, here.rest ≠ .mark c :: more) :
    Unclosed (members item n first) (named part (mark c)) here
      ⟨here.index, wanted ++ if first then [part] else []⟩ := by
  cases first with
  | true => exact stops.unclosed_first (other rfl)
  | false => simpa using stops.unclosed_next (Nat.le_refl _) behind apart

/-- A member breaks off beyond its start. -/
theorem Stops.unclosed_within (stops : item.Stops here left) (beyond : here.index < left.place)
    (behind : 0 < here.index) (apart : c ≠ ',') (other : ∀ more, here.rest ≠ .mark c :: more) :
    Unclosed (members item n first) (named part (mark c)) here left := by
  cases first with
  | true => exact stops.unclosed_beyond beyond other
  | false => exact stops.unclosed_next (Nat.le_of_lt beyond) behind apart

/-- A member is complete, and neither a comma nor what closes the series follows. -/
theorem Passes.unclosed_behind (passes : item.Passes here a there) (behind : 0 < here.index)
    (some : 0 < n) (more : ∀ l rest, there.rest = l :: rest → l ≠ .mark ',' ∧ l ≠ .mark c) :
    Unclosed (members item n first) (named part (mark c)) here ⟨there.index, [.comma, part]⟩ := by
  intro frontier clear
  obtain ⟨between, one, before⟩ := passes frontier clear.le
  have comma : (commaThen item).Stops there ⟨there.index, [.comma]⟩ :=
    ((mark_silent fun rest same => (more _ rest same).1 rfl).named_stops .comma).bind _
  obtain ⟨k, some⟩ : ∃ k, (if first then there.rest.length + 1 else n) = k + 1 :=
    ⟨_, (Nat.sub_add_cancel (by split <;> omega)).symm⟩
  have others := repeatedUpTo_of_missed (comma between (Frontier.clear_of_lt before)) k
  refine ⟨_, _, _, members_of_matched behind one (some ▸ others), ?_⟩
  exact (mark_silent fun rest same => (more _ rest same).2 rfl).named_adds part _

/-- A member is complete, and the series breaks off behind the comma that follows. -/
theorem Passes.unclosed_more (passes : item.Passes here a ⟨place, .mark ',' :: rest⟩)
    (behind : 0 < here.index) (bound : k < n) (room : k ≤ rest.length)
    (unclosed : ∀ m, k ≤ m → Unclosed (members item m false) closer ⟨place + 1, rest⟩ left) :
    Unclosed (members item n first) closer here left := by
  intro frontier clear
  obtain ⟨between, one, before⟩ := passes frontier clear.le
  have room : k < if first then (Lexeme.mark ',' :: rest).length + 1 else n := by
    cases first <;> simp <;> omega
  obtain ⟨m, enough, same⟩ : ∃ m, k ≤ m ∧
      (if first then (Lexeme.mark ',' :: rest).length + 1 else n) = m + 1 :=
    ⟨_, Nat.le_sub_one_of_lt room, (Nat.sub_add_cancel (Nat.zero_lt_of_lt room)).symm⟩
  have clear : between.Clear (place + 1) := Frontier.clear_of_lt (Nat.lt_succ_of_lt before)
  obtain ⟨items, there, reached, others, missed⟩ := unclosed m enough between clear
  exact ⟨a :: items, there, reached, members_of_matched behind one (same ▸ others), missed⟩

theorem place_le_of_repeatedUpTo (tidy : item.Tidy) (apart : c ≠ ',')
    (before : frontier.place < here.index)
    (matched : repeatedUpTo (commaThen item) n here frontier = ⟨some (items, there), reached⟩)
    (closes : there.rest = .mark c :: rest) : reached.place ≤ there.index := by
  induction n generalizing here frontier items with
  | zero =>
    cases matched
    exact Nat.le_of_lt before
  | succ n ih =>
    rcases of_matched_orElse matched with again | ⟨between, missed, stopped⟩
    · obtain ⟨_, middle, _, one, more⟩ := of_matched_bind again
      obtain ⟨_, _, _, others, done⟩ := of_matched_bind more
      cases done
      have comma : comma.Tidy := (tidy_mark ',').named .comma
      exact ih (comma.bind (fun _ => tidy.keeps) (Nat.le_of_lt before) one) others
    · cases stopped
      -- What closes the series is no comma, so that the next member was missed before it began.
      have comma : comma.Stops there ⟨there.index, [.comma]⟩ :=
        (mark_silent (by simp [closes, apart])).named_stops .comma
      have start := (comma.bind fun _ => item) frontier (Frontier.clear_of_lt before)
      have left := (bind_of_missed _ start).symm.trans missed
      exact Nat.le_of_eq (congrArg (fun attempt => attempt.frontier.place) left).symm

theorem repeatedUpTo_found (item : Matcher Lexeme α) (n : Nat) (here : Cursor Lexeme)
    (frontier : Frontier) :
    ((repeatedUpTo item n here frontier).found).isSome := by
  cases n with
  | zero => rfl
  | succ n =>
    rw [repeatedUpTo, found_orElse, Option.isSome_or]
    exact Bool.or_true _

/-- Where the mark stands, trying the matcher enters nothing beyond the mark. -/
def Shuns (matcher : Matcher Lexeme α) (c : Char) : Prop :=
  ∀ ⦃here frontier rest⦄, frontier.place < here.index → here.rest = .mark c :: rest →
    (matcher here frontier).frontier.place ≤ here.index

theorem place_le_of_commaList (tidy : item.Tidy) (apart : c ≠ ',') (shuns : item.Shuns c)
    (before : frontier.place < here.index)
    (matched : commaList item here frontier = ⟨some (items, there), reached⟩)
    (closes : there.rest = .mark c :: rest) : reached.place ≤ there.index := by
  rcases one : item here frontier with ⟨_ | ⟨a, middle⟩, between⟩
  · obtain ⟨⟨rfl, rfl⟩, rfl⟩ : (items = [] ∧ here = there) ∧ between = reached := by
      simpa using (commaList_of_missed one).symm.trans matched
    have near := shuns before closes
    rw [one] at near
    exact near
  · have found := repeatedUpTo_found (commaThen item) (middle.rest.length + 1) middle between
    obtain ⟨⟨as, last⟩, some⟩ := Option.isSome_iff_exists.mp found
    rcases others : repeatedUpTo (commaThen item) (middle.rest.length + 1) middle between with ⟨_, r⟩
    rw [others] at some
    subst some
    have same := (commaList_of_matched one others).symm.trans matched
    obtain ⟨⟨rfl, rfl⟩, rfl⟩ : (_ = items ∧ last = there) ∧ r = reached := by simpa using same
    exact place_le_of_repeatedUpTo tidy apart (tidy (Nat.le_of_lt before) one) others closes

/-- Behind a series and what closes it nothing is wanted, whatever was tried on the way. -/
theorem Tidy.commaList_keeps (tidy : item.Tidy) (apart : c ≠ ',') (shuns : item.Shuns c)
    {next : List α → Nat → Matcher Lexeme β} (keeps : ∀ items place, (next items place).Keeps) :
    (commaList item >>= fun items => Matcher.named part (mark c) >>= next items).Keeps := by
  intro here frontier b there reached before matched
  obtain ⟨items, middle, between, listed, more⟩ := of_matched_bind matched
  obtain ⟨place, last, left, closed, done⟩ := of_matched_bind more
  have closes := (of_found_mark (congrArg Attempt.found (of_matched_named closed))).2.rest
  have near := place_le_of_commaList tidy apart shuns before listed closes
  exact keeps items place (((tidy_mark c).named part) near closed) done

end Series

end Matcher

end SessionSyntax
