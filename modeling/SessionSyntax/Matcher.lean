/-! Matchers read a phrase off the front of a list, of characters or of lexemes. Choice is ordered:
the second alternative is tried only where the first one fails, and a match once made is not revised.
Besides its result a matcher keeps the *frontier*: the furthest place at which a named part of the
grammar was wanted and missing, and the parts wanted there. The frontier outlives failed attempts,
so that the message for a text that does not match can tell what would have gone on. -/
namespace SessionSyntax

/-- The named parts of the grammar, in the order in which a message lists them. -/
inductive Part where
  | identifier
  | payloadType
  | basic
  | list
  | tuple
  | sessionType
  | done
  | receive
  | send
  | handler
  | branch
  | colon
  | dot
  | comma
  | closeParen
  | closeBrace
  deriving DecidableEq, Repr

namespace Part

def all : List Part := [
  identifier, payloadType, basic, list, tuple, sessionType, done, receive, send, handler, branch,
  colon, dot, comma, closeParen, closeBrace]

def describe : Part → String
  | identifier => "an identifier"
  | payloadType => "a payload type"
  | basic => "a basic type (string, number, unit, boolean)"
  | list => "a list type `basic[]`"
  | tuple => "a tuple type `(...)`"
  | sessionType => "a session type"
  | done => "`end`"
  | receive => "a receive block `&role:\x7b...\x7d`"
  | send => "a send block `+role:\x7b...\x7d`"
  | handler => "a handler name"
  | branch => "a branch `label(payload).continuation`"
  | colon => "`:`"
  | dot => "`.`"
  | comma => "`,`"
  | closeParen => "`)`"
  | closeBrace => "`\x7d`"

/-- The given parts in the order of `all`, each once. -/
def sorted (parts : List Part) : List Part := all.filter (· ∈ parts)

theorem mem_all (part : Part) : part ∈ all := by cases part <;> decide

@[simp] theorem mem_sorted {part : Part} {parts : List Part} :
    part ∈ sorted parts ↔ part ∈ parts := by simp [sorted, mem_all]

end Part

/-- Items as a choice in prose, with a comma before the last `or` only from three items on. -/
def alternatives : List String → String
  | [] => ""
  | [one] => one
  | [one, other] => one ++ " or " ++ other
  | items => String.intercalate ", " items.dropLast ++ ", or " ++ items.getLastD ""

/-- A place in a list: how much precedes it, and what follows. Lexemes are counted one by one,
characters by their bytes. -/
structure Cursor (τ : Type) where
  index : Nat
  rest : List τ

/-- The furthest place of a missing part, and the parts wanted there in the order in which they
were tried. -/
structure Frontier where
  place : Nat
  wanted : List Part
  deriving DecidableEq, Repr

namespace Frontier

def initial : Frontier := ⟨0, []⟩

/-- How many parts are wanted at a place. -/
def count (frontier : Frontier) (place : Nat) : Nat :=
  if frontier.place = place then frontier.wanted.length else 0

/-- Enters a part that is missing at `place`, where `before` parts were wanted when it was first
tried. If trying it added just one part there, that part tells more and stays; otherwise the part
takes the place of whatever trying it added. Places behind the frontier are not entered. -/
def miss (frontier : Frontier) (part : Part) (place before : Nat) : Frontier :=
  if frontier.count place = before + 1 then frontier
  else if frontier.place < place then ⟨place, [part]⟩
  else if frontier.place = place then ⟨place, frontier.wanted.take before ++ [part]⟩
  else frontier

end Frontier

/-- What came of trying a matcher. -/
structure Attempt (τ α : Type) where
  found : Option (α × Cursor τ)
  frontier : Frontier

def Matcher (τ α : Type) : Type := Cursor τ → Frontier → Attempt τ α

namespace Matcher

instance : Monad (Matcher τ) where
  pure a := fun cursor frontier => ⟨some (a, cursor), frontier⟩
  bind first next := fun cursor frontier =>
    match first cursor frontier with
    | ⟨some (a, cursor), frontier⟩ => next a cursor frontier
    | ⟨none, frontier⟩ => ⟨none, frontier⟩

def fail : Matcher τ α := fun _ frontier => ⟨none, frontier⟩

def orElse (first second : Matcher τ α) : Matcher τ α := fun cursor frontier =>
  match first cursor frontier with
  | ⟨none, frontier⟩ => second cursor frontier
  | found => found

instance : OrElse (Matcher τ α) := ⟨fun first second => orElse first (second ())⟩

def optional (matcher : Matcher τ α) : Matcher τ (Option α) :=
  (some <$> matcher) <|> pure none

/-- As many matches as there are, at most the given number. -/
def repeatedUpTo (matcher : Matcher τ α) : Nat → Matcher τ (List α)
  | 0 => pure []
  | n + 1 => (do return (← matcher) :: (← repeatedUpTo matcher n)) <|> pure []

/-- As many matches as there are, directly one after the other. Each match takes up something, so
that their number is bounded by what follows. -/
def repeated (matcher : Matcher τ α) : Matcher τ (List α) := fun cursor =>
  repeatedUpTo matcher (cursor.rest.length + 1) cursor

/-- A named part of the grammar, entered in the frontier where it is missing. -/
def named (part : Part) (matcher : Matcher τ α) : Matcher τ α := fun cursor frontier =>
  match matcher cursor frontier with
  | ⟨none, reached⟩ =>
    ⟨none, reached.miss part cursor.index (frontier.count cursor.index)⟩
  | found => found

section Attempts

variable {frontier reached : Frontier}

theorem bind_of_found {first : Matcher τ α} (next : α → Matcher τ β)
    (found : first here frontier = ⟨some (a, there), reached⟩) :
    (first >>= next) here frontier = next a there reached := by
  simp only [bind, found]

theorem bind_of_missed {first : Matcher τ α} (next : α → Matcher τ β)
    (missed : first here frontier = ⟨none, reached⟩) :
    (first >>= next) here frontier = ⟨none, reached⟩ := by
  simp only [bind, missed]

theorem found_bind (first : Matcher τ α) (next : α → Matcher τ β) (here : Cursor τ)
    (frontier : Frontier) :
    ((first >>= next) here frontier).found = (first here frontier).found.bind fun result =>
      (next result.1 result.2 (first here frontier).frontier).found := by
  rcases attempt : first here frontier with ⟨_ | ⟨a, there⟩, reached⟩
  · simp [bind_of_missed next attempt]
  · simp [bind_of_found next attempt]

theorem of_found_bind {first : Matcher τ α} {next : α → Matcher τ β}
    (found : ((first >>= next) here frontier).found = some (b, there)) :
    ∃ a middle reached, (first here frontier).found = some (a, middle) ∧
      (next a middle reached).found = some (b, there) := by
  rw [found_bind, Option.bind_eq_some_iff] at found
  obtain ⟨⟨a, middle⟩, one, two⟩ := found
  exact ⟨a, middle, _, one, two⟩

theorem of_found_pure {a b : α}
    (found : ((pure a : Matcher τ α) here frontier).found = some (b, there)) :
    b = a ∧ there = here := by
  cases found; exact ⟨rfl, rfl⟩

theorem of_found_map {matcher : Matcher τ α} {g : α → β}
    (found : ((g <$> matcher) here frontier).found = some (b, there)) :
    ∃ a, (matcher here frontier).found = some (a, there) ∧ b = g a := by
  obtain ⟨a, middle, _, one, two⟩ := of_found_bind found
  obtain ⟨rfl, rfl⟩ := of_found_pure two
  exact ⟨a, one, rfl⟩

@[simp] theorem found_orElse (first second : Matcher τ α) (here : Cursor τ) (frontier : Frontier) :
    ((first <|> second) here frontier).found = (first here frontier).found.or
      (second here (first here frontier).frontier).found := by
  rcases attempt : first here frontier with ⟨_ | ⟨a, there⟩, reached⟩
  · simp [HOrElse.hOrElse, OrElse.orElse, orElse, attempt]
  · simp [HOrElse.hOrElse, OrElse.orElse, orElse, attempt]

theorem of_found_orElse {first second : Matcher τ α}
    (found : ((first <|> second) here frontier).found = some (a, there)) :
    (first here frontier).found = some (a, there) ∨
      (first here frontier).found = none ∧
        ∃ reached, (second here reached).found = some (a, there) := by
  rw [found_orElse] at found
  rcases Option.or_eq_some_iff.mp found with taken | ⟨missed, taken⟩
  · exact .inl taken
  · exact .inr ⟨missed, _, taken⟩

@[simp] theorem found_named (part : Part) (matcher : Matcher τ α) (here : Cursor τ)
    (frontier : Frontier) :
    (named part matcher here frontier).found = (matcher here frontier).found := by
  unfold named
  rcases matcher here frontier with ⟨_ | _, reached⟩ <;> rfl

theorem of_found_optional {matcher : Matcher τ α}
    (found : (optional matcher here frontier).found = some (chosen, there)) :
    (∃ a, chosen = some a ∧ (matcher here frontier).found = some (a, there)) ∨
      chosen = none ∧ there = here := by
  rcases of_found_orElse found with mapped | ⟨_, _, skipped⟩
  · obtain ⟨a, matched, rfl⟩ := of_found_map mapped
    exact .inl ⟨a, rfl, matched⟩
  · exact .inr (of_found_pure skipped)

theorem of_matched_bind {first : Matcher τ α} {next : α → Matcher τ β}
    (matched : (first >>= next) here frontier = ⟨some (b, there), reached⟩) :
    ∃ a middle between, first here frontier = ⟨some (a, middle), between⟩ ∧
      next a middle between = ⟨some (b, there), reached⟩ := by
  rcases attempt : first here frontier with ⟨_ | ⟨a, middle⟩, between⟩
  · rw [bind_of_missed next attempt] at matched
    cases matched
  · rw [bind_of_found next attempt] at matched
    exact ⟨a, middle, between, rfl, matched⟩

theorem orElse_of_matched {first : Matcher τ α} (second : Matcher τ α)
    (matched : first here frontier = ⟨some (a, there), reached⟩) :
    (first <|> second) here frontier = ⟨some (a, there), reached⟩ := by
  simp only [HOrElse.hOrElse, OrElse.orElse, orElse, matched]

theorem orElse_of_missed {first : Matcher τ α} (second : Matcher τ α)
    (missed : first here frontier = ⟨none, reached⟩) :
    (first <|> second) here frontier = second here reached := by
  simp only [HOrElse.hOrElse, OrElse.orElse, orElse, missed]

/-- The second alternative matched only after the first had been missed. -/
theorem of_matched_orElse {first second : Matcher τ α}
    (matched : (first <|> second) here frontier = ⟨some (a, there), reached⟩) :
    first here frontier = ⟨some (a, there), reached⟩ ∨
      ∃ between, first here frontier = ⟨none, between⟩ ∧
        second here between = ⟨some (a, there), reached⟩ := by
  rcases attempt : first here frontier with ⟨_ | ⟨b, middle⟩, between⟩
  · rw [orElse_of_missed second attempt] at matched
    exact .inr ⟨between, rfl, matched⟩
  · rw [orElse_of_matched second attempt] at matched
    exact .inl matched

theorem named_of_matched {matcher : Matcher τ α} (part : Part)
    (matched : matcher here frontier = ⟨some (a, there), reached⟩) :
    named part matcher here frontier = ⟨some (a, there), reached⟩ := by
  simp only [named, matched]

theorem named_of_missed {matcher : Matcher τ α} (part : Part)
    (missed : matcher here frontier = ⟨none, reached⟩) :
    named part matcher here frontier =
      ⟨none, reached.miss part here.index (frontier.count here.index)⟩ := by
  simp only [named, missed]

theorem of_matched_named {matcher : Matcher τ α}
    (matched : named part matcher here frontier = ⟨some (a, there), reached⟩) :
    matcher here frontier = ⟨some (a, there), reached⟩ := by
  rcases attempt : matcher here frontier with ⟨_ | ⟨b, middle⟩, between⟩
  · rw [named_of_missed part attempt] at matched
    cases matched
  · rw [named_of_matched part attempt] at matched
    exact matched

end Attempts

end Matcher

end SessionSyntax
