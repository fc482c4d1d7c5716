import SessionSyntax.Proofs.Building
import SessionSyntax.Proofs.Places

/-! The guard bounds the recursion. Sessions and payloads inside one another stand behind brackets
that are still open, so an allowance of one more than the limit on nesting is never exceeded, on
texts that are refused as on those that are accepted. The count of the guard may be lower than the
number of brackets that are open, but wherever matching goes, what follows keeps to the count that
belongs there: `Under` is kept by all that is matched. What would happen beyond the allowance is left
open, so that a reader which does the same for every choice of it never goes there. -/
namespace SessionSyntax

/-- What an invocation beyond the allowance does. -/
structure Beyond where
  payload : Rule PayloadShape
  session : Rule SessionShape
  buildPayload : PayloadShape → Except Fault Payload
  buildSession : SessionShape → Logged Session

/-- Nothing is matched beyond the allowance. -/
def Beyond.nothing : Beyond := ⟨Matcher.fail, Matcher.fail, PayloadShape.build, SessionShape.build⟩

namespace Rule

def payloadWithin (beyond : Beyond) : Nat → Rule PayloadShape
  | 0 => beyond.payload
  | n + 1 => payloadOver (payloadWithin beyond n)

def sessionWithin (beyond : Beyond) : Nat → Rule SessionShape
  | 0 => beyond.session
  | n + 1 => sessionOver (payloadWithin beyond n) (sessionWithin beyond n)

end Rule

/-- Builds a payload whose elements are built by `element`. -/
def PayloadShape.buildOver (element : PayloadShape → Except Fault Payload) :
    PayloadShape → Except Fault Payload
  | .basic name => do return .basic (← name.kind)
  | .list name => do return .list (← name.kind)
  | .tuple opening elements closing => do
    match NonEmpty.ofList? (← elements.mapM element) with
    | some elements => return .tuple elements
    | none => throw (.emptyCollection opening closing .tupleElements)

def PayloadShape.buildWithin (beyond : Beyond) : Nat → PayloadShape → Except Fault Payload
  | 0 => beyond.buildPayload
  | n + 1 => PayloadShape.buildOver (PayloadShape.buildWithin beyond n)

def BranchShape.buildOver (payload : PayloadShape → Except Fault Payload)
    (continuation : SessionShape → Logged Session) (branch : BranchShape) : Logged Branch := do
  let payload ← Logged.ofExcept (payload branch.payload)
  return ⟨branch.label.symbol, payload, ← continuation branch.continuation⟩

/-- Builds a session whose payloads and continuations are built by the given functions. -/
def SessionShape.buildOver (payload : PayloadShape → Except Fault Payload)
    (continuation : SessionShape → Logged Session) : SessionShape → Logged Session
  | .done _ => return .done
  | .handler name => do
    Logged.note (.handler name.symbol)
    return .handler name.symbol
  | .choice polarity sign role branches closing => do
    match NonEmpty.ofList? (← branches.mapM (BranchShape.buildOver payload continuation)) with
    | some branches =>
      Logged.note (.choice role.symbol branches.size)
      return .choice polarity role.symbol branches
    | none => Logged.fail (.emptyCollection sign closing .branches)

def SessionShape.buildWithin (beyond : Beyond) : Nat → SessionShape → Logged Session
  | 0 => beyond.buildSession
  | n + 1 => SessionShape.buildOver (PayloadShape.buildWithin beyond n)
      (SessionShape.buildWithin beyond n)

def sessionReaderWithin (beyond : Beyond) (allowance : Nat) : Reader SessionShape Session :=
  ⟨sessionReader.title, fun _ => Rule.sessionWithin beyond allowance,
    SessionShape.buildWithin beyond allowance⟩

def payloadReaderWithin (beyond : Beyond) (allowance : Nat) : Reader PayloadShape Payload :=
  ⟨payloadReader.title, fun _ => Rule.payloadWithin beyond allowance,
    fun shape => .ofExcept (PayloadShape.buildWithin beyond allowance shape)⟩

namespace Matcher

/-- Where `before` holds both matchers do the same, down to the frontier, and `after` holds of what
they find. -/
def Agree (before : Cursor τ → Prop) (first second : Matcher τ α) (after : α → Cursor τ → Prop) : Prop :=
  ∀ here, before here → first here = second here ∧
    ∀ frontier a there, (second here frontier).found = some (a, there) → after a there

section Agree

variable {before : Cursor τ → Prop} {first second : Matcher τ α} {after : α → Cursor τ → Prop}

theorem agree_pure (a : α) : Agree (after a) (pure a) (pure a) after := by
  refine fun here start => ⟨rfl, fun frontier b there found => ?_⟩
  obtain ⟨rfl, rfl⟩ := of_found_pure found
  exact start

theorem Agree.bind {next follow : α → Matcher τ β} {last : β → Cursor τ → Prop}
    (one : Agree before first second after) (two : ∀ a, Agree (after a) (next a) (follow a) last) :
    Agree before (first >>= next) (second >>= follow) last := by
  intro here start
  obtain ⟨same, found⟩ := one here start
  constructor
  · funext frontier
    rcases attempt : second here frontier with ⟨_ | ⟨a, there⟩, reached⟩
    · have missed := bind_of_missed next (same.symm ▸ attempt)
      exact missed.trans (bind_of_missed follow attempt).symm
    · have behind := found frontier a there (by rw [attempt])
      calc (first >>= next) here frontier = next a there reached :=
            bind_of_found next (same.symm ▸ attempt)
        _ = follow a there reached := congrFun (two a there behind).1 reached
        _ = (second >>= follow) here frontier := (bind_of_found follow attempt).symm
  · intro frontier b there both
    obtain ⟨a, middle, reached, matched, rest⟩ := of_found_bind both
    exact (two a middle (found frontier a middle matched)).2 reached b there rest

theorem Agree.orElse {third fourth : Matcher τ α} (one : Agree before first second after)
    (two : Agree before third fourth after) :
    Agree before (first <|> third) (second <|> fourth) after := by
  intro here start
  constructor
  · funext frontier
    simp only [HOrElse.hOrElse, OrElse.orElse, Matcher.orElse, (one here start).1,
      (two here start).1]
  · intro frontier a there found
    rcases of_found_orElse found with found | ⟨_, reached, found⟩
    · exact (one here start).2 frontier a there found
    · exact (two here start).2 reached a there found

theorem Agree.map {g : α → β} {last : β → Cursor τ → Prop}
    (agree : Agree before first second fun a => last (g a)) :
    Agree before (g <$> first) (g <$> second) last :=
  agree.bind fun a => agree_pure (g a)

theorem Agree.named (part : Part) (agree : Agree before first second after) :
    Agree before (named part first) (named part second) after := by
  intro here start
  constructor
  · funext frontier
    rw [Matcher.named, Matcher.named, (agree here start).1]
  · intro frontier a there found
    rw [found_named] at found
    exact (agree here start).2 frontier a there found

theorem Agree.optional {chosen : Option α → Cursor τ → Prop}
    (agree : Agree before first second fun a => chosen (some a))
    (skip : ∀ here, before here → chosen none here) :
    Agree before (optional first) (optional second) chosen := by
  refine Agree.orElse (Agree.map (g := some) agree) fun here start => ?_
  exact agree_pure none here (skip here start)

end Agree

section Series

variable {inside : Cursor τ → Prop} {first second : Matcher τ α} {holds : α → Prop}

/-- All members are as they should be, and so is the place behind them. -/
def Members (holds : α → Prop) (inside : Cursor τ → Prop) (items : List α) (there : Cursor τ) : Prop :=
  (∀ a ∈ items, holds a) ∧ inside there

theorem Agree.cons {others more : Matcher τ (List α)}
    (one : Agree inside first second fun a there => holds a ∧ inside there)
    (rest : Agree inside others more (Members holds inside)) :
    Agree inside (do return (← first) :: (← others)) (do return (← second) :: (← more))
      (Members holds inside) := by
  refine one.bind fun a here start => ?_
  refine (rest.bind fun items => ?_) here start.2
  refine fun here rest => agree_pure (a :: items) here ⟨?_, rest.2⟩
  exact List.forall_mem_cons.mpr ⟨start.1, rest.1⟩

theorem agree_nil (holds : α → Prop) (inside : Cursor τ → Prop) :
    Agree inside (pure []) (pure []) (Members holds inside) :=
  fun here start => agree_pure [] here ⟨by simp, start⟩

theorem Agree.repeatedUpTo (agree : Agree inside first second fun a there => holds a ∧ inside there)
    (n : Nat) : Agree inside (repeatedUpTo first n) (repeatedUpTo second n) (Members holds inside) := by
  induction n with
  | zero => exact agree_nil holds inside
  | succ n ih => exact (agree.cons ih).orElse (agree_nil holds inside)

end Series

end Matcher

namespace Rule

open Matcher (Agree Members agree_pure agree_nil)

/-- Behind the place nothing exceeds the bound if the count is at `depth` there. -/
def Under (bound depth : Nat) (here : Cursor Char) : Prop :=
  ∀ before, before <+: here.rest → before.foldl Text.nest depth ≤ bound

theorem Under.le (under : Under bound depth here) : depth ≤ bound := under [] here.rest.nil_prefix

theorem Under.behind (under : Under bound depth here) (still : ∀ c ∈ taken, Text.nest depth c = depth)
    (split : here.rest = taken ++ there.rest) : Under bound depth there := by
  rw [Under, split] at under
  exact (Text.forall_prefix_append depth still there.rest).mp under

theorem agree_blanks : Agree (Under bound depth) blanks blanks fun _ => Under bound depth := by
  refine fun here under => ⟨rfl, fun frontier _ there found => ?_⟩
  rw [blanks_eq] at found
  cases found
  refine under.behind ?_ List.takeWhile_append_dropWhile.symm
  exact fun c member => Text.nest_of_isBlank (List.mem_takeWhile_imp member) depth

theorem agree_literal (c : Char) :
    Agree (Under bound depth) (literal c) (literal c) fun _ => Under bound (Text.nest depth c) := by
  refine fun here under => ⟨rfl, fun frontier place there found => ?_⟩
  rw [Under, (of_found_literal found).2.1] at under
  exact ((Text.forall_prefix_cons depth c there.rest).mp under).2

theorem agree_atomic {scanner : Scanner} (takes : ∀ {text letters rest},
      scanner text = some (letters, rest) → text = letters ++ rest ∧ ∀ c ∈ letters, isWordChar c) :
    Agree (Under bound depth) (atomic scanner) (atomic scanner) fun _ => Under bound depth := by
  refine fun here under => ⟨rfl, fun frontier word there found => ?_⟩
  obtain ⟨split, letter⟩ := takes (of_found_atomic found).1
  exact under.behind (fun c member => Text.nest_of_isWordChar (letter c member) depth) split

theorem agree_name : Agree (Under bound depth) (atomic .identifier) (atomic .identifier) fun _ =>
    Under bound depth := by
  apply agree_atomic
  intro text letters rest taken
  obtain ⟨split, named, _⟩ := Scanner.identifier_eq_some_iff.mp taken
  exact ⟨split, isWordChar_of_isIdentifier named⟩

theorem agree_endWord : Agree (Under bound depth) (atomic .endWord) (atomic .endWord) fun _ =>
    Under bound depth := by
  apply agree_atomic
  intro text letters rest taken
  obtain ⟨rfl, split, _⟩ := Scanner.endWord_eq_some_iff.mp taken
  exact ⟨split, isWordChar_of_isIdentifier Session.isIdentifier_endWord⟩

theorem agree_comma : Agree (Under bound depth) comma comma fun _ => Under bound depth :=
  (agree_literal ',').named .comma

theorem agree_closeParen :
    Agree (Under bound (depth + 1)) closeParen closeParen fun _ => Under bound depth :=
  (agree_literal ')').named .closeParen

end Rule

theorem PayloadShape.build_eq_buildOver (shape : PayloadShape) :
    shape.build = shape.buildOver PayloadShape.build := by
  cases shape with
  | basic | list => rfl
  | tuple =>
    rw [PayloadShape.build, PayloadShape.buildAll_eq_mapM]
    rfl

theorem BranchShape.buildAll_eq_mapM (branches : List BranchShape) :
    BranchShape.buildAll branches =
      branches.mapM (BranchShape.buildOver PayloadShape.build SessionShape.build) := by
  induction branches with
  | nil => rfl
  | cons branch branches ih =>
    cases branch
    rw [BranchShape.buildAll, List.mapM_cons, ih]
    rfl

theorem SessionShape.build_eq_buildOver (shape : SessionShape) :
    shape.build = shape.buildOver PayloadShape.build SessionShape.build := by
  cases shape with
  | done | handler => rfl
  | choice =>
    rw [SessionShape.build, BranchShape.buildAll_eq_mapM]
    rfl

/-- The shape, standing where the count is at `depth`, is built within what the bound leaves. -/
def PayloadShape.BuildsWithin (bound depth : Nat) (shape : PayloadShape) : Prop :=
  ∀ beyond n, bound < depth + n → PayloadShape.buildWithin beyond n shape = shape.build

def SessionShape.BuildsWithin (bound depth : Nat) (shape : SessionShape) : Prop :=
  ∀ beyond n, bound < depth + n → SessionShape.buildWithin beyond n shape = shape.build

theorem PayloadShape.buildsWithin (room : depth ≤ bound) {shape : PayloadShape}
    (inner : ∀ beyond n, bound < depth + 1 + n →
      shape.buildOver (PayloadShape.buildWithin beyond n) = shape.buildOver PayloadShape.build) :
    shape.BuildsWithin bound depth := by
  intro beyond n enough
  obtain ⟨n, rfl⟩ : ∃ k, n = k + 1 := ⟨n - 1, by omega⟩
  rw [PayloadShape.buildWithin, inner beyond n (by omega), PayloadShape.build_eq_buildOver]

theorem PayloadShape.buildsWithin_tuple (room : depth ≤ bound) {elements : List PayloadShape}
    (each : ∀ element ∈ elements, element.BuildsWithin bound (depth + 1)) (opening closing : Nat) :
    (PayloadShape.tuple opening elements closing).BuildsWithin bound depth := by
  refine PayloadShape.buildsWithin room fun beyond n enough => ?_
  rw [PayloadShape.buildOver, PayloadShape.buildOver,
    mapM_congr fun element member => each element member beyond n enough]

theorem SessionShape.buildsWithin (room : depth ≤ bound) {shape : SessionShape}
    (inner : ∀ beyond n, bound < depth + 1 + n →
      shape.buildOver (PayloadShape.buildWithin beyond n) (SessionShape.buildWithin beyond n) =
        shape.buildOver PayloadShape.build SessionShape.build) :
    shape.BuildsWithin bound depth := by
  intro beyond n enough
  obtain ⟨n, rfl⟩ : ∃ k, n = k + 1 := ⟨n - 1, by omega⟩
  rw [SessionShape.buildWithin, inner beyond n (by omega), SessionShape.build_eq_buildOver]

/-- The payload of a branch stands behind one bracket more than the continuation. -/
def BranchShape.BuildsWithin (bound depth : Nat) (branch : BranchShape) : Prop :=
  branch.payload.BuildsWithin bound (depth + 1) ∧ branch.continuation.BuildsWithin bound depth

theorem SessionShape.buildsWithin_choice (room : depth ≤ bound) {branches : List BranchShape}
    (each : ∀ branch ∈ branches, branch.BuildsWithin bound (depth + 1)) (polarity : Polarity)
    (sign : Nat) (role : Word) (closing : Nat) :
    (SessionShape.choice polarity sign role branches closing).BuildsWithin bound depth := by
  refine SessionShape.buildsWithin room fun beyond n enough => ?_
  have same : ∀ branch ∈ branches,
      branch.buildOver (PayloadShape.buildWithin beyond n) (SessionShape.buildWithin beyond n) =
        branch.buildOver PayloadShape.build SessionShape.build := by
    intro branch member
    obtain ⟨payload, continuation⟩ := each branch member
    rw [BranchShape.buildOver, payload beyond n (by omega), continuation beyond n enough,
      BranchShape.buildOver]
  rw [SessionShape.buildOver, SessionShape.buildOver, mapM_congr same]

namespace Rule

open Matcher (Agree Members agree_pure agree_nil)

/-- Lists between commas agree where their members do, if commas and blanks make no difference. -/
theorem agree_commaList {first second : Rule α} {inside : Cursor Char → Prop}
    (spaces : Agree inside blanks blanks fun _ => inside)
    (commas : Agree inside comma comma fun _ => inside)
    (agree : Agree inside first second fun a there => holds a ∧ inside there) :
    Agree inside (commaList first) (commaList second) (Members holds inside) := by
  have another : Agree inside (commaThen first) (commaThen second) fun a there =>
      holds a ∧ inside there :=
    commas.bind fun _ => spaces.bind fun _ => agree
  have others : Agree inside (many (commaThen first)) (many (commaThen second))
      (Members holds inside) := by
    refine (another.cons fun here => ?_).orElse (agree_nil holds _)
    exact (spaces.bind fun _ => another).repeatedUpTo (here.rest.length + 1) here
  refine Agree.bind (Agree.optional ?_ fun here start => ?_) fun chosen =>
    agree_pure (chosen.getD [])
  · refine agree.bind fun a here start => ?_
    refine (spaces.bind fun _ => others.bind fun items => ?_) here start.2
    intro here rest
    exact agree_pure (a :: items) here ⟨List.forall_mem_cons.mpr ⟨start.1, rest.1⟩, rest.2⟩
  · exact ⟨by simp, start⟩

theorem basic_agree : Agree (Under bound depth) basic basic fun _ => Under bound depth :=
  agree_name.named .basic

theorem list_agree : Agree (Under bound depth) list list fun shape there =>
    shape.BuildsWithin bound depth ∧ Under bound depth there := by
  apply Agree.named
  refine basic_agree.bind fun name => agree_blanks.bind fun _ => ?_
  refine (agree_literal '[').bind fun _ => agree_blanks.bind fun _ => ?_
  refine (agree_literal ']').bind fun _ => ?_
  exact fun here under => agree_pure _ here
    ⟨PayloadShape.buildsWithin under.le fun _ _ _ => rfl, under⟩

theorem tuple_agree {first second : Rule PayloadShape}
    (element : Agree (Under bound (depth + 1)) first second fun shape there =>
      shape.BuildsWithin bound (depth + 1) ∧ Under bound (depth + 1) there) :
    Agree (Under bound depth) (tuple first) (tuple second) fun shape there =>
      shape.BuildsWithin bound depth ∧ Under bound depth there := by
  apply Agree.named
  refine (agree_literal '(').bind fun opening => agree_blanks.bind fun _ => ?_
  refine (agree_commaList agree_blanks agree_comma element).bind fun elements here inside => ?_
  refine (agree_blanks.bind fun _ => agree_closeParen.bind fun closing => ?_) here inside.2
  exact fun here under => agree_pure _ here
    ⟨PayloadShape.buildsWithin_tuple under.le inside.1 opening closing, under⟩

/-- Where the bound leaves room, allowances and what is beyond them make no difference. -/
theorem payload_agree (beyond : Beyond) (enough : bound < depth + n) (plenty : bound < depth + m) :
    Agree (Under bound depth) (payloadWithin beyond n) (payload m) fun shape there =>
      shape.BuildsWithin bound depth ∧ Under bound depth there := by
  induction n generalizing depth m with
  | zero => exact fun here under => absurd under.le (by omega)
  | succ n ih =>
    cases m with
    | zero => exact fun here under => absurd under.le (by omega)
    | succ m =>
      apply Agree.named
      refine (tuple_agree (ih (by omega) (by omega))).orElse (list_agree.orElse ?_)
      refine basic_agree.bind fun name here under => agree_pure _ here ⟨?_, under⟩
      exact PayloadShape.buildsWithin under.le fun _ _ _ => rfl

theorem branch_agree {one other : Rule PayloadShape} {first second : Rule SessionShape}
    (payload : Agree (Under bound (depth + 1)) one other fun shape there =>
      shape.BuildsWithin bound (depth + 1) ∧ Under bound (depth + 1) there)
    (continuation : Agree (Under bound depth) first second fun shape there =>
      shape.BuildsWithin bound depth ∧ Under bound depth there) :
    Agree (Under bound depth) (branch one first) (branch other second) fun branch there =>
      branch.BuildsWithin bound depth ∧ Under bound depth there := by
  apply Agree.named
  refine (agree_name.named .identifier).bind fun label => agree_blanks.bind fun _ => ?_
  refine (agree_literal '(').bind fun _ => agree_blanks.bind fun _ => ?_
  refine payload.bind fun carried here inside => ?_
  refine (agree_blanks.bind fun _ => agree_closeParen.bind fun _ => ?_) here inside.2
  refine agree_blanks.bind fun _ => ((agree_literal '.').named .dot).bind fun _ => ?_
  refine agree_blanks.bind fun _ => continuation.bind fun next here behind => ?_
  exact agree_pure _ here ⟨⟨inside.1, behind.1⟩, behind.2⟩

theorem agree_sign (polarity : Polarity) :
    Agree (Under bound depth) (literal polarity.sign) (literal polarity.sign) fun _ =>
      Under bound depth := by
  cases polarity with
  | send => exact agree_literal '+'
  | receive => exact agree_literal '&'

theorem choice_agree (polarity : Polarity) {first second : Rule BranchShape}
    (branch : Agree (Under bound (depth + 1)) first second fun branch there =>
      branch.BuildsWithin bound (depth + 1) ∧ Under bound (depth + 1) there) :
    Agree (Under bound depth) (choice polarity first) (choice polarity second) fun shape there =>
      shape.BuildsWithin bound depth ∧ Under bound depth there := by
  refine (agree_sign polarity).bind fun sign => agree_blanks.bind fun _ => ?_
  refine (agree_name.named .identifier).bind fun role => agree_blanks.bind fun _ => ?_
  refine ((agree_literal ':').named .colon).bind fun _ => agree_blanks.bind fun _ => ?_
  refine (agree_literal '\x7b').bind fun _ => agree_blanks.bind fun _ => ?_
  refine (agree_commaList agree_blanks agree_comma branch).bind fun branches here inside => ?_
  refine (agree_blanks.bind fun _ => ?_) here inside.2
  refine ((agree_literal '\x7d').named .closeBrace).bind fun closing here under => ?_
  exact agree_pure _ here
    ⟨SessionShape.buildsWithin_choice under.le inside.1 polarity sign role closing, under⟩

theorem session_agree (beyond : Beyond) (enough : bound < depth + n) (plenty : bound < depth + m) :
    Agree (Under bound depth) (sessionWithin beyond n) (session m) fun shape there =>
      shape.BuildsWithin bound depth ∧ Under bound depth there := by
  induction n generalizing depth m with
  | zero => exact fun here under => absurd under.le (by omega)
  | succ n ih =>
    cases m with
    | zero => exact fun here under => absurd under.le (by omega)
    | succ m =>
      have branch := branch_agree
        (payload_agree beyond (by omega : bound < depth + 1 + 1 + n)
          (by omega : bound < depth + 1 + 1 + m))
        (ih (by omega : bound < depth + 1 + n) (by omega : bound < depth + 1 + m))
      apply Agree.named
      refine Agree.orElse ?_ (Agree.orElse ?_ (Agree.orElse ?_ ?_))
      · apply Agree.named
        refine agree_endWord.bind fun word here under => ?_
        exact agree_pure _ here ⟨SessionShape.buildsWithin under.le fun _ _ _ => rfl, under⟩
      · exact (choice_agree .receive branch).named .receive
      · exact (choice_agree .send branch).named .send
      · apply Agree.named
        refine (agree_name.named .identifier).bind fun name here under => ?_
        exact agree_pure _ here ⟨SessionShape.buildsWithin under.le fun _ _ _ => rfl, under⟩

/-- Allowances that are both enough make no difference. -/
theorem payload_eq_payload (under : Under bound depth here) (enough : bound < depth + n)
    (plenty : bound < depth + m) : payload m here = payload n here :=
  calc payload m here = payloadWithin .nothing n here :=
        (payload_agree .nothing enough plenty here under).1.symm
    _ = payload n here := (payload_agree .nothing enough enough here under).1

theorem session_eq_session (under : Under bound depth here) (enough : bound < depth + n)
    (plenty : bound < depth + m) : session m here = session n here :=
  calc session m here = sessionWithin .nothing n here :=
        (session_agree .nothing enough plenty here under).1.symm
    _ = session n here := (session_agree .nothing enough enough here under).1

end Rule

theorem Content.overflowFrom?_eq_none_iff {text : List Char} (bound : depth ≤ limit) (offset : Nat) :
    overflowFrom? limit depth offset text = none ↔
      ∀ before, before <+: text → before.foldl Text.nest depth ≤ limit := by
  induction text generalizing depth offset with
  | nil => simpa [overflowFrom?] using bound
  | cons c cs ih =>
    rw [overflowFrom?, Text.forall_prefix_cons]
    split
    case isTrue exceeded =>
      refine iff_of_false (by simp) fun within => ?_
      exact absurd (within.2 [] cs.nil_prefix) (Nat.not_le.mpr exceeded)
    case isFalse within =>
      rw [ih (Nat.le_of_not_lt within)]
      exact (and_iff_right bound).symm

theorem Content.overflow?_eq_none_iff (content : Content) :
    content.overflow? limit = none ↔ Text.NestsWithin limit content.text :=
  overflowFrom?_eq_none_iff (Nat.zero_le _) 0

open Rule

/-- Both readers do the same with what is between the blanks: all that is tried, from any frontier,
and the building of all that is found. -/
structure Reader.Same (one other : Reader σ α) (content : Content) : Prop where
  tries : one.rule (content.text.length + 1) ⟨0, content.text⟩ =
    other.rule (content.text.length + 1) ⟨0, content.text⟩
  builds : ∀ {frontier shape there},
    (other.rule (content.text.length + 1) ⟨0, content.text⟩ frontier).found = some (shape, there) →
      one.build shape = other.build shape

theorem Reader.read_eq_of_same {one other : Reader σ α}
    (same : content.overflow? limit = none → one.Same other content) :
    one.read ⟨limit⟩ content = other.read ⟨limit⟩ content := by
  cases first : content.overflow? limit with
  | some place => simp only [read, first]
  | none =>
    have same := same first
    simp only [read, first, same.tries]
    rcases attempt : other.rule (content.text.length + 1) ⟨0, content.text⟩ .initial with
      ⟨_ | ⟨shape, there⟩, reached⟩
    · rfl
    · simp only [same.builds (show (other.rule _ _ .initial).found = _ by rw [attempt])]

theorem Text.foldl_nest_le (depth : Nat) (text : List Char) :
    text.foldl nest depth ≤ depth + text.length := by
  induction text generalizing depth with
  | nil => exact Nat.le_refl _
  | cons c cs ih =>
    have step : nest depth c ≤ depth + 1 := by unfold nest; split <;> [skip; split] <;> omega
    have := ih (nest depth c)
    simp only [List.foldl_cons, List.length_cons]
    omega

variable {limit allowance : Nat} {content : Content}

/-- The bound that a text keeps to by itself, whatever the limit. -/
theorem under_min (passes : content.overflow? limit = none) :
    Under (min limit content.text.length) 0 ⟨0, content.text⟩ := by
  intro before front
  have within : before.foldl Text.nest 0 ≤ limit :=
    content.overflow?_eq_none_iff.mp passes before front
  have short := Text.foldl_nest_le 0 before
  have length : before.length ≤ content.text.length := front.length_le
  exact Nat.le_min.mpr ⟨within, by omega⟩

theorem sessionReader_same (beyond : Beyond) (enough : limit < allowance)
    (passes : content.overflow? limit = none) :
    (sessionReaderWithin beyond allowance).Same sessionReader content := by
  obtain ⟨tries, found⟩ := session_agree beyond (n := allowance) (m := content.text.length + 1)
    (by omega) (by omega) ⟨0, content.text⟩ (under_min passes)
  exact ⟨tries, fun matched => (found _ _ _ matched).1 beyond allowance (by omega)⟩

theorem payloadReader_same (beyond : Beyond) (enough : limit < allowance)
    (passes : content.overflow? limit = none) :
    (payloadReaderWithin beyond allowance).Same payloadReader content := by
  obtain ⟨tries, found⟩ := payload_agree beyond (n := allowance) (m := content.text.length + 1)
    (by omega) (by omega) ⟨0, content.text⟩ (under_min passes)
  refine ⟨tries, fun matched => congrArg Logged.ofExcept ?_⟩
  exact (found _ _ _ matched).1 beyond allowance (by omega)

theorem Reader.parse_eq_of_read_eq {one other : Reader σ α} {text : String}
    (same : one.read config (Content.ofText text) = other.read config (Content.ofText text)) :
    one.parse config text = other.parse config text := by
  rw [parse, parse, same]

/-- On a text that passes the guard, no more sessions and payloads than the limit and one are ever
matched or built inside one another: with that allowance all is tried and built as it is without
one, whatever would happen beyond it. So every text is read with the same result. -/
theorem guard_bounds_recursion (beyond : Beyond) (enough : limit < allowance) (text : String) :
    ((Content.ofText text).overflow? limit = none →
      (sessionReaderWithin beyond allowance).Same sessionReader (Content.ofText text) ∧
      (payloadReaderWithin beyond allowance).Same payloadReader (Content.ofText text)) ∧
    (sessionReaderWithin beyond allowance).parse ⟨limit⟩ text = Session.parseWith ⟨limit⟩ text ∧
    (payloadReaderWithin beyond allowance).parse ⟨limit⟩ text = Payload.parseWith ⟨limit⟩ text := by
  refine ⟨fun passes => ⟨sessionReader_same beyond enough passes,
    payloadReader_same beyond enough passes⟩, ?_, ?_⟩
  · exact Reader.parse_eq_of_read_eq (Reader.read_eq_of_same (sessionReader_same beyond enough))
  · exact Reader.parse_eq_of_read_eq (Reader.read_eq_of_same (payloadReader_same beyond enough))

/-- Four are enough for a limit of three, which this text reaches, and where nothing is allowed
beyond them. The last brackets open and close nothing. -/
theorem guard_bounds_recursion_four :
    (sessionReaderWithin ⟨Matcher.fail, Matcher.fail, fun _ => .error (.leftover 0),
        fun _ => .fail (.leftover 0)⟩ 4).Same sessionReader
      (Content.ofText "+a:\x7bb((unit)).end\x7d ))\x7d((") :=
  ((guard_bounds_recursion _ (show 3 < 4 by decide) _).1 (by decide)).1

end SessionSyntax
