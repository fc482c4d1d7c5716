import Mathlib.Data.List.Sort
import Mathlib.Data.String.Basic
import SessionSyntax.Session

/-! The queries for partners and handlers tell what occurs in a tree, in order and once each. Both are
put together node by node from the branches, and what follows from this alone is shown for both at
once. -/
namespace SessionSyntax

namespace Symbol

variable {symbol other name : Symbol} {symbols others : List Symbol}

instance : Std.Irrefl (fun one two : Symbol => one < two) := ⟨fun name => String.lt_irrefl name.text⟩

instance : Std.Antisymm (fun one two : Symbol => one < two) :=
  ⟨fun _ _ less more => absurd more (String.lt_asymm less)⟩

theorem lt_of_not_lt (different : symbol ≠ other) (above : ¬symbol < other) : other < symbol := by
  have texts : symbol.text ≠ other.text := fun same => different (congrArg Symbol.mk same)
  exact lt_of_le_of_ne (String.not_lt.mp above) texts.symm

@[simp] theorem mem_insert : name ∈ insert symbol symbols ↔ name = symbol ∨ name ∈ symbols := by
  induction symbols with
  | nil => simp [insert]
  | cons first rest ih =>
    rw [insert]
    split
    case isTrue same => simp [same]
    case isFalse =>
      split
      · simp
      · rw [List.mem_cons, ih, List.mem_cons, or_left_comm]

/-- Inserting keeps a list increasing. -/
theorem insert_increasing (increasing : symbols.Pairwise (· < ·)) (symbol : Symbol) :
    (insert symbol symbols).Pairwise (· < ·) := by
  induction symbols with
  | nil => simp [insert]
  | cons first rest ih =>
    obtain ⟨least, others⟩ := List.pairwise_cons.mp increasing
    rw [insert]
    split
    case isTrue => exact increasing
    case isFalse different =>
      split
      case isTrue less =>
        refine List.pairwise_cons.mpr ⟨fun name member => ?_, increasing⟩
        rcases List.mem_cons.mp member with rfl | later
        · exact less
        · exact String.lt_trans less (least name later)
      case isFalse above =>
        refine List.pairwise_cons.mpr ⟨fun name member => ?_, ih others⟩
        rcases mem_insert.mp member with rfl | later
        · exact lt_of_not_lt different above
        · exact least name later

@[simp] theorem mem_sortDistinct : name ∈ sortDistinct symbols ↔ name ∈ symbols := by
  induction symbols with
  | nil => rfl
  | cons first rest ih => rw [sortDistinct, List.foldr_cons, mem_insert, ← sortDistinct, ih, List.mem_cons]

theorem sortDistinct_increasing (symbols : List Symbol) : (sortDistinct symbols).Pairwise (· < ·) := by
  induction symbols with
  | nil => exact .nil
  | cons first rest ih => exact insert_increasing ih first

/-- Neither order nor repetitions make a difference. -/
theorem sortDistinct_eq_of_mem_iff (same : ∀ name, name ∈ symbols ↔ name ∈ others) :
    sortDistinct symbols = sortDistinct others := by
  apply (sortDistinct_increasing symbols).eq_of_mem_iff (sortDistinct_increasing others)
  intro name
  rw [mem_sortDistinct, mem_sortDistinct, same]

end Symbol

namespace Session

/-- The list of a tree is put together from what its topmost node gives and the lists of its branches.
Of a choice only the role may be given. -/
structure Gathers (own gather : Session → List Symbol) : Prop where
  eq : ∀ session, gather session =
    own session ++ session.branches.flatMap fun branch => gather branch.continuation
  role : ∀ one two role branches others,
    own (choice one role branches) = own (choice two role others)

def ownRole : Session → List Symbol
  | choice _ role _ => [role]
  | _ => []

def ownName : Session → List Symbol
  | handler name => [name]
  | _ => []

theorem roles_gathers : Gathers ownRole roles where
  eq session := by
    cases session with
    | done | handler => rfl
    | choice _ role branches =>
      obtain ⟨⟨label, payload, next⟩, rest⟩ := branches
      rw [roles, rolesAmong_eq]
      rfl
  role _ _ _ _ _ := rfl

theorem handlerNames_gathers : Gathers ownName handlerNames where
  eq session := by
    cases session with
    | done | handler => rfl
    | choice _ role branches =>
      obtain ⟨⟨label, payload, next⟩, rest⟩ := branches
      rw [handlerNames, handlerNamesAmong_eq]
      rfl
  role _ _ _ _ _ := rfl

/-- Induction in which a tree may assume the claim for what follows each of its branches. -/
theorem induct_branches {motive : Session → Prop}
    (step : ∀ session, (∀ branch ∈ session.branches, motive branch.continuation) → motive session)
    (session : Session) : motive session := by
  induction session with
  | done | handler => exact step _ (by simp [branches])
  | choice _ _ _ ih => exact step _ ih

variable {own gather : Session → List Symbol}

/-- What is gathered is what the nodes give that occur in the tree. -/
theorem Gathers.mem_iff (gathers : Gathers own gather) {session : Session} {name : Symbol} :
    name ∈ gather session ↔ ∃ node, Occurs node session ∧ name ∈ own node := by
  constructor
  · intro member
    induction session using induct_branches with
    | step session ih =>
      rw [gathers.eq] at member
      rcases List.mem_append.mp member with here | later
      · exact ⟨session, .here, here⟩
      · obtain ⟨branch, among, inner⟩ := List.mem_flatMap.mp later
        obtain ⟨node, occurs, given⟩ := ih branch among inner
        exact ⟨node, .within among occurs, given⟩
  · rintro ⟨node, occurs, given⟩
    induction occurs with
    | here =>
      rw [gathers.eq]
      exact List.mem_append_left _ given
    | within among _ ih =>
      rw [gathers.eq]
      exact List.mem_append_right _ (List.mem_flatMap.mpr ⟨_, among, ih⟩)

end Session

mutual

/-- Rearranging a tree rearranges what is gathered over it. -/
theorem Session.Rearranged.gathered_perm (gathers : Session.Gathers own gather) :
    Session.Rearranged session other → (gather session).Perm (gather other)
  | .done => .refl _
  | .handler => .refl _
  | .choice all => by
    rw [gathers.eq, gathers.eq (.choice ..), gathers.role]
    exact (Branch.AllRearranged.gathered_perm gathers all).append_left _

theorem Branch.AllRearranged.gathered_perm (gathers : Session.Gathers own gather) :
    Branch.AllRearranged branches others →
      (branches.flatMap fun branch => gather branch.continuation).Perm
        (others.flatMap fun branch => gather branch.continuation)
  | .nil => .refl _
  | .cons next rest => by
    have first := Session.Rearranged.gathered_perm gathers next
    have more := Branch.AllRearranged.gathered_perm gathers rest
    rw [List.flatMap_append] at more
    rw [List.flatMap_cons, List.flatMap_append, List.flatMap_cons]
    -- What the first branch gives moves behind what is given before its counterpart.
    exact (first.append more).trans (List.perm_append_comm_assoc ..)

end

namespace Session

theorem Gathers.sortDistinct_eq (gathers : Gathers own gather) (rearranged : Rearranged session other) :
    Symbol.sortDistinct (gather session) = Symbol.sortDistinct (gather other) :=
  Symbol.sortDistinct_eq_of_mem_iff fun _ => (rearranged.gathered_perm gathers).mem_iff

theorem mem_partners_iff {session : Session} : role ∈ session.partners ↔ session.TalksTo role := by
  rw [partners, Symbol.mem_sortDistinct, roles_gathers.mem_iff]
  constructor
  · rintro ⟨node, occurs, given⟩
    cases node with
    | done | handler => cases given
    | choice polarity own branches =>
      obtain rfl := List.mem_singleton.mp given
      exact ⟨polarity, branches, occurs⟩
  · rintro ⟨polarity, branches, occurs⟩
    exact ⟨_, occurs, List.mem_singleton_self role⟩

theorem mem_handlers_iff {session : Session} : name ∈ session.handlers ↔ session.HandsTo name := by
  rw [handlers, Symbol.mem_sortDistinct, handlerNames_gathers.mem_iff]
  constructor
  · rintro ⟨node, occurs, given⟩
    cases node with
    | done | choice => cases given
    | handler own =>
      obtain rfl := List.mem_singleton.mp given
      exact occurs
  · intro occurs
    exact ⟨_, occurs, List.mem_singleton_self name⟩

end Session

/-- The partners of a session are just the roles of its choices, and its handlers just those that occur
in it, at any depth. Both lists increase, and stay the same when branches are put in another order or
the other side picks, anywhere in the session. -/
theorem queries_tell_occurrences (session : Session) :
    (session.partners.Pairwise (· < ·) ∧
      ∀ role, role ∈ session.partners ↔ session.TalksTo role) ∧
    (session.handlers.Pairwise (· < ·) ∧
      ∀ name, name ∈ session.handlers ↔ session.HandsTo name) ∧
    ∀ other, Session.Rearranged session other →
      other.partners = session.partners ∧ other.handlers = session.handlers := by
  refine ⟨⟨?_, ?_⟩, ⟨?_, ?_⟩, ?_⟩
  · exact Symbol.sortDistinct_increasing session.roles
  · exact fun _ => Session.mem_partners_iff
  · exact Symbol.sortDistinct_increasing session.handlerNames
  · exact fun _ => Session.mem_handlers_iff
  · intro other rearranged
    exact ⟨(Session.roles_gathers.sortDistinct_eq rearranged).symm,
      (Session.handlerNames_gathers.sortDistinct_eq rearranged).symm⟩

/-- A choice whose branches change places while it and the choice within it change sides. -/
theorem queries_tell_occurrences_swapped :
    (Session.choice .send ⟨"b"⟩ ⟨
      ⟨⟨"y"⟩, .basic .unit, .receive ⟨"a"⟩ ⟨⟨"z"⟩, .basic .unit, .handler ⟨"h"⟩⟩⟩,
      [⟨⟨"x"⟩, .basic .unit, .done⟩]⟩).partners = [⟨"a"⟩, ⟨"b"⟩] ∧
    (Session.choice .send ⟨"b"⟩ ⟨
      ⟨⟨"y"⟩, .basic .unit, .receive ⟨"a"⟩ ⟨⟨"z"⟩, .basic .unit, .handler ⟨"h"⟩⟩⟩,
      [⟨⟨"x"⟩, .basic .unit, .done⟩]⟩).handlers = [⟨"h"⟩] := by
  let session : Session := .choice .receive ⟨"b"⟩ ⟨⟨⟨"x"⟩, .basic .unit, .done⟩,
    [⟨⟨"y"⟩, .basic .unit, .send ⟨"a"⟩ ⟨⟨"z"⟩, .basic .unit, .handler ⟨"h"⟩⟩⟩]⟩
  have inner : Session.Rearranged (.send ⟨"a"⟩ ⟨⟨"z"⟩, .basic .unit, .handler ⟨"h"⟩⟩)
      (.receive ⟨"a"⟩ ⟨⟨"z"⟩, .basic .unit, .handler ⟨"h"⟩⟩) :=
    .choice (@Branch.AllRearranged.cons _ _ _ [] _ _ _ .handler .nil)
  have rearranged : Session.Rearranged session (.choice .send ⟨"b"⟩ ⟨_, [_]⟩) :=
    .choice (@Branch.AllRearranged.cons _ _ _ [_] _ _ _ .done
      (@Branch.AllRearranged.cons _ _ _ [] _ _ _ inner .nil))
  obtain ⟨partners, handlers⟩ := (queries_tell_occurrences session).2.2 _ rearranged
  exact ⟨partners.trans (by decide), handlers.trans (by decide)⟩

end SessionSyntax
