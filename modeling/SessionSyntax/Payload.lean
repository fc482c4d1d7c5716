/-! What a message carries: a basic value, a list of basic values, or a tuple of payloads. Tuples
nest and are never empty; the elements of a list are always basic. In a list that is never empty the
first element stands apart from the others, so that emptiness is refused where a list comes in and
never has to be checked again. -/
namespace SessionSyntax

/-- A list with at least one element. -/
structure NonEmpty (α : Type u) where
  head : α
  tail : List α
  deriving DecidableEq, Hashable, Repr

namespace NonEmpty

def toList (xs : NonEmpty α) : List α := xs.head :: xs.tail

def ofList? : List α → Option (NonEmpty α)
  | [] => none
  | x :: xs => some ⟨x, xs⟩

def singleton (x : α) : NonEmpty α := ⟨x, []⟩

def size (xs : NonEmpty α) : Nat := xs.tail.length + 1

def last (xs : NonEmpty α) : α := xs.tail.getLastD xs.head

/-- The one reason for which a list is refused. -/
def refusal : String := "collection must be non-empty"

@[simp] theorem toList_mk (x : α) (xs : List α) : toList ⟨x, xs⟩ = x :: xs := rfl

@[simp] theorem toList_ne_nil (xs : NonEmpty α) : xs.toList ≠ [] := List.cons_ne_nil _ _

@[simp] theorem ofList?_toList (xs : NonEmpty α) : ofList? xs.toList = some xs := rfl

@[simp] theorem toList_singleton (x : α) : (singleton x).toList = [x] := rfl

@[simp] theorem length_toList (xs : NonEmpty α) : xs.toList.length = xs.size := rfl

theorem ofList?_eq_some_iff {xs : List α} {ys : NonEmpty α} :
    ofList? xs = some ys ↔ xs = ys.toList := by
  cases xs with
  | nil => simp [ofList?, toList]
  | cons x xs => cases ys; simp [ofList?, toList]

theorem ofList?_eq_none_iff {xs : List α} : ofList? xs = none ↔ xs = [] := by
  cases xs <;> simp [ofList?]

theorem toList_injective {xs ys : NonEmpty α} (same : xs.toList = ys.toList) : xs = ys := by
  cases xs; cases ys; simpa [toList] using same

end NonEmpty

inductive BasicKind where
  | binary
  | number
  | unit
  | boolean
  deriving DecidableEq, Hashable, Repr

namespace BasicKind

/-- The four kinds, in the order in which they are listed to the user. -/
def all : List BasicKind := [.binary, .number, .unit, .boolean]

/-- The word for the kind in surface text; a binary is written `string`. -/
def keyword : BasicKind → String
  | binary => "string"
  | number => "number"
  | unit => "unit"
  | boolean => "boolean"

def ofKeyword? (word : String) : Option BasicKind := all.find? (·.keyword == word)

theorem ofKeyword?_eq_some_iff {kind : BasicKind} :
    ofKeyword? word = some kind ↔ word = kind.keyword := by
  constructor
  · intro found
    rw [ofKeyword?] at found
    have same := List.find?_some found
    exact (beq_iff_eq.mp same).symm
  · rintro rfl
    cases kind <;> rfl

theorem ofKeyword?_eq_none_iff : ofKeyword? word = none ↔ ∀ kind : BasicKind, word ≠ kind.keyword := by
  simp [Option.eq_none_iff_forall_ne_some, ofKeyword?_eq_some_iff]

end BasicKind

inductive Payload where
  | basic (kind : BasicKind)
  | list (element : BasicKind)
  | tuple (elements : NonEmpty Payload)
  deriving Repr

namespace Payload

def tuple? (elements : List Payload) : Option Payload := (NonEmpty.ofList? elements).map tuple

/-- The payload that a list holds many of. -/
def listElement? : Payload → Option Payload
  | list element => some (basic element)
  | _ => none

def isBasic : Payload → Bool
  | basic _ => true
  | _ => false

def isList : Payload → Bool
  | list _ => true
  | _ => false

def isTuple : Payload → Bool
  | tuple _ => true
  | _ => false

mutual

/-- A list is one deeper than its element, a tuple one deeper than its deepest element. -/
def depth : Payload → Nat
  | basic _ => 1
  | list _ => 2
  | tuple ⟨first, rest⟩ => 1 + max first.depth (deepest rest)

def deepest : List Payload → Nat
  | [] => 0
  | payload :: rest => max payload.depth (deepest rest)

end

mutual

/-- Decides equality by comparing the trees in step. -/
def decideEq : (a b : Payload) → Decidable (a = b)
  | basic k, basic l => decidable_of_iff (k = l) (by simp)
  | list k, list l => decidable_of_iff (k = l) (by simp)
  | tuple ⟨x, xs⟩, tuple ⟨y, ys⟩ =>
    have := decideEq x y
    have := decideAllEq xs ys
    decidable_of_iff (x = y ∧ xs = ys) (by simp)
  | basic _, list _ | basic _, tuple _ | list _, basic _ | list _, tuple _
  | tuple _, basic _ | tuple _, list _ => isFalse (by simp)

def decideAllEq : (as bs : List Payload) → Decidable (as = bs)
  | [], [] => isTrue rfl
  | x :: xs, y :: ys =>
    have := decideEq x y
    have := decideAllEq xs ys
    decidable_of_iff (x = y ∧ xs = ys) (by simp)
  | [], _ :: _ | _ :: _, [] => isFalse (by simp)

end

instance : DecidableEq Payload := decideEq

mutual

def hashOf : Payload → UInt64
  | basic kind => mixHash 3 (hash kind)
  | list kind => mixHash 5 (hash kind)
  | tuple ⟨first, rest⟩ => mixHash 7 (mixHash first.hashOf (hashAll rest))

def hashAll : List Payload → UInt64
  | [] => 11
  | payload :: rest => mixHash payload.hashOf (hashAll rest)

end

instance : Hashable Payload := ⟨hashOf⟩

/-- Induction in which a tuple may assume the claim for each of its elements. -/
@[elab_as_elim, induction_eliminator]
theorem induct {motive : Payload → Prop} (basic : ∀ kind, motive (.basic kind))
    (list : ∀ element, motive (.list element))
    (tuple : ∀ elements : NonEmpty Payload, (∀ payload ∈ elements.toList, motive payload) →
      motive (.tuple elements))
    (payload : Payload) : motive payload :=
  @Payload.rec motive (fun elements => ∀ p ∈ elements.toList, motive p)
    (fun payloads => ∀ p ∈ payloads, motive p) basic list tuple
    (fun _ _ first rest => by simpa using ⟨first, rest⟩)
    (by simp) (fun _ _ first rest => by simpa using ⟨first, rest⟩) payload

end Payload

end SessionSyntax
