import SessionSyntax.Matcher
import SessionSyntax.Session

/-! The shapes of the surface grammar, and building trees from them. A shape is a phrase with its
words and the places of its brackets; it may name unknown types and hold empty blocks and tuples,
which only building refuses. The fault reported is the one met first, and a tuple or block is found
empty only after what it holds was built. The notes tell which leaves and choices were finished, in
that order, and are kept when building fails. An offence counts wherever it stands, also behind other
ones. -/
namespace SessionSyntax

/-- A word, and what precedes it: lexemes, or bytes where it is read off the characters of a text. -/
structure Word where
  index : Nat
  letters : List Char
  deriving DecidableEq, Repr

inductive PayloadShape where
  | basic (name : Word)
  | list (name : Word)
  | tuple (opening : Nat) (elements : List PayloadShape) (closing : Nat)
  deriving Repr

mutual

inductive SessionShape where
  | done (index : Nat)
  | choice (polarity : Polarity) (sign : Nat) (role : Word) (branches : List BranchShape)
      (closing : Nat)
  | handler (name : Word)
  deriving Repr

structure BranchShape where
  label : Word
  payload : PayloadShape
  continuation : SessionShape
  deriving Repr

end

/-- Induction in which a tuple may assume the claim for each of its elements. -/
@[elab_as_elim, induction_eliminator]
theorem PayloadShape.induct {motive : PayloadShape → Prop} (basic : ∀ name, motive (.basic name))
    (list : ∀ name, motive (.list name))
    (tuple : ∀ opening elements closing, (∀ element ∈ elements, motive element) →
      motive (.tuple opening elements closing))
    (shape : PayloadShape) : motive shape :=
  @PayloadShape.rec motive (fun elements => ∀ element ∈ elements, motive element) basic list tuple
    (by simp) (fun _ _ first rest => by simpa using ⟨first, rest⟩) shape

/-- Induction in which a choice may assume the claim for the continuation of each branch. -/
@[elab_as_elim, induction_eliminator]
theorem SessionShape.induct {motive : SessionShape → Prop} (done : ∀ index, motive (.done index))
    (choice : ∀ polarity sign role branches closing,
      (∀ branch ∈ branches, motive branch.continuation) →
      motive (.choice polarity sign role branches closing))
    (handler : ∀ name, motive (.handler name)) (shape : SessionShape) : motive shape :=
  @SessionShape.rec motive (fun branch => motive branch.continuation)
    (fun branches => ∀ branch ∈ branches, motive branch.continuation)
    done choice handler (fun _ _ _ continuation => continuation)
    (by simp) (fun _ _ first rest => by simpa using ⟨first, rest⟩) shape

/-- What was found empty. -/
inductive Collection where
  | branches
  | tupleElements
  deriving DecidableEq, Repr

/-- What is wrong with a text or with a list of lexemes, and at which places. -/
inductive Fault where
  | tooDeep (place limit : Nat)
  | unexpected (place : Nat) (wanted : List Part)
  | unknownType (name : Word)
  | emptyCollection (opening closing : Nat) (collection : Collection)
  /-- A phrase was complete before the given place. -/
  | leftover (place : Nat)
  deriving DecidableEq, Repr

/-- The place at which a fault is told. -/
def Fault.index : Fault → Nat
  | .tooDeep place _ | .unexpected place _ | .leftover place => place
  | .unknownType name => name.index
  | .emptyCollection opening .. => opening

/-- A node finished while building. -/
inductive Note where
  | handler (name : Symbol)
  | choice (role : Symbol) (branches : Nat)
  deriving DecidableEq, Repr

/-- A result, and the notes made on the way to it. -/
structure Logged (α : Type) where
  notes : List Note
  result : Except Fault α

namespace Logged

instance : Monad Logged where
  pure a := ⟨[], .ok a⟩
  bind first next :=
    match first with
    | ⟨notes, .error fault⟩ => ⟨notes, .error fault⟩
    | ⟨notes, .ok a⟩ =>
      let rest := next a
      ⟨notes ++ rest.notes, rest.result⟩

def fail (fault : Fault) : Logged α := ⟨[], .error fault⟩

def note (note : Note) : Logged Unit := ⟨[note], .ok ()⟩

def ofExcept (result : Except Fault α) : Logged α := ⟨[], result⟩

end Logged

def Word.symbol (word : Word) : Symbol := Symbol.ofWord word.letters

def Word.text (word : Word) : String := String.ofList word.letters

/-- The basic kind that a word names. -/
def Word.kind (word : Word) : Except Fault BasicKind :=
  match BasicKind.ofKeyword? word.text with
  | some kind => .ok kind
  | none => .error (.unknownType word)

mutual

def PayloadShape.build : PayloadShape → Except Fault Payload
  | .basic name => do return .basic (← name.kind)
  | .list name => do return .list (← name.kind)
  | .tuple opening elements closing => do
    match NonEmpty.ofList? (← buildAll elements) with
    | some elements => return .tuple elements
    | none => throw (.emptyCollection opening closing .tupleElements)

def PayloadShape.buildAll : List PayloadShape → Except Fault (List Payload)
  | [] => return []
  | shape :: rest => do return (← shape.build) :: (← buildAll rest)

end

mutual

def SessionShape.build : SessionShape → Logged Session
  | .done _ => return .done
  | .handler name => do
    Logged.note (.handler name.symbol)
    return .handler name.symbol
  | .choice polarity sign role branches closing => do
    match NonEmpty.ofList? (← BranchShape.buildAll branches) with
    | some branches =>
      Logged.note (.choice role.symbol branches.size)
      return .choice polarity role.symbol branches
    | none => Logged.fail (.emptyCollection sign closing .branches)

def BranchShape.build : BranchShape → Logged Branch
  | ⟨label, payload, continuation⟩ => do
    let payload ← Logged.ofExcept payload.build
    return ⟨label.symbol, payload, ← continuation.build⟩

def BranchShape.buildAll : List BranchShape → Logged (List Branch)
  | [] => return []
  | shape :: rest => do return (← shape.build) :: (← BranchShape.buildAll rest)

end

/-- The word is none of the four keywords. -/
def Word.Unknown (word : Word) : Prop := ∀ kind : BasicKind, word.text ≠ kind.keyword

/-- The fault is in the payload, at some depth. -/
inductive PayloadShape.Offends : PayloadShape → Fault → Prop where
  | basic : name.Unknown → Offends (.basic name) (.unknownType name)
  | list : name.Unknown → Offends (.list name) (.unknownType name)
  | empty : Offends (.tuple opening [] closing) (.emptyCollection opening closing .tupleElements)
  | element : element ∈ elements → Offends element fault →
      Offends (.tuple opening elements closing) fault

inductive SessionShape.Offends : SessionShape → Fault → Prop where
  | empty : Offends (.choice polarity sign role [] closing)
      (.emptyCollection sign closing .branches)
  | payload : branch ∈ branches → branch.payload.Offends fault →
      Offends (.choice polarity sign role branches closing) fault
  | continuation : branch ∈ branches → Offends branch.continuation fault →
      Offends (.choice polarity sign role branches closing) fault

end SessionSyntax
