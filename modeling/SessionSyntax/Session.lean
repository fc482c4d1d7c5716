import SessionSyntax.Payload
import SessionSyntax.Symbol

/-! The session type of one participant: at each point the messages it may send or receive, and how it
goes on after each of them. The queries read a tree from the top, in surface order, and its surface
text has no blanks, except one after each comma. Beside this, what is told of a tree without its text:
that its symbols are canonical, what it is settled to, how deep its brackets nest, what it holds at any
depth, and which trees differ only in the order of branches and in who picks among them. -/
namespace SessionSyntax

/-- Who picks the branch of a choice: the participant itself sends, or its partner does. -/
inductive Polarity where
  | send
  | receive
  deriving DecidableEq, Hashable, Repr

mutual

inductive Session where
  | done
  | choice (polarity : Polarity) (role : Symbol) (branches : NonEmpty Branch)
  /-- Control passes to a handler known by name. -/
  | handler (name : Symbol)
  deriving Repr

/-- One labelled alternative of a choice. -/
structure Branch where
  label : Symbol
  payload : Payload
  continuation : Session
  deriving Repr

end

namespace Session

def send (role : Symbol) (branch : Branch) : Session := choice .send role (.singleton branch)

def receive (role : Symbol) (branch : Branch) : Session := choice .receive role (.singleton branch)

/-- A choice among the given branches, refused when there are none. -/
def choice? (polarity : Polarity) (role : Symbol) (branches : List Branch) : Option Session :=
  (NonEmpty.ofList? branches).map (choice polarity role)

/-- The branches of a choice; a leaf has none. -/
def branches : Session → List Branch
  | choice _ _ branches => branches.toList
  | _ => []

/-- Labels of the topmost choice, repetitions included. -/
def labels (session : Session) : List Symbol := session.branches.map (·.label)

def isDone : Session → Bool
  | done => true
  | _ => false

def isSend : Session → Bool
  | choice .send _ _ => true
  | _ => false

def isReceive : Session → Bool
  | choice .receive _ _ => true
  | _ => false

def isHandler : Session → Bool
  | handler _ => true
  | _ => false

mutual

/-- Choices on the longest path. -/
def depth : Session → Nat
  | done | handler _ => 0
  | choice _ _ ⟨⟨_, _, next⟩, rest⟩ => 1 + max next.depth (deepest rest)

def deepest : List Branch → Nat
  | [] => 0
  | ⟨_, _, next⟩ :: rest => max next.depth (deepest rest)

end

mutual

/-- The role of every choice, each as often as it occurs. -/
def roles : Session → List Symbol
  | done | handler _ => []
  | choice _ role ⟨⟨_, _, next⟩, rest⟩ => role :: (next.roles ++ rolesAmong rest)

def rolesAmong : List Branch → List Symbol
  | [] => []
  | ⟨_, _, next⟩ :: rest => next.roles ++ rolesAmong rest

end

theorem rolesAmong_eq (branches : List Branch) :
    rolesAmong branches = branches.flatMap fun branch => branch.continuation.roles := by
  induction branches with
  | nil => rfl
  | cons branch rest ih =>
    cases branch
    rw [rolesAmong, ih, List.flatMap_cons]

mutual

/-- The name of every handler, each as often as it occurs. -/
def handlerNames : Session → List Symbol
  | done => []
  | handler name => [name]
  | choice _ _ ⟨⟨_, _, next⟩, rest⟩ => next.handlerNames ++ handlerNamesAmong rest

def handlerNamesAmong : List Branch → List Symbol
  | [] => []
  | ⟨_, _, next⟩ :: rest => next.handlerNames ++ handlerNamesAmong rest

end

theorem handlerNamesAmong_eq (branches : List Branch) :
    handlerNamesAmong branches = branches.flatMap fun branch => branch.continuation.handlerNames := by
  induction branches with
  | nil => rfl
  | cons branch rest ih =>
    cases branch
    rw [handlerNamesAmong, ih, List.flatMap_cons]

/-- The roles that the session talks to, in increasing order, each once. -/
def partners (session : Session) : List Symbol := Symbol.sortDistinct session.roles

/-- The handlers that the session may reach, in increasing order, each once. -/
def handlers (session : Session) : List Symbol := Symbol.sortDistinct session.handlerNames

mutual

/-- Decides equality by comparing the trees in step. -/
def decideEq : (a b : Session) → Decidable (a = b)
  | done, done => isTrue rfl
  | handler m, handler n => decidable_of_iff (m = n) (by simp)
  | choice p r ⟨⟨l, t, x⟩, xs⟩, choice q s ⟨⟨m, u, y⟩, ys⟩ =>
    have := decideEq x y
    have := decideAllEq xs ys
    decidable_of_iff ((p = q ∧ r = s ∧ l = m ∧ t = u) ∧ x = y ∧ xs = ys)
      (by simp [and_assoc])
  | done, handler _ | done, choice _ _ _ | handler _, done | handler _, choice _ _ _
  | choice _ _ _, done | choice _ _ _, handler _ => isFalse (by simp)

def decideAllEq : (as bs : List Branch) → Decidable (as = bs)
  | [], [] => isTrue rfl
  | ⟨l, t, x⟩ :: xs, ⟨m, u, y⟩ :: ys =>
    have := decideEq x y
    have := decideAllEq xs ys
    decidable_of_iff ((l = m ∧ t = u) ∧ x = y ∧ xs = ys) (by simp [and_assoc])
  | [], _ :: _ | _ :: _, [] => isFalse (by simp)

end

instance : DecidableEq Session := decideEq

mutual

def hashOf : Session → UInt64
  | done => 13
  | handler name => mixHash 17 (hash name)
  | choice polarity role ⟨⟨label, payload, next⟩, rest⟩ =>
    mixHash (mixHash (hash polarity) (hash role))
      (mixHash (mixHash (hash label) (hash payload)) (mixHash next.hashOf (hashAll rest)))

def hashAll : List Branch → UInt64
  | [] => 19
  | ⟨label, payload, next⟩ :: rest =>
    mixHash (mixHash (hash label) (hash payload)) (mixHash next.hashOf (hashAll rest))

end

instance : Hashable Session := ⟨hashOf⟩

/-- Induction in which a choice may assume the claim for the continuation of each branch. -/
@[elab_as_elim, induction_eliminator]
theorem induct {motive : Session → Prop} (done : motive .done)
    (choice : ∀ polarity role (branches : NonEmpty Branch),
      (∀ branch ∈ branches.toList, motive branch.continuation) →
      motive (.choice polarity role branches))
    (handler : ∀ name, motive (.handler name)) (session : Session) : motive session :=
  @Session.rec motive (fun branch => motive branch.continuation)
    (fun branches => ∀ b ∈ branches.toList, motive b.continuation)
    (fun branches => ∀ b ∈ branches, motive b.continuation)
    done choice handler (fun _ _ _ next => next)
    (fun _ _ first rest => by simpa using ⟨first, rest⟩)
    (by simp) (fun _ _ first rest => by simpa using ⟨first, rest⟩) session

end Session

namespace Branch

def decideEq : (a b : Branch) → Decidable (a = b)
  | ⟨l, t, x⟩, ⟨m, u, y⟩ => decidable_of_iff (l = m ∧ t = u ∧ x = y) (by simp)

instance : DecidableEq Branch := decideEq

end Branch

instance : ToString BasicKind := ⟨BasicKind.keyword⟩

namespace Payload

mutual

def render : Payload → String
  | basic kind => kind.keyword
  | list element => element.keyword ++ "[]"
  | tuple ⟨first, rest⟩ => "(" ++ first.render ++ renderMore rest ++ ")"

/-- Elements after the first, each behind its comma. -/
def renderMore : List Payload → String
  | [] => ""
  | payload :: rest => ", " ++ payload.render ++ renderMore rest

end

instance : ToString Payload := ⟨render⟩

end Payload

/-- The sign in front of the role. -/
def Polarity.sign : Polarity → Char
  | send => '+'
  | receive => '&'

/-- The word that ends a session, where otherwise a handler could stand. -/
def Session.endWord : String := "end"

theorem Session.isIdentifier_endWord : isIdentifier Session.endWord.toList := by decide

mutual

def Session.render : Session → String
  | .done => Session.endWord
  | .handler name => name.text
  | .choice polarity role ⟨first, rest⟩ =>
    String.singleton polarity.sign ++ role.text ++ ":\x7b" ++ first.render ++
      Branch.renderMore rest ++ "\x7d"

def Branch.render : Branch → String
  | ⟨label, payload, continuation⟩ =>
    label.text ++ "(" ++ payload.render ++ ")." ++ continuation.render

/-- Branches after the first, each behind its comma. -/
def Branch.renderMore : List Branch → String
  | [] => ""
  | branch :: rest => ", " ++ branch.render ++ Branch.renderMore rest

end

instance : ToString Session := ⟨Session.render⟩

instance : ToString Branch := ⟨Branch.render⟩

mutual

/-- Every symbol in the tree is canonical. -/
def Session.Canonical : Session → Prop
  | .done => True
  | .handler name => name.Canonical
  | .choice _ role ⟨first, rest⟩ => role.Canonical ∧ first.Canonical ∧ Branch.AllCanonical rest

def Branch.Canonical : Branch → Prop
  | ⟨label, _, continuation⟩ => label.Canonical ∧ continuation.Canonical

def Branch.AllCanonical : List Branch → Prop
  | [] => True
  | branch :: rest => branch.Canonical ∧ Branch.AllCanonical rest

end

mutual

/-- The tree with every handler named `end` replaced by an end. -/
def Session.settled : Session → Session
  | .done => .done
  | .handler name => if name.text = Session.endWord then .done else .handler name
  | .choice polarity role ⟨first, rest⟩ =>
    .choice polarity role ⟨first.settled, Branch.settleAll rest⟩

def Branch.settled : Branch → Branch
  | ⟨label, payload, continuation⟩ => ⟨label, payload, continuation.settled⟩

def Branch.settleAll : List Branch → List Branch
  | [] => []
  | branch :: rest => branch.settled :: Branch.settleAll rest

end

mutual

/-- How deep the brackets of a payload nest. Those of lists do not count. -/
def Payload.nesting : Payload → Nat
  | .basic _ | .list _ => 0
  | .tuple ⟨first, rest⟩ => 1 + max first.nesting (Payload.nestingAmong rest)

def Payload.nestingAmong : List Payload → Nat
  | [] => 0
  | payload :: rest => max payload.nesting (Payload.nestingAmong rest)

end

mutual

def Session.nesting : Session → Nat
  | .done | .handler _ => 0
  | .choice _ _ ⟨first, rest⟩ => 1 + max first.nesting (Branch.nestingAmong rest)

/-- The payload stands in parentheses of its own, the continuation in none. -/
def Branch.nesting : Branch → Nat
  | ⟨_, payload, continuation⟩ => max (1 + payload.nesting) continuation.nesting

def Branch.nestingAmong : List Branch → Nat
  | [] => 0
  | branch :: rest => max branch.nesting (Branch.nestingAmong rest)

end

/-- The node is all of the tree, or stands anywhere in it. -/
inductive Session.Occurs (node : Session) : Session → Prop where
  | here : Session.Occurs node node
  | within : branch ∈ session.branches → Session.Occurs node branch.continuation →
      Session.Occurs node session

/-- The session sends to the role or receives from it, in some choice. -/
def Session.TalksTo (session : Session) (role : Symbol) : Prop :=
  ∃ polarity branches, Session.Occurs (.choice polarity role branches) session

/-- The session may pass control to the handler. -/
def Session.HandsTo (session : Session) (name : Symbol) : Prop :=
  Session.Occurs (.handler name) session

mutual

/-- The trees are the same but for the order of the branches of each choice and for who picks. -/
inductive Session.Rearranged : Session → Session → Prop where
  | done : Session.Rearranged .done .done
  | handler : Session.Rearranged (.handler name) (.handler name)
  | choice : Branch.AllRearranged branches.toList others.toList →
      Session.Rearranged (.choice one role branches) (.choice two role others)

/-- Each branch of the one list has its counterpart in the other, wherever it stands there. -/
inductive Branch.AllRearranged : List Branch → List Branch → Prop where
  | nil : Branch.AllRearranged [] []
  | cons : Session.Rearranged next other → Branch.AllRearranged rest (front ++ behind) →
      Branch.AllRearranged (⟨label, payload, next⟩ :: rest)
        (front ++ ⟨label, payload, other⟩ :: behind)

end

end SessionSyntax
