import SessionSyntax.Lexeme
import SessionSyntax.Shape

/-! The grammar of session types and payload types, as relations between trees, or shapes with the
places where they stand, and the lexemes that spell them. Nothing here searches, looks ahead or prefers
one alternative to another. Series stand for the non-empty lists between brackets, with a comma between
any two members and none behind the last. The phrases of shapes are more than those of trees: a basic
type may have any name, and tuples and blocks may be empty.

Lexemes are viable where some phrase begins with them; a phrase that they begin and do not complete
breaks off behind them, and needs something there to go on. What it needs is told by the constructs
that are still open, and so is what a message asks for: a part that the grammar names is asked for
where it is missing, and a bracket that it does not name is told by the construct that the bracket
would have opened or closed. -/
namespace SessionSyntax

def BasicKind.lexeme (kind : BasicKind) : Lexeme := .word kind.keyword.toList

mutual

inductive Payload.Spelled : Payload → List Lexeme → Prop where
  | basic (kind : BasicKind) : Payload.Spelled (.basic kind) [kind.lexeme]
  | list (element : BasicKind) :
      Payload.Spelled (.list element) [element.lexeme, .mark '[', .mark ']']
  | tuple : Payload.SeriesSpelled (first :: rest) ls →
      Payload.Spelled (.tuple ⟨first, rest⟩) (.mark '(' :: ls ++ [.mark ')'])

inductive Payload.SeriesSpelled : List Payload → List Lexeme → Prop where
  | one : Payload.Spelled payload ls → Payload.SeriesSpelled [payload] ls
  | more : Payload.Spelled payload ls → Payload.SeriesSpelled rest ms →
      Payload.SeriesSpelled (payload :: rest) (ls ++ .mark ',' :: ms)

end

mutual

inductive Session.Spelled : Session → List Lexeme → Prop where
  | done : Session.Spelled .done [.word Session.endWord.toList]
  | handler : isIdentifier name → name ≠ Session.endWord.toList →
      Session.Spelled (.handler (.ofWord name)) [.word name]
  | choice (polarity : Polarity) : isIdentifier role → Branch.SeriesSpelled (first :: rest) ls →
      Session.Spelled (.choice polarity (.ofWord role) ⟨first, rest⟩)
        (.mark polarity.sign :: .word role :: .mark ':' :: .mark '\x7b' :: ls ++ [.mark '\x7d'])

inductive Branch.Spelled : Branch → List Lexeme → Prop where
  | mk : isIdentifier label → Payload.Spelled payload ls → Session.Spelled continuation ms →
      Branch.Spelled ⟨.ofWord label, payload, continuation⟩
        (.word label :: .mark '(' :: ls ++ .mark ')' :: .mark '.' :: ms)

inductive Branch.SeriesSpelled : List Branch → List Lexeme → Prop where
  | one : Branch.Spelled branch ls → Branch.SeriesSpelled [branch] ls
  | more : Branch.Spelled branch ls → Branch.SeriesSpelled rest ms →
      Branch.SeriesSpelled (branch :: rest) (ls ++ .mark ',' :: ms)

end

/-- The members stand one behind the other from the given place, with a comma between any two. -/
inductive Series (stands : Nat → α → List Lexeme → Prop) : Nat → List α → List Lexeme → Prop where
  | one : stands place item ls → Series stands place [item] ls
  | more : stands place item ls → Series stands (place + ls.length + 1) rest ms →
      Series stands place (item :: rest) (ls ++ .mark ',' :: ms)

namespace Series

theorem length_le (series : Series stands place items ls) : items.length ≤ ls.length + 1 := by
  induction series with
  | one => simp
  | more _ _ ih => simp; omega

theorem imp (series : Series stands place items ls)
    (imp : ∀ {place item ms}, ms.length ≤ ls.length → stands place item ms → holds place item ms) :
    Series holds place items ls := by
  induction series with
  | one stand => exact .one (imp (Nat.le_refl _) stand)
  | more stand _ ih =>
    refine .more (imp (by simp) stand) (ih fun bound => imp ?_)
    simp only [List.length_append, List.length_cons]; omega

end Series

/-- The shape stands at a place and is spelled by the lexemes from there on. -/
inductive PayloadShape.Spelled : Nat → PayloadShape → List Lexeme → Prop where
  | basic : isIdentifier name → Spelled place (.basic ⟨place, name⟩) [.word name]
  | list : isIdentifier name →
      Spelled place (.list ⟨place, name⟩) [.word name, .mark '[', .mark ']']
  | empty : Spelled place (.tuple place [] (place + 1)) [.mark '(', .mark ')']
  | tuple : Series Spelled (place + 1) elements ls →
      Spelled place (.tuple place elements (place + 1 + ls.length)) (.mark '(' :: ls ++ [.mark ')'])

/-- A branch, where the relation says how a continuation is spelled. -/
inductive BranchShape.Spelled (continues : Nat → SessionShape → List Lexeme → Prop) :
    Nat → BranchShape → List Lexeme → Prop where
  | mk : isIdentifier name → PayloadShape.Spelled (place + 2) carried ls →
      continues (place + 2 + ls.length + 2) next ms →
      Spelled continues place ⟨⟨place, name⟩, carried, next⟩
        (.word name :: .mark '(' :: ls ++ .mark ')' :: .mark '.' :: ms)

inductive SessionShape.Spelled : Nat → SessionShape → List Lexeme → Prop where
  | done : Spelled place (.done place) [.word Session.endWord.toList]
  | handler : isIdentifier name → name ≠ Session.endWord.toList →
      Spelled place (.handler ⟨place, name⟩) [.word name]
  | empty (polarity : Polarity) : isIdentifier role →
      Spelled place (.choice polarity place ⟨place + 1, role⟩ [] (place + 4))
        [.mark polarity.sign, .word role, .mark ':', .mark '\x7b', .mark '\x7d']
  | choice (polarity : Polarity) : isIdentifier role →
      Series (BranchShape.Spelled Spelled) (place + 4) branches ls →
      Spelled place (.choice polarity place ⟨place + 1, role⟩ branches (place + 4 + ls.length))
        (.mark polarity.sign :: .word role :: .mark ':' :: .mark '\x7b' :: ls ++ [.mark '\x7d'])

/-- The phrase begins the lexemes, and no phrase that begins them is longer. -/
structure Longest (spelled : Nat → σ → List Lexeme → Prop) (shape : σ)
    (front rest : List Lexeme) : Prop where
  phrase : spelled 0 shape front
  longest : ∀ (other : σ) (begins : List Lexeme), begins <+: front ++ rest → spelled 0 other begins →
    begins.length ≤ front.length

/-- Induction in which a tuple may assume the claim for each of its elements. -/
@[elab_as_elim, induction_eliminator]
theorem PayloadShape.Spelled.induct
    {motive : ∀ place shape ls, PayloadShape.Spelled place shape ls → Prop}
    (basic : ∀ {name place} (named : isIdentifier name),
      motive place (.basic ⟨place, name⟩) [.word name] (.basic named))
    (list : ∀ {name place} (named : isIdentifier name),
      motive place (.list ⟨place, name⟩) [.word name, .mark '[', .mark ']'] (.list named))
    (empty : ∀ {place}, motive place (.tuple place [] (place + 1)) [.mark '(', .mark ')'] .empty)
    (tuple : ∀ {place elements ls} (series : Series PayloadShape.Spelled (place + 1) elements ls),
      Series (fun place shape ls => ∃ spelled, motive place shape ls spelled) (place + 1) elements ls →
      motive place (.tuple place elements (place + 1 + ls.length)) (.mark '(' :: ls ++ [.mark ')'])
        (.tuple series))
    (spelled : PayloadShape.Spelled place shape ls) : motive place shape ls spelled :=
  @PayloadShape.Spelled.rec motive
    (fun place shapes ls _ =>
      Series (fun place shape ls => ∃ spelled, motive place shape ls spelled) place shapes ls)
    basic list empty tuple (fun one holds => .one ⟨one, holds⟩)
    (fun one _ holds assumed => .more ⟨one, holds⟩ assumed) place shape ls spelled

theorem BranchShape.Spelled.imp {holds : Nat → SessionShape → List Lexeme → Prop}
    (spelled : BranchShape.Spelled continues place branch ls)
    (imp : ∀ {place session ms}, ms.length < ls.length → continues place session ms →
      holds place session ms) : BranchShape.Spelled holds place branch ls := by
  cases spelled with
  | mk label payload next =>
    refine .mk label payload (imp ?_ next)
    simp only [List.length_append, List.length_cons]; omega

/-- Induction in which a choice may assume the claim for the continuation of each branch. -/
@[elab_as_elim, induction_eliminator]
theorem SessionShape.Spelled.induct
    {motive : ∀ place shape ls, SessionShape.Spelled place shape ls → Prop}
    (done : ∀ {place}, motive place (.done place) [.word Session.endWord.toList] .done)
    (handler : ∀ {name place} (named : isIdentifier name) (other : name ≠ Session.endWord.toList),
      motive place (.handler ⟨place, name⟩) [.word name] (.handler named other))
    (empty : ∀ {role place} (polarity : Polarity) (named : isIdentifier role),
      motive place (.choice polarity place ⟨place + 1, role⟩ [] (place + 4))
        [.mark polarity.sign, .word role, .mark ':', .mark '\x7b', .mark '\x7d']
        (.empty polarity named))
    (choice : ∀ {role place branches ls} (polarity : Polarity) (named : isIdentifier role)
      (series : Series (BranchShape.Spelled SessionShape.Spelled) (place + 4) branches ls),
      Series (BranchShape.Spelled fun place shape ls => ∃ spelled, motive place shape ls spelled)
        (place + 4) branches ls →
      motive place (.choice polarity place ⟨place + 1, role⟩ branches (place + 4 + ls.length))
        (.mark polarity.sign :: .word role :: .mark ':' :: .mark '\x7b' :: ls ++ [.mark '\x7d'])
        (.choice polarity named series))
    (spelled : SessionShape.Spelled place shape ls) : motive place shape ls spelled :=
  @SessionShape.Spelled.rec motive
    (fun place branches ls _ => Series (BranchShape.Spelled fun place shape ls =>
      ∃ spelled, motive place shape ls spelled) place branches ls)
    (fun place branch ls _ => BranchShape.Spelled (fun place shape ls =>
      ∃ spelled, motive place shape ls spelled) place branch ls)
    done handler empty choice
    (fun _ assumed => .one assumed) (fun _ _ one assumed => .more one assumed)
    (fun label payload next holds => .mk label payload ⟨next, holds⟩)
    place shape ls spelled

/-- The lexemes are a phrase of the kind that the part names. -/
def Part.Phrase (part : Part) (ls : List Lexeme) : Prop :=
  match part with
  | identifier | basic => ∃ name, isIdentifier name ∧ ls = [.word name]
  | payloadType => ∃ place shape, PayloadShape.Spelled place shape ls
  | list => ∃ place name, PayloadShape.Spelled place (.list name) ls
  | tuple => ∃ place opening elements closing,
      PayloadShape.Spelled place (.tuple opening elements closing) ls
  | sessionType => ∃ place shape, SessionShape.Spelled place shape ls
  | done => ∃ place index, SessionShape.Spelled place (.done index) ls
  | receive => ∃ place sign role branches closing,
      SessionShape.Spelled place (.choice .receive sign role branches closing) ls
  | send => ∃ place sign role branches closing,
      SessionShape.Spelled place (.choice .send sign role branches closing) ls
  | handler => ∃ place name, SessionShape.Spelled place (.handler name) ls
  | branch => ∃ place shape, BranchShape.Spelled SessionShape.Spelled place shape ls
  | colon => ls = [.mark ':']
  | dot => ls = [.mark '.']
  | comma => ls = [.mark ',']
  | closeParen => ls = [.mark ')']
  | closeBrace => ls = [.mark '\x7d']

/-- What a complete payload is a member of. -/
inductive Seat where
  | tuple
  | branch
  deriving DecidableEq, Repr

/-- What a phrase needs behind the lexemes with which it breaks off. -/
inductive Need where
  | session
  | role
  | colon
  /-- The opening brace of the choice whose sign stands at the given place. -/
  | block (sign : Nat)
  /-- A branch, which is the first of its block or stands behind a comma. -/
  | branch (first : Bool)
  /-- The opening parenthesis behind the label at the given place. -/
  | opening (label : Nat) (first : Bool)
  /-- A payload, which may be the first of a tuple. -/
  | payload (first : Bool)
  /-- The closing bracket of a list whose opening one stands at the given place. -/
  | bracket (opening : Nat) (seat : Seat)
  /-- What comes behind a complete payload; a bare name may still go on as a list. -/
  | behind (seat : Seat) (bare : Bool)
  | dot
  /-- What comes behind a complete branch. -/
  | separator
  deriving DecidableEq, Repr

def Seat.wanted : Seat → List Part
  | tuple => [.comma, .closeParen]
  | branch => [.closeParen]

namespace Need

/-- The parts that a message asks for. -/
def wanted : Need → List Part
  | session | block _ => [.sessionType]
  | role => [.identifier]
  | colon => [.colon]
  | branch first => .identifier :: if first then [.closeBrace] else []
  | opening _ first => .branch :: if first then [.closeBrace] else []
  | payload first => .payloadType :: if first then [.closeParen] else []
  | bracket _ seat | behind seat _ => seat.wanted
  | dot => [.dot]
  | separator => [.comma, .closeBrace]

/-- The place at which a message asks for them, where the phrase breaks off at `here`. -/
def place (here : Nat) : Need → Nat
  | block sign => sign
  | opening label _ => label
  | bracket first _ => first
  | _ => here

/-- The phrase can go on with the lexeme. -/
inductive Takes : Need → Lexeme → Prop where
  | choice (polarity : Polarity) : Takes .session (.mark polarity.sign)
  | leaf : isIdentifier name → Takes .session (.word name)
  | role : isIdentifier name → Takes .role (.word name)
  | colon : Takes .colon (.mark ':')
  | block : Takes (.block sign) (.mark '\x7b')
  | label : isIdentifier name → Takes (.branch first) (.word name)
  | closeBlock : Takes (.branch true) (.mark '\x7d')
  | opening : Takes (.opening label first) (.mark '(')
  | name : isIdentifier name → Takes (.payload first) (.word name)
  | tuple : Takes (.payload first) (.mark '(')
  | closeTuple : Takes (.payload true) (.mark ')')
  | bracket : Takes (.bracket start seat) (.mark ']')
  | list : Takes (.behind seat true) (.mark '[')
  | comma : Takes (.behind .tuple bare) (.mark ',')
  | closing : Takes (.behind seat bare) (.mark ')')
  | dot : Takes .dot (.mark '.')
  | another : Takes .separator (.mark ',')
  | closeBrace : Takes .separator (.mark '\x7d')

end Need

def PayloadShape.isBare : PayloadShape → Bool
  | basic _ => true
  | _ => false

/-- The members of a tuple break off behind the lexemes from the given place on. The flag tells
whether that place is right behind the opening parenthesis. -/
inductive PayloadShape.SeriesBreaks : Bool → Nat → List Lexeme → Need → Prop where
  | start : SeriesBreaks first place [] (.payload first)
  | list : isIdentifier name →
      SeriesBreaks first place [.word name, .mark '['] (.bracket (place + 1) .tuple)
  | tuple : SeriesBreaks true (place + 1) ls need → SeriesBreaks first place (.mark '(' :: ls) need
  | behind : PayloadShape.Spelled place element ls →
      SeriesBreaks first place ls (.behind .tuple element.isBare)
  | more : PayloadShape.Spelled place element ls →
      SeriesBreaks false (place + ls.length + 1) ms need →
      SeriesBreaks first place (ls ++ .mark ',' :: ms) need

/-- A payload from the given place on breaks off. A name is complete, so a list that breaks off
behind its name does so only for what the payload is a member of. -/
inductive PayloadShape.Breaks : Nat → List Lexeme → Need → Prop where
  | start : Breaks place [] (.payload false)
  | tuple : SeriesBreaks true (place + 1) ls need → Breaks place (.mark '(' :: ls) need

mutual

inductive SessionShape.Breaks : Nat → List Lexeme → Need → Prop where
  | start : SessionShape.Breaks place [] .session
  | role (polarity : Polarity) : SessionShape.Breaks place [.mark polarity.sign] .role
  | colon (polarity : Polarity) : isIdentifier role →
      SessionShape.Breaks place [.mark polarity.sign, .word role] .colon
  | block (polarity : Polarity) : isIdentifier role →
      SessionShape.Breaks place [.mark polarity.sign, .word role, .mark ':'] (.block place)
  | inside (polarity : Polarity) : isIdentifier role →
      BranchShape.SeriesBreaks true (place + 4) ls need →
      SessionShape.Breaks place
        (.mark polarity.sign :: .word role :: .mark ':' :: .mark '\x7b' :: ls) need

/-- The branches of a block break off behind the lexemes from the given place on. -/
inductive BranchShape.SeriesBreaks : Bool → Nat → List Lexeme → Need → Prop where
  | start : BranchShape.SeriesBreaks first place [] (.branch first)
  | opening : isIdentifier name →
      BranchShape.SeriesBreaks first place [.word name] (.opening place first)
  | payload : isIdentifier name → PayloadShape.Breaks (place + 2) ls need →
      BranchShape.SeriesBreaks first place (.word name :: .mark '(' :: ls) need
  | list : isIdentifier name → isIdentifier carried →
      BranchShape.SeriesBreaks first place
        [.word name, .mark '(', .word carried, .mark '['] (.bracket (place + 3) .branch)
  | closing : isIdentifier name → PayloadShape.Spelled (place + 2) carried ls →
      BranchShape.SeriesBreaks first place (.word name :: .mark '(' :: ls)
        (.behind .branch carried.isBare)
  | dot : isIdentifier name → PayloadShape.Spelled (place + 2) carried ls →
      BranchShape.SeriesBreaks first place (.word name :: .mark '(' :: ls ++ [.mark ')']) .dot
  | continuation : isIdentifier name → PayloadShape.Spelled (place + 2) carried ls →
      SessionShape.Breaks (place + 2 + ls.length + 2) ms need →
      BranchShape.SeriesBreaks first place
        (.word name :: .mark '(' :: ls ++ .mark ')' :: .mark '.' :: ms) need
  | behind : BranchShape.Spelled SessionShape.Spelled place branch ls →
      BranchShape.SeriesBreaks first place ls .separator
  | more : BranchShape.Spelled SessionShape.Spelled place branch ls →
      BranchShape.SeriesBreaks false (place + ls.length + 1) ms need →
      BranchShape.SeriesBreaks first place (ls ++ .mark ',' :: ms) need

end

section

variable (spelled : Nat → σ → List Lexeme → Prop)

/-- Some phrase from the place on begins with the lexemes, or is spelled by them. -/
def Viable (place : Nat) (front : List Lexeme) : Prop :=
  ∃ shape more, spelled place shape (front ++ more)

/-- The front is the longest viable one: the first lexeme behind it cannot go on any phrase that
begins with it. -/
structure Stalls (front rest : List Lexeme) : Prop where
  viable : Viable spelled 0 front
  stuck : ∀ l more, rest = l :: more → ¬Viable spelled 0 (front ++ [l])

/-- No beginning of the lexemes is a phrase. -/
def NoPhrase (ls : List Lexeme) : Prop := ∀ shape front, front <+: ls → ¬spelled 0 shape front

end

end SessionSyntax
