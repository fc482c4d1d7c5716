import Mathlib.Data.List.Forall2
import SessionSyntax.Grammar
import SessionSyntax.Proofs.Naming

/-! Rendering writes what the grammar reads: the lexemes of a rendered tree spell the tree again, apart
from handlers named `end`. Settling a tree changes neither its text nor its nesting, and changes the
tree only where there are such handlers. -/
namespace SessionSyntax

theorem Branch.settleAll_eq_map (branches : List Branch) :
    Branch.settleAll branches = branches.map Branch.settled := by
  induction branches with
  | nil => rfl
  | cons branch branches ih => rw [Branch.settleAll, List.map_cons, ih]

theorem Branch.settled_eq_iff {branch : Branch} :
    branch.settled = branch ↔ branch.continuation.settled = branch.continuation := by
  cases branch; simp [Branch.settled]

theorem Branch.settleAll_eq_iff {branches : List Branch} :
    Branch.settleAll branches = branches ↔ ∀ branch ∈ branches, branch.settled = branch := by
  induction branches with
  | nil => simp [Branch.settleAll]
  | cons branch branches ih => simp [Branch.settleAll, ih]

/-- Settling leaves a tree alone just if none of its handlers is named by the word for an end. -/
theorem Session.settled_eq_iff {session : Session} :
    session.settled = session ↔ ⟨Session.endWord⟩ ∉ session.handlerNames := by
  induction session with
  | done => simp [Session.settled, Session.handlerNames]
  | handler name =>
    obtain ⟨text⟩ := name
    simp [Session.settled, Session.handlerNames, eq_comm]
  | choice polarity role branches ih =>
    obtain ⟨first, rest⟩ := branches
    have members : (∀ branch ∈ first :: rest, branch.settled = branch) ↔
        ∀ branch ∈ first :: rest, ⟨Session.endWord⟩ ∉ branch.continuation.handlerNames :=
      forall₂_congr fun branch member => Branch.settled_eq_iff.trans (ih branch member)
    cases first
    simp only [List.forall_mem_cons] at members
    simpa [Session.settled, Session.handlerNames, Branch.settleAll_eq_iff,
      Session.handlerNamesAmong_eq] using members

theorem Branch.render_settled {branch : Branch}
    (same : branch.continuation.settled.render = branch.continuation.render) :
    branch.settled.render = branch.render := by
  cases branch; simp_all [Branch.settled, Branch.render]

theorem Branch.renderMore_settleAll {branches : List Branch}
    (same : ∀ branch ∈ branches, branch.settled.render = branch.render) :
    Branch.renderMore (Branch.settleAll branches) = Branch.renderMore branches := by
  induction branches with
  | nil => rfl
  | cons branch branches ih =>
    obtain ⟨first, others⟩ := List.forall_mem_cons.mp same
    rw [Branch.settleAll, Branch.renderMore, Branch.renderMore, first, ih others]

theorem Session.render_settled (session : Session) : session.settled.render = session.render := by
  induction session with
  | done => rfl
  | handler name =>
    rw [Session.settled]
    split
    case isTrue called => exact called.symm
    case isFalse => rfl
  | choice polarity role branches ih =>
    obtain ⟨first, rest⟩ := branches
    have same (branch) (member : branch ∈ first :: rest) := Branch.render_settled (ih branch member)
    obtain ⟨one, others⟩ := List.forall_mem_cons.mp same
    rw [Session.settled, Session.render, Session.render, one, Branch.renderMore_settleAll others]

theorem Branch.nesting_settled {branch : Branch}
    (same : branch.continuation.settled.nesting = branch.continuation.nesting) :
    branch.settled.nesting = branch.nesting := by
  cases branch; simp_all [Branch.settled, Branch.nesting]

theorem Branch.nestingAmong_settleAll {branches : List Branch}
    (same : ∀ branch ∈ branches, branch.settled.nesting = branch.nesting) :
    Branch.nestingAmong (Branch.settleAll branches) = Branch.nestingAmong branches := by
  induction branches with
  | nil => rfl
  | cons branch branches ih =>
    obtain ⟨first, others⟩ := List.forall_mem_cons.mp same
    rw [Branch.settleAll, Branch.nestingAmong, Branch.nestingAmong, first, ih others]

theorem Session.nesting_settled (session : Session) : session.settled.nesting = session.nesting := by
  induction session with
  | done => rfl
  | handler name =>
    rw [Session.settled]
    split <;> rfl
  | choice polarity role branches ih =>
    obtain ⟨first, rest⟩ := branches
    have same (branch) (member : branch ∈ first :: rest) := Branch.nesting_settled (ih branch member)
    obtain ⟨one, others⟩ := List.forall_mem_cons.mp same
    rw [Session.settled, Session.nesting, Session.nesting, one, Branch.nestingAmong_settleAll others]

/-- The text is cut into just these lexemes before all that does not prolong its last word. -/
def Writes (text : List Char) (ls : List Lexeme) : Prop :=
  ∀ more ms, (∀ c, more.head? = some c → ¬isWordChar c) → Spaced more ms →
    Spaced (text ++ more) (ls ++ ms)

def IsMark (c : Char) : Prop := ¬isBlank c ∧ ¬isWordChar c

instance : Decidable (IsMark c) := inferInstanceAs (Decidable (_ ∧ _))

theorem intercalate_cons (joint first : List α) (rest : List (List α)) :
    joint.intercalate (first :: rest) = first ++ rest.flatMap (joint ++ ·) := by
  induction rest generalizing first with
  | nil => simp
  | cons second rest ih =>
    rw [List.intercalate_cons_cons, ih, List.flatMap_cons, List.append_assoc, List.append_assoc]

namespace Writes

theorem spaced (writes : Writes text ls) : Spaced text ls := by
  simpa using writes [] [] (by simp) .nil

theorem nil : Writes [] [] := fun _ _ _ spaced => spaced

theorem word (named : isIdentifier letters) : Writes letters [.word letters] :=
  fun _ _ apart spaced =>
    .word letters (ne_nil_of_isIdentifier named) (isWordChar_of_isIdentifier named) apart spaced

theorem mark (c : Char) (mark : IsMark c) (writes : Writes text ls) :
    Writes (c :: text) (.mark c :: ls) :=
  fun more ms apart spaced => .mark c mark.1 mark.2 (writes more ms apart spaced)

theorem blank (c : Char) (blank : isBlank c) (writes : Writes text ls) : Writes (c :: text) ls :=
  fun more ms apart spaced => .blank c blank (writes more ms apart spaced)

/-- A mark ends any word before it. -/
theorem before (first : Writes text ls) (c : Char) (mark : IsMark c) (second : Writes next ms) :
    Writes (text ++ c :: next) (ls ++ .mark c :: ms) := by
  intro more ns apart spaced
  rw [List.append_assoc, List.append_assoc]
  refine first _ _ (fun d head => ?_) (second.mark c mark more ns apart spaced)
  obtain rfl : c = d := by simpa using head
  exact mark.2

theorem keyword (kind : BasicKind) : Writes kind.keyword.toList [kind.lexeme] :=
  word (by cases kind <;> decide)

/-- Texts with a comma and a space between any two are written as a series of what each is written
as. -/
theorem exists_joined {stands : α → List Lexeme → Prop} (series : List α → List Lexeme → Prop)
    {text : τ → List Char} (one : ∀ {a ls}, stands a ls → series [a] ls)
    (more : ∀ {a ls others ms}, stands a ls → series others ms →
      series (a :: others) (ls ++ .mark ',' :: ms))
    {texts : List τ} {items : List α} (filled : items ≠ [])
    (each : List.Forall₂ (fun t a => ∃ ls, stands a ls ∧ Writes (text t) ls) texts items) :
    ∃ ls, series items ls ∧ Writes ([',', ' '].intercalate (texts.map text)) ls := by
  induction each with
  | nil => exact absurd rfl filled
  | cons first others ih =>
    obtain ⟨ls, stand, written⟩ := first
    cases others with
    | nil => exact ⟨ls, one stand, by simpa using written⟩
    | cons second others =>
      obtain ⟨ms, stands, tail⟩ := ih (by simp)
      refine ⟨_, more stand stands, ?_⟩
      have joined := written.before ',' (by decide) (tail.blank ' ' rfl)
      simpa [List.intercalate_cons_cons] using joined

theorem exists_series {stands : α → List Lexeme → Prop} (series : List α → List Lexeme → Prop)
    {text : α → List Char} (one : ∀ {a ls}, stands a ls → series [a] ls)
    (more : ∀ {a ls others ms}, stands a ls → series others ms →
      series (a :: others) (ls ++ .mark ',' :: ms))
    (first : α) (rest : List α) (each : ∀ a ∈ first :: rest, ∃ ls, stands a ls ∧ Writes (text a) ls) :
    ∃ ls, series (first :: rest) ls ∧
      Writes (text first ++ rest.flatMap fun a => ',' :: ' ' :: text a) ls := by
  obtain ⟨ls, stands, written⟩ :=
    exists_joined series one more (List.cons_ne_nil first rest) (List.forall₂_same.mpr each)
  rw [List.map_cons, intercalate_cons, List.flatMap_map] at written
  exact ⟨ls, stands, written⟩

end Writes

theorem Payload.toList_renderMore (payloads : List Payload) :
    (Payload.renderMore payloads).toList =
      payloads.flatMap fun payload => ',' :: ' ' :: payload.render.toList := by
  induction payloads with
  | nil => rfl
  | cons payload payloads ih => simp [Payload.renderMore, ih]

theorem Payload.render_spelled (payload : Payload) :
    ∃ ls, payload.Spelled ls ∧ Writes payload.render.toList ls := by
  induction payload with
  | basic kind => exact ⟨_, .basic kind, Writes.keyword kind⟩
  | list kind =>
    refine ⟨_, .list kind, ?_⟩
    rw [Payload.render, String.toList_append]
    exact (Writes.keyword kind).before '[' (by decide) (Writes.nil.mark ']' (by decide))
  | tuple elements ih =>
    obtain ⟨first, rest⟩ := elements
    obtain ⟨ls, series, written⟩ := Writes.exists_series Payload.SeriesSpelled .one .more first rest ih
    refine ⟨_, .tuple series, ?_⟩
    have text : (Payload.tuple ⟨first, rest⟩).render.toList = '(' :: (first.render.toList ++
        rest.flatMap fun payload => ',' :: ' ' :: payload.render.toList) ++ [')'] := by
      simp [Payload.render, Payload.toList_renderMore]
    rw [text]
    exact (written.mark '(' (by decide)).before ')' (by decide) .nil

theorem Branch.allCanonical_iff {branches : List Branch} :
    Branch.AllCanonical branches ↔ ∀ branch ∈ branches, branch.Canonical := by
  induction branches with
  | nil => simp [Branch.AllCanonical]
  | cons branch branches ih => simp [Branch.AllCanonical, ih]

theorem Branch.toList_renderMore (branches : List Branch) :
    (Branch.renderMore branches).toList =
      branches.flatMap fun branch => ',' :: ' ' :: branch.render.toList := by
  induction branches with
  | nil => rfl
  | cons branch branches ih => simp [Branch.renderMore, ih]

theorem Polarity.isMark_sign (polarity : Polarity) : IsMark polarity.sign := by
  cases polarity <;> decide

theorem Branch.Canonical.render_spelled {branch : Branch} (canonical : branch.Canonical)
    (next : branch.continuation.Canonical → ∃ ls, branch.continuation.settled.Spelled ls ∧
      Writes branch.continuation.render.toList ls) :
    ∃ ls, branch.settled.Spelled ls ∧ Writes branch.render.toList ls := by
  obtain ⟨label, payload, continuation⟩ := branch
  obtain ⟨canonical, further⟩ := canonical
  obtain ⟨ls, carried, inside⟩ := payload.render_spelled
  obtain ⟨ms, continued, behind⟩ := next further
  have spelled := Branch.Spelled.mk canonical.1 carried continued
  rw [Symbol.ofWord_of_canonical canonical] at spelled
  have text : (Branch.mk label payload continuation).render.toList = label.text.toList ++ '(' ::
      (payload.render.toList ++ ')' :: '.' :: continuation.render.toList) := by
    simp [Branch.render]
  refine ⟨_, spelled, ?_⟩
  rw [text]
  exact (Writes.word canonical.1).before '(' (by decide)
    (inside.before ')' (by decide) (behind.mark '.' (by decide)))

theorem Session.Canonical.render_spelled {session : Session} (canonical : session.Canonical) :
    ∃ ls, session.settled.Spelled ls ∧ Writes session.render.toList ls := by
  induction session with
  | done => exact ⟨_, .done, Writes.word (by decide)⟩
  | handler name =>
    rw [Session.settled]
    split
    case isTrue called =>
      refine ⟨_, .done, ?_⟩
      rw [Session.render, called]
      exact Writes.word (by decide)
    case isFalse other =>
      have named : name.text.toList ≠ Session.endWord.toList := fun same =>
        other (String.toList_inj.mp same)
      have spelled := Session.Spelled.handler canonical.1 named
      rw [Symbol.ofWord_of_canonical canonical] at spelled
      exact ⟨_, spelled, Writes.word canonical.1⟩
  | choice polarity role branches ih =>
    obtain ⟨first, rest⟩ := branches
    obtain ⟨address, one, others⟩ := canonical
    have each : ∀ branch ∈ first :: rest, branch.Canonical := by
      simpa using ⟨one, Branch.allCanonical_iff.mp others⟩
    have spelled (branch) (member : branch ∈ first :: rest) :=
      (each branch member).render_spelled (ih branch member)
    obtain ⟨ls, series, written⟩ := Writes.exists_series
      (fun branches ls => Branch.SeriesSpelled (branches.map Branch.settled) ls) .one .more first rest
      spelled
    have text : (Session.choice polarity role ⟨first, rest⟩).render.toList =
        polarity.sign :: (role.text.toList ++ ':' :: '\x7b' :: ((first.render.toList ++
          rest.flatMap fun branch => ',' :: ' ' :: branch.render.toList) ++ ['\x7d'])) := by
      simp [Session.render, Branch.toList_renderMore]
    rw [text, Session.settled, Branch.settleAll_eq_map]
    have spelled := Session.Spelled.choice polarity address.1 series
    rw [Symbol.ofWord_of_canonical address] at spelled
    refine ⟨_, spelled, ?_⟩
    have block := (written.before '\x7d' (by decide) Writes.nil).mark '\x7b' (by decide)
    exact ((Writes.word address.1).before ':' (by decide) block).mark _ polarity.isMark_sign

end SessionSyntax
