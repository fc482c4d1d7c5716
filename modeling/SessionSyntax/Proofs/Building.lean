import Mathlib.Data.List.Forall2
import SessionSyntax.Grammar

/-! Building a phrase gives its tree where nothing in the phrase offends, and one of its offences
otherwise. The trees of the grammar are just those built from phrases with the same lexemes: there is
a phrase for every tree, and a tree for every phrase that is built. -/
namespace SessionSyntax

theorem except_bind_eq_ok_iff {first : Except ε α} {next : α → Except ε β} :
    first.bind next = .ok b ↔ ∃ a, first = .ok a ∧ next a = .ok b := by
  cases first <;> simp [Except.bind]

theorem except_bind_eq_error_iff {first : Except ε α} {next : α → Except ε β} :
    first.bind next = .error e ↔ first = .error e ∨ ∃ a, first = .ok a ∧ next a = .error e := by
  cases first <;> simp [Except.bind]

section Lists

variable {f : α → Except ε β} {xs : List α}

theorem mapM_eq_ok_iff {ys : List β} :
    xs.mapM f = .ok ys ↔ List.Forall₂ (fun x y => f x = .ok y) xs ys := by
  induction xs generalizing ys with
  | nil => cases ys <;> simp [pure, Except.pure]
  | cons x xs ih =>
    rw [List.mapM_cons]
    cases one : f x with
    | error e => cases ys <;> simp [bind, Except.bind, one]
    | ok y =>
      cases more : xs.mapM f with
      | error e => cases ys <;> simp [bind, Except.bind, one, more, ← ih]
      | ok zs => cases ys <;> simp [bind, Except.bind, pure, Except.pure, one, more, ← ih]

theorem exists_of_forall₂ {R : α → β → Prop} {ys : List β} (all : List.Forall₂ R xs ys)
    (member : x ∈ xs) : ∃ y, R x y := by
  induction all with
  | nil => cases member
  | @cons _ y _ _ one _ ih =>
    rcases List.mem_cons.mp member with rfl | member
    · exact ⟨y, one⟩
    · exact ih member

theorem mapM_cons_eq_error_iff : (x :: xs).mapM f = .error e ↔
    f x = .error e ∨ ∃ y, f x = .ok y ∧ xs.mapM f = .error e := by
  rw [List.mapM_cons]
  cases f x with
  | error => simp [bind, Except.bind]
  | ok y => cases xs.mapM f <;> simp [bind, Except.bind, pure, Except.pure]

theorem mapM_eq_error (refused : xs.mapM f = .error e) : ∃ x ∈ xs, f x = .error e := by
  induction xs with
  | nil => cases refused
  | cons x xs ih =>
    rcases mapM_cons_eq_error_iff.mp refused with one | ⟨_, _, more⟩
    · exact ⟨x, by simp, one⟩
    · obtain ⟨z, member, refused⟩ := ih more
      exact ⟨z, by simp [member], refused⟩

/-- Members built one after the other into a collection that must not be empty. -/
def gather (f : α → Except ε β) (make : NonEmpty β → γ) (empty : ε) (xs : List α) : Except ε γ :=
  (xs.mapM f).bind fun built =>
    match NonEmpty.ofList? built with
    | some built => .ok (make built)
    | none => .error empty

theorem gather_eq_ok_iff {make : NonEmpty β → γ} :
    gather f make empty xs = .ok c ↔ ∃ built : NonEmpty β, c = make built ∧
      List.Forall₂ (fun x y => f x = .ok y) xs built.toList := by
  rw [gather, except_bind_eq_ok_iff]
  constructor
  · rintro ⟨list, done, made⟩
    cases filled : NonEmpty.ofList? list with
    | none => simp [filled] at made
    | some built =>
      obtain rfl := NonEmpty.ofList?_eq_some_iff.mp filled
      exact ⟨built, by simpa [filled, eq_comm] using made, mapM_eq_ok_iff.mp done⟩
  · rintro ⟨built, rfl, done⟩
    exact ⟨built.toList, mapM_eq_ok_iff.mpr done, by simp⟩

theorem gather_eq_error_iff {make : NonEmpty β → γ} :
    gather f make empty xs = .error e ↔ xs.mapM f = .error e ∨ xs = [] ∧ e = empty := by
  rw [gather, except_bind_eq_error_iff]
  refine or_congr_right ⟨?_, ?_⟩
  · rintro ⟨built, done, refused⟩
    cases filled : NonEmpty.ofList? built with
    | some => simp [filled] at refused
    | none =>
      obtain rfl := NonEmpty.ofList?_eq_none_iff.mp filled
      refine ⟨List.forall₂_nil_right_iff.mp (mapM_eq_ok_iff.mp done), ?_⟩
      simpa [NonEmpty.ofList?, eq_comm] using refused
  · rintro ⟨rfl, rfl⟩
    exact ⟨[], rfl, rfl⟩

theorem gather_eq_error {make : NonEmpty β → γ} (refused : gather f make empty xs = .error e) :
    (∃ x ∈ xs, f x = .error e) ∨ xs = [] ∧ e = empty :=
  (gather_eq_error_iff.mp refused).imp_left mapM_eq_error

end Lists

theorem mapM_congr {m : Type u → Type v} [Monad m] [LawfulMonad m] {f g : α → m β} {xs : List α}
    (same : ∀ x ∈ xs, f x = g x) : xs.mapM f = xs.mapM g := by
  induction xs with
  | nil => rfl
  | cons x xs ih =>
    obtain ⟨one, others⟩ := List.forall_mem_cons.mp same
    rw [List.mapM_cons, List.mapM_cons, one, ih others]

theorem PayloadShape.buildAll_eq_mapM (shapes : List PayloadShape) :
    PayloadShape.buildAll shapes = shapes.mapM PayloadShape.build := by
  induction shapes with
  | nil => rfl
  | cons shape shapes ih => rw [PayloadShape.buildAll, List.mapM_cons, ih]

theorem PayloadShape.build_tuple (opening : Nat) (elements : List PayloadShape) (closing : Nat) :
    (PayloadShape.tuple opening elements closing).build =
      gather PayloadShape.build .tuple (.emptyCollection opening closing .tupleElements)
        elements := by
  rw [PayloadShape.build, PayloadShape.buildAll_eq_mapM, gather]
  change Except.bind _ _ = _
  congr 1
  funext built
  cases NonEmpty.ofList? built <;> rfl

namespace Logged

instance : LawfulMonad Logged :=
  LawfulMonad.mk' _ (fun ⟨notes, result⟩ => by cases result <;> simp [Functor.map])
    (fun _ _ => rfl)
    fun ⟨notes, result⟩ next last => by
      cases result with
      | error fault => rfl
      | ok a =>
        simp only [bind]
        rcases next a with ⟨more, _ | b⟩ <;> simp

@[simp] theorem result_pure (a : α) : (pure a : Logged α).result = .ok a := rfl

@[simp] theorem result_bind (first : Logged α) (next : α → Logged β) :
    (first >>= next).result = first.result.bind fun a => (next a).result := by
  rcases first with ⟨notes, _ | a⟩ <;> rfl

@[simp] theorem result_map (first : Logged α) (g : α → β) :
    (g <$> first).result = first.result.bind fun a => .ok (g a) := result_bind first (pure ∘ g)

@[simp] theorem result_ofExcept (result : Except Fault α) : (ofExcept result).result = result := rfl

@[simp] theorem result_note (made : Note) : (note made).result = .ok () := rfl

@[simp] theorem result_fail (fault : Fault) : (fail fault : Logged α).result = .error fault := rfl

@[simp] theorem notes_ofExcept (result : Except Fault α) : (ofExcept result).notes = [] := rfl

theorem notes_bind_of_ok {first : Logged α} (done : first.result = .ok a) (next : α → Logged β) :
    (first >>= next).notes = first.notes ++ (next a).notes := by
  obtain ⟨notes, result⟩ := first
  obtain rfl : result = .ok a := done
  rfl

theorem notes_bind_of_error {first : Logged α} (refused : first.result = .error fault)
    (next : α → Logged β) : (first >>= next).notes = first.notes := by
  obtain ⟨notes, result⟩ := first
  obtain rfl : result = .error fault := refused
  rfl

/-- What makes no notes itself adds none. -/
theorem notes_bind_silent (first : Logged α) {next : α → Logged β} (silent : ∀ a, (next a).notes = []) :
    (first >>= next).notes = first.notes := by
  cases done : first.result with
  | ok a => rw [notes_bind_of_ok done, silent, List.append_nil]
  | error fault => exact notes_bind_of_error done next

@[simp] theorem notes_map (first : Logged α) (g : α → β) : (g <$> first).notes = first.notes :=
  notes_bind_silent first fun _ => rfl

end Logged

theorem BranchShape.result_build (branch : BranchShape) :
    branch.build.result = branch.payload.build.bind fun payload =>
      branch.continuation.build.result.bind fun continuation =>
        .ok ⟨branch.label.symbol, payload, continuation⟩ := by
  obtain ⟨label, payload, continuation⟩ := branch
  rw [BranchShape.build]
  simp

theorem BranchShape.result_buildAll (branches : List BranchShape) :
    (BranchShape.buildAll branches).result =
      branches.mapM fun branch : BranchShape => branch.build.result := by
  induction branches with
  | nil => rfl
  | cons branch branches ih =>
    rw [BranchShape.buildAll, List.mapM_cons]
    simp only [Logged.result_bind, ih, Logged.result_pure]
    rfl

theorem SessionShape.result_build_choice (polarity : Polarity) (sign : Nat) (role : Word)
    (branches : List BranchShape) (closing : Nat) :
    (SessionShape.choice polarity sign role branches closing).build.result =
      gather (fun branch : BranchShape => branch.build.result) (.choice polarity role.symbol)
        (.emptyCollection sign closing .branches) branches := by
  rw [SessionShape.build, Logged.result_bind, BranchShape.result_buildAll, gather]
  congr 1
  funext built
  cases NonEmpty.ofList? built <;> simp [Except.bind]

theorem Word.kind_eq_ok_iff {word : Word} {named : BasicKind} :
    word.kind = .ok named ↔ word.text = named.keyword := by
  rw [← BasicKind.ofKeyword?_eq_some_iff, Word.kind]
  cases BasicKind.ofKeyword? word.text <;> simp

theorem Word.kind_eq_error_iff {word : Word} :
    word.kind = .error fault ↔ word.Unknown ∧ .unknownType word = fault := by
  rw [Word.Unknown, ← BasicKind.ofKeyword?_eq_none_iff, Word.kind]
  cases BasicKind.ofKeyword? word.text <;> simp

theorem PayloadShape.build_basic (name : Word) :
    (PayloadShape.basic name).build = name.kind.bind fun kind => .ok (.basic kind) := rfl

theorem PayloadShape.build_list (name : Word) :
    (PayloadShape.list name).build = name.kind.bind fun kind => .ok (.list kind) := rfl

theorem PayloadShape.offends_of_build {shape : PayloadShape} (refused : shape.build = .error fault) :
    shape.Offends fault := by
  induction shape with
  | basic name =>
    rw [PayloadShape.build_basic] at refused
    simp only [except_bind_eq_error_iff, Word.kind_eq_error_iff] at refused
    obtain ⟨unknown, rfl⟩ := by simpa using refused
    exact .basic unknown
  | list name =>
    rw [PayloadShape.build_list] at refused
    simp only [except_bind_eq_error_iff, Word.kind_eq_error_iff] at refused
    obtain ⟨unknown, rfl⟩ := by simpa using refused
    exact .list unknown
  | tuple opening elements closing ih =>
    rw [PayloadShape.build_tuple] at refused
    rcases gather_eq_error refused with ⟨element, member, refused⟩ | ⟨rfl, rfl⟩
    · exact .element member (ih element member refused)
    · exact .empty

theorem PayloadShape.Offends.not_built {shape : PayloadShape} (offends : shape.Offends fault)
    (payload : Payload) : shape.build ≠ .ok payload := by
  induction offends generalizing payload with
  | basic unknown | list unknown =>
    intro built
    obtain ⟨kind, named, _⟩ := except_bind_eq_ok_iff.mp built
    exact unknown kind (Word.kind_eq_ok_iff.mp named)
  | empty =>
    intro built
    obtain ⟨elements, _, nothing⟩ := gather_eq_ok_iff.mp (PayloadShape.build_tuple .. ▸ built)
    exact NonEmpty.toList_ne_nil elements (List.forall₂_nil_left_iff.mp nothing)
  | element member _ ih =>
    intro built
    obtain ⟨elements, _, all⟩ := gather_eq_ok_iff.mp (PayloadShape.build_tuple .. ▸ built)
    obtain ⟨payload, built⟩ := exists_of_forall₂ all member
    exact ih payload built

theorem BranchShape.result_build_eq_ok_iff {shape : BranchShape} {branch : Branch} :
    shape.build.result = .ok branch ↔ branch.label = shape.label.symbol ∧
      shape.payload.build = .ok branch.payload ∧
        shape.continuation.build.result = .ok branch.continuation := by
  obtain ⟨label, payload, continuation⟩ := branch
  rw [BranchShape.result_build, except_bind_eq_ok_iff]
  simp only [except_bind_eq_ok_iff, Except.ok.injEq, Branch.mk.injEq]
  constructor
  · rintro ⟨_, carried, _, continued, rfl, rfl, rfl⟩
    exact ⟨rfl, carried, continued⟩
  · rintro ⟨rfl, carried, continued⟩
    exact ⟨_, carried, _, continued, rfl, rfl, rfl⟩

/-- A branch is refused for its payload, or else for its continuation. -/
theorem BranchShape.result_build_eq_error_iff {shape : BranchShape} :
    shape.build.result = .error fault ↔ shape.payload.build = .error fault ∨
      (∃ carried, shape.payload.build = .ok carried) ∧
        shape.continuation.build.result = .error fault := by
  rw [BranchShape.result_build, except_bind_eq_error_iff]
  simp only [except_bind_eq_error_iff, reduceCtorEq, and_false, exists_false, or_false,
    exists_and_right]

theorem SessionShape.offends_of_build {shape : SessionShape}
    (refused : shape.build.result = .error fault) : shape.Offends fault := by
  induction shape with
  | done => simp [SessionShape.build] at refused
  | handler name => simp [SessionShape.build, Except.bind] at refused
  | choice polarity sign role branches closing ih =>
    rw [SessionShape.result_build_choice] at refused
    rcases gather_eq_error refused with ⟨branch, member, refused⟩ | ⟨rfl, rfl⟩
    · rcases BranchShape.result_build_eq_error_iff.mp refused with refused | ⟨_, refused⟩
      · exact .payload member (PayloadShape.offends_of_build refused)
      · exact .continuation member (ih branch member refused)
    · exact .empty

theorem SessionShape.Offends.not_built {shape : SessionShape} (offends : shape.Offends fault)
    (session : Session) : shape.build.result ≠ .ok session := by
  induction offends generalizing session with
  | empty =>
    intro built
    obtain ⟨branches, _, nothing⟩ := gather_eq_ok_iff.mp (SessionShape.result_build_choice .. ▸ built)
    exact NonEmpty.toList_ne_nil branches (List.forall₂_nil_left_iff.mp nothing)
  | payload member offends =>
    intro built
    obtain ⟨branches, _, all⟩ := gather_eq_ok_iff.mp (SessionShape.result_build_choice .. ▸ built)
    obtain ⟨branch, built⟩ := exists_of_forall₂ all member
    exact offends.not_built _ (BranchShape.result_build_eq_ok_iff.mp built).2.1
  | continuation member _ ih =>
    intro built
    obtain ⟨branches, _, all⟩ := gather_eq_ok_iff.mp (SessionShape.result_build_choice .. ▸ built)
    obtain ⟨branch, built⟩ := exists_of_forall₂ all member
    exact ih _ (BranchShape.result_build_eq_ok_iff.mp built).2.2

theorem BasicKind.keyword_isIdentifier (kind : BasicKind) : isIdentifier kind.keyword.toList := by
  cases kind <;> decide

theorem Word.kind_keyword (place : Nat) (kind : BasicKind) :
    Word.kind ⟨place, kind.keyword.toList⟩ = .ok kind :=
  Word.kind_eq_ok_iff.mpr (String.ofList_toList ..)

mutual

theorem Payload.Spelled.exists_shape (place : Nat) : Payload.Spelled payload ls →
    ∃ shape : PayloadShape, shape.Spelled place ls ∧ shape.build = .ok payload
  | .basic kind => ⟨.basic ⟨place, kind.keyword.toList⟩, .basic kind.keyword_isIdentifier, by
      rw [PayloadShape.build_basic, Word.kind_keyword]; rfl⟩
  | .list kind => ⟨.list ⟨place, kind.keyword.toList⟩, .list kind.keyword_isIdentifier, by
      rw [PayloadShape.build_list, Word.kind_keyword]; rfl⟩
  | .tuple series => by
    obtain ⟨shapes, stand, built⟩ := Payload.SeriesSpelled.exists_shapes (place + 1) series
    refine ⟨_, .tuple stand, ?_⟩
    rw [PayloadShape.build_tuple, gather_eq_ok_iff]
    exact ⟨_, rfl, built⟩

theorem Payload.SeriesSpelled.exists_shapes (place : Nat) : Payload.SeriesSpelled payloads ls →
    ∃ shapes, Series PayloadShape.Spelled place shapes ls ∧
      List.Forall₂ (fun (shape : PayloadShape) payload => shape.build = .ok payload) shapes payloads
  | .one spelled => by
    obtain ⟨shape, stands, built⟩ := Payload.Spelled.exists_shape place spelled
    exact ⟨[shape], .one stands, .cons built .nil⟩
  | @Payload.SeriesSpelled.more _ ls _ _ spelled series => by
    obtain ⟨shape, stands, built⟩ := Payload.Spelled.exists_shape place spelled
    obtain ⟨shapes, stand, all⟩ := Payload.SeriesSpelled.exists_shapes (place + ls.length + 1) series
    exact ⟨shape :: shapes, .more stands stand, .cons built all⟩

end

mutual

theorem Session.Spelled.exists_shape (place : Nat) : Session.Spelled session ls →
    ∃ shape : SessionShape, shape.Spelled place ls ∧ shape.build.result = .ok session
  | .done => ⟨.done place, .done, rfl⟩
  | @Session.Spelled.handler name named other => ⟨.handler ⟨place, name⟩, .handler named other, rfl⟩
  | @Session.Spelled.choice role _ _ _ polarity named series => by
    obtain ⟨shapes, stand, built⟩ := Branch.SeriesSpelled.exists_shapes (place + 4) series
    refine ⟨_, .choice polarity named stand, ?_⟩
    rw [SessionShape.result_build_choice, gather_eq_ok_iff]
    exact ⟨_, rfl, built⟩

theorem Branch.Spelled.exists_shape (place : Nat) : Branch.Spelled branch ls →
    ∃ shape : BranchShape, shape.Spelled SessionShape.Spelled place ls ∧
      shape.build.result = .ok branch
  | @Branch.Spelled.mk label payload ls _ _ named carried continued => by
    obtain ⟨inside, spelled, built⟩ := carried.exists_shape (place + 2)
    obtain ⟨next, continues, done⟩ :=
      Session.Spelled.exists_shape (place + 2 + ls.length + 2) continued
    exact ⟨_, .mk named spelled continues, BranchShape.result_build_eq_ok_iff.mpr ⟨rfl, built, done⟩⟩

theorem Branch.SeriesSpelled.exists_shapes (place : Nat) : Branch.SeriesSpelled branches ls →
    ∃ shapes, Series (BranchShape.Spelled SessionShape.Spelled) place shapes ls ∧
      List.Forall₂ (fun (shape : BranchShape) branch => shape.build.result = .ok branch) shapes
        branches
  | .one spelled => by
    obtain ⟨shape, stands, built⟩ := Branch.Spelled.exists_shape place spelled
    exact ⟨[shape], .one stands, .cons built .nil⟩
  | @Branch.SeriesSpelled.more _ ls _ _ spelled series => by
    obtain ⟨shape, stands, built⟩ := Branch.Spelled.exists_shape place spelled
    obtain ⟨shapes, stand, all⟩ := Branch.SeriesSpelled.exists_shapes (place + ls.length + 1) series
    exact ⟨shape :: shapes, .more stands stand, .cons built all⟩

end

theorem Word.lexeme_of_kind {word : Word} {named : BasicKind} (kind : word.kind = .ok named) :
    Lexeme.word word.letters = named.lexeme := by
  rw [BasicKind.lexeme, ← Word.kind_eq_ok_iff.mp kind, Word.text, String.toList_ofList]

/-- What is built from each member of a series makes a series of trees. -/
theorem Series.built {builds : σ → α → Prop} {stands : α → List Lexeme → Prop}
    {all : List α → List Lexeme → Prop} (one : ∀ {a ls}, stands a ls → all [a] ls)
    (more : ∀ {a ls others ms}, stands a ls → all others ms →
      all (a :: others) (ls ++ .mark ',' :: ms))
    (series : Series (fun _ shape ls => ∀ a, builds shape a → stands a ls) place shapes ls)
    (built : List.Forall₂ builds shapes trees) : all trees ls := by
  induction series generalizing trees with
  | one holds =>
    cases built with
    | cons first nothing =>
      cases nothing
      exact one (holds _ first)
  | more holds _ ih =>
    cases built with
    | cons first others => exact more (holds _ first) (ih others)

theorem PayloadShape.Spelled.tree (spelled : PayloadShape.Spelled place shape ls)
    (built : shape.build = .ok payload) : payload.Spelled ls := by
  induction spelled generalizing payload with
  | basic named =>
    obtain ⟨kind, known, made⟩ := except_bind_eq_ok_iff.mp built
    cases made
    exact Word.lexeme_of_kind known ▸ .basic kind
  | list named =>
    obtain ⟨kind, known, made⟩ := except_bind_eq_ok_iff.mp built
    cases made
    exact Word.lexeme_of_kind known ▸ .list kind
  | empty =>
    rw [PayloadShape.build_tuple, gather_eq_ok_iff] at built
    obtain ⟨elements, _, nothing⟩ := built
    exact absurd (List.forall₂_nil_left_iff.mp nothing) elements.toList_ne_nil
  | tuple _ assumed =>
    rw [PayloadShape.build_tuple, gather_eq_ok_iff] at built
    obtain ⟨elements, rfl, all⟩ := built
    have members : Series (fun _ (shape : PayloadShape) ls =>
        ∀ payload, shape.build = .ok payload → payload.Spelled ls) _ _ _ :=
      assumed.imp fun _ stands _ built => stands.elim fun _ holds => holds built
    exact .tuple (members.built .one .more all)

theorem BranchShape.Spelled.tree
    (spelled : BranchShape.Spelled (fun _ shape ls =>
      ∀ session, shape.build.result = .ok session → session.Spelled ls) place shape ls)
    (built : shape.build.result = .ok branch) : branch.Spelled ls := by
  obtain ⟨label, payload, continuation⟩ := branch
  cases spelled with
  | mk named carried continued =>
    obtain ⟨rfl, payload, next⟩ := BranchShape.result_build_eq_ok_iff.mp built
    exact .mk named (carried.tree payload) (continued _ next)

theorem SessionShape.Spelled.tree (spelled : SessionShape.Spelled place shape ls)
    (built : shape.build.result = .ok session) : session.Spelled ls := by
  induction spelled generalizing session with
  | done =>
    cases built
    exact .done
  | handler named other =>
    cases built
    exact .handler named other
  | empty =>
    rw [SessionShape.result_build_choice, gather_eq_ok_iff] at built
    obtain ⟨branches, _, nothing⟩ := built
    exact absurd (List.forall₂_nil_left_iff.mp nothing) branches.toList_ne_nil
  | choice polarity named _ assumed =>
    rw [SessionShape.result_build_choice, gather_eq_ok_iff] at built
    obtain ⟨branches, rfl, all⟩ := built
    have members : Series (fun _ (shape : BranchShape) ls =>
        ∀ branch, shape.build.result = .ok branch → branch.Spelled ls) _ _ _ :=
      assumed.imp fun _ spelled _ made =>
        (spelled.imp fun _ stands _ next => stands.elim fun _ holds => holds next).tree made
    exact .choice polarity named (members.built .one .more all)

end SessionSyntax
