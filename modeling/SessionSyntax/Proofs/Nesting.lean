import SessionSyntax.Proofs.Building
import SessionSyntax.Proofs.Cutting

/-! The lexemes of a tree nest their brackets just as deep as the tree does, and close them all. How
deep a text goes is the highest count behind any of its beginnings; for the braces of a text that
spells a session this is the number of choices on the longest path. -/
namespace SessionSyntax

theorem peakFrom_sign (depth : Nat) (polarity : Polarity) (ls : List Lexeme) :
    peakFrom depth (.mark polarity.sign :: ls) = peakFrom depth ls :=
  peakFrom_still (by cases polarity <;> rfl) ls

mutual

theorem Payload.Spelled.peakFrom_append (depth : Nat) (more : List Lexeme) :
    Payload.Spelled payload ls →
      peakFrom depth (ls ++ more) = max (depth + payload.nesting) (peakFrom depth more)
  | .basic kind => by
    have := le_peakFrom depth more
    rw [BasicKind.lexeme, List.singleton_append, peakFrom_still rfl, Payload.nesting]
    omega
  | .list kind => by
    have := le_peakFrom depth more
    simp only [BasicKind.lexeme, List.cons_append, List.nil_append]
    rw [peakFrom_still rfl, peakFrom_still rfl, peakFrom_still rfl, Payload.nesting]
    omega
  | .tuple series => by
    have inside := Payload.SeriesSpelled.peakFrom_append (depth + 1) (.mark ')' :: more) series
    have behind : peakFrom (depth + 1) (.mark ')' :: more) = max (depth + 1) (peakFrom depth more) :=
      rfl
    rw [List.cons_append, List.cons_append, List.append_assoc, peakFrom_opening rfl]
    simp only [List.singleton_append, inside, behind, Payload.nesting, Payload.nestingAmong]
    omega

theorem Payload.SeriesSpelled.peakFrom_append (depth : Nat) (more : List Lexeme) :
    Payload.SeriesSpelled payloads ls →
      peakFrom depth (ls ++ more) =
        max (depth + Payload.nestingAmong payloads) (peakFrom depth more)
  | .one spelled => by
    have first := Payload.Spelled.peakFrom_append depth more spelled
    simp only [first, Payload.nestingAmong]
    omega
  | @Payload.SeriesSpelled.more _ ls _ ms spelled series => by
    have first := Payload.Spelled.peakFrom_append depth (.mark ',' :: ms ++ more) spelled
    have others := Payload.SeriesSpelled.peakFrom_append depth more series
    rw [List.append_assoc, first, List.cons_append, peakFrom_still rfl, others,
      Payload.nestingAmong]
    omega

end

mutual

theorem Session.Spelled.peakFrom_append (depth : Nat) (more : List Lexeme) :
    Session.Spelled session ls →
      peakFrom depth (ls ++ more) = max (depth + session.nesting) (peakFrom depth more)
  | .done | .handler _ _ => by
    have := le_peakFrom depth more
    rw [List.singleton_append, peakFrom_still rfl, Session.nesting]
    omega
  | .choice polarity _ series => by
    have inside := Branch.SeriesSpelled.peakFrom_append (depth + 1) (.mark '\x7d' :: more) series
    have behind : peakFrom (depth + 1) (.mark '\x7d' :: more) = max (depth + 1) (peakFrom depth more) :=
      rfl
    simp only [List.cons_append, List.append_assoc, List.nil_append]
    rw [peakFrom_sign, peakFrom_still rfl, peakFrom_still rfl, peakFrom_opening rfl]
    simp only [inside, behind, Session.nesting, Branch.nestingAmong]
    omega

theorem Branch.Spelled.peakFrom_append (depth : Nat) (more : List Lexeme) :
    Branch.Spelled branch ls →
      peakFrom depth (ls ++ more) = max (depth + branch.nesting) (peakFrom depth more)
  | @Branch.Spelled.mk _ _ ls _ ms _ carried continued => by
    have inside := carried.peakFrom_append (depth + 1) (.mark ')' :: .mark '.' :: (ms ++ more))
    have behind : peakFrom (depth + 1) (.mark ')' :: .mark '.' :: (ms ++ more)) =
        max (depth + 1) (peakFrom depth (.mark '.' :: (ms ++ more))) := rfl
    have next := Session.Spelled.peakFrom_append depth more continued
    simp only [List.cons_append, List.append_assoc]
    rw [peakFrom_still rfl, peakFrom_opening rfl, inside, behind, peakFrom_still rfl, next,
      Branch.nesting]
    omega

theorem Branch.SeriesSpelled.peakFrom_append (depth : Nat) (more : List Lexeme) :
    Branch.SeriesSpelled branches ls →
      peakFrom depth (ls ++ more) =
        max (depth + Branch.nestingAmong branches) (peakFrom depth more)
  | .one spelled => by
    have first := Branch.Spelled.peakFrom_append depth more spelled
    simp only [first, Branch.nestingAmong]
    omega
  | @Branch.SeriesSpelled.more _ ls _ ms spelled series => by
    have first := Branch.Spelled.peakFrom_append depth (.mark ',' :: ms ++ more) spelled
    have others := Branch.SeriesSpelled.peakFrom_append depth more series
    rw [List.append_assoc, first, List.cons_append, peakFrom_still rfl, others, Branch.nestingAmong]
    omega

end

theorem Payload.Spelled.peak_eq (spelled : Payload.Spelled payload ls) : peak ls = payload.nesting := by
  simpa [peak, peakFrom] using spelled.peakFrom_append 0 []

theorem Session.Spelled.peak_eq (spelled : Session.Spelled session ls) : peak ls = session.nesting := by
  simpa [peak, peakFrom] using spelled.peakFrom_append 0 []

theorem Payload.nestingAmong_le_iff :
    Payload.nestingAmong payloads ≤ bound ↔ ∀ payload ∈ payloads, payload.nesting ≤ bound := by
  induction payloads with
  | nil => simp [Payload.nestingAmong]
  | cons payload payloads ih => rw [Payload.nestingAmong, Nat.max_le, ih, List.forall_mem_cons]

theorem Branch.nestingAmong_le_iff :
    Branch.nestingAmong branches ≤ bound ↔ ∀ branch ∈ branches, branch.nesting ≤ bound := by
  induction branches with
  | nil => simp [Branch.nestingAmong]
  | cons branch branches ih => rw [Branch.nestingAmong, Nat.max_le, ih, List.forall_mem_cons]

/-- The parentheses of a tuple add one to what its elements nest. -/
theorem Payload.nesting_tuple_le_iff {payloads : NonEmpty Payload} :
    (Payload.tuple payloads).nesting ≤ limit ↔
      ∀ payload ∈ payloads.toList, 1 + payload.nesting ≤ limit := by
  obtain ⟨first, rest⟩ := payloads
  cases limit with
  | zero => exact iff_of_false (by simp [Payload.nesting]) fun all => by simpa using all first (by simp)
  | succ bound =>
    simp only [Payload.nesting, Nat.add_comm 1, Nat.add_le_add_iff_right, Nat.max_le,
      Payload.nestingAmong_le_iff, NonEmpty.toList_mk, List.forall_mem_cons]

/-- The braces of a block add one to what its branches nest. -/
theorem Session.nesting_choice_le_iff {branches : NonEmpty Branch} :
    (Session.choice polarity role branches).nesting ≤ limit ↔
      ∀ branch ∈ branches.toList, 1 + branch.nesting ≤ limit := by
  obtain ⟨first, rest⟩ := branches
  cases limit with
  | zero => exact iff_of_false (by simp [Session.nesting]) fun all => by simpa using all first (by simp)
  | succ bound =>
    simp only [Session.nesting, Nat.add_comm 1, Nat.add_le_add_iff_right, Nat.max_le,
      Branch.nestingAmong_le_iff, NonEmpty.toList_mk, List.forall_mem_cons]

namespace Text

theorem highest_le_iff {count : List Char → Nat} :
    highest count text ≤ limit ↔ ∀ before, before <+: text → count before ≤ limit := by
  have bound (counts : List Nat) :
      counts.foldr max 0 ≤ limit ↔ ∀ n ∈ counts, n ≤ limit := by
    induction counts with
    | nil => simp
    | cons n counts ih => rw [List.foldr_cons, Nat.max_le, ih, List.forall_mem_cons]
  rw [highest, bound]
  simp only [List.mem_map, List.mem_range, forall_exists_index, and_imp, forall_apply_eq_imp_iff₂]
  constructor
  · intro all before front
    rw [List.prefix_iff_eq_take.mp front]
    exact all _ (Nat.lt_succ_of_le front.length_le)
  · intro within n _
    exact within _ (List.take_prefix n text)

theorem highest_eq {count : List Char → Nat}
    (bounded : ∀ limit, (∀ before, before <+: text → count before ≤ limit) ↔ n ≤ limit) :
    highest count text = n := by
  apply Nat.le_antisymm
  · exact highest_le_iff.mpr ((bounded n).mpr (Nat.le_refl n))
  · exact (bounded _).mp (highest_le_iff.mp (Nat.le_refl _))

theorem nestsWithin_iff : NestsWithin limit text ↔ highest nesting text ≤ limit :=
  highest_le_iff.symm

/-- Characters that do not count may be left out. -/
theorem forall_prefix_filter {step : Nat → Char → Nat} {keeps : Char → Bool}
    (still : ∀ c depth, ¬keeps c → step depth c = depth) (depth : Nat) (text : List Char) :
    (∀ before, before <+: text → before.foldl step depth ≤ limit) ↔
      ∀ before, before <+: text.filter keeps → before.foldl step depth ≤ limit := by
  induction text generalizing depth with
  | nil => rfl
  | cons c cs ih =>
    by_cases kept : keeps c
    · rw [List.filter_cons_of_pos kept, forall_prefix_cons, forall_prefix_cons, ih]
    · have alone : ∀ d ∈ [c], step depth d = depth := by simpa using still c depth kept
      rw [List.filter_cons_of_neg kept, ← ih, ← List.singleton_append,
        forall_prefix_append depth alone]

/-- The braces of a text keep within the limit, when the count goes on from the given depth. -/
def BracesWithin (limit depth : Nat) (text : List Char) : Prop :=
  ∀ before, before <+: text → before.foldl nestBraces depth ≤ limit

theorem BracesWithin.start (within : BracesWithin limit depth text) : depth ≤ limit :=
  within [] text.nil_prefix

/-- The character is no brace. -/
def Flat (c : Char) : Prop := c ≠ '\x7b' ∧ c ≠ '\x7d'

instance : Decidable (Flat c) := inferInstanceAs (Decidable (_ ∧ _))

theorem nestBraces_of_flat (flat : Flat c) (depth : Nat) : nestBraces depth c = depth := by
  simp [nestBraces, flat.1, flat.2]

theorem flat_of_isBlank (blank : isBlank c) : Flat c := by
  constructor <;> rintro rfl <;> revert blank <;> decide

theorem flat_of_isWordChar (letter : isWordChar c) : Flat c := by
  constructor <;> rintro rfl <;> revert letter <;> decide

theorem bracesWithin_flat (flat : ∀ c ∈ skipped, Flat c) :
    BracesWithin limit depth (skipped ++ text) ↔ BracesWithin limit depth text :=
  forall_prefix_append depth (fun c member => nestBraces_of_flat (flat c member) depth) text

theorem bracesWithin_mark (flat : Flat c) :
    BracesWithin limit depth (c :: text) ↔ BracesWithin limit depth text :=
  bracesWithin_flat (List.forall_mem_singleton.mpr flat)

theorem bracesWithin_opening :
    BracesWithin limit depth ('\x7b' :: text) ↔ BracesWithin limit (depth + 1) text := by
  have inside : BracesWithin limit depth ('\x7b' :: text) ↔
      depth ≤ limit ∧ BracesWithin limit (depth + 1) text := forall_prefix_cons ..
  rw [inside]
  exact and_iff_right_of_imp fun within => Nat.le_of_succ_le within.start

theorem bracesWithin_closing :
    BracesWithin limit (depth + 1) ('\x7d' :: text) ↔
      depth + 1 ≤ limit ∧ BracesWithin limit depth text :=
  forall_prefix_cons ..

end Text

open Text

/-- What the lexemes are written with. -/
def lettering (ls : List Lexeme) : List Char := ls.flatMap Lexeme.chars

@[simp] theorem lettering_nil : lettering [] = [] := rfl

@[simp] theorem lettering_word (letters : List Char) (ls : List Lexeme) :
    lettering (.word letters :: ls) = letters ++ lettering ls := rfl

@[simp] theorem lettering_mark (c : Char) (ls : List Lexeme) :
    lettering (.mark c :: ls) = c :: lettering ls := rfl

@[simp] theorem lettering_append (ls ms : List Lexeme) :
    lettering (ls ++ ms) = lettering ls ++ lettering ms := List.flatMap_append

theorem flat_of_isIdentifier (named : isIdentifier letters) : ∀ c ∈ letters, Flat c :=
  fun c member => flat_of_isWordChar (isWordChar_of_isIdentifier named c member)

mutual

theorem Payload.Spelled.flat : Payload.Spelled payload ls → ∀ c ∈ lettering ls, Flat c
  | .basic kind => by simpa [BasicKind.lexeme] using flat_of_isIdentifier kind.keyword_isIdentifier
  | .list kind => by
    have brackets : ∀ c ∈ ['[', ']'], Flat c := by simp [Flat]
    simpa [BasicKind.lexeme, List.forall_mem_append] using
      List.forall_mem_append.mpr ⟨flat_of_isIdentifier kind.keyword_isIdentifier, brackets⟩
  | .tuple series => by
    have inside := Payload.SeriesSpelled.flat series
    have closing : ∀ c ∈ [')'], Flat c := by simp [Flat]
    rw [List.cons_append, lettering_mark, lettering_append]
    exact List.forall_mem_cons.mpr ⟨by decide, List.forall_mem_append.mpr ⟨inside, closing⟩⟩

theorem Payload.SeriesSpelled.flat : Payload.SeriesSpelled payloads ls → ∀ c ∈ lettering ls, Flat c
  | .one spelled => Payload.Spelled.flat spelled
  | .more spelled series => by
    have first := Payload.Spelled.flat spelled
    have others := Payload.SeriesSpelled.flat series
    have comma : Flat ',' := by decide
    rw [lettering_append, lettering_mark]
    exact List.forall_mem_append.mpr ⟨first, List.forall_mem_cons.mpr ⟨comma, others⟩⟩

end

@[simp] theorem Session.deepest_cons (branch : Branch) (rest : List Branch) :
    Session.deepest (branch :: rest) = max branch.continuation.depth (Session.deepest rest) := by
  cases branch
  rw [Session.deepest]

theorem Session.depth_choice (polarity : Polarity) (role : Symbol) (first : Branch)
    (rest : List Branch) :
    (Session.choice polarity role ⟨first, rest⟩).depth = 1 + Session.deepest (first :: rest) := by
  cases first
  rw [Session.depth, Session.deepest_cons]

theorem bracesWithin_leaf (flat : ∀ c ∈ letters, Flat c) :
    BracesWithin limit depth (letters ++ text) ↔ depth ≤ limit ∧ BracesWithin limit depth text := by
  rw [bracesWithin_flat flat]
  exact (and_iff_right_of_imp BracesWithin.start).symm

mutual

theorem Session.Spelled.bracesWithin_append (limit depth : Nat) (more : List Char) :
    Session.Spelled session ls → (BracesWithin limit depth (lettering ls ++ more) ↔
      depth + session.depth ≤ limit ∧ BracesWithin limit depth more)
  | .done => bracesWithin_leaf (flat_of_isIdentifier rfl)
  | .handler named _ => by
    simpa [Session.depth] using bracesWithin_leaf (flat_of_isIdentifier named)
  | .choice polarity named series => by
    have inside := Branch.SeriesSpelled.bracesWithin_append limit (depth + 1)
      ('\x7d' :: more) series
    have sign : Flat polarity.sign := by cases polarity <;> decide
    simp only [List.cons_append, List.append_assoc, lettering_mark, lettering_word, lettering_append,
      lettering_nil, List.nil_append]
    rw [bracesWithin_mark sign, bracesWithin_flat (flat_of_isIdentifier named),
      bracesWithin_mark (by decide), bracesWithin_opening, inside, bracesWithin_closing,
      Session.depth_choice, ← and_assoc]
    exact and_congr (by omega) Iff.rfl

theorem Branch.Spelled.bracesWithin_append (limit depth : Nat) (more : List Char) :
    Branch.Spelled branch ls → (BracesWithin limit depth (lettering ls ++ more) ↔
      depth + branch.continuation.depth ≤ limit ∧ BracesWithin limit depth more)
  | .mk named carried continued => by
    have next := Session.Spelled.bracesWithin_append limit depth more continued
    simp only [List.cons_append, List.append_assoc, lettering_mark, lettering_word, lettering_append]
    rw [bracesWithin_flat (flat_of_isIdentifier named), bracesWithin_mark (by decide),
      bracesWithin_flat carried.flat, bracesWithin_mark (by decide), bracesWithin_mark (by decide),
      next]

theorem Branch.SeriesSpelled.bracesWithin_append (limit depth : Nat) (more : List Char) :
    Branch.SeriesSpelled branches ls → (BracesWithin limit depth (lettering ls ++ more) ↔
      depth + Session.deepest branches ≤ limit ∧ BracesWithin limit depth more)
  | .one spelled => by
    rw [Branch.Spelled.bracesWithin_append limit depth more spelled, Session.deepest_cons,
      Session.deepest, Nat.max_zero]
  | .more spelled series => by
    have others := Branch.SeriesSpelled.bracesWithin_append limit depth more series
    rw [lettering_append, lettering_mark, List.append_assoc,
      Branch.Spelled.bracesWithin_append limit depth _ spelled, List.cons_append,
      bracesWithin_mark (by decide), others, Session.deepest_cons, ← and_assoc]
    exact and_congr (by omega) Iff.rfl

end

/-- The braces of a text nest as deep as the choices of the session that it spells. -/
theorem Session.Spelled.highest_openBraces (spelled : Session.Spelled session ls)
    (spaced : Spaced text ls) : highest openBraces text = session.depth := by
  refine highest_eq fun limit => ?_
  have blanks (c : Char) (depth : Nat) (blank : ¬!isBlank c) : nestBraces depth c = depth :=
    nestBraces_of_flat (flat_of_isBlank (by simpa using blank)) depth
  have counted := spelled.bracesWithin_append limit 0 []
  have nothing : BracesWithin limit 0 [] := by simp [BracesWithin]
  rw [List.append_nil, Nat.zero_add, and_iff_left nothing] at counted
  exact (forall_prefix_filter blanks 0 text).trans (spaced.filter_eq ▸ counted)

/-- The brackets of a text nest as deep as those of its lexemes. -/
theorem Spaced.highest_nesting (spaced : Spaced text ls) : highest nesting text = peak ls :=
  highest_eq fun _ => (peak_le_iff spaced).symm

theorem Payload.Spelled.highest_nesting (spelled : Payload.Spelled payload ls)
    (spaced : Spaced text ls) : Text.highest Text.nesting text = payload.nesting :=
  spaced.highest_nesting.trans spelled.peak_eq

theorem Session.Spelled.highest_nesting (spelled : Session.Spelled session ls)
    (spaced : Spaced text ls) : Text.highest Text.nesting text = session.nesting :=
  spaced.highest_nesting.trans spelled.peak_eq

end SessionSyntax
