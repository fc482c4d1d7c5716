import Mathlib
import SessionSyntax.Proofs.Pointing

/-! The names that the grammar finds are the texts that validation accepts. So a text without blanks
at its ends is read as a leaf just if it is an identifier. Building takes roles, labels and handlers as
the grammar found them; reading in which each of them is validated once more, and the first that is no
identifier stops building, comes to the same as reading without that. -/
namespace SessionSyntax

def IsLetter (c : Char) : Prop := 'a' ≤ c ∧ c ≤ 'z' ∨ 'A' ≤ c ∧ c ≤ 'Z'

def IsDigit (c : Char) : Prop := '0' ≤ c ∧ c ≤ '9'

/-- The rule for names, by ranges of characters. -/
def IsName (text : List Char) : Prop :=
  ∃ first rest, text = first :: rest ∧ (IsLetter first ∨ first = '_') ∧
    ∀ c ∈ rest, IsLetter c ∨ IsDigit c ∨ c = '_'

mutual

/-- The words of a phrase that symbols are made of. -/
def SessionShape.names : SessionShape → List Word
  | .done _ => []
  | .handler name => [name]
  | .choice _ _ role branches _ => role :: BranchShape.namesAmong branches

def BranchShape.namesAmong : List BranchShape → List Word
  | [] => []
  | ⟨label, _, next⟩ :: rest => label :: (next.names ++ BranchShape.namesAmong rest)

end

/-- The symbol of a word, if it is an identifier. -/
def Word.validated (word : Word) : ExceptT InvalidIdentifier Logged Symbol :=
  ExceptT.mk (pure (Symbol.ofRaw word.text))

mutual

def SessionShape.validated : SessionShape → ExceptT InvalidIdentifier Logged Session
  | .done _ => return .done
  | .handler name => do
    let name ← name.validated
    Logged.note (.handler name)
    return .handler name
  | .choice polarity sign role branches closing => do
    let role ← role.validated
    match NonEmpty.ofList? (← BranchShape.validatedAll branches) with
    | some branches =>
      Logged.note (.choice role branches.size)
      return .choice polarity role branches
    | none => Logged.fail (.emptyCollection sign closing .branches)

def BranchShape.validated : BranchShape → ExceptT InvalidIdentifier Logged Branch
  | ⟨label, payload, continuation⟩ => do
    let label ← label.validated
    let payload ← (Logged.ofExcept payload.build : Logged Payload)
    return ⟨label, payload, ← continuation.validated⟩

def BranchShape.validatedAll : List BranchShape → ExceptT InvalidIdentifier Logged (List Branch)
  | [] => return []
  | shape :: rest => do return (← shape.validated) :: (← BranchShape.validatedAll rest)

end

/-- Reads session types as `sessionReader` does, but for the validation of each name. -/
def validatingReader : Reader SessionShape (Except InvalidIdentifier Session) :=
  { sessionReader with build := fun shape => shape.validated.run }

theorem isAlpha_iff_isLetter : c.isAlpha ↔ IsLetter c := by
  simp [Char.isAlpha, Char.isUpper, Char.isLower, IsLetter, Char.le_def, or_comm]

theorem isDigit_iff_isDigit : c.isDigit ↔ IsDigit c := by
  simp [Char.isDigit, IsDigit, Char.le_def]

theorem isWordStart_iff : isWordStart c ↔ IsLetter c ∨ c = '_' := by
  simp [isWordStart, isAlpha_iff_isLetter]

theorem isWordChar_iff : isWordChar c ↔ IsLetter c ∨ IsDigit c ∨ c = '_' := by
  simp [isWordChar, Char.isAlphanum, isAlpha_iff_isLetter, isDigit_iff_isDigit, or_assoc]

theorem isIdentifier_iff_isName : isIdentifier text ↔ IsName text := by
  cases text with
  | nil => simp [isIdentifier, IsName]
  | cons c cs => simp [isIdentifier_cons_iff, isWordStart_iff, isWordChar_iff, IsName]

theorem exists_ofRaw_iff : (∃ name, Symbol.ofRaw raw = .ok name) ↔ isIdentifier raw.toList := by
  simp [Symbol.ofRaw_eq_ok_iff]

theorem spaced_identifier (named : isIdentifier letters) : Spaced letters [.word letters] := by
  have word := Spaced.word letters (ne_nil_of_isIdentifier named) (isWordChar_of_isIdentifier named)
    (by simp) .nil
  rwa [List.append_nil] at word

theorem Session.parse_identifier {text : String} (named : isIdentifier text.toList) :
    Session.parseWith ⟨limit⟩ text =
      .ok (if text = "end" then .done else .handler (.ofWord text.toList)) := by
  have spaced := spaced_identifier named
  have nested : Text.NestsWithin limit text.toList :=
    (peak_le_iff spaced).mp (by simp [peak, peakFrom, Lexeme.nest, Lexeme.opens, Lexeme.closes])
  apply (Session.parseWith_eq_ok_iff ..).mpr
  refine ⟨nested, _, spaced, ?_⟩
  by_cases done : text = "end"
  · rw [if_pos done, done]
    exact .done
  · rw [if_neg done]
    exact .handler named fun same => done (String.toList_injective same)

/-- A leaf is spelled by one word, which is an identifier. -/
theorem Session.Spelled.exists_word {leaf : Session} (spelled : leaf.Spelled ls)
    (leaves : leaf.isDone ∨ leaf.isHandler) : ∃ letters, isIdentifier letters ∧ ls = [.word letters] := by
  cases spelled with
  | done => exact ⟨_, by decide, rfl⟩
  | handler named => exact ⟨_, named, rfl⟩
  | choice => simp [Session.isDone, Session.isHandler] at leaves

theorem Session.isIdentifier_of_parse {text : String} {leaf : Session} (begins : Unindented text.toList)
    (ends : Trimmed text.toList) (accepted : Session.parseWith ⟨limit⟩ text = .ok leaf)
    (leaves : leaf.isDone ∨ leaf.isHandler) : isIdentifier text.toList := by
  obtain ⟨_, ls, spaced, spelled⟩ := (Session.parseWith_eq_ok_iff ..).mp accepted
  obtain ⟨letters, named, rfl⟩ := spelled.exists_word leaves
  rw [spaced.eq_chars begins ends]
  exact named

theorem BranchShape.forall_namesAmong_iff {holds : Word → Prop} {branches : List BranchShape} :
    (∀ word ∈ BranchShape.namesAmong branches, holds word) ↔
      ∀ branch ∈ branches, holds branch.label ∧ ∀ word ∈ branch.continuation.names, holds word := by
  induction branches with
  | nil => simp [BranchShape.namesAmong]
  | cons branch rest ih =>
    obtain ⟨label, payload, next⟩ := branch
    rw [BranchShape.namesAmong, List.forall_mem_cons, List.forall_mem_append, ih,
      List.forall_mem_cons, and_assoc]

/-- Every name of a phrase is an identifier. -/
theorem SessionShape.Spelled.names_named (spelled : SessionShape.Spelled place shape ls) :
    ∀ word ∈ shape.names, isIdentifier word.letters := by
  induction shape generalizing place ls with
  | done => simp [SessionShape.names]
  | handler name =>
    cases spelled with
    | handler named => simpa [SessionShape.names] using named
  | choice polarity sign role branches closing ih =>
    rw [SessionShape.names, List.forall_mem_cons, BranchShape.forall_namesAmong_iff]
    constructor
    · cases spelled <;> assumption
    · intro branch member
      obtain ⟨_, part, _, phrase⟩ := spelled.exists_branch member
      obtain ⟨_, next, _, session⟩ := spelled.exists_continuation member
      refine ⟨?_, ih branch member session⟩
      cases phrase
      assumption

theorem Word.ofRaw_text {word : Word} (named : isIdentifier word.letters) :
    Symbol.ofRaw word.text = .ok word.symbol := by
  rw [Symbol.ofRaw_eq_ok_iff, Word.text, String.toList_ofList]
  exact ⟨named, rfl⟩

theorem Word.validated_eq {word : Word} (named : isIdentifier word.letters) :
    word.validated = pure word.symbol := by
  rw [Word.validated, Word.ofRaw_text named]
  rfl

theorem BranchShape.validatedAll_eq {branches : List BranchShape}
    (each : ∀ branch ∈ branches, branch.validated = liftM branch.build) :
    BranchShape.validatedAll branches = liftM (BranchShape.buildAll branches) := by
  induction branches with
  | nil => rfl
  | cons branch rest ih =>
    obtain ⟨first, others⟩ := List.forall_mem_cons.mp each
    rw [BranchShape.validatedAll, BranchShape.buildAll, first, ih others]
    simp only [liftM_bind, liftM_pure]

theorem BranchShape.validated_eq {branch : BranchShape} (label : isIdentifier branch.label.letters)
    (continuation : branch.continuation.validated = liftM branch.continuation.build) :
    branch.validated = liftM branch.build := by
  obtain ⟨name, payload, next⟩ := branch
  rw [BranchShape.validated, BranchShape.build, Word.validated_eq label, continuation]
  simp only [pure_bind, liftM_bind, liftM_pure]

/-- Where all names are identifiers, validation makes no difference. -/
theorem SessionShape.validated_eq {shape : SessionShape}
    (named : ∀ word ∈ shape.names, isIdentifier word.letters) :
    shape.validated = liftM shape.build := by
  induction shape with
  | done => rfl
  | handler name =>
    rw [SessionShape.validated, SessionShape.build, Word.validated_eq (named name (by simp [names]))]
    simp only [pure_bind, liftM_bind, liftM_pure]
  | choice polarity sign role branches closing ih =>
    rw [SessionShape.names] at named
    obtain ⟨first, others⟩ := List.forall_mem_cons.mp named
    have all : BranchShape.validatedAll branches = liftM (BranchShape.buildAll branches) := by
      apply BranchShape.validatedAll_eq
      intro branch member
      obtain ⟨label, next⟩ := BranchShape.forall_namesAmong_iff.mp others branch member
      exact branch.validated_eq label (ih branch member next)
    rw [SessionShape.validated, SessionShape.build, Word.validated_eq first, all]
    simp only [pure_bind, liftM_bind]
    congr 1
    funext built
    cases NonEmpty.ofList? built with
    | none => rfl
    | some => rfl

namespace Rule

open Matcher (Agree agree_pure)

/-- The words are identifiers. -/
def Named (words : List Word) : Prop := ∀ word ∈ words, isIdentifier word.letters

/-- Of what makes no difference nothing is asked. -/
theorem agree_any (rule : Rule α) : Agree (fun _ => True) rule rule fun _ _ => True :=
  fun _ _ => ⟨rfl, fun _ _ _ _ => trivial⟩

theorem identifier_named :
    Agree (fun _ => True) identifier identifier fun word _ => isIdentifier word.letters := by
  refine Agree.named .identifier fun _ _ => ⟨rfl, fun _ _ _ found => ?_⟩
  exact (Scanner.identifier_eq_some_iff.mp (of_found_atomic found).1).2.1

theorem branch_named (payload : Rule PayloadShape) {session : Rule SessionShape}
    (named : Agree (fun _ => True) session session fun shape _ => Named shape.names) :
    Agree (fun _ => True) (branch payload session) (branch payload session) fun branch _ =>
      isIdentifier branch.label.letters ∧ Named branch.continuation.names := by
  refine Agree.named .branch (identifier_named.bind fun label here word => ?_)
  refine ((agree_any blanks).bind fun _ => (agree_any (literal '(')).bind fun _ => ?_) here trivial
  refine (agree_any blanks).bind fun _ => (agree_any payload).bind fun _ => ?_
  refine (agree_any blanks).bind fun _ => (agree_any closeParen).bind fun _ => ?_
  refine (agree_any blanks).bind fun _ => (agree_any dot).bind fun _ => ?_
  refine (agree_any blanks).bind fun _ => named.bind fun next here names => ?_
  exact agree_pure _ here ⟨word, names⟩

theorem choice_named (polarity : Polarity) {branch : Rule BranchShape}
    (named : Agree (fun _ => True) branch branch fun branch _ =>
      isIdentifier branch.label.letters ∧ Named branch.continuation.names) :
    Agree (fun _ => True) (choice polarity branch) (choice polarity branch) fun shape _ =>
      Named shape.names := by
  have members : Agree (fun _ => True) branch branch fun branch _ =>
      (isIdentifier branch.label.letters ∧ Named branch.continuation.names) ∧ True :=
    fun here start => ⟨rfl, fun frontier a there found =>
      ⟨(named here start).2 frontier a there found, trivial⟩⟩
  refine (agree_any (literal polarity.sign)).bind fun sign => ?_
  refine (agree_any blanks).bind fun _ => identifier_named.bind fun role here word => ?_
  refine ((agree_any blanks).bind fun _ => (agree_any colon).bind fun _ => ?_) here trivial
  refine (agree_any blanks).bind fun _ => (agree_any (literal '\x7b')).bind fun _ => ?_
  refine (agree_any blanks).bind fun _ => ?_
  refine (agree_commaList (agree_any blanks) (agree_any comma) members).bind fun branches here all => ?_
  refine ((agree_any blanks).bind fun _ => (agree_any closeBrace).bind fun closing => ?_) here trivial
  refine fun here _ => agree_pure _ here (List.forall_mem_cons.mpr ⟨word, ?_⟩)
  exact BranchShape.forall_namesAmong_iff.mpr all.1

/-- Every name of a phrase that is found, wherever it is, is an identifier. -/
theorem session_named (n : Nat) :
    Agree (fun _ => True) (session n) (session n) fun shape _ => Named shape.names := by
  induction n with
  | zero => exact fun _ _ => ⟨rfl, fun _ _ _ found => by cases found⟩
  | succ n ih =>
    have choice (polarity : Polarity) := choice_named polarity (branch_named (payload n) ih)
    refine Agree.named .sessionType (Agree.orElse ?_ (Agree.orElse ?_ (Agree.orElse ?_ ?_)))
    · refine Agree.named .done ((agree_any (atomic .endWord)).bind fun word here _ => ?_)
      exact agree_pure _ here (by simp [Named, SessionShape.names])
    · exact (choice .receive).named .receive
    · exact (choice .send).named .send
    · refine Agree.named .handler (identifier_named.bind fun name here word => ?_)
      exact agree_pure _ here (by simpa [Named, SessionShape.names] using word)

end Rule

theorem validatingReader_read (config : Config) (content : Content) :
    validatingReader.read config content = Except.ok <$> sessionReader.read config content := by
  rw [Reader.read, Reader.read]
  cases content.overflow? config.maxDepth with
  | some place => rfl
  | none =>
    have same : validatingReader.rule = Rule.session := rfl
    have plain : sessionReader.rule = Rule.session := rfl
    rw [same, plain]
    rcases attempt : Rule.session (content.text.length + 1) ⟨0, content.text⟩ .initial with
      ⟨_ | ⟨shape, there⟩, frontier⟩
    · rfl
    · have named : Rule.Named shape.names :=
        (Rule.session_named _ _ trivial).2 _ _ _ (congrArg Attempt.found attempt)
      have built : validatingReader.build shape = Except.ok <$> sessionReader.build shape :=
        congrArg ExceptT.run (SessionShape.validated_eq named)
      simp only [built, map_eq_pure_bind, bind_assoc, pure_bind]
      congr 1
      funext session
      split <;> rfl

theorem validatingReader_parse (config : Config) (text : String) :
    validatingReader.parse config text = (Session.parseWith config text).map .ok := by
  rw [Reader.parse, Session.parseWith, Reader.parse, validatingReader_read, Logged.result_map]
  cases (sessionReader.read config (Content.ofText text)).result <;> rfl

theorem validatingReader_events (config : Config) (text : String) :
    validatingReader.events config text = sessionReader.events config text := by
  rw [Reader.events, Reader.events, validatingReader_read, Logged.notes_map, validatingReader_parse,
    Session.parseWith]
  cases sessionReader.parse config text <;> rfl

/-- A text that begins and ends with no blank is read as a leaf just if it is an identifier, and the
leaf is that of the symbol that is made of the text; this is so by the rule for names just as well.
Whatever the text, symbols are only made of identifiers: validating each of them makes no difference
to what is read, and none to the log. -/
theorem names_validate (text : String) (limit : Nat) :
    (Unindented text.toList → Trimmed text.toList →
      ((∃ leaf, Session.parseWith ⟨limit⟩ text = .ok leaf ∧ (leaf.isDone ∨ leaf.isHandler)) ↔
        ∃ name, Symbol.ofRaw text = .ok name) ∧
      ∀ name, Symbol.ofRaw text = .ok name →
        Session.parseWith ⟨limit⟩ text = .ok (if text = "end" then .done else .handler name)) ∧
    ((∃ name, Symbol.ofRaw text = .ok name) ↔ IsName text.toList) ∧
    ((∃ name, Symbol.ofRaw text = .ok name) ↔
      Scanner.identifier text.toList = some (text.toList, [])) ∧
    (∀ n here frontier shape there,
      (Rule.session n here frontier).found = some (shape, there) →
      ∀ word ∈ shape.names, Symbol.ofRaw word.text = .ok word.symbol) ∧
    (∀ n here frontier shape there,
      (Matcher.sessionShape n here frontier).found = some (shape, there) →
      ∀ word ∈ shape.names, Symbol.ofRaw word.text = .ok word.symbol) ∧
    validatingReader.parse ⟨limit⟩ text = (Session.parseWith ⟨limit⟩ text).map .ok ∧
    validatingReader.events ⟨limit⟩ text = sessionReader.events ⟨limit⟩ text := by
  refine ⟨fun begins ends => ⟨?_, ?_⟩, ?_, ?_, ?_, ?_, ?_, ?_⟩
  · rw [exists_ofRaw_iff]
    constructor
    · rintro ⟨leaf, accepted, leaves⟩
      exact Session.isIdentifier_of_parse begins ends accepted leaves
    · intro named
      refine ⟨_, Session.parse_identifier named, ?_⟩
      split
      · exact .inl rfl
      · exact .inr rfl
  · intro name made
    obtain ⟨named, rfl⟩ := Symbol.ofRaw_eq_ok_iff.mp made
    exact Session.parse_identifier named
  · rw [exists_ofRaw_iff, isIdentifier_iff_isName]
  · rw [exists_ofRaw_iff, Scanner.identifier_eq_some_iff]
    simp
  · intro n here frontier shape there matched word member
    have named := (Rule.session_named n here trivial).2 frontier shape there matched
    exact Word.ofRaw_text (named word member)
  · intro n here frontier shape there matched word member
    obtain ⟨_, phrase, _⟩ := sessionShape_sound n matched
    exact Word.ofRaw_text (phrase.names_named word member)
  · exact validatingReader_parse ⟨limit⟩ text
  · exact validatingReader_events ⟨limit⟩ text

theorem names_validate_capital :
    ((∃ leaf, Session.parseWith ⟨0⟩ "A1" = .ok leaf ∧ (leaf.isDone ∨ leaf.isHandler)) ↔
      ∃ name, Symbol.ofRaw "A1" = .ok name) ∧
    Session.parseWith ⟨0⟩ "A1" = .ok (.handler ⟨"a1"⟩) ∧
    ∃ shape there,
      (Matcher.sessionShape 1 ⟨0, [.word ['A', '1']]⟩ .initial).found = some (shape, there) ∧
      ∀ word ∈ shape.names, Symbol.ofRaw word.text = .ok word.symbol := by
  obtain ⟨leaves, _, _, _, matched, _⟩ := names_validate "A1" 0
  obtain ⟨leaf, read⟩ := leaves (by simp [Unindented, isBlank]) (by simp [Trimmed, isBlank])
  exact ⟨leaf, read ⟨"a1"⟩ rfl, _, _, rfl, matched 1 ⟨0, [.word ['A', '1']]⟩ .initial _ _ rfl⟩

end SessionSyntax
