import SessionSyntax.Text.Quoted

/-! Identifiers and the symbols they stand for. An identifier may be spelled in CamelCase or in
snake_case; its symbol holds the one canonical spelling, so that two spellings of a name are
compared as texts. Letters and digits are those of ASCII throughout. The canonical spelling is also
told without the pass that computes it: as three passes over the whole text, one after the other, as a
class of texts, and by the words of a name and the ways to write them one behind the other. -/
namespace SessionSyntax

def isWordStart (c : Char) : Bool := c.isAlpha || c == '_'

def isWordChar (c : Char) : Bool := c.isAlphanum || c == '_'

/-- A letter or underscore, then letters, digits and underscores. -/
def isIdentifier : List Char → Bool
  | [] => false
  | c :: cs => isWordStart c && cs.all isWordChar

theorem isIdentifier_cons_iff :
    isIdentifier (c :: cs) ↔ isWordStart c ∧ ∀ d ∈ cs, isWordChar d := by
  simp [isIdentifier]

theorem isWordChar_of_isWordStart (start : isWordStart c) : isWordChar c := by
  simp only [isWordStart, isWordChar, Char.isAlphanum, Bool.or_eq_true] at *
  exact start.imp_left .inl

theorem isWordChar_of_isIdentifier (named : isIdentifier letters) : ∀ c ∈ letters, isWordChar c := by
  cases letters with
  | nil => simp
  | cons c cs =>
    obtain ⟨start, others⟩ := isIdentifier_cons_iff.mp named
    exact List.forall_mem_cons.mpr ⟨isWordChar_of_isWordStart start, others⟩

theorem ne_nil_of_isIdentifier (named : isIdentifier letters) : letters ≠ [] := by
  rintro rfl
  cases named

/-- A hump of CamelCase begins at `c`: a capital after a small letter or a digit. -/
def isHump (before c : Char) : Bool := c.isUpper && (before.isLower || before.isDigit)

/-- Writes a character behind what is written of the canonical spelling, which is kept from its end to
its front. An underscore is dropped behind another one; a hump gets an underscore of its own. -/
def writeChar (written : List Char) (before : Option Char) (c : Char) : List Char :=
  if c = '_' then
    if written.head? = some '_' then written else '_' :: written
  else if before.any (isHump · c) ∧ written.head? ≠ some '_' then c.toLower :: '_' :: written
  else c.toLower :: written

/-- The canonical spelling of which the beginning is written, where a text follows the character
`before`. -/
def normalizeOnto (written : List Char) (before : Option Char) : List Char → List Char
  | [] => written.reverse
  | c :: cs => normalizeOnto (writeChar written before c) (some c) cs

def normalizeChars (raw : List Char) : List Char := normalizeOnto [] none raw

/-- Canonical spelling of any text, identifier or not. -/
def normalize (raw : String) : String := String.ofList (normalizeChars raw.toList)

/-- A name by its canonical spelling. `Symbol.ofRaw` and `Symbol.ofWord` are the ways to obtain
one from surface text. -/
structure Symbol where
  text : String
  deriving DecidableEq, Hashable, Repr

structure InvalidIdentifier where
  value : String
  deriving DecidableEq, Repr

def InvalidIdentifier.message (refused : InvalidIdentifier) : String :=
  "invalid identifier: " ++ Text.quoted refused.value

namespace Symbol

/-- The symbol of a word already known to be an identifier. -/
def ofWord (letters : List Char) : Symbol := ⟨String.ofList (normalizeChars letters)⟩

def ofRaw (raw : String) : Except InvalidIdentifier Symbol :=
  if isIdentifier raw.toList then .ok (ofWord raw.toList) else .error ⟨raw⟩

theorem ofRaw_eq_ok_iff {name : Symbol} :
    ofRaw raw = .ok name ↔ isIdentifier raw.toList ∧ ofWord raw.toList = name := by
  by_cases named : isIdentifier raw.toList <;> simp [ofRaw, named]

/-- The symbol marked as one, for logs. -/
def tagged (symbol : Symbol) : String := "Symbol(" ++ symbol.text ++ ")"

instance : ToString Symbol := ⟨text⟩

/-- Symbols are ordered as texts, by code points. -/
instance : Ord Symbol := ⟨fun a b => compare a.text b.text⟩

instance : LT Symbol := ⟨fun a b => a.text < b.text⟩

instance (a b : Symbol) : Decidable (a < b) := inferInstanceAs (Decidable (a.text < b.text))

/-- Adds a symbol to an increasing list at its place, unless it is there already. -/
def insert (symbol : Symbol) : List Symbol → List Symbol
  | [] => [symbol]
  | other :: rest =>
    if symbol = other then other :: rest
    else if symbol < other then symbol :: other :: rest
    else other :: insert symbol rest

/-- The symbols of a list in increasing order, each once. -/
def sortDistinct (symbols : List Symbol) : List Symbol := symbols.foldr insert []

end Symbol

/-- Puts an underscore between a small letter or digit and a capital right behind it. -/
def separateHumps : List Char → List Char
  | c :: d :: cs =>
    if (c.isLower ∨ c.isDigit) ∧ d.isUpper then c :: '_' :: separateHumps (d :: cs)
    else c :: separateHumps (d :: cs)
  | cs => cs

/-- Leaves one underscore of every run. -/
def collapse : List Char → List Char
  | '_' :: '_' :: cs => collapse ('_' :: cs)
  | c :: cs => c :: collapse cs
  | [] => []

/-- Two underscores stand nowhere side by side. -/
def NoDouble : List Char → Prop
  | '_' :: '_' :: _ => False
  | _ :: cs => NoDouble cs
  | [] => True

/-- The class `[a-z_][a-z0-9_]*` of texts. -/
def IsSnake : List Char → Prop
  | [] => False
  | c :: cs => (c.isLower ∨ c = '_') ∧ ∀ d ∈ cs, d.isLower ∨ d.isDigit ∨ d = '_'

/-- The texts of symbols: identifiers without capitals and without doubled underscores. -/
def Symbol.Canonical (symbol : Symbol) : Prop :=
  isIdentifier symbol.text.toList ∧ (∀ c ∈ symbol.text.toList, ¬c.isUpper) ∧
    NoDouble symbol.text.toList

/-- A small letter, then small letters and digits. -/
def IsPlainWord : List Char → Prop
  | [] => False
  | c :: cs => c.isLower ∧ ∀ d ∈ cs, d.isLower ∨ d.isDigit

/-- The words of a name. Only the last one may have a single character. -/
structure NameWords (words : List (List Char)) : Prop where
  filled : words ≠ []
  plain : ∀ word ∈ words, IsPlainWord word
  long : ∀ word ∈ words.dropLast, 2 ≤ word.length

/-- The word with a capital as its first letter. -/
def capitalize : List Char → List Char
  | [] => []
  | c :: cs => c.toUpper :: cs

def upperCamel (words : List (List Char)) : List Char := words.flatMap capitalize

def lowerCamel : List (List Char) → List Char
  | [] => []
  | word :: rest => word ++ upperCamel rest

/-- The words stand one behind the other with one or more underscores at each joint. -/
inductive Underscored : List (List Char) → List Char → Prop where
  | last : Underscored [word] word
  | more : 0 < gap → Underscored rest text →
      Underscored (word :: rest) (word ++ List.replicate gap '_' ++ text)

/-- The word is written as it is or with a capital. -/
def SpellsWord (word form : List Char) : Prop := form = word ∨ form = capitalize word

/-- Each word is written in one of its two forms, and each joint shows: by underscores, by the capital
that follows, or by both. -/
inductive Spells : List (List Char) → List Char → Prop where
  | last : SpellsWord word form → Spells [word] form
  | more : SpellsWord word form → (gap = 0 → text.head?.any Char.isUpper) → Spells rest text →
      Spells (word :: rest) (form ++ List.replicate gap '_' ++ text)

end SessionSyntax
