import Mathlib
import SessionSyntax.Session

/-! The canonical spelling: every identifier has one, which is an identifier itself, and a name
already spelled canonically keeps its spelling. -/
namespace SessionSyntax

section Characters

variable {c : Char}

/-- What holds of all small letters and of a character holds of its small form. -/
theorem toLower_of (p : Char → Prop) (letter : ∀ {d : Char}, d.isLower → p d) (holds : p c) :
    p c.toLower := by
  by_cases capital : c.isUpper
  · have small : c.toLower.isLower := by simp [Char.isAlpha, capital]
    exact letter small
  · rwa [Char.toLower_eq_of_not_isUpper capital]

theorem isWordStart_toLower (start : isWordStart c) : isWordStart c.toLower :=
  toLower_of (isWordStart ·) (by simp +contextual [isWordStart, Char.isAlpha]) start

theorem isWordChar_toLower (letter : isWordChar c) : isWordChar c.toLower :=
  toLower_of (isWordChar ·) (by simp +contextual [isWordChar, Char.isAlphanum, Char.isAlpha]) letter

theorem toLower_ne_underscore (other : c ≠ '_') : c.toLower ≠ '_' :=
  toLower_of (· ≠ '_') (by rintro d small rfl; revert small; decide) other

/-- What holds of all capitals and of the small form of a character holds of the character. -/
theorem of_toLower (p : Char → Prop) (letter : ∀ {d : Char}, d.isUpper → p d) (holds : p c.toLower) :
    p c := by
  by_cases capital : c.isUpper
  · exact letter capital
  · rwa [Char.toLower_eq_of_not_isUpper capital] at holds

theorem isWordStart_of_toLower (start : isWordStart c.toLower) : isWordStart c :=
  of_toLower (isWordStart ·) (by simp +contextual [isWordStart, Char.isAlpha]) start

theorem isWordChar_of_toLower (letter : isWordChar c.toLower) : isWordChar c :=
  of_toLower (isWordChar ·) (by simp +contextual [isWordChar, Char.isAlphanum, Char.isAlpha]) letter

theorem not_isUpper_of_isDigit (digit : c.isDigit) : ¬c.isUpper := by
  simp only [Char.isDigit, Char.isUpper, ge_iff_le, Bool.and_eq_true, decide_eq_true_eq,
    UInt32.le_iff_toNat_le] at *
  have nine : '9'.val.toNat = 57 := rfl
  have first : 'A'.val.toNat = 65 := rfl
  omega

theorem isWordStart_small_iff : isWordStart c ∧ ¬c.isUpper ↔ c.isLower ∨ c = '_' := by
  constructor
  · intro ⟨start, small⟩
    simpa [isWordStart, Char.isAlpha, small] using start
  · intro snake
    rcases snake with small | rfl
    · exact ⟨by simp [isWordStart, Char.isAlpha, small], Char.not_isUpper_of_isLower small⟩
    · decide

theorem isWordChar_small_iff :
    isWordChar c ∧ ¬c.isUpper ↔ c.isLower ∨ c.isDigit ∨ c = '_' := by
  constructor
  · intro ⟨word, small⟩
    simpa [isWordChar, Char.isAlphanum, Char.isAlpha, small, or_assoc] using word
  · intro snake
    rcases snake with small | digit | rfl
    · exact ⟨by simp [isWordChar, Char.isAlphanum, Char.isAlpha, small], Char.not_isUpper_of_isLower small⟩
    · exact ⟨by simp [isWordChar, Char.isAlphanum, digit], not_isUpper_of_isDigit digit⟩
    · decide

end Characters

/-- Among the identifiers the class `[a-z_][a-z0-9_]*` is that of those without capitals. -/
theorem isSnake_iff :
    IsSnake letters ↔ isIdentifier letters ∧ ∀ c ∈ letters, ¬c.isUpper := by
  cases letters with
  | nil => simp [IsSnake, isIdentifier]
  | cons c cs =>
    rw [IsSnake, isIdentifier_cons_iff, List.forall_mem_cons, and_and_and_comm, isWordStart_small_iff,
      ← forall₂_and]
    simp only [isWordChar_small_iff]

theorem isHump_iff : isHump before c ↔ (before.isLower ∨ before.isDigit) ∧ c.isUpper := by
  simp [isHump, and_comm]

/-- On neither side of a hump stands an underscore. -/
theorem ne_underscore_of_isHump (hump : isHump before c) : before ≠ '_' ∧ c ≠ '_' := by
  constructor
  · rintro rfl
    simp [isHump] at hump
  · rintro rfl
    simp [isHump] at hump

/-- What one character contributes to the canonical spelling. An underscore is dropped after
another one; a hump gets an underscore of its own. -/
def canonicalChar (before : Option Char) (c : Char) : List Char :=
  if c = '_' then
    if before = some '_' then [] else ['_']
  else if before.any (isHump · c) then ['_', c.toLower]
  else [c.toLower]

theorem canonicalChar_of_hump (hump : isHump before c) :
    canonicalChar (some before) c = ['_', c.toLower] := by
  obtain ⟨_, other⟩ := ne_underscore_of_isHump hump
  simp [canonicalChar, other, hump]

theorem canonicalChar_of_flat {before : Option Char} (other : c ≠ '_')
    (flat : ¬before.any (isHump · c)) : canonicalChar before c = [c.toLower] := by
  rw [canonicalChar, if_neg other, if_neg flat]

/-- No hump begins a text or follows an underscore. -/
theorem not_isHump_of_all {before : Option Char} (apart : before.all (· == '_')) (c : Char) :
    ¬before.any (isHump · c) := by
  cases before with
  | none => simp
  | some b =>
    obtain rfl : b = '_' := by simpa using apart
    simp [isHump]

/-- The canonical spelling of what follows the character `before`. -/
def normalizeAfter (before : Option Char) : List Char → List Char
  | [] => []
  | c :: cs => canonicalChar before c ++ normalizeAfter (some c) cs

/-- An underscore is the last character written just if it is the last one read. -/
def WritesUpTo (written : List Char) (before : Option Char) : Prop :=
  written.head? = some '_' ↔ before = some '_'

theorem writeChar_eq (writes : WritesUpTo written before) (c : Char) :
    writeChar written before c = (canonicalChar before c).reverse ++ written := by
  by_cases line : c = '_'
  · by_cases doubled : before = some '_'
    · simp [writeChar, canonicalChar, line, doubled, writes.mpr doubled]
    · simp [writeChar, canonicalChar, line, doubled, mt writes.mp doubled]
  · by_cases hump : before.any (isHump · c)
    · have apart : written.head? ≠ some '_' := by
        intro ends
        rw [writes.mp ends] at hump
        simp [isHump] at hump
      simp [writeChar, canonicalChar, line, hump, apart]
    · simp [writeChar, canonicalChar, line, hump]

theorem writesUpTo_writeChar (written : List Char) (before : Option Char) (c : Char) :
    WritesUpTo (writeChar written before c) (some c) := by
  by_cases line : c = '_'
  · subst line
    by_cases ends : written.head? = some '_'
    · simp [WritesUpTo, writeChar, ends]
    · simp [WritesUpTo, writeChar, ends]
  · have other := toLower_ne_underscore line
    rw [WritesUpTo, writeChar, if_neg line]
    split
    · simp [line, other]
    · simp [line, other]

theorem normalizeOnto_eq (writes : WritesUpTo written before) (cs : List Char) :
    normalizeOnto written before cs = written.reverse ++ normalizeAfter before cs := by
  induction cs generalizing written before with
  | nil => simp [normalizeOnto, normalizeAfter]
  | cons c cs ih =>
    rw [normalizeOnto, normalizeAfter, ih (writesUpTo_writeChar written before c), writeChar_eq writes,
      List.reverse_append, List.reverse_reverse, List.append_assoc]

/-- What has been written tells no more than the character before. -/
theorem normalizeChars_eq (raw : List Char) : normalizeChars raw = normalizeAfter none raw :=
  normalizeOnto_eq (by simp [WritesUpTo]) raw

theorem noDouble_cons_iff :
    NoDouble (c :: cs) ↔ (c = '_' → cs.head? ≠ some '_') ∧ NoDouble cs := by
  cases cs with
  | nil => simp [NoDouble]
  | cons d ds => by_cases c = '_' <;> by_cases d = '_' <;> simp_all [NoDouble]

theorem canonicalChar_of_small (single : c = '_' → before ≠ some '_') (small : ¬c.isUpper) :
    canonicalChar before c = [c] := by
  have flat : ¬before.any (isHump · c) := by cases before <;> simp [isHump, small]
  by_cases line : c = '_'
  · simp [canonicalChar, line, single line]
  · rw [canonicalChar_of_flat line flat, Char.toLower_eq_of_not_isUpper small]

theorem normalizeAfter_of_canonical (before : Option Char) (small : ∀ c ∈ cs, ¬c.isUpper)
    (single : NoDouble (before.toList ++ cs)) : normalizeAfter before cs = cs := by
  induction cs generalizing before with
  | nil => rfl
  | cons c cs ih =>
    have apart : c = '_' → before ≠ some '_' := by
      rintro rfl rfl
      exact single
    have tail : NoDouble (c :: cs) := by
      cases before with
      | none => exact single
      | some b => exact (noDouble_cons_iff.mp single).2
    rw [normalizeAfter, canonicalChar_of_small apart (small c (by simp)),
      ih (some c) (fun d member => small d (List.mem_cons_of_mem c member)) tail, List.singleton_append]

theorem normalizeChars_of_canonical (small : ∀ c ∈ letters, ¬c.isUpper) (single : NoDouble letters) :
    normalizeChars letters = letters := by
  rw [normalizeChars_eq]
  exact normalizeAfter_of_canonical none small single

theorem Symbol.ofWord_of_canonical {name : Symbol} (canonical : name.Canonical) :
    Symbol.ofWord name.text.toList = name := by
  obtain ⟨_, small, single⟩ := canonical
  rw [Symbol.ofWord, normalizeChars_of_canonical small single, String.ofList_toList]

theorem head?_normalizeAfter_underscore (cs : List Char) :
    (normalizeAfter (some '_') cs).head? ≠ some '_' := by
  induction cs with
  | nil => simp [normalizeAfter]
  | cons c cs ih =>
    by_cases line : c = '_'
    · subst line
      simpa [normalizeAfter, canonicalChar] using ih
    · rw [normalizeAfter, canonicalChar_of_flat line (not_isHump_of_all rfl c)]
      simpa using toLower_ne_underscore line

theorem noDouble_normalizeAfter (before : Option Char) (cs : List Char) :
    NoDouble (normalizeAfter before cs) := by
  induction cs generalizing before with
  | nil => trivial
  | cons c cs ih =>
    rw [normalizeAfter, canonicalChar]
    split
    case isTrue line =>
      subst line
      split
      · exact ih _
      · exact noDouble_cons_iff.mpr ⟨fun _ => head?_normalizeAfter_underscore cs, ih _⟩
    case isFalse other =>
      have other := toLower_ne_underscore other
      have tail : NoDouble (c.toLower :: normalizeAfter (some c) cs) :=
        noDouble_cons_iff.mpr ⟨fun same => absurd same other, ih _⟩
      split
      · exact noDouble_cons_iff.mpr ⟨fun _ same => other (Option.some.inj same), tail⟩
      · exact tail

theorem of_mem_canonicalChar (member : d ∈ canonicalChar before c) : d = '_' ∨ d = c.toLower := by
  unfold canonicalChar at member
  split at member
  · split at member
    · cases member
    · exact .inl (List.mem_singleton.mp member)
  · split at member
    · simpa using member
    · exact .inr (List.mem_singleton.mp member)

theorem of_mem_normalizeAfter (member : d ∈ normalizeAfter before cs) :
    d = '_' ∨ ∃ c ∈ cs, d = c.toLower := by
  induction cs generalizing before with
  | nil => simp [normalizeAfter] at member
  | cons c cs ih =>
    rcases List.mem_append.mp member with here | later
    · exact (of_mem_canonicalChar here).imp_right fun same => ⟨c, by simp, same⟩
    · rcases ih later with line | ⟨e, member, same⟩
      · exact .inl line
      · exact .inr ⟨e, List.mem_cons_of_mem c member, same⟩

theorem normalizeChars_cons (c : Char) (cs : List Char) :
    normalizeChars (c :: cs) = c.toLower :: normalizeAfter (some c) cs := by
  have first : canonicalChar none c = [c.toLower] := by
    by_cases line : c = '_'
    · subst line; rfl
    · exact canonicalChar_of_flat line (not_isHump_of_all rfl c)
  rw [normalizeChars_eq, normalizeAfter, first, List.singleton_append]

theorem isIdentifier_normalizeChars (named : isIdentifier letters) :
    isIdentifier (normalizeChars letters) := by
  cases letters with
  | nil => cases named
  | cons c cs =>
    obtain ⟨start, word⟩ := isIdentifier_cons_iff.mp named
    rw [normalizeChars_cons, isIdentifier_cons_iff]
    refine ⟨isWordStart_toLower start, fun d member => ?_⟩
    rcases of_mem_normalizeAfter member with rfl | ⟨e, among, rfl⟩
    · decide
    · exact isWordChar_toLower (word e among)

theorem not_isUpper_of_mem_normalizeChars (member : c ∈ normalizeChars raw) : ¬c.isUpper := by
  rw [normalizeChars_eq] at member
  rcases of_mem_normalizeAfter member with rfl | ⟨d, _, rfl⟩
  · decide
  · simp

theorem noDouble_normalizeChars (raw : List Char) : NoDouble (normalizeChars raw) := by
  rw [normalizeChars_eq]
  exact noDouble_normalizeAfter none raw

theorem Symbol.canonical_ofWord (named : isIdentifier letters) : (Symbol.ofWord letters).Canonical := by
  rw [Symbol.Canonical, Symbol.ofWord, String.toList_ofList]
  exact ⟨isIdentifier_normalizeChars named, fun _ => not_isUpper_of_mem_normalizeChars,
    noDouble_normalizeChars letters⟩

theorem toLower_mem_normalizeAfter (before : Option Char) (member : c ∈ cs) (other : c ≠ '_') :
    c.toLower ∈ normalizeAfter before cs := by
  induction cs generalizing before with
  | nil => cases member
  | cons d ds ih =>
    rw [normalizeAfter, List.mem_append]
    rcases List.mem_cons.mp member with rfl | later
    · left
      rw [canonicalChar, if_neg other]
      split <;> simp
    · exact .inr (ih (some d) later)

theorem isIdentifier_of_normalizeChars (named : isIdentifier (normalizeChars letters)) :
    isIdentifier letters := by
  cases letters with
  | nil => cases named
  | cons c cs =>
    rw [normalizeChars_cons, isIdentifier_cons_iff] at named
    rw [isIdentifier_cons_iff]
    refine ⟨isWordStart_of_toLower named.1, fun d member => ?_⟩
    by_cases line : d = '_'
    · subst line; rfl
    · exact isWordChar_of_toLower (named.2 _ (toLower_mem_normalizeAfter (some c) member line))

theorem Symbol.ofWord_eq_iff {name : Symbol} :
    Symbol.ofWord letters = name ↔ normalizeChars letters = name.text.toList := by
  obtain ⟨text⟩ := name
  rw [Symbol.ofWord, Symbol.mk.injEq]
  constructor
  · rintro rfl
    rw [String.toList_ofList]
  · intro same
    rw [same, String.ofList_toList]

/-- The spellings of a canonical name are just the identifiers that it is the symbol of. -/
theorem Symbol.Canonical.spelling_iff {name : Symbol} (canonical : name.Canonical) :
    normalizeChars letters = name.text.toList ↔ isIdentifier letters ∧ Symbol.ofWord letters = name := by
  rw [Symbol.ofWord_eq_iff]
  refine ⟨fun same => ⟨isIdentifier_of_normalizeChars ?_, same⟩, And.right⟩
  rw [same]
  exact canonical.1

end SessionSyntax
