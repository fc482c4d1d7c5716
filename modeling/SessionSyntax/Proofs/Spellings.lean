import SessionSyntax.Proofs.Naming

/-! The canonical spelling in one pass is that of three: humps are set apart, letters made small, and
runs of underscores collapsed. It is a projection, which leaves alone just the texts without capitals
and without doubled underscores, and makes identifiers of identifiers. All spellings of a name come to
one symbol: at a joint the canonical spelling has one underscore, whichever way the joint shows, and
within a word nothing is set apart. -/
namespace SessionSyntax

theorem collapse_cons (c : Char) (cs : List Char) :
    collapse (c :: cs) =
      if c = '_' ∧ cs.head? = some '_' then collapse cs else c :: collapse cs := by
  cases cs with
  | nil => simp [collapse]
  | cons d ds =>
    by_cases doubled : c = '_' ∧ d = '_'
    · obtain ⟨rfl, rfl⟩ := doubled
      simp [collapse]
    · have apart : ∀ rest, c = '_' → d :: ds = '_' :: rest → False := by
        intro rest line same
        exact doubled ⟨line, (List.cons.inj same).1⟩
      rw [collapse, if_neg (by simpa using doubled)]
      exact apart

theorem separateHumps_cons_cons (before c : Char) (cs : List Char) :
    separateHumps (before :: c :: cs) =
      if isHump before c then before :: '_' :: separateHumps (c :: cs)
      else before :: separateHumps (c :: cs) := by
  simp only [separateHumps, isHump_iff]

theorem exists_separateHumps_cons (c : Char) (cs : List Char) :
    ∃ rest, separateHumps (c :: cs) = c :: rest := by
  cases cs with
  | nil => exact ⟨[], rfl⟩
  | cons d ds =>
    rw [separateHumps_cons_cons]
    split
    · exact ⟨_, rfl⟩
    · exact ⟨_, rfl⟩

theorem toLower_eq_underscore_iff : Char.toLower c = '_' ↔ c = '_' := by
  constructor
  · intro small
    exact Classical.byContradiction fun other => toLower_ne_underscore other small
  · rintro rfl
    rfl

/-- Behind a character that stands in its canonical form already, the three passes add what the one
pass does. -/
theorem collapse_separateHumps (before : Char) (cs : List Char) :
    collapse ((separateHumps (before :: cs)).map Char.toLower) =
      before.toLower :: normalizeAfter (some before) cs := by
  induction cs generalizing before with
  | nil => simp [separateHumps, collapse, normalizeAfter]
  | cons c cs ih =>
    obtain ⟨rest, begins⟩ := exists_separateHumps_cons c cs
    have later := ih c
    rw [begins, List.map_cons] at later
    rw [separateHumps_cons_cons, normalizeAfter, begins]
    by_cases hump : isHump before c
    · obtain ⟨front, other⟩ := ne_underscore_of_isHump hump
      have written := canonicalChar_of_hump hump
      rw [if_pos hump, List.map_cons, List.map_cons, List.map_cons, collapse_cons, if_neg, collapse_cons,
        if_neg, later, written]
      · rfl
      · simp [toLower_eq_underscore_iff, other]
      · simp [toLower_eq_underscore_iff, front]
    · rw [if_neg hump, List.map_cons, List.map_cons, collapse_cons, later]
      by_cases doubled : before = '_' ∧ c = '_'
      · obtain ⟨rfl, rfl⟩ := doubled
        simp [canonicalChar]
      · have written : canonicalChar (some before) c = [c.toLower] := by
          by_cases line : c = '_'
          · subst line
            simpa [canonicalChar] using doubled
          · exact canonicalChar_of_flat line (by simpa using hump)
        rw [if_neg, written]
        · rfl
        · simpa [toLower_eq_underscore_iff] using doubled

/-- The canonical spelling of any text, identifier or not, is that of three passes over the whole of
it: an underscore is put before each capital that follows a small letter or a digit, all letters are
made small, and of each run of underscores one is left. -/
theorem normalize_eq_three_passes (raw : String) :
    normalize raw = String.ofList (collapse ((separateHumps raw.toList).map Char.toLower)) := by
  rw [normalize]
  congr 1
  cases raw.toList with
  | nil => rfl
  | cons c cs => rw [normalizeChars_cons, collapse_separateHumps]

example : normalize "HTTPServer__v2_Payload" = "httpserver_v2_payload" := by rfl

theorem toList_normalize (raw : String) : (normalize raw).toList = normalizeChars raw.toList := by
  rw [normalize, String.toList_ofList]

theorem canonical_normalize (raw : String) :
    (∀ c ∈ (normalize raw).toList, ¬c.isUpper) ∧ NoDouble (normalize raw).toList := by
  rw [toList_normalize]
  exact ⟨fun _ => not_isUpper_of_mem_normalizeChars, noDouble_normalizeChars _⟩

/-- The texts that are left alone are known by their characters. -/
theorem normalize_eq_self_iff :
    normalize text = text ↔ (∀ c ∈ text.toList, ¬c.isUpper) ∧ NoDouble text.toList := by
  constructor
  · intro stays
    rw [← stays]
    exact canonical_normalize text
  · intro ⟨small, single⟩
    rw [normalize, normalizeChars_of_canonical small single, String.ofList_toList]

theorem normalize_normalize (raw : String) : normalize (normalize raw) = normalize raw :=
  normalize_eq_self_iff.mpr (canonical_normalize raw)

theorem exists_normalize_eq_iff : (∃ raw, normalize raw = text) ↔ normalize text = text := by
  constructor
  · rintro ⟨raw, rfl⟩
    exact normalize_normalize raw
  · intro stays
    exact ⟨text, stays⟩

theorem isIdentifier_normalize_iff :
    isIdentifier (normalize raw).toList ↔ isIdentifier raw.toList := by
  rw [toList_normalize]
  exact ⟨isIdentifier_of_normalizeChars, isIdentifier_normalizeChars⟩

theorem exists_symbol_iff : (∃ raw symbol, Symbol.ofRaw raw = .ok symbol ∧ symbol.text = text) ↔
    isIdentifier text.toList ∧ normalize text = text := by
  constructor
  · rintro ⟨raw, symbol, made, rfl⟩
    obtain ⟨named, rfl⟩ := Symbol.ofRaw_eq_ok_iff.mp made
    exact ⟨isIdentifier_normalize_iff.mpr named, normalize_normalize raw⟩
  · intro ⟨named, stays⟩
    exact ⟨text, _, Symbol.ofRaw_eq_ok_iff.mpr ⟨named, rfl⟩, stays⟩

/-- The canonical spelling is a projection onto the texts without capitals and without doubled
underscores. It makes identifiers of identifiers, and the texts of symbols are those of its texts that
are of the class `[a-z_][a-z0-9_]*`. -/
theorem normalize_projects :
    (∀ raw, normalize (normalize raw) = normalize raw) ∧
    (∀ text, (∃ raw, normalize raw = text) ↔
      (∀ c ∈ text.toList, ¬c.isUpper) ∧ NoDouble text.toList) ∧
    (∀ text, (∀ c ∈ text.toList, ¬c.isUpper) → NoDouble text.toList → normalize text = text) ∧
    (∀ raw, isIdentifier raw.toList → isIdentifier (normalize raw).toList) ∧
    (∀ text, (∃ raw symbol, Symbol.ofRaw raw = .ok symbol ∧ symbol.text = text) ↔
      IsSnake text.toList ∧ NoDouble text.toList) := by
  refine ⟨normalize_normalize, ?_, ?_, ?_, ?_⟩
  · intro text
    rw [exists_normalize_eq_iff, normalize_eq_self_iff]
  · intro text small single
    exact normalize_eq_self_iff.mpr ⟨small, single⟩
  · intro raw named
    exact isIdentifier_normalize_iff.mpr named
  · intro text
    rw [exists_symbol_iff, normalize_eq_self_iff, isSnake_iff, and_assoc]

/-- A text that stays although it is no identifier, one that is not reached, and the symbol of a name
in CamelCase. -/
theorem normalize_projects_mixed :
    normalize "é 1_b" = "é 1_b" ∧ (¬∃ raw, normalize raw = "a__b") ∧
    isIdentifier (normalize "__getHTTP2Page").toList ∧
    IsSnake "_get_http2_page".toList := by
  obtain ⟨_, reached, stays, named, symbols⟩ := normalize_projects
  refine ⟨stays _ (by simp) (by simp [NoDouble]), ?_, named _ rfl, ?_⟩
  · rw [reached]
    simp [NoDouble]
  · exact ((symbols _).mp ⟨"__getHTTP2Page", _, rfl, rfl⟩).1

theorem normalizeAfter_append (before : Option Char) (front behind : List Char) :
    normalizeAfter before (front ++ behind) =
      normalizeAfter before front ++ normalizeAfter (front.getLast?.or before) behind := by
  induction front generalizing before with
  | nil => rfl
  | cons c cs ih =>
    have last : (c :: cs).getLast?.or before = cs.getLast?.or (some c) := by
      rw [List.getLast?_cons, Option.some_or]
      cases cs.getLast? <;> rfl
    rw [List.cons_append, normalizeAfter, normalizeAfter, ih, last, List.append_assoc]

theorem isWordChar_of_low (low : c.isLower ∨ c.isDigit) : isWordChar c ∧ ¬c.isUpper :=
  isWordChar_small_iff.mpr (low.imp_right .inl)

theorem ne_underscore_of_low (low : c.isLower ∨ c.isDigit) : c ≠ '_' := by
  rintro rfl
  revert low
  decide

/-- A hump is written as if an underscore were read before it. -/
theorem normalizeAfter_hump (hump : isHump b c) (cs : List Char) :
    normalizeAfter (some b) (c :: cs) = '_' :: normalizeAfter (some '_') (c :: cs) := by
  obtain ⟨_, other⟩ := ne_underscore_of_isHump hump
  rw [normalizeAfter, normalizeAfter, canonicalChar_of_hump hump,
    canonicalChar_of_flat other (not_isHump_of_all rfl c)]
  rfl

theorem normalizeAfter_underscores (n : Nat) (text : List Char) :
    normalizeAfter (some '_') (List.replicate n '_' ++ text) = normalizeAfter (some '_') text := by
  induction n with
  | zero => rfl
  | succ n ih =>
    have dropped : canonicalChar (some '_') '_' = [] := rfl
    rw [List.replicate_succ, List.cons_append, normalizeAfter, dropped, ih, List.nil_append]

/-- However a joint shows, one underscore is written for it. -/
theorem normalizeAfter_joint (low : b.isLower ∨ b.isDigit)
    (shows : gap = 0 → text.head?.any Char.isUpper) :
    normalizeAfter (some b) (List.replicate gap '_' ++ text) =
      '_' :: normalizeAfter (some '_') text := by
  cases gap with
  | zero =>
    cases text with
    | nil => simp at shows
    | cons c cs => exact normalizeAfter_hump (isHump_iff.mpr ⟨low, by simpa using shows⟩) cs
  | succ n =>
    have written : canonicalChar (some b) '_' = ['_'] := by
      simp [canonicalChar, ne_underscore_of_low low]
    rw [List.replicate_succ, List.cons_append, normalizeAfter, written, normalizeAfter_underscores]
    rfl

theorem noDouble_of_not_mem (none : '_' ∉ cs) : NoDouble cs := by
  induction cs with
  | nil => trivial
  | cons c cs ih =>
    obtain ⟨other, none⟩ : '_' ≠ c ∧ '_' ∉ cs := by simpa using none
    exact noDouble_cons_iff.mpr ⟨fun same => absurd same.symm other, ih none⟩

/-- A word begins with a letter, which may be a capital instead, and goes on as it is. -/
theorem SpellsWord.exists_cons (spells : SpellsWord word form) (plain : IsPlainWord word) :
    ∃ letter cs, letter.isAlpha ∧ word = letter.toLower :: cs ∧ form = letter :: cs ∧
      ∀ c ∈ cs, c.isLower ∨ c.isDigit := by
  cases word with
  | nil => cases plain
  | cons c cs =>
    obtain ⟨small, others⟩ := plain
    have letter : c.isAlpha := by simp [Char.isAlpha, small]
    have flat := Char.toLower_eq_of_not_isUpper (Char.not_isUpper_of_isLower small)
    rcases spells with rfl | rfl
    · exact ⟨c, cs, letter, by rw [flat], rfl, others⟩
    · exact ⟨c.toUpper, cs, by rwa [Char.isAlpha_toUpper_eq_isAlpha],
        by rw [Char.toLower_toUpper_eq_toLower, flat], rfl, others⟩

/-- Where no hump begins with it, a word is spelled canonically as it is, whatever its form. -/
theorem SpellsWord.normalizeAfter_eq (spells : SpellsWord word form) (plain : IsPlainWord word)
    (apart : before.all (· == '_')) : normalizeAfter before form = word := by
  obtain ⟨letter, cs, alpha, rfl, rfl, others⟩ := spells.exists_cons plain
  have other : letter ≠ '_' := by
    rintro rfl
    revert alpha
    decide
  have first := canonicalChar_of_flat other (not_isHump_of_all apart letter)
  have single : '_' ∉ letter :: cs := by
    intro member
    rcases List.mem_cons.mp member with rfl | among
    · exact other rfl
    · exact ne_underscore_of_low (others _ among) rfl
  rw [normalizeAfter, first, normalizeAfter_of_canonical (some letter)]
  · rfl
  · intro c member
    exact (isWordChar_of_low (others c member)).2
  · exact noDouble_of_not_mem single

/-- A longer word ends with a small letter or a digit, whatever its form. -/
theorem SpellsWord.exists_last (spells : SpellsWord word form) (plain : IsPlainWord word)
    (long : 2 ≤ word.length) : ∃ b, form.getLast? = some b ∧ (b.isLower ∨ b.isDigit) := by
  obtain ⟨letter, cs, _, rfl, rfl, others⟩ := spells.exists_cons plain
  have filled : cs ≠ [] := by
    rintro rfl
    simp at long
  refine ⟨cs.getLast filled, ?_, others _ (List.getLast_mem filled)⟩
  rw [List.getLast?_cons_of_ne_nil filled, List.getLast?_eq_some_getLast filled]

theorem Spells.ne_nil (spells : Spells words text) : words ≠ [] := by
  cases spells with
  | last | more => simp

/-- The words follow one another with one underscore at each joint. What is read before the name must
not set its first letter apart; behind a joint this is the underscore. -/
theorem Spells.normalizeAfter_eq (spells : Spells words text)
    (plain : ∀ word ∈ words, IsPlainWord word) (long : ∀ word ∈ words.dropLast, 2 ≤ word.length)
    (apart : before.all (· == '_')) : normalizeAfter before text = ['_'].intercalate words := by
  induction spells generalizing before with
  | @last word form spelled =>
    rw [spelled.normalizeAfter_eq (plain word (by simp)) apart, List.intercalate_singleton]
  | more spelled shows spells ih =>
    obtain ⟨first, others⟩ := List.forall_mem_cons.mp plain
    rw [List.dropLast_cons_of_ne_nil spells.ne_nil] at long
    obtain ⟨longer, later⟩ := List.forall_mem_cons.mp long
    obtain ⟨b, last, low⟩ := spelled.exists_last first longer
    rw [List.append_assoc, normalizeAfter_append, spelled.normalizeAfter_eq first apart, last,
      Option.some_or, normalizeAfter_joint low shows, ih others later rfl,
      List.intercalate_cons_of_ne_nil spells.ne_nil, List.append_assoc, List.singleton_append]

theorem isIdentifier_append (named : isIdentifier letters) (word : ∀ c ∈ more, isWordChar c) :
    isIdentifier (letters ++ more) := by
  cases letters with
  | nil => cases named
  | cons c cs =>
    obtain ⟨start, others⟩ := isIdentifier_cons_iff.mp named
    exact isIdentifier_cons_iff.mpr ⟨start, List.forall_mem_append.mpr ⟨others, word⟩⟩

theorem IsPlainWord.isIdentifier (plain : IsPlainWord word) : isIdentifier word := by
  cases word with
  | nil => cases plain
  | cons c cs =>
    obtain ⟨small, others⟩ := plain
    rw [isIdentifier_cons_iff]
    exact ⟨(isWordStart_small_iff.mpr (.inl small)).1, fun d member => (isWordChar_of_low (others d member)).1⟩

theorem isIdentifier_intercalate (filled : words ≠ []) (plain : ∀ word ∈ words, IsPlainWord word) :
    isIdentifier (['_'].intercalate words) := by
  induction words with
  | nil => exact absurd rfl filled
  | cons word rest ih =>
    obtain ⟨first, others⟩ := List.forall_mem_cons.mp plain
    by_cases single : rest = []
    · subst single
      rw [List.intercalate_singleton]
      exact first.isIdentifier
    · rw [List.intercalate_cons_of_ne_nil single, List.append_assoc]
      apply isIdentifier_append first.isIdentifier
      intro c member
      rcases List.mem_append.mp member with line | later
      · obtain rfl := List.mem_singleton.mp line
        rfl
      · exact isWordChar_of_isIdentifier (ih single others) c later

/-- Whatever the spelling of a name, the text of its symbol is the words with an underscore between
any two. -/
theorem Spells.ofRaw {raw : String} (spells : Spells words raw.toList) (name : NameWords words) :
    Symbol.ofRaw raw = .ok ⟨"_".intercalate (words.map String.ofList)⟩ := by
  have spelled : normalizeChars raw.toList = ['_'].intercalate words := by
    rw [normalizeChars_eq]
    exact spells.normalizeAfter_eq name.plain name.long rfl
  have named := isIdentifier_intercalate name.filled name.plain
  rw [← spelled] at named
  rw [Symbol.ofRaw_eq_ok_iff, Symbol.ofWord_eq_iff, spelled]
  refine ⟨isIdentifier_of_normalizeChars named, ?_⟩
  simp [String.toList_intercalate, Function.comp_def]

theorem head?_upperCamel (plain : IsPlainWord word) (rest : List (List Char)) :
    (upperCamel (word :: rest)).head?.any Char.isUpper := by
  cases word with
  | nil => cases plain
  | cons c cs => simp [upperCamel, capitalize, Char.isAlpha, plain.1]

/-- Behind a first word in either form all others may follow with capitals. -/
theorem SpellsWord.camel (spelled : SpellsWord word form) (plain : ∀ word ∈ rest, IsPlainWord word) :
    Spells (word :: rest) (form ++ upperCamel rest) := by
  induction rest generalizing word form with
  | nil =>
    rw [upperCamel, List.flatMap_nil, List.append_nil]
    exact .last spelled
  | cons next rest ih =>
    obtain ⟨first, others⟩ := List.forall_mem_cons.mp plain
    have later : Spells (next :: rest) (upperCamel (next :: rest)) := ih (.inr rfl) others
    simpa using @Spells.more word form 0 _ _ spelled (fun _ => head?_upperCamel first rest) later

theorem NameWords.spells_camel (name : NameWords words) :
    Spells words (upperCamel words) ∧ Spells words (lowerCamel words) := by
  obtain ⟨word, rest, rfl⟩ := List.exists_cons_of_ne_nil name.filled
  obtain ⟨_, others⟩ := List.forall_mem_cons.mp name.plain
  exact ⟨SpellsWord.camel (.inr rfl) others, SpellsWord.camel (.inl rfl) others⟩

theorem Underscored.spells (underscored : Underscored forms text)
    (spelled : List.Forall₂ SpellsWord words forms) : Spells words text := by
  induction underscored generalizing words with
  | last =>
    cases spelled with
    | cons first others =>
      cases others
      exact .last first
  | more some _ ih =>
    cases spelled with
    | cons first others => exact .more first (by omega) (ih others)

/-- All usual spellings of a name are identifiers and have one symbol: CamelCase with and without a
capital at the front, and the words, small or all with capitals, with one or more underscores at each
joint. The text of the symbol is the words with an underscore between any two. -/
theorem spellings_agree (words : List (List Char)) (name : NameWords words) :
    ∃ symbol : Symbol, symbol.text = "_".intercalate (words.map String.ofList) ∧
      Symbol.ofRaw (String.ofList (upperCamel words)) = .ok symbol ∧
      Symbol.ofRaw (String.ofList (lowerCamel words)) = .ok symbol ∧
      (∀ raw : String, Underscored words raw.toList → Symbol.ofRaw raw = .ok symbol) ∧
      (∀ raw : String, Underscored (words.map capitalize) raw.toList →
        Symbol.ofRaw raw = .ok symbol) := by
  obtain ⟨upper, lower⟩ := name.spells_camel
  refine ⟨_, rfl, ?_, ?_, ?_, ?_⟩
  · apply Spells.ofRaw _ name
    rwa [String.toList_ofList]
  · apply Spells.ofRaw _ name
    rwa [String.toList_ofList]
  · intro raw underscored
    have same : List.Forall₂ SpellsWord words words := List.forall₂_same.mpr fun _ _ => .inl rfl
    exact (underscored.spells same).ofRaw name
  · intro raw underscored
    have capitals : List.Forall₂ SpellsWord words (words.map capitalize) :=
      List.forall₂_map_right_iff.mpr (List.forall₂_same.mpr fun _ _ => .inr rfl)
    exact (underscored.spells capitals).ofRaw name

/-- A name with a digit before a joint and with a single letter at its end. -/
theorem spellings_agree_get2X : ∃ symbol : Symbol, symbol.text = "get2_page_x" ∧
    Symbol.ofRaw "Get2PageX" = .ok symbol ∧ Symbol.ofRaw "get2PageX" = .ok symbol ∧
    Symbol.ofRaw "get2__page_x" = .ok symbol ∧ Symbol.ofRaw "Get2_Page___X" = .ok symbol := by
  have name : NameWords ["get2".toList, "page".toList, "x".toList] := by
    constructor
    · simp
    · simp [IsPlainWord]
    · simp
  obtain ⟨symbol, text, upper, lower, small, capitals⟩ := spellings_agree _ name
  refine ⟨symbol, text.trans rfl, upper, lower, small _ ?_, capitals _ ?_⟩
  · exact @Underscored.more 2 _ _ _ (by decide) (@Underscored.more 1 _ _ _ (by decide) .last)
  · exact @Underscored.more 1 _ _ _ (by decide) (@Underscored.more 3 _ _ _ (by decide) .last)

end SessionSyntax
