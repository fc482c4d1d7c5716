import SessionSyntax.Proofs.Correspondence
import SessionSyntax.Proofs.Recursion

/-! Reading the characters of a text comes to the same as reading its lexemes. By induction on the
allowance each rule is followed by the matcher of the same phrase. What is built of what they find is
the same tree, or the same fault at one place, which points to the same characters of the text. -/
namespace SessionSyntax

namespace Content

variable {content : Content}

/-- Payloads are alike if their words are, and their brackets are the same ones of the text. -/
inductive Payloads (content : Content) : PayloadShape → PayloadShape → Prop where
  | basic : content.Words name word → Payloads content (.basic name) (.basic word)
  | list : content.Words name word → Payloads content (.list name) (.list word)
  | tuple : content.Marks opening first → List.Forall₂ (Payloads content) elements others →
      content.Marks closing last →
      Payloads content (.tuple opening elements closing) (.tuple first others last)

mutual

inductive Sessions (content : Content) : SessionShape → SessionShape → Prop where
  | done : Sessions content (.done place) (.done index)
  | choice (polarity : Polarity) : content.Marks sign first → content.Words role word →
      List.Forall₂ (Branches content) branches others → content.Marks closing last →
      Sessions content (.choice polarity sign role branches closing)
        (.choice polarity first word others last)
  | handler : content.Words name word → Sessions content (.handler name) (.handler word)

inductive Branches (content : Content) : BranchShape → BranchShape → Prop where
  | mk : content.Words label word → content.Payloads payload carried →
      Sessions content session continuation →
      Branches content ⟨label, payload, session⟩ ⟨word, carried, continuation⟩

end

theorem follows_list (trims : content.Trims) :
    content.Follows content.Payloads Rule.list Matcher.listShape := by
  refine Follows.named ?_ trims .list
  refine (follows_name.named trims .basic).bind fun _ _ name => Follows.behind_blanks ?_
  refine (follows_literal (by decide) rfl).bind fun _ _ _ => Follows.behind_blanks ?_
  refine (follows_literal (by decide) rfl).bind fun _ _ _ => ?_
  exact trails_pure (.list name)

theorem follows_closeParen (trims : content.Trims) :
    content.Follows content.Marks Rule.closeParen Matcher.closeParen :=
  (follows_literal (by decide) rfl).named trims .closeParen

theorem follows_tuple (trims : content.Trims) {rule : Rule PayloadShape}
    {matcher : Matcher Lexeme PayloadShape} (follows : content.Follows content.Payloads rule matcher)
    (sound : matcher.Sound PayloadShape.Spelled) :
    content.Follows content.Payloads (Rule.tuple rule) (Matcher.tupleShape matcher) := by
  refine Follows.named ?_ trims .tuple
  refine (follows_literal (by decide) rfl).bind fun _ _ opening => Follows.behind_blanks ?_
  refine (follows.commaList trims sound).bind fun _ _ elements => Follows.behind_blanks ?_
  refine (follows_closeParen trims).bind fun _ _ closing => ?_
  exact trails_pure (.tuple opening elements closing)

theorem follows_payload (trims : content.Trims) (n : Nat) :
    content.Follows content.Payloads (Rule.payload n) (Matcher.payloadShape n) := by
  induction n with
  | zero => exact follows_fail
  | succ n ih =>
    refine Follows.named ?_ trims .payloadType
    refine (follows_tuple trims ih (payloadShape_sound n)).orElse ?_
    refine (follows_list trims).orElse ?_
    exact (follows_name.named trims .basic).map fun _ _ name => .basic name

theorem follows_branch (trims : content.Trims) {payload : Rule PayloadShape}
    {carried : Matcher Lexeme PayloadShape} {session : Rule SessionShape}
    {continuation : Matcher Lexeme SessionShape}
    (one : content.Follows content.Payloads payload carried)
    (other : content.Follows content.Sessions session continuation) :
    content.Follows content.Branches (Rule.branch payload session)
      (Matcher.branchShape carried continuation) := by
  refine Follows.named ?_ trims .branch
  refine (follows_name.named trims .identifier).bind fun _ _ label => Follows.behind_blanks ?_
  refine (follows_literal (by decide) rfl).bind fun _ _ _ => Follows.behind_blanks ?_
  refine one.bind fun _ _ inside => Follows.behind_blanks ?_
  refine (follows_closeParen trims).bind fun _ _ _ => Follows.behind_blanks ?_
  refine ((follows_literal (by decide) rfl).named trims .dot).bind fun _ _ _ =>
    Follows.behind_blanks ?_
  refine other.bind fun _ _ next => ?_
  exact trails_pure (.mk label inside next)

theorem follows_sign (polarity : Polarity) :
    content.Follows content.Marks (Rule.literal polarity.sign) (Matcher.mark polarity.sign) := by
  cases polarity with
  | send | receive => exact follows_literal (by decide) rfl

theorem follows_choice (trims : content.Trims) (polarity : Polarity) {rule : Rule BranchShape}
    {matcher : Matcher Lexeme BranchShape} {stands : Nat → BranchShape → List Lexeme → Prop}
    (follows : content.Follows content.Branches rule matcher)
    (sound : matcher.Sound stands) :
    content.Follows content.Sessions (Rule.choice polarity rule)
      (Matcher.choiceShape polarity matcher) := by
  refine (follows_sign polarity).bind fun _ _ sign => Follows.behind_blanks ?_
  refine (follows_name.named trims .identifier).bind fun _ _ role => Follows.behind_blanks ?_
  refine ((follows_literal (by decide) rfl).named trims .colon).bind fun _ _ _ =>
    Follows.behind_blanks ?_
  refine (follows_literal (by decide) rfl).bind fun _ _ _ => Follows.behind_blanks ?_
  refine (follows.commaList trims sound).bind fun _ _ branches => Follows.behind_blanks ?_
  refine ((follows_literal (by decide) rfl).named trims .closeBrace).bind fun _ _ closing => ?_
  exact trails_pure (.choice polarity sign role branches closing)

theorem follows_session (trims : content.Trims) (n : Nat) :
    content.Follows content.Sessions (Rule.session n) (Matcher.sessionShape n) := by
  induction n with
  | zero => exact follows_fail
  | succ n ih =>
    have choice (polarity : Polarity) := follows_choice trims polarity
      (follows_branch trims (follows_payload trims n) ih)
      (branchShape_sound (payloadShape_sound n) (sessionShape_sound n))
    refine Follows.named ?_ trims .sessionType
    refine Follows.orElse ?_ (Follows.orElse ?_ (Follows.orElse ?_ ?_))
    · exact (follows_endWord.map fun _ _ _ => .done).named trims .done
    · exact (choice .receive).named trims .receive
    · exact (choice .send).named trims .send
    · exact ((follows_name.named trims .identifier).map fun _ _ name => .handler name).named trims
        .handler

/-- The same is wrong, at the same place of the text. -/
inductive Faults (content : Content) : Fault → Fault → Prop where
  | tooDeep (limit : Nat) : content.Marks place index →
      Faults content (.tooDeep place limit) (.tooDeep index limit)
  | unexpected (wanted : List Part) : content.Settled place index →
      Faults content (.unexpected place wanted) (.unexpected index wanted)
  | unknownType : content.Words name word → Faults content (.unknownType name) (.unknownType word)
  | emptyCollection (collection : Collection) : content.Marks opening first →
      content.Marks closing last →
      Faults content (.emptyCollection opening closing collection)
        (.emptyCollection first last collection)
  | leftover : content.Settled place index → Faults content (.leftover place) (.leftover index)

inductive Results (content : Content) : Except Fault α → Except Fault α → Prop where
  | ok (a : α) : Results content (.ok a) (.ok a)
  | error : content.Faults fault other → Results content (.error fault) (.error other)

/-- The same notes were made on the way to the same result. -/
structure Logs (content : Content) (one other : Logged α) : Prop where
  notes : one.notes = other.notes
  result : content.Results one.result other.result

theorem Results.bind {one other : Except Fault α} {next follow : α → Except Fault β}
    (same : content.Results one other) (more : ∀ a, content.Results (next a) (follow a)) :
    content.Results (one >>= next) (other >>= follow) := by
  cases same with
  | ok a => exact more a
  | error faults => exact .error faults

theorem logs_pure (a : α) : content.Logs (pure a) (pure a) := ⟨rfl, .ok a⟩

theorem logs_fail (faults : content.Faults fault other) :
    content.Logs (Logged.fail fault : Logged α) (Logged.fail other) := ⟨rfl, .error faults⟩

theorem logs_ofExcept {one other : Except Fault α} (same : content.Results one other) :
    content.Logs (.ofExcept one) (.ofExcept other) := ⟨rfl, same⟩

theorem Logs.bind {one other : Logged α} {next follow : α → Logged β}
    (same : content.Logs one other) (more : ∀ a, content.Logs (next a) (follow a)) :
    content.Logs (one >>= next) (other >>= follow) := by
  obtain ⟨notes, result⟩ := one
  obtain ⟨others, outcome⟩ := other
  obtain ⟨rfl, results⟩ : notes = others ∧ content.Results result outcome := ⟨same.notes, same.result⟩
  cases results with
  | ok a => exact ⟨congrArg (notes ++ ·) (more a).notes, (more a).result⟩
  | error faults => exact ⟨rfl, .error faults⟩

theorem Words.kind (words : content.Words name word) : content.Results name.kind word.kind := by
  have text : name.text = word.text := congrArg String.ofList words.letters
  rw [Word.kind, Word.kind, text]
  cases BasicKind.ofKeyword? word.text with
  | some kind => exact .ok kind
  | none => exact .error (.unknownType words)

theorem Words.symbol (words : content.Words name word) : name.symbol = word.symbol :=
  congrArg Symbol.ofWord words.letters

/-- The same payloads are built of payloads that are alike. -/
theorem Payloads.build (alike : content.Payloads one other) :
    content.Results one.build other.build := by
  induction one generalizing other with
  | basic name =>
    cases alike with
    | basic words => exact words.kind.bind fun kind => .ok (Payload.basic kind)
  | list name =>
    cases alike with
    | list words => exact words.kind.bind fun kind => .ok (Payload.list kind)
  | tuple opening elements closing ih =>
    cases alike with
    | @tuple _ _ _ others _ _ first all last =>
      have inside : content.Results (PayloadShape.buildAll elements) (PayloadShape.buildAll others) := by
        induction all with
        | nil => exact .ok []
        | cons one _ rest =>
          obtain ⟨each, others⟩ := List.forall_mem_cons.mp @ih
          exact (each one).bind fun payload => (rest others).bind fun payloads =>
            .ok (payload :: payloads)
      refine inside.bind fun payloads => ?_
      cases NonEmpty.ofList? payloads with
      | some payloads => exact .ok (Payload.tuple payloads)
      | none => exact .error (.emptyCollection .tupleElements first last)

/-- The same sessions are built of sessions that are alike, with the same notes. -/
theorem Sessions.build (alike : content.Sessions one other) :
    content.Logs one.build other.build := by
  induction one generalizing other with
  | done =>
    cases alike with
    | done => exact logs_pure Session.done
  | handler name =>
    cases alike with
    | handler words =>
      rw [SessionShape.build, SessionShape.build, words.symbol]
      exact ⟨rfl, .ok _⟩
  | choice polarity sign role branches closing ih =>
    cases alike with
    | @choice _ _ _ _ _ others _ _ _ first words all last =>
      have inside : content.Logs (BranchShape.buildAll branches) (BranchShape.buildAll others) := by
        induction all with
        | nil => exact logs_pure []
        | @cons one other _ _ branch _ rest =>
          obtain ⟨each, others⟩ := List.forall_mem_cons.mp @ih
          have built : content.Logs one.build other.build := by
            obtain ⟨label, payload, continuation⟩ := branch
            refine (logs_ofExcept payload.build).bind fun payload => ?_
            refine (each continuation).bind fun session => ?_
            rw [label.symbol]
            exact logs_pure _
          exact built.bind fun branch => (rest others).bind fun branches =>
            logs_pure (branch :: branches)
      refine inside.bind fun branches => ?_
      rw [words.symbol]
      cases NonEmpty.ofList? branches with
      | some branches => exact ⟨rfl, .ok _⟩
      | none => exact logs_fail (.emptyCollection .branches first last)

/-- Characters that do not count are passed over. -/
theorem overflowFrom?_append (within : depth ≤ limit)
    (still : ∀ c ∈ skipped, Text.nest depth c = depth) (offset : Nat) (text : List Char) :
    overflowFrom? limit depth offset (skipped ++ text) =
      overflowFrom? limit depth (offset + Text.size skipped) text := by
  induction skipped generalizing offset with
  | nil => rfl
  | cons c cs ih =>
    rw [List.cons_append, overflowFrom?, still c (by simp), if_neg (Nat.not_lt.mpr within),
      ih fun d member => still d (List.mem_cons_of_mem c member), Text.size, Nat.add_assoc]

theorem utf8Size_of_opens (opens : (Lexeme.mark c).opens) : c.utf8Size = 1 := by
  simp only [Lexeme.opens, Bool.or_eq_true, beq_iff_eq] at opens
  rcases opens with rfl | rfl <;> rfl

/-- The guard on the characters stops at the bracket where the guard on the lexemes does. -/
theorem Meets.overflow (meets : content.Meets here there) (within : depth ≤ limit) :
    Option.Rel content.Marks (overflowFrom? limit depth here.index here.rest)
      (SessionSyntax.overflowFrom? limit depth there.index there.rest) := by
  obtain ⟨index, ls⟩ := there
  induction ls generalizing here index depth with
  | nil =>
    have none : overflowFrom? limit depth here.index here.rest = none := by
      rw [overflowFrom?_eq_none_iff within, ← meets.spaced.peakFrom_le_iff]
      exact within
    rw [none]
    exact .none
  | cons l ls ih =>
    have still : ∀ c ∈ here.rest.takeWhile isBlank, Text.nest depth c = depth := fun c member =>
      Text.nest_of_isBlank (List.mem_takeWhile_imp member) depth
    have skipped := overflowFrom?_append within still here.index (here.rest.dropWhile isBlank)
    rw [List.takeWhile_append_dropWhile] at skipped
    rw [skipped]
    have behind := meets.blanks
    generalize here.index + Text.size (here.rest.takeWhile isBlank) = place at behind ⊢
    generalize stands : here.rest.dropWhile isBlank = rest at behind ⊢
    cases behind.front (stands ▸ unindented_dropWhile here.rest) with
    | @mark c _ _ _ _ apart covers after =>
      rw [overflowFrom?, SessionSyntax.overflowFrom?, Text.nest_mark]
      split
      case isTrue exceeds =>
        rw [← Text.nest_mark] at exceeds
        rw [utf8Size_of_opens (Lexeme.opens_of_exceeds within exceeds).1] at covers
        exact .some covers
      case isFalse below => exact ih (Nat.le_of_not_lt below) _ after
    | @word letters _ _ _ _ _ letter _ _ after =>
      have silent : ∀ d ∈ letters, Text.nest depth d = depth := fun d member =>
        Text.nest_of_isWordChar (letter d member) depth
      have flat : (Lexeme.word letters).nest depth = depth := rfl
      rw [overflowFrom?_append within silent, SessionSyntax.overflowFrom?, flat,
        if_neg (Nat.not_lt.mpr within)]
      exact ih within _ after

/-- Faults that are the same point to the same characters of the text. -/
theorem Faults.locate (same : content.Faults fault other) (trims : content.Trims) :
    content.locate fault = content.source.locate other := by
  cases same with
  | tooDeep limit marks =>
    simp only [Content.locate, Source.locate, spanOf, Source.spanOf, marks.start, marks.stop]
    rfl
  | unexpected wanted settled =>
    simp only [Content.locate, Source.locate, spanOf, settled.startOf trims, settled.head?_behind,
      Nat.add_assoc]
    rfl
  | @unknownType name word words =>
    have text : name.text = word.text := congrArg String.ofList words.letters
    simp only [Content.locate, Source.locate, spanOf, Source.spanOf, words.covers.start,
      words.covers.stop, text, Nat.add_assoc]
    rfl
  | emptyCollection collection opening closing =>
    simp only [Content.locate, Source.locate, spanOf, Source.spanOf, opening.start, closing.stop]
    rfl
  | @leftover place index settled =>
    obtain ⟨front, back, whole, offset, _⟩ := trims.split
    obtain ⟨rest, ls, meets, _⟩ := id settled
    obtain ⟨before, split, rfl⟩ : ∃ before, content.text = before ++ rest ∧ place = Text.size before :=
      meets.split
    have start : content.offset + Text.size before = Text.size (front ++ before) := by
      rw [offset, Text.size_append]
    have stop : content.offset + Text.size content.text = Text.size (front ++ before ++ rest) := by
      simp only [offset, split, Text.size_append, Nat.add_assoc]
    have pieces : content.full.toList = front ++ before ++ rest ++ back := by
      rw [whole, split]
      simp only [List.append_assoc]
    have slice := Source.slice_eq pieces
    rw [← start, ← stop] at slice
    simp only [Content.locate, Source.locate, spanOf, settled.startOf trims, trims.contentEnd]
    rw [split, Text.behind_size, ← split]
    exact congrArg (fun text => (⟨.leftover text, _⟩ : ParseError)) slice.symm

end Content

theorem peakFrom_le (depth : Nat) (ls : List Lexeme) : peakFrom depth ls ≤ depth + ls.length := by
  induction ls generalizing depth with
  | nil => exact Nat.le_refl _
  | cons l ls ih =>
    have := ih (l.nest depth)
    have : l.nest depth ≤ depth + 1 := by unfold Lexeme.nest; split <;> [skip; split] <;> omega
    simp only [peakFrom, List.length_cons]
    omega

/-- Texts and lexemes are read after one grammar, and what is found alike is built alike. -/
structure Reader.Corresponds (reader : Reader σ α) (lexical : LexemeReader τ α)
    (alike : Content → σ → τ → Prop) : Prop where
  /-- An allowance that is enough for the lexemes of a text is enough for its characters. -/
  enough : ∀ {text : List Char} {bound}, Rule.Under bound 0 ⟨0, text⟩ → bound ≤ text.length →
    reader.rule (text.length + 1) ⟨0, text⟩ = reader.rule (bound + 1) ⟨0, text⟩
  follows : ∀ {content : Content} n, content.Trims →
    content.Follows (alike content) (reader.rule n) (lexical.shape n)
  builds : ∀ {content shape other}, alike content shape other →
    content.Logs (reader.build shape) (lexical.build other)

namespace Reader.Corresponds

variable {reader : Reader σ α} {lexical : LexemeReader τ α} {alike : Content → σ → τ → Prop}
  {content : Content}

/-- The text keeps to the bound that its lexemes keep to by their number. -/
theorem under_length (spaced : Spaced text ls) : Rule.Under ls.length 0 ⟨0, text⟩ := by
  rw [Rule.Under, ← spaced.peakFrom_le_iff]
  exact Nat.le_trans (peakFrom_le 0 ls) (Nat.le_of_eq (Nat.zero_add _))

/-- Behind a phrase either both texts and lexemes are at an end, or both go on at one place. -/
theorem behind_phrase (meets : content.Meets here there) :
    (here.rest.dropWhile isBlank).isEmpty = there.rest.isEmpty ∧
      content.Settled (Text.size content.text - Text.size (here.rest.dropWhile isBlank))
        there.index := by
  have tight := unindented_dropWhile here.rest
  have behind := meets.blanks
  obtain ⟨before, split, offset⟩ := behind.split
  have spaced := behind.spaced
  have settled := behind.settled tight
  constructor
  · cases stands : there.rest with
    | nil =>
      rw [stands] at spaced
      rw [tight.eq_nil spaced.blank_of_nil]
      rfl
    | cons l more =>
      have filled := spaced.length_le
      rw [stands] at filled
      exact List.isEmpty_eq_false_iff.mpr (List.ne_nil_of_length_pos (Nat.zero_lt_of_lt filled))
  · rw [split, Text.size_append, Nat.add_sub_cancel, ← offset]
    exact settled

theorem read (corresponds : reader.Corresponds lexical alike) (trims : content.Trims)
    (config : Config) :
    content.Logs (reader.read config content) (lexical.read config content.source.lexemes) := by
  have initial := Content.Meets.initial trims
  have spaced := initial.spaced
  have guard : Option.Rel content.Marks (content.overflow? config.maxDepth)
      (overflow? config.maxDepth content.source.lexemes) := initial.overflow (Nat.zero_le _)
  rw [Reader.read, LexemeReader.read]
  rw [corresponds.enough (under_length spaced) spaced.length_le]
  have wants : content.Wants .initial .initial := ⟨initial.settled trims.unindented, rfl⟩
  have agrees := corresponds.follows (content.source.lexemes.length + 1) trims initial
    trims.unindented wants
  generalize content.overflow? config.maxDepth = place at guard ⊢
  generalize overflow? config.maxDepth content.source.lexemes = index at guard ⊢
  cases guard with
  | some marks => exact Content.logs_fail (.tooDeep _ marks)
  | none =>
    rcases agrees.cases with ⟨reached, frontier, missed, lacked, wants⟩ |
      ⟨shape, other, here, there, _, _, found, matched, same, meets, _⟩
    · simp only [missed, lacked, wants.wanted]
      exact Content.logs_fail (.unexpected _ wants.settled)
    · simp only [found, matched]
      obtain ⟨ends, settled⟩ := behind_phrase meets
      refine (corresponds.builds same).bind fun a => ?_
      rw [ends]
      split
      case isTrue => exact Content.logs_pure a
      case isFalse => exact Content.logs_fail (.leftover settled)

/-- Reading a text comes to the same as reading its lexemes. -/
theorem parse_eq (corresponds : reader.Corresponds lexical alike) (config : Config) (text : String) :
    reader.parse config text = lexical.parse config text := by
  have trims := Content.trims_ofText text
  have same := (corresponds.read trims config).result
  rw [Reader.parse, LexemeReader.parse]
  change Except.mapError _ (reader.read config (Content.ofText text)).result =
    Except.mapError _ (lexical.read config (Content.ofText text).source.lexemes).result
  generalize (reader.read config (Content.ofText text)).result = one at same ⊢
  generalize (lexical.read config (Content.ofText text).source.lexemes).result = other at same ⊢
  cases same with
  | ok a => rfl
  | error faults => exact congrArg Except.error (faults.locate trims)

theorem notes_eq (corresponds : reader.Corresponds lexical alike) (config : Config) (text : String) :
    (reader.read config (Content.ofText text)).notes =
      (lexical.read config (Source.ofText text).lexemes).notes :=
  (corresponds.read (Content.trims_ofText text) config).notes

end Reader.Corresponds

theorem sessionReader_corresponds :
    sessionReader.Corresponds LexemeReader.session Content.Sessions where
  enough under short := Rule.session_eq_session under (by omega) (by omega)
  follows n trims := Content.follows_session trims n
  builds alike := alike.build

theorem payloadReader_corresponds :
    payloadReader.Corresponds LexemeReader.payload Content.Payloads where
  enough under short := Rule.payload_eq_payload under (by omega) (by omega)
  follows n trims := Content.follows_payload trims n
  builds alike := Content.logs_ofExcept alike.build

theorem Session.parseWith_eq (config : Config) (text : String) :
    parseWith config text = LexemeReader.session.parse config text :=
  sessionReader_corresponds.parse_eq config text

theorem Payload.parseWith_eq (config : Config) (text : String) :
    parseWith config text = LexemeReader.payload.parse config text :=
  payloadReader_corresponds.parse_eq config text

end SessionSyntax
