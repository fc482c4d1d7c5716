import SessionSyntax.Proofs.Matching

/-! The matchers and the surface grammar agree: what a matcher finds is a phrase that stands
there, and a phrase is found unless a longer one begins at the same place. The only phrases that
others extend are names in basic position, which the two brackets of a list may follow. -/
namespace SessionSyntax

open Matcher

variable {frontier : Frontier}

theorem of_found_named_word
    (found : (named part (word isIdentifier) here frontier).found = some (name, there)) :
    ∃ letters, isIdentifier letters ∧ name = ⟨here.index, letters⟩ ∧
      here.Spans [.word letters] there :=
  of_found_word ((found_named _ _ _ _).symm.trans found)

theorem of_found_named_mark
    (found : (named part (mark c) here frontier).found = some (place, there)) :
    place = here.index ∧ here.Spans [.mark c] there :=
  of_found_mark ((found_named _ _ _ _).symm.trans found)

theorem listShape_sound (found : (listShape here frontier).found = some (shape, there)) :
    ∃ name, isIdentifier name ∧ shape = .list ⟨here.index, name⟩ ∧
      here.Spans [.word name, .mark '[', .mark ']'] there := by
  rw [listShape, found_named] at found
  obtain ⟨word, _, _, worded, more⟩ := of_found_bind found
  obtain ⟨_, _, _, opened, more⟩ := of_found_bind more
  obtain ⟨_, _, _, closed, done⟩ := of_found_bind more
  obtain ⟨rfl, rfl⟩ := of_found_pure done
  obtain ⟨name, named, rfl, spans⟩ := of_found_named_word worded
  exact ⟨name, named, rfl, spans.cons ((of_found_mark opened).2.cons (of_found_mark closed).2)⟩

theorem tupleShape_sound {element : Matcher Lexeme PayloadShape}
    {stands : Nat → PayloadShape → List Lexeme → Prop} (sound : element.Sound stands)
    (found : (tupleShape element here frontier).found = some (shape, there)) :
    (shape = .tuple here.index [] (here.index + 1) ∧ here.Spans [.mark '(', .mark ')'] there) ∨
      ∃ elements ls, Series stands (here.index + 1) elements ls ∧
        shape = .tuple here.index elements (here.index + 1 + ls.length) ∧
        here.Spans (.mark '(' :: ls ++ [.mark ')']) there := by
  rw [tupleShape, found_named] at found
  obtain ⟨_, inside, _, opened, more⟩ := of_found_bind found
  obtain ⟨elements, behind, _, listed, more⟩ := of_found_bind more
  obtain ⟨_, _, _, closed, done⟩ := of_found_bind more
  obtain ⟨rfl, rfl⟩ := of_found_pure done
  obtain ⟨rfl, opening⟩ := of_found_mark opened
  obtain ⟨rfl, closing⟩ := of_found_named_mark closed
  rcases of_found_commaList sound listed with ⟨rfl, rfl⟩ | ⟨ls, series, spans⟩
  · exact .inl ⟨by rw [opening.index]; rfl, opening.cons closing⟩
  · rw [opening.index] at series
    refine .inr ⟨elements, ls, series, ?_, opening.cons (spans.append closing)⟩
    rw [spans.index, opening.index]; rfl

theorem payloadShape_sound (n : Nat) : (payloadShape n).Sound PayloadShape.Spelled := by
  induction n with
  | zero =>
    intro here frontier shape there found
    simp [payloadShape, fail] at found
  | succ n ih =>
    intro here frontier shape there found
    rw [payloadShape, payloadOver, found_named] at found
    rcases of_found_orElse found with tuple | ⟨_, _, others⟩
    · rcases tupleShape_sound ih tuple with ⟨rfl, spans⟩ | ⟨elements, ls, series, rfl, spans⟩
      · exact ⟨_, .empty, spans⟩
      · exact ⟨_, .tuple series, spans⟩
    · rcases of_found_orElse others with list | ⟨_, _, basic⟩
      · obtain ⟨name, named, rfl, spans⟩ := listShape_sound list
        exact ⟨_, .list named, spans⟩
      · obtain ⟨word, worded, rfl⟩ := of_found_map basic
        obtain ⟨name, named, rfl, spans⟩ := of_found_named_word worded
        exact ⟨_, .basic named, spans⟩

theorem branchShape_sound {payload : Matcher Lexeme PayloadShape}
    {continuation : Matcher Lexeme SessionShape}
    {stands : Nat → SessionShape → List Lexeme → Prop}
    (payload_sound : payload.Sound PayloadShape.Spelled) (sound : continuation.Sound stands) :
    (branchShape payload continuation).Sound (BranchShape.Spelled stands) := by
  intro here frontier branch there found
  rw [branchShape, found_named] at found
  obtain ⟨_, _, _, labelled, more⟩ := of_found_bind found
  obtain ⟨_, _, _, opened, more⟩ := of_found_bind more
  obtain ⟨_, _, _, carried, more⟩ := of_found_bind more
  obtain ⟨_, _, _, closed, more⟩ := of_found_bind more
  obtain ⟨_, _, _, dotted, more⟩ := of_found_bind more
  obtain ⟨_, _, _, continued, done⟩ := of_found_bind more
  obtain ⟨rfl, rfl⟩ := of_found_pure done
  obtain ⟨label, named, rfl, start⟩ := of_found_named_word labelled
  have opening := (of_found_mark opened).2
  obtain ⟨ls, spelled, inside⟩ := payload_sound carried
  have closing := (of_found_named_mark closed).2
  have dot := (of_found_named_mark dotted).2
  obtain ⟨ms, stand, behind⟩ := sound continued
  rw [opening.index, start.index] at spelled
  rw [dot.index, closing.index, inside.index, opening.index, start.index] at stand
  refine ⟨_, .mk named spelled stand, ?_⟩
  exact start.cons (opening.cons (inside.append (closing.cons (dot.cons behind))))

theorem doneShape_finds (place : Nat) (rest : List Lexeme) :
    doneShape.Finds ⟨place, .word Session.endWord.toList :: rest⟩ (.done place) ⟨place + 1, rest⟩ :=
  ((finds_word (by simp) place rest).map _).named .done

theorem choiceShape_sound {branch : Matcher Lexeme BranchShape}
    {stands : Nat → BranchShape → List Lexeme → Prop} (sound : branch.Sound stands)
    (found : (choiceShape polarity branch here frontier).found = some (shape, there)) :
    ∃ role, isIdentifier role ∧
      ((shape = .choice polarity here.index ⟨here.index + 1, role⟩ [] (here.index + 4) ∧
        here.Spans [.mark polarity.sign, .word role, .mark ':', .mark '\x7b', .mark '\x7d'] there) ∨
      ∃ branches ls, Series stands (here.index + 4) branches ls ∧
        shape = .choice polarity here.index ⟨here.index + 1, role⟩ branches
          (here.index + 4 + ls.length) ∧
        here.Spans (.mark polarity.sign :: .word role :: .mark ':' :: .mark '\x7b' :: ls ++
          [.mark '\x7d']) there) := by
  obtain ⟨_, _, _, signed, more⟩ := of_found_bind found
  obtain ⟨_, _, _, addressed, more⟩ := of_found_bind more
  obtain ⟨_, _, _, divided, more⟩ := of_found_bind more
  obtain ⟨_, inside, _, opened, more⟩ := of_found_bind more
  obtain ⟨branches, _, _, listed, more⟩ := of_found_bind more
  obtain ⟨_, _, _, closed, done⟩ := of_found_bind more
  obtain ⟨rfl, rfl⟩ := of_found_pure done
  obtain ⟨rfl, sign⟩ := of_found_mark signed
  obtain ⟨role, named, rfl, address⟩ := of_found_named_word addressed
  have colon := (of_found_named_mark divided).2
  have opening := (of_found_mark opened).2
  obtain ⟨rfl, closing⟩ := of_found_named_mark closed
  have start : inside.index = here.index + 4 := by
    rw [opening.index, colon.index, address.index, sign.index]; rfl
  refine ⟨role, named, ?_⟩
  rw [sign.index]
  rcases of_found_commaList sound listed with ⟨rfl, rfl⟩ | ⟨ls, series, spans⟩
  · exact .inl ⟨by rw [start]; rfl,
      sign.cons (address.cons (colon.cons (opening.cons closing)))⟩
  · rw [start] at series
    refine .inr ⟨branches, ls, series, by rw [spans.index, start]; rfl, ?_⟩
    exact sign.cons (address.cons (colon.cons (opening.cons (spans.append closing))))

theorem sessionShape_sound (n : Nat) : (sessionShape n).Sound SessionShape.Spelled := by
  induction n with
  | zero =>
    intro here frontier shape there found
    simp [sessionShape, fail] at found
  | succ n ih =>
    intro here frontier shape there found
    rw [sessionShape, sessionOver, found_named] at found
    have choice {polarity frontier part}
        (found : (named part (choiceShape polarity (branchShape (payloadShape n) (sessionShape n)))
          here frontier).found = some (shape, there)) :
        ∃ ls, shape.Spelled here.index ls ∧ here.Spans ls there := by
      rw [found_named] at found
      obtain ⟨role, named, ⟨rfl, spans⟩ | ⟨branches, ls, series, rfl, spans⟩⟩ :=
        choiceShape_sound (branchShape_sound (payloadShape_sound n) ih) found
      · exact ⟨_, .empty polarity named, spans⟩
      · exact ⟨_, .choice polarity named series, spans⟩
    rcases of_found_orElse found with done | ⟨unfinished, _, others⟩
    · rw [doneShape, found_named] at done
      obtain ⟨word, worded, rfl⟩ := of_found_map done
      obtain ⟨letters, accepted, rfl, spans⟩ := of_found_word worded
      obtain rfl : letters = Session.endWord.toList := by simpa using accepted
      exact ⟨_, .done, spans⟩
    · rcases of_found_orElse others with receive | ⟨_, _, others⟩
      · exact choice receive
      · rcases of_found_orElse others with send | ⟨_, _, handler⟩
        · exact choice send
        · rw [handlerShape, found_named] at handler
          obtain ⟨word, worded, rfl⟩ := of_found_map handler
          obtain ⟨name, named, rfl, spans⟩ := of_found_named_word worded
          refine ⟨_, .handler named ?_, spans⟩
          rintro rfl
          have done := doneShape_finds here.index there.rest frontier
          rw [← List.singleton_append, ← spans.rest] at done
          exact absurd (done.symm.trans unfinished) (by simp)

theorem named_word_finds (part : Part) (named : isIdentifier name) (place : Nat)
    (rest : List Lexeme) :
    (Matcher.named part (word isIdentifier)).Finds ⟨place, .word name :: rest⟩ ⟨place, name⟩
      ⟨place + 1, rest⟩ :=
  (finds_word named place rest).named part

theorem named_mark_finds (part : Part) (c : Char) (place : Nat) (rest : List Lexeme) :
    (named part (mark c)).Finds ⟨place, .mark c :: rest⟩ place ⟨place + 1, rest⟩ :=
  (finds_mark c place rest).named part

theorem listShape_finds (named : isIdentifier name) (place : Nat) (rest : List Lexeme) :
    listShape.Finds ⟨place, .word name :: .mark '[' :: .mark ']' :: rest⟩ (.list ⟨place, name⟩)
      ⟨place + 3, rest⟩ := by
  apply Finds.named
  refine (named_word_finds .basic named _ _).bind ?_
  refine (finds_mark '[' _ _).bind ?_
  refine (finds_mark ']' _ _).bind ?_
  exact finds_pure _ _

theorem tupleShape_finds {element : Matcher Lexeme PayloadShape} (inside : List Lexeme)
    (listed : (commaList element).Finds ⟨place + 1, inside ++ .mark ')' :: rest⟩ elements
      ⟨place + 1 + inside.length, .mark ')' :: rest⟩) :
    (tupleShape element).Finds ⟨place, .mark '(' :: inside ++ .mark ')' :: rest⟩
      (.tuple place elements (place + 1 + inside.length)) ⟨place + 1 + inside.length + 1, rest⟩ := by
  apply Finds.named
  refine (finds_mark '(' _ _).bind ?_
  refine listed.bind ?_
  refine (named_mark_finds .closeParen ')' _ _).bind ?_
  exact finds_pure _ _

theorem tupleShape_misses_word (element : Matcher Lexeme PayloadShape) (place : Nat) (name : List Char)
    (rest : List Lexeme) : (tupleShape element).Misses ⟨place, .word name :: rest⟩ :=
  ((mark_misses (by simp)).bind _).named .tuple

theorem listShape_misses (apart : ¬ListTail rest) (place : Nat) (name : List Char) :
    listShape.Misses ⟨place, .word name :: rest⟩ := by
  refine misses_of_not_found fun _ shape there found => apart ?_
  obtain ⟨other, _, _, spans⟩ := listShape_sound found
  exact ⟨there.rest, by simpa using (List.cons.inj spans.rest).2⟩

theorem payloadShape_misses_mark (other : c ≠ '(') (n place : Nat) (rest : List Lexeme) :
    (payloadShape n).Misses ⟨place, .mark c :: rest⟩ := by
  refine misses_of_not_found fun _ shape there found => ?_
  obtain ⟨ls, spelled, spans⟩ := payloadShape_sound n found
  have head := spans.rest
  cases spelled <;> simp [other] at head

/-- A payload is found whatever follows, except that a name is not where the brackets of a list
do. -/
theorem PayloadShape.Spelled.finds (spelled : PayloadShape.Spelled place shape ls)
    (bound : ls.length ≤ n) (rest : List Lexeme)
    (apart : ∀ name, shape = .basic name → ¬ListTail rest) :
    (payloadShape n).Finds ⟨place, ls ++ rest⟩ shape ⟨place + ls.length, rest⟩ := by
  induction spelled generalizing n rest
  all_goals
    obtain ⟨n, rfl⟩ : ∃ k, n = k + 1 := ⟨n - 1, by simp at bound; omega⟩
    rw [payloadShape, payloadOver]
    apply Finds.named
  case basic named =>
    refine (tupleShape_misses_word _ _ _ _).orElse ?_
    refine (listShape_misses (apart _ rfl) _ _).orElse ?_
    exact (named_word_finds .basic named _ rest).map PayloadShape.basic
  case list named =>
    refine (tupleShape_misses_word _ _ _ _).orElse ?_
    exact (listShape_finds named _ rest).orElse _
  case empty place =>
    have nothing := (payloadShape_misses_mark (c := ')') (by decide) n (place + 1) rest).commaList
    exact (tupleShape_finds [] nothing).orElse _
  case tuple place elements ls series assumed =>
    have takes : Series (payloadShape n).TakesUp (place + 1) elements ls := by
      refine assumed.imp fun short stands rest closed => ?_
      obtain ⟨spelled, holds⟩ := stands
      refine holds ?_ rest fun _ _ => closed
      simp only [List.length_append, List.length_cons, List.length_nil] at bound; omega
    have listed := commaList_finds takes (.mark ')' :: rest) (by simp)
      (not_listTail_mark (by decide))
    simpa [Nat.add_assoc, Nat.add_comm 1] using (tupleShape_finds ls listed).orElse _

/-- A branch is found whatever follows, where its continuation is. -/
theorem branchShape_finds {continuation : Matcher Lexeme SessionShape} (rest : List Lexeme)
    (spelled : BranchShape.Spelled (fun place next ms =>
      continuation.Finds ⟨place, ms ++ rest⟩ next ⟨place + ms.length, rest⟩) place branch ls)
    (bound : ls.length ≤ n) :
    (branchShape (payloadShape n) continuation).Finds ⟨place, ls ++ rest⟩ branch
      ⟨place + ls.length, rest⟩ := by
  cases spelled with
  | @mk name _ carried ls next ms named spelled continues =>
    have short : ls.length ≤ n := by simp at bound; omega
    have payload := spelled.finds short (.mark ')' :: .mark '.' :: ms ++ rest)
      fun _ _ => not_listTail_mark (by decide)
    have spot : place + (.word name :: .mark '(' :: ls ++ .mark ')' :: .mark '.' :: ms).length =
        place + 2 + ls.length + 2 + ms.length := by simp; omega
    rw [spot, List.append_assoc]
    apply Finds.named
    refine (named_word_finds .identifier named _ _).bind ?_
    refine (finds_mark '(' _ _).bind ?_
    refine payload.bind ?_
    refine (named_mark_finds .closeParen ')' _ _).bind ?_
    refine (named_mark_finds .dot '.' _ _).bind ?_
    exact continues.bind (finds_pure _ _)

theorem branchShape_takesUp {continuation : Matcher Lexeme SessionShape}
    (spelled : BranchShape.Spelled continuation.TakesUp place branch ls) (bound : ls.length ≤ n) :
    (branchShape (payloadShape n) continuation).TakesUp place branch ls :=
  fun rest closed => branchShape_finds rest (spelled.imp fun _ takes => takes rest closed) bound

theorem branchShape_misses_mark (payload : Matcher Lexeme PayloadShape)
    (continuation : Matcher Lexeme SessionShape)
    (c : Char) (place : Nat) (rest : List Lexeme) :
    (branchShape payload continuation).Misses ⟨place, .mark c :: rest⟩ := by
  refine Misses.named (Misses.bind ?_ _) .branch
  exact (word_misses (by simp)).named .identifier

theorem choiceShape_finds (polarity : Polarity) {branch : Matcher Lexeme BranchShape}
    (named : isIdentifier role) (inside : List Lexeme)
    (listed : (commaList branch).Finds ⟨place + 4, inside ++ .mark '\x7d' :: rest⟩ branches
      ⟨place + 4 + inside.length, .mark '\x7d' :: rest⟩) :
    (choiceShape polarity branch).Finds
      ⟨place, .mark polarity.sign :: .word role :: .mark ':' :: .mark '\x7b' :: inside ++
        .mark '\x7d' :: rest⟩
      (.choice polarity place ⟨place + 1, role⟩ branches (place + 4 + inside.length))
      ⟨place + 4 + inside.length + 1, rest⟩ := by
  refine (finds_mark polarity.sign _ _).bind ?_
  refine (named_word_finds .identifier named _ _).bind ?_
  refine (named_mark_finds .colon ':' _ _).bind ?_
  refine (finds_mark '\x7b' _ _).bind ?_
  refine listed.bind ?_
  refine (named_mark_finds .closeBrace '\x7d' _ _).bind ?_
  exact finds_pure _ _

theorem choiceShape_misses (branch : Matcher Lexeme BranchShape)
    (other : ∀ rest, here.rest ≠ .mark polarity.sign :: rest) :
    (choiceShape polarity branch).Misses here := (mark_misses other).bind _

theorem doneShape_misses
    (other : ∀ rest, here.rest ≠ .word Session.endWord.toList :: rest) : doneShape.Misses here := by
  refine Misses.named (Misses.map (word_misses ?_) _) .done
  intro letters rest accepted
  obtain rfl : letters = Session.endWord.toList := by simpa using accepted
  exact other rest

/-- Which of the alternatives of a session is found is told by its first lexeme. -/
theorem sessionOver_finds_choice (polarity : Polarity) {payload : Matcher Lexeme PayloadShape}
    {continuation : Matcher Lexeme SessionShape}
    (finds : (choiceShape polarity (branchShape payload continuation)).Finds
      ⟨place, .mark polarity.sign :: rest⟩ shape there) :
    (sessionOver payload continuation).Finds ⟨place, .mark polarity.sign :: rest⟩ shape there := by
  apply Finds.named
  refine (doneShape_misses (by simp)).orElse ?_
  cases polarity with
  | receive => exact (finds.named .receive).orElse _
  | send =>
    refine ((choiceShape_misses _ ?_).named .receive).orElse ?_
    · simp [Polarity.sign]
    · exact (finds.named .send).orElse _

theorem SessionShape.Spelled.finds (spelled : SessionShape.Spelled place shape ls)
    (bound : ls.length ≤ n) (rest : List Lexeme) :
    (sessionShape n).Finds ⟨place, ls ++ rest⟩ shape ⟨place + ls.length, rest⟩ := by
  induction spelled generalizing n rest
  all_goals
    obtain ⟨n, rfl⟩ : ∃ k, n = k + 1 := ⟨n - 1, by simp at bound; omega⟩
    rw [sessionShape]
  case done => exact ((doneShape_finds _ rest).orElse _).named .sessionType
  case handler named other =>
    apply Finds.named
    refine (doneShape_misses (by simpa using other)).orElse ?_
    refine ((choiceShape_misses _ (by simp)).named .receive).orElse ?_
    refine ((choiceShape_misses _ (by simp)).named .send).orElse ?_
    exact ((named_word_finds .identifier named _ rest).map SessionShape.handler).named .handler
  case empty place polarity named =>
    have nothing := (branchShape_misses_mark (payloadShape n) (sessionShape n) '\x7d' (place + 4)
      rest).commaList
    exact sessionOver_finds_choice polarity (choiceShape_finds polarity named [] nothing)
  case choice place branches ls polarity named series assumed =>
    have takes : Series (branchShape (payloadShape n) (sessionShape n)).TakesUp (place + 4)
        branches ls := by
      refine assumed.imp fun short spelled => ?_
      have room : ls.length + 4 ≤ n := by simp at bound; omega
      refine branchShape_takesUp (spelled.imp fun shorter stands rest _ => ?_) (by omega)
      obtain ⟨spelled, holds⟩ := stands
      exact holds (by omega) rest
    have listed := commaList_finds takes (.mark '\x7d' :: rest) (by simp)
      (not_listTail_mark (by decide))
    have found := sessionOver_finds_choice polarity (choiceShape_finds polarity named ls listed)
    simpa [Nat.add_assoc, Nat.add_comm, Nat.add_left_comm] using found

end SessionSyntax
