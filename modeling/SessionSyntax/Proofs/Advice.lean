import SessionSyntax.Proofs.Verdicts

/-! The parts that a message asks for can be written where it asks for them. This is carried through
the constructs that are still open, like the lexemes that a need takes; but a part may be a whole
phrase, and the place at which it is asked for may be before the one where the text breaks off. -/
namespace SessionSyntax

theorem Series.moved {stands : Nat → α → List Lexeme → Prop}
    (series : Series (fun _ _ ls => ∀ place, ∃ item, stands place item ls) start items ls)
    (place : Nat) : ∃ items, Series stands place items ls := by
  induction series generalizing place with
  | one one =>
    obtain ⟨item, stand⟩ := one place
    exact ⟨_, .one stand⟩
  | @more _ _ ls _ _ one _ ih =>
    obtain ⟨item, stand⟩ := one place
    obtain ⟨items, series⟩ := ih (place + ls.length + 1)
    exact ⟨_, .more stand series⟩

theorem PayloadShape.Spelled.moved (spelled : PayloadShape.Spelled start shape ls) (place : Nat) :
    ∃ shape, PayloadShape.Spelled place shape ls := by
  induction spelled generalizing place with
  | basic named => exact ⟨_, .basic named⟩
  | list named => exact ⟨_, .list named⟩
  | empty => exact ⟨_, .empty⟩
  | tuple _ assumed =>
    obtain ⟨elements, series⟩ := (assumed.imp fun _ ⟨_, moved⟩ => moved).moved (place + 1)
    exact ⟨_, .tuple series⟩

theorem BranchShape.Spelled.moved
    (spelled : BranchShape.Spelled (fun _ _ ls => ∀ place, ∃ next, SessionShape.Spelled place next ls)
      start branch ls) (place : Nat) :
    ∃ branch, BranchShape.Spelled SessionShape.Spelled place branch ls := by
  cases spelled with
  | mk named phrase continues =>
    obtain ⟨carried, phrase⟩ := phrase.moved (place + 2)
    obtain ⟨next, continues⟩ := continues _
    exact ⟨_, .mk named phrase continues⟩

theorem SessionShape.Spelled.moved (spelled : SessionShape.Spelled start shape ls) (place : Nat) :
    ∃ shape, SessionShape.Spelled place shape ls := by
  induction spelled generalizing place with
  | done => exact ⟨_, .done⟩
  | handler named other => exact ⟨_, .handler named other⟩
  | empty polarity named => exact ⟨_, .empty polarity named⟩
  | choice polarity named _ assumed =>
    have members := assumed.imp fun _ branch =>
      BranchShape.Spelled.moved (branch.imp fun _ ⟨_, moved⟩ => moved)
    obtain ⟨branches, series⟩ := members.moved (place + 4)
    exact ⟨_, .choice polarity named series⟩

theorem payload_viable (phrase : Part.payloadType.Phrase ms) (place : Nat) :
    Viable PayloadShape.Spelled place ms := by
  obtain ⟨_, _, spelled⟩ := phrase
  obtain ⟨_, moved⟩ := spelled.moved place
  exact viable_of_spelled moved

theorem session_viable (phrase : Part.sessionType.Phrase ms) (place : Nat) :
    Viable SessionShape.Spelled place ms := by
  obtain ⟨_, _, spelled⟩ := phrase
  obtain ⟨_, moved⟩ := spelled.moved place
  exact viable_of_spelled moved

theorem branch_viable_phrase (phrase : Part.branch.Phrase ms) (place : Nat) :
    Viable (BranchShape.Spelled SessionShape.Spelled) place ms := by
  obtain ⟨_, _, spelled⟩ := phrase
  obtain ⟨_, moved⟩ := BranchShape.Spelled.moved (spelled.imp fun _ next => next.moved) place
  exact viable_of_spelled moved

/-- Up to the place of the need, and on with any part that is wanted for it, some phrase goes. -/
def Advises (spelled : Nat → σ → List Lexeme → Prop) (place : Nat) (front : List Lexeme)
    (need : Need) : Prop :=
  ∃ told more, front = told ++ more ∧ place + told.length = need.place (place + front.length) ∧
    ∀ part ∈ need.wanted, ∀ ms, part.Phrase ms → Viable spelled place (told ++ ms)

/-- Advice for what stands in a construct is advice for the construct. -/
theorem Advises.inside {spelled : Nat → σ → List Lexeme → Prop} {outer : Nat → τ → List Lexeme → Prop}
    (advises : Advises spelled there front need) (ahead : List Lexeme)
    (start : place + ahead.length = there)
    (goes : ∀ {ms}, Viable spelled there ms → Viable outer place (ahead ++ ms)) :
    Advises outer place (ahead ++ front) need := by
  obtain ⟨told, more, rfl, stands, advice⟩ := advises
  refine ⟨ahead ++ told, more, by simp, ?_, fun part member ms phrase => ?_⟩
  · rw [List.length_append, List.length_append, ← Nat.add_assoc, ← Nat.add_assoc, start, stands]
  · rw [List.append_assoc]
    exact goes (advice part member ms phrase)

/-- Every part that is wanted is a single lexeme, and is told where the phrase breaks off. -/
def Need.Single : Need → Prop
  | role | colon | branch _ | behind .. | dot | separator => True
  | session | block _ | opening .. | payload _ | bracket .. => False

theorem Need.Single.named {need : Need} (single : need.Single) : need.Named := by
  cases need <;> trivial

theorem Need.Single.takes {need : Need} (single : need.Single) (member : part ∈ need.wanted)
    (phrase : part.Phrase ms) : ∃ l, ms = [l] ∧ need.Takes l := by
  cases need with
  | session | block | opening | payload | bracket => cases single
  | role =>
    obtain rfl := List.mem_singleton.mp member
    obtain ⟨name, named, rfl⟩ := phrase
    exact ⟨_, rfl, .role named⟩
  | colon =>
    obtain rfl := List.mem_singleton.mp member
    exact ⟨_, phrase, .colon⟩
  | branch first =>
    rcases List.mem_cons.mp member with rfl | closing
    · obtain ⟨name, named, rfl⟩ := phrase
      exact ⟨_, rfl, .label named⟩
    · cases first with
      | false => cases closing
      | true =>
        obtain rfl := List.mem_singleton.mp closing
        exact ⟨_, phrase, .closeBlock⟩
  | behind seat bare =>
    cases seat with
    | branch =>
      obtain rfl := List.mem_singleton.mp member
      exact ⟨_, phrase, .closing⟩
    | tuple =>
      obtain rfl | rfl : part = .comma ∨ part = .closeParen := by
        simpa [wanted, Seat.wanted] using member
      · exact ⟨_, phrase, .comma⟩
      · exact ⟨_, phrase, .closing⟩
  | dot =>
    obtain rfl := List.mem_singleton.mp member
    exact ⟨_, phrase, .dot⟩
  | separator =>
    obtain rfl | rfl : part = .comma ∨ part = .closeBrace := by simpa [wanted] using member
    · exact ⟨_, phrase, .another⟩
    · exact ⟨_, phrase, .closeBrace⟩

section

variable {spelled : Nat → σ → List Lexeme → Prop}

theorem Advises.of_takes (single : need.Single)
    (goes : ∀ {l}, need.Takes l → Viable spelled place (front ++ [l])) :
    Advises spelled place front need := by
  refine ⟨front, [], by simp, (single.named.place_eq _).symm, fun part member ms phrase => ?_⟩
  obtain ⟨l, rfl, takes⟩ := single.takes member phrase
  exact goes takes

/-- Where something may come first in a construct, or the construct may be closed at once. -/
theorem Advises.of_first {item : Part} {closing : Char} (first : Bool)
    (wanted : need.wanted = item :: if first then [closer] else [])
    (stands : place = need.place (place + front.length))
    (closes : ∀ {ms}, closer.Phrase ms → ms = [.mark closing])
    (goes : ∀ {ms}, item.Phrase ms → Viable spelled place ms) :
    Advises (Closed spelled closing first) place front need := by
  refine ⟨[], front, rfl, stands, fun part member ms phrase => ?_⟩
  rw [wanted] at member
  rcases List.mem_cons.mp member with rfl | member
  · exact (goes phrase).closed _ _
  · cases first with
    | false => cases member
    | true =>
      obtain rfl := List.mem_singleton.mp member
      rw [closes phrase]
      exact viable_of_spelled .none

/-- Where a construct itself is asked for, at the place where it begins. -/
theorem Advises.of_start {item : Part} (wanted : need.wanted = [item])
    (stands : place = need.place (place + front.length))
    (goes : ∀ {ms}, item.Phrase ms → Viable spelled place ms) : Advises spelled place front need := by
  refine ⟨[], front, rfl, stands, fun part member ms phrase => ?_⟩
  rw [wanted] at member
  obtain rfl := List.mem_singleton.mp member
  exact goes phrase

/-- An open list is told before its bracket, where its name may as well be a payload. -/
theorem Advises.of_bracket (told : List Lexeme) (stands : place + told.length = opening)
    (goes : ∀ {l}, (Need.behind seat true).Takes l → Viable spelled place (told ++ [l])) :
    Advises spelled place (told ++ [.mark '[']) (.bracket opening seat) := by
  refine ⟨told, [.mark '['], rfl, stands, fun part member ms phrase => ?_⟩
  have single : (Need.behind seat true).Single := trivial
  obtain ⟨l, rfl, takes⟩ := single.takes member phrase
  exact goes takes

theorem Advises.closed_more (phrase : spelled place item ls)
    (advises : Advises (Closed spelled c false) (place + ls.length + 1) front need) (first : Bool) :
    Advises (Closed spelled c first) place (ls ++ .mark ',' :: front) need := by
  have start : place + (ls ++ [Lexeme.mark ',']).length = place + ls.length + 1 := by
    simp only [List.length_append, List.length_singleton, Nat.add_assoc]
  have goes {ms} (viable : Viable (Closed spelled c false) (place + ls.length + 1) ms) :
      Viable (Closed spelled c first) place (ls ++ [.mark ','] ++ ms) := by
    simpa using viable.closed_more phrase first
  have whole := advises.inside (ls ++ [.mark ',']) start goes
  rwa [List.append_assoc, List.singleton_append] at whole

end

theorem PayloadShape.SeriesBreaks.advises
    (breaks : PayloadShape.SeriesBreaks first place front need) :
    Advises (Closed PayloadShape.Spelled ')' first) place front need := by
  induction breaks with
  | start => exact .of_first _ rfl rfl id fun phrase => payload_viable phrase _
  | @list name _ place named =>
    exact .of_bracket [.word name] rfl (PayloadShape.SeriesBreaks.behind (.basic named)).viable
  | tuple _ ih => exact ih.inside [.mark '('] rfl fun viable => (tuple_viable viable).closed _ _
  | behind phrase => exact .of_takes trivial (PayloadShape.SeriesBreaks.behind phrase).viable
  | more phrase _ ih => exact ih.closed_more phrase _

theorem PayloadShape.Breaks.advises (breaks : PayloadShape.Breaks place front need) :
    Advises PayloadShape.Spelled place front need := by
  cases breaks with
  | start => exact .of_start rfl rfl fun phrase => payload_viable phrase place
  | tuple inner => exact inner.advises.inside [.mark '('] rfl tuple_viable

mutual

theorem SessionShape.Breaks.advises :
    SessionShape.Breaks place front need → Advises SessionShape.Spelled place front need
  | .start => .of_start rfl rfl fun phrase => session_viable phrase place
  | .role polarity => .of_takes trivial fun takes => (SessionShape.Breaks.role polarity).viable takes
  | .colon polarity named => .of_takes trivial fun takes =>
    SessionShape.Breaks.viable takes (.colon polarity named)
  | .block _ _ => .of_start rfl rfl fun phrase => session_viable phrase place
  | .inside polarity named inner =>
    inner.advises.inside [.mark polarity.sign, .word _, .mark ':', .mark '\x7b'] rfl
      (choice_viable polarity named)

theorem BranchShape.SeriesBreaks.advises :
    BranchShape.SeriesBreaks first place front need →
      Advises (Closed (BranchShape.Spelled SessionShape.Spelled) '\x7d' first) place front need
  | .start => .of_takes trivial fun takes => BranchShape.SeriesBreaks.viable takes .start
  | .opening _ => .of_first first rfl rfl id fun phrase => branch_viable_phrase phrase place
  | .payload named inner =>
    inner.advises.inside [.word _, .mark '('] rfl fun viable =>
      (branch_viable_payload named viable).closed _ _
  | .list named stands =>
    .of_bracket [.word _, .mark '(', .word _] rfl fun takes =>
      BranchShape.SeriesBreaks.viable takes (.closing named (.basic stands))
  | .closing named phrase =>
    .of_takes trivial fun takes => BranchShape.SeriesBreaks.viable takes (.closing named phrase)
  | .dot named phrase =>
    .of_takes trivial fun takes => BranchShape.SeriesBreaks.viable takes (.dot named phrase)
  | @BranchShape.SeriesBreaks.continuation name _ _ ls _ _ _ named phrase inner => by
    have start : place + (.word name :: .mark '(' :: ls ++ [Lexeme.mark ')', .mark '.']).length =
        place + 2 + ls.length + 2 := by
      simp only [List.length_append, List.length_cons, List.length_nil]
      omega
    have advises := inner.advises.inside (.word name :: .mark '(' :: ls ++ [.mark ')', .mark '.'])
      start fun viable => by simpa using (branch_viable named phrase viable).closed '\x7d' first
    simpa using advises
  | .behind phrase =>
    .of_takes trivial fun takes => BranchShape.SeriesBreaks.viable takes (.behind phrase)
  | .more phrase inner => (BranchShape.SeriesBreaks.advises inner).closed_more phrase first

end

theorem Need.wanted_distinct (need : Need) : (need.wanted.map Part.describe).Nodup := by
  have all : (Part.all.map Part.describe).Nodup := by decide
  rw [← need.sorted_wanted]
  exact all.sublist (List.filter_sublist.map _)

theorem LexemeReader.Needs.soundAdvice {reader : LexemeReader σ α} (needs : reader.Needs spelled breaks)
    (advises : ∀ {front need}, breaks 0 front need → Advises spelled 0 front need)
    (follows : reader.Follows spelled offends)
    (refused : ∀ {shape fault}, offends shape fault → fault.verdict = .refused) {text : String}
    (told : reader.parse ⟨limit⟩ text = .error error)
    (cause : error.cause = .unexpected wanted found) :
    SoundAdvice spelled text.toList error.span.offset wanted := by
  have verdict : Verdict.ofResult (reader.parse ⟨limit⟩ text) = .unexpected := by
    rw [told, Verdict.ofResult, cause, Cause.verdict]
  obtain ⟨ls, spaced, nested, no⟩ := (follows.verdict_iff refused limit text _).mp verdict
  obtain ⟨front, rest, rfl, stalls, ⟨need, off⟩, claimed⟩ := needs.refuses spaced nested no
  obtain ⟨same, again, tells⟩ := claimed need off
  obtain rfl : error = same := Except.error.inj (told.symm.trans again)
  obtain ⟨rfl, _⟩ : wanted = need.wanted ∧ _ := by simpa using cause.symm.trans tells.cause
  obtain ⟨ahead, more, rfl, here, advice⟩ := advises off
  obtain ⟨before, after, place, stands⟩ := tells.stands
  rw [Nat.zero_add, Nat.zero_add] at here
  have front := place.front
  rw [← here, List.append_assoc, List.take_left] at front
  refine ⟨need.wanted_ne_nil, need.wanted_distinct, before, after, ahead, place.split, stands, front,
    stalls.viable.beginning, fun part member phrase ms spaced stands => ?_⟩
  have apart : ¬WordGoesOn before (' ' :: phrase) := not_wordGoesOn_cons (by decide) before phrase
  exact ⟨ahead ++ ms, front.append (.blank ' ' (by decide) spaced) apart,
    advice part member ms stands⟩

/-- What an error asks for can be written where it asks for it: before that place the text begins
some phrase, and goes on to one with a blank and any of the wanted parts. -/
theorem wanted_parts_go_on (text : String) (limit : Nat) :
    (∀ error wanted found, Session.parseWith ⟨limit⟩ text = .error error →
      error.cause = .unexpected wanted found →
      SoundAdvice SessionShape.Spelled text.toList error.span.offset wanted) ∧
    (∀ error wanted found, Payload.parseWith ⟨limit⟩ text = .error error →
      error.cause = .unexpected wanted found →
      SoundAdvice PayloadShape.Spelled text.toList error.span.offset wanted) := by
  rw [Session.parseWith_eq, Payload.parseWith_eq]
  constructor
  · intro error wanted found
    exact LexemeReader.session_needs.soundAdvice SessionShape.Breaks.advises LexemeReader.session_follows
      SessionShape.Offends.verdict
  · intro error wanted found
    exact LexemeReader.payload_needs.soundAdvice PayloadShape.Breaks.advises LexemeReader.payload_follows
      PayloadShape.Offends.verdict

theorem wanted_parts_go_on_before :
    (∃ error, Session.parseWith ⟨4⟩ "&a:x" = .error error ∧
      SoundAdvice SessionShape.Spelled "&a:x".toList error.span.offset [.sessionType]) ∧
    (∃ error, Payload.parseWith ⟨4⟩ "(x[" = .error error ∧
      SoundAdvice PayloadShape.Spelled "(x[".toList error.span.offset [.comma, .closeParen]) := by
  constructor
  · obtain ⟨error, told, cause⟩ : ∃ error, Session.parseWith ⟨4⟩ "&a:x" = .error error ∧
        error.cause = .unexpected [.sessionType] (some '&') := ⟨_, rfl, rfl⟩
    exact ⟨error, told, (wanted_parts_go_on "&a:x" 4).1 _ _ _ told cause⟩
  · obtain ⟨error, told, cause⟩ : ∃ error, Payload.parseWith ⟨4⟩ "(x[" = .error error ∧
        error.cause = .unexpected [.comma, .closeParen] (some '[') := ⟨_, rfl, rfl⟩
    exact ⟨error, told, (wanted_parts_go_on "(x[" 4).2 _ _ _ told cause⟩

end SessionSyntax
