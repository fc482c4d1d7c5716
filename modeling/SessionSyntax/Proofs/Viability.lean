import SessionSyntax.Grammar

/-! Phrases break off just where they can go on. What begins a phrase and does not complete it
breaks off with some need, and behind a phrase that breaks off everything that its need takes goes
on to a phrase. So the need tells which lexemes are possible next. -/
namespace SessionSyntax

theorem prefix_append_cons (begins : front <+: ls ++ l :: ms) :
    front <+: ls ∨ ∃ inner, inner <+: ms ∧ front = ls ++ l :: inner := by
  obtain ⟨more, same⟩ := begins
  rcases List.append_eq_append_iff.mp same with ⟨short, rfl, _⟩ | ⟨long, rfl, behind⟩
  · exact .inl ⟨short, rfl⟩
  · rcases List.cons_eq_append_iff.mp behind with ⟨rfl, _⟩ | ⟨inner, rfl, rfl⟩
    · exact .inl ⟨[], by simp⟩
    · exact .inr ⟨inner, ⟨more, rfl⟩, rfl⟩

/-- What begins a series breaks off if what begins a member does. -/
theorem Series.breaks {stands : Nat → α → List Lexeme → Prop}
    {breaks : Bool → Nat → List Lexeme → Prop}
    (behind : ∀ {first place item ls}, stands place item ls → breaks first place ls)
    (more : ∀ {first place item ls ms}, stands place item ls →
      breaks false (place + ls.length + 1) ms → breaks first place (ls ++ .mark ',' :: ms))
    (series : Series (fun place item ls => stands place item ls ∧
      ∀ first front, front <+: ls → front ≠ ls → breaks first place front) place items ls)
    (first : Bool) (begins : front <+: ls) : breaks first place front := by
  induction series generalizing first front with
  | @one place item ls one =>
    by_cases whole : front = ls
    · exact whole ▸ behind one.1
    · exact one.2 first front begins whole
  | @more place item ls rest ms one _ ih =>
    rcases prefix_append_cons begins with short | ⟨inner, inside, rfl⟩
    · by_cases whole : front = ls
      · exact whole ▸ behind one.1
      · exact one.2 first front short whole
    · exact more one.1 (ih false inside)

/-- A payload that breaks off as a member of a tuple. -/
theorem PayloadShape.Breaks.member (breaks : PayloadShape.Breaks place front need) (first : Bool) :
    ∃ need, PayloadShape.SeriesBreaks first place front need := by
  cases breaks with
  | start => exact ⟨_, .start⟩
  | tuple inner => exact ⟨_, .tuple inner⟩

/-- What begins a payload is a payload that breaks off, or the name of a list, maybe with its opening
bracket. -/
theorem PayloadShape.Spelled.breaks (spelled : PayloadShape.Spelled place shape ls)
    (begins : front <+: ls) (short : front ≠ ls) :
    (∃ need, PayloadShape.Breaks place front need) ∨
      ∃ name, isIdentifier name ∧ (front = [.word name] ∨ front = [.word name, .mark '[']) := by
  induction spelled generalizing front with
  | basic named =>
    rcases List.prefix_cons_iff.mp begins with rfl | ⟨inner, rfl, inside⟩
    · exact .inl ⟨_, .start⟩
    · simp_all
  | @list name place named =>
    rcases List.prefix_cons_iff.mp begins with rfl | ⟨front, rfl, behind⟩
    · exact .inl ⟨_, .start⟩
    rcases List.prefix_cons_iff.mp behind with rfl | ⟨front, rfl, inside⟩
    · exact .inr ⟨name, named, .inl rfl⟩
    rcases List.prefix_cons_iff.mp inside with rfl | ⟨front, rfl, last⟩
    · exact .inr ⟨name, named, .inr rfl⟩
    · simp_all
  | empty =>
    rcases List.prefix_cons_iff.mp begins with rfl | ⟨front, rfl, inside⟩
    · exact .inl ⟨_, .start⟩
    rcases List.prefix_cons_iff.mp inside with rfl | ⟨front, rfl, last⟩
    · exact .inl ⟨_, .tuple .start⟩
    · simp_all
  | @tuple place elements ls series assumed =>
    rcases List.prefix_cons_iff.mp begins with rfl | ⟨inner, rfl, inside⟩
    · exact .inl ⟨_, .start⟩
    rcases List.prefix_concat_iff.mp inside with rfl | inside
    · exact absurd rfl short
    have members : Series (fun place element ls => PayloadShape.Spelled place element ls ∧
        ∀ first front, front <+: ls → front ≠ ls →
          ∃ need, PayloadShape.SeriesBreaks first place front need) (place + 1) elements ls := by
      refine assumed.imp fun _ ⟨spelled, holds⟩ => ⟨spelled, fun first front begins short => ?_⟩
      rcases holds begins short with ⟨need, breaks⟩ | ⟨name, named, rfl | rfl⟩
      · exact breaks.member first
      · exact ⟨_, .behind (.basic named)⟩
      · exact ⟨_, .list named⟩
    obtain ⟨need, breaks⟩ := Series.breaks (fun spelled => ⟨_, .behind spelled⟩)
      (fun spelled ⟨_, more⟩ => ⟨_, .more spelled more⟩) members true inside
    exact .inl ⟨need, .tuple breaks⟩

/-- What begins a branch breaks off, if what begins its continuation does. The names of lists, which
are no payloads that break off, do so for the branch. -/
theorem BranchShape.Spelled.breaks
    (spelled : BranchShape.Spelled (fun place session ls => SessionShape.Spelled place session ls ∧
      ∀ front, front <+: ls → front ≠ ls → ∃ need, SessionShape.Breaks place front need)
      place branch ls)
    (first : Bool) (begins : front <+: ls) (short : front ≠ ls) :
    ∃ need, BranchShape.SeriesBreaks first place front need := by
  cases spelled with
  | @mk name _ carried ls next ms named phrase continues =>
    rw [List.cons_append, List.cons_append] at begins
    rcases List.prefix_cons_iff.mp begins with rfl | ⟨front, rfl, behind⟩
    · exact ⟨_, .start⟩
    rcases List.prefix_cons_iff.mp behind with rfl | ⟨front, rfl, inside⟩
    · exact ⟨_, .opening named⟩
    rcases prefix_append_cons inside with within | ⟨front, closed, rfl⟩
    · by_cases whole : front = ls
      · exact ⟨_, .closing named (whole ▸ phrase)⟩
      rcases phrase.breaks within whole with ⟨need, breaks⟩ | ⟨kind, stands, rfl | rfl⟩
      · exact ⟨_, .payload named breaks⟩
      · exact ⟨_, .closing named (.basic stands)⟩
      · exact ⟨_, .list named stands⟩
    rcases List.prefix_cons_iff.mp closed with rfl | ⟨front, rfl, next⟩
    · exact ⟨_, .dot named phrase⟩
    have partly : front ≠ ms := by
      rintro rfl
      exact short (by simp)
    obtain ⟨need, breaks⟩ := continues.2 front next partly
    exact ⟨_, .continuation named phrase breaks⟩

/-- What begins a choice breaks off, if what begins its branches does. -/
theorem choice_breaks (polarity : Polarity) (named : isIdentifier role)
    (begins : front <+: .mark polarity.sign :: .word role :: .mark ':' :: .mark '\x7b' :: ls)
    (inside : ∀ inner, inner <+: ls → front = .mark polarity.sign :: .word role :: .mark ':' ::
      .mark '\x7b' :: inner → ∃ need, BranchShape.SeriesBreaks true (place + 4) inner need) :
    ∃ need, SessionShape.Breaks place front need := by
  rcases List.prefix_cons_iff.mp begins with rfl | ⟨front, rfl, signed⟩
  · exact ⟨_, .start⟩
  rcases List.prefix_cons_iff.mp signed with rfl | ⟨front, rfl, addressed⟩
  · exact ⟨_, .role polarity⟩
  rcases List.prefix_cons_iff.mp addressed with rfl | ⟨front, rfl, divided⟩
  · exact ⟨_, .colon polarity named⟩
  rcases List.prefix_cons_iff.mp divided with rfl | ⟨front, rfl, opened⟩
  · exact ⟨_, .block polarity named⟩
  obtain ⟨need, breaks⟩ := inside front opened rfl
  exact ⟨need, .inside polarity named breaks⟩

theorem SessionShape.Spelled.breaks (spelled : SessionShape.Spelled place shape ls)
    (begins : front <+: ls) (short : front ≠ ls) : ∃ need, SessionShape.Breaks place front need := by
  induction spelled generalizing front with
  | done | handler =>
    rcases List.prefix_cons_iff.mp begins with rfl | ⟨front, rfl, last⟩
    · exact ⟨_, .start⟩
    · simp_all
  | empty polarity named =>
    refine choice_breaks polarity named begins fun inner inside same => ?_
    rcases List.prefix_cons_iff.mp inside with rfl | ⟨inner, rfl, last⟩
    · exact ⟨_, .start⟩
    · simp_all
  | @choice role place branches ls polarity named series assumed =>
    refine choice_breaks polarity named begins fun inner inside same => ?_
    rcases List.prefix_concat_iff.mp inside with rfl | inside
    · exact absurd same short
    have members : Series (fun place branch ls =>
        BranchShape.Spelled SessionShape.Spelled place branch ls ∧
          ∀ first front, front <+: ls → front ≠ ls →
            ∃ need, BranchShape.SeriesBreaks first place front need) (place + 4) branches ls := by
      refine assumed.imp fun _ spelled => ⟨spelled.imp fun _ next => next.1, fun first front => ?_⟩
      exact (spelled.imp fun _ ⟨next, holds⟩ => ⟨next, fun _ => holds⟩).breaks first
    exact Series.breaks (fun spelled => ⟨_, .behind spelled⟩)
      (fun spelled ⟨_, more⟩ => ⟨_, .more spelled more⟩) members true inside

theorem viable_of_spelled {spelled : Nat → σ → List Lexeme → Prop}
    (phrase : spelled place shape ls) : Viable spelled place ls :=
  ⟨shape, [], by simpa using phrase⟩

theorem Viable.beginning {spelled : Nat → σ → List Lexeme → Prop}
    (viable : Viable spelled place (begins ++ more)) : Viable spelled place begins := by
  obtain ⟨shape, last, phrase⟩ := viable
  exact ⟨shape, more ++ last, by simpa using phrase⟩

/-- The members of a block or a tuple with what closes it; there may be none behind what opened it. -/
inductive Closed (stands : Nat → α → List Lexeme → Prop) (c : Char) :
    Bool → Nat → List α → List Lexeme → Prop where
  | none : Closed stands c true place [] [.mark c]
  | series : Series stands place items ls → Closed stands c first place items (ls ++ [.mark c])

section

variable {stands : Nat → α → List Lexeme → Prop}

theorem Viable.closed (viable : Viable stands place front) (c : Char) (first : Bool) :
    Viable (Closed stands c first) place front := by
  obtain ⟨item, more, stand⟩ := viable
  exact ⟨[item], more ++ [.mark c], by simpa using Closed.series (.one stand)⟩

theorem viable_closing (stand : stands place item ls) (c : Char) (first : Bool) :
    Viable (Closed stands c first) place (ls ++ [.mark c]) :=
  ⟨[item], [], by simpa using Closed.series (.one stand)⟩

theorem Viable.closed_more (stand : stands place item ls)
    (viable : Viable (Closed stands c false) (place + ls.length + 1) front) (first : Bool) :
    Viable (Closed stands c first) place (ls ++ .mark ',' :: front) := by
  obtain ⟨items, more, closed⟩ := viable
  generalize same : front ++ more = ms at closed
  cases closed with
  | series series =>
    refine ⟨item :: items, more, ?_⟩
    rw [List.append_assoc, List.cons_append, same]
    simpa using Closed.series (.more stand series)

end

theorem payload_viable_nil (place : Nat) : Viable PayloadShape.Spelled place [] := ⟨_, _, .empty⟩

theorem tuple_viable (viable : Viable (Closed PayloadShape.Spelled ')' true) (place + 1) front) :
    Viable PayloadShape.Spelled place (.mark '(' :: front) := by
  obtain ⟨elements, more, closed⟩ := viable
  generalize same : front ++ more = ls at closed
  cases closed with
  | none => exact ⟨_, more, by simpa [same] using PayloadShape.Spelled.empty⟩
  | series series => exact ⟨_, more, by simpa [same] using PayloadShape.Spelled.tuple series⟩

/-- A bare name goes on as the name of a list. -/
theorem PayloadShape.Spelled.viable_bracket (spelled : PayloadShape.Spelled place shape ls)
    (bare : shape.isBare) : Viable PayloadShape.Spelled place (ls ++ [.mark '[']) := by
  cases spelled with
  | basic named => exact ⟨_, [.mark ']'], .list named⟩
  | list | empty | tuple => simp [PayloadShape.isBare] at bare

theorem PayloadShape.SeriesBreaks.viable
    (breaks : PayloadShape.SeriesBreaks first place front need) (takes : need.Takes l) :
    Viable (Closed PayloadShape.Spelled ')' first) place (front ++ [l]) := by
  induction breaks with
  | start =>
    cases takes with
    | name named => exact (viable_of_spelled (.basic named)).closed _ _
    | tuple => exact (tuple_viable (viable_of_spelled .none).beginning).closed _ _
    | closeTuple => exact viable_of_spelled .none
  | list named =>
    cases takes
    exact (viable_of_spelled (.list named)).closed _ _
  | tuple _ ih => exact (tuple_viable (ih takes)).closed _ _
  | @behind place element front first phrase =>
    generalize named : element.isBare = bare at takes
    cases takes with
    | list => exact (phrase.viable_bracket named).closed _ _
    | comma => exact ((payload_viable_nil _).closed _ _).closed_more phrase first
    | closing => exact viable_closing phrase _ _
  | more phrase _ ih => simpa using (ih takes).closed_more phrase _

theorem PayloadShape.Breaks.viable (breaks : PayloadShape.Breaks place front need)
    (takes : need.Takes l) : Viable PayloadShape.Spelled place (front ++ [l]) := by
  cases breaks with
  | start =>
    cases takes with
    | name named => exact viable_of_spelled (.basic named)
    | tuple => exact (tuple_viable (viable_of_spelled .none).beginning)
  | tuple inner => exact tuple_viable (inner.viable takes)

theorem session_viable_nil (place : Nat) : Viable SessionShape.Spelled place [] := ⟨_, _, .done⟩

/-- Any session completes a branch. -/
theorem branch_viable (named : isIdentifier name)
    (phrase : PayloadShape.Spelled (place + 2) carried ls)
    (viable : Viable SessionShape.Spelled (place + 2 + ls.length + 2) front) :
    Viable (BranchShape.Spelled SessionShape.Spelled) place
      (.word name :: .mark '(' :: ls ++ .mark ')' :: .mark '.' :: front) := by
  obtain ⟨next, more, continues⟩ := viable
  exact ⟨_, more, by simpa using BranchShape.Spelled.mk named phrase continues⟩

theorem branch_viable_payload (named : isIdentifier name)
    (viable : Viable PayloadShape.Spelled (place + 2) front) :
    Viable (BranchShape.Spelled SessionShape.Spelled) place (.word name :: .mark '(' :: front) := by
  obtain ⟨carried, more, phrase⟩ := viable
  have whole : Viable (BranchShape.Spelled SessionShape.Spelled) place
      ((.word name :: .mark '(' :: front) ++ (more ++ [.mark ')', .mark '.'])) := by
    simpa using branch_viable named phrase (session_viable_nil _)
  exact whole.beginning

theorem branch_viable_closing (named : isIdentifier name)
    (phrase : PayloadShape.Spelled (place + 2) carried ls) :
    Viable (BranchShape.Spelled SessionShape.Spelled) place
      (.word name :: .mark '(' :: ls ++ [.mark ')']) := by
  have whole : Viable (BranchShape.Spelled SessionShape.Spelled) place
      ((.word name :: .mark '(' :: ls ++ [.mark ')']) ++ [.mark '.']) := by
    simpa using branch_viable named phrase (session_viable_nil _)
  exact whole.beginning

theorem branch_viable_label (named : isIdentifier name) (place : Nat) :
    Viable (BranchShape.Spelled SessionShape.Spelled) place [.word name] :=
  (branch_viable_payload named (payload_viable_nil _)).beginning

theorem branch_viable_nil (place : Nat) :
    Viable (BranchShape.Spelled SessionShape.Spelled) place [] := by
  exact (branch_viable_label Session.isIdentifier_endWord place).beginning

theorem choice_viable (polarity : Polarity) (named : isIdentifier role)
    (viable : Viable (Closed (BranchShape.Spelled SessionShape.Spelled) '\x7d' true) (place + 4)
      front) :
    Viable SessionShape.Spelled place
      (.mark polarity.sign :: .word role :: .mark ':' :: .mark '\x7b' :: front) := by
  obtain ⟨branches, more, closed⟩ := viable
  generalize same : front ++ more = ls at closed
  cases closed with
  | none => exact ⟨_, more, by simpa [same] using SessionShape.Spelled.empty polarity named⟩
  | series series =>
    exact ⟨_, more, by simpa [same] using SessionShape.Spelled.choice polarity named series⟩

/-- A choice with an empty block, which what begins it may go on to. -/
theorem choice_viable_empty (polarity : Polarity) (named : isIdentifier role) (place : Nat) :
    Viable SessionShape.Spelled place
      [.mark polarity.sign, .word role, .mark ':', .mark '\x7b', .mark '\x7d'] :=
  choice_viable polarity named (viable_of_spelled .none)

theorem leaf_viable (named : isIdentifier name) (place : Nat) :
    Viable SessionShape.Spelled place [.word name] := by
  by_cases done : name = Session.endWord.toList
  · exact done ▸ viable_of_spelled .done
  · exact viable_of_spelled (.handler named done)

mutual

theorem SessionShape.Breaks.viable (takes : need.Takes l) :
    SessionShape.Breaks place front need → Viable SessionShape.Spelled place (front ++ [l])
  | .start => by
    cases takes with
    | choice polarity =>
      exact (choice_viable_empty polarity Session.isIdentifier_endWord place).beginning
    | leaf named => exact leaf_viable named place
  | .role polarity => by
    cases takes with
    | role named => exact (choice_viable_empty polarity named place).beginning
  | .colon polarity named => by
    cases takes with
    | colon => exact (choice_viable_empty polarity named place).beginning
  | .block polarity named => by
    cases takes with
    | block => exact (choice_viable_empty polarity named place).beginning
  | .inside polarity named inner =>
    choice_viable polarity named (BranchShape.SeriesBreaks.viable takes inner)

theorem BranchShape.SeriesBreaks.viable (takes : need.Takes l) :
    BranchShape.SeriesBreaks first place front need →
      Viable (Closed (BranchShape.Spelled SessionShape.Spelled) '\x7d' first) place (front ++ [l])
  | .start => by
    cases takes with
    | label named => exact (branch_viable_label named place).closed _ _
    | closeBlock => exact viable_of_spelled .none
  | .opening named => by
    cases takes with
    | opening => exact (branch_viable_payload named (payload_viable_nil _)).closed _ _
  | .payload named inner => (branch_viable_payload named (inner.viable takes)).closed _ _
  | .list named stands => by
    cases takes with
    | bracket => exact (branch_viable_payload named (viable_of_spelled (.list stands))).closed _ _
  | @BranchShape.SeriesBreaks.closing name _ carried ls _ named phrase => by
    generalize bared : carried.isBare = bare at takes
    cases takes with
    | list => exact (branch_viable_payload named (phrase.viable_bracket bared)).closed _ _
    | closing => exact (branch_viable_closing named phrase).closed _ _
  | .dot named phrase => by
    cases takes with
    | dot =>
      have viable := branch_viable named phrase (session_viable_nil _)
      simpa using viable.closed _ _
  | .continuation named phrase inner => by
    have viable := branch_viable named phrase (SessionShape.Breaks.viable takes inner)
    simpa using viable.closed _ _
  | .behind phrase => by
    cases takes with
    | another => exact ((branch_viable_nil _).closed _ _).closed_more phrase _
    | closeBrace => exact viable_closing phrase _ _
  | .more phrase inner => by
    simpa using (BranchShape.SeriesBreaks.viable takes inner).closed_more phrase _

end

end SessionSyntax
