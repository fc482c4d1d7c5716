import SessionSyntax.Proofs.Verdicts

/-! Building comes first to what offends furthest to the left. It goes through a phrase from left to
right, the payload of a branch before its continuation, and stops at the first fault. So two facts
are carried through the phrases: what offends in a part of a phrase stands within that part, and the
fault that building a part comes to stands before all else that offends there. -/
namespace SessionSyntax

/-- The fault is told within the lexemes from the place on. -/
def Fault.Within (place : Nat) (ls : List Lexeme) (fault : Fault) : Prop :=
  place ≤ fault.index ∧ fault.index < place + ls.length

theorem Fault.Within.of_holds (holds : Holds ls ahead part)
    (within : Within (place + ahead) part fault) : Within place ls fault :=
  holds.bounds within

theorem PayloadShape.Offends.within {shape : PayloadShape} (offends : shape.Offends fault)
    (spelled : PayloadShape.Spelled place shape ls) : fault.Within place ls := by
  induction offends generalizing place ls with
  | basic | list =>
    cases spelled
    simp [Fault.Within, Fault.index]
  | empty =>
    cases spelled <;> simp [Fault.Within, Fault.index]
  | element member _ ih =>
    cases spelled with
    | empty => cases member
    | @tuple _ _ ls series =>
      obtain ⟨inner, part, holds, stand⟩ := series.exists_of_mem member
      have elements : Holds (.mark '(' :: ls ++ [.mark ')']) 1 ls :=
        ⟨[.mark '('], [.mark ')'], by simp, rfl⟩
      exact .of_holds elements (.of_holds holds (ih stand))

theorem SessionShape.Offends.within {shape : SessionShape} (offends : shape.Offends fault)
    (spelled : SessionShape.Spelled place shape ls) : fault.Within place ls := by
  induction offends generalizing place ls with
  | empty => cases spelled <;> simp [Fault.Within, Fault.index]
  | payload member offends =>
    obtain ⟨inner, part, holds, branch⟩ := spelled.exists_branch member
    obtain ⟨carried, within, phrase⟩ := branch.holds.1
    exact .of_holds holds (.of_holds within (offends.within phrase))
  | continuation member _ ih =>
    obtain ⟨inner, part, holds, phrase⟩ := spelled.exists_continuation member
    exact .of_holds holds (ih phrase)

/-- The fault is among those that offend, and every other one stands behind it. -/
def Leftmost (offends : Fault → Prop) (fault : Fault) : Prop :=
  offends fault ∧ ∀ other, offends other → other = fault ∨ fault.index < other.index

/-- A fault among several stays the leftmost one if what else offends stands behind all of them. -/
theorem Leftmost.of_behind (leftmost : Leftmost part fault)
    (among : ∀ {other}, part other → offends other)
    (behind : ∀ {other}, offends other → part other ∨ fault.index < other.index) :
    Leftmost offends fault := by
  refine ⟨among leftmost.1, fun other offence => ?_⟩
  rcases behind offence with offence | later
  · exact leftmost.2 other offence
  · exact .inr later

/-- Of the members built one after the other, the first that is refused has the leftmost fault. -/
theorem Series.leftmost {stands : Nat → α → List Lexeme → Prop} {f : α → Except Fault β}
    {offends : α → Fault → Prop} (series : Series stands place items ls)
    (within : ∀ {place item part fault}, stands place item part → offends item fault →
      fault.Within place part)
    (first : ∀ {place item part fault}, stands place item part → f item = .error fault →
      Leftmost (offends item) fault)
    (clean : ∀ {item fault b}, offends item fault → f item ≠ .ok b)
    (refused : items.mapM f = .error fault) :
    Leftmost (fun fault => ∃ item ∈ items, offends item fault) fault := by
  induction series with
  | one stand =>
    rcases mapM_cons_eq_error_iff.mp refused with refused | ⟨_, _, more⟩
    · refine (first stand refused).of_behind (fun offence => ⟨_, by simp, offence⟩) ?_
      rintro other ⟨_, member, offence⟩
      obtain rfl := List.mem_singleton.mp member
      exact .inl offence
    · cases more
  | @more place item ls rest ms stand series ih =>
    rcases mapM_cons_eq_error_iff.mp refused with refused | ⟨b, built, refused⟩
    · have leftmost := first stand refused
      refine leftmost.of_behind (fun offence => ⟨item, by simp, offence⟩) ?_
      rintro other ⟨last, member, offence⟩
      rcases List.mem_cons.mp member with rfl | member
      · exact .inl offence
      -- What offends in a member further on stands behind the whole of this one.
      obtain ⟨inner, part, holds, placed⟩ := series.exists_of_mem member
      obtain ⟨_, stop⟩ := within stand leftmost.1
      obtain ⟨start, _⟩ := Fault.Within.of_holds holds (within placed offence)
      exact .inr (by omega)
    · refine (ih refused).of_behind
        (fun ⟨last, member, offence⟩ => ⟨last, by simp [member], offence⟩) ?_
      rintro other ⟨last, member, offence⟩
      rcases List.mem_cons.mp member with rfl | member
      · exact absurd built (clean offence)
      · exact .inl ⟨last, member, offence⟩

theorem PayloadShape.Spelled.leftmost (spelled : PayloadShape.Spelled place shape ls)
    (refused : shape.build = .error fault) : Leftmost shape.Offends fault := by
  have offence := PayloadShape.offends_of_build refused
  induction spelled generalizing fault with
  | basic | list =>
    refine ⟨offence, fun other another => .inl ?_⟩
    cases offence
    cases another
    rfl
  | empty =>
    refine ⟨offence, fun other another => .inl ?_⟩
    rcases offence with _ | _ | _ | member
    · rcases another with _ | _ | _ | member
      · rfl
      · cases member
    · cases member
  | @tuple place elements ls series assumed =>
    rw [PayloadShape.build_tuple] at refused
    rcases gather_eq_error_iff.mp refused with refused | ⟨rfl, _⟩
    · have leftmost := assumed.leftmost
        (fun ⟨spelled, _⟩ offence => PayloadShape.Offends.within offence spelled)
        (fun ⟨_, first⟩ refused => first refused (PayloadShape.offends_of_build refused))
        (fun offence => offence.not_built _) refused
      refine leftmost.of_behind (fun ⟨element, member, offence⟩ => .element member offence) ?_
      rintro other offence
      cases offence with
      | empty => cases series
      | element member offence => exact .inl ⟨_, member, offence⟩
    · cases series

/-- Something offends in the payload of a branch or in its continuation. -/
def BranchShape.Offends (branch : BranchShape) (fault : Fault) : Prop :=
  branch.payload.Offends fault ∨ branch.continuation.Offends fault

theorem BranchShape.Offends.within {branch : BranchShape} (offends : branch.Offends fault)
    (spelled : BranchShape.Spelled SessionShape.Spelled place branch ls) : fault.Within place ls := by
  obtain ⟨⟨carried, holds, payload⟩, behind, next, continues, session⟩ := spelled.holds
  rcases offends with offends | offends
  · exact .of_holds holds (offends.within payload)
  · exact .of_holds continues (offends.within session)

theorem BranchShape.Offends.not_built {shape : BranchShape} (offends : shape.Offends fault)
    (branch : Branch) : shape.build.result ≠ .ok branch := by
  intro built
  obtain ⟨_, carried, continued⟩ := BranchShape.result_build_eq_ok_iff.mp built
  rcases offends with offends | offends
  · exact offends.not_built _ carried
  · exact offends.not_built _ continued

/-- The payload of a branch is built, and stands, before its continuation. -/
theorem BranchShape.Spelled.leftmost
    (spelled : BranchShape.Spelled (fun place next ms => SessionShape.Spelled place next ms ∧
      ∀ {fault}, next.build.result = .error fault → Leftmost next.Offends fault) place branch ls)
    (refused : branch.build.result = .error fault) : Leftmost branch.Offends fault := by
  cases spelled with
  | mk named payload continues =>
    obtain ⟨session, first⟩ := continues
    rcases BranchShape.result_build_eq_error_iff.mp refused with refused | ⟨⟨carried, built⟩, refused⟩
    · have leftmost := payload.leftmost refused
      refine leftmost.of_behind .inl ?_
      rintro other (offence | offence)
      · exact .inl offence
      · obtain ⟨_, stop⟩ := leftmost.1.within payload
        obtain ⟨start, _⟩ := offence.within session
        exact .inr (by omega)
    · refine (first refused).of_behind .inr ?_
      rintro other (offence | offence)
      · exact absurd built (offence.not_built carried)
      · exact .inl offence

theorem SessionShape.Spelled.leftmost (spelled : SessionShape.Spelled place shape ls)
    (refused : shape.build.result = .error fault) : Leftmost shape.Offends fault := by
  have offence := SessionShape.offends_of_build refused
  induction spelled generalizing fault with
  | done | handler => cases offence
  | empty =>
    refine ⟨offence, fun other another => .inl ?_⟩
    rcases offence with _ | member | member
    · rcases another with _ | member | member
      · rfl
      · cases member
      · cases member
    · cases member
    · cases member
  | @choice role place branches ls polarity named series assumed =>
    rw [SessionShape.result_build_choice] at refused
    rcases gather_eq_error_iff.mp refused with refused | ⟨rfl, _⟩
    · have leftmost := assumed.leftmost
        (fun branch offence => BranchShape.Offends.within offence
          (branch.imp fun _ ⟨spelled, _⟩ => spelled))
        (fun branch refused => BranchShape.Spelled.leftmost (branch.imp fun _ ⟨spelled, first⟩ =>
          ⟨spelled, fun refused => first refused (SessionShape.offends_of_build refused)⟩) refused)
        (fun offence => offence.not_built _) refused
      refine leftmost.of_behind ?_ ?_
      · rintro other ⟨branch, member, offence | offence⟩
        · exact .payload member offence
        · exact .continuation member offence
      · rintro other offence
        cases offence with
        | empty => cases series
        | payload member offence => exact .inl ⟨_, member, .inl offence⟩
        | continuation member offence => exact .inl ⟨_, member, .inr offence⟩
    · cases series

theorem PayloadShape.Offends.toldAs {shape : PayloadShape} (offends : shape.Offends fault)
    (source : Source) : fault.ToldAs (source.locate fault).cause := by
  induction offends with
  | basic | list => exact .unknownType
  | empty => exact .emptyCollection
  | element _ _ ih => exact ih

theorem SessionShape.Offends.toldAs {shape : SessionShape} (offends : shape.Offends fault)
    (source : Source) : fault.ToldAs (source.locate fault).cause := by
  induction offends with
  | empty => exact .emptyCollection
  | payload _ offends => exact offends.toldAs source
  | continuation _ _ ih => exact ih

/-- Building goes through the phrases of a grammar from left to right. -/
structure LexemeReader.GoesThrough (reader : LexemeReader σ α) (spelled : Nat → σ → List Lexeme → Prop)
    (offends : σ → Fault → Prop) : Prop where
  within : ∀ {shape fault ls}, offends shape fault → spelled 0 shape ls → fault.Within 0 ls
  leftmost : ∀ {shape fault ls}, spelled 0 shape ls → (reader.build shape).result = .error fault →
    Leftmost (offends shape) fault
  toldAs : ∀ {shape fault}, offends shape fault → ∀ source : Source,
    fault.ToldAs (source.locate fault).cause

theorem LexemeReader.session_goesThrough :
    LexemeReader.session.GoesThrough SessionShape.Spelled SessionShape.Offends where
  within := SessionShape.Offends.within
  leftmost := SessionShape.Spelled.leftmost
  toldAs := SessionShape.Offends.toldAs

theorem LexemeReader.payload_goesThrough :
    LexemeReader.payload.GoesThrough PayloadShape.Spelled PayloadShape.Offends where
  within := PayloadShape.Offends.within
  leftmost := PayloadShape.Spelled.leftmost
  toldAs := PayloadShape.Offends.toldAs

theorem LexemeReader.GoesThrough.tellsLeftmost {reader : LexemeReader σ α}
    (goes : reader.GoesThrough spelled offends) (stands : OffencesStand spelled offends)
    {text : String} (spaced : Spaced text.toList (front ++ rest)) (phrase : spelled 0 matched front)
    (refused : (reader.build matched).result = .error fault) :
    TellsLeftmost (offends matched) text.toList (front ++ rest) fault
      ((Source.ofText text).locate fault) := by
  obtain ⟨among, first⟩ := goes.leftmost phrase refused
  have here := Source.standsAt_startOf spaced
  constructor
  · exact among
  · exact goes.toldAs among _
  · exact Source.locate_points spaced (stands among phrase ⟨[], rest, by simp, rfl⟩)
  · rw [Source.locate_offset]
    exact here fault.index
  · intro other offence
    refine (first other offence).imp_right fun behind => ⟨_, here other.index, ?_⟩
    rw [Source.locate_offset]
    have inside : fault.index < (front ++ rest).length := by
      obtain ⟨_, stop⟩ := goes.within among phrase
      rw [List.length_append]
      omega
    exact (here fault.index).lt (here other.index) spaced behind inside

theorem LexemeReader.Follows.tellsOffences {reader : LexemeReader σ α}
    (follows : reader.Follows spelled offends)
    (goes : reader.GoesThrough spelled offends) (stands : OffencesStand spelled offends)
    {text : String} (spaced : Spaced text.toList ls) (nested : Text.NestsWithin limit text.toList)
    (begun : ¬NoPhrase spelled ls) :
    LongestAs spelled ls fun shape _ => TellsOffences (offends shape) text.toList ls
      (reader.build shape).result (reader.parse ⟨limit⟩ text) := by
  obtain ⟨_, _, begins, phrase⟩ : ∃ shape front, front <+: ls ∧ spelled 0 shape front := by
    simpa [NoPhrase] using begun
  obtain ⟨shape, front, rest, rfl, longest⟩ := exists_longest begins phrase
  refine ⟨shape, front, rest, rfl, longest, ?_, ?_⟩
  · intro clean
    cases built : (reader.build shape).result with
    | ok a => exact ⟨a, rfl⟩
    | error fault => exact absurd (follows.refused built) (clean fault)
  · rintro ⟨fault, offence⟩
    cases built : (reader.build shape).result with
    | ok a => exact absurd built (follows.offended offence a)
    | error fault =>
      have read := follows.read_longest ((peak_le_iff spaced).mpr nested) longest
      rw [built, ← (spaced_iff text).mp spaced] at read
      exact ⟨fault, _, rfl, LexemeReader.parse_eq_error_iff.mpr ⟨fault, read, rfl⟩,
        goes.tellsLeftmost stands spaced longest.phrase built⟩

/-- Of all that offends in the longest phrase at the front of a text, the leftmost is told, whatever
follows it in the phrase and behind the phrase; a phrase in which nothing offends is built. -/
theorem leftmost_offence_told (text : String) (limit : Nat) (spaced : Spaced text.toList ls)
    (nested : Text.NestsWithin limit text.toList) :
    (¬NoPhrase SessionShape.Spelled ls → LongestAs SessionShape.Spelled ls fun shape _ =>
      TellsOffences shape.Offends text.toList ls shape.build.result
        (Session.parseWith ⟨limit⟩ text)) ∧
    (¬NoPhrase PayloadShape.Spelled ls → LongestAs PayloadShape.Spelled ls fun shape _ =>
      TellsOffences shape.Offends text.toList ls shape.build (Payload.parseWith ⟨limit⟩ text)) := by
  rw [Session.parseWith_eq, Payload.parseWith_eq]
  constructor
  · exact LexemeReader.session_follows.tellsOffences LexemeReader.session_goesThrough
      session_offencesStand spaced nested
  · exact LexemeReader.payload_follows.tellsOffences LexemeReader.payload_goesThrough
      payload_offencesStand spaced nested

theorem leftmost_offence_told_two :
    (∃ ls, Spaced "+a:\x7bb(x).&c:\x7b\x7d\x7d y".toList ls ∧
      LongestAs SessionShape.Spelled ls fun shape _ => TellsOffences shape.Offends
        "+a:\x7bb(x).&c:\x7b\x7d\x7d y".toList ls shape.build.result
        (Session.parseWith ⟨2⟩ "+a:\x7bb(x).&c:\x7b\x7d\x7d y")) ∧
    (∃ ls, Spaced "((), x)!".toList ls ∧
      LongestAs PayloadShape.Spelled ls fun shape _ => TellsOffences shape.Offends
        "((), x)!".toList ls shape.build (Payload.parseWith ⟨2⟩ "((), x)!")) := by
  constructor
  · have spaced : Spaced "+a:\x7bb(x).&c:\x7b\x7d\x7d y".toList _ := (spaced_iff _).mpr rfl
    refine ⟨_, spaced, (leftmost_offence_told _ 2 spaced (by decide)).1 fun no => ?_⟩
    exact no _ _ ⟨[.word ['y']], rfl⟩ (.choice .send (by decide) (.one (.mk (by decide)
      (.basic (by decide)) (.empty .receive (by decide)))))
  · have spaced : Spaced "((), x)!".toList _ := (spaced_iff _).mpr rfl
    refine ⟨_, spaced, (leftmost_offence_told _ 2 spaced (by decide)).2 fun no => ?_⟩
    exact no _ _ ⟨[.mark '!'], rfl⟩ (.tuple (.more .empty (.one (.basic (by decide)))))

end SessionSyntax
