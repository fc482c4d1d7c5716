import SessionSyntax.Proofs.Leftmost
import SessionSyntax.Proofs.Leftovers

/-! The log of reading tells what was built. Building goes through a phrase from left to right and
notes each handler and each choice when it is done with it; the fault at which it stops parts those
that it is done with from the others. In the text these are just the ones that end before the error. -/
namespace SessionSyntax

theorem Session.notesAmong_eq (branches : List Branch) :
    Session.notesAmong branches = branches.flatMap (·.continuation.notes) := by
  induction branches with
  | nil => rfl
  | cons branch rest ih =>
    obtain ⟨label, payload, next⟩ := branch
    rw [Session.notesAmong, List.flatMap_cons, ih]

theorem Session.notes_choice (polarity : Polarity) (role : Symbol) (branches : NonEmpty Branch) :
    (Session.choice polarity role branches).notes =
      branches.toList.flatMap (·.continuation.notes) ++ [.choice role branches.size] := by
  obtain ⟨⟨label, payload, next⟩, rest⟩ := branches
  rw [Session.notes, Session.notesAmong_eq]
  rfl

theorem BranchShape.occurrencesAmong_eq (branches : List BranchShape) :
    BranchShape.occurrencesAmong branches = branches.flatMap (·.continuation.occurrences) := by
  induction branches with
  | nil => rfl
  | cons branch rest ih =>
    obtain ⟨label, payload, next⟩ := branch
    rw [BranchShape.occurrencesAmong, List.flatMap_cons, ih]

theorem BranchShape.notes_build_of_ok {branch : BranchShape} {carried : Payload}
    (built : branch.payload.build = .ok carried) :
    branch.build.notes = branch.continuation.build.notes := by
  obtain ⟨label, payload, next⟩ := branch
  rw [BranchShape.build, Logged.notes_bind_of_ok built, Logged.notes_ofExcept, List.nil_append]
  exact Logged.notes_bind_silent _ fun _ => rfl

theorem BranchShape.notes_build_of_error {branch : BranchShape}
    (refused : branch.payload.build = .error fault) : branch.build.notes = [] := by
  obtain ⟨label, payload, next⟩ := branch
  rw [BranchShape.build, Logged.notes_bind_of_error refused, Logged.notes_ofExcept]

theorem BranchShape.notes_buildAll_of_ok {first : BranchShape} (built : first.build.result = .ok branch)
    (rest : List BranchShape) : (BranchShape.buildAll (first :: rest)).notes =
      first.build.notes ++ (BranchShape.buildAll rest).notes := by
  rw [BranchShape.buildAll, Logged.notes_bind_of_ok built]
  congr 1
  exact Logged.notes_bind_silent _ fun _ => rfl

theorem BranchShape.notes_buildAll_of_error {first : BranchShape}
    (refused : first.build.result = .error fault) (rest : List BranchShape) :
    (BranchShape.buildAll (first :: rest)).notes = first.build.notes := by
  rw [BranchShape.buildAll, Logged.notes_bind_of_error refused]

/-- What is said of the notes of the continuations holds of the notes of the branches. -/
theorem BranchShape.notes_buildAll {branches : List BranchShape} {built : List Branch}
    (all : List.Forall₂ (fun shape branch => shape.build.result = .ok branch) branches built)
    (each : ∀ shape ∈ branches, ∀ session, shape.continuation.build.result = .ok session →
      shape.continuation.build.notes = session.notes ∧
        shape.continuation.occurrences.map (·.note) = session.notes) :
    (BranchShape.buildAll branches).notes = built.flatMap (·.continuation.notes) ∧
      (BranchShape.occurrencesAmong branches).map (·.note) =
        built.flatMap (·.continuation.notes) := by
  induction all with
  | nil => exact ⟨rfl, rfl⟩
  | @cons shape branch shapes rest one _ ih =>
    obtain ⟨first, others⟩ := List.forall_mem_cons.mp each
    obtain ⟨_, carried, continued⟩ := BranchShape.result_build_eq_ok_iff.mp one
    obtain ⟨noted, occurring⟩ := first _ continued
    obtain ⟨notedMore, occurringMore⟩ := ih others
    constructor
    · rw [BranchShape.notes_buildAll_of_ok one, BranchShape.notes_build_of_ok carried, noted, notedMore,
        List.flatMap_cons]
    · rw [BranchShape.occurrencesAmong_eq] at occurringMore ⊢
      rw [List.flatMap_cons, List.map_append, occurring, occurringMore, List.flatMap_cons]

theorem SessionShape.notes_build_choice_of_ok {branches : List BranchShape} {built : NonEmpty Branch}
    (done : (BranchShape.buildAll branches).result = .ok built.toList) (polarity : Polarity)
    (sign : Nat) (role : Word) (closing : Nat) :
    (SessionShape.choice polarity sign role branches closing).build.notes =
      (BranchShape.buildAll branches).notes ++ [.choice role.symbol built.size] := by
  rw [SessionShape.build, Logged.notes_bind_of_ok done, NonEmpty.ofList?_toList]
  rfl

theorem SessionShape.notes_build_choice_of_error {branches : List BranchShape}
    (refused : (BranchShape.buildAll branches).result = .error fault) (polarity : Polarity)
    (sign : Nat) (role : Word) (closing : Nat) :
    (SessionShape.choice polarity sign role branches closing).build.notes =
      (BranchShape.buildAll branches).notes := by
  rw [SessionShape.build, Logged.notes_bind_of_error refused]

/-- Building a tree makes its notes, one of each occurrence in the phrase. -/
theorem SessionShape.notes_of_build {shape : SessionShape} (built : shape.build.result = .ok session) :
    shape.build.notes = session.notes ∧ shape.occurrences.map (·.note) = session.notes := by
  induction shape generalizing session with
  | done index =>
    cases built
    exact ⟨rfl, rfl⟩
  | handler name =>
    cases built
    exact ⟨rfl, rfl⟩
  | choice polarity sign role branches closing ih =>
    rw [SessionShape.result_build_choice] at built
    obtain ⟨made, rfl, all⟩ := gather_eq_ok_iff.mp built
    have done : (BranchShape.buildAll branches).result = .ok made.toList := by
      rw [BranchShape.result_buildAll]
      exact mapM_eq_ok_iff.mpr all
    obtain ⟨noted, occurring⟩ := BranchShape.notes_buildAll all fun shape member _ => ih shape member
    rw [Session.notes_choice]
    constructor
    · rw [SessionShape.notes_build_choice_of_ok done, noted]
    · rw [SessionShape.occurrences, List.map_append, occurring, ← NonEmpty.length_toList,
        ← all.length_eq]
      rfl

namespace NotesUpTo

variable {before behind : Occurrence → Prop} {occurrences : List Occurrence} {notes : List Note}

theorem none (later : ∀ occurrence ∈ occurrences, behind occurrence) :
    NotesUpTo before behind occurrences [] :=
  ⟨[], occurrences, rfl, rfl, by simp, later⟩

theorem prepend (told : ∀ occurrence ∈ first, before occurrence)
    (upTo : NotesUpTo before behind occurrences notes) :
    NotesUpTo before behind (first ++ occurrences) (first.map (·.note) ++ notes) := by
  obtain ⟨among, later, rfl, rfl, front, rest⟩ := upTo
  refine ⟨first ++ among, later, by rw [List.append_assoc], by rw [List.map_append], ?_, rest⟩
  exact List.forall_mem_append.mpr ⟨told, front⟩

theorem append (upTo : NotesUpTo before behind occurrences notes)
    (later : ∀ occurrence ∈ more, behind occurrence) :
    NotesUpTo before behind (occurrences ++ more) notes := by
  obtain ⟨among, rest, rfl, rfl, front, others⟩ := upTo
  refine ⟨among, rest ++ more, by rw [List.append_assoc], rfl, front, ?_⟩
  exact List.forall_mem_append.mpr ⟨others, later⟩

theorem imp {ahead beyond : Occurrence → Prop} (upTo : NotesUpTo before behind occurrences notes)
    (front : ∀ occurrence ∈ occurrences, before occurrence → ahead occurrence)
    (rest : ∀ occurrence ∈ occurrences, behind occurrence → beyond occurrence) :
    NotesUpTo ahead beyond occurrences notes := by
  obtain ⟨told, later, rfl, rfl, first, others⟩ := upTo
  obtain ⟨frontTold, _⟩ := List.forall_mem_append.mp front
  obtain ⟨_, restLater⟩ := List.forall_mem_append.mp rest
  refine ⟨told, later, rfl, rfl, ?_, ?_⟩
  · exact fun occurrence member => frontTold occurrence member (first occurrence member)
  · exact fun occurrence member => restLater occurrence member (others occurrence member)

end NotesUpTo

/-- The notes are those of the occurrences that end before the fault. -/
def Fault.NotesUpTo (fault : Fault) (occurrences : List Occurrence) (notes : List Note) : Prop :=
  SessionSyntax.NotesUpTo (·.last < fault.index) (fault.index ≤ ·.last) occurrences notes

/-- The occurrence ends within the lexemes from the place on. -/
def Occurrence.Within (place : Nat) (ls : List Lexeme) (occurrence : Occurrence) : Prop :=
  place ≤ occurrence.last ∧ occurrence.last < place + ls.length

theorem Occurrence.Within.of_holds {occurrence : Occurrence} (holds : Holds ls ahead part)
    (within : occurrence.Within (place + ahead) part) : occurrence.Within place ls :=
  holds.bounds within

theorem SessionShape.Spelled.occurrences_within (spelled : SessionShape.Spelled place shape ls) :
    ∀ occurrence ∈ shape.occurrences, occurrence.Within place ls := by
  induction shape generalizing place ls with
  | done => simp [SessionShape.occurrences]
  | handler name =>
    cases spelled
    simp [SessionShape.occurrences, Occurrence.Within]
  | choice polarity sign role branches closing ih =>
    intro occurrence member
    rw [SessionShape.occurrences, BranchShape.occurrencesAmong_eq] at member
    rcases List.mem_append.mp member with inner | own
    · obtain ⟨branch, among, inner⟩ := List.mem_flatMap.mp inner
      obtain ⟨_, part, holds, session⟩ := spelled.exists_continuation among
      exact .of_holds holds (ih branch among session occurrence inner)
    · obtain rfl := List.mem_singleton.mp own
      cases spelled with
      | empty => simp [Occurrence.Within]
      | choice =>
        simp only [Occurrence.Within, List.length_append, List.length_cons, List.length_nil]
        omega

theorem Series.occurrences_within
    (series : Series (BranchShape.Spelled SessionShape.Spelled) place branches ls) :
    ∀ occurrence ∈ BranchShape.occurrencesAmong branches, occurrence.Within place ls := by
  intro occurrence member
  rw [BranchShape.occurrencesAmong_eq] at member
  obtain ⟨branch, among, inner⟩ := List.mem_flatMap.mp member
  obtain ⟨_, part, holds, phrase⟩ := series.exists_of_mem among
  obtain ⟨_, next, continues, session⟩ := phrase.holds.2
  exact .of_holds holds (.of_holds continues (session.occurrences_within occurrence inner))

theorem BranchShape.offends_of_build {branch : BranchShape}
    (refused : branch.build.result = .error fault) : branch.Offends fault := by
  rcases BranchShape.result_build_eq_error_iff.mp refused with refused | ⟨_, refused⟩
  · exact .inl (PayloadShape.offends_of_build refused)
  · exact .inr (SessionShape.offends_of_build refused)

/-- A fault in one of the branches stands within them. -/
theorem Series.fault_within
    (series : Series (BranchShape.Spelled SessionShape.Spelled) place branches ls)
    (refused : (BranchShape.buildAll branches).result = .error fault) : fault.Within place ls := by
  rw [BranchShape.result_buildAll] at refused
  obtain ⟨branch, member, refused⟩ := mapM_eq_error refused
  obtain ⟨_, part, holds, phrase⟩ := series.exists_of_mem member
  exact .of_holds holds ((BranchShape.offends_of_build refused).within phrase)

/-- The phrase stands at the place, and is noted up to the fault if building stops at this. -/
def Fault.NotedIn (fault : Fault) (place : Nat) (shape : SessionShape) (ls : List Lexeme) : Prop :=
  SessionShape.Spelled place shape ls ∧
    (shape.build.result = .error fault → fault.NotesUpTo shape.occurrences shape.build.notes)

theorem BranchShape.Spelled.of_noted {fault : Fault}
    (spelled : BranchShape.Spelled fault.NotedIn place branch ls) :
    BranchShape.Spelled SessionShape.Spelled place branch ls :=
  spelled.imp fun _ noted => noted.1

theorem BranchShape.Spelled.notesUpTo {fault : Fault}
    (spelled : BranchShape.Spelled fault.NotedIn place branch ls)
    (refused : branch.build.result = .error fault) :
    fault.NotesUpTo branch.continuation.occurrences branch.build.notes := by
  cases spelled with
  | mk _ payload next =>
    obtain ⟨session, noted⟩ := next
    rcases BranchShape.result_build_eq_error_iff.mp refused with refused | ⟨⟨sent, built⟩, refused⟩
    · rw [BranchShape.notes_build_of_error refused]
      apply NotesUpTo.none
      intro occurrence member
      obtain ⟨_, stop⟩ := (PayloadShape.offends_of_build refused).within payload
      obtain ⟨start, _⟩ := session.occurrences_within occurrence member
      omega
    · rw [BranchShape.notes_build_of_ok built]
      exact noted refused

/-- Either the first branch has the fault, and the others are not come to, or it is built and ends
before the fault. -/
theorem BranchShape.Spelled.notesUpTo_cons {fault : Fault}
    (spelled : BranchShape.Spelled fault.NotedIn place branch ls)
    (behind : ∀ occurrence ∈ BranchShape.occurrencesAmong rest, place + ls.length ≤ occurrence.last)
    (more : (BranchShape.buildAll rest).result = .error fault → place + ls.length ≤ fault.index ∧
      fault.NotesUpTo (BranchShape.occurrencesAmong rest) (BranchShape.buildAll rest).notes)
    (refused : (BranchShape.buildAll (branch :: rest)).result = .error fault) :
    fault.NotesUpTo (BranchShape.occurrencesAmong (branch :: rest))
      (BranchShape.buildAll (branch :: rest)).notes := by
  rw [BranchShape.occurrencesAmong_eq, List.flatMap_cons, ← BranchShape.occurrencesAmong_eq]
  rw [BranchShape.result_buildAll] at refused
  rcases mapM_cons_eq_error_iff.mp refused with refused | ⟨built, done, refused⟩
  · rw [BranchShape.notes_buildAll_of_error refused]
    apply NotesUpTo.append (spelled.notesUpTo refused)
    intro occurrence member
    obtain ⟨_, stop⟩ := (BranchShape.offends_of_build refused).within spelled.of_noted
    have start := behind occurrence member
    omega
  · rw [← BranchShape.result_buildAll] at refused
    obtain ⟨after, upTo⟩ := more refused
    obtain ⟨_, carried, continued⟩ := BranchShape.result_build_eq_ok_iff.mp done
    obtain ⟨noted, occurring⟩ := SessionShape.notes_of_build continued
    rw [BranchShape.notes_buildAll_of_ok done, BranchShape.notes_build_of_ok carried, noted, ← occurring]
    apply NotesUpTo.prepend _ upTo
    intro occurrence member
    obtain ⟨_, next, continues, session⟩ := spelled.of_noted.holds.2
    obtain ⟨_, stop⟩ :=
      Occurrence.Within.of_holds continues (session.occurrences_within occurrence member)
    omega

theorem Series.notesUpTo {fault : Fault}
    (series : Series (BranchShape.Spelled fault.NotedIn) place branches ls)
    (refused : (BranchShape.buildAll branches).result = .error fault) :
    fault.NotesUpTo (BranchShape.occurrencesAmong branches) (BranchShape.buildAll branches).notes := by
  induction series with
  | one spelled =>
    apply spelled.notesUpTo_cons _ _ refused
    · simp [BranchShape.occurrencesAmong]
    · simp [BranchShape.buildAll]
  | more spelled series ih =>
    have behind := series.imp fun _ branch => branch.of_noted
    apply spelled.notesUpTo_cons _ _ refused
    · intro occurrence member
      have start := (behind.occurrences_within occurrence member).1
      omega
    · intro refused
      have start := (behind.fault_within refused).1
      exact ⟨by omega, ih refused⟩

/-- Building that stops at a fault has noted what ends before the fault, and nothing else. -/
theorem SessionShape.Spelled.notesUpTo (spelled : SessionShape.Spelled place shape ls)
    (refused : shape.build.result = .error fault) :
    fault.NotesUpTo shape.occurrences shape.build.notes := by
  induction spelled with
  | done | handler => cases SessionShape.offends_of_build refused
  | @empty role place =>
    cases SessionShape.offends_of_build refused with
    | empty =>
      apply NotesUpTo.none
      simp [SessionShape.occurrences, BranchShape.occurrencesAmong, Fault.index]
    | payload member | continuation member => cases member
  | @choice role place branches ls polarity named series assumed =>
    have noted : Series (BranchShape.Spelled fault.NotedIn) (place + 4) branches ls := by
      apply assumed.imp
      intro _ _ _ _ branch
      apply branch.imp
      rintro _ _ _ _ ⟨spelled, noted⟩
      exact ⟨spelled, noted⟩
    rw [SessionShape.result_build_choice] at refused
    rcases gather_eq_error_iff.mp refused with refused | ⟨rfl, _⟩
    · rw [← BranchShape.result_buildAll] at refused
      rw [SessionShape.notes_build_choice_of_error refused, SessionShape.occurrences]
      apply NotesUpTo.append (noted.notesUpTo refused)
      intro occurrence own
      obtain rfl := List.mem_singleton.mp own
      exact Nat.le_of_lt (series.fault_within refused).2
    · cases series

theorem exists_endsAt (spaced : Spaced text ls) (index : Nat) :
    ∃ offset, EndsAt text ls index offset := by
  obtain ⟨before, after, cut, tight⟩ := spaced.cut_stop (List.take_append_drop (index + 1) ls).symm
  exact ⟨_, before, after, cut.split, cut.ahead, cut.behind, tight, rfl⟩

/-- A lexeme ends at the start of any later one, or before that. -/
theorem EndsAt.le_of_standsAt (ends : EndsAt text ls last stop) (stands : StandsAt text ls index offset)
    (before : last < index) : stop ≤ offset := by
  obtain ⟨longer, rest, split, front, _, tight, rfl⟩ := ends
  obtain ⟨shorter, after, place, rfl⟩ := stands
  rcases List.prefix_or_prefix_of_prefix ⟨rest, split.symm⟩ ⟨after, place.split.symm⟩ with
    ⟨between, rfl⟩ | ⟨between, rfl⟩
  · rw [Text.size_append]
    exact Nat.le_add_right ..
  -- What stands between has no characters of lexemes, and the front ends with one.
  · obtain ⟨k, rfl⟩ : ∃ k, index = last + 1 + k := ⟨index - (last + 1), by omega⟩
    have same := front.filter_eq
    rw [List.filter_append, place.front.filter_eq, List.take_add, List.flatMap_append,
      List.append_assoc, List.append_right_eq_self, List.append_eq_nil_iff] at same
    rcases List.eq_nil_or_concat between with rfl | ⟨blanks, c, rfl⟩
    · rw [List.append_nil]
    · have unblank := tight c (by simp [← List.append_assoc])
      have blank := List.filter_eq_nil_iff.mp same.2 c (by simp)
      simp [unblank] at blank

/-- A lexeme ends behind its own start and that of any earlier one. -/
theorem StandsAt.lt_of_endsAt (stands : StandsAt text ls index offset) (ends : EndsAt text ls last stop)
    (spaced : Spaced text ls) (behind : index ≤ last) (inside : index < ls.length) : offset < stop := by
  obtain ⟨before, after, place, rfl⟩ := stands
  obtain ⟨longer, rest, split, front, _, _, rfl⟩ := ends
  have prefixes : before <+: longer ∨ longer <+: before :=
    List.prefix_or_prefix_of_prefix ⟨after, place.split.symm⟩ ⟨rest, split.symm⟩
  exact place.front.size_lt front prefixes spaced (by omega) inside

/-- In a text, what ends before a fault is what ends before the error that tells it. -/
theorem SessionShape.Spelled.notesUpToOffset {text : String}
    (phrase : SessionShape.Spelled 0 shape front) (spaced : Spaced text.toList (front ++ rest))
    (refused : shape.build.result = .error fault) :
    shape.NotesUpToOffset text.toList (front ++ rest)
      ((Source.ofText text).locate fault).span.offset shape.build.notes := by
  have here := Source.standsAt_startOf spaced fault.index
  rw [Source.locate_offset]
  apply NotesUpTo.imp (phrase.notesUpTo refused)
  · intro occurrence _ before
    obtain ⟨stop, ends⟩ := exists_endsAt spaced occurrence.last
    exact ⟨stop, ends, ends.le_of_standsAt here before⟩
  · intro occurrence _ behind
    obtain ⟨stop, ends⟩ := exists_endsAt spaced occurrence.last
    have inside : fault.index < (front ++ rest).length := by
      obtain ⟨_, within⟩ := (SessionShape.offends_of_build refused).within phrase
      rw [List.length_append]
      omega
    exact ⟨stop, ends, here.lt_of_endsAt ends spaced behind inside⟩

/-- The first and the last step of reading are no notes. -/
theorem Reader.notesOf_events (reader : Reader σ α) (config : Config) (text : String) :
    notesOf (reader.events config text) =
      (reader.read config (Content.ofText text)).notes := by
  have kept (notes : List Note) : (notes.map Event.built).filterMap Event.note? = notes := by
    rw [List.filterMap_map]
    exact List.filterMap_some
  rw [notesOf, events, List.filterMap_append, List.filterMap_cons]
  cases reader.parse config text <;> simp [Event.note?, kept]

theorem LexemeReader.notes_read_silent (reader : LexemeReader σ α)
    (silent : ∀ shape, (reader.build shape).notes = []) (config : Config) (ls : List Lexeme) :
    (reader.read config ls).notes = [] := by
  rw [read]
  split
  · rfl
  · split
    · rfl
    · rw [Logged.notes_bind_silent, silent]
      intro value
      split <;> rfl

/-- Building that fails has noted what ends before the error. -/
theorem session_notesFit_of_error {text : String} (spaced : Spaced text.toList (front ++ rest))
    (longest : Longest SessionShape.Spelled matched front rest)
    (refused : matched.build.result = .error fault) :
    Session.NotesFit text.toList limit matched.build.notes
      (.error ((Source.ofText text).locate fault)) := by
  have toldAs := (SessionShape.offends_of_build refused).toldAs (Source.ofText text)
  have upTo := longest.phrase.notesUpToOffset spaced refused
  generalize (Source.ofText text).locate fault = error at toldAs upTo ⊢
  obtain ⟨cause, span⟩ := error
  cases toldAs with
  | unknownType | emptyCollection =>
    exact ⟨front ++ rest, spaced, matched, front, rest, rfl, longest, upTo⟩

/-- A leftover is told with the notes of the tree that is read before it. -/
theorem session_notesFit_of_leftover {text : String} (spaced : Spaced text.toList (front ++ rest))
    (nested : Text.NestsWithin limit text.toList)
    (longest : Longest SessionShape.Spelled matched front rest)
    (built : matched.build.result = .ok session) (filled : rest ≠ []) :
    Session.NotesFit text.toList limit session.notes
      (.error ((Source.ofText text).locate (.leftover front.length))) := by
  obtain ⟨before, left, blanks, splits, _, cause, offset, accepted⟩ :=
    LexemeReader.session_follows.splits_of_longest spaced nested longest built filled
  generalize (Source.ofText text).locate (.leftover front.length) = error at cause offset ⊢
  obtain ⟨told, span⟩ := error
  obtain rfl : told = .leftover (String.ofList left) := cause
  refine ⟨before, blanks, session, ?_, offset, (Session.parseWith_eq ..).trans accepted, rfl⟩
  rwa [String.toList_ofList]

theorem session_notesFit (text : String) (limit : Nat) :
    Session.NotesFit text.toList limit
      (LexemeReader.session.read ⟨limit⟩ (Source.ofText text).lexemes).notes
      (Session.parseWith ⟨limit⟩ text) := by
  have spaced : Spaced text.toList (Source.ofText text).lexemes := (spaced_iff text).mpr rfl
  rcases LexemeReader.session_follows.read_eq_cases limit (Source.ofText text).lexemes with
    ⟨place, read⟩ | ⟨place, wanted, read⟩ | ⟨within, matched, front, rest, split, longest, read⟩
  · have told := LexemeReader.parse_eq_error_iff.mpr ⟨_, congrArg Logged.result read, rfl⟩
    rw [Session.parseWith_eq, told, read]
    exact rfl
  · have told := LexemeReader.parse_eq_error_iff.mpr ⟨_, congrArg Logged.result read, rfl⟩
    rw [Session.parseWith_eq, told, read]
    exact rfl
  · have result : (LexemeReader.session.read ⟨limit⟩ (Source.ofText text).lexemes).result =
        matched.build.result.bind fun session =>
          if rest.isEmpty then .ok session else .error (.leftover front.length) := by
      rw [read, LexemeReader.result_behindPhrase]
      rfl
    have noted : (LexemeReader.session.behindPhrase matched front rest).notes = matched.build.notes := by
      apply Logged.notes_bind_silent
      intro value
      split <;> rfl
    have nested := (peak_le_iff spaced).mp within
    rw [split] at spaced
    rw [Session.parseWith_eq, read, noted]
    cases built : matched.build.result with
    | error fault =>
      rw [built] at result
      rw [LexemeReader.parse_eq_error_iff.mpr ⟨fault, result, rfl⟩]
      exact session_notesFit_of_error spaced longest built
    | ok session =>
      rw [built] at result
      rw [(SessionShape.notes_of_build built).1]
      cases rest with
      | nil =>
        rw [(LexemeReader.parse_eq_ok_iff text).mpr result]
        exact rfl
      | cons l more =>
        rw [LexemeReader.parse_eq_error_iff.mpr ⟨_, result, rfl⟩]
        exact session_notesFit_of_leftover spaced nested longest built (List.cons_ne_nil l more)

/-- The log of reading has a note of every handler and of every choice of the tree that is read, or
that is read before a leftover. If something offends, it has those that end before the error; if there
is nothing to build, it has none, and neither has the log of reading a payload type. -/
theorem log_tells_built (text : String) (limit : Nat) :
    Session.NotesFit text.toList limit (notesOf (sessionReader.events ⟨limit⟩ text))
      (Session.parseWith ⟨limit⟩ text) ∧
    notesOf (payloadReader.events ⟨limit⟩ text) = [] := by
  constructor
  · rw [Reader.notesOf_events, sessionReader_corresponds.notes_eq]
    exact session_notesFit text limit
  · rw [Reader.notesOf_events, payloadReader_corresponds.notes_eq]
    exact LexemeReader.payload.notes_read_silent (fun _ => rfl) _ _

end SessionSyntax
