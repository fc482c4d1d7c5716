import SessionSyntax.Proofs.Frontiers
import SessionSyntax.Proofs.Phrases

/-! Where a phrase breaks off and what follows is not what it needs, matching fails and leaves in
the frontier just what the phrase needs. Every phrase that was complete before leaves nothing there:
that is what `Tidy` says of the matcher of each construct. -/
namespace SessionSyntax

namespace Matcher

variable {frontier reached : Frontier}

/-- The next lexeme is no identifier. -/
def NoName (here : Cursor Lexeme) : Prop :=
  ∀ name rest, isIdentifier name → here.rest ≠ .word name :: rest

theorem noName_mark (c : Char) (place : Nat) (rest : List Lexeme) :
    NoName ⟨place, .mark c :: rest⟩ := by
  intro name more _ same
  cases same

theorem NoName.silent (unnamed : NoName here) : (word isIdentifier).Silent here :=
  word_silent fun name rest => unnamed name rest

theorem doneShape_stops (unnamed : NoName here) : doneShape.Stops here ⟨here.index, [.done]⟩ := by
  refine Silent.named_stops (Silent.bind (word_silent fun letters rest same => ?_) _) .done
  obtain rfl : letters = Session.endWord.toList := by simpa using same
  exact unnamed _ rest (by decide)

theorem tupleShape_stops (element : Matcher Lexeme PayloadShape)
    (unopened : ∀ rest, here.rest ≠ .mark '(' :: rest) :
    (tupleShape element).Stops here ⟨here.index, [.tuple]⟩ :=
  ((mark_silent unopened).bind _).named_stops .tuple

/-- No payload begins here, so that one is wanted. -/
theorem payloadOver_stops (element : Matcher Lexeme PayloadShape)
    (unopened : ∀ rest, here.rest ≠ .mark '(' :: rest) (unnamed : NoName here) :
    (payloadOver element).Stops here ⟨here.index, [.payloadType]⟩ := by
  intro frontier clear
  have tuple := tupleShape_stops element unopened frontier clear
  have list : listShape here ⟨here.index, [.tuple]⟩ = ⟨none, ⟨here.index, [.tuple] ++ [.basic]⟩⟩ :=
    named_adds_child .list (bind_of_missed _ (unnamed.silent.named_adds .basic [.tuple]))
  have basic : (PayloadShape.basic <$> basicName) here ⟨here.index, [.tuple, .basic]⟩ =
      ⟨none, ⟨here.index, [.tuple, .basic] ++ [.basic]⟩⟩ :=
    bind_of_missed _ (unnamed.silent.named_adds .basic [.tuple, .basic])
  have missed := (orElse_of_missed _ tuple).trans ((orElse_of_missed _ list).trans basic)
  rw [payloadOver, named_of_missed .payloadType missed, clear.count]
  simp [Frontier.miss, Frontier.count]

/-- No session goes on from here without wanting something at its start. -/
theorem sessionOver_stops (payload : Matcher Lexeme PayloadShape)
    (continuation : Matcher Lexeme SessionShape)
    (unnamed : NoName here)
    (unsigned : ∀ polarity, (choiceShape polarity (branchShape payload continuation)).Silent here) :
    (sessionOver payload continuation).Stops here ⟨here.index, [.sessionType]⟩ := by
  intro frontier clear
  have done := doneShape_stops unnamed frontier clear
  have receive := (unsigned .receive).named_adds .receive [.done]
  have send := (unsigned .send).named_adds .send [.done, .receive]
  have handler : handlerShape here ⟨here.index, [.done, .receive, .send]⟩ =
      ⟨none, ⟨here.index, [.done, .receive, .send] ++ [.identifier]⟩⟩ :=
    named_adds_child .handler (bind_of_missed _ (unnamed.silent.named_adds .identifier _))
  have missed := (orElse_of_missed _ done).trans ((orElse_of_missed _ receive).trans
    ((orElse_of_missed _ send).trans handler))
  rw [sessionOver, named_of_missed .sessionType missed, clear.count]
  simp [Frontier.miss, Frontier.count]

theorem payloadShape_shuns (other : c ≠ '(') (n : Nat) : (payloadShape n).Shuns c := by
  intro here frontier rest before stands
  cases n with
  | zero => exact Nat.le_of_lt before
  | succ n =>
    obtain ⟨place, _⟩ := here
    obtain rfl := stands
    have unnamed : NoName ⟨place, .mark c :: rest⟩ := noName_mark c place rest
    have stops := payloadOver_stops (payloadShape n) (by simp [other]) unnamed
    have left := stops frontier (Frontier.clear_of_lt before)
    exact Nat.le_of_eq (congrArg (fun attempt => attempt.frontier.place) left)

theorem branchShape_shuns (payload : Matcher Lexeme PayloadShape)
    (continuation : Matcher Lexeme SessionShape)
    (c : Char) : (branchShape payload continuation).Shuns c := by
  intro here frontier rest before stands
  obtain ⟨place, _⟩ := here
  obtain rfl := stands
  have label := (noName_mark c place rest).silent.named_stops .identifier
  have stops : (branchShape payload continuation).Stops _ _ := (label.bind _).named_child .branch
  have left := stops frontier (Frontier.clear_of_lt before)
  exact Nat.le_of_eq (congrArg (fun attempt => attempt.frontier.place) left)

theorem tidy_identifier : identifier.Tidy := (tidy_word isIdentifier).named .identifier

theorem tidy_basicName : basicName.Tidy := (tidy_word isIdentifier).named .basic

theorem keeps_behind_mark {next : Nat → Matcher Lexeme α} (c : Char)
    (keeps : ∀ place, (next place).Keeps) :
    (mark c >>= next).Keeps := (tidy_mark c).keeps.bind keeps

theorem keeps_behind_named {next : Nat → Matcher Lexeme α} (part : Part) (c : Char)
    (keeps : ∀ place, (next place).Keeps) : (named part (mark c) >>= next).Keeps :=
  ((tidy_mark c).named part).keeps.bind keeps

theorem listShape_tidy : listShape.Tidy := by
  apply Tidy.named
  refine tidy_basicName.bind fun name => ?_
  refine keeps_behind_mark '[' fun _ => ?_
  exact keeps_behind_mark ']' fun _ => keeps_pure _

theorem listShape_near : listShape.Near := by
  apply Near.named
  refine ((still_word isIdentifier).near.named .basic).bind fun name => ?_
  refine (still_mark '[').bind fun _ => ?_
  exact (still_mark ']').bind fun _ => still_pure _

theorem tupleShape_tidy {element : Matcher Lexeme PayloadShape} (tidy : element.Tidy)
    (shuns : element.Shuns ')') : (tupleShape element).Tidy := by
  apply Tidy.named
  refine (tidy_mark '(').bind fun opening => ?_
  exact tidy.commaList_keeps (by decide) shuns fun elements closing => keeps_pure _

theorem of_matched_name (matched : (listShape <|> PayloadShape.basic <$> basicName) here frontier =
    ⟨some (shape, there), reached⟩) : ∃ name rest, here.rest = .word name :: rest := by
  rcases of_found_orElse (congrArg Attempt.found matched) with list | ⟨_, _, basic⟩
  · obtain ⟨name, _, _, spans⟩ := listShape_sound list
    exact ⟨name, _, spans.rest⟩
  · obtain ⟨word, worded, _⟩ := of_found_map basic
    obtain ⟨name, _, _, spans⟩ := of_found_named_word worded
    exact ⟨name, _, spans.rest⟩

theorem payloadOver_tidy {element : Matcher Lexeme PayloadShape} (tidy : element.Tidy)
    (shuns : element.Shuns ')') : (payloadOver element).Tidy := by
  apply Tidy.named
  intro here frontier shape there reached near matched
  rcases of_matched_orElse matched with tuple | ⟨between, missed, others⟩
  · exact tupleShape_tidy tidy shuns near tuple
  · -- Where a name stands, a tuple is missed at once.
    obtain ⟨name, rest, start⟩ := of_matched_name others
    have unopened : (mark '(').Silent here := mark_silent (by simp [start])
    have close := (unopened.bind _).place_named_le .tuple near missed
    rcases of_matched_orElse others with list | ⟨last, unlisted, basic⟩
    · exact listShape_tidy close list
    · have close := listShape_near close
      rw [unlisted] at close
      exact (tidy_basicName.map _) close basic

theorem payloadShape_tidy (n : Nat) : (payloadShape n).Tidy := by
  induction n with
  | zero =>
    intro here frontier shape there reached _ matched
    cases matched
  | succ n ih => exact payloadOver_tidy ih (payloadShape_shuns (by decide) n)

theorem branchShape_tidy {payload : Matcher Lexeme PayloadShape}
    {continuation : Matcher Lexeme SessionShape}
    (carried : payload.Tidy) (next : continuation.Tidy) :
    (branchShape payload continuation).Tidy := by
  apply Tidy.named
  refine tidy_identifier.bind fun label => ?_
  refine keeps_behind_mark '(' fun _ => ?_
  refine carried.keeps.bind fun shape => ?_
  refine keeps_behind_named .closeParen ')' fun _ => ?_
  refine keeps_behind_named .dot '.' fun _ => ?_
  exact next.keeps.bind fun _ => keeps_pure _

theorem choiceShape_tidy (polarity : Polarity) {branch : Matcher Lexeme BranchShape} (tidy : branch.Tidy)
    (shuns : branch.Shuns '\x7d') : (choiceShape polarity branch).Tidy := by
  refine (tidy_mark polarity.sign).bind fun sign => ?_
  refine tidy_identifier.keeps.bind fun role => ?_
  refine keeps_behind_named .colon ':' fun _ => ?_
  refine keeps_behind_mark '\x7b' fun _ => ?_
  exact tidy.commaList_keeps (by decide) shuns fun branches closing => keeps_pure _

theorem sign_of_matched {branch : Matcher Lexeme BranchShape}
    (matched : choiceShape polarity branch here frontier = ⟨some (shape, there), reached⟩) :
    ∃ rest, here.rest = .mark polarity.sign :: rest := by
  obtain ⟨_, _, _, signed, _⟩ := of_found_bind (congrArg Attempt.found matched)
  exact ⟨_, (of_found_mark signed).2.rest⟩

theorem name_of_matched (matched : handlerShape here frontier = ⟨some (shape, there), reached⟩) :
    ∃ name rest, here.rest = .word name :: rest := by
  obtain ⟨_, named, _⟩ := of_found_map (congrArg Attempt.found (of_matched_named matched))
  obtain ⟨name, _, _, spans⟩ := of_found_named_word named
  exact ⟨name, _, spans.rest⟩

theorem choiceShape_silent (branch : Matcher Lexeme BranchShape)
    (other : ∀ rest, here.rest ≠ .mark polarity.sign :: rest) :
    (choiceShape polarity branch).Silent here := (mark_silent other).bind _

theorem doneShape_near : doneShape.Near :=
  ((still_word _).bind fun _ => still_pure _).near.named .done

theorem doneShape_tidy : doneShape.Tidy := ((tidy_word _).map _).named .done

theorem handlerShape_tidy : handlerShape.Tidy := (tidy_identifier.map _).named .handler

theorem sessionOver_tidy {payload : Matcher Lexeme PayloadShape}
    {continuation : Matcher Lexeme SessionShape}
    (carried : payload.Tidy) (next : continuation.Tidy) :
    (sessionOver payload continuation).Tidy := by
  have choice (polarity : Polarity) :=
    choiceShape_tidy polarity (branchShape_tidy carried next) (branchShape_shuns _ _ '\x7d')
  apply Tidy.named
  intro here frontier shape there reached near matched
  rcases of_matched_orElse matched with done | ⟨first, undone, matched⟩
  · exact doneShape_tidy near done
  have near := doneShape_near near
  rw [undone] at near
  rcases of_matched_orElse matched with receive | ⟨second, unreceived, matched⟩
  · exact (choice .receive).named .receive near receive
  -- What else may begin here is told from a receive by its first lexeme, and so it goes on.
  have apart : ∀ rest, here.rest ≠ .mark Polarity.receive.sign :: rest := by
    intro rest start
    rcases of_matched_orElse matched with send | ⟨_, _, handler⟩
    · obtain ⟨_, signed⟩ := sign_of_matched (of_matched_named send)
      simp [Polarity.sign, start] at signed
    · obtain ⟨_, _, named⟩ := name_of_matched handler
      simp [start] at named
  have near := (choiceShape_silent _ apart).place_named_le .receive near unreceived
  rcases of_matched_orElse matched with send | ⟨third, unsent, handler⟩
  · exact (choice .send).named .send near send
  obtain ⟨_, _, named⟩ := name_of_matched handler
  have near := (choiceShape_silent _ (by simp [named])).place_named_le .send near unsent
  exact handlerShape_tidy near handler

theorem sessionShape_tidy (n : Nat) : (sessionShape n).Tidy := by
  induction n with
  | zero =>
    intro here frontier shape there reached _ matched
    cases matched
  | succ n ih => exact sessionOver_tidy (payloadShape_tidy n) ih

end Matcher

open Matcher

theorem PayloadShape.Spelled.passes (spelled : PayloadShape.Spelled place shape ls)
    (bound : ls.length ≤ n) (rest : List Lexeme)
    (apart : shape.isBare → ¬ListTail rest) :
    (payloadShape n).Passes ⟨place, ls ++ rest⟩ shape ⟨place + ls.length, rest⟩ := by
  refine (spelled.finds bound rest ?_).passes (payloadShape_tidy n)
  rintro name rfl
  exact apart rfl

theorem BranchShape.Spelled.passes (spelled : BranchShape.Spelled SessionShape.Spelled place branch ls)
    (bound : ls.length ≤ n) (rest : List Lexeme) :
    (branchShape (payloadShape n) (sessionShape n)).Passes ⟨place, ls ++ rest⟩ branch
      ⟨place + ls.length, rest⟩ := by
  refine Finds.passes ?_ (branchShape_tidy (payloadShape_tidy n) (sessionShape_tidy n))
  refine branchShape_finds rest (spelled.imp fun short next => ?_) bound
  exact next.finds (by omega) rest

/-- What is left in the frontier where a phrase breaks off at a place. -/
def Need.left (need : Need) (here : Nat) : Frontier := ⟨need.place here, need.wanted⟩

/-- The lexemes do not begin with what the phrase needs. -/
def Need.Stuck (need : Need) (rest : List Lexeme) : Prop := ∀ l more, rest = l :: more → ¬need.Takes l

theorem PayloadShape.Spelled.length_pos (spelled : PayloadShape.Spelled place shape ls) :
    0 < ls.length := by
  cases spelled <;> simp

theorem BranchShape.Spelled.length_pos (spelled : BranchShape.Spelled continues place branch ls) :
    0 < ls.length := by
  cases spelled
  simp

theorem PayloadShape.SeriesBreaks.place_le
    (breaks : PayloadShape.SeriesBreaks first place ls need) (ends : place + ls.length = there) :
    place ≤ need.place there := by
  induction breaks with
  | start | behind => exact ends ▸ Nat.le_add_right ..
  | list => exact Nat.le_succ _
  | tuple _ ih | more _ _ ih =>
    have inside := ih (by rw [← ends]; simp; omega)
    omega

namespace Matcher

theorem members_first (item : Matcher Lexeme α) (n : Nat) : members item n true = commaList item := rfl

/-- A tuple breaks off where its members do. -/
theorem payloadOver_stops_tuple {element : Matcher Lexeme PayloadShape}
    (unclosed : Unclosed (members element n true) closeParen ⟨place + 1, rest⟩ left)
    (beyond : place < left.place) :
    (payloadOver element).Stops ⟨place, .mark '(' :: rest⟩ left := by
  have tuple : (tupleShape element).Stops ⟨place, .mark '(' :: rest⟩ left := by
    refine Stops.named_beyond ?_ .tuple beyond
    rw [members_first] at unclosed
    exact ((plain_mark '(' place rest).bind_falters (Nat.lt_succ_self _) (unclosed.stops _)).stops
  have name := (noName_mark '(' place rest).silent left
  have basic := named_of_missed_beyond .basic name beyond
  have list : listShape _ left = _ := named_of_missed_beyond .list (bind_of_missed _ basic) beyond
  have bare : (PayloadShape.basic <$> basicName) _ left = _ := bind_of_missed _ basic
  refine Stops.named_beyond (fun frontier clear => ?_) .payloadType beyond
  exact (orElse_of_missed _ (tuple frontier clear)).trans ((orElse_of_missed _ list).trans bare)

/-- A choice breaks off behind its sign. -/
theorem sessionOver_stops_choice {payload : Matcher Lexeme PayloadShape}
    {continuation : Matcher Lexeme SessionShape} (polarity : Polarity)
    (falters : (choiceShape polarity (branchShape payload continuation)).Falters
      ⟨place, .mark polarity.sign :: rest⟩ left) (beyond : place < left.place) :
    (sessionOver payload continuation).Stops ⟨place, .mark polarity.sign :: rest⟩ left := by
  have unnamed := noName_mark polarity.sign place rest
  have identifier := named_of_missed_beyond .identifier (unnamed.silent left) beyond
  have handler : handlerShape _ left = _ :=
    named_of_missed_beyond .handler (bind_of_missed _ identifier) beyond
  refine Stops.named_beyond (fun frontier clear => ?_) .sessionType beyond
  refine (orElse_of_missed _ (doneShape_stops unnamed frontier clear)).trans ?_
  cases polarity with
  | receive =>
    have other : (choiceShape .send (branchShape payload continuation)).Silent
        ⟨place, .mark Polarity.receive.sign :: rest⟩ := choiceShape_silent _ (by simp [Polarity.sign])
    have receive := named_of_missed_beyond .receive (falters ⟨place, [.done]⟩ (Nat.le_refl _)) beyond
    have send := named_of_missed_beyond .send (other left) beyond
    exact (orElse_of_missed _ receive).trans ((orElse_of_missed _ send).trans handler)
  | send =>
    have other : (choiceShape .receive (branchShape payload continuation)).Silent
        ⟨place, .mark Polarity.send.sign :: rest⟩ := choiceShape_silent _ (by simp [Polarity.sign])
    have receive := other.named_adds .receive [.done]
    have send := named_of_missed_beyond .send
      (falters ⟨place, [.done, .receive]⟩ (Nat.le_refl _)) beyond
    exact (orElse_of_missed _ receive).trans ((orElse_of_missed _ send).trans handler)

end Matcher

/-- What a phrase needs does not stand at the front of the lexemes. -/
theorem Need.Stuck.other {need : Need} (stuck : need.Stuck rest) (takes : need.Takes l)
    (more : List Lexeme) : rest ≠ l :: more :=
  fun same => stuck l more same takes

/-- Where a payload is needed and none begins, one is wanted. -/
theorem payloadShape_stops (stuck : (Need.payload first).Stuck rest) (n place : Nat) :
    (payloadShape (n + 1)).Stops ⟨place, rest⟩ ⟨place, [.payloadType]⟩ :=
  payloadOver_stops (payloadShape n) (stuck.other .tuple) fun _ more named =>
    stuck.other (.name named) more

/-- A complete payload goes on as a list only where its need for a bracket is met. -/
theorem not_listTail_of_stuck (stuck : (Need.behind seat bare).Stuck rest) (named : bare) :
    ¬ListTail rest := by
  subst named
  rintro ⟨more, rfl⟩
  exact stuck.other .list _ rfl

/-- Where the brackets of a list break off, its name is a complete payload. -/
theorem payloadShape_passes_name (named : isIdentifier name)
    (stuck : (Need.bracket start seat).Stuck rest) (place : Nat) (room : 0 < n) :
    (payloadShape n).Passes ⟨place, .word name :: .mark '[' :: rest⟩ (.basic ⟨place, name⟩)
      ⟨place + 1, .mark '[' :: rest⟩ := by
  have spelled : PayloadShape.Spelled place (.basic ⟨place, name⟩) [.word name] := .basic named
  refine spelled.passes room (.mark '[' :: rest) ?_
  rintro - ⟨more, same⟩
  exact stuck.other .bracket more (List.cons.inj same).2

/-- Members of a tuple that break off are not closed, for what they need. What was matched before
the last of them is complete, and so has left nothing behind. -/
theorem PayloadShape.SeriesBreaks.unclosed
    (breaks : PayloadShape.SeriesBreaks first place front need) (stuck : need.Stuck rest)
    (ends : place + front.length = there) (behind : 0 < place) (room : front.length < d)
    (enough : front.length ≤ n) :
    Unclosed (members (payloadShape d) n first) closeParen ⟨place, front ++ rest⟩
      (need.left there) := by
  induction breaks generalizing d n with
  | @start first place =>
    obtain rfl : place = there := ends
    obtain ⟨d, rfl⟩ : ∃ k, d = k + 1 := ⟨d - 1, by omega⟩
    refine (payloadShape_stops stuck d place).unclosed_start behind (by decide) fun opened => ?_
    subst opened
    exact stuck.other .closeTuple
  | @list name first place named =>
    have passes := payloadShape_passes_name named stuck place (Nat.lt_of_le_of_lt (Nat.zero_le _) room)
    exact passes.unclosed_behind behind (by simp at enough; omega) (by simp)
  | @tuple place front need first inner ih =>
    simp only [List.length_cons] at room enough ends
    obtain ⟨d, rfl⟩ : ∃ k, d = k + 1 := ⟨d - 1, by omega⟩
    have beyond : place < need.place there := inner.place_le (by omega)
    have unclosed := ih stuck (by omega) (Nat.succ_pos place) (d := d) (n := n) (by omega) (by omega)
    exact (payloadOver_stops_tuple unclosed beyond).unclosed_within beyond behind (by decide)
      (by simp)
  | @behind place element front first phrase =>
    have passes := phrase.passes (Nat.le_of_lt room) rest (not_listTail_of_stuck stuck)
    have some := phrase.length_pos
    rw [ends] at passes
    refine passes.unclosed_behind behind (by omega) fun l more same => ?_
    constructor
    · rintro rfl
      exact stuck.other .comma more same
    · rintro rfl
      exact stuck.other .closing more same
  | @more place element front ms need first phrase _ ih =>
    simp only [List.length_append, List.length_cons] at room enough ends
    have passes := phrase.passes (n := d) (by omega) (.mark ',' :: (ms ++ rest)) fun _ =>
      not_listTail_mark (by decide)
    have some := phrase.length_pos
    rw [List.append_assoc, List.cons_append]
    refine passes.unclosed_more behind (k := ms.length) (by omega) (by simp) fun m more => ?_
    exact ih stuck (by omega) (by omega) (by omega) more

theorem PayloadShape.Breaks.place_le (breaks : PayloadShape.Breaks place ls need)
    (ends : place + ls.length = there) : place ≤ need.place there := by
  cases breaks with
  | start => exact ends ▸ Nat.le_add_right ..
  | tuple inner =>
    exact Nat.le_of_succ_le (inner.place_le (by rw [← ends]; simp; omega))

theorem PayloadShape.Breaks.stops (breaks : PayloadShape.Breaks place front need)
    (stuck : need.Stuck rest) (ends : place + front.length = there) (room : front.length < d) :
    (payloadShape d).Stops ⟨place, front ++ rest⟩ (need.left there) := by
  obtain ⟨d, rfl⟩ : ∃ k, d = k + 1 := ⟨d - 1, by omega⟩
  cases breaks with
  | start =>
    obtain rfl : place = there := ends
    exact payloadShape_stops stuck d place
  | @tuple front need inner =>
    simp only [List.length_cons] at room ends
    exact payloadOver_stops_tuple
      (inner.unclosed stuck (by omega) (Nat.succ_pos place) (by omega) (Nat.le_refl front.length))
      (inner.place_le (by omega))

namespace Matcher

/-- What is left of a branch behind the parenthesis that opens its payload. -/
def carriage (payload : Matcher Lexeme PayloadShape) (continuation : Matcher Lexeme SessionShape)
    (label : Word) : Matcher Lexeme BranchShape := do
  let shape ← payload
  let _ ← closeParen
  let _ ← dot
  return ⟨label, shape, ← continuation⟩

section

variable (payload : Matcher Lexeme PayloadShape) (continuation : Matcher Lexeme SessionShape)

theorem branchShape_stops_label (unnamed : NoName here) :
    (branchShape payload continuation).Stops here ⟨here.index, [.identifier]⟩ :=
  ((unnamed.silent.named_stops .identifier).bind _).named_child .branch

theorem branchShape_stops_opening (named : isIdentifier name) (place : Nat)
    (unopened : ∀ more, rest ≠ .mark '(' :: more) :
    (branchShape payload continuation).Stops ⟨place, .word name :: rest⟩ ⟨place, [.branch]⟩ := by
  refine Silent.named_stops ?_ .branch
  refine ((plain_word named place rest).named .identifier).bind_silent ?_
  exact (mark_silent unopened).bind _

/-- A payload is complete, and its branch breaks off right behind it. -/
theorem carriage_stops_closing (passes : payload.Passes here shape ⟨there, rest⟩)
    (unclosed : ∀ more, rest ≠ .mark ')' :: more) (label : Word) :
    (carriage payload continuation label).Stops here ⟨there, [.closeParen]⟩ :=
  passes.bind_stops (((mark_silent unclosed).named_stops .closeParen).bind _)

theorem carriage_stops_dot (passes : payload.Passes here shape ⟨there, .mark ')' :: rest⟩)
    (undotted : ∀ more, rest ≠ .mark '.' :: more) (label : Word) :
    (carriage payload continuation label).Stops here ⟨there + 1, [.dot]⟩ := by
  have closing := (plain_mark ')' there rest).named .closeParen
  have dot : Matcher.dot.Stops ⟨there + 1, rest⟩ _ := (mark_silent undotted).named_stops .dot
  exact passes.bind_stops (closing.bind_falters (Nat.lt_succ_self _) (dot.bind _)).stops

end

variable {payload : Matcher Lexeme PayloadShape} {continuation : Matcher Lexeme SessionShape}

theorem carriage_stops_continuation
    (passes : payload.Passes here shape ⟨there, .mark ')' :: .mark '.' :: rest⟩)
    (stops : continuation.Stops ⟨there + 2, rest⟩ left) (label : Word) :
    (carriage payload continuation label).Stops here left := by
  have closing := (plain_mark ')' there (.mark '.' :: rest)).named .closeParen
  have dot := (plain_mark '.' (there + 1) rest).named .dot
  refine passes.bind_stops (closing.bind_falters (Nat.lt_succ_self _) ?_).stops
  exact (dot.bind_falters (Nat.lt_succ_self _) (stops.bind _)).stops

/-- A branch breaks off behind the parenthesis that opens its payload. -/
theorem carriage_stops_branch (named : isIdentifier name)
    (stops : (carriage payload continuation ⟨place, name⟩).Stops ⟨place + 2, rest⟩ left)
    (beyond : place < left.place) :
    (branchShape payload continuation).Stops ⟨place, .word name :: .mark '(' :: rest⟩ left := by
  refine Stops.named_beyond ?_ .branch beyond
  have label := (plain_word named place (.mark '(' :: rest)).named .identifier
  have opening := plain_mark '(' (place + 1) rest
  exact (label.bind_falters (Nat.lt_succ_self _)
    (opening.bind_falters (Nat.lt_succ_self _) stops).stops).stops

theorem carriage_unclosed (named : isIdentifier name)
    (stops : (carriage payload continuation ⟨place, name⟩).Stops ⟨place + 2, rest⟩ left)
    (beyond : place < left.place) (behind : 0 < place) :
    Unclosed (members (branchShape payload continuation) n first) closeBrace
      ⟨place, .word name :: .mark '(' :: rest⟩ left :=
  (carriage_stops_branch named stops beyond).unclosed_within beyond behind (by decide) (by simp)

end Matcher

mutual

theorem SessionShape.Breaks.place_le (ends : place + front.length = there) :
    SessionShape.Breaks place front need → place ≤ need.place there
  | .start | .role _ | .colon _ _ => ends ▸ Nat.le_add_right ..
  | .block _ _ => Nat.le_refl _
  | @SessionShape.Breaks.inside _ _ front _ _ _ inner => by
    have spot : place + 4 + front.length = there := by simp at ends; omega
    have inside := BranchShape.SeriesBreaks.place_le spot inner
    omega

theorem BranchShape.SeriesBreaks.place_le (ends : place + front.length = there) :
    BranchShape.SeriesBreaks first place front need → place ≤ need.place there
  | .start | .closing _ _ | .dot _ _ | .behind _ => ends ▸ Nat.le_add_right ..
  | .opening _ => Nat.le_refl _
  | .list _ _ => Nat.le_add_right place 3
  | @BranchShape.SeriesBreaks.payload _ _ front _ _ _ inner => by
    have spot : place + 2 + front.length = there := by simp at ends; omega
    have inside := inner.place_le spot
    omega
  | @BranchShape.SeriesBreaks.continuation _ _ carried ls ms _ _ _ _ inner => by
    have spot : place + 2 + ls.length + 2 + ms.length = there := by simp at ends; omega
    have inside := SessionShape.Breaks.place_le spot inner
    omega
  | @BranchShape.SeriesBreaks.more _ _ ls ms _ _ _ inner => by
    have spot : place + ls.length + 1 + ms.length = there := by simp at ends; omega
    have inside := BranchShape.SeriesBreaks.place_le spot inner
    omega

end

namespace Matcher

variable {payload : Matcher Lexeme PayloadShape} {continuation : Matcher Lexeme SessionShape}

theorem sessionOver_stops_start (stuck : Need.session.Stuck rest) (place : Nat) :
    (sessionOver payload continuation).Stops ⟨place, rest⟩ ⟨place, [.sessionType]⟩ :=
  sessionOver_stops payload continuation (fun _ more named => stuck.other (.leaf named) more)
    fun polarity => choiceShape_silent _ (stuck.other (.choice polarity))

theorem sessionOver_stops_role (polarity : Polarity) (stuck : Need.role.Stuck rest) (place : Nat) :
    (sessionOver payload continuation).Stops ⟨place, .mark polarity.sign :: rest⟩
      ⟨place + 1, [.identifier]⟩ := by
  have unnamed : NoName ⟨place + 1, rest⟩ := fun _ more named => stuck.other (.role named) more
  have role : identifier.Stops ⟨place + 1, rest⟩ _ := unnamed.silent.named_stops .identifier
  apply sessionOver_stops_choice polarity _ (Nat.lt_succ_self place)
  exact (plain_mark polarity.sign place rest).bind_falters (Nat.lt_succ_self place) (role.bind _)

theorem sessionOver_stops_colon (polarity : Polarity) (named : isIdentifier role)
    (stuck : Need.colon.Stuck rest) (place : Nat) :
    (sessionOver payload continuation).Stops
      ⟨place, .mark polarity.sign :: .word role :: rest⟩ ⟨place + 2, [.colon]⟩ := by
  have sign := plain_mark polarity.sign place (.word role :: rest)
  have address := (plain_word named (place + 1) rest).named .identifier
  have colon : (Matcher.named .colon (mark ':')).Stops ⟨place + 2, rest⟩ _ :=
    (mark_silent (stuck.other .colon)).named_stops .colon
  apply sessionOver_stops_choice polarity _ (by simp)
  apply sign.bind_falters (Nat.lt_succ_self _)
  exact (address.bind_falters (Nat.lt_succ_self _) (colon.bind _)).stops

/-- A choice without its block is missed without a trace, as any other lexeme is where a session
begins. -/
theorem sessionOver_stops_block (polarity : Polarity) (named : isIdentifier role)
    (stuck : (Need.block place).Stuck rest) :
    (sessionOver payload continuation).Stops
      ⟨place, .mark polarity.sign :: .word role :: .mark ':' :: rest⟩ ⟨place, [.sessionType]⟩ := by
  have sign := plain_mark polarity.sign place (.word role :: .mark ':' :: rest)
  have address := (plain_word named (place + 1) (.mark ':' :: rest)).named .identifier
  have colon := (plain_mark ':' (place + 2) rest).named .colon
  have opening : (mark '\x7b').Silent ⟨place + 3, rest⟩ := mark_silent (stuck.other .block)
  apply sessionOver_stops payload continuation (noName_mark _ _ _)
  intro other
  by_cases same : other = polarity
  · subst same
    exact sign.bind_silent (address.bind_silent (colon.bind_silent (opening.bind _)))
  · apply choiceShape_silent
    cases other <;> cases polarity <;> simp_all [Polarity.sign]

theorem sessionOver_stops_inside (polarity : Polarity) (named : isIdentifier role)
    (unclosed : Unclosed (members (branchShape payload continuation) n true) closeBrace
      ⟨place + 4, rest⟩ left) (beyond : place < left.place) :
    (sessionOver payload continuation).Stops
      ⟨place, .mark polarity.sign :: .word role :: .mark ':' :: .mark '\x7b' :: rest⟩ left := by
  have sign := plain_mark polarity.sign place (.word role :: .mark ':' :: .mark '\x7b' :: rest)
  have address := (plain_word named (place + 1) (.mark ':' :: .mark '\x7b' :: rest)).named .identifier
  have colon := (plain_mark ':' (place + 2) (.mark '\x7b' :: rest)).named .colon
  have opening := plain_mark '\x7b' (place + 3) rest
  rw [members_first] at unclosed
  apply sessionOver_stops_choice polarity _ beyond
  apply sign.bind_falters (Nat.lt_succ_self _)
  refine (address.bind_falters (Nat.lt_succ_self _) ?_).stops
  refine (colon.bind_falters (Nat.lt_succ_self _) ?_).stops
  exact (opening.bind_falters (Nat.lt_succ_self _) (unclosed.stops _)).stops

end Matcher

mutual

/-- Matching a session that breaks off stops with what it needs. The recursion goes into the phrase
that is still open; `room` bounds how deep the matchers have to be for it. -/
theorem SessionShape.Breaks.stops (stuck : need.Stuck rest) (ends : place + front.length = there)
    (room : front.length < d) : SessionShape.Breaks place front need →
      (sessionShape d).Stops ⟨place, front ++ rest⟩ (need.left there)
  | breaks => by
    obtain ⟨d, rfl⟩ : ∃ k, d = k + 1 := ⟨d - 1, by omega⟩
    match breaks with
    | .start =>
      obtain rfl : place = there := ends
      exact sessionOver_stops_start stuck place
    | .role polarity =>
      obtain rfl : place + 1 = there := ends
      exact sessionOver_stops_role polarity stuck place
    | .colon polarity named =>
      obtain rfl : place + 2 = there := ends
      exact sessionOver_stops_colon polarity named stuck place
    | .block polarity named => exact sessionOver_stops_block polarity named stuck
    | @SessionShape.Breaks.inside role _ front need polarity named inner =>
      simp only [List.length_cons] at room ends
      have spot : place + 4 + front.length = there := by omega
      have beyond : place < need.place there :=
        Nat.lt_of_lt_of_le (by omega) (BranchShape.SeriesBreaks.place_le spot inner)
      have unclosed := BranchShape.SeriesBreaks.unclosed (d := d) stuck spot
        (Nat.succ_pos (place + 3)) (by omega) (Nat.le_refl front.length) inner
      exact sessionOver_stops_inside polarity named unclosed beyond

theorem BranchShape.SeriesBreaks.unclosed (stuck : need.Stuck rest)
    (ends : place + front.length = there) (behind : 0 < place) (room : front.length ≤ d)
    (enough : front.length ≤ n) : BranchShape.SeriesBreaks first place front need →
      Unclosed (members (branchShape (payloadShape d) (sessionShape d)) n first) closeBrace
        ⟨place, front ++ rest⟩ (need.left there)
  | .start => by
    obtain rfl : place = there := ends
    have unnamed : NoName ⟨place, rest⟩ := fun _ more named => stuck.other (.label named) more
    refine (branchShape_stops_label _ _ unnamed).unclosed_start behind (by decide) fun opened => ?_
    subst opened
    exact stuck.other .closeBlock
  | .opening named => by
    have stops := branchShape_stops_opening (payloadShape d) (sessionShape d) named place
      (stuck.other .opening)
    exact stops.unclosed_start behind (by decide) fun _ => by simp
  | @BranchShape.SeriesBreaks.payload name _ front _ _ named inner => by
    simp only [List.length_cons] at room ends
    have spot : place + 2 + front.length = there := by omega
    have stops := inner.stops (d := d) stuck spot (by omega)
    exact carriage_unclosed named (stops.bind _) (Nat.lt_of_lt_of_le (by omega) (inner.place_le spot))
      behind
  | .list named stands => by
    -- The name is a payload by itself, which the bracket behind it does not close.
    have passes := payloadShape_passes_name stands stuck (place + 2)
      (Nat.lt_of_lt_of_le (by simp) room)
    have stops := carriage_stops_closing _ (sessionShape d) passes (by simp)
    exact carriage_unclosed named (stops _) (Nat.le_add_right (place + 1) 2) behind
  | @BranchShape.SeriesBreaks.closing name _ carried front _ named phrase => by
    simp only [List.length_cons] at room ends
    have beyond : place < there := by omega
    have passes := phrase.passes (n := d) (by omega) rest (not_listTail_of_stuck stuck)
    have stops := carriage_stops_closing _ (sessionShape d) passes (stuck.other .closing) ⟨place, name⟩
    rw [show place + 2 + front.length = there by omega] at stops
    exact carriage_unclosed named stops beyond behind
  | @BranchShape.SeriesBreaks.dot name _ carried front _ named phrase => by
    simp only [List.cons_append, List.length_append, List.length_cons, List.length_nil] at room ends
    have beyond : place < there := by omega
    have passes := phrase.passes (n := d) (by omega) (.mark ')' :: rest)
      fun _ => not_listTail_mark (by decide)
    have stops := carriage_stops_dot _ (sessionShape d) passes (stuck.other .dot) ⟨place, name⟩
    rw [show place + 2 + front.length + 1 = there by omega] at stops
    simpa [Need.left, Need.place, Need.wanted] using carriage_unclosed named stops beyond behind
  | @BranchShape.SeriesBreaks.continuation name _ carried front ms _ _ named phrase inner => by
    simp only [List.cons_append, List.length_append, List.length_cons] at room ends
    have passes := phrase.passes (n := d) (by omega) (.mark ')' :: .mark '.' :: (ms ++ rest))
      fun _ => not_listTail_mark (by decide)
    have spot : place + 2 + front.length + 2 + ms.length = there := by omega
    have beyond := SessionShape.Breaks.place_le spot inner
    have stops := SessionShape.Breaks.stops (d := d) stuck spot (by omega) inner
    have stops := carriage_stops_continuation passes stops ⟨place, name⟩
    simpa using carriage_unclosed named stops (Nat.lt_of_lt_of_le (by omega) beyond) behind
  | @BranchShape.SeriesBreaks.behind _ branch front _ phrase => by
    have passes := phrase.passes room rest
    have some := phrase.length_pos
    rw [ends] at passes
    refine passes.unclosed_behind behind (by omega) fun l more same => ?_
    constructor
    · rintro rfl
      exact stuck.other .another more same
    · rintro rfl
      exact stuck.other .closeBrace more same
  | @BranchShape.SeriesBreaks.more _ branch front ms _ _ phrase inner => by
    simp only [List.length_append, List.length_cons] at room enough ends
    have passes := phrase.passes (n := d) (by omega) (.mark ',' :: (ms ++ rest))
    have some := phrase.length_pos
    rw [List.append_assoc, List.cons_append]
    refine passes.unclosed_more behind (k := ms.length) (by omega) (by simp) fun m more => ?_
    exact BranchShape.SeriesBreaks.unclosed stuck (by omega) (by omega) (by omega) more inner

end

end SessionSyntax
