import SessionSyntax.Proofs.Nesting
import SessionSyntax.Proofs.Reading
import SessionSyntax.Proofs.Writing

/-! Reading undoes rendering. Payloads come back as they are; a session comes back settled, since
a handler named `end` is written as an end is. The names must be canonical, as they are in every
tree that was read. And reading is compositional: what is pasted together from accepted texts, which
are taken as they are, is read as what they were read as. Between the parts of a branch, of a block and
of a tuple there is always a mark, so that no word goes on from one part to the next. -/
namespace SessionSyntax

mutual

theorem Session.Spelled.canonical : Session.Spelled session ls → session.Canonical
  | .done => trivial
  | .handler named _ => Symbol.canonical_ofWord named
  | .choice _ named series => by
    have role := Symbol.canonical_ofWord named
    obtain ⟨first, others⟩ := List.forall_mem_cons.mp (Branch.SeriesSpelled.canonical series)
    exact ⟨role, first, Branch.allCanonical_iff.mpr others⟩

theorem Branch.Spelled.canonical : Branch.Spelled branch ls → branch.Canonical
  | .mk named _ continued => ⟨Symbol.canonical_ofWord named, Session.Spelled.canonical continued⟩

theorem Branch.SeriesSpelled.canonical :
    Branch.SeriesSpelled branches ls → ∀ branch ∈ branches, branch.Canonical
  | .one spelled => by simpa using Branch.Spelled.canonical spelled
  | .more spelled series => by
    simpa using ⟨Branch.Spelled.canonical spelled, Branch.SeriesSpelled.canonical series⟩

end

theorem Session.canonical_of_parse (read : Session.parseWith config text = .ok session) :
    session.Canonical := by
  obtain ⟨_, _, _, spelled⟩ := (Session.parseWith_eq_ok_iff ..).mp read
  exact spelled.canonical

theorem Session.Canonical.parse_render {session : Session} (canonical : session.Canonical)
    (within : Text.NestsWithin limit session.render.toList) :
    Session.parseWith ⟨limit⟩ session.render = .ok session.settled := by
  obtain ⟨ls, spelled, writes⟩ := canonical.render_spelled
  exact (Session.parseWith_eq_ok_iff ..).mpr ⟨within, ls, writes.spaced, spelled⟩

theorem Payload.parse_render (payload : Payload)
    (within : Text.NestsWithin limit payload.render.toList) :
    Payload.parseWith ⟨limit⟩ payload.render = .ok payload := by
  obtain ⟨ls, spelled, writes⟩ := payload.render_spelled
  exact (Payload.parseWith_eq_ok_iff ..).mpr ⟨within, ls, writes.spaced, spelled⟩

/-- The rendering of a tree nests its brackets as deep as any text that is read as the tree. -/
theorem Session.nestsWithin_render (read : Session.parseWith ⟨limit⟩ text = .ok session) :
    Text.NestsWithin limit session.render.toList := by
  obtain ⟨within, ls, spaced, spelled⟩ := (Session.parseWith_eq_ok_iff ..).mp read
  obtain ⟨ms, settled, writes⟩ := spelled.canonical.render_spelled
  rw [← peak_le_iff writes.spaced, settled.peak_eq, Session.nesting_settled, ← spelled.peak_eq]
  exact (peak_le_iff spaced).mpr within

/-- Rendering and reading again changes no text that was rendered from a text. -/
theorem Session.parse_render_of_parse (read : Session.parseWith ⟨limit⟩ text = .ok session) :
    ∃ again, Session.parseWith ⟨limit⟩ session.render = .ok again ∧ again.render = session.render := by
  have canonical := Session.canonical_of_parse read
  exact ⟨session.settled, canonical.parse_render (Session.nestsWithin_render read),
    Session.render_settled session⟩

/-- A canonical session is read back settled from its text, with the text unchanged; it comes back
as it was just if it has no handler named `end`. A payload always comes back as it was. -/
theorem rendering_reads_back (limit : Nat) :
    (∀ session : Session, session.Canonical → Text.NestsWithin limit session.render.toList →
      Session.parseWith ⟨limit⟩ session.render = .ok session.settled ∧
      (Session.parseWith ⟨limit⟩ session.render = .ok session ↔
        ⟨Session.endWord⟩ ∉ session.handlerNames) ∧
      session.settled.render = session.render) ∧
    (∀ text session, Session.parseWith ⟨limit⟩ text = .ok session →
      ∃ again, Session.parseWith ⟨limit⟩ session.render = .ok again ∧
        again.render = session.render) ∧
    ∀ payload : Payload, Text.NestsWithin limit payload.render.toList →
      Payload.parseWith ⟨limit⟩ payload.render = .ok payload := by
  refine ⟨fun session canonical within => ?_, fun _ _ => Session.parse_render_of_parse,
    Payload.parse_render⟩
  have read := canonical.parse_render within
  refine ⟨read, ?_, session.render_settled⟩
  rw [read, Except.ok.injEq, Session.settled_eq_iff]

/-- The role, the label and the handler all go by the word `end`; only the handler becomes an end. -/
theorem rendering_reads_back_end :
    Session.parseWith ⟨3⟩ "+end:\x7bend((number[], unit)).end\x7d" = .ok (.send ⟨"end"⟩
      ⟨⟨"end"⟩, .tuple ⟨.list .number, [.basic .unit]⟩, .done⟩) := by
  have spelling : Symbol.ofWord "end".toList = ⟨"end"⟩ := by decide
  have called : Symbol.Canonical ⟨"end"⟩ := spelling ▸ Symbol.canonical_ofWord (by decide)
  exact ((rendering_reads_back 3).1 (.send ⟨"end"⟩
    ⟨⟨"end"⟩, .tuple ⟨.list .number, [.basic .unit]⟩, .handler ⟨"end"⟩⟩)
    ⟨called, ⟨called, called⟩, trivial⟩ (by decide)).1

/-- The texts of the parts of a branch. -/
structure BranchTexts where
  label : String
  payload : String
  continuation : String

namespace BranchTexts

def pasted (texts : BranchTexts) : String :=
  texts.label ++ "(" ++ texts.payload ++ ")." ++ texts.continuation

/-- The label is an identifier and the other parts are accepted on their own, each within some limit,
as the parts of the branch. -/
structure ReadAs (texts : BranchTexts) (branch : Branch) : Prop where
  named : isIdentifier texts.label.toList
  label : branch.label = ⟨normalize texts.label⟩
  payload : ∃ limit, Payload.parseWith ⟨limit⟩ texts.payload = .ok branch.payload
  continuation : ∃ limit, Session.parseWith ⟨limit⟩ texts.continuation = .ok branch.continuation

/-- The nesting of a branch within a block, told from the texts of its parts. -/
def nesting (texts : BranchTexts) : Nat :=
  max (2 + Text.highest Text.nesting texts.payload.toList)
    (1 + Text.highest Text.nesting texts.continuation.toList)

end BranchTexts

def Session.pasted (polarity : Polarity) (role : String) (branches : List BranchTexts) : String :=
  String.singleton polarity.sign ++ role ++ ":\x7b" ++
    String.intercalate ", " (branches.map BranchTexts.pasted) ++ "\x7d"

def Payload.pasted (elements : List String) : String :=
  "(" ++ String.intercalate ", " elements ++ ")"

theorem Spaced.writes (spaced : Spaced text ls) : Writes text ls := by
  intro more ms apart behind
  refine spaced.append behind ?_
  rintro ⟨_, c, head, letter⟩
  exact apart c head letter

theorem Payload.Spelled.parse (spelled : Payload.Spelled payload ls) (spaced : Spaced text.toList ls)
    (within : payload.nesting ≤ limit) : Payload.parseWith ⟨limit⟩ text = .ok payload := by
  refine (Payload.parseWith_eq_ok_iff ..).mpr ⟨?_, ls, spaced, spelled⟩
  rwa [Text.nestsWithin_iff, spelled.highest_nesting spaced]

theorem Session.Spelled.parse (spelled : Session.Spelled session ls) (spaced : Spaced text.toList ls)
    (within : session.nesting ≤ limit) : Session.parseWith ⟨limit⟩ text = .ok session := by
  refine (Session.parseWith_eq_ok_iff ..).mpr ⟨?_, ls, spaced, spelled⟩
  rwa [Text.nestsWithin_iff, spelled.highest_nesting spaced]

theorem Payload.exists_written (read : ∃ limit, Payload.parseWith ⟨limit⟩ text = .ok payload) :
    ∃ ls, payload.Spelled ls ∧ Spaced text.toList ls := by
  obtain ⟨_, read⟩ := read
  obtain ⟨_, ls, spaced, spelled⟩ := (Payload.parseWith_eq_ok_iff ..).mp read
  exact ⟨ls, spelled, spaced⟩

theorem Session.exists_written (read : ∃ limit, Session.parseWith ⟨limit⟩ text = .ok session) :
    ∃ ls, session.Spelled ls ∧ Spaced text.toList ls := by
  obtain ⟨_, read⟩ := read
  obtain ⟨_, ls, spaced, spelled⟩ := (Session.parseWith_eq_ok_iff ..).mp read
  exact ⟨ls, spelled, spaced⟩

namespace BranchTexts.ReadAs

variable {texts : BranchTexts} {branch : Branch}

theorem exists_written (reads : texts.ReadAs branch) :
    ∃ ls, branch.Spelled ls ∧ Writes texts.pasted.toList ls := by
  obtain ⟨label, payload, continuation⟩ := branch
  obtain ⟨named, rfl, carries, continues⟩ := reads
  obtain ⟨ls, carried, inside⟩ := Payload.exists_written carries
  obtain ⟨ms, continued, behind⟩ := Session.exists_written continues
  have text : texts.pasted.toList = texts.label.toList ++ '(' ::
      (texts.payload.toList ++ ')' :: '.' :: texts.continuation.toList) := by
    simp [BranchTexts.pasted]
  refine ⟨_, .mk named carried continued, ?_⟩
  rw [text]
  exact (Writes.word named).before '(' (by decide)
    (inside.writes.before ')' (by decide) (behind.writes.mark '.' (by decide)))

theorem nesting_eq (reads : texts.ReadAs branch) : texts.nesting = 1 + branch.nesting := by
  obtain ⟨label, payload, continuation⟩ := branch
  obtain ⟨_, _, carries, continues⟩ := reads
  obtain ⟨ls, carried, inside⟩ := Payload.exists_written carries
  obtain ⟨ms, continued, behind⟩ := Session.exists_written continues
  simp only [BranchTexts.nesting, carried.highest_nesting inside, continued.highest_nesting behind,
    Branch.nesting]
  omega

end BranchTexts.ReadAs

theorem exists_of_forall₂_right {R : α → β → Prop} {p : α → Prop} {xs : List α} {ys : List β}
    (each : List.Forall₂ R xs ys) (holds : ∀ x ∈ xs, p x) (member : y ∈ ys) : ∃ x, p x ∧ R x y :=
  exists_of_forall₂ ((List.forall₂_and_left xs ys).mpr ⟨holds, each⟩).flip member

/-- A choice pasted together from the texts of its branches is read as what they are read as. -/
theorem Session.parse_pasted (polarity : Polarity) (named : isIdentifier role.toList)
    (branches : NonEmpty Branch) (each : List.Forall₂ BranchTexts.ReadAs texts branches.toList)
    (within : ∀ branch ∈ texts, branch.nesting ≤ limit) :
    Session.parseWith ⟨limit⟩ (Session.pasted polarity role texts) =
      .ok (.choice polarity ⟨normalize role⟩ branches) := by
  obtain ⟨first, rest⟩ := branches
  obtain ⟨ls, series, written⟩ := Writes.exists_joined Branch.SeriesSpelled .one .more
    (List.cons_ne_nil first rest) (each.imp fun _ _ reads => reads.exists_written)
  have block := (written.before '\x7d' (by decide) Writes.nil).mark '\x7b' (by decide)
  have whole := ((Writes.word named).before ':' (by decide) block).mark _ polarity.isMark_sign
  have text : (Session.pasted polarity role texts).toList = polarity.sign :: (role.toList ++ ':' ::
      '\x7b' :: ([',', ' '].intercalate (texts.map fun branch => branch.pasted.toList) ++ ['\x7d'])) := by
    simp [Session.pasted, String.toList_intercalate, Function.comp_def]
  refine Session.Spelled.parse (.choice polarity named series) (text ▸ whole.spaced) ?_
  refine Session.nesting_choice_le_iff.mpr fun branch member => ?_
  obtain ⟨_, bound, reads⟩ := exists_of_forall₂_right each within member
  rwa [reads.nesting_eq] at bound

/-- A tuple pasted together from accepted texts is read as the tuple of what they are read as. -/
theorem Payload.parse_pasted (payloads : NonEmpty Payload)
    (each : List.Forall₂ (fun text payload => ∃ limit, Payload.parseWith ⟨limit⟩ text = .ok payload)
      texts payloads.toList)
    (within : ∀ text ∈ texts, 1 + Text.highest Text.nesting text.toList ≤ limit) :
    Payload.parseWith ⟨limit⟩ (Payload.pasted texts) = .ok (.tuple payloads) := by
  obtain ⟨first, rest⟩ := payloads
  have writes : List.Forall₂ (fun text payload => ∃ ls, payload.Spelled ls ∧ Writes text.toList ls)
      texts (first :: rest) := by
    refine each.imp fun text payload read => ?_
    obtain ⟨ls, spelled, spaced⟩ := Payload.exists_written read
    exact ⟨ls, spelled, spaced.writes⟩
  obtain ⟨ls, series, written⟩ := Writes.exists_joined Payload.SeriesSpelled .one .more
    (List.cons_ne_nil first rest) writes
  have whole := (written.mark '(' (by decide)).before ')' (by decide) Writes.nil
  have text : (Payload.pasted texts).toList =
      '(' :: [',', ' '].intercalate (texts.map String.toList) ++ [')'] := by
    simp [Payload.pasted, String.toList_intercalate]
  refine Payload.Spelled.parse (.tuple series) (text ▸ whole.spaced) ?_
  refine Payload.nesting_tuple_le_iff.mpr fun payload member => ?_
  obtain ⟨_, bound, read⟩ := exists_of_forall₂_right each within member
  obtain ⟨ls, spelled, spaced⟩ := Payload.exists_written read
  rwa [spelled.highest_nesting spaced] at bound

/-- Reading is compositional: a choice and a tuple that are pasted together from the texts of their
parts, each accepted on its own, are read as what the parts are read as, within any limit that has
room for the brackets around them. -/
theorem pasted_parts_read (limit : Nat) :
    (∀ polarity role texts (branches : NonEmpty Branch), isIdentifier role.toList →
      List.Forall₂ BranchTexts.ReadAs texts branches.toList →
      (∀ branch ∈ texts, branch.nesting ≤ limit) →
      Session.parseWith ⟨limit⟩ (Session.pasted polarity role texts) =
        .ok (.choice polarity ⟨normalize role⟩ branches)) ∧
    (∀ texts (payloads : NonEmpty Payload),
      List.Forall₂ (fun text payload => ∃ limit, Payload.parseWith ⟨limit⟩ text = .ok payload)
        texts payloads.toList →
      (∀ text ∈ texts, 1 + Text.highest Text.nesting text.toList ≤ limit) →
      Payload.parseWith ⟨limit⟩ (Payload.pasted texts) = .ok (.tuple payloads)) := by
  constructor
  · intro polarity role texts branches named each within
    exact Session.parse_pasted polarity named branches each within
  · intro texts payloads each within
    exact Payload.parse_pasted payloads each within

theorem pasted_parts_read_blanks :
    Session.parseWith ⟨3⟩ "&Shop:\x7bgetItem( (unit) ).\tend , quit(string). x\x7d" =
      .ok (.choice .receive ⟨"shop"⟩ ⟨⟨⟨"get_item"⟩, .tuple ⟨.basic .unit, []⟩, .done⟩,
        [⟨⟨"quit"⟩, .basic .binary, .handler ⟨"x"⟩⟩]⟩) ∧
    Payload.parseWith ⟨1⟩ "( unit, number[]\n)" = .ok (.tuple ⟨.basic .unit, [.list .number]⟩) := by
  constructor
  · have one : (BranchTexts.mk "getItem" " (unit) " "\tend ").ReadAs
        ⟨⟨"get_item"⟩, .tuple ⟨.basic .unit, []⟩, .done⟩ :=
      ⟨by decide, by decide, ⟨1, by cbv⟩, ⟨0, by cbv⟩⟩
    have two : (BranchTexts.mk "quit" "string" " x").ReadAs
        ⟨⟨"quit"⟩, .basic .binary, .handler ⟨"x"⟩⟩ :=
      ⟨by decide, by decide, ⟨0, by cbv⟩, ⟨0, by cbv⟩⟩
    have pasted : Session.pasted .receive "Shop" [⟨"getItem", " (unit) ", "\tend "⟩,
        ⟨"quit", "string", " x"⟩] = "&Shop:\x7bgetItem( (unit) ).\tend , quit(string). x\x7d" := by
      decide
    have role : normalize "Shop" = "shop" := by decide
    rw [← pasted, ← role]
    exact (pasted_parts_read 3).1 .receive "Shop" _ ⟨_, [_]⟩ (by decide) (.cons one (.cons two .nil))
      (by decide)
  · have pasted : Payload.pasted [" unit", "number[]\n"] = "( unit, number[]\n)" := by decide
    rw [← pasted]
    exact (pasted_parts_read 1).2 _ ⟨_, [_]⟩
      (.cons ⟨0, by cbv⟩ (.cons ⟨0, by cbv⟩ .nil)) (by decide)

end SessionSyntax
