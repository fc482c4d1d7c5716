import SessionSyntax.Proofs.Decoding
import SessionSyntax.Proofs.RoundTrip

/-! However a tree is obtained, its symbols are canonical and none of its lists is empty: read from
text, decoded from JSON, built from parts, or taken from others as a part of them. What JSON would
break this is refused, however deep the flaw: decoding a node decodes all the fields that it carries,
down to the one that is flawed. -/
namespace SessionSyntax

/-- What every symbol of a tree is to be. -/
structure Symbol.WellFormed (symbol : Symbol) : Prop where
  snake : IsSnake symbol.text.toList
  single : NoDouble symbol.text.toList
  settled : normalize symbol.text = symbol.text

inductive Payload.WellFormed : Payload → Prop where
  | basic (kind : BasicKind) : Payload.WellFormed (.basic kind)
  | list (element : BasicKind) : Payload.WellFormed (.list element)
  | tuple : elements.toList ≠ [] → (∀ payload ∈ elements.toList, Payload.WellFormed payload) →
      Payload.WellFormed (.tuple elements)

mutual

inductive Session.WellFormed : Session → Prop where
  | done : Session.WellFormed .done
  | handler : name.WellFormed → Session.WellFormed (.handler name)
  | choice : role.WellFormed → branches.toList ≠ [] →
      (∀ branch ∈ branches.toList, Branch.WellFormed branch) →
      Session.WellFormed (.choice polarity role branches)

inductive Branch.WellFormed : Branch → Prop where
  | mk : label.WellFormed → payload.WellFormed → Session.WellFormed continuation →
      Branch.WellFormed ⟨label, payload, continuation⟩

end

-- Each constructor is a public way to a tree, or to a part of one.
mutual

inductive Symbol.Produced : Symbol → Prop where
  | new : Symbol.ofRaw raw = .ok symbol → Symbol.Produced symbol
  | decoded : Symbol.ofJson json = .ok symbol → Symbol.Produced symbol
  | role : Session.Produced (.choice polarity role branches) → Symbol.Produced role
  | handler : Session.Produced (.handler name) → Symbol.Produced name
  | label : Branch.Produced branch → Symbol.Produced branch.label

inductive Payload.Produced : Payload → Prop where
  | read : Payload.parseWith config text = .ok payload → Payload.Produced payload
  | decoded : Payload.ofJson json = .ok payload → Payload.Produced payload
  | basic (kind : BasicKind) : Payload.Produced (.basic kind)
  | list (element : BasicKind) : Payload.Produced (.list element)
  | tuple : (∀ payload ∈ elements, Payload.Produced payload) →
      Payload.tuple? elements = some payload → Payload.Produced payload
  | listElement : Payload.Produced list → list.listElement? = some payload → Payload.Produced payload
  | element : Payload.Produced (.tuple elements) → payload ∈ elements.toList →
      Payload.Produced payload
  | carried : Branch.Produced branch → Payload.Produced branch.payload

inductive Branch.Produced : Branch → Prop where
  | decoded : Branch.ofJson json = .ok branch → Branch.Produced branch
  | mk : Symbol.Produced label → Payload.Produced payload → Session.Produced continuation →
      Branch.Produced ⟨label, payload, continuation⟩
  | among : Session.Produced session → branch ∈ session.branches → Branch.Produced branch

inductive Session.Produced : Session → Prop where
  | read : Session.parseWith config text = .ok session → Session.Produced session
  | decoded : Session.ofJson json = .ok session → Session.Produced session
  | done : Session.Produced .done
  | send : Symbol.Produced role → Branch.Produced branch → Session.Produced (.send role branch)
  | receive : Symbol.Produced role → Branch.Produced branch → Session.Produced (.receive role branch)
  | choice : Symbol.Produced role → (∀ branch ∈ branches, Branch.Produced branch) →
      Session.choice? polarity role branches = some session → Session.Produced session
  | handler : Symbol.Produced name → Session.Produced (.handler name)
  | next : Branch.Produced branch → Session.Produced branch.continuation

end

theorem Json.Carries.eq_of_hasField {value other : Json} (carries : Json.Carries fields json)
    (listed : fields[place]? = some (name, other)) (has : Json.HasField name place value json) :
    value = other := by
  cases carries with
  | members found =>
    cases has with
    | member value =>
      have other := found _ (List.mem_of_getElem? listed)
      exact Option.some.inj (value.symm.trans other)
  | elements =>
    cases has with
    | element value =>
      rw [List.getElem?_map, listed] at value
      exact (Option.some.inj value).symm

namespace Decoder

theorem isIdentifier_of_symbol (decoded : symbol json = .ok name) : json.IsIdentifier := by
  obtain ⟨raw, rfl, named, _⟩ := symbol_eq_ok_iff.mp decoded
  exact named

theorem nonEmpty_nil_ne_ok {item : Decoder α} (values : NonEmpty α) :
    nonEmpty item (.array []) ≠ .ok values := by
  intro decoded
  obtain ⟨_, ⟨⟩, nothing⟩ := nonEmpty_eq_ok_iff.mp decoded
  exact NonEmpty.toList_ne_nil values (List.forall₂_nil_left_iff.mp nothing)

theorem exists_of_nonEmpty {item : Decoder α} (decoded : nonEmpty item (.array elements) = .ok values)
    (member : element ∈ elements) : ∃ value, item element = .ok value := by
  obtain ⟨_, ⟨⟩, all⟩ := nonEmpty_eq_ok_iff.mp decoded
  exact exists_of_forall₂ all member

theorem tuple_of_payloadWithin (first : Json.HasField "kind" 0 kind json)
    (tagged : payloadTag setting json kind = .ok .tuple) (second : Json.HasField "of" 1 held json)
    (decoded : payloadWithin setting n json = .ok made) :
    ∃ m values, nonEmpty (payloadWithin setting m) held = .ok values := by
  cases n with
  | zero => cases decoded
  | succ n =>
    obtain ⟨_, _, _, carries, read, built⟩ := payloadWithin_succ_eq_ok_iff.mp decoded
    obtain rfl := carries.eq_of_hasField rfl first
    obtain rfl := carries.eq_of_hasField rfl second
    obtain rfl := Except.ok.inj (tagged.symm.trans read)
    obtain ⟨values, built, _⟩ := map_eq_ok_iff.mp built
    exact ⟨n, values, built⟩

theorem FlawedPayload.refused (flawed : FlawedPayload setting json) (n : Nat) (made : Payload) :
    payloadWithin setting n json ≠ .ok made := by
  intro decoded
  induction flawed generalizing n made with
  | empty kind tagged held =>
    obtain ⟨_, values, built⟩ := tuple_of_payloadWithin kind tagged held decoded
    exact nonEmpty_nil_ne_ok values built
  | element kind tagged held member _ ih =>
    obtain ⟨m, _, built⟩ := tuple_of_payloadWithin kind tagged held decoded
    obtain ⟨payload, decoded⟩ := exists_of_nonEmpty built member
    exact ih m payload decoded

theorem holds_of_sessionWithin (first : Json.HasField "kind" 0 kind json)
    (tagged : tag setting sessionTags kind = .ok variant)
    (decoded : sessionWithin setting n json = .ok made) :
    ∃ m fields, Json.Carries (("kind", kind) :: fields) json ∧
      SessionHolds (sessionWithin .inside m) variant fields made := by
  cases n with
  | zero => cases decoded
  | succ n =>
    obtain ⟨_, _, fields, carries, read, holds⟩ := sessionWithin_succ_eq_ok_iff.mp decoded
    obtain rfl := carries.eq_of_hasField rfl first
    obtain rfl := Except.ok.inj (tagged.symm.trans read)
    exact ⟨n, fields, carries, holds⟩

/-- The decoder accepts no more than sessions of some depth. -/
def Bounded (setting : Setting) (session : Decoder Session) : Prop :=
  ∀ json made, session json = .ok made → ∃ n, sessionWithin setting n json = .ok made

theorem bounded_sessionWithin (setting : Setting) (n : Nat) :
    Bounded setting (sessionWithin setting n) :=
  fun _ _ decoded => ⟨n, decoded⟩

mutual

theorem FlawedBranch.refused {session : Decoder Session} (bounded : Bounded setting session) :
    FlawedBranch setting json → ∀ made, branchWith setting session json ≠ .ok made
  | .label first other => by
    intro made decoded
    obtain ⟨_, _, _, carries, named, _, _⟩ := branchWith_eq_ok_iff.mp decoded
    obtain rfl := carries.eq_of_hasField rfl first
    exact other (isIdentifier_of_symbol named)
  | .payload second flawed => by
    intro made decoded
    obtain ⟨_, _, _, carries, _, carried, _⟩ := branchWith_eq_ok_iff.mp decoded
    obtain rfl := carries.eq_of_hasField rfl second
    exact flawed.refused _ _ carried
  | .continuation third flawed => by
    have refused := FlawedSession.refused flawed
    intro made decoded
    obtain ⟨_, _, _, carries, _, _, continued⟩ := branchWith_eq_ok_iff.mp decoded
    obtain rfl := carries.eq_of_hasField rfl third
    obtain ⟨n, continued⟩ := bounded _ _ continued
    exact refused n _ continued

theorem FlawedSession.refused :
    FlawedSession setting json → ∀ n made, sessionWithin setting n json ≠ .ok made
  | .role kind tagged second other => by
    intro n made decoded
    obtain ⟨_, _, carries, _ | ⟨named, _⟩⟩ := holds_of_sessionWithin kind tagged decoded
    obtain rfl := carries.eq_of_hasField rfl second
    exact other (isIdentifier_of_symbol named)
  | .empty kind tagged third => by
    intro n made decoded
    obtain ⟨_, _, carries, _ | ⟨_, built⟩⟩ := holds_of_sessionWithin kind tagged decoded
    obtain rfl := carries.eq_of_hasField rfl third
    exact nonEmpty_nil_ne_ok _ built
  | .branch kind tagged third member flawed => by
    have refused := fun m => FlawedBranch.refused (bounded_sessionWithin .inside m) flawed
    intro n made decoded
    obtain ⟨m, _, carries, _ | ⟨_, built⟩⟩ := holds_of_sessionWithin kind tagged decoded
    obtain rfl := carries.eq_of_hasField rfl third
    obtain ⟨branch, decoded⟩ := exists_of_nonEmpty built member
    exact refused m branch decoded
  | .handler kind tagged second other => by
    intro n made decoded
    obtain ⟨_, _, carries, _ | _ | named⟩ := holds_of_sessionWithin kind tagged decoded
    obtain rfl := carries.eq_of_hasField rfl second
    exact other (isIdentifier_of_symbol named)

end

end Decoder

theorem Symbol.Canonical.wellFormed {symbol : Symbol} (canonical : symbol.Canonical) :
    symbol.WellFormed where
  snake := isSnake_iff.mpr ⟨canonical.1, canonical.2.1⟩
  single := canonical.2.2
  settled := congrArg Symbol.text (Symbol.ofWord_of_canonical canonical)

theorem Payload.wellFormed (payload : Payload) : payload.WellFormed := by
  induction payload with
  | basic kind => exact .basic kind
  | list element => exact .list element
  | tuple elements ih => exact .tuple elements.toList_ne_nil ih

theorem Branch.canonical_iff {branch : Branch} :
    branch.Canonical ↔ branch.label.Canonical ∧ branch.continuation.Canonical := by
  cases branch
  rfl

theorem Branch.Canonical.wellFormed {branch : Branch} (canonical : branch.Canonical)
    (next : branch.continuation.Canonical → branch.continuation.WellFormed) : branch.WellFormed := by
  obtain ⟨label, payload, continuation⟩ := branch
  exact .mk canonical.1.wellFormed payload.wellFormed (next canonical.2)

theorem Session.canonical_choice_iff {branches : NonEmpty Branch} :
    (Session.choice polarity role branches).Canonical ↔
      role.Canonical ∧ ∀ branch ∈ branches.toList, branch.Canonical := by
  obtain ⟨first, rest⟩ := branches
  rw [Session.Canonical, Branch.allCanonical_iff, NonEmpty.toList_mk, List.forall_mem_cons]

theorem Session.Canonical.of_mem_branches {session : Session} (canonical : session.Canonical)
    (member : branch ∈ session.branches) : branch.Canonical := by
  cases session with
  | done | handler => cases member
  | choice => exact (Session.canonical_choice_iff.mp canonical).2 branch member

theorem Session.Canonical.wellFormed {session : Session} (canonical : session.Canonical) :
    session.WellFormed := by
  induction session with
  | done => exact .done
  | handler name => exact .handler (Symbol.Canonical.wellFormed canonical)
  | choice polarity role branches ih =>
    obtain ⟨role, all⟩ := Session.canonical_choice_iff.mp canonical
    exact .choice role.wellFormed branches.toList_ne_nil
      fun branch member => (all branch member).wellFormed (ih branch member)

theorem Symbol.canonical_of_decode (decoded : Decoder.symbol json = .ok symbol) :
    symbol.Canonical := by
  obtain ⟨_, rfl, named, rfl⟩ := Decoder.symbol_eq_ok_iff.mp decoded
  exact Symbol.canonical_ofWord named

theorem Branch.canonical_of_decode {session : Decoder Session}
    (decoded : Decoder.branchWith setting session json = .ok branch)
    (next : ∀ {json made}, session json = .ok made → made.Canonical) : branch.Canonical := by
  obtain ⟨_, _, _, _, named, _, continued⟩ := Decoder.branchWith_eq_ok_iff.mp decoded
  exact Branch.canonical_iff.mpr ⟨Symbol.canonical_of_decode named, next continued⟩

theorem Session.canonical_of_decode (decoded : Decoder.sessionWithin setting n json = .ok session) :
    session.Canonical := by
  induction n generalizing setting json session with
  | zero => cases decoded
  | succ n ih =>
    obtain ⟨_, _, _, _, _, holds⟩ := Decoder.sessionWithin_succ_eq_ok_iff.mp decoded
    cases holds with
    | done => trivial
    | handler named => exact Symbol.canonical_of_decode named
    | choice named built =>
      obtain ⟨elements, _, all⟩ := Decoder.nonEmpty_eq_ok_iff.mp built
      refine Session.canonical_choice_iff.mpr ⟨Symbol.canonical_of_decode named, ?_⟩
      intro branch member
      obtain ⟨element, decoded⟩ := exists_of_forall₂ all.flip member
      exact Branch.canonical_of_decode decoded ih

theorem Symbol.canonical_of_ofRaw (made : Symbol.ofRaw raw = .ok symbol) : symbol.Canonical := by
  obtain ⟨named, rfl⟩ := Symbol.ofRaw_eq_ok_iff.mp made
  exact Symbol.canonical_ofWord named

mutual

theorem Symbol.Produced.canonical : Symbol.Produced symbol → symbol.Canonical
  | .new made => Symbol.canonical_of_ofRaw made
  | .decoded decoded => Symbol.canonical_of_decode decoded
  | .role session => (Session.canonical_choice_iff.mp (Session.Produced.canonical session)).1
  | .handler session => Session.Produced.canonical session
  | .label branch => (Branch.canonical_iff.mp (Branch.Produced.canonical branch)).1

theorem Branch.Produced.canonical : Branch.Produced branch → branch.Canonical
  | .decoded decoded => Branch.canonical_of_decode decoded Session.canonical_of_decode
  | .mk label _ continuation =>
    ⟨Symbol.Produced.canonical label, Session.Produced.canonical continuation⟩
  | .among session member => (Session.Produced.canonical session).of_mem_branches member

theorem Session.Produced.canonical : Session.Produced session → session.Canonical
  | .read read => Session.canonical_of_parse read
  | .decoded decoded => Session.canonical_of_decode decoded
  | .done => True.intro
  | .send role branch => Session.canonical_choice_iff.mpr
    ⟨Symbol.Produced.canonical role, by simpa using Branch.Produced.canonical branch⟩
  | .receive role branch => Session.canonical_choice_iff.mpr
    ⟨Symbol.Produced.canonical role, by simpa using Branch.Produced.canonical branch⟩
  | .choice role all made => by
    have called := Symbol.Produced.canonical role
    have each := fun branch member => Branch.Produced.canonical (all branch member)
    obtain ⟨branches, filled, rfl⟩ := Option.map_eq_some_iff.mp made
    obtain rfl := NonEmpty.ofList?_eq_some_iff.mp filled
    exact Session.canonical_choice_iff.mpr ⟨called, each⟩
  | .handler name => Symbol.Produced.canonical name
  | .next branch => (Branch.canonical_iff.mp (Branch.Produced.canonical branch)).2

end

theorem exists_error_of_ne_ok {result : Except ε α} (refused : ∀ a, result ≠ .ok a) :
    ∃ error, result = .error error := by
  cases result with
  | error error => exact ⟨error, rfl⟩
  | ok a => exact absurd rfl (refused a)

theorem Payload.tuple?_eq_none_iff : Payload.tuple? elements = none ↔ elements = [] := by
  rw [Payload.tuple?, Option.map_eq_none_iff, NonEmpty.ofList?_eq_none_iff]

theorem Session.choice?_eq_none_iff {branches : List Branch} :
    Session.choice? polarity role branches = none ↔ branches = [] := by
  rw [Session.choice?, Option.map_eq_none_iff, NonEmpty.ofList?_eq_none_iff]

/-- Every tree that can be obtained is well formed: reading, decoding and building keep all symbols
canonical and all lists filled. Nothing is repaired for this; JSON with an empty list or with a name
that is not an identifier is refused at any depth, as an empty list is where a tree is built. -/
theorem produced_wellFormed :
    (∀ symbol, Symbol.Produced symbol → symbol.WellFormed) ∧
    (∀ payload, Payload.Produced payload → payload.WellFormed) ∧
    (∀ branch, Branch.Produced branch → branch.WellFormed) ∧
    (∀ session, Session.Produced session → session.WellFormed) ∧
    (∀ json : Json, ¬json.IsIdentifier → ∃ error, Symbol.ofJson json = .error error) ∧
    (∀ json, Decoder.FlawedPayload .outside json → ∃ error, Payload.ofJson json = .error error) ∧
    (∀ json, Decoder.FlawedBranch .outside json → ∃ error, Branch.ofJson json = .error error) ∧
    (∀ json, Decoder.FlawedSession .outside json → ∃ error, Session.ofJson json = .error error) ∧
    (∀ elements, Payload.tuple? elements = none ↔ elements = []) ∧
    (∀ polarity role branches, Session.choice? polarity role branches = none ↔ branches = []) := by
  refine ⟨?_, ?_, ?_, ?_, ?_, ?_, ?_, ?_, ?_, ?_⟩
  · exact fun symbol produced => produced.canonical.wellFormed
  · exact fun payload _ => payload.wellFormed
  · intro branch produced
    exact produced.canonical.wellFormed Session.Canonical.wellFormed
  · exact fun session produced => produced.canonical.wellFormed
  · intro json other
    exact exists_error_of_ne_ok fun _ decoded => other (Decoder.isIdentifier_of_symbol decoded)
  · exact fun json flawed => exists_error_of_ne_ok (flawed.refused _)
  · intro json flawed
    have bounded : Decoder.Bounded .outside (Decoder.session .outside) :=
      fun _ _ decoded => ⟨_, decoded⟩
    exact exists_error_of_ne_ok (flawed.refused bounded)
  · exact fun json flawed => exists_error_of_ne_ok (flawed.refused _)
  · exact fun _ => Payload.tuple?_eq_none_iff
  · exact fun _ _ _ => Session.choice?_eq_none_iff

/-- A session built from a name, a decoded label and a payload that was read; and JSON with an empty
tuple in the payload of a branch. -/
theorem produced_wellFormed_mixed :
    Session.WellFormed (.receive ⟨"get_x"⟩ ⟨⟨"end"⟩, .basic .unit, .done⟩) ∧
    ∃ error, Session.ofJson (.object [("kind", .string "send"), ("to", .string "a"),
      ("branches", .array [.array [.string "b", .array [.string "tuple", .array []],
        .array [.string "end"]]])]) = .error error := by
  have role : Symbol.Produced ⟨"get_x"⟩ := .new (show Symbol.ofRaw "getX" = _ from rfl)
  have label : Symbol.Produced ⟨"end"⟩ := .decoded (show Symbol.ofJson (.string "END") = _ from rfl)
  have read : Payload.parseWith ⟨0⟩ " unit " = .ok (.basic .unit) := by cbv
  have payload : Decoder.FlawedPayload .inside (.array [.string "tuple", .array []]) :=
    .empty (.element rfl) rfl (.element rfl)
  refine ⟨?_, ?_⟩
  · exact produced_wellFormed.2.2.2.1 _ (.receive role (.mk label (.read read) .done))
  · apply produced_wellFormed.2.2.2.2.2.2.2.1
    exact .branch (.member rfl) rfl (.member rfl) List.mem_cons_self (.payload (.element rfl) payload)

end SessionSyntax
