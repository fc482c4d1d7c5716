import SessionSyntax.Proofs.RoundTrip

/-! Names may be respelled freely. Texts are read as one tree just if their lexemes have the same
keys: no lexeme of an accepted text is redundant, and of a name only the canonical spelling counts.
The keys alone tell whether a text is accepted; for this they are followed through the grammar in
both directions. The keys of a tree are those of any lexemes that spell it. -/
namespace SessionSyntax

mutual

/-- The keys of any lexemes that spell the payload. -/
def Payload.keys : Payload → List Key
  | .basic kind => [.lexeme kind.lexeme]
  | .list element => [.lexeme element.lexeme, .lexeme (.mark '['), .lexeme (.mark ']')]
  | .tuple ⟨first, rest⟩ =>
    .lexeme (.mark '(') :: (first.keys ++ Payload.moreKeys rest ++ [.lexeme (.mark ')')])

def Payload.moreKeys : List Payload → List Key
  | [] => []
  | payload :: rest => .lexeme (.mark ',') :: payload.keys ++ Payload.moreKeys rest

end

def Symbol.key (symbol : Symbol) : Key := .lexeme (.word symbol.text.toList)

mutual

def Session.keys : Session → List Key
  | .done => [.done]
  | .handler name => [name.key]
  | .choice polarity role ⟨first, rest⟩ =>
    .lexeme (.mark polarity.sign) :: role.key :: .lexeme (.mark ':') :: .lexeme (.mark '\x7b') ::
      (first.keys ++ Branch.moreKeys rest ++ [.lexeme (.mark '\x7d')])

def Branch.keys : Branch → List Key
  | ⟨label, payload, continuation⟩ =>
    label.key :: .lexeme (.mark '(') ::
      (payload.keys ++ .lexeme (.mark ')') :: .lexeme (.mark '.') :: continuation.keys)

def Branch.moreKeys : List Branch → List Key
  | [] => []
  | branch :: rest => .lexeme (.mark ',') :: branch.keys ++ Branch.moreKeys rest

end

/-- From the scope on, the keys are at the front just if what stands for them is, and the scope
behind that is `next`. -/
def Tells (scope : Scope) (ks : List Key) (stands : List Lexeme → Prop) (next : Scope) : Prop :=
  ∀ ls more, keysFrom scope ls = ks ++ more ↔
    ∃ front rest, ls = front ++ rest ∧ stands front ∧ keysFrom next rest = more

namespace Tells

theorem congr (tells : Tells scope ks stands next) (same : ∀ ls, stands ls ↔ others ls) :
    Tells scope ks others next := by
  obtain rfl : stands = others := funext fun ls => propext (same ls)
  exact tells

theorem nil : Tells scope [] (· = []) scope := by
  intro ls more
  simp

theorem cons (one : Lexeme → Prop) (keyed : ∀ l, scope.key l = k ↔ one l)
    (behind : ∀ l, one l → scope.behind l = between) (rest : Tells between ks stands next) :
    Tells scope (k :: ks) (fun ls => ∃ l ms, ls = l :: ms ∧ one l ∧ stands ms) next := by
  intro ls more
  constructor
  · intro told
    cases ls with
    | nil => cases told
    | cons l ls =>
      obtain ⟨here, further⟩ := List.cons.inj told
      have holds := (keyed l).mp here
      rw [behind l holds] at further
      obtain ⟨front, others, rfl, stand, last⟩ := (rest ls more).mp further
      exact ⟨l :: front, others, rfl, ⟨l, front, rfl, holds, stand⟩, last⟩
  · rintro ⟨_, others, rfl, ⟨l, front, rfl, holds, stand⟩, last⟩
    have further := (rest (front ++ others) more).mpr ⟨front, others, rfl, stand, last⟩
    rw [List.cons_append, keysFrom, behind l holds, further, (keyed l).mpr holds, List.cons_append]

theorem append (first : Tells scope ks stands between) (second : Tells between js others next) :
    Tells scope (ks ++ js) (fun ls => ∃ front rest, ls = front ++ rest ∧ stands front ∧ others rest)
      next := by
  intro ls more
  rw [List.append_assoc, first]
  constructor
  · rintro ⟨front, behind, rfl, stand, told⟩
    obtain ⟨middle, rest, rfl, last, further⟩ := (second behind more).mp told
    exact ⟨front ++ middle, rest, by simp, ⟨front, middle, rfl, stand, last⟩, further⟩
  · rintro ⟨_, rest, rfl, ⟨front, middle, rfl, stand, last⟩, further⟩
    exact ⟨front, middle ++ rest, by simp, stand, (second _ _).mpr ⟨middle, rest, rfl, last, further⟩⟩

theorem mark (rest : Tells between ks stands next) (c : Char)
    (behind : scope.behind (.mark c) = between) :
    Tells scope (.lexeme (.mark c) :: ks) (fun ls => ∃ ms, ls = .mark c :: ms ∧ stands ms) next := by
  refine (cons (· = .mark c) ?_ (by rintro _ rfl; exact behind) rest).congr (by simp)
  intro l
  cases l with
  | mark => simp [Scope.key]
  | word letters => cases scope <;> by_cases last : letters = Session.endWord.toList <;>
      simp [Scope.key, last]

/-- Inside of parentheses a word goes by its own spelling. -/
theorem keyword (kind : BasicKind) (rest : Tells (.keyword depth) ks stands next) :
    Tells (.keyword depth) (.lexeme kind.lexeme :: ks)
      (fun ls => ∃ ms, ls = kind.lexeme :: ms ∧ stands ms) next := by
  refine (cons (· = kind.lexeme) ?_ (by rintro _ rfl; rfl) rest).congr (by simp)
  intro l
  cases l <;> simp [Scope.key]

/-- Roles and labels go by their symbols. -/
theorem name {name : Symbol} (canonical : name.Canonical) (rest : Tells .name ks stands next) :
    Tells .name (name.key :: ks) (fun ls => ∃ letters ms, ls = .word letters :: ms ∧
      isIdentifier letters ∧ Symbol.ofWord letters = name ∧ stands ms) next := by
  let one (l : Lexeme) := ∃ letters, l = .word letters ∧ isIdentifier letters ∧
    Symbol.ofWord letters = name
  refine (cons one ?_ (by rintro _ ⟨_, rfl, _⟩; rfl) rest).congr ?_
  · intro l
    cases l <;> simp [one, Scope.key, Symbol.key, canonical.spelling_iff]
  · intro ls
    constructor
    · rintro ⟨_, ms, rfl, ⟨letters, rfl, named, called⟩, stand⟩
      exact ⟨letters, ms, rfl, named, called, stand⟩
    · rintro ⟨letters, ms, rfl, named, called, stand⟩
      exact ⟨_, ms, rfl, ⟨letters, rfl, named, called⟩, stand⟩

/-- Members that are told in one scope are told in series, if a comma leaves them in the scope. -/
theorem series {stands : α → List Lexeme → Prop} (series : List α → List Lexeme → Prop)
    {keys : α → List Key} (one : ∀ {a ls}, series [a] ls ↔ stands a ls)
    (more : ∀ {a b others ls}, series (a :: b :: others) ls ↔
      ∃ front rest, ls = front ++ .mark ',' :: rest ∧ stands a front ∧ series (b :: others) rest)
    (comma : scope.behind (.mark ',') = scope) (first : α) (rest : List α)
    (each : ∀ a ∈ first :: rest, Tells scope (keys a) (stands a) scope) :
    Tells scope (keys first ++ rest.flatMap fun a => .lexeme (.mark ',') :: keys a)
      (series (first :: rest)) scope := by
  obtain ⟨here, others⟩ := List.forall_mem_cons.mp each
  induction rest generalizing first with
  | nil =>
    rw [List.flatMap_nil, List.append_nil]
    exact here.congr fun ls => one.symm
  | cons second rest ih =>
    have behind := ih second others (others second (by simp)) (List.forall_mem_cons.mp others).2
    refine (here.append (behind.mark ',' comma)).congr fun ls => ?_
    rw [more]
    constructor
    · rintro ⟨front, _, rfl, stand, last, rfl, further⟩
      exact ⟨front, last, rfl, stand, further⟩
    · rintro ⟨front, last, rfl, stand, further⟩
      exact ⟨front, _, rfl, stand, last, rfl, further⟩

end Tells

theorem Payload.moreKeys_eq (payloads : List Payload) :
    Payload.moreKeys payloads = payloads.flatMap fun payload => .lexeme (.mark ',') :: payload.keys := by
  induction payloads with
  | nil => rfl
  | cons payload payloads ih => simp [Payload.moreKeys, ih]

theorem Payload.seriesSpelled_one : Payload.SeriesSpelled [payload] ls ↔ payload.Spelled ls := by
  constructor
  · rintro (spelled | ⟨_, ⟨⟩⟩)
    exact spelled
  · exact .one

theorem Payload.seriesSpelled_more :
    Payload.SeriesSpelled (payload :: next :: others) ls ↔ ∃ front rest,
      ls = front ++ .mark ',' :: rest ∧ payload.Spelled front ∧
        Payload.SeriesSpelled (next :: others) rest := by
  constructor
  · rintro (_ | ⟨spelled, series⟩)
    exact ⟨_, _, rfl, spelled, series⟩
  · rintro ⟨_, _, rfl, spelled, series⟩
    exact .more spelled series

theorem Payload.tells (payload : Payload) (depth : Nat) :
    Tells (.keyword depth) payload.keys payload.Spelled (.keyword depth) := by
  induction payload generalizing depth with
  | basic kind =>
    refine (Tells.nil.keyword kind).congr fun ls => ?_
    constructor
    · rintro ⟨_, rfl, rfl⟩
      exact .basic kind
    · rintro ⟨⟩
      exact ⟨[], rfl, rfl⟩
  | list element =>
    have closing : Tells (.keyword depth) _ _ (.keyword depth) := Tells.nil.mark ']' rfl
    have brackets : Tells (.keyword depth) _ _ (.keyword depth) := closing.mark '[' rfl
    refine (brackets.keyword element).congr fun ls => ?_
    constructor
    · rintro ⟨_, rfl, _, rfl, _, rfl, rfl⟩
      exact .list element
    · rintro ⟨⟩
      exact ⟨_, rfl, _, rfl, _, rfl, rfl⟩
  | tuple elements ih =>
    obtain ⟨first, rest⟩ := elements
    have members := Tells.series Payload.SeriesSpelled Payload.seriesSpelled_one
      Payload.seriesSpelled_more rfl first rest fun payload member => ih payload member (depth + 1)
    have closing : Tells (.keyword (depth + 1)) _ _ (.keyword depth) := Tells.nil.mark ')' rfl
    have opening : Tells (.keyword depth) _ _ (.keyword depth) := (members.append closing).mark '(' rfl
    rw [Payload.keys, Payload.moreKeys_eq]
    refine opening.congr fun ls => ?_
    constructor
    · rintro ⟨_, rfl, inside, _, rfl, series, _, rfl, rfl⟩
      exact .tuple series
    · rintro ⟨⟩
      exact ⟨_, rfl, _, _, rfl, ‹_›, _, rfl, rfl⟩

theorem Branch.moreKeys_eq (branches : List Branch) :
    Branch.moreKeys branches = branches.flatMap fun branch => .lexeme (.mark ',') :: branch.keys := by
  induction branches with
  | nil => rfl
  | cons branch branches ih => simp [Branch.moreKeys, ih]

theorem Branch.seriesSpelled_one : Branch.SeriesSpelled [branch] ls ↔ branch.Spelled ls := by
  constructor
  · rintro (spelled | ⟨_, ⟨⟩⟩)
    exact spelled
  · exact .one

theorem Branch.seriesSpelled_more :
    Branch.SeriesSpelled (branch :: next :: others) ls ↔ ∃ front rest,
      ls = front ++ .mark ',' :: rest ∧ branch.Spelled front ∧
        Branch.SeriesSpelled (next :: others) rest := by
  constructor
  · rintro (_ | ⟨spelled, series⟩)
    exact ⟨_, _, rfl, spelled, series⟩
  · rintro ⟨_, _, rfl, spelled, series⟩
    exact .more spelled series

theorem Branch.tells {branch : Branch} (canonical : branch.Canonical)
    (next : branch.continuation.Canonical →
      Tells .session branch.continuation.keys branch.continuation.Spelled .name) :
    Tells .name branch.keys branch.Spelled .name := by
  obtain ⟨label, payload, continuation⟩ := branch
  obtain ⟨canonical, further⟩ := canonical
  -- From the end to the front: a key is told in front of keys that are told already.
  have dot : Tells .name _ _ .name := (next further).mark '.' rfl
  have closing : Tells (.keyword 0) _ _ .name := dot.mark ')' rfl
  have opening : Tells .name _ _ .name := ((payload.tells 0).append closing).mark '(' rfl
  refine (opening.name canonical).congr fun ls => ?_
  constructor
  · rintro ⟨letters, _, rfl, named, rfl, _, rfl, inside, _, rfl, carried, _, rfl, _, rfl, continued⟩
    exact .mk named carried continued
  · rintro ⟨named, carried, continued⟩
    exact ⟨_, _, rfl, named, rfl, _, rfl, _, _, rfl, carried, _, rfl, _, rfl, continued⟩

theorem Session.tells_done : Tells .session Session.done.keys Session.done.Spelled .name := by
  refine (Tells.nil.cons (· = .word Session.endWord.toList) ?_
    (by rintro _ rfl; rfl)).congr fun ls => ?_
  · intro l
    cases l <;> simp [Scope.key]
  · constructor
    · rintro ⟨_, _, rfl, rfl, rfl⟩
      exact .done
    · rintro ⟨⟩
      exact ⟨_, _, rfl, rfl, rfl⟩

theorem Session.tells_handler {name : Symbol} (canonical : name.Canonical) :
    Tells .session (Session.handler name).keys (Session.handler name).Spelled .name := by
  let one (l : Lexeme) := ∃ letters, l = .word letters ∧ letters ≠ Session.endWord.toList ∧
    isIdentifier letters ∧ Symbol.ofWord letters = name
  refine (Tells.nil.cons one ?_ (by rintro _ ⟨_, rfl, _⟩; rfl)).congr fun ls => ?_
  · intro l
    cases l with
    | mark => simp [one, Scope.key, Symbol.key]
    | word letters =>
      by_cases last : letters = Session.endWord.toList <;>
        simp [one, Scope.key, Symbol.key, last, canonical.spelling_iff]
  · constructor
    · rintro ⟨_, _, rfl, ⟨letters, rfl, other, named, rfl⟩, rfl⟩
      exact .handler named other
    · rintro ⟨⟩
      exact ⟨_, _, rfl, ⟨_, rfl, ‹_›, ‹_›, rfl⟩, rfl⟩

theorem Session.tells {session : Session} (canonical : session.Canonical) :
    Tells .session session.keys session.Spelled .name := by
  induction session with
  | done => exact Session.tells_done
  | handler name => exact Session.tells_handler canonical
  | choice polarity role branches ih =>
    obtain ⟨first, rest⟩ := branches
    obtain ⟨canonical, one, others⟩ := canonical
    have all := List.forall_mem_cons.mpr ⟨one, Branch.allCanonical_iff.mp others⟩
    have members := Tells.series Branch.SeriesSpelled Branch.seriesSpelled_one
      Branch.seriesSpelled_more rfl first rest
      fun branch member => Branch.tells (all branch member) (ih branch member)
    have closing : Tells .name _ _ .name := Tells.nil.mark '\x7d' rfl
    have opening : Tells .name _ _ .name := (members.append closing).mark '\x7b' rfl
    have colon : Tells .name _ _ .name := opening.mark ':' rfl
    have sign : Tells .session _ _ .name :=
      (colon.name canonical).mark polarity.sign (by cases polarity <;> rfl)
    rw [Session.keys, Branch.moreKeys_eq]
    refine sign.congr fun ls => ?_
    constructor
    · rintro ⟨_, rfl, letters, _, rfl, named, rfl, _, rfl, _, rfl, inside, _, rfl, series, _, rfl, rfl⟩
      exact .choice polarity named series
    · rintro ⟨⟩
      exact ⟨_, rfl, _, _, rfl, ‹_›, rfl, _, rfl, _, rfl, _, _, rfl, ‹_›, _, rfl, rfl⟩

theorem keysFrom_eq_nil_iff : keysFrom scope ls = [] ↔ ls = [] := by
  cases ls <;> simp [keysFrom]

theorem Session.Canonical.spelled_iff_keys {session : Session} (canonical : session.Canonical) :
    session.Spelled ls ↔ Lexeme.keys ls = session.keys := by
  have told := Session.tells canonical ls []
  rw [List.append_nil] at told
  rw [Lexeme.keys, told]
  simp [keysFrom_eq_nil_iff]

/-- Lexemes that spell a tree have its keys, and all others with these keys spell it as well. -/
theorem Session.Spelled.iff_keys (spelled : Session.Spelled session ls) :
    session.Spelled ms ↔ Lexeme.keys ls = Lexeme.keys ms := by
  have canonical := spelled.canonical
  rw [canonical.spelled_iff_keys, canonical.spelled_iff_keys.mp spelled, eq_comm]

theorem Session.Spelled.eq_iff (one : Session.Spelled first ls) (two : Session.Spelled second ms) :
    first = second ↔ Lexeme.keys ls = Lexeme.keys ms := by
  rw [← one.iff_keys]
  constructor
  · rintro rfl
    exact two
  · intro again
    exact LexemeReader.session_follows.unambiguous_tree Session.spelled_iff again two

-- In payload types no word is respelled.
mutual

theorem Payload.Spelled.keys_eq : Payload.Spelled payload ls → ls.map .lexeme = payload.keys
  | .basic kind => rfl
  | .list element => rfl
  | .tuple series => by
    have inside := List.tail_eq_of_cons_eq (Payload.SeriesSpelled.keys_eq series)
    simp [Payload.keys, inside]

/-- A comma in front makes the first member one of those behind commas. -/
theorem Payload.SeriesSpelled.keys_eq : Payload.SeriesSpelled payloads ls →
    .lexeme (.mark ',') :: ls.map .lexeme = Payload.moreKeys payloads
  | .one spelled => by simpa [Payload.moreKeys] using Payload.Spelled.keys_eq spelled
  | .more spelled series => by
    simpa [Payload.moreKeys, Payload.Spelled.keys_eq spelled] using Payload.SeriesSpelled.keys_eq series

end

theorem Payload.Spelled.eq_iff (one : Payload.Spelled first ls) (two : Payload.Spelled second ms) :
    first = second ↔ ls = ms := by
  constructor
  · rintro rfl
    have same := one.keys_eq.trans two.keys_eq.symm
    exact List.map_injective_iff.mpr (fun _ _ => Key.lexeme.inj) same
  · rintro rfl
    exact LexemeReader.payload_follows.unambiguous_tree Payload.spelled_iff one two

theorem Session.Spelled.peak_eq_of_keys (spelled : Session.Spelled session ls)
    (same : Lexeme.keys ls = Lexeme.keys ms) : peak ls = peak ms := by
  rw [spelled.peak_eq, (spelled.iff_keys.mpr same).peak_eq]

theorem Session.parse_respelled (one : Spaced first.toList ls) (two : Spaced second.toList ms)
    (read : Session.parseWith ⟨limit⟩ first = .ok session)
    (same : Lexeme.keys ls = Lexeme.keys ms) :
    Session.parseWith ⟨limit⟩ second = .ok session := by
  have within := ((Session.parseWith_eq_ok_iff ..).mp read).1
  have spelled := Session.spelled_of_parse one read
  refine (Session.parseWith_eq_ok_iff ..).mpr ⟨?_, ms, two, spelled.iff_keys.mpr same⟩
  rw [← peak_le_iff two, ← spelled.peak_eq_of_keys same]
  exact (peak_le_iff one).mpr within

/-- Trees tell the lexemes of a text up to the spelling of its names. Of two texts that are accepted
the trees are the same just if the lexemes have the same keys; and a text is accepted with every
other one of the same keys, as the same tree. The trees of payload types, which have no names, tell
the lexemes themselves. -/
theorem trees_tell_keys (one : Spaced first.toList ls) (two : Spaced second.toList ms) :
    (∀ limit other a b, Session.parseWith ⟨limit⟩ first = .ok a →
      Session.parseWith ⟨other⟩ second = .ok b → (a = b ↔ Lexeme.keys ls = Lexeme.keys ms)) ∧
    (Lexeme.keys ls = Lexeme.keys ms → ∀ limit session,
      Session.parseWith ⟨limit⟩ first = .ok session ↔
        Session.parseWith ⟨limit⟩ second = .ok session) ∧
    (∀ limit other p q, Payload.parseWith ⟨limit⟩ first = .ok p →
      Payload.parseWith ⟨other⟩ second = .ok q → (p = q ↔ ls = ms)) := by
  refine ⟨?_, ?_, ?_⟩
  · intro limit other a b read reread
    exact (Session.spelled_of_parse one read).eq_iff (Session.spelled_of_parse two reread)
  · intro same limit session
    exact ⟨fun read => Session.parse_respelled one two read same,
      fun read => Session.parse_respelled two one read same.symm⟩
  · intro limit other p q read reread
    exact (Payload.spelled_of_parse one read).eq_iff (Payload.spelled_of_parse two reread)

/-- Two spellings of one session, and a third text in which the handler's name is the word that ends
a session. -/
theorem trees_tell_keys_end :
    (∃ session, Session.parseWith ⟨2⟩ "&WebServer:\x7bGetItem(unit).End\x7d" = .ok session ∧
      Session.parseWith ⟨2⟩ "&web__server:\x7b get_item(unit).END \x7d" = .ok session) ∧
    (∃ session other, Session.parseWith ⟨2⟩ "&WebServer:\x7bGetItem(unit).End\x7d" = .ok session ∧
      Session.parseWith ⟨2⟩ "&WebServer:\x7bGetItem(unit).end\x7d" = .ok other ∧
      session ≠ other) ∧
    ∃ payload other, Payload.parseWith ⟨1⟩ "(unit,number[])" = .ok payload ∧
      Payload.parseWith ⟨1⟩ "( unit, number [] )" = .ok other ∧ payload = other := by
  have read : Session.parseWith ⟨2⟩ "&WebServer:\x7bGetItem(unit).End\x7d" = .ok (.receive
    ⟨"web_server"⟩ ⟨⟨"get_item"⟩, .basic .unit, .handler ⟨"end"⟩⟩) := by
    rw [Session.parseWith_eq]
    cbv
  have ends : Session.parseWith ⟨2⟩ "&WebServer:\x7bGetItem(unit).end\x7d" = .ok (.receive
    ⟨"web_server"⟩ ⟨⟨"get_item"⟩, .basic .unit, .done⟩) := by
    rw [Session.parseWith_eq]
    cbv
  have close : Payload.parseWith ⟨1⟩ "(unit,number[])" =
    .ok (.tuple ⟨.basic .unit, [.list .number]⟩) := by
    rw [Payload.parseWith_eq]
    cbv
  have wide : Payload.parseWith ⟨1⟩ "( unit, number [] )" =
    .ok (.tuple ⟨.basic .unit, [.list .number]⟩) := by
    rw [Payload.parseWith_eq]
    cbv
  have lexed (text : String) := (spaced_iff text).mpr rfl
  refine ⟨⟨_, read, ?_⟩, ⟨_, _, read, ends, ?_⟩, _, _, close, wide, ?_⟩
  · exact ((trees_tell_keys (lexed _) (lexed _)).2.1 (by decide) 2 _).mp read
  · apply ((trees_tell_keys (lexed _) (lexed _)).1 2 2 _ _ read ends).not.mpr
    decide
  · exact ((trees_tell_keys (lexed _) (lexed _)).2.2 1 1 _ _ close wide).mpr (by decide)

end SessionSyntax
