import Lookahead.Proofs.Sets.Follow

/-!
# What can come next in a sequence

A sequence is followed when FOLLOW of each of its nonterminals holds every symbol
that can come right after it there.  Bodies are, and so is every sequence derived
from the start symbol and the end marker.
-/

namespace Lookahead

variable {first : FirstSets} {follow : FollowSets} {after other : Symbol → Prop}

theorem headD_append (word more : List Symbol) (default : Symbol) :
    (word ++ more).headD default = word.headD (more.headD default) := by
  cases word with
  | nil => rfl
  | cons head rest => rfl

/-- A symbol can come first in a sequence, or after it where the sequence vanishes. -/
def FirstSets.Opens (first : FirstSets) (after : Symbol → Prop) (symbols : List Symbol)
    (symbol : Symbol) : Prop :=
  (symbol ∈ first.ofSequence symbols ∧ symbol ≠ .epsilon) ∨
    (.epsilon ∈ first.ofSequence symbols ∧ after symbol)

/-- FOLLOW of each nonterminal of a sequence holds whatever can come right after it. -/
def Followed (first : FirstSets) (follow : FollowSets) (after : Symbol → Prop) :
    List Symbol → Prop
  | [] => True
  | .nonterminal name :: rest =>
      (∀ symbol, first.Opens after rest symbol → symbol ∈ follow.get name) ∧
        Followed first follow after rest
  | _ :: rest => Followed first follow after rest

namespace FirstSets

theorem opens_append (left right : List Symbol) (symbol : Symbol) :
    first.Opens after (left ++ right) symbol ↔
      first.Opens (first.Opens after right) left symbol := by
  simp only [Opens, ofSequence, SetFamily.mem_firstOf_append]
  grind

theorem Opens.mono {symbols : List Symbol} {symbol : Symbol}
    (weaker : ∀ symbol, after symbol → other symbol) (opens : first.Opens after symbols symbol) :
    first.Opens other symbols symbol := by
  rcases opens with inside | ⟨vanishes, comes⟩
  · exact .inl inside
  · exact .inr ⟨vanishes, weaker symbol comes⟩

theorem opens_input {head : Symbol} (isInput : head.isInput = true) (rest : List Symbol)
    (symbol : Symbol) : first.Opens after (head :: rest) symbol ↔ symbol = head := by
  have solid := Grammar.ne_epsilon_of_isInput isInput
  simp only [Opens, ofSequence, SetFamily.mem_firstOf_input _ isInput]
  constructor
  · rintro (⟨same, _⟩ | ⟨same, _⟩)
    · exact same
    · exact absurd same.symm solid
  · intro same
    exact .inl ⟨same, same ▸ solid⟩

end FirstSets

namespace Followed

theorem tail {head : Symbol} {rest : List Symbol}
    (followed : Followed first follow after (head :: rest)) : Followed first follow after rest := by
  cases head with
  | nonterminal name => exact followed.2
  | terminal name => exact followed
  | epsilon => exact followed
  | endMarker => exact followed

theorem mono {symbols : List Symbol} (weaker : ∀ symbol, other symbol → after symbol)
    (followed : Followed first follow after symbols) : Followed first follow other symbols := by
  induction symbols with
  | nil => exact trivial
  | cons head rest ih =>
      cases head with
      | nonterminal name =>
          exact ⟨fun symbol opens => followed.1 symbol (opens.mono weaker), ih followed.2⟩
      | terminal name => exact ih followed
      | epsilon => exact ih followed
      | endMarker => exact ih followed

end Followed

theorem followed_append (left right : List Symbol) :
    Followed first follow after (left ++ right) ↔
      Followed first follow (first.Opens after right) left ∧
        Followed first follow after right := by
  induction left with
  | nil => simp [Followed]
  | cons head rest ih =>
      cases head with
      | nonterminal name =>
          simp only [List.cons_append, Followed, ih, FirstSets.opens_append, and_assoc]
      | terminal name => exact ih
      | epsilon => exact ih
      | endMarker => exact ih

/-- FOLLOW of a nonterminal of a followed sequence holds the input symbol behind it. -/
theorem Followed.mem_follow {before rest : List Symbol} {name : Name} {head : Symbol}
    (followed : Followed first follow after (before ++ .nonterminal name :: head :: rest))
    (isInput : head.isInput = true) : head ∈ follow.get name := by
  rw [followed_append] at followed
  exact followed.2.1 head ((FirstSets.opens_input isInput rest head).mpr rfl)

/-- A nonterminal alone, with nothing after it, is followed. -/
theorem followed_singleton (name : Name) :
    Followed first follow (fun _ => False) [.nonterminal name] := by
  refine ⟨?_, trivial⟩
  rintro symbol (⟨inside, solid⟩ | ⟨_, never⟩)
  · exact absurd ((SetFamily.mem_firstOf_nil _ _).mp inside) solid
  · exact never.elim

structure Grammar.SetsClosed (grammar : Grammar) (first : FirstSets) (follow : FollowSets) :
    Prop where
  firstClosed : grammar.FirstClosed first.family
  followClosed : grammar.FollowClosed first follow

theorem Grammar.setsClosed {grammar : Grammar} (wellFormed : grammar.WellFormed) :
    grammar.SetsClosed grammar.firstSets grammar.follow :=
  ⟨firstClosed_firstComputation wellFormed, followClosed_followSets wellFormed _⟩

namespace Grammar.SetsClosed

variable {grammar : Grammar}

/-- The first symbol of a yielded word, or what comes after an empty one, can come first. -/
theorem opens_of_yields (closed : grammar.SetsClosed first follow) {symbols word : List Symbol}
    {next : Symbol} (yields : grammar.Yields symbols word) (comes : word = [] → after next) :
    first.Opens after symbols (word.headD next) := by
  have begins := closed.firstClosed.headD_mem_firstOf yields
  cases word with
  | nil => exact .inr ⟨begins, comes rfl⟩
  | cons head rest =>
      exact .inl ⟨begins, ne_epsilon_of_isInput (yields.isInput head List.mem_cons_self)⟩

theorem opens_of_leads (closed : grammar.SetsClosed first follow) {symbols rest : List Symbol}
    {symbol : Symbol} (leads : grammar.Leads symbols (symbol :: rest)) :
    first.Opens after symbols symbol :=
  .inl ⟨closed.firstClosed.mem_firstOf_of_leads leads rfl,
    ne_epsilon_of_isInput (leads.isInput symbol List.mem_cons_self)⟩

/-- The first symbol of a yielded word and what comes after it can come first. -/
theorem opens_append_of_yields (closed : grammar.SetsClosed first follow)
    {symbols word more : List Symbol} (yields : grammar.Yields symbols word)
    (comes : after (more.headD .endMarker)) :
    first.Opens after symbols ((word ++ more).headD .endMarker) := by
  rw [headD_append]
  exact closed.opens_of_yields yields fun _ => comes

/-- What comes after the part of a nonterminal follows it. -/
theorem mem_follow_of_yields (closed : grammar.SetsClosed first follow) {name : Name}
    {rest word more : List Symbol} (tail : grammar.Yields rest word)
    (followed : Followed first follow (· = more.headD .endMarker) (.nonterminal name :: rest)) :
    (word ++ more).headD .endMarker ∈ follow.get name :=
  followed.1 _ (closed.opens_append_of_yields tail rfl)

/-- What can come first in a body can come first in its nonterminal. -/
theorem opens_nonterminal (closed : grammar.SetsClosed first follow) {name : Name} {index : Nat}
    {production : Production} (found : grammar.production? name index = some production)
    {symbol : Symbol} (opens : first.Opens after production.body symbol) (rest : List Symbol)
    (comes : ∀ symbol, after symbol → first.Opens other rest symbol) :
    first.Opens other (.nonterminal name :: rest) symbol := by
  have included := closed.firstClosed name index production found
  rcases opens with ⟨inside, solid⟩ | ⟨vanishes, afterBody⟩
  · exact .inl ⟨(SetFamily.mem_firstOf_nonterminal _ _ _ _).mpr
      (.inl ⟨included _ inside, solid⟩), solid⟩
  · have nameVanishes := included _ vanishes
    rcases comes symbol afterBody with ⟨inside, solid⟩ | ⟨restVanishes, afterRest⟩
    · exact .inl ⟨(SetFamily.mem_firstOf_nonterminal _ _ _ _).mpr
        (.inr ⟨nameVanishes, inside⟩), solid⟩
    · exact .inr ⟨(SetFamily.mem_firstOf_nonterminal _ _ _ _).mpr
        (.inr ⟨nameVanishes, restVanishes⟩), afterRest⟩

/-- A body is followed when what follows its nonterminal comes after it. -/
theorem followed_body (closed : grammar.SetsClosed first follow) {name : Name} {index : Nat}
    {production : Production} (found : grammar.production? name index = some production) :
    Followed first follow (· ∈ follow.get name) production.body := by
  -- The induction is on suffixes, since FOLLOW is closed at each split of the body.
  have suffixes : ∀ before rest, production.body = before ++ rest →
      Followed first follow (· ∈ follow.get name) rest := by
    intro before rest splits
    induction rest generalizing before with
    | nil => exact trivial
    | cons head tail ih =>
        have tailFollowed := ih (before ++ [head]) (by rw [splits, List.append_assoc]; rfl)
        cases head with
        | nonterminal other =>
            refine ⟨?_, tailFollowed⟩
            rintro symbol (⟨inside, solid⟩ | ⟨vanishes, comes⟩)
            · exact closed.followClosed.next _ _ _ _ _ _ found splits symbol inside solid
            · exact closed.followClosed.last _ _ _ _ _ _ found splits vanishes symbol comes
        | terminal other => exact tailFollowed
        | epsilon => exact tailFollowed
        | endMarker => exact tailFollowed
  exact suffixes [] production.body rfl

/-- A body is followed by a symbol that follows its nonterminal. -/
theorem followed_body_by (closed : grammar.SetsClosed first follow) {name : Name} {index : Nat}
    {production : Production} (found : grammar.production? name index = some production)
    {next : Symbol} (comes : next ∈ follow.get name) :
    Followed first follow (· = next) production.body :=
  (closed.followed_body found).mono fun _ same => same ▸ comes

/-- A body is followed when nothing comes after it. -/
theorem followed_body_alone (closed : grammar.SetsClosed first follow) {name : Name} {index : Nat}
    {production : Production} (found : grammar.production? name index = some production) :
    Followed first follow (fun _ => False) production.body :=
  (closed.followed_body found).mono fun _ never => never.elim

/-- A sequence stays followed when one of its nonterminals is replaced by a body. -/
theorem followed_of_produces (closed : grammar.SetsClosed first follow) {symbols next : List Symbol}
    (step : grammar.Produces symbols next) (followed : Followed first follow after symbols) :
    Followed first follow after next := by
  cases step with
  | @expand name index production before rest found =>
      rw [followed_append] at followed
      obtain ⟨beforeFollowed, nameFollows, restFollowed⟩ := followed
      rw [followed_append, followed_append]
      refine ⟨beforeFollowed.mono ?_, ?_, restFollowed⟩
      · intro symbol opens
        exact closed.opens_nonterminal found ((FirstSets.opens_append _ _ _).mp opens) rest
          fun _ comes => comes
      · exact (closed.followed_body found).mono nameFollows

/-- Whatever a followed sequence derives is followed. -/
theorem followed_of_followed (closed : grammar.SetsClosed first follow) {symbols last : List Symbol}
    (followed : Followed first follow after symbols) (chain : grammar.Derives symbols last) :
    Followed first follow after last := by
  induction chain with
  | refl => exact followed
  | step _ next ih => exact closed.followed_of_produces next ih

/-- Every sequence derived from the start symbol and the end marker is followed. -/
theorem followed_of_derives (closed : grammar.SetsClosed first follow) {symbols : List Symbol}
    (chain : grammar.Derives [.nonterminal grammar.start, .endMarker] symbols) :
    Followed first follow (fun _ => False) symbols := by
  have fromStart :
      Followed first follow (fun _ => False) [.nonterminal grammar.start, .endMarker] := by
    refine ⟨?_, trivial⟩
    intro symbol opens
    exact (FirstSets.opens_input rfl [] symbol).mp opens ▸ closed.followClosed.start
  exact closed.followed_of_followed fromStart chain

/-- The start symbol is followed by the end marker. -/
theorem followed_start (closed : grammar.SetsClosed first follow) :
    Followed first follow (· = .endMarker) [.nonterminal grammar.start] := by
  have both := closed.followed_of_derives (.refl _)
  refine ⟨fun symbol opens => both.1 symbol ?_, trivial⟩
  rcases opens with ⟨inside, notEpsilon⟩ | ⟨_, isEnd⟩
  · exact absurd ((SetFamily.mem_firstOf_nil _ _).mp inside) notEpsilon
  · exact (FirstSets.opens_input rfl [] symbol).mpr isEnd

end Grammar.SetsClosed

/-- What can come first begins a word that the sequence leads to, or follows it when it vanishes. -/
theorem Grammar.leads_or_yields_of_opens {grammar : Grammar}
    (sound : grammar.FirstSound first.family) {symbols : List Symbol}
    (solid : Symbol.epsilon ∉ symbols) {symbol : Symbol}
    (opens : first.Opens after symbols symbol) :
    grammar.Leads symbols [symbol] ∨ grammar.Yields symbols [] ∧ after symbol := by
  rcases opens with ⟨inside, notEpsilon⟩ | ⟨vanishes, comes⟩
  · rcases sound.inFirst solid inside with ⟨isEpsilon, _⟩ | ⟨_, leads⟩
    · exact absurd isEpsilon notEpsilon
    · exact .inl leads
  · rcases sound.inFirst solid vanishes with ⟨_, nothing⟩ | ⟨notEpsilon, _⟩
    · exact .inr ⟨nothing, comes⟩
    · exact absurd rfl notEpsilon

end Lookahead
