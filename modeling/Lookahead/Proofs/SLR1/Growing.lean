import Lookahead.Proofs.Grammar.Trees
import Lookahead.Proofs.Parse.Runs
import Lookahead.Proofs.SLR1.Spelling

/-!
# Shift-reduce parsing that grows trees

Next to the stack of a parse stand the trees of the symbols that it spells.  A
shift adds a leaf, and a reduction makes one node of the trees of its body; the
parse itself goes on as without them.
-/

namespace Lookahead.SLR1

/-- A configuration with the trees of the symbols on its stack, the last one first. -/
structure Growth where
  config : Config
  trees : List Tree

namespace Tables

/-- The trees after what the current state does on the lookahead symbol. -/
def planted (tables : Tables) (growth : Growth) : List Tree :=
  match growth.config.stack.head?.bind (tables.action? · growth.config.lookahead) with
  | some (.shift _) => .leaf growth.config.lookahead :: growth.trees
  | some (.reduce name index) =>
      match tables.grammar.production? name index with
      | some production =>
          .node name index (growth.trees.take production.length).reverse ::
            growth.trees.drop production.length
      | none => growth.trees
  | some .accept | none => growth.trees

def grow (tables : Tables) (growth : Growth) : Step Growth (List Tree) :=
  match tables.step growth.config with
  | .halt _ => .halt growth.trees
  | .next next => .next ⟨next, tables.planted growth⟩

variable {tables : Tables} {grammar : Grammar} {word : List Symbol} {stack : List Nat}

/-- A parse goes on in the same way without its trees. -/
theorem reaches_of_grow {growth last : Growth} (reached : Machine.Reaches tables.grow growth last) :
    Machine.Reaches tables.step growth.config last.config := by
  induction reached with
  | refl => exact .refl _
  | @step middle next _ grown ih =>
      unfold grow at grown
      split at grown
      · exact absurd grown (by simp)
      · rename_i taken
        exact .step ih (Step.next.inj grown ▸ taken)

theorem planted_of_action {number : Nat} {action : Action} {below : List Nat} (unread : List Symbol)
    (cell : tables.action? number (unread.headD .endMarker) = some action) (position : Nat)
    (trees : List Tree) : tables.planted ⟨⟨number :: below, unread, position⟩, trees⟩ =
      match action with
      | .shift _ => .leaf (unread.headD .endMarker) :: trees
      | .reduce name index =>
          match tables.grammar.production? name index with
          | some production =>
              .node name index (trees.take production.length).reverse :: trees.drop production.length
          | none => trees
      | .accept => trees := by
  simp only [planted, Config.lookahead, List.head?_cons, Option.bind_some, cell]
  cases action with
  | shift => rfl
  | reduce => rfl
  | accept => rfl

namespace Fits

/-- A shift adds the leaf of what it reads. -/
theorem grow_shift (fits : tables.Fits grammar) (spells : Spells grammar word stack)
    {name other : Name} {index : Nat} {before rest : List Symbol}
    (valid : LR0.Valid grammar.augmented.toGrammar word name index before (.terminal other :: rest))
    (more : List Symbol) (position : Nat) (trees : List Tree) :
    ∃ next, tables.grow ⟨⟨stack, .terminal other :: more, position⟩, trees⟩ =
        .next ⟨⟨next :: stack, more, position + 1⟩, .leaf (.terminal other) :: trees⟩ ∧
      Spells grammar (word ++ [.terminal other]) (next :: stack) := by
  obtain ⟨next, taken, pushed⟩ := fits.shift spells valid more position
  obtain ⟨number, below, isStack, stands⟩ := spells.exists_top
  obtain ⟨_, cell, _⟩ := fits.exists_shift stands valid
  refine ⟨next, ?_, pushed⟩
  subst isStack
  simp only [grow, taken]
  rw [planted_of_action (.terminal other :: more) cell]
  rfl

/-- A reduction makes one node of the trees of its body. -/
theorem grow_reduce (fits : tables.Fits grammar) {front body : List Symbol}
    (spells : Spells grammar (front ++ body) stack) {name : Name} {index : Nat}
    (known : name ≠ grammar.freshStart)
    (valid : LR0.Valid grammar.augmented.toGrammar front name index [] body) (unread : List Symbol)
    (follows : unread.headD .endMarker ∈ grammar.follow.get name) (position : Nat)
    {children : List Tree} (each : children.length = body.length) (trees : List Tree) :
    ∃ next, tables.grow ⟨⟨stack, unread, position⟩, children.reverse ++ trees⟩ =
        .next ⟨⟨next :: stack.drop body.length, unread, position⟩, .node name index children :: trees⟩ ∧
      Spells grammar (front ++ [.nonterminal name]) (next :: stack.drop body.length) := by
  obtain ⟨next, taken, pushed⟩ := fits.reduce spells known valid unread follows position
  obtain ⟨number, below, isStack, stands⟩ := spells.exists_top
  obtain ⟨cell, found⟩ := fits.reduces stands known valid follows
  have count : body.length = children.reverse.length := by
    rw [List.length_reverse, each]
  refine ⟨next, ?_, pushed⟩
  subst isStack
  simp only [grow, taken]
  rw [planted_of_action unread cell]
  simp only [found, Production.length, count, List.take_left, List.drop_left, List.reverse_reverse]

end Fits

end Tables

end Lookahead.SLR1
