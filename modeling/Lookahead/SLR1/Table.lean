import Lookahead.Follow
import Lookahead.Grammar.Augment
import Lookahead.LR0.Automaton
import Lookahead.Table.Conflict

/-!
# Shift-reduce tables

The automaton's transitions claim cells for shifts, a complete item claims the
cells of the symbols that can follow its nonterminal for a reduction, and the
complete start item claims the cell of the end marker for acceptance.
-/

namespace Lookahead.SLR1

/-- What a state does on lookahead symbols, and where it goes on nonterminals. -/
structure StateRow where
  actions : Row Action
  gotos : List (Name × Nat)
  deriving DecidableEq, Inhabited

def shifts (transitions : List (Symbol × Nat)) : List (Symbol × Action) :=
  transitions.filterMap fun (symbol, state) =>
    match symbol with
    | .nonterminal _ => none
    | _ => some (symbol, .shift state)

def gotos (transitions : List (Symbol × Nat)) : List (Name × Nat) :=
  transitions.filterMap fun (symbol, state) => symbol.nonterminal?.map fun name => (name, state)

/-- The claims of an item: none unless it is complete. -/
def itemClaims (grammar : Grammar) (follow : FollowSets) (item : LR0.Item) :
    List (Symbol × Action) :=
  if item.isComplete grammar then
    if item.nonterminal = grammar.start then [(.endMarker, .accept)]
    else (follow.get item.nonterminal).toList.map fun lookahead =>
      (lookahead, .reduce item.nonterminal item.production)
  else []

/-- The row of a state: its shifts, and then what its items claim in their order. -/
def stateRow (grammar : Grammar) (follow : FollowSets) (state : LR0.ItemSet)
    (transitions : List (Symbol × Nat)) : StateRow :=
  ⟨⟨shifts transitions ++ state.toList.flatMap (itemClaims grammar follow)⟩, gotos transitions⟩

structure Tables where
  grammar : AugmentedGrammar
  rows : List StateRow
  deriving DecidableEq, Inhabited

namespace Tables

def states (tables : Tables) : Nat := tables.rows.length

def action? (tables : Tables) (state : Nat) (lookahead : Symbol) : Option Action :=
  tables.rows[state]?.bind fun row => row.actions.get? lookahead

def goto? (tables : Tables) (state : Nat) (nonterminal : Name) : Option Nat :=
  tables.rows[state]?.bind fun row =>
    (row.gotos.find? fun entry => decide (entry.1 = nonterminal)).map Prod.snd

def actionCount (tables : Tables) : Nat := (tables.rows.flatMap fun row => row.actions.cells).length

def actionListing (tables : Tables) (state : Nat) : List (Symbol × Action) :=
  (tables.grammar.terminals.toList.map Symbol.terminal ++ [Symbol.endMarker]).filterMap fun lookahead =>
    (tables.action? state lookahead).map fun action => (lookahead, action)

def gotoListing (tables : Tables) (state : Nat) : List (Name × Nat) :=
  (SortedSet.ofList tables.grammar.nonterminals).toList.filterMap fun name =>
    (tables.goto? state name).map fun next => (name, next)

def conflicts (tables : Tables) : List Conflict :=
  tables.rows.zipIdx.flatMap fun (row, state) =>
    (row.actions.clashes state).map Conflict.shiftReduce

/-- All claims for an automaton, a grammar and FOLLOW sets, which need not belong together. -/
def ofAutomaton (automaton : LR0.Automaton) (grammar : AugmentedGrammar) (follow : FollowSets) :
    Tables :=
  ⟨grammar, (automaton.states.zip automaton.transitions).map fun (state, transitions) =>
    stateRow grammar.toGrammar follow state transitions⟩

def build (automaton : LR0.Automaton) (grammar : AugmentedGrammar) (follow : FollowSets) :
    Except ConflictReport Tables :=
  checked (ofAutomaton automaton grammar follow) (ofAutomaton automaton grammar follow).conflicts

end Tables

end Lookahead.SLR1
