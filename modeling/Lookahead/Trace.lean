import Lookahead.Analysis

/-!
# Traces

The events of building a grammar, analysing it and parsing inputs, in the order
in which they happen, and the line that records each of them.
-/

namespace Lookahead

inductive Event where
  | grammarBuilt (nonterminals terminals : Nat)
  | firstConverged (passes : Nat)
  | conflict (conflict : Conflict)
  | predictiveTable (cells : Nat)
  | automaton (states transitions : Nat)
  | shiftReduceTables (states actions : Nat)
  | predictiveStep (top lookahead : Symbol) (position : Nat)
  | shiftReduceStep (state : Nat) (lookahead : Symbol) (position : Nat)
  | rejected (rejection : Rejection)
  | violated (violation : Violation)
  deriving DecidableEq, Inhabited

namespace Event

def level : Event → String
  | .predictiveStep _ _ _ | .shiftReduceStep _ _ _ => "TRACE"
  | .violated _ => "ERROR"
  | _ => "DEBUG"

def conflictText : Conflict → String
  | .predictive clash =>
      s!"LL(1) conflict at ({clash.place}, {clash.lookahead.text}): " ++
        s!"{clash.existing} vs {clash.incoming}"
  | .shiftReduce clash =>
      s!"SLR(1) conflict in state {clash.place} on `{clash.lookahead.text}`: " ++
        s!"{clash.existing.text} vs {clash.incoming.text}"

def text : Event → String
  | .grammarBuilt nonterminals terminals =>
      s!"grammar built: {nonterminals} nonterminals, {terminals} terminals"
  | .firstConverged passes => s!"FIRST sets converged after {passes} passes"
  | .conflict found => conflictText found
  | .predictiveTable cells => s!"LL(1) table built with {cells} entries"
  | .automaton states transitions =>
      s!"LR(0) automaton: {states} states, {transitions} transitions"
  | .shiftReduceTables states actions =>
      s!"SLR(1) tables built: {states} states, {actions} actions"
  | .predictiveStep top lookahead position =>
      s!"LL(1) top `{top.text}`, lookahead `{lookahead.text}` at {position}"
  | .shiftReduceStep state lookahead position =>
      s!"SLR(1) state {state}, lookahead `{lookahead.text}` at {position}"
  | .rejected rejection => rejection.message
  | .violated violation => violation.message

def line (event : Event) : String := event.level ++ " " ++ event.text

def isConflict : Event → Bool
  | .conflict _ => true
  | _ => false

end Event

/-- The end of a parse as an event; acceptance is none. -/
def ParseResult.events : Option ParseResult → List Event
  | some (.error (.rejected rejection)) => [.rejected rejection]
  | some (.error (.violated violation)) => [.violated violation]
  | some (.ok _) | none => []

/-- Each symbol that is taken off the stack, and the end of the parse. -/
def LL1.Table.events (table : LL1.Table) (input : List Symbol) : List Event :=
  (table.configs input).filterMap (fun config =>
    config.stack.head?.map fun top => .predictiveStep top config.lookahead config.position) ++
    ParseResult.events (table.parse? input)

/-- Each state on top of the stack, and the end of the parse. -/
def SLR1.Tables.events (tables : SLR1.Tables) (input : List Symbol) : List Event :=
  (tables.configs input).filterMap (fun config =>
    config.stack.head?.map fun state => .shiftReduceStep state config.lookahead config.position) ++
    ParseResult.events (tables.parse? input)

def Grammar.builtEvent (grammar : Grammar) : Event :=
  .grammarBuilt grammar.rules.length grammar.terminals.size

namespace Analysis

def setEvents (analysis : Analysis) : List Event :=
  [.firstConverged analysis.grammar.firstPasses]

def predictiveEvents (analysis : Analysis) : List Event :=
  match analysis.ll1 with
  | .ok table => [.predictiveTable table.size]
  | .error report => report.toList.map Event.conflict

def shiftReduceEvents (analysis : Analysis) : List Event :=
  let automaton := analysis.grammar.automaton
  .automaton automaton.size automaton.transitionCount ::
    match analysis.slr1 with
    | .ok tables => [.shiftReduceTables tables.states tables.actionCount]
    | .error report => report.toList.map Event.conflict

/-- The events of an analysis and of parsing inputs after it, each by the parsers there are. -/
def events (analysis : Analysis) (inputs : List (List Char)) : List Event :=
  let ll1 := analysis.ll1
  let slr1 := analysis.slr1
  analysis.setEvents ++ analysis.predictiveEvents ++ analysis.shiftReduceEvents ++
    inputs.flatMap fun text =>
      let input := analysis.grammar.conventions.tokenize text
      (match ll1 with
        | .ok table => table.events input
        | .error _ => []) ++
      (match slr1 with
        | .ok tables => tables.events input
        | .error _ => [])

end Analysis

/-- The recorded lines of a trace: those of conflicts as a set, all others in order. -/
structure TraceRecord where
  conflicts : SortedSet String
  steps : List String

def TraceRecord.ofEvents (events : List Event) : TraceRecord where
  conflicts := .ofList ((events.filter Event.isConflict).map Event.line)
  steps := (events.filter fun event => !event.isConflict).map Event.line

end Lookahead
