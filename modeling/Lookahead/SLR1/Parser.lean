import Lookahead.Parse.Error
import Lookahead.Parse.Machine
import Lookahead.SLR1.Table

/-!
# Shift-reduce parsing

The stack holds states, the current one first.  A shift reads a symbol and
pushes a state; a reduction pops a state for each symbol of a body and pushes
the one that the state below goes to.
-/

namespace Lookahead.SLR1

/-- A configuration: states, input not read yet, and the number of symbols read. -/
structure Config where
  stack : List Nat
  unread : List Symbol
  position : Nat
  deriving DecidableEq, Inhabited

namespace Config

def lookahead (config : Config) : Symbol := config.unread.headD .endMarker

end Config

namespace Tables

/-- Reduce by a production: the state below the popped ones must be there and have a goto. -/
def reduce (tables : Tables) (config : Config) (nonterminal : Name) (index : Nat) :
    Step Config ParseResult :=
  match tables.grammar.production? nonterminal index with
  | none => .halt (.error (.violated (.missingProduction nonterminal index)))
  | some production =>
      match config.stack.drop production.length with
      | [] => .halt (.error (.violated (.stackUnderflow nonterminal)))
      | exposed :: below =>
          match tables.goto? exposed nonterminal with
          | none => .halt (.error (.violated (.missingGoto exposed nonterminal)))
          | some state => .next { config with stack := state :: exposed :: below }

def step (tables : Tables) (config : Config) : Step Config ParseResult :=
  match config.stack with
  | [] => .halt (.error (.violated (.stackUnderflow tables.grammar.start)))
  | state :: _ =>
      match tables.action? state config.lookahead with
      | none => .halt (.error (.rejected (.noAction state config.lookahead config.position)))
      | some (.shift next) =>
          .next ⟨next :: config.stack, config.unread.tail, config.position + 1⟩
      | some (.reduce nonterminal index) => tables.reduce config nonterminal index
      | some .accept =>
          if config.unread.length = 1 then .halt (.ok ())
          else .halt (.error (.rejected (.trailingInput (config.position + 1))))

def initial (input : List Symbol) : Config := ⟨[0], endTerminated input, 0⟩

/--
More steps than any run that stops makes.  While nothing is read, the stack never grows by more
than the `q` states of the tables, since a state that came up again above itself would come up for
ever, and a state leaves at most `(q + 2) ^ (q + 1)` steps to be made above the one below it.
-/
def stepBound (tables : Tables) (input : List Symbol) : Nat :=
  let states := tables.states
  let length := (endTerminated input).length
  (length + 1) * (1 + length * (states + 1)) * Nat.pow (states + 2) (states + 1) + 1

def parse? (tables : Tables) (input : List Symbol) : Option ParseResult :=
  Machine.run tables.step (tables.stepBound input) (initial input)

def configs (tables : Tables) (input : List Symbol) : List Config :=
  Machine.configs tables.step (tables.stepBound input) (initial input)

end Tables

end Lookahead.SLR1
