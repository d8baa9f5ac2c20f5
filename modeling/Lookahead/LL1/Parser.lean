import Lookahead.LL1.Table
import Lookahead.Parse.Error
import Lookahead.Parse.Machine

/-!
# Predictive parsing

The stack holds the symbols still to be found, the next one first.  A
nonterminal is replaced by the body that the table gives for the lookahead
symbol; any other symbol must be the lookahead symbol itself.
-/

namespace Lookahead.LL1

/-- A configuration: symbols to be found, input not read yet, and the number of symbols read. -/
structure Config where
  stack : List Symbol
  unread : List Symbol
  position : Nat
  deriving DecidableEq, Inhabited

namespace Config

/-- The next input symbol; the end marker stands after the end of the input too. -/
def lookahead (config : Config) : Symbol := config.unread.headD .endMarker

end Config

namespace Table

def step (table : Table) (config : Config) : Step Config ParseResult :=
  match config.stack with
  | [] => .halt (.error (.violated (.stackUnderflow table.grammar.start)))
  | .nonterminal name :: rest =>
      match table.get? name config.lookahead with
      | none => .halt (.error (.rejected (.noRule name config.lookahead config.position)))
      | some index =>
          match table.grammar.production? name index with
          | none => .halt (.error (.violated (.missingProduction name index)))
          | some production => .next { config with stack := production.body ++ rest }
  | .epsilon :: rest => .next { config with stack := rest }
  | expected :: rest =>
      if expected = config.lookahead then
        if expected = .endMarker then
          if config.unread.length = 1 then .halt (.ok ())
          else .halt (.error (.rejected (.trailingInput (config.position + 1))))
        else .next ⟨rest, config.unread.tail, config.position + 1⟩
      else .halt (.error (.rejected (.mismatch expected config.lookahead config.position)))

def initial (table : Table) (input : List Symbol) : Config :=
  ⟨[.nonterminal table.grammar.start, .endMarker], endTerminated input, 0⟩

def longestBody (table : Table) : Nat :=
  table.grammar.rules.foldl
    (fun longest rule => rule.productions.foldl
      (fun longest production => max longest production.length) longest) 0

/--
More steps than any run that stops makes.  On one lookahead symbol a nonterminal is never
expanded inside its own expansion, so expanding one symbol takes at most `(b + 1) ^ n` steps for
`n` rules and bodies of `b` symbols at most, and leaves at most `n * b` symbols behind.
-/
def stepBound (table : Table) (input : List Symbol) : Nat :=
  let rules := table.grammar.rules.length
  let body := table.longestBody
  let length := (endTerminated input).length
  ((length + 1) * (2 + length * (rules * body)) + 1) * Nat.pow (body + 1) rules

/-- The answer for an input, which gets an end marker if it has none; none if the run never stops. -/
def parse? (table : Table) (input : List Symbol) : Option ParseResult :=
  Machine.run table.step (table.stepBound input) (table.initial input)

def configs (table : Table) (input : List Symbol) : List Config :=
  Machine.configs table.step (table.stepBound input) (table.initial input)

end Table

end Lookahead.LL1
