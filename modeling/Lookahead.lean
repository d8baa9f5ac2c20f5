import Lookahead.Grammar.Derivation
import Lookahead.Grammar.Printer
import Lookahead.Main
import Lookahead.Proofs.Grammar.Built
import Lookahead.Proofs.Grammar.Yield
import Lookahead.Proofs.Parse.Runs
import Lookahead.Trace
import Lookahead.Proofs.Sets.First
import Lookahead.Proofs.Sets.Follow
import Lookahead.Proofs.LL1.Cells
import Lookahead.Proofs.Grammar.Viable
import Lookahead.Proofs.LL1.Following
import Lookahead.Proofs.LL1.Reading
import Lookahead.Proofs.Parse.Answers
import Lookahead.Proofs.LL1.Clearing
import Lookahead.Proofs.LL1.StepBound
import Lookahead.Proofs.LR0.Valid
import Lookahead.Proofs.LR0.Numbers
import Lookahead.Proofs.SLR1.Cells
import Lookahead.Proofs.SLR1.Spelling
import Lookahead.Proofs.SLR1.Following
import Lookahead.Proofs.SLR1.Reading
import Lookahead.Proofs.SLR1.Falling
import Lookahead.Proofs.SLR1.StepBound
import Lookahead.Proofs.Grammar.Beginning
import Lookahead.Proofs.SLR1.Halting
import Lookahead.Proofs.LL1.Deciding
import Lookahead.Proofs.SLR1.Deciding
import Lookahead.Proofs.Parse.Agreement
import Lookahead.Proofs.Parse.Faultless
import Lookahead.Proofs.LR0.Contexts
import Lookahead.Proofs.Parse.Unambiguous
import Lookahead.Proofs.LL1.Choices
import Lookahead.Proofs.Sets.FirstExact
import Lookahead.Proofs.Sets.FollowExact
import Lookahead.Proofs.Parse.Earliest
import Lookahead.Proofs.SLR1.Moves
import Lookahead.Proofs.Classes.Selection
import Lookahead.Proofs.Classes.Agreement
import Lookahead.Proofs.Classes.Augmentation
import Lookahead.Proofs.Classes.Reachable
import Lookahead.Proofs.Classes.EpsilonFree
import Lookahead.Proofs.LR0.Relocation
import Lookahead.Proofs.Parse.Relocation
import Lookahead.Proofs.Classes.Reordering
import Lookahead.Proofs.Grammar.Entries
import Lookahead.Proofs.Text.Layout
import Lookahead.Proofs.Grammar.RoundTrip
import Lookahead.Proofs.CommandLine.Counted
import Lookahead.Proofs.LR0.Closure
import Lookahead.Proofs.LR0.Canonical
import Lookahead.Proofs.LL1.Filling
import Lookahead.Proofs.SLR1.Filling
import Lookahead.Proofs.Sets.FirstPasses
import Lookahead.Proofs.Sets.Worklist
import Lookahead.Proofs.CommandLine.Sessions
