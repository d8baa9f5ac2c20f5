import Lookahead.Proofs.Grammar.Trees
import Lookahead.Proofs.LL1.Following

/-!
# Trees determined by what is ahead

Where a predictive table has no conflicts, the next symbol decides every
alternative of a derivation, so the front of an input that the trees of a
sequence spell is determined, and so are the trees.
-/

namespace Lookahead.LL1.Table.Fits

variable {table : Table} {grammar : Grammar} {name : Name} {index : Nat} {production : Production}
  {rest front back more : List Symbol}

/-- The cell on the symbol ahead holds the alternative that the symbols ahead come from. -/
theorem get?_of_yields (fits : table.Fits grammar)
    (found : grammar.production? name index = some production)
    (body : grammar.Yields production.body front) (tail : grammar.Yields rest back)
    (followed : Followed grammar.firstSets grammar.follow (· = more.headD .endMarker)
      (.nonterminal name :: rest)) :
    table.get? name (((front ++ back) ++ more).headD .endMarker) = some index := by
  rw [List.append_assoc]
  apply (fits.get?_eq_some_iff name _ index).mpr
  exact ⟨production, found,
    fits.closed.opens_append_of_yields body (fits.closed.mem_follow_of_yields tail followed)⟩

/-- Trees of a sequence that spell fronts of one input are the same, and spell the same front. -/
theorem grows_unique (fits : table.Fits grammar) {trees others : List Tree}
    {symbols first second left right : List Symbol} (one : grammar.Grows trees symbols first)
    (other : grammar.Grows others symbols second) (same : first ++ left = second ++ right)
    (oneFollowed : Followed grammar.firstSets grammar.follow (· = left.headD .endMarker) symbols)
    (otherFollowed : Followed grammar.firstSets grammar.follow (· = right.headD .endMarker) symbols) :
    trees = others ∧ first = second := by
  induction one generalizing others second left right with
  | nil =>
      cases other
      exact ⟨rfl, rfl⟩
  | @leaf symbol trees rest word isInput beside ih =>
      cases other with
      | leaf _ otherBeside =>
          obtain ⟨sameTrees, sameWord⟩ := ih otherBeside (List.cons.inj same).2
            oneFollowed.tail otherFollowed.tail
          exact ⟨by rw [sameTrees], by rw [sameWord]⟩
      | node => cases isInput
  | @node name index production children trees rest front back found below beside belowIH besideIH =>
      cases other with
      | leaf isInput => cases isInput
      | @node _ otherIndex otherProduction otherChildren otherTrees _ otherFront otherBack
            otherFound otherBelow otherBeside =>
          have cell := fits.get?_of_yields found below.yields beside.yields oneFollowed
          have otherCell := fits.get?_of_yields otherFound otherBelow.yields otherBeside.yields
            otherFollowed
          rw [same, otherCell, Option.some.injEq] at cell
          subst cell
          rw [found, Option.some.injEq] at otherFound
          subst otherFound
          -- The body comes first, with the trees beside it as part of what is ahead.
          rw [List.append_assoc, List.append_assoc] at same
          obtain ⟨sameChildren, sameFront⟩ := belowIH otherBelow same
            (fits.closed.followed_body_by found
              (fits.closed.mem_follow_of_yields beside.yields oneFollowed))
            (fits.closed.followed_body_by found
              (fits.closed.mem_follow_of_yields otherBeside.yields otherFollowed))
          subst sameFront
          obtain ⟨sameTrees, sameBack⟩ := besideIH otherBeside (List.append_cancel_left same)
            oneFollowed.tail otherFollowed.tail
          exact ⟨by rw [sameChildren, sameTrees], by rw [sameBack]⟩

/-- A word has one derivation tree at most. -/
theorem tree_unique (fits : table.Fits grammar) {word : List Symbol} {tree other : Tree}
    (one : grammar.Grows [tree] [.nonterminal grammar.start] word)
    (another : grammar.Grows [other] [.nonterminal grammar.start] word) : tree = other := by
  have followed := fits.closed.followed_start
  have whole : word ++ [] = word ++ [] := rfl
  obtain ⟨same, _⟩ := fits.grows_unique one another whole followed followed
  exact List.singleton_inj.mp same

end Lookahead.LL1.Table.Fits
