import Lookahead.Proofs.SLR1.Growing
import Lookahead.Proofs.Sets.Followed

/-!
# The shift-reduce parser follows derivations

What comes after the dot of a valid item is found in the input, and reduced as
soon as it is complete, when the input goes on with what it yields, so that the
trees of that part are grown; it is read as far as it leads to what the input
goes on with.
-/

namespace Lookahead.SLR1.Tables.Fits

variable {tables : Tables} {grammar : Grammar} {word before rest : List Symbol} {stack : List Nat}
  {name : Name} {index : Nat}

theorem closed (fits : tables.Fits grammar) :
    grammar.SetsClosed grammar.firstSets grammar.follow :=
  Grammar.setsClosed fits.wellFormed

/-- The end marker does not come after the dot of a valid item. -/
theorem endMarker_not_mem_of_valid (fits : tables.Fits grammar)
    (valid : LR0.Valid grammar.augmented.toGrammar word name index before rest) :
    Symbol.endMarker ∉ rest := fun inside =>
  fits.wellFormed.augmented.endMarker_not_mem_body valid.production (List.mem_append_right before inside)

/-- A body behind a dot is a body of the augmented grammar, and not of its start. -/
theorem expand (fits : tables.Fits grammar) {other : Name} {place : Nat} {production : Production}
    (valid : LR0.Valid grammar.augmented.toGrammar word name index before (.nonterminal other :: rest))
    (found : grammar.production? other place = some production) :
    other ≠ grammar.freshStart ∧
      LR0.Valid grammar.augmented.toGrammar word other place [] production.body := by
  refine ⟨?_, .expand valid (Grammar.production?_augmented_of_production? found)⟩
  rintro rfl
  exact fits.wellFormed.freshStart_not_mem_body valid.production
    (List.mem_append_right _ List.mem_cons_self)

/-- The parser finds what trees of the symbols after a dot spell, and grows those trees. -/
theorem exists_reaches_of_grows (fits : tables.Fits grammar) {trees : List Tree}
    {symbols read : List Symbol} (grows : grammar.Grows trees symbols read)
    (spells : Spells grammar word stack)
    (valid : LR0.Valid grammar.augmented.toGrammar word name index before (symbols ++ rest))
    (more : List Symbol) (followed : Followed grammar.firstSets grammar.follow
      (· = more.headD .endMarker) symbols) (position : Nat) (others : List Tree) :
    ∃ last, Machine.Reaches tables.grow ⟨⟨stack, read ++ more, position⟩, others⟩
        ⟨⟨last, more, position + read.length⟩, trees.reverse ++ others⟩ ∧
      Spells grammar (word ++ symbols) last := by
  induction grows generalizing word before rest stack name index more position others with
  | nil => exact ⟨stack, .refl _, by simpa using spells⟩
  | @leaf symbol trees symbols read isInput beside ih =>
      rcases Symbol.eq_of_isInput isInput with ⟨terminal, isTerminal⟩ | isEnd
      · subst isTerminal
        obtain ⟨next, grown, pushed⟩ := fits.grow_shift spells valid (read ++ more) position others
        obtain ⟨last, moved, lastSpells⟩ := ih pushed valid.advance more followed.tail (position + 1)
          (.leaf (.terminal terminal) :: others)
        rw [Nat.add_right_comm] at moved
        rw [List.append_assoc] at lastSpells
        refine ⟨last, ?_, lastSpells⟩
        rw [List.reverse_cons, List.append_assoc]
        exact moved.head grown
      · exact absurd (isEnd ▸ List.mem_cons_self) (fits.endMarker_not_mem_of_valid valid)
  | @node other place production children trees symbols front back found below beside belowIH
        besideIH =>
      have comes := fits.closed.mem_follow_of_yields beside.yields followed
      have bodyFollowed := fits.closed.followed_body_by found comes
      obtain ⟨known, atFront⟩ := fits.expand valid found
      obtain ⟨middle, inBody, bodySpells⟩ := belowIH spells atFront.append_nil (back ++ more)
        bodyFollowed position others
      obtain ⟨next, grown, pushed⟩ := fits.grow_reduce bodySpells known atFront (back ++ more) comes
        (position + front.length) below.length_eq others
      obtain ⟨last, inTail, lastSpells⟩ := besideIH pushed valid.advance more followed.tail
        (position + front.length) (.node other place children :: others)
      refine ⟨last, ?_, by rw [List.append_assoc] at lastSpells; exact lastSpells⟩
      rw [List.append_assoc, List.length_append, ← Nat.add_assoc, List.reverse_cons,
        List.append_assoc]
      exact (inBody.trans (.single grown)).trans inTail

/-- The parser finds what the symbols after a dot yield, and pushes their states. -/
theorem exists_reaches_of_yields (fits : tables.Fits grammar) {symbols read : List Symbol}
    (yields : grammar.Yields symbols read) (spells : Spells grammar word stack)
    (valid : LR0.Valid grammar.augmented.toGrammar word name index before (symbols ++ rest))
    (more : List Symbol) (followed : Followed grammar.firstSets grammar.follow
      (· = more.headD .endMarker) symbols) (position : Nat) :
    ∃ last, Machine.Reaches tables.step ⟨stack, read ++ more, position⟩
        ⟨last, more, position + read.length⟩ ∧
      Spells grammar (word ++ symbols) last := by
  obtain ⟨trees, grows⟩ := yields.exists_grows
  obtain ⟨last, moved, lastSpells⟩ := fits.exists_reaches_of_grows grows spells valid more followed
    position []
  exact ⟨last, reaches_of_grow moved, lastSpells⟩

/-- The parser reads a word that the symbols after a dot lead to. -/
theorem exists_reaches_of_leads (fits : tables.Fits grammar) {symbols read : List Symbol}
    (leads : grammar.Leads symbols read) (spells : Spells grammar word stack)
    (valid : LR0.Valid grammar.augmented.toGrammar word name index before (symbols ++ rest))
    (followed : Followed grammar.firstSets grammar.follow (fun _ => False) symbols)
    (more : List Symbol) (position : Nat) :
    ∃ last, Machine.Reaches tables.step ⟨stack, read ++ more, position⟩
        ⟨last, more, position + read.length⟩ := by
  induction leads generalizing word before rest stack name index position with
  | nil symbols => exact ⟨stack, .refl _⟩
  | @input symbol symbols read isInput tail ih =>
      rcases Symbol.eq_of_isInput isInput with ⟨terminal, isTerminal⟩ | isEnd
      · subst isTerminal
        obtain ⟨next, taken, pushed⟩ := fits.shift spells valid (read ++ more) position
        obtain ⟨last, moved⟩ := ih pushed valid.advance followed.tail (position + 1)
        rw [Nat.add_right_comm] at moved
        exact ⟨last, moved.head taken⟩
      · exact absurd (isEnd ▸ List.mem_cons_self) (fits.endMarker_not_mem_of_valid valid)
  | @inside other place production read symbols found body ih =>
      have bodyFollowed := fits.closed.followed_body_alone found
      obtain ⟨_, atFront⟩ := fits.expand valid found
      exact ih spells atFront.append_nil bodyFollowed position
  | @past other place production symbols front back found body tail goesOn ih =>
      obtain ⟨head, others, isCons⟩ := List.exists_cons_of_ne_nil goesOn
      subst isCons
      have comes : head ∈ grammar.follow.get other :=
        followed.1 head (fits.closed.opens_of_leads tail)
      have bodyFollowed := fits.closed.followed_body_by found comes
      obtain ⟨known, atFront⟩ := fits.expand valid found
      obtain ⟨middle, inBody, bodySpells⟩ := fits.exists_reaches_of_yields body spells
        atFront.append_nil (head :: others ++ more) bodyFollowed position
      obtain ⟨next, taken, pushed⟩ := fits.reduce bodySpells known atFront (head :: others ++ more)
        comes (position + front.length)
      obtain ⟨last, inTail⟩ := ih pushed valid.advance followed.tail (position + front.length)
      refine ⟨last, ?_⟩
      rw [List.append_assoc, List.length_append, ← Nat.add_assoc]
      exact (inBody.trans (.single taken)).trans inTail

end Lookahead.SLR1.Tables.Fits
