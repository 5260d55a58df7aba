/-
Recursive descent.

The standard operations can be read by a grammar that knows neither priorities nor groupings:

  assignment  ::=  sum ['=' assignment]
  sum         ::=  product (('+' | '-') product)*
  product     ::=  unary (('*' | '/') unary)*
  unary       ::=  '-' unary  |  power
  power       ::=  call ['^' unary]
  call        ::=  function '-' unary  |  function call  |  primary
  primary     ::=  number  |  reference  |  '(' assignment ')'

Sums and products group to the left, and every optional or repeated part is read if it can be.

* `Reads` — what a rule makes of the tokens in front, and what it leaves;
* `Reads.inorder_append` — the tokens are those of the tree and those that are left;
* `Reads.Sound` — an ordered tree that keeps to the ranks of a rule at both ends;
* `Reads.sound` — what is read is such a tree.
-/
import Calculator.Proofs.Symbol

namespace Calculator

/-! ### The grammar -/

/-- The rules of the grammar. `sums` and `products` are beginnings of a sum and of a product. -/
inductive Rule where
  | assignment
  | sum
  | sums
  | product
  | products
  | unary
  | power
  | call
  | primary
deriving DecidableEq, Repr

/-- The first token is a symbol. -/
def Starts (s : Symbol) (tokens : List Token) : Prop :=
  ∃ h more, tokens = Held.token h :: more ∧ h.Stands s

/-- `Reads rule tokens t rest`: by `rule` the tokens are those of `t`, and then `rest`. -/
inductive Reads : Rule → List Token → Tree → List Token → Prop where
  | assigned {tokens mid rest : List Token} {left right : Tree} {head : Held}
    (first : Reads .sum tokens left (head.token :: mid)) (is : head.Stands (.infixOp .assignment))
    (second : Reads .assignment mid right rest) :
    Reads .assignment tokens (.infixed left head right is.kind) rest
  | assignment {tokens rest : List Token} {t : Tree} (only : Reads .sum tokens t rest)
    (stop : ¬ Starts (.infixOp .assignment) rest) : Reads .assignment tokens t rest
  | sum {tokens rest : List Token} {t : Tree} (all : Reads .sums tokens t rest)
    (stop : ¬ Starts (.infixOp .additive) rest) : Reads .sum tokens t rest
  | added {tokens mid rest : List Token} {left right : Tree} {head : Held}
    (first : Reads .sums tokens left (head.token :: mid)) (is : head.Stands (.infixOp .additive))
    (second : Reads .product mid right rest) :
    Reads .sums tokens (.infixed left head right is.kind) rest
  | sums {tokens rest : List Token} {t : Tree} (only : Reads .product tokens t rest) :
    Reads .sums tokens t rest
  | product {tokens rest : List Token} {t : Tree} (all : Reads .products tokens t rest)
    (stop : ¬ Starts (.infixOp .multiplicative) rest) : Reads .product tokens t rest
  | multiplied {tokens mid rest : List Token} {left right : Tree} {head : Held}
    (first : Reads .products tokens left (head.token :: mid))
    (is : head.Stands (.infixOp .multiplicative)) (second : Reads .unary mid right rest) :
    Reads .products tokens (.infixed left head right is.kind) rest
  | products {tokens rest : List Token} {t : Tree} (only : Reads .unary tokens t rest) :
    Reads .products tokens t rest
  | negated {tokens rest : List Token} {t : Tree} {head : Held} (is : head.Stands .negation)
    (operand : Reads .unary tokens t rest) :
    Reads .unary (head.token :: tokens) (.prefixed head t (.inr is.kind)) rest
  | unary {tokens rest : List Token} {t : Tree} (only : Reads .power tokens t rest) :
    Reads .unary tokens t rest
  | raised {tokens mid rest : List Token} {left right : Tree} {head : Held}
    (first : Reads .call tokens left (head.token :: mid)) (is : head.Stands (.infixOp .power))
    (second : Reads .unary mid right rest) :
    Reads .power tokens (.infixed left head right is.kind) rest
  | power {tokens rest : List Token} {t : Tree} (only : Reads .call tokens t rest)
    (stop : ¬ Starts (.infixOp .power) rest) : Reads .power tokens t rest
  | calledNegated {tokens rest : List Token} {t : Tree} {head sign : Held}
    (is : head.Stands .function) (isSign : sign.Stands .negation)
    (operand : Reads .unary tokens t rest) :
    Reads .call (head.token :: sign.token :: tokens)
      (.prefixed head (.prefixed sign t (.inr isSign.kind)) (.inl is.kind)) rest
  | called {tokens rest : List Token} {t : Tree} {head : Held} (is : head.Stands .function)
    (operand : Reads .call tokens t rest) :
    Reads .call (head.token :: tokens) (.prefixed head t (.inl is.kind)) rest
  | call {tokens rest : List Token} {t : Tree} (only : Reads .primary tokens t rest) :
    Reads .call tokens t rest
  | number (value : Float) (span : Span) (rest : List Token) :
    Reads .primary (.number value span :: rest) (.number value span) rest
  | reference (id : VariableId) (span : Span) (rest : List Token) :
    Reads .primary (.reference id span :: rest) (.reference id span) rest
  | parenthesized {tokens rest : List Token} {t : Tree} {opening closing : Held}
    (isOpening : opening.Stands .opening) (isClosing : closing.Stands .closing)
    (inner : Reads .assignment tokens t (closing.token :: rest)) :
    Reads .primary (opening.token :: tokens)
      (.bracket opening t closing ⟨_, isOpening.kind, isClosing.kind⟩) rest

theorem Reads.inorder_append {rule : Rule} {tokens rest : List Token} {t : Tree}
    (reads : Reads rule tokens t rest) : t.inorder ++ rest = tokens := by
  induction reads with
  | assigned _ _ _ ihl ihr | added _ _ _ ihl ihr | multiplied _ _ _ ihl ihr | raised _ _ _ ihl ihr =>
    simp [Tree.inorder, ihr, ihl]
  | assignment _ _ ih | sum _ _ ih | product _ _ ih | power _ _ ih => exact ih
  | sums _ ih | products _ ih | unary _ ih | call _ ih => exact ih
  | negated _ _ ih | calledNegated _ _ _ ih | called _ _ ih => simp [Tree.inorder, ih]
  | number | reference => rfl
  | parenthesized _ _ _ ih => simp [Tree.inorder, ih]

/-! ### Ranks -/

namespace Rule

/-- The least rank at the left end of what a rule reads. -/
def floor : Rule → Nat
  | assignment => 0
  | sum => 1
  | sums => 1
  | product => 2
  | products => 2
  | unary => 3
  | power => 3
  | call => 4
  | primary => 4

/-- The least rank that a rule does not leave. -/
def limit : Rule → Nat
  | assignment => 0
  | sum => 1
  | sums => 2
  | product => 2
  | products => 3
  | unary => 3
  | power => 3
  | call => 4
  | primary => 4

end Rule

/-- The rule by which an operation with its operands is read. -/
def Symbol.rule : Symbol → Rule
  | infixOp .assignment => .assignment
  | infixOp .additive => .sums
  | infixOp .multiplicative => .products
  | infixOp .power => .power
  | negation => .unary
  | function => .call
  | opening => .primary
  | closing => .primary

namespace Tier

/-- The rule for the operand in front of an infix operator. -/
def left : Tier → Rule
  | assignment => .sum
  | additive => .sums
  | multiplicative => .products
  | power => .call

/-- The rule for the operand behind an infix operator. -/
def right : Tier → Rule
  | assignment => .assignment
  | additive => .product
  | multiplicative => .unary
  | power => .unary

/-- An infix operator displaces nothing at the beginning of its right operand. -/
theorem floor_right (tier : Tier) : (Symbol.infixOp tier).strength ≤ tier.right.floor := by
  cases tier <;> decide

/-- What is left behind the right operand displaces the operator. -/
theorem limit_right (tier : Tier) : tier.right.limit = (Symbol.infixOp tier).strength := by
  cases tier <;> rfl

theorem limit_right_le (tier : Tier) : tier.right.limit ≤ (Symbol.infixOp tier).rule.limit := by
  cases tier <;> decide

theorem floor_rule_le (tier : Tier) : (Symbol.infixOp tier).rule.floor ≤ tier.rank := by
  cases tier <;> decide

theorem floor_rule_le_left (tier : Tier) : (Symbol.infixOp tier).rule.floor ≤ tier.left.floor := by
  cases tier <;> decide

end Tier

/-! ### What is read is ordered -/

namespace Tree

/-- All operations of a tree are standard. -/
def Standard (t : Tree) : Prop := ∀ h : Held, h.token ∈ t.inorder → ∃ s, h.Means s

variable {left right operand inner : Tree} {head opening closing : Held}

theorem standard_prefixed {fits : head.kind = .function ∨ head.kind = .prefixOp}
    (standard : (prefixed head operand fits).Standard) :
    (∃ s, head.Means s) ∧ operand.Standard :=
  ⟨standard head List.mem_cons_self, fun h hh => standard h (List.mem_cons_of_mem _ hh)⟩

theorem standard_infixed {fits : head.kind = .infixOp}
    (standard : (infixed left head right fits).Standard) :
    left.Standard ∧ (∃ s, head.Means s) ∧ right.Standard :=
  ⟨fun h hh => standard h (List.mem_append_left _ hh),
    standard head (List.mem_append_right _ List.mem_cons_self),
    fun h hh => standard h (List.mem_append_right _ (List.mem_cons_of_mem _ hh))⟩

theorem standard_bracket
    {fits : ∃ pair, opening.kind = .openBracket pair ∧ closing.kind = .closeBracket pair}
    (standard : (bracket opening inner closing fits).Standard) :
    (∃ s, opening.Means s) ∧ inner.Standard ∧ ∃ s, closing.Means s :=
  ⟨standard opening List.mem_cons_self,
    fun h hh => standard h (List.mem_cons_of_mem _ (List.mem_append_left _ hh)),
    standard closing (by simp [inorder])⟩

/-- The infix operators at the left end of a tree have at least some rank. -/
def Above (n : Nat) (t : Tree) : Prop :=
  ∀ m ∈ t.leftEdge, ∃ tier, m.Means (.infixOp tier) ∧ n ≤ tier.rank

/-- An infix operator in front of `rest` has less than some rank, and displaces what ends `t`. -/
def Gives (n : Nat) (t : Tree) (rest : List Token) : Prop :=
  ∀ m more tier, rest = Held.token m :: more → m.Means (.infixOp tier) →
    tier.rank < n ∧ ∀ h ∈ t.rightEdge, h.displaces m = true

theorem Above.mono {n k : Nat} {t : Tree} (le : n ≤ k) (above : t.Above k) : t.Above n := by
  intro m hm
  obtain ⟨tier, hmeans, hle⟩ := above m hm
  exact ⟨tier, hmeans, by omega⟩

/-- What stops a rule that could read on is of a lower rank. -/
theorem Gives.stop {t : Tree} {rest : List Token} {tier : Tier}
    (stop : ¬ Starts (.infixOp tier) rest) (gives : t.Gives (tier.rank + 1) rest) :
    t.Gives tier.rank rest := by
  intro m more other hrest hm
  obtain ⟨hrank, hdisplaced⟩ := gives m more other hrest hm
  have hne : other.rank ≠ tier.rank := fun heq =>
    stop ⟨m, more, hrest, Tier.rank_injective heq ▸ hm.1⟩
  exact ⟨by omega, hdisplaced⟩

end Tree

namespace Reads

variable {rule : Rule} {tokens rest : List Token} {t : Tree}

/-- What a rule reads is ordered, and keeps to the ranks of the rule at both ends. -/
structure Sound (rule : Rule) (t : Tree) (rest : List Token) : Prop where
  ordered : t.Ordered
  above : t.Above rule.floor
  gives : t.Gives rule.limit rest

/-- An infix operator between operands that its tier asks for. -/
theorem Sound.infixed {tier : Tier} {left right : Tree} {head : Held} {mid : List Token}
    {fits : head.kind = .infixOp} (means : head.Means (.infixOp tier))
    (hleft : Sound tier.left left (head.token :: mid)) (hright : Sound tier.right right rest) :
    Sound (Symbol.infixOp tier).rule (.infixed left head right fits) rest := by
  -- The left operand ends in front of `head`, which displaces all operations on its right edge.
  obtain ⟨-, hdisplaced⟩ := hleft.gives head mid tier rfl means
  refine ⟨⟨hleft.ordered, hright.ordered, hdisplaced, ?_⟩, ?_, ?_⟩
  · intro m hm
    obtain ⟨tier', hmeans, hrank⟩ := hright.above m hm
    have hfloor := tier.floor_right
    rw [means.displaces_iff hmeans]
    omega
  · have houter := hleft.above.mono tier.floor_rule_le_left
    exact List.forall_mem_cons.mpr ⟨⟨tier, means, tier.floor_rule_le⟩, houter⟩
  · intro m more tier' hrest hm
    obtain ⟨hrank, hedge⟩ := hright.gives m more tier' hrest hm
    refine ⟨Nat.lt_of_lt_of_le hrank tier.limit_right_le, List.forall_mem_cons.mpr ⟨?_, hedge⟩⟩
    rw [means.displaces_iff hm, ← tier.limit_right]
    exact hrank

/-- A function or a prefix operator, which ends the left edge. -/
theorem Sound.prefixed {second : Rule} {s : Symbol} {operand : Tree} {head : Held}
    {fits : head.kind = .function ∨ head.kind = .prefixOp} (means : head.Means s)
    (hoperand : Sound second operand rest) (inner : s.strength ≤ second.floor)
    (behind : second.limit ≤ s.strength) (limit : second.limit ≤ rule.limit) :
    Sound rule (.prefixed head operand fits) rest := by
  refine ⟨⟨hoperand.ordered, fun m hm => ?_⟩, fun m hm => (nomatch hm), ?_⟩
  · obtain ⟨tier, hmeans, hrank⟩ := hoperand.above m hm
    rw [means.displaces_iff hmeans]
    omega
  · intro m more tier hrest hm
    obtain ⟨hrank, hedge⟩ := hoperand.gives m more tier hrest hm
    refine ⟨by omega, List.forall_mem_cons.mpr ⟨?_, hedge⟩⟩
    rw [means.displaces_iff hm]
    omega

/-- A tree without open ends. -/
theorem Sound.closed (ordered : t.Ordered) (left : t.leftEdge = []) (right : t.rightEdge = []) :
    Sound .primary t rest := by
  refine ⟨ordered, by simp [Tree.Above, left], fun m more tier _ _ => ⟨?_, by simp [right]⟩⟩
  cases tier <;> decide

/-- **What is read is ordered.** -/
theorem sound (reads : Reads rule tokens t rest) (standard : t.Standard) : Sound rule t rest := by
  induction reads with
  | assigned _ is _ ihl ihr | added _ is _ ihl ihr | multiplied _ is _ ihl ihr
  | raised _ is _ ihl ihr =>
    obtain ⟨hleft, hhead, hright⟩ := Tree.standard_infixed standard
    exact (ihl hleft).infixed (is.means hhead) (ihr hright)
  | assignment _ stop ih | sum _ stop ih | product _ stop ih | power _ stop ih =>
    -- The operator that would be read on with is the only one that goes.
    obtain ⟨ordered, above, gives⟩ := ih standard
    exact ⟨ordered, above.mono (by decide), .stop stop gives⟩
  | sums _ ih | products _ ih | unary _ ih | call _ ih =>
    obtain ⟨ordered, above, gives⟩ := ih standard
    exact ⟨ordered, above.mono (by decide), gives⟩
  | negated is _ ih =>
    obtain ⟨hhead, hoperand⟩ := Tree.standard_prefixed standard
    exact (ih hoperand).prefixed (is.means hhead) (by decide) (by decide) (by decide)
  | @calledNegated _ rest operand _ sign is isSign _ ih =>
    obtain ⟨hhead, hnegated⟩ := Tree.standard_prefixed standard
    obtain ⟨hsign, hoperand⟩ := Tree.standard_prefixed hnegated
    -- A negation has no left edge, so it is as good as a call for the function in front of it.
    have hnegation : Sound .call (.prefixed sign operand (.inr isSign.kind)) rest :=
      (ih hoperand).prefixed (isSign.means hsign) (by decide) (by decide) (by decide)
    exact hnegation.prefixed (is.means hhead) (by decide) (by decide) (by decide)
  | called is _ ih =>
    obtain ⟨hhead, hoperand⟩ := Tree.standard_prefixed standard
    exact (ih hoperand).prefixed (is.means hhead) (by decide) (by decide) (by decide)
  | number => exact .closed trivial rfl rfl
  | reference => exact .closed trivial rfl rfl
  | parenthesized _ _ _ ih =>
    obtain ⟨-, hinner, -⟩ := Tree.standard_bracket standard
    exact .closed (ih hinner).ordered rfl rfl

end Reads

end Calculator
