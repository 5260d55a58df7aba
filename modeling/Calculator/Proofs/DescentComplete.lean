/-
Recursive descent reads every ordered tree.

A tree is read by the rule of its outermost operation, and then by all rules above that one, up to
the first that would have to read on.

* `Reads.raise` — from a rule to the rules above it;
* `Tree.HasRule.height_le_left`, `Tree.HasRule.height_le` — the operands of an ordered tree have
  rules below those that their operation asks for;
* `Tree.Ordered.exists_reads` — an ordered tree is read, whatever follows that it meets;
* `reads_iff_ordered` — the grammar reads exactly the ordered trees.
-/
import Mathlib.Logic.Function.Iterate
import Calculator.Proofs.Descent
import Calculator.Proofs.Precedence

namespace Calculator

/-! ### From rule to rule -/

/-- An infix operator in front of `rest` has less than some rank. -/
def Below (n : Nat) (rest : List Token) : Prop :=
  ∀ m more tier, rest = Held.token m :: more → m.Stands (.infixOp tier) → tier.rank < n

theorem Below.mono {n k : Nat} {rest : List Token} (le : n ≤ k) (below : Below n rest) :
    Below k rest :=
  fun m more tier hrest is => Nat.lt_of_lt_of_le (below m more tier hrest is) le

theorem Below.stop {n : Nat} {rest : List Token} {tier : Tier} (below : Below n rest)
    (le : n ≤ tier.rank) : ¬ Starts (.infixOp tier) rest := by
  rintro ⟨m, more, hrest, is⟩
  have := below m more tier hrest is
  omega

theorem below_of_kind {n : Nat} {head : Held} {rest : List Token} (kind : head.kind ≠ .infixOp) :
    Below n (head.token :: rest) := by
  intro m more tier hrest is
  obtain rfl := Held.token_injective (List.cons.inj hrest).1
  exact absurd is.kind kind

namespace Rule

/-- The position of a rule above `primary`. -/
def height : Rule → Nat
  | primary => 0
  | call => 1
  | power => 2
  | unary => 3
  | products => 4
  | product => 5
  | sums => 6
  | sum => 7
  | assignment => 8

/-- The rule that reads what a rule reads, if no more follows. -/
def up : Rule → Rule
  | primary => call
  | call => power
  | power => unary
  | unary => products
  | products => product
  | product => sums
  | sums => sum
  | sum => assignment
  | assignment => assignment

theorem limit_up_le (rule : Rule) : rule.up.limit ≤ rule.limit := by
  cases rule <;> decide

theorem height_le_assignment (rule : Rule) : rule.height ≤ assignment.height := by
  cases rule <;> decide

theorem iterate_up {a b : Rule} (le : a.height ≤ b.height) : up^[b.height - a.height] a = b := by
  cases a <;> cases b <;> first | rfl | exact absurd le (by decide)

end Rule

namespace Reads

variable {rule : Rule} {tokens rest : List Token} {t : Tree}

theorem up (reads : Reads rule tokens t rest) (below : Below rule.up.limit rest) :
    Reads rule.up tokens t rest := by
  cases rule with
  | primary => exact .call reads
  | call => exact .power reads (below.stop (by decide))
  | power => exact .unary reads
  | unary => exact .products reads
  | products => exact .product reads (below.stop (by decide))
  | product => exact .sums reads
  | sums => exact .sum reads (below.stop (by decide))
  | sum => exact .assignment reads (below.stop (by decide))
  | assignment => exact reads

/-- What a rule reads is read by all rules above it that have to stop there. -/
theorem raise {a b : Rule} (reads : Reads a tokens t rest) (le : a.height ≤ b.height)
    (below : Below b.limit rest) : Reads b tokens t rest := by
  -- One rule at a time. Limits get lower on the way up, so what stops `b` stops them all.
  rw [← Rule.iterate_up le] at below ⊢
  generalize b.height - a.height = n at below ⊢
  induction n with
  | zero => exact reads
  | succ n ih =>
    rw [Function.iterate_succ_apply'] at below ⊢
    exact (ih (below.mono (Rule.limit_up_le _))).up below

/-- A negated tree can only have been read as such. -/
theorem of_negated {sign : Held} {operand : Tree}
    {fits : sign.kind = .function ∨ sign.kind = .prefixOp}
    (reads : Reads .unary tokens (.prefixed sign operand fits) rest) (is : sign.Stands .negation) :
    Reads .unary (operand.inorder ++ rest) operand rest := by
  cases reads with
  | negated _ h => exact h.inorder_append.symm ▸ h
  | unary h =>
    -- All other readings begin with a function.
    cases h with
    | power h =>
      cases h with
      | calledNegated is' => nomatch is.unique is'
      | called is' => nomatch is.unique is'
      | call h => nomatch h

end Reads

theorem Tier.height_left {s : Symbol} {tier : Tier} (h : tier.rank < s.strength) :
    s.rule.height ≤ tier.left.height := by
  cases s with
  | infixOp held => cases held <;> cases tier <;> first | decide | exact absurd h (by decide)
  | _ => cases tier <;> first | decide | exact absurd h (by decide)

theorem Tier.height_right (tier : Tier) {other : Tier}
    (h : (Symbol.infixOp tier).strength ≤ other.rank) :
    (Symbol.infixOp other).rule.height ≤ tier.right.height := by
  cases tier <;> cases other <;> first | decide | exact absurd h (by decide)

theorem Reads.infixed {tokens mid rest : List Token} {left right : Tree} {head : Held} {tier : Tier}
    (first : Reads tier.left tokens left (head.token :: mid)) (is : head.Stands (.infixOp tier))
    (second : Reads tier.right mid right rest) :
    Reads (Symbol.infixOp tier).rule tokens (.infixed left head right is.kind) rest := by
  cases tier with
  | assignment => exact .assigned first is second
  | additive => exact .added first is second
  | multiplicative => exact .multiplied first is second
  | power => exact .raised first is second

namespace Tree

/-- A tree is read by the rule of its outermost operation. -/
def HasRule (rule : Rule) : Tree → Prop
  | number _ _ => rule = .primary
  | reference _ _ => rule = .primary
  | prefixed head _ _ => ∃ s, head.Means s ∧ rule = s.rule
  | infixed _ head _ _ => ∃ s, head.Means s ∧ rule = s.rule
  | postfixed _ head _ => ∃ s, head.Means s ∧ rule = s.rule
  | bracket _ _ _ _ => rule = .primary

/-- A standard infix operator in front of `rest` displaces all that ends `t`. -/
def Meets (t : Tree) (rest : List Token) : Prop :=
  ∀ m more tier, rest = Held.token m :: more → m.Stands (.infixOp tier) →
    m.Means (.infixOp tier) ∧ ∀ h ∈ t.rightEdge, h.displaces m = true

variable {t : Tree} {rule : Rule} {head : Held} {tier : Tier}

theorem HasRule.height_le_left (has : t.HasRule rule) (means : head.Means (.infixOp tier))
    (displaced : ∀ h ∈ t.rightEdge, h.displaces head = true) : rule.height ≤ tier.left.height := by
  have outermost {h : Held} (mem : h ∈ t.rightEdge) (has : ∃ s, h.Means s ∧ rule = s.rule) :
      rule.height ≤ tier.left.height := by
    obtain ⟨s, hs, rfl⟩ := has
    exact Tier.height_left ((hs.displaces_iff means).mp (displaced h mem))
  cases t with
  | number => exact has ▸ Nat.zero_le _
  | reference => exact has ▸ Nat.zero_le _
  | prefixed h _ _ => exact outermost List.mem_cons_self has
  | infixed _ h _ _ => exact outermost List.mem_cons_self has
  | postfixed _ h _ => exact outermost List.mem_cons_self has
  | bracket => exact has ▸ Nat.zero_le _

theorem HasRule.height_le {b : Rule} (has : t.HasRule rule) (unary : Rule.unary.height ≤ b.height)
    (infixed : ∀ h ∈ t.leftEdge, ∀ tier, h.Means (.infixOp tier) →
      (Symbol.infixOp tier).rule.height ≤ b.height) : rule.height ≤ b.height := by
  -- The rule of a tree is that of its root, and the root of an infix tree begins its left edge.
  cases t with
  | number => exact has ▸ Nat.zero_le _
  | reference => exact has ▸ Nat.zero_le _
  | prefixed h _ fits =>
    obtain ⟨s, hs, rfl⟩ := has
    refine Nat.le_trans ?_ unary
    rw [hs.1.kind] at fits
    cases s <;> first | decide | simp [Symbol.kind] at fits
  | infixed _ h _ fits =>
    obtain ⟨s, hs, rfl⟩ := has
    obtain ⟨tier, rfl⟩ := Symbol.exists_tier (hs.1.kind.symm.trans fits)
    exact infixed h List.mem_cons_self tier hs
  | postfixed _ h fits =>
    obtain ⟨s, hs, rfl⟩ := has
    exact absurd (hs.1.kind.symm.trans fits) s.kind_ne_postfixOp
  | bracket => exact has ▸ Nat.zero_le _

/-- What is behind a tree is left by a rule if all that the tree meets is. -/
theorem Meets.below {rest : List Token} {n : Nat} (meets : t.Meets rest)
    (lower : ∀ m tier, m.Means (.infixOp tier) → (∀ h ∈ t.rightEdge, h.displaces m = true) →
      tier.rank < n) : Below n rest := by
  intro m more tier hrest is
  obtain ⟨hm, hdisplaced⟩ := meets m more tier hrest is
  exact lower m tier hm hdisplaced

/-- An operation that stands for no infix operator ends what is in front of it. -/
theorem meets_of_kind {rest : List Token} (kind : head.kind ≠ .infixOp) :
    t.Meets (head.token :: rest) := by
  intro m more tier hrest is
  obtain rfl := Held.token_injective (List.cons.inj hrest).1
  exact absurd is.kind kind

/-- The operand of a negation is read by `unary`. -/
theorem HasRule.reads_unary {rest : List Token} (has : t.HasRule rule)
    (reads : Reads rule (t.inorder ++ rest) t rest) (means : head.Means .negation)
    (edge : ∀ m ∈ t.leftEdge, ¬ head.displaces m)
    (below : Below Rule.unary.limit rest) : Reads .unary (t.inorder ++ rest) t rest := by
  refine reads.raise (has.height_le (Nat.le_refl _) fun m hm tier hmeans => ?_) below
  have hrank := edge m hm
  rw [means.displaces_iff hmeans, Nat.not_lt] at hrank
  exact Tier.height_right .multiplicative hrank

/-- The operand of a function is read by `call`, or else it is negated. -/
theorem HasRule.reads_call {rest : List Token} (has : t.HasRule rule)
    (reads : Reads rule (t.inorder ++ rest) t rest) (means : head.Means .function)
    (edge : ∀ m ∈ t.leftEdge, ¬ head.displaces m) :
    Reads .call (head.token :: (t.inorder ++ rest)) (.prefixed head t (.inl means.1.kind))
      rest := by
  have closed (h : rule = .primary) : Reads .call (head.token :: (t.inorder ++ rest))
      (.prefixed head t (.inl means.1.kind)) rest :=
    .called means.1 (.call (h ▸ reads))
  cases t with
  | number => exact closed has
  | reference => exact closed has
  | prefixed h operand fits =>
    obtain ⟨s, hs, rfl⟩ := has
    rw [hs.1.kind] at fits
    cases s with
    | function => exact .called means.1 reads
    | negation => exact .calledNegated means.1 hs.1 (reads.of_negated hs.1)
    | _ => simp [Symbol.kind] at fits
  | infixed _ h _ fits =>
    -- A function displaces whatever follows, so its operand does not end in an infix operator.
    obtain ⟨s, hs, rfl⟩ := has
    obtain ⟨tier, rfl⟩ := Symbol.exists_tier (hs.1.kind.symm.trans fits)
    refine absurd ((means.displaces_iff hs).mpr ?_) (edge h List.mem_cons_self)
    cases tier <;> decide
  | postfixed _ h fits =>
    obtain ⟨s, hs, rfl⟩ := has
    exact absurd (hs.1.kind.symm.trans fits) s.kind_ne_postfixOp
  | bracket => exact closed has

/-- An ordered tree is read by its rule, whatever follows that it meets. -/
theorem Ordered.exists_reads (ordered : t.Ordered) (standard : t.Standard) :
    ∃ rule, t.HasRule rule ∧
      ∀ rest, t.Meets rest → Reads rule (t.inorder ++ rest) t rest := by
  induction t with
  | number value span => exact ⟨.primary, rfl, fun rest _ => .number value span rest⟩
  | reference id span => exact ⟨.primary, rfl, fun rest _ => .reference id span rest⟩
  | prefixed head operand fits ih =>
    obtain ⟨hoperand, hedge⟩ := ordered
    obtain ⟨⟨s, hs⟩, hstandard⟩ := standard_prefixed standard
    obtain ⟨rule, hrule, hreads⟩ := ih hoperand hstandard
    refine ⟨s.rule, ⟨s, hs, rfl⟩, fun rest meets => ?_⟩
    have hmeets : operand.Meets rest := fun m more tier hrest is =>
      (meets m more tier hrest is).imp_right fun h => (List.forall_mem_cons.mp h).2
    have hread := hreads rest hmeets
    have hkind := hs.1.kind
    cases s with
    | function => exact hrule.reads_call hread hs hedge
    | negation =>
      have hbelow : Below Rule.unary.limit rest := meets.below fun m tier hm hdisplaced =>
        (hs.displaces_iff hm).mp (hdisplaced head List.mem_cons_self)
      exact .negated hs.1 (hrule.reads_unary hread hs hedge hbelow)
    | _ => simp [hkind, Symbol.kind] at fits
  | infixed left head right fits ihl ihr =>
    obtain ⟨hleft, hright, hdisplaced, hedge⟩ := ordered
    obtain ⟨hleft', ⟨s, hs⟩, hright'⟩ := standard_infixed standard
    obtain ⟨tier, rfl⟩ := Symbol.exists_tier (hs.1.kind.symm.trans fits)
    obtain ⟨lrule, hlrule, hlreads⟩ := ihl hleft hleft'
    obtain ⟨rrule, hrrule, hrreads⟩ := ihr hright hright'
    refine ⟨(Symbol.infixOp tier).rule, ⟨_, hs, rfl⟩, fun rest meets => ?_⟩
    -- What follows the left operand is the operator, which it meets as the tree is ordered.
    have hfirst : Reads tier.left (left.inorder ++ head.token :: (right.inorder ++ rest)) left
        (head.token :: (right.inorder ++ rest)) := by
      have hhead {m : Held} {more : List Token} {tier' : Tier}
          (hcons : head.token :: (right.inorder ++ rest) = m.token :: more)
          (is : m.Stands (.infixOp tier')) : head = m ∧ tier = tier' := by
        obtain rfl := Held.token_injective (List.cons.inj hcons).1
        exact ⟨rfl, Symbol.infixOp.inj (hs.1.unique is)⟩
      refine (hlreads _ fun m more tier' hcons is => ?_).raise
        (hlrule.height_le_left hs hdisplaced) fun m more tier' hcons is => ?_
      · obtain ⟨rfl, rfl⟩ := hhead hcons is
        exact ⟨hs, hdisplaced⟩
      · obtain ⟨rfl, rfl⟩ := hhead hcons is
        cases tier <;> decide
    -- What follows the right operand displaces the operator too, so its rule leaves it.
    have hsecond : Reads tier.right (right.inorder ++ rest) right rest := by
      have hmeets : right.Meets rest := fun m more tier' hrest is =>
        (meets m more tier' hrest is).imp_right fun h => (List.forall_mem_cons.mp h).2
      refine (hrreads rest hmeets).raise (hrrule.height_le ?_ fun m hm tier' hmeans => ?_) ?_
      · cases tier <;> decide
      · have hrank := hedge m hm
        rw [hs.displaces_iff hmeans, Nat.not_lt] at hrank
        exact Tier.height_right _ hrank
      · rw [Tier.limit_right]
        exact meets.below fun m tier' hm hdisplaced =>
          (hs.displaces_iff hm).mp (hdisplaced head List.mem_cons_self)
    rw [inorder, List.append_assoc, List.cons_append]
    exact hfirst.infixed hs.1 hsecond
  | postfixed operand head fits _ =>
    obtain ⟨s, hs⟩ := standard head (by simp [inorder])
    exact absurd (hs.1.kind.symm.trans fits) s.kind_ne_postfixOp
  | bracket opening inner closing fits ih =>
    obtain ⟨⟨s, hs⟩, hinner, ⟨s', hs'⟩⟩ := standard_bracket standard
    obtain ⟨rule, hrule, hreads⟩ := ih ordered hinner
    refine ⟨.primary, rfl, fun rest _ => ?_⟩
    obtain ⟨pair, hopening, hclosing⟩ := fits
    have hclosed : closing.kind ≠ .infixOp := by simp [hclosing]
    have hread : Reads .assignment (inner.inorder ++ closing.token :: rest) inner
        (closing.token :: rest) :=
      (hreads _ (meets_of_kind hclosed)).raise (rule.height_le_assignment) (below_of_kind hclosed)
    obtain rfl : s = .opening := Symbol.eq_opening (hs.1.kind.symm.trans hopening)
    obtain rfl : s' = .closing := Symbol.eq_closing (hs'.1.kind.symm.trans hclosing)
    simpa [inorder] using Reads.parenthesized hs.1 hs'.1 hread

end Tree

/-- **The grammar reads exactly the ordered trees**, as far as standard operations go. -/
theorem reads_iff_ordered {tokens : List Token}
    (standard : ∀ h : Held, h.token ∈ tokens → ∃ s, h.Means s) (t : Tree) :
    Reads .assignment tokens t [] ↔ t.inorder = tokens ∧ t.Ordered := by
  constructor
  · intro reads
    obtain rfl : t.inorder = tokens := by simpa using reads.inorder_append
    exact ⟨rfl, (reads.sound standard).ordered⟩
  · rintro ⟨rfl, ordered⟩
    obtain ⟨rule, -, hreads⟩ := ordered.exists_reads standard
    have hread : Reads rule t.inorder t [] := by
      simpa using hreads [] fun _ _ _ hrest => nomatch hrest
    exact hread.raise rule.height_le_assignment fun _ _ _ hrest => nomatch hrest

end Calculator
