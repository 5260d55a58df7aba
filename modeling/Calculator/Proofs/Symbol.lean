/-
The symbols of the standard extensions.

Each standard operation is one of a few symbols, which say how it is written and of what kind it is.
Its priority and its grouping come down to two numbers: an infix operator has a rank, and a held
operation is displaced by the infix operators whose rank is below its strength.

* `Held.Stands`, `Held.Stands.unique` — an operation is written like at most one symbol;
* `Symbol.displaces_meaning` — which symbols displace which, by rank and strength;
* `Held.Means` — an operation that has the priority and the grouping of its symbol.
-/
import Calculator.Extension
import Calculator.Proofs.Tree

namespace Calculator

/-! ### Symbols -/

/-- The tiers of infix operators, loosest first. -/
inductive Tier where
  | assignment
  | additive
  | multiplicative
  | power
deriving DecidableEq, Repr

/-- What a standard operation is in the grammar. -/
inductive Symbol where
  | infixOp (tier : Tier)
  | negation
  | function
  | opening
  | closing
deriving DecidableEq, Repr

namespace Symbol

def kind : Symbol → Kind
  | infixOp _ => .infixOp
  | negation => .prefixOp
  | function => .function
  | opening => .openBracket Extension.parenthesis
  | closing => .closeBracket Extension.parenthesis

/-- How a symbol is written. -/
def names : Symbol → List String
  | infixOp .assignment => ["="]
  | infixOp .additive => ["+", "-"]
  | infixOp .multiplicative => ["*", "/"]
  | infixOp .power => ["^"]
  | negation => ["-"]
  | function => ["sin", "cos"]
  | opening => ["("]
  | closing => [")"]

theorem disjoint_names {a b : Tier} (ne : a ≠ b) :
    ∀ name ∈ (infixOp a).names, name ∉ (infixOp b).names := by
  cases a <;> cases b <;> first | exact absurd rfl ne | decide

theorem eq_of_mem_names {a b : Symbol} {name : String} (kind : a.kind = b.kind)
    (ha : name ∈ a.names) (hb : name ∈ b.names) : a = b := by
  cases a with
  | infixOp tier =>
    cases b with
    | infixOp tier' =>
      by_cases heq : tier = tier'
      · rw [heq]
      · exact absurd hb (disjoint_names heq name ha)
    | _ => nomatch kind
  | _ => cases b <;> first | rfl | nomatch kind

theorem exists_tier {s : Symbol} (h : s.kind = .infixOp) : ∃ tier, s = infixOp tier := by
  cases s with
  | infixOp tier => exact ⟨tier, rfl⟩
  | _ => nomatch h

theorem eq_opening {s : Symbol} {pair : Int32} (h : s.kind = .openBracket pair) : s = opening := by
  cases s with
  | opening => rfl
  | _ => simp [kind] at h

theorem eq_closing {s : Symbol} {pair : Int32} (h : s.kind = .closeBracket pair) : s = closing := by
  cases s with
  | closing => rfl
  | _ => simp [kind] at h

theorem kind_ne_postfixOp (s : Symbol) : s.kind ≠ .postfixOp := by
  cases s <;> simp [kind]

end Symbol

/-- An operation is written like a symbol and of its kind. -/
structure Held.Stands (h : Held) (s : Symbol) : Prop where
  kind : h.kind = s.kind
  named : h.op.designation ∈ s.names

theorem Held.Stands.unique {h : Held} {a b : Symbol} (ha : h.Stands a) (hb : h.Stands b) : a = b :=
  Symbol.eq_of_mem_names (ha.kind.symm.trans hb.kind) ha.named hb.named

/-! ### Priorities -/

/-- How tightly an infix operator binds. -/
def Tier.rank : Tier → Nat
  | assignment => 0
  | additive => 1
  | multiplicative => 2
  | power => 3

theorem Tier.rank_injective : Function.Injective Tier.rank := by
  intro a b h
  cases a <;> cases b <;> first | rfl | nomatch h

namespace Symbol

/-- The meaning of a standard operation, but for its handler. -/
def meaning (handler : Handler) : Symbol → Meaning
  | infixOp .assignment => .infixOp 0 .rightToLeft handler
  | infixOp .additive => .infixOp 1 .leftToRight handler
  | infixOp .multiplicative => .infixOp 2 .leftToRight handler
  | infixOp .power => .infixOp 5 .rightToLeft handler
  | negation => .prefixOp 4 handler
  | function => .function handler
  | opening => .openBracket Extension.parenthesis
  | closing => .closeBracket Extension.parenthesis

theorem kind_meaning (s : Symbol) (f : Handler) : (s.meaning f).kind = s.kind := by
  cases s with
  | infixOp tier => cases tier <;> rfl
  | _ => rfl

/-- The rank below which infix operators displace a held operation. -/
def strength : Symbol → Nat
  | infixOp .assignment => 0
  | infixOp .additive => 2
  | infixOp .multiplicative => 3
  | infixOp .power => 3
  | negation => 3
  | function => 4
  | opening => 0
  | closing => 0

/-- Priorities and groupings come down to ranks and strengths. -/
theorem displaces_meaning (s : Symbol) (tier : Tier) (f g : Handler) :
    (s.meaning f).displaces ((infixOp tier).meaning g) = decide (tier.rank < s.strength) := by
  cases s with
  | infixOp held =>
    cases held <;> cases tier <;> simp only [meaning, Meaning.displaces] <;> decide
  | negation =>
    cases tier with
    | assignment => exact (by decide : decide ((4 : Float32) > 0) = true)
    | additive => exact (by decide : decide ((4 : Float32) > 1) = true)
    | multiplicative => exact (by decide : decide ((4 : Float32) > 2) = true)
    | power => exact (by decide : decide ((4 : Float32) > 5) = false)
  | function => cases tier <;> rfl
  | opening => cases tier <;> rfl
  | closing => cases tier <;> rfl

end Symbol

namespace Held

variable {h m : Held} {s : Symbol} {tier : Tier}

/-- A standard operation: a symbol with its priority and grouping. -/
def Means (h : Held) (s : Symbol) : Prop := h.Stands s ∧ ∃ f, h.op.meaning = s.meaning f

theorem Means.displaces_iff (hs : h.Means s) (hm : m.Means (.infixOp tier)) :
    h.displaces m = true ↔ tier.rank < s.strength := by
  obtain ⟨-, f, hf⟩ := hs
  obtain ⟨-, g, hg⟩ := hm
  rw [displaces, hf, hg, Symbol.displaces_meaning, decide_eq_true_iff]

/-- An operation that is standard means what it stands for. -/
theorem Stands.means (is : h.Stands s) (standard : ∃ s, h.Means s) : h.Means s := by
  obtain ⟨s', hs'⟩ := standard
  rw [is.unique hs'.1]
  exact hs'

end Held

end Calculator
