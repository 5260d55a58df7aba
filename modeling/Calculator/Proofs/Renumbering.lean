/-
Expressions over two stores.

Where an expression's variables have their cells makes no difference to how it is read and put in
order.  So an expression is evaluated alike over two stores that give equal values to the names that
it mentions.

* `reversePolish_alike` — tokens are put in order, or refused, whatever the cells are;
* `Registry.identifiers` — the names of the variables that an expression mentions;
* `Registry.rpn_inStep`, `Registry.evaluate_inStep` — an expression side by side over two stores.
-/
import Calculator.Proofs.Parallel

namespace Calculator

open Calculation (InStep Same)

variable {P : String → Prop} {R : VariableStore → VariableStore → Prop}
variable {s t : VariableStore}

/-! ### Order -/

/-- The same state between two tokens, but for the cells of variables. -/
structure Yard.Alike (P : String → Prop) (s t : VariableStore) (y z : Yard) : Prop where
  output : List.Forall₂ (Token.Alike P s t) y.output z.output
  held : y.held = z.held
  afterOperand : y.afterOperand = z.afterOperand

namespace Yard

variable {y z : Yard}

theorem alike_map_token (held : List Held) :
    List.Forall₂ (Token.Alike P s t) (held.map Held.token) (held.map Held.token) :=
  List.forall₂_same.mpr fun token mem => by
    obtain ⟨h, -, rfl⟩ := List.mem_map.mp mem
    exact .operation h.op h.span

theorem Alike.release (h : y.Alike P s t z) (goes : Held → Bool) :
    (y.release goes).Alike P s t (z.release goes) := by
  refine ⟨?_, ?_, h.afterOperand⟩
  · rw [Yard.release, Yard.release, ← h.held]
    exact List.rel_append (List.forall₂_reverse_iff.mpr (alike_map_token _)) h.output
  · rw [Yard.release, Yard.release, h.held]

theorem Alike.hold (h : y.Alike P s t z) (op : Operation) (span : Span) :
    (y.hold op span).Alike P s t (z.hold op span) :=
  ⟨h.output, congrArg (_ :: ·) h.held, h.afterOperand⟩

theorem Alike.displace (h : y.Alike P s t z) (op : Operation) (span : Span) :
    (y.displace op span).Alike P s t (z.displace op span) :=
  (h.release _).hold op span

theorem Alike.putOperand (h : y.Alike P s t z) {x x' : Token} (token : x.Alike P s t x') :
    (y.putOperand x).Alike P s t (z.putOperand x') :=
  ⟨.cons token h.output, h.held, rfl⟩

theorem Alike.close (h : y.Alike P s t z) (op : Operation) (pair : Int32) (span : Span) :
    Except.Alike (Yard.Alike P s t) (y.close op pair span) (z.close op pair span) := by
  have hrelease := h.release (!·.isOpenBracket)
  -- Operations are held, and those are the same in both yards.
  rw [Yard.close, Yard.close, ← hrelease.held]
  cases (y.release (!·.isOpenBracket)).held with
  | nil => exact .error _
  | cons opening held =>
    dsimp only
    split
    · refine .ok ⟨.cons (.operation op span) (.cons ?_ hrelease.output), rfl, ?_⟩
      · exact .operation opening.op opening.span
      · exact hrelease.afterOperand
    · exact .error _

theorem Alike.acceptOperand (h : y.Alike P s t z) {x x' : Token} (token : x.Alike P s t x') :
    Except.Alike (Yard.Alike P s t) (y.acceptOperand x) (z.acceptOperand x') := by
  cases token with
  | number value span => exact .ok (h.putOperand (.number value span))
  | reference named hi hj span => exact .ok (h.putOperand (.reference named hi hj span))
  | operation op span =>
    obtain ⟨designation, meaning⟩ := op
    cases meaning with
    | function handler => exact .ok (h.hold _ span)
    | prefixOp priority handler => exact .ok (h.hold _ span)
    | openBracket pair => exact .ok (h.hold _ span)
    | infixOp priority grouping handler => exact .error _
    | postfixOp priority handler => exact .error _
    | closeBracket pair => exact .error _

theorem Alike.acceptOperation (h : y.Alike P s t z) {x x' : Token} (token : x.Alike P s t x') :
    Except.Alike (Yard.Alike P s t) (y.acceptOperation x) (z.acceptOperation x') := by
  cases token with
  | number value span => exact .error _
  | reference named hi hj span => exact .error _
  | operation op span =>
    obtain ⟨designation, meaning⟩ := op
    cases meaning with
    | infixOp priority grouping handler =>
      have hdisplace := h.displace ⟨designation, .infixOp priority grouping handler⟩ span
      exact .ok ⟨hdisplace.output, hdisplace.held, rfl⟩
    | postfixOp priority handler => exact .ok (h.displace _ span)
    | closeBracket pair => exact h.close _ pair span
    | function handler => exact .error _
    | prefixOp priority handler => exact .error _
    | openBracket pair => exact .error _

theorem Alike.accept (h : y.Alike P s t z) {x x' : Token} (token : x.Alike P s t x') :
    Except.Alike (Yard.Alike P s t) (y.accept x) (z.accept x') := by
  rw [Yard.accept, Yard.accept, h.afterOperand]
  split
  · exact h.acceptOperation token
  · exact h.acceptOperand token

theorem Alike.run (h : y.Alike P s t z) {xs ys : List Token}
    (tokens : List.Forall₂ (Token.Alike P s t) xs ys) :
    Except.Alike (Yard.Alike P s t) (y.run xs) (z.run ys) := by
  induction tokens generalizing y z with
  | nil => exact .ok h
  | cons token _ ih => exact (h.accept token).bind fun h' => ih h'

theorem Alike.finish (h : y.Alike P s t z) :
    Except.Alike (List.Forall₂ (Token.Alike P s t)) y.finish z.finish := by
  rw [Yard.finish, Yard.finish, h.afterOperand, h.held]
  split
  · cases z.held.find? Held.isOpenBracket with
    | some opening => exact .error _
    | none =>
      exact .ok (List.rel_append (List.forall₂_reverse_iff.mpr h.output) (alike_map_token _))
  · exact .error _

end Yard

/-- Tokens are put in order, or refused, whatever the cells of variables are. -/
theorem reversePolish_alike {xs ys : List Token}
    (tokens : List.Forall₂ (Token.Alike P s t) xs ys) :
    Except.Alike (List.Forall₂ (Token.Alike P s t)) (reversePolish xs) (reversePolish ys) := by
  have hempty : Yard.Alike P s t .empty .empty := ⟨.nil, rfl, rfl⟩
  exact (hempty.run tokens).bind fun h => h.finish

/-! ### Reading -/

/-- What tokens end does not depend on cells. -/
theorem endOperand_alike {xs ys : List Token} (tokens : List.Forall₂ (Token.Alike P s t) xs ys)
    (before : Bool) : Token.endOperand before xs = Token.endOperand before ys := by
  induction tokens generalizing before with
  | nil => rfl
  | cons token _ ih =>
    rw [Token.endOperand_cons, Token.endOperand_cons, ih]
    cases token <;> rfl

namespace Registry

/-- The name of the variable that a piece of an expression mentions, if it is the name of one. -/
def identifier? (r : Registry) : Lexeme → Option String
  | .name cs =>
    let name := String.ofList cs
    if r.function? name = none ∧ r.constant? name = none then some name else none
  | _ => none

/-- The names of the variables that an expression mentions. -/
def identifiers (r : Registry) (expression : String) : List String :=
  (Lexeme.split 0 expression.toList).filterMap fun (_, lexeme) => r.identifier? lexeme

variable {r : Registry} {afterOperand : Bool} {start : Nat} {lexeme : Lexeme} {name : String}
variable {expression : String}

/-- The name of a variable is interned. -/
theorem readLexeme_of_identifier (h : r.identifier? lexeme = some name) (afterOperand : Bool)
    (start : Nat) :
    ∃ span, r.readLexeme afterOperand start lexeme
      = (do return [.reference (← modifyGet (VariableStore.intern · name)) span]) := by
  -- Only names are identifiers, if nothing is registered under them.
  cases lexeme with
  | name cs =>
    rw [identifier?] at h
    split at h
    · next unregistered =>
      obtain rfl := Option.some.inj h
      rw [readLexeme, unregistered.1, unregistered.2]
      exact ⟨_, rfl⟩
    · cases h
  | numeral n => simp [identifier?] at h
  | symbols cs => simp [identifier?] at h

/-- A run of symbols is a run of operations. -/
theorem operations_of_readSymbols {cs : List Char} {tokens : List Token}
    (h : r.readSymbols afterOperand start cs = .ok tokens) :
    ∀ token ∈ tokens, ∃ op span, token = .operation op span := by
  -- Along the reader's own recursion.
  induction afterOperand, start, cs using readSymbols.induct r generalizing tokens with
  | case1 afterOperand start =>
    obtain rfl := Except.ok.inj ((readSymbols_nil afterOperand start).symm.trans h)
    simp
  | case2 afterOperand start cs some hnone =>
    cases (readSymbols_of_none some hnone start).symm.trans h
  | case3 afterOperand start cs some length op found token =>
    rename_i ih
    rw [readSymbols_of_some found] at h
    obtain ⟨rest, hrest, hend⟩ := Except.bind_eq_ok.mp h
    obtain rfl := Except.ok.inj hend
    exact List.forall_mem_cons.mpr ⟨⟨op, _, rfl⟩, ih hrest⟩

/-- No other piece has to do with variables. -/
theorem readLexeme_of_identifier_eq_none (h : r.identifier? lexeme = none) (afterOperand : Bool)
    (start : Nat) :
    ∃ result, r.readLexeme afterOperand start lexeme = Calculation.ofExcept result ∧
      Except.Alike (List.Forall₂ (Token.Alike P s t)) result result := by
  -- No variable is read, so whatever is read is alike to itself in any two stores.
  have single (token : Token) (alike : token.Alike P s t token) :
      Except.Alike (List.Forall₂ (Token.Alike P s t)) (.ok [token] : Except Error _) (.ok [token]) :=
    .ok (.cons alike .nil)
  cases lexeme with
  | name cs =>
    rw [readLexeme]
    cases hfunction : r.function? (String.ofList cs) with
    | some op => exact ⟨_, rfl, single _ (.operation op _)⟩
    | none =>
      cases hconstant : r.constant? (String.ofList cs) with
      | some value => exact ⟨_, rfl, single _ (.number value _)⟩
      | none => simp [identifier?, hfunction, hconstant] at h
  | numeral n =>
    rw [readLexeme]
    cases n.value? with
    | some value => exact ⟨_, rfl, single _ (.number value _)⟩
    | none => exact ⟨.error _, rfl, .error _⟩
  | symbols cs =>
    refine ⟨_, rfl, ?_⟩
    cases hsymbols : r.readSymbols afterOperand start cs with
    | error e => exact .error e
    | ok tokens =>
      refine .ok (List.forall₂_same.mpr fun token mem => ?_)
      obtain ⟨op, span, rfl⟩ := operations_of_readSymbols hsymbols token mem
      exact .operation op span

section

variable (mention : ∀ {s t name}, R s t → P name →
  R (VariableStore.intern s name).2 (VariableStore.intern t name).2)

include mention

theorem readLexeme_inStep (named : ∀ name, r.identifier? lexeme = some name → P name) (h : R s t)
    (afterOperand : Bool) (start : Nat) :
    InStep R (fun s t => List.Forall₂ (Token.Alike P s t)) s t
      (r.readLexeme afterOperand start lexeme) (r.readLexeme afterOperand start lexeme) := by
  -- Either the piece mentions a name of `P`, or it does not look at the store.
  cases hidentifier : r.identifier? lexeme with
  | some name =>
    obtain ⟨span, heq⟩ := readLexeme_of_identifier hidentifier afterOperand start
    have hnamed := named name hidentifier
    rw [heq]
    refine .of_run (x := .ok [.reference (s.intern name).1 span])
      (y := .ok [.reference (t.intern name).1 span]) rfl rfl (mention h hnamed)
      (s.keeps_intern name) (t.keeps_intern name) (.ok (.cons ?_ .nil))
    exact .reference hnamed (s.lookup_intern name) (t.lookup_intern name) span
  | none =>
    obtain ⟨result, heq, hresult⟩ := readLexeme_of_identifier_eq_none hidentifier afterOperand start
    rw [heq]
    exact .ofExcept h hresult

theorem readLexemes_inStep {lexemes : List (Nat × Lexeme)}
    (named : ∀ name ∈ lexemes.filterMap fun (_, lexeme) => r.identifier? lexeme, P name)
    (h : R s t) (afterOperand : Bool) :
    InStep R (fun s t => List.Forall₂ (Token.Alike P s t)) s t
      (r.readLexemes afterOperand lexemes) (r.readLexemes afterOperand lexemes) := by
  induction lexemes generalizing afterOperand s t with
  | nil => exact .pure h .nil
  | cons piece lexemes ih =>
    obtain ⟨start, lexeme⟩ := piece
    have hfirst : ∀ name, r.identifier? lexeme = some name → P name := fun name hname =>
      named name (List.mem_filterMap.mpr ⟨_, List.mem_cons_self, hname⟩)
    have hrest : ∀ name ∈ lexemes.filterMap fun (_, lexeme) => r.identifier? lexeme, P name := by
      intro name mem
      obtain ⟨piece, hpiece, hname⟩ := List.mem_filterMap.mp mem
      exact named name (List.mem_filterMap.mpr ⟨piece, List.mem_cons_of_mem _ hpiece, hname⟩)
    refine (readLexeme_inStep mention hfirst h afterOperand start).bind fun _ _ h' tokens => ?_
    -- Tokens that are alike leave the same expected, so the rest is read in the same mode.
    rw [← endOperand_alike tokens]
    refine (ih hrest h' _).bind fun left right h'' more => .pure h'' ?_
    exact List.rel_append (tokens.imp fun _ _ hx => hx.later left right) more

/-- An expression is put in order alike over two stores. -/
theorem rpn_inStep (named : ∀ name ∈ r.identifiers expression, P name) (h : R s t) :
    InStep R (fun s t => List.Forall₂ (Token.Alike P s t)) s t
      (r.rpn expression) (r.rpn expression) := by
  rw [rpn]
  cases r.conflict? with
  | some conflict => exact .throw h _
  | none =>
    refine (readLexemes_inStep mention named h false).bind fun _ _ h' tokens => ?_
    exact .ofExcept h' (reversePolish_alike tokens)

end

/-- An expression is evaluated alike over two stores that give its names equal values. -/
theorem evaluate_inStep (standard : r.Standard) (matching : VariableStore.Matching P R)
    (named : ∀ name ∈ r.identifiers expression, P name) (h : R s t) :
    InStep R Same s t (r.evaluate expression) (r.evaluate expression) := by
  have known {tokens : List Token} {s' : VariableStore}
      (hrun : (r.rpn expression).run.run s = (.ok tokens, s')) : r.KnowsAll tokens := by
    have hsession : Session.rpn ⟨r, s⟩ expression = (.ok tokens, ⟨r, s'⟩) :=
      Session.run_eq_iff.mpr ⟨hrun, rfl⟩
    exact Session.knows_of_rpn hsession
  refine ((rpn_inStep matching.mention named h).and_left known).bind fun _ _ h' tokens => ?_
  exact Calculator.evaluate_inStep standard matching h' tokens.2 tokens.1

end Registry

end Calculator
