/-
Operator trees.

A tree says which operands every function and operator of an expression has.  The tokens of the
expression are its in-order reading, the tokens in reverse Polish order its postorder.

* `Tree.inorder`, `Tree.postorder` — the two readings; a bracket pair is a node with one child,
  written around the child and put behind it;
* `Tree.rightEdge`, `Tree.leftEdge` — the operations at the open ends of a tree, which is where
  operations to its right or left compete for operands;
* `Tree.Ordered` — every such competition is decided as `Meaning.displaces` says;
* `Tree.postorder_perm_inorder` — both have the same tokens;
* `Tree.postorder_eq_body_append` — only the right edge is pending at the end of a tree;
* `Tree.postorder_append_inj` — a postorder at the end of a list determines its tree.
-/
import Calculator.ReversePolish

namespace Calculator

/-- What a token is, apart from its value, name, priority, grouping and handler. -/
inductive Kind where
  | number
  | reference
  | function
  | prefixOp
  | infixOp
  | postfixOp
  | openBracket (pair : Int32)
  | closeBracket (pair : Int32)
deriving DecidableEq, Repr

def Meaning.kind : Meaning → Kind
  | .function _ => .function
  | .prefixOp _ _ => .prefixOp
  | .infixOp _ _ _ => .infixOp
  | .postfixOp _ _ => .postfixOp
  | .openBracket pair => .openBracket pair
  | .closeBracket pair => .closeBracket pair

def Token.kind : Token → Kind
  | .number _ _ => .number
  | .reference _ _ => .reference
  | .operation op _ => op.meaning.kind

namespace Held

def kind (h : Held) : Kind := h.op.meaning.kind

/-- Whether a held operation has to go before `incoming` is held. -/
def displaces (h incoming : Held) : Bool := h.op.meaning.displaces incoming.op.meaning

@[simp] theorem kind_token (h : Held) : h.token.kind = h.kind := rfl

theorem token_injective : Function.Injective token := by
  rintro ⟨op, span⟩ ⟨op', span'⟩ h
  simpa [token] using h

/-- What kinds of operations there are. -/
theorem kind_cases (h : Held) :
    h.kind = .function ∨ h.kind = .prefixOp ∨ h.kind = .infixOp ∨ h.kind = .postfixOp ∨
      (∃ pair, h.kind = .openBracket pair) ∨ ∃ pair, h.kind = .closeBracket pair := by
  obtain ⟨⟨designation, meaning⟩, span⟩ := h
  cases meaning <;> simp [kind, Meaning.kind]

theorem isOpenBracket_eq_false {h : Held} (not : ∀ pair, h.kind ≠ .openBracket pair) :
    h.isOpenBracket = false := by
  obtain ⟨⟨designation, meaning⟩, span⟩ := h
  cases meaning with
  | openBracket pair => exact absurd rfl (not pair)
  | _ => rfl

end Held

/-- A token is a number, a variable or an operation that could be held. -/
@[elab_as_elim] theorem Token.held_cases {motive : Token → Prop}
    (number : ∀ value span, motive (.number value span))
    (reference : ∀ id span, motive (.reference id span))
    (held : ∀ h : Held, motive h.token) (token : Token) : motive token := by
  cases token with
  | number value span => exact number value span
  | reference id span => exact reference id span
  | operation op span => exact held ⟨op, span⟩

/-- An expression with its structure.  Functions and prefix operators are written alike. -/
inductive Tree where
  | number (value : Float) (span : Span)
  | reference (id : VariableId) (span : Span)
  | prefixed (head : Held) (operand : Tree) (fits : head.kind = .function ∨ head.kind = .prefixOp)
  | infixed (left : Tree) (head : Held) (right : Tree) (fits : head.kind = .infixOp)
  | postfixed (operand : Tree) (head : Held) (fits : head.kind = .postfixOp)
  | bracket (opening : Held) (inner : Tree) (closing : Held)
      (fits : ∃ pair, opening.kind = .openBracket pair ∧ closing.kind = .closeBracket pair)

namespace Tree

/-- The tokens of a tree in the order of the expression. -/
def inorder : Tree → List Token
  | number value span => [.number value span]
  | reference id span => [.reference id span]
  | prefixed head operand _ => head.token :: operand.inorder
  | infixed left head right _ => left.inorder ++ head.token :: right.inorder
  | postfixed operand head _ => operand.inorder ++ [head.token]
  | bracket opening inner closing _ => opening.token :: (inner.inorder ++ [closing.token])

/-- The tokens of a tree, operands before their operation. -/
def postorder : Tree → List Token
  | number value span => [.number value span]
  | reference id span => [.reference id span]
  | prefixed head operand _ => operand.postorder ++ [head.token]
  | infixed left head right _ => left.postorder ++ right.postorder ++ [head.token]
  | postfixed operand head _ => operand.postorder ++ [head.token]
  | bracket opening inner closing _ => inner.postorder ++ [opening.token, closing.token]

/-- Both readings have the same tokens. -/
theorem postorder_perm_inorder (t : Tree) : t.postorder.Perm t.inorder := by
  induction t with
  | number value span => exact .refl _
  | reference id span => exact .refl _
  | prefixed head operand fits ih =>
    exact (List.perm_append_singleton _ _).trans (ih.cons _)
  | infixed left head right fits ihl ihr =>
    rw [postorder, List.append_assoc]
    exact ihl.append ((List.perm_append_singleton _ _).trans (ihr.cons _))
  | postfixed operand head fits ih => exact ih.append_right _
  | bracket opening inner closing fits ih =>
    exact List.perm_middle.trans ((ih.append_right _).cons _)

/-- The operations at the right end of a tree, outermost first.  Brackets end the edge. -/
def rightEdge : Tree → List Held
  | number _ _ => []
  | reference _ _ => []
  | prefixed head operand _ => head :: operand.rightEdge
  | infixed _ head right _ => head :: right.rightEdge
  | postfixed _ head _ => [head]
  | bracket _ _ _ _ => []

/-- The infix and postfix operations at the left end of a tree, outermost first.  Functions and
prefix operators end the edge, and so do brackets. -/
def leftEdge : Tree → List Held
  | number _ _ => []
  | reference _ _ => []
  | prefixed _ _ _ => []
  | infixed left head _ _ => head :: left.leftEdge
  | postfixed operand head _ => head :: operand.leftEdge
  | bracket _ _ _ _ => []

/-- At every node, what ends the left operand is displaced by the operation behind it, and the
operation displaces nothing at the beginning of its right operand. -/
def Ordered : Tree → Prop
  | number _ _ => True
  | reference _ _ => True
  | prefixed head operand _ => operand.Ordered ∧ ∀ m ∈ operand.leftEdge, ¬ head.displaces m
  | infixed left head right _ =>
    left.Ordered ∧ right.Ordered ∧
      (∀ h ∈ left.rightEdge, h.displaces head) ∧ ∀ m ∈ right.leftEdge, ¬ head.displaces m
  | postfixed operand head _ => operand.Ordered ∧ ∀ h ∈ operand.rightEdge, h.displaces head
  | bracket _ inner _ _ => inner.Ordered

/-- The part of the postorder that is out when the last token of a tree has been read. -/
def body : Tree → List Token
  | number value span => [.number value span]
  | reference id span => [.reference id span]
  | prefixed _ operand _ => operand.body
  | infixed left _ right _ => left.postorder ++ right.body
  | postfixed operand _ _ => operand.postorder
  | bracket opening inner closing _ => inner.postorder ++ [opening.token, closing.token]

/-- The rest of the postorder is the right edge, from the inside out. -/
theorem postorder_eq_body_append (t : Tree) :
    t.postorder = t.body ++ (t.rightEdge.map Held.token).reverse := by
  induction t with
  | number value span => rfl
  | reference id span => rfl
  | prefixed head operand fits ih => simp [postorder, body, rightEdge, ih]
  | infixed left head right fits _ ih => simp [postorder, body, rightEdge, ih]
  | postfixed operand head fits _ => simp [postorder, body, rightEdge]
  | bracket opening inner closing fits _ => simp [postorder, body, rightEdge]

theorem kind_of_mem_rightEdge {t : Tree} {h : Held} (mem : h ∈ t.rightEdge) :
    h.kind = .function ∨ h.kind = .prefixOp ∨ h.kind = .infixOp ∨ h.kind = .postfixOp := by
  induction t with
  | number value span => simp [rightEdge] at mem
  | reference id span => simp [rightEdge] at mem
  | prefixed head operand fits ih =>
    rcases List.mem_cons.mp mem with rfl | mem
    · exact fits.elim .inl fun f => .inr (.inl f)
    · exact ih mem
  | infixed left head right fits _ ih =>
    rcases List.mem_cons.mp mem with rfl | mem
    · exact .inr (.inr (.inl fits))
    · exact ih mem
  | postfixed operand head fits _ =>
    -- The edge ends at a postfix operation, whatever its operand is.
    rw [List.mem_singleton.mp mem]
    exact .inr (.inr (.inr fits))
  | bracket opening inner closing fits _ => simp [rightEdge] at mem

theorem not_isOpenBracket_of_mem_rightEdge {t : Tree} {h : Held} (mem : h ∈ t.rightEdge) :
    h.isOpenBracket = false := by
  refine Held.isOpenBracket_eq_false ?_
  intro pair hk
  have hkind := kind_of_mem_rightEdge mem
  simp [hk] at hkind

/-! ### A postorder determines its tree -/

/-- The last token of the postorder. -/
def root : Tree → Token
  | number value span => .number value span
  | reference id span => .reference id span
  | prefixed head _ _ => head.token
  | infixed _ head _ _ => head.token
  | postfixed _ head _ => head.token
  | bracket _ _ closing _ => closing.token

/-- The postorder without its last token. -/
def operands : Tree → List Token
  | number _ _ => []
  | reference _ _ => []
  | prefixed _ operand _ => operand.postorder
  | infixed left _ right _ => left.postorder ++ right.postorder
  | postfixed operand _ _ => operand.postorder
  | bracket opening inner _ _ => inner.postorder ++ [opening.token]

theorem postorder_eq_operands_append (t : Tree) : t.postorder = t.operands ++ [t.root] := by
  cases t <;> simp [postorder, operands, root]

/-- The kind of its root says how a tree is built. -/
theorem eq_of_kind_root (t : Tree) :
    match t.root.kind with
    | .number => ∃ value span, t = number value span
    | .reference => ∃ id span, t = reference id span
    | .function => ∃ head operand fits, t = prefixed head operand fits
    | .prefixOp => ∃ head operand fits, t = prefixed head operand fits
    | .infixOp => ∃ left head right fits, t = infixed left head right fits
    | .postfixOp => ∃ operand head fits, t = postfixed operand head fits
    | .openBracket _ => False
    | .closeBracket _ => ∃ opening inner closing fits, t = bracket opening inner closing fits := by
  -- What a tree was built for is the kind of its root, so each kind leaves one constructor.
  cases t with
  | number value span => exact ⟨value, span, rfl⟩
  | reference id span => exact ⟨id, span, rfl⟩
  | prefixed head operand fits =>
    obtain hk | hk := fits
    · simp only [root, Held.kind_token, hk]
      exact ⟨head, operand, .inl hk, rfl⟩
    · simp only [root, Held.kind_token, hk]
      exact ⟨head, operand, .inr hk, rfl⟩
  | infixed left head right fits =>
    simp only [root, Held.kind_token, fits]
    exact ⟨left, head, right, fits, rfl⟩
  | postfixed operand head fits =>
    simp only [root, Held.kind_token, fits]
    exact ⟨operand, head, fits, rfl⟩
  | bracket opening inner closing fits =>
    obtain ⟨pair, hopen, hclose⟩ := fits
    simp only [root, Held.kind_token, hclose]
    exact ⟨opening, inner, closing, ⟨pair, hopen, hclose⟩, rfl⟩

theorem root_eq_of_append_eq {t u : Tree} {xs ys : List Token}
    (h : xs ++ t.postorder = ys ++ u.postorder) :
    t.root = u.root ∧ xs ++ t.operands = ys ++ u.operands := by
  rw [postorder_eq_operands_append t, postorder_eq_operands_append u, ← List.append_assoc,
    ← List.append_assoc] at h
  obtain ⟨hoperands, hroot⟩ := List.append_inj' h rfl
  exact ⟨List.singleton_inj.mp hroot, hoperands⟩

/-- A postorder at the end of a list determines its tree and what stands before it. -/
theorem postorder_append_inj {t u : Tree} {xs ys : List Token}
    (h : xs ++ t.postorder = ys ++ u.postorder) : t = u ∧ xs = ys := by
  -- The root comes last in both, so the other tree has the same constructor, and what is left in
  -- front ends with the operands of the two.
  induction t generalizing u xs ys with
  | number value span =>
    obtain ⟨hroot, hoperands⟩ := root_eq_of_append_eq h
    have hu := eq_of_kind_root u
    rw [← hroot] at hu
    obtain ⟨value', span', rfl⟩ := hu
    injection hroot with hvalue hspan
    exact ⟨by rw [hvalue, hspan], by simpa [operands] using hoperands⟩
  | reference id span =>
    obtain ⟨hroot, hoperands⟩ := root_eq_of_append_eq h
    have hu := eq_of_kind_root u
    rw [← hroot] at hu
    obtain ⟨id', span', rfl⟩ := hu
    injection hroot with hid hspan
    exact ⟨by rw [hid, hspan], by simpa [operands] using hoperands⟩
  | prefixed head operand fits ih =>
    obtain ⟨hroot, hoperands⟩ := root_eq_of_append_eq h
    have hu : ∃ head operand fits, u = prefixed head operand fits := by
      have hu := eq_of_kind_root u
      rw [← hroot] at hu
      rcases fits with hk | hk <;> simpa only [root, Held.kind_token, hk] using hu
    obtain ⟨head', operand', fits', rfl⟩ := hu
    obtain rfl := Held.token_injective hroot
    obtain ⟨rfl, rfl⟩ := ih hoperands
    exact ⟨rfl, rfl⟩
  | infixed left head right fits ihl ihr =>
    obtain ⟨hroot, hoperands⟩ := root_eq_of_append_eq h
    have hu := eq_of_kind_root u
    rw [← hroot] at hu
    simp only [root, Held.kind_token, fits] at hu
    obtain ⟨left', head', right', fits', rfl⟩ := hu
    obtain rfl := Held.token_injective hroot
    simp only [operands, ← List.append_assoc] at hoperands
    -- The right operand stands behind the left one, so it is taken off first.
    obtain ⟨rfl, hleft⟩ := ihr hoperands
    obtain ⟨rfl, rfl⟩ := ihl hleft
    exact ⟨rfl, rfl⟩
  | postfixed operand head fits ih =>
    obtain ⟨hroot, hoperands⟩ := root_eq_of_append_eq h
    have hu := eq_of_kind_root u
    rw [← hroot] at hu
    simp only [root, Held.kind_token, fits] at hu
    obtain ⟨operand', head', fits', rfl⟩ := hu
    obtain rfl := Held.token_injective hroot
    obtain ⟨rfl, rfl⟩ := ih hoperands
    exact ⟨rfl, rfl⟩
  | bracket opening inner closing fits ih =>
    obtain ⟨hroot, hoperands⟩ := root_eq_of_append_eq h
    have hu := eq_of_kind_root u
    rw [← hroot] at hu
    obtain ⟨pair, hopen, hclose⟩ := fits
    simp only [root, Held.kind_token, hclose] at hu
    obtain ⟨opening', inner', closing', fits', rfl⟩ := hu
    obtain rfl := Held.token_injective hroot
    simp only [operands, ← List.append_assoc] at hoperands
    -- Between what is enclosed and the root there is only the opening bracket.
    obtain ⟨hinner, hopening⟩ := List.append_inj' hoperands rfl
    obtain rfl := Held.token_injective (List.singleton_inj.mp hopening)
    obtain ⟨rfl, rfl⟩ := ih hinner
    exact ⟨rfl, rfl⟩

theorem postorder_injective : Function.Injective postorder := by
  intro t u h
  exact (postorder_append_inj (congrArg (([] : List Token) ++ ·) h)).1

end Tree

end Calculator
