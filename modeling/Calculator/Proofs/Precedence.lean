/-
Trees in the yard.

The yard reads one ordered tree and writes its postorder.  An ordered tree goes through it without
touching what was held before (`Yard.run_inorder`).  Conversely a yard always stands at a hole
of an ordered tree: the held operations are a path of frames from the root to the hole, and each
step fills the hole or makes the path longer (`Reached.accept`).

* `Yard.run_inorder` — reading an ordered tree puts its body out and holds its right edge;
* `Context.Filled.exists_regrouped` — held operations that go belong to the operand that is complete;
* `Reached.accept`, `Reached.run` — a step and a run keep to some ordered tree;
* `exists_ordered_of_reversePolish` — whatever is accepted is the reading of an ordered tree;
* `reversePolish_perm` — the output has the same tokens;
* `reversePolish_eq_ok_iff` — the output is the postorder of the one ordered tree.
-/
import Calculator.Proofs.Yard

namespace Calculator

namespace Yard

/-- The state behind a tree that displaces nothing held before it. -/
def take (y : Yard) (t : Tree) : Yard :=
  ⟨t.body.reverse ++ y.output, t.rightEdge.reverse ++ y.held, true⟩

/-- Once its right edge is released, the whole postorder of a tree is out. -/
theorem release_take {y : Yard} {t : Tree} {goes : Held → Bool}
    (hedge : ∀ h ∈ t.rightEdge, goes h = true) (hheld : ∀ h ∈ y.held.head?, goes h = false) :
    (y.take t).release goes = ⟨t.postorder.reverse ++ y.output, y.held, true⟩ := by
  rw [take, release_append (by simpa using hedge) hheld, t.postorder_eq_body_append]
  simp

/-- A close bracket puts the tree behind the open bracket out, and then the pair. -/
theorem close_take {y : Yard} {t : Tree} {opening closing : Held} {pair : Int32}
    (kind : opening.kind = .openBracket pair) :
    ((y.hold opening.op opening.span).take t).close closing.op pair closing.span =
      .ok ⟨(t.postorder ++ [opening.token, closing.token]).reverse ++ y.output, y.held, true⟩ := by
  have hopen : opening.isOpenBracket = true := Held.isOpenBracket_iff.mpr ⟨pair, kind⟩
  -- Behind the bracket there is only the tree, whose edge holds no bracket.
  have hrelease : ((y.hold opening.op opening.span).take t).release (!·.isOpenBracket) =
      ⟨t.postorder.reverse ++ y.output, opening :: y.held, true⟩ := by
    refine release_take (fun h hh => ?_) fun h hh => ?_
    · simp [Tree.not_isOpenBracket_of_mem_rightEdge hh]
    · obtain rfl : opening = h := by simpa [hold] using hh
      simp [hopen]
  have hpair : opening.op.meaning.openPair? = some pair := Meaning.openPair?_eq_some_iff.mpr kind
  simp only [close, hrelease, hpair, if_true]
  simp [Held.token]

/-- An ordered tree is read without touching what is held, if nothing on its left edge is
displaced by it. -/
theorem run_inorder {t : Tree} (ordered : t.Ordered) {y : Yard} (due : y.afterOperand = false)
    (free : ∀ h ∈ y.held.head?, ∀ m ∈ t.leftEdge, h.displaces m = false) :
    y.run t.inorder = .ok (y.take t) := by
  -- The yard changes with the operand: what is in front of it is held by then.
  induction t generalizing y with
  | number value span => exact run_cons (accept_number due value span) []
  | reference id span => exact run_cons (accept_reference due id span) []
  | prefixed head operand fits ih =>
    obtain ⟨hoperand, hedge⟩ := ordered
    have hrun : (y.hold head.op head.span).run operand.inorder
        = .ok ((y.hold head.op head.span).take operand) := by
      refine ih hoperand due ?_
      intro h hh m hm
      obtain rfl : head = h := by simpa [hold] using hh
      simpa using hedge m hm
    rw [Tree.inorder, run_cons (accept_before due (fits.elim .inl fun f => .inr (.inl f))), hrun]
    simp [take, hold, Tree.body, Tree.rightEdge]
  | infixed left head right fits ihl ihr =>
    obtain ⟨hleft, hright, hdisplaced, hedge⟩ := ordered
    have hheld : ∀ h ∈ y.held.head?, h.displaces head = false :=
      fun h hh => free h hh head List.mem_cons_self
    have hrunl : y.run left.inorder = .ok (y.take left) :=
      ihl hleft due fun h hh m hm => free h hh m (List.mem_cons_of_mem _ hm)
    -- The operator takes the place of the right edge of its left operand.
    have hhead := accept_between (y := y.take left) rfl fits
    rw [release_take hdisplaced hheld] at hhead
    have hrunr := ihr (y := ⟨left.postorder.reverse ++ y.output, head :: y.held, false⟩) hright rfl
      fun h hh m hm => by
        obtain rfl : head = h := by simpa using hh
        simpa using hedge m hm
    rw [Tree.inorder, run_append hrunl, run_cons hhead]
    refine hrunr.trans ?_
    simp [take, Tree.body, Tree.rightEdge]
  | postfixed operand head fits ih =>
    obtain ⟨hoperand, hdisplaced⟩ := ordered
    have hheld : ∀ h ∈ y.held.head?, h.displaces head = false :=
      fun h hh => free h hh head List.mem_cons_self
    have hrun : y.run operand.inorder = .ok (y.take operand) :=
      ih hoperand due fun h hh m hm => free h hh m (List.mem_cons_of_mem _ hm)
    have hhead := accept_behind (y := y.take operand) rfl fits
    rw [release_take hdisplaced hheld] at hhead
    rw [Tree.inorder, run_append hrun, run_cons hhead]
    rfl
  | bracket opening inner closing fits ih =>
    obtain ⟨pair, hopening, hclosing⟩ := fits
    have hrun : (y.hold opening.op opening.span).run inner.inorder
        = .ok ((y.hold opening.op opening.span).take inner) := by
      -- Nothing inside displaces an open bracket.
      refine ih ordered due ?_
      intro h hh m _
      obtain rfl : opening = h := by simpa [hold] using hh
      exact Meaning.displaces_openBracket hopening _
    have hclose := accept_close (y := (y.hold opening.op opening.span).take inner) rfl hclosing
    rw [close_take hopening] at hclose
    rw [Tree.inorder, run_cons (accept_before due (.inr (.inr ⟨pair, hopening⟩))),
      run_append hrun, run_cons hclose]
    simp [take, Tree.body, Tree.rightEdge]

end Yard

/-! ### Contexts -/

/-- What an operand that is due would belong to: an operation in front of it, with its left operand
if it is an infix operation, or an open bracket. -/
inductive Frame where
  | before (head : Held) (fits : head.kind = .function ∨ head.kind = .prefixOp)
  | between (left : Tree) (head : Held) (fits : head.kind = .infixOp)
  | inside (head : Held) (pair : Int32) (fits : head.kind = .openBracket pair)

namespace Frame

def head : Frame → Held
  | before head _ => head
  | between _ head _ => head
  | inside head _ _ => head

def inorder : Frame → List Token
  | before head _ => [head.token]
  | between left head _ => left.inorder ++ [head.token]
  | inside head _ _ => [head.token]

def postorder : Frame → List Token
  | before _ _ => []
  | between left _ _ => left.postorder
  | inside _ _ _ => []

end Frame

/-- A tree with a hole at its right end, as the frames from the hole outwards. -/
abbrev Context := List Frame

namespace Context

def inorder : Context → List Token
  | [] => []
  | f :: c => inorder c ++ f.inorder

/-- The tokens that are out while the hole is empty. -/
def body : Context → List Token
  | [] => []
  | f :: c => body c ++ f.postorder

/-- The yard at the hole. -/
def yard (c : Context) : Yard := ⟨(body c).reverse, c.map Frame.head, false⟩

/-- The innermost operation does not displace `m`. -/
def Admits (c : Context) (m : Held) : Prop := ∀ f ∈ c.head?, f.head.displaces m = false

/-- A context that becomes an ordered tree with any ordered tree in its hole whose left edge it
admits. -/
def Ordered : Context → Prop
  | [] => True
  | .before _ _ :: c => Ordered c
  | .between left head _ :: c =>
    Ordered c ∧ left.Ordered ∧ (∀ h ∈ left.rightEdge, h.displaces head) ∧
      ∀ m ∈ head :: left.leftEdge, Admits c m
  | .inside _ _ _ :: c => Ordered c

/-- An ordered context with an ordered operand in its hole. -/
structure Filled (c : Context) (t : Tree) : Prop where
  context : c.Ordered
  operand : t.Ordered
  free : ∀ m ∈ t.leftEdge, c.Admits m

/-- The innermost operation and the operand in the hole make one operand for the frames outside. -/
theorem Filled.absorb {f : Frame} {c : Context} {t : Tree} (filled : Filled (f :: c) t)
    (closed : f.head.isOpenBracket = false) :
    ∃ t' : Tree, c.Filled t' ∧ t'.rightEdge = f.head :: t.rightEdge ∧
      c.inorder ++ t'.inorder = inorder (f :: c) ++ t.inorder ∧
        c.yard.take t' = (yard (f :: c)).take t := by
  obtain ⟨hcontext, hoperand, hfree⟩ := filled
  have hedge : ∀ m ∈ t.leftEdge, ¬ f.head.displaces m := fun m hm => by simp [hfree m hm f rfl]
  cases f with
  | before head fits =>
    -- A function or a prefix operator ends the left edge, so nothing is asked of what is outside.
    refine ⟨.prefixed head t fits, ⟨hcontext, ⟨hoperand, hedge⟩, by simp [Tree.leftEdge]⟩, rfl,
      ?_, ?_⟩
    · simp [inorder, Frame.inorder, Tree.inorder]
    · simp [yard, body, Frame.postorder, Frame.head, Yard.take, Tree.body, Tree.rightEdge]
  | between left head fits =>
    obtain ⟨hcontext, hleft, hdisplaced, hadmits⟩ := hcontext
    refine ⟨.infixed left head t fits, ⟨hcontext, ⟨hleft, hoperand, hdisplaced, hedge⟩, hadmits⟩,
      rfl, ?_, ?_⟩
    · simp [inorder, Frame.inorder, Tree.inorder]
    · simp [yard, body, Frame.postorder, Frame.head, Yard.take, Tree.body, Tree.rightEdge]
  | inside head pair fits =>
    have hopen : head.isOpenBracket = true := Held.isOpenBracket_iff.mpr ⟨pair, fits⟩
    simp [Frame.head, hopen] at closed

/-- The operand that is complete can be taken to contain all innermost operations that go. -/
theorem Filled.exists_regrouped (goes : Held → Bool)
    (brackets : ∀ h, h.isOpenBracket = true → goes h = false) {c : Context} {t : Tree}
    (filled : c.Filled t) (edge : ∀ h ∈ t.rightEdge, goes h = true) :
    ∃ (c' : Context) (t' : Tree), c'.Filled t' ∧ (∀ h ∈ t'.rightEdge, goes h = true) ∧
      (∀ f ∈ c'.head?, goes f.head = false) ∧ c'.inorder ++ t'.inorder = c.inorder ++ t.inorder ∧
        c'.yard.take t' = c.yard.take t := by
  induction c generalizing t with
  | nil => exact ⟨[], t, filled, edge, by simp, rfl, rfl⟩
  | cons f c ih =>
    cases hgoes : goes f.head with
    | false => exact ⟨f :: c, t, filled, edge, by simpa using hgoes, rfl, rfl⟩
    | true =>
      have hclosed : f.head.isOpenBracket = false :=
        Bool.eq_false_iff.mpr fun hopen => by simp [brackets f.head hopen] at hgoes
      -- The frame becomes part of the operand, and the frames outside are asked again.
      obtain ⟨u, hfilled, hu, hinorder, hyard⟩ := filled.absorb hclosed
      have hedge : ∀ h ∈ u.rightEdge, goes h = true := by
        rw [hu]
        exact List.forall_mem_cons.mpr ⟨hgoes, edge⟩
      obtain ⟨c', t', hfilled', hedge', hstop, hinorder', hyard'⟩ := ih hfilled hedge
      exact ⟨c', t', hfilled', hedge', hstop, hinorder'.trans hinorder, hyard'.trans hyard⟩

/-- What is left in the yard when all that goes has been released. -/
theorem Filled.exists_released (goes : Held → Bool)
    (brackets : ∀ h, h.isOpenBracket = true → goes h = false) {c : Context} {t : Tree}
    (filled : c.Filled t) (edge : ∀ h ∈ t.rightEdge, goes h = true) :
    ∃ (c' : Context) (t' : Tree), c'.Filled t' ∧ (∀ h ∈ t'.rightEdge, goes h = true) ∧
      (∀ f ∈ c'.head?, goes f.head = false) ∧ c'.inorder ++ t'.inorder = c.inorder ++ t.inorder ∧
        (c.yard.take t).release goes =
          ⟨t'.postorder.reverse ++ (body c').reverse, c'.map Frame.head, true⟩ := by
  obtain ⟨c', t', hfilled, hedge, hstop, hinorder, hyard⟩ :=
    filled.exists_regrouped goes brackets edge
  refine ⟨c', t', hfilled, hedge, hstop, hinorder, ?_⟩
  rw [← hyard]
  -- All of the edge goes, and the head of what is left stays.
  refine Yard.release_take hedge ?_
  intro h hh
  obtain ⟨f, hf, rfl⟩ := Option.map_eq_some_iff.mp ((List.head?_map ..).symm.trans hh)
  exact hstop f hf

end Context

/-- A yard that stands in an ordered context, behind the tokens that lead there. -/
inductive Reached : List Token → Yard → Prop where
  | due {c : Context} (ordered : c.Ordered) : Reached c.inorder c.yard
  /-- Whatever ends the operand goes as soon as anything arrives. -/
  | complete {c : Context} {t : Tree} (filled : c.Filled t)
      (edge : ∀ h ∈ t.rightEdge, ∀ m, h.displaces m = true) :
      Reached (c.inorder ++ t.inorder) (c.yard.take t)

namespace Reached

variable {c : Context} {t : Tree} {read : List Token} {token : Token} {y z : Yard}

theorem empty : Reached [] Yard.empty := .due (c := []) trivial

/-- An operand that is a leaf or a pair of brackets. -/
theorem complete_of_edges (context : c.Ordered) (operand : t.Ordered) (left : t.leftEdge = [])
    (right : t.rightEdge = []) : Reached (c.inorder ++ t.inorder) (c.yard.take t) :=
  .complete ⟨context, operand, by simp [left]⟩ (by simp [right])

/-- A step where an operand is due. -/
theorem step_due (ordered : c.Ordered) (step : Yard.Step c.yard token z) :
    Reached (c.inorder ++ [token]) z := by
  -- An operand is due, so one has been read, or an operation or a bracket has been put in front of
  -- one.
  cases step with
  | number _ value span => exact complete_of_edges (t := .number value span) ordered trivial rfl rfl
  | reference _ id span => exact complete_of_edges (t := .reference id span) ordered trivial rfl rfl
  | before head _ kind =>
    have hreached : Reached (c.inorder ++ [head.token]) (Context.yard (.before head kind :: c)) :=
      .due (c := .before head kind :: c) ordered
    simpa [Context.yard, Context.body, Frame.postorder, Frame.head, Yard.hold] using hreached
  | @opening head pair _ kind =>
    have hreached : Reached (c.inorder ++ [head.token])
        (Context.yard (.inside head pair kind :: c)) :=
      .due (c := .inside head pair kind :: c) ordered
    simpa [Context.yard, Context.body, Frame.postorder, Frame.head, Yard.hold] using hreached
  | between _ complete _ => simp [Context.yard] at complete
  | behind _ complete _ => simp [Context.yard] at complete
  | closing _ _ complete _ _ _ => simp [Context.yard] at complete

/-- A step behind an operand. -/
theorem step_complete (filled : c.Filled t) (edge : ∀ h ∈ t.rightEdge, ∀ m, h.displaces m = true)
    (step : Yard.Step (c.yard.take t) token z) :
    Reached (c.inorder ++ t.inorder ++ [token]) z := by
  cases step with
  | number due _ _ => simp [Yard.take] at due
  | reference due _ _ => simp [Yard.take] at due
  | before _ due _ => simp [Yard.take] at due
  | opening _ due _ => simp [Yard.take] at due
  | between head _ kind =>
    obtain ⟨c', t', hfilled, hedge, hstop, hinorder, hrelease⟩ :=
      filled.exists_released (·.displaces head)
        (fun h hopen => Held.displaces_of_isOpenBracket hopen head) fun h hh => edge h hh head
    have hordered : Context.Ordered (.between t' head kind :: c') :=
      ⟨hfilled.context, hfilled.operand, hedge,
        List.forall_mem_cons.mpr ⟨hstop, hfilled.free⟩⟩
    have hreached := Reached.due hordered
    rw [hrelease, ← hinorder]
    simpa [Context.inorder, Context.yard, Context.body, Frame.inorder, Frame.postorder, Frame.head,
      Yard.hold] using hreached
  | behind head _ kind =>
    obtain ⟨c', t', hfilled, hedge, hstop, hinorder, hrelease⟩ :=
      filled.exists_released (·.displaces head)
        (fun h hopen => Held.displaces_of_isOpenBracket hopen head) fun h hh => edge h hh head
    have hnew : c'.Filled (.postfixed t' head kind) :=
      ⟨hfilled.context, ⟨hfilled.operand, hedge⟩, List.forall_mem_cons.mpr ⟨hstop, hfilled.free⟩⟩
    have hreached := Reached.complete hnew (by
      intro h hh m
      rw [List.mem_singleton.mp hh]
      exact Meaning.displaces_postfixOp kind _)
    rw [hrelease, ← hinorder]
    simpa [Tree.inorder, Context.yard, Yard.take, Tree.body, Tree.rightEdge, Yard.hold]
      using hreached
  | closing head opening _ kind pairs innermost =>
    obtain ⟨c', t', hfilled, hedge, hstop, hinorder, hrelease⟩ :=
      filled.exists_released (!·.isOpenBracket) (fun h hopen => by simp [hopen])
        fun h hh => by simp [Tree.not_isOpenBracket_of_mem_rightEdge hh]
    rw [hrelease] at innermost ⊢
    obtain ⟨hcontext, hoperand, -⟩ := hfilled
    -- All frames inside the open bracket have gone, so its own frame is the innermost one left.
    cases c' with
    | nil => simp at innermost
    | cons f c' =>
      obtain ⟨rfl, rfl⟩ := List.cons.inj innermost
      cases f with
      | before opening fits => simp [show opening.kind = _ from pairs] at fits
      | between left opening fits => simp [show opening.kind = _ from pairs] at fits
      | inside opening pair' _ =>
        have hreached : Reached _
            ((Context.yard c').take (.bracket opening t' head ⟨_, pairs, kind⟩)) :=
          complete_of_edges hcontext hoperand rfl rfl
        rw [← hinorder]
        simpa [Context.inorder, Frame.inorder, Tree.inorder, Context.yard, Context.body,
          Frame.postorder, Frame.head, Yard.take, Tree.body, Tree.rightEdge] using hreached

/-- A step keeps to an ordered context. -/
theorem accept (reached : Reached read y) (h : y.accept token = .ok z) :
    Reached (read ++ [token]) z := by
  cases reached with
  | due ordered => exact step_due ordered (Yard.step_of_accept h)
  | complete filled edge => exact step_complete filled edge (Yard.step_of_accept h)

/-- So does a run. -/
theorem run {tokens : List Token} (reached : Reached read y) (h : y.run tokens = .ok z) :
    Reached (read ++ tokens) z := by
  induction tokens generalizing read y with
  | nil =>
    obtain rfl := Except.ok.inj h
    simpa using reached
  | cons token tokens ih =>
    obtain ⟨x, hx, hrest⟩ := Yard.run_cons_eq_ok.mp h
    simpa using ih (reached.accept hx) hrest

/-- At the end a yard has read an ordered tree, if it is content. -/
theorem finish {output : List Token} (reached : Reached read y) (h : y.finish = .ok output) :
    ∃ t : Tree, t.Ordered ∧ t.inorder = read ∧ t.postorder = output := by
  -- At the end everything but open brackets goes, and no open bracket is left.
  cases reached with
  | due ordered => nomatch h
  | @complete c t filled edge =>
    obtain ⟨c', t', hfilled, hedge, hstop, hinorder, hyard⟩ :=
      filled.exists_regrouped (!·.isOpenBracket) (fun h hopen => by simp [hopen])
        fun h hh => by simp [Tree.not_isOpenBracket_of_mem_rightEdge hh]
    rw [← hyard] at h
    obtain ⟨-, hclosed, houtput⟩ := Yard.finish_eq_ok.mp h
    cases c' with
    | nil =>
      refine ⟨t', hfilled.operand, by simpa [Context.inorder] using hinorder, ?_⟩
      rw [← houtput, t'.postorder_eq_body_append]
      simp [Yard.take, Context.yard, Context.body]
    | cons f c' =>
      have hopen : f.head.isOpenBracket = true := by simpa using hstop f rfl
      have hheld : f.head ∈ ((Context.yard (f :: c')).take t').held := by
        simp [Yard.take, Context.yard]
      simp [hclosed f.head hheld] at hopen

end Reached

/-- What is accepted is the reading of an ordered tree. -/
theorem exists_ordered_of_reversePolish {tokens output : List Token}
    (h : reversePolish tokens = .ok output) :
    ∃ t : Tree, t.Ordered ∧ t.inorder = tokens ∧ t.postorder = output := by
  obtain ⟨y, hrun, hfinish⟩ := Yard.reversePolish_eq_ok.mp h
  exact (Reached.empty.run hrun).finish hfinish

/-- No token is lost or doubled. -/
theorem reversePolish_perm {tokens output : List Token} (h : reversePolish tokens = .ok output) :
    output.Perm tokens := by
  obtain ⟨t, -, rfl, rfl⟩ := exists_ordered_of_reversePolish h
  exact t.postorder_perm_inorder

/-- An ordered tree is put into postorder. -/
theorem reversePolish_inorder {t : Tree} (ordered : t.Ordered) :
    reversePolish t.inorder = .ok t.postorder := by
  have hrun : Yard.empty.run t.inorder = .ok (Yard.empty.take t) :=
    Yard.run_inorder ordered rfl (by simp [Yard.empty])
  refine Yard.reversePolish_eq_ok.mpr ⟨_, hrun, Yard.finish_eq_ok.mpr ⟨rfl, ?_, ?_⟩⟩
  · intro h hh
    have hmem : h ∈ t.rightEdge := by simpa [Yard.take, Yard.empty] using hh
    exact Tree.not_isOpenBracket_of_mem_rightEdge hmem
  · rw [t.postorder_eq_body_append]
    simp [Yard.take, Yard.empty]

/-- There is at most one ordered tree over a list of tokens. -/
theorem Tree.Ordered.eq_of_inorder_eq {t u : Tree} (ht : t.Ordered) (hu : u.Ordered)
    (h : t.inorder = u.inorder) : t = u := by
  -- Both are put into the same order, and a postorder determines its tree.
  have hpost : t.postorder = u.postorder :=
    Except.ok.inj ((reversePolish_inorder ht).symm.trans (h ▸ reversePolish_inorder hu))
  exact Tree.postorder_injective hpost

/-- **Reverse Polish order is the postorder of the ordered tree.**  Tokens are accepted exactly if
there is an ordered tree over them, which is then the only one, and its postorder is the output. -/
theorem reversePolish_eq_ok_iff (tokens output : List Token) :
    reversePolish tokens = .ok output ↔
      ∃ t : Tree, t.inorder = tokens ∧ t.Ordered ∧
        (∀ u : Tree, u.inorder = tokens → u.Ordered → u = t) ∧ t.postorder = output := by
  constructor
  · intro h
    obtain ⟨t, ordered, hinorder, hpostorder⟩ := exists_ordered_of_reversePolish h
    refine ⟨t, hinorder, ordered, fun u hu hordered => ?_, hpostorder⟩
    exact hordered.eq_of_inorder_eq ordered (hu.trans hinorder.symm)
  · rintro ⟨t, rfl, ordered, -, rfl⟩
    exact reversePolish_inorder ordered

end Calculator
