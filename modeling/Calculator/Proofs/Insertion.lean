/-
Calls that leave no trace.

To put an expression in order, or to fail to, is to meet its names at most.  A name that has been met
has a cell, but as long as the cell is empty nothing tells it from a name that is new.  So such calls
can be inserted anywhere among others without a difference to the others' answers.

* `Client.run` — the calls of a session one after another, some of them inserted;
* `Client.Idle` — an expression is only put in order, or fails before it is evaluated;
* `VariableStore.Widens` — more names have been met, and nothing else is different;
* `Client.Beside` — two sessions that differ in nothing but such names, and their cells;
* `Session.run_inserted` — a run with inserted calls and the same run without them.
-/
import Calculator.Proofs.Independence
import Calculator.Proofs.Replay

namespace Calculator

open Calculation (InStep Same)

/-! ### Calls -/

/-- What a session can be asked. Lists of tokens are told apart by their places among those that have
been returned. -/
inductive Call where
  | evaluate (expression : String)
  | report (expression : String)
  | rpn (expression : String)
  | evaluateRpn (index : Nat)
  | format (index : Nat)

inductive Answer where
  | number (result : Except Error Float)
  | record (report : EvalReport)
  | tokens (result : Except Error (List Token))
  | text (text : String)

/-- A call of a run, or one that is inserted between its calls. -/
inductive Move where
  | own (call : Call)
  | inserted (call : Call)

def Move.isOwn : Move → Bool
  | own _ => true
  | inserted _ => false

/-- A session in use, and the lists of tokens that it has returned. -/
structure Client where
  session : Session
  kept : List (List Token)

namespace Client

/-- The tokens that were returned at some place. There are none where nothing was returned. -/
def returned (c : Client) (index : Nat) : List Token := c.kept[index]?.getD []

/-- The session after a call. -/
def after (c : Client) : Call → Session
  | .evaluate expression => (c.session.evaluate expression).2
  | .report expression => (c.session.report expression).2
  | .rpn expression => (c.session.rpn expression).2
  | .evaluateRpn index => (c.session.evaluateRpn (c.returned index)).2
  | .format _ => c.session

def answer (c : Client) : Call → Answer
  | .evaluate expression => .number (c.session.evaluate expression).1
  | .report expression => .record (c.session.report expression).1
  | .rpn expression => .tokens (c.session.rpn expression).1
  | .evaluateRpn index => .number (c.session.evaluateRpn (c.returned index)).1
  | .format index => .text (c.session.format (c.returned index))

/-- The tokens that a call returns are kept. -/
def keeping (c : Client) : Answer → List (List Token)
  | .tokens (.ok tokens) => c.kept ++ [tokens]
  | _ => c.kept

/-- Calls one after another, with the answers to those that are not inserted. What inserted calls
return is not kept. -/
def run (c : Client) : List Move → List Answer × Client
  | [] => ([], c)
  | .own call :: rest =>
    let (answers, last) := run ⟨c.after call, c.keeping (c.answer call)⟩ rest
    (c.answer call :: answers, last)
  | .inserted call :: rest => run ⟨c.after call, c.kept⟩ rest

/-- No call changes the registry. -/
theorem registry_after (c : Client) (call : Call) :
    (c.after call).registry = c.session.registry := by
  cases call with
  | report expression => rw [after, Session.report_snd]; rfl
  | evaluate expression => rfl
  | rpn expression => rfl
  | evaluateRpn index => rfl
  | format index => rfl

/-- Later moves are made by the client that the earlier ones leave. -/
theorem run_append (c : Client) (moves more : List Move) :
    c.run (moves ++ more)
      = ((c.run moves).1 ++ ((c.run moves).2.run more).1, ((c.run moves).2.run more).2) := by
  induction moves generalizing c with
  | nil => rfl
  | cons move rest ih =>
    rw [List.cons_append]
    cases move with
    | own call => rw [run, run, ih, List.cons_append]
    | inserted call => rw [run, run, ih]

/-- A call that evaluates nothing: an expression is put in order, or it fails while it is read or put
in order. -/
def Idle (c : Client) : Call → Prop
  | .evaluate expression => ∃ e, (c.session.rpn expression).1 = .error e
  | .report expression => ∃ e, (c.session.rpn expression).1 = .error e
  | .rpn _ => True
  | .evaluateRpn _ => False
  | .format _ => False

/-- All inserted calls turn out to be idle. -/
def InsertsIdle (c : Client) : List Move → Prop
  | [] => True
  | .own call :: rest => InsertsIdle ⟨c.after call, c.keeping (c.answer call)⟩ rest
  | .inserted call :: rest => c.Idle call ∧ InsertsIdle ⟨c.after call, c.kept⟩ rest

/-- The only trace of an idle call is that of putting an expression in order. -/
theorem Idle.exists_rpn {c : Client} {call : Call} (idle : c.Idle call) :
    ∃ expression, c.after call = (c.session.rpn expression).2 := by
  -- What fails to be put in order is not evaluated, so the call has done no more than that.
  cases call with
  | evaluate expression =>
    obtain ⟨e, he⟩ := idle
    exact ⟨expression, congrArg Prod.snd (Session.evaluate_of_rpn_error (Prod.ext he rfl))⟩
  | report expression =>
    obtain ⟨e, he⟩ := idle
    exact ⟨expression, (c.session.report_snd expression).trans
      (congrArg Prod.snd (Session.evaluate_of_rpn_error (Prod.ext he rfl)))⟩
  | rpn expression => exact ⟨expression, rfl⟩
  | evaluateRpn index => exact idle.elim
  | format index => exact idle.elim

end Client

/-! ### More names -/

namespace VariableStore

/-- The second store has the variables of the first, and perhaps others without a value. -/
def Widens (s t : VariableStore) : Prop :=
  ∀ name, t.cell? name = s.cell? name ∨ (s.cell? name = none ∧ t.cell? name = some ⟨name, none⟩)

variable {s t : VariableStore}

theorem Widens.refl (s : VariableStore) : s.Widens s := fun _ => .inl rfl

theorem Widens.value?_eq (h : s.Widens t) (name : String) : s.value? name = t.value? name := by
  rw [value?, value?]
  rcases h name with heq | ⟨hs, ht⟩
  · rw [heq]
  · rw [hs, ht]
    rfl

/-- A mention in both. -/
theorem Widens.intern (h : s.Widens t) (name : String) :
    (s.intern name).2.Widens (t.intern name).2 := by
  intro other
  rw [cell?_intern, cell?_intern]
  split
  · refine .inl ?_
    rcases h name with heq | ⟨hs, ht⟩
    · rw [heq]
    · rw [hs, ht, Option.getD_none, Option.getD_some]
  · exact h other

/-- A mention in the second alone. -/
theorem Widens.intern_right (h : s.Widens t) (name : String) : s.Widens (t.intern name).2 := by
  intro other
  rw [cell?_intern]
  -- Only the cell of the name may be new, and a new cell has no value.
  split
  · next heq =>
    subst heq
    rcases h other with heq | ⟨hs, ht⟩
    · rw [heq]
      cases s.cell? other with
      | none => exact .inr ⟨rfl, rfl⟩
      | some cell => exact .inl rfl
    · rw [ht]
      exact .inr ⟨hs, rfl⟩
  · exact h other

/-- An empty cell stays unnoticed. -/
theorem matching_widens : Matching (fun _ => True) Widens where
  value h _ := h.value?_eq _
  mention h _ := h.intern _
  assign h _ hi hj hs ht other := by
    rw [cell?_assign? hi hs, cell?_assign? hj ht]
    split
    · exact .inl rfl
    · exact h other

end VariableStore

/-! ### Side by side -/

/-- The same answer, where the tokens of two runs may have different cells for a name. -/
inductive Answer.Alike (s t : VariableStore) : Answer → Answer → Prop where
  | number (result : Except Error Float) : Alike s t (.number result) (.number result)
  | record (report : EvalReport) : Alike s t (.record report) (.record report)
  | tokens {x y : Except Error (List Token)}
    (h : Except.Alike (List.Forall₂ (Token.Alike (fun _ => True) s t)) x y) :
    Alike s t (.tokens x) (.tokens y)
  | text (text : String) : Alike s t (.text text) (.text text)

theorem Answer.Alike.later {s s' t t' : VariableStore} {x y : Answer} (h : x.Alike s t y)
    (left : s.Keeps s') (right : t.Keeps t') : x.Alike s' t' y := by
  cases h with
  | number result => exact .number result
  | record report => exact .record report
  | tokens h =>
    cases h with
    | ok tokens => exact .tokens (.ok (tokens.imp fun _ _ hx => hx.later left right))
    | error e => exact .tokens (.error e)
  | text text => exact .text text

/-- Names have the same text, whatever their cells are. -/
theorem join_text_alike {P : String → Prop} {s t : VariableStore} {xs ys : List Token}
    (tokens : List.Forall₂ (Token.Alike P s t) xs ys) :
    Token.join (Token.text s) xs = Token.join (Token.text t) ys := by
  -- Names are shown instead of ids, and those are the same.
  have htexts : xs.map (Token.text s) = ys.map (Token.text t) := by
    induction tokens with
    | nil => rfl
    | cons token _ ih =>
      rw [List.map_cons, List.map_cons, ih]
      cases token with
      | number value span => rfl
      | reference named hi hj span =>
        rw [Token.text, Token.text, VariableStore.name_of_lookup hi,
          VariableStore.name_of_lookup hj]
      | operation op span => rfl
  rw [Token.join, Token.join, htexts]

/-- Reports tell no more than the answers that they are of. -/
theorem Session.report_fst_eq {s t : Session} {expression : String}
    (h : (s.evaluate expression).1 = (t.evaluate expression).1) :
    (s.report expression).1 = (t.report expression).1 := by
  rw [report_eq, report_eq, h]

namespace Client

/-- Two clients whose sessions differ only in names without a value and in the cells of names. -/
structure Beside (c d : Client) : Prop where
  registry : d.session.registry = c.session.registry
  standard : c.session.registry.Standard
  stores : c.session.store.Widens d.session.store
  kept : List.Forall₂ (List.Forall₂ (Token.Alike (fun _ => True) c.session.store d.session.store))
    c.kept d.kept
  known : ∀ tokens ∈ c.kept, c.session.registry.KnowsAll tokens

variable {c d : Client}

namespace Beside

/-- A calculation in both. -/
theorem of_inStep (h : Beside c d) {α β : Type}
    {Q : VariableStore → VariableStore → α → β → Prop} {calculation : Calculation α}
    {calculation' : Calculation β}
    (step : InStep VariableStore.Widens Q c.session.store d.session.store calculation calculation') :
    Beside ⟨(c.session.run calculation).2, c.kept⟩ ⟨(d.session.run calculation').2, d.kept⟩ where
  registry := h.registry
  standard := h.standard
  stores := step.stores
  kept := h.kept.imp fun _ _ tokens => tokens.imp fun _ _ hx => hx.later step.left step.right
  known := h.known

/-- Tokens that both return are kept. -/
theorem keep (h : Beside c d) {x y : Except Error (List Token)}
    (results : Except.Alike
      (List.Forall₂ (Token.Alike (fun _ => True) c.session.store d.session.store)) x y)
    (known : ∀ tokens, x = .ok tokens → c.session.registry.KnowsAll tokens) :
    Beside ⟨c.session, c.keeping (.tokens x)⟩ ⟨d.session, d.keeping (.tokens y)⟩ := by
  cases results with
  | @ok xs ys tokens =>
    -- A list that is kept goes to the end of both histories, so they stay alike in every place.
    refine ⟨h.registry, h.standard, h.stores, List.rel_append h.kept (.cons tokens .nil), ?_⟩
    intro kept mem
    rcases List.mem_append.mp mem with mem | mem
    · exact h.known kept mem
    · rw [List.mem_singleton.mp mem]
      exact known xs rfl
  | error e => exact h

theorem returned (h : Beside c d) (index : Nat) :
    List.Forall₂ (Token.Alike (fun _ => True) c.session.store d.session.store)
        (c.returned index) (d.returned index) ∧
      c.session.registry.KnowsAll (c.returned index) := by
  have hlength := h.kept.length_eq
  rw [Client.returned, Client.returned]
  rcases Nat.lt_or_ge index c.kept.length with hlt | hge
  · have hlt' : index < d.kept.length := hlength ▸ hlt
    rw [List.getElem?_eq_getElem hlt, List.getElem?_eq_getElem hlt']
    exact ⟨h.kept.get hlt hlt', h.known _ (List.getElem_mem hlt)⟩
  · rw [List.getElem?_eq_none hge, List.getElem?_eq_none (hlength ▸ hge)]
    exact ⟨.nil, fun _ _ mem => nomatch mem⟩

/-- **One call in both.** -/
theorem step (h : Beside c d) (call : Call) :
    Beside ⟨c.after call, c.keeping (c.answer call)⟩ ⟨d.after call, d.keeping (d.answer call)⟩ ∧
      Answer.Alike (c.after call).store (d.after call).store (c.answer call) (d.answer call) ∧
      c.session.store.Keeps (c.after call).store ∧ d.session.store.Keeps (d.after call).store := by
  -- Evaluations of the same text are in step from stores that differ in empty cells.
  have hevaluate (expression : String) :
      InStep VariableStore.Widens Same c.session.store d.session.store
        (c.session.registry.evaluate expression) (d.session.registry.evaluate expression) := by
    rw [h.registry]
    exact Registry.evaluate_inStep h.standard VariableStore.matching_widens
      (fun _ _ => trivial) h.stores
  have hanswers (expression : String) :
      (c.session.evaluate expression).1 = (d.session.evaluate expression).1 :=
    (hevaluate expression).results.eq
  -- What is kept is looked up under the same index in both histories, and is alike.
  cases call with
  | evaluate expression =>
    have hstep := hevaluate expression
    refine ⟨h.of_inStep hstep, ?_, hstep.left, hstep.right⟩
    rw [answer, answer, hanswers]
    exact .number _
  | report expression =>
    have hstep := hevaluate expression
    rw [after, after, Session.report_snd, Session.report_snd]
    refine ⟨h.of_inStep hstep, ?_, hstep.left, hstep.right⟩
    rw [answer, answer, Session.report_fst_eq (hanswers expression)]
    exact .record _
  | rpn expression =>
    have hstep : InStep VariableStore.Widens
        (fun s t => List.Forall₂ (Token.Alike (fun _ => True) s t)) c.session.store d.session.store
        (c.session.registry.rpn expression) (d.session.registry.rpn expression) := by
      rw [h.registry]
      exact Registry.rpn_inStep VariableStore.matching_widens.mention (fun _ _ => trivial) h.stores
    refine ⟨?_, .tokens hstep.results, hstep.left, hstep.right⟩
    have hknown (tokens : List Token) (hc : (c.session.rpn expression).1 = .ok tokens) :
        c.session.registry.KnowsAll tokens := Session.knows_of_rpn (Prod.ext hc rfl)
    exact (h.of_inStep hstep).keep hstep.results hknown
  | evaluateRpn index =>
    obtain ⟨htokens, hknown⟩ := h.returned index
    have hstep := Calculator.evaluate_inStep h.standard VariableStore.matching_widens h.stores
      htokens hknown
    have hresults : (c.session.evaluateRpn (c.returned index)).1
        = (d.session.evaluateRpn (d.returned index)).1 := hstep.results.eq
    refine ⟨h.of_inStep hstep, ?_, hstep.left, hstep.right⟩
    rw [answer, answer, hresults]
    exact .number _
  | format index =>
    refine ⟨h, ?_, .refl _, .refl _⟩
    rw [answer, answer, Session.format, Session.format, join_text_alike (h.returned index).1]
    exact .text _

/-- An idle call in the second alone. -/
theorem idle (h : Beside c d) {call : Call} (idle : d.Idle call) :
    Beside c ⟨d.after call, d.kept⟩ ∧ d.session.store.Keeps (d.after call).store := by
  obtain ⟨expression, hexpression⟩ := idle.exists_rpn
  -- The second session beside itself, of which every state widens the first.
  have hstep : InStep (fun _ t => c.session.store.Widens t)
      (fun s t => List.Forall₂ (Token.Alike (fun _ => True) s t)) d.session.store d.session.store
      (d.session.registry.rpn expression) (d.session.registry.rpn expression) :=
    Registry.rpn_inStep (fun h _ => h.intern_right _) (fun _ _ => trivial) h.stores
  have hkept := h.kept.imp fun _ _ tokens =>
    tokens.imp fun _ _ hx => hx.later (.refl c.session.store) hstep.right
  rw [hexpression]
  exact ⟨⟨h.registry, h.standard, hstep.stores, hkept, h.known⟩, hstep.right⟩

/-- A run with inserted calls, and the run without them. -/
theorem run (h : Beside c d) {moves : List Move} (idle : d.InsertsIdle moves) :
    Beside (c.run (moves.filter Move.isOwn)).2 (d.run moves).2 ∧
      List.Forall₂ (Answer.Alike (c.run (moves.filter Move.isOwn)).2.session.store
        (d.run moves).2.session.store) (c.run (moves.filter Move.isOwn)).1 (d.run moves).1 ∧
      c.session.store.Keeps (c.run (moves.filter Move.isOwn)).2.session.store ∧
      d.session.store.Keeps (d.run moves).2.session.store := by
  -- Along the moves. An own one is made by both clients, an inserted one by the second alone.
  induction moves generalizing c d with
  | nil => exact ⟨h, .nil, .refl _, .refl _⟩
  | cons move rest ih =>
    cases move with
    | own call =>
      obtain ⟨hbeside, hanswer, hleft, hright⟩ := h.step call
      obtain ⟨hlast, hanswers, hleft', hright'⟩ := ih hbeside idle
      exact ⟨hlast, .cons (hanswer.later hleft' hright') hanswers, hleft.trans hleft',
        hright.trans hright'⟩
    | inserted call =>
      obtain ⟨hbeside, hright⟩ := h.idle idle.1
      obtain ⟨hlast, hanswers, hleft', hright'⟩ := ih hbeside idle.2
      exact ⟨hlast, hanswers, hleft', hright.trans hright'⟩

end Beside

end Client

/-! ### Insertion -/

namespace Session

variable {s : Session} {extensions : List Extension}

/-- **Calls that evaluate nothing leave no trace.**  Expressions that are only put in order, or that
fail before they are evaluated, can be inserted anywhere into the calls of a session over standard
extensions.  The other calls have the same answers, and the variables have the same values.  All that
is different is that more names may have been met, which have no value. -/
theorem run_inserted (uses : s.Uses extensions) {moves : List Move}
    (idle : Client.InsertsIdle ⟨s, []⟩ moves) {plain full : Client} {answers answers' : List Answer}
    (without : Client.run ⟨s, []⟩ (moves.filter Move.isOwn) = (answers, plain))
    (inserted : Client.run ⟨s, []⟩ moves = (answers', full)) :
    List.Forall₂ (Answer.Alike plain.session.store full.session.store) answers answers' ∧
      (∀ name, plain.session.value? name = full.session.value? name) ∧
      ∀ name, full.session.lookup? name = plain.session.lookup? name ∨
        (plain.session.lookup? name = none ∧ full.session.lookup? name = some ⟨name, none⟩) := by
  have hbeside : Client.Beside ⟨s, []⟩ ⟨s, []⟩ :=
    ⟨rfl, uses.standard, .refl _, .nil, fun _ mem => nomatch mem⟩
  obtain ⟨hlast, hanswers, -, -⟩ := hbeside.run idle
  rw [without, inserted] at hlast hanswers
  exact ⟨hanswers, hlast.stores.value?_eq, hlast.stores⟩

/-- Between `x = 2` and a report of `-x^y`, `z` is put in order and `y .` fails after `y` has been
met. -/
theorem run_inserted_negated_power :
    ∃ moves plain full answers answers',
      moves = [.inserted (.rpn "z"), .own (.evaluate "x = 2"), .inserted (.evaluate "y ."),
        .own (.report "-x^y"), .own (.rpn "x"), .own (.evaluateRpn 0)] ∧
      (start .standard).Uses Extension.all ∧
      Client.InsertsIdle ⟨start .standard, []⟩ moves ∧
      Client.run ⟨start .standard, []⟩ (moves.filter Move.isOwn) = (answers, plain) ∧
      Client.run ⟨start .standard, []⟩ moves = (answers', full) ∧
      List.Forall₂ (Answer.Alike plain.session.store full.session.store) answers answers' ∧
      (∀ name, plain.session.value? name = full.session.value? name) ∧
      ∀ name, full.session.lookup? name = plain.session.lookup? name ∨
        (plain.session.lookup? name = none ∧ full.session.lookup? name = some ⟨name, none⟩) := by
  have hpieces : Lexeme.split 0 "y .".toList
      = [(0, .name ['y']), (2, .numeral ⟨[], some [], none⟩)] := by
    decide +kernel
  have hfails (store : VariableStore) :
      ((Registry.standard.rpn "y .").run.run store).1 = .error (.invalidNumber "." ⟨3, 3⟩) := by
    rw [Registry.rpn, Registry.conflict?_standard, Registry.read, hpieces]
    rfl
  have hidle : Client.InsertsIdle ⟨start .standard, []⟩ [.inserted (.rpn "z"),
      .own (.evaluate "x = 2"), .inserted (.evaluate "y ."), .own (.report "-x^y"), .own (.rpn "x"),
      .own (.evaluateRpn 0)] :=
    ⟨trivial, ⟨_, hfails _⟩, trivial⟩
  exact ⟨_, _, _, _, _, rfl, uses_all _, hidle, rfl, rfl, run_inserted (uses_all _) hidle rfl rfl⟩

end Session

end Calculator
