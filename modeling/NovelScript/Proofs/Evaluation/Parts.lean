import Mathlib.Logic.Relation
import NovelScript.Expr.Evaluation

/-!
Evaluations and their parts. An evaluation evaluates others in its course: operands, whose values
it makes use of; what stands in its place, such as the branch that is taken; and the bodies of the
functions it calls. Main statement: what holds of an evaluation if it holds of its parts, holds of
every evaluation.
-/

namespace NovelScript.Expr

/-- What can be evaluated. Statements stand behind the value `last`, which is theirs if there are
none. -/
inductive Task
  | expression (e : Expression)
  | statement (s : Statement)
  | statements (last : Value) (body : List Statement)

namespace Task

/-- The value of a task in a scope. -/
def eval (call : Caller) (scope : ScopeId) : Task → Eval Value
  | expression e => e.eval call scope
  | statement s => s.eval call scope
  | statements last body => evalStatements call scope last body

/-- How much there is to evaluate. -/
noncomputable def size : Task → Nat
  | expression e => sizeOf e
  | statement s => sizeOf s
  | statements _ body => sizeOf body

/-- The value behind which there is something to evaluate. -/
def last : Task → Value
  | statements last _ => last
  | _ => .null

end Task

/-- A value, and the heap that is left behind. -/
abbrev Result := Value × Heap

/-- Goes on with a value that is no failure. -/
def Result.andThen (r : Result) (next : Value → Heap → Result) : Result :=
  if r.1.isError then r else next r.1 r.2

/-- Binding parameters is binding names to arguments or to null, one after the other. -/
theorem Heap.bindAll_induction {R : Heap → Prop} {s : ScopeId} (names : List String) :
    ∀ {arguments : List Value} {heap : Heap},
      (∀ heap name v, R heap → v = .null ∨ v ∈ arguments → R (heap.set name v s)) → R heap →
        R (heap.bindAll names arguments s) := by
  induction names with
  | nil => exact fun _ h => h
  | cons name names ih =>
    intro arguments heap hstep h
    have hfirst : arguments.head?.getD .null = .null ∨ arguments.head?.getD .null ∈ arguments := by
      cases arguments with
      | nil => exact .inl rfl
      | cons v rest => exact .inr List.mem_cons_self
    exact ih (fun heap name v hheap hv => hstep heap name v hheap
      (hv.imp_right List.mem_of_mem_tail)) (hstep heap name _ h hfirst)

/-- An evaluation: something in a scope of a heap, while at most `depth` further calls may become
active. -/
structure Evaluation where
  depth : Nat
  scope : ScopeId
  heap : Heap
  task : Task

/-- The heap on which the body of a function is evaluated: its parameters are bound in a scope of
their own. -/
def Heap.enter (f : Closure) (arguments : List Value) (heap : Heap) : Heap :=
  (heap.enclose f.scope).2.bindAll f.parameters arguments heap.scopes.size

namespace Evaluation

/-- What comes of an evaluation. -/
def run (c : Evaluation) : Result := (c.task.eval (callWithin c.depth) c.scope).run c.heap

/-- The values of arguments, or the first failure among them. -/
def arguments (depth : Nat) (scope : ScopeId) (es : List Expression) (heap : Heap) :
    Except Value (List Value) × Heap :=
  (evalArguments (callWithin depth) scope es).run heap

/-! ### One step of evaluating -/

/-- A failure is all that comes of an evaluation that goes on with a value. -/
theorem run_bind (x : Eval Value) (next : Value → Eval Value) (h : Heap) :
    (x >>= fun v => if v.isError then pure v else next v).run h =
      Result.andThen (x.run h) fun v h => (next v).run h := by
  show (if (x.run h).1.isError then pure (x.run h).1 else next (x.run h).1).run (x.run h).2 = _
  unfold Result.andThen
  split <;> rfl

theorem andThen_of_isError {r : Result} {next : Value → Heap → Result} (h : r.1.isError = true) :
    r.andThen next = r := if_pos h

theorem andThen_of_run {r : Result} {v : Value} {h : Heap} {next : Value → Heap → Result}
    (hr : r = (v, h)) (hv : v.isError = false) : r.andThen next = next v h := by
  subst hr
  exact if_neg (by simp [hv])

section Unfold

variable (n : Nat) (s : ScopeId) (h : Heap)

theorem run_identifier (name : String) :
    run ⟨n, s, h, .expression (.identifier name)⟩ =
      ((h.lookup? name s).getD
        ((Builtin.find? name).elim (.error (.undefined name)) .builtin), h) := by
  show (evalIdentifier s name).run h = _
  unfold evalIdentifier
  rw [StateT.run_bind]
  show StateT.run _ h = _
  simp only [StateT.run_get]
  cases h.lookup? name s with
  | some v => rfl
  | none => cases Builtin.find? name <;> rfl

theorem run_unary (op : UnaryOp) (e : Expression) :
    run ⟨n, s, h, .expression (.unary op e)⟩ =
      (run ⟨n, s, h, .expression e⟩).andThen fun v h => (op.apply v, h) :=
  run_bind _ _ h

theorem run_binary (op : BinaryOp) (l r : Expression) :
    run ⟨n, s, h, .expression (.binary op l r)⟩ =
      (run ⟨n, s, h, .expression l⟩).andThen fun v h =>
        (run ⟨n, s, h, .expression r⟩).andThen fun w h => (op.apply v w, h) := by
  refine (run_bind _ _ h).trans ?_
  congr 1
  funext v h
  exact run_bind _ _ h

theorem run_assign (name : String) (e : Expression) :
    run ⟨n, s, h, .expression (.assign name e)⟩ =
      (run ⟨n, s, h, .expression e⟩).andThen fun v h => (v, h.set name v s) :=
  run_bind _ _ h

theorem run_ifThen (c : Expression) (body : Block) :
    run ⟨n, s, h, .expression (.ifThen c body)⟩ =
      (run ⟨n, s, h, .expression c⟩).andThen fun v h =>
        if v.isTruthy then run ⟨n, s, h, .statements .null body⟩ else (.null, h) := by
  refine (run_bind _ _ h).trans ?_
  congr 1
  funext v h
  split <;> rfl

theorem run_ifThenElse (c : Expression) (body other : Block) :
    run ⟨n, s, h, .expression (.ifThenElse c body other)⟩ =
      (run ⟨n, s, h, .expression c⟩).andThen fun v h =>
        if v.isTruthy then run ⟨n, s, h, .statements .null body⟩
        else run ⟨n, s, h, .statements .null other⟩ := by
  refine (run_bind _ _ h).trans ?_
  congr 1
  funext v h
  split <;> rfl

theorem run_body (f : Closure) (values : List Value) :
    (callWithin (n + 1) f values).run h =
      let body := run ⟨n, h.scopes.size, h.enter f values, .statements .null f.body⟩
      (body.1.unwrap, body.2) := rfl

theorem run_let (name : String) (e : Expression) :
    run ⟨n, s, h, .statement (.let name e)⟩ =
      (run ⟨n, s, h, .expression e⟩).andThen fun v h => (.null, h.set name v s) :=
  run_bind _ _ h

theorem run_return (e : Expression) :
    run ⟨n, s, h, .statement (.return e)⟩ =
      (run ⟨n, s, h, .expression e⟩).andThen fun v h => (.returned v, h) :=
  run_bind _ _ h

theorem run_cons (last : Value) (first : Statement) (rest : Block) :
    run ⟨n, s, h, .statements last (first :: rest)⟩ =
      let r := run ⟨n, s, h, .statement first⟩
      if r.1.isFinal then r else run ⟨n, s, r.2, .statements r.1 rest⟩ := by
  show StateT.run (if (run ⟨n, s, h, .statement first⟩).1.isFinal then _ else _)
    (run ⟨n, s, h, .statement first⟩).2 = _
  simp only
  split <;> rfl

theorem arguments_cons (e : Expression) (es : List Expression) :
    arguments n s (e :: es) h =
      let r := run ⟨n, s, h, .expression e⟩
      if r.1.isError then (.error r.1, r.2)
      else ((arguments n s es r.2).1.map (r.1 :: ·), (arguments n s es r.2).2) := by
  generalize hr : run ⟨n, s, h, .expression e⟩ = r
  have hr' : (e.eval (callWithin n) s).run h = r := hr
  unfold arguments
  rw [evalArguments, StateT.run_bind, hr']
  show StateT.run (if r.1.isError then _ else _) r.2 = _
  simp only
  split
  · rfl
  · show StateT.run (evalArguments (callWithin n) s es >>= _) r.2 = _
    rw [StateT.run_bind]
    generalize (evalArguments (callWithin n) s es).run r.2 = rest
    obtain ⟨_ | _, h⟩ := rest <;> rfl

variable {n s h} {h' h'' : Heap} {f : Expression} {es : List Expression} {v : Value}

theorem run_call_of_isError (hv : (run ⟨n, s, h, .expression f⟩).1.isError = true) :
    run ⟨n, s, h, .expression (.call f es)⟩ = run ⟨n, s, h, .expression f⟩ :=
  (run_bind _ _ h).trans (andThen_of_isError hv)

theorem run_call_of_ok {values : List Value} (hf : run ⟨n, s, h, .expression f⟩ = (v, h'))
    (hv : v.isError = false) (hes : arguments n s es h' = (.ok values, h'')) :
    run ⟨n, s, h, .expression (.call f es)⟩ = (applyValue (callWithin n) v values).run h'' := by
  refine ((run_bind _ _ h).trans (andThen_of_run hf hv)).trans ?_
  have hes' : (evalArguments (callWithin n) s es).run h' = (.ok values, h'') := hes
  rw [StateT.run_bind, hes']
  rfl

theorem run_call_of_error {w : Value} (hf : run ⟨n, s, h, .expression f⟩ = (v, h'))
    (hv : v.isError = false) (hes : arguments n s es h' = (.error w, h'')) :
    run ⟨n, s, h, .expression (.call f es)⟩ = (w, h'') := by
  refine ((run_bind _ _ h).trans (andThen_of_run hf hv)).trans ?_
  have hes' : (evalArguments (callWithin n) s es).run h' = (.error w, h'') := hes
  rw [StateT.run_bind, hes']
  rfl

end Unfold

/-! ### Parts -/

/-- The evaluations of arguments, one behind the other, up to the first that fails. -/
def argumentParts (depth : Nat) (scope : ScopeId) : List Expression → Heap → List Evaluation
  | [], _ => []
  | e :: es, heap =>
    let part : Evaluation := ⟨depth, scope, heap, .expression e⟩
    part :: if part.run.1.isError then [] else argumentParts depth scope es part.run.2

/-- What a part is to the whole. -/
inductive Role
  /-- The whole makes use of its value. -/
  | operand
  /-- It stands in the place of the whole, or of one of the statements in a row. -/
  | tail
  /-- It is the body of a function that the whole calls. -/
  | body
deriving DecidableEq

/-- What an evaluation evaluates in its course. -/
inductive Part : Role → Evaluation → Evaluation → Prop
  | unary {n s h op e} : Part .operand ⟨n, s, h, .expression e⟩ ⟨n, s, h, .expression (.unary op e)⟩
  | left {n s h op l r} :
    Part .operand ⟨n, s, h, .expression l⟩ ⟨n, s, h, .expression (.binary op l r)⟩
  | right {n s h op l r v h'} : run ⟨n, s, h, .expression l⟩ = (v, h') → v.isError = false →
    Part .operand ⟨n, s, h', .expression r⟩ ⟨n, s, h, .expression (.binary op l r)⟩
  | assign {n s h name e} :
    Part .operand ⟨n, s, h, .expression e⟩ ⟨n, s, h, .expression (.assign name e)⟩
  | onlyCondition {n s h c body} :
    Part .operand ⟨n, s, h, .expression c⟩ ⟨n, s, h, .expression (.ifThen c body)⟩
  | onlyBranch {n s h c body v h'} : run ⟨n, s, h, .expression c⟩ = (v, h') → v.isError = false →
    v.isTruthy = true →
    Part .tail ⟨n, s, h', .statements .null body⟩ ⟨n, s, h, .expression (.ifThen c body)⟩
  | condition {n s h c body other} :
    Part .operand ⟨n, s, h, .expression c⟩ ⟨n, s, h, .expression (.ifThenElse c body other)⟩
  | branch {n s h c body other v h'} : run ⟨n, s, h, .expression c⟩ = (v, h') →
    v.isError = false →
    Part .tail ⟨n, s, h', .statements .null (if v.isTruthy then body else other)⟩
      ⟨n, s, h, .expression (.ifThenElse c body other)⟩
  | callee {n s h f es} :
    Part .operand ⟨n, s, h, .expression f⟩ ⟨n, s, h, .expression (.call f es)⟩
  | argument {n s h f es v h' part} : run ⟨n, s, h, .expression f⟩ = (v, h') →
    v.isError = false → part ∈ argumentParts n s es h' →
    Part .operand part ⟨n, s, h, .expression (.call f es)⟩
  | body {n s h f es g h' values h''} : run ⟨n + 1, s, h, .expression f⟩ = (.function g, h') →
    arguments (n + 1) s es h' = (.ok values, h'') →
    Part .body ⟨n, h''.scopes.size, h''.enter g values, .statements .null g.body⟩
      ⟨n + 1, s, h, .expression (.call f es)⟩
  | let {n s h name e} :
    Part .operand ⟨n, s, h, .expression e⟩ ⟨n, s, h, .statement (.let name e)⟩
  | return {n s h e} :
    Part .operand ⟨n, s, h, .expression e⟩ ⟨n, s, h, .statement (.return e)⟩
  | expression {n s h e} :
    Part .tail ⟨n, s, h, .expression e⟩ ⟨n, s, h, .statement (.expression e)⟩
  | block {n s h body} :
    Part .tail ⟨n, s, h, .statements .null body⟩ ⟨n, s, h, .statement (.block body)⟩
  | first {n s h last first rest} :
    Part .tail ⟨n, s, h, .statement first⟩ ⟨n, s, h, .statements last (first :: rest)⟩
  | rest {n s h last first rest v h'} : run ⟨n, s, h, .statement first⟩ = (v, h') →
    v.isFinal = false →
    Part .tail ⟨n, s, h', .statements v rest⟩ ⟨n, s, h, .statements last (first :: rest)⟩

theorem mem_argumentParts {n : Nat} {s : ScopeId} {part : Evaluation} : ∀ {es : List Expression}
    {h : Heap}, part ∈ argumentParts n s es h →
      ∃ e h', e ∈ es ∧ part = ⟨n, s, h', .expression e⟩
  | e :: es, h, hmem => by
    rcases List.mem_cons.mp hmem with rfl | hmem
    · exact ⟨e, h, List.mem_cons_self, rfl⟩
    · split at hmem
      · simp at hmem
      · obtain ⟨e', h', he, rfl⟩ := mem_argumentParts hmem
        exact ⟨e', h', List.mem_cons_of_mem e he, rfl⟩

/-- Only the body of a function is evaluated in another scope. -/
theorem Part.scope_eq {role : Role} {part c : Evaluation} (h : Part role part c)
    (hrole : role ≠ .body) : part.scope = c.scope := by
  cases h with
  | argument _ _ hmem =>
    obtain ⟨e, h', -, rfl⟩ := mem_argumentParts hmem
    rfl
  | body => exact absurd rfl hrole
  | _ => rfl

/-- A part begins behind null, or behind the value of the first statement. -/
theorem Part.last_eq {role : Role} {part c : Evaluation} (h : Part role part c) :
    part.task.last = .null ∨ ∃ first, Part .tail first c ∧ first.heap = c.heap ∧
      first.task.last = .null ∧ first.run = (part.task.last, part.heap) ∧
      part.task.last.isFinal = false := by
  cases h with
  | argument _ _ hmem =>
    obtain ⟨e, h', -, rfl⟩ := mem_argumentParts hmem
    exact .inl rfl
  | rest hfirst hv => exact .inr ⟨_, .first, rfl, rfl, hfirst, hv⟩
  | _ => exact .inl rfl

/-- A part has less to evaluate than the whole, or fewer calls to make. -/
theorem Part.lex {role : Role} {part c : Evaluation} (h : Part role part c) :
    Prod.Lex (· < ·) (· < ·) (part.depth, part.task.size) (c.depth, c.task.size) := by
  cases h with
  | argument _ _ hmem =>
    obtain ⟨e, h', he, rfl⟩ := mem_argumentParts hmem
    have := List.sizeOf_lt_of_mem he
    refine .right _ ?_
    simp only [Task.size, Expression.call.sizeOf_spec]
    omega
  | body _ _ => exact .left _ _ (Nat.lt_succ_self _)
  | branch _ _ =>
    refine .right _ ?_
    simp only [Task.size, Expression.ifThenElse.sizeOf_spec]
    split <;> omega
  | _ =>
    refine .right _ ?_
    simp only [Task.size, Expression.unary.sizeOf_spec, Expression.binary.sizeOf_spec,
      Expression.assign.sizeOf_spec, Expression.ifThen.sizeOf_spec, Expression.call.sizeOf_spec,
      Expression.ifThenElse.sizeOf_spec, Statement.let.sizeOf_spec, Statement.return.sizeOf_spec,
      Statement.expression.sizeOf_spec, Statement.block.sizeOf_spec, List.cons.sizeOf_spec]
    omega

/-- **What passes from the parts to the whole holds of every evaluation.** -/
theorem induction {P : Evaluation → Prop}
    (step : ∀ c, (∀ role part, Part role part c → P part) → P c) (c : Evaluation) : P c :=
  step c fun _ part _ => induction step part
termination_by (c.depth, c.task.size)
decreasing_by exact Part.lex ‹_›

/-- Whatever is evaluated in the course of an evaluation, at any depth of calls. -/
def Reaches : Evaluation → Evaluation → Prop :=
  Relation.ReflTransGen fun c part => ∃ role, Part role part c

/-- Whatever is evaluated in the course of an evaluation, the functions it calls aside. -/
def Contains : Evaluation → Evaluation → Prop :=
  Relation.ReflTransGen fun c part => ∃ role, role ≠ .body ∧ Part role part c

variable {role : Role} {c part d : Evaluation}

theorem Part.reaches (h : Part role part c) (hd : part.Reaches d) : c.Reaches d :=
  .head ⟨role, h⟩ hd

theorem Part.contains (h : Part role part c) (hrole : role ≠ .body) (hd : part.Contains d) :
    c.Contains d := .head ⟨role, hrole, h⟩ hd

/-- What every part has if the whole does, all that is evaluated has. -/
theorem Reaches.keeps {P : Evaluation → Prop}
    (hparts : ∀ {c role part}, Part role part c → P c → P part) (h : c.Reaches d) (hc : P c) :
    P d := by
  induction h using Relation.ReflTransGen.head_induction_on with
  | refl => exact hc
  | head hstep _ ih =>
    obtain ⟨role, hpart⟩ := hstep
    exact ih (hparts hpart hc)

theorem Contains.reaches (h : c.Contains d) : c.Reaches d :=
  Relation.ReflTransGen.mono (fun _ _ ⟨role, _, hpart⟩ => ⟨role, hpart⟩) c d h

end Evaluation
end NovelScript.Expr
