import NovelScript.Proofs.Evaluation.CallStack

/-!
The machine does what evaluation does. Whatever is evaluated, and whatever waits for its value, the
machine comes to give this value to what waits, in the scope and at the count of calls that it
began with. Main statement: every program comes to its end, whatever functions the heap holds, and
on the way no more calls are active than may be.
-/

namespace NovelScript.Expr
namespace Evaluator

variable {m m' m'' last : Evaluator} {base : List Pending} {n k d : Nat} {s : ScopeId} {h : Heap}
  {stack : List Pending}

/-! ### Runs -/

/-- The machine takes so many steps from one state to another one, while what waits in `base` goes
on waiting. -/
inductive Takes (base : List Pending) : Nat → Evaluator → Evaluator → Prop
  | refl {m : Evaluator} (hbase : base <:+ m.stack) : Takes base 0 m m
  | step {n : Nat} {m m' last : Evaluator} (hbase : base <:+ m.stack) (hnext : m.next? = some m')
      (hrest : Takes base n m' last) : Takes base (n + 1) m last

theorem Takes.trans (hfirst : Takes base n m m') (hrest : Takes base k m' m'') :
    Takes base (n + k) m m'' := by
  induction hfirst with
  | refl _ => simpa using hrest
  | step hbase hnext _ ih =>
    rw [Nat.add_right_comm]
    exact .step hbase hnext (ih hrest)

theorem Takes.mono {below : List Pending} (htakes : Takes base n m m') (hbelow : below <:+ base) :
    Takes below n m m' := by
  induction htakes with
  | refl hbase => exact .refl (hbelow.trans hbase)
  | step hbase hnext _ ih => exact .step (hbelow.trans hbase) hnext ih

/-- A run that has come to its end is the longest from where it began. -/
theorem Takes.le_of_ends (hlast : last.next? = none) (htakes : Takes base n m last) :
    ∀ {k : Nat}, Takes [] k m m' → k ≤ n := by
  induction htakes with
  | refl _ =>
    intro k hother
    cases hother with
    | refl _ => exact Nat.le_refl _
    | step _ hnext _ => rw [hlast] at hnext; cases hnext
  | step _ hnext _ ih =>
    intro k hother
    cases hother with
    | refl _ => exact Nat.zero_le _
    | step _ hnext' hrest =>
      rw [hnext] at hnext'
      obtain rfl := Option.some.inj hnext'
      exact Nat.succ_le_succ (ih hlast hrest)

/-- What one step leaves right, a run leaves right. -/
theorem Counts.takes (hcounts : m.Counts) (htakes : Takes base n m m') : m'.Counts := by
  induction htakes with
  | refl _ => exact hcounts
  | step _ hnext _ ih => exact ih (hcounts.next hnext)

/-- The machine comes from one state to another one. -/
def Comes (base : List Pending) (m m' : Evaluator) : Prop := ∃ n, Takes base n m m'

theorem Comes.refl (hbase : base = m.stack) : Comes base m m :=
  ⟨0, .refl (hbase ▸ List.suffix_refl _)⟩

theorem Comes.head (hbase : base <:+ m.stack) (hnext : m.next? = some m') (h : Comes base m' m'') :
    Comes base m m'' := h.elim fun n htakes => ⟨n + 1, .step hbase hnext htakes⟩

theorem Comes.trans (h : Comes base m m') (h' : Comes base m' m'') : Comes base m m'' :=
  h.elim fun _ htakes => h'.elim fun _ htakes' => ⟨_, htakes.trans htakes'⟩

theorem Comes.of_cons {pending : Pending} (h : Comes (pending :: base) m m') : Comes base m m' :=
  h.elim fun n htakes => ⟨n, htakes.mono (List.suffix_cons _ _)⟩

/-! ### Values -/

/-- The state that gives a value, and leaves a heap; all else is as before. -/
def settle (m : Evaluator) (r : Result) : Evaluator :=
  { m with control := .give r.1, heap := r.2 }

/-- The machine comes to give what comes of the evaluation. -/
def Settles (c : Evaluation) : Prop :=
  ∀ control d stack, c.depth + d = maxCallDepth →
    let m : Evaluator := ⟨control, c.scope, c.heap, d, stack⟩
    Comes stack (m.evaluate c.task) (m.settle c.run)

/-- An operand settles, and then what is made of its value. -/
theorem comes_operand {e : Expression} {use : Use} {control : Control}
    {next : Value → Heap → Result} (he : Settles ⟨n, s, h, .expression e⟩)
    (hd : n + d = maxCallDepth)
    (hnext : ∀ v h', Evaluation.run ⟨n, s, h, .expression e⟩ = (v, h') → v.isError = false →
      let m : Evaluator := ⟨.give v, s, h', d, stack⟩
      Comes stack (m.use v use) (m.settle (next v h'))) :
    let m : Evaluator := ⟨control, s, h, d, stack⟩
    Comes stack (m.operand e use)
      (m.settle ((Evaluation.run ⟨n, s, h, .expression e⟩).andThen next)) := by
  refine Comes.trans (he control d (.operand use :: stack) hd).of_cons ?_
  rcases hr : Evaluation.run ⟨n, s, h, .expression e⟩ with ⟨v, h'⟩
  refine Comes.head (List.suffix_cons _ _) rfl ?_
  show Comes stack (resume ⟨.give v, s, h', d, stack⟩ v (.operand use)) _
  rw [resume]
  cases hv : v.isError with
  | true =>
    rw [Evaluation.andThen_of_isError hv]
    exact .refl rfl
  | false =>
    rw [Evaluation.andThen_of_run rfl hv]
    exact hnext v h' hr hv

/-- The body of a function that is called settles, and the call is left. -/
theorem comes_apply {callee : Value} {values : List Value} {control : Control}
    (hbody : ∀ f k, callee = .function f → n = k + 1 →
      Settles ⟨k, h.scopes.size, h.enter f values, .statements .null f.body⟩)
    (hd : n + d = maxCallDepth) :
    let m : Evaluator := ⟨control, s, h, d, stack⟩
    Comes stack (m.apply callee values)
      (m.settle ((applyValue (callWithin n) callee values).run h)) := by
  cases callee with
  | function f =>
    cases n with
    | zero =>
      simp only [apply]
      rw [if_pos (by omega)]
      exact .refl rfl
    | succ k =>
      simp only [apply]
      rw [if_neg (by omega)]
      have hd' : k + (d + 1) = maxCallDepth := by omega
      refine Comes.trans (hbody f k rfl rfl control (d + 1) (.call s :: stack) hd').of_cons ?_
      exact Comes.head (List.suffix_cons _ _) rfl (.refl rfl)
  | _ => exact .refl rfl

/-! ### Arguments -/

/-- What comes of a call when some values of arguments are there, and the others are still to be
evaluated. -/
def passing (n : Nat) (s : ScopeId) (callee : Value) :
    List Value → List Expression → Heap → Result
  | values, [], h => (applyValue (callWithin n) callee values).run h
  | values, e :: es, h =>
    (Evaluation.run ⟨n, s, h, .expression e⟩).andThen fun v h =>
      passing n s callee (values ++ [v]) es h

theorem passing_of_arguments (callee : Value) (es : List Expression) :
    ∀ (values : List Value) (h : Heap), passing n s callee values es h =
      match Evaluation.arguments n s es h with
      | (.ok ws, h') => (applyValue (callWithin n) callee (values ++ ws)).run h'
      | (.error w, h') => (w, h') := by
  induction es with
  | nil =>
    intro values h
    show _ = (applyValue (callWithin n) callee (values ++ [])).run h
    rw [List.append_nil, passing]
  | cons e es ih =>
    intro values h
    rw [passing, Evaluation.arguments_cons]
    rcases hr : Evaluation.run ⟨n, s, h, .expression e⟩ with ⟨v, h'⟩
    cases hv : v.isError with
    | true => simp [Evaluation.andThen_of_isError, hv]
    | false =>
      rw [Evaluation.andThen_of_run rfl hv, ih]
      rcases hes : Evaluation.arguments n s es h' with ⟨w | ws, h''⟩ <;> simp [hes, hv, Except.map]

theorem run_call (f : Expression) (es : List Expression) :
    Evaluation.run ⟨n, s, h, .expression (.call f es)⟩ =
      (Evaluation.run ⟨n, s, h, .expression f⟩).andThen fun v h => passing n s v [] es h := by
  rcases hf : Evaluation.run ⟨n, s, h, .expression f⟩ with ⟨v, h'⟩
  cases hv : v.isError with
  | true =>
    rw [Evaluation.run_call_of_isError (by rw [hf]; exact hv), hf, Evaluation.andThen_of_isError hv]
  | false =>
    rw [Evaluation.andThen_of_run rfl hv, passing_of_arguments]
    rcases hes : Evaluation.arguments n s es h' with ⟨w | values, h''⟩
    · exact Evaluation.run_call_of_error hf hv hes
    · exact Evaluation.run_call_of_ok hf hv hes

/-- Arguments settle one after the other, and then the call does. -/
theorem comes_collect {callee : Value} (hd : n + d = maxCallDepth) {es : List Expression} :
    ∀ {h : Heap} {control : Control} {values : List Value},
      (∀ part ∈ Evaluation.argumentParts n s es h, Settles part) →
      (∀ ws h' f k, Evaluation.arguments n s es h = (.ok ws, h') → callee = .function f →
        n = k + 1 →
        Settles ⟨k, h'.scopes.size, h'.enter f (values ++ ws), .statements .null f.body⟩) →
      let m : Evaluator := ⟨control, s, h, d, stack⟩
      Comes stack (m.collect callee values es) (m.settle (passing n s callee values es h)) := by
  induction es with
  | nil =>
    intro h control values _ hbody
    refine comes_apply (fun f k hf hk => ?_) hd
    have hbody' := hbody [] h f k rfl hf hk
    rwa [List.append_nil] at hbody'
  | cons e es ih =>
    intro h control values hparts hbody
    obtain ⟨he, hrest⟩ := List.forall_mem_cons.mp hparts
    refine comes_operand he hd fun v h' hr hv => ?_
    rw [hr, hv] at hrest
    refine ih hrest fun ws h'' f k hws hf hk => ?_
    rw [List.append_assoc]
    refine hbody (v :: ws) h'' f k ?_ hf hk
    rw [Evaluation.arguments_cons, hr]
    simp [hv, hws, Except.map]

/-! ### All evaluations -/

/-- **Whatever is evaluated, the machine comes to give its value.** -/
theorem settles (c : Evaluation) : Settles c := by
  induction c using Evaluation.induction with
  | step c hparts =>
    obtain ⟨n, s, h, task⟩ := c
    intro control d stack hd
    refine Comes.head (List.suffix_refl _) rfl ?_
    cases task with
    | expression e =>
      cases e with
      | identifier name =>
        rw [Evaluation.run_identifier]
        exact .refl rfl
      | unary op e =>
        rw [Evaluation.run_unary]
        exact comes_operand (hparts _ _ .unary) hd fun v h' _ _ => .refl rfl
      | binary op l r =>
        rw [Evaluation.run_binary]
        refine comes_operand (hparts _ _ .left) hd fun v h' hl hv => ?_
        exact comes_operand (hparts _ _ (.right hl hv)) hd fun w h'' _ _ => .refl rfl
      | assign name e =>
        rw [Evaluation.run_assign]
        exact comes_operand (hparts _ _ .assign) hd fun v h' _ _ => .refl rfl
      | ifThen c body =>
        rw [Evaluation.run_ifThen]
        refine comes_operand (hparts _ _ .onlyCondition) hd fun v h' hc hv => ?_
        simp only [use]
        cases ht : v.isTruthy with
        | true => exact hparts _ _ (.onlyBranch hc hv ht) _ d stack hd
        | false => exact .refl rfl
      | ifThenElse c body other =>
        rw [Evaluation.run_ifThenElse]
        refine comes_operand (hparts _ _ .condition) hd fun v h' hc hv => ?_
        have hbranch := hparts _ _ (.branch hc hv) (.give v) d stack hd
        simp only [use]
        cases ht : v.isTruthy with
        | true =>
          rw [ht] at hbranch
          exact hbranch
        | false =>
          rw [ht] at hbranch
          exact hbranch
      | call f es =>
        rw [run_call]
        refine comes_operand (hparts _ _ .callee) hd fun v h' hf hv => ?_
        refine comes_collect hd (fun part hpart => hparts _ _ (.argument hf hv hpart)) ?_
        rintro ws h'' g k hws rfl rfl
        exact hparts _ _ (.body hf hws)
      | _ => exact .refl rfl
    | statement st =>
      cases st with
      | «let» name e =>
        rw [Evaluation.run_let]
        exact comes_operand (hparts _ _ .let) hd fun v h' _ _ => .refl rfl
      | «return» e =>
        rw [Evaluation.run_return]
        exact comes_operand (hparts _ _ .return) hd fun v h' _ _ => .refl rfl
      | expression e => exact hparts _ _ .expression control d stack hd
      | block body => exact hparts _ _ .block control d stack hd
    | statements last body =>
      cases body with
      | nil => exact .refl rfl
      | cons first rest =>
        rw [Evaluation.run_cons]
        refine Comes.trans (hparts _ _ .first control d (.rest rest :: stack) hd).of_cons ?_
        rcases hr : Evaluation.run ⟨n, s, h, .statement first⟩ with ⟨v, h'⟩
        refine Comes.head (List.suffix_cons _ _) rfl ?_
        show Comes stack (resume ⟨.give v, s, h', d, stack⟩ v (.rest rest)) _
        simp only [resume]
        cases hv : v.isFinal with
        | true => exact .refl rfl
        | false => exact hparts _ _ (.rest hr hv) (.give v) d stack hd

/-! ### Programs -/

/-- **Every program comes to its end**, whatever the heap holds, after a number of steps that no
run of the machine exceeds, and with the value and the heap that evaluation gives. At no moment are
more calls active than may be, and the counter says how many; what is evaluated at any moment comes
to give its value at the count of calls that it began with. -/
theorem program_ends (program : Program) (scope : ScopeId) (heap : Heap) :
    ∃ n v last, Takes [] n (start program scope heap) last ∧
      last = ⟨.give v, scope, ((evalProgram program scope).run heap).2, 0, []⟩ ∧
      v.unwrap = ((evalProgram program scope).run heap).1 ∧ last.next? = none ∧
      ∀ k m, Takes [] k (start program scope heap) m →
        k ≤ n ∧ m.depth = m.activeCalls ∧ m.activeCalls ≤ maxCallDepth ∧
          ∀ task, m.control = .evaluate task → ∃ steps, Takes m.stack steps m
            (m.settle ((task.eval (callWithin (maxCallDepth - m.depth)) m.scope).run m.heap)) := by
  let c : Evaluation := ⟨maxCallDepth, scope, heap, .statements .null program⟩
  obtain ⟨n, hruns⟩ := settles c (.give .null) 0 [] rfl
  refine ⟨n, c.run.1, _, hruns, rfl, rfl, rfl, fun k m htakes => ?_⟩
  have hcounts : m.Counts := (counts_start program scope heap).takes htakes
  refine ⟨hruns.le_of_ends rfl htakes, hcounts.depth, hcounts.depth ▸ hcounts.bounded, ?_⟩
  intro task hcontrol
  have hdepth : maxCallDepth - m.depth + m.depth = maxCallDepth :=
    Nat.sub_add_cancel hcounts.bounded
  have hcomes := settles ⟨maxCallDepth - m.depth, m.scope, m.heap, task⟩ m.control m.depth m.stack
    hdepth
  obtain ⟨control, s, h, d, stack⟩ := m
  subst hcontrol
  exact hcomes

/-- Two functions that call each other without end. -/
def mutualCalls : Program :=
  let function (name callee : String) : Statement :=
    .let name (.function [] [.expression (.call (.identifier callee) [])])
  [function "f" "g", function "g" "f", .expression (.call (.identifier "f") [])]

theorem program_ends_mutualCalls :
    ((evalProgram mutualCalls Heap.root).run .single).1.show =
        "ERROR: maximum call depth exceeded" ∧
      ∃ n v last, Takes [] n (start mutualCalls Heap.root .single) last ∧ last.next? = none ∧
        last.control = .give v ∧ last.depth = 0 ∧
        v.unwrap = ((evalProgram mutualCalls Heap.root).run .single).1 ∧
        ∀ k m, Takes [] k (start mutualCalls Heap.root .single) m →
          k ≤ n ∧ m.activeCalls ≤ maxCallDepth := by
  refine ⟨by decide +kernel, ?_⟩
  obtain ⟨n, v, last, hruns, rfl, hvalue, hends, hmoments⟩ :=
    program_ends mutualCalls Heap.root .single
  refine ⟨n, v, _, hruns, hends, rfl, rfl, hvalue, fun k m htakes => ?_⟩
  obtain ⟨hle, -, hbounded, -⟩ := hmoments k m htakes
  exact ⟨hle, hbounded⟩

end Evaluator
end NovelScript.Expr
