import NovelScript.Proofs.Evaluation.Placement

/-!
Where a `return` leads. As long as no `return` is carried out inside an operand, a `return` leaves
the function or program it stands in at once, and its value is theirs; a `return` inside an operand
makes its value, still on its way, an operand. Main statement: these are the only two cases.
-/

namespace NovelScript.Expr

/-- Whether the value is on its way out of a function or program. -/
def Value.isReturned : Value → Bool
  | returned _ => true
  | _ => false

/-- The evaluation of a program, with no call active yet. -/
def Program.evaluation (program : Program) (scope : ScopeId) (heap : Heap) : Evaluation :=
  ⟨maxCallDepth, scope, heap, .statements .null program⟩

theorem run_evalProgram (program : Program) (scope : ScopeId) (heap : Heap) :
    (evalProgram program scope).run heap =
      ((program.evaluation scope heap).run.1.unwrap, (program.evaluation scope heap).run.2) := rfl

/-- A program that is one expression comes to what the expression comes to. -/
theorem run_expression_evaluation (e : Expression) (scope : ScopeId) (heap : Heap) :
    (Program.evaluation [.expression e] scope heap).run =
      Evaluation.run ⟨maxCallDepth, scope, heap, .expression e⟩ := by
  -- nothing stands behind the expression, so it makes no difference whether its value is final
  rw [Program.evaluation, Evaluation.run_cons]
  simp only
  split <;> rfl

/-- No scope binds a value that is on its way out. -/
def Heap.Settled (heap : Heap) : Prop := heap.Holds fun v => v.isReturned = false

namespace Evaluation

variable {c : Evaluation}

/-! ### What a `return` decides -/

/-- A `return` that is carried out decides the evaluation it stands in, unless it stands in an
operand: then it decides the operand. -/
theorem Contains.returns {r : Evaluation} {v : Value} {heap : Heap} (h : c.Contains r)
    (hr : r.Returns v heap) :
    c.run = (.returned v, heap) ∨
      ∃ d part, c.Contains d ∧ Part .operand part d ∧ part.run = (.returned v, heap) := by
  induction h using Relation.ReflTransGen.head_induction_on with
  | refl => exact .inl hr.run_eq
  | @head c part hstep _ ih =>
    obtain ⟨role, hrole, hpart⟩ := hstep
    rcases ih with hrun | ⟨d, operand, hd, hoperand, hrun⟩
    · cases role with
      | operand => exact .inr ⟨c, part, .refl, hpart, hrun⟩
      | tail =>
        left
        rw [hpart.run_eq (by rw [hrun]; rfl), hrun]
      | body => exact absurd rfl hrole
    · exact .inr ⟨d, operand, hpart.contains hrole hd, hoperand, hrun⟩

/-! ### Evaluations that keep their returns out of operands -/

/-- No scope binds a value on its way out, nor is there one to begin with. -/
structure Clean (c : Evaluation) : Prop where
  heap : c.heap.Settled
  last : c.task.last.isReturned = false

theorem isFinal_of_isError {v : Value} (h : v.isError = true) : v.isFinal = true := by
  cases v <;> simp_all [Value.isError, Value.isFinal]

theorem isReturned_of_isFinal {v : Value} (h : v.isFinal = false) : v.isReturned = false := by
  cases v <;> simp_all [Value.isFinal, Value.isReturned]

theorem Part.isReturned_last {role : Role} {part : Evaluation} (h : Part role part c) :
    part.task.last.isReturned = false := by
  rcases h.last_eq with hnull | ⟨-, -, -, -, -, hv⟩
  · rw [hnull]
    rfl
  · exact isReturned_of_isFinal hv

/-- What is left behind where no `return` is carried out inside an operand: no scope binds a value
on its way out, and one that is the result comes from a `return` outside the operands. -/
structure Tidy (c : Evaluation) : Prop where
  heap : c.run.2.Settled
  value : ∀ w, c.run.1 = .returned w →
    w.isReturned = false ∧ ∃ r, c.Contains r ∧ ∃ v heap, r.Returns v heap

/-- A tidy operand is not on its way out. -/
theorem KeepsReturns.operand (h : c.KeepsReturns)
    {part : Evaluation} (hpart : Part .operand part c) (htidy : part.Tidy) :
    part.run.1.isReturned = false := by
  cases hrun : part.run.1 with
  | returned w =>
    obtain ⟨-, r, hr, v, heap, hreturns⟩ := htidy.value w hrun
    exact absurd hreturns (h c part r v heap .refl hpart hr)
  | _ => rfl

theorem Uses.isReturned (hoperands : ∀ part, Part .operand part c → part.run.1.isReturned = false)
    (heap : Heap) (v : Value) (h : c.Uses heap v) : v.isReturned = false := by
  obtain ⟨part, hpart, rfl, -⟩ := h
  exact hoperands part hpart

/-- Where the parts are tidy, no value on its way out is met in between. -/
theorem Clean.inside (hclean : c.Clean) (hkeeps : c.KeepsReturns)
    (htidy : ∀ role part, Part role part c → part.heap.Settled → part.Tidy) :
    (∀ heap, c.Meets heap → heap.Settled) ∧
      (∀ part, Part .operand part c → part.run.1.isReturned = false) ∧
      ∀ role part, Part role part c → part.heap.Settled := by
  have hmeets : ∀ heap, c.Meets heap → heap.Settled := fun heap hheap =>
    hheap.holds hclean.heap fun role part hpart _ hsettled => (htidy role part hpart hsettled).heap
  have hoperands : ∀ part, Part .operand part c → part.run.1.isReturned = false :=
    fun part hpart =>
      hkeeps.operand hpart (htidy _ part hpart (hmeets _ (hpart.meets (by simp))))
  refine ⟨hmeets, hoperands, fun role part hpart => ?_⟩
  by_cases hrole : role = .body
  · subst hrole
    exact hpart.calls.holds (P := fun v => v.isReturned = false) rfl hmeets
      (Uses.isReturned hoperands)
  · exact hmeets _ (hpart.meets hrole)

/-- **Where no `return` is carried out inside an operand, none is seen anywhere.** -/
theorem Clean.tidy (c : Evaluation) : c.Clean → c.KeepsReturns → c.Tidy := by
  induction c using Evaluation.induction with
  | step c ih =>
    intro hclean hkeeps
    have htidy : ∀ role part, Part role part c → part.heap.Settled → part.Tidy :=
      fun role part hpart hheap =>
        ih role part hpart ⟨hheap, hpart.isReturned_last⟩ (hkeeps.part hpart)
    obtain ⟨hmeets, hoperands, hparts⟩ := hclean.inside hkeeps htidy
    have huses := Uses.isReturned hoperands
    refine ⟨holds_run rfl hmeets huses fun role part hpart hsettled =>
      (htidy role part hpart hsettled).heap, ?_⟩
    have hends := c.ends_run
    generalize c.run = result at hends
    intro w hw
    cases hends with
    | failed _ herror => simp [hw, Value.isError] at herror
    | @passed part hpart =>
      obtain ⟨hunwrapped, r, hr, hreturns⟩ := (htidy _ part hpart (hparts _ _ hpart)).value w hw
      exact ⟨hunwrapped, r, hpart.contains (by simp) hr, hreturns⟩
    | @called part hpart =>
      have hvalue := (htidy _ part hpart (hparts _ _ hpart)).value
      cases hrun : part.run.1 with
      | returned u =>
        -- only what has left two functions at once would still be on its way
        obtain rfl : u = .returned w := by simpa [hrun, Value.unwrap] using hw
        exact absurd (hvalue _ hrun).1 (by simp [Value.isReturned])
      | _ => simp [hrun, Value.unwrap] at hw
    | @made heap v hheap hmakes =>
      obtain rfl : v = .returned w := hw
      rcases hmakes.isPlain_or with hplain | ⟨name, hbound⟩ | htask
      · simp [isPlain] at hplain
      · exact absurd ((hmeets heap hheap).lookup? _ hbound) (by simp [Value.isReturned])
      · have hlast := hclean.last
        rw [htask] at hlast
        exact absurd hlast (by simp [Task.last, Value.isReturned])
    | set _ hv hor =>
      have hreturned := huses _ _ hv
      rcases hor with rfl | rfl
      · simp_all [Value.isReturned]
      · cases hw
    | function _ => cases hw
    | @returned v heap hreturns =>
      obtain rfl : v = w := Value.returned.inj hw
      obtain ⟨part, hpart, -, hrun⟩ := hreturns.part
      have hv := hoperands part hpart
      rw [hrun] at hv
      exact ⟨hv, c, .refl, v, heap, hreturns⟩

/-- Whatever is reached begins clean, if no `return` is carried out inside an operand. -/
theorem Clean.reaches (hclean : c.Clean) (hkeeps : c.KeepsReturns) {d : Evaluation}
    (h : c.Reaches d) : d.Clean ∧ d.KeepsReturns := by
  refine h.keeps (P := fun c => c.Clean ∧ c.KeepsReturns) ?_ ⟨hclean, hkeeps⟩
  rintro c role part hpart ⟨hclean, hkeeps⟩
  have hparts := (hclean.inside hkeeps fun role part hpart hheap =>
    Clean.tidy part ⟨hheap, hpart.isReturned_last⟩ (hkeeps.part hpart)).2.2
  exact ⟨⟨hparts role part hpart, hpart.isReturned_last⟩, hkeeps.part hpart⟩

/-- No operand of a clean evaluation is on its way out. -/
theorem Clean.operand (hclean : c.Clean) (hkeeps : c.KeepsReturns) {part : Evaluation}
    (hpart : Part .operand part c) : part.run.1.isReturned = false :=
  (hclean.inside hkeeps fun _ part hpart hheap =>
    Clean.tidy part ⟨hheap, hpart.isReturned_last⟩ (hkeeps.part hpart)).2.1 part hpart

end Evaluation

open Evaluation

/-! ### Programs -/

/-- Every `return` leaves the function or program it stands in, and its value is seen nowhere on
its way. -/
structure ReturnsUnwind (program : Program) (scope : ScopeId) (heap : Heap) : Prop where
  /-- No scope ever binds a value on its way out. -/
  binds : ∀ c, (program.evaluation scope heap).Reaches c → c.heap.Settled ∧ c.run.2.Settled
  /-- No value on its way out is an operand, a condition or an argument, or is called or bound. -/
  operands : ∀ c part, (program.evaluation scope heap).Reaches c → Part .operand part c →
    part.run.1.isReturned = false
  /-- The program does not end with a value on its way out. -/
  ends : ((evalProgram program scope).run heap).1.isReturned = false
  /-- A `return` outside of functions ends the program at once. -/
  root : ∀ r v h, (program.evaluation scope heap).Contains r → r.Returns v h →
    (evalProgram program scope).run heap = (v, h)
  /-- A `return` in a function ends its call at once. -/
  call : ∀ c body r v h, (program.evaluation scope heap).Reaches c → Part .body body c →
    body.Contains r → r.Returns v h → c.run = (v, h)

/-- **Returns unwind exactly if none is carried out inside an operand.** -/
theorem returnsUnwind_iff {program : Program} {scope : ScopeId} {heap : Heap}
    (hheap : heap.Settled) :
    ReturnsUnwind program scope heap ↔ (program.evaluation scope heap).KeepsReturns := by
  constructor
  · intro h d part r v heap' hd hpart hr hreturns
    -- the innermost operand around the `return` would be on its way out
    rcases hr.returns hreturns with hrun | ⟨e, operand, he, hoperand, hrun⟩
    · have hvalue := h.operands d part hd hpart
      simp [hrun, Value.isReturned] at hvalue
    · have hvalue := h.operands e operand (hd.trans (hpart.reaches he.reaches)) hoperand
      simp [hrun, Value.isReturned] at hvalue
  · intro hkeeps
    have hclean : (program.evaluation scope heap).Clean := ⟨hheap, rfl⟩
    have hoperands : ∀ c part, (program.evaluation scope heap).Reaches c → Part .operand part c →
        part.run.1.isReturned = false := by
      intro c part hc hpart
      obtain ⟨hcleans, hkept⟩ := hclean.reaches hkeeps hc
      exact hcleans.operand hkept hpart
    have hdecides : ∀ c r v h, (program.evaluation scope heap).Reaches c → c.Contains r →
        r.Returns v h → c.run = (.returned v, h) := by
      intro c r v h hc hr hreturns
      rcases hr.returns hreturns with hrun | ⟨d, operand, hd, hoperand, hrun⟩
      · exact hrun
      · have hvalue := hoperands d operand (hc.trans hd.reaches) hoperand
        simp [hrun, Value.isReturned] at hvalue
    refine ⟨fun c hc => ?_, hoperands, ?_, fun r v h hr hreturns => ?_, ?_⟩
    · obtain ⟨hcleans, hkept⟩ := hclean.reaches hkeeps hc
      exact ⟨hcleans.heap, (Clean.tidy c hcleans hkept).heap⟩
    · rw [run_evalProgram]
      have hvalue := (Clean.tidy _ hclean hkeeps).value
      cases hrun : (program.evaluation scope heap).run.1 with
      | returned w => exact (hvalue w hrun).1
      | _ => rfl
    · rw [run_evalProgram, hdecides _ r v h .refl hr hreturns]
      rfl
    · intro c body r v h hc hbody hr hreturns
      rw [hbody.run_body, hdecides body r v h (hc.trans (hbody.reaches .refl)) hr hreturns]
      rfl

/-- A heap with a function that returns from inside a conditional. -/
def returningHeap : Heap where
  scopes := #[{ bindings := [("f", .function
    ⟨["x"], [.expression (.ifThen (.identifier "x") [.return (.integer 5)])], 0, 0⟩)] }]
  functions := 1

theorem returnsUnwind_returningHeap :
    returningHeap.Settled ∧
      ReturnsUnwind [.expression (.call (.identifier "f") [.boolean true])] Heap.root
        returningHeap := by
  have hsettled : returningHeap.Settled := by
    unfold Heap.Settled Heap.Holds
    decide
  have hplaced : returningHeap.Holds fun v => v.isPlaced = true := by
    unfold Heap.Holds
    decide
  have hbegins : placed.Begins
      (Program.evaluation [.expression (.call (.identifier "f") [.boolean true])] Heap.root
        returningHeap) := ⟨hplaced, rfl, false, rfl⟩
  exact ⟨hsettled, (returnsUnwind_iff hsettled).mpr hbegins.keepsReturns⟩

/-- A `return` in the value of a declaration. -/
def declaredReturn : Program :=
  [.let "x" (.ifThen (.boolean true) [.return (.integer 5)]),
    .expression (.call (.identifier "type") [.identifier "x"])]

set_option maxRecDepth 10000 in
/-- The variable is bound to a value on its way out, and the program goes on. -/
theorem not_returnsUnwind_declaredReturn :
    parse "let x = if (true) { return 5 }; type(x)" = .ok declaredReturn ∧
      Heap.single.Settled ∧ ¬ ReturnsUnwind declaredReturn Heap.root Heap.single := by
  have hsettled : Heap.single.Settled := by
    unfold Heap.Settled Heap.Holds
    decide
  have hbound : ¬ (declaredReturn.evaluation Heap.root Heap.single).run.2.Settled := by
    unfold Heap.Settled Heap.Holds
    decide +kernel
  exact ⟨rfl, hsettled, fun h => hbound (h.binds _ .refl).2⟩

end NovelScript.Expr
