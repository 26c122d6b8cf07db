import NovelScript.Proofs.Evaluation.Invariant
import NovelScript.Proofs.Evaluation.Stored

/-!
Where `return`s stand in a text. A text can keep them out of operands, those of its functions
included; its evaluation then makes no function that does not, however deep the calls. Main
statement: if no `return` stands in an operand, none is carried out in one.
-/

namespace NovelScript.Expr

/-! ### Texts without a `return` in an operand -/

mutual

/-- No `return` stands in an operand of the expression, nor elsewhere in it, functions aside, if it
is an operand itself. -/
def Expression.isPlaced (operand : Bool) : Expression → Bool
  | .identifier _ | .integer _ | .double _ | .string _ | .boolean _ => true
  | .unary _ e | .assign _ e => e.isPlaced true
  | .binary _ left right => left.isPlaced true && right.isPlaced true
  | .ifThen condition consequence => condition.isPlaced true && blockIsPlaced operand consequence
  | .ifThenElse condition consequence alternative =>
    condition.isPlaced true && blockIsPlaced operand consequence &&
      blockIsPlaced operand alternative
  | .function _ body => blockIsPlaced false body
  | .call callee arguments => callee.isPlaced true && argumentsArePlaced arguments

/-- No `return` stands in an operand of the statement, nor is it one inside an operand. -/
def Statement.isPlaced (operand : Bool) : Statement → Bool
  | .let _ value => value.isPlaced true
  | .return value => !operand && value.isPlaced true
  | .expression value => value.isPlaced operand
  | .block body => blockIsPlaced operand body

/-- The statements have no `return` in an operand. -/
def blockIsPlaced (operand : Bool) : List Statement → Bool
  | [] => true
  | first :: rest => first.isPlaced operand && blockIsPlaced operand rest

/-- The arguments, operands all of them, have no `return`. -/
def argumentsArePlaced : List Expression → Bool
  | [] => true
  | first :: rest => first.isPlaced true && argumentsArePlaced rest

end

theorem isPlaced_of_mem {e : Expression} : ∀ {es : List Expression},
    argumentsArePlaced es = true → e ∈ es → e.isPlaced true = true
  | first :: rest, h, hmem => by
    obtain ⟨hfirst, hrest⟩ := Bool.and_eq_true_iff.mp h
    rcases List.mem_cons.mp hmem with rfl | hmem
    · exact hfirst
    · exact isPlaced_of_mem hrest hmem

/-- What is to be evaluated has no `return` in an operand. -/
def Task.isPlaced (operand : Bool) : Task → Bool
  | expression e => e.isPlaced operand
  | statement s => s.isPlaced operand
  | statements _ body => blockIsPlaced operand body

/-- The functions in a value have no `return` in an operand. -/
def Value.isPlaced : Value → Bool
  | function f => blockIsPlaced false f.body
  | returned v => v.isPlaced
  | _ => true

theorem Value.isPlaced_of_isPlain {v : Value} (h : Evaluation.isPlain v = true) :
    v.isPlaced = true := by
  cases v <;> simp_all [Evaluation.isPlain, Value.isPlaced]

namespace Evaluation

variable {c : Evaluation} {operand : Bool}

/-! ### Parts of such texts -/

/-- An operand has no `return` in it. -/
theorem Part.isPlaced_operand {part : Evaluation} (h : Part .operand part c)
    (hc : c.task.isPlaced operand = true) : part.task.isPlaced true = true := by
  cases h with
  | argument _ _ hmem =>
    obtain ⟨e, h', he, rfl⟩ := mem_argumentParts hmem
    exact isPlaced_of_mem (Bool.and_eq_true_iff.mp hc).2 he
  | unary | assign | «let» => exact hc
  | left | onlyCondition | callee => exact (Bool.and_eq_true_iff.mp hc).1
  | right | «return» => exact (Bool.and_eq_true_iff.mp hc).2
  | condition => exact (Bool.and_eq_true_iff.mp (Bool.and_eq_true_iff.mp hc).1).1

/-- What stands in the place of the whole is as much an operand as the whole. -/
theorem Part.isPlaced_tail {part : Evaluation} (h : Part .tail part c)
    (hc : c.task.isPlaced operand = true) : part.task.isPlaced operand = true := by
  cases h with
  | expression | block => exact hc
  | first => exact (Bool.and_eq_true_iff.mp hc).1
  | onlyBranch | rest => exact (Bool.and_eq_true_iff.mp hc).2
  | branch =>
    obtain ⟨hboth, hother⟩ := Bool.and_eq_true_iff.mp hc
    show blockIsPlaced operand _ = true
    split
    · exact (Bool.and_eq_true_iff.mp hboth).2
    · exact hother

/-- Inside an operand there is no `return` to carry out. -/
theorem Contains.not_returns {r : Evaluation} (h : c.Contains r)
    (hc : c.task.isPlaced true = true) (v : Value) (heap : Heap) : ¬ r.Returns v heap := by
  induction h using Relation.ReflTransGen.head_induction_on with
  | refl =>
    rintro ⟨e, htask, -⟩
    rw [htask] at hc
    simp [Task.isPlaced, Statement.isPlaced] at hc
  | head hstep _ ih =>
    obtain ⟨role, hrole, hpart⟩ := hstep
    cases role with
    | operand => exact ih (hpart.isPlaced_operand hc)
    | tail => exact ih (hpart.isPlaced_tail hc)
    | body => exact absurd rfl hrole

/-! ### Evaluating such texts -/

/-- Functions without a `return` in an operand make no others. -/
def placed : Invariant where
  heap heap := heap.Holds fun v => v.isPlaced = true
  value _ v := v.isPlaced = true
  task c := ∃ operand, c.task.isPlaced operand = true
  mono _ hv := hv
  plain := Value.isPlaced_of_isPlain
  unwrap hv := hv
  returned _ _ hv := hv
  lookup? _ hheap hv := hheap.lookup? _ hv
  set hheap hv name s := hheap.set hv name s
  enter hheap _ hvalues := hheap.enter (P := fun v => v.isPlaced = true) rfl _ hvalues
  part := by
    rintro role c part hpart hrole ⟨operand, hc⟩
    cases role with
    | operand => exact ⟨true, hpart.isPlaced_operand hc⟩
    | tail => exact ⟨operand, hpart.isPlaced_tail hc⟩
    | body => exact absurd rfl hrole
  body _ hf := ⟨false, hf⟩
  function := by
    rintro c parameters body htask ⟨operand, hc⟩ hheap
    rw [htask] at hc
    exact ⟨hheap, hc⟩

/-- No `return` is carried out inside an operand. -/
def KeepsReturns (c : Evaluation) : Prop :=
  ∀ d part r v heap, c.Reaches d → Part .operand part d → part.Contains r → ¬ r.Returns v heap

theorem KeepsReturns.part (h : c.KeepsReturns) {role : Role} {part : Evaluation}
    (hpart : Part role part c) : part.KeepsReturns :=
  fun d operand r v heap hd => h d operand r v heap (hpart.reaches hd)

/-- **If no `return` stands in an operand, none is carried out in one.** -/
theorem Invariant.Begins.keepsReturns (hc : placed.Begins c) : c.KeepsReturns := by
  intro d part r v heap hd hpart hr
  obtain ⟨operand, htask⟩ : ∃ operand, d.task.isPlaced operand = true := (hc.reaches hd).task
  exact hr.not_returns (hpart.isPlaced_operand htask) v heap

end Evaluation
end NovelScript.Expr
