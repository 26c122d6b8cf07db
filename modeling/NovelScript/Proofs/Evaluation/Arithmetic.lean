import Mathlib.Data.Int.ModEq
import NovelScript.Proofs.Evaluation.Returns

/-!
Integer arithmetic. Negations, sums, differences and products of integers have an exact value, a
whole number of any size. Main statement: such an expression comes to the one integer of 32 bits
that is congruent to its exact value, however large the values on the way are.
-/

namespace NovelScript.Expr

variable {heap : Heap} {scope : ScopeId} {e : Expression} {z : Int}

/-! ### Exact values -/

/-- What an operator does to whole numbers of any size. A division does not keep congruence, so it
is none of them. -/
def BinaryOp.exact? : BinaryOp → Option (Int → Int → Int)
  | add => some (· + ·)
  | subtract => some (· - ·)
  | multiply => some (· * ·)
  | _ => none

/-- The integer that a name is bound to, as seen from a scope. -/
def Heap.integer? (heap : Heap) (scope : ScopeId) (name : String) : Option Int32 :=
  match heap.lookup? name scope with
  | some (.integer n) => some n
  | _ => none

/-- An expression of literals and names of integers, negations, sums, differences and products, and
its exact value. -/
inductive Exact (integer? : String → Option Int32) : Expression → Int → Prop
  | integer (n : Int32) : Exact integer? (.integer n) n.toInt
  | identifier {name : String} {n : Int32} (h : integer? name = some n) :
      Exact integer? (.identifier name) n.toInt
  | negate {e : Expression} {z : Int} (h : Exact integer? e z) :
      Exact integer? (.unary .negate e) (-z)
  | binary {op : BinaryOp} {f : Int → Int → Int} {l r : Expression} {y z : Int}
      (hop : op.exact? = some f) (hl : Exact integer? l y) (hr : Exact integer? r z) :
      Exact integer? (.binary op l r) (f y z)

/-! ### Wrapping around -/

/-- `n` is the whole number of 32 bits with a sign that is congruent to `z`. -/
structure WrapsTo (z n : Int) : Prop where
  low : -2147483648 ≤ n
  high : n < 2147483648
  modEq : n ≡ z [ZMOD 4294967296]

theorem wrapsTo_iff {n : Int} : WrapsTo z n ↔ n = (Int32.ofInt z).toInt := by
  have hwrap : (Int32.ofInt z).toInt = z.bmod 4294967296 := Int32.toInt_ofInt
  have hlow := (Int32.ofInt z).le_toInt
  have hhigh := (Int32.ofInt z).toInt_lt
  have hmod : (Int32.ofInt z).toInt ≡ z [ZMOD 4294967296] := by
    rw [hwrap]
    exact Int.bmod_emod
  constructor
  · rintro ⟨hlow', hhigh', hmod'⟩
    have hsame := hmod'.trans hmod.symm
    simp only [Int.ModEq] at hsame
    omega
  · rintro rfl
    exact ⟨by omega, by omega, hmod⟩

/-- Negation respects wrapping around, also at the least integer. -/
theorem UnaryOp.apply_negate_ofInt (z : Int) :
    UnaryOp.negate.apply (.integer (.ofInt z)) = .integer (.ofInt (-z)) := by
  rw [UnaryOp.apply, Int32.ofInt_neg]

/-- The operators respect wrapping around. -/
theorem BinaryOp.apply_ofInt {op : BinaryOp} {f : Int → Int → Int} (h : op.exact? = some f)
    (y z : Int) :
    op.apply (.integer (.ofInt y)) (.integer (.ofInt z)) = .integer (.ofInt (f y z)) := by
  cases op with
  | add =>
    obtain rfl := Option.some.inj h
    exact congrArg Value.integer (Int32.ofInt_add y z).symm
  | subtract =>
    obtain rfl := Option.some.inj h
    exact congrArg Value.integer (Int32.ofInt_sub y z).symm
  | multiply =>
    obtain rfl := Option.some.inj h
    exact congrArg Value.integer (Int32.ofInt_mul y z).symm
  | _ => cases h

/-! ### Evaluation -/

theorem Heap.lookup?_of_integer? {name : String} {n : Int32}
    (h : heap.integer? scope name = some n) : heap.lookup? name scope = some (.integer n) := by
  unfold Heap.integer? at h
  split at h
  · rename_i hbound
    rw [hbound, Option.some.inj h]
  · cases h

/-- The exact value wraps around once, however often the values on the way do. -/
theorem Exact.run (h : Exact (heap.integer? scope) e z) (depth : Nat) :
    Evaluation.run ⟨depth, scope, heap, .expression e⟩ = (.integer (.ofInt z), heap) := by
  induction h with
  | integer n =>
    rw [Int32.ofInt_toInt]
    rfl
  | identifier hbound =>
    rw [Evaluation.run_identifier, Heap.lookup?_of_integer? hbound, Int32.ofInt_toInt]
    rfl
  | negate _ ih =>
    rw [Evaluation.run_unary, Evaluation.andThen_of_run ih rfl, UnaryOp.apply_negate_ofInt]
  | binary hop _ _ ihl ihr =>
    rw [Evaluation.run_binary, Evaluation.andThen_of_run ihl rfl,
      Evaluation.andThen_of_run ihr rfl, BinaryOp.apply_ofInt hop]

/-- **Integer arithmetic is arithmetic modulo `2 ^ 32`.** An expression of integers, negations,
sums, differences and products comes to an integer, at any depth of calls and as a program of its
own, and leaves the heap as it is: it is the one integer of 32 bits that is congruent to the exact
value of the expression. -/
theorem arithmetic_wraps (h : Exact (heap.integer? scope) e z) :
    ∃ n : Int32, (∀ m : Int, WrapsTo z m ↔ m = n.toInt) ∧
      (∀ depth, Evaluation.run ⟨depth, scope, heap, .expression e⟩ = (.integer n, heap)) ∧
      (evalProgram [.expression e] scope).run heap = (.integer n, heap) := by
  refine ⟨.ofInt z, fun m => wrapsTo_iff, h.run, ?_⟩
  rw [run_evalProgram, run_expression_evaluation, h.run]
  rfl

/-- Three times the negation of the name `least`, less one. -/
def pastLeast : Expression :=
  .binary .subtract (.binary .multiply (.unary .negate (.identifier "least")) (.integer 3))
    (.integer 1)

/-- The negation of the least integer wraps around, and so do the product and the difference. -/
theorem arithmetic_wraps_pastLeast :
    let heap := Heap.single.set "least" (.integer (-2147483648)) Heap.root
    Exact (heap.integer? Heap.root) pastLeast 6442450943 ∧
      (evalProgram [.expression pastLeast] Heap.root).run heap =
        (.integer 2147483647, heap) := by
  intro heap
  have hbound : heap.integer? Heap.root "least" = some (-2147483648) := by
    rw [Heap.integer?, Heap.lookup?]
    rfl
  have hsubtract : BinaryOp.subtract.exact? = some (· - ·) := rfl
  have hmultiply : BinaryOp.multiply.exact? = some (· * ·) := rfl
  have hexact : Exact (heap.integer? Heap.root) pastLeast 6442450943 :=
    .binary hsubtract (.binary hmultiply (.negate (.identifier hbound)) (.integer 3)) (.integer 1)
  obtain ⟨n, hunique, -, hrun⟩ := arithmetic_wraps hexact
  have hn : n = 2147483647 := by
    refine Int32.toInt_inj.mp ((hunique 2147483647).mp ⟨?_, ?_, ?_⟩).symm
    · decide
    · decide
    · decide
  exact ⟨hexact, hn ▸ hrun⟩

end NovelScript.Expr
