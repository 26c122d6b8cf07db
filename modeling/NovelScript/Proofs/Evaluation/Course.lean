import NovelScript.Proofs.Evaluation.Ends

/-!
The order of time. The parts of an evaluation are listed in the order in which they are evaluated,
and from them the heaps at hand wherever something begins or ends. Main statement: the list has
all the parts, and nothing else.
-/

namespace NovelScript.Expr.Evaluation

variable {c part : Evaluation}

/-! ### The parts in the order of time -/

/-- An operand, and what is evaluated behind it unless it fails. -/
def andParts (first : Evaluation) (rest : Value → Heap → List Evaluation) : List Evaluation :=
  first :: if first.run.1.isError then [] else rest first.run.1 first.run.2

/-- The body of the function that is called, if it comes to that. -/
def bodyParts : (depth : Nat) → Value → Except Value (List Value) × Heap → List Evaluation
  | n + 1, .function f, (.ok values, heap) =>
    [⟨n, heap.scopes.size, heap.enter f values, .statements .null f.body⟩]
  | _, _, _ => []

/-- The parts of an evaluation, in the order in which they are evaluated. -/
def parts : Evaluation → List Evaluation
  | ⟨n, s, h, .expression e⟩ =>
    let operand (e : Expression) (h : Heap) : Evaluation := ⟨n, s, h, .expression e⟩
    match e with
    | .unary _ e | .assign _ e => [operand e h]
    | .binary _ l r => (operand l h).andParts fun _ h => [operand r h]
    | .ifThen condition body =>
      (operand condition h).andParts fun v h =>
        if v.isTruthy then [⟨n, s, h, .statements .null body⟩] else []
    | .ifThenElse condition body other =>
      (operand condition h).andParts fun v h =>
        [⟨n, s, h, .statements .null (if v.isTruthy then body else other)⟩]
    | .call f es =>
      (operand f h).andParts fun v h =>
        argumentParts n s es h ++ bodyParts n v (arguments n s es h)
    | _ => []
  | ⟨n, s, h, .statement st⟩ =>
    match st with
    | .let _ e | .return e | .expression e => [⟨n, s, h, .expression e⟩]
    | .block body => [⟨n, s, h, .statements .null body⟩]
  | ⟨_, _, _, .statements _ []⟩ => []
  | ⟨n, s, h, .statements _ (first :: rest)⟩ =>
    let first : Evaluation := ⟨n, s, h, .statement first⟩
    first :: if first.run.1.isFinal then [] else [⟨n, s, first.run.2, .statements first.run.1 rest⟩]

theorem mem_andParts {first : Evaluation} {rest : Value → Heap → List Evaluation} :
    part ∈ first.andParts rest ↔
      part = first ∨ first.run.1.isError = false ∧ part ∈ rest first.run.1 first.run.2 := by
  unfold andParts
  cases h : first.run.1.isError <;> simp

theorem mem_bodyParts {n : Nat} {v : Value} {answer : Except Value (List Value) × Heap}
    (h : part ∈ bodyParts n v answer) : ∃ m f values heap, n = m + 1 ∧ v = .function f ∧
      answer = (.ok values, heap) ∧
      part = ⟨m, heap.scopes.size, heap.enter f values, .statements .null f.body⟩ := by
  unfold bodyParts at h
  split at h
  · exact ⟨_, _, _, _, rfl, rfl, rfl, List.mem_singleton.mp h⟩
  · simp at h

/-- **The list has all the parts, and nothing else.** -/
theorem mem_parts : part ∈ c.parts ↔ ∃ role, Part role part c := by
  constructor
  · intro hmem
    obtain ⟨n, s, h, task⟩ := c
    cases task with
    | expression e =>
      cases e with
      | unary op e =>
        obtain rfl := List.mem_singleton.mp hmem
        exact ⟨_, .unary⟩
      | assign name e =>
        obtain rfl := List.mem_singleton.mp hmem
        exact ⟨_, .assign⟩
      | binary op l r =>
        simp only [parts, mem_andParts, List.mem_singleton] at hmem
        rcases hmem with rfl | ⟨hv, rfl⟩
        · exact ⟨_, .left⟩
        · exact ⟨_, .right rfl hv⟩
      | ifThen condition body =>
        simp only [parts, mem_andParts] at hmem
        rcases hmem with rfl | ⟨hv, hmem⟩
        · exact ⟨_, .onlyCondition⟩
        · split at hmem
          · obtain rfl := List.mem_singleton.mp hmem
            exact ⟨_, .onlyBranch rfl hv ‹_›⟩
          · simp at hmem
      | ifThenElse condition body other =>
        simp only [parts, mem_andParts, List.mem_singleton] at hmem
        rcases hmem with rfl | ⟨hv, rfl⟩
        · exact ⟨_, .condition⟩
        · exact ⟨_, .branch rfl hv⟩
      | call f es =>
        simp only [parts, mem_andParts, List.mem_append] at hmem
        rcases hmem with rfl | ⟨hv, hargument | hbody⟩
        · exact ⟨_, .callee⟩
        · exact ⟨_, .argument rfl hv hargument⟩
        · obtain ⟨m, g, values, heap, rfl, hg, hanswer, rfl⟩ := mem_bodyParts hbody
          exact ⟨_, .body (Prod.ext hg rfl) hanswer⟩
      | _ => simp [parts] at hmem
    | statement st =>
      cases st with
      | «let» name e =>
        obtain rfl := List.mem_singleton.mp hmem
        exact ⟨_, .let⟩
      | «return» e =>
        obtain rfl := List.mem_singleton.mp hmem
        exact ⟨_, .return⟩
      | expression e =>
        obtain rfl := List.mem_singleton.mp hmem
        exact ⟨_, .expression⟩
      | block body =>
        obtain rfl := List.mem_singleton.mp hmem
        exact ⟨_, .block⟩
    | statements last body =>
      cases body with
      | nil => simp [parts] at hmem
      | cons first rest =>
        rcases List.mem_cons.mp hmem with rfl | hmem
        · exact ⟨_, .first⟩
        · split at hmem
          · simp at hmem
          · rename_i hv
            obtain rfl := List.mem_singleton.mp hmem
            exact ⟨_, .rest rfl (by simpa using hv)⟩
  · rintro ⟨role, hpart⟩
    cases hpart with
    | body hf hes => simp [parts, mem_andParts, hf, hes, bodyParts, Value.isError]
    | _ => simp_all [parts, mem_andParts]

/-! ### The course of an evaluation -/

/-- The heaps at hand where something that is evaluated begins or ends, in the order of time. -/
def course (c : Evaluation) : List Heap :=
  c.heap :: (c.parts.attach.flatMap fun ⟨part, _⟩ => part.course) ++ [c.run.2]
termination_by (c.depth, c.task.size)
decreasing_by exact (mem_parts.mp ‹_›).choose_spec.lex

theorem course_eq (c : Evaluation) : c.course = c.heap :: c.parts.flatMap course ++ [c.run.2] := by
  rw [course]
  simp

/-- The heaps in the course of an evaluation are those on which something begins or ends. -/
theorem exists_reaches_of_mem_course {heap : Heap} (c : Evaluation) (h : heap ∈ c.course) :
    ∃ d, c.Reaches d ∧ (heap = d.heap ∨ heap = d.run.2) := by
  induction c using Evaluation.induction with
  | step c ih =>
    rw [course_eq] at h
    simp only [List.cons_append, List.mem_cons, List.mem_append, List.mem_flatMap,
      List.not_mem_nil, or_false] at h
    rcases h with hfirst | ⟨part, hmem, hinside⟩ | hlast
    · exact ⟨c, .refl, .inl hfirst⟩
    · obtain ⟨role, hpart⟩ := mem_parts.mp hmem
      obtain ⟨d, hd, hheap⟩ := ih role part hpart hinside
      exact ⟨d, hpart.reaches hd, hheap⟩
    · exact ⟨c, .refl, .inr hlast⟩

end NovelScript.Expr.Evaluation
