import NovelScript.Proofs.Evaluation.Invariant
import NovelScript.Proofs.Evaluation.Stored

/-!
Scopes that lie in each other. A heap grows by scopes that a host makes and by evaluations; on it
every scope lies in one made earlier, since the function that a call enters saw a scope there was.
Main statement: an evaluation and a call write to no scope but their own, and looking up a name
from one scope to the next comes to an end.
-/

namespace NovelScript.Expr

/-- The scopes that the functions in a value see are there. -/
def Value.LivesOn (heap : Heap) : Value → Prop
  | function f => f.scope < heap.scopes.size
  | returned v => v.LivesOn heap
  | _ => True

theorem Value.LivesOn.mono {heap heap' : Heap} (hsize : heap.scopes.size ≤ heap'.scopes.size) :
    ∀ {v : Value}, v.LivesOn heap → v.LivesOn heap'
  | .function _, h => Nat.lt_of_lt_of_le h hsize
  | .returned v, h => Value.LivesOn.mono (v := v) hsize h
  | .integer _, _ | .double _, _ | .string _, _ | .boolean _, _ | .null, _ | .error _, _
  | .builtin _, _ => trivial

theorem Value.livesOn_of_isPlain {v : Value} (h : Evaluation.isPlain v = true) (heap : Heap) :
    v.LivesOn heap := by
  cases v <;> simp_all [Evaluation.isPlain, Value.LivesOn]

namespace Heap

variable {heap heap' : Heap}

/-! ### Heaps on which every scope lies in an earlier one -/

/-- Every scope lies in one made earlier, and the functions it binds see scopes there are. -/
structure WellFormed (heap : Heap) : Prop where
  outer : ∀ s o, heap.outer s = some o → o < s
  holds : heap.Holds fun v => v.LivesOn heap

theorem Holds.mono {P Q : Value → Prop} (h : heap.Holds P) (hpq : ∀ v, P v → Q v) :
    heap.Holds Q := fun scope hscope b hb => hpq b.2 (h scope hscope b hb)

theorem wellFormed_single : single.WellFormed := by
  refine ⟨fun s o h => ?_, fun scope hscope b hb => ?_⟩
  · simp only [outer, single] at h
    cases s <;> simp at h
  · obtain rfl : scope = {} := by simpa [single] using hscope
    simp at hb

theorem WellFormed.set (h : heap.WellFormed) {v : Value} (hv : v.LivesOn heap) (name : String)
    (s : ScopeId) : (heap.set name v s).WellFormed where
  outer s' o ho := h.outer s' o (by rwa [outer_set] at ho)
  holds := (h.holds.set hv name s).mono fun _ => Value.LivesOn.mono (by simp)

theorem WellFormed.push (h : heap.WellFormed) {around : Option ScopeId}
    (haround : ∀ o, around = some o → o < heap.scopes.size) :
    WellFormed { heap with scopes := heap.scopes.push { outer := around } } where
  outer s o ho := by
    unfold Heap.outer at ho
    rw [Array.getElem?_push] at ho
    split at ho
    · rename_i heq
      subst heq
      exact haround o ho
    · exact h.outer s o ho
  holds := by
    intro scope hscope b hb
    rcases Array.mem_push.mp hscope with hold | rfl
    · exact (h.holds scope hold b hb).mono (by simp)
    · simp at hb

theorem size_enter (f : Closure) (arguments : List Value) (heap : Heap) :
    (heap.enter f arguments).scopes.size = heap.scopes.size + 1 := by
  have hstart : (heap.enclose f.scope).2.scopes.size = heap.scopes.size + 1 := by simp [enclose]
  exact bindAll_induction (R := fun h => h.scopes.size = heap.scopes.size + 1) f.parameters
    (fun h name v hsize _ => (size_set ..).trans hsize) hstart

theorem WellFormed.enter (h : heap.WellFormed) {f : Closure} (hf : f.scope < heap.scopes.size)
    {arguments : List Value} (hargs : ∀ v ∈ arguments, v.LivesOn heap) :
    (heap.enter f arguments).WellFormed := by
  have hpush : (heap.enclose f.scope).2.WellFormed := h.push fun o ho => by
    obtain rfl := Option.some.inj ho
    exact hf
  have hgrown : heap.scopes.size ≤ (heap.enclose f.scope).2.scopes.size := by simp [enclose]
  refine (bindAll_induction (R := fun h => h.WellFormed ∧ heap.scopes.size ≤ h.scopes.size)
    f.parameters (fun h name v hh hv => ?_) ⟨hpush, hgrown⟩).1
  refine ⟨hh.1.set ?_ name _, by simpa using hh.2⟩
  rcases hv with rfl | hmem
  · trivial
  · exact (hargs v hmem).mono hh.2

end Heap

/-- Evaluations in scopes that there are keep heaps so. -/
def Evaluation.wellScoped : Invariant where
  heap := Heap.WellFormed
  value heap v := v.LivesOn heap
  task c := c.scope < c.heap.scopes.size
  mono hsize hv := Value.LivesOn.mono hsize hv
  plain hplain := Value.livesOn_of_isPlain hplain _
  unwrap hv := hv
  returned _ _ hv := hv
  lookup? _ hheap hv := hheap.holds.lookup? _ hv
  set hheap hv name s := hheap.set hv name s
  enter hheap hf hvalues := hheap.enter hf hvalues
  part := by
    intro role c part hpart hrole hscope
    rw [hpart.scope_eq hrole]
    exact Nat.lt_of_lt_of_le hscope (hpart.meets hrole).size
  body := by
    intro n heap f values _ _
    show heap.scopes.size < (heap.enter f values).scopes.size
    rw [Heap.size_enter]
    exact Nat.lt_succ_self _
  function := by
    intro c parameters body _ hscope hheap
    have hholds := hheap.holds.mono fun v (hv : v.LivesOn c.heap) =>
      Value.LivesOn.mono (v := v) (Heap.Frame.makeFunction parameters body c.scope c.heap).size hv
    exact ⟨⟨hheap.outer, hholds⟩, hscope⟩

namespace Heap

/-! ### Heaps that can come to be -/

/-- A heap that hosts and evaluations have made from nothing. -/
inductive Reachable : Heap → Prop
  | single : Reachable .single
  /-- A host makes a scope with nothing around it. -/
  | alone {heap} : Reachable heap → Reachable { heap with scopes := heap.scopes.push {} }
  /-- A host makes a scope in another one. -/
  | enclose {heap s} : Reachable heap → s < heap.scopes.size → Reachable (heap.enclose s).2
  /-- A host binds a name to a value that there is. -/
  | set {heap v} (name : String) (s : ScopeId) : Reachable heap → v.LivesOn heap →
    Reachable (heap.set name v s)
  /-- Something is evaluated in one of the scopes. -/
  | run {c : Evaluation} : Reachable c.heap → c.scope < c.heap.scopes.size →
    c.task.last.LivesOn c.heap → Reachable c.run.2

theorem Reachable.wellFormed {heap : Heap} (h : heap.Reachable) : heap.WellFormed := by
  induction h with
  | single => exact wellFormed_single
  | alone _ ih => exact ih.push (by simp)
  | enclose _ hs ih =>
    exact ih.push fun o ho => by
      obtain rfl := Option.some.inj ho
      exact hs
  | set name s _ hv ih => exact ih.set hv name s
  | @run c _ hs hlast ih =>
    have hbegins : Evaluation.wellScoped.Begins c := ⟨ih, hlast, hs⟩
    exact (Evaluation.Invariant.Begins.leaves c hbegins).heap

/-- The walk from one scope to the next around it in search of a name, and what it finds. -/
inductive Finds (heap : Heap) (name : String) : ScopeId → Option Value → Prop
  | here {s v} : s < heap.scopes.size → (heap.bindings s).get? name = some v → Finds heap name s (some v)
  | around {s o found} : s < heap.scopes.size → (heap.bindings s).get? name = none →
    heap.outer s = some o → Finds heap name o found → Finds heap name s found
  | nowhere {s} : s < heap.scopes.size → (heap.bindings s).get? name = none →
    heap.outer s = none → Finds heap name s none

/-- **The walk comes to an end**, with what the lookup gives. -/
theorem finds_lookup? {heap : Heap} (h : ∀ s o, heap.outer s = some o → o < s) (name : String) :
    ∀ s : ScopeId, s < heap.scopes.size → heap.Finds name s (heap.lookup? name s) := by
  intro s
  induction s using Nat.strongRecOn with
  | ind s ih =>
    intro hs
    have hget := Array.getElem?_eq_getElem hs
    have hbindings : heap.bindings s = heap.scopes[s].bindings := by simp [bindings, hget]
    have houter : heap.outer s = heap.scopes[s].outer := by simp [outer, hget]
    rw [lookup?, hget]
    simp only
    cases hv : heap.scopes[s].bindings.get? name with
    | some v => exact .here hs (by rw [hbindings, hv])
    | none =>
      cases ho : heap.scopes[s].outer with
      | none => exact .nowhere hs (by rw [hbindings, hv]) (by rw [houter, ho])
      | some o =>
        have hlt := h s o (by rw [houter, ho])
        simp only [if_pos hlt]
        exact .around hs (by rw [hbindings, hv]) (by rw [houter, ho])
          (ih o hlt (Nat.lt_trans hlt hs))

end Heap

/-- **Evaluation writes to its own scope only.** No scope that was there before gets other
bindings, the one of the evaluation aside, or another scope around it; a call changes none of
them; and on every heap that can come to be, the walk through the scopes in search of a name ends. -/
theorem evaluation_writes_own_scope :
    (∀ (depth : Nat) (scope : ScopeId) (heap : Heap),
      (∀ e : Expression, heap.Frame scope ((e.eval (callWithin depth) scope).run heap).2) ∧
      (∀ st : Statement, heap.Frame scope ((st.eval (callWithin depth) scope).run heap).2) ∧
      (∀ (last : Value) (body : Block),
        heap.Frame scope ((evalStatements (callWithin depth) scope last body).run heap).2) ∧
      (∀ program : Program, heap.Frame scope ((evalProgram program scope).run heap).2) ∧
      ∀ (callee : Value) (arguments : List Value), ∀ s < heap.scopes.size,
        ((applyValue (callWithin depth) callee arguments).run heap).2.scopes[s]? =
          heap.scopes[s]?) ∧
    ∀ heap : Heap, heap.Reachable →
      (∀ s o, heap.outer s = some o → o < s) ∧
      ∀ (name : String) (s : ScopeId), s < heap.scopes.size →
        heap.Finds name s (heap.lookup? name s) := by
  refine ⟨fun depth scope heap => ⟨?_, ?_, ?_, ?_, ?_⟩, fun heap h => ?_⟩
  · exact fun e => Evaluation.frame_run ⟨depth, scope, heap, .expression e⟩
  · exact fun st => Evaluation.frame_run ⟨depth, scope, heap, .statement st⟩
  · exact fun last body => Evaluation.frame_run ⟨depth, scope, heap, .statements last body⟩
  · exact fun program => Evaluation.frame_run ⟨maxCallDepth, scope, heap, .statements .null program⟩
  · exact fun callee arguments s hs => (frame_applyValue depth callee arguments heap).getElem?_eq hs
  · exact ⟨h.wellFormed.outer, fun name s hs => Heap.finds_lookup? h.wellFormed.outer name s hs⟩

/-- A function makes another one, which sees the scope of the call. -/
def closureProgram : Program :=
  [.let "f" (.function ["x"] [.expression (.function ["y"] [.expression (.identifier "x")])]),
    .let "g" (.call (.identifier "f") [.integer 1]),
    .expression (.call (.identifier "g") [.integer 2])]

/-- The heap that the program leaves behind. -/
def closureHeap : Heap := ((evalProgram closureProgram Heap.root).run Heap.single).2

theorem finds_closureHeap :
    closureHeap.Reachable ∧ 2 < closureHeap.scopes.size ∧
      (∀ s o, closureHeap.outer s = some o → o < s) ∧
      closureHeap.Finds "x" 2 (closureHeap.lookup? "x" 2) := by
  have hreachable : closureHeap.Reachable :=
    .run (c := ⟨maxCallDepth, Heap.root, Heap.single, .statements .null closureProgram⟩) .single
      (by decide) trivial
  have hsize : 2 < closureHeap.scopes.size := by decide +kernel
  have hscopes := evaluation_writes_own_scope.2 closureHeap hreachable
  exact ⟨hreachable, hsize, hscopes.1, hscopes.2 "x" 2 hsize⟩

end NovelScript.Expr
