import NovelScript.Proofs.Evaluation.Ends

/-!
What an evaluation leaves alone. It binds names in its own scope only; a call binds names in a
scope that it has made itself, so that no earlier scope is changed by it. Main statements: of the
scopes there were before an evaluation, all but its own have the same bindings behind it, and all
have the same scope around them.
-/

namespace NovelScript.Expr

namespace Heap

/-- The scope around a scope. -/
def outer (heap : Heap) (s : ScopeId) : Option ScopeId := heap.scopes[s]?.bind Scope.outer

/-- Of the scopes there were, none but `own` has other bindings, and none has another scope around
it. -/
structure Frame (own : ScopeId) (before after : Heap) : Prop where
  size : before.scopes.size ≤ after.scopes.size
  outer : ∀ s < before.scopes.size, after.outer s = before.outer s
  bindings : ∀ s < before.scopes.size, s ≠ own → after.bindings s = before.bindings s

variable {own : ScopeId} {before between after heap : Heap}

theorem Frame.refl (own : ScopeId) (heap : Heap) : heap.Frame own heap :=
  ⟨Nat.le_refl _, fun _ _ => rfl, fun _ _ _ => rfl⟩

theorem Frame.trans (h : before.Frame own between) (h' : between.Frame own after) :
    before.Frame own after where
  size := Nat.le_trans h.size h'.size
  outer s hs := (h'.outer s (Nat.lt_of_lt_of_le hs h.size)).trans (h.outer s hs)
  bindings s hs hne :=
    (h'.bindings s (Nat.lt_of_lt_of_le hs h.size) hne).trans (h.bindings s hs hne)

theorem getElem?_set (name : String) (v : Value) (own s : ScopeId) (heap : Heap) :
    (heap.set name v own).scopes[s]? =
      if own = s then heap.scopes[s]?.map fun scope =>
        { scope with bindings := scope.bindings.set name v }
      else heap.scopes[s]? := by
  rw [Heap.set, Array.getElem?_modify]

@[simp] theorem size_set (name : String) (v : Value) (own : ScopeId) (heap : Heap) :
    (heap.set name v own).scopes.size = heap.scopes.size := by
  simp [Heap.set]

@[simp] theorem outer_set (name : String) (v : Value) (own s : ScopeId) (heap : Heap) :
    (heap.set name v own).outer s = heap.outer s := by
  unfold outer
  rw [getElem?_set]
  split
  · cases heap.scopes[s]? <;> rfl
  · rfl

theorem bindings_set_of_ne {own s : ScopeId} (h : s ≠ own) (name : String) (v : Value)
    (heap : Heap) : (heap.set name v own).bindings s = heap.bindings s := by
  unfold bindings
  rw [getElem?_set, if_neg h.symm]

theorem Frame.set (name : String) (v : Value) (own : ScopeId) (heap : Heap) :
    heap.Frame own (heap.set name v own) where
  size := by simp
  outer s _ := by simp
  bindings s _ hne := bindings_set_of_ne hne name v heap

theorem Frame.makeFunction (parameters : List String) (body : Block) (own : ScopeId)
    (heap : Heap) : heap.Frame own (heap.makeFunction parameters body own).2 :=
  ⟨Nat.le_refl _, fun _ _ => rfl, fun _ _ _ => rfl⟩

theorem Frame.enclose (own outer : ScopeId) (heap : Heap) : heap.Frame own (heap.enclose outer).2 where
  size := by simp [Heap.enclose]
  outer s hs := by
    unfold Heap.outer Heap.enclose
    rw [Array.getElem?_push, if_neg (Nat.ne_of_lt hs)]
  bindings s hs _ := by
    unfold Heap.bindings Heap.enclose
    rw [Array.getElem?_push, if_neg (Nat.ne_of_lt hs)]

/-- The scope of a call comes behind those there were. -/
theorem Frame.enter (f : Closure) (arguments : List Value) (heap : Heap) :
    heap.Frame heap.scopes.size (heap.enter f arguments) :=
  bindAll_induction (R := fun h => heap.Frame heap.scopes.size h) f.parameters
    (fun _ name v hheap _ => hheap.trans (.set name v _ _)) (.enclose _ f.scope heap)

/-- Where only a new scope is written to, none of the earlier ones is. -/
theorem Frame.of_new (h : before.Frame before.scopes.size after) (own : ScopeId) :
    before.Frame own after :=
  ⟨h.size, h.outer, fun s hs _ => h.bindings s hs (Nat.ne_of_lt hs)⟩

/-- All scopes there were are as they were. -/
theorem Frame.getElem?_eq (h : before.Frame before.scopes.size after) {s : ScopeId}
    (hs : s < before.scopes.size) : after.scopes[s]? = before.scopes[s]? := by
  have houter := h.outer s hs
  have hbindings := h.bindings s hs (Nat.ne_of_lt hs)
  have hs' : s < after.scopes.size := Nat.lt_of_lt_of_le hs h.size
  simp only [Heap.outer, Heap.bindings, Array.getElem?_eq_getElem hs,
    Array.getElem?_eq_getElem hs', Option.bind_some, Option.map_some, Option.getD_some] at houter hbindings ⊢
  have hext : ∀ a b : Scope, a.outer = b.outer → a.bindings = b.bindings → a = b := by
    rintro ⟨_, _⟩ ⟨_, _⟩ rfl rfl
    rfl
  exact congrArg some (hext _ _ houter hbindings)

end Heap

namespace Evaluation

variable {c : Evaluation}

theorem Meets.frame (hparts : ∀ role part, Part role part c → role ≠ .body →
    part.heap.Frame part.scope part.run.2) {heap : Heap} (h : c.Meets heap) :
    c.heap.Frame c.scope heap := by
  induction h with
  | refl => exact .refl _ _
  | tail _ hstep ih =>
    obtain ⟨role, part, hrole, hpart, rfl, rfl⟩ := hstep
    have hpart' := hparts role part hpart hrole
    rw [hpart.scope_eq hrole] at hpart'
    exact ih.trans hpart'

/-- **An evaluation writes to its own scope only.** -/
theorem frame_run (c : Evaluation) : c.heap.Frame c.scope c.run.2 := by
  induction c using Evaluation.induction with
  | step c ih =>
    have hmeets : ∀ heap, c.Meets heap → c.heap.Frame c.scope heap := fun heap hheap =>
      hheap.frame fun role part hpart _ => ih role part hpart
    have hparts : ∀ role part, Part role part c → role ≠ .body →
        c.heap.Frame c.scope part.run.2 := by
      intro role part hpart hrole
      have hpart' := ih role part hpart
      rw [hpart.scope_eq hrole] at hpart'
      exact (hmeets _ (hpart.meets hrole)).trans hpart'
    have hends := c.ends_run
    generalize c.run = result at hends
    cases hends with
    | failed hpart _ => exact hparts _ _ hpart (by simp)
    | passed hpart => exact hparts _ _ hpart (by simp)
    | @called part hpart =>
      have hbody := ih _ part hpart
      cases hpart.calls with
      | @enter n heap f values _ hheap _ _ =>
        exact (hmeets heap hheap).trans (.of_new ((Heap.Frame.enter f values heap).trans hbody) _)
    | made hheap _ => exact hmeets _ hheap
    | set hheap _ _ => exact (hmeets _ hheap).trans (.set _ _ _ _)
    | function _ => exact .makeFunction _ _ _ _
    | returned hreturns =>
      obtain ⟨part, hpart, -, hrun⟩ := hreturns.part
      have hframe := hparts _ _ hpart (by simp)
      rwa [hrun] at hframe

end Evaluation

/-- A call writes to a scope of its own. -/
theorem frame_callWithin (depth : Nat) (f : Closure) (arguments : List Value) (heap : Heap) :
    heap.Frame heap.scopes.size ((callWithin depth f arguments).run heap).2 := by
  cases depth with
  | zero => exact .refl _ _
  | succ n =>
    rw [Evaluation.run_body]
    exact (Heap.Frame.enter f arguments heap).trans
      (Evaluation.frame_run ⟨n, heap.scopes.size, heap.enter f arguments, .statements .null f.body⟩)

/-- **Calling a value changes no scope there was.** -/
theorem frame_applyValue (depth : Nat) (callee : Value) (arguments : List Value) (heap : Heap) :
    heap.Frame heap.scopes.size ((applyValue (callWithin depth) callee arguments).run heap).2 := by
  cases callee with
  | function f => exact frame_callWithin depth f arguments heap
  | _ => exact .refl _ _

end NovelScript.Expr
