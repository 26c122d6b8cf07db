import NovelScript.Proofs.Evaluation.Ends

/-!
What the scopes of a heap bind. Main statement: an evaluation binds nothing but what it makes use
of, and null where an argument is missing.
-/

namespace NovelScript.Expr

namespace Bindings

variable {name : String} {value : Value} {bindings : Bindings}

theorem mem_of_get? (h : bindings.get? name = some value) : (name, value) ∈ bindings := by
  induction bindings with
  | nil => simp [get?] at h
  | cons binding rest ih =>
    simp only [get?] at h
    split at h
    · rename_i heq
      obtain rfl := Option.some.inj h
      exact List.mem_cons.mpr (.inl (Prod.ext heq.symm rfl))
    · exact List.mem_cons_of_mem _ (ih h)

theorem eq_or_mem_of_mem_set {b : String × Value} (h : b ∈ bindings.set name value) :
    b = (name, value) ∨ b ∈ bindings := by
  induction bindings with
  | nil => exact .inl (by simpa [set] using h)
  | cons binding rest ih =>
    simp only [set] at h
    split at h
    · rcases List.mem_cons.mp h with rfl | hrest
      · exact .inl rfl
      · exact .inr (List.mem_cons_of_mem _ hrest)
    · rcases List.mem_cons.mp h with rfl | hrest
      · exact .inr List.mem_cons_self
      · exact (ih hrest).imp_right (List.mem_cons_of_mem _)

end Bindings

namespace Heap

/-- Every value bound in one of the scopes is of a kind. -/
def Holds (heap : Heap) (P : Value → Prop) : Prop :=
  ∀ scope ∈ heap.scopes, ∀ b ∈ scope.bindings, P b.2

variable {heap : Heap} {P : Value → Prop}

theorem Holds.set (h : heap.Holds P) {v : Value} (hv : P v) (name : String) (s : ScopeId) :
    (heap.set name v s).Holds P := by
  intro scope hscope b hb
  obtain ⟨i, hi⟩ := Array.mem_iff_getElem?.mp hscope
  simp only [Heap.set, Array.getElem?_modify] at hi
  split at hi
  · obtain ⟨old, hold, rfl⟩ := Option.map_eq_some_iff.mp hi
    rcases Bindings.eq_or_mem_of_mem_set hb with rfl | hmem
    · exact hv
    · exact h old (Array.mem_iff_getElem?.mpr ⟨i, hold⟩) b hmem
  · exact h scope (Array.mem_iff_getElem?.mpr ⟨i, hi⟩) b hb

theorem Holds.enter (hnull : P .null) (h : heap.Holds P) (f : Closure) {arguments : List Value}
    (hargs : ∀ v ∈ arguments, P v) : (heap.enter f arguments).Holds P := by
  have hstart : (heap.enclose f.scope).2.Holds P := by
    intro scope hscope b hb
    rcases Array.mem_push.mp hscope with hold | rfl
    · exact h scope hold b hb
    · simp at hb
  refine bindAll_induction (R := fun h => h.Holds P) f.parameters
    (fun heap name v hheap hv => hheap.set ?_ name _) hstart
  rcases hv with rfl | hmem
  · exact hnull
  · exact hargs v hmem

/-- What is looked up from a scope is bound in it or in one that is seen from it. -/
theorem lookup?_within {S : ScopeId → Prop}
    (houter : ∀ s scope o, S s → heap.scopes[s]? = some scope → scope.outer = some o → S o)
    (hbindings : ∀ s scope, S s → heap.scopes[s]? = some scope → ∀ b ∈ scope.bindings, P b.2)
    {name : String} {v : Value} : ∀ s : ScopeId, S s → heap.lookup? name s = some v → P v := by
  intro s
  induction s using Nat.strongRecOn with
  | ind s ih =>
    intro hs hv
    rw [Heap.lookup?] at hv
    split at hv
    · simp at hv
    · rename_i scope hscope
      split at hv
      · rename_i value hget
        obtain rfl := Option.some.inj hv
        exact hbindings s scope hs hscope _ (Bindings.mem_of_get? hget)
      · split at hv
        · rename_i o ho
          split at hv
          · exact ih o ‹_› (houter s scope o hs hscope ho) hv
          · simp at hv
        · simp at hv

theorem Holds.lookup? (h : heap.Holds P) {name : String} {v : Value} (s : ScopeId)
    (hv : heap.lookup? name s = some v) : P v :=
  lookup?_within (S := fun _ => True) (fun _ _ _ _ _ _ => trivial)
    (fun s scope _ hscope => h scope (Array.mem_iff_getElem?.mpr ⟨s, hscope⟩)) s trivial hv

end Heap

namespace Evaluation

variable {c : Evaluation} {P : Value → Prop}

theorem Meets.holds (hstart : c.heap.Holds P)
    (hparts : ∀ role part, Part role part c → role ≠ .body → part.heap.Holds P →
      part.run.2.Holds P) {heap : Heap} (h : c.Meets heap) : heap.Holds P := by
  induction h with
  | refl => exact hstart
  | tail _ hstep ih =>
    obtain ⟨role, part, hrole, hpart, rfl, rfl⟩ := hstep
    exact hparts role part hpart hrole ih

/-- The body of a function begins on a heap that holds what the heap before and the arguments
do. -/
theorem Calls.holds (hnull : P .null) (hmeets : ∀ heap, c.Meets heap → heap.Holds P)
    (huses : ∀ heap v, c.Uses heap v → P v) {part : Evaluation} (h : c.Calls part) :
    part.heap.Holds P := by
  cases h with
  | @enter n heap f values _ hheap _ hvalues =>
    exact (hmeets heap hheap).enter hnull f fun v hv => huses heap v (hvalues v hv)

/-- **An evaluation binds nothing but what it makes use of.** -/
theorem holds_run (hnull : P .null) (hmeets : ∀ heap, c.Meets heap → heap.Holds P)
    (huses : ∀ heap v, c.Uses heap v → P v)
    (hparts : ∀ role part, Part role part c → part.heap.Holds P → part.run.2.Holds P) :
    c.run.2.Holds P := by
  have hends := c.ends_run
  generalize c.run = result at hends
  cases hends with
  | failed hpart _ => exact hparts _ _ hpart (hmeets _ (hpart.meets (by simp)))
  | passed hpart => exact hparts _ _ hpart (hmeets _ (hpart.meets (by simp)))
  | called hpart => exact hparts _ _ hpart (hpart.calls.holds hnull hmeets huses)
  | made hheap _ => exact hmeets _ hheap
  | set hheap hv _ => exact (hmeets _ hheap).set (huses _ _ hv) _ _
  | function _ => exact hmeets c.heap .refl
  | returned hreturns =>
    obtain ⟨part, hpart, hheap, hrun⟩ := hreturns.part
    have hholds := hparts _ _ hpart (hmeets _ (hpart.meets (by simp)))
    rwa [hrun] at hholds

end Evaluation
end NovelScript.Expr
