import NovelScript.Proofs.Evaluation.Frame

/-!
Invariants of evaluation. A property of heaps, and of the values at hand on them, that setting a
name, entering a function and making one keep to, is kept to by all that is evaluated. Main
statement: an evaluation that begins well leaves all well behind, and whatever is evaluated in its
course begins well.
-/

namespace NovelScript.Expr.Evaluation

/-- A property of heaps, of values on them, and of what may be evaluated, that the few things an
evaluation does keep to. -/
structure Invariant where
  heap : Heap → Prop
  value : Heap → Value → Prop
  task : Evaluation → Prop
  mono : ∀ {h h' : Heap} {v}, h.scopes.size ≤ h'.scopes.size → value h v → value h' v
  plain : ∀ {h : Heap} {v}, isPlain v = true → value h v
  unwrap : ∀ {h : Heap} {v}, value h (.returned v) → value h v
  returned : ∀ {c : Evaluation} {v h}, task c → c.Returns v h → value h v → value h (.returned v)
  /-- A value may be looked up from the scope of what is evaluated. -/
  lookup? : ∀ {c : Evaluation} {h : Heap} {name v}, task c → heap h →
    h.lookup? name c.scope = some v → value h v
  set : ∀ {h : Heap} {v}, heap h → value h v → ∀ name s, heap (h.set name v s)
  enter : ∀ {h : Heap} {f values}, heap h → value h (.function f) → (∀ v ∈ values, value h v) →
    heap (h.enter f values)
  /-- What is evaluated in the scope of the whole may be evaluated. -/
  part : ∀ {role c part}, Part role part c → role ≠ .body → task c → task part
  /-- The body of a function may be evaluated. -/
  body : ∀ {n : Nat} {h : Heap} {f values}, heap h → value h (.function f) →
    task ⟨n, h.scopes.size, h.enter f values, .statements .null f.body⟩
  /-- A function may be made. -/
  function : ∀ {c parameters body}, c.task = .expression (.function parameters body) → task c →
    heap c.heap → heap (c.heap.makeFunction parameters body c.scope).2 ∧
      value (c.heap.makeFunction parameters body c.scope).2
        (c.heap.makeFunction parameters body c.scope).1

variable {c d : Evaluation}

theorem Leads.size {h h' : Heap} (hleads : c.Leads h h') : h.scopes.size ≤ h'.scopes.size := by
  induction hleads with
  | refl => exact Nat.le_refl _
  | tail _ hstep ih =>
    obtain ⟨role, part, -, -, rfl, rfl⟩ := hstep
    exact Nat.le_trans ih part.frame_run.size

namespace Invariant

variable {I : Invariant}

/-- An evaluation begins with what the invariant allows. -/
structure Begins (I : Invariant) (c : Evaluation) : Prop where
  heap : I.heap c.heap
  last : I.value c.heap c.task.last
  task : I.task c

/-- An evaluation leaves behind what the invariant allows. -/
structure Leaves (I : Invariant) (c : Evaluation) : Prop where
  heap : I.heap c.run.2
  value : I.value c.run.2 c.run.1

theorem value_unwrap {h : Heap} {v : Value} (hv : I.value h v) : I.value h v.unwrap := by
  cases v with
  | returned v => exact I.unwrap hv
  | _ => exact hv

/-- A part begins behind null, or behind the value of a part. -/
theorem Begins.last_part (hc : I.Begins c)
    (ih : ∀ role part, Part role part c → I.Begins part → I.Leaves part) {role : Role}
    {part : Evaluation} (hpart : Part role part c) : I.value part.heap part.task.last := by
  rcases hpart.last_eq with hnull | ⟨first, hfirst, hstart, hnull, hrun, -⟩
  · rw [hnull]
    exact I.plain rfl
  · have hbegins : I.Begins first :=
      ⟨hstart ▸ hc.heap, by rw [hnull]; exact I.plain rfl, I.part hfirst (by simp) hc.task⟩
    have hvalue := (ih _ first hfirst hbegins).value
    rwa [hrun] at hvalue

/-- Where the parts leave all well, all is well in between. -/
theorem Begins.inside (hc : I.Begins c)
    (ih : ∀ role part, Part role part c → I.Begins part → I.Leaves part) :
    (∀ heap, c.Meets heap → I.heap heap) ∧ (∀ heap v, c.Uses heap v → I.value heap v) ∧
      ∀ role part, Part role part c → I.Begins part := by
  have hnext : ∀ role part, Part role part c → role ≠ .body → I.heap part.heap → I.Begins part :=
    fun role part hpart hrole hheap =>
      ⟨hheap, hc.last_part ih hpart, I.part hpart hrole hc.task⟩
  have hmeets : ∀ heap, c.Meets heap → I.heap heap := by
    intro heap hheap
    induction hheap with
    | refl => exact hc.heap
    | tail _ hstep hbefore =>
      obtain ⟨role, part, hrole, hpart, rfl, rfl⟩ := hstep
      exact (ih role part hpart (hnext role part hpart hrole hbefore)).heap
  have huses : ∀ heap v, c.Uses heap v → I.value heap v := by
    rintro heap v ⟨part, hpart, rfl, -, hleads⟩
    have hbegins := hnext _ part hpart (by simp) (hmeets _ (hpart.meets (by simp)))
    exact I.mono hleads.size (ih _ part hpart hbegins).value
  refine ⟨hmeets, huses, fun role part hpart => ?_⟩
  by_cases hrole : role = .body
  · subst hrole
    cases hpart.calls with
    | @enter n heap f values _ hheap hf hvalues =>
      have hfunction := huses heap _ hf
      exact ⟨I.enter (hmeets heap hheap) hfunction fun v hv => huses heap v (hvalues v hv),
        I.plain rfl, I.body (hmeets heap hheap) hfunction⟩
  · exact hnext role part hpart hrole (hmeets _ (hpart.meets hrole))

/-- **An evaluation that begins well leaves all well behind.** -/
theorem Begins.leaves (c : Evaluation) : I.Begins c → I.Leaves c := by
  induction c using Evaluation.induction with
  | step c ih =>
    intro hc
    obtain ⟨hmeets, huses, hbegins⟩ := hc.inside ih
    have hparts : ∀ role part, Part role part c → I.Leaves part := fun role part hpart =>
      ih role part hpart (hbegins role part hpart)
    suffices I.heap c.run.2 ∧ I.value c.run.2 c.run.1 from ⟨this.1, this.2⟩
    have hends := c.ends_run
    generalize c.run = result at hends
    cases hends with
    | failed hpart _ => exact ⟨(hparts _ _ hpart).heap, (hparts _ _ hpart).value⟩
    | passed hpart => exact ⟨(hparts _ _ hpart).heap, (hparts _ _ hpart).value⟩
    | called hpart => exact ⟨(hparts _ _ hpart).heap, value_unwrap (hparts _ _ hpart).value⟩
    | @made heap v hheap hmakes =>
      refine ⟨hmeets heap hheap, ?_⟩
      rcases hmakes.isPlain_or with hplain | ⟨name, hbound⟩ | htask
      · exact I.plain hplain
      · exact I.lookup? hc.task (hmeets heap hheap) hbound
      · have hlast := hc.last
        rw [htask] at hlast
        exact I.mono hheap.size hlast
    | @set heap name v w hheap hv hor =>
      refine ⟨I.set (hmeets heap hheap) (huses heap v hv) name c.scope, ?_⟩
      rcases hor with rfl | rfl
      · exact I.mono (by simp) (huses heap w hv)
      · exact I.plain rfl
    | function htask => exact I.function htask hc.task hc.heap
    | returned hreturns =>
      obtain ⟨part, hpart, -, hrun⟩ := hreturns.part
      have hheap := (hparts _ part hpart).heap
      have hvalue := (hparts _ part hpart).value
      rw [hrun] at hheap hvalue
      exact ⟨hheap, I.returned hc.task hreturns hvalue⟩

/-- **Whatever is evaluated in the course of an evaluation begins well**, if the whole does. -/
theorem Begins.reaches (hc : I.Begins c) (h : c.Reaches d) : I.Begins d := by
  refine h.keeps (fun hpart hwhole => ?_) hc
  exact (hwhole.inside fun _ part _ => Begins.leaves part).2.2 _ _ hpart

end Invariant
end NovelScript.Expr.Evaluation
