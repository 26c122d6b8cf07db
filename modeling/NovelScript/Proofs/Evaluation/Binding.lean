import NovelScript.Proofs.Evaluation.Returns
import NovelScript.Proofs.Evaluation.Scopes

/-!
What a program binds. In a text without `return` nothing is ever on its way out, so that statements
are left out only behind a failure. Main statement: a program without `return` that does not fail
binds all names that it declares or assigns at its top level, and what was bound before stays bound.
-/

namespace NovelScript.Expr

/-! ### Texts without `return` -/

mutual

/-- No `return` stands in the expression. -/
def Expression.isReturnless : Expression → Bool
  | .identifier _ | .integer _ | .double _ | .string _ | .boolean _ => true
  | .unary _ e | .assign _ e => e.isReturnless
  | .binary _ left right => left.isReturnless && right.isReturnless
  | .ifThen condition consequence => condition.isReturnless && blockIsReturnless consequence
  | .ifThenElse condition consequence alternative =>
    condition.isReturnless && blockIsReturnless consequence && blockIsReturnless alternative
  | .function _ body => blockIsReturnless body
  | .call callee arguments => callee.isReturnless && argumentsAreReturnless arguments

/-- No `return` stands in the statement, nor is it one. -/
def Statement.isReturnless : Statement → Bool
  | .let _ value | .expression value => value.isReturnless
  | .return _ => false
  | .block body => blockIsReturnless body

/-- No `return` stands among the statements. -/
def blockIsReturnless : List Statement → Bool
  | [] => true
  | first :: rest => first.isReturnless && blockIsReturnless rest

/-- No `return` stands in the arguments. -/
def argumentsAreReturnless : List Expression → Bool
  | [] => true
  | first :: rest => first.isReturnless && argumentsAreReturnless rest

end

theorem isReturnless_of_mem {e : Expression} : ∀ {es : List Expression},
    argumentsAreReturnless es = true → e ∈ es → e.isReturnless = true
  | first :: rest, h, hmem => by
    obtain ⟨hfirst, hrest⟩ := Bool.and_eq_true_iff.mp h
    rcases List.mem_cons.mp hmem with rfl | hmem
    · exact hfirst
    · exact isReturnless_of_mem hrest hmem

/-- No `return` stands in what is to be evaluated. -/
def Task.isReturnless : Task → Bool
  | expression e => e.isReturnless
  | statement s => s.isReturnless
  | statements _ body => blockIsReturnless body

/-! ### Scopes at hand -/

/-- Whether a scope is at hand: the outermost one, or one that has been made since there were `base`
of them. -/
def ScopeId.IsAtHand (base : Nat) (s : ScopeId) : Prop := s = Heap.root ∨ base ≤ s

/-- The value is not on its way out; a function has no `return`, and sees a scope at hand. -/
def Value.IsCalm (base : Nat) : Value → Prop
  | function f => blockIsReturnless f.body = true ∧ f.scope.IsAtHand base
  | returned _ => False
  | _ => True

theorem Value.isCalm_of_isPlain {base : Nat} {v : Value} (h : Evaluation.isPlain v = true) :
    v.IsCalm base := by
  cases v <;> simp_all [Evaluation.isPlain, Value.IsCalm]

theorem Value.unwrap_of_isCalm {base : Nat} {v : Value} (h : v.IsCalm base) : v.unwrap = v := by
  cases v <;> first | rfl | exact h.elim

namespace Heap

/-- From the scopes at hand no others are seen, and they bind calm values. -/
structure IsCalm (base : Nat) (heap : Heap) : Prop where
  size : base ≤ heap.scopes.size
  outer : ∀ s o, ScopeId.IsAtHand base s → heap.outer s = some o → ScopeId.IsAtHand base o
  bindings : ∀ s, ScopeId.IsAtHand base s → ∀ b ∈ heap.bindings s, b.2.IsCalm base

variable {base : Nat} {heap : Heap} {name : String} {v : Value}

theorem mem_bindings_set {s own : ScopeId} {b : String × Value}
    (h : b ∈ (heap.set name v own).bindings s) : b = (name, v) ∨ b ∈ heap.bindings s := by
  unfold bindings at h ⊢
  rw [getElem?_set] at h
  split at h
  · cases hscope : heap.scopes[s]? with
    | none => simp [hscope] at h
    | some scope =>
      rw [hscope] at h
      exact Bindings.eq_or_mem_of_mem_set h
  · exact .inr h

theorem IsCalm.set (h : heap.IsCalm base) (hv : v.IsCalm base) (name : String) (own : ScopeId) :
    (heap.set name v own).IsCalm base where
  size := by simpa using h.size
  outer s o hs ho := h.outer s o hs (by rwa [outer_set] at ho)
  bindings s hs b hb := by
    rcases mem_bindings_set hb with rfl | hold
    · exact hv
    · exact h.bindings s hs b hold

theorem IsCalm.enclose (h : heap.IsCalm base) {o : ScopeId} (ho : o.IsAtHand base) :
    (heap.enclose o).2.IsCalm base where
  size := by simpa [Heap.enclose] using Nat.le_succ_of_le h.size
  outer s o' hs ho' := by
    unfold Heap.outer Heap.enclose at ho'
    rw [Array.getElem?_push] at ho'
    split at ho'
    · obtain rfl := Option.some.inj ho'
      exact ho
    · exact h.outer s o' hs ho'
  bindings s hs b hb := by
    unfold Heap.bindings Heap.enclose at hb
    rw [Array.getElem?_push] at hb
    split at hb
    · simp at hb
    · exact h.bindings s hs b hb

theorem IsCalm.enter (h : heap.IsCalm base) {f : Closure} (hf : f.scope.IsAtHand base)
    {arguments : List Value} (hargs : ∀ v ∈ arguments, v.IsCalm base) :
    (heap.enter f arguments).IsCalm base :=
  bindAll_induction (R := fun h => h.IsCalm base) f.parameters
    (fun _ name v hheap hv => hheap.set (hv.elim (fun hnull => hnull ▸ trivial) (hargs v)) name _)
    (h.enclose hf)

theorem IsCalm.lookup? (h : heap.IsCalm base) {s : ScopeId} (hs : s.IsAtHand base)
    (hv : heap.lookup? name s = some v) : v.IsCalm base := by
  refine lookup?_within (fun s scope o hs hscope ho => h.outer s o hs ?_)
    (fun s scope hs hscope b hb => h.bindings s hs b ?_) s hs hv
  · rw [Heap.outer, hscope, Option.bind_some, ho]
  · rw [Heap.bindings, hscope]
    exact hb

end Heap

namespace Evaluation

variable {c : Evaluation}

/-! ### Evaluating texts without `return` -/

/-- What is evaluated in the scope of the whole has no `return` either. -/
theorem Part.isReturnless {role : Role} {part : Evaluation} (h : Part role part c)
    (hrole : role ≠ .body) (hc : c.task.isReturnless = true) : part.task.isReturnless = true := by
  cases h with
  | argument _ _ hmem =>
    obtain ⟨e, h', he, rfl⟩ := mem_argumentParts hmem
    exact isReturnless_of_mem (Bool.and_eq_true_iff.mp hc).2 he
  | unary | assign | «let» | expression | block => exact hc
  | left | onlyCondition | callee | first => exact (Bool.and_eq_true_iff.mp hc).1
  | right | onlyBranch | rest => exact (Bool.and_eq_true_iff.mp hc).2
  | condition => exact (Bool.and_eq_true_iff.mp (Bool.and_eq_true_iff.mp hc).1).1
  | branch =>
    obtain ⟨hboth, hother⟩ := Bool.and_eq_true_iff.mp hc
    show blockIsReturnless _ = true
    split
    · exact (Bool.and_eq_true_iff.mp hboth).2
    · exact hother
  | «return» => cases hc
  | body => exact absurd rfl hrole

/-- Texts without `return` keep heaps and values calm. -/
def calm (base : Nat) : Invariant where
  heap heap := heap.IsCalm base
  value _ v := v.IsCalm base
  task c := c.task.isReturnless = true ∧ c.scope.IsAtHand base
  mono _ hv := hv
  plain := Value.isCalm_of_isPlain
  unwrap hv := hv.elim
  returned := by
    rintro c v h ⟨hc, -⟩ ⟨e, htask, -⟩ -
    rw [htask] at hc
    cases hc
  lookup? hc hheap hv := hheap.lookup? hc.2 hv
  set hheap hv name s := hheap.set hv name s
  enter hheap hf hvalues := hheap.enter hf.2 hvalues
  part hpart hrole hc := ⟨hpart.isReturnless hrole hc.1, by rw [hpart.scope_eq hrole]; exact hc.2⟩
  body hheap hf := ⟨hf.1, .inr hheap.size⟩
  function := by
    rintro c parameters body htask ⟨hc, hs⟩ hheap
    rw [htask] at hc
    exact ⟨⟨hheap.size, hheap.outer, hheap.bindings⟩, hc, hs⟩

/-! ### Names that are bound -/

end Evaluation

namespace Heap

variable {heap after : Heap} {name : String} {s : ScopeId}

theorem lt_size_of_binds (h : heap.binds name s = true) : s < heap.scopes.size := by
  refine Decidable.byContradiction fun hs => ?_
  have hnone : heap.scopes[s]? = none := Array.getElem?_eq_none (Nat.le_of_not_lt hs)
  simp [binds, bindings, hnone, Bindings.get?] at h

theorem binds_set_self (hs : s < heap.scopes.size) (name : String) (v : Value) :
    (heap.set name v s).binds name s = true := by
  simp [binds, bindings, getElem?_set, Array.getElem?_eq_getElem hs]

/-- Setting a name leaves all names bound. -/
theorem binds_set (h : heap.binds name s = true) (other : String) (v : Value) (own : ScopeId) :
    (heap.set other v own).binds name s = true := by
  by_cases hown : own = s
  · subst hown
    by_cases hname : other = name
    · subst hname
      exact binds_set_self (lt_size_of_binds h) other v
    · have hs := lt_size_of_binds h
      simpa [binds, bindings, getElem?_set, Array.getElem?_eq_getElem hs,
        Bindings.get?_set_of_ne hname] using h
  · rwa [binds, bindings_set_of_ne (Ne.symm hown)]

/-- What a scope binds can be looked up from it. -/
theorem exists_lookup?_of_binds (h : heap.binds name s = true) :
    ∃ v, heap.lookup? name s = some v := by
  obtain ⟨v, hv⟩ := Option.isSome_iff_exists.mp h
  obtain ⟨scope, hscope⟩ : ∃ scope, heap.scopes[s]? = some scope :=
    ⟨_, Array.getElem?_eq_getElem (lt_size_of_binds h)⟩
  rw [bindings, hscope] at hv
  refine ⟨v, ?_⟩
  rw [lookup?, hscope]
  simp only
  rw [show scope.bindings.get? name = some v from hv]

end Heap

namespace Evaluation

variable {c : Evaluation} {name : String} {s : ScopeId}

/-- Evaluation leaves a name bound. -/
def binding (name : String) (s : ScopeId) : Invariant where
  heap heap := heap.binds name s = true
  value _ _ := True
  task _ := True
  mono _ _ := trivial
  plain _ := trivial
  unwrap _ := trivial
  returned _ _ _ := trivial
  lookup? _ _ _ := trivial
  set hheap _ other own := Heap.binds_set hheap other _ own
  enter := by
    intro heap f values hheap _ _
    have hs := Heap.lt_size_of_binds hheap
    rwa [Heap.binds, (Heap.Frame.enter f values heap).bindings s hs (Nat.ne_of_lt hs)]
  part _ _ _ := trivial
  body _ _ := trivial
  function _ _ hheap := ⟨hheap, trivial⟩

/-- **What is bound stays bound.** -/
theorem binds_run (h : c.heap.binds name s = true) : c.run.2.binds name s = true :=
  (Invariant.Begins.leaves c (I := binding name s) ⟨h, trivial, trivial⟩).heap

/-- A declaration or an assignment that does not fail binds its name. -/
theorem binds_of_statement {n : Nat} {heap : Heap} {st : Statement}
    (hst : name ∈ Program.boundNames [st]) (hs : s < heap.scopes.size)
    (hok : (run ⟨n, s, heap, .statement st⟩).1.isError = false) :
    (run ⟨n, s, heap, .statement st⟩).2.binds name s = true := by
  have hset : ∀ (e : Expression) (next : Value → Value),
      ((run ⟨n, s, heap, .expression e⟩).andThen
        fun v h => (next v, h.set name v s)).1.isError = false →
      ((run ⟨n, s, heap, .expression e⟩).andThen
        fun v h => (next v, h.set name v s)).2.binds name s = true := by
    intro e next hok
    unfold Result.andThen at hok ⊢
    split
    · rename_i herror
      rw [if_pos herror, herror] at hok
      cases hok
    · exact Heap.binds_set_self (Nat.lt_of_lt_of_le hs (frame_run ⟨n, s, heap, .expression e⟩).size)
        name _
  cases st with
  | «let» other e =>
    obtain rfl : name = other := by simpa [Program.boundNames] using hst
    rw [run_let] at hok ⊢
    exact hset e (fun _ => .null) hok
  | expression e =>
    cases e with
    | assign other e =>
      obtain rfl : name = other := by simpa [Program.boundNames] using hst
      have hrun : run ⟨n, s, heap, .statement (.expression (.assign name e))⟩ = _ :=
        run_assign n s heap name e
      rw [hrun] at hok ⊢
      exact hset e id hok
    | _ => simp [Program.boundNames] at hst
  | _ => simp [Program.boundNames] at hst

/-- A value that is not on its way out, and no failure, leaves no statement out. -/
theorem isFinal_of_isCalm {base : Nat} {v : Value} (h : v.IsCalm base) (hok : v.isError = false) :
    v.isFinal = false := by
  cases v <;> simp_all [Value.IsCalm, Value.isError, Value.isFinal]

theorem boundNames_cons (first : Statement) (rest : Block) :
    Program.boundNames (first :: rest) = Program.boundNames [first] ++ Program.boundNames rest := by
  simp only [Program.boundNames, List.filterMap_cons, List.filterMap_nil]
  split <;> rfl

/-- **Statements that do not fail bind their names**, if none of them is left out. -/
theorem binds_of_statements {n base : Nat} (hs : s.IsAtHand base) : ∀ (body : Block) {heap : Heap}
    {last : Value}, blockIsReturnless body = true → heap.IsCalm base → s < heap.scopes.size →
    (run ⟨n, s, heap, .statements last body⟩).1.isError = false → name ∈ Program.boundNames body →
    (run ⟨n, s, heap, .statements last body⟩).2.binds name s = true
  | first :: rest, heap, last, hbody, hcalm, hsize, hok, hname => by
    obtain ⟨hfirst, hrest⟩ := Bool.and_eq_true_iff.mp hbody
    obtain ⟨hheap, hvalue⟩ := Invariant.Begins.leaves (I := calm base)
      ⟨n, s, heap, .statement first⟩ ⟨hcalm, trivial, hfirst, hs⟩
    have hgrown := (frame_run ⟨n, s, heap, .statement first⟩).size
    have hbinds : name ∈ Program.boundNames [first] →
        (run ⟨n, s, heap, .statement first⟩).1.isError = false →
          (run ⟨n, s, heap, .statement first⟩).2.binds name s = true :=
      fun hfirst => binds_of_statement hfirst hsize
    rw [run_cons] at hok ⊢
    generalize run ⟨n, s, heap, .statement first⟩ = r at *
    simp only at hok ⊢
    cases herror : r.1.isError with
    | true =>
      rw [if_pos (isFinal_of_isError herror), herror] at hok
      cases hok
    | false =>
      -- no value is on its way out, so only a failure would leave out the rest
      have hgoes : r.1.isFinal = false := isFinal_of_isCalm hvalue herror
      simp only [hgoes, Bool.false_eq_true, if_false] at hok ⊢
      rw [boundNames_cons, List.mem_append] at hname
      rcases hname with hname | hname
      · exact binds_run (hbinds hname herror)
      · exact binds_of_statements hs rest hrest hheap (Nat.lt_of_lt_of_le hsize hgrown) hok hname

end Evaluation

namespace Heap

/-! ### Heaps of a run -/

/-- A heap on which texts without `return` have been evaluated, and whose outermost scope binds the
names. -/
structure Knows (base : Nat) (heap : Heap) (names : List String) : Prop where
  calm : heap.IsCalm base
  size : root < heap.scopes.size
  binds : ∀ name ∈ names, heap.binds name Heap.root = true

variable {base : Nat} {heap after : Heap} {names : List String} {name : String} {v : Value}

theorem Knows.exists_lookup? (h : heap.Knows base names) (hname : name ∈ names) :
    ∃ v, heap.lookup? name root = some v :=
  exists_lookup?_of_binds (h.binds name hname)

theorem Knows.mono (h : heap.Knows base names) {known : List String}
    (hknown : ∀ name ∈ known, name ∈ names) : heap.Knows base known :=
  ⟨h.calm, h.size, fun name hname => h.binds name (hknown name hname)⟩

theorem Knows.set (h : heap.Knows base names) (hv : v.IsCalm base) (name : String) :
    (heap.set name v root).Knows base (names ++ [name]) where
  calm := h.calm.set hv name root
  size := by simpa using h.size
  binds other hother := by
    rcases List.mem_append.mp hother with hold | hnew
    · exact binds_set (h.binds other hold) name v root
    · obtain rfl := List.mem_singleton.mp hnew
      exact binds_set_self h.size other v

/-- **A text that is evaluated binds its names** beside those that were bound, unless it fails. -/
theorem Knows.evalText (h : heap.Knows base names) {source : String} {program : Program}
    (hparse : parse source = .ok program) (hreturnless : blockIsReturnless program = true) :
    ∃ v after, (evalText source root).run heap = (.ok v, after) ∧ v.IsCalm base ∧
      after.Knows base names ∧
        (v.isError = false → after.Knows base (names ++ program.boundNames)) := by
  obtain ⟨hcalm, hvalue⟩ := Evaluation.Invariant.Begins.leaves (I := Evaluation.calm base)
    (program.evaluation root heap) ⟨h.calm, trivial, hreturnless, .inl rfl⟩
  have hsize : root < (program.evaluation root heap).run.2.scopes.size :=
    Nat.lt_of_lt_of_le h.size (Evaluation.frame_run (program.evaluation root heap)).size
  have hold : (program.evaluation root heap).run.2.Knows base names :=
    ⟨hcalm, hsize, fun name hname => Evaluation.binds_run (h.binds name hname)⟩
  have hunwrap : (program.evaluation root heap).run.1.unwrap =
      (program.evaluation root heap).run.1 := Value.unwrap_of_isCalm hvalue
  refine ⟨_, _, ?_, hvalue, hold, fun hok => ⟨hcalm, hsize, fun name hname => ?_⟩⟩
  · rw [Expr.evalText, hparse]
    show (Except.ok (program.evaluation root heap).run.1.unwrap,
      (program.evaluation root heap).run.2) = _
    rw [hunwrap]
  · rcases List.mem_append.mp hname with hname | hname
    · exact hold.binds name hname
    · exact Evaluation.binds_of_statements (.inl rfl) program hreturnless h.calm h.size hok hname

theorem Reachable.root_lt (h : heap.Reachable) : root < heap.scopes.size := by
  induction h with
  | single => decide
  | alone _ ih => simpa using Nat.lt_succ_of_lt ih
  | enclose _ _ ih => simpa [Heap.enclose] using Nat.lt_succ_of_lt ih
  | set name s _ _ ih => simpa using ih
  | run _ _ _ ih => exact Nat.lt_of_lt_of_le ih (Evaluation.frame_run _).size

/-- A heap that binds nothing in its outermost scope knows nothing. What its other scopes bind makes
no difference. -/
theorem Reachable.knows (h : heap.Reachable) (hempty : heap.bindings root = []) :
    heap.Knows heap.scopes.size [] where
  calm := by
    refine ⟨Nat.le_refl _, fun s o hs ho => ?_, fun s hs b hb => ?_⟩
    · rcases hs with rfl | hs
      · exact absurd (h.wellFormed.outer root o ho) (Nat.not_lt_zero o)
      · simp [outer, Array.getElem?_eq_none hs] at ho
    · rcases hs with rfl | hs
      · simp [hempty] at hb
      · simp [bindings, Array.getElem?_eq_none hs] at hb
  size := h.root_lt
  binds := by simp

end Heap
end NovelScript.Expr
