import NovelScript.Proofs.Evaluation.Course
import NovelScript.Proofs.Evaluation.Returns

/-!
What becomes of a failure. However deep inside it comes about, it is the last thing that is
evaluated, and the failure of all that it stands in. Main statement: the program ends with the
failure, on the heap that it left behind, and no scope ever binds one.
-/

namespace NovelScript.Expr

namespace Evaluation

variable {role : Role} {c d part : Evaluation}

/-! ### A failure is the end -/

theorem suffix_argumentParts {n : Nat} {s : ScopeId} :
    ∀ {es : List Expression} {h : Heap}, part ∈ argumentParts n s es h →
      part.run.1.isError = true → [part] <:+ argumentParts n s es h
  | e :: es, h, hmem, herror => by
    rcases List.mem_cons.mp hmem with rfl | hrest
    · simp [argumentParts, herror]
    · split at hrest
      · simp at hrest
      · rename_i hv
        refine (suffix_argumentParts hrest herror).trans ?_
        rw [argumentParts, if_neg hv]
        exact List.suffix_cons _ _

theorem suffix_andParts {first : Evaluation} {rest : Value → Heap → List Evaluation} {v : Value}
    {h : Heap} (hfirst : first.run = (v, h)) (hv : v.isError = false) {later : List Evaluation}
    (hlater : later <:+ rest v h) : later <:+ first.andParts rest := by
  refine hlater.trans ?_
  rw [andParts, hfirst]
  simp [hv]

/-- **A part that fails is the last one.** -/
theorem Part.suffix (h : Part role part c) (herror : part.run.1.isError = true) :
    [part] <:+ c.parts := by
  cases h with
  | unary | assign | «let» | «return» | expression | block => exact List.suffix_refl _
  | left | onlyCondition | condition | callee => simp [parts, andParts, herror]
  | first => simp [parts, isFinal_of_isError herror]
  | right hl hv =>
    simp only [parts]
    exact suffix_andParts hl hv (List.suffix_refl _)
  | onlyBranch hc hv htruthy =>
    simp only [parts]
    exact suffix_andParts hc hv (by simp [htruthy])
  | branch hc hv =>
    simp only [parts]
    exact suffix_andParts hc hv (List.suffix_refl _)
  | argument hf hv hmem =>
    simp only [parts]
    refine suffix_andParts hf hv ?_
    rw [arguments_of_isError _ _ hmem herror]
    simpa [bodyParts] using suffix_argumentParts hmem herror
  | body hf hes =>
    simp only [parts]
    refine suffix_andParts hf rfl ?_
    rw [hes]
    exact List.suffix_append _ _
  | rest hfirst hv => simp [parts, hfirst, hv]

/-- What fails inside an evaluation decides it, at any depth of calls. -/
theorem Reaches.run_eq (h : c.Reaches d) (herror : d.run.1.isError = true) : c.run = d.run := by
  induction h using Relation.ReflTransGen.head_induction_on with
  | refl => rfl
  | @head c part hstep _ ih =>
    obtain ⟨role, hpart⟩ := hstep
    refine (hpart.run_eq ?_).trans ih
    rw [ih]
    cases role with
    | tail => exact isFinal_of_isError herror
    | operand | body => exact herror

/-- **Nothing changes behind a failure.** -/
theorem Reaches.course_eq (h : c.Reaches d) (herror : d.run.1.isError = true) :
    ∃ before after, c.course = before ++ d.course ++ after ∧ ∀ heap ∈ after, heap = d.run.2 := by
  induction h using Relation.ReflTransGen.head_induction_on with
  | refl => exact ⟨[], [], by simp, by simp⟩
  | @head c part hstep hreach ih =>
    obtain ⟨before, after, hcourse, hafter⟩ := ih
    obtain ⟨role, hpart⟩ := hstep
    have hrun : part.run = d.run := Reaches.run_eq hreach herror
    obtain ⟨earlier, hparts⟩ := hpart.suffix (by rwa [hrun])
    have hwhole : c.run = d.run := Reaches.run_eq (hpart.reaches hreach) herror
    refine ⟨c.heap :: earlier.flatMap course ++ before, after ++ [c.run.2], ?_, fun heap hheap => ?_⟩
    · rw [Evaluation.course_eq c, ← hparts, List.flatMap_append, List.flatMap_singleton, hcourse]
      simp
    · rcases List.mem_append.mp hheap with hin | hlast
      · exact hafter heap hin
      · rw [List.mem_singleton.mp hlast, hwhole]

end Evaluation

/-! ### Heaps without failures -/

/-- Whether the value is a failure, or one on its way out. -/
def Value.isFaulty : Value → Bool
  | error _ => true
  | returned v => v.isFaulty
  | _ => false

/-- No scope binds a failure. -/
def Heap.Faultless (heap : Heap) : Prop := heap.Holds fun v => v.isFaulty = false

namespace Evaluation

variable {role : Role} {c d part : Evaluation}

theorem isFaulty_of_isFinal {v : Value} (h : v.isFinal = false) : v.isFaulty = false := by
  cases v <;> simp_all [Value.isFinal, Value.isFaulty]

theorem isFaulty_of_isPlain {v : Value} (h : isPlain v = true) (herror : v.isError = false) :
    v.isFaulty = false := by
  cases v <;> simp_all [isPlain, Value.isError, Value.isFaulty]

/-- An evaluation begins where no failure is at hand. -/
structure Unhurt (c : Evaluation) : Prop where
  heap : c.heap.Faultless
  last : c.task.last.isFaulty = false

/-- An evaluation leaves no failure behind but its own. -/
structure Harmless (c : Evaluation) : Prop where
  heap : c.run.2.Faultless
  value : c.run.1.isError = false → c.run.1.isFaulty = false

theorem Part.isFaulty_last (h : Part role part c) : part.task.last.isFaulty = false := by
  rcases h.last_eq with hnull | ⟨-, -, -, -, -, hv⟩
  · rw [hnull]
    rfl
  · exact isFaulty_of_isFinal hv

/-- Where the parts leave no failure behind but their own, none is at hand in between. -/
theorem Unhurt.inside (hc : c.Unhurt)
    (ih : ∀ role part, Part role part c → part.Unhurt → part.Harmless) :
    (∀ heap, c.Meets heap → heap.Faultless) ∧ (∀ heap v, c.Uses heap v → v.isFaulty = false) ∧
      ∀ role part, Part role part c → part.Unhurt := by
  have hmeets : ∀ heap, c.Meets heap → heap.Faultless := fun heap hheap =>
    hheap.holds hc.heap fun role part hpart _ hfaultless =>
      (ih role part hpart ⟨hfaultless, hpart.isFaulty_last⟩).heap
  have huses : ∀ heap v, c.Uses heap v → v.isFaulty = false := by
    rintro heap v ⟨part, hpart, rfl, hv, -⟩
    exact (ih _ part hpart ⟨hmeets _ (hpart.meets (by simp)), hpart.isFaulty_last⟩).value hv
  refine ⟨hmeets, huses, fun role part hpart => ⟨?_, hpart.isFaulty_last⟩⟩
  by_cases hrole : role = .body
  · subst hrole
    exact hpart.calls.holds (P := fun v => v.isFaulty = false) rfl hmeets huses
  · exact hmeets _ (hpart.meets hrole)

/-- **Failures are never stored.** -/
theorem Unhurt.harmless (c : Evaluation) : c.Unhurt → c.Harmless := by
  induction c using Evaluation.induction with
  | step c ih =>
    intro hc
    obtain ⟨hmeets, huses, hunhurt⟩ := hc.inside ih
    have hparts : ∀ role part, Part role part c → part.Harmless := fun role part hpart =>
      ih role part hpart (hunhurt role part hpart)
    refine ⟨holds_run rfl hmeets huses fun role part hpart _ => (hparts role part hpart).heap, ?_⟩
    have hends := c.ends_run
    generalize c.run = result at hends
    intro hv
    cases hends with
    | failed _ herror => rw [herror] at hv; cases hv
    | passed hpart => exact (hparts _ _ hpart).value hv
    | @called part hpart =>
      have hvalue := (hparts _ _ hpart).value
      cases hrun : part.run.1 with
      | returned v => simpa [hrun, Value.isError, Value.isFaulty, Value.unwrap] using hvalue
      | _ => simp_all [Value.isError, Value.isFaulty, Value.unwrap]
    | @made heap v hheap hmakes =>
      rcases hmakes.isPlain_or with hplain | ⟨name, hbound⟩ | htask
      · exact isFaulty_of_isPlain hplain hv
      · exact (hmeets heap hheap).lookup? _ hbound
      · have hlast := hc.last
        rwa [htask] at hlast
    | set _ huse hor =>
      rcases hor with rfl | rfl
      · exact huses _ _ huse
      · rfl
    | function _ => rfl
    | @returned v heap hreturns =>
      obtain ⟨part, hpart, -, hrun⟩ := hreturns.part
      obtain ⟨e, -, -, herror⟩ := hreturns
      have hvalue := (hparts _ part hpart).value
      rw [hrun] at hvalue
      exact hvalue herror

/-- Whatever is evaluated in the course of an evaluation begins where no failure is at hand. -/
theorem Unhurt.reaches (hc : c.Unhurt) (h : c.Reaches d) : d.Unhurt := by
  refine h.keeps (fun hpart hwhole => ?_) hc
  exact (hwhole.inside fun _ part _ => Unhurt.harmless part).2.2 _ _ hpart

/-- At no moment of an evaluation does a scope bind a failure. -/
theorem Unhurt.course (c : Evaluation) (hc : c.Unhurt) : ∀ heap ∈ c.course, heap.Faultless := by
  intro heap hheap
  obtain ⟨d, hd, rfl | rfl⟩ := exists_reaches_of_mem_course c hheap
  · exact (hc.reaches hd).heap
  · exact (Unhurt.harmless d (hc.reaches hd)).heap

end Evaluation

open Evaluation

/-! ### Programs -/

/-- **A failure ends the program at once.** Whatever fails in the course of a program, at any depth
of calls, its failure is what the program comes to, and no scope changes behind it; and at no
moment, nor in the end, does a scope bind a failure. -/
theorem failure_ends_program {program : Program} {scope : ScopeId} {heap : Heap}
    (hheap : heap.Faultless) :
    (∀ c fault, (program.evaluation scope heap).Reaches c → c.run.1 = .error fault →
      (evalProgram program scope).run heap = (.error fault, c.run.2) ∧
      ∃ before after, (program.evaluation scope heap).course = before ++ c.course ++ after ∧
        ∀ later ∈ after, later = c.run.2) ∧
      (∀ between ∈ (program.evaluation scope heap).course, between.Faultless) ∧
      ((evalProgram program scope).run heap).2.Faultless := by
  have hunhurt : (program.evaluation scope heap).Unhurt := ⟨hheap, rfl⟩
  refine ⟨fun c fault hc hfault => ?_, Unhurt.course _ hunhurt, ?_⟩
  · have herror : c.run.1.isError = true := by rw [hfault]; rfl
    refine ⟨?_, Reaches.course_eq hc herror⟩
    rw [run_evalProgram, Reaches.run_eq hc herror, unwrap_of_isError herror, hfault]
  · rw [run_evalProgram]
    exact (Unhurt.harmless _ hunhurt).heap

/-- A function that sets a variable of its own, and then fails. -/
def failing : Closure where
  parameters := ["x"]
  body := [.let "y" (.identifier "x"), .expression (.binary .divide (.integer 7) (.integer 0))]
  scope := Heap.root
  identity := 0

/-- A heap with a function that fails. -/
def failingHeap : Heap where
  scopes := #[{ bindings := [("f", .function failing)] }]
  functions := 1

/-- A declaration that calls the function, and another one behind it. -/
def failingProgram : Program :=
  [.let "z" (.binary .add (.integer 1) (.call (.identifier "f") [.integer 2])),
    .let "w" (.integer 3)]

theorem failure_ends_failingProgram :
    failingHeap.Faultless ∧
      ∃ c, (failingProgram.evaluation Heap.root failingHeap).Reaches c ∧
        c.run.1 = .error (.divisionByZero 7) ∧
        (evalProgram failingProgram Heap.root).run failingHeap =
          (.error (.divisionByZero 7), c.run.2) ∧
        ∃ before after, (failingProgram.evaluation Heap.root failingHeap).course =
            before ++ c.course ++ after ∧ ∀ later ∈ after, later = c.run.2 := by
  have hheap : failingHeap.Faultless := by
    unfold Heap.Faultless Heap.Holds
    decide
  have hcallee : run ⟨maxCallDepth, Heap.root, failingHeap, .expression (.identifier "f")⟩ =
      (.function failing, failingHeap) := by
    rw [run_identifier, Heap.lookup?]
    rfl
  have hvalues : arguments maxCallDepth Heap.root [.integer 2] failingHeap =
      (.ok [.integer 2], failingHeap) := rfl
  let body : Evaluation :=
    ⟨127, 1, failingHeap.enter failing [.integer 2], .statements .null failing.body⟩
  have hcall : Part .body body ⟨maxCallDepth, Heap.root, failingHeap,
      .expression (.call (.identifier "f") [.integer 2])⟩ := .body hcallee hvalues
  have hreach : (failingProgram.evaluation Heap.root failingHeap).Reaches body :=
    Part.first.reaches (Part.let.reaches ((Part.right rfl rfl).reaches (hcall.reaches .refl)))
  have hfirst : (run ⟨127, 1, failingHeap.enter failing [.integer 2],
      .statement (.let "y" (.identifier "x"))⟩).1.isFinal = false := by decide +kernel
  have hfault : body.run.1 = .error (.divisionByZero 7) := by
    show (run ⟨_, _, _, .statements .null (_ :: _)⟩).1 = _
    rw [run_cons]
    simp only [hfirst]
    rfl
  obtain ⟨hends, -⟩ := failure_ends_program hheap
  exact ⟨hheap, body, hreach, hfault, hends body _ hreach hfault⟩

end NovelScript.Expr
