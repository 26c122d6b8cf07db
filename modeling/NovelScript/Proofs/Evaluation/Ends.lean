import NovelScript.Proofs.Evaluation.Parts

/-!
What an evaluation does, given its parts. Main statements: an evaluation ends in one of few ways,
each with a value and a heap that come from its parts; and a part that fails, or that leaves the
statements behind it out, decides the whole.
-/

namespace NovelScript.Expr.Evaluation

/-! ### What an evaluation does, given its parts -/

/-- From one heap to another by parts that are evaluated one behind the other. -/
def Leads (c : Evaluation) : Heap → Heap → Prop :=
  Relation.ReflTransGen fun h h' =>
    ∃ role part, role ≠ .body ∧ Part role part c ∧ part.heap = h ∧ part.run.2 = h'

/-- The heaps between one part and the next. -/
def Meets (c : Evaluation) (heap : Heap) : Prop := c.Leads c.heap heap

/-- Values at hand on a heap: those of operands evaluated before, which have not failed. -/
def Uses (c : Evaluation) (heap : Heap) (v : Value) : Prop :=
  ∃ part, Part .operand part c ∧ part.run.1 = v ∧ v.isError = false ∧ c.Leads part.run.2 heap

/-- Values that an evaluation comes to without changing the heap. -/
inductive Makes (c : Evaluation) (heap : Heap) : Value → Prop
  | null : Makes c heap .null
  | integer (n : Int32) : Makes c heap (.integer n)
  | double (x : Float) : Makes c heap (.double x)
  | boolean (b : Bool) : Makes c heap (.boolean b)
  | string {s} : c.task = .expression (.string s) → Makes c heap (.string s)
  | bound {name v} : c.task = .expression (.identifier name) →
    heap.lookup? name c.scope = some v → Makes c heap v
  | builtin (b : Builtin) : Makes c heap (.builtin b)
  | unary {op : UnaryOp} {v} : c.Uses heap v → Makes c heap (op.apply v)
  | binary {op : BinaryOp} {l r} : c.Uses heap l → c.Uses heap r →
    Makes c heap (op.apply l r)
  | apply {b : Builtin} {values} : (∀ v ∈ values, c.Uses heap v) → Makes c heap (b.apply values)
  | fault (fault : Fault) : Makes c heap (.error fault)
  | last {v} : c.task = .statements v [] → Makes c heap v

/-- A `return` is carried out: its value has not failed. -/
def Returns (c : Evaluation) (v : Value) (heap : Heap) : Prop :=
  ∃ e, c.task = .statement (.return e) ∧
    run ⟨c.depth, c.scope, c.heap, .expression e⟩ = (v, heap) ∧ v.isError = false

/-- What can come of an evaluation. -/
inductive Ends (c : Evaluation) : Result → Prop
  | failed {part} : Part .operand part c → part.run.1.isError = true → Ends c part.run
  | passed {part} : Part .tail part c → Ends c part.run
  | called {part} : Part .body part c → Ends c (part.run.1.unwrap, part.run.2)
  | made {heap v} : c.Meets heap → c.Makes heap v → Ends c (v, heap)
  | set {heap name v w} : c.Meets heap → c.Uses heap v → w = v ∨ w = .null →
    Ends c (w, heap.set name v c.scope)
  | function {parameters body} : c.task = .expression (.function parameters body) →
    Ends c (c.heap.makeFunction parameters body c.scope)
  | returned {v heap} : c.Returns v heap → Ends c (.returned v, heap)

variable {c : Evaluation}

theorem Part.uses {part : Evaluation} (h : Part .operand part c)
    (hv : part.run.1.isError = false) : c.Uses part.run.2 part.run.1 := ⟨part, h, rfl, hv, .refl⟩

theorem Part.leads {role : Role} {part : Evaluation} (h : Part role part c) (hrole : role ≠ .body) :
    c.Leads part.heap part.run.2 := .single ⟨role, part, hrole, h, rfl, rfl⟩

theorem Part.leads_of_run {role : Role} {n : Nat} {s : ScopeId} {h h' : Heap} {task : Task}
    {v : Value} (hpart : Part role ⟨n, s, h, task⟩ c) (hrole : role ≠ .body)
    (hrun : run ⟨n, s, h, task⟩ = (v, h')) : c.Leads h h' := by
  have hleads := hpart.leads hrole
  rwa [hrun] at hleads

theorem Uses.leads {heap heap' : Heap} {v : Value} (h : c.Uses heap v) (hleads : c.Leads heap heap') :
    c.Uses heap' v := by
  obtain ⟨part, hpart, hv, herror, hbefore⟩ := h
  exact ⟨part, hpart, hv, herror, hbefore.trans hleads⟩

/-- An operand fails, or the evaluation goes on. -/
theorem Ends.andThen {part : Evaluation} {next : Value → Heap → Result}
    (hpart : Part .operand part c)
    (hnext : part.run.1.isError = false → c.Ends (next part.run.1 part.run.2)) :
    c.Ends (part.run.andThen next) := by
  unfold Result.andThen
  split
  · exact .failed hpart ‹_›
  · rename_i hv
    exact hnext (by simpa using hv)

section Arguments

variable {n : Nat} {s : ScopeId}

theorem leads_argument {part : Evaluation} : ∀ (es : List Expression) (h : Heap),
    (∀ part ∈ argumentParts n s es h, Part .operand part c) → part ∈ argumentParts n s es h →
    c.Leads h part.heap
  | e :: es, h, hparts, hmem => by
    have hfirst := hparts _ List.mem_cons_self
    rcases List.mem_cons.mp hmem with rfl | hrest
    · exact .refl
    · split at hrest
      · simp at hrest
      · rename_i hv
        refine (hfirst.leads (by simp)).trans (leads_argument es _ (fun part hpart => ?_) hrest)
        exact hparts part (List.mem_cons_of_mem _ (by rwa [if_neg hv]))

theorem arguments_ok : ∀ (es : List Expression) (h : Heap) {values : List Value} {h' : Heap},
    (∀ part ∈ argumentParts n s es h, Part .operand part c) →
    arguments n s es h = (.ok values, h') → c.Leads h h' ∧ ∀ v ∈ values, c.Uses h' v
  | [], h, values, h', _, heq => by
    obtain ⟨hvalues, rfl⟩ := Prod.mk.inj heq
    obtain rfl := Except.ok.inj hvalues
    exact ⟨.refl, by simp⟩
  | e :: es, h, values, h', hparts, heq => by
    have hfirst := hparts _ List.mem_cons_self
    rw [arguments_cons] at heq
    simp only at heq
    split at heq
    · simp at heq
    · rename_i hv
      have hrest : ∀ part ∈ argumentParts n s es (run ⟨n, s, h, .expression e⟩).2,
          Part .operand part c := fun part hpart =>
        hparts part (List.mem_cons_of_mem _ (by rwa [if_neg hv]))
      obtain ⟨hvalues, rfl⟩ := Prod.mk.inj heq
      cases hr : (arguments n s es (run ⟨n, s, h, .expression e⟩).2).1 with
      | error w => simp [hr, Except.map] at hvalues
      | ok others =>
        obtain ⟨hleads, huses⟩ := arguments_ok es _ hrest (Prod.ext hr rfl)
        rw [hr] at hvalues
        obtain rfl := Except.ok.inj hvalues
        refine ⟨(hfirst.leads (by simp)).trans hleads, fun v hmem => ?_⟩
        rcases List.mem_cons.mp hmem with rfl | hmem
        · exact (hfirst.uses (by simpa using hv)).leads hleads
        · exact huses v hmem

theorem arguments_error : ∀ (es : List Expression) (h : Heap) {w : Value} {h' : Heap},
    arguments n s es h = (.error w, h') →
    ∃ part ∈ argumentParts n s es h, part.run = (w, h') ∧ w.isError = true
  | [], h, w, h', heq => by simp [arguments, evalArguments] at heq; cases heq
  | e :: es, h, w, h', heq => by
    rw [arguments_cons] at heq
    simp only at heq
    split at heq
    · rename_i hv
      obtain ⟨hw, rfl⟩ := Prod.mk.inj heq
      obtain rfl := Except.error.inj hw
      exact ⟨_, List.mem_cons_self, rfl, hv⟩
    · rename_i hv
      obtain ⟨hw, rfl⟩ := Prod.mk.inj heq
      cases hr : (arguments n s es (run ⟨n, s, h, .expression e⟩).2).1 with
      | ok others => simp [hr, Except.map] at hw
      | error failure =>
        obtain ⟨part, hmem, hrun, herror⟩ := arguments_error es _ (Prod.ext hr rfl)
        rw [hr] at hw
        obtain rfl := Except.error.inj hw
        exact ⟨part, List.mem_cons_of_mem _ (by rwa [if_neg hv]), hrun, herror⟩

end Arguments

/-! ### The few things an evaluation does -/

theorem mem_operand {n : Nat} {s : ScopeId} {h h' : Heap} {f : Expression} {es : List Expression}
    {v : Value} (hf : run ⟨n, s, h, .expression f⟩ = (v, h')) (hv : v.isError = false) :
    ∀ part ∈ argumentParts n s es h', Part .operand part ⟨n, s, h, .expression (.call f es)⟩ :=
  fun _ hmem => .argument hf hv hmem

theorem ends_call (n : Nat) (s : ScopeId) (h : Heap) (f : Expression) (es : List Expression) :
    Ends ⟨n, s, h, .expression (.call f es)⟩ (run ⟨n, s, h, .expression (.call f es)⟩) := by
  by_cases hcallee : (run ⟨n, s, h, .expression f⟩).1.isError = true
  · rw [run_call_of_isError hcallee]
    exact .failed .callee hcallee
  obtain ⟨v, h', hf⟩ : ∃ v h', run ⟨n, s, h, .expression f⟩ = (v, h') := ⟨_, _, rfl⟩
  have hv : v.isError = false := by simpa [hf] using hcallee
  have hparts : ∀ part ∈ argumentParts n s es h', Part .operand part
      ⟨n, s, h, .expression (.call f es)⟩ := mem_operand hf hv
  cases hes : arguments n s es h' with
  | mk answer h'' =>
  cases answer with
  | error w =>
    obtain ⟨part, hmem, hrun, hw⟩ := arguments_error es h' hes
    rw [run_call_of_error hf hv hes, ← hrun]
    exact .failed (hparts part hmem) (by rwa [hrun])
  | ok values =>
    obtain ⟨hleads, huses⟩ := arguments_ok es h' hparts hes
    have hmeets : Meets ⟨n, s, h, .expression (.call f es)⟩ h'' :=
      (Part.callee.leads_of_run (by simp) hf).trans hleads
    rw [run_call_of_ok hf hv hes]
    cases v with
    | function g =>
      cases n with
      | zero => exact .made hmeets (.fault _)
      | succ n => exact .called (.body hf hes)
    | builtin b => exact .made hmeets (.apply huses)
    | _ => exact .made hmeets (.fault _)

/-- **What comes of an evaluation**, said once for all that follows. -/
theorem ends_run (c : Evaluation) : c.Ends c.run := by
  obtain ⟨n, s, h, task⟩ := c
  cases task with
  | expression e =>
    cases e with
    | identifier name =>
      rw [run_identifier]
      cases hv : h.lookup? name s with
      | some v => exact .made .refl (.bound rfl hv)
      | none =>
        cases Builtin.find? name with
        | some b => exact .made .refl (.builtin b)
        | none => exact .made .refl (.fault _)
    | integer k => exact .made .refl (.integer k)
    | double x => exact .made .refl (.double x)
    | string t => exact .made .refl (.string rfl)
    | boolean b => exact .made .refl (.boolean b)
    | unary op e =>
      rw [run_unary]
      exact .andThen .unary fun hv => .made (Part.unary.leads (by simp)) (.unary (Part.unary.uses hv))
    | binary op l r =>
      rw [run_binary]
      refine .andThen .left fun hv => ?_
      have hright : Part .operand ⟨n, s, (run ⟨n, s, h, .expression l⟩).2, .expression r⟩
        ⟨n, s, h, .expression (.binary op l r)⟩ := .right rfl hv
      have hleads := hright.leads (by simp)
      refine .andThen hright fun hw => .made ((Part.left.leads (by simp)).trans hleads) ?_
      exact .binary ((Part.left.uses hv).leads hleads) (hright.uses hw)
    | assign name e =>
      rw [run_assign]
      exact .andThen .assign fun hv =>
        .set (Part.assign.leads (by simp)) (Part.assign.uses hv) (.inl rfl)
    | ifThen e body =>
      rw [run_ifThen]
      refine .andThen .onlyCondition fun hv => ?_
      split
      · rename_i htruthy
        exact .passed (.onlyBranch rfl hv htruthy)
      · exact .made (Part.onlyCondition.leads (by simp)) .null
    | ifThenElse e body other =>
      rw [run_ifThenElse]
      refine .andThen .condition fun hv => ?_
      have hbranch : Part .tail ⟨n, s, (run ⟨n, s, h, .expression e⟩).2, .statements .null
          (if (run ⟨n, s, h, .expression e⟩).1.isTruthy then body else other)⟩
        ⟨n, s, h, .expression (.ifThenElse e body other)⟩ := .branch rfl hv
      split
      · rename_i htruthy
        rw [if_pos htruthy] at hbranch
        exact .passed hbranch
      · rename_i htruthy
        rw [if_neg htruthy] at hbranch
        exact .passed hbranch
    | function parameters body => exact .function rfl
    | call f es => exact ends_call n s h f es
  | statement st =>
    cases st with
    | «let» name e =>
      rw [run_let]
      exact .andThen .let fun hv => .set (Part.let.leads (by simp)) (Part.let.uses hv) (.inr rfl)
    | «return» e =>
      rw [run_return]
      exact .andThen .return fun hv => .returned ⟨e, rfl, rfl, hv⟩
    | expression e =>
      show Ends _ (run ⟨n, s, h, .expression e⟩)
      exact .passed .expression
    | block body =>
      show Ends _ (run ⟨n, s, h, .statements .null body⟩)
      exact .passed .block
  | statements last body =>
    cases body with
    | nil => exact .made .refl (.last rfl)
    | cons first rest =>
      rw [run_cons]
      simp only
      split
      · exact .passed .first
      · rename_i hfinal
        exact .passed (.rest rfl (by simpa using hfinal))

/-! ### Where parts begin -/

theorem Returns.part {v : Value} {heap : Heap} (h : c.Returns v heap) :
    ∃ part, Part .operand part c ∧ part.heap = c.heap ∧ part.run = (v, heap) := by
  obtain ⟨n, s, h', task⟩ := c
  obtain ⟨e, rfl, hrun, -⟩ := h
  exact ⟨_, .return, rfl, hrun⟩

theorem Returns.run_eq {v : Value} {heap : Heap} (h : c.Returns v heap) :
    c.run = (.returned v, heap) := by
  obtain ⟨n, s, h', task⟩ := c
  obtain ⟨e, rfl, hrun, hv⟩ := h
  rw [run_return, andThen_of_run hrun hv]

/-- A part begins on a heap that the earlier ones lead to. -/
theorem Part.meets {role : Role} {part : Evaluation} (h : Part role part c) (hrole : role ≠ .body) :
    c.Meets part.heap := by
  cases h with
  | right hl _ => exact Part.left.leads_of_run (by simp) hl
  | onlyBranch hv _ _ => exact Part.onlyCondition.leads_of_run (by simp) hv
  | branch hv _ => exact Part.condition.leads_of_run (by simp) hv
  | argument hf hv hmem =>
    exact (Part.callee.leads_of_run (by simp) hf).trans
      (leads_argument _ _ (mem_operand hf hv) hmem)
  | rest hfirst _ => exact Part.first.leads_of_run (by simp) hfirst
  | body => exact absurd rfl hrole
  | _ => exact .refl

/-- The body of a function begins on a heap on which the parameters are bound to operands, and
one call less may become active. -/
inductive Calls (c : Evaluation) : Evaluation → Prop
  | enter {n heap f values} : c.depth = n + 1 → c.Meets heap → c.Uses heap (.function f) →
    (∀ v ∈ values, c.Uses heap v) →
    Calls c ⟨n, heap.scopes.size, heap.enter f values, .statements .null f.body⟩

theorem Part.calls {part : Evaluation} (h : Part .body part c) : c.Calls part := by
  cases h with
  | @body n s h f es g h' values h'' hf hes =>
    obtain ⟨hleads, huses⟩ := arguments_ok es h' (mem_operand hf rfl) hes
    have hcallee : Leads ⟨n + 1, s, h, .expression (.call f es)⟩ h h' :=
      Part.callee.leads_of_run (by simp) hf
    refine .enter rfl (hcallee.trans hleads) ?_ huses
    exact ⟨_, .callee, by rw [hf], rfl, by rwa [hf]⟩

/-! ### Parts that decide the whole -/

/-- Whether a part with this value leaves out what stands behind it. -/
def Role.decides : Role → Value → Bool
  | .operand, v => v.isError
  | .tail, v => v.isFinal
  | .body, v => v.isError

theorem unwrap_of_isError {v : Value} (h : v.isError = true) : v.unwrap = v := by
  cases v <;> simp_all [Value.isError, Value.unwrap]

/-- Only the last of the arguments that are evaluated can have failed. -/
theorem arguments_of_isError {n : Nat} {s : ScopeId} {part : Evaluation} :
    ∀ (es : List Expression) (h : Heap), part ∈ argumentParts n s es h →
      part.run.1.isError = true → arguments n s es h = (.error part.run.1, part.run.2)
  | e :: es, h, hmem, herror => by
    rw [arguments_cons]
    simp only
    rcases List.mem_cons.mp hmem with rfl | hrest
    · rw [if_pos herror]
    · split at hrest
      · simp at hrest
      · rename_i hv
        rw [if_neg hv, arguments_of_isError es _ hrest herror]
        rfl

/-- What comes of a call is what the body of the function comes to, no longer on its way out. -/
theorem Part.run_body {part : Evaluation} (h : Part .body part c) :
    c.run = (part.run.1.unwrap, part.run.2) := by
  cases h with
  | body hf hes =>
    rw [run_call_of_ok hf rfl hes]
    rfl

/-- **A part that decides the whole is all that comes of it.** -/
theorem Part.run_eq {role : Role} {part : Evaluation} (h : Part role part c)
    (hdecides : role.decides part.run.1 = true) : c.run = part.run := by
  cases h with
  | unary => rw [run_unary, andThen_of_isError hdecides]
  | left => rw [run_binary, andThen_of_isError hdecides]
  | right hl hv => rw [run_binary, andThen_of_run hl hv, andThen_of_isError hdecides]
  | assign => rw [run_assign, andThen_of_isError hdecides]
  | onlyCondition => rw [run_ifThen, andThen_of_isError hdecides]
  | onlyBranch hc hv htruthy => rw [run_ifThen, andThen_of_run hc hv, if_pos htruthy]
  | condition => rw [run_ifThenElse, andThen_of_isError hdecides]
  | branch hc hv =>
    rw [run_ifThenElse, andThen_of_run hc hv]
    split <;> rfl
  | callee => exact run_call_of_isError hdecides
  | argument hf hv hmem =>
    exact run_call_of_error hf hv (arguments_of_isError _ _ hmem hdecides)
  | body hf hes => rw [(Part.body hf hes).run_body, unwrap_of_isError hdecides]
  | «let» => rw [run_let, andThen_of_isError hdecides]
  | «return» => rw [run_return, andThen_of_isError hdecides]
  | expression => rfl
  | block => rfl
  | first =>
    rw [run_cons]
    exact if_pos hdecides
  | rest hfirst hv =>
    rw [run_cons, hfirst]
    simp [hv]

/-! ### Values that an evaluation comes to on its own -/

/-- Neither a function nor a value on its way out of one. -/
def isPlain : Value → Bool
  | .function _ | .returned _ => false
  | _ => true

theorem isPlain_unary (op : UnaryOp) (v : Value) : isPlain (op.apply v) = true := by
  unfold UnaryOp.apply
  split <;> rfl

theorem isPlain_onIntegers (op : BinaryOp) (l r : Int32) : isPlain (op.onIntegers l r) = true := by
  unfold BinaryOp.onIntegers
  repeat' split
  all_goals rfl

theorem isPlain_onDoubles (op : BinaryOp) (l r : Float) : isPlain (op.onDoubles l r) = true := by
  unfold BinaryOp.onDoubles
  split <;> rfl

theorem isPlain_onBooleans (op : BinaryOp) (l r : Bool) : isPlain (op.onBooleans l r) = true := by
  unfold BinaryOp.onBooleans
  split <;> rfl

theorem isPlain_concatenate (l r : String) (bound : Nat) :
    isPlain (BinaryOp.concatenate l r bound) = true := by
  unfold BinaryOp.concatenate
  split <;> rfl

theorem isPlain_repeatText (l : String) (count : Int32) :
    isPlain (BinaryOp.repeatText l count) = true := by
  unfold BinaryOp.repeatText
  split
  · rfl
  · simp only
    split <;> rfl

theorem isPlain_onStrings (op : BinaryOp) (l r : String) : isPlain (op.onStrings l r) = true := by
  unfold BinaryOp.onStrings
  split
  · exact isPlain_concatenate _ _ _
  · split <;> rfl

theorem isPlain_onOthers (op : BinaryOp) (l r : Value) : isPlain (op.onOthers l r) = true := by
  unfold BinaryOp.onOthers
  repeat' split
  all_goals rfl

theorem isPlain_binary (op : BinaryOp) (l r : Value) : isPlain (op.apply l r) = true := by
  unfold BinaryOp.apply
  split
  · exact isPlain_onIntegers _ _ _
  · exact isPlain_onDoubles _ _ _
  · exact isPlain_onStrings _ _ _
  · split
    · exact isPlain_repeatText _ _
    · exact isPlain_concatenate _ _ _
    · exact isPlain_onOthers _ _ _
  · exact isPlain_onBooleans _ _ _
  · exact isPlain_onOthers _ _ _

theorem isPlain_builtin (b : Builtin) (values : List Value) : isPlain (b.apply values) = true := by
  unfold Builtin.apply
  repeat' split
  all_goals rfl

/-- An evaluation makes functions by literals only, and leads values out by `return` only. -/
theorem Makes.isPlain_or {heap : Heap} {v : Value} (h : c.Makes heap v) :
    isPlain v = true ∨ (∃ name, heap.lookup? name c.scope = some v) ∨
      c.task = .statements v [] := by
  cases h with
  | bound _ hv => exact .inr (.inl ⟨_, hv⟩)
  | unary _ => exact .inl (isPlain_unary _ _)
  | binary _ _ => exact .inl (isPlain_binary _ _ _)
  | apply _ => exact .inl (isPlain_builtin _ _)
  | last htask => exact .inr (.inr htask)
  | _ => exact .inl rfl

end NovelScript.Expr.Evaluation
