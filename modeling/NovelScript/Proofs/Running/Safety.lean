import NovelScript.Proofs.Reading.Checks
import NovelScript.Proofs.Running.Branches

/-!
Safety of running scripts. What a script looks up while it runs is not what the checks look at when
it is read: an expression is read anew, a label is looked for on the queue, and so is the end that a
mark belongs to. Main statement: in no run of a script without errors does such a look-up fail.
-/

namespace NovelScript

/-- A text that can be read is evaluated. -/
theorem Expr.evalText_ok {source : String} {program : Expr.Program}
    (h : Expr.parse source = .ok program) (scope : Expr.ScopeId) (heap : Expr.Heap) :
    ∃ value after, (Expr.evalText source scope).run heap = (.ok value, after) := by
  rw [Expr.evalText, h]
  exact ⟨_, _, rfl⟩

namespace Script

/-- Every expression of the commands can be read. -/
def Queue.Parses (q : Queue) : Prop := ∀ k c, q.get? k = some c → c.Parses

namespace Machine

variable {machine after : Machine} {source : String}

/-! ### Expressions are read -/

/-- No report says that an expression could not be read. -/
def AllRead (machine : Machine) : Prop :=
  ∀ (source : String) (errors : List Expr.ParseError) (place : Option Position),
    .finding (.evaluationFailed source (.malformed errors)) place ∉ machine.reports

theorem allRead_told (machine : Machine) : machine.told.AllRead :=
  fun _ _ _ h => Array.not_mem_empty _ h

theorem AllRead.report (h : machine.AllRead) {r : Report} (hr : ∀ source errors place,
    r ≠ .finding (.evaluationFailed source (.malformed errors)) place) :
    (machine.report r).AllRead := by
  intro source errors place hmem
  rcases Array.mem_push.mp hmem with hold | heq
  · exact h source errors place hold
  · exact hr source errors place heq.symm

theorem AllRead.evaluate (h : machine.AllRead) (hparse : ∃ program, Expr.parse source = .ok program)
    (place : Option Position) : (machine.evaluate source place).2.AllRead := by
  obtain ⟨program, hprogram⟩ := hparse
  obtain ⟨value, heap, hrun⟩ := Expr.evalText_ok hprogram Expr.Heap.root machine.heap
  have hheap : AllRead { machine with heap } := h
  unfold Machine.evaluate
  simp only [hrun]
  cases value with
  | error fault => exact hheap.report (by simp)
  | _ => exact hheap

theorem AllRead.define (place : Option Position) (definitions : List Definition) :
    ∀ {machine : Machine}, machine.AllRead →
      (∀ d ∈ definitions, ∃ program, Expr.parse d.source = .ok program) →
      (machine.define place definitions).AllRead := by
  induction definitions with
  | nil => exact fun h _ => h
  | cons d ds ih =>
    intro machine h hparses
    have heval := h.evaluate (hparses d List.mem_cons_self) place
    rw [Machine.define, List.foldl_cons]
    refine ih ?_ fun d' hd' => hparses d' (List.mem_cons_of_mem d hd')
    generalize machine.evaluate d.source place = result at heval
    obtain ⟨_ | value, after⟩ := result
    · exact heval
    · exact heval.report (by simp)

theorem AllRead.branch (marks : List CommandId) : ∀ {machine : Machine}, machine.AllRead →
    machine.script.queue.Parses → (machine.branch marks).2.AllRead := by
  induction marks with
  | nil => exact fun h _ => h
  | cons id rest ih =>
    intro machine h hparses
    rw [Machine.branch]
    split
    · rename_i condition hget
      have htested := h.evaluate (hparses id _ hget condition List.mem_cons_self)
        (machine.script.position? id)
      simp only
      split
      · exact htested
      · refine ih htested ?_
        rwa [script_condition]
    · exact h
    · exact h
    · exact ih h hparses

/-- The time of a pause is no expression. -/
theorem ne_evaluationFailed_of_findTime {heap : Expr.Heap} {time : WaitTime} {finding : Finding}
    (h : (time.resolve (findTime heap)).1 = .error finding) (source : String)
    (failure : EvalFailure) : finding ≠ .evaluationFailed source failure := by
  rintro rfl
  have hfind : ∀ name, findTime heap name ≠ .error (.evaluationFailed source failure) := by
    intro name
    unfold findTime
    split <;> simp
  unfold WaitTime.resolve at h
  split at h
  · cases h
  · split at h
    · cases h
    · rename_i finding hlookup
      exact hfind _ (hlookup.trans h)

/-- Executing a command reads its expressions, and those of the marks that a conditional tests. -/
theorem AllRead.execute (h : machine.AllRead) {id : CommandId} {c : Command}
    (hc : machine.script.queue.get? id = some c)
    (hparses : machine.script.queue.Parses) :
    (machine.execute id c).2.AllRead := by
  have hsources := hparses id c hc
  unfold Machine.execute
  cases c with
  | waitTime time =>
    simp only [Machine.wait]
    split
    · exact h
    · -- a time that is not known is reported as well, but is no expression
      rename_i finding hfinding
      refine AllRead.report h fun source errors place heq => ?_
      exact ne_evaluationFailed_of_findTime hfinding source (.malformed errors)
        (Report.finding.inj heq).1
  | define definitions =>
    exact AllRead.define _ definitions h fun d hd =>
      hsources d.source (List.mem_map_of_mem hd)
  | eval source => exact h.evaluate (hsources source List.mem_cons_self) _
  | embed source =>
    have heval := h.evaluate (hsources source List.mem_cons_self) (machine.script.position? id)
    simp only
    split <;> (rename_i heq; rw [heq] at heval; exact heval)
  | jump target =>
    simp only
    split <;> exact h.report (by simp)
  | «if» condition related =>
    have htested := h.evaluate (hsources condition List.mem_cons_self) (machine.script.position? id)
    simp only
    split
    · exact htested
    · refine AllRead.branch related htested ?_
      rwa [script_condition]
  | elif condition =>
    simp only
    split <;> exact h
  | «else» =>
    simp only
    split <;> exact h
  | _ => exact h

/-! ### Where a step leads -/

/-- A search that meets the end goes behind some mark. -/
theorem branch_ne_nothing {last : CommandId} (marks : List CommandId) :
    ∀ machine : Machine, machine.script.queue.get? last = some .endIf → last ∈ marks →
      (machine.branch marks).1 ≠ .nothing := by
  induction marks with
  | nil => exact fun _ _ hlast => absurd hlast List.not_mem_nil
  | cons id rest ih =>
    intro machine hend hlast
    -- what the search passes over is not the end, which is still to come
    have hrest : machine.script.queue.get? id ≠ some .endIf → last ∈ rest := by
      intro hne
      rcases List.mem_cons.mp hlast with rfl | hmem
      · exact absurd hend hne
      · exact hmem
    rw [branch]
    split
    · rename_i condition hget
      simp only
      split
      · simp
      · refine ih _ ?_ (hrest (by simp [hget]))
        rwa [script_condition]
    · simp
    · simp
    · rename_i hother
      exact ih machine hend (hrest hother)

/-- A conditional whose condition does not hold goes behind a mark, if it lists its end. -/
theorem exists_goBehind {id last : CommandId} {condition : String} {related : List CommandId}
    (hfalse : (machine.condition condition (machine.script.position? id)).1 = false)
    (hend : machine.script.queue.get? last = some .endIf) (hlast : last ∈ related) :
    ∃ m ∈ related, (machine.execute id (.if condition related)).1 = .goBehind m := by
  simp only [execute, hfalse, Bool.false_eq_true, if_false]
  rw [← script_condition condition (machine.script.position? id) machine] at hend
  exact (branch_effect related _).resolve_left (branch_ne_nothing related _ hend hlast)

/-- Going to a command leads there, if there is such a command. -/
theorem cursor_goTo {id : CommandId} {q : Queue} (h : id < q.size) :
    (move (.goTo id) q).cursor = id := by
  simp [move, Queue.seek?, h]

theorem condition_told (condition : String) (place : Option Position) (machine : Machine) :
    (machine.told.condition condition place).1 = (machine.condition condition place).1 := by
  have hbehind := condition_behind condition place machine.reports machine.told
  rw [behind_told] at hbehind
  exact (congrArg Prod.fst hbehind).symm

end Machine

/-! ### Checked queues -/

/-- What the checks find no error in. -/
structure Queue.Passes (q : Queue) : Prop where
  parses : q.Parses
  labels : ∀ k target, q.get? k = some (.jump target) → ∃ label, q.findLabel? target = some label
  sound : q.Sound
  tied : ∀ k c, q.get? k = some c → q.Tied k

theorem passes_ofTokens {declared : List String} {tokens : List Token}
    (hclean : ∀ found ∈ (ofTokens declared tokens).2, found.1.severity ≠ .error) :
    (ofTokens declared tokens).1.queue.Passes where
  parses _ _ hc := parses_of_clean hclean hc
  labels _ _ h := exists_label_of_clean hclean h
  sound := sound_ofTokens (structuralErrors_of_clean hclean)
  tied _ _ hc := tied_ofTokens (structuralErrors_of_clean hclean) hc

namespace Queue.Passes

variable {q q' : Queue} {k : Nat}

theorem parses_agrees (hq : q.Passes) (ha : q.Agrees q' q.size) : q'.Parses := by
  intro k c hc
  rcases ha.waits k with heq | ⟨time, time', -, hwait⟩
  · exact hq.parses k c (heq.symm.trans hc)
  · obtain rfl := Option.some.inj (hwait.symm.trans hc)
    exact Command.parses_of_sources_nil rfl

theorem label_agrees (hq : q.Passes) (ha : q.Agrees q' q.size) {target : String}
    (h : q'.get? k = some (.jump target)) : ∃ label, q'.findLabel? target = some label := by
  obtain ⟨label, hlabel⟩ := hq.labels k target (ha.symm.get?_eq h (by simp))
  obtain ⟨headline, hget⟩ := Queue.get?_of_findLabel? hlabel
  exact Queue.exists_of_label (ha.get?_eq hget (by simp))

/-- A conditional lists its end, which stands behind all that it lists. -/
theorem relates_agrees (hq : q.Passes) (ha : q.Agrees q' q.size) {condition : String}
    {related : List CommandId} (h : q'.get? k = some (.if condition related)) :
    ∃ last, related.getLast? = some last ∧ q'.get? last = some .endIf ∧
      ∀ m ∈ related, m ≤ last := by
  obtain ⟨last, hr⟩ := hq.sound k condition related (ha.symm.get?_eq h (by simp))
  refine ⟨last, hr.getLast?_eq, ha.get?_eq hr.ends.endIf (by simp), fun m hm => ?_⟩
  exact (hr.mem_iff.mp hm).2.1

/-- A mark between two branches finds the end of the conditional that lists it. -/
theorem end_agrees (hq : q.Passes) (ha : q.Agrees q' q.size) (h : q'.Divides k) :
    ∃ id condition related last, q'.get? id = some (.if condition related) ∧ k ∈ related ∧
      related.getLast? = some last ∧ q'.get? last = some .endIf ∧ q'.endOf? k = some last := by
  obtain ⟨c, -, hc, -⟩ := (h.agrees ha.symm).exists_mark
  obtain ⟨last, hlast⟩ := (hq.tied k c hc).finds (h.agrees ha.symm)
  obtain ⟨id, condition, related, hif, hmem, heq⟩ := exists_of_endOf? hlast
  have hif' : q'.get? id = some (.if condition related) := ha.get?_eq hif (by simp)
  obtain ⟨last', heq', hend, -⟩ := hq.relates_agrees ha hif'
  obtain rfl := Option.some.inj (heq.symm.trans heq')
  exact ⟨id, condition, related, last, hif', hmem, heq, hend, (ha.endOf?_eq k).trans hlast⟩

end Queue.Passes

/-! ### Steps and runs -/

namespace Machine

variable {q : Queue} {machine after : Machine} {event? : Option Event}

/-- The step that leads from one machine to the other has none of the failures that a run passes
over in silence. -/
structure Safe (machine after : Machine) : Prop where
  /-- What is evaluated can be read. -/
  reads : after.AllRead
  /-- A jump leads to a label of its name. -/
  jumps : ∀ target, machine.script.queue.get? machine.cursor = some (.jump target) →
    machine.script.queue.findLabel? target = some after.cursor ∧
      ∃ headline, machine.script.queue.get? after.cursor = some (.label target headline)
  /-- A conditional whose condition does not hold leads behind a mark that it lists. -/
  branches : ∀ condition related,
    machine.script.queue.get? machine.cursor = some (.if condition related) →
      (machine.condition condition (machine.script.position? machine.cursor)).1 = false →
        ∃ m ∈ related, after.cursor = m + 1
  /-- A mark between two branches leads behind the end of the conditional that lists it. -/
  closes : machine.script.queue.Divides machine.cursor → ∃ id condition related last,
    machine.script.queue.get? id = some (.if condition related) ∧ machine.cursor ∈ related ∧
      related.getLast? = some last ∧ machine.script.queue.get? last = some .endIf ∧
        machine.script.queue.endOf? machine.cursor = some last ∧ after.cursor = last + 1

/-- Where the next step leads, if its command is known. -/
theorem cursor_next? {c : Command} (hc : machine.script.queue.get? machine.cursor = some c)
    (h : machine.next? = some (event?, after)) :
    after.cursor = (move (machine.told.execute machine.cursor c).1
      { machine.script.queue with cursor := machine.cursor + 1 }).cursor := by
  obtain ⟨c', hc', -, rfl⟩ := exists_of_next? h
  obtain rfl := Option.some.inj (hc.symm.trans hc')
  exact cursor_follow hc _

theorem cursor_next?_goBehind {c : Command} {id : CommandId}
    (hc : machine.script.queue.get? machine.cursor = some c)
    (h : machine.next? = some (event?, after))
    (heffect : (machine.told.execute machine.cursor c).1 = .goBehind id)
    (hid : id < machine.script.queue.size) : after.cursor = id + 1 := by
  rw [cursor_next? hc h, heffect, cursor_goBehind]
  exact if_pos hid

/-- A jump leads to the label that is found, if there is one. -/
theorem cursor_next?_jump {target : String} {label : CommandId}
    (hc : machine.script.queue.get? machine.cursor = some (.jump target))
    (h : machine.next? = some (event?, after))
    (hlabel : machine.script.queue.findLabel? target = some label) : after.cursor = label := by
  obtain ⟨headline, hget⟩ := Queue.get?_of_findLabel? hlabel
  have hfound : machine.told.script.queue.findLabel? target = some label := hlabel
  rw [cursor_next? hc h]
  simp only [execute, hfound]
  exact cursor_goTo (Array.getElem?_eq_some_iff.mp hget).1

/-- **Every step of a script without errors is safe.** -/
theorem safe_of_next? (hq : q.Passes) (ha : q.Agrees machine.script.queue q.size)
    (h : machine.next? = some (event?, after)) : machine.Safe after where
  reads := by
    obtain ⟨c, hc, -, rfl⟩ := exists_of_next? h
    exact (allRead_told machine).execute hc (hq.parses_agrees ha)
  jumps := by
    intro target hc
    obtain ⟨label, hlabel⟩ := hq.label_agrees ha hc
    obtain ⟨headline, hget⟩ := Queue.get?_of_findLabel? hlabel
    exact cursor_next?_jump hc h hlabel ▸ ⟨hlabel, headline, hget⟩
  branches := by
    intro condition related hc hfalse
    obtain ⟨last, hlast, hend, hle⟩ := hq.relates_agrees ha hc
    have hlt : last < machine.script.queue.size := (Array.getElem?_eq_some_iff.mp hend).1
    have hfalse' := (condition_told condition _ machine).trans hfalse
    obtain ⟨m, hm, hgo⟩ := exists_goBehind hfalse' hend (List.mem_of_getLast? hlast)
    exact ⟨m, hm, cursor_next?_goBehind hc h hgo (Nat.lt_of_le_of_lt (hle m hm) hlt)⟩
  closes := by
    intro hdivides
    obtain ⟨id, condition, related, last, hif, hmem, hlast, hend, hfound⟩ :=
      hq.end_agrees ha hdivides
    refine ⟨id, condition, related, last, hif, hmem, hlast, hend, hfound, ?_⟩
    have hlt : last < machine.script.queue.size := (Array.getElem?_eq_some_iff.mp hend).1
    have hfound' : machine.told.script.queue.endOf? machine.cursor = some last := hfound
    rcases hdivides with hc | ⟨condition', hc⟩
    · exact cursor_next?_goBehind hc h (by simp only [execute, hfound']) hlt
    · exact cursor_next?_goBehind hc h (by simp only [execute, hfound']) hlt

end Machine

/-- **A script without errors runs safely.** A machine runs the commands of such a script, from any
of them on, with any variables, and with whatever times of pauses have been looked up before. All
its expressions can be read, and whoever watches, every step of the run is safe: what it evaluates
is read, a jump finds its label, a conditional whose condition does not hold goes on behind one of
its marks, and a mark finds the end it belongs to. -/
theorem runs_safely (declared : List String) (tokens : List Token)
    (hclean : ∀ found ∈ (ofTokens declared tokens).2, found.1.severity ≠ .error) (machine : Machine)
    (hqueue : (ofTokens declared tokens).1.queue.Agrees machine.script.queue
      (ofTokens declared tokens).1.queue.size) :
    let q := (ofTokens declared tokens).1.queue
    (∀ {μ : Type → Type} [Monad μ] (host : Host μ) (n : Nat) (log : Array Report),
      Machine.run host n machine log =
        (machine.visited n).foldr (Machine.watch host) (Machine.leave host n machine) log) ∧
    (∀ c ∈ q.commands, ∀ source ∈ c.sources, ∃ program, Expr.parse source = .ok program) ∧
    ∀ n : Nat, ∀ m ∈ machine.visited n, ∀ (event? : Option Event) (after : Machine),
      m.next? = some (event?, after) → m.Safe after := by
  intro q
  have hpasses : q.Passes := passes_ofTokens hclean
  refine ⟨fun host n log => Machine.run_eq_watch host n machine log, ?_, ?_⟩
  · intro c hc
    obtain ⟨k, hk⟩ := Array.getElem?_of_mem hc
    exact hpasses.parses k c hk
  · intro n m hm event? after hnext
    have hagrees : q.Agrees m.script.queue q.size := Machine.agrees_visited hqueue hm
    exact Machine.safe_of_next? hpasses hagrees hnext

/-- A script that counts to two, and jumps back in between from the last branch of a conditional. -/
def countToTwo : List Token :=
  let text (content : String) : Token := ⟨.text content, content, {}⟩
  [tagToken "var" [⟨"n", "0"⟩], ⟨.label "top" "", ":top", {}⟩,
    tagToken "eval" [⟨"exp", "n = n + 1"⟩], tagToken "if" [⟨"exp", "n > 1"⟩], text "a",
    tagToken "elif" [⟨"exp", "n > 5"⟩], text "b", tagToken "else" [],
    tagToken "jump" [⟨"target", "top"⟩], tagToken "endif" []]

theorem runs_safely_countToTwo :
    let script := (ofTokens [] countToTwo).1
    let machine : Machine := { script, heap := .single }
    (∀ found ∈ (ofTokens [] countToTwo).2, found.1.severity ≠ .error) ∧
      script.queue.Agrees machine.script.queue script.queue.size ∧
      (machine.visited 11).map Machine.cursor = [0, 1, 2, 3, 8, 1, 2, 3, 4, 5] ∧
      ∀ m ∈ machine.visited 11, ∀ (event? : Option Event) (after : Machine),
        m.next? = some (event?, after) → m.Safe after := by
  intro script machine
  have hclean : ∀ found ∈ (ofTokens [] countToTwo).2, found.1.severity ≠ .error := by
    decide +kernel
  have hqueue : script.queue.Agrees machine.script.queue script.queue.size := .refl _ _
  have hcursors : (machine.visited 11).map Machine.cursor = [0, 1, 2, 3, 8, 1, 2, 3, 4, 5] := by
    decide +kernel
  exact ⟨hclean, hqueue, hcursors, (runs_safely [] countToTwo hclean machine hqueue).2.2 11⟩

end Script
end NovelScript
