import NovelScript.Proofs.Conditionals.Validation
import NovelScript.Proofs.Running.Frame

/-!
Scripts read as trees. The commands of a block are executed in order; of a conditional the
conditions are evaluated in order up to the first that is truthy, and the block behind it is read.
A test of the machine comes to what the value of the condition says, and what is read leaves the
commands that follow as they are.
-/

namespace NovelScript.Script

/-! ### Reading a tree -/

/-- What has been done, and the machine behind it. -/
structure Played where
  actions : List Action
  machine : Machine

namespace Played

/-- Goes on from the machine behind. -/
def andThen (p : Played) (next : Machine → Played) : Played :=
  ⟨p.actions ++ (next p.machine).actions, (next p.machine).machine⟩

end Played

namespace Machine

/-- What executing a command does, apart from the cursor. -/
def obey (id : CommandId) (c : Command) (machine : Machine) : Played :=
  let (effect, after) := machine.told.execute id c
  ⟨after.reports.toList.map .tell ++ effect.event?.toList.map .ask, after.told⟩

/-- Whether a condition with this value holds, and what there is to report. A truthy value holds; a
condition that fails, or cannot be read, does not. -/
def verdict (condition : String) (place : Option Position) :
    Except (List Expr.ParseError) Expr.Value → Bool × List Report
  | .ok (.error fault) => (false, [.finding (.evaluationFailed condition (.fault fault)) place])
  | .ok value => (value.isTruthy, [])
  | .error errors => (false, [.finding (.evaluationFailed condition (.malformed errors)) place])

/-- Evaluates the condition of a command among the variables, once, and goes on in one of two
ways. -/
def choose (id : CommandId) (condition : String) (yes no : Machine → Played) (machine : Machine) :
    Played :=
  let (value, heap) := (Expr.evalText condition Expr.Heap.root).run machine.heap
  let (holds, reports) := verdict condition (machine.script.position? id) value
  Played.andThen ⟨reports.map .tell, { machine.told with heap }⟩ (if holds then yes else no)

end Machine

mutual

/-- Reads a block that begins at the command `k`. -/
def Block.read : Block → Nat → Machine → Played
  | .nil, _, machine => ⟨[], machine.told⟩
  | .command c _ rest, k, machine => (machine.obey k c).andThen (rest.read (k + 1))
  | .conditional condition body branches rest, k, machine =>
    (machine.choose k condition (body.read (k + 1)) (branches.read (k + 1 + body.size))).andThen
      (rest.read (k + 1 + body.size + branches.size))

/-- Reads branches, no branch before which has been taken. -/
def Branches.read : Branches → Nat → Machine → Played
  | .endIf, _, machine => ⟨[], machine.told⟩
  | .else body, k, machine => body.read (k + 1) machine
  | .elif condition body rest, k, machine =>
    machine.choose k condition (body.read (k + 1)) (rest.read (k + 1 + body.size))

end

/-! ### Trees on the queue -/

namespace Queue

/-- The command `k` finishes a branch of the conditional that ends with the command `last`. -/
structure Closes (q : Queue) (k last : Nat) : Prop where
  endIf : q.get? last = some .endIf
  mark : k = last ∨ (q.get? k = some .else ∨ ∃ condition, q.get? k = some (.elif condition)) ∧
    q.endOf? k = some last

/-- The queues have the same commands from `k` on, and before it up to the times of pauses. -/
structure Agrees (q q' : Queue) (k : Nat) : Prop where
  size : q'.size = q.size
  same : ∀ j, k ≤ j → q'.get? j = q.get? j
  waits : ∀ j, q'.get? j = q.get? j ∨
    ∃ time time', q.get? j = some (.waitTime time) ∧ q'.get? j = some (.waitTime time')

end Queue

mutual

/-- The commands of a block stand on the queue from `k` on, and its conditionals have their
marks. -/
def Block.Placed (q : Queue) : Block → Nat → Prop
  | .nil, _ => True
  | .command c _ rest, k => q.get? k = some c ∧ rest.Placed q (k + 1)
  | .conditional condition body branches rest, k =>
    q.get? k = some (.if condition ((branches.marks (k + 1 + body.size)).map Prod.fst)) ∧
      body.Placed q (k + 1) ∧
      branches.Placed q (k + 1 + body.size) (branches.last (k + 1 + body.size)) ∧
      rest.Placed q (k + 1 + body.size + branches.size)

/-- The commands of branches stand on the queue from `k` on, and each mark finds the end. -/
def Branches.Placed (q : Queue) : Branches → Nat → Nat → Prop
  | .endIf, k, last => k = last ∧ q.get? k = some .endIf
  | .else body, k, last =>
    q.get? k = some .else ∧ q.endOf? k = some last ∧ body.Placed q (k + 1) ∧
      k + 1 + body.size = last ∧ q.get? last = some .endIf
  | .elif condition body rest, k, last =>
    q.get? k = some (.elif condition) ∧ q.endOf? k = some last ∧ body.Placed q (k + 1) ∧
      rest.Placed q (k + 1 + body.size) last

end

theorem Branches.Placed.get?_last {q : Queue} : ∀ {b : Branches} {k last : Nat},
    b.Placed q k last → q.get? last = some .endIf
  | .endIf, _, _, h => h.1 ▸ h.2
  | .else _, _, _, h => h.2.2.2.2
  | .elif _ _ _, _, _, h => h.2.2.2.get?_last

theorem Branches.Placed.closes {q : Queue} {b : Branches} {k last : Nat} (h : b.Placed q k last) :
    q.Closes k last := by
  refine ⟨h.get?_last, ?_⟩
  cases b with
  | endIf => exact .inl h.1
  | «else» body => exact .inr ⟨.inl h.1, h.2.1⟩
  | elif condition body rest => exact .inr ⟨.inr ⟨condition, h.1⟩, h.2.1⟩

namespace Queue.Agrees

variable {q q' q'' : Queue} {j k : Nat}

theorem refl (q : Queue) (k : Nat) : q.Agrees q k := ⟨rfl, fun _ _ => rfl, fun _ => .inl rfl⟩

theorem mono (h : q.Agrees q' j) (hk : j ≤ k) : q.Agrees q' k :=
  ⟨h.size, fun i hi => h.same i (Nat.le_trans hk hi), h.waits⟩

theorem trans (h : q.Agrees q' k) (h' : q'.Agrees q'' k) : q.Agrees q'' k where
  size := h'.size.trans h.size
  same i hi := (h'.same i hi).trans (h.same i hi)
  waits i := by
    rcases h.waits i with heq | ⟨time, time', ht, ht'⟩
    · rw [← heq]
      exact h'.waits i
    · rcases h'.waits i with heq' | ⟨time₁, time₂, -, ht₂⟩
      · exact .inr ⟨time, time', ht, heq'.trans ht'⟩
      · exact .inr ⟨time, time₂, ht, ht₂⟩

/-- What is no pause is the same on both. -/
theorem get?_eq (h : q.Agrees q' k) {c : Command} (hc : q.get? j = some c)
    (hwait : ∀ time, c ≠ .waitTime time) : q'.get? j = some c := by
  rcases h.waits j with heq | ⟨time, time', ht, -⟩
  · exact heq.trans hc
  · exact absurd (Option.some.inj (hc.symm.trans ht)) (hwait time)

theorem endOf?_eq (h : q.Agrees q' k) (branch : CommandId) : q'.endOf? branch = q.endOf? branch := by
  have hkind : ∀ j : Nat, (q'.get? j).map Command.kind = (q.get? j).map Command.kind := by
    intro j
    rcases h.waits j with heq | ⟨time, time', ht, ht'⟩
    · rw [heq]
    · rw [ht, ht']
      rfl
  unfold Queue.endOf? Queue.findAll
  rw [h.size]
  simp only [hkind]
  congr 1
  funext j
  rcases h.waits j with heq | ⟨time, time', ht, ht'⟩
  · rw [heq]
  · rw [ht, ht']

/-- Looking up the time of a pause changes nothing behind it. -/
theorem replace {time time' : WaitTime} (hc : q.get? j = some (.waitTime time)) (hk : j < k) :
    q.Agrees (q.replace j (.waitTime time')) k where
  size := by simp [Queue.size, Queue.replace]
  same i hi := by
    have hne : j ≠ i := by omega
    simp [Queue.get?, Queue.replace, hne]
  waits i := by
    by_cases hij : j = i
    · subst hij
      have hlt : j < q.commands.size := (Array.getElem?_eq_some_iff.mp hc).1
      exact .inr ⟨time, time', hc, by simp [Queue.get?, Queue.replace, hlt]⟩
    · exact .inl (by simp [Queue.get?, Queue.replace, hij])

end Queue.Agrees

mutual

theorem Block.Placed.agrees {q q' : Queue} : ∀ {b : Block} {k : Nat}, b.Placed q k →
    q.Agrees q' k → b.Placed q' k
  | .nil, _, _, _ => trivial
  | .command c plain rest, k, h, ha =>
    ⟨(ha.same k (Nat.le_refl k)).trans h.1, h.2.agrees (ha.mono (Nat.le_succ k))⟩
  | .conditional condition body branches rest, k, h, ha =>
    ⟨ha.get?_eq h.1 (by simp), h.2.1.agrees (ha.mono (by omega)),
      h.2.2.1.agrees (ha.mono (by omega)), h.2.2.2.agrees (ha.mono (by omega))⟩

theorem Branches.Placed.agrees {q q' : Queue} : ∀ {b : Branches} {k last : Nat},
    b.Placed q k last → q.Agrees q' k → b.Placed q' k last
  | .endIf, _, _, h, ha => ⟨h.1, ha.get?_eq h.2 (by simp)⟩
  | .else body, k, last, h, ha =>
    ⟨ha.get?_eq h.1 (by simp), (ha.endOf?_eq k).trans h.2.1,
      h.2.2.1.agrees (ha.mono (Nat.le_succ k)), h.2.2.2.1, ha.get?_eq h.2.2.2.2 (by simp)⟩
  | .elif condition body rest, k, last, h, ha =>
    ⟨ha.get?_eq h.1 (by simp), (ha.endOf?_eq k).trans h.2.1,
      h.2.2.1.agrees (ha.mono (Nat.le_succ k)), h.2.2.2.agrees (ha.mono (by omega))⟩

end

theorem Queue.Closes.agrees {q q' : Queue} {j k last : Nat} (h : q.Closes j last)
    (ha : q.Agrees q' k) : q'.Closes j last := by
  refine ⟨ha.get?_eq h.endIf (by simp), ?_⟩
  rcases h.mark with heq | ⟨helse | ⟨condition, helif⟩, hlast⟩
  · exact .inl heq
  · exact .inr ⟨.inl (ha.get?_eq helse (by simp)), (ha.endOf?_eq j).trans hlast⟩
  · exact .inr ⟨.inr ⟨condition, ha.get?_eq helif (by simp)⟩, (ha.endOf?_eq j).trans hlast⟩

/-! ### Conditions -/

namespace Machine

variable {machine after : Machine} {k : Nat} {condition : String} {holds : Bool}

/-- **The machine's test of a condition** comes to what the value of the condition says. -/
theorem condition_eq_verdict (condition : String) (place : Option Position) (machine : Machine) :
    machine.told.condition condition place =
      let result := (Expr.evalText condition Expr.Heap.root).run machine.heap
      ((verdict condition place result.1).1,
        { machine with heap := result.2, reports := (verdict condition place result.1).2.toArray }) := by
  unfold Machine.condition evaluate
  simp only [show machine.told.heap = machine.heap from rfl]
  rcases (Expr.evalText condition Expr.Heap.root).run machine.heap with ⟨errors | value, heap⟩
  · rfl
  · cases value <;> rfl

theorem choose_eq (htest : machine.told.condition condition (machine.script.position? k) =
      (holds, after)) (yes no : Machine → Played) : machine.choose k condition yes no =
      Played.andThen ⟨after.reports.toList.map .tell, after.told⟩ (if holds then yes else no) := by
  rw [condition_eq_verdict] at htest
  obtain ⟨rfl, rfl⟩ := Prod.mk.inj htest
  rfl

theorem script_test (condition : String) (place : Option Position) (machine : Machine) :
    (machine.told.condition condition place).2.told.script = machine.script :=
  script_condition condition place machine.told

end Machine

/-! ### Reading keeps the commands that follow -/

theorem Machine.agrees_obey {machine : Machine} {k : Nat} {c : Command}
    (hc : machine.script.queue.get? k = some c) :
    machine.script.queue.Agrees (machine.obey k c).machine.script.queue (k + 1) := by
  rcases script_execute k c machine.told with hsame | ⟨time, time', rfl, hnew⟩
  · rw [show (machine.obey k c).machine.script = machine.script from hsame]
    exact .refl _ _
  · rw [show (machine.obey k (.waitTime time)).machine.script = _ from hnew]
    exact .replace hc (Nat.lt_succ_self k)

/-- What either way to go on keeps, choosing between them keeps. -/
theorem Machine.agrees_choose {machine : Machine} {yes no : Machine → Played} {j : Nat}
    (id : CommandId) (condition : String)
    (hyes : ∀ after : Machine, after.script = machine.script →
      machine.script.queue.Agrees (yes after).machine.script.queue j)
    (hno : ∀ after : Machine, after.script = machine.script →
      machine.script.queue.Agrees (no after).machine.script.queue j) :
    machine.script.queue.Agrees (machine.choose id condition yes no).machine.script.queue j := by
  rcases hvalue : (Expr.evalText condition Expr.Heap.root).run machine.heap with ⟨value, heap⟩
  rcases hverdict : verdict condition (machine.script.position? id) value with ⟨holds, reports⟩
  simp only [choose, hvalue, hverdict, Played.andThen]
  cases holds with
  | true => exact hyes _ rfl
  | false => exact hno _ rfl

mutual

theorem Block.agrees_read : ∀ (b : Block) (k : Nat) (machine : Machine),
    b.Placed machine.script.queue k →
    machine.script.queue.Agrees (b.read k machine).machine.script.queue (k + b.size)
  | .nil, k, machine, _ => .refl _ _
  | .command c plain rest, k, machine, h => by
    have hfirst := Machine.agrees_obey h.1
    have hrest := rest.agrees_read (k + 1) _ (h.2.agrees hfirst)
    rw [Block.size_command, show k + (rest.size + 1) = k + 1 + rest.size by omega]
    exact (hfirst.mono (by omega)).trans hrest
  | .conditional condition body branches rest, k, machine, h => by
    obtain ⟨-, hbody, hbranches, hrest⟩ := h
    rw [Block.size_conditional, show k + (body.size + branches.size + rest.size + 1) =
      k + 1 + body.size + branches.size + rest.size by omega, Block.read]
    have htaken : machine.script.queue.Agrees (machine.choose k condition (body.read (k + 1))
        (branches.read (k + 1 + body.size))).machine.script.queue
          (k + 1 + body.size + branches.size) := by
      refine Machine.agrees_choose k condition (fun after hscript => ?_) fun after hscript => ?_
      · rw [← hscript] at hbody ⊢
        exact (body.agrees_read _ _ hbody).mono (by omega)
      · rw [← hscript] at hbranches ⊢
        exact branches.agrees_read _ _ _ hbranches
    exact (htaken.mono (by omega)).trans (rest.agrees_read _ _ (hrest.agrees htaken))

theorem Branches.agrees_read : ∀ (b : Branches) (k last : Nat) (machine : Machine),
    b.Placed machine.script.queue k last →
    machine.script.queue.Agrees (b.read k machine).machine.script.queue (k + b.size)
  | .endIf, k, last, machine, _ => .refl _ _
  | .else body, k, last, machine, h => by
    rw [Branches.size_else]
    exact (body.agrees_read (k + 1) machine h.2.2.1).mono (by omega)
  | .elif condition body rest, k, last, machine, h => by
    obtain ⟨-, -, hbody, hrest⟩ := h
    rw [Branches.size_elif, show k + (body.size + rest.size + 1) =
      k + 1 + body.size + rest.size by omega, Branches.read]
    refine Machine.agrees_choose k condition (fun after hscript => ?_) fun after hscript => ?_
    · rw [← hscript] at hbody ⊢
      exact (body.agrees_read _ _ hbody).mono (by omega)
    · rw [← hscript] at hrest ⊢
      exact rest.agrees_read _ _ _ hrest

end

end NovelScript.Script
