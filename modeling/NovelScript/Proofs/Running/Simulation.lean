import NovelScript.Proofs.Running.Tree

/-!
The machine follows the tree. Where the commands of a block without jumps stand on the queue, the
steps of the machine from its first command to behind its last do what the reading of the block
does.
-/

namespace NovelScript.Script

open Machine

/-! ### Steps of single commands -/

/-- No command is a jump. -/
def NoJump (commands : List Command) : Prop := ∀ target, Command.jump target ∉ commands

theorem noJump_append {a b : List Command} : NoJump (a ++ b) ↔ NoJump a ∧ NoJump b := by
  simp only [NoJump, List.mem_append, not_or]
  exact ⟨fun h => ⟨fun t => (h t).1, fun t => (h t).2⟩, fun h t => ⟨h.1 t, h.2 t⟩⟩

theorem NoJump.of_cons {c : Command} {cs : List Command} (h : NoJump (c :: cs)) : NoJump cs :=
  fun target hmem => h target (List.mem_cons_of_mem c hmem)

/-- A command with no part in a conditional, and no jump, leaves the cursor alone. -/
theorem execute_plain {c : Command} (hplain : c.isPlain = true) (hjump : ∀ target, c ≠ .jump target)
    (id : CommandId) (machine : Machine) :
    (machine.execute id c).1 = .nothing ∨ ∃ event, (machine.execute id c).1 = .ask event := by
  unfold execute
  cases c with
  | waitTime time =>
    simp only [wait]
    split
    · exact .inr ⟨_, rfl⟩
    · exact .inl rfl
  | embed source =>
    simp only
    split
    · exact .inr ⟨_, rfl⟩
    · exact .inl rfl
  | define _ | eval _ | label _ _ => exact .inl rfl
  | jump target => exact absurd rfl (hjump target)
  | «if» _ _ | elif _ | «else» | endIf => simp [Command.isPlain] at hplain
  | _ => exact .inr ⟨_, rfl⟩

theorem step_obey (machine : Machine) {k : Nat} {c : Command}
    (hc : machine.script.queue.get? k = some c) (hplain : c.isPlain = true)
    (hjump : ∀ target, c ≠ .jump target) :
    (machine.moveTo k).step? =
      some ((machine.obey k c).actions, (machine.obey k c).machine.moveTo (k + 1)) := by
  rw [step?_moveTo hc]
  rcases execute_plain hplain hjump k machine.told with heffect | ⟨event, heffect⟩
  · rw [heffect]
    simp only [follow_nothing, obey, heffect]
    rfl
  · rw [heffect]
    simp only [follow_ask, obey, heffect]
    rfl

/-- A command may take the cursor behind another one. -/
theorem step_goBehind {machine after : Machine} {k id : Nat} {c : Command}
    (hc : machine.script.queue.get? k = some c)
    (hexecute : machine.told.execute k c = (.goBehind id, after))
    (hid : id < after.script.queue.size) :
    (machine.moveTo k).step? =
      some (after.reports.toList.map .tell, after.told.moveTo (id + 1)) := by
  have hfollow := follow_goBehind (after.moveTo (k + 1)) hid
  rw [step?_moveTo hc, hexecute]
  simp only
  rw [hfollow]
  simp [Effect.event?]
  rfl

/-- Behind a branch the machine goes to the end of its conditional, and does nothing else. -/
theorem step_closes (machine : Machine) {k last : Nat}
    (h : machine.script.queue.Closes k last) :
    (machine.moveTo k).step? = some ([], machine.told.moveTo (last + 1)) := by
  have hlast : last < machine.script.queue.size := (Array.getElem?_eq_some_iff.mp h.endIf).1
  have hscript : machine.told.script = machine.script := rfl
  rcases h.mark with rfl | ⟨helse | ⟨condition, helif⟩, hend⟩
  · rw [step?_moveTo h.endIf]
    rfl
  · have hexecute : machine.told.execute k .else = (.goBehind last, machine.told) := by
      simp only [execute, hscript, hend]
    exact step_goBehind helse hexecute hlast
  · have hexecute : machine.told.execute k (.elif condition) = (.goBehind last, machine.told) := by
      simp only [execute, hscript, hend]
    exact step_goBehind helif hexecute hlast

/-- A condition that holds leads into the first branch. -/
theorem step_if_true (machine : Machine) {after : Machine} {k : Nat} {condition : String}
    {related : List CommandId} (hc : machine.script.queue.get? k = some (.if condition related))
    (htest : machine.told.condition condition (machine.script.position? k) = (true, after)) :
    (machine.moveTo k).step? =
      some (after.reports.toList.map .tell, after.told.moveTo (k + 1)) := by
  have hexecute : machine.told.execute k (.if condition related) = (.nothing, after) := by
    unfold execute
    simp only [show machine.told.script = machine.script from rfl, htest, if_true]
  rw [step?_moveTo hc, hexecute]
  simp [Effect.event?]
  rfl

/-- A condition that does not hold leads behind one of the marks. -/
theorem step_if_false (machine : Machine) {after chosen : Machine} {k id : Nat} {condition : String}
    {related : List CommandId} (hc : machine.script.queue.get? k = some (.if condition related))
    (htest : machine.told.condition condition (machine.script.position? k) = (false, after))
    (hbranch : after.told.branch related = (.goBehind id, chosen))
    (hid : id < machine.script.queue.size) :
    (machine.moveTo k).step? =
      some (after.reports.toList.map .tell ++ chosen.reports.toList.map .tell,
        chosen.told.moveTo (id + 1)) := by
  have hexecute : machine.told.execute k (.if condition related) =
      (.goBehind id, chosen.behind after.reports) := by
    unfold execute
    simp only [show machine.told.script = machine.script from rfl, htest]
    rw [← behind_told after, branch_behind, hbranch]
    simp
    rfl
  have hscript : chosen.script = machine.script := by
    have h1 := script_branch related after.told
    have h2 := script_test condition (machine.script.position? k) machine
    rw [hbranch] at h1
    rw [htest] at h2
    exact h1.trans h2
  rw [step_goBehind hc hexecute (by rw [← hscript] at hid; exact hid)]
  simp [behind]
  rfl

/-! ### Blocks -/

theorem obey_told (id : CommandId) (c : Command) (machine : Machine) :
    machine.told.obey id c = machine.obey id c := rfl

theorem told_obey (id : CommandId) (c : Command) (machine : Machine) :
    (machine.obey id c).machine.told = (machine.obey id c).machine := rfl

/-- Where a branch is finished, the end of the conditional comes next. -/
theorem Machine.Steps.close {n j last : Nat} {a b : Machine} {actions : List Action}
    (h : Steps n a actions (b.told.moveTo j)) (hclose : b.script.queue.Closes j last) :
    Steps (n + 1) a actions (b.told.moveTo (last + 1)) := by
  have hlast := h.trans (.single (step_closes b.told hclose))
  rwa [List.append_nil] at hlast

mutual

/-- **The machine follows a block.** -/
theorem Block.steps : ∀ (b : Block) (k : Nat) (machine : Machine),
    b.Placed machine.script.queue k → NoJump b.commands →
    ∃ n ≤ b.size, Steps n (machine.told.moveTo k) (b.read k machine).actions
      ((b.read k machine).machine.told.moveTo (k + b.size))
  | .nil, k, machine, _, _ => ⟨0, Nat.le_refl 0, .refl _⟩
  | .command c plain rest, k, machine, h, hjump => by
    have hstep := step_obey machine.told h.1 plain fun target heq =>
      hjump target (by simp [Block.commands, heq])
    obtain ⟨n, hn, hrest⟩ := rest.steps (k + 1) (machine.obey k c).machine
      (h.2.agrees (agrees_obey h.1)) hjump.of_cons
    refine ⟨n + 1, by simpa using hn, ?_⟩
    rw [Block.size_command, show k + (rest.size + 1) = k + 1 + rest.size by omega]
    rw [obey_told] at hstep
    rw [told_obey] at hrest
    exact .step hstep hrest
  | .conditional condition body branches rest, k, machine, h, hjump => by
    obtain ⟨hif, hbody, hbranches, hrest⟩ := h
    obtain ⟨hjbody, hjbranches, hjrest⟩ :
        NoJump body.commands ∧ NoJump branches.commands ∧ NoJump rest.commands := by
      have hall := hjump.of_cons
      rwa [noJump_append, noJump_append] at hall
    have hpos := branches.size_pos
    have hend : branches.last (k + 1 + body.size) + 1 = k + 1 + body.size + branches.size := by
      simp only [Branches.last]
      omega
    rcases htest : machine.told.condition condition (machine.script.position? k) with
      ⟨holds, after⟩
    have hscript : after.script = machine.script := by
      have := script_test condition (machine.script.position? k) machine
      rwa [htest] at this
    rw [← hscript] at hbody hbranches hrest
    -- the way to the end of the conditional, through the branch that is taken
    obtain ⟨n, hn, hagrees, hsteps⟩ : ∃ n ≤ body.size + branches.size + 1,
        after.script.queue.Agrees ((if holds then body.read (k + 1)
          else branches.read (k + 1 + body.size)) after.told).machine.script.queue
            (k + 1 + body.size + branches.size) ∧
        Steps n (machine.told.moveTo k)
          (after.reports.toList.map .tell ++ ((if holds then body.read (k + 1)
            else branches.read (k + 1 + body.size)) after.told).actions)
          (((if holds then body.read (k + 1)
            else branches.read (k + 1 + body.size)) after.told).machine.told.moveTo
              (k + 1 + body.size + branches.size)) := by
      cases holds with
      | true =>
        simp only [if_true]
        have hagrees := body.agrees_read (k + 1) after.told hbody
        obtain ⟨n, hn, hsteps⟩ := body.steps (k + 1) after.told hbody hjbody
        have hclosed := hsteps.close (hbranches.closes.agrees hagrees)
        rw [hend] at hclosed
        refine ⟨n + 1 + 1, by omega, hagrees.mono (by omega), ?_⟩
        exact .step (step_if_true machine.told hif htest) hclosed
      | false =>
        simp only [Bool.false_eq_true, if_false]
        have hagrees := branches.agrees_read (k + 1 + body.size) _ after.told hbranches
        obtain ⟨id, chosen, n, later, hbranch, hid, hn, hactions, hsteps⟩ :=
          branches.steps (k + 1 + body.size) _ after.told hbranches hjbranches
        refine ⟨n + 1, by omega, hagrees, ?_⟩
        rw [← hend, hactions, ← List.append_assoc]
        have hsize : id < machine.script.queue.size := hscript ▸ hid
        exact .step (step_if_false machine.told hif htest hbranch hsize) hsteps
    obtain ⟨n', hn', hrests⟩ := rest.steps _ _ (hrest.agrees hagrees) hjrest
    refine ⟨n + n', by rw [Block.size_conditional]; omega, ?_⟩
    rw [Block.size_conditional, show k + (body.size + branches.size + rest.size + 1) =
      k + 1 + body.size + branches.size + rest.size by omega, Block.read, choose_eq htest]
    exact hsteps.trans hrests

/-- **The machine follows branches**: a search among the marks finds the one to go behind. -/
theorem Branches.steps : ∀ (b : Branches) (k last : Nat) (machine : Machine),
    b.Placed machine.script.queue k last → NoJump b.commands →
    ∃ (id : Nat) (chosen : Machine) (n : Nat) (later : List Action),
      machine.told.branch ((b.marks k).map Prod.fst) = (.goBehind id, chosen) ∧
      id < machine.script.queue.size ∧ n ≤ b.size ∧
      (b.read k machine).actions = chosen.reports.toList.map .tell ++ later ∧
      Steps n (chosen.told.moveTo (id + 1)) later ((b.read k machine).machine.told.moveTo (last + 1))
  | .endIf, k, last, machine, h, hjump => by
    obtain ⟨rfl, hend⟩ := h
    refine ⟨k, machine.told, 0, [], ?_, (Array.getElem?_eq_some_iff.mp hend).1, by simp, rfl, .refl _⟩
    simp only [Branches.marks, List.map_cons, List.map_nil, branch]
    rw [show machine.told.script = machine.script from rfl, hend]
  | .else body, k, last, machine, h, hjump => by
    obtain ⟨helse, -, hbody, rfl, hend⟩ := h
    have hjbody : NoJump body.commands := (noJump_append.mp hjump.of_cons).1
    obtain ⟨n, hn, hsteps⟩ := body.steps (k + 1) machine hbody hjbody
    have hclose : Queue.Closes machine.script.queue (k + 1 + body.size) (k + 1 + body.size) :=
      ⟨hend, .inl rfl⟩
    refine ⟨k, machine.told, n + 1, (body.read (k + 1) machine).actions, ?_,
      (Array.getElem?_eq_some_iff.mp helse).1, by simp; omega, rfl, ?_⟩
    · simp only [Branches.marks, List.map_cons, branch]
      rw [show machine.told.script = machine.script from rfl, helse]
    · exact hsteps.close (hclose.agrees (body.agrees_read (k + 1) machine hbody))
  | .elif condition body rest, k, last, machine, h, hjump => by
    obtain ⟨helif, -, hbody, hrest⟩ := h
    obtain ⟨hjbody, hjrest⟩ := noJump_append.mp hjump.of_cons
    rcases htest : machine.told.condition condition (machine.script.position? k) with
      ⟨holds, after⟩
    have hscript : after.script = machine.script := by
      have := script_test condition (machine.script.position? k) machine
      rwa [htest] at this
    have hlt : k < machine.script.queue.size := (Array.getElem?_eq_some_iff.mp helif).1
    rw [← hscript] at hbody hrest
    rw [Branches.read, choose_eq htest]
    have hbranch : machine.told.branch (((Branches.elif condition body rest).marks k).map Prod.fst) =
        if holds then (.goBehind k, after)
        else after.branch ((rest.marks (k + 1 + body.size)).map Prod.fst) := by
      simp only [Branches.marks, List.map_cons, branch]
      rw [show machine.told.script = machine.script from rfl, helif]
      simp only [htest]
    rw [hbranch]
    cases holds with
    | true =>
      obtain ⟨n, hn, hsteps⟩ := body.steps (k + 1) after.told hbody hjbody
      refine ⟨k, after, n + 1, (body.read (k + 1) after.told).actions, rfl, hlt,
        by simp; omega, rfl, ?_⟩
      exact hsteps.close (hrest.closes.agrees (body.agrees_read (k + 1) after.told hbody))
    | false =>
      obtain ⟨id, chosen, n, later, hbranch, hid, hn, hactions, hsteps⟩ :=
        rest.steps (k + 1 + body.size) last after.told hrest hjrest
      rw [told_told] at hbranch
      refine ⟨id, chosen.behind after.reports, n, later, ?_, hscript ▸ hid, by simp; omega, ?_, hsteps⟩
      · simp only [Bool.false_eq_true, if_false]
        rw [← behind_told after, branch_behind, hbranch]
        rfl
      · simp [Played.andThen, hactions, behind]

end

end NovelScript.Script
