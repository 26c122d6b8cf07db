import Mathlib.Data.List.Chain
import NovelScript.Proofs.Running.Simulation

/-!
The commands that a run executes, one after the other. A run goes through machines, each with its
cursor at the command that it executes next. Main statements: what a host sees of a run is these
commands up to the one at which it stops the run; and a step that takes no jump leads to the next
command, from a conditional behind one of its marks, or from a mark behind the end it finds.
-/

namespace NovelScript.Script

namespace Machine

/-- The number of the command that is executed next. -/
def cursor (machine : Machine) : CommandId := machine.script.queue.cursor

/-- Whether the next command is a jump to a label that there is. -/
def jumps (machine : Machine) : Bool :=
  match machine.script.queue.get? machine.cursor with
  | some (.jump target) => (machine.script.queue.findLabel? target).isSome
  | _ => false

/-- The machines that at most `n` steps go through, each before the command that it executes. -/
def visited : Nat → Machine → List Machine
  | 0, _ => []
  | n + 1, machine =>
    match machine.next? with
    | none => []
    | some (_, after) => machine :: visited n after

theorem visited_succ {machine after : Machine} {event? : Option Event}
    (h : machine.next? = some (event?, after)) (n : Nat) :
    machine.visited (n + 1) = machine :: after.visited n := by
  rw [visited, h]

/-- Each machine visited is behind the step of the one before. -/
theorem isChain_visited (n : Nat) : ∀ machine : Machine,
    (machine.visited n).IsChain fun a b => ∃ event?, a.next? = some (event?, b) := by
  induction n with
  | zero => exact fun machine => .nil
  | succ n ih =>
    intro machine
    cases hnext : machine.next? with
    | none => simp [visited, hnext]
    | some next =>
      obtain ⟨event?, after⟩ := next
      rw [visited_succ hnext, List.isChain_cons]
      refine ⟨fun b hb => ?_, ih after⟩
      have hafter : b = after := by
        cases n with
        | zero => simp [visited] at hb
        | succ n =>
          rw [visited] at hb
          split at hb
          · cases hb
          · exact (Option.some.inj hb).symm
      exact ⟨event?, hafter ▸ hnext⟩

/-! ### Runs of a host -/

section Run

variable {μ : Type → Type} [Monad μ]

/-- The host's part in the next step. The run goes on unless the host gives a reason to stop. -/
def watch (host : Host μ) (machine : Machine)
    (goOn : Array Report → μ (Outcome × Machine × Array Report)) (log : Array Report) :
    μ (Outcome × Machine × Array Report) :=
  match machine.next? with
  | none => goOn log
  | some (event?, after) => do
    tellAll host after.reports
    let log := log ++ after.reports
    match event? with
    | none => goOn log
    | some event =>
      match ← host.perform event with
      | none => goOn log
      | some reason => pure (.interrupted reason, after, log)

/-- The end of a run of at most `n` steps that the host has not stopped. -/
def leave (host : Host μ) : Nat → Machine → Array Report → μ (Outcome × Machine × Array Report)
  | 0, machine, log => pure (.unfinished, machine, log)
  | n + 1, machine, log =>
    match machine.next? with
    | none => do
      host.tell .finished
      pure (.finished, machine, log.push .finished)
    | some (_, after) => leave host n after log

/-- **A run takes the steps of the machines visited**, in their order, until it is stopped. -/
theorem run_eq_watch (host : Host μ) (n : Nat) : ∀ (machine : Machine) (log : Array Report),
    run host n machine log =
      (machine.visited n).foldr (watch host) (leave host n machine) log := by
  induction n with
  | zero => exact fun machine log => rfl
  | succ n ih =>
    intro machine log
    cases hnext : machine.next? with
    | none => simp only [run, visited, hnext, List.foldr_nil, leave]
    | some next =>
      obtain ⟨event?, after⟩ := next
      have hrest : ∀ log, run host n after log =
          (after.visited n).foldr (watch host) (leave host (n + 1) machine) log := by
        intro log
        have hleave : leave host (n + 1) machine = leave host n after := by
          funext log
          rw [leave, hnext]
        rw [hleave, ih after log]
      rw [visited_succ hnext, List.foldr_cons, watch, run, hnext]
      refine bind_congr fun _ => ?_
      cases event? with
      | none => exact hrest _
      | some event =>
        refine bind_congr fun reason? => ?_
        cases reason? with
        | none => exact hrest _
        | some reason => rfl

end Run

end Machine

/-! ### Where a step leads -/

namespace Queue

variable {q q' : Queue} {k k' : Nat}

/-- The command is a mark between two branches. -/
def Divides (q : Queue) (k : Nat) : Prop :=
  q.get? k = some .else ∨ ∃ condition, q.get? k = some (.elif condition)

/-- Where a step that takes no jump may lead from the command `k`. -/
inductive Leads (q : Queue) (k : Nat) : Nat → Prop
  | next (h : ∀ last, q.Divides k → q.endOf? k = some last → q.size ≤ last) : Leads q k (k + 1)
  | branch {condition : String} {related : List CommandId} {m : Nat}
      (hif : q.get? k = some (.if condition related)) (hm : m ∈ related) : Leads q k (m + 1)
  | close {last : Nat} (hdivides : q.Divides k) (h : q.endOf? k = some last) : Leads q k (last + 1)

/-- A command that is no mark between two branches may lead to the next one. -/
theorem leads_next {c : Command} (hc : q.get? k = some c) (helse : c ≠ .else)
    (helif : ∀ condition, c ≠ .elif condition) : q.Leads k (k + 1) := by
  refine .next fun last hdivides _ => ?_
  rcases hdivides with h | ⟨condition, h⟩
  · exact absurd (Option.some.inj (hc.symm.trans h)) helse
  · exact absurd (Option.some.inj (hc.symm.trans h)) (helif condition)

theorem Agrees.symm (h : q.Agrees q' q.size) : q'.Agrees q q'.size where
  size := h.size.symm
  same j hj := (h.same j (h.size ▸ hj)).symm
  waits j := by
    rcases h.waits j with heq | ⟨time, time', ht, ht'⟩
    · exact .inl heq.symm
    · exact .inr ⟨time', time, ht', ht⟩

/-- The cursor makes no difference to which commands there are. -/
theorem Agrees.of_commands {q'' : Queue} (ha : q.Agrees q' k)
    (h : q''.commands = q'.commands) : q.Agrees q'' k where
  size := by
    rw [← ha.size, Queue.size, Queue.size, h]
  same j hj := by
    rw [← ha.same j hj, Queue.get?, Queue.get?, h]
  waits j := by
    have hget : q''.get? j = q'.get? j := by rw [Queue.get?, Queue.get?, h]
    rw [hget]
    exact ha.waits j

theorem Divides.agrees (h : q.Divides k) (ha : q.Agrees q' q.size) : q'.Divides k :=
  h.imp (fun h => ha.get?_eq h (by simp)) fun ⟨condition, h⟩ => ⟨condition, ha.get?_eq h (by simp)⟩

/-- The times of pauses make no difference to where steps lead. -/
theorem Leads.agrees (h : q.Leads k k') (ha : q.Agrees q' q.size) : q'.Leads k k' := by
  cases h with
  | next h =>
    refine .next fun last hdivides hlast => ?_
    rw [ha.size]
    exact h last (hdivides.agrees ha.symm) ((ha.endOf?_eq k).symm.trans hlast)
  | branch hif hm => exact .branch (ha.get?_eq hif (by simp)) hm
  | close hdivides h => exact .close (hdivides.agrees ha) ((ha.endOf?_eq k).trans h)

end Queue

namespace Machine

variable {machine after : Machine} {k : Nat} {c : Command}

/-- A search for the branch to take goes behind one of the marks, if it goes anywhere. -/
theorem branch_effect (marks : List CommandId) : ∀ machine : Machine,
    (machine.branch marks).1 = .nothing ∨ ∃ m ∈ marks, (machine.branch marks).1 = .goBehind m := by
  induction marks with
  | nil => exact fun machine => .inl rfl
  | cons id rest ih =>
    intro machine
    have hrest : ∀ machine : Machine, (machine.branch rest).1 = .nothing ∨
        ∃ m ∈ id :: rest, (machine.branch rest).1 = .goBehind m :=
      fun machine => (ih machine).imp_right fun ⟨m, hm, h⟩ => ⟨m, List.mem_cons_of_mem id hm, h⟩
    rw [branch]
    split
    · simp only
      split
      · exact .inr ⟨id, List.mem_cons_self, rfl⟩
      · exact hrest _
    · exact .inr ⟨id, List.mem_cons_self, rfl⟩
    · exact .inr ⟨id, List.mem_cons_self, rfl⟩
    · exact hrest machine

/-- Going behind a command leads there, if there is such a command. -/
theorem cursor_goBehind (id : CommandId) (q : Queue) :
    (move (.goBehind id) q).cursor = if id < q.size then id + 1 else q.cursor := by
  by_cases h : id < q.size
  · have hget : q.get? id = some q.commands[id] := Array.getElem?_eq_getElem h
    have hget' : Queue.get? { q with cursor := id } id = some q.commands[id] := hget
    simp [move, Queue.seek?, h, Queue.dequeue?, hget']
  · simp [move, Queue.seek?, h]

theorem leads_goBehind {id : CommandId} {q : Queue} (hid : id < q.size → q.Leads k (id + 1))
    (hnext : q.size ≤ id → q.Leads k (k + 1)) :
    q.Leads k (move (.goBehind id) { q with cursor := k + 1 }).cursor := by
  rw [cursor_goBehind]
  split
  · exact hid ‹_›
  · exact hnext (Nat.le_of_not_lt ‹_›)

/-- Executing a command takes a jump, or leads where a step may lead. -/
theorem execute_leads (hc : machine.script.queue.get? k = some c) :
    (∃ target label, c = .jump target ∧ machine.script.queue.findLabel? target = some label) ∨
      machine.script.queue.Leads k
        (move (machine.execute k c).1 { machine.script.queue with cursor := k + 1 }).cursor := by
  by_cases hplain : c.isPlain = true
  · by_cases hjump : ∃ target, c = .jump target
    · obtain ⟨target, rfl⟩ := hjump
      cases hlabel : machine.script.queue.findLabel? target with
      | some label => exact .inl ⟨target, label, rfl, hlabel⟩
      | none =>
        right
        simp only [execute, hlabel]
        exact Queue.leads_next hc (by simp) (by simp)
    · right
      have hnext : machine.script.queue.Leads k (k + 1) := by
        refine Queue.leads_next hc ?_ fun condition => ?_ <;> rintro rfl <;>
          simp [Command.isPlain] at hplain
      have hnojump : ∀ target, c ≠ .jump target := fun target heq => hjump ⟨target, heq⟩
      rcases execute_plain hplain hnojump k machine with h | ⟨event, h⟩ <;> rw [h] <;> exact hnext
  · right
    have hmark : machine.script.queue.Divides k →
        (∀ last, machine.script.queue.endOf? k = some last →
          (machine.execute k c).1 = .goBehind last) →
        (machine.script.queue.endOf? k = none → (machine.execute k c).1 = .nothing) →
        machine.script.queue.Leads k
          (move (machine.execute k c).1 { machine.script.queue with cursor := k + 1 }).cursor := by
      intro hdivides hsome hnone
      cases hend : machine.script.queue.endOf? k with
      | none =>
        rw [hnone hend]
        exact .next fun last _ h => by simp [hend] at h
      | some last =>
        rw [hsome last hend]
        refine leads_goBehind (fun _ => .close hdivides hend) fun hlast => .next fun last' _ h => ?_
        rw [hend] at h
        exact Option.some.inj h ▸ hlast
    cases c with
    | «if» condition related =>
      have hnext : machine.script.queue.Leads k (k + 1) := Queue.leads_next hc (by simp) (by simp)
      simp only [execute]
      split
      · exact hnext
      · rcases branch_effect related
          (machine.condition condition (machine.script.position? k)).2 with h | ⟨m, hm, h⟩
        · rw [h]
          exact hnext
        · rw [h]
          exact leads_goBehind (fun _ => .branch hc hm) fun _ => hnext
    | elif condition =>
      refine hmark (.inr ⟨condition, hc⟩) (fun last h => ?_) fun h => ?_ <;> simp only [execute, h]
    | «else» =>
      refine hmark (.inl hc) (fun last h => ?_) fun h => ?_ <;> simp only [execute, h]
    | endIf => exact Queue.leads_next hc (by simp) (by simp)
    | _ => simp [Command.isPlain] at hplain

theorem commands_move (effect : Effect) (q : Queue) : (move effect q).commands = q.commands := by
  cases effect with
  | goTo id =>
    simp only [move, Queue.seek?]
    split <;> rfl
  | goBehind id =>
    simp only [move, Queue.seek?]
    split
    · simp only [Option.bind_some, Queue.dequeue?]
      cases Queue.get? { q with cursor := id } id <;> rfl
    · rfl
  | _ => rfl

/-- Where an effect takes the cursor depends on the cursor and the number of commands alone. -/
theorem cursor_move_eq (effect : Effect) {q q' : Queue} (hsize : q.size = q'.size)
    (hcursor : q.cursor = q'.cursor) : (move effect q).cursor = (move effect q').cursor := by
  cases effect with
  | goTo id =>
    simp only [move, Queue.seek?, hsize]
    split
    · rfl
    · exact hcursor
  | goBehind id => rw [cursor_goBehind, cursor_goBehind, hsize, hcursor]
  | _ => exact hcursor

/-- A step executes the command at the cursor, and takes the cursor where its effect says. -/
theorem exists_of_next? {event? : Option Event} (h : machine.next? = some (event?, after)) :
    ∃ c, machine.script.queue.get? machine.cursor = some c ∧
      event? = (machine.told.execute machine.cursor c).1.event? ∧
      after = ((machine.told.execute machine.cursor c).2.moveTo (machine.cursor + 1)).follow
        (machine.told.execute machine.cursor c).1 := by
  cases hc : machine.script.queue.get? machine.cursor with
  | none =>
    rw [show machine.next? = none from next?_end hc] at h
    cases h
  | some c =>
    rw [show machine.next? = _ from next?_moveTo hc] at h
    obtain ⟨rfl, rfl⟩ := Prod.mk.inj (Option.some.inj h)
    exact ⟨c, rfl, rfl, rfl⟩

/-- Where a step takes the cursor depends on its effect alone. -/
theorem cursor_follow {c : Command} (hc : machine.script.queue.get? k = some c)
    (effect : Effect) :
    (((machine.told.execute k c).2.moveTo (k + 1)).follow effect).cursor =
      (move effect { machine.script.queue with cursor := k + 1 }).cursor :=
  cursor_move_eq effect (agrees_obey hc).size rfl

/-- **A step** leaves the commands alone, up to the times of pauses; it takes a jump, or leads where
a step may lead. -/
theorem next?_leads {event? : Option Event} (h : machine.next? = some (event?, after)) :
    machine.script.queue.Agrees after.script.queue machine.script.queue.size ∧
      (machine.jumps = true ∨ machine.script.queue.Leads machine.cursor after.cursor) := by
  obtain ⟨c, hc, -, rfl⟩ := exists_of_next? h
  refine ⟨?_, ?_⟩
  · have hlt : machine.cursor < machine.script.queue.size := (Array.getElem?_eq_some_iff.mp hc).1
    exact ((agrees_obey hc).mono hlt).of_commands (commands_move _ _)
  · have hget : machine.told.script.queue.get? machine.cursor = some c := hc
    rcases execute_leads hget with ⟨target, label, rfl, hlabel⟩ | hleads
    · left
      have hfound : machine.script.queue.findLabel? target = some label := hlabel
      simp only [jumps, hc, hfound, Option.isSome_some]
    · right
      rw [cursor_follow hc]
      exact hleads

/-- All machines visited have the same commands, up to the times of pauses. -/
theorem agrees_of_mem_visited (n : Nat) : ∀ {machine m : Machine}, m ∈ machine.visited n →
    machine.script.queue.Agrees m.script.queue machine.script.queue.size := by
  induction n with
  | zero => exact fun h => absurd h List.not_mem_nil
  | succ n ih =>
    intro machine m hm
    cases hnext : machine.next? with
    | none =>
      rw [visited, hnext] at hm
      exact absurd hm List.not_mem_nil
    | some next =>
      obtain ⟨event?, after⟩ := next
      rw [visited_succ hnext] at hm
      rcases List.mem_cons.mp hm with rfl | hm
      · exact .refl _ _
      · have hstep := (next?_leads hnext).1
        exact hstep.trans (hstep.size ▸ ih hm)

/-- What agrees with the commands at first, agrees with them throughout. -/
theorem agrees_visited {q : Queue} {m : Machine} {n : Nat}
    (h : q.Agrees machine.script.queue q.size) (hm : m ∈ machine.visited n) :
    q.Agrees m.script.queue q.size :=
  h.trans (h.size ▸ agrees_of_mem_visited n hm)

end Machine

end NovelScript.Script
