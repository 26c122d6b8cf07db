import NovelScript.Proofs.Running.Branches

/-!
Progress of running scripts. A step that takes no jump moves the cursor forward, also where
conditionals are broken. Main statement: only jumps come back to a command, and a run that takes
finitely many jumps ends.
-/

namespace NovelScript.Script

namespace Machine

variable {q : Queue} {machine after : Machine} {event? : Option Event}

/-! ### One step -/

/-- **A step that takes no jump moves the cursor forward.** -/
theorem cursor_lt_cursor (hlists : q.ListsOwn) (hagrees : q.Agrees machine.script.queue q.size)
    (h : machine.next? = some (event?, after)) (hjump : machine.jumps = false) :
    machine.script.queue.cursor < after.script.queue.cursor := by
  rcases (next?_leads h).2 with htaken | hleads
  · simp [hjump] at htaken
  · exact (hleads.agrees hagrees.symm).lt hlists

theorem cursor_lt_size (h : machine.next? = some (event?, after)) :
    machine.script.queue.cursor < machine.script.queue.size := by
  obtain ⟨c, hc, -, -⟩ := exists_of_next? h
  exact (Array.getElem?_eq_some_iff.mp hc).1

/-! ### Many steps -/

/-- Between two jumps there are at most as many steps as commands behind the cursor. -/
theorem length_visited_add_cursor_le (hlists : q.ListsOwn) (n : Nat) : ∀ {machine : Machine},
    q.Agrees machine.script.queue q.size → machine.visited n ≠ [] →
    (machine.visited n).length + machine.script.queue.cursor ≤
      ((machine.visited n).countP jumps + 1) * q.size := by
  induction n with
  | zero => exact fun _ hsome => absurd rfl hsome
  | succ n ih =>
    intro machine hagrees hsome
    cases hnext : machine.next? with
    | none => simp [visited, hnext] at hsome
    | some next =>
      obtain ⟨event?, after⟩ := next
      have hlt : machine.script.queue.cursor < q.size := hagrees.size ▸ cursor_lt_size hnext
      have hafter : q.Agrees after.script.queue q.size :=
        hagrees.trans (hagrees.size ▸ (next?_leads hnext).1)
      rw [visited_succ hnext, List.length_cons]
      by_cases hrest : after.visited n = []
      · rw [hrest, List.length_nil, Nat.succ_mul]
        omega
      · have hbound := ih hafter hrest
        cases hjump : machine.jumps with
        | false =>
          have hforward := cursor_lt_cursor hlists hagrees hnext hjump
          rw [List.countP_cons_of_neg (by simp [hjump])]
          omega
        | true =>
          -- the jump may lead back to the first command, but is counted
          rw [List.countP_cons_of_pos hjump, Nat.succ_mul]
          omega

theorem length_visited_le (hlists : q.ListsOwn) (hagrees : q.Agrees machine.script.queue q.size)
    (n : Nat) : (machine.visited n).length ≤ ((machine.visited n).countP jumps + 1) * q.size := by
  by_cases hnone : machine.visited n = []
  · simp [hnone]
  · have hbound := length_visited_add_cursor_le hlists n hagrees hnone
    omega

/-- A run that is not over has taken all the steps that it was given. -/
theorem length_visited_of_unfinished {σ : Type} (host : Host (StateM σ)) (n : Nat) :
    ∀ (machine : Machine) (log : Array Report) (world : σ),
      ((run host n machine log).run world).1.1 = .unfinished → (machine.visited n).length = n := by
  induction n with
  | zero => exact fun _ _ _ _ => rfl
  | succ n ih =>
    intro machine log world hover
    cases hnext : machine.next? with
    | none =>
      rw [run_none host hnext] at hover
      cases hover
    | some next =>
      obtain ⟨event?, after⟩ := next
      rw [visited_succ hnext, List.length_cons]
      refine congrArg (· + 1) ?_
      cases event? with
      | none =>
        rw [run_quiet host hnext] at hover
        exact ih _ _ _ hover
      | some event =>
        rw [run_asking host hnext] at hover
        simp only at hover
        split at hover
        · exact ih _ _ _ hover
        · cases hover

end Machine

/-! ### Runs -/

/-- **Only jumps return.** A machine runs the commands of a script, whose conditionals may be
broken, from any of them on, with any variables, and with whatever times of pauses have been looked
up before. A step that takes no jump moves the cursor forward; between two jumps that are taken no
command is executed twice; and with few jumps a run soon ends, whoever watches. -/
theorem only_jumps_return (declared : List String) (tokens : List Token) (machine : Machine)
    (hqueue : (ofTokens declared tokens).1.queue.Agrees machine.script.queue
      (ofTokens declared tokens).1.queue.size) :
    let q := (ofTokens declared tokens).1.queue
    (∀ {μ : Type → Type} [Monad μ] (host : Host μ) (n : Nat) (log : Array Report),
      Machine.run host n machine log =
        (machine.visited n).foldr (Machine.watch host) (Machine.leave host n machine) log) ∧
    (∀ n : Nat, ∀ m ∈ machine.visited n, ∀ (event? : Option Event) (after : Machine),
      m.next? = some (event?, after) → m.jumps = false → m.cursor < after.cursor) ∧
    (∀ (n : Nat) (stretch : List Machine), stretch <:+: machine.visited n →
      (∀ m ∈ stretch.dropLast, m.jumps = false) → (stretch.map Machine.cursor).Nodup) ∧
    ∀ jumps n : Nat, (machine.visited n).countP Machine.jumps ≤ jumps → (jumps + 1) * q.size < n →
      ∀ {σ : Type} (host : Host (StateM σ)) (log : Array Report) (world : σ),
        ((Machine.run host n machine log).run world).1.1 ≠ .unfinished := by
  intro q
  have hlists : q.ListsOwn := listsOwn_ofTokens declared tokens
  refine ⟨fun host n log => Machine.run_eq_watch host n machine log, ?_, ?_, ?_⟩
  · intro n m hm event? after hnext hjump
    have hagrees : q.Agrees m.script.queue q.size := Machine.agrees_visited hqueue hm
    exact Machine.cursor_lt_cursor hlists hagrees hnext hjump
  · intro n stretch hstretch hjumps
    have hchain : (stretch.map Machine.cursor).IsChain fun k k' : Nat => k < k' :=
      (isChain_leads_of_stretch hqueue hstretch hjumps).imp fun _ _ hleads => hleads.lt hlists
    exact (List.isChain_iff_pairwise.mp hchain).imp Nat.ne_of_lt
  · intro jumps n hcount hsteps σ host log world hover
    have hall := Machine.length_visited_of_unfinished host n machine log world hover
    have hbound := Machine.length_visited_le hlists hqueue n
    have hmost : ((machine.visited n).countP Machine.jumps + 1) * q.size ≤ (jumps + 1) * q.size :=
      Nat.mul_le_mul_right q.size (Nat.succ_le_succ hcount)
    omega

/-- A script with a broken conditional in a loop, which is run twice. -/
def brokenLoop : List Token :=
  [tagToken "var" [⟨"again", "true"⟩], ⟨.label "top" "", ":top", {}⟩, tagToken "if" [⟨"exp", "a"⟩],
    tagToken "else" [], tagToken "else" [], tagToken "endif" [], tagToken "if" [⟨"exp", "again"⟩],
    tagToken "eval" [⟨"exp", "again = false"⟩], tagToken "jump" [⟨"target", "top"⟩],
    tagToken "endif" [], tagToken "r" []]

theorem only_jumps_return_brokenLoop :
    let script := (ofTokens [] brokenLoop).1
    let machine : Machine := { script, heap := .single }
    let stretch := (machine.visited 23).drop 9
    script.structuralErrors = 1 ∧
      script.queue.Agrees machine.script.queue script.queue.size ∧
      (machine.visited 23).map Machine.cursor = [0, 1, 2, 3, 4, 5, 6, 7, 8, 1, 2, 3, 4, 5, 6, 10] ∧
      stretch <:+: machine.visited 23 ∧ (∀ m ∈ stretch.dropLast, m.jumps = false) ∧
      (stretch.map Machine.cursor).Nodup ∧
      (machine.visited 23).countP Machine.jumps ≤ 1 ∧ 2 * script.queue.size < 23 ∧
      ((Machine.run Host.recorder 23 machine #[]).run []).1.1 ≠ .unfinished := by
  intro script machine stretch
  have herrors : script.structuralErrors = 1 := by decide +kernel
  have hqueue : script.queue.Agrees machine.script.queue script.queue.size := .refl _ _
  have hcursors : (machine.visited 23).map Machine.cursor =
      [0, 1, 2, 3, 4, 5, 6, 7, 8, 1, 2, 3, 4, 5, 6, 10] := by decide +kernel
  have hstretch : stretch <:+: machine.visited 23 := (List.drop_suffix _ _).isInfix
  have hjumps : ∀ m ∈ stretch.dropLast, m.jumps = false := by decide +kernel
  have hcount : (machine.visited 23).countP Machine.jumps ≤ 1 := by decide +kernel
  have hsize : 2 * script.queue.size < 23 := by decide +kernel
  obtain ⟨-, -, hnodup, hends⟩ := only_jumps_return [] brokenLoop machine hqueue
  exact ⟨herrors, hqueue, hcursors, hstretch, hjumps, hnodup 23 stretch hstretch hjumps, hcount,
    hsize, hends 1 23 hcount hsize Host.recorder #[] []⟩

end NovelScript.Script
