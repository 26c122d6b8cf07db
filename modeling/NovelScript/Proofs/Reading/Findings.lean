import NovelScript.Proofs.Conditionals.Validation

/-!
What is found in a script. The findings are those made while the tokens were read, those of the
jumps, those of the conditionals and a summary, in this order; each fault of a conditional is an
error. So a script without errors has no structural ones, and a label for every jump.
-/

namespace NovelScript.Script

/-! ### Faults of conditionals -/

namespace Nesting

theorem severity_of_fault? {marks : List (CommandId × Mark)} {fault : Finding × CommandId}
    (h : fault? marks = some fault) : fault.1.severity = .error := by
  unfold fault? at h
  split at h
  · cases h
  · split at h
    · rw [← Option.some.inj h]
      rfl
    · obtain ⟨p, -, rfl⟩ := Option.map_eq_some_iff.mp h
      rfl

/-- All faults are errors. -/
def Severe (n : Nesting) : Prop := ∀ fault ∈ n.faults, fault.1.severity = .error

variable {n : Nesting}

theorem Severe.push (h : n.Severe) {fault : Finding × CommandId}
    (hfault : fault.1.severity = .error) (stack : List OpenIf) :
    Severe { n with stack, faults := n.faults.push fault } := by
  intro f hf
  rcases Array.mem_push.mp hf with hold | rfl
  · exact h f hold
  · exact hfault

theorem Severe.close (h : n.Severe) (id : CommandId) (marks : List (CommandId × Mark)) :
    (n.close id marks).Severe := by
  unfold Nesting.close
  cases hfault : fault? marks with
  | some fault => exact h.push (severity_of_fault? hfault) n.stack
  | none => exact h

theorem Severe.mark (h : n.Severe) (id : CommandId) (m : Mark) : (n.mark id m).Severe := by
  unfold Nesting.mark
  split
  · exact h.push rfl n.stack
  · rename_i innermost outer _
    simp only
    split
    · have houter : Severe { n with stack := outer } := h
      exact houter.close _ _
    · exact h

theorem Severe.read (h : n.Severe) (id : CommandId) (c : Command) : (n.read id c).Severe := by
  cases c with
  | elif condition => exact h.mark id .elif
  | «else» => exact h.mark id .else
  | endIf => exact h.mark id .endIf
  | _ => exact h

theorem Severe.readAll (cs : List Command) :
    ∀ {n : Nesting} (id : CommandId), n.Severe → (n.readAll id cs).Severe := by
  induction cs with
  | nil => exact fun id h => h
  | cons c cs ih => exact fun id h => ih (id + 1) (h.read id c)

theorem severe_ofQueue (q : Queue) : (ofQueue q).Severe := by
  have hread : (readAll {} 0 q.commands.toList).Severe := Severe.readAll _ 0 (by simp [Severe])
  intro fault hfault
  rcases Array.mem_append.mp hfault with hf | hf
  · exact hread fault hf
  · obtain ⟨o, -, rfl⟩ := Array.mem_map.mp hf
    rfl

/-- All faults count as errors, wherever they are found. -/
theorem Severe.length_filter (h : n.Severe) (place : Finding × CommandId → Option Position) :
    ((n.faults.toList.map fun fault => (fault.1, place fault)).filter
      (·.1.severity = .error)).length = n.faults.size := by
  rw [List.filter_eq_self.mpr, List.length_map, Array.length_toList]
  intro found hfound
  obtain ⟨fault, hfault, rfl⟩ := List.mem_map.mp hfound
  exact decide_eq_true (h fault (Array.mem_toList_iff.mp hfault))

end Nesting

/-! ### The findings, check by check -/

/-- The finding that a command is a jump without a label. -/
def missingTarget? (script : Script) (read : Command × Position) :
    Option (Finding × Option Position) :=
  match read with
  | (.jump target, place) =>
    if script.hasLabel target then none else some (.undefinedJumpTarget target, some place)
  | _ => none

namespace Builder

theorem findings_checkJumps (b : Builder) :
    b.checkJumps.findings.toList = b.findings.toList ++
      (b.script.queue.commands.zip b.script.positions).toList.filterMap
        b.script.missingTarget? := by
  unfold checkJumps
  rw [← Array.foldl_toList]
  generalize (b.script.queue.commands.zip b.script.positions).toList = all
  induction all generalizing b with
  | nil => simp
  | cons read rest ih =>
    rw [List.foldl_cons, ih]
    obtain ⟨c, place⟩ := read
    cases c with
    | jump target =>
      by_cases hlabel : b.script.hasLabel target = true
      · simp [missingTarget?, hlabel]
      · simp [missingTarget?, hlabel, report]
    | _ => exact congrArg (b.findings.toList ++ ·) (List.filterMap_cons_none rfl).symm

theorem findings_foldl_report (place : CommandId → Position)
    (faults : List (Finding × CommandId)) : ∀ b : Builder,
    (faults.foldl (fun b fault => b.report fault.1 (place fault.2)) b).findings.toList =
      b.findings.toList ++ faults.map fun fault => (fault.1, some (place fault.2)) := by
  induction faults with
  | nil => simp
  | cons fault faults ih =>
    intro b
    rw [List.foldl_cons, ih]
    simp [report]

theorem findings_checkNesting (b : Builder) :
    b.checkNesting.findings.toList = b.findings.toList ++
      (Nesting.ofQueue b.script.queue).faults.toList.map fun fault =>
        (fault.1, some ((b.script.position? fault.2).getD {})) := by
  unfold checkNesting
  simp only
  rw [← Array.foldl_toList]
  exact findings_foldl_report (fun id => (b.script.position? id).getD {}) _ _

end Builder

/-- **All findings of a script.** -/
theorem findings_ofTokens (declared : List String) (tokens : List Token) :
    let b := tokensRead declared tokens
    (ofTokens declared tokens).2 = b.findings.toList ++
      (b.script.queue.commands.zip b.script.positions).toList.filterMap b.script.missingTarget? ++
      ((Nesting.ofQueue b.script.queue).faults.toList.map fun fault =>
        (fault.1, some ((b.script.position? fault.2).getD {}))) ++
      [(.summary b.script.queue.size b.script.labels.size, none)] := by
  intro b
  show b.checkJumps.checkNesting.summarize.findings.toList = _
  rw [Builder.summarize, Array.toList_push, script_checkNesting, Builder.findings_checkNesting,
    Builder.findings_checkJumps, script_checkJumps]
  simp only [Queue.size_relate]

/-- Each structural error is found as an error. -/
theorem structuralErrors_le (declared : List String) (tokens : List Token) :
    (ofTokens declared tokens).1.structuralErrors ≤
      ((ofTokens declared tokens).2.filter (·.1.severity = .error)).length := by
  have hfaults := (Nesting.severe_ofQueue (tokensRead declared tokens).script.queue).length_filter
    fun fault => some (((tokensRead declared tokens).script.position? fault.2).getD {})
  rw [script_ofTokens, findings_ofTokens]
  simp only [List.filter_append, List.length_append, hfaults]
  omega

/-- A script in which no error is found has no structural one. -/
theorem structuralErrors_of_clean {declared : List String} {tokens : List Token}
    (h : ∀ found ∈ (ofTokens declared tokens).2, found.1.severity ≠ .error) :
    (ofTokens declared tokens).1.structuralErrors = 0 := by
  have hle := structuralErrors_le declared tokens
  rw [List.filter_eq_nil_iff.mpr fun found hfound => by simpa using h found hfound] at hle
  exact Nat.le_zero.mp hle

end NovelScript.Script
