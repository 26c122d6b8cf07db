import NovelScript.Proofs.Reading.Labels
import NovelScript.Proofs.Running.Safety

/-!
Jumps of running scripts. Jumps are checked with the labels that a script keeps, but take the label
that is found among its commands. Main statement: the two are the same, whenever a jump is executed;
so a jump leads to the label that is kept, and one that leads nowhere has been found when the script
was read.
-/

namespace NovelScript.Script

variable {declared : List String} {tokens : List Token} {q : Queue} {target : String} {k : Nat}

/-- The label found among the commands of a running script is the one that is kept. -/
theorem findLabel?_agrees
    (ha : (ofTokens declared tokens).1.queue.Agrees q (ofTokens declared tokens).1.queue.size) :
    q.findLabel? target = ((ofTokens declared tokens).1.label? target).map Label.id := by
  have hkept : ∀ id, q.findLabel? target = some id →
      ∃ l, (ofTokens declared tokens).1.label? target = some l ∧ l.id = id := by
    intro id hid
    obtain ⟨headline, hget⟩ := Queue.get?_of_findLabel? hid
    have hget' := ha.symm.get?_eq hget (by simp)
    exact ⟨⟨target, headline, id⟩, label?_ofTokens.mpr ⟨rfl, hget'⟩, rfl⟩
  cases hfind : q.findLabel? target with
  | some id =>
    obtain ⟨l, hl, hid⟩ := hkept id hfind
    rw [hl, Option.map_some, hid]
  | none =>
    cases hl : (ofTokens declared tokens).1.label? target with
    | none => rfl
    | some l =>
      obtain ⟨rfl, hget⟩ := label?_ofTokens.mp hl
      obtain ⟨id, hid⟩ := Queue.exists_of_label (ha.get?_eq hget (by simp))
      rw [hfind] at hid
      cases hid

/-- A jump whose label is not kept has been found, where it stands. -/
theorem undefinedJumpTarget_of_label?
    (h : (ofTokens declared tokens).1.queue.get? k = some (.jump target))
    (hnone : (ofTokens declared tokens).1.label? target = none) :
    ∃ place, (ofTokens declared tokens).1.position? k = some place ∧
      (.undefinedJumpTarget target, some place) ∈ (ofTokens declared tokens).2 := by
  have hget := (alike_tokensRead declared tokens).get?_eq h (by simp)
  rw [label?_tokensRead, label?_eq_none] at hnone
  obtain ⟨place, hplace, hfound⟩ := exists_missingTarget
    (checked_tokensRead declared tokens).positions hget (by simp [hnone])
  refine ⟨place, by rw [script_ofTokens]; exact hplace, ?_⟩
  rw [findings_ofTokens]
  exact List.mem_append_left _ (List.mem_append_left _ (List.mem_append_right _ hfound))

/-- What a jump to `target` does, on a machine that is about to execute it. -/
structure Machine.FollowsLabel (declared : List String) (tokens : List Token) (target : String)
    (machine : Machine) : Prop where
  /-- The label that is found is the one that is kept. -/
  finds : machine.script.queue.findLabel? target =
    ((ofTokens declared tokens).1.label? target).map Label.id
  /-- It is the next command to be executed. -/
  leads : ∀ l, (ofTokens declared tokens).1.label? target = some l →
    ∃ event? after, machine.next? = some (event?, after) ∧ after.cursor = l.id ∧
      after.script.queue.get? after.cursor = some (.label target l.headline)
  /-- If there is none, the jump has been found as an error, where it stands. -/
  missing : (ofTokens declared tokens).1.label? target = none →
    ∃ place, (ofTokens declared tokens).1.position? machine.cursor = some place ∧
      ∃ found ∈ (ofTokens declared tokens).2,
        found = (.undefinedJumpTarget target, some place) ∧ found.1.severity = .error

theorem Machine.followsLabel_of_agrees {machine : Machine}
    (ha : (ofTokens declared tokens).1.queue.Agrees machine.script.queue
      (ofTokens declared tokens).1.queue.size)
    (hc : machine.script.queue.get? machine.cursor = some (.jump target)) :
    machine.FollowsLabel declared tokens target where
  finds := findLabel?_agrees ha
  leads := by
    intro l hl
    have hfinds : machine.script.queue.findLabel? target = some l.id := by
      rw [findLabel?_agrees ha, hl, Option.map_some]
    obtain ⟨event?, after, hnext⟩ : ∃ event? after, machine.next? = some (event?, after) :=
      ⟨_, _, next?_moveTo hc⟩
    have hcursor := cursor_next?_jump hc hnext hfinds
    have hafter := (next?_leads hnext).1
    obtain ⟨rfl, hget⟩ := label?_ofTokens.mp hl
    refine ⟨event?, after, hnext, hcursor, ?_⟩
    rw [hcursor]
    exact hafter.get?_eq (ha.get?_eq hget (by simp)) (by simp)
  missing := by
    intro hnone
    obtain ⟨place, hplace, hfound⟩ :=
      undefinedJumpTarget_of_label? (ha.symm.get?_eq hc (by simp)) hnone
    exact ⟨place, hplace, _, hfound, rfl, rfl⟩

/-- **Labels, positions and jumps agree.** Every command has its place; the labels that a script
keeps are those among its commands, and have the names of its label tokens, each with the first
headline. When it runs, with any variables, from any command on and with whatever times of pauses
have been looked up, every jump takes the label that is kept under its target, or has been found to
have none. -/
theorem labels_and_jumps (declared : List String) (tokens : List Token) :
    let script := (ofTokens declared tokens).1
    script.positions.size = script.queue.size ∧
    (∀ name headline id, script.label? name = some ⟨name, headline, id⟩ ↔
      script.queue.get? id = some (.label name headline)) ∧
    (∀ name, (script.label? name).map Label.headline =
      if name.isEmpty then none else tokens.findSome? (Token.headline? name)) ∧
    ∀ machine : Machine, script.queue.Agrees machine.script.queue script.queue.size →
      ∀ n, ∀ m ∈ machine.visited n, ∀ target,
        m.script.queue.get? m.cursor = some (.jump target) →
          m.FollowsLabel declared tokens target := by
  intro script
  refine ⟨size_positions declared tokens, fun name headline id => ?_,
    headline_ofTokens declared tokens, fun machine hqueue n m hm target hc => ?_⟩
  · exact label?_ofTokens.trans (and_iff_right rfl)
  · exact Machine.followsLabel_of_agrees (Machine.agrees_visited hqueue hm) hc

/-- A script that jumps past a pause to a label that is given twice. -/
def labelGivenTwice : List Token :=
  [tagToken "jump" [⟨"target", "a"⟩], tagToken "l" [], ⟨.label "a" "first", ":a first", {}⟩,
    ⟨.label "a" "second", ":a second", {}⟩]

theorem labels_and_jumps_labelGivenTwice :
    let script := (ofTokens [] labelGivenTwice).1
    let machine : Machine := { script, heap := .single }
    script.label? "a" = some ⟨"a", "first", 2⟩ ∧ script.label? "b" = none ∧
      script.queue.Agrees machine.script.queue script.queue.size ∧
      (machine.visited 3).map Machine.cursor = [0, 2] ∧
      ∀ m ∈ machine.visited 3, ∀ target, m.script.queue.get? m.cursor = some (.jump target) →
        m.FollowsLabel [] labelGivenTwice target := by
  intro script machine
  obtain ⟨-, hlabels, hheadlines, hjumps⟩ := labels_and_jumps [] labelGivenTwice
  have ha : script.queue.get? 2 = some (.label "a" "first") := by decide +kernel
  have hb : (script.label? "b").map Label.headline = none := hheadlines "b"
  have hqueue : script.queue.Agrees machine.script.queue script.queue.size := .refl _ _
  have hcursors : (machine.visited 3).map Machine.cursor = [0, 2] := by decide +kernel
  refine ⟨(hlabels "a" "first" 2).mpr ha, Option.map_eq_none_iff.mp hb, hqueue, hcursors, ?_⟩
  exact hjumps machine hqueue 3

end NovelScript.Script
