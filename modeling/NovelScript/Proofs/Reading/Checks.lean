import NovelScript.Proofs.Reading.Findings

/-!
Scripts without errors. What a check passes holds of the commands themselves: if no error is found,
every expression can be read, and every jump finds a label.
-/

namespace NovelScript.Script

theorem Command.sources_bare (c : Command) : c.bare.sources = c.sources := by cases c <;> rfl

namespace Queue

variable {q : Queue} {k : Nat} {c : Command}

theorem get?_enqueue (added : Command) :
    (q.enqueue added).2.get? k = some c ↔ q.get? k = some c ∨ k = q.size ∧ added = c := by
  show (q.commands.push added)[k]? = some c ↔ q.commands[k]? = some c ∨ k = q.commands.size ∧ _
  rw [Array.getElem?_push]
  split
  · rename_i hk
    simp [hk]
  · simp [*]

/-- What is found as a label is one of that name. -/
theorem get?_of_findLabel? {name : String} {label : CommandId}
    (h : q.findLabel? name = some label) : ∃ headline, q.get? label = some (.label name headline) := by
  have hname := List.find?_some h
  split at hname
  · rename_i n headline hget
    obtain rfl : n = name := of_decide_eq_true hname
    exact ⟨headline, hget⟩
  · cases hname

/-- A label that there is, is found. -/
theorem exists_of_label {name headline : String} (h : q.get? k = some (.label name headline)) :
    ∃ label, q.findLabel? name = some label := by
  refine Option.isSome_iff_exists.mp (List.find?_isSome.mpr ⟨k, ?_, by simp [h]⟩)
  have hlt : k < q.size := (Array.getElem?_eq_some_iff.mp h).1
  simp [findAll, hlt, h, Command.kind]

end Queue

/-! ### While the tokens are read -/

namespace Builder

/-- What holds of a script at any time while its tokens are read. -/
structure Checked (b : Builder) : Prop where
  /-- An expression that cannot be read is found. -/
  parses : b.Clean → ∀ c ∈ b.script.queue.commands, c.Parses
  /-- The labels that are kept are those among the commands. -/
  labels : ∀ l, l ∈ b.script.labels ↔
    b.script.queue.get? l.id = some (.label l.name l.headline)
  distinct : (b.script.labels.toList.map Label.name).Nodup
  /-- Every command has its place. -/
  positions : b.script.positions.size = b.script.queue.commands.size

theorem checked_start (declared : List String) : Checked { declared } :=
  ⟨by simp, by simp [Queue.get?], by simp, rfl⟩

variable {b b' : Builder}

theorem parses_add (h : b.Clean → ∀ c ∈ b.script.queue.commands, c.Parses) {c : Command}
    (hc : b.Clean → c.Parses) (place : Position) (hclean : (b.add c place).Clean) :
    ∀ c' ∈ (b.add c place).script.queue.commands, c'.Parses := by
  intro c' hc'
  rcases Array.mem_push.mp hc' with hold | rfl
  · exact h hclean c' hold
  · exact hc hclean

theorem size_positions_add (h : b.script.positions.size = b.script.queue.commands.size)
    (c : Command) (place : Position) :
    (b.add c place).script.positions.size = (b.add c place).script.queue.commands.size := by
  simp only [Builder.add, Queue.enqueue, Array.size_push, h]

/-- A command that is no label makes no difference to the labels. -/
theorem Checked.add (h : b.Checked) {c : Command} (hc : b.Clean → c.Parses)
    (hnone : ∀ name headline, c ≠ .label name headline) (place : Position) :
    (b.add c place).Checked where
  parses := parses_add h.parses hc place
  labels l := by
    refine (h.labels l).trans (Iff.symm ((Queue.get?_enqueue c).trans (or_iff_left ?_)))
    exact fun hlabel => hnone l.name l.headline hlabel.2
  distinct := h.distinct
  positions := size_positions_add h.positions c place

/-- A label is kept with its command. -/
theorem Checked.addLabel (h : b.Checked) {name : String} (hnew : b.script.hasLabel name = false)
    (headline : String) (place : Position) : (b.addLabel name headline place).Checked where
  parses := parses_add h.parses (fun _ => Command.parses_of_sources_nil rfl) place
  labels l := by
    have hget : (b.addLabel name headline place).script.queue.get? l.id =
        some (.label l.name l.headline) ↔ b.script.queue.get? l.id =
          some (.label l.name l.headline) ∨ l.id = b.script.queue.size ∧
            Command.label name headline = .label l.name l.headline := Queue.get?_enqueue _
    refine Array.mem_push.trans ((or_congr (h.labels l) ?_).trans hget.symm)
    obtain ⟨n, head, id⟩ := l
    simp [eq_comm, and_comm, and_assoc]
  distinct := by
    simp only [Builder.addLabel, Builder.add, Array.toList_push, List.map_append, List.map_cons,
      List.map_nil]
    refine List.nodup_append.mpr ⟨h.distinct, by simp, ?_⟩
    rintro n hn m hm rfl
    obtain rfl := List.mem_singleton.mp hm
    obtain ⟨l, hl, rfl⟩ := List.mem_map.mp hn
    have hany : b.script.hasLabel l.name = true :=
      Array.any_eq_true'.mpr ⟨l, Array.mem_toList_iff.mp hl, by simp⟩
    rw [hany] at hnew
    cases hnew
  positions := size_positions_add h.positions (.label name headline) place

theorem Checked.advance (h : b.Checked) (hadvance : Advance b b') : b'.Checked := by
  cases hadvance with
  | move hmove =>
    cases hmove with
    | tag htag =>
      cases htag with
      | report finding place =>
        exact ⟨fun hclean => h.parses (clean_report.mp hclean).1, h.labels, h.distinct, h.positions⟩
      | add c place hordinary hc hparses =>
        refine h.add hparses ?_ place
        rintro name headline rfl
        cases hordinary
      | _ => exact ⟨h.parses, h.labels, h.distinct, h.positions⟩
    | text text textStart => exact ⟨h.parses, h.labels, h.distinct, h.positions⟩
    | addText text place =>
      exact h.add (fun _ => Command.parses_of_sources_nil rfl) (by simp) place
    | addIndent count place hstart =>
      exact h.add (fun _ => Command.parses_of_sources_nil rfl) (by simp) place
  | label headline place hname hnew => exact h.addLabel hnew headline place

end Builder

theorem checked_tokensRead (declared : List String) (tokens : List Token) :
    (tokensRead declared tokens).Checked :=
  Builder.Advances.keep Builder.Checked.advance (Builder.checked_start declared)
    (tokensRead_advances declared tokens)

/-! ### When all checks are done -/

/-- A jump without a label is found where it stands. -/
theorem exists_missingTarget {script : Script} {k : Nat} {target : String}
    (hpositions : script.positions.size = script.queue.commands.size)
    (h : script.queue.get? k = some (.jump target)) (hno : ¬ script.hasLabel target = true) :
    ∃ place, script.position? k = some place ∧ (.undefinedJumpTarget target, some place) ∈
      (script.queue.commands.zip script.positions).toList.filterMap script.missingTarget? := by
  have hlt : k < script.positions.size := hpositions ▸ (Array.getElem?_eq_some_iff.mp h).1
  have hread : (script.queue.commands.zip script.positions)[k]? =
      some (.jump target, script.positions[k]) :=
    Array.getElem?_zip_eq_some.mpr ⟨h, Array.getElem?_eq_getElem hlt⟩
  have hmem := Array.mem_toList_iff.mpr (Array.mem_of_getElem? hread)
  refine ⟨script.positions[k], Array.getElem?_eq_getElem hlt, ?_⟩
  exact List.mem_filterMap.mpr ⟨_, hmem, by simp [missingTarget?, hno]⟩

section Clean

variable {declared : List String} {tokens : List Token} {k : Nat}
  (hclean : ∀ found ∈ (ofTokens declared tokens).2, found.1.severity ≠ .error)

include hclean

theorem clean_tokensRead : (tokensRead declared tokens).Clean := by
  intro found hfound
  refine hclean found ?_
  rw [findings_ofTokens]
  simp [hfound]

theorem hasLabel_of_clean {target : String}
    (h : (tokensRead declared tokens).script.queue.get? k = some (.jump target)) :
    (tokensRead declared tokens).script.hasLabel target = true := by
  refine Decidable.byContradiction fun hno => ?_
  have hpositions := (checked_tokensRead declared tokens).positions
  obtain ⟨place, -, hfound⟩ := exists_missingTarget hpositions h hno
  refine hclean (.undefinedJumpTarget target, some place) ?_ rfl
  rw [findings_ofTokens]
  exact List.mem_append_left _ (List.mem_append_left _ (List.mem_append_right _ hfound))

/-- Every expression of a script without errors can be read. -/
theorem parses_of_clean {c : Command} (hc : (ofTokens declared tokens).1.queue.get? k = some c) :
    c.Parses := by
  have hbare := alike_tokensRead declared tokens k
  rw [hc] at hbare
  obtain ⟨c', hc', heq⟩ := Option.map_eq_some_iff.mp hbare.symm
  have hread := (checked_tokensRead declared tokens).parses (clean_tokensRead hclean) c'
    (Array.mem_of_getElem? hc')
  rwa [Command.Parses, ← Command.sources_bare, ← heq, Command.sources_bare]

/-- Every jump of a script without errors finds a label. -/
theorem exists_label_of_clean {target : String}
    (h : (ofTokens declared tokens).1.queue.get? k = some (.jump target)) :
    ∃ label, (ofTokens declared tokens).1.queue.findLabel? target = some label := by
  have halike := alike_tokensRead declared tokens
  have hlabel := hasLabel_of_clean hclean (halike.get?_eq h (by simp))
  obtain ⟨l, hl, hname⟩ := Array.any_eq_true'.mp hlabel
  obtain rfl : l.name = target := of_decide_eq_true hname
  have hget := ((checked_tokensRead declared tokens).labels l).mp hl
  exact Queue.exists_of_label (halike.symm.get?_eq hget (by simp))

end Clean

end NovelScript.Script
