import NovelScript.Proofs.Conditionals.Scan

/-!
The reading with a stack accepts the grammar of conditionals: it finds no fault in the commands of
a tree, and records every conditional of it; and where it finds no fault, there is a tree.
-/

namespace NovelScript.Script

/-! ### Trees have no fault -/

namespace Nesting

/-- Records conditionals with their marks. -/
def record (relations : List (CommandId × List CommandId)) (n : Nesting) : Nesting :=
  { n with related := n.related ++ relations.toArray }

@[simp] theorem record_nil (n : Nesting) : n.record [] = n := by simp [record]

theorem readAll_cons (n : Nesting) (k : Nat) (c : Command) (cs : List Command) :
    n.readAll k (c :: cs) = (n.read k c).readAll (k + 1) cs := rfl

end Nesting

mutual

/-- The conditionals of a block that begins at the command `k`, in the order of their ends, and
the marks of each. -/
def Block.relations (k : Nat) : Block → List (CommandId × List CommandId)
  | .nil => []
  | .command _ _ rest => rest.relations (k + 1)
  | .conditional _ body branches rest =>
    body.relations (k + 1) ++ branches.relations (k + 1 + body.size) ++
      (k, (branches.marks (k + 1 + body.size)).map Prod.fst) ::
        rest.relations (k + 1 + body.size + branches.size)

/-- The conditionals inside of branches that begin at the command `k`. -/
def Branches.relations (k : Nat) : Branches → List (CommandId × List CommandId)
  | .endIf => []
  | .else body => body.relations (k + 1)
  | .elif _ body rest => body.relations (k + 1) ++ rest.relations (k + 1 + body.size)

end

/-- Behind `elif`s alone the marks of branches stand in order. -/
theorem orderly_append {marks : List (CommandId × Mark)} (h : ∀ p ∈ marks, p.2 = .elif)
    (b : Branches) (k : Nat) : Orderly (marks.reverse ++ b.marks k) := by
  refine List.pairwise_append.mpr ⟨?_, b.orderly_marks k, ?_⟩
  · refine List.pairwise_of_forall_mem_list fun p hp _ _ helse => ?_
    simp [h p (List.mem_reverse.mp hp)] at helse
  · intro p hp _ _ helse
    simp [h p (List.mem_reverse.mp hp)] at helse

mutual

/-- Reading a block records its conditionals and does nothing else. -/
theorem Block.readAll_commands : ∀ (b : Block) (n : Nesting) (k : Nat),
    n.readAll k b.commands = n.record (b.relations k)
  | .nil, n, k => by simp [Block.commands, Block.relations, Nesting.readAll]
  | .command c plain rest, n, k => by
    rw [Block.commands, Nesting.readAll_cons, Nesting.read_of_isPlain plain,
      Block.readAll_commands rest, Block.relations]
  | .conditional condition body branches rest, n, k => by
    rw [Block.commands, Nesting.readAll_cons, Nesting.readAll_append, Nesting.readAll_append,
      Block.readAll_commands body]
    rw [Branches.readAll_commands branches _ _ ⟨k, []⟩ n.stack rfl (by simp)]
    rw [Block.readAll_commands rest]
    simp [Block.relations, Nesting.record, Nesting.read, Block.size, Branches.size]

/-- Reading branches closes the conditional that is innermost, with all its marks. -/
theorem Branches.readAll_commands : ∀ (b : Branches) (n : Nesting) (k : Nat) (o : OpenIf)
    (outer : List OpenIf), n.stack = o :: outer → (∀ p ∈ o.marks, p.2 = .elif) →
    n.readAll k b.commands = { n with stack := outer }.record
      (b.relations k ++ [(o.id, (o.marks.reverse ++ b.marks k).map Prod.fst)])
  | .endIf, n, k, o, outer, hstack, hmarks => by
    have ho := orderly_append hmarks .endIf k
    rw [Branches.marks] at ho
    rw [Branches.commands, Nesting.readAll_cons, Nesting.read_of_mark rfl,
      Nesting.mark_endIf _ hstack, Nesting.close_of_orderly ho]
    simp [Nesting.readAll, Nesting.record, Branches.relations, Branches.marks]
  | .else body, n, k, o, outer, hstack, hmarks => by
    have ho := orderly_append hmarks (.else body) k
    rw [Branches.marks] at ho
    rw [Branches.commands, Nesting.readAll_cons, Nesting.read_of_mark rfl,
      Nesting.mark_of_cons hstack k (by decide), Nesting.readAll_append,
      Block.readAll_commands body, Nesting.readAll_cons, Nesting.read_of_mark rfl]
    rw [Nesting.mark_endIf (o := ⟨o.id, (k, .else) :: o.marks⟩) outer rfl]
    rw [Nesting.close_of_orderly (by simpa [Block.size] using ho)]
    simp [Nesting.readAll, Nesting.record, Branches.relations, Branches.marks, Block.size]
  | .elif condition body rest, n, k, o, outer, hstack, hmarks => by
    rw [Branches.commands, Nesting.readAll_cons, Nesting.read_of_mark rfl,
      Nesting.mark_of_cons hstack k (by decide), Nesting.readAll_append,
      Block.readAll_commands body]
    rw [Branches.readAll_commands rest _ _ ⟨o.id, (k, .elif) :: o.marks⟩ outer rfl (by
      simpa using hmarks)]
    simp [Nesting.record, Branches.relations, Branches.marks, Block.size]

end

/-- A queue that a tree is written out as has exactly the conditionals of the tree. -/
theorem Block.ofQueue_eq (b : Block) (q : Queue)
    (h : b.commands = q.commands.toList.map Command.bare) :
    Nesting.ofQueue q = Nesting.record (b.relations 0) {} := by
  have hread : Nesting.readAll {} 0 q.commands.toList = Nesting.record (b.relations 0) {} := by
    rw [← Nesting.readAll_map_bare, ← h, b.readAll_commands]
  unfold Nesting.ofQueue
  rw [hread]
  simp [Nesting.record]

/-! ### Faultless lists have a tree -/

/-- The commands read behind an `if` that is open: a block, and a block behind each mark. The last
mark comes first in the list. -/
inductive Inside : List (CommandId × Mark) → List Command → Prop
  | body (b : Block) : Inside [] b.commands
  | elif {marks : List (CommandId × Mark)} {cs : List Command} (k : CommandId)
      (condition : String) (b : Block) :
      Inside marks cs → Inside ((k, .elif) :: marks) (cs ++ .elif condition :: b.commands)
  | else {marks : List (CommandId × Mark)} {cs : List Command} (k : CommandId) (b : Block) :
      Inside marks cs → Inside ((k, .else) :: marks) (cs ++ .else :: b.commands)

/-- The commands read so far, if no fault was found: a block, and the inside of every open
conditional. -/
inductive Opened : List OpenIf → List Command → Prop
  | block (b : Block) : Opened [] b.commands
  | inside {outer : List OpenIf} {before cs : List Command} {marks : List (CommandId × Mark)}
      (id : CommandId) (condition : String) :
      Opened outer before → Inside marks cs →
      Opened (⟨id, marks⟩ :: outer) (before ++ .if condition [] :: cs)

theorem Inside.append {marks : List (CommandId × Mark)} {cs : List Command} (h : Inside marks cs)
    (b : Block) : Inside marks (cs ++ b.commands) := by
  cases h with
  | body b' =>
    rw [← Block.commands_append]
    exact .body _
  | elif k condition b' h =>
    rw [List.append_assoc, List.cons_append, ← Block.commands_append]
    exact .elif k condition _ h
  | «else» k b' h =>
    rw [List.append_assoc, List.cons_append, ← Block.commands_append]
    exact .else k _ h

theorem Opened.append {stack : List OpenIf} {cs : List Command} (h : Opened stack cs)
    (b : Block) : Opened stack (cs ++ b.commands) := by
  cases h with
  | block b' =>
    rw [← Block.commands_append]
    exact .block _
  | inside id condition ho hi =>
    rw [List.append_assoc, List.cons_append]
    exact .inside id condition ho (hi.append b)

/-- Only the kinds of the marks matter for their order. -/
theorem Orderly.congr {a b : List (CommandId × Mark)} (h : a.map Prod.snd = b.map Prod.snd)
    (ha : Orderly a) : Orderly b := by
  have hkinds : ∀ l : List (CommandId × Mark), Orderly l ↔
      (l.map Prod.snd).Pairwise fun m m' => m = .else → m' = .endIf := by
    intro l
    rw [List.pairwise_map, Orderly]
  rw [hkinds] at ha ⊢
  rwa [← h]

theorem Branches.kinds_marks : ∀ (b : Branches) (j k : Nat),
    (b.marks j).map Prod.snd = (b.marks k).map Prod.snd
  | .endIf, _, _ => rfl
  | .else _, _, _ => rfl
  | .elif _ body rest, j, k => by
    have ih := rest.kinds_marks (j + 1 + body.size) (k + 1 + body.size)
    simp [marks, ih]

/-- Behind an `else` in order comes only the end. -/
theorem Branches.eq_endIf {b : Branches} {k : Nat} (h : ∀ p ∈ b.marks k, p.2 = .endIf) :
    b = .endIf := by
  cases b with
  | endIf => rfl
  | «else» body => simpa using h (k, .else) (by simp [marks])
  | elif condition body rest => simpa using h (k, .elif) (by simp [marks])

/-- **Closing.** The inside of a conditional whose marks are in order is a block with branches,
once branches follow that fit. -/
theorem Inside.close {marks : List (CommandId × Mark)} {cs : List Command} (h : Inside marks cs) :
    ∀ (branches : Branches) (k : Nat), Orderly (marks.reverse ++ branches.marks k) →
      ∃ (body : Block) (all : Branches), cs ++ branches.commands = body.commands ++ all.commands := by
  induction h with
  | body b => exact fun branches k _ => ⟨b, branches, rfl⟩
  | @elif marks cs k' condition b _ ih =>
    intro branches k ho
    have hcommands : (cs ++ .elif condition :: b.commands) ++ branches.commands =
        cs ++ (Branches.elif condition b branches).commands := by
      simp [Branches.commands]
    rw [hcommands]
    refine ih _ k (Orderly.congr ?_ ho)
    simp [Branches.marks, branches.kinds_marks k (k + 1 + b.size)]
  | @«else» marks cs k' b _ ih =>
    intro branches k ho
    have hend : branches = .endIf := by
      refine Branches.eq_endIf (k := k) fun p hp => ?_
      rw [List.reverse_cons, List.append_assoc] at ho
      have hrest := (List.pairwise_append.mp ho).2.1
      exact (List.pairwise_cons.mp hrest).1 p hp rfl
    subst hend
    have hcommands : (cs ++ .else :: b.commands) ++ Branches.endIf.commands =
        cs ++ (Branches.else b).commands := by
      simp [Branches.commands]
    rw [hcommands]
    refine ih _ k (Orderly.congr ?_ ho)
    simp [Branches.marks]

/-! ### No fault while reading -/

namespace Nesting

/-- Faults are only added. -/
theorem faults_read_le (n : Nesting) (k : Nat) (c : Command) :
    n.faults.size ≤ (n.read k c).faults.size := by
  rcases c.trichotomy with hp | ⟨m, hm⟩ | ⟨condition, related, rfl⟩
  · exact Nat.le_of_eq (by rw [read_of_isPlain hp])
  · rw [read_of_mark hm]
    cases hstack : n.stack with
    | nil => simp [mark_of_nil hstack]
    | cons o outer =>
      by_cases hend : m = .endIf
      · subst hend
        rw [mark_endIf _ hstack]
        by_cases ho : Orderly (o.marks.reverse ++ [((k : CommandId), Mark.endIf)])
        · exact Nat.le_of_eq (by rw [close_of_orderly ho])
        · obtain ⟨fault, hf⟩ := close_of_not_orderly ho o.id { n with stack := outer }
          simp [hf]
      · exact Nat.le_of_eq (by rw [mark_of_cons hstack k hend])
  · exact Nat.le_refl _

theorem faults_readAll_le (cs : List Command) : ∀ (n : Nesting) (k : Nat),
    n.faults.size ≤ (n.readAll k cs).faults.size := by
  induction cs with
  | nil => exact fun n k => Nat.le_refl _
  | cons c cs ih => exact fun n k => Nat.le_trans (faults_read_le n k c) (ih _ _)

end Nesting

/-- A command that is no fault goes on with the inside of the open conditionals. -/
theorem Opened.read {n : Nesting} {before : List Command} (h : Opened n.stack before) (k : Nat)
    (c : Command) (hfault : (n.read k c).faults.size = n.faults.size) :
    Opened (n.read k c).stack (before ++ [c.bare]) := by
  rcases c.trichotomy with hp | ⟨m, hm⟩ | ⟨condition, related, rfl⟩
  · rw [Nesting.read_of_isPlain hp, Command.bare_of_isPlain hp]
    simpa [Block.commands] using h.append (.command c hp .nil)
  · rw [Nesting.read_of_mark hm] at hfault ⊢
    cases hstack : n.stack with
    | nil => simp [Nesting.mark_of_nil hstack] at hfault
    | cons o outer =>
      rw [hstack] at h
      obtain ⟨id, marks⟩ := o
      cases h with
      | @inside _ before cs _ _ condition ho hi =>
        rw [List.append_assoc, List.cons_append]
        cases m with
        | elif =>
          obtain ⟨condition', rfl⟩ : ∃ s, c = .elif s := by
            cases c <;> simp_all [Command.mark?]
          rw [Nesting.mark_of_cons hstack k (by decide)]
          exact .inside id condition ho (.elif k condition' .nil hi)
        | «else» =>
          obtain rfl : c = .else := by cases c <;> simp_all [Command.mark?]
          rw [Nesting.mark_of_cons hstack k (by decide)]
          exact .inside id condition ho (.else k .nil hi)
        | endIf =>
          obtain rfl := Command.mark?_eq_endIf.mp hm
          rw [Nesting.mark_endIf _ hstack] at hfault ⊢
          by_cases horder : Orderly (marks.reverse ++ [((k : CommandId), Mark.endIf)])
          · obtain ⟨body, branches, hclose⟩ := hi.close .endIf k horder
            rw [Nesting.close_stack]
            have hblock := ho.append (.conditional condition body branches .nil)
            simp only [Block.commands, List.append_nil, ← hclose] at hblock
            exact hblock
          · obtain ⟨fault, hf⟩ := Nesting.close_of_not_orderly horder id { n with stack := outer }
            simp [hf] at hfault
  · exact .inside k condition h (.body .nil)

theorem Opened.readAll : ∀ (cs : List Command) {n : Nesting} {before : List Command} {k : Nat},
    Opened n.stack before → (n.readAll k cs).faults.size = n.faults.size →
    Opened (n.readAll k cs).stack (before ++ cs.map Command.bare)
  | [], n, before, k, h, _ => by simpa [Nesting.readAll] using h
  | c :: cs, n, before, k, h, hfault => by
    rw [Nesting.readAll_cons] at hfault ⊢
    have hfirst := Nesting.faults_read_le n k c
    have hrest := Nesting.faults_readAll_le cs (n.read k c) (k + 1)
    have hnext := Opened.readAll (k := k + 1) cs (h.read k c (by omega)) (by omega)
    simpa using hnext

/-- **The reading with a stack accepts exactly the grammar.** -/
theorem generated_iff_faultless (q : Queue) :
    (Nesting.ofQueue q).faults.size = 0 ↔ Generated q.commands.toList := by
  constructor
  · intro h
    have hsizes : (Nesting.readAll {} 0 q.commands.toList).faults.size +
        (Nesting.readAll {} 0 q.commands.toList).stack.length = 0 := by
      simpa [Nesting.ofQueue] using h
    have hopened := Opened.readAll q.commands.toList (n := {}) (k := 0) (.block .nil) (by
      show _ = 0
      omega)
    have hempty : (Nesting.readAll {} 0 q.commands.toList).stack.length = 0 := by omega
    rw [List.length_eq_zero_iff.mp hempty] at hopened
    obtain ⟨b, hb⟩ : ∃ b : Block, b.commands = Block.nil.commands ++ q.commands.toList.map .bare := by
      generalize Block.nil.commands ++ q.commands.toList.map .bare = cs at hopened
      cases hopened with
      | block b => exact ⟨b, rfl⟩
    exact ⟨b, by simpa [Block.commands] using hb⟩
  · rintro ⟨b, hb⟩
    rw [b.ofQueue_eq q hb]
    rfl

end NovelScript.Script
