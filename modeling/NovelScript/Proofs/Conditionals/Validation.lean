import NovelScript.Proofs.Conditionals.Grammar
import NovelScript.Proofs.Reading.Moves

/-!
The conditionals of a script that has been read. Main statement: a script has no structural error
exactly if its commands are written out from a tree; and in every script, broken or not, a
conditional lists the marks on its own level up to its end, if it has one and they stand in order,
and otherwise lists nothing.
-/

namespace NovelScript.Script

/-! ### Queues that differ in lists of marks only -/

namespace Queue

/-- The queues have the same commands, apart from the marks that belong to each. -/
def Alike (q q' : Queue) : Prop := ∀ k : Nat, (q.get? k).map Command.bare = (q'.get? k).map Command.bare

variable {q q' : Queue} {id k last : Nat}

theorem Alike.symm (h : q.Alike q') : q'.Alike q := fun k => (h k).symm

/-- A command that is no conditional is what it is without marks. -/
theorem get?_of_bare {c : Command} (h : (q.get? k).map Command.bare = some c)
    (hif : ∀ condition related, c ≠ .if condition related) : q.get? k = some c := by
  obtain ⟨c', hc', rfl⟩ := Option.map_eq_some_iff.mp h
  rw [hc']
  cases c' <;> simp_all [Command.bare, Command.relate]

theorem Alike.get?_eq (h : q.Alike q') {c : Command} (hc : q.get? k = some c)
    (hif : ∀ condition related, c ≠ .if condition related) : q'.get? k = some c := by
  refine get?_of_bare ?_ hif
  rw [← h k, hc]
  cases c <;> first | rfl | exact absurd rfl (hif _ _)

theorem Alike.endIf (h : q.Alike q') (hend : q.get? k = some .endIf) : q'.get? k = some .endIf :=
  h.get?_eq hend (by simp)

theorem Alike.isIf (h : q.Alike q') (hif : q.IsIf k) : q'.IsIf k := by
  obtain ⟨condition, related, hc⟩ := hif
  have hk := h k
  rw [hc] at hk
  obtain ⟨c, hc', hbare⟩ := Option.map_eq_some_iff.mp hk.symm
  cases c <;> simp_all [Command.bare, Command.relate, IsIf]

theorem Alike.rise (h : q.Alike q') (i j : Nat) : q.rise i j = q'.rise i j := by
  have hk : ∀ k : Nat, (q.get? k).elim 0 Command.rise = (q'.get? k).elim 0 Command.rise := by
    intro k
    have hbare : ∀ o : Option Command, o.elim 0 Command.rise =
        (o.map Command.bare).elim 0 Command.rise := by
      intro o
      cases o <;> simp
    rw [hbare, h k, ← hbare]
  simp only [Queue.rise, hk]

theorem Alike.ends (h : q.Alike q') (hends : q.Ends id last) : q'.Ends id last where
  lt := hends.lt
  endIf := h.endIf hends.endIf
  level := by rw [← h.rise]; exact hends.level
  first := by
    intro k hk hlt hend
    rw [← h.rise]
    exact hends.first k hk hlt (h.symm.endIf hend)

theorem Alike.ownMarks (h : q.Alike q') (id stop : Nat) : q.ownMarks id stop = q'.ownMarks id stop := by
  have hk : ∀ k, q.ownMark? id k = q'.ownMark? id k := by
    intro k
    have hmark : ∀ o : Option Command, o.bind Command.mark? =
        (o.map Command.bare).bind Command.mark? := by
      intro o
      cases o <;> simp
    unfold ownMark?
    rw [h.rise, hmark, h k, ← hmark]
  simp only [Queue.ownMarks, funext hk]

/-! ### Giving the conditionals their marks -/

/-- Commands to which marks are given, one list after the other. -/
def relateAll (cs : Array Command) (relations : List (CommandId × List CommandId)) :
    Array Command :=
  relations.foldl (fun cs (id, related) => cs.modify id (Command.relate related)) cs

theorem commands_relate (q : Queue) (n : Nesting) :
    (q.relate n).commands = relateAll q.commands n.related.toList := by
  simp [relate, relateAll]

theorem relateAll_bare (relations : List (CommandId × List CommandId)) :
    ∀ (cs : Array Command) (k : Nat),
      ((relateAll cs relations)[k]?).map Command.bare = (cs[k]?).map Command.bare := by
  induction relations with
  | nil => exact fun cs k => rfl
  | cons p rest ih =>
    intro cs k
    rw [relateAll, List.foldl_cons]
    refine (ih _ k).trans ?_
    rw [Array.getElem?_modify]
    split <;> simp [Function.comp_def]

theorem relateAll_of_not_mem {id : Nat} (relations : List (CommandId × List CommandId)) :
    ∀ cs : Array Command, (∀ p ∈ relations, p.1 ≠ id) → (relateAll cs relations)[id]? = cs[id]? := by
  induction relations with
  | nil => exact fun cs _ => rfl
  | cons p rest ih =>
    intro cs h
    rw [relateAll, List.foldl_cons]
    refine (ih _ fun p' hp' => h p' (List.mem_cons_of_mem _ hp')).trans ?_
    rw [Array.getElem?_modify, if_neg (h p List.mem_cons_self)]

/-- A conditional gets its marks, if all lists given to it are the same. -/
theorem relateAll_of_mem {id : Nat} {related : List CommandId}
    (relations : List (CommandId × List CommandId)) :
    ∀ cs : Array Command, (∀ p ∈ relations, p.1 = id → p.2 = related) →
      (id, related) ∈ relations →
      (relateAll cs relations)[id]? = (cs[id]?).map (Command.relate related) := by
  have htwice : ∀ o : Option Command, (o.map (Command.relate related)).map
      (Command.relate related) = o.map (Command.relate related) := by
    intro o
    cases o with
    | none => rfl
    | some c => cases c <;> rfl
  induction relations with
  | nil => intro cs _ h; simp at h
  | cons p rest ih =>
    intro cs hsame hmem
    have hrest := fun p' hp' => hsame p' (List.mem_cons_of_mem p hp')
    rw [relateAll, List.foldl_cons]
    by_cases hin : (id, related) ∈ rest
    · refine (ih _ hrest hin).trans ?_
      rw [Array.getElem?_modify]
      split
      · rename_i heq
        rw [hsame p List.mem_cons_self heq]
        exact htwice cs[id]?
      · rfl
    · obtain rfl : p = (id, related) := by
        rcases List.mem_cons.mp hmem with h | h
        · exact h.symm
        · exact absurd h hin
      refine (relateAll_of_not_mem rest _ fun p' hp' heq => hin ?_).trans ?_
      · obtain ⟨id', related'⟩ := p'
        obtain rfl : id' = id := heq
        obtain rfl : related' = related := hrest _ hp' rfl
        exact hp'
      · rw [Array.getElem?_modify, if_pos rfl]

theorem relate_alike (q : Queue) (n : Nesting) : (q.relate n).Alike q := by
  intro k
  simp only [get?, commands_relate]
  exact relateAll_bare _ q.commands k

theorem commands_relate_bare (q : Queue) (n : Nesting) :
    (q.relate n).commands.toList.map Command.bare = q.commands.toList.map Command.bare := by
  refine List.ext_getElem? fun k => ?_
  simpa [get?] using relate_alike q n k

theorem size_relate (q : Queue) (n : Nesting) : (q.relate n).size = q.size := by
  have hlength := congrArg List.length (commands_relate_bare q n)
  simpa [size] using hlength

end Queue

/-! ### What a conditional lists -/

/-- The marks on the level of the conditional up to its end, if it has one and they stand in
order; otherwise none. -/
structure Queue.Owns (q : Queue) (id : Nat) (related : List CommandId) : Prop where
  sound : ∀ last, q.Ends id last → Orderly (q.ownMarks id (last + 1)) →
    related = (q.ownMarks id (last + 1)).map Prod.fst
  broken : (∀ last, q.Ends id last → ¬ Orderly (q.ownMarks id (last + 1))) → related = []

/-- A conditional that is closed with its marks in order gets them. -/
theorem get?_relate_of_relates {q : Queue} {id last : Nat} {condition : String}
    {old related : List CommandId} (hc : q.get? id = some (.if condition old))
    (h : Nesting.Relates q id last related) :
    (q.relate (.ofQueue q)).get? id = some (.if condition related) := by
  have hmem := (Nesting.mem_related_ofQueue q id related).mpr ⟨last, h⟩
  have hsame : ∀ p ∈ (Nesting.ofQueue q).related.toList, p.1 = id → p.2 = related := by
    rintro ⟨id', related'⟩ hp rfl
    obtain ⟨last', h'⟩ := (Nesting.mem_related_ofQueue q id' related').mp (Array.mem_toList_iff.mp hp)
    obtain rfl := h.ends.unique h'.ends
    exact h'.eq.trans h.eq.symm
  have hc' : q.commands[id]? = some (.if condition old) := hc
  rw [Queue.get?, Queue.commands_relate,
    Queue.relateAll_of_mem _ _ hsame (Array.mem_toList_iff.mpr hmem), hc']
  rfl

/-- A broken conditional keeps what it had. -/
theorem get?_relate_of_broken {q : Queue} {id : Nat}
    (h : ∀ last, q.Ends id last → ¬ Orderly (q.ownMarks id (last + 1))) :
    (q.relate (.ofQueue q)).get? id = q.get? id := by
  rw [Queue.get?, Queue.commands_relate, Queue.relateAll_of_not_mem]
  · rfl
  · rintro ⟨id', related⟩ hp rfl
    obtain ⟨last, hr⟩ := (Nesting.mem_related_ofQueue q id' related).mp (Array.mem_toList_iff.mp hp)
    exact h last hr.ends hr.orderly

/-- Where no conditional has marks yet, each gets exactly its own. -/
theorem owns_relate {q : Queue} (hfresh : ∀ c ∈ q.commands, c.bare = c) {id : Nat}
    {condition : String} {related : List CommandId}
    (h : (q.relate (.ofQueue q)).get? id = some (.if condition related)) :
    (q.relate (.ofQueue q)).Owns id related := by
  have halike := Queue.relate_alike q (.ofQueue q)
  obtain ⟨condition', old, hc⟩ := halike.isIf ⟨condition, related, h⟩
  obtain rfl : old = [] := by
    obtain ⟨hlt, hget⟩ := Array.getElem?_eq_some_iff.mp hc
    have := hfresh _ (Array.getElem_mem hlt)
    rw [hget] at this
    simpa [Command.bare, Command.relate] using this.symm
  refine ⟨fun last hends ho => ?_, fun hbroken => ?_⟩
  · rw [halike.ownMarks] at ho ⊢
    have hnew := get?_relate_of_relates hc ⟨⟨_, _, hc⟩, halike.ends hends, ho, rfl⟩
    rw [h] at hnew
    exact (Command.if.inj (Option.some.inj hnew)).2
  · have hold : (q.relate (.ofQueue q)).get? id = q.get? id := get?_relate_of_broken fun last hends => by
      rw [← halike.ownMarks]
      exact hbroken last (halike.symm.ends hends)
    rw [h, hc] at hold
    exact (Command.if.inj (Option.some.inj hold)).2

/-! ### Scripts that have been read -/

namespace Builder

/-- Nothing has been taken off the queue, and no conditional has marks yet. -/
structure Fresh (b : Builder) : Prop where
  bare : ∀ c ∈ b.script.queue.commands, c.bare = c
  cursor : b.script.queue.cursor = 0

theorem fresh_start (declared : List String) : Fresh { declared } := ⟨by simp, rfl⟩

variable {b b' : Builder}

theorem Fresh.add (h : b.Fresh) {c : Command} (hc : c.bare = c) (place : Position) :
    (b.add c place).Fresh where
  bare := by
    intro c' hc'
    rcases Array.mem_push.mp hc' with hold | rfl
    · exact h.bare c' hold
    · exact hc
  cursor := h.cursor

theorem Fresh.advance (h : b.Fresh) (hadvance : Advance b b') : b'.Fresh := by
  cases hadvance with
  | move hmove =>
    cases hmove with
    | tag htag =>
      cases htag with
      | add c place hordinary hc hparses => exact h.add hc place
      | _ => exact ⟨h.bare, h.cursor⟩
    | text text textStart => exact ⟨h.bare, h.cursor⟩
    | addText text place => exact h.add rfl place
    | addIndent count place hstart => exact h.add rfl place
  | @label name headline place =>
    have hadd : (b.add (.label name headline) place).Fresh := h.add rfl place
    exact ⟨hadd.bare, hadd.cursor⟩

end Builder

theorem fresh_tokensRead (declared : List String) (tokens : List Token) :
    (tokensRead declared tokens).Fresh :=
  Builder.Advances.keep Builder.Fresh.advance (Builder.fresh_start declared)
    (tokensRead_advances declared tokens)

/-- Reports change nothing about the script. -/
theorem script_foldl_report {α : Type} (step : Builder → α → Builder)
    (hstep : ∀ b a, (step b a).script = b.script) (as : List α) :
    ∀ b : Builder, (as.foldl step b).script = b.script := by
  induction as with
  | nil => exact fun b => rfl
  | cons a as ih => exact fun b => (ih _).trans (hstep b a)

theorem script_checkJumps (b : Builder) : b.checkJumps.script = b.script := by
  unfold Builder.checkJumps
  rw [← Array.foldl_toList]
  refine script_foldl_report _ (fun b p => ?_) _ b
  obtain ⟨c, place⟩ := p
  cases c with
  | jump target => simp only; split <;> rfl
  | _ => rfl

theorem script_checkNesting (b : Builder) :
    b.checkNesting.script =
      { b.script with
        queue := b.script.queue.relate (.ofQueue b.script.queue)
        structuralErrors := (Nesting.ofQueue b.script.queue).faults.size } := by
  unfold Builder.checkNesting
  simp only
  rw [← Array.foldl_toList]
  refine script_foldl_report _ (fun b p => ?_) _ _
  rfl

/-- A script is the one before its conditionals are checked, with the marks and the number of
faults that the check gives. -/
theorem script_ofTokens (declared : List String) (tokens : List Token) :
    (ofTokens declared tokens).1 =
      { (tokensRead declared tokens).script with
        queue := (tokensRead declared tokens).script.queue.relate
          (.ofQueue (tokensRead declared tokens).script.queue)
        structuralErrors :=
          (Nesting.ofQueue (tokensRead declared tokens).script.queue).faults.size } := by
  show (tokensRead declared tokens).checkJumps.checkNesting.summarize.script = _
  rw [Builder.summarize, script_checkNesting, script_checkJumps]

/-- The marks aside, the commands are those read of the tokens. -/
theorem alike_tokensRead (declared : List String) (tokens : List Token) :
    (ofTokens declared tokens).1.queue.Alike (tokensRead declared tokens).script.queue := by
  rw [script_ofTokens]
  exact Queue.relate_alike _ _

/-- A script has no structural error exactly if its commands are written out from a tree. -/
theorem generated_ofTokens (declared : List String) (tokens : List Token) :
    (ofTokens declared tokens).1.structuralErrors = 0 ↔
      Generated (ofTokens declared tokens).1.queue.commands.toList := by
  rw [script_ofTokens]
  show (Nesting.ofQueue _).faults.size = 0 ↔ Generated (Queue.relate _ _).commands.toList
  rw [generated_iff_faultless, Generated, Generated, Queue.commands_relate_bare]

/-- **The conditionals of a script are checked exactly.** -/
theorem conditionals_exact :
    (∀ (declared : List String) (tokens : List Token),
      let script := (ofTokens declared tokens).1
      (script.structuralErrors = 0 ↔ Generated script.queue.commands.toList) ∧
        ∀ (id : Nat) (condition : String) (related : List CommandId),
          script.queue.get? id = some (.if condition related) → script.queue.Owns id related) ∧
    ∀ q : Queue, (∀ c ∈ q.commands, c.bare = c) →
      ((Nesting.ofQueue q).faults.size = 0 ↔ Generated q.commands.toList) ∧
        ∀ (id : Nat) (condition : String) (related : List CommandId),
          (q.relate (.ofQueue q)).get? id = some (.if condition related) →
            (q.relate (.ofQueue q)).Owns id related := by
  refine ⟨fun declared tokens => ?_, fun q hfresh => ⟨generated_iff_faultless q, ?_⟩⟩
  · have hfresh := (fresh_tokensRead declared tokens).bare
    refine ⟨generated_ofTokens declared tokens, ?_⟩
    simp only [script_ofTokens]
    exact fun id condition related h => owns_relate hfresh h
  · exact fun id condition related h => owns_relate hfresh h

/-- A tag, wherever it stands in a text. -/
def tagToken (name : String) (attributes : List Attribute) : Token :=
  ⟨.tag ⟨name, attributes⟩, "", {}⟩

/-- A script with a sound conditional inside one that has two branches without a condition. -/
def brokenOutside : List Token :=
  [tagToken "if" [⟨"exp", "a"⟩], tagToken "if" [⟨"exp", "b"⟩], tagToken "else" [],
    tagToken "endif" [], tagToken "else" [], tagToken "else" [], tagToken "endif" []]

theorem conditionals_brokenOutside :
    let script := (ofTokens [] brokenOutside).1
    script.structuralErrors = 1 ∧ ¬ Generated script.queue.commands.toList ∧
      script.queue.get? 0 = some (.if "a" []) ∧ script.queue.Owns 0 [] ∧
      script.queue.get? 1 = some (.if "b" [2, 3]) ∧ script.queue.Owns 1 [2, 3] := by
  intro script
  obtain ⟨hgenerated, howns⟩ := conditionals_exact.1 [] brokenOutside
  have herrors : script.structuralErrors = 1 := by decide +kernel
  have houter : script.queue.get? 0 = some (.if "a" []) := by decide +kernel
  have hinner : script.queue.get? 1 = some (.if "b" [2, 3]) := by decide +kernel
  refine ⟨herrors, fun h => ?_, houter, howns 0 "a" [] houter, hinner, howns 1 "b" [2, 3] hinner⟩
  have hsound : script.structuralErrors = 0 := hgenerated.mpr h
  omega

end NovelScript.Script
