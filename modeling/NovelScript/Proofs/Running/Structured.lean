import NovelScript.Proofs.Running.Simulation

/-!
Runs of sound scripts. The conditionals of a sound script have their marks on the queue, and every
mark finds the end of its own conditional there; so a run without jumps follows the tree of the
script. Main statement: such a run ends, and all that it does is what the reading of the tree
does, whoever watches.
-/

namespace NovelScript.Script

/-! ### Where marks lead -/

/-- What a search finds, if it cannot find anything else. -/
theorem findSome?_eq_some {α β : Type} {f : α → Option β} {as : List α} {b : β}
    (hsome : ∃ a ∈ as, f a = some b) (huniq : ∀ a ∈ as, ∀ b', f a = some b' → b' = b) :
    as.findSome? f = some b := by
  cases hfind : as.findSome? f with
  | none =>
    obtain ⟨a, ha, hb⟩ := hsome
    have hnone := List.findSome?_eq_none_iff.mp hfind a ha
    simp [hb] at hnone
  | some b' =>
    obtain ⟨a, ha, hb'⟩ := List.exists_of_findSome?_eq_some hfind
    rw [huniq a ha b' hb']

namespace Queue

variable {q : Queue}

/-- A conditional that lists marks is closed, and lists the marks in order. -/
theorem Owns.relates {id : Nat} {related : List CommandId} (h : q.Owns id related)
    (hif : q.IsIf id) (hne : related ≠ []) : ∃ last, Nesting.Relates q id last related := by
  by_cases hsound : ∃ last, q.Ends id last ∧ Orderly (q.ownMarks id (last + 1))
  · obtain ⟨last, hends, ho⟩ := hsound
    exact ⟨last, hif, hends, ho, h.sound last hends ho⟩
  · exact absurd (h.broken fun last hends ho => hsound ⟨last, hends, ho⟩) hne

/-- **A mark finds the end of its own conditional.** -/
theorem endOf?_eq {id m : Nat} {condition : String} {related : List CommandId}
    (howns : ∀ (id : Nat) (condition : String) (related : List CommandId),
      q.get? id = some (.if condition related) → q.Owns id related)
    (hif : q.get? id = some (.if condition related)) (hm : m ∈ related) :
    q.endOf? m = related.getLast? := by
  obtain ⟨last', hlast⟩ : ∃ last, related.getLast? = some last :=
    Option.ne_none_iff_exists'.mp fun hnone => by
      rw [List.getLast?_eq_none_iff.mp hnone] at hm
      simp at hm
  rw [hlast]
  refine findSome?_eq_some ⟨id, ?_, by simp [hif, hm, hlast]⟩ ?_
  · have hlt : id < q.size := (Array.getElem?_eq_some_iff.mp hif).1
    simp [findAll, hlt, hif, Command.kind]
  · intro id' _ b hb
    cases hget : q.get? id' with
    | none => simp [hget] at hb
    | some c =>
      cases c with
      | «if» condition' related' =>
        by_cases hm' : m ∈ related'
        · -- both conditionals own the mark, so they are one
          obtain ⟨_, h⟩ := (howns id condition related hif).relates ⟨_, _, hif⟩ (List.ne_nil_of_mem hm)
          obtain ⟨_, h'⟩ := (howns id' condition' related' hget).relates ⟨_, _, hget⟩
            (List.ne_nil_of_mem hm')
          have heq : id = id' := eq_of_mem_ownMarks h.isIf h'.isIf h.ends h'.ends (h.eq ▸ hm)
            (h'.eq ▸ hm')
          subst heq
          obtain ⟨rfl, rfl⟩ := Command.if.inj (Option.some.inj (hif.symm.trans hget))
          simpa [hget, hm', hlast] using hb.symm
        · simp [hget, hm'] at hb
      | _ => simp [hget] at hb

/-- The commands stand on the queue from `k` on, whatever marks belong to them. -/
def HasAt (q : Queue) (k : Nat) (cs : List Command) : Prop :=
  ∀ i, i < cs.length → (q.get? (k + i)).map Command.bare = cs[i]?

theorem HasAt.cons {k : Nat} {c : Command} {cs : List Command} (h : q.HasAt k (c :: cs)) :
    (q.get? k).map Command.bare = some c ∧ q.HasAt (k + 1) cs := by
  refine ⟨by simpa using h 0 (by simp), fun i hi => ?_⟩
  have hi' := h (i + 1) (by simpa using hi)
  rwa [List.getElem?_cons_succ, show k + (i + 1) = k + 1 + i by omega] at hi'

theorem HasAt.append {k : Nat} {a b : List Command} (h : q.HasAt k (a ++ b)) :
    q.HasAt k a ∧ q.HasAt (k + a.length) b := by
  constructor
  · intro i hi
    have hi' := h i (by rw [List.length_append]; omega)
    rwa [List.getElem?_append_left hi] at hi'
  · intro i hi
    have hi' := h (a.length + i) (by rw [List.length_append]; omega)
    rwa [List.getElem?_append_right (by omega), Nat.add_sub_cancel_left,
      ← Nat.add_assoc] at hi'

end Queue

/-! ### Trees of sound scripts -/

/-- Every conditional in the list has its marks on the queue, and these find its end. -/
def Queue.Links (q : Queue) (relations : List (CommandId × List CommandId)) : Prop :=
  ∀ p ∈ relations, (∃ condition, q.get? p.1 = some (.if condition p.2)) ∧
    ∀ m ∈ p.2, q.endOf? m = p.2.getLast?

theorem Queue.links_append {q : Queue} {a b : List (CommandId × List CommandId)} :
    q.Links (a ++ b) ↔ q.Links a ∧ q.Links b := by
  simp only [Queue.Links, List.mem_append]
  exact ⟨fun h => ⟨fun p hp => h p (.inl hp), fun p hp => h p (.inr hp)⟩,
    fun h p hp => hp.elim (h.1 p) (h.2 p)⟩

mutual

theorem Block.placed {q : Queue} : ∀ (b : Block) (k : Nat), q.HasAt k b.commands →
    q.Links (b.relations k) → b.Placed q k
  | .nil, _, _, _ => trivial
  | .command c plain rest, k, hat, hlinks => by
    obtain ⟨hc, hrest⟩ := hat.cons
    refine ⟨Queue.get?_of_bare hc ?_, rest.placed (k + 1) hrest hlinks⟩
    rintro condition related rfl
    simp [Command.isPlain] at plain
  | .conditional condition body branches rest, k, hat, hlinks => by
    obtain ⟨hif, hinside⟩ := hat.cons
    obtain ⟨hbody, hbranches, hrest⟩ : q.HasAt (k + 1) body.commands ∧
        q.HasAt (k + 1 + body.size) branches.commands ∧
        q.HasAt (k + 1 + body.size + branches.size) rest.commands :=
      ⟨hinside.append.1, hinside.append.2.append⟩
    obtain ⟨⟨hlbody, hlbranches⟩, hlrest⟩ :=
      (Queue.links_append.mp hlinks).imp_left Queue.links_append.mp
    obtain ⟨⟨condition', hmarks⟩, hends⟩ := hlrest _ List.mem_cons_self
    refine ⟨?_, body.placed _ hbody hlbody, branches.placed _ hbranches hlbranches ?_,
      rest.placed _ hrest fun p hp => hlrest p (List.mem_cons_of_mem _ hp)⟩
    · rw [hmarks] at hif ⊢
      obtain rfl : condition' = condition := by simpa [Command.bare, Command.relate] using hif
      rfl
    · intro m hm
      rw [hends m hm, Branches.getLast?_marks]

theorem Branches.placed {q : Queue} : ∀ (b : Branches) (k : Nat), q.HasAt k b.commands →
    q.Links (b.relations k) →
    (∀ m ∈ (b.marks k).map Prod.fst, q.endOf? m = some (b.last k)) → b.Placed q k (b.last k)
  | .endIf, k, hat, _, _ =>
    ⟨by simp [Branches.last], Queue.get?_of_bare hat.cons.1 (by simp)⟩
  | .else body, k, hat, hlinks, hends => by
    obtain ⟨helse, hinside⟩ := hat.cons
    obtain ⟨hbody, hend⟩ := hinside.append
    have hlast : (Branches.else body).last k = k + 1 + body.size := by
      simp only [Branches.last, Branches.size_else]
      omega
    refine ⟨Queue.get?_of_bare helse (by simp), hends k (by simp [Branches.marks]),
      body.placed _ hbody hlinks, hlast.symm, ?_⟩
    rw [hlast]
    exact Queue.get?_of_bare hend.cons.1 (by simp)
  | .elif condition body rest, k, hat, hlinks, hends => by
    obtain ⟨helif, hinside⟩ := hat.cons
    obtain ⟨hbody, hrest⟩ := hinside.append
    obtain ⟨hlbody, hlrest⟩ := Queue.links_append.mp hlinks
    have hpos := rest.size_pos
    have hlast : (Branches.elif condition body rest).last k = rest.last (k + 1 + body.size) := by
      simp only [Branches.last, Branches.size_elif]
      omega
    rw [hlast] at hends ⊢
    refine ⟨Queue.get?_of_bare helif (by simp), hends k (by simp [Branches.marks]),
      body.placed _ hbody hlbody, rest.placed _ hrest hlrest fun m hm => hends m ?_⟩
    rw [Branches.marks, List.map_cons]
    exact List.mem_cons_of_mem _ hm

end

/-- The conditionals of a tree that a queue is written out from have their marks. -/
theorem links_relate {q : Queue} (hfresh : ∀ c ∈ q.commands, c.bare = c) {b : Block}
    (hb : b.commands = q.commands.toList.map Command.bare) :
    (q.relate (.ofQueue q)).Links (b.relations 0) := by
  rintro ⟨id, related⟩ hp
  have hmem : (id, related) ∈ (Nesting.ofQueue q).related := by
    rw [b.ofQueue_eq q hb]
    simpa [Nesting.record] using hp
  obtain ⟨last, h⟩ := (Nesting.mem_related_ofQueue q id related).mp hmem
  obtain ⟨condition, old, hc⟩ := h.isIf
  have hget := get?_relate_of_relates hc h
  exact ⟨⟨condition, hget⟩, fun m hm => Queue.endOf?_eq (fun _ _ _ => owns_relate hfresh) hget hm⟩

/-- **A tree that a script is written out from stands on its queue.** -/
theorem placed_ofTokens {declared : List String} {tokens : List Token} {b : Block}
    (hb : b.commands = (ofTokens declared tokens).1.queue.commands.toList.map Command.bare) :
    b.Placed (ofTokens declared tokens).1.queue 0 := by
  have hfresh := (fresh_tokensRead declared tokens).bare
  rw [script_ofTokens] at hb ⊢
  refine b.placed 0 (fun i hi => ?_) (links_relate hfresh ?_)
  · rw [hb, List.getElem?_map, Array.getElem?_toList, Nat.zero_add]
    rfl
  · rw [hb, Queue.commands_relate_bare]

theorem cursor_ofTokens (declared : List String) (tokens : List Token) :
    (ofTokens declared tokens).1.queue.cursor = 0 := by
  rw [script_ofTokens]
  exact (fresh_tokensRead declared tokens).cursor

/-! ### The run -/

section Run

variable {μ : Type → Type} [Monad μ] [LawfulMonad μ] {host : Host μ} {play : Event → μ Unit}

/-- A run of a machine along a block that is all of its queue. -/
theorem run_block (hobeys : host.Obeys play) (machine : Machine) {b : Block}
    (hplaced : b.Placed machine.script.queue 0) (hsize : b.size = machine.script.queue.size)
    (hjump : NoJump b.commands) (hstart : machine.told.moveTo 0 = machine) {steps : Nat}
    (hsteps : machine.script.queue.size < steps) :
    Machine.ending <$> Machine.run host steps machine #[] =
      (host.actAll play (b.read 0 machine).actions >>= fun _ => host.tell .finished >>= fun _ =>
        pure (Outcome.finished, (b.read 0 machine).machine.told.moveTo machine.script.queue.size,
          (Action.reports (b.read 0 machine).actions).toArray.push .finished)) := by
  obtain ⟨n, hn, hrun⟩ := b.steps 0 machine hplaced hjump
  have hagrees := b.agrees_read 0 machine hplaced
  rw [Nat.zero_add, hstart, hsize] at hrun
  obtain ⟨k, rfl⟩ : ∃ k, steps = n + (k + 1) := ⟨steps - n - 1, by omega⟩
  have hend : (b.read 0 machine).machine.told.script.queue.get? machine.script.queue.size = none :=
    Array.getElem?_eq_none (Nat.le_of_eq hagrees.size)
  rw [Machine.run_steps hobeys hrun, Machine.run_end host k (Machine.step?_end hend),
    Array.empty_append]
  rfl

/-- A session's run is a run of its machine, between two lines of the log. -/
theorem Session.run_eq (host : Host μ) (steps : Nat) (script : Script) (s : Session) :
    s.run host steps script = (host.tell (.running script.queue.size) >>= fun _ =>
      Machine.ending <$> Machine.run host steps { script, heap := s.heap } #[] >>= fun result =>
        pure (result.1, result.2.1.script, { s with
          heap := result.2.1.heap
          log := s.log.addReports s.catalog (.running script.queue.size :: result.2.2.toList) })) := by
  simp [Session.run, Session.tell, Session.addReports, Machine.ending, Machine.told]
  rfl

/-- **A run of a sound script without jumps is the reading of its tree.** It ends behind the last
command; what the host is asked and told, the variables and the log are those of the reading. -/
theorem run_eq_read (hobeys : host.Obeys play) (declared : List String) (tokens : List Token)
    (hsound : (ofTokens declared tokens).1.structuralErrors = 0)
    (hjump : ∀ target, Command.jump target ∉ (ofTokens declared tokens).1.queue.commands)
    (s : Session) (steps : Nat) (hsteps : (ofTokens declared tokens).1.queue.size < steps) :
    let script := (ofTokens declared tokens).1
    (∃ b : Block, b.commands = script.queue.commands.toList.map Command.bare) ∧
      ∀ b : Block, b.commands = script.queue.commands.toList.map Command.bare →
        let read := b.read 0 { script, heap := s.heap }
        s.run host steps script = do
          host.tell (.running script.queue.size)
          host.actAll play read.actions
          host.tell .finished
          return (.finished, (read.machine.moveTo script.queue.size).script, { s with
            heap := read.machine.heap
            log := s.log.addReports s.catalog
              (.running script.queue.size :: Action.reports read.actions ++ [.finished]) }) := by
  intro script
  refine ⟨(generated_ofTokens declared tokens).mp hsound, fun b hb => ?_⟩
  have hsize : b.size = script.queue.size := by
    rw [Block.size, hb, List.length_map, Array.length_toList]
    rfl
  have hjumps : NoJump b.commands := by
    intro target hmem
    rw [hb] at hmem
    obtain ⟨c, hc, hbare⟩ := List.mem_map.mp hmem
    have heq : c = .jump target := by
      cases c <;> simp_all [Command.bare, Command.relate]
    exact hjump target (heq ▸ Array.mem_toList_iff.mp hc)
  have hstart : ({ script, heap := s.heap } : Machine).told.moveTo 0 = { script, heap := s.heap } := by
    have hcursor := cursor_ofTokens declared tokens
    simp only [Machine.told, Machine.moveTo]
    rw [← hcursor]
  have hrun := run_block hobeys { script, heap := s.heap } (placed_ofTokens hb) hsize
    hjumps hstart hsteps
  rw [Session.run_eq, hrun]
  simp
  rfl

end Run

/-- A script with one conditional in a branch of another; its first condition sets a variable. -/
def nestedConditionals : List Token :=
  let text (content : String) : Token := ⟨.text content, content, {}⟩
  [tagToken "if" [⟨"exp", "let x = 1; x > 2"⟩], text "a", tagToken "elif" [⟨"exp", "x"⟩],
    tagToken "if" [⟨"exp", "y"⟩], text "b", tagToken "endif" [], text "c", tagToken "else" [],
    text "d", tagToken "endif" [], text "e"]

/-- Shows nothing, and keeps what it is asked for. -/
def Host.recorder : Host (StateM (List Event)) where
  perform event := do
    modify (· ++ [event])
    return none
  tell _ := return ()

/-- The tree of the script. -/
def nestedTree : Block :=
  let text (content : String) (rest : Block) : Block := .command (.printText content) rfl rest
  .conditional "let x = 1; x > 2" (text "a" .nil)
    (.elif "x" (.conditional "y" (text "b" .nil) .endIf (text "c" .nil)) (.else (text "d" .nil)))
    (text "e" .nil)

/-- The first condition does not hold, but sets `x`, so that the second one does; there is no `y`. -/
theorem run_nestedConditionals :
    let script := (ofTokens [] nestedConditionals).1
    let play (event : Event) : StateM (List Event) Unit := modify (· ++ [event])
    let read := nestedTree.read 0 { script, heap := .single }
    let result := (Session.run Host.recorder 12 script {}).run []
    Host.recorder.Obeys play ∧ script.structuralErrors = 0 ∧
      (∀ target, Command.jump target ∉ script.queue.commands) ∧ script.queue.size < 12 ∧
      nestedTree.commands = script.queue.commands.toList.map Command.bare ∧
      read.actions = [.tell (.finding (.evaluationFailed "y" (.fault (.undefined "y"))) (some {})),
        .ask (.text "c"), .ask (.text "e")] ∧
      result.2 = [.text "c", .text "e"] ∧ result.1.1 = .finished ∧
      result.1.2.1.queue.cursor = 11 ∧
      (result.1.2.2.get? "x").map Expr.Value.show = some "1" ∧
      result.1.2.2.log.entries =
        [⟨.error, "evaluating 'y' failed: undefined identifier y", some {}⟩] := by
  intro script play read result
  have hobeys : Host.recorder.Obeys play := fun event => rfl
  have hsound : script.structuralErrors = 0 := by decide +kernel
  have hkinds : script.queue.commands.toList.map Command.kind =
      [.if, .printText, .elif, .if, .printText, .endIf, .printText, .else, .printText, .endIf,
        .printText] := by decide +kernel
  have hjump : ∀ target, Command.jump target ∉ script.queue.commands := by
    intro target hmem
    have hkind := List.mem_map_of_mem (f := Command.kind) (Array.mem_toList_iff.mpr hmem)
    rw [hkinds] at hkind
    simp [Command.kind] at hkind
  have hsize : script.queue.size < 12 := by decide +kernel
  have htree : nestedTree.commands = script.queue.commands.toList.map Command.bare := by
    decide +kernel
  have hactions : read.actions =
      [.tell (.finding (.evaluationFailed "y" (.fault (.undefined "y"))) (some {})),
        .ask (.text "c"), .ask (.text "e")] := by decide +kernel
  have hx : (read.machine.heap.lookup? "x" Expr.Heap.root).map Expr.Value.show = some "1" := by
    decide +kernel
  have hlast : script.queue.size = 11 := by decide +kernel
  have hrun := (run_eq_read hobeys [] nestedConditionals hsound hjump {} 12 hsize).2 nestedTree htree
  have hresult : result = ((.finished, (read.machine.moveTo script.queue.size).script, {
      heap := read.machine.heap
      log := Log.addReports {} (.running script.queue.size ::
        Action.reports read.actions ++ [.finished]) {} }), [.text "c", .text "e"]) := by
    show (Session.run Host.recorder 12 script {}).run [] = _
    rw [hrun, hactions]
    rfl
  rw [hresult]
  refine ⟨hobeys, hsound, hjump, hsize, htree, hactions, rfl, rfl, hlast, hx, ?_⟩
  rw [hactions]
  decide +kernel

end NovelScript.Script
