import Mathlib.Data.Nat.Find
import NovelScript.Proofs.Running.Structured
import NovelScript.Proofs.Running.Visits

/-!
Branches of running scripts. A jump may land anywhere, so that a run does not follow the tree of
its script; but between two jumps it never comes from one branch of a conditional into another.
The argument is on levels: what begins inside of a branch also ends there, and a mark of the
conditional that is reached takes the run behind the end.
-/

namespace NovelScript.Script

namespace Queue

variable {q : Queue} {id last start k k' n : Nat}

/-! ### Branches by level -/

/-- The command `k` stands in the branch of the conditional `id` that begins behind `start`: the
conditional itself, or one of its marks. No other mark of it stands between, and it ends later. -/
structure InBranch (q : Queue) (id start k : Nat) : Prop where
  begins : start = id ∨ id < start ∧ (q.ownMark? id start).isSome
  lt : start < k
  between : ∀ j, start < j → j ≤ k → q.ownMark? id j = none
  ends : ∃ last, q.Ends id last ∧ k < last

theorem InBranch.le_start (h : q.InBranch id start k) : id ≤ start := by
  rcases h.begins with heq | ⟨hlt, -⟩
  · exact Nat.le_of_eq heq.symm
  · exact Nat.le_of_lt hlt

theorem Ends.isSome_ownMark? (h : q.Ends id last) : (q.ownMark? id last).isSome := by
  simp [ownMark?, h.level, h.endIf, Command.mark?]

/-- The mark at which a branch ends. -/
theorem InBranch.exists_next (h : q.InBranch id start k) (hends : q.Ends id last) :
    ∃ n, k < n ∧ n ≤ last ∧ (q.ownMark? id n).isSome ∧
      ∀ j, start < j → j < n → q.ownMark? id j = none := by
  obtain ⟨last', hends', hk⟩ := h.ends
  obtain rfl := hends.unique hends'
  have hexists : ∃ n, k < n ∧ (q.ownMark? id n).isSome := ⟨last, hk, hends.isSome_ownMark?⟩
  obtain ⟨hlt, hsome⟩ := Nat.find_spec hexists
  refine ⟨Nat.find hexists, hlt, Nat.find_min' hexists ⟨hk, hends.isSome_ownMark?⟩, hsome, ?_⟩
  intro j hj hjn
  by_cases hjk : j ≤ k
  · exact h.between j hj hjk
  · have hnot := Nat.find_min hexists hjn
    cases hmark : q.ownMark? id j with
    | none => rfl
    | some p => exact absurd ⟨Nat.lt_of_not_le hjk, by simp [hmark]⟩ hnot

/-! ### What begins in a branch ends there -/

/-- A conditional that begins in front of a mark of another one ends in front of it, too. -/
theorem Ends.lt_ownMark (h : q.Ends id last) (hif : q.IsIf k) (h' : q.Ends k k') (hid : id < k)
    (hk : k < n) (hn : n ≤ last) (hlevel : q.rise id n = 0) : k' < n := by
  by_contra hle
  obtain ⟨condition, related, hc⟩ := hif
  have hsplit := rise_split hid hc hk
  have houter := h.rise_nonneg k hid (by omega)
  have hinner := h'.rise_nonneg n hk (by omega)
  simp only [Command.rise] at hsplit
  omega

/-- The end that a mark finds is the end of a conditional with this mark. -/
theorem exists_of_endOf? (h : q.endOf? k = some last) :
    ∃ (id : Nat) (condition : String) (related : List CommandId),
      q.get? id = some (.if condition related) ∧ k ∈ related ∧ related.getLast? = some last := by
  obtain ⟨id, -, hid⟩ := List.exists_of_findSome?_eq_some h
  split at hid
  · rename_i condition related hget
    split at hid
    · exact ⟨id, condition, related, hget, ‹_›, hid⟩
    · cases hid
  · cases hid

/-! ### Sound queues -/

/-- Every conditional that is closed with its marks in order lists them; a broken one lists
nothing. -/
def ListsOwn (q : Queue) : Prop :=
  ∀ (id : Nat) (condition : String) (related : List CommandId),
    q.get? id = some (.if condition related) → q.Owns id related

/-- Every conditional is closed, with its marks in order, and lists them. -/
def Sound (q : Queue) : Prop :=
  ∀ (id : Nat) (condition : String) (related : List CommandId),
    q.get? id = some (.if condition related) → ∃ last, Nesting.Relates q id last related

end Queue

namespace Nesting.Relates

variable {q : Queue} {id last m : Nat} {related : List CommandId}

theorem owns (h : Relates q id last related) : q.Owns id related where
  sound last' hends _ := by rw [h.eq, h.ends.unique hends]
  broken hbroken := absurd h.orderly (hbroken last h.ends)

theorem getLast?_eq (h : Relates q id last related) : related.getLast? = some last := by
  obtain ⟨p, hp⟩ := Option.isSome_iff_exists.mp h.ends.isSome_ownMark?
  obtain ⟨-, -, -, -, heq⟩ := Queue.ownMark?_eq_some.mp hp
  rw [h.eq, Queue.ownMarks_succ h.ends.lt, hp]
  simp [heq]

theorem mem_iff (h : Relates q id last related) :
    m ∈ related ↔ id < m ∧ m ≤ last ∧ (q.ownMark? id m).isSome := by
  rw [h.eq, List.mem_map]
  constructor
  · rintro ⟨p, hp, rfl⟩
    obtain ⟨k, hid, hk, hmark⟩ := Queue.mem_ownMarks.mp hp
    obtain ⟨-, -, -, -, rfl⟩ := Queue.ownMark?_eq_some.mp hmark
    exact ⟨hid, Nat.le_of_lt_succ hk, by simp [hmark]⟩
  · rintro ⟨hid, hle, hsome⟩
    obtain ⟨p, hp⟩ := Option.isSome_iff_exists.mp hsome
    obtain ⟨-, -, -, -, heq⟩ := Queue.ownMark?_eq_some.mp hp
    exact ⟨p, Queue.mem_ownMarks.mpr ⟨m, hid, Nat.lt_succ_of_le hle, hp⟩, heq⟩

end Nesting.Relates

namespace Queue

variable {q : Queue} {id last start k k' n : Nat}

theorem Sound.listsOwn (h : q.Sound) : q.ListsOwn := fun id condition related hif =>
  (h id condition related hif).elim fun _ hr => hr.owns

/-- What lists marks is closed, also among broken conditionals. -/
theorem ListsOwn.relates (h : q.ListsOwn) {condition : String} {related : List CommandId}
    (hif : q.get? id = some (.if condition related)) {m : CommandId} (hm : m ∈ related) :
    ∃ last, Nesting.Relates q id last related :=
  (h id condition related hif).relates ⟨condition, related, hif⟩ (List.ne_nil_of_mem hm)

/-- A step that takes no jump leads forward. -/
theorem Leads.lt (hlists : q.ListsOwn) (h : q.Leads k k') : k < k' := by
  cases h with
  | next h => exact Nat.lt_succ_self k
  | @branch condition related m hif hm =>
    obtain ⟨last, hr⟩ := hlists.relates hif hm
    obtain ⟨hlt, -⟩ := hr.mem_iff.mp hm
    exact Nat.lt_succ_of_lt hlt
  | close hdivides h =>
    obtain ⟨id, condition, related, hif, hk, hlast⟩ := exists_of_endOf? h
    obtain ⟨last', hr⟩ := hlists.relates hif hk
    obtain rfl := Option.some.inj (hr.getLast?_eq.symm.trans hlast)
    exact Nat.lt_succ_of_le (hr.mem_iff.mp hk).2.1

/-- A mark that stands in a branch of a conditional finds an end in the same branch. -/
theorem lt_of_endOf? (hsound : q.Sound) (hif : q.IsIf id) (hends : q.Ends id last) (hid : id < k)
    (hk : k < n) (hn : n ≤ last) (hlevel : q.rise id n = 0) (hrise : q.rise id k ≠ 0)
    (h : q.endOf? k = some k') : k' < n := by
  obtain ⟨inner, condition, related, hinner, hmem, hlast⟩ := exists_of_endOf? h
  obtain ⟨last', hr⟩ := hsound inner condition related hinner
  obtain rfl := Option.some.inj (hr.getLast?_eq.symm.trans hlast)
  obtain ⟨hlt, hle, hsome⟩ := hr.mem_iff.mp hmem
  obtain ⟨p, hp⟩ := Option.isSome_iff_exists.mp hsome
  have hzero : q.rise inner k = 0 := (ownMark?_eq_some.mp hp).1
  rcases Nat.lt_trichotomy inner id with hout | rfl | hin
  · -- seen from outside, the mark stands at least two levels down
    obtain ⟨condition', related', hc⟩ := hif
    have hsplit := rise_split hout hc hid
    have houter := hr.ends.rise_nonneg id hout (by omega)
    have hnonneg := hends.rise_nonneg k hid (by omega)
    simp only [Command.rise] at hsplit
    omega
  · exact absurd hzero hrise
  · exact hends.lt_ownMark ⟨_, _, hinner⟩ hr.ends hin (by omega) hn hlevel

theorem Divides.exists_mark (h : q.Divides k) :
    ∃ c m, q.get? k = some c ∧ c.mark? = some m ∧ m ≠ .endIf := by
  rcases h with h | ⟨condition, h⟩
  · exact ⟨_, _, h, rfl, by decide⟩
  · exact ⟨_, _, h, rfl, by decide⟩

theorem divides_of_mark? {c : Command} {m : Mark} (hc : q.get? k = some c) (hm : c.mark? = some m)
    (hend : m ≠ .endIf) : q.Divides k := by
  cases c with
  | elif condition => exact .inr ⟨condition, hc⟩
  | «else» => exact .inl hc
  | endIf => exact absurd (Option.some.inj hm).symm hend
  | _ => cases hm

theorem Divides.rise_ne_zero (h : q.Divides k) (hnone : q.ownMark? id k = none) :
    q.rise id k ≠ 0 := by
  intro hzero
  obtain ⟨c, m, hc, hm, -⟩ := h.exists_mark
  simp [ownMark?, hzero, hc, hm] at hnone

/-- From its own marks a conditional is left. -/
theorem Leads.leaves (hsound : q.Sound) {related : List CommandId}
    (hr : Nesting.Relates q id last related) (hid : id < k) (hk : k ≤ last)
    (hmark : (q.ownMark? id k).isSome) (h : q.Leads k k') : last < k' := by
  obtain ⟨p, hp⟩ := Option.isSome_iff_exists.mp hmark
  obtain ⟨hlevel, c, hc, hm, -⟩ := ownMark?_eq_some.mp hp
  by_cases hend : p.2 = .endIf
  · -- the first end on the level of the conditional is its own
    have hlast : ¬ k < last := by
      intro hlt
      rw [hend] at hm
      exact hr.ends.first k hid hlt (Command.mark?_eq_endIf.mp hm ▸ hc) hlevel
    have hforward := h.lt hsound.listsOwn
    omega
  · have hdivides := divides_of_mark? hc hm hend
    have hfound : q.endOf? k = some last := by
      obtain ⟨condition, listed, hif⟩ := hr.isIf
      obtain ⟨last', hr'⟩ := hsound id condition listed hif
      obtain rfl := hr'.ends.unique hr.ends
      rw [endOf?_eq hsound.listsOwn hif (hr'.mem_iff.mpr ⟨hid, hk, hmark⟩), hr'.getLast?_eq]
    cases h with
    | next h =>
      have hsize : last < q.size := (Array.getElem?_eq_some_iff.mp hr.ends.endIf).1
      exact absurd (h last hdivides hfound) (Nat.not_le_of_lt hsize)
    | branch hif hmem =>
      rw [hc] at hif
      obtain rfl := Option.some.inj hif
      cases hm
    | close _ h =>
      obtain rfl := Option.some.inj (hfound.symm.trans h)
      exact Nat.lt_succ_self last

/-- **A step that takes no jump stays in the branch**, or goes to the mark behind it; from there it
leaves the conditional, and never comes back. -/
theorem Leads.stays (hsound : q.Sound) {related : List CommandId}
    (hr : Nesting.Relates q id last related) (hid : id ≤ start) (hn : n ≤ last)
    (hmark : (q.ownMark? id n).isSome)
    (hbetween : ∀ j, start < j → j < n → q.ownMark? id j = none) (h : q.Leads k k')
    (hk : start < k ∧ k ≤ n ∨ last < k) : start < k' ∧ k' ≤ n ∨ last < k' := by
  have hforward := h.lt hsound.listsOwn
  rcases hk with ⟨hstart, hle⟩ | hbehind
  · rcases Nat.lt_or_eq_of_le hle with hlt | rfl
    · obtain ⟨p, hp⟩ := Option.isSome_iff_exists.mp hmark
      have hlevel : q.rise id n = 0 := (ownMark?_eq_some.mp hp).1
      have hidk : id < k := by omega
      left
      cases h with
      | next h => omega
      | @branch condition listed m hif hm =>
        obtain ⟨inner, hr'⟩ := hsound k condition listed hif
        have hend := hr.ends.lt_ownMark ⟨_, _, hif⟩ hr'.ends hidk hlt hn hlevel
        obtain ⟨-, hmle, -⟩ := hr'.mem_iff.mp hm
        omega
      | @close inner hdivides h =>
        have hrise := hdivides.rise_ne_zero (hbetween k hstart hlt)
        have hend := lt_of_endOf? hsound hr.isIf hr.ends hidk hlt hn hlevel hrise h
        omega
    · exact .inr (h.leaves hsound hr (by omega) hn hmark)
  · exact .inr (by omega)

/-- **Without jumps, steps keep to one branch** of each conditional. -/
theorem exists_branch (hsound : q.Sound) {related : List CommandId}
    (hr : Nesting.Relates q id last related) (ks : List Nat) (hchain : ks.IsChain q.Leads) :
    ∃ start, ∀ k ∈ ks, (∃ start', q.InBranch id start' k) → q.InBranch id start k := by
  induction ks with
  | nil => exact ⟨id, by simp⟩
  | cons k ks ih =>
    by_cases hin : ∃ start, q.InBranch id start k
    · -- the first command in a branch: the rest stays there or has left the conditional
      obtain ⟨start, hstart⟩ := hin
      obtain ⟨n, hkn, hn, hmark, hbetween⟩ := hstart.exists_next hr.ends
      have hstays : ∀ j ∈ k :: ks, start < j ∧ j ≤ n ∨ last < j :=
        hchain.induction _ _ (fun _ _ hleads =>
          hleads.stays hsound hr hstart.le_start hn hmark hbetween)
          fun _ => .inl ⟨hstart.lt, Nat.le_of_lt hkn⟩
      refine ⟨start, fun j hj ⟨start', hin⟩ => ?_⟩
      obtain ⟨last', hends, hjlast⟩ := hin.ends
      obtain rfl := hends.unique hr.ends
      rcases hstays j hj with ⟨hlt, hle⟩ | hbehind
      · have hjn : j ≠ n := by
          rintro rfl
          simp [hin.between j hin.lt (Nat.le_refl j)] at hmark
        exact ⟨hstart.begins, hlt, fun i hi hij => hbetween i hi (by omega), last', hends, hjlast⟩
      · omega
    · obtain ⟨start, hrest⟩ := ih hchain.tail
      refine ⟨start, fun j hj hbranch => ?_⟩
      rcases List.mem_cons.mp hj with rfl | hj
      · exact absurd hbranch hin
      · exact hrest j hj hbranch

end Queue

/-! ### Scripts that have been read -/

/-- The command `j` is tied up with its conditional: if it opens one, it lists marks, and if it is a
mark between two branches, it finds the end. -/
structure Queue.Tied (q : Queue) (j : Nat) : Prop where
  lists : ∀ condition related, q.get? j = some (.if condition related) → related ≠ []
  finds : q.Divides j → ∃ last, q.endOf? j = some last

theorem Queue.tied {q : Queue} {j : Nat} {c : Command} (hc : q.get? j = some c)
    (hlists : ∀ condition related, c = .if condition related → related ≠ [])
    (hfinds : (∃ m, c.mark? = some m ∧ m ≠ .endIf) → ∃ last, q.endOf? j = some last) :
    q.Tied j where
  lists condition related hif := hlists condition related (Option.some.inj (hc.symm.trans hif))
  finds hdivides := by
    obtain ⟨c', m, hc', hm, hend⟩ := hdivides.exists_mark
    obtain rfl := Option.some.inj (hc.symm.trans hc')
    exact hfinds ⟨m, hm, hend⟩

/-- A mark that finds the end is tied up. -/
theorem Queue.tied_of_finds {q : Queue} {j last : Nat} {c : Command} {m : Mark}
    (hc : q.get? j = some c) (hm : c.mark? = some m) (hlast : q.endOf? j = some last) :
    q.Tied j := by
  refine Queue.tied hc ?_ fun _ => ⟨last, hlast⟩
  rintro condition related rfl
  cases hm

theorem Queue.tied_endIf {q : Queue} {j : Nat} (hc : q.get? j = some .endIf) : q.Tied j := by
  refine Queue.tied hc (by simp) ?_
  rintro ⟨m, hm, hend⟩
  exact absurd (Option.some.inj hm).symm hend

mutual

/-- All commands of a tree are tied up. -/
theorem Block.Placed.tied {q : Queue} {j : Nat} : ∀ {b : Block} {k : Nat}, b.Placed q k → k ≤ j →
    j < k + b.size → q.Tied j
  | .nil, k, _, hk, hj => by
    simp only [Block.size, Block.commands, List.length_nil] at hj
    omega
  | .command c plain rest, k, h, hk, hj => by
    rw [Block.size_command] at hj
    rcases Nat.lt_or_eq_of_le hk with hlt | rfl
    · exact h.2.tied hlt (by omega)
    · refine Queue.tied h.1 ?_ ?_
      · rintro condition related rfl
        cases plain
      · rintro ⟨m, hm, -⟩
        simp [Command.mark?_of_isPlain plain] at hm
  | .conditional condition body branches rest, k, h, hk, hj => by
    obtain ⟨hmarks, hbody, hbranches, hrest⟩ := h
    rw [Block.size_conditional] at hj
    rcases Nat.lt_or_eq_of_le hk with hlt | rfl
    · by_cases h1 : j < k + 1 + body.size
      · exact hbody.tied hlt h1
      · by_cases h2 : j < k + 1 + body.size + branches.size
        · exact hbranches.tied (by omega) h2
        · exact hrest.tied (by omega) (by omega)
    · refine Queue.tied hmarks ?_ (by simp [Command.mark?])
      rintro condition' related heq
      obtain ⟨-, rfl⟩ := Command.if.inj heq
      intro hnil
      have hlast := branches.getLast?_marks (k + 1 + body.size)
      rw [hnil] at hlast
      cases hlast

theorem Branches.Placed.tied {q : Queue} {j : Nat} : ∀ {b : Branches} {k last : Nat},
    b.Placed q k last → k ≤ j → j < k + b.size → q.Tied j
  | .endIf, k, last, h, hk, hj => by
    rw [Branches.size_endIf] at hj
    obtain rfl : j = k := by omega
    exact Queue.tied_endIf h.2
  | .else body, k, last, h, hk, hj => by
    obtain ⟨helse, hlast, hbody, hsize, hend⟩ := h
    rw [Branches.size_else] at hj
    rcases Nat.lt_or_eq_of_le hk with hlt | rfl
    · by_cases h1 : j < k + 1 + body.size
      · exact hbody.tied hlt h1
      · obtain rfl : j = last := by omega
        exact Queue.tied_endIf hend
    · exact Queue.tied_of_finds helse rfl hlast
  | .elif condition body rest, k, last, h, hk, hj => by
    obtain ⟨helif, hlast, hbody, hrest⟩ := h
    rw [Branches.size_elif] at hj
    rcases Nat.lt_or_eq_of_le hk with hlt | rfl
    · by_cases h1 : j < k + 1 + body.size
      · exact hbody.tied hlt h1
      · exact hrest.tied (by omega) (by omega)
    · exact Queue.tied_of_finds helif rfl hlast

end

theorem listsOwn_ofTokens (declared : List String) (tokens : List Token) :
    (ofTokens declared tokens).1.queue.ListsOwn := by
  intro id condition related hif
  rw [script_ofTokens] at hif ⊢
  exact owns_relate (fresh_tokensRead declared tokens).bare hif

/-- All commands of a script without structural errors are tied up. -/
theorem tied_ofTokens {declared : List String} {tokens : List Token}
    (h : (ofTokens declared tokens).1.structuralErrors = 0) {j : Nat} {c : Command}
    (hc : (ofTokens declared tokens).1.queue.get? j = some c) :
    (ofTokens declared tokens).1.queue.Tied j := by
  obtain ⟨b, hb⟩ := (generated_ofTokens declared tokens).mp h
  have hlt : j < b.size := by
    rw [Block.size, hb, List.length_map, Array.length_toList]
    exact (Array.getElem?_eq_some_iff.mp hc).1
  exact (placed_ofTokens hb).tied (Nat.zero_le j) (by omega)

/-- The conditionals of a script without structural errors are sound. -/
theorem sound_ofTokens {declared : List String} {tokens : List Token}
    (h : (ofTokens declared tokens).1.structuralErrors = 0) :
    (ofTokens declared tokens).1.queue.Sound := by
  intro id condition related hif
  have hne := (tied_ofTokens h hif).lists condition related hif
  exact (listsOwn_ofTokens declared tokens id condition related hif).relates
    ⟨condition, related, hif⟩ hne

/-! ### Runs -/

/-- Up to the next jump that is taken, one step leads to the other. -/
theorem isChain_leads {q : Queue} : ∀ stretch : List Machine,
    (∀ m ∈ stretch, q.Agrees m.script.queue q.size) →
    stretch.IsChain (fun a b => ∃ event?, a.next? = some (event?, b)) →
    (∀ m ∈ stretch.dropLast, m.jumps = false) →
    (stretch.map Machine.cursor).IsChain q.Leads
  | [], _, _, _ => .nil
  | [m], _, _, _ => .singleton _
  | a :: b :: rest, hagrees, hchain, hjumps => by
    obtain ⟨⟨event?, hnext⟩, hrest⟩ := List.isChain_cons_cons.mp hchain
    rw [List.dropLast_cons_cons, List.forall_mem_cons] at hjumps
    have hleads : q.Leads a.cursor b.cursor := by
      rcases (Machine.next?_leads hnext).2 with hjump | hleads
      · simp [hjumps.1] at hjump
      · exact hleads.agrees (hagrees a List.mem_cons_self).symm
    refine List.isChain_cons_cons.mpr ⟨hleads, ?_⟩
    have hagreesRest := fun m hm => hagrees m (List.mem_cons_of_mem a hm)
    exact isChain_leads (b :: rest) hagreesRest hrest hjumps.2

/-- The commands executed between two jumps that are taken, in their order. -/
theorem isChain_leads_of_stretch {q : Queue} {machine : Machine} {n : Nat} {stretch : List Machine}
    (hqueue : q.Agrees machine.script.queue q.size) (hstretch : stretch <:+: machine.visited n)
    (hjumps : ∀ m ∈ stretch.dropLast, m.jumps = false) :
    (stretch.map Machine.cursor).IsChain q.Leads := by
  have hagrees : ∀ m ∈ stretch, q.Agrees m.script.queue q.size := fun m hm =>
    Machine.agrees_visited hqueue (hstretch.subset hm)
  have hchain := List.IsChain.infix (Machine.isChain_visited n machine) hstretch
  exact isChain_leads stretch hagrees hchain hjumps

/-- **Control never falls from one branch into another.** A machine runs the commands of a script
without structural errors, from any of them on, with any variables, and with whatever times of
pauses have been looked up before. The commands executed between two jumps that are taken, as far
as they stand in branches of one conditional, stand in one and the same branch of it. -/
theorem stretch_keeps_branch (declared : List String) (tokens : List Token)
    (hsound : (ofTokens declared tokens).1.structuralErrors = 0) (machine : Machine)
    (hqueue : (ofTokens declared tokens).1.queue.Agrees machine.script.queue
      (ofTokens declared tokens).1.queue.size) (n : Nat) :
    let q := (ofTokens declared tokens).1.queue
    (∀ {μ : Type → Type} [Monad μ] (host : Host μ) (log : Array Report),
      Machine.run host n machine log =
        (machine.visited n).foldr (Machine.watch host) (Machine.leave host n machine) log) ∧
    ∀ stretch : List Machine, stretch <:+: machine.visited n →
      (∀ m ∈ stretch.dropLast, m.jumps = false) → ∀ id : Nat, q.IsIf id →
        ∃ start, ∀ m ∈ stretch, (∃ start', q.InBranch id start' m.cursor) →
          q.InBranch id start m.cursor := by
  intro q
  refine ⟨fun host log => Machine.run_eq_watch host n machine log, ?_⟩
  rintro stretch hstretch hjumps id ⟨condition, related, hif⟩
  have hall : q.Sound := sound_ofTokens hsound
  obtain ⟨last, hr⟩ := hall id condition related hif
  obtain ⟨start, hstart⟩ :=
    Queue.exists_branch hall hr _ (isChain_leads_of_stretch hqueue hstretch hjumps)
  exact ⟨start, fun m hm => hstart m.cursor (List.mem_map_of_mem hm)⟩

/-- A script that jumps into the second branch of a conditional. -/
def jumpIntoBranch : List Token :=
  let text (content : String) : Token := ⟨.text content, content, {}⟩
  [tagToken "jump" [⟨"target", "in"⟩], tagToken "if" [⟨"exp", "x"⟩], text "a",
    tagToken "elif" [⟨"exp", "y"⟩], ⟨.label "in" "", ":in", {}⟩, text "b", tagToken "else" [],
    text "c", tagToken "endif" [], text "d"]

theorem stretch_jumpIntoBranch :
    let script := (ofTokens [] jumpIntoBranch).1
    let machine : Machine := { script, heap := .single }
    let stretch := (machine.visited 6).tail
    script.structuralErrors = 0 ∧ script.queue.Agrees machine.script.queue script.queue.size ∧
      stretch <:+: machine.visited 6 ∧ (∀ m ∈ stretch.dropLast, m.jumps = false) ∧
      script.queue.IsIf 1 ∧ stretch.map Machine.cursor = [4, 5, 6, 9] ∧
      ∃ start, ∀ m ∈ stretch, (∃ start', script.queue.InBranch 1 start' m.cursor) →
        script.queue.InBranch 1 start m.cursor := by
  intro script machine stretch
  have hsound : script.structuralErrors = 0 := by decide +kernel
  have hqueue : script.queue.Agrees machine.script.queue script.queue.size := .refl _ _
  have hstretch : stretch <:+: machine.visited 6 := (List.tail_suffix _).isInfix
  have hjumps : ∀ m ∈ stretch.dropLast, m.jumps = false := by decide +kernel
  have hcursors : stretch.map Machine.cursor = [4, 5, 6, 9] := by decide +kernel
  have hif : script.queue.IsIf 1 := ⟨"x", [3, 6, 8], by decide +kernel⟩
  have hruns := stretch_keeps_branch [] jumpIntoBranch hsound machine hqueue 6
  exact ⟨hsound, hqueue, hstretch, hjumps, hif, hcursors, hruns.2 stretch hstretch hjumps 1 hif⟩

end NovelScript.Script
