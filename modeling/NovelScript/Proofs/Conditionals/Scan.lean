import NovelScript.Proofs.Conditionals.Level

/-!
What the reading of the commands with a stack finds. After every command the stack holds the
conditionals that have no end so far, the innermost first and each with its own marks; the others
have been recorded with their marks, if these stand in order.
-/

namespace NovelScript.Script

/-- A command has no part in a conditional, or is a mark, or opens a conditional. -/
theorem Command.trichotomy (c : Command) :
    c.isPlain = true ∨ (∃ m, c.mark? = some m) ∨ ∃ condition related, c = .if condition related := by
  cases c <;> simp [isPlain, mark?]

theorem Command.rise_of_isPlain {c : Command} (h : c.isPlain = true) : c.rise = 0 := by
  cases c <;> simp_all [isPlain, rise]

/-- Behind an `else` only the end is no fault. -/
theorem fault?_else_cons {p : CommandId × Mark} (hp : p.2 = .else)
    (rest : List (CommandId × Mark)) :
    Nesting.fault? (p :: rest) = none ↔ ∀ b ∈ rest, b.2 = .endIf := by
  unfold Nesting.fault?
  rw [List.dropWhile_cons_of_neg (by simp [hp])]
  constructor
  · intro h b hb
    cases hfind : rest.find? (·.2 = .else) with
    | some b' => simp [hfind] at h
    | none =>
      simp only [hfind, Option.map_eq_none_iff] at h
      have helse := List.find?_eq_none.mp hfind b hb
      have helif := List.find?_eq_none.mp h b hb
      cases hm : b.2 <;> simp_all
  · intro h
    have hnone : ∀ m : Mark, m ≠ .endIf → rest.find? (·.2 = m) = none := by
      intro m hm
      rw [List.find?_eq_none]
      intro b hb
      simpa [h b hb] using hm.symm
    simp [hnone .else (by decide), hnone .elif (by decide)]

/-- What is looked for as a fault is a mark out of order. -/
theorem fault?_eq_none_iff (marks : List (CommandId × Mark)) :
    Nesting.fault? marks = none ↔ Orderly marks := by
  induction marks with
  | nil => simp [Nesting.fault?, Orderly]
  | cons p rest ih =>
    by_cases hp : p.2 = .else
    · rw [fault?_else_cons hp, Orderly, List.pairwise_cons]
      constructor
      · intro h
        exact ⟨fun b hb _ => h b hb, List.pairwise_of_forall_mem_list fun _ _ b hb _ => h b hb⟩
      · intro h b hb
        exact h.1 b hb hp
    · have hskip : Nesting.fault? (p :: rest) = Nesting.fault? rest := by
        unfold Nesting.fault?
        rw [List.dropWhile_cons_of_pos (by simp [hp])]
      rw [hskip, ih, Orderly, Orderly, List.pairwise_cons]
      simp [hp]

namespace Nesting

variable {q : Queue} {n : Nesting} {k d : Nat} {c : Command} {o : OpenIf}

/-! ### One command -/

theorem read_of_isPlain (h : c.isPlain = true) (n : Nesting) (k : CommandId) : n.read k c = n := by
  cases c <;> simp_all [Command.isPlain, read]

theorem read_of_mark {m : Mark} (h : c.mark? = some m) (n : Nesting) (k : CommandId) :
    n.read k c = n.mark k m := by
  cases c <;> simp_all [Command.mark?, read]

theorem read_bare (n : Nesting) (k : CommandId) (c : Command) : n.read k c.bare = n.read k c := by
  cases c <;> rfl

@[simp] theorem readAll_map_bare (n : Nesting) (k : CommandId) (cs : List Command) :
    n.readAll k (cs.map Command.bare) = n.readAll k cs := by
  induction cs generalizing n k with
  | nil => rfl
  | cons c cs ih => rw [List.map_cons, readAll, readAll, read_bare, ih]

theorem readAll_append (n : Nesting) (k : Nat) (cs ds : List Command) :
    n.readAll k (cs ++ ds) = (n.readAll k cs).readAll (k + cs.length) ds := by
  induction cs generalizing n k with
  | nil => rfl
  | cons c cs ih =>
    have hk : k + 1 + cs.length = k + (cs.length + 1) := by omega
    rw [List.cons_append, readAll, readAll, ih, List.length_cons, hk]

theorem mark_of_nil (h : n.stack = []) (k : CommandId) (m : Mark) :
    n.mark k m = { n with faults := n.faults.push (.strayBranch m.tag, k) } := by
  simp [mark, h]

theorem mark_of_cons {outer : List OpenIf} (h : n.stack = o :: outer) (k : CommandId) {m : Mark}
    (hm : m ≠ .endIf) : n.mark k m = { n with stack := ⟨o.id, (k, m) :: o.marks⟩ :: outer } := by
  simp [mark, h, hm]

theorem mark_endIf (outer : List OpenIf) (h : n.stack = o :: outer) (k : CommandId) :
    n.mark k .endIf =
      { n with stack := outer }.close o.id (o.marks.reverse ++ [(k, Mark.endIf)]) := by
  simp [mark, h]

@[simp] theorem close_stack (id : CommandId) (marks : List (CommandId × Mark)) (n : Nesting) :
    (n.close id marks).stack = n.stack := by
  unfold close
  split <;> rfl

theorem close_of_orderly {marks : List (CommandId × Mark)} (h : Orderly marks) (id : CommandId)
    (n : Nesting) :
    n.close id marks = { n with related := n.related.push (id, marks.map Prod.fst) } := by
  simp [close, (fault?_eq_none_iff marks).mpr h]

theorem close_of_not_orderly {marks : List (CommandId × Mark)} (h : ¬ Orderly marks)
    (id : CommandId) (n : Nesting) :
    ∃ fault, n.close id marks = { n with faults := n.faults.push fault } := by
  rw [← fault?_eq_none_iff] at h
  obtain ⟨fault, hf⟩ := Option.ne_none_iff_exists'.mp h
  exact ⟨fault, by simp [close, hf]⟩

/-! ### What the stack holds -/

/-- The conditional `o` lies `d` levels above the command `k`, and has its marks so far. -/
structure OpenAt (q : Queue) (k d : Nat) (o : OpenIf) : Prop where
  lt : o.id < k
  isIf : q.IsIf o.id
  level : q.rise o.id k = d
  open_ : ∀ j, o.id < j → j < k → q.get? j = some .endIf → q.rise o.id j ≠ 0
  marks : o.marks.reverse = q.ownMarks o.id k

theorem OpenAt.ownMarks_next (h : OpenAt q k d o) (hc : q.get? k = some c) :
    q.ownMarks o.id (k + 1) =
      o.marks.reverse ++ if d = 0 then (c.mark?.map ((k : CommandId), ·)).toList else [] := by
  rw [Queue.ownMarks_succ h.lt, ← h.marks]
  congr 1
  by_cases hd : d = 0
  · subst hd
    have hlevel : q.rise o.id k = 0 := by simpa using h.level
    simp [Queue.ownMark?, hlevel, hc]
  · have hlevel : q.rise o.id k ≠ 0 := by rw [h.level]; omega
    simp [Queue.ownMark?, hlevel, hd]

/-- A command that is no mark of the conditional leaves it open. -/
theorem OpenAt.next (h : OpenAt q k d o) (hc : q.get? k = some c) (hmark : d = 0 → c.mark? = none)
    {d' : Nat} (hd' : (d' : Int) = d + c.rise) : OpenAt q (k + 1) d' o where
  lt := Nat.lt_succ_of_lt h.lt
  isIf := h.isIf
  level := by rw [Queue.rise_succ h.lt hc, h.level, hd']
  open_ := by
    intro j hj hjk hend
    rcases Nat.lt_or_eq_of_le (Nat.le_of_lt_succ hjk) with hlt | rfl
    · exact h.open_ j hj hlt hend
    · rw [h.level]
      intro hzero
      have hd : d = 0 := by omega
      obtain rfl : c = .endIf := Option.some.inj (hc.symm.trans hend)
      simpa [Command.mark?] using hmark hd
  marks := by
    rw [h.ownMarks_next hc]
    by_cases hd : d = 0 <;> simp [hd, hmark]

/-- A mark that is not the end is added to the innermost conditional. -/
theorem OpenAt.next_mark (h : OpenAt q k 0 o) (hc : q.get? k = some c) {m : Mark}
    (hm : c.mark? = some m) (hend : m ≠ .endIf) : OpenAt q (k + 1) 0 ⟨o.id, (k, m) :: o.marks⟩ where
  lt := Nat.lt_succ_of_lt h.lt
  isIf := h.isIf
  level := by
    have hrise := Command.rise_of_mark? hm
    rw [if_neg hend] at hrise
    rw [Queue.rise_succ h.lt hc, h.level, hrise, Int.add_zero]
  open_ := by
    intro j hj hjk hendj
    rcases Nat.lt_or_eq_of_le (Nat.le_of_lt_succ hjk) with hlt | rfl
    · exact h.open_ j hj hlt hendj
    · obtain rfl : c = .endIf := Option.some.inj (hc.symm.trans hendj)
      exact absurd (Option.some.inj hm).symm hend
  marks := by rw [h.ownMarks_next hc]; simp [hm]

/-- The end on the level of the innermost conditional closes it. -/
theorem OpenAt.ends (h : OpenAt q k 0 o) (hc : q.get? k = some .endIf) : q.Ends o.id k where
  lt := h.lt
  endIf := hc
  level := by simpa using h.level
  first := h.open_

/-! ### The invariant -/

/-- The conditional `id` is closed by `last` and has the marks `related` in order. -/
structure Relates (q : Queue) (id last : Nat) (related : List CommandId) : Prop where
  isIf : q.IsIf id
  ends : q.Ends id last
  orderly : Orderly (q.ownMarks id (last + 1))
  eq : related = (q.ownMarks id (last + 1)).map Prod.fst

/-- What has been found before the command `k`. -/
structure Follows (q : Queue) (k : Nat) (n : Nesting) : Prop where
  stack : ∀ d o, n.stack[d]? = some o → OpenAt q k d o
  covered : ∀ id, id < k → q.IsIf id → (∃ o ∈ n.stack, o.id = id) ∨ ∃ last < k, q.Ends id last
  related : ∀ id related, (id, related) ∈ n.related ↔ ∃ last < k, Relates q id last related

theorem follows_start (q : Queue) : Follows q 0 {} where
  stack := by simp
  covered := by simp
  related := by simp

/-- Where nothing ends, nothing new is related. -/
theorem relates_next (hno : ∀ id, q.IsIf id → ¬ q.Ends id k) (id : Nat)
    (related : List CommandId) :
    (∃ last < k + 1, Relates q id last related) ↔ ∃ last < k, Relates q id last related := by
  constructor
  · rintro ⟨last, hlast, h⟩
    rcases Nat.lt_or_eq_of_le (Nat.le_of_lt_succ hlast) with hlt | rfl
    · exact ⟨last, hlt, h⟩
    · exact absurd h.ends (hno id h.isIf)
  · rintro ⟨last, hlast, h⟩
    exact ⟨last, Nat.lt_succ_of_lt hlast, h⟩

/-- What a command ends is innermost on the stack. -/
theorem Follows.ends_innermost (h : Follows q k n) {id : Nat} (hif : q.IsIf id)
    (hends : q.Ends id k) : ∃ o outer, n.stack = o :: outer ∧ o.id = id := by
  rcases h.covered id hends.lt hif with ⟨o, ho, rfl⟩ | ⟨last, hlast, hends'⟩
  · obtain ⟨d, hd⟩ := List.mem_iff_getElem?.mp ho
    have hzero : (d : Int) = 0 := (h.stack d o hd).level.symm.trans hends.level
    obtain rfl : d = 0 := by omega
    cases hstack : n.stack with
    | nil => simp [hstack] at hd
    | cons o' outer =>
      obtain rfl : o' = o := by simpa [hstack] using hd
      exact ⟨o', outer, rfl, rfl⟩
  · exact absurd (hends'.unique hends) (by omega)

/-- An `if` is put onto the stack. -/
theorem Follows.read_if (h : Follows q k n) {condition : String} {related : List CommandId}
    (hc : q.get? k = some (.if condition related)) :
    Follows q (k + 1) (n.read k (.if condition related)) where
  stack := by
    intro d o ho
    cases d with
    | zero =>
      obtain rfl : (⟨k, []⟩ : OpenIf) = o := by simpa [read] using ho
      refine ⟨Nat.lt_succ_self k, ⟨condition, related, hc⟩, by simp, ?_, by simp⟩
      exact fun j hj hjk => absurd (Nat.le_of_lt_succ hjk) (Nat.not_le_of_lt hj)
    | succ d =>
      have hd := h.stack d o (by simpa [read] using ho)
      exact hd.next hc (fun _ => rfl) (by simp [Command.rise])
  covered := by
    intro id hid hif
    rcases Nat.lt_or_eq_of_le (Nat.le_of_lt_succ hid) with hlt | rfl
    · rcases h.covered id hlt hif with ⟨o, ho, rfl⟩ | ⟨last, hlast, hends⟩
      · exact .inl ⟨o, by simp [read, ho], rfl⟩
      · exact .inr ⟨last, Nat.lt_succ_of_lt hlast, hends⟩
    · exact .inl ⟨⟨id, []⟩, by simp [read], rfl⟩
  related := by
    have hno : ∀ id, q.IsIf id → ¬ q.Ends id k := fun id _ hends => by
      simpa [hc] using hends.endIf
    intro id related
    rw [relates_next hno]
    exact h.related id related

/-- A command that neither opens nor closes a conditional changes at most marks on the stack. -/
theorem Follows.keep {n' : Nesting} (h : Follows q k n) (hc : q.get? k = some c)
    (hif : ∀ condition related, c ≠ .if condition related)
    (hno : ∀ id, q.IsIf id → ¬ q.Ends id k) (hrelated : n'.related = n.related)
    (hids : ∀ o ∈ n.stack, ∃ o' ∈ n'.stack, o'.id = o.id)
    (hstack : ∀ d o, n'.stack[d]? = some o → OpenAt q (k + 1) d o) : Follows q (k + 1) n' where
  stack := hstack
  covered := by
    intro id hid hid'
    rcases Nat.lt_or_eq_of_le (Nat.le_of_lt_succ hid) with hlt | rfl
    · rcases h.covered id hlt hid' with ⟨o, ho, rfl⟩ | ⟨last, hlast, hends⟩
      · exact .inl (hids o ho)
      · exact .inr ⟨last, Nat.lt_succ_of_lt hlast, hends⟩
    · obtain ⟨condition, related, hc'⟩ := hid'
      exact absurd (Option.some.inj (hc.symm.trans hc')) (hif condition related)
  related := by
    intro id related
    rw [relates_next hno, hrelated]
    exact h.related id related

theorem Follows.read_plain (h : Follows q k n) (hc : q.get? k = some c) (hp : c.isPlain = true) :
    Follows q (k + 1) (n.read k c) := by
  have hno : ∀ id, q.IsIf id → ¬ q.Ends id k := by
    rintro id - hends
    obtain rfl : c = .endIf := Option.some.inj (hc.symm.trans hends.endIf)
    simp [Command.isPlain] at hp
  rw [read_of_isPlain hp]
  refine h.keep hc ?_ hno rfl (fun o ho => ⟨o, ho, rfl⟩) fun d o ho => ?_
  · rintro condition related rfl
    simp [Command.isPlain] at hp
  · refine (h.stack d o ho).next hc (fun _ => Command.mark?_of_isPlain hp) ?_
    simp [Command.rise_of_isPlain hp]

theorem not_if_of_mark {m : Mark} (hm : c.mark? = some m) (condition : String)
    (related : List CommandId) : c ≠ .if condition related := by
  rintro rfl
  simp [Command.mark?] at hm

/-- A mark outside of every conditional is a fault, and no more. -/
theorem Follows.read_stray (h : Follows q k n) (hc : q.get? k = some c) {m : Mark}
    (hm : c.mark? = some m) (hnil : n.stack = []) : Follows q (k + 1) (n.read k c) := by
  rw [read_of_mark hm, mark_of_nil hnil]
  refine h.keep hc (not_if_of_mark hm) ?_ rfl (fun o ho => ⟨o, ho, rfl⟩) ?_
  · intro id hif hends
    obtain ⟨o, outer, hcons, -⟩ := h.ends_innermost hif hends
    simp [hnil] at hcons
  · simp [hnil]

/-- A mark inside of a conditional divides the innermost one. -/
theorem Follows.read_mark (h : Follows q k n) (hc : q.get? k = some c) {m : Mark}
    (hm : c.mark? = some m) (hend : m ≠ .endIf) {outer : List OpenIf}
    (hcons : n.stack = o :: outer) : Follows q (k + 1) (n.read k c) := by
  have hrise : c.rise = 0 := by rw [Command.rise_of_mark? hm, if_neg hend]
  rw [read_of_mark hm, mark_of_cons hcons k hend]
  refine h.keep hc (not_if_of_mark hm) ?_ rfl ?_ fun d o' ho' => ?_
  · rintro id - hends
    obtain rfl : c = .endIf := Option.some.inj (hc.symm.trans hends.endIf)
    exact hend (Option.some.inj hm).symm
  · intro o' ho'
    rw [hcons] at ho'
    rcases List.mem_cons.mp ho' with rfl | ho'
    · exact ⟨_, List.mem_cons_self, rfl⟩
    · exact ⟨o', List.mem_cons_of_mem _ ho', rfl⟩
  · cases d with
    | zero =>
      obtain rfl : (⟨o.id, (k, m) :: o.marks⟩ : OpenIf) = o' := by simpa using ho'
      exact (h.stack 0 o (by simp [hcons])).next_mark hc hm hend
    | succ d =>
      refine (h.stack (d + 1) o' (by simpa [hcons] using ho')).next hc (fun hd => ?_) (by simp [hrise])
      simp at hd

/-- The marks of the innermost conditional when its end is read. -/
theorem OpenAt.ownMarks_end (h : OpenAt q k 0 o) (hc : q.get? k = some .endIf) :
    q.ownMarks o.id (k + 1) = o.marks.reverse ++ [((k : CommandId), Mark.endIf)] := by
  rw [h.ownMarks_next hc]
  simp [Command.mark?]

/-- What closing the innermost conditional records. -/
theorem mem_related_close (n : Nesting) (id id' : Nat) (marks : List (CommandId × Mark))
    (related : List CommandId) : (id', related) ∈ (n.close id marks).related ↔
      (id', related) ∈ n.related ∨ id' = id ∧ Orderly marks ∧ related = marks.map Prod.fst := by
  by_cases ho : Orderly marks
  · simp [close_of_orderly ho, ho]
  · obtain ⟨fault, hf⟩ := close_of_not_orderly ho id n
    simp [hf, ho]

/-- An end inside of a conditional closes the innermost one. -/
theorem Follows.read_endIf (h : Follows q k n) (hc : q.get? k = some .endIf)
    {outer : List OpenIf} (hcons : n.stack = o :: outer) :
    Follows q (k + 1) (n.read k .endIf) := by
  have hopen : OpenAt q k 0 o := h.stack 0 o (by simp [hcons])
  have hends : q.Ends o.id k := hopen.ends hc
  rw [read_of_mark rfl, mark_endIf _ hcons k]
  refine ⟨fun d o' ho' => ?_, fun id hid hif => ?_, fun id related => ?_⟩
  · have hd := h.stack (d + 1) o' (by simpa [hcons] using ho')
    exact hd.next hc (by simp) (by simp only [Command.rise]; omega)
  · rw [close_stack]
    rcases Nat.lt_or_eq_of_le (Nat.le_of_lt_succ hid) with hlt | rfl
    · rcases h.covered id hlt hif with ⟨o', ho', rfl⟩ | ⟨last, hlast, hends'⟩
      · rw [hcons] at ho'
        rcases List.mem_cons.mp ho' with rfl | ho'
        · exact .inr ⟨k, Nat.lt_succ_self k, hends⟩
        · exact .inl ⟨o', ho', rfl⟩
      · exact .inr ⟨last, Nat.lt_succ_of_lt hlast, hends'⟩
    · obtain ⟨condition, related, hc'⟩ := hif
      simp [hc] at hc'
  · rw [mem_related_close, ← hopen.ownMarks_end hc, h.related id related]
    constructor
    · rintro (⟨last, hlast, hr⟩ | ⟨rfl, ho, rfl⟩)
      · exact ⟨last, Nat.lt_succ_of_lt hlast, hr⟩
      · exact ⟨k, Nat.lt_succ_self k, hopen.isIf, hends, ho, rfl⟩
    · rintro ⟨last, hlast, hr⟩
      rcases Nat.lt_or_eq_of_le (Nat.le_of_lt_succ hlast) with hlt | rfl
      · exact .inl ⟨last, hlt, hr⟩
      · obtain ⟨o', outer', hcons', rfl⟩ := h.ends_innermost hr.isIf hr.ends
        obtain ⟨rfl, -⟩ := List.cons.inj (hcons.symm.trans hcons')
        exact .inr ⟨rfl, hr.orderly, hr.eq⟩

/-- **One command keeps the invariant.** -/
theorem Follows.read (h : Follows q k n) (hc : q.get? k = some c) :
    Follows q (k + 1) (n.read k c) := by
  rcases c.trichotomy with hp | ⟨m, hm⟩ | ⟨condition, related, rfl⟩
  · exact h.read_plain hc hp
  · cases hstack : n.stack with
    | nil => exact h.read_stray hc hm hstack
    | cons o outer =>
      by_cases hend : m = .endIf
      · subst hend
        obtain rfl := Command.mark?_eq_endIf.mp hm
        exact h.read_endIf hc hstack
      · exact h.read_mark hc hm hend hstack
  · exact h.read_if hc

/-- **All commands keep the invariant.** -/
theorem Follows.readAll : ∀ (cs : List Command) {k : Nat} {n : Nesting}, Follows q k n →
    (∀ i, i < cs.length → q.get? (k + i) = cs[i]?) → Follows q (k + cs.length) (n.readAll k cs)
  | [], _, _, h, _ => h
  | c :: cs, k, n, h, hcs => by
    have hc : q.get? k = some c := by simpa using hcs 0 (by simp)
    have hrest : ∀ i, i < cs.length → q.get? (k + 1 + i) = cs[i]? := by
      intro i hi
      have hi' := hcs (i + 1) (by simpa using hi)
      rw [List.getElem?_cons_succ] at hi'
      rw [← hi', show k + 1 + i = k + (i + 1) by omega]
    have hnext := Follows.readAll cs (h.read hc) hrest
    have hk : k + 1 + cs.length = k + (cs.length + 1) := by omega
    rw [Nesting.readAll, List.length_cons, ← hk]
    exact hnext

/-- **What the whole queue relates**: the conditionals that are closed with their marks in
order. -/
theorem mem_related_ofQueue (q : Queue) (id : Nat) (related : List CommandId) :
    (id, related) ∈ (ofQueue q).related ↔ ∃ last, Relates q id last related := by
  have h := (follows_start q).readAll q.commands.toList (fun i _ => by
    simp [Queue.get?, Array.getElem?_toList])
  rw [Nat.zero_add, Array.length_toList] at h
  have hrelated : (ofQueue q).related = (Nesting.readAll {} 0 q.commands.toList).related := rfl
  rw [hrelated, h.related id related]
  constructor
  · rintro ⟨last, -, hr⟩
    exact ⟨last, hr⟩
  · rintro ⟨last, hr⟩
    exact ⟨last, (Array.getElem?_eq_some_iff.mp hr.ends.endIf).1, hr⟩

end Nesting
end NovelScript.Script
