import NovelScript.Proofs.Conditionals.Block

/-!
The levels of a queue, counted without a tree. Every `if` goes one level down and every `endif`
one up; what stands on the level of a conditional, up to its end, belongs to it. This is said of
any queue, also of one whose conditionals are broken.
-/

namespace NovelScript.Script

/-- How many levels a command goes down. -/
def Command.rise : Command → Int
  | .if _ _ => 1
  | .endIf => -1
  | _ => 0

@[simp] theorem Command.rise_bare (c : Command) : c.bare.rise = c.rise := by cases c <;> rfl

theorem Command.rise_of_mark? {c : Command} {m : Mark} (h : c.mark? = some m) :
    c.rise = if m = .endIf then -1 else 0 := by
  cases c <;> simp_all [mark?, rise] <;> subst h <;> simp

theorem Command.mark?_eq_endIf {c : Command} : c.mark? = some .endIf ↔ c = .endIf := by
  cases c <;> simp [mark?]

namespace Queue

variable {q : Queue} {id i j k last : Nat} {c : Command}

/-! ### Levels -/

/-- The command is an `if`. -/
def IsIf (q : Queue) (id : Nat) : Prop := ∃ condition related, q.get? id = some (.if condition related)

/-- How many levels the commands between two others go down. -/
def rise (q : Queue) (i j : Nat) : Int :=
  (List.range' (i + 1) (j - (i + 1))).foldr (fun k level => (q.get? k).elim 0 Command.rise + level) 0

theorem foldr_rise (q : Queue) (ks : List Nat) (level : Int) :
    ks.foldr (fun k level => (q.get? k).elim 0 Command.rise + level) level =
      ks.foldr (fun k level => (q.get? k).elim 0 Command.rise + level) 0 + level := by
  induction ks with
  | nil => simp
  | cons k ks ih =>
    rw [List.foldr_cons, List.foldr_cons, ih]
    omega

@[simp] theorem rise_succ_self (q : Queue) (i : Nat) : q.rise i (i + 1) = 0 := by simp [rise]

theorem rise_succ (hi : i < j) (hc : q.get? j = some c) : q.rise i (j + 1) = q.rise i j + c.rise := by
  have hlen : j + 1 - (i + 1) = (j - (i + 1)) + 1 := by omega
  have hend : i + 1 + (j - (i + 1)) = j := by omega
  unfold rise
  rw [hlen, List.range'_1_concat, List.foldr_append, hend, List.foldr_cons, foldr_rise, hc]
  simp

/-- Levels add up over a command between. -/
theorem rise_split (hi : i < j) (hc : q.get? j = some c) (hk : j < k) :
    q.rise i k = q.rise i j + c.rise + q.rise j k := by
  have hsplit : List.range' (i + 1) (k - (i + 1)) =
      List.range' (i + 1) (j - (i + 1)) ++ j :: List.range' (j + 1) (k - (j + 1)) := by
    have h1 : k - (i + 1) = (j - (i + 1)) + (1 + (k - (j + 1))) := by omega
    have h2 : i + 1 + (j - (i + 1)) = j := by omega
    rw [h1, ← List.range'_append_1, h2, Nat.add_comm 1, List.range'_succ]
  unfold rise
  rw [hsplit, List.foldr_append, List.foldr_cons, foldr_rise, hc, Option.elim_some]
  omega

/-! ### The end of a conditional -/

/-- The command `last` closes the conditional `id`: it is the first `endif` on its level. -/
structure Ends (q : Queue) (id last : Nat) : Prop where
  lt : id < last
  endIf : q.get? last = some .endIf
  level : q.rise id last = 0
  first : ∀ k, id < k → k < last → q.get? k = some .endIf → q.rise id k ≠ 0

theorem Ends.unique (h : q.Ends id i) (h' : q.Ends id j) : i = j := by
  rcases Nat.lt_trichotomy i j with hlt | heq | hgt
  · exact absurd h.level (h'.first i h.lt hlt h.endIf)
  · exact heq
  · exact absurd h'.level (h.first j h'.lt hgt h'.endIf)

/-- Inside of a conditional no level above its own is reached. -/
theorem Ends.rise_nonneg (h : q.Ends id last) : ∀ k, id < k → k ≤ last → 0 ≤ q.rise id k := by
  intro k
  induction k with
  | zero => intro hid; omega
  | succ k ih =>
    intro hid hlast
    rcases Nat.lt_or_eq_of_le (Nat.le_of_lt_succ hid) with hlt | rfl
    · have ihk := ih hlt (by omega)
      have hsize : last < q.commands.size := (Array.getElem?_eq_some_iff.mp h.endIf).1
      obtain ⟨c, hc⟩ : ∃ c, q.get? k = some c := ⟨_, Array.getElem?_eq_getElem (by omega)⟩
      rw [rise_succ hlt hc]
      by_cases hend : c = .endIf
      · subst hend
        have := h.first k hlt (by omega) hc
        simp only [Command.rise]
        omega
      · have : 0 ≤ c.rise := by cases c <;> simp_all [Command.rise]
        omega
    · simp

/-! ### The marks of a conditional -/

/-- The mark that a command is, if it stands on the level of the conditional `id`. -/
def ownMark? (q : Queue) (id k : Nat) : Option (CommandId × Mark) :=
  if q.rise id k = 0 then ((q.get? k).bind Command.mark?).map (k, ·) else none

/-- The marks on the level of the conditional `id` that stand between it and the command `stop`. -/
def ownMarks (q : Queue) (id stop : Nat) : List (CommandId × Mark) :=
  (List.range' (id + 1) (stop - (id + 1))).filterMap (q.ownMark? id)

@[simp] theorem ownMarks_succ_self (q : Queue) (id : Nat) : q.ownMarks id (id + 1) = [] := by
  simp [ownMarks]

theorem ownMarks_succ (hk : id < k) :
    q.ownMarks id (k + 1) = q.ownMarks id k ++ (q.ownMark? id k).toList := by
  have hlen : k + 1 - (id + 1) = (k - (id + 1)) + 1 := by omega
  have hend : id + 1 + (k - (id + 1)) = k := by omega
  unfold ownMarks
  rw [hlen, List.range'_1_concat, List.filterMap_append, hend]
  cases h : q.ownMark? id k <;> simp [h]

theorem mem_ownMarks {p : CommandId × Mark} :
    p ∈ q.ownMarks id k ↔ ∃ m : Nat, id < m ∧ m < k ∧ q.ownMark? id m = some p := by
  simp only [ownMarks, List.mem_filterMap, List.mem_range'_1]
  constructor
  · rintro ⟨m, ⟨h1, h2⟩, h3⟩
    exact ⟨m, by omega, by omega, h3⟩
  · rintro ⟨m, h1, h2, h3⟩
    exact ⟨m, ⟨by omega, by omega⟩, h3⟩

theorem ownMark?_eq_some {p : CommandId × Mark} :
    q.ownMark? id k = some p ↔
      q.rise id k = 0 ∧ ∃ c, q.get? k = some c ∧ c.mark? = some p.2 ∧ p.1 = k := by
  unfold ownMark?
  split
  · rename_i h
    cases hc : q.get? k with
    | none => simp
    | some c =>
      cases hm : c.mark? with
      | none => simp [hm]
      | some m =>
        obtain ⟨a, b⟩ := p
        simp [hm, h, Prod.ext_iff, and_comm, eq_comm]
  · rename_i h
    simp [h]

/-- A mark belongs to one conditional only. -/
theorem eq_of_mem_ownMarks {id' last' m : Nat} (hif : q.IsIf id) (hif' : q.IsIf id')
    (h : q.Ends id last) (h' : q.Ends id' last')
    (hm : m ∈ (q.ownMarks id (last + 1)).map Prod.fst)
    (hm' : m ∈ (q.ownMarks id' (last' + 1)).map Prod.fst) : id = id' := by
  have level : ∀ {i l : Nat}, m ∈ (q.ownMarks i (l + 1)).map Prod.fst →
      i < m ∧ m ≤ l ∧ q.rise i m = 0 := by
    intro i l hmem
    obtain ⟨p, hp, hpm⟩ := List.mem_map.mp hmem
    obtain ⟨k, h1, h2, h3⟩ := mem_ownMarks.mp hp
    obtain ⟨hrise, c, -, -, hpk⟩ := ownMark?_eq_some.mp h3
    have hkm : k = m := hpk.symm.trans hpm
    subst hkm
    exact ⟨h1, by omega, hrise⟩
  -- seen from the outer one, the mark stands at least one level below the inner one
  have outer : ∀ {i l i' l' : Nat}, q.IsIf i' → q.Ends i l → i < m ∧ m ≤ l ∧ q.rise i m = 0 →
      i' < m ∧ m ≤ l' ∧ q.rise i' m = 0 → ¬ i < i' := by
    rintro i l i' l' ⟨condition, related, hc⟩ hends ⟨-, hml, h0⟩ ⟨him', -, h0'⟩ hlt
    have hsplit := rise_split hlt hc him'
    have hnonneg := hends.rise_nonneg i' hlt (by omega)
    simp only [Command.rise] at hsplit
    omega
  have h1 := outer hif' h (level hm) (level hm')
  have h2 := outer hif h' (level hm') (level hm)
  omega

end Queue
end NovelScript.Script
