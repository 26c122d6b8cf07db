import NovelScript.Proofs.Reading.Checks

/-!
Where lines start in a script, as its commands stand one behind the other. Main statement: whatever
the tokens, every indent stands at the start of a line.
-/

namespace NovelScript.Script

namespace Queue

variable {q q' : Queue} {k : Nat} {c : Command}

/-- A line has just begun in front of the command: no text stands between it and the last command
that begins a line or page, or the first command. -/
def startsLine (q : Queue) : Nat → Bool
  | 0 => true
  | k + 1 => (q.get? k).elim (q.startsLine k) (Builder.lineStartAfter (q.startsLine k))

theorem startsLine_succ (hc : q.get? k = some c) :
    q.startsLine (k + 1) = Builder.lineStartAfter (q.startsLine k) c := by
  rw [startsLine, hc, Option.elim_some]

/-- Only what the commands do to lines makes a difference. -/
theorem startsLine_congr
    (h : ∀ j < k, ∀ before, (q.get? j).elim before (Builder.lineStartAfter before) =
      (q'.get? j).elim before (Builder.lineStartAfter before)) :
    q.startsLine k = q'.startsLine k := by
  induction k with
  | zero => rfl
  | succ k ih =>
    rw [startsLine, startsLine, ih fun j hj => h j (Nat.lt_succ_of_lt hj)]
    exact h k (Nat.lt_succ_self k) _

/-- A command at the end makes no difference to those before it. -/
theorem startsLine_enqueue (added : Command) (hk : k ≤ q.size) :
    (q.enqueue added).2.startsLine k = q.startsLine k := by
  refine startsLine_congr fun j hj before => ?_
  have hsame : (q.enqueue added).2.get? j = q.get? j := by
    have hlt : j < q.commands.size := Nat.lt_of_lt_of_le hj hk
    exact (Array.getElem?_push_lt hlt).trans (Array.getElem?_eq_getElem hlt).symm
  rw [hsame]

theorem lineStartAfter_bare (before : Bool) (c : Command) :
    Builder.lineStartAfter before c.bare = Builder.lineStartAfter before c := by
  cases c <;> rfl

/-- The marks of conditionals make no difference. -/
theorem Alike.startsLine_eq (h : q.Alike q') (k : Nat) : q.startsLine k = q'.startsLine k := by
  refine startsLine_congr fun j _ before => ?_
  have hbare : ∀ o : Option Command, o.elim before (Builder.lineStartAfter before) =
      (o.map Command.bare).elim before (Builder.lineStartAfter before) := by
    intro o
    cases o with
    | none => rfl
    | some c => exact (lineStartAfter_bare before c).symm
  rw [hbare, h j, ← hbare]

/-- Every indent stands at the start of a line. -/
def Indented (q : Queue) : Prop := ∀ k count, q.get? k = some (.indent count) → q.startsLine k = true

/-- A command may be added unless it is an indent in the middle of a line. -/
theorem Indented.enqueue (h : q.Indented) {added : Command}
    (hadded : ∀ count, added = .indent count → q.startsLine q.size = true) :
    (q.enqueue added).2.Indented := by
  intro k count hk
  rcases (get?_enqueue added).mp hk with hold | ⟨rfl, heq⟩
  · have hlt : k < q.size := (Array.getElem?_eq_some_iff.mp hold).1
    rw [startsLine_enqueue added (Nat.le_of_lt hlt)]
    exact h k count hold
  · rw [startsLine_enqueue added (Nat.le_refl _)]
    exact hadded count heq

end Queue

/-! ### While the tokens are read -/

namespace Builder

/-- What is known about the lines at any time while tokens are read. -/
structure LinesKept (b : Builder) : Prop where
  /-- The flag tells whether the next command is at the start of a line. -/
  flag : b.atLineStart = b.script.queue.startsLine b.script.queue.size
  indented : b.script.queue.Indented

variable {b b' : Builder}

theorem LinesKept.add (h : b.LinesKept) {c : Command}
    (hc : ∀ count, c = .indent count → b.atLineStart = true) (place : Position) :
    (b.add c place).LinesKept where
  flag := by
    have hget : (b.script.queue.enqueue c).2.get? b.script.queue.size = some c :=
      (Queue.get?_enqueue c).mpr (.inr ⟨rfl, rfl⟩)
    show lineStartAfter b.atLineStart c =
      (b.script.queue.enqueue c).2.startsLine (b.script.queue.enqueue c).2.size
    rw [show (b.script.queue.enqueue c).2.size = b.script.queue.size + 1 from Array.size_push c,
      Queue.startsLine_succ hget, Queue.startsLine_enqueue c (Nat.le_refl _), h.flag]
  indented := h.indented.enqueue fun count heq => h.flag ▸ hc count heq

theorem LinesKept.advance (h : b.LinesKept) (hadvance : Advance b b') : b'.LinesKept := by
  cases hadvance with
  | move hmove =>
    cases hmove with
    | tag htag =>
      cases htag with
      | add c place hordinary hc hparses =>
        refine h.add ?_ place
        rintro count rfl
        cases hordinary
      | _ => exact ⟨h.flag, h.indented⟩
    | text text textStart => exact ⟨h.flag, h.indented⟩
    | addText text place => exact h.add (by simp) place
    | addIndent count place hstart => exact h.add (fun _ _ => hstart) place
  | @label name headline place =>
    have hadd : (b.add (.label name headline) place).LinesKept := h.add (by simp) place
    exact ⟨hadd.flag, hadd.indented⟩

end Builder

/-- **Every indent of a script stands at the start of a line.** -/
theorem indented_ofTokens (declared : List String) (tokens : List Token) :
    (ofTokens declared tokens).1.queue.Indented := by
  have hread : (tokensRead declared tokens).LinesKept :=
    Builder.Advances.keep Builder.LinesKept.advance ⟨rfl, by simp [Queue.Indented, Queue.get?]⟩
      (tokensRead_advances declared tokens)
  have halike := alike_tokensRead declared tokens
  intro k count hk
  rw [halike.startsLine_eq]
  exact hread.indented k count (halike.get?_eq hk (by simp))

end NovelScript.Script
