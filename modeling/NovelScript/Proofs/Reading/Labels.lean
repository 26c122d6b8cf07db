import Mathlib.Data.List.Nodup
import NovelScript.Proofs.Reading.Checks

/-!
The labels of a script. A script keeps its labels beside its commands, for jumps to be checked. Main
statement: whatever the tokens, what it keeps are exactly the labels among its commands, under the
names that its label tokens have, each with the headline that is read first.
-/

namespace NovelScript.Script

variable {declared : List String} {tokens : List Token} {script : Script} {name : String}

/-- The label with a name, if the script keeps one. -/
def label? (script : Script) (name : String) : Option Label :=
  script.labels.toList.find? (·.name = name)

/-- The headline behind a name, if the token is a label of this name. -/
def Token.headline? (name : String) (token : Token) : Option String :=
  match token.kind with
  | .label n headline => if n = name then some headline else none
  | _ => none

/-! ### Names -/

/-- Where no two labels have the same name, a look-up finds each of them. -/
theorem label?_eq_some (h : (script.labels.toList.map Label.name).Nodup) {l : Label} :
    script.label? name = some l ↔ l ∈ script.labels ∧ l.name = name := by
  constructor
  · intro hl
    exact ⟨Array.mem_toList_iff.mp (List.mem_of_find?_eq_some hl), by simpa using List.find?_some hl⟩
  · rintro ⟨hl, rfl⟩
    have hmem := Array.mem_toList_iff.mpr hl
    have hfound : (script.label? l.name).isSome :=
      List.find?_isSome.mpr ⟨l, hmem, by simp⟩
    obtain ⟨l', hl'⟩ := Option.isSome_iff_exists.mp hfound
    have hname : l'.name = l.name := by simpa using List.find?_some hl'
    rw [hl', List.inj_on_of_nodup_map h (List.mem_of_find?_eq_some hl') hmem hname]

theorem label?_eq_none : script.label? name = none ↔ script.hasLabel name = false := by
  rw [label?, List.find?_eq_none, hasLabel, ← Array.any_toList, List.any_eq_false]

/-! ### While the tokens are read -/

namespace Builder

variable {b b' : Builder}

/-- Texts and tags add no labels. -/
theorem Moves.labels_eq (h : Moves b b') : b'.script.labels = b.script.labels := by
  refine h.keep (p := fun c => c.script.labels = b.script.labels) (fun hb hmove => ?_) rfl
  cases hmove with
  | tag htag => cases htag <;> exact hb
  | _ => exact hb

theorem Moves.label?_eq (h : Moves b b') (name : String) :
    b'.script.label? name = b.script.label? name := by
  rw [label?, label?, h.labels_eq]

theorem label?_addLabel (n headline : String) (place : Position) (name : String) :
    (b.addLabel n headline place).script.label? name = (b.script.label? name).or
      (if n = name then some ⟨n, headline, b.script.queue.size⟩ else none) := by
  show (b.script.labels.push ⟨n, headline, b.script.queue.size⟩).toList.find? _ = _
  rw [Array.toList_push, List.find?_append]
  by_cases h : n = name <;> simp [label?, h]

theorem headline_readLabel (b : Builder) (n headline : String) (place : Position)
    (hname : name.isEmpty = false) :
    ((b.readLabel n headline place).script.label? name).map Label.headline =
      ((b.script.label? name).map Label.headline).or (if n = name then some headline else none) := by
  unfold readLabel
  split
  · rename_i hempty
    have hne : n ≠ name := by
      rintro rfl
      rw [hname] at hempty
      cases hempty
    simp [hne, report]
  · split
    · -- a label of this name comes first
      rename_i hold
      by_cases hn : n = name
      · subst hn
        obtain ⟨l, hl⟩ : ∃ l, b.script.label? n = some l := by
          refine Option.ne_none_iff_exists'.mp fun hnone => ?_
          rw [label?_eq_none.mp hnone] at hold
          cases hold
        simp [hl, report]
      · simp [hn, report]
    · refine (congrArg (Option.map Label.headline) (label?_addLabel n headline place name)).trans ?_
      rw [Option.map_or]
      split <;> rfl

/-- A token adds the label that it is, if there is none of this name yet. -/
theorem headline_readToken (b : Builder) (token : Token) (hname : name.isEmpty = false) :
    ((b.readToken token).script.label? name).map Label.headline =
      ((b.script.label? name).map Label.headline).or (token.headline? name) := by
  cases hkind : token.kind with
  | label n headline =>
    rw [readToken, hkind, Token.headline?, hkind]
    exact (headline_readLabel b.addText n headline token.position hname).trans
      (by rw [(addText_moves b).label?_eq])
  | text content =>
    rw [(readToken_moves b (by simp [hkind])).label?_eq, Token.headline?, hkind, Option.or_none]
  | tag tag =>
    rw [(readToken_moves b (by simp [hkind])).label?_eq, Token.headline?, hkind, Option.or_none]

theorem headline_foldl (hname : name.isEmpty = false) (tokens : List Token) : ∀ b : Builder,
    ((tokens.foldl readToken b).script.label? name).map Label.headline =
      ((b.script.label? name).map Label.headline).or (tokens.findSome? (Token.headline? name)) := by
  induction tokens with
  | nil => simp
  | cons token tokens ih =>
    intro b
    rw [List.foldl_cons, ih, headline_readToken b token hname, Option.or_assoc, List.findSome?_cons]
    cases token.headline? name <;> rfl

/-- No label has an empty name. -/
def Named (b : Builder) : Prop := ∀ l ∈ b.script.labels, l.name.isEmpty = false

theorem Named.advance (h : b.Named) (hadvance : Advance b b') : b'.Named := by
  cases hadvance with
  | move hmove =>
    intro l hl
    rw [Moves.labels_eq (.single hmove)] at hl
    exact h l hl
  | label headline place hname hnew =>
    intro l hl
    rcases Array.mem_push.mp hl with hold | rfl
    · exact h l hold
    · exact hname

end Builder

theorem named_tokensRead (declared : List String) (tokens : List Token) :
    (tokensRead declared tokens).Named :=
  Builder.Advances.keep Builder.Named.advance (by simp [Builder.Named])
    (tokensRead_advances declared tokens)

/-! ### Scripts -/

/-- Every command has its place. -/
theorem size_positions (declared : List String) (tokens : List Token) :
    (ofTokens declared tokens).1.positions.size = (ofTokens declared tokens).1.queue.size := by
  rw [script_ofTokens]
  exact (checked_tokensRead declared tokens).positions.trans (Queue.size_relate _ _).symm

theorem label?_tokensRead (declared : List String) (tokens : List Token) (name : String) :
    (ofTokens declared tokens).1.label? name = (tokensRead declared tokens).script.label? name := by
  rw [script_ofTokens]
  rfl

/-- A look-up finds the label among the commands. -/
theorem label?_ofTokens {l : Label} :
    (ofTokens declared tokens).1.label? name = some l ↔
      l.name = name ∧
        (ofTokens declared tokens).1.queue.get? l.id = some (.label l.name l.headline) := by
  have hchecked := checked_tokensRead declared tokens
  have halike := alike_tokensRead declared tokens
  rw [label?_tokensRead, label?_eq_some hchecked.distinct, and_comm]
  refine and_congr_right fun _ => (hchecked.labels l).trans ?_
  exact ⟨fun h => halike.symm.get?_eq h (by simp), fun h => halike.get?_eq h (by simp)⟩

/-- The names are those of the label tokens that have one, and the first headline of each is
kept. -/
theorem headline_ofTokens (declared : List String) (tokens : List Token) (name : String) :
    ((ofTokens declared tokens).1.label? name).map Label.headline =
      if name.isEmpty then none else tokens.findSome? (Token.headline? name) := by
  rw [label?_tokensRead]
  cases hname : name.isEmpty with
  | true =>
    have hnone : (tokensRead declared tokens).script.label? name = none := by
      refine List.find?_eq_none.mpr fun l hl heq => ?_
      have hnamed := named_tokensRead declared tokens l (Array.mem_toList_iff.mp hl)
      rw [of_decide_eq_true heq, hname] at hnamed
      cases hnamed
    exact congrArg (Option.map Label.headline) hnone
  | false =>
    rw [tokensRead, (Builder.addText_moves _).label?_eq, Builder.headline_foldl hname]
    rfl

end NovelScript.Script
