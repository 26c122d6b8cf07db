import NovelScript.Proofs.Reading.Checks

/-!
Which variables a script defines before it waits for them, as far as its commands tell as they stand
one behind the other. Main statement: in a script that neither jumps nor branches, and that has no
error, the time of a pause is a number or a variable that a command before it binds.
-/

namespace NovelScript.Script

/-! ### Names that commands bind -/

/-- The names that a command binds, if nothing in it fails. -/
def Command.binds : Command → List String
  | define definitions => definitions.map Definition.name
  | eval source =>
    match Expr.parse source with
    | .ok program => program.boundNames
    | .error _ => []
  | _ => []

namespace Queue

variable {q q' : Queue} {k : Nat} {c : Command} {declared : List String}

/-- The names that the commands before a command bind. -/
def boundBefore (q : Queue) : Nat → List String
  | 0 => []
  | k + 1 => q.boundBefore k ++ (q.get? k).elim [] Command.binds

theorem boundBefore_succ (hc : q.get? k = some c) :
    q.boundBefore (k + 1) = q.boundBefore k ++ c.binds := by
  rw [boundBefore, hc, Option.elim_some]

theorem boundBefore_congr (h : ∀ j < k, q.get? j = q'.get? j) :
    q.boundBefore k = q'.boundBefore k := by
  induction k with
  | zero => rfl
  | succ k ih =>
    rw [boundBefore, boundBefore, ih fun j hj => h j (Nat.lt_succ_of_lt hj),
      h k (Nat.lt_succ_self k)]

theorem get?_enqueue_of_lt (added : Command) (hk : k < q.size) :
    (q.enqueue added).2.get? k = q.get? k :=
  (Array.getElem?_push_lt hk).trans (Array.getElem?_eq_getElem hk).symm

theorem boundBefore_enqueue (added : Command) (hk : k ≤ q.size) :
    (q.enqueue added).2.boundBefore k = q.boundBefore k :=
  boundBefore_congr fun _ hj => get?_enqueue_of_lt added (Nat.lt_of_lt_of_le hj hk)

theorem boundBefore_size_enqueue (added : Command) :
    (q.enqueue added).2.boundBefore (q.size + 1) = q.boundBefore q.size ++ added.binds := by
  have hget : (q.enqueue added).2.get? q.size = some added :=
    (get?_enqueue added).mpr (.inr ⟨rfl, rfl⟩)
  rw [boundBefore_succ hget, boundBefore_enqueue added (Nat.le_refl _)]

/-- Every command leads to the next one, and a pause waits for no variable but those that are
declared, or that a command before it binds. -/
structure Grounded (declared : List String) (q : Queue) : Prop where
  straight : ∀ k c, q.get? k = some c → c.isTurn = false
  waits : ∀ k name, q.get? k = some (.waitTime (.named name)) →
    name ∈ declared ∨ name ∈ q.boundBefore k

theorem Grounded.enqueue (h : q.Grounded declared) (hstraight : c.isTurn = false)
    (hwait : ∀ name, c = .waitTime (.named name) →
      name ∈ declared ∨ name ∈ q.boundBefore q.size) : (q.enqueue c).2.Grounded declared where
  straight k c' hc' := by
    rcases (get?_enqueue c).mp hc' with hold | ⟨-, rfl⟩
    · exact h.straight k c' hold
    · exact hstraight
  waits k name hname := by
    rcases (get?_enqueue c).mp hname with hold | ⟨rfl, hnew⟩
    · rw [boundBefore_enqueue c (Nat.le_of_lt (Array.getElem?_eq_some_iff.mp hold).1)]
      exact h.waits k name hold
    · rw [boundBefore_enqueue c (Nat.le_refl _)]
      exact hwait name hnew

end Queue

/-! ### While the tokens are read -/

/-- Whether a tag is neither a jump nor one of the marks of a conditional. -/
def TagKind.isStraight : TagKind → Bool
  | jump | «if» | elif | «else» | endIf => false
  | _ => true

/-- Whether the token is no such tag. -/
def Token.isStraight (token : Token) : Bool :=
  match token.kind with
  | .tag tag => (TagKind.find? (Text.lowercase tag.name)).all TagKind.isStraight
  | _ => true

namespace Builder

variable {b b' : Builder} {declared pending : List String} {c : Command} {place : Position}

/-- What counts as defined was declared from the start, or a command binds it, or it is `pending`:
the command that binds it will be added next. -/
structure Grounded (declared pending : List String) (b : Builder) : Prop where
  known : ∀ name ∈ b.declared, name ∈ declared ∨
    name ∈ b.script.queue.boundBefore b.script.queue.size ++ pending
  queue : b.Clean → b.script.queue.Grounded declared

theorem grounded_start (declared : List String) : Grounded declared [] { declared } :=
  ⟨fun _ hname => .inl hname, fun _ => ⟨by simp [Queue.get?], by simp [Queue.get?]⟩⟩

namespace Grounded

theorem reports (h : b.Grounded declared pending) (hreports : Reports b b') :
    b'.Grounded declared pending := by
  induction hreports with
  | refl => exact h
  | tail _ hstep ih =>
    obtain ⟨finding, place, rfl⟩ := hstep
    exact ⟨ih.known, fun hclean => ih.queue (clean_report.mp hclean).1⟩

theorem report (h : b.Grounded declared pending) (finding : Finding) (place : Position) :
    (b.report finding place).Grounded declared pending :=
  h.reports (.single b finding place)

theorem declare (h : b.Grounded declared pending) (name : String) :
    (b.declare name).Grounded declared (pending ++ [name]) where
  known other hother := by
    rw [← List.append_assoc]
    rcases List.mem_cons.mp hother with rfl | hold
    · exact .inr (List.mem_append_right _ List.mem_cons_self)
    · exact (h.known other hold).imp_right (List.mem_append_left _)
  queue := h.queue

theorem declareAll (names : List String) : ∀ {b : Builder} {pending : List String},
    b.Grounded declared pending →
      (names.foldl (fun b name => b.declare name) b).Grounded declared (pending ++ names) := by
  induction names with
  | nil => exact fun h => by simpa using h
  | cons name names ih => exact fun h => by simpa using ih (h.declare name)

/-- A command binds what is pending. -/
theorem add (h : b.Grounded declared pending) (hstraight : c.isTurn = false)
    (hbinds : ∀ name ∈ pending, name ∈ c.binds)
    (hwait : b.Clean → ∀ name, c = .waitTime (.named name) →
      name ∈ declared ∨ name ∈ b.script.queue.boundBefore b.script.queue.size)
    (place : Position) : (b.add c place).Grounded declared [] where
  known name hname := by
    have hsize : (b.add c place).script.queue.size = b.script.queue.size + 1 := Array.size_push ..
    refine (h.known name hname).imp_right fun hname => ?_
    rw [List.append_nil, hsize]
    refine (Queue.boundBefore_size_enqueue c).symm ▸ List.mem_append.mpr ?_
    exact (List.mem_append.mp hname).imp_right (hbinds name)
  queue hclean := (h.queue hclean).enqueue hstraight (hwait hclean)

/-- A command that binds nothing and waits for nothing. -/
theorem addOther (h : b.Grounded declared []) (hstraight : c.isTurn = false)
    (hwait : ∀ time, c ≠ .waitTime time) (place : Position) :
    (b.add c place).Grounded declared [] :=
  h.add hstraight (by simp) (fun _ name heq => absurd heq (hwait _)) place

/-! ### Tags -/

theorem readWait (h : b.Grounded declared []) (tag : Tag) (place : Position) :
    (b.readWait tag place).Grounded declared [] := by
  unfold Builder.readWait
  cases tag.get? "time" with
  | none => exact h.report _ place
  | some value =>
    simp only
    cases Text.readInt32? value with
    | some n => exact h.add rfl (by simp) (by simp [WaitTime.literal, WaitTime.named]) place
    | none =>
      simp only
      split
      · split
        · rename_i hdeclared
          refine h.add rfl (by simp) (fun _ name heq => ?_) place
          obtain rfl : value = name := congrArg WaitTime.name (Command.waitTime.inj heq)
          simpa using h.known value hdeclared
        · -- the missing variable is found as an error
          refine (h.report _ place).add rfl (by simp) (fun hclean => ?_) place
          exact absurd rfl (clean_report.mp hclean).2
      · exact h.report _ place

theorem readDefinition (place : Position) (a : Attribute) {read : Array Definition × Builder}
    (h : read.2.Grounded declared (read.1.toList.map Definition.name)) :
    (Builder.readDefinition place read a).2.Grounded declared
      ((Builder.readDefinition place read a).1.toList.map Definition.name) := by
  obtain ⟨definitions, b⟩ := read
  have hcheck := h.reports (checkExpression_reports a.value place b)
  unfold Builder.readDefinition
  simp only
  split
  · split
    · rename_i program checked heq
      rw [heq] at hcheck
      simpa using hcheck.declare a.name
    · rename_i checked heq
      rw [heq] at hcheck
      exact hcheck
  · exact h.report _ place

theorem readDefine (h : b.Grounded declared []) (tag : Tag) (place : Position) :
    (b.readDefine tag place).Grounded declared [] := by
  have hfold : ∀ (as : List Attribute) (read : Array Definition × Builder),
      read.2.Grounded declared (read.1.toList.map Definition.name) →
        (as.foldl (Builder.readDefinition place) read).2.Grounded declared
          ((as.foldl (Builder.readDefinition place) read).1.toList.map Definition.name) := by
    intro as
    induction as with
    | nil => exact fun _ h => h
    | cons a as ih => exact fun _ h => ih _ (readDefinition place a h)
  have hread := hfold tag.attributes (#[], b) h
  unfold Builder.readDefine
  split
  · exact h.report _ place
  · generalize tag.attributes.foldl (Builder.readDefinition place) (#[], b) = read at hread
    obtain ⟨definitions, read⟩ := read
    simp only
    split
    · rename_i hempty
      obtain rfl := Array.isEmpty_iff.mp hempty
      exact hread
    · exact hread.add (c := .define definitions.toList) rfl (fun _ hname => hname) (by simp) place

theorem readEval (h : b.Grounded declared []) (tag : Tag) (place : Position) :
    (b.readEval tag place).Grounded declared [] := by
  unfold Builder.readEval
  cases tag.get? "exp" with
  | none => exact h.report _ place
  | some source =>
    have hcheck := h.reports (checkExpression_reports source place b)
    simp only [checkExpression] at hcheck ⊢
    cases hparse : Expr.parse source with
    | ok program =>
      -- the names are declared first, and the command that binds them is added behind
      refine (h.declareAll program.boundNames).add rfl (fun name hname => ?_) (by simp) place
      simpa [Command.binds, hparse] using hname
    | error errors =>
      rw [hparse] at hcheck
      exact hcheck.addOther rfl (by simp) place

/-- A tag that is neither a jump nor a mark of a conditional. -/
theorem readKnownTag (h : b.Grounded declared []) {kind : TagKind} (hkind : kind.isStraight = true)
    (tag : Tag) (place : Position) : (b.readKnownTag kind tag place).Grounded declared [] := by
  unfold Builder.readKnownTag
  cases kind with
  | wait => exact h.readWait tag place
  | define => exact h.readDefine tag place
  | eval => exact h.readEval tag place
  | indent =>
    simp only [readIndent]
    cases tag.get? "count" with
    | none => exact ⟨h.known, h.queue⟩
    | some value =>
      simp only
      cases Text.readWord32? value with
      | some n => exact ⟨h.known, h.queue⟩
      | none => exact ⟨h.known, (h.report (.invalidInteger "count" value) place).queue⟩
  | endIndent => exact ⟨h.known, h.queue⟩
  | embed =>
    simp only [readEmbed]
    cases tag.get? "exp" with
    | some source =>
      exact (h.reports (checkExpression_reports source place b)).addOther rfl (by simp) place
    | none => exact h.report _ place
  | font =>
    obtain ⟨font, read, hreports, hread⟩ := exists_readFont tag place b
    exact hread ▸ (h.reports hreports).addOther rfl (by simp) place
  | waitKey | newLine | newPage | resetFont => exact h.addOther rfl (by simp) place
  | jump | «if» | elif | «else» | endIf => cases hkind

theorem readTag (h : b.Grounded declared []) {tag : Tag}
    (htag : (TagKind.find? (Text.lowercase tag.name)).all TagKind.isStraight = true)
    (place : Position) : (b.readTag tag place).Grounded declared [] := by
  obtain ⟨warned, hwarned, hread⟩ := exists_readTag tag place b
  rw [hread]
  split
  · rename_i kind hkind
    rw [hkind] at htag
    exact (h.reports hwarned).readKnownTag htag tag place
  · exact (h.reports hwarned).report _ place

/-! ### Text, labels and all tokens -/

theorem addText (h : b.Grounded declared []) : b.addText.Grounded declared [] := by
  have hindented : ∀ b' : Builder, b'.Grounded declared [] →
      Grounded declared [] { b'.add (.printText b.text) b.textStart with text := "" } := by
    intro b' h'
    have hadded := h'.addOther (c := .printText b.text) rfl (by simp) b.textStart
    exact ⟨hadded.known, hadded.queue⟩
  unfold Builder.addText
  split
  · exact h
  · refine hindented _ ?_
    split
    · split
      · exact h.addOther rfl (by simp) _
      · exact h
    · exact h

theorem readLabel (h : b.Grounded declared []) (name headline : String) (place : Position) :
    (b.readLabel name headline place).Grounded declared [] := by
  unfold Builder.readLabel
  split
  · exact h.report _ place
  · split
    · exact h.report _ place
    · have hadded := h.addOther (c := .label name headline) rfl (by simp) place
      exact ⟨hadded.known, hadded.queue⟩

theorem readToken (h : b.Grounded declared []) {token : Token} (htoken : token.isStraight = true) :
    (b.readToken token).Grounded declared [] := by
  unfold Token.isStraight at htoken
  unfold Builder.readToken
  cases hkind : token.kind with
  | text content => exact ⟨h.known, h.queue⟩
  | label name headline => exact h.addText.readLabel name headline token.position
  | tag tag =>
    rw [hkind] at htoken
    simp only
    split
    · exact h.readTag htoken token.position
    · exact h.addText.readTag htoken token.position

end Grounded
end Builder

theorem grounded_tokensRead (declared : List String) {tokens : List Token}
    (hstraight : ∀ token ∈ tokens, token.isStraight = true) :
    (tokensRead declared tokens).Grounded declared [] := by
  have hfold : ∀ b : Builder, b.Grounded declared [] →
      (tokens.foldl Builder.readToken b).Grounded declared [] := by
    induction tokens with
    | nil => exact fun _ h => h
    | cons token tokens ih =>
      obtain ⟨htoken, htokens⟩ := List.forall_mem_cons.mp hstraight
      exact fun b h => ih htokens _ (h.readToken htoken)
  exact (hfold _ (Builder.grounded_start declared)).addText

/-- **A pause waits for what has been bound**, in a script without errors that neither jumps nor
branches. -/
theorem grounded_of_clean {declared : List String} {tokens : List Token}
    (hstraight : ∀ token ∈ tokens, token.isStraight = true)
    (hclean : ∀ found ∈ (ofTokens declared tokens).2, found.1.severity ≠ .error) :
    (ofTokens declared tokens).1.queue.Grounded declared := by
  have hread := (grounded_tokensRead declared hstraight).queue (clean_tokensRead hclean)
  have hget : ∀ k, (ofTokens declared tokens).1.queue.get? k =
      (tokensRead declared tokens).script.queue.get? k := by
    intro k
    have halike := alike_tokensRead declared tokens
    cases hc : (tokensRead declared tokens).script.queue.get? k with
    | none => simpa [hc] using halike k
    | some c =>
      refine halike.symm.get?_eq hc ?_
      rintro condition related rfl
      cases hread.straight k _ hc
  refine ⟨fun k c hc => hread.straight k c (hget k ▸ hc), fun k name hname => ?_⟩
  rw [Queue.boundBefore_congr fun j _ => hget j]
  exact hread.waits k name (hget k ▸ hname)

end NovelScript.Script
