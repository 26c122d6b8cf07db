import Mathlib.Logic.Relation
import NovelScript.Script.Builder

/-!
What the reading of tokens can do to a script. Whatever the tokens, it adds labels and takes moves of
a few kinds, one after the other; so what labels and moves keep, every script has. Texts and tags take
moves only, and the moves of a tag leave the texts alone.
-/

namespace NovelScript.Script

/-! ### Commands -/

/-- The expressions of a command, as they were written. -/
def Command.sources : Command → List String
  | define definitions => definitions.map Definition.source
  | .if condition _ | elif condition => [condition]
  | eval source | embed source => [source]
  | _ => []

/-- Nothing has been looked up for the time: it is a number, or a variable without a value. -/
def WaitTime.isNew (time : WaitTime) : Bool := time.value.isNone || time.name.isEmpty

/-- Whether a tag adds the command wherever it stands: labels and texts have tokens of their own, and
indents have their place. -/
def Command.isOrdinary : Command → Bool
  | printText _ | label _ _ | indent _ => false
  | waitTime time => time.isNew
  | _ => true

/-- Whether the command may lead elsewhere than to the next one. -/
def Command.isTurn : Command → Bool
  | jump _ | .if _ _ | elif _ | .else => true
  | _ => false

/-- Every expression of the command can be read. -/
def Command.Parses (c : Command) : Prop :=
  ∀ source ∈ c.sources, ∃ program, Expr.parse source = .ok program

theorem Command.parses_of_sources_nil {c : Command} (h : c.sources = []) : c.Parses := by
  simp [Parses, h]

theorem Command.parses_of_sources_single {c : Command} {source : String} (h : c.sources = [source])
    (hparse : ∃ program, Expr.parse source = .ok program) : c.Parses := by
  simpa [Parses, h] using hparse

namespace Builder

/-! ### Moves -/

/-- No error has been found. -/
def Clean (b : Builder) : Prop := ∀ found ∈ b.findings, found.1.severity ≠ .error

/-- Adds a label, and keeps where it stands. -/
def addLabel (name headline : String) (place : Position) (b : Builder) : Builder :=
  let label : Label := ⟨name, headline, b.script.queue.size⟩
  let added := b.add (.label name headline) place
  { added with script := { added.script with labels := added.script.labels.push label } }

/-- One thing that the reading of a tag does. The marks of conditionals are not known yet, and no time
has been looked up; an expression that cannot be read is found as an error before its command is
added. -/
inductive TagMove : Builder → Builder → Prop
  | report (b : Builder) (finding : Finding) (place : Position) :
      TagMove b (b.report finding place)
  | declare (b : Builder) (name : String) : TagMove b (b.declare name)
  | indent (b : Builder) (count : Option Nat) : TagMove b { b with indent := count }
  | add (b : Builder) (c : Command) (place : Position) :
      c.isOrdinary = true → c.relate [] = c → (b.Clean → c.Parses) → TagMove b (b.add c place)

/-- One thing that the reading of texts and tags does: a move of a tag, keeping text, or adding it. An
indent is added where a line has just begun. -/
inductive Move : Builder → Builder → Prop
  | tag {b b' : Builder} : TagMove b b' → Move b b'
  | text (b : Builder) (text : String) (textStart : Position) : Move b { b with text, textStart }
  | addText (b : Builder) (text : String) (place : Position) : Move b (b.add (.printText text) place)
  | addIndent (b : Builder) (count : Nat) (place : Position) :
      b.atLineStart = true → Move b (b.add (.indent count) place)

/-- Any number of findings, one after the other. -/
abbrev Reports : Builder → Builder → Prop :=
  Relation.ReflTransGen fun b b' => ∃ finding place, b' = b.report finding place

/-- Any number of moves of tags. -/
abbrev TagMoves : Builder → Builder → Prop := Relation.ReflTransGen TagMove

/-- Any number of moves. -/
abbrev Moves : Builder → Builder → Prop := Relation.ReflTransGen Move

/-- One thing that the reading of tokens does: a move, or adding a label, which has a name that is
new. -/
inductive Advance : Builder → Builder → Prop
  | move {b b' : Builder} : Move b b' → Advance b b'
  | label (b : Builder) {name : String} (headline : String) (place : Position) :
      name.isEmpty = false → b.script.hasLabel name = false →
        Advance b (b.addLabel name headline place)

/-- Any number of moves and labels. -/
abbrev Advances : Builder → Builder → Prop := Relation.ReflTransGen Advance

variable {b b' : Builder}

theorem Reports.tagMoves (h : Reports b b') : TagMoves b b' :=
  Relation.ReflTransGen.mono
    (fun b _ ⟨finding, place, heq⟩ => heq ▸ TagMove.report b finding place) _ _ h

theorem Reports.single (b : Builder) (finding : Finding) (place : Position) :
    Reports b (b.report finding place) :=
  Relation.ReflTransGen.single ⟨finding, place, rfl⟩

theorem TagMoves.moves (h : TagMoves b b') : Moves b b' :=
  Relation.ReflTransGen.mono (fun _ _ => .tag) _ _ h

theorem Moves.advances (h : Moves b b') : Advances b b' :=
  Relation.ReflTransGen.mono (fun _ _ => .move) _ _ h

theorem TagMoves.report (h : TagMoves b b') (finding : Finding) (place : Position) :
    TagMoves b (b'.report finding place) :=
  h.tail (.report b' finding place)

theorem TagMoves.add (h : TagMoves b b') {c : Command} (hordinary : c.isOrdinary = true)
    (hc : c.relate [] = c) (hparses : b'.Clean → c.Parses) (place : Position) :
    TagMoves b (b'.add c place) :=
  h.tail (.add b' c place hordinary hc hparses)

/-- A command without expressions may be added at any time. -/
theorem TagMoves.add_plain (h : TagMoves b b') {c : Command} (hordinary : c.isOrdinary = true)
    (hc : c.relate [] = c) (hnone : c.sources = []) (place : Position) :
    TagMoves b (b'.add c place) :=
  h.add hordinary hc (fun _ => Command.parses_of_sources_nil hnone) place

theorem clean_report {finding : Finding} {place : Position} :
    (b.report finding place).Clean ↔ b.Clean ∧ finding.severity ≠ .error := by
  simp [Clean, Builder.report, or_imp, forall_and]

/-- What every move keeps, any number of moves keeps. -/
theorem Moves.keep {p : Builder → Prop} (hmove : ∀ {b b' : Builder}, p b → Move b b' → p b')
    (hb : p b) (h : Moves b b') : p b' := by
  induction h with
  | refl => exact hb
  | tail _ hstep ih => exact hmove ih hstep

/-- What every move and every label keeps, any number of them keeps. -/
theorem Advances.keep {p : Builder → Prop}
    (hadvance : ∀ {b b' : Builder}, p b → Advance b b' → p b') (hb : p b) (h : Advances b b') :
    p b' := by
  induction h with
  | refl => exact hb
  | tail _ hstep ih => exact hadvance ih hstep

/-- Findings stay. -/
theorem TagMoves.clean (h : TagMoves b b') (hclean : b'.Clean) : b.Clean := by
  induction h with
  | refl => exact hclean
  | tail _ hmove ih =>
    refine ih ?_
    cases hmove with
    | report finding place => exact (clean_report.mp hclean).1
    | _ => exact hclean

/-- Moves for each of several things, one after the other, are moves. -/
theorem TagMoves.foldl {α : Type} {step : Builder → α → Builder} (hstep : ∀ b a, TagMoves b (step b a)) :
    ∀ (as : List α) {b b' : Builder}, TagMoves b b' → TagMoves b (as.foldl step b')
  | [], _, _, h => h
  | a :: as, _, _, h => TagMoves.foldl hstep as (h.trans (hstep _ a))

/-- Findings for each of several things. -/
theorem foldl_reports {α : Type} (finding : α → Finding) (place : Position) (as : List α) :
    ∀ b : Builder, Reports b (as.foldl (fun b a => b.report (finding a) place) b) := by
  induction as with
  | nil => exact fun b => .refl
  | cons a as ih => exact fun b => (Reports.single b _ place).trans (ih _)

theorem checkExpression_reports (source : String) (place : Position) (b : Builder) :
    Reports b (b.checkExpression source place).2 := by
  unfold checkExpression
  cases Expr.parse source with
  | ok program => exact .refl
  | error errors => exact foldl_reports (.expressionSyntax source) place errors b

/-- What is read of an expression can be read. -/
theorem parse_of_checkExpression {source : String} {place : Position} {program : Expr.Program}
    (h : b.checkExpression source place = (some program, b')) :
    ∃ program, Expr.parse source = .ok program := by
  unfold checkExpression at h
  cases hparse : Expr.parse source with
  | ok program => exact ⟨program, rfl⟩
  | error errors =>
    rw [hparse] at h
    cases h

/-- An expression passes the check only if it can be read. -/
theorem parse_of_checkExpression_clean {source : String} {place : Position}
    (h : (b.checkExpression source place).2.Clean) :
    ∃ program, Expr.parse source = .ok program := by
  unfold checkExpression at h
  cases hparse : Expr.parse source with
  | ok program => exact ⟨program, rfl⟩
  | error errors =>
    obtain ⟨e, rest, rfl⟩ := List.exists_cons_of_ne_nil (Expr.ne_nil_of_parse hparse)
    rw [hparse] at h
    -- the first error is found, and the findings behind it leave it there
    have hreports : Reports (b.report (.expressionSyntax source e) place)
        ((e :: rest).foldl (fun b e => b.report (.expressionSyntax source e) place) b) :=
      foldl_reports (.expressionSyntax source) place rest _
    exact absurd rfl (clean_report.mp (hreports.tagMoves.clean h)).2

theorem readWait_moves (tag : Tag) (place : Position) (b : Builder) :
    TagMoves b (b.readWait tag place) := by
  unfold readWait
  cases tag.get? "time" with
  | none => exact .single (.report b _ place)
  | some value =>
    simp only
    cases Text.readInt32? value with
    | some n => exact TagMoves.add_plain .refl rfl rfl rfl place
    | none =>
      simp only
      split
      · refine TagMoves.add_plain ?_ rfl rfl rfl place
        split
        · exact .refl
        · exact .single (.report b _ place)
      · exact .single (.report b _ place)

theorem readDefinition_moves (place : Position) (read : Array Definition × Builder)
    (a : Attribute) : TagMoves read.2 (readDefinition place read a).2 := by
  obtain ⟨definitions, b⟩ := read
  have hcheck := (checkExpression_reports a.value place b).tagMoves
  unfold readDefinition
  simp only
  split
  · split
    · rename_i program checked heq
      rw [heq] at hcheck
      exact hcheck.tail (.declare checked a.name)
    · rename_i checked heq
      rw [heq] at hcheck
      exact hcheck
  · exact .single (.report b _ place)

theorem readDefinitions_moves (place : Position) (as : List Attribute) :
    ∀ read : Array Definition × Builder, TagMoves read.2 (as.foldl (readDefinition place) read).2 := by
  induction as with
  | nil => exact fun read => .refl
  | cons a as ih => exact fun read => (readDefinition_moves place read a).trans (ih _)

/-- Only definitions that can be read are kept. -/
theorem parses_readDefinitions (place : Position) (as : List Attribute) :
    ∀ read : Array Definition × Builder,
      (∀ d ∈ read.1, ∃ program, Expr.parse d.source = .ok program) →
      ∀ d ∈ (as.foldl (readDefinition place) read).1,
        ∃ program, Expr.parse d.source = .ok program := by
  induction as with
  | nil => exact fun read h => h
  | cons a as ih =>
    rintro ⟨definitions, b⟩ h
    refine ih _ ?_
    unfold readDefinition
    simp only
    split
    · split
      · rename_i program checked heq
        intro d hd
        rcases Array.mem_push.mp hd with hold | rfl
        · exact h d hold
        · exact parse_of_checkExpression heq
      · exact h
    · exact h

theorem readDefine_moves (tag : Tag) (place : Position) (b : Builder) :
    TagMoves b (b.readDefine tag place) := by
  have hfold := readDefinitions_moves place tag.attributes (#[], b)
  unfold readDefine
  split
  · exact .single (.report b _ place)
  · have hparses := parses_readDefinitions place tag.attributes (#[], b) (by simp)
    generalize tag.attributes.foldl (readDefinition place) (#[], b) = read at hfold hparses
    obtain ⟨definitions, read⟩ := read
    simp only
    split
    · exact hfold
    · refine hfold.add rfl rfl (fun _ source hsource => ?_) place
      obtain ⟨d, hd, rfl⟩ := List.mem_map.mp hsource
      exact hparses d (Array.mem_toList_iff.mp hd)

theorem readIndent_moves (tag : Tag) (place : Position) (b : Builder) :
    TagMoves b (b.readIndent tag place) := by
  unfold readIndent
  cases tag.get? "count" with
  | none => exact .single (.indent b _)
  | some value =>
    simp only
    cases Text.readWord32? value with
    | some n => exact .single (.indent b _)
    | none => exact (Relation.ReflTransGen.single (.report b _ place)).tail (.indent _ _)

theorem readCondition_reports (kind : TagKind) (tag : Tag) (place : Position) (b : Builder) :
    Reports b (b.readCondition kind tag place).2 := by
  unfold readCondition
  cases tag.get? "exp" with
  | none => exact .single b _ place
  | some source => exact checkExpression_reports source place b

/-- A condition passes the check only if there is one that can be read. -/
theorem parse_of_readCondition_clean {kind : TagKind} {tag : Tag} {place : Position}
    (h : (b.readCondition kind tag place).2.Clean) :
    ∃ program, Expr.parse (b.readCondition kind tag place).1 = .ok program := by
  unfold readCondition at h ⊢
  cases hexp : tag.get? "exp" with
  | none =>
    rw [hexp] at h
    exact absurd rfl (clean_report.mp h).2
  | some source =>
    rw [hexp] at h
    exact parse_of_checkExpression_clean h

theorem readEval_moves (tag : Tag) (place : Position) (b : Builder) :
    TagMoves b (b.readEval tag place) := by
  unfold readEval
  cases tag.get? "exp" with
  | none => exact .single (.report b _ place)
  | some source =>
    have hcheck := (checkExpression_reports source place b).tagMoves
    have hparses : (b.checkExpression source place).2.Clean →
        ∃ program, Expr.parse source = .ok program := parse_of_checkExpression_clean
    simp only
    split
    · rename_i program checked heq
      rw [heq] at hcheck
      have hdeclared : TagMoves b (program.boundNames.foldl (fun b name => b.declare name) checked) :=
        TagMoves.foldl (fun b name => .single (.declare b name)) program.boundNames hcheck
      refine hdeclared.add rfl rfl (fun _ => ?_) place
      exact Command.parses_of_sources_single rfl (parse_of_checkExpression heq)
    · rename_i checked heq
      rw [heq] at hcheck hparses
      refine hcheck.add rfl rfl (fun hclean => ?_) place
      exact Command.parses_of_sources_single rfl (hparses hclean)

theorem readSetting_reports {α : Type} (read? : String → Option α)
    (finding : String → String → Finding) (name value : String) (place : Position) (b : Builder) :
    Reports b (readSetting read? finding name value place b).2 := by
  unfold readSetting
  cases read? value with
  | some a => exact .refl
  | none => exact .single b _ place

theorem readFontSetting_reports (place : Position) (read : Font × Builder) (a : Attribute) :
    Reports read.2 (readFontSetting place read a).2 := by
  obtain ⟨font, b⟩ := read
  unfold readFontSetting
  simp only
  split <;> first | exact readSetting_reports _ _ _ _ place b | exact .refl

/-- The style of a tag is added behind what is found about its settings. -/
theorem exists_readFont (tag : Tag) (place : Position) (b : Builder) :
    ∃ font read, Reports b read ∧ b.readFont tag place = read.add (.font font) place := by
  have hfold : ∀ (as : List Attribute) (read : Font × Builder),
      Reports read.2 (as.foldl (readFontSetting place) read).2 := by
    intro as
    induction as with
    | nil => exact fun read => .refl
    | cons a as ih => exact fun read => (readFontSetting_reports place read a).trans (ih _)
  exact ⟨_, _, hfold tag.attributes ({}, b), rfl⟩

theorem readFont_moves (tag : Tag) (place : Position) (b : Builder) :
    TagMoves b (b.readFont tag place) := by
  obtain ⟨font, read, hreports, hread⟩ := exists_readFont tag place b
  exact hread ▸ hreports.tagMoves.add_plain rfl rfl rfl place

theorem readKnownTag_moves (kind : TagKind) (tag : Tag) (place : Position) (b : Builder) :
    TagMoves b (b.readKnownTag kind tag place) := by
  unfold readKnownTag
  cases kind with
  | wait => exact readWait_moves tag place b
  | define => exact readDefine_moves tag place b
  | indent => exact readIndent_moves tag place b
  | endIndent => exact .single (.indent b none)
  | jump =>
    simp only [readJump]
    cases tag.get? "target" with
    | some target => exact TagMoves.add_plain .refl rfl rfl rfl place
    | none => exact .single (.report b _ place)
  | «if» =>
    refine (readCondition_reports _ tag place b).tagMoves.add rfl rfl (fun hclean => ?_) place
    exact Command.parses_of_sources_single rfl (parse_of_readCondition_clean hclean)
  | elif =>
    refine (readCondition_reports _ tag place b).tagMoves.add rfl rfl (fun hclean => ?_) place
    exact Command.parses_of_sources_single rfl (parse_of_readCondition_clean hclean)
  | eval => exact readEval_moves tag place b
  | embed =>
    simp only [readEmbed]
    cases tag.get? "exp" with
    | some source =>
      refine (checkExpression_reports source place b).tagMoves.add rfl rfl (fun hclean => ?_) place
      exact Command.parses_of_sources_single rfl (parse_of_checkExpression_clean hclean)
    | none => exact .single (.report b _ place)
  | font => exact readFont_moves tag place b
  | waitKey | newLine | newPage | «else» | endIf | resetFont =>
    exact TagMoves.add_plain .refl rfl rfl rfl place

/-- What a tag does comes behind what is found about its attributes. -/
theorem exists_readTag (tag : Tag) (place : Position) (b : Builder) :
    ∃ warned, Reports b warned ∧ b.readTag tag place =
      match TagKind.find? (Text.lowercase tag.name) with
      | some kind => warned.readKnownTag kind tag place
      | none => warned.report (.unknownTag tag.name) place :=
  ⟨_, foldl_reports (fun a : Attribute => .unknownAttribute (Text.lowercase tag.name) a.name) place
    (tag.unknownAttributes (TagKind.find? (Text.lowercase tag.name))) b, rfl⟩

theorem readTag_moves (tag : Tag) (place : Position) (b : Builder) :
    TagMoves b (b.readTag tag place) := by
  obtain ⟨warned, hwarned, hread⟩ := exists_readTag tag place b
  rw [hread]
  split
  · exact hwarned.tagMoves.trans (readKnownTag_moves _ tag place _)
  · exact hwarned.tagMoves.report _ place

/-! ### Text, labels and all tokens -/

theorem addText_moves (b : Builder) : Moves b b.addText := by
  unfold addText
  split
  · exact .refl
  · refine Relation.ReflTransGen.tail
      (Relation.ReflTransGen.tail ?_ (.addText _ b.text b.textStart)) (.text _ "" _)
    split
    · split
      · rename_i hstart
        exact .single (.addIndent b _ b.textStart hstart)
      · exact .refl
    · exact .refl

theorem readLabel_advances (name headline : String) (place : Position) (b : Builder) :
    Advances b (b.readLabel name headline place) := by
  unfold readLabel
  split
  · exact .single (.move (.tag (.report b _ place)))
  · rename_i hname
    split
    · exact .single (.move (.tag (.report b _ place)))
    · rename_i hnew
      exact .single (.label b headline place (Bool.eq_false_iff.mpr hname)
        (Bool.eq_false_iff.mpr hnew))

/-- A text token or a tag takes moves only. -/
theorem readToken_moves (b : Builder) {token : Token}
    (h : ∀ name headline, token.kind ≠ .label name headline) : Moves b (b.readToken token) := by
  unfold readToken
  split
  · exact .single (.text b _ _)
  · rename_i name headline hkind
    exact absurd hkind (h name headline)
  · split
    · exact (readTag_moves _ _ b).moves
    · exact (addText_moves b).trans (readTag_moves _ _ b.addText).moves

theorem readToken_advances (b : Builder) (token : Token) : Advances b (b.readToken token) := by
  cases hkind : token.kind with
  | label name headline =>
    rw [readToken, hkind]
    exact (addText_moves b).advances.trans (readLabel_advances _ _ _ _)
  | text content => exact (readToken_moves b (by simp [hkind])).advances
  | tag tag => exact (readToken_moves b (by simp [hkind])).advances

end Builder

/-- The script of tokens before its jumps and its conditionals are checked. -/
def tokensRead (declared : List String) (tokens : List Token) : Builder :=
  (tokens.foldl Builder.readToken { declared }).addText

/-- **All tokens are read in moves and labels.** -/
theorem tokensRead_advances (declared : List String) (tokens : List Token) :
    Builder.Advances { declared } (tokensRead declared tokens) := by
  have hfold : ∀ b : Builder, Builder.Advances b (tokens.foldl Builder.readToken b) := by
    induction tokens with
    | nil => exact fun b => .refl
    | cons token tokens ih => exact fun b => (Builder.readToken_advances b token).trans (ih _)
  exact (hfold _).trans (Builder.addText_moves _).advances

end NovelScript.Script
