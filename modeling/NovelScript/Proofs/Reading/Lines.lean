import NovelScript.Proofs.Reading.Rendering

/-!
Scripts line by line. What a lexer does with a character depends on what is being read, and not on
places or on the tokens that have been read already; so two lexers that read the same go on side by
side, whatever they have behind them. Main statement: a script, a line break and another script have
the tokens of the first and then those of the second, but for a text at the end of the first and one
at the start of the second, which are one text.
-/

namespace NovelScript.Script

/-- Both errors are of the same kind, wherever they were found. -/
inductive SyntaxError.Alike : SyntaxError → SyntaxError → Prop
  | unterminatedTag {p q : Position} : Alike (.unterminatedTag p) (.unterminatedTag q)
  | emptyTagName {p q : Position} : Alike (.emptyTagName p) (.emptyTagName q)
  | missingEquals {name : String} {p q : Position} :
    Alike (.missingEquals name p) (.missingEquals name q)
  | unterminatedQuote {p q : Position} : Alike (.unterminatedQuote p) (.unterminatedQuote q)

namespace Lexer

variable {l l' : Lexer} {c : Char} {cs ds : List Char} {k : TokenKind}

/-! ### What has been read -/

/-- The tokens that have been read, places aside, and the text that is no token yet. -/
structure Reading where
  kinds : List TokenKind
  text : List Char

/-- What a lexer has read. -/
def reading (l : Lexer) : Reading := ⟨l.kinds, l.runText⟩

namespace Reading

/-- With more text. -/
def add (cs : List Char) (r : Reading) : Reading := { r with text := r.text ++ cs }

/-- All tokens, if the text goes no further. -/
def all (r : Reading) : List TokenKind := r.kinds ++ textKinds r.text

/-- With a token behind the text. -/
def close (k : TokenKind) (r : Reading) : Reading := ⟨r.all ++ [k], []⟩

/-- The relation stays when the same text is read on both sides, and when the same label or tag
is. -/
structure Stable (R : Reading → Reading → Prop) : Prop where
  add : ∀ {r r' : Reading} (cs : List Char), R r r' → R (r.add cs) (r'.add cs)
  close : ∀ {r r' : Reading} {k : TokenKind}, k.isText = false → R r r' →
    R (r.close k) (r'.close k)

end Reading

/-! ### The same being read -/

/-- Both are outside of labels and tags. -/
inductive BothOutside : Mode → Mode → Prop
  | lineStart {p q : Position} {blanks : String} :
    BothOutside (.lineStart p blanks) (.lineStart q blanks)
  | text : BothOutside .text .text
  | escape {p q : Position} : BothOutside (.escape p) (.escape q)

/-- Both are at the same part of a tag. -/
inductive SamePart : TagPart → TagPart → Prop
  | name : SamePart .name .name
  | gap : SamePart .gap .gap
  | attributeName {p q : Position} {name : String} :
    SamePart (.attributeName p name) (.attributeName q name)
  | value {name : String} : SamePart (.value name) (.value name)
  | bareValue {name value : String} : SamePart (.bareValue name value) (.bareValue name value)
  | quotedValue {p q : Position} {name value : String} :
    SamePart (.quotedValue p name value) (.quotedValue q name value)
  | escapedValue {p q : Position} {name value : String} :
    SamePart (.escapedValue p name value) (.escapedValue q name value)

/-- Both tags are the same so far, wherever they stand. -/
structure SameTag (tag tag' : OpenTag) : Prop where
  style : tag.style = tag'.style
  name : tag.name = tag'.name
  attributes : tag.attributes = tag'.attributes

/-- Both are inside of the same label or tag. -/
inductive BothInside : Mode → Mode → Prop
  | label {p q : Position} {name literal literal' : String} :
    BothInside (.label p name literal) (.label q name literal')
  | headline {p q : Position} {name headline literal literal' : String} :
    BothInside (.headline p name headline literal) (.headline q name headline literal')
  | tag {tag tag' : OpenTag} {part part' : TagPart} (htag : SameTag tag tag')
    (hpart : SamePart part part') : BothInside (.tag tag part) (.tag tag' part')

/-! ### Two lexers side by side -/

variable {R : Reading → Reading → Prop}

/-- What both have read is related, and text may follow. -/
structure InText (R : Reading → Reading → Prop) (l l' : Lexer) : Prop where
  sound : l.Sound ∧ l'.Sound
  related : R l.reading l'.reading

/-- What both have read will be related when the label or tag that is being read has its end. -/
structure InToken (R : Reading → Reading → Prop) (l l' : Lexer) : Prop where
  run : l.run = none ∧ l'.run = none
  related : ∀ k : TokenKind, k.isText = false → R (l.reading.close k) (l'.reading.close k)

/-- Both lexers read the same, each behind what it has read before. -/
inductive Abreast (R : Reading → Reading → Prop) (l l' : Lexer) : Prop
  | outside (h : InText R l l') (hmode : BothOutside l.mode l'.mode)
  | inside (h : InToken R l l') (hmode : BothInside l.mode l'.mode)

/-- Both go on side by side, or both find an error of the same kind. -/
inductive GoOn (R : Reading → Reading → Prop) :
    Except SyntaxError Lexer → Except SyntaxError Lexer → Prop
  | ok {l l' : Lexer} (h : Abreast R l l') : GoOn R (.ok l) (.ok l')
  | error {e e' : SyntaxError} (h : e.Alike e') : GoOn R (.error e) (.error e')

theorem sound_of_run_eq_none (h : l.run = none) : l.Sound := by
  intro run hrun
  rw [h] at hrun
  cases hrun

theorem runText_of_run_eq_none (h : l.run = none) : l.runText = [] := by
  rw [runText, h]
  rfl

@[simp] theorem reading_addText (content literal : List Char) (start : Position) (l : Lexer) :
    (l.addText content literal start).reading = l.reading.add content := by
  simp [reading, Reading.add]

@[simp] theorem reading_addBlanks (blanks : String) (start : Position) (l : Lexer) :
    (l.addBlanks blanks start).reading = l.reading.add blanks.toList := by
  simp [reading, Reading.add]

@[simp] theorem reading_addBreak (c : Char) (l : Lexer) : (l.addBreak c).reading = l.reading := by
  rw [reading, runText_addBreak]
  rfl

@[simp] theorem textKinds_nil : textKinds [] = [] := rfl

/-- A run that has ended counts like one that is about to. -/
theorem close_endRun (h : l.Sound) (k : TokenKind) :
    l.endRun.reading.close k = l.reading.close k := by
  have hnone : l.endRun.runText = [] := runText_of_run_eq_none (run_endRun l)
  simp [reading, Reading.close, Reading.all, kinds_endRun h, hnone]

section Text

variable (hR : Reading.Stable R)

include hR

theorem InText.addText (h : InText R l l') (hcs : cs ≠ []) (literal literal' : List Char)
    (start start' : Position) :
    InText R (l.addText cs literal start) (l'.addText cs literal' start') := by
  refine ⟨⟨sound_addText hcs _ _ _, sound_addText hcs _ _ _⟩, ?_⟩
  rw [reading_addText, reading_addText]
  exact hR.add cs h.related

theorem InText.addBlanks (h : InText R l l') (blanks : String) (start start' : Position) :
    InText R (l.addBlanks blanks start) (l'.addBlanks blanks start') := by
  refine ⟨⟨h.sound.1.addBlanks _ _, h.sound.2.addBlanks _ _⟩, ?_⟩
  rw [reading_addBlanks, reading_addBlanks]
  exact hR.add _ h.related

omit hR in
theorem InText.addBreak (h : InText R l l') (c : Char) :
    InText R (l.addBreak c) (l'.addBreak c) := by
  refine ⟨⟨h.sound.1.addBreak c, h.sound.2.addBreak c⟩, ?_⟩
  rw [reading_addBreak, reading_addBreak]
  exact h.related

/-- In front of a label or a tag the text becomes a token. -/
theorem InText.endRun (h : InText R l l') : InToken R l.endRun l'.endRun := by
  refine ⟨⟨run_endRun l, run_endRun l'⟩, fun k hk => ?_⟩
  rw [close_endRun h.sound.1, close_endRun h.sound.2]
  exact hR.close hk h.related

theorem InText.readText (h : InText R l l') (c : Char) :
    Abreast R (l.readText c) (l'.readText c) := by
  have hbreak := h.addBreak c
  have htext := h.addText hR (List.cons_ne_nil c []) [c] [c] l.position l'.position
  have hopened := h.endRun hR
  unfold Lexer.readText
  split
  · exact .outside ⟨hbreak.sound, hbreak.related⟩ .lineStart
  split
  · exact .outside ⟨hbreak.sound, hbreak.related⟩ .text
  split
  · exact .outside ⟨h.sound, h.related⟩ .escape
  split
  · exact .inside ⟨hopened.run, hopened.related⟩ (.tag ⟨rfl, rfl, rfl⟩ .name)
  · exact .outside ⟨htext.sound, htext.related⟩ .text

theorem InText.readLineStart (h : InText R l l') (start start' : Position) (blanks : String)
    (c : Char) :
    Abreast R (l.readLineStart start blanks c) (l'.readLineStart start' blanks c) := by
  have hopened := h.endRun hR
  unfold Lexer.readLineStart
  split
  · exact .outside ⟨h.sound, h.related⟩ .lineStart
  split
  · exact .inside ⟨hopened.run, hopened.related⟩ .label
  split
  · exact .inside ⟨hopened.run, hopened.related⟩ (.tag ⟨rfl, rfl, rfl⟩ .name)
  · exact (h.addBlanks hR blanks start start').readText hR c

theorem InText.readEscape (h : InText R l l') (start start' : Position) (c : Char) :
    Abreast R (l.readEscape start c) (l'.readEscape start' c) := by
  unfold Lexer.readEscape
  split
  · have htext := h.addText hR (List.cons_ne_nil c []) ['\\', c] ['\\', c] start start'
    exact .outside ⟨htext.sound, htext.related⟩ .text
  · exact (h.addText hR (List.cons_ne_nil '\\' []) _ _ start start').readText hR c

end Text

/-! ### Labels and tags -/

/-- The token that has been read is the same on both sides. -/
theorem InToken.push (h : InToken R l l') (hk : k.isText = false) (literal literal' : String)
    (start start' : Position) (mode mode' : Mode) :
    InText R { l with tokens := l.tokens.push ⟨k, literal, start⟩, mode := mode }
      { l' with tokens := l'.tokens.push ⟨k, literal', start'⟩, mode := mode' } := by
  refine ⟨⟨sound_of_run_eq_none h.run.1, sound_of_run_eq_none h.run.2⟩, ?_⟩
  have hclosed := h.related k hk
  simpa [reading, Reading.close, Reading.all, runText, kinds, h.run] using hclosed

theorem InToken.endLabel (h : InToken R l l') (start start' : Position)
    (name headline literal literal' : String) :
    InText R (l.endLabel start name headline literal) (l'.endLabel start' name headline literal') :=
  h.push rfl _ _ _ _ _ _

theorem InToken.endTag (h : InToken R l l') {tag tag' : OpenTag} (htag : SameTag tag tag') :
    InText R (l.endTag tag) (l'.endTag tag') := by
  have hkind : tag'.token.kind = .tag ⟨tag.name, tag.attributes.toList⟩ := by
    rw [OpenTag.token, htag.name, htag.attributes]
  unfold Lexer.endTag
  rw [show tag'.token = ⟨.tag ⟨tag.name, tag.attributes.toList⟩, tag'.literal, tag'.start⟩ by
    rw [← hkind]; rfl]
  exact h.push rfl _ _ _ _ _ _

section Tags

variable (hR : Reading.Stable R) {tag tag' : OpenTag} (htag : SameTag tag tag')

include htag

theorem SameTag.add (name value : String) : SameTag (tag.add name value) (tag'.add name value) :=
  ⟨htag.style, htag.name, congrArg (Array.push · _) htag.attributes⟩

theorem SameTag.isGap (c : Char) : tag.isGap c = tag'.isGap c := by
  rw [OpenTag.isGap, OpenTag.isGap, htag.style]

theorem InToken.goOn (h : InToken R l l') (c : Char) {part part' : TagPart}
    (hpart : SamePart part part') : GoOn R (l.goOn tag c part) (l'.goOn tag' c part') :=
  .ok (.inside ⟨h.run, h.related⟩ (.tag ⟨htag.style, htag.name, htag.attributes⟩ hpart))

theorem InToken.readAttribute (h : InToken R l l') (start start' : Position) (name : String)
    (c : Char) :
    GoOn R (l.readAttribute tag start name c) (l'.readAttribute tag' start' name c) := by
  unfold Lexer.readAttribute
  split
  · exact h.goOn htag c .value
  split
  · exact .error .missingEquals
  · exact h.goOn htag c .attributeName

theorem InToken.readQuotedValue (h : InToken R l l') (start start' : Position)
    (name value : String) (c : Char) :
    GoOn R (l.readQuotedValue tag start name value c)
      (l'.readQuotedValue tag' start' name value c) := by
  unfold Lexer.readQuotedValue
  split
  · exact h.goOn (htag.add name value) c .gap
  split
  · exact h.goOn htag c .escapedValue
  · exact h.goOn htag c .quotedValue

include hR

theorem InToken.readGap (h : InToken R l l') (c : Char) :
    GoOn R (l.readGap tag c) (l'.readGap tag' c) := by
  unfold Lexer.readGap
  rw [← htag.isGap, ← htag.style]
  split
  · exact h.goOn htag c .gap
  split
  · have hgrown : SameTag (tag.grow c) (tag'.grow c) := ⟨htag.style, htag.name, htag.attributes⟩
    exact .ok (.outside (h.endTag hgrown) .text)
  split
  · exact .ok ((h.endTag htag).readText hR c)
  · exact h.readAttribute htag _ _ "" c

theorem InToken.readName (h : InToken R l l') (c : Char) :
    GoOn R (l.readName tag c) (l'.readName tag' c) := by
  have hlonger : SameTag { tag with name := tag.name.push c }
      { tag' with name := tag'.name.push c } :=
    ⟨htag.style, congrArg (String.push · c) htag.name, htag.attributes⟩
  unfold Lexer.readName
  rw [← htag.name] at hlonger ⊢
  split
  · split
    · exact .error .emptyTagName
    · exact h.readGap hR htag c
  · exact h.goOn hlonger c .name

theorem InToken.readBareValue (h : InToken R l l') (name value : String) (c : Char) :
    GoOn R (l.readBareValue tag name value c) (l'.readBareValue tag' name value c) := by
  unfold Lexer.readBareValue
  split
  · exact h.readGap hR (htag.add name value) c
  · exact h.goOn htag c .bareValue

theorem InToken.readTag (h : InToken R l l') {part part' : TagPart} (hpart : SamePart part part')
    (c : Char) : GoOn R (l.readTag tag part c) (l'.readTag tag' part' c) := by
  unfold Lexer.readTag
  cases hpart with
  | name => exact h.readName hR htag c
  | gap => exact h.readGap hR htag c
  | attributeName => exact h.readAttribute htag _ _ _ c
  | @value name =>
    by_cases hquote : c = '"'
    · simp only [hquote, if_true]
      exact h.goOn htag '"' .quotedValue
    · simp only [hquote, if_false]
      exact h.readBareValue hR htag name "" c
  | bareValue => exact h.readBareValue hR htag _ _ c
  | quotedValue => exact h.readQuotedValue htag _ _ _ _ c
  | @escapedValue _ _ name value =>
    by_cases hescaped : c = '"' ∨ c = '\\'
    · simp only [hescaped, Bool.or_eq_true, decide_eq_true_eq, if_true]
      exact h.goOn htag c .quotedValue
    · simp only [hescaped, Bool.or_eq_true, decide_eq_true_eq, if_false]
      exact h.readQuotedValue htag _ _ name _ c

end Tags

/-! ### Runs of both -/

section Runs

variable (hR : Reading.Stable R)

include hR

theorem Abreast.readInMode (h : Abreast R l l') (c : Char) :
    GoOn R (l.readInMode c) (l'.readInMode c) := by
  unfold Lexer.readInMode
  cases h with
  | outside h hmode =>
    generalize l.mode = mode, l'.mode = mode' at hmode
    cases hmode with
    | lineStart => exact .ok (h.readLineStart hR _ _ _ c)
    | text => exact .ok (h.readText hR c)
    | escape => exact .ok (h.readEscape hR _ _ c)
  | inside h hmode =>
    generalize l.mode = mode, l'.mode = mode' at hmode
    cases hmode with
    | tag htag hpart => exact h.readTag hR htag hpart c
    | label =>
      simp only [Lexer.readLabel]
      split
      · exact .ok (.inside ⟨h.run, h.related⟩ .headline)
      split
      · exact .ok ((h.endLabel _ _ _ _ _ _).readText hR c)
      · exact .ok (.inside ⟨h.run, h.related⟩ .label)
    | headline =>
      simp only [Lexer.readHeadline]
      split
      · exact .ok ((h.endLabel _ _ _ _ _ _).readText hR c)
      · exact .ok (.inside ⟨h.run, h.related⟩ .headline)

theorem Abreast.read (h : Abreast R l l') (c : Char) : GoOn R (l.read c) (l'.read c) := by
  have hstep := h.readInMode hR c
  unfold Lexer.read
  generalize l.readInMode c = a, l'.readInMode c = b at hstep
  cases hstep with
  | error h => exact .error h
  | ok h =>
    refine .ok ?_
    cases h with
    | outside h hmode => exact .outside ⟨h.sound, h.related⟩ hmode
    | inside h hmode => exact .inside ⟨h.run, h.related⟩ hmode

/-- **The same characters are read alike**, whatever has been read before. -/
theorem Abreast.foldlM (cs : List Char) : ∀ {l l' : Lexer}, Abreast R l l' →
    GoOn R (cs.foldlM Lexer.read l) (cs.foldlM Lexer.read l') := by
  induction cs with
  | nil => exact fun h => .ok h
  | cons c cs ih =>
    intro l l' h
    have hstep := h.read hR c
    rw [List.foldlM_cons, List.foldlM_cons]
    generalize l.read c = a, l'.read c = b at hstep
    cases hstep with
    | ok hnext => exact ih hnext
    | error he => exact .error he

omit hR in
theorem InToken.finishTag (h : InToken R l l') {tag tag' : OpenTag} (htag : SameTag tag tag') :
    (∃ last last', l.finishTag tag = .ok last ∧ l'.finishTag tag' = .ok last' ∧
      InText R last last') ∨
    ∃ e e', l.finishTag tag = .error e ∧ l'.finishTag tag' = .error e' ∧ e.Alike e' := by
  unfold Lexer.finishTag
  rw [← htag.style]
  cases tag.style with
  | bracket => exact .inr ⟨_, _, rfl, rfl, .unterminatedTag⟩
  | line => exact .inl ⟨_, _, rfl, rfl, h.endTag htag⟩

/-- At the end of the text both have their last token, or both find an error of the same kind. -/
theorem Abreast.finishMode (h : Abreast R l l') :
    (∃ last last', l.finishMode = .ok last ∧ l'.finishMode = .ok last' ∧ InText R last last') ∨
    ∃ e e', l.finishMode = .error e ∧ l'.finishMode = .error e' ∧ e.Alike e' := by
  unfold Lexer.finishMode
  cases h with
  | outside h hmode =>
    generalize l.mode = mode, l'.mode = mode' at hmode
    cases hmode with
    | lineStart => exact .inl ⟨_, _, rfl, rfl, h.addBlanks hR _ _ _⟩
    | text => exact .inl ⟨_, _, rfl, rfl, h⟩
    | escape => exact .inl ⟨_, _, rfl, rfl, h.addText hR (List.cons_ne_nil _ _) _ _ _ _⟩
  | inside h hmode =>
    generalize l.mode = mode, l'.mode = mode' at hmode
    cases hmode with
    | label => exact .inl ⟨_, _, rfl, rfl, h.endLabel _ _ _ _ _ _⟩
    | headline => exact .inl ⟨_, _, rfl, rfl, h.endLabel _ _ _ _ _ _⟩
    | tag htag hpart =>
      cases hpart with
      | name =>
        simp only [← htag.name]
        split
        · exact .inr ⟨_, _, rfl, rfl, .emptyTagName⟩
        · exact h.finishTag htag
      | gap => exact h.finishTag htag
      | attributeName => exact .inr ⟨_, _, rfl, rfl, .missingEquals⟩
      | value => exact h.finishTag (htag.add _ _)
      | bareValue => exact h.finishTag (htag.add _ _)
      | quotedValue => exact .inr ⟨_, _, rfl, rfl, .unterminatedQuote⟩
      | escapedValue => exact .inr ⟨_, _, rfl, rfl, .unterminatedQuote⟩

end Runs

/-! ### Scripts side by side -/

/-- The tokens of both are related, or both have an error of the same kind. -/
inductive Finished (R : Reading → Reading → Prop) :
    Except SyntaxError (List Token) → Except SyntaxError (List Token) → Prop
  | ok {ts ts' : List Token} {r r' : Reading} (h : R r r') (hts : ts.map Token.kind = r.all)
    (hts' : ts'.map Token.kind = r'.all) : Finished R (.ok ts) (.ok ts')
  | error {e e' : SyntaxError} (h : e.Alike e') : Finished R (.error e) (.error e')

theorem kind_endRun (h : l.Sound) : l.endRun.tokens.toList.map Token.kind = l.reading.all :=
  kinds_endRun h

theorem Abreast.finish (hR : Reading.Stable R) (h : Abreast R l l') :
    Finished R l.finish l'.finish := by
  unfold Lexer.finish
  rcases h.finishMode hR with ⟨last, last', hlast, hlast', hlastText⟩ | ⟨e, e', he, he', halike⟩
  · rw [hlast, hlast']
    exact .ok hlastText.related (kind_endRun hlastText.sound.1) (kind_endRun hlastText.sound.2)
  · rw [he, he']
    exact .error halike

theorem Abreast.finish_foldlM (hR : Reading.Stable R) (h : Abreast R l l') (cs : List Char) :
    Finished R ((cs.foldlM Lexer.read l).bind Lexer.finish)
      ((cs.foldlM Lexer.read l').bind Lexer.finish) := by
  have hrun := h.foldlM hR cs
  generalize cs.foldlM Lexer.read l = a, cs.foldlM Lexer.read l' = b at hrun
  cases hrun with
  | ok hlast => exact hlast.finish hR
  | error he => exact .error he

/-! ### The end of a line -/

/-- A text is the last token only if nothing has been read behind it. -/
def Reading.Apart (r : Reading) : Prop := ∀ k ∈ r.kinds.getLast?, k.isText = false

theorem stable_apart : Reading.Stable fun r _ => r.Apart where
  add _ h := h
  close hk _ := by simpa [Reading.Apart, Reading.close] using hk

theorem finishTag_eq_ok {tag : OpenTag} {last : Lexer} (h : l.finishTag tag = .ok last) :
    tag.style = .line ∧ l.endTag tag = last := by
  unfold Lexer.finishTag at h
  split at h
  · cases h
  · rename_i hstyle
    exact ⟨hstyle, Except.ok.inj h⟩

theorem readGap_newline {tag : OpenTag} (hstyle : tag.style = .line) :
    l.readGap tag '\n' = .ok ((l.endTag tag).readText '\n') := by
  simp [Lexer.readGap, OpenTag.isGap, hstyle]

/-- A line break is read as the end of the text is, and then as a line break in text. -/
theorem readInMode_newline (hsound : l.Sound) {last : Lexer} (h : l.finishMode = .ok last) :
    last.Sound ∧ l.readInMode '\n' = .ok (last.readText '\n') := by
  have hblank : Text.isBlank '\n' = true := by decide
  have htag : ∀ tag : OpenTag, l.finishTag tag = .ok last →
      last.Sound ∧ l.readGap tag '\n' = .ok (last.readText '\n') := by
    intro tag hfinish
    obtain ⟨hstyle, rfl⟩ := finishTag_eq_ok hfinish
    exact ⟨hsound, readGap_newline hstyle⟩
  unfold Lexer.finishMode at h
  unfold Lexer.readInMode
  cases hmode : l.mode with
  | lineStart start blanks =>
    rw [hmode] at h
    obtain rfl := Except.ok.inj h
    exact ⟨hsound.addBlanks _ _, by simp [Lexer.readLineStart]⟩
  | text =>
    rw [hmode] at h
    obtain rfl := Except.ok.inj h
    exact ⟨hsound, rfl⟩
  | escape start =>
    rw [hmode] at h
    obtain rfl := Except.ok.inj h
    exact ⟨sound_addText (List.cons_ne_nil _ _) _ _ _, by simp [Lexer.readEscape, isEscapable]⟩
  | label start name literal =>
    rw [hmode] at h
    obtain rfl := Except.ok.inj h
    exact ⟨hsound, by simp [Lexer.readLabel]⟩
  | headline start name headline literal =>
    rw [hmode] at h
    obtain rfl := Except.ok.inj h
    exact ⟨hsound, by simp [Lexer.readHeadline]⟩
  | tag tag part =>
    rw [hmode] at h
    cases part with
    | name =>
      simp only at h
      split at h
      · cases h
      · rename_i hname
        simpa [Lexer.readTag, Lexer.readName, hblank, hname] using htag tag h
    | gap => exact htag tag h
    | attributeName start name => cases h
    | value name =>
      simpa [Lexer.readTag, Lexer.readBareValue, hblank] using htag (tag.add name "") h
    | bareValue name value =>
      simpa [Lexer.readTag, Lexer.readBareValue, hblank] using htag (tag.add name value) h
    | quotedValue start name value => cases h
    | escapedValue start name value => cases h

/-- **A line break ends what is being read just as the end of the text does**, and a new line
starts. -/
theorem read_newline (hsound : l.Sound) {last : Lexer} (h : l.finishMode = .ok last) :
    ∃ next, l.read '\n' = .ok next ∧ next.Sound ∧ next.reading = last.reading ∧
      ∃ start, next.mode = .lineStart start "" := by
  obtain ⟨hlast, hread⟩ := readInMode_newline hsound h
  refine ⟨_, by rw [Lexer.read, hread]; rfl, ?_⟩
  simp only [Lexer.readText, if_true]
  exact ⟨hlast.addBreak '\n', reading_addBreak '\n' last, _, rfl⟩

end Lexer

/-! ### Texts that meet -/

/-- The tokens of two scripts one behind the other: a text at the end of the first and one at the
start of the second are one text. -/
def joinKinds (ks ks' : List TokenKind) : List TokenKind :=
  match ks.getLast?, ks' with
  | some (.text s), .text s' :: more => ks.dropLast ++ .text (s ++ s') :: more
  | _, _ => ks ++ ks'

example : joinKinds [.label "a" "", .text "b"] [.text "c", .text "d"] =
    [.label "a" "", .text "bc", .text "d"] := by decide

namespace Lexer

variable {done ks ks' : List TokenKind} {cs ds : List Char} {r r' : Reading}

theorem joinKinds_of_getLast? (h : ∀ k ∈ ks.getLast?, k.isText = false) :
    joinKinds ks ks' = ks ++ ks' := by
  unfold joinKinds
  split
  · rename_i s _ _ hlast
    cases h _ hlast
  · rfl

theorem joinKinds_of_head? (h : ∀ k ∈ ks'.head?, k.isText = false) :
    joinKinds ks ks' = ks ++ ks' := by
  unfold joinKinds
  split
  · cases h _ rfl
  · rfl

/-- Pending text meets the text at the start of the tokens behind it. -/
theorem joinKinds_textKinds (hdone : ∀ k ∈ done.getLast?, k.isText = false) (cs ds : List Char)
    (more : List TokenKind) (hmore : ∀ k ∈ more.head?, k.isText = false) :
    joinKinds (done ++ textKinds cs) (textKinds ds ++ more) =
      done ++ textKinds (cs ++ ds) ++ more := by
  by_cases hcs : cs = []
  · subst hcs
    rw [textKinds_nil, List.append_nil, joinKinds_of_getLast? hdone, List.nil_append,
      List.append_assoc]
  by_cases hds : ds = []
  · subst hds
    rw [textKinds_nil, List.nil_append, joinKinds_of_head? hmore, List.append_nil]
  · simp [textKinds, hcs, hds, joinKinds]

/-- What has been read of a script, and what has been read behind the tokens `done` and the text
`cs`: either there is only text so far, or the first text has become a token. -/
inductive Behind (done : List TokenKind) (cs : List Char) : Reading → Reading → Prop
  | text {ds : List Char} : Behind done cs ⟨done, cs ++ ds⟩ ⟨[], ds⟩
  | tokens {ds pending : List Char} {k : TokenKind} {more : List TokenKind}
    (hk : k.isText = false) :
    Behind done cs ⟨done ++ textKinds (cs ++ ds) ++ k :: more, pending⟩
      ⟨textKinds ds ++ k :: more, pending⟩

theorem stable_behind (done : List TokenKind) (cs : List Char) :
    Reading.Stable (Behind done cs) where
  add es h := by
    cases h with
    | text =>
      simp only [Reading.add, List.append_assoc]
      exact .text
    | tokens hk => exact .tokens hk
  close hk h := by
    cases h with
    | text =>
      simp only [Reading.close, Reading.all, List.nil_append]
      exact .tokens hk
    | tokens hk' =>
      simp only [Reading.close, Reading.all, List.append_assoc, List.cons_append]
      rw [← List.append_assoc]
      exact .tokens hk'

theorem Behind.joinKinds_all (hdone : ∀ k ∈ done.getLast?, k.isText = false)
    (h : Behind done cs r r') : joinKinds (done ++ textKinds cs) r'.all = r.all := by
  cases h with
  | @text ds =>
    have hjoin := joinKinds_textKinds hdone cs ds [] (by simp)
    rwa [List.append_nil, List.append_nil] at hjoin
  | @tokens ds pending k more hk =>
    have hjoin := joinKinds_textKinds hdone cs ds (k :: (more ++ textKinds pending))
      (by simpa using hk)
    simpa [Reading.all] using hjoin

end Lexer

/-! ### One script behind another -/

open Lexer in
/-- Behind a whole script and a line break, another script is read as if it stood alone. -/
theorem finished_behind {a b : String} {ts : List Token} (ha : tokens a = .ok ts) :
    ∃ done cs, (∀ k ∈ done.getLast?, k.isText = false) ∧
      ts.map Token.kind = done ++ textKinds cs ∧
      Finished (Behind done cs) (tokens (a ++ "\n" ++ b)) (tokens b) := by
  have hstart : Abreast (fun r _ => r.Apart) {} {} :=
    .outside ⟨⟨by simp [Sound], by simp [Sound]⟩, by simp [Reading.Apart, reading, kinds]⟩
      .lineStart
  have hfirst := hstart.foldlM stable_apart a.toList
  unfold tokens at ha
  generalize hl : a.toList.foldlM read {} = result at ha hfirst
  cases hfirst with
  | error => cases ha
  | @ok l _ hreached =>
    -- the first script ends without an error, and so does its last line
    change l.finish = .ok ts at ha
    unfold Lexer.finish at ha
    obtain ⟨last, _, hlast, -, hlastText⟩ | ⟨e, _, he, -⟩ := hreached.finishMode stable_apart
    · rw [hlast] at ha
      obtain rfl := Except.ok.inj ha
      have hsound : l.Sound := by
        cases hreached with
        | outside h => exact h.sound.1
        | inside h => exact sound_of_run_eq_none h.run.1
      obtain ⟨next, hnext, hnextSound, hreading, start, hmode⟩ := read_newline hsound hlast
      refine ⟨last.reading.kinds, last.reading.text, hlastText.related,
        kind_endRun hlastText.sound.1, ?_⟩
      have habreast : Abreast (Behind last.reading.kinds last.reading.text) next {} := by
        refine .outside ⟨⟨hnextSound, by simp [Sound]⟩, ?_⟩ (hmode ▸ .lineStart)
        have htext : Behind last.reading.kinds last.reading.text
            ⟨last.reading.kinds, last.reading.text ++ []⟩ ⟨[], []⟩ := .text
        rw [List.append_nil] at htext
        rw [hreading]
        exact htext
      have hchars : (a ++ "\n" ++ b).toList = a.toList ++ '\n' :: b.toList := by simp
      rw [tokens, hchars, List.foldlM_append, hl]
      show Finished _ (Except.bind (('\n' :: b.toList).foldlM read l) Lexer.finish) _
      rw [List.foldlM_cons, hnext]
      exact habreast.finish_foldlM (stable_behind _ _) b.toList
    · rw [he] at ha
      cases ha

/-- **Scripts are read line by line.** Behind a script that can be read and a line break, another
script can be read exactly if it can be read alone, and has an error of the same kind otherwise. The
tokens are those of the first script and then those of the second, where a text at the end of the
one and a text at the start of the other are one text. -/
theorem tokens_append_line {a b : String} {ts : List Token} (ha : tokens a = .ok ts) :
    (∀ ts', tokens b = .ok ts' → ∃ both, tokens (a ++ "\n" ++ b) = .ok both ∧
      both.map Token.kind = joinKinds (ts.map Token.kind) (ts'.map Token.kind)) ∧
    ∀ e, tokens b = .error e → ∃ e', tokens (a ++ "\n" ++ b) = .error e' ∧ e'.Alike e := by
  obtain ⟨done, cs, hdone, hts, hfinished⟩ := finished_behind (b := b) ha
  generalize tokens (a ++ "\n" ++ b) = both, tokens b = second at hfinished
  cases hfinished with
  | @ok both second r r' hbehind hboth hsecond =>
    refine ⟨?_, nofun⟩
    rintro ts' hts'
    obtain rfl := Except.ok.inj hts'
    refine ⟨both, rfl, ?_⟩
    rw [hboth, hts, hsecond, hbehind.joinKinds_all hdone]
  | @error e' e he =>
    refine ⟨nofun, ?_⟩
    rintro e heq
    obtain rfl := Except.error.inj heq
    exact ⟨e', rfl, he⟩

/-- A tag line, and a line of text that ends with a backslash. -/
def tagAndText : String := "@wait time=5\nHello \\"

theorem tokens_append_line_tagAndText :
    tokens tagAndText = .ok
      [⟨.tag ⟨"wait", [⟨"time", "5"⟩]⟩, "@wait time=5", ⟨0, 1, 1⟩⟩,
        ⟨.text "Hello \\", "Hello \\", ⟨13, 2, 1⟩⟩] ∧
    (∃ e, tokens (tagAndText ++ "\n" ++ "[you[r]") = .error e ∧
      e.Alike (.missingEquals "[r" ⟨4, 1, 5⟩)) ∧
    (∃ both, tokens (tagAndText ++ "\n" ++ ":you[r]") = .ok both ∧ both.map Token.kind =
      [.tag ⟨"wait", [⟨"time", "5"⟩]⟩, .text "Hello \\", .label "you" "", .tag ⟨"r", []⟩]) ∧
    ∃ both, tokens (tagAndText ++ "\n" ++ "\\you") = .ok both ∧ both.map Token.kind =
      [.tag ⟨"wait", [⟨"time", "5"⟩]⟩, .text "Hello \\\\you"] := by
  have hread : tokens tagAndText = .ok
      [⟨.tag ⟨"wait", [⟨"time", "5"⟩]⟩, "@wait time=5", ⟨0, 1, 1⟩⟩,
        ⟨.text "Hello \\", "Hello \\", ⟨13, 2, 1⟩⟩] := by decide
  refine ⟨hread, ?_, ?_, ?_⟩
  · exact (tokens_append_line hread).2 (.missingEquals "[r" ⟨4, 1, 5⟩) (by decide)
  · obtain ⟨both, hboth, hkinds⟩ := (tokens_append_line (b := ":you[r]") hread).1
      [⟨.label "you" "", ":you", ⟨0, 1, 1⟩⟩, ⟨.tag ⟨"r", []⟩, "[r]", ⟨4, 1, 5⟩⟩] (by decide)
    exact ⟨both, hboth, hkinds.trans (by decide)⟩
  · obtain ⟨both, hboth, hkinds⟩ := (tokens_append_line (b := "\\you") hread).1
      [⟨.text "\\you", "\\you", ⟨0, 1, 1⟩⟩] (by decide)
    exact ⟨both, hboth, hkinds.trans (by decide)⟩

end NovelScript.Script
