import NovelScript.Proofs.Reading.Lines

/-!
Line endings. A carriage return in front of a line break is no text, ends names and values that
have no quotes, and is trimmed off headlines; it is kept in quoted values only. So two lexers, one
of which meets carriage returns in front of all its line breaks, go on side by side, with values
that differ in carriage returns. Main statement: a script is read as the same script with such line
endings is, but for the carriage returns in the values of attributes.
-/

namespace NovelScript.Script

/-- The text with a carriage return in front of every line feed. -/
def withReturns (cs : List Char) : List Char :=
  cs.flatMap fun c => if c = '\n' then ['\r', '\n'] else [c]

/-- The text without its carriage returns. -/
def dropReturns (s : String) : String := String.ofList (s.toList.filter (· ≠ '\r'))

/-- The attribute without the carriage returns of its value. -/
def Attribute.dropReturns (a : Attribute) : Attribute := ⟨a.name, Script.dropReturns a.value⟩

/-- The token without the carriage returns in the values of its attributes. -/
def TokenKind.dropReturns : TokenKind → TokenKind
  | .tag t => .tag ⟨t.name, t.attributes.map Attribute.dropReturns⟩
  | k => k

@[simp] theorem dropReturns_empty : dropReturns "" = "" := by simp [dropReturns]

@[simp] theorem dropReturns_push {c : Char} (hc : c ≠ '\r') (s : String) :
    dropReturns (s.push c) = (dropReturns s).push c := by
  rw [← String.toList_inj]
  simp [dropReturns, hc]

@[simp] theorem dropReturns_push_return (s : String) :
    dropReturns (s.push '\r') = dropReturns s := by
  rw [← String.toList_inj]
  simp [dropReturns]

/-- The blanks at the end of a headline are trimmed, and a carriage return is one. -/
theorem trim_push_return (s : String) : Text.trim (s.push '\r') = Text.trim s := by
  have hblank : Text.isBlank '\r' = true := by decide
  have hdrop : ∀ cs : List Char, ((cs ++ ['\r']).dropWhile Text.isBlank).reverse.dropWhile
      Text.isBlank = (cs.dropWhile Text.isBlank).reverse.dropWhile Text.isBlank := by
    intro cs
    induction cs with
    | nil => simp [hblank]
    | cons c cs ih =>
      by_cases hc : Text.isBlank c = true
      · simpa [List.dropWhile_cons_of_pos hc] using ih
      · simp [List.dropWhile_cons_of_neg hc, hblank]
  simp [Text.trim, Text.trimBlanks, hdrop]

namespace Lexer

variable {l l' : Lexer} {c : Char} {cs : List Char}

/-! ### What has been read -/

/-- Both have read the same, but for carriage returns that the second has in the values of
attributes. -/
structure SameRead (l l' : Lexer) : Prop where
  sound : l.Sound ∧ l'.Sound
  kinds : l'.kinds.map TokenKind.dropReturns = l.kinds
  text : l'.runText = l.runText

/-- Both tags are the same so far, but for carriage returns in the values of the second. -/
structure SameValues (tag tag' : OpenTag) : Prop where
  style : tag'.style = tag.style
  name : tag'.name = tag.name
  attributes : tag'.attributes.toList.map Attribute.dropReturns = tag.attributes.toList

/-- Both are at the same part of a tag, with values that differ in carriage returns. -/
inductive PartBeside : TagPart → TagPart → Prop
  | name : PartBeside .name .name
  | gap : PartBeside .gap .gap
  | attributeName {p q : Position} {name : String} :
    PartBeside (.attributeName p name) (.attributeName q name)
  | value {name : String} : PartBeside (.value name) (.value name)
  | bareValue {name value value' : String} (hvalue : dropReturns value' = value) :
    PartBeside (.bareValue name value) (.bareValue name value')
  | quotedValue {p q : Position} {name value value' : String}
    (hvalue : dropReturns value' = value) :
    PartBeside (.quotedValue p name value) (.quotedValue q name value')
  | escapedValue {p q : Position} {name value value' : String}
    (hvalue : dropReturns value' = value) :
    PartBeside (.escapedValue p name value) (.escapedValue q name value')

/-- Both are reading the same. -/
inductive ModeBeside : Mode → Mode → Prop
  | outside {mode mode' : Mode} (h : BothOutside mode mode') : ModeBeside mode mode'
  | label {p q : Position} {name literal literal' : String} :
    ModeBeside (.label p name literal) (.label q name literal')
  | headline {p q : Position} {name headline literal literal' : String} :
    ModeBeside (.headline p name headline literal) (.headline q name headline literal')
  | tag {tag tag' : OpenTag} {part part' : TagPart} (htag : SameValues tag tag')
    (hpart : PartBeside part part') : ModeBeside (.tag tag part) (.tag tag' part')

/-- Both have read the same and are reading the same, carriage returns in values aside. -/
structure Beside (l l' : Lexer) : Prop where
  done : SameRead l l'
  mode : ModeBeside l.mode l'.mode

/-- Both go on side by side, or both find an error of the same kind. -/
inductive GoBeside : Except SyntaxError Lexer → Except SyntaxError Lexer → Prop
  | ok {l l' : Lexer} (h : Beside l l') : GoBeside (.ok l) (.ok l')
  | error {e e' : SyntaxError} (h : e.Alike e') : GoBeside (.error e) (.error e')

/-- Places make no difference. -/
theorem GoBeside.moveTo {a b : Except SyntaxError Lexer} (h : GoBeside a b) (p q : Position) :
    GoBeside (a.map fun l => { l with position := p }) (b.map fun l => { l with position := q }) := by
  cases h with
  | ok h => exact .ok ⟨⟨h.done.sound, h.done.kinds, h.done.text⟩, h.mode⟩
  | error h => exact .error h

theorem map_dropReturns_textKinds (cs : List Char) :
    (textKinds cs).map TokenKind.dropReturns = textKinds cs := by
  unfold textKinds
  split <;> rfl

section Text

variable (h : SameRead l l')

include h

theorem SameRead.addText (hcs : cs ≠ []) (literal literal' : List Char) (start start' : Position) :
    SameRead (l.addText cs literal start) (l'.addText cs literal' start') where
  sound := ⟨sound_addText hcs _ _ _, sound_addText hcs _ _ _⟩
  kinds := by rw [kinds_addText, kinds_addText, h.kinds]
  text := by rw [runText_addText, runText_addText, h.text]

theorem SameRead.addBlanks (blanks : String) (start start' : Position) :
    SameRead (l.addBlanks blanks start) (l'.addBlanks blanks start') where
  sound := ⟨h.sound.1.addBlanks _ _, h.sound.2.addBlanks _ _⟩
  kinds := by rw [kinds_addBlanks, kinds_addBlanks, h.kinds]
  text := by rw [runText_addBlanks, runText_addBlanks, h.text]

theorem SameRead.addBreak (c c' : Char) : SameRead (l.addBreak c) (l'.addBreak c') where
  sound := ⟨h.sound.1.addBreak c, h.sound.2.addBreak c'⟩
  kinds := h.kinds
  text := by rw [runText_addBreak, runText_addBreak, h.text]

theorem SameRead.endRun : SameRead l.endRun l'.endRun where
  sound := ⟨sound_of_run_eq_none (run_endRun l), sound_of_run_eq_none (run_endRun l')⟩
  kinds := by
    rw [kinds_endRun h.sound.1, kinds_endRun h.sound.2, List.map_append, h.kinds, h.text,
      map_dropReturns_textKinds]
  text := by
    rw [runText_of_run_eq_none (run_endRun l), runText_of_run_eq_none (run_endRun l')]

/-- The token that both have read behind it. -/
theorem SameRead.push {k k' : TokenKind} (hk : k'.dropReturns = k) (literal literal' : String)
    (start start' : Position) (mode mode' : Mode) :
    SameRead { l with tokens := l.tokens.push ⟨k, literal, start⟩, mode := mode }
      { l' with tokens := l'.tokens.push ⟨k', literal', start'⟩, mode := mode' } where
  sound := h.sound
  kinds := by
    have hkinds := h.kinds
    simp only [Lexer.kinds] at hkinds
    simp [Lexer.kinds, hk, hkinds]
  text := h.text

/-! ### The same character on both sides -/

theorem SameRead.readText (c : Char) : Beside (l.readText c) (l'.readText c) := by
  have hbreak := h.addBreak c c
  have htext := h.addText (List.cons_ne_nil c []) [c] [c] l.position l'.position
  have hopened := h.endRun
  unfold Lexer.readText
  split
  · exact ⟨⟨hbreak.sound, hbreak.kinds, hbreak.text⟩, .outside .lineStart⟩
  split
  · exact ⟨⟨hbreak.sound, hbreak.kinds, hbreak.text⟩, .outside .text⟩
  split
  · exact ⟨⟨h.sound, h.kinds, h.text⟩, .outside .escape⟩
  split
  · exact ⟨⟨hopened.sound, hopened.kinds, hopened.text⟩, .tag ⟨rfl, rfl, rfl⟩ .name⟩
  · exact ⟨⟨htext.sound, htext.kinds, htext.text⟩, .outside .text⟩

theorem SameRead.readLineStart (start start' : Position) (blanks : String) (c : Char) :
    Beside (l.readLineStart start blanks c) (l'.readLineStart start' blanks c) := by
  have hopened := h.endRun
  unfold Lexer.readLineStart
  split
  · exact ⟨⟨h.sound, h.kinds, h.text⟩, .outside .lineStart⟩
  split
  · exact ⟨⟨hopened.sound, hopened.kinds, hopened.text⟩, .label⟩
  split
  · exact ⟨⟨hopened.sound, hopened.kinds, hopened.text⟩, .tag ⟨rfl, rfl, rfl⟩ .name⟩
  · exact (h.addBlanks blanks start start').readText c

theorem SameRead.readEscape (start start' : Position) (c : Char) :
    Beside (l.readEscape start c) (l'.readEscape start' c) := by
  unfold Lexer.readEscape
  split
  · have htext := h.addText (List.cons_ne_nil c []) ['\\', c] ['\\', c] start start'
    exact ⟨⟨htext.sound, htext.kinds, htext.text⟩, .outside .text⟩
  · exact (h.addText (List.cons_ne_nil '\\' []) _ _ start start').readText c

theorem SameRead.endLabel (start start' : Position) {headline headline' : String}
    (hheadline : Text.trim headline' = Text.trim headline) (name literal literal' : String) :
    SameRead (l.endLabel start name headline literal) (l'.endLabel start' name headline' literal') :=
  h.push (by rw [hheadline]; rfl) _ _ _ _ _ _

theorem SameRead.endTag {tag tag' : OpenTag} (htag : SameValues tag tag') :
    SameRead (l.endTag tag) (l'.endTag tag') := by
  have hkind : tag'.token.kind.dropReturns = tag.token.kind := by
    simp only [OpenTag.token, TokenKind.dropReturns, htag.name, htag.attributes]
  exact h.push hkind _ _ _ _ _ _

end Text

section Tags

variable {tag tag' : OpenTag} (htag : SameValues tag tag')

include htag

theorem SameValues.grow (c c' : Char) : SameValues (tag.grow c) (tag'.grow c') :=
  ⟨htag.style, htag.name, htag.attributes⟩

theorem SameValues.add (name : String) {value value' : String}
    (hvalue : dropReturns value' = value) :
    SameValues (tag.add name value) (tag'.add name value') where
  style := htag.style
  name := htag.name
  attributes := by
    simp [OpenTag.add, htag.attributes, Attribute.dropReturns, hvalue]

theorem SameValues.isGap (c : Char) : tag'.isGap c = tag.isGap c := by
  rw [OpenTag.isGap, OpenTag.isGap, htag.style]

variable (h : SameRead l l')

include h

theorem SameRead.goOn (c c' : Char) {part part' : TagPart} (hpart : PartBeside part part') :
    GoBeside (l.goOn tag c part) (l'.goOn tag' c' part') :=
  .ok ⟨⟨h.sound, h.kinds, h.text⟩, .tag (htag.grow c c') hpart⟩

theorem SameRead.readAttribute (start start' : Position) (name : String) (c : Char) :
    GoBeside (l.readAttribute tag start name c) (l'.readAttribute tag' start' name c) := by
  unfold Lexer.readAttribute
  split
  · exact h.goOn htag c c .value
  split
  · exact .error .missingEquals
  · exact h.goOn htag c c .attributeName

theorem SameRead.readGap (c : Char) : GoBeside (l.readGap tag c) (l'.readGap tag' c) := by
  unfold Lexer.readGap
  rw [htag.isGap, htag.style]
  split
  · exact h.goOn htag c c .gap
  split
  · exact .ok ⟨h.endTag (htag.grow c c), .outside .text⟩
  split
  · exact .ok ((h.endTag htag).readText c)
  · exact h.readAttribute htag _ _ "" c

theorem SameRead.readName (c : Char) : GoBeside (l.readName tag c) (l'.readName tag' c) := by
  have hlonger : SameValues { tag with name := tag.name.push c }
      { tag' with name := tag'.name.push c } :=
    ⟨htag.style, congrArg (String.push · c) htag.name, htag.attributes⟩
  unfold Lexer.readName
  rw [htag.name] at hlonger ⊢
  split
  · split
    · exact .error .emptyTagName
    · exact h.readGap htag c
  · exact h.goOn hlonger c c .name

variable {value value' : String} (hvalue : dropReturns value' = value) (hc : c ≠ '\r')

include hvalue hc

theorem SameRead.readBareValue (name : String) :
    GoBeside (l.readBareValue tag name value c) (l'.readBareValue tag' name value' c) := by
  unfold Lexer.readBareValue
  split
  · exact h.readGap (htag.add name hvalue) c
  · exact h.goOn htag c c (.bareValue (by rw [dropReturns_push hc, hvalue]))

theorem SameRead.readQuotedValue (start start' : Position) (name : String) :
    GoBeside (l.readQuotedValue tag start name value c)
      (l'.readQuotedValue tag' start' name value' c) := by
  unfold Lexer.readQuotedValue
  split
  · exact h.goOn (htag.add name hvalue) c c .gap
  split
  · exact h.goOn htag c c (.escapedValue hvalue)
  · exact h.goOn htag c c (.quotedValue (by rw [dropReturns_push hc, hvalue]))

omit hvalue

theorem SameRead.readTag {part part' : TagPart} (hpart : PartBeside part part') :
    GoBeside (l.readTag tag part c) (l'.readTag tag' part' c) := by
  unfold Lexer.readTag
  cases hpart with
  | name => exact h.readName htag c
  | gap => exact h.readGap htag c
  | attributeName => exact h.readAttribute htag _ _ _ c
  | value =>
    simp only
    split
    · exact h.goOn htag c c (.quotedValue dropReturns_empty)
    · exact h.readBareValue htag dropReturns_empty hc _
  | bareValue hvalue => exact h.readBareValue htag hvalue hc _
  | quotedValue hvalue => exact h.readQuotedValue htag hvalue hc _ _ _
  | escapedValue hvalue =>
    simp only
    split
    · exact h.goOn htag c c (.quotedValue (by rw [dropReturns_push hc, hvalue]))
    · refine h.readQuotedValue htag ?_ hc _ _ _
      rw [dropReturns_push (by decide), hvalue]

end Tags

/-- **Any other character is read alike.** -/
theorem Beside.readInMode (h : Beside l l') (hc : c ≠ '\r') :
    GoBeside (l.readInMode c) (l'.readInMode c) := by
  obtain ⟨h, hmode⟩ := h
  unfold Lexer.readInMode
  generalize l.mode = mode, l'.mode = mode' at hmode
  cases hmode with
  | outside hmode =>
    cases hmode with
    | lineStart => exact .ok (h.readLineStart _ _ _ c)
    | text => exact .ok (h.readText c)
    | escape => exact .ok (h.readEscape _ _ c)
  | label =>
    simp only [Lexer.readLabel]
    split
    · exact .ok ⟨⟨h.sound, h.kinds, h.text⟩, .headline⟩
    split
    · exact .ok ((h.endLabel _ _ rfl _ _ _).readText c)
    · exact .ok ⟨⟨h.sound, h.kinds, h.text⟩, .label⟩
  | headline =>
    simp only [Lexer.readHeadline]
    split
    · exact .ok ((h.endLabel _ _ rfl _ _ _).readText c)
    · exact .ok ⟨⟨h.sound, h.kinds, h.text⟩, .headline⟩
  | tag htag hpart => exact h.readTag htag hc hpart

/-! ### The end of a line on both sides -/

/-- Reads a carriage return and a line feed. -/
def readLineEnd (l : Lexer) : Except SyntaxError Lexer :=
  (l.read '\r').bind fun between => between.read '\n'

theorem readLineEnd_of_ok {next : Lexer} (h : l.readInMode '\r' = .ok next) :
    l.readLineEnd = Lexer.read { next with position := l.position.next '\r' } '\n' := by
  rw [readLineEnd, read, h]
  rfl

/-- What is still to be read when the carriage return has been read is the line feed that the first
reads. -/
theorem Beside.lineEnd_of_ok {between between' : Lexer} (h : Beside between between')
    (hread : l.readInMode '\n' = between.readInMode '\n')
    (hread' : l'.readInMode '\r' = .ok between') : GoBeside (l.read '\n') l'.readLineEnd := by
  have hmoved : Beside between { between' with position := l'.position.next '\r' } :=
    ⟨⟨h.done.sound, h.done.kinds, h.done.text⟩, h.mode⟩
  rw [readLineEnd_of_ok hread', read, hread]
  exact (hmoved.readInMode (by decide)).moveTo _ _

theorem lineEnd_of_error {e e' : SyntaxError} (h : e.Alike e')
    (hread : l.readInMode '\n' = .error e) (hread' : l'.readInMode '\r' = .error e') :
    GoBeside (l.read '\n') l'.readLineEnd := by
  rw [readLineEnd, read, read, hread, hread']
  exact .error h

theorem readText_return (l : Lexer) :
    l.readText '\r' = { l.addBreak '\r' with mode := .text } := by
  simp [Lexer.readText]

/-- A carriage return in text leaves text behind. -/
theorem SameRead.return (h : SameRead l l') :
    Beside { l with mode := .text } (l'.readText '\r') := by
  rw [readText_return]
  exact ⟨⟨⟨h.sound.1, h.sound.2.addBreak _⟩, h.kinds, (runText_addBreak _ _).trans h.text⟩,
    .outside .text⟩

theorem readGap_return (tag : OpenTag) (l : Lexer) :
    l.readGap tag '\r' = l.goOn tag '\r' .gap := by
  have hblank : Text.isBlank '\r' = true := by decide
  cases hstyle : tag.style <;> simp [Lexer.readGap, OpenTag.isGap, hstyle, hblank]

/-- A carriage return between attributes leaves a gap behind. -/
theorem SameRead.lineEnd_gap (h : SameRead l l') {tag tag' : OpenTag} (htag : SameValues tag tag')
    (hread : l.readInMode '\n' = l.readGap tag '\n')
    (hread' : l'.readInMode '\r' = l'.readGap tag' '\r') :
    GoBeside (l.read '\n') l'.readLineEnd := by
  have hbeside : Beside { l with mode := .tag tag .gap }
      { l' with mode := .tag (tag'.grow '\r') .gap } :=
    ⟨⟨h.sound, h.kinds, h.text⟩, .tag ⟨htag.style, htag.name, htag.attributes⟩ .gap⟩
  exact hbeside.lineEnd_of_ok (hread.trans rfl) (hread'.trans (readGap_return tag' l'))

/-- A line break in a tag is read alike with a carriage return in front of it. -/
theorem SameRead.lineEnd_tag (h : SameRead l l') {tag tag' : OpenTag} (htag : SameValues tag tag')
    {part part' : TagPart} (hpart : PartBeside part part') (hl : l.mode = .tag tag part)
    (hl' : l'.mode = .tag tag' part') : GoBeside (l.read '\n') l'.readLineEnd := by
  have hblank : Text.isBlank '\n' = true ∧ Text.isBlank '\r' = true := by decide
  have hread : ∀ c, l.readInMode c = l.readTag tag part c ∧
      l'.readInMode c = l'.readTag tag' part' c := by
    intro c
    simp only [Lexer.readInMode, hl, hl', and_self]
  -- a value in quotes goes on with both characters, or with the line feed alone
  have hquoted : ∀ {p q : Position} {name value value' : String}, dropReturns value' = value →
      l.readTag tag part '\n' = l.readQuotedValue tag p name value '\n' →
      l'.readTag tag' part' '\r' = l'.readQuotedValue tag' q name value' '\r' →
      GoBeside (l.read '\n') l'.readLineEnd := by
    intro p q name value value' hvalue hquote hquote'
    have hbeside : Beside { l with mode := .tag tag (.quotedValue p name value) }
        { l' with mode := .tag (tag'.grow '\r') (.quotedValue q name (value'.push '\r')) } := by
      refine ⟨⟨h.sound, h.kinds, h.text⟩, .tag ⟨htag.style, htag.name, htag.attributes⟩ ?_⟩
      exact .quotedValue (by rw [dropReturns_push_return, hvalue])
    exact hbeside.lineEnd_of_ok ((hread _).1.trans hquote) ((hread _).2.trans hquote')
  cases hpart with
  | name =>
    by_cases hname : tag.name.isEmpty = true
    · refine lineEnd_of_error (.emptyTagName (p := tag.start) (q := tag'.start))
        ((hread _).1.trans ?_) ((hread _).2.trans ?_) <;>
        simp [Lexer.readTag, Lexer.readName, htag.name, hblank, hname]
    · refine h.lineEnd_gap htag ((hread _).1.trans ?_) ((hread _).2.trans ?_) <;>
        simp [Lexer.readTag, Lexer.readName, htag.name, hblank, hname]
  | gap => exact h.lineEnd_gap htag (hread _).1 (hread _).2
  | @attributeName p q name =>
    have halike : (SyntaxError.missingEquals name p).Alike (.missingEquals name q) := .missingEquals
    refine lineEnd_of_error halike ((hread _).1.trans ?_) ((hread _).2.trans ?_) <;>
      simp [Lexer.readTag, Lexer.readAttribute, hblank]
  | @value name =>
    refine h.lineEnd_gap (htag.add name dropReturns_empty) ((hread _).1.trans ?_)
      ((hread _).2.trans ?_) <;> simp [Lexer.readTag, Lexer.readBareValue, hblank]
  | @bareValue name _ _ hvalue =>
    refine h.lineEnd_gap (htag.add name hvalue) ((hread _).1.trans ?_) ((hread _).2.trans ?_) <;>
      simp [Lexer.readTag, Lexer.readBareValue, hblank]
  | quotedValue hvalue => exact hquoted hvalue rfl rfl
  | escapedValue hvalue => exact hquoted (by rw [dropReturns_push (by decide), hvalue]) rfl rfl

/-- **A line break is read alike with a carriage return in front of it.** -/
theorem Beside.lineEnd (h : Beside l l') : GoBeside (l.read '\n') l'.readLineEnd := by
  obtain ⟨h, hmode⟩ := h
  -- in text, and behind what the line break ends
  have htext : ∀ {last last' : Lexer}, SameRead last last' →
      l.readInMode '\n' = .ok (last.readText '\n') →
      l'.readInMode '\r' = .ok (last'.readText '\r') → GoBeside (l.read '\n') l'.readLineEnd :=
    fun hlast hread hread' => hlast.return.lineEnd_of_ok hread hread'
  generalize hl : l.mode = mode, hl' : l'.mode = mode' at hmode
  cases hmode with
  | outside hmode =>
    cases hmode with
    | @lineStart p q blanks =>
      refine htext (h.addBlanks blanks p q) ?_ ?_ <;> simp [Lexer.readInMode, hl, hl', readLineStart]
    | text => exact htext h (by rw [Lexer.readInMode, hl]) (by rw [Lexer.readInMode, hl'])
    | @escape p q =>
      refine htext (h.addText (List.cons_ne_nil '\\' []) ['\\'] ['\\'] p q) ?_ ?_ <;>
        simp [Lexer.readInMode, hl, hl', readEscape, isEscapable]
  | @label p q name literal literal' =>
    have hempty : Text.trim "" = Text.trim "" := rfl
    refine htext (h.endLabel p q hempty name literal literal') ?_ ?_ <;>
      simp [Lexer.readInMode, hl, hl', readLabel]
  | @headline p q name headline literal literal' =>
    -- the second has the carriage return in its headline
    let longer : Lexer :=
      { l' with
        position := l'.position.next '\r'
        mode := .headline q name (headline.push '\r') (literal'.push '\r') }
    have hlonger : l'.read '\r' = .ok longer := by
      simp [Lexer.read, Lexer.readInMode, hl', readHeadline, Except.map, longer]
    have hdone : SameRead l longer := ⟨h.sound, h.kinds, h.text⟩
    have hlast := (hdone.endLabel p q (trim_push_return headline) name literal
      (literal'.push '\r')).readText '\n'
    rw [readLineEnd, hlonger]
    show GoBeside (l.read '\n') (longer.read '\n')
    simp only [Lexer.read, Lexer.readInMode, hl, longer, readHeadline, if_true]
    exact (GoBeside.ok hlast).moveTo _ _
  | tag htag hpart => exact h.lineEnd_tag htag hpart hl hl'

/-! ### Whole scripts -/

theorem Beside.read (h : Beside l l') (hc : c ≠ '\r') : GoBeside (l.read c) (l'.read c) :=
  (h.readInMode hc).moveTo _ _

/-- **Two scripts are read side by side**, the second with carriage returns in front of its line
breaks. -/
theorem Beside.foldlM (cs : List Char) : ∀ {l l' : Lexer}, Beside l l' → '\r' ∉ cs →
    GoBeside (cs.foldlM Lexer.read l) ((withReturns cs).foldlM Lexer.read l') := by
  induction cs with
  | nil => exact fun h _ => .ok h
  | cons c cs ih =>
    intro l l' h hreturn
    obtain ⟨hc, hrest⟩ := not_or.mp (mt List.mem_cons.mpr hreturn)
    -- both have read the character, or the line break, and have the rest before them
    have hstep : ∃ b, GoBeside (l.read c) b ∧
        (withReturns (c :: cs)).foldlM Lexer.read l' =
          b.bind fun next => (withReturns cs).foldlM Lexer.read next := by
      by_cases hbreak : c = '\n'
      · subst hbreak
        refine ⟨l'.readLineEnd, h.lineEnd, ?_⟩
        simp only [withReturns, List.flatMap_cons, if_true, List.cons_append, List.nil_append,
          List.foldlM_cons, readLineEnd]
        cases l'.read '\r' <;> rfl
      · refine ⟨l'.read c, h.read (Ne.symm hc), ?_⟩
        simp only [withReturns, List.flatMap_cons, hbreak, if_false, List.singleton_append,
          List.foldlM_cons]
        rfl
    obtain ⟨b, hboth, heq⟩ := hstep
    rw [List.foldlM_cons, heq]
    generalize l.read c = a at hboth
    cases hboth with
    | ok hnext => exact ih hnext hrest
    | error he => exact .error he

theorem SameRead.finishTag (h : SameRead l l') {tag tag' : OpenTag} (htag : SameValues tag tag') :
    (∃ last last', l.finishTag tag = .ok last ∧ l'.finishTag tag' = .ok last' ∧
      SameRead last last') ∨
    ∃ e e', l.finishTag tag = .error e ∧ l'.finishTag tag' = .error e' ∧ e.Alike e' := by
  unfold Lexer.finishTag
  rw [htag.style]
  cases tag.style with
  | bracket => exact .inr ⟨_, _, rfl, rfl, .unterminatedTag⟩
  | line => exact .inl ⟨_, _, rfl, rfl, h.endTag htag⟩

/-- At the end of the text both have read the same, or both find an error of the same kind. -/
theorem Beside.finishMode (h : Beside l l') :
    (∃ last last', l.finishMode = .ok last ∧ l'.finishMode = .ok last' ∧ SameRead last last') ∨
    ∃ e e', l.finishMode = .error e ∧ l'.finishMode = .error e' ∧ e.Alike e' := by
  obtain ⟨h, hmode⟩ := h
  unfold Lexer.finishMode
  generalize l.mode = mode, l'.mode = mode' at hmode
  cases hmode with
  | outside hmode =>
    cases hmode with
    | lineStart => exact .inl ⟨_, _, rfl, rfl, h.addBlanks _ _ _⟩
    | text => exact .inl ⟨_, _, rfl, rfl, h⟩
    | escape => exact .inl ⟨_, _, rfl, rfl, h.addText (List.cons_ne_nil _ _) _ _ _ _⟩
  | label => exact .inl ⟨_, _, rfl, rfl, h.endLabel _ _ rfl _ _ _⟩
  | headline => exact .inl ⟨_, _, rfl, rfl, h.endLabel _ _ rfl _ _ _⟩
  | tag htag hpart =>
    cases hpart with
    | name =>
      simp only [htag.name]
      split
      · exact .inr ⟨_, _, rfl, rfl, .emptyTagName⟩
      · exact h.finishTag htag
    | gap => exact h.finishTag htag
    | attributeName => exact .inr ⟨_, _, rfl, rfl, .missingEquals⟩
    | value => exact h.finishTag (htag.add _ dropReturns_empty)
    | bareValue hvalue => exact h.finishTag (htag.add _ hvalue)
    | quotedValue _ => exact .inr ⟨_, _, rfl, rfl, .unterminatedQuote⟩
    | escapedValue _ => exact .inr ⟨_, _, rfl, rfl, .unterminatedQuote⟩

end Lexer

/-- **Line endings make no difference.** A script without carriage returns and the same script with
one in front of every line break both have an error of the same kind, or both have the same tokens:
the same texts, labels and headlines, and the same tags with the same attributes, whose values are
the same but for the carriage returns in those of the second. -/
theorem tokens_withReturns {s : String} (h : '\r' ∉ s.toList) :
    (∃ ts ts', tokens s = .ok ts ∧ tokens (String.ofList (withReturns s.toList)) = .ok ts' ∧
      ts'.map (fun t => t.kind.dropReturns) = ts.map Token.kind) ∨
    ∃ e e', tokens s = .error e ∧ tokens (String.ofList (withReturns s.toList)) = .error e' ∧
      e.Alike e' := by
  have hstart : Lexer.Beside {} {} :=
    ⟨⟨⟨by simp [Lexer.Sound], by simp [Lexer.Sound]⟩, rfl, rfl⟩, .outside .lineStart⟩
  have hrun := hstart.foldlM s.toList h
  unfold tokens
  rw [String.toList_ofList]
  generalize s.toList.foldlM Lexer.read {} = a,
    (withReturns s.toList).foldlM Lexer.read {} = b at hrun
  cases hrun with
  | error he => exact .inr ⟨_, _, rfl, rfl, he⟩
  | @ok l l' hreached =>
    show (∃ ts ts', l.finish = _ ∧ l'.finish = _ ∧ _) ∨ ∃ e e', l.finish = _ ∧ l'.finish = _ ∧ _
    unfold Lexer.finish
    rcases hreached.finishMode with ⟨last, last', hlast, hlast', hsame⟩ | ⟨e, e', he, he', halike⟩
    · refine .inl ⟨last.endRun.tokens.toList, last'.endRun.tokens.toList, by rw [hlast]; rfl,
        by rw [hlast']; rfl, ?_⟩
      have hkinds := hsame.endRun.kinds
      rwa [Lexer.kinds, Lexer.kinds, List.map_map] at hkinds
    · exact .inr ⟨e, e', by rw [he]; rfl, by rw [he']; rfl, halike⟩

/-- A label, a tag line, a quoted value of two lines, and a backslash at the end of a line. -/
def mixedLines : String := ":start|Begin \n  @wait time=5\n[say who=\"a\nb\"]Hello\\\nyou"

theorem tokens_withReturns_mixedLines :
    '\r' ∉ mixedLines.toList ∧
      ∃ ts', tokens (String.ofList (withReturns mixedLines.toList)) = .ok ts' ∧
        ts'.map (fun t => t.kind.dropReturns) =
          [.label "start" "Begin", .tag ⟨"wait", [⟨"time", "5"⟩]⟩, .tag ⟨"say", [⟨"who", "a\nb"⟩]⟩,
            .text "Hello\\you"] := by
  have hnone : '\r' ∉ mixedLines.toList := by decide
  have hread : (tokens mixedLines).map (List.map Token.kind) = .ok
      [.label "start" "Begin", .tag ⟨"wait", [⟨"time", "5"⟩]⟩, .tag ⟨"say", [⟨"who", "a\nb"⟩]⟩,
        .text "Hello\\you"] := by decide
  refine ⟨hnone, ?_⟩
  rcases tokens_withReturns hnone with ⟨ts, ts', hts, hts', hkinds⟩ | ⟨e, e', he, -⟩
  · rw [hts] at hread
    exact ⟨ts', hts', hkinds.trans (Except.ok.inj hread)⟩
  · rw [he] at hread
    cases hread

end NovelScript.Script
