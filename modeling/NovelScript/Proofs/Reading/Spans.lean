import NovelScript.Proofs.Reading.Tiling

/-!
Where the tokens of a script stand. What has been read is tiled by the tokens that have been read;
this holds after every character, for a run of text that may go on as for a label or a tag that is
still open. Main statement: the tokens of a script cover it, each literal is what the source has in
its place, and nothing but line breaks and blanks before markers is left over. What a text stands
for is its literal, read once from left to right.
-/

namespace NovelScript.Script

variable {cs ds literal content : List Char} {c : Char} {ts : List Token}

/-! ### Runs of text -/

/-- What a run was read from, and the line breaks read since. -/
def TextRun.source (run : TextRun) : List Char := run.literal.reverse ++ run.breaks.reverse

/-- The run stands behind `before`, and its literal stands for its content. -/
structure TextRun.Stands (run : TextRun) (before : List Char) : Prop where
  start : run.start = Position.after {} before
  literal : run.literal ≠ []
  breaks : ∀ c ∈ run.breaks, IsBreak c
  spells : SpellsAlone run.literal.reverse run.content.reverse

namespace Lexer

variable {l next : Lexer} {start : Position}

/-- What has been read, up to where something else begins, is tokens and perhaps a run of text that
may go on, with line breaks behind it. -/
inductive Settled (l : Lexer) : List Char → Prop
  | between {cs : List Char} (hrun : l.run = none) (h : Tiles cs l.tokens.toList) : Settled l cs
  | inText {cs : List Char} {run : TextRun} (hrun : l.run = some run)
      (h : Tiles cs l.tokens.toList) (hstands : run.Stands cs) : Settled l (cs ++ run.source)

/-- What a run stands for is not changed by `c` behind it. -/
def Ready (l : Lexer) (c : Char) : Prop := ∀ run, l.run = some run → ∀ more,
  plain (run.source ++ c :: more) = run.content.reverse ++ plain (c :: more)

theorem ready_of_none (h : l.run = none) (c : Char) : l.Ready c := by
  intro run hrun
  rw [h] at hrun
  cases hrun

/-- Only the tokens and the run make a difference. -/
theorem Settled.congr (h : l.Settled cs) (hrun : next.run = l.run)
    (htokens : next.tokens = l.tokens) : next.Settled cs := by
  cases h with
  | between hnone h => exact .between (hrun.trans hnone) (htokens ▸ h)
  | inText hsome h hstands => exact .inText (hrun.trans hsome) (htokens ▸ h) hstands

/-- Text goes on with a run that it does not change, or begins one. -/
theorem Settled.addText (h : l.Settled cs) (hready : l.Ready c)
    (hstart : start = Position.after {} cs) (hspells : SpellsAlone (c :: ds) content) :
    (l.addText content (c :: ds) start).Settled (cs ++ c :: ds) := by
  unfold Lexer.addText
  cases h with
  | between hrun h =>
    have hstands : TextRun.Stands ⟨start, content.reverse, (c :: ds).reverse, []⟩ cs :=
      ⟨hstart, by simp, by simp, by simpa using hspells⟩
    simp only [hrun]
    simpa [TextRun.source] using Settled.inText (l := { l with run := some _ }) rfl h hstands
  | @inText cs run hrun h hstands =>
    have hstands' : TextRun.Stands { run with
        content := content.reverse ++ run.content
        literal := (c :: ds).reverse ++ (run.breaks ++ run.literal)
        breaks := [] } cs := by
      refine ⟨hstands.start, by simp, by simp, fun more hmore => ?_⟩
      have hrest := hready run hrun (ds ++ more)
      rw [← List.cons_append, hspells more hmore] at hrest
      simpa [TextRun.source] using hrest
    simp only [hrun]
    simpa [TextRun.source] using Settled.inText (l := { l with run := some _ }) rfl h hstands'

theorem Ready.addText {d : Char} (h : l.Ready c) (start : Position)
    (hspells : ∀ more, plain (c :: ds ++ d :: more) = content ++ plain (d :: more)) :
    (l.addText content (c :: ds) start).Ready d := by
  unfold Lexer.addText
  split
  · rename_i run hrun
    rintro longer hlonger more
    obtain rfl := Option.some.inj hlonger
    have hrest := h run hrun (ds ++ d :: more)
    rw [← List.cons_append, hspells more] at hrest
    simpa [TextRun.source] using hrest
  · rintro run hrun more
    obtain rfl := Option.some.inj hrun
    simpa [TextRun.source] using hspells more

/-- A line break is left over or goes behind the run, and makes everything behind it plain. -/
theorem Settled.addBreak (h : l.Settled cs) (hc : IsBreak c) :
    (l.addBreak c).Settled (cs ++ [c]) ∧ ∀ d, (l.addBreak c).Ready d := by
  unfold Lexer.addBreak
  cases h with
  | between hrun h =>
    simp only [hrun, Option.map_none]
    exact ⟨.between rfl (h.lineBreak hc), ready_of_none rfl⟩
  | @inText cs run hrun h hstands =>
    have hbreaks : ∀ d ∈ c :: run.breaks, IsBreak d :=
      List.forall_mem_cons.mpr ⟨hc, hstands.breaks⟩
    have hstands' : TextRun.Stands { run with breaks := c :: run.breaks } cs :=
      ⟨hstands.start, hstands.literal, hbreaks, hstands.spells⟩
    simp only [hrun, Option.map_some]
    refine ⟨?_, ?_⟩
    · simpa [TextRun.source] using Settled.inText (l := { l with run := some _ }) rfl h hstands'
    · rintro d longer hlonger more
      obtain rfl := Option.some.inj hlonger
      exact hstands.spells.append_breaks (fun d hd => hbreaks d (List.mem_reverse.mp hd))
        (by simp) (d :: more)

/-- The run becomes a token. -/
theorem Settled.endRun (h : l.Settled cs) : Tiles cs l.endRun.tokens.toList := by
  unfold Lexer.endRun
  cases h with
  | between hrun h => simpa only [hrun] using h
  | @inText cs run hrun h hstands =>
    simp only [hrun, Array.toList_push]
    obtain ⟨first, more, hliteral⟩ := List.exists_cons_of_ne_nil
      (List.reverse_ne_nil_iff.mpr hstands.literal)
    have htoken : Tiles (cs ++ [] ++ run.token.literal.toList) (l.tokens.toList ++ [run.token]) := by
      refine h.token ⟨first, more, ?_, .inl rfl⟩ ?_ ?_
      · simpa [TextRun.token] using hliteral
      · rw [List.append_nil]
        exact hstands.start
      · rintro content ⟨⟩
        simpa [TextRun.token] using hstands.spells.plain_eq.symm
    have hbreaks : ∀ c ∈ run.breaks.reverse, IsBreak c := by simpa using hstands.breaks
    have hall := htoken.lineBreaks hbreaks
    simpa [TextRun.token, TextRun.source] using hall

/-! ### What is being read -/

/-- A token that starts at `start` is being read, behind this much of its literal. -/
structure Opened (l : Lexer) (start : Position) (literal : String) (done : List Char) : Prop where
  run : l.run = none
  place : ∃ cs blanks, done = cs ++ blanks ++ literal.toList ∧ Tiles cs l.tokens.toList ∧
    Opens cs blanks literal.toList ∧ start = Position.after {} (cs ++ blanks)

/-- What has been read is as the mode says. -/
inductive Holds (l : Lexer) : List Char → Prop
  | text {cs : List Char} (hmode : l.mode = .text) (h : l.Settled cs) (hready : ∀ c, l.Ready c) :
      Holds l cs
  | lineStart {cs : List Char} {start : Position} {blanks : String}
      (hmode : l.mode = .lineStart start blanks) (h : l.Settled cs) (hready : ∀ c, l.Ready c)
      (hline : AtLineStart cs) (hblanks : ∀ b ∈ blanks.toList, IsIndent b)
      (hstart : start = Position.after {} cs) : Holds l (cs ++ blanks.toList)
  | escape {cs : List Char} {start : Position} (hmode : l.mode = .escape start)
      (h : l.Settled cs) (hready : l.Ready '\\') (hstart : start = Position.after {} cs) :
      Holds l (cs ++ ['\\'])
  | label {done : List Char} {start : Position} {name literal : String}
      (hmode : l.mode = .label start name literal) (h : l.Opened start literal done) : Holds l done
  | headline {done : List Char} {start : Position} {name headline literal : String}
      (hmode : l.mode = .headline start name headline literal) (h : l.Opened start literal done) :
      Holds l done
  | tag {done : List Char} {tag : OpenTag} {part : TagPart} (hmode : l.mode = .tag tag part)
      (h : l.Opened tag.start tag.literal done) : Holds l done

/-- The place of the next character makes no difference. -/
theorem Holds.moveTo (h : l.Holds cs) (p : Position) : Holds { l with position := p } cs := by
  cases h with
  | text hmode h hready => exact .text hmode (h.congr rfl rfl) hready
  | lineStart hmode h hready hline hblanks hstart =>
    exact .lineStart hmode (h.congr rfl rfl) hready hline hblanks hstart
  | escape hmode h hready hstart => exact .escape hmode (h.congr rfl rfl) hready hstart
  | label hmode h => exact .label hmode ⟨h.run, h.place⟩
  | headline hmode h => exact .headline hmode ⟨h.run, h.place⟩
  | tag hmode h => exact .tag hmode ⟨h.run, h.place⟩

/-! ### One character of text -/

/-- A token begins where the run ends. -/
theorem Settled.opened (h : l.Settled cs) (blanks literal : String)
    (hopens : Opens cs blanks.toList literal.toList)
    (hstart : start = Position.after {} (cs ++ blanks.toList)) :
    l.endRun.Opened start literal (cs ++ blanks.toList ++ literal.toList) := by
  refine ⟨?_, cs, blanks.toList, rfl, h.endRun, hopens, hstart⟩
  unfold Lexer.endRun
  split
  · rfl
  · assumption

/-- A character of text is read where the text before it is ready for it. -/
theorem Settled.readText (h : l.Settled cs) (hready : l.Ready c)
    (hposition : l.position = Position.after {} cs) : (l.readText c).Holds (cs ++ [c]) := by
  unfold Lexer.readText
  by_cases hfeed : c = '\n'
  · subst hfeed
    obtain ⟨hbreak, hready'⟩ := h.addBreak (.inl rfl)
    let next : Lexer := { l.addBreak '\n' with mode := .lineStart (l.position.next '\n') "" }
    have hline : next.Holds (cs ++ ['\n'] ++ "".toList) :=
      .lineStart rfl (hbreak.congr rfl rfl) hready' (.inr (by simp)) (by simp)
        (by simp [hposition, Position.after_append])
    rw [if_pos rfl]
    simpa using hline
  by_cases hreturn : c = '\r'
  · subst hreturn
    obtain ⟨hbreak, hready'⟩ := h.addBreak (.inr rfl)
    rw [if_neg hfeed, if_pos rfl]
    exact .text rfl (hbreak.congr rfl rfl) hready'
  by_cases hslash : c = '\\'
  · subst hslash
    rw [if_neg hfeed, if_neg hreturn, if_pos rfl]
    exact .escape rfl (h.congr rfl rfl) hready hposition
  rw [if_neg hfeed, if_neg hreturn, if_neg hslash]
  by_cases hopen : c = '['
  · subst hopen
    have htag := h.opened "" "[" ⟨'[', [], rfl, .inl rfl⟩
      (by simpa using hposition)
    rw [if_pos rfl]
    exact .tag rfl ⟨htag.run, by simpa using htag.place⟩
  · have hsingle := spells_single ⟨hfeed, hreturn, hslash⟩
    rw [if_neg hopen]
    exact .text rfl ((h.addText hready hposition hsingle.alone).congr rfl rfl)
      fun d => hready.addText l.position fun more => hsingle (d :: more)

/-- The blanks that a line begins with are text. -/
theorem Settled.addBlanks (h : l.Settled cs) (hready : ∀ c, l.Ready c) {blanks : String}
    (hblanks : ∀ b ∈ blanks.toList, IsIndent b) (hstart : start = Position.after {} cs) :
    (l.addBlanks blanks start).Settled (cs ++ blanks.toList) ∧
      ∀ c, (l.addBlanks blanks start).Ready c := by
  have hspells := spells_blanks hblanks
  unfold Lexer.addBlanks
  by_cases hempty : blanks.isEmpty
  · obtain rfl := String.isEmpty_iff.mp hempty
    rw [if_pos hempty, String.toList_empty, List.append_nil]
    exact ⟨h, hready⟩
  · rw [if_neg hempty]
    cases hchars : blanks.toList with
    | nil => exact absurd (String.isEmpty_iff.mpr (String.toList_eq_nil_iff.mp hchars)) hempty
    | cons b bs =>
      rw [hchars] at hspells
      exact ⟨h.addText (hready b) hstart hspells.alone,
        fun c => (hready b).addText start fun more => hspells (c :: more)⟩

@[simp] theorem position_addText (content literal : List Char) (start : Position) (l : Lexer) :
    (l.addText content literal start).position = l.position := by
  unfold addText
  split <;> rfl

@[simp] theorem position_addBlanks (blanks : String) (start : Position) (l : Lexer) :
    (l.addBlanks blanks start).position = l.position := by
  unfold addBlanks
  split
  · rfl
  · exact position_addText ..

/-- The blanks that a line begins with are read, and what they turn out to be behind them. -/
theorem Settled.readLineStart (h : l.Settled cs) (hready : ∀ c, l.Ready c) {blanks : String}
    (hline : AtLineStart cs) (hblanks : ∀ b ∈ blanks.toList, IsIndent b)
    (hstart : start = Position.after {} cs)
    (hposition : l.position = Position.after {} (cs ++ blanks.toList)) (c : Char) :
    (l.readLineStart start blanks c).Holds (cs ++ blanks.toList ++ [c]) := by
  unfold Lexer.readLineStart
  by_cases hblank : c = ' ' || c = '\t'
  · have hindent : ∀ b ∈ (blanks.push c).toList, IsIndent b := by
      rw [String.toList_push]
      exact List.forall_mem_append.mpr ⟨hblanks, by simpa [IsIndent] using hblank⟩
    rw [if_pos hblank]
    simpa [List.append_assoc] using Holds.lineStart
      (l := { l with mode := .lineStart start (blanks.push c) }) rfl (h.congr rfl rfl) hready hline
      hindent hstart
  rw [if_neg hblank]
  by_cases hcolon : c = ':'
  · subst hcolon
    have hlabel := h.opened blanks ":" ⟨':', [], rfl, .inr ⟨hline, hblanks, .inl rfl⟩⟩ hposition
    rw [if_pos rfl]
    exact .label rfl ⟨hlabel.run, hlabel.place⟩
  rw [if_neg hcolon]
  by_cases hat : c = '@'
  · subst hat
    have htag := h.opened blanks "@" ⟨'@', [], rfl, .inr ⟨hline, hblanks, .inr rfl⟩⟩ hposition
    rw [if_pos rfl]
    exact .tag rfl ⟨htag.run, htag.place⟩
  rw [if_neg hat]
  obtain ⟨hsettled, hready⟩ := h.addBlanks hready hblanks hstart
  exact hsettled.readText (hready c) (by simpa using hposition)

/-- Behind a backslash, a character with a meaning of its own is text; any other is read as if the
backslash were text. -/
theorem Settled.readEscape (h : l.Settled cs) (hready : l.Ready '\\')
    (hstart : start = Position.after {} cs)
    (hposition : l.position = Position.after {} (cs ++ ['\\'])) (c : Char) :
    (l.readEscape start c).Holds (cs ++ ['\\'] ++ [c]) := by
  unfold Lexer.readEscape
  by_cases hc : isEscapable c = true
  · have hspells := spells_escaped hc
    rw [if_pos hc, List.append_assoc]
    exact .text rfl ((h.addText hready hstart hspells.alone).congr rfl rfl)
      fun d => hready.addText start fun more => hspells (d :: more)
  · have hplain : ∀ more, plain ('\\' :: c :: more) = ['\\'] ++ plain (c :: more) :=
      fun more => plain_backslash (by simpa using hc)
    rw [if_neg hc]
    exact (h.addText hready hstart spellsAlone_backslash).readText
      (hready.addText start hplain) (by simpa using hposition)

/-! ### One character of a label or of a tag -/

section

variable {done : List Char} {tag : OpenTag} {name headline value literal : String}

/-- The token goes on with one more character of its literal. -/
theorem Opened.push (h : l.Opened start literal done) (c : Char) :
    l.Opened start (literal.push c) (done ++ [c]) := by
  obtain ⟨hrun, cs, blanks, rfl, htiles, hopens, hstart⟩ := h
  refine ⟨hrun, cs, blanks, by simp, htiles, ?_, hstart⟩
  rw [String.toList_push]
  exact hopens.grow c

/-- What was being read becomes a token that is no text. -/
theorem Opened.close (h : l.Opened start literal done) {kind : TokenKind}
    (hkind : ∀ content, kind ≠ .text content) (hrun : next.run = l.run)
    (htokens : next.tokens = l.tokens.push ⟨kind, literal, start⟩) :
    next.Settled done ∧ ∀ c, next.Ready c := by
  obtain ⟨hnone, cs, blanks, rfl, htiles, hopens, hstart⟩ := h
  refine ⟨.between (hrun.trans hnone) ?_, ready_of_none (hrun.trans hnone)⟩
  rw [htokens, Array.toList_push]
  have hspelled : Token.IsSpelled ⟨kind, literal, start⟩ :=
    fun content hcontent => absurd hcontent (hkind content)
  exact htiles.token hopens hstart hspelled

theorem Opened.endLabel (h : l.Opened start literal done) (name headline : String) :
    (l.endLabel start name headline literal).Settled done ∧
      ∀ c, (l.endLabel start name headline literal).Ready c :=
  h.close (fun _ => TokenKind.noConfusion) rfl rfl

theorem Opened.endTag (h : l.Opened tag.start tag.literal done) :
    (l.endTag tag).Settled done ∧ ∀ c, (l.endTag tag).Ready c :=
  h.close (fun _ => TokenKind.noConfusion) rfl rfl

theorem Opened.readLabel (h : l.Opened start literal done)
    (hposition : l.position = Position.after {} done) (name : String) (c : Char) :
    (l.readLabel start name literal c).Holds (done ++ [c]) := by
  have hlonger := h.push c
  unfold Lexer.readLabel
  split
  · exact .headline rfl ⟨hlonger.run, hlonger.place⟩
  split
  · obtain ⟨hsettled, hready⟩ := h.endLabel name ""
    exact hsettled.readText (hready c) hposition
  · exact .label rfl ⟨hlonger.run, hlonger.place⟩

theorem Opened.readHeadline (h : l.Opened start literal done)
    (hposition : l.position = Position.after {} done) (name headline : String) (c : Char) :
    (l.readHeadline start name headline literal c).Holds (done ++ [c]) := by
  have hlonger := h.push c
  unfold Lexer.readHeadline
  split
  · obtain ⟨hsettled, hready⟩ := h.endLabel name headline
    exact hsettled.readText (hready c) hposition
  · exact .headline rfl ⟨hlonger.run, hlonger.place⟩

theorem Opened.goOn (h : l.Opened tag.start tag.literal done) {part : TagPart}
    (hnext : l.goOn tag c part = .ok next) : next.Holds (done ++ [c]) := by
  have hlonger := h.push c
  obtain rfl := Except.ok.inj hnext
  exact .tag rfl ⟨hlonger.run, hlonger.place⟩

theorem Opened.readAttribute (h : l.Opened tag.start tag.literal done)
    (hnext : l.readAttribute tag start name c = .ok next) : next.Holds (done ++ [c]) := by
  unfold Lexer.readAttribute at hnext
  split at hnext
  · exact h.goOn hnext
  split at hnext
  · cases hnext
  · exact h.goOn hnext

theorem Opened.readGap (h : l.Opened tag.start tag.literal done)
    (hposition : l.position = Position.after {} done) (hnext : l.readGap tag c = .ok next) :
    next.Holds (done ++ [c]) := by
  unfold Lexer.readGap at hnext
  split at hnext
  · exact h.goOn hnext
  split at hnext
  · obtain rfl := Except.ok.inj hnext
    have hlonger : l.Opened (tag.grow c).start (tag.grow c).literal (done ++ [c]) := h.push c
    obtain ⟨hsettled, hready⟩ := hlonger.endTag
    exact .text rfl hsettled hready
  split at hnext
  · obtain rfl := Except.ok.inj hnext
    obtain ⟨hsettled, hready⟩ := h.endTag
    exact hsettled.readText (hready c) hposition
  · exact h.readAttribute hnext

theorem Opened.readName (h : l.Opened tag.start tag.literal done)
    (hposition : l.position = Position.after {} done) (hnext : l.readName tag c = .ok next) :
    next.Holds (done ++ [c]) := by
  unfold Lexer.readName at hnext
  split at hnext
  · split at hnext
    · cases hnext
    · exact h.readGap hposition hnext
  · refine Opened.goOn ?_ hnext
    exact h

theorem Opened.readBareValue (h : l.Opened tag.start tag.literal done)
    (hposition : l.position = Position.after {} done)
    (hnext : l.readBareValue tag name value c = .ok next) : next.Holds (done ++ [c]) := by
  unfold Lexer.readBareValue at hnext
  split at hnext
  · refine Opened.readGap ?_ hposition hnext
    exact h
  · exact h.goOn hnext

theorem Opened.readQuotedValue (h : l.Opened tag.start tag.literal done)
    (hnext : l.readQuotedValue tag start name value c = .ok next) : next.Holds (done ++ [c]) := by
  unfold Lexer.readQuotedValue at hnext
  split at hnext
  · refine Opened.goOn ?_ hnext
    exact h
  split at hnext
  · exact h.goOn hnext
  · exact h.goOn hnext

theorem Opened.readTag (h : l.Opened tag.start tag.literal done)
    (hposition : l.position = Position.after {} done) {part : TagPart}
    (hnext : l.readTag tag part c = .ok next) : next.Holds (done ++ [c]) := by
  unfold Lexer.readTag at hnext
  cases part with
  | name => exact h.readName hposition hnext
  | gap => exact h.readGap hposition hnext
  | attributeName start name => exact h.readAttribute hnext
  | value name =>
    dsimp only at hnext
    split at hnext
    · exact h.goOn hnext
    · exact h.readBareValue hposition hnext
  | bareValue name value => exact h.readBareValue hposition hnext
  | quotedValue start name value => exact h.readQuotedValue hnext
  | escapedValue start name value =>
    dsimp only at hnext
    split at hnext
    · exact h.goOn hnext
    · exact h.readQuotedValue hnext

end

/-! ### Whole scripts -/

/-- What has been read is as the mode says behind one more character. -/
theorem Holds.readInMode {done : List Char} (h : l.Holds done)
    (hposition : l.position = Position.after {} done) (hnext : l.readInMode c = .ok next) :
    next.Holds (done ++ [c]) := by
  unfold Lexer.readInMode at hnext
  cases h with
  | text hmode h hready =>
    rw [hmode] at hnext
    obtain rfl := Except.ok.inj hnext
    exact h.readText (hready c) hposition
  | lineStart hmode h hready hline hblanks hstart =>
    rw [hmode] at hnext
    obtain rfl := Except.ok.inj hnext
    exact h.readLineStart hready hline hblanks hstart hposition c
  | escape hmode h hready hstart =>
    rw [hmode] at hnext
    obtain rfl := Except.ok.inj hnext
    exact h.readEscape hready hstart hposition c
  | label hmode h =>
    rw [hmode] at hnext
    obtain rfl := Except.ok.inj hnext
    exact h.readLabel hposition _ c
  | headline hmode h =>
    rw [hmode] at hnext
    obtain rfl := Except.ok.inj hnext
    exact h.readHeadline hposition _ _ c
  | tag hmode h =>
    rw [hmode] at hnext
    exact h.readTag hposition hnext

/-- What has been read is as the mode says behind any further characters that can be read. -/
theorem Holds.foldlM (h : l.Holds cs) (hposition : l.position = Position.after {} cs)
    (hnext : ds.foldlM Lexer.read l = .ok next) : next.Holds (cs ++ ds) := by
  induction ds generalizing l cs with
  | nil =>
    obtain rfl := Except.ok.inj hnext
    rwa [List.append_nil]
  | cons d ds ih =>
    rw [List.foldlM_cons] at hnext
    cases hread : l.readInMode d with
    | error e =>
      rw [Lexer.read, hread] at hnext
      cases hnext
    | ok mid =>
      rw [Lexer.read, hread] at hnext
      have hmid := (h.readInMode hposition hread).moveTo (l.position.next d)
      have hrest := ih hmid (by simp [hposition, Position.after_append]) hnext
      rwa [List.append_assoc] at hrest

theorem Opened.finishTag {tag : OpenTag} {done : List Char}
    (h : l.Opened tag.start tag.literal done) (hlast : l.finishTag tag = .ok next) :
    next.Settled done := by
  unfold Lexer.finishTag at hlast
  split at hlast
  · cases hlast
  · obtain rfl := Except.ok.inj hlast
    exact h.endTag.1

/-- What is being read at the end of the text is ended there. -/
theorem Holds.finishMode {done : List Char} (h : l.Holds done) (hlast : l.finishMode = .ok next) :
    next.Settled done := by
  unfold Lexer.finishMode at hlast
  cases h with
  | text hmode h hready =>
    rw [hmode] at hlast
    obtain rfl := Except.ok.inj hlast
    exact h
  | lineStart hmode h hready hline hblanks hstart =>
    rw [hmode] at hlast
    obtain rfl := Except.ok.inj hlast
    exact (h.addBlanks hready hblanks hstart).1
  | escape hmode h hready hstart =>
    rw [hmode] at hlast
    obtain rfl := Except.ok.inj hlast
    exact h.addText hready hstart spellsAlone_backslash
  | label hmode h | headline hmode h =>
    rw [hmode] at hlast
    obtain rfl := Except.ok.inj hlast
    exact (h.endLabel _ _).1
  | @tag done tag part hmode h =>
    rw [hmode] at hlast
    cases part with
    | name =>
      dsimp only at hlast
      split at hlast
      · cases hlast
      · exact h.finishTag hlast
    | gap => exact h.finishTag hlast
    | value | bareValue =>
      refine Opened.finishTag ?_ hlast
      exact h
    | attributeName | quotedValue | escapedValue => cases hlast

end Lexer

/-- Tokens and what is between them make up the whole of a script. -/
theorem tiles_tokens {source : String} (h : tokens source = .ok ts) : Tiles source.toList ts := by
  have hnothing : Lexer.Settled {} [] := .between rfl .nil
  have hstart : Lexer.Holds {} ([] ++ "".toList) :=
    .lineStart rfl hnothing (Lexer.ready_of_none rfl) (.inl rfl) (by simp) rfl
  unfold tokens at h
  cases hread : source.toList.foldlM Lexer.read {} with
  | error e =>
    rw [hread] at h
    cases h
  | ok l =>
    rw [hread] at h
    have hall := hstart.foldlM rfl hread
    change l.finish = .ok ts at h
    unfold Lexer.finish at h
    cases hlast : l.finishMode with
    | error e =>
      rw [hlast] at h
      cases h
    | ok last =>
      rw [hlast] at h
      obtain rfl := Except.ok.inj h
      exact (hall.finishMode hlast).endRun

/-- **No character of a script is lost.** Wherever a script can be read, its tokens cover it. -/
theorem covered_of_tokens {source : String} (h : tokens source = .ok ts) : Covered source ts :=
  (tiles_tokens h).covered

/-- The text, the label and the tag of the script below. -/
def coveredExample : List Token :=
  [⟨.text " é:x", " é\\:\nx", ⟨0, 1, 1⟩⟩, ⟨.label "ü" "y", ":ü| y", ⟨10, 3, 2⟩⟩,
    ⟨.tag ⟨"b", [⟨"k", "]"⟩]⟩, "[b k=\"]\"]", ⟨17, 4, 1⟩⟩]

/-- A text over two lines, a label behind a tabulator, and a tag with a bracket in quotes. -/
theorem covered_of_tokens_textLabelTag :
    tokens " é\\:\nx\r\n\t:ü| y\n[b k=\"]\"]" = .ok coveredExample ∧
      Covered " é\\:\nx\r\n\t:ü| y\n[b k=\"]\"]" coveredExample := by
  have htokens : tokens " é\\:\nx\r\n\t:ü| y\n[b k=\"]\"]" = .ok coveredExample := rfl
  exact ⟨htokens, covered_of_tokens htokens⟩

end NovelScript.Script
