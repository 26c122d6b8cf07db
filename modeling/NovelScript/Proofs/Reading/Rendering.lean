import Mathlib.Data.List.Chain
import NovelScript.Script.Token.Lexer

/-!
Script text written out from tokens. A text has a backslash before every character with a meaning
of its own, a label has a line of its own, and a tag stands in brackets with its values in quotes.
Main statement: what is read of the text written is the tokens it was written from.
-/

namespace NovelScript.Script

/-! ### Tokens as text -/

/-- Text with a backslash before every character with a meaning of its own. -/
def escapeText (cs : List Char) : List Char :=
  cs.flatMap fun c => if c ∈ ['[', ']', '\\', '@', ':'] then ['\\', c] else [c]

/-- The inside of a quoted value. -/
def escapeValue (cs : List Char) : List Char :=
  cs.flatMap fun c => if c = '"' ∨ c = '\\' then ['\\', c] else [c]

/-- An attribute behind a blank, with its value in quotes. -/
def Attribute.render (a : Attribute) : List Char :=
  [' '] ++ a.name.toList ++ ['=', '"'] ++ escapeValue a.value.toList ++ ['"']

namespace TokenKind

/-- A token as text. -/
def render : TokenKind → List Char
  | text content => escapeText content.toList
  | label name headline => ['\n', ':'] ++ name.toList ++ ['|'] ++ headline.toList ++ ['\n']
  | tag t => ['['] ++ t.name.toList ++ t.attributes.flatMap Attribute.render ++ [']']

/-- Whether a token is text. -/
def isText : TokenKind → Bool
  | text _ => true
  | _ => false

/-- What can be written so that it is read again: text that is not empty and has no line breaks,
labels with a name that ends behind itself, and tags with names that do. -/
def isWritable : TokenKind → Bool
  | text content => content ≠ "" && content.toList.all fun c => c ≠ '\n' && c ≠ '\r'
  | label name headline =>
    (name.toList.all fun c => c ∉ [' ', '\t', '[', '|', '\n', '\r']) &&
      Text.trim headline = headline && '\n' ∉ headline.toList
  | tag t =>
    t.name ≠ "" && (t.name.toList.all fun c => !Text.isBlank c && c ≠ '[' && c ≠ ']') &&
      t.attributes.all fun a => a.name.toList.all fun c => !Text.isBlank c && c ≠ '=' && c ≠ ']'

theorem isWritable_text {content : String} :
    (text content).isWritable ↔ content ≠ "" ∧ ∀ c ∈ content.toList, c ≠ '\n' ∧ c ≠ '\r' := by
  simp [isWritable]

theorem isWritable_label {name headline : String} :
    (label name headline).isWritable ↔
      (∀ c ∈ name.toList, c ∉ [' ', '\t', '[', '|', '\n', '\r']) ∧
        Text.trim headline = headline ∧ '\n' ∉ headline.toList := by
  simp [isWritable, and_assoc]

theorem isWritable_tag {t : Tag} :
    (tag t).isWritable ↔
      t.name ≠ "" ∧ (∀ c ∈ t.name.toList, Text.isBlank c = false ∧ c ≠ '[' ∧ c ≠ ']') ∧
        ∀ a ∈ t.attributes, ∀ c ∈ a.name.toList,
          Text.isBlank c = false ∧ c ≠ '=' ∧ c ≠ ']' := by
  simp [isWritable, and_assoc]

end TokenKind

/-- Tokens as text, one behind the other. -/
def render (kinds : List TokenKind) : String := String.ofList (kinds.flatMap TokenKind.render)

namespace Lexer

variable {l next : Lexer} {P Q : Lexer → Prop} {done : List TokenKind} {cs ds : List Char}
  {c : Char}

/-! ### Reading several characters -/

/-- The characters can be read, and what has been read then is as said. -/
def After (l : Lexer) (cs : List Char) (P : Lexer → Prop) : Prop :=
  ∃ l', cs.foldlM read l = .ok l' ∧ P l'

theorem After.append (h : l.After cs P) (h' : ∀ l', P l' → l'.After ds Q) :
    l.After (cs ++ ds) Q := by
  obtain ⟨between, hcs, hbetween⟩ := h
  obtain ⟨last, hds, hlast⟩ := h' between hbetween
  refine ⟨last, ?_, hlast⟩
  rw [List.foldlM_append, hcs]
  exact hds

theorem after_nil (h : P l) : l.After [] P := ⟨l, rfl, h⟩

theorem after_cons (hread : l.readInMode c = .ok next)
    (h : After { next with position := l.position.next c } cs P) : l.After (c :: cs) P := by
  obtain ⟨last, hcs, hlast⟩ := h
  refine ⟨last, ?_, hlast⟩
  rw [List.foldlM_cons, read, hread]
  exact hcs

theorem after_single (hread : l.readInMode c = .ok next)
    (h : P { next with position := l.position.next c }) : l.After [c] P :=
  after_cons hread (after_nil h)

theorem push_append_ofList (s : String) (c : Char) (cs : List Char) :
    s.push c ++ String.ofList cs = s ++ String.ofList (c :: cs) := by
  rw [← String.toList_inj]
  simp

/-- Where the text of a character adds it to a string, the text of all of them adds them all. -/
theorem After.pieces {R : String → Lexer → Prop} (piece : Char → List Char)
    (hpiece : ∀ c ∈ cs, ∀ s l, R s l → l.After (piece c) (R (s.push c))) :
    ∀ {s : String} {l : Lexer}, R s l →
      l.After (cs.flatMap piece) (R (s ++ String.ofList cs)) := by
  induction cs with
  | nil => exact fun h => after_nil (by simpa using h)
  | cons c cs ih =>
    intro s l h
    obtain ⟨hc, hrest⟩ := List.forall_mem_cons.mp hpiece
    refine (hc s l h).append fun l' h' => ?_
    rw [← push_append_ofList]
    exact ih hrest h'

theorem After.chars {R : String → Lexer → Prop} {s : String}
    (hchar : ∀ c ∈ cs, ∀ s l, R s l → l.After [c] (R (s.push c))) (h : R s l) :
    l.After cs (R (s ++ String.ofList cs)) := by
  have hall := After.pieces (fun c => [c]) hchar h
  rwa [List.flatMap_singleton'] at hall

/-- The tokens that have been read, places aside. -/
def kinds (l : Lexer) : List TokenKind := l.tokens.toList.map Token.kind

/-! ### Text -/

/-- The text that has been read and is no token yet. -/
def runText (l : Lexer) : List Char := (l.run.map fun run => run.content.reverse).getD []

/-- No run of text is empty. -/
def Sound (l : Lexer) : Prop := ∀ run, l.run = some run → run.content ≠ []

/-- The token that a text is, if there is any text. -/
def textKinds (cs : List Char) : List TokenKind :=
  if cs = [] then [] else [.text (String.ofList cs)]

theorem kinds_endRun (h : l.Sound) : l.endRun.kinds = l.kinds ++ textKinds l.runText := by
  unfold endRun runText
  split
  · rename_i run hrun
    have hcontent := h run hrun
    simp [kinds, hrun, textKinds, hcontent, TextRun.token]
  · rename_i hrun
    simp [kinds, hrun, textKinds]

@[simp] theorem run_endRun (l : Lexer) : l.endRun.run = none := by
  unfold endRun
  split
  · rfl
  · assumption

@[simp] theorem kinds_addText (content literal : List Char) (start : Position) (l : Lexer) :
    (l.addText content literal start).kinds = l.kinds := by
  unfold addText
  split <;> rfl

@[simp] theorem runText_addText (content literal : List Char) (start : Position) (l : Lexer) :
    (l.addText content literal start).runText = l.runText ++ content := by
  unfold addText
  split <;> simp [runText, *]

theorem sound_addText (hcontent : cs ≠ []) (literal : List Char) (start : Position) (l : Lexer) :
    (l.addText cs literal start).Sound := by
  unfold Lexer.addText
  split
  · rintro run heq
    obtain rfl := Option.some.inj heq
    simp [hcontent]
  · rintro run heq
    obtain rfl := Option.some.inj heq
    simpa using hcontent

@[simp] theorem kinds_addBlanks (blanks : String) (start : Position) (l : Lexer) :
    (l.addBlanks blanks start).kinds = l.kinds := by
  unfold addBlanks
  split <;> simp

@[simp] theorem runText_addBlanks (blanks : String) (start : Position) (l : Lexer) :
    (l.addBlanks blanks start).runText = l.runText ++ blanks.toList := by
  unfold addBlanks
  split
  · rename_i h
    simp [String.isEmpty_iff.mp h]
  · simp

theorem Sound.addBlanks (h : l.Sound) (blanks : String) (start : Position) :
    (l.addBlanks blanks start).Sound := by
  unfold Lexer.addBlanks
  split
  · exact h
  · rename_i hblanks
    exact sound_addText (by simpa using hblanks) _ _ _

@[simp] theorem runText_addBreak (c : Char) (l : Lexer) : (l.addBreak c).runText = l.runText := by
  simp [runText, addBreak, Function.comp_def]

theorem Sound.addBreak (h : l.Sound) (c : Char) : (l.addBreak c).Sound := by
  intro run heq
  obtain ⟨old, hold, rfl⟩ := Option.map_eq_some_iff.mp heq
  exact h old hold

/-- Between two tokens: some have been read, and perhaps text that is no token yet. -/
structure Between (l : Lexer) (done : List TokenKind) (cs : List Char) : Prop where
  sound : l.Sound
  kinds : l.kinds = done
  mode : l.mode = .text ∧ l.runText = cs ∨
    ∃ start blanks, l.mode = .lineStart start blanks ∧ l.runText ++ blanks.toList = cs

/-- Inside of a line, and where neither a label nor a tag line begins, what is read is text. -/
theorem Between.settle (h : l.Between done cs)
    (hc : l.mode = .text ∨ c ∉ [' ', '\t', ':', '@']) :
    ∃ settled : Lexer, settled.Sound ∧ settled.kinds = done ∧ settled.runText = cs ∧
      l.readInMode c = .ok (settled.readText c) := by
  rcases h.mode with ⟨hmode, htext⟩ | ⟨start, blanks, hmode, htext⟩
  · exact ⟨l, h.sound, h.kinds, htext, by simp [readInMode, hmode]⟩
  · rcases hc with hline | hc
    · rw [hmode] at hline
      cases hline
    · simp only [List.mem_cons, List.not_mem_nil, or_false, not_or] at hc
      obtain ⟨hspace, htab, hcolon, hat⟩ := hc
      refine ⟨l.addBlanks blanks start, h.sound.addBlanks _ _, by simp [h.kinds],
        by simp [htext], ?_⟩
      simp [readInMode, hmode, readLineStart, hspace, htab, hcolon, hat]

theorem Between.plain (h : l.Between done cs) (hc : c ∉ ['[', ']', '\\', '@', ':', '\n', '\r']) :
    l.After [c] fun l' => l'.Between done (cs ++ [c]) := by
  simp only [List.mem_cons, List.not_mem_nil, or_false, not_or] at hc
  by_cases hline : l.mode = .text ∨ c ∉ [' ', '\t', ':', '@']
  · obtain ⟨settled, -, hkinds, htext, hread⟩ := h.settle hline
    refine after_single hread ?_
    simp only [readText, hc, if_false]
    exact ⟨sound_addText (by simp) _ _ settled, (kinds_addText _ _ _ settled).trans hkinds,
      .inl ⟨rfl, (runText_addText _ _ _ settled).trans (by rw [htext])⟩⟩
  · -- a blank at the start of a line may stand before a label
    obtain ⟨hmode, hmem⟩ := not_or.mp hline
    have hblank : c = ' ' ∨ c = '\t' := by simp_all [Decidable.or_iff_not_imp_left]
    rcases h.mode with ⟨htext, -⟩ | ⟨start, blanks, hstart, htext⟩
    · exact absurd htext hmode
    · refine after_single (by simp [readInMode, hstart, readLineStart, hblank]; rfl) ?_
      refine ⟨h.sound, h.kinds, .inr ⟨start, blanks.push c, rfl, ?_⟩⟩
      rw [String.toList_push, ← List.append_assoc]
      exact congrArg (· ++ [c]) htext

theorem Between.escaped (h : l.Between done cs) (hc : c ∈ ['[', ']', '\\', '@', ':']) :
    l.After ['\\', c] fun l' => l'.Between done (cs ++ [c]) := by
  obtain ⟨settled, -, hkinds, htext, hread⟩ := h.settle (c := '\\') (.inr (by decide))
  have hescapable : isEscapable c = true := by simpa [isEscapable, or_assoc] using hc
  refine after_cons hread (after_single
    (by simp [readText, readInMode, readEscape, hescapable]; rfl) ?_)
  exact ⟨sound_addText (by simp) _ _ _, (kinds_addText _ _ _ _).trans hkinds,
    .inl ⟨rfl, (runText_addText _ _ _ _).trans (by rw [← htext]; rfl)⟩⟩

theorem Between.text (hds : ∀ c ∈ ds, c ≠ '\n' ∧ c ≠ '\r') (h : l.Between done cs) :
    l.After (escapeText ds) fun l' => l'.Between done (cs ++ ds) := by
  have hpiece : ∀ c ∈ ds, ∀ (s : String) (l : Lexer), l.Between done (cs ++ s.toList) →
      l.After (if c ∈ ['[', ']', '\\', '@', ':'] then ['\\', c] else [c])
        fun l' => l'.Between done (cs ++ (s.push c).toList) := by
    intro c hc s l h
    have hbreak := hds c hc
    rw [String.toList_push, ← List.append_assoc]
    split
    · exact h.escaped ‹_›
    · exact h.plain (by simp_all)
  have hall := After.pieces (R := fun s l => l.Between done (cs ++ s.toList)) _ hpiece
    (s := "") (by simpa using h)
  simpa [escapeText] using hall

/-! ### Labels -/

/-- All text has become tokens, and something else is being read. -/
structure Inside (l : Lexer) (done : List TokenKind) (mode : Mode → Prop) : Prop where
  kinds : l.kinds = done
  run : l.run = none
  mode : mode l.mode

/-- A label is being read, behind this much of its name. -/
def IsLabel (name : String) (m : Mode) : Prop := ∃ start literal, m = .label start name literal

/-- A label is being read, behind this much of its headline. -/
def IsHeadline (name headline : String) (m : Mode) : Prop :=
  ∃ start literal, m = .headline start name headline literal

theorem Inside.labelName (hds : ∀ c ∈ ds, c ∉ [' ', '\t', '[', '|', '\n', '\r']) {name : String}
    (h : l.Inside done (IsLabel name)) :
    l.After ds fun l' => l'.Inside done (IsLabel (name ++ String.ofList ds)) := by
  refine After.chars (R := fun name l => l.Inside done (IsLabel name)) ?_ h
  rintro c hc name l ⟨hkinds, hrun, start, literal, hmode⟩
  have hplain := hds c hc
  simp only [List.mem_cons, List.not_mem_nil, or_false, not_or] at hplain
  refine after_single (by simp [readInMode, hmode, readLabel, hplain]; rfl) ?_
  exact ⟨hkinds, hrun, _, _, rfl⟩

theorem Inside.headline {name headline : String} (hds : '\n' ∉ ds)
    (h : l.Inside done (IsHeadline name headline)) :
    l.After ds fun l' => l'.Inside done (IsHeadline name (headline ++ String.ofList ds)) := by
  refine After.chars (R := fun headline l => l.Inside done (IsHeadline name headline)) ?_ h
  rintro c hc headline l ⟨hkinds, hrun, start, literal, hmode⟩
  have hplain : c ≠ '\n' := fun heq => hds (heq ▸ hc)
  refine after_single (by simp [readInMode, hmode, readHeadline, hplain]; rfl) ?_
  exact ⟨hkinds, hrun, _, _, rfl⟩

theorem Between.lineBreak (h : l.Between done cs) :
    l.After ['\n'] fun l' => l'.Between done cs ∧ l'.runText = cs ∧
      ∃ start, l'.mode = .lineStart start "" := by
  obtain ⟨settled, hsound, hkinds, htext, hread⟩ := h.settle (c := '\n') (.inr (by decide))
  have hbroken : (settled.addBreak '\n').runText = cs := by rw [runText_addBreak, htext]
  refine after_single hread ⟨⟨hsound.addBreak _, hkinds, .inr ⟨_, "", rfl, ?_⟩⟩, hbroken, _, rfl⟩
  exact (List.append_nil _).trans hbroken

theorem Between.label {name headline : String} (h : l.Between done cs)
    (hw : (TokenKind.label name headline).isWritable) :
    l.After (TokenKind.label name headline).render fun l' =>
      l'.Between (done ++ textKinds cs ++ [.label name headline]) [] := by
  obtain ⟨hname, htrim, hheadline⟩ := TokenKind.isWritable_label.mp hw
  have hcolon : ∀ l' : Lexer, (l'.Between done cs ∧ l'.runText = cs ∧
      ∃ start, l'.mode = .lineStart start "") →
      l'.After [':'] fun l' => l'.Inside (done ++ textKinds cs) (IsLabel "") := by
    rintro l' ⟨h', htext, start, hmode⟩
    refine after_single (by simp [readInMode, hmode, readLineStart]; rfl) ?_
    exact ⟨(kinds_endRun h'.sound).trans (by rw [h'.kinds, htext]), rfl, _, _, rfl⟩
  have hbar : ∀ l' : Lexer, l'.Inside (done ++ textKinds cs) (IsLabel name) →
      l'.After ['|'] fun l' => l'.Inside (done ++ textKinds cs) (IsHeadline name "") := by
    rintro l' ⟨hkinds, hrun, start, literal, hmode⟩
    refine after_single (by simp [readInMode, hmode, readLabel]; rfl) ?_
    exact ⟨hkinds, hrun, _, _, rfl⟩
  have hend : ∀ l' : Lexer, l'.Inside (done ++ textKinds cs) (IsHeadline name headline) →
      l'.After ['\n'] fun l' => l'.Between (done ++ textKinds cs ++ [.label name headline]) [] := by
    rintro l' ⟨hkinds, hrun, start, literal, hmode⟩
    refine after_single (by simp [readInMode, hmode, readHeadline, readText]; rfl) ?_
    refine ⟨?_, ?_, .inr ⟨_, "", rfl, ?_⟩⟩
    · simp [Sound, endLabel, addBreak, hrun]
    · simp [Lexer.kinds, endLabel, addBreak, ← hkinds, htrim]
    · simp [runText, endLabel, addBreak, hrun]
  refine ((((h.lineBreak.append hcolon).append fun l' h' => ?_).append hbar).append
    fun l' h' => ?_).append hend
  · simpa using Inside.labelName hname h'
  · simpa using Inside.headline hheadline h'

/-! ### Tags -/

/-- A tag in brackets is being read: its name and attributes so far, and the part it is at. -/
def IsTag (name : String) (known : List Attribute) (here : TagPart → Prop) (m : Mode) : Prop :=
  ∃ tag part, m = .tag tag part ∧ here part ∧
    tag.style = .bracket ∧ tag.name = name ∧ tag.attributes.toList = known

/-- Where an attribute or the end of the tag may follow. -/
def IsGap (part : TagPart) : Prop := part = .name ∨ part = .gap

/-- Behind this much of the name of an attribute. -/
def IsAttribute (name : String) (part : TagPart) : Prop :=
  (∃ start, part = .attributeName start name) ∨ part = .gap ∧ name = ""

/-- Behind this much of a quoted value. -/
def IsQuoted (name value : String) (part : TagPart) : Prop :=
  ∃ start, part = .quotedValue start name value

theorem Inside.tagName {name : String}
    (hds : ∀ c ∈ ds, Text.isBlank c = false ∧ c ≠ '[' ∧ c ≠ ']')
    (h : l.Inside done (IsTag name [] (· = .name))) :
    l.After ds fun l' => l'.Inside done (IsTag (name ++ String.ofList ds) [] (· = .name)) := by
  refine After.chars (R := fun name l => l.Inside done (IsTag name [] (· = .name))) ?_ h
  rintro c hc name l ⟨hkinds, hrun, tag, part, hmode, rfl, hstyle, rfl, hattributes⟩
  have hplain := hds c hc
  refine after_single (by simp [readInMode, hmode, readTag, readName, hplain]; rfl) ?_
  exact ⟨hkinds, hrun, _, _, rfl, rfl, hstyle, rfl, hattributes⟩

variable {name : String} {known : List Attribute}

theorem Inside.attributeName {key : String}
    (hds : ∀ c ∈ ds, Text.isBlank c = false ∧ c ≠ '=' ∧ c ≠ ']')
    (h : l.Inside done (IsTag name known (IsAttribute key))) :
    l.After ds fun l' =>
      l'.Inside done (IsTag name known (IsAttribute (key ++ String.ofList ds))) := by
  refine After.chars (R := fun key l => l.Inside done (IsTag name known (IsAttribute key))) ?_ h
  rintro c hc key l ⟨hkinds, hrun, tag, part, hmode, hpart, hstyle, hname, hattributes⟩
  have hplain := hds c hc
  have hread : ∃ start, l.readInMode c = l.goOn tag c (.attributeName start (key.push c)) := by
    rcases hpart with ⟨start, rfl⟩ | ⟨rfl, rfl⟩
    · exact ⟨start, by simp [readInMode, hmode, readTag, readAttribute, hplain]⟩
    · exact ⟨l.position, by
        simp [readInMode, hmode, readTag, readGap, readAttribute, OpenTag.isGap, hstyle, hplain]⟩
  obtain ⟨start, hread⟩ := hread
  refine after_single hread ?_
  exact ⟨hkinds, hrun, _, _, rfl, .inl ⟨start, rfl⟩, hstyle, hname, hattributes⟩

theorem Inside.quotedValue {key value : String} (ds : List Char)
    (h : l.Inside done (IsTag name known (IsQuoted key value))) :
    l.After (escapeValue ds) fun l' =>
      l'.Inside done (IsTag name known (IsQuoted key (value ++ String.ofList ds))) := by
  refine After.pieces (R := fun value l => l.Inside done (IsTag name known (IsQuoted key value)))
    _ ?_ h
  rintro c - value l ⟨hkinds, hrun, tag, part, hmode, ⟨start, rfl⟩, hstyle, hname, hattributes⟩
  split
  · rename_i hc
    refine after_cons (by simp [readInMode, hmode, readTag, readQuotedValue]; rfl)
      (after_single (by simp [readInMode, goOn, readTag, hc]; rfl) ?_)
    exact ⟨hkinds, hrun, _, _, rfl, ⟨_, rfl⟩, hstyle, hname, hattributes⟩
  · rename_i hc
    obtain ⟨hquote, hbackslash⟩ := not_or.mp hc
    refine after_single
      (by simp [readInMode, hmode, readTag, readQuotedValue, hquote, hbackslash]; rfl) ?_
    exact ⟨hkinds, hrun, _, _, rfl, ⟨_, rfl⟩, hstyle, hname, hattributes⟩

/-- Behind the name of a tag a blank or the bracket is read as between two attributes. -/
theorem readTag_of_isGap {tag : OpenTag} {part : TagPart} (hpart : IsGap part)
    (hname : tag.name ≠ "") (hc : Text.isBlank c = true ∨ c = ']') :
    l.readTag tag part c = l.readGap tag c := by
  rcases hpart with rfl | rfl
  · simp only [readTag, readName, String.isEmpty_iff, hname, if_false]
    rcases hc with hc | hc <;> simp [hc]
  · rfl

theorem Inside.attribute (hname : name ≠ "") {a : Attribute}
    (ha : ∀ c ∈ a.name.toList, Text.isBlank c = false ∧ c ≠ '=' ∧ c ≠ ']')
    (h : l.Inside done (IsTag name known IsGap)) :
    l.After a.render fun l' => l'.Inside done (IsTag name (known ++ [a]) IsGap) := by
  have hblank : l.After [' '] fun l' => l'.Inside done (IsTag name known (IsAttribute "")) := by
    obtain ⟨tag, part, hmode, hpart, hstyle, hname', hattributes⟩ := h.mode
    have hgap := readTag_of_isGap (l := l) (c := ' ') hpart (hname' ▸ hname) (.inl (by decide))
    have hspace : Text.isBlank ' ' = true := by decide
    refine after_single
      (by simp [readInMode, hmode, hgap, readGap, OpenTag.isGap, hstyle, hspace]; rfl) ?_
    exact ⟨h.kinds, h.run, _, _, rfl, .inr ⟨rfl, rfl⟩, hstyle, hname', hattributes⟩
  have hequals : ∀ l' : Lexer, l'.Inside done (IsTag name known (IsAttribute a.name)) →
      l'.After ['=', '"'] fun l' => l'.Inside done (IsTag name known (IsQuoted a.name "")) := by
    rintro l' ⟨hkinds, hrun, tag, part, hmode, hpart, hstyle, hname', hattributes⟩
    have hequal : Text.isBlank '=' = false := by decide
    have hread : l'.readInMode '=' = l'.goOn tag '=' (.value a.name) := by
      rcases hpart with ⟨start, rfl⟩ | ⟨rfl, hempty⟩
      · simp [readInMode, hmode, readTag, readAttribute]
      · simp [readInMode, hmode, readTag, readGap, readAttribute, OpenTag.isGap, hstyle, hempty,
          hequal]
    refine after_cons hread (after_single (by simp [readInMode, readTag]; rfl) ?_)
    exact ⟨hkinds, hrun, _, _, rfl, ⟨_, rfl⟩, hstyle, hname', hattributes⟩
  have hquote : ∀ l' : Lexer, l'.Inside done (IsTag name known (IsQuoted a.name a.value)) →
      l'.After ['"'] fun l' => l'.Inside done (IsTag name (known ++ [a]) IsGap) := by
    rintro l' ⟨hkinds, hrun, tag, part, hmode, ⟨start, rfl⟩, hstyle, hname', hattributes⟩
    refine after_single (by simp [readInMode, hmode, readTag, readQuotedValue]; rfl) ?_
    refine ⟨hkinds, hrun, _, _, rfl, .inr rfl, hstyle, hname', ?_⟩
    simp [OpenTag.grow, OpenTag.add, hattributes]
  refine (((hblank.append fun l' h' => ?_).append hequals).append fun l' h' => ?_).append hquote
  · simpa using Inside.attributeName ha h'
  · simpa using Inside.quotedValue a.value.toList h'

theorem Inside.attributes (hname : name ≠ "") {more : List Attribute}
    (hmore : ∀ a ∈ more, ∀ c ∈ a.name.toList, Text.isBlank c = false ∧ c ≠ '=' ∧ c ≠ ']') :
    ∀ {l : Lexer} {known : List Attribute}, l.Inside done (IsTag name known IsGap) →
      l.After (more.flatMap Attribute.render) fun l' =>
        l'.Inside done (IsTag name (known ++ more) IsGap) := by
  induction more with
  | nil => exact fun h => after_nil (by simpa using h)
  | cons a more ih =>
    intro l known h
    obtain ⟨ha, hrest⟩ := List.forall_mem_cons.mp hmore
    refine (Inside.attribute hname ha h).append fun l' h' => ?_
    have hall := ih hrest h'
    rwa [List.append_assoc] at hall

theorem Between.tag {t : Tag} (h : l.Between done cs) (hw : (TokenKind.tag t).isWritable) :
    l.After (TokenKind.tag t).render fun l' =>
      l'.Between (done ++ textKinds cs ++ [.tag t]) [] := by
  obtain ⟨hname, hchars, hattributes⟩ := TokenKind.isWritable_tag.mp hw
  have hopen : l.After ['['] fun l' =>
      l'.Inside (done ++ textKinds cs) (IsTag "" [] (· = .name)) := by
    obtain ⟨settled, hsound, hkinds, htext, hread⟩ := h.settle (c := '[') (.inr (by decide))
    refine after_single (hread.trans (by simp [readText]; rfl)) ?_
    exact ⟨(kinds_endRun hsound).trans (by rw [hkinds, htext]), rfl, _, _, rfl, rfl, rfl, rfl, rfl⟩
  have hclose : ∀ l' : Lexer, l'.Inside (done ++ textKinds cs) (IsTag t.name t.attributes IsGap) →
      l'.After [']'] fun l' => l'.Between (done ++ textKinds cs ++ [.tag t]) [] := by
    rintro l' ⟨hkinds, hrun, tag, part, hmode, hpart, hstyle, hname', hattributes'⟩
    have hgap := readTag_of_isGap (l := l') (c := ']') hpart (hname' ▸ hname) (.inr rfl)
    have hbracket : Text.isBlank ']' = false := by decide
    refine after_single
      (by simp [readInMode, hmode, hgap, readGap, OpenTag.isGap, hstyle, hbracket]; rfl) ?_
    refine ⟨?_, ?_, .inl ⟨rfl, ?_⟩⟩
    · simp [Sound, endTag, hrun]
    · simp [Lexer.kinds, endTag, ← hkinds, OpenTag.token, OpenTag.grow, hname', hattributes']
    · simp [runText, endTag, hrun]
  refine ((hopen.append fun l' h' => Inside.tagName hchars h').append fun l' h' => ?_).append hclose
  obtain ⟨tag, part, hmode, hpart, hrest⟩ := h'.mode
  have hstart : l'.Inside (done ++ textKinds cs) (IsTag t.name [] IsGap) :=
    ⟨h'.kinds, h'.run, tag, part, hmode, .inl hpart, by simpa using hrest⟩
  exact Inside.attributes hname hattributes hstart

/-! ### Lists of tokens -/

theorem Between.rendered (kinds : List TokenKind) : ∀ {l : Lexer} {done : List TokenKind}
    {cs : List Char}, (∀ k ∈ kinds, k.isWritable) →
      kinds.IsChain (fun a b => ¬(a.isText ∧ b.isText)) →
      (cs ≠ [] → ∀ k ∈ kinds.head?, k.isText = false) → l.Between done cs →
      l.After (kinds.flatMap TokenKind.render) fun l' =>
        ∃ done' cs', l'.Between done' cs' ∧
          done' ++ textKinds cs' = done ++ textKinds cs ++ kinds := by
  induction kinds with
  | nil => exact fun _ _ _ h => after_nil ⟨_, _, h, by simp⟩
  | cons k kinds ih =>
    intro l done cs hw hchain hhead h
    obtain ⟨hk, hrest⟩ := List.forall_mem_cons.mp hw
    obtain ⟨hnext, hrestChain⟩ := List.isChain_cons.mp hchain
    rw [List.flatMap_cons]
    cases k with
    | text content =>
      -- no other text is pending, so this one is a token of its own
      have hcs : cs = [] := by
        by_contra hcs
        simpa [TokenKind.isText] using hhead hcs
      subst hcs
      obtain ⟨hcontent, hchars⟩ := TokenKind.isWritable_text.mp hk
      refine (h.text hchars).append fun l' h' => ?_
      have hall := ih hrest hrestChain
        (fun _ k hmem => by simpa [TokenKind.isText] using hnext k hmem) h'
      simpa [textKinds, hcontent] using hall
    | label name headline =>
      refine (h.label hk).append fun l' h' => ?_
      have hall := ih hrest hrestChain (fun hcs => absurd rfl hcs) h'
      simpa [textKinds] using hall
    | tag t =>
      refine (h.tag hk).append fun l' h' => ?_
      have hall := ih hrest hrestChain (fun hcs => absurd rfl hcs) h'
      simpa [textKinds] using hall

theorem finish_of_between (h : l.Between done cs) :
    (l.finish).map (List.map Token.kind) = .ok (done ++ textKinds cs) := by
  obtain ⟨last, hlast, hsound, hkinds, htext⟩ : ∃ last, l.finishMode = .ok last ∧ last.Sound ∧
      last.kinds = done ∧ last.runText = cs := by
    rcases h.mode with ⟨hmode, htext⟩ | ⟨start, blanks, hmode, htext⟩
    · exact ⟨l, by simp [finishMode, hmode], h.sound, h.kinds, htext⟩
    · exact ⟨l.addBlanks blanks start, by simp [finishMode, hmode], h.sound.addBlanks _ _,
        by simp [h.kinds], by simp [htext]⟩
  have hend := kinds_endRun hsound
  rw [hkinds, htext] at hend
  rw [finish, hlast, ← hend]
  rfl

end Lexer

/-- What is read of tokens written out is these tokens: no two texts stand side by side, and each
token can be written. -/
theorem tokens_render (kinds : List TokenKind) (hw : ∀ k ∈ kinds, k.isWritable)
    (hchain : kinds.IsChain fun a b => ¬(a.isText ∧ b.isText)) :
    (tokens (render kinds)).map (List.map Token.kind) = .ok kinds := by
  have hstart : Lexer.Between {} [] [] :=
    ⟨by simp [Lexer.Sound], rfl, .inr ⟨_, "", rfl, rfl⟩⟩
  obtain ⟨last, hread, done, cs, hlast, hkinds⟩ :=
    hstart.rendered kinds hw hchain (fun hcs => absurd rfl hcs)
  have hfinish := Lexer.finish_of_between hlast
  rw [hkinds] at hfinish
  rw [tokens, render, String.toList_ofList, hread]
  simpa [Except.bind, Lexer.textKinds] using hfinish

/-- Text that begins with a blank and has a colon, a label whose headline has blanks and brackets,
and a tag whose values hold quotes, backslashes, brackets and a line break. -/
def mixedKinds : List TokenKind :=
  [.text " :a @b", .label "start" "A [b] | c",
    .tag ⟨"say", [⟨"", "]"⟩, ⟨"b", "x\"\\\n[y]"⟩]⟩, .text "\\"]

theorem tokens_render_mixedKinds :
    render mixedKinds = " \\:a \\@b\n:start|A [b] | c\n[say =\"]\" b=\"x\\\"\\\\\n[y]\"]\\\\" ∧
      (tokens (render mixedKinds)).map (List.map Token.kind) = .ok mixedKinds :=
  ⟨by decide, tokens_render mixedKinds (by decide +kernel) (by decide +kernel)⟩

end NovelScript.Script
