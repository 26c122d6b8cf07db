import NovelScript.Proofs.Reading.Rendering

/-!
Tag lines. One reader serves the tags that run to the end of their line and those in brackets; the
two differ in how a tag ends and in which blanks separate its attributes. Main statement: a tag line
is read as the same text in brackets is, unless the text has a blank outside of its quoted values
that is neither a space nor a tab nor a carriage return. In brackets such a blank separates
attributes like any other; a tag line is refused for it.
-/

namespace NovelScript.Script

/-! ### Blanks that only brackets take -/

/-- Whether a character separates attributes in brackets and not in a tag line. -/
def isOtherBlank (c : Char) : Bool := Text.isBlank c && c ≠ ' ' && c ≠ '\t' && c ≠ '\r'

theorem isBlank_of_not_isOtherBlank {c : Char} (h : isOtherBlank c = false) :
    Text.isBlank c = (c = ' ' || c = '\t' || c = '\r') := by
  by_cases hspace : c = ' '
  · subst hspace
    decide
  · by_cases htab : c = '\t'
    · subst htab
      decide
    · by_cases hreturn : c = '\r'
      · subst hreturn
        decide
      · simpa [isOtherBlank, hspace, htab, hreturn] using h

theorem not_mem_of_isOtherBlank {c : Char} (h : isOtherBlank c = true) :
    Text.isBlank c = true ∧ c ∉ [' ', '\t', '\r', '=', '"'] := by
  simp only [isOtherBlank, Bool.and_eq_true, decide_eq_true_eq, and_assoc] at h
  obtain ⟨hblank, hspace, htab, hreturn⟩ := h
  have hplain : ∀ d, Text.isBlank d = false → c ≠ d := by
    rintro d hd rfl
    rw [hblank] at hd
    cases hd
  simp [hblank, hspace, htab, hreturn, hplain '=' (by decide), hplain '"' (by decide)]

/-- Both have found an error, or read one tag and nothing else, with the same name and the same
attributes in the same order. -/
def ReadAlike (line bracket : Except SyntaxError (List Token)) : Prop :=
  (∃ e e', line = .error e ∧ bracket = .error e') ∨
    ∃ t, line.map (List.map Token.kind) = .ok [.tag t] ∧
      bracket.map (List.map Token.kind) = .ok [.tag t]

/-- Whether a quoted value is being read. -/
def TagPart.isQuoted : TagPart → Bool
  | quotedValue _ _ _ | escapedValue _ _ _ => true
  | _ => false

namespace Lexer

/-- Whether a quoted value is being read. -/
def inQuotes (l : Lexer) : Bool :=
  match l.mode with
  | .tag _ part => part.isQuoted
  | _ => false

/-- Whether a blank that only brackets take is read outside of quoted values. -/
def meetsOtherBlank (l : Lexer) : List Char → Bool
  | [] => false
  | c :: cs =>
    isOtherBlank c && !l.inQuotes ||
      match l.read c with
      | .ok next => next.meetsOtherBlank cs
      | .error _ => false

end Lexer

/-! ### Two lexers in step -/

/-- The tag as it would be in brackets. -/
def OpenTag.inBrackets (literal : String) (tag : OpenTag) : OpenTag :=
  { tag with style := .bracket, literal }

namespace Lexer

/-- Both lexers are at the same part of the same tag, and have read nothing else; the tag of the
first runs to the end of its line, that of the second stands in brackets. -/
structure Twins (line bracket : Lexer) : Prop where
  tokens : line.tokens = #[] ∧ bracket.tokens = #[]
  run : line.run = none ∧ bracket.run = none
  position : line.position = bracket.position
  mode : ∃ tag literal part, tag.style = .line ∧ line.mode = .tag tag part ∧
    bracket.mode = .tag (tag.inBrackets literal) part

/-- Both lexers go on in step, or both find the same error. -/
inductive InStep : Except SyntaxError Lexer → Except SyntaxError Lexer → Prop
  | ok {line bracket : Lexer} : Twins line bracket → InStep (.ok line) (.ok bracket)
  | error (e : SyntaxError) : InStep (.error e) (.error e)

theorem InStep.moveTo {a b : Except SyntaxError Lexer} (h : InStep a b) (position : Position) :
    InStep (a.map fun l => { l with position }) (b.map fun l => { l with position }) := by
  cases h with
  | ok h => exact .ok ⟨h.tokens, h.run, rfl, h.mode⟩
  | error e => exact .error e

section Step

variable {line bracket : Lexer} {tag : OpenTag} {part : TagPart} {c : Char}
  (h : Twins line bracket) (hstyle : tag.style = .line) (literal : String)

include h hstyle

theorem Twins.goOn (c : Char) (part : TagPart) :
    InStep (line.goOn tag c part) (bracket.goOn (tag.inBrackets literal) c part) :=
  .ok ⟨h.tokens, h.run, h.position, tag.grow c, literal.push c, part, hstyle, rfl, rfl⟩

theorem Twins.readAttribute (start : Position) (name : String) (c : Char) :
    InStep (line.readAttribute tag start name c)
      (bracket.readAttribute (tag.inBrackets literal) start name c) := by
  unfold Lexer.readAttribute
  split
  · exact h.goOn hstyle literal c _
  · split
    · exact .error _
    · exact h.goOn hstyle literal c _

/-- Between attributes only the other blanks make a difference. -/
theorem Twins.readGap (hinner : c ≠ '\n' ∧ c ≠ ']') (hother : isOtherBlank c = false) :
    InStep (line.readGap tag c) (bracket.readGap (tag.inBrackets literal) c) := by
  have hgap : (tag.inBrackets literal).isGap c = tag.isGap c := by
    simp only [OpenTag.isGap, OpenTag.inBrackets, hstyle]
    exact isBlank_of_not_isOtherBlank hother
  have hattribute := h.readAttribute hstyle literal line.position "" c
  unfold Lexer.readGap
  rw [hgap]
  split
  · exact h.goOn hstyle literal c .gap
  · simpa [hinner, h.position] using hattribute

theorem Twins.readName (hinner : c ≠ '\n' ∧ c ≠ ']') (hother : isOtherBlank c = false) :
    InStep (line.readName tag c) (bracket.readName (tag.inBrackets literal) c) := by
  have hgap := h.readGap hstyle literal hinner hother
  unfold Lexer.readName
  split
  · rw [show (tag.inBrackets literal).name = tag.name from rfl]
    split
    · exact .error _
    · exact hgap
  · exact Twins.goOn h (show OpenTag.style { tag with name := tag.name.push c } = .line from hstyle)
      literal c .name

theorem Twins.readBareValue (hinner : c ≠ '\n' ∧ c ≠ ']') (hother : isOtherBlank c = false)
    (name value : String) :
    InStep (line.readBareValue tag name value c)
      (bracket.readBareValue (tag.inBrackets literal) name value c) := by
  unfold Lexer.readBareValue
  split
  · exact h.readGap (show (tag.add name value).style = .line from hstyle) literal hinner hother
  · exact h.goOn hstyle literal c _

theorem Twins.readQuotedValue (start : Position) (name value : String) (c : Char) :
    InStep (line.readQuotedValue tag start name value c)
      (bracket.readQuotedValue (tag.inBrackets literal) start name value c) := by
  unfold Lexer.readQuotedValue
  split
  · exact h.goOn (show (tag.add name value).style = .line from hstyle) literal c .gap
  · split <;> exact h.goOn hstyle literal c _

/-- In quotes all blanks are read alike. -/
theorem Twins.readTag (hinner : c ≠ '\n' ∧ c ≠ ']')
    (hother : isOtherBlank c = true → part.isQuoted = true) :
    InStep (line.readTag tag part c) (bracket.readTag (tag.inBrackets literal) part c) := by
  have hbare : part.isQuoted = false → isOtherBlank c = false := by
    intro hpart
    rw [hpart] at hother
    exact Bool.eq_false_iff.mpr fun hc => nomatch hother hc
  unfold Lexer.readTag
  cases part with
  | name => exact h.readName hstyle literal hinner (hbare rfl)
  | gap => exact h.readGap hstyle literal hinner (hbare rfl)
  | attributeName start name => exact h.readAttribute hstyle literal start name c
  | value name =>
    simp only
    split
    · rw [h.position]
      exact h.goOn hstyle literal c _
    · exact h.readBareValue hstyle literal hinner (hbare rfl) name ""
  | bareValue name value => exact h.readBareValue hstyle literal hinner (hbare rfl) name value
  | quotedValue start name value => exact h.readQuotedValue hstyle literal start name value c
  | escapedValue start name value =>
    simp only
    split
    · exact h.goOn hstyle literal c _
    · exact h.readQuotedValue hstyle literal start name (value.push '\\') c

end Step

section Read

variable {line bracket : Lexer} {c : Char} {cs : List Char}

theorem Twins.read (h : Twins line bracket) (hinner : c ≠ '\n' ∧ c ≠ ']')
    (hother : isOtherBlank c = true → bracket.inQuotes = true) :
    InStep (line.read c) (bracket.read c) := by
  obtain ⟨tag, literal, part, hstyle, hline, hbracket⟩ := h.mode
  have hpart : bracket.inQuotes = part.isQuoted := by rw [inQuotes, hbracket]
  have hstep := h.readTag hstyle literal hinner (hpart ▸ hother)
  simp only [Lexer.read, readInMode, hline, hbracket, h.position]
  exact hstep.moveTo _

/-- Between attributes a tag line is refused for a blank that only brackets take. -/
theorem readGap_otherBlank {tag : OpenTag} (hstyle : tag.style = .line)
    (hinner : c ≠ '\n' ∧ c ≠ ']') (hother : isOtherBlank c = true) :
    line.readGap tag c = .error (.missingEquals "" line.position) := by
  obtain ⟨hblank, hplain⟩ := not_mem_of_isOtherBlank hother
  simp only [List.mem_cons, List.not_mem_nil, or_false, not_or] at hplain
  simp [Lexer.readGap, OpenTag.isGap, hstyle, hplain, hinner, Lexer.readAttribute, hblank]

/-- Outside of quotes a tag line is refused for a blank that only brackets take. -/
theorem Twins.read_otherBlank (h : Twins line bracket) (hinner : c ≠ '\n' ∧ c ≠ ']')
    (hother : isOtherBlank c = true) (hbare : bracket.inQuotes = false) :
    ∃ e, line.read c = .error e := by
  obtain ⟨tag, literal, part, hstyle, hline, hbracket⟩ := h.mode
  have hpart : part.isQuoted = false := by rw [← hbare, inQuotes, hbracket]
  have hgap : ∀ {tag : OpenTag}, tag.style = .line → ∃ e, line.readGap tag c = .error e :=
    fun hstyle => ⟨_, readGap_otherBlank hstyle hinner hother⟩
  obtain ⟨hblank, hplain⟩ := not_mem_of_isOtherBlank hother
  simp only [List.mem_cons, List.not_mem_nil, or_false, not_or] at hplain
  suffices hread : ∃ e, line.readTag tag part c = .error e by
    obtain ⟨e, he⟩ := hread
    exact ⟨e, by simp [Lexer.read, readInMode, hline, he, Except.map]⟩
  cases part with
  | name =>
    simp only [Lexer.readTag, Lexer.readName, hblank, Bool.true_or, if_true]
    split
    · exact ⟨_, rfl⟩
    · exact hgap hstyle
  | gap => exact hgap hstyle
  | attributeName start name =>
    exact ⟨.missingEquals name start, by simp [Lexer.readTag, Lexer.readAttribute, hplain, hblank]⟩
  | value name =>
    simp only [Lexer.readTag, Lexer.readBareValue, hplain, hblank, Bool.true_or, if_true, if_false]
    exact hgap hstyle
  | bareValue name value =>
    simp only [Lexer.readTag, Lexer.readBareValue, hblank, Bool.true_or, if_true]
    exact hgap hstyle
  | quotedValue _ _ _ | escapedValue _ _ _ => cases hpart

/-- **Both read alike** up to the first blank that only brackets take. -/
theorem Twins.foldlM (cs : List Char) : ∀ {line bracket : Lexer}, Twins line bracket →
    (∀ c ∈ cs, c ≠ '\n' ∧ c ≠ ']') →
      bracket.meetsOtherBlank cs = false ∧
        InStep (cs.foldlM Lexer.read line) (cs.foldlM Lexer.read bracket) ∨
      bracket.meetsOtherBlank cs = true ∧ ∃ e, cs.foldlM Lexer.read line = .error e := by
  induction cs with
  | nil => exact fun h _ => .inl ⟨rfl, .ok h⟩
  | cons c cs ih =>
    intro line bracket h hinner
    obtain ⟨hc, hrest⟩ := List.forall_mem_cons.mp hinner
    rw [List.foldlM_cons, List.foldlM_cons, meetsOtherBlank]
    by_cases hstray : isOtherBlank c = true ∧ bracket.inQuotes = false
    · obtain ⟨e, he⟩ := h.read_otherBlank hc hstray.1 hstray.2
      refine .inr ⟨by simp [hstray], e, ?_⟩
      rw [he]
      rfl
    · have hstep := h.read hc fun hother => by simpa [hother] using hstray
      have hfirst : (isOtherBlank c && !bracket.inQuotes) = false := by
        simpa using hstray
      rw [hfirst, Bool.false_or]
      generalize line.read c = a, bracket.read c = b at hstep
      cases hstep with
      | ok hnext => exact ih hnext hrest
      | error e => exact .inl ⟨rfl, .error e⟩

/-! ### At the end -/

/-- What is left to do when a part of a tag has been read: the tag line ends with the text, and the
bracket is still to come. -/
theorem Twins.endTag (h : Twins line bracket) {tag : OpenTag} (hstyle : tag.style = .line)
    (literal : String) (position : Position) :
    ReadAlike ((line.finishTag tag).map fun last => last.endRun.tokens.toList)
      (((bracket.readGap (tag.inBrackets literal) ']').map fun l => { l with position }).bind
        Lexer.finish) := by
  have hbracket : Text.isBlank ']' = false := by decide
  refine .inr ⟨⟨tag.name, tag.attributes.toList⟩, ?_, ?_⟩
  · simp [finishTag, hstyle, Lexer.endTag, endRun, h.run.1, h.tokens.1, Except.map, OpenTag.token]
  · simp [Lexer.readGap, OpenTag.isGap, OpenTag.inBrackets, hbracket, Lexer.endTag, Lexer.finish,
      finishMode, endRun, h.run.2, h.tokens.2, Except.map, Except.bind, OpenTag.token, OpenTag.grow]

theorem Twins.finish (h : Twins line bracket) :
    ReadAlike line.finish ((bracket.read ']').bind Lexer.finish) := by
  obtain ⟨tag, literal, part, hstyle, hline, hbracket⟩ := h.mode
  have hblank : Text.isBlank ']' = false := by decide
  have hend := fun (tag : OpenTag) (hstyle : tag.style = .line) =>
    h.endTag hstyle literal (bracket.position.next ']')
  simp only [Lexer.read, Lexer.finish, readInMode, finishMode, hline, hbracket]
  cases part with
  | name =>
    simp only [Lexer.readTag, Lexer.readName, hblank, Bool.false_or, decide_true, Bool.true_or,
      if_true, show (tag.inBrackets literal).name = tag.name from rfl]
    split
    · exact .inl ⟨_, _, rfl, rfl⟩
    · exact hend tag hstyle
  | gap => exact hend tag hstyle
  | attributeName start name =>
    exact .inl ⟨_, .missingEquals name start, rfl, by
      simp [Lexer.readTag, Lexer.readAttribute, hblank, Except.map, Except.bind]⟩
  | value name => exact hend (tag.add name "") hstyle
  | bareValue name value => exact hend (tag.add name value) hstyle
  | quotedValue start name value =>
    exact .inl ⟨_, .unterminatedQuote start, rfl, by
      simp [Lexer.readTag, Lexer.readQuotedValue, Lexer.goOn, Lexer.finish, finishMode, Except.map,
        Except.bind]⟩
  | escapedValue start name value =>
    exact .inl ⟨_, .unterminatedQuote start, rfl, by
      simp [Lexer.readTag, Lexer.readQuotedValue, Lexer.goOn, Lexer.finish, finishMode, Except.map,
        Except.bind]⟩

end Read

end Lexer

/-- Whether the text has a blank outside of its quoted values that only brackets take. -/
def hasOtherBlank (body : String) : Bool := Lexer.meetsOtherBlank {} ('[' :: body.toList)

/-- **A tag line is read as its text in brackets is**, exactly if the text has no blank outside of
its quoted values that is neither a space nor a tab nor a carriage return, or cannot be read in
brackets. Where there is such a blank the tag line is refused. -/
theorem tagLine_readAlike_iff (body : String) (h : ∀ c ∈ body.toList, c ≠ '\n' ∧ c ≠ ']') :
    (ReadAlike (tokens ("@" ++ body)) (tokens ("[" ++ body ++ "]")) ↔
      (hasOtherBlank body = true → ∃ e, tokens ("[" ++ body ++ "]") = .error e)) ∧
    (hasOtherBlank body = true → ∃ e, tokens ("@" ++ body) = .error e) := by
  obtain ⟨line, bracket, hline, hbracket, htwins⟩ : ∃ line bracket : Lexer,
      Lexer.read {} '@' = .ok line ∧ Lexer.read {} '[' = .ok bracket ∧ line.Twins bracket :=
    ⟨_, _, rfl, rfl, ⟨rfl, rfl⟩, ⟨rfl, rfl⟩, rfl, _, "[", .name, rfl, rfl, rfl⟩
  have hblank : hasOtherBlank body = bracket.meetsOtherBlank body.toList := by
    rw [hasOtherBlank, Lexer.meetsOtherBlank, hbracket]
    rfl
  have hreadLine : tokens ("@" ++ body) =
      (body.toList.foldlM Lexer.read line).bind Lexer.finish := by
    rw [tokens, String.toList_append]
    show (('@' :: body.toList).foldlM Lexer.read {}).bind Lexer.finish = _
    rw [List.foldlM_cons, hline]
    rfl
  have hreadBracket : tokens ("[" ++ body ++ "]") =
      ((body.toList.foldlM Lexer.read bracket).bind fun l => l.read ']').bind Lexer.finish := by
    rw [tokens, String.toList_append, String.toList_append]
    show (('[' :: (body.toList ++ [']'])).foldlM Lexer.read {}).bind Lexer.finish = _
    rw [List.foldlM_cons, hbracket]
    show ((body.toList ++ [']']).foldlM Lexer.read bracket).bind Lexer.finish = _
    simp only [List.foldlM_append, List.foldlM_cons, List.foldlM_nil, bind_pure]
    rfl
  rw [hblank, hreadLine, hreadBracket]
  rcases htwins.foldlM body.toList h with ⟨hnone, hstep⟩ | ⟨hsome, e, he⟩
  · rw [hnone]
    refine ⟨⟨fun _ hother => absurd hother Bool.false_ne_true, fun _ => ?_⟩,
      fun hother => absurd hother Bool.false_ne_true⟩
    generalize body.toList.foldlM Lexer.read line = a, body.toList.foldlM Lexer.read bracket = b
      at hstep
    cases hstep with
    | ok hlast => exact hlast.finish
    | error e => exact .inl ⟨e, e, rfl, rfl⟩
  · rw [hsome, he]
    refine ⟨⟨?_, fun hfails => ?_⟩, fun _ => ⟨e, rfl⟩⟩
    · rintro (⟨_, e', -, hbracket⟩ | ⟨t, hread, -⟩)
      · exact fun _ => ⟨e', hbracket⟩
      · cases hread
    · obtain ⟨e', he'⟩ := hfails rfl
      exact .inl ⟨e, e', rfl, he'⟩

theorem inner_of_all {cs : List Char} (h : (cs.all fun c => c ≠ '\n' && c ≠ ']') = true) :
    ∀ c ∈ cs, c ≠ '\n' ∧ c ≠ ']' := by
  simpa using h

/-- A tag with an ideographic space in front of its attribute, and another one in a quoted value. -/
def ideographicSpaces : String := "wait\u3000text=\"a\u3000b\""

theorem tokens_line_ideographicSpaces :
    tokens ("@" ++ ideographicSpaces) = .error (.missingEquals "" ⟨5, 1, 6⟩) := by
  decide

theorem tokens_bracket_ideographicSpaces :
    (tokens ("[" ++ ideographicSpaces ++ "]")).map (List.map Token.kind) =
      .ok [.tag ⟨"wait", [⟨"text", "a\u3000b"⟩]⟩] := by
  decide

theorem not_readAlike_ideographicSpaces :
    ¬ ReadAlike (tokens ("@" ++ ideographicSpaces)) (tokens ("[" ++ ideographicSpaces ++ "]")) := by
  rw [tokens_line_ideographicSpaces]
  rintro (⟨_, e, -, hbracket⟩ | ⟨t, hline, -⟩)
  · have hread := tokens_bracket_ideographicSpaces
    rw [hbracket] at hread
    cases hread
  · cases hline

/-- A tag with an ideographic space in a quoted value only. -/
def quotedSpace : String := "wait text=\"a\u3000b\""

theorem tagLine_readAlike_ideographicSpaces :
    ((∀ c ∈ ideographicSpaces.toList, c ≠ '\n' ∧ c ≠ ']') ∧ hasOtherBlank ideographicSpaces = true ∧
      ∃ e, tokens ("@" ++ ideographicSpaces) = .error e) ∧
    (∀ c ∈ quotedSpace.toList, c ≠ '\n' ∧ c ≠ ']') ∧ hasOtherBlank quotedSpace = false ∧
      ReadAlike (tokens ("@" ++ quotedSpace)) (tokens ("[" ++ quotedSpace ++ "]")) := by
  have hinner : ∀ c ∈ ideographicSpaces.toList, c ≠ '\n' ∧ c ≠ ']' :=
    inner_of_all (by decide)
  have hother : hasOtherBlank ideographicSpaces = true := by decide
  have hinner' : ∀ c ∈ quotedSpace.toList, c ≠ '\n' ∧ c ≠ ']' := inner_of_all (by decide)
  have hnone : hasOtherBlank quotedSpace = false := by decide
  have hline := (tagLine_readAlike_iff ideographicSpaces hinner).2 hother
  have halike := (tagLine_readAlike_iff quotedSpace hinner').1.mpr (by simp [hnone])
  exact ⟨⟨hinner, hother, hline⟩, hinner', hnone, halike⟩

/-- Brackets may take what a tag line is refused for. -/
theorem not_tagLine_readAlike :
    ¬ ∀ body : String, (∀ c ∈ body.toList, c ≠ '\n' ∧ c ≠ '[' ∧ c ≠ ']') →
      ReadAlike (tokens ("@" ++ body)) (tokens ("[" ++ body ++ "]")) :=
  fun hclaim => not_readAlike_ideographicSpaces (hclaim ideographicSpaces fun c hc => by
    have hall : (ideographicSpaces.toList.all fun c => c ≠ '\n' && c ≠ '[' && c ≠ ']') = true := by
      decide
    simpa [and_assoc] using List.all_eq_true.mp hall c hc)

end NovelScript.Script
