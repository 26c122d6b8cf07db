import NovelScript.Proofs.Conditionals.Validation

/-!
The texts of a script. Text waits while tokens are read, and is added as one command where a token
ends it. Main statement: the commands show the contents of the text tokens in order, none of them
nothing, and two text tokens are shown by one command exactly if no token between them ends text.
-/

namespace NovelScript.Script

/-! ### The texts of commands and of tokens -/

/-- The text that a command shows. -/
def Command.text? : Command → Option String
  | printText text => some text
  | _ => none

/-- The texts that are shown, in the order of their commands. -/
def Queue.texts (q : Queue) : List String := q.commands.toList.filterMap Command.text?

/-- The content of a text; the other tokens have none. -/
def Token.content (token : Token) : String :=
  match token.kind with
  | .text content => content
  | _ => ""

/-- Whether text ends in front of the token: a label, or a tag that defines no variables. -/
def Token.endsText (token : Token) : Bool :=
  match token.kind with
  | .text _ => false
  | .label _ _ => true
  | .tag tag => Text.lowercase tag.name ≠ TagKind.define.name

/-- The contents of tokens, one behind the other. -/
def contents (tokens : List Token) : String := String.join (tokens.map Token.content)

/-- The command that waiting text becomes. -/
def textPart (waiting : String) : List String := if waiting.isEmpty then [] else [waiting]

/-- The texts that tokens become behind text that is waiting. -/
def textsBehind (waiting : String) : List Token → List String
  | [] => textPart waiting
  | token :: tokens =>
    if token.endsText then textPart waiting ++ textsBehind "" tokens
    else textsBehind (waiting ++ token.content) tokens

section

variable {tokens before after : List Token} {token : Token} {waiting : String}

@[simp]
theorem contents_nil : contents [] = "" := rfl

@[simp]
theorem contents_cons (token : Token) (tokens : List Token) :
    contents (token :: tokens) = token.content ++ contents tokens := by
  simp [contents]

@[simp]
theorem contents_append (tokens tokens' : List Token) :
    contents (tokens ++ tokens') = contents tokens ++ contents tokens' := by
  simp [contents]

theorem content_of_endsText (h : token.endsText = true) : token.content = "" := by
  unfold Token.endsText at h
  unfold Token.content
  split <;> simp_all

@[simp]
theorem join_textPart (waiting : String) : String.join (textPart waiting) = waiting := by
  unfold textPart
  split <;> simp_all

/-! ### Texts behind text that is waiting -/

/-- Nothing is lost. -/
theorem join_textsBehind (tokens : List Token) : ∀ waiting : String,
    String.join (textsBehind waiting tokens) = waiting ++ contents tokens := by
  induction tokens with
  | nil => simp [textsBehind]
  | cons token tokens ih =>
    intro waiting
    unfold textsBehind
    split
    · rename_i hends
      simp [ih, content_of_endsText hends]
    · simp [ih, String.append_assoc]

/-- No text is empty. -/
theorem ne_empty_of_mem_textsBehind {text : String} (tokens : List Token) :
    ∀ waiting : String, text ∈ textsBehind waiting tokens → text ≠ "" := by
  have hpart : ∀ waiting : String, text ∈ textPart waiting → text ≠ "" := by
    intro waiting h
    unfold textPart at h
    split at h <;> simp_all
  induction tokens with
  | nil => exact hpart
  | cons token tokens ih =>
    intro waiting h
    unfold textsBehind at h
    split at h
    · rcases List.mem_append.mp h with hfirst | hrest
      · exact hpart waiting hfirst
      · exact ih "" hrest
    · exact ih _ h

/-- A token that ends text divides the texts. -/
theorem textsBehind_append (hends : token.endsText = true) (before after : List Token) :
    ∀ waiting : String, textsBehind waiting (before ++ token :: after) =
      textsBehind waiting before ++ textsBehind "" after := by
  induction before with
  | nil => simp [textsBehind, hends]
  | cons first before ih =>
    intro waiting
    rw [List.cons_append, textsBehind, textsBehind]
    split <;> simp [ih]

/-- Tokens that do not end text make it longer. -/
theorem textsBehind_of_goOn (after : List Token) :
    ∀ {tokens : List Token} {waiting : String}, (∀ t ∈ tokens, t.endsText = false) →
      textsBehind waiting (tokens ++ after) = textsBehind (waiting ++ contents tokens) after
  | [], _, _ => by simp
  | token :: tokens, waiting, h => by
    obtain ⟨hfirst, hrest⟩ := List.forall_mem_cons.mp h
    rw [List.cons_append, textsBehind, if_neg (by simp [hfirst]), textsBehind_of_goOn after hrest,
      contents_cons, String.append_assoc]

/-- The first text goes on behind what is waiting. -/
theorem textsBehind_eq_cons (tokens : List Token) : ∀ waiting : String, waiting ≠ "" →
    ∃ more rest, textsBehind waiting tokens = (waiting ++ more) :: rest := by
  have hpart : ∀ {waiting : String}, waiting ≠ "" → textPart waiting = [waiting] := by
    intro waiting h
    simp [textPart, h]
  induction tokens with
  | nil => exact fun waiting h => ⟨"", [], by simp [textsBehind, hpart h]⟩
  | cons token tokens ih =>
    intro waiting h
    unfold textsBehind
    split
    · exact ⟨"", textsBehind "" tokens, by simp [hpart h]⟩
    · obtain ⟨more, rest, hrest⟩ := ih (waiting ++ token.content) (by simp [h])
      exact ⟨token.content ++ more, rest, by rw [hrest, String.append_assoc]⟩

end

/-! ### Which text shows a token -/

/-- Text number `i` shows the token behind `before`: the characters of the token are among its
own. -/
structure Shows (texts : List String) (i : Nat) (before : List Token) (token : Token) : Prop where
  first : (String.join (texts.take i)).length ≤ (contents before).length
  last : (contents (before ++ [token])).length ≤ (String.join (texts.take (i + 1))).length

section

variable {tokens before between after : List Token} {token first second : Token}
  {texts : List String} {waiting : String} {i j : Nat}

theorem length_join_take_le (texts : List String) (h : i ≤ j) :
    (String.join (texts.take i)).length ≤ (String.join (texts.take j)).length := by
  obtain ⟨rest, hrest⟩ := List.take_prefix_take_left (l := texts) h
  rw [← hrest, String.join_append, String.length_append]
  exact Nat.le_add_right _ _

/-- A text stands in front of a place between two texts, or behind it. -/
theorem join_take_le_or_le (front behind : List String) (i : Nat) :
    (String.join ((front ++ behind).take (i + 1))).length ≤ (String.join front).length ∨
      (String.join front).length ≤ (String.join ((front ++ behind).take i)).length := by
  have hfront : (front ++ behind).take front.length = front := List.take_left
  rcases Nat.lt_or_ge i front.length with hlt | hge
  · have hle := length_join_take_le (front ++ behind) (Nat.succ_le_of_lt hlt)
    exact .inl (by simpa [hfront] using hle)
  · have hle := length_join_take_le (front ++ behind) hge
    exact .inr (by simpa [hfront] using hle)

theorem length_pos_of_ne_empty {s : String} (h : s ≠ "") : 0 < s.length := by
  rwa [Nat.pos_iff_ne_zero, Ne, String.length_eq_zero_iff]

/-- Only one text shows a token that has a content. -/
theorem Shows.unique (hi : Shows texts i before token) (hj : Shows texts j before token)
    (hcontent : token.content ≠ "") : i = j := by
  have hpos := length_pos_of_ne_empty hcontent
  have hle : ∀ {i j : Nat}, Shows texts i before token → Shows texts j before token → ¬ i < j := by
    intro i j hi hj hlt
    have hlast := hi.last
    have hfirst := hj.first
    have hmono := length_join_take_le texts (show i + 1 ≤ j from hlt)
    simp only [contents_append, contents_cons, contents_nil, String.length_append,
      String.append_empty] at hlast
    omega
  exact Nat.le_antisymm (Nat.le_of_not_lt (hle hj hi)) (Nat.le_of_not_lt (hle hi hj))

/-- One text shows tokens that stand together and do not end text. -/
theorem exists_textsBehind_covers (tokens after : List Token)
    (h : ∀ t ∈ tokens, t.endsText = false) (hcontents : contents tokens ≠ "") :
    ∀ (before : List Token) (waiting : String),
      let texts := textsBehind waiting (before ++ (tokens ++ after))
      ∃ i, (String.join (texts.take i)).length ≤ (waiting ++ contents before).length ∧
        (waiting ++ contents (before ++ tokens)).length ≤
          (String.join (texts.take (i + 1))).length := by
  intro before
  induction before with
  | nil =>
    intro waiting
    rw [List.nil_append, textsBehind_of_goOn after h]
    obtain ⟨more, rest, hrest⟩ := textsBehind_eq_cons after (waiting ++ contents tokens)
      (by simp [hcontents])
    exact ⟨0, by simp, by simp [hrest]⟩
  | cons first before ih =>
    intro waiting
    rw [List.cons_append, textsBehind]
    split
    · -- the texts in front of this token are passed over
      rename_i hends
      obtain ⟨i, hfirst, hlast⟩ := ih ""
      have hcontent := content_of_endsText hends
      refine ⟨(textPart waiting).length + i, ?_, ?_⟩
      · rw [List.take_length_add_append]
        simpa [hcontent] using hfirst
      · rw [Nat.add_assoc, List.take_length_add_append]
        simpa [hcontent] using hlast
    · obtain ⟨i, hfirst, hlast⟩ := ih (waiting ++ first.content)
      refine ⟨i, ?_, ?_⟩
      · simpa [String.append_assoc] using hfirst
      · simpa [String.append_assoc] using hlast

/-- A token with a content does not end text. -/
theorem endsText_of_content_ne (h : token.content ≠ "") : token.endsText = false :=
  Bool.eq_false_iff.mpr fun hends => h (content_of_endsText hends)

/-- A text token is shown by exactly one text, if it has a content. -/
theorem exists_shows (hcontent : token.content ≠ "") :
    ∃ i, ∀ j, Shows (textsBehind "" (before ++ token :: after)) j before token ↔ j = i := by
  obtain ⟨i, hfirst, hlast⟩ := exists_textsBehind_covers [token] after
    (by simpa using endsText_of_content_ne hcontent) (by simpa using hcontent) before ""
  have hi : Shows (textsBehind "" (before ++ token :: after)) i before token :=
    ⟨by simpa using hfirst, by simpa using hlast⟩
  exact ⟨i, fun j => ⟨fun hj => hj.unique hi hcontent, fun hj => hj ▸ hi⟩⟩

/-- Two text tokens are shown by one text exactly if no token between them ends text. -/
theorem exists_shows_both_iff (hfirst : first.content ≠ "") (hsecond : second.content ≠ "") :
    (∃ i, Shows (textsBehind "" (before ++ first :: (between ++ second :: after))) i before first ∧
      Shows (textsBehind "" (before ++ first :: (between ++ second :: after))) i
        (before ++ first :: between) second) ↔
    ∀ t ∈ between, t.endsText = false := by
  constructor
  · rintro ⟨i, hi, hi'⟩ t ht
    refine Bool.eq_false_iff.mpr fun hends => ?_
    obtain ⟨front, behind, rfl⟩ := List.append_of_mem ht
    have hsplit := textsBehind_append hends (before ++ first :: front)
      (behind ++ second :: after) ""
    simp only [List.append_assoc, List.cons_append] at hsplit hi hi'
    have hbegin := hi.first
    have hend := hi'.last
    have hpos := length_pos_of_ne_empty hfirst
    have hpos' := length_pos_of_ne_empty hsecond
    rw [hsplit] at hbegin hend
    have hplace := join_take_le_or_le (textsBehind "" (before ++ first :: front))
      (textsBehind "" (behind ++ second :: after)) i
    simp only [join_textsBehind, contents_append, contents_cons, contents_nil, String.length_append,
      String.empty_append, String.append_empty, List.append_assoc, List.cons_append]
      at hbegin hend hplace
    omega
  · intro h
    obtain ⟨i, hbegin, hend⟩ := exists_textsBehind_covers (first :: (between ++ [second])) after
      (by simpa [endsText_of_content_ne hfirst, endsText_of_content_ne hsecond, or_imp,
        forall_and] using h) (by simp [hfirst]) before ""
    simp only [List.append_assoc, List.cons_append, List.nil_append] at hbegin hend
    simp only [contents_append, contents_cons, contents_nil, String.length_append,
      String.empty_append, String.append_empty] at hbegin hend
    refine ⟨i, ⟨hbegin, ?_⟩, ⟨?_, ?_⟩⟩ <;>
      simp only [contents_append, contents_cons, contents_nil, String.length_append,
        String.append_empty] <;> omega

end

/-! ### While the tokens are read -/

theorem Queue.texts_enqueue (q : Queue) (c : Command) :
    (q.enqueue c).2.texts = q.texts ++ c.text?.toList := by
  show (q.commands.push c).toList.filterMap Command.text? = _
  rw [Array.toList_push, List.filterMap_append]
  cases htext : c.text? <;> simp [Queue.texts, htext]

/-- The marks of conditionals make no difference. -/
theorem Queue.texts_relate (q : Queue) (n : Nesting) : (q.relate n).texts = q.texts := by
  have hbare : ∀ cs : List Command,
      cs.filterMap Command.text? = (cs.map Command.bare).filterMap Command.text? := by
    intro cs
    rw [List.filterMap_map]
    congr 1
    funext c
    cases c <;> rfl
  rw [Queue.texts, hbare, Queue.commands_relate_bare, ← hbare, Queue.texts]

namespace Builder

variable {b b' : Builder} {token : Token}

/-- Neither the texts nor what is waiting changes. -/
structure KeepsTexts (b b' : Builder) : Prop where
  texts : b'.script.queue.texts = b.script.queue.texts
  text : b'.text = b.text

theorem KeepsTexts.trans {b'' : Builder} (h : KeepsTexts b b') (h' : KeepsTexts b' b'') :
    KeepsTexts b b'' :=
  ⟨h'.texts.trans h.texts, h'.text.trans h.text⟩

theorem keepsTexts_add {c : Command} (hc : c.text? = none) (place : Position) :
    KeepsTexts b (b.add c place) where
  texts := by
    refine (Queue.texts_enqueue b.script.queue c).trans ?_
    rw [hc]
    exact List.append_nil _
  text := rfl

/-- Tags leave the texts alone. -/
theorem TagMoves.keepsTexts (h : TagMoves b b') : KeepsTexts b b' := by
  induction h with
  | refl => exact ⟨rfl, rfl⟩
  | tail _ hmove ih =>
    refine ih.trans ?_
    cases hmove with
    | add c place hordinary hc hparses =>
      refine keepsTexts_add ?_ place
      cases c <;> first | rfl | cases hordinary
    | _ => exact ⟨rfl, rfl⟩

/-- So do labels, those that are refused among them. -/
theorem keepsTexts_readLabel (name headline : String) (place : Position) (b : Builder) :
    KeepsTexts b (b.readLabel name headline place) := by
  unfold readLabel
  split
  · exact ⟨rfl, rfl⟩
  · split
    · exact ⟨rfl, rfl⟩
    · have hadd : KeepsTexts b (b.add (.label name headline) place) := keepsTexts_add rfl place
      exact ⟨hadd.texts, hadd.text⟩

/-- What is waiting is added, an indent in front of it makes no difference. -/
theorem texts_addText (b : Builder) :
    b.addText.script.queue.texts = b.script.queue.texts ++ textPart b.text := by
  unfold addText textPart
  split
  · simp
  · have hindented : ∀ indented : Builder, KeepsTexts b indented →
        (indented.add (.printText b.text) b.textStart).script.queue.texts =
          b.script.queue.texts ++ [b.text] := by
      intro indented h
      rw [← h.texts]
      exact Queue.texts_enqueue indented.script.queue (.printText b.text)
    refine hindented _ ?_
    split
    · split
      · exact keepsTexts_add rfl _
      · exact ⟨rfl, rfl⟩
    · exact ⟨rfl, rfl⟩

theorem text_addText (b : Builder) : b.addText.text = "" := by
  unfold addText
  split
  · rename_i hempty
    simpa using hempty
  · rfl

/-- A token that ends text adds what is waiting, and nothing waits then. -/
theorem readToken_of_endsText (hends : token.endsText = true) (b : Builder) :
    KeepsTexts b.addText (b.readToken token) := by
  cases hkind : token.kind with
  | text content => simp [Token.endsText, hkind] at hends
  | label name headline =>
    rw [readToken, hkind]
    exact keepsTexts_readLabel name headline token.position b.addText
  | tag tag =>
    have hname : Text.lowercase tag.name ≠ TagKind.define.name := by
      simpa [Token.endsText, hkind] using hends
    simp only [readToken, hkind, if_neg hname]
    exact (readTag_moves tag token.position b.addText).keepsTexts

/-- Another token makes what is waiting longer. -/
theorem readToken_of_goOn (hgoOn : token.endsText = false) (b : Builder) :
    KeepsTexts { b with text := b.text ++ token.content } (b.readToken token) := by
  cases hkind : token.kind with
  | text content =>
    rw [readToken, Token.content, hkind]
    exact ⟨rfl, rfl⟩
  | label name headline => simp [Token.endsText, hkind] at hgoOn
  | tag tag =>
    have hname : Text.lowercase tag.name = TagKind.define.name := by
      simpa [Token.endsText, hkind] using hgoOn
    simp only [readToken, Token.content, hkind, if_pos hname, String.append_empty]
    exact (readTag_moves tag token.position b).keepsTexts

/-- **The texts of tokens** come behind those that are there. -/
theorem texts_foldl (tokens : List Token) : ∀ b : Builder,
    (tokens.foldl readToken b).addText.script.queue.texts =
      b.script.queue.texts ++ textsBehind b.text tokens := by
  induction tokens with
  | nil => exact texts_addText
  | cons token tokens ih =>
    intro b
    rw [List.foldl_cons, ih, textsBehind]
    split
    · rename_i hends
      have hread := readToken_of_endsText hends b
      rw [hread.texts, hread.text, texts_addText, text_addText, List.append_assoc]
    · rename_i hgoOn
      have hread := readToken_of_goOn (Bool.eq_false_iff.mpr hgoOn) b
      rw [hread.texts, hread.text]

end Builder

/-! ### Scripts -/

theorem texts_ofTokens (declared : List String) (tokens : List Token) :
    (ofTokens declared tokens).1.queue.texts = textsBehind "" tokens := by
  rw [script_ofTokens]
  exact (Queue.texts_relate _ _).trans ((Builder.texts_foldl tokens { declared }).trans rfl)

/-- **Text is neither lost nor doubled nor moved.** The texts of a script are the contents of its
text tokens in order, and none is empty. Each text token that has a content is shown by one text,
and two of them by the same exactly if every token between them is a text or a tag that defines
variables. -/
theorem texts_show_contents (declared : List String) (tokens : List Token) :
    let texts := (ofTokens declared tokens).1.queue.texts
    String.join texts = contents tokens ∧ (∀ text ∈ texts, text ≠ "") ∧
      (∀ before token after, tokens = before ++ token :: after → token.content ≠ "" →
        ∃ i, ∀ j, Shows texts j before token ↔ j = i) ∧
      ∀ before first between second after,
        tokens = before ++ first :: (between ++ second :: after) →
          first.content ≠ "" → second.content ≠ "" →
            ((∃ i, Shows texts i before first ∧ Shows texts i (before ++ first :: between) second) ↔
              ∀ t ∈ between, t.endsText = false) := by
  intro texts
  have htexts : texts = textsBehind "" tokens := texts_ofTokens declared tokens
  rw [htexts]
  refine ⟨?_, fun text => ne_empty_of_mem_textsBehind tokens "", ?_, ?_⟩
  · rw [join_textsBehind, String.empty_append]
  · rintro before token after rfl hcontent
    exact exists_shows hcontent
  · rintro before first between second after rfl hfirst hsecond
    exact exists_shows_both_iff hfirst hsecond

/-- A text with a definition of variables in its middle, behind a label that is refused. -/
def greeting : List Token :=
  [⟨.text "Hel", "", {}⟩, tagToken "VAR" [⟨"a", "1"⟩], ⟨.text "lo", "", {}⟩, ⟨.label "" "", "", {}⟩,
    ⟨.text "you", "", {}⟩]

theorem texts_show_greeting :
    let texts := (ofTokens [] greeting).1.queue.texts
    (∃ i, Shows texts i [] ⟨.text "Hel", "", {}⟩ ∧
      Shows texts i (greeting.take 2) ⟨.text "lo", "", {}⟩) ∧
    ¬ ∃ i, Shows texts i (greeting.take 2) ⟨.text "lo", "", {}⟩ ∧
      Shows texts i (greeting.take 4) ⟨.text "you", "", {}⟩ := by
  intro texts
  have hshow := (texts_show_contents [] greeting).2.2.2
  refine ⟨?_, fun h => ?_⟩
  · refine (hshow [] ⟨.text "Hel", "", {}⟩ [tagToken "VAR" [⟨"a", "1"⟩]] ⟨.text "lo", "", {}⟩
      (greeting.drop 3) rfl (by decide) (by decide)).mpr ?_
    decide
  · have hbetween := (hshow (greeting.take 2) ⟨.text "lo", "", {}⟩ [⟨.label "" "", "", {}⟩]
      ⟨.text "you", "", {}⟩ [] rfl (by decide) (by decide)).mp h
    exact absurd (hbetween _ List.mem_cons_self) (by decide)

end NovelScript.Script
