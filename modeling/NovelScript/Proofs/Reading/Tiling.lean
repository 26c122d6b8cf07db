import NovelScript.Script.Token.Lexer

/-!
Tokens that make up a text. A text is tiled by tokens if they stand one behind the other, with
nothing but line breaks and the blanks before markers between them. Main statement: tiles cover the
text, each at its own place. What the literal of a text stands for is defined here as well.
-/

namespace NovelScript.Script

variable {cs ds literal content blanks : List Char} {c : Char} {ts : List Token}

/-! ### Literals of texts -/

/-- Whether a character ends a line. -/
def IsBreak (c : Char) : Prop := c = '\n' ∨ c = '\r'

/-- Whether a character may stand before the marker of a line. -/
def IsIndent (c : Char) : Prop := c = ' ' ∨ c = '\t'

/-- What a literal of text stands for, read once from left to right: a backslash before a character
with a meaning of its own makes it plain, line breaks are dropped, and all else stays. -/
def plain : List Char → List Char
  | [] => []
  | ['\\'] => ['\\']
  | '\\' :: c :: cs =>
    if c ∈ ['[', ']', '\\', '@', ':'] then c :: plain cs else '\\' :: plain (c :: cs)
  | c :: cs => if c = '\n' || c = '\r' then plain cs else c :: plain cs

example : plain "a\\@b\\c\\\\[\n".toList = "a@b\\c\\[".toList := by decide

theorem plain_of_isBreak (hc : IsBreak c) (cs : List Char) : plain (c :: cs) = plain cs := by
  rcases hc with rfl | rfl <;> simp [plain]

theorem plain_cons (hc : c ≠ '\n' ∧ c ≠ '\r' ∧ c ≠ '\\') (cs : List Char) :
    plain (c :: cs) = c :: plain cs := by
  rw [plain] <;> simp [hc]

theorem plain_escaped (hc : Lexer.isEscapable c = true) (cs : List Char) :
    plain ('\\' :: c :: cs) = c :: plain cs := by
  rw [plain, if_pos (by simpa [Lexer.isEscapable, or_assoc] using hc)]

/-- A backslash is plain itself where no character with a meaning of its own follows. -/
theorem plain_backslash (hcs : ∀ c ∈ cs.head?, Lexer.isEscapable c = false) :
    plain ('\\' :: cs) = '\\' :: plain cs := by
  cases cs with
  | nil => rfl
  | cons c cs =>
    rw [plain, if_neg (by simpa [Lexer.isEscapable, and_assoc] using hcs c rfl)]

theorem plain_breaks (hcs : ∀ c ∈ cs, IsBreak c) (more : List Char) :
    plain (cs ++ more) = plain more := by
  induction cs with
  | nil => rfl
  | cons c cs ih =>
    obtain ⟨hc, hrest⟩ := List.forall_mem_cons.mp hcs
    rw [List.cons_append, plain_of_isBreak hc, ih hrest]

/-- The literal stands for the content, whatever follows. -/
def Spells (literal content : List Char) : Prop :=
  ∀ more, plain (literal ++ more) = content ++ plain more

/-- The literal stands for the content, unless a backslash at its end makes what follows plain. -/
def SpellsAlone (literal content : List Char) : Prop :=
  ∀ more, (∀ c ∈ more.head?, Lexer.isEscapable c = false) →
    plain (literal ++ more) = content ++ plain more

theorem Spells.alone (h : Spells literal content) : SpellsAlone literal content :=
  fun more _ => h more

theorem spells_single (hc : c ≠ '\n' ∧ c ≠ '\r' ∧ c ≠ '\\') : Spells [c] [c] :=
  fun more => plain_cons hc more

theorem spells_blanks (hcs : ∀ c ∈ cs, IsIndent c) : Spells cs cs := by
  intro more
  induction cs with
  | nil => rfl
  | cons c cs ih =>
    obtain ⟨hc, hrest⟩ := List.forall_mem_cons.mp hcs
    have hplain : c ≠ '\n' ∧ c ≠ '\r' ∧ c ≠ '\\' := by rcases hc with rfl | rfl <;> decide
    rw [List.cons_append, plain_cons hplain, ih hrest, List.cons_append]

theorem spells_escaped (hc : Lexer.isEscapable c = true) : Spells ['\\', c] [c] :=
  fun more => plain_escaped hc more

theorem spellsAlone_backslash : SpellsAlone ['\\'] ['\\'] :=
  fun _ hmore => plain_backslash hmore

/-- Behind a line break nothing is made plain by what stands before it. -/
theorem SpellsAlone.append_breaks (h : SpellsAlone literal content) (hds : ∀ c ∈ ds, IsBreak c)
    (hne : ds ≠ []) : Spells (literal ++ ds) content := by
  intro more
  obtain ⟨d, rest, rfl⟩ := List.exists_cons_of_ne_nil hne
  have hfirst : ∀ c ∈ (d :: rest ++ more).head?, Lexer.isEscapable c = false := by
    intro c hc
    obtain rfl := Option.some.inj hc
    rcases hds d List.mem_cons_self with rfl | rfl <;> rfl
  rw [List.append_assoc, h _ hfirst, plain_breaks hds]

theorem SpellsAlone.plain_eq (h : SpellsAlone literal content) : plain literal = content := by
  simpa [plain] using h [] (by simp)

/-! ### Tokens and what is between them -/

namespace Token

/-- The offset of the first byte. -/
def start (t : Token) : Nat := t.position.offset

/-- The offset behind the last byte. -/
def stop (t : Token) : Nat := t.start + t.literal.utf8ByteSize

/-- Whether the byte at the offset belongs to the token. -/
def Covers (t : Token) (offset : Nat) : Prop := t.start ≤ offset ∧ offset < t.stop

/-- A text stands for what its literal says. -/
def IsSpelled (t : Token) : Prop :=
  ∀ content, t.kind = .text content → content.toList = plain t.literal.toList

end Token

/-- The characters end where a line begins. -/
def AtLineStart (cs : List Char) : Prop := cs = [] ∨ cs.getLast? = some '\n'

/-- Whether a character marks its line as a label or a tag line. -/
def IsMarker (c : Char) : Prop := c = ':' ∨ c = '@'

/-- The character between `before` and `behind` is one of the blanks that a line begins with before
its marker. -/
def BeforeMarker (before : List Char) (c : Char) (behind : List Char) : Prop :=
  ∃ earlier blanks more marker rest, before = earlier ++ blanks ∧ behind = more ++ marker :: rest ∧
    AtLineStart earlier ∧ (∀ b ∈ blanks ++ c :: more, IsIndent b) ∧ IsMarker marker

/-- Behind `cs` and some blanks, a token may begin like this. There are blanks only at the start of
a line, and before a marker. -/
def Opens (cs blanks literal : List Char) : Prop :=
  ∃ first more, literal = first :: more ∧
    (blanks = [] ∨ AtLineStart cs ∧ (∀ b ∈ blanks, IsIndent b) ∧ IsMarker first)

theorem Opens.grow (h : Opens cs blanks literal) (c : Char) : Opens cs blanks (literal ++ [c]) := by
  obtain ⟨first, more, rfl, hblanks⟩ := h
  exact ⟨first, more ++ [c], rfl, hblanks⟩

/-- The characters are the tokens, one behind the other, with nothing but line breaks and the blanks
before markers between them and behind them. -/
inductive Tiles : List Char → List Token → Prop
  | nil : Tiles [] []
  | lineBreak {cs : List Char} {ts : List Token} {c : Char} (h : Tiles cs ts) (hc : IsBreak c) :
      Tiles (cs ++ [c]) ts
  | token {cs blanks : List Char} {ts : List Token} {t : Token} (h : Tiles cs ts)
      (hopens : Opens cs blanks t.literal.toList)
      (hposition : t.position = Position.after {} (cs ++ blanks)) (hspelled : t.IsSpelled) :
      Tiles (cs ++ blanks ++ t.literal.toList) (ts ++ [t])

theorem Tiles.lineBreaks (h : Tiles cs ts) (hds : ∀ c ∈ ds, IsBreak c) : Tiles (cs ++ ds) ts := by
  induction ds generalizing cs with
  | nil => rwa [List.append_nil]
  | cons d ds ih =>
    obtain ⟨hd, hrest⟩ := List.forall_mem_cons.mp hds
    have hall := ih (h.lineBreak hd) hrest
    rwa [List.append_assoc] at hall

/-- Each token has its place among the characters. -/
theorem Tiles.exists_place (h : Tiles cs ts) : ∀ t ∈ ts, ∃ before blanks behind,
    cs = before ++ blanks ++ t.literal.toList ++ behind ∧ Opens before blanks t.literal.toList ∧
      t.position = Position.after {} (before ++ blanks) ∧ t.IsSpelled := by
  induction h with
  | nil => exact fun t ht => absurd ht List.not_mem_nil
  | @lineBreak cs ts c _ _ ih =>
    intro t ht
    obtain ⟨before, blanks, behind, rfl, hplace⟩ := ih t ht
    exact ⟨before, blanks, behind ++ [c], by simp, hplace⟩
  | @token cs blanks ts u _ hopens hposition hspelled ih =>
    intro t ht
    rcases List.mem_append.mp ht with ht | ht
    · obtain ⟨before, blanks', behind, rfl, hplace⟩ := ih t ht
      exact ⟨before, blanks', behind ++ blanks ++ u.literal.toList, by simp, hplace⟩
    · obtain rfl := List.mem_singleton.mp ht
      exact ⟨cs, blanks, [], by simp, hopens, hposition, hspelled⟩

theorem Tiles.start_lt_stop (h : Tiles cs ts) : ∀ t ∈ ts, t.start < t.stop := by
  intro t ht
  obtain ⟨before, blanks, behind, -, ⟨first, more, hliteral, -⟩, -⟩ := h.exists_place t ht
  have hne : t.literal.utf8ByteSize ≠ 0 := by
    rw [Ne, String.utf8ByteSize_eq_zero_iff]
    rintro hempty
    rw [hempty] at hliteral
    cases hliteral
  unfold Token.stop
  omega

theorem Tiles.stop_le (h : Tiles cs ts) : ∀ t ∈ ts, t.stop ≤ (Position.after {} cs).offset := by
  intro t ht
  obtain ⟨before, blanks, behind, rfl, -, hposition, -⟩ := h.exists_place t ht
  simp [Token.stop, Token.start, hposition, String.ofList_append, Nat.add_assoc]

/-- Each token ends before the next one starts. -/
theorem Tiles.pairwise (h : Tiles cs ts) : ts.Pairwise fun t u => t.stop ≤ u.start := by
  induction h with
  | nil => exact .nil
  | lineBreak _ _ ih => exact ih
  | @token cs blanks ts u h _ hposition _ ih =>
    refine List.pairwise_append.mpr ⟨ih, List.pairwise_singleton .., fun t ht v hv => ?_⟩
    obtain rfl := List.mem_singleton.mp hv
    refine Nat.le_trans (h.stop_le t ht) ?_
    simp [Token.start, hposition, String.ofList_append]

theorem BeforeMarker.append {before behind : List Char} (h : BeforeMarker before c behind)
    (ds : List Char) : BeforeMarker before c (behind ++ ds) := by
  obtain ⟨earlier, blanks, more, marker, rest, hbefore, rfl, hline⟩ := h
  exact ⟨earlier, blanks, more, marker, rest ++ ds, hbefore, by simp, hline⟩

/-- A character of two texts is one of the first or one of the second. -/
theorem eq_of_append_eq {before behind : List Char} (h : cs ++ ds = before ++ c :: behind) :
    (∃ more, cs = before ++ c :: more ∧ behind = more ++ ds) ∨
      ∃ earlier, before = cs ++ earlier ∧ ds = earlier ++ c :: behind := by
  rcases List.append_eq_append_iff.mp h with hsecond | ⟨first, rfl, hfirst⟩
  · exact .inr hsecond
  · cases first with
    | nil => exact .inr ⟨[], by simp, hfirst.symm⟩
    | cons d first =>
      obtain ⟨rfl, rfl⟩ := List.cons.inj hfirst
      exact .inl ⟨first, rfl, rfl⟩

/-- A character inside of the literal is covered by the token. -/
theorem covers_of_literal {t : Token} {before earlier behind : List Char}
    (hposition : t.position = Position.after {} before)
    (hliteral : t.literal.toList = earlier ++ c :: behind) :
    t.Covers (Position.after {} (before ++ earlier)).offset := by
  have hsize : t.literal.utf8ByteSize = (String.ofList (earlier ++ c :: behind)).utf8ByteSize := by
    rw [← hliteral, String.ofList_toList]
  have hc : 0 < c.utf8Size := c.utf8Size_pos
  simp only [Token.Covers, Token.stop, Token.start, hposition, hsize, Position.offset_after,
    String.ofList_append, String.utf8ByteSize_append, String.ofList_cons,
    String.utf8ByteSize_singleton]
  omega

/-- A character that belongs to no token is a line break or a blank before a marker. -/
theorem Tiles.uncovered (h : Tiles cs ts) : ∀ before c behind, cs = before ++ c :: behind →
    (∀ t ∈ ts, ¬ t.Covers (Position.after {} before).offset) →
      IsBreak c ∨ BeforeMarker before c behind := by
  induction h with
  | nil =>
    intro before c behind hcs
    simp at hcs
  | @lineBreak cs ts d _ hd ih =>
    intro before c behind hcs hfree
    rcases eq_of_append_eq hcs with ⟨more, hmore, rfl⟩ | ⟨earlier, rfl, hlast⟩
    · exact (ih before c more hmore hfree).imp_right fun hmarker => hmarker.append [d]
    · cases earlier with
      | nil =>
        obtain ⟨rfl, -⟩ := List.cons.inj hlast
        exact .inl hd
      | cons e earlier => simp at hlast
  | @token cs blanks ts u h hopens hposition _ ih =>
    intro before c behind hcs hfree
    obtain ⟨first, rest, hliteral, hblanks⟩ := hopens
    have hfree' : ∀ t ∈ ts, ¬ t.Covers (Position.after {} before).offset :=
      fun t ht => hfree t (List.mem_append_left _ ht)
    rcases eq_of_append_eq hcs with ⟨more, hmore, rfl⟩ | ⟨earlier, rfl, hinside⟩
    · rcases eq_of_append_eq hmore with ⟨more, rfl, rfl⟩ | ⟨earlier, rfl, rfl⟩
      · exact (ih before c more rfl hfree').imp_right fun hmarker => (hmarker.append _).append _
      · -- one of the blanks before the token
        rcases hblanks with hnone | ⟨hline, hindent, hmarker⟩
        · simp at hnone
        · exact .inr ⟨cs, earlier, more, first, rest, rfl, by rw [hliteral], hline, hindent, hmarker⟩
    · exact absurd (covers_of_literal hposition hinside) (hfree u (by simp))

/-! ### Covered texts -/

/-- The tokens cover the source but for what no token is made of. -/
structure Covered (source : String) (ts : List Token) : Prop where
  /-- No token is empty. -/
  nonempty : ∀ t ∈ ts, t.start < t.stop
  /-- The tokens stand one behind the other. -/
  ordered : ts.Pairwise fun t u => t.stop ≤ u.start
  /-- The literal of a token is what the source has in its place. -/
  placed : ∀ t ∈ ts, ∃ before behind, source.toList = before ++ t.literal.toList ++ behind ∧
    t.position = Position.after {} before
  /-- Between the tokens there are line breaks, and blanks before the marker of a line. -/
  gaps : ∀ before c behind, source.toList = before ++ c :: behind →
    (∀ t ∈ ts, ¬ t.Covers (Position.after {} before).offset) → IsBreak c ∨ BeforeMarker before c behind
  /-- A text stands for its literal, read once from left to right. -/
  spelled : ∀ t ∈ ts, ∀ content, t.kind = .text content → content.toList = plain t.literal.toList

theorem Tiles.covered {source : String} (h : Tiles source.toList ts) : Covered source ts := by
  refine ⟨h.start_lt_stop, h.pairwise, fun t ht => ?_, h.uncovered, fun t ht => ?_⟩
  · obtain ⟨before, blanks, behind, hsource, -, hposition, -⟩ := h.exists_place t ht
    exact ⟨before ++ blanks, behind, hsource, hposition⟩
  · obtain ⟨before, blanks, behind, -, -, -, hspelled⟩ := h.exists_place t ht
    exact hspelled

end NovelScript.Script
