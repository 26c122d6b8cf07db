import NovelScript.Proofs.Parsing.Display
import NovelScript.Proofs.Parsing.Splitting

/-!
Operands that are one name or one literal, perhaps negated. Main statements: the text of such a term
is its tokens, and behind its tokens an operand has been read, which is the expression of the term.
-/

namespace NovelScript.Expr

open NovelScript.Expr.Parser

variable {c quote : Char} {cs rest body content : List Char} {t : Token} {ts us : List Token}

/-! ### Terms -/

/-- A row of at least one digit. -/
structure Digits where
  first : Char
  more : List Char
  isDigit : ∀ c ∈ first :: more, c.isDigit

/-- The digits from left to right. -/
def Digits.toList (digits : Digits) : List Char := digits.first :: digits.more

/-- A name or a literal as it is written. -/
inductive Atom
  | identifier (name : String) (hname : IsName name)
  | boolean (value : Bool)
  /-- A string in quotes, where the body stands for the content. -/
  | string (quote : Char) (body content : List Char) (hquote : quote = '"' ∨ quote = '\'')
      (hbody : Body quote body content)
  /-- A number with digits on both sides of its point. -/
  | double (whole places : Digits)
  /-- A number of 32 bits. -/
  | integer (digits : Digits) (hrange : Text.digitsValue digits.toList < 2147483648)

/-- An atom, perhaps behind a negation. -/
structure Term where
  negated : Bool
  atom : Atom

/-- A token without its place. -/
def Token.unplaced (t : Token) : TokenKind × String := (t.kind, t.text)

namespace Atom

/-- The characters an atom is written with. -/
def text : Atom → List Char
  | identifier name _ => name.toList
  | boolean value => (toString value).toList
  | string quote body _ _ _ => quote :: body ++ [quote]
  | double whole places => whole.toList ++ '.' :: places.toList
  | integer digits _ => digits.toList

/-- The token that an atom is. -/
def unplaced : Atom → TokenKind × String
  | identifier name _ => (.identifier, name)
  | boolean value => (if value then .true else .false, toString value)
  | string _ _ content _ _ => (.string, String.ofList content)
  | double whole places => (.double, String.ofList (whole.toList ++ '.' :: places.toList))
  | integer digits _ => (.integer, String.ofList digits.toList)

/-- The expression that an atom is. -/
def expression : Atom → Expression
  | identifier name _ => .identifier name
  | boolean value => .boolean value
  | string _ _ content _ _ => .string (String.ofList content)
  | double whole places => .double (Decimal.Numeral.toFloat
      ⟨Text.digitsValue (whole.toList ++ places.toList), -(places.toList.length : Int)⟩)
  | integer digits _ => .integer (Int32.ofInt (Text.digitsValue digits.toList))

end Atom

namespace Term

/-- The characters a term is written with. -/
def text (term : Term) : List Char :=
  if term.negated then '!' :: term.atom.text else term.atom.text

/-- The tokens that a term is. -/
def unplaced (term : Term) : List (TokenKind × String) :=
  if term.negated then [(.bang, "!"), term.atom.unplaced] else [term.atom.unplaced]

/-- The expression that a term is. -/
def expression (term : Term) : Expression :=
  if term.negated then .unary .not term.atom.expression else term.atom.expression

end Term

/-! ### Numbers and strings -/

theorem Digits.all_isDigit (digits : Digits) : ∀ c ∈ digits.toList, c.isDigit :=
  digits.isDigit

@[simp] theorem Digits.toList_ne_nil (digits : Digits) : digits.toList ≠ [] :=
  List.cons_ne_nil _ _

theorem toLower_of_isDigit (hc : c.isDigit) : c.toLower = c := by
  simp only [Char.isDigit, Bool.and_eq_true, decide_eq_true_eq] at hc
  have hupper : ¬ (c.val ≥ 'A'.val ∧ c.val ≤ 'Z'.val) := by
    rintro ⟨hlow, -⟩
    exact absurd (UInt32.le_trans hlow hc.2) (by decide)
  exact dif_neg hupper

/-- What begins with a digit is none of the words for numbers. -/
theorem readUnsigned?_digits (digits : Digits) (cs : List Char) :
    Decimal.readUnsigned? (digits.toList ++ cs) =
      (Decimal.readNumeral? (digits.toList ++ cs)).map Decimal.Numeral.toFloat := by
  have hfirst := digits.isDigit digits.first List.mem_cons_self
  have hword : ∀ d ds, d.isDigit = false →
      String.ofList ((digits.toList ++ cs).map Char.toLower) ≠ String.ofList (d :: ds) := by
    intro d ds hd heq
    have hhead := (List.cons.inj (String.ofList_injective heq)).1
    rw [toLower_of_isDigit hfirst] at hhead
    rw [hhead, hd] at hfirst
    cases hfirst
  have hinf := hword 'i' ['n', 'f'] rfl
  have hinfinity := hword 'i' ['n', 'f', 'i', 'n', 'i', 't', 'y'] rfl
  have hnan := hword 'n' ['a', 'n'] rfl
  unfold Decimal.readUnsigned?
  generalize String.ofList ((digits.toList ++ cs).map Char.toLower) = word at hinf hinfinity hnan
  dsimp only
  rw [if_neg, if_neg hnan]
  simpa using ⟨hinf, hinfinity⟩

theorem readNumeral?_double (whole places : Digits) :
    Decimal.readNumeral? (whole.toList ++ '.' :: places.toList) =
      some ⟨Text.digitsValue (whole.toList ++ places.toList), -(places.toList.length : Int)⟩ := by
  have hwhole : (whole.toList ++ '.' :: places.toList).takeWhile Char.isDigit = whole.toList := by
    rw [List.takeWhile_append_of_pos whole.all_isDigit, List.takeWhile_cons_of_neg (by decide),
      List.append_nil]
  have hbehind : (whole.toList ++ '.' :: places.toList).dropWhile Char.isDigit =
      '.' :: places.toList := by
    rw [List.dropWhile_append_of_pos whole.all_isDigit, List.dropWhile_cons_of_neg (by decide)]
  have hplaces := List.takeWhile_eq_self_iff.mpr places.all_isDigit
  have hnothing := List.dropWhile_eq_nil_iff.mpr places.all_isDigit
  simp [Decimal.readNumeral?, hwhole, hbehind, hplaces, hnothing, Decimal.readExponent?]

/-- A sign is no digit. -/
theorem Digits.ne_cons (digits : Digits) (hc : c.isDigit = false) (cs more : List Char) :
    digits.toList ++ cs ≠ c :: more := by
  intro heq
  have hfirst := digits.isDigit digits.first List.mem_cons_self
  rw [(List.cons.inj heq).1, hc] at hfirst
  cases hfirst

theorem readFloat?_double (whole places : Digits) :
    Decimal.readFloat? (String.ofList (whole.toList ++ '.' :: places.toList)) =
      some (Decimal.Numeral.toFloat
        ⟨Text.digitsValue (whole.toList ++ places.toList), -(places.toList.length : Int)⟩) := by
  unfold Decimal.readFloat?
  rw [String.toList_ofList]
  split
  · rename_i heq
    exact absurd heq (whole.ne_cons (by decide) _ _)
  · rename_i heq
    exact absurd heq (whole.ne_cons (by decide) _ _)
  · rw [readUnsigned?_digits, readNumeral?_double]
    rfl

theorem readInt32?_digits {digits : Digits} (hrange : Text.digitsValue digits.toList < 2147483648) :
    Text.readInt32? (String.ofList digits.toList) =
      some (Int32.ofInt (Text.digitsValue digits.toList)) := by
  have hread := Text.readInteger?_of_digits digits.toList_ne_nil digits.all_isDigit
  rw [Text.readInt32?_of_readInteger? hread, if_pos (by omega)]

/-- A string ends at the quote behind its body. -/
theorem Body.string? (h : Body quote body content) (hquote : quote ≠ '\\') (rest : List Char) :
    Lexeme.string? quote (body ++ quote :: rest) = some (content, body.length + 1) := by
  induction h with
  | nil =>
    rw [List.nil_append, Lexeme.string?.eq_4]
    · simp
    · exact fun hslash => absurd hslash hquote
    · exact fun _ _ hslash => absurd hslash hquote
  | newline _ ih | tabulator _ ih => simp [Lexeme.string?, ih, Lexeme.unescape]
  | escaped hc _ ih => simp [Lexeme.string?, ih, Lexeme.unescape, hc]
  | plain hc _ ih =>
    rw [List.cons_append, Lexeme.string?.eq_4]
    · simp [hc.2, ih]
    · exact fun hslash => absurd hslash hc.1
    · exact fun _ _ hslash => absurd hslash hc.1

/-! ### Terms as operands -/

/-- The token of an atom is an operand, whatever stands behind it. -/
theorem operand_atom (inner : Inner) {atom : Atom} (ht : t.unplaced = atom.unplaced)
    (rest : List Token) : operand inner (t :: rest) = .ok (atom.expression, rest) := by
  obtain ⟨hkind, htext⟩ := Prod.mk.inj ht
  rw [operand, peek_cons_bind, hkind]
  cases atom with
  | identifier name hname => simp [Atom.expression, htext]
  | boolean value => cases value <;> simp [Atom.expression]
  | string quote body content hquote hbody => simp [Atom.expression, htext]
  | double whole places =>
    have hread := (congrArg Decimal.readFloat? htext).trans (readFloat?_double whole places)
    simp [Atom.expression, hread]
  | integer digits hrange =>
    have hread := (congrArg Text.readInt32? htext).trans (readInt32?_digits hrange)
    simp [Atom.expression, integer, hread]

/-- The tokens of a term are an operand, where nothing behind them binds tighter than a negation. -/
theorem operand_term {levels : Nat} {term : Term} (hts : ts.map Token.unplaced = term.unplaced)
    {rest : List Token} (hstop : ¬ Precedence.unary < (firstToken rest).kind.precedence) :
    operand (within (levels + 1)) (ts ++ rest) = .ok (term.expression, rest) := by
  unfold Term.unplaced at hts
  unfold Term.expression
  split at hts
  · rename_i hnegated
    obtain ⟨bang, us, rfl, hbang, hus⟩ := List.map_eq_cons_iff.mp hts
    obtain ⟨t, rfl, ht⟩ := List.map_eq_singleton_iff.mp hus
    have hkind : bang.kind = .bang := congrArg Prod.fst hbang
    have hinner : (within (levels + 1)).expression .unary (t :: rest) =
        .ok (term.atom.expression, rest) :=
      (expression_of_operand (operand_atom (within levels) ht rest)).trans
        (operators_stop hstop rest.length)
    rw [if_pos hnegated, List.cons_append, List.singleton_append, operand, peek_cons_bind, hkind]
    show (advance >>= fun _ => (within (levels + 1)).expression .unary >>= fun value =>
      pure (Expression.unary .not value)) (bang :: t :: rest) = _
    rw [advance_cons_bind, bind_ok _ hinner]
    rfl
  · rename_i hplain
    obtain ⟨t, rfl, ht⟩ := List.map_eq_singleton_iff.mp hts
    rw [if_neg hplain]
    exact operand_atom _ ht rest

/-! ### Terms as text -/

theorem tokensFrom_string (hquote : quote = '"' ∨ quote = '\'') (hbody : Body quote body content)
    (rest : List Char) (p : Position) :
    tokensFrom 0 p (quote :: (body ++ [quote]) ++ rest) =
      ⟨.string, String.ofList content, p⟩ ::
        tokensFrom 0 (p.after (quote :: (body ++ [quote]))) rest := by
  have hsign : Text.isBlank quote = false ∧ quote.isDigit = false ∧ quote ≠ '\\' := by
    rcases hquote with rfl | rfl <;> decide
  obtain ⟨hblank, hdigit, hslash⟩ := hsign
  refine tokensFrom_lexeme (body ++ [quote]) hblank ?_
  have hread := hbody.string? hslash rest
  simp [Lexeme.read, Lexeme.string, hdigit, hquote, hread]

theorem tokensFrom_double (whole places : Digits) {rest : List Char} (hrest : Closes rest)
    (p : Position) :
    tokensFrom 0 p (whole.toList ++ '.' :: places.toList ++ rest) =
      ⟨.double, String.ofList (whole.toList ++ '.' :: places.toList), p⟩ ::
        tokensFrom 0 (p.after (whole.toList ++ '.' :: places.toList)) rest := by
  obtain ⟨hfirst, hmore⟩ := List.forall_mem_cons.mp whole.isDigit
  have hwhole : (whole.more ++ '.' :: (places.toList ++ rest)).takeWhile Char.isDigit =
      whole.more := by
    rw [List.takeWhile_append_of_pos hmore, List.takeWhile_cons_of_neg (by decide),
      List.append_nil]
  have hplaces := hrest.takeWhile_append (q := Char.isDigit) (by decide) places.all_isDigit
  refine tokensFrom_lexeme (whole.more ++ '.' :: places.toList) (isBlank_of_isDigit hfirst) ?_
  rw [Lexeme.read, if_pos hfirst, List.append_assoc, List.cons_append]
  simp only [Lexeme.number, hwhole, List.drop_left, hplaces]
  simp [Digits.toList]
  omega

/-- The text of an atom, in front of what closes it, is its token. -/
theorem tokensFrom_atom (atom : Atom) {rest : List Char} (hrest : Closes rest) (p : Position) :
    ∃ t p', tokensFrom 0 p (atom.text ++ rest) = t :: tokensFrom 0 p' rest ∧
      t.unplaced = atom.unplaced := by
  cases atom with
  | identifier name hname => exact ⟨_, _, tokensFrom_name hname hrest p, rfl⟩
  | boolean value => exact ⟨_, _, tokensFrom_boolean value hrest p, rfl⟩
  | string quote body content hquote hbody =>
    exact ⟨_, _, tokensFrom_string hquote hbody rest p, rfl⟩
  | double whole places => exact ⟨_, _, tokensFrom_double whole places hrest p, rfl⟩
  | integer digits hrange =>
    obtain ⟨hc, hcs⟩ := List.forall_mem_cons.mp digits.isDigit
    exact ⟨_, _, tokensFrom_digits hc hcs hrest.closesNumber p, rfl⟩

/-- No atom begins with an equals sign. -/
theorem Atom.head?_text (atom : Atom) (rest : List Char) : (atom.text ++ rest).head? ≠ some '=' := by
  have hdigits : ∀ digits : Digits, digits.first ≠ '=' := by
    rintro digits heq
    have hfirst := digits.isDigit digits.first List.mem_cons_self
    rw [heq] at hfirst
    exact absurd hfirst (by decide)
  cases atom with
  | identifier name hname =>
    obtain ⟨c, cs, hchars, hstart, -⟩ := hname.read
    have hc : c ≠ '=' := by
      rintro rfl
      exact absurd hstart (by decide)
    simpa [Atom.text, hchars] using hc
  | boolean value => cases value <;> exact of_decide_eq_false rfl
  | string quote body content hquote hbody =>
    rcases hquote with rfl | rfl <;> simp [Atom.text]
  | double whole places => simpa [Atom.text, Digits.toList] using hdigits whole
  | integer digits hrange => simpa [Atom.text, Digits.toList] using hdigits digits

/-- The text of a term, in front of what closes it, is its tokens. -/
theorem tokensFrom_term (term : Term) {rest : List Char} (hrest : Closes rest) (p : Position) :
    ∃ ts p', tokensFrom 0 p (term.text ++ rest) = ts ++ tokensFrom 0 p' rest ∧
      ts.map Token.unplaced = term.unplaced := by
  unfold Term.text Term.unplaced
  split
  · obtain ⟨t, p', hread, ht⟩ := tokensFrom_atom term.atom hrest (p.next '!')
    refine ⟨[⟨.bang, "!", p⟩, t], p', ?_, ?_⟩
    · rw [List.cons_append, tokensFrom_bang (term.atom.head?_text rest), hread]
      rfl
    · simp [Token.unplaced, ← ht]
  · obtain ⟨t, p', hread, ht⟩ := tokensFrom_atom term.atom hrest p
    exact ⟨[t], p', hread, by simp [ht]⟩

end NovelScript.Expr
