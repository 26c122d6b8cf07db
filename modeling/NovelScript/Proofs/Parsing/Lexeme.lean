import Mathlib.Data.List.TakeWhile
import NovelScript.Expr.Tree.Parser

/-!
The tokens of words, numbers and signs where they stand in front of other text. A blank, a
parenthesis or a comma ends every token, so that what stands before it is read as if it stood
alone.
-/

namespace NovelScript.Expr

/-- The token that an operator is. -/
def BinaryOp.kind : BinaryOp → TokenKind
  | add => .plus
  | subtract => .minus
  | multiply => .asterisk
  | divide => .slash
  | less => .less
  | greater => .greater
  | lessEqual => .lessEqual
  | greaterEqual => .greaterEqual
  | equal => .equal
  | notEqual => .notEqual
  | and => .and
  | or => .or

variable {p : Position} {c : Char} {cs rest : List Char} {kind : TokenKind} {text name : String}

/-- The characters behind which no token that stands before them goes on. -/
def closers : List Char := [' ', '(', ')', ',']

/-- The characters begin with none that a token before them could go on with. -/
def Closes (rest : List Char) : Prop := ∀ c ∈ rest.head?, c ∈ closers

theorem closes_nil : Closes [] := by simp [Closes]

theorem closes_cons (hc : c ∈ closers) : Closes (c :: cs) := by
  intro d hd
  obtain rfl := Option.some.inj hd
  exact hc

/-- In front of what closes a token, a row of characters of one kind ends where it does. -/
theorem Closes.takeWhile_append {q : Char → Bool} (hrest : Closes rest)
    (hq : closers.any q = false) (hcs : ∀ c ∈ cs, q c) : (cs ++ rest).takeWhile q = cs := by
  rw [List.takeWhile_append_of_pos hcs]
  cases rest with
  | nil => exact List.append_nil cs
  | cons c rest =>
    have hc : ¬ q c = true := List.any_eq_false.mp hq c (hrest c rfl)
    simp [hc]

/-! ### One token -/

theorem tokensFrom_append (cs rest : List Char) : ∀ p : Position,
    tokensFrom cs.length p (cs ++ rest) = tokensFrom 0 (p.after cs) rest := by
  induction cs with
  | nil => exact fun p => rfl
  | cons c cs ih => exact fun p => ih (p.next c)

theorem tokensFrom_lexeme (cs : List Char) (hc : Text.isBlank c = false)
    (h : Lexeme.read c (cs ++ rest) = ⟨kind, text, cs.length⟩) :
    tokensFrom 0 p (c :: cs ++ rest) =
      ⟨kind, text, p⟩ :: tokensFrom 0 (p.after (c :: cs)) rest := by
  simp only [List.cons_append, tokensFrom, hc, h, Bool.false_eq_true, if_false, tokensFrom_append]
  rfl

@[simp] theorem tokensFrom_space (p : Position) (cs : List Char) :
    tokensFrom 0 p (' ' :: cs) = tokensFrom 0 (p.next ' ') cs := by
  simp only [tokensFrom, show Text.isBlank ' ' = true by decide, if_true]

/-! ### Words -/

theorem word_append (hcs : ∀ c ∈ cs, isWordPart edition c) (hrest : Closes rest) :
    Lexeme.word c (cs ++ rest) = Lexeme.word c cs := by
  simp only [Lexeme.word, hrest.takeWhile_append (by decide) hcs,
    List.takeWhile_eq_self_iff.mpr hcs]

theorem read_eq_word (hdigit : c.isDigit = false) (hquote : c ≠ '"' ∧ c ≠ '\'')
    (hstart : isWordStart edition c) : Lexeme.read c cs = Lexeme.word c cs := by
  simp [Lexeme.read, hdigit, hquote, hstart]

theorem number_kind_ne (c : Char) (cs : List Char) : (Lexeme.number c cs).kind ≠ .identifier := by
  unfold Lexeme.number
  dsimp only
  split
  · split <;> simp
  · simp

theorem string_kind_ne (c : Char) (cs : List Char) : (Lexeme.string c cs).kind ≠ .identifier := by
  unfold Lexeme.string
  split <;> simp

theorem single_ne_identifier (c : Char) : Lexeme.single c ≠ .identifier := by
  unfold Lexeme.single
  split <;> simp

theorem pair?_ne_identifier (c d : Char) : Lexeme.pair? c d ≠ some .identifier := by
  unfold Lexeme.pair?
  split <;> simp

theorem symbol_kind_ne (c : Char) (cs : List Char) : (Lexeme.symbol c cs).kind ≠ .identifier := by
  unfold Lexeme.symbol
  split
  · rename_i kind second h
    obtain ⟨d, -, hpair⟩ := Option.bind_eq_some_iff.mp h
    obtain ⟨_, hkind, heq⟩ := Option.map_eq_some_iff.mp hpair
    obtain ⟨rfl, rfl⟩ := Prod.mk.inj heq
    rintro rfl
    exact pair?_ne_identifier _ _ hkind
  · exact single_ne_identifier c

/-- Only a word is read as an identifier. -/
theorem read_identifier (h : (Lexeme.read c cs).kind = .identifier) :
    c.isDigit = false ∧ (c ≠ '"' ∧ c ≠ '\'') ∧ isWordStart edition c := by
  unfold Lexeme.read at h
  split at h
  · exact absurd h (number_kind_ne c cs)
  · rename_i hdigit
    split at h
    · exact absurd h (string_kind_ne c cs)
    · rename_i hquote
      split at h
      · rename_i hstart
        exact ⟨by simpa using hdigit, by simpa [not_or] using hquote, hstart⟩
      · exact absurd h (symbol_kind_ne c cs)

/-- An identifier is no longer than the text it is read from. -/
theorem length_identifier_le (cs : List Char) : ∀ {skip : Nat} {p : Position} {t : Token},
    t ∈ tokensFrom skip p cs → t.kind = .identifier → t.text.length ≤ cs.length := by
  induction cs with
  | nil =>
    intro skip p t ht hkind
    obtain rfl := List.mem_singleton.mp ht
    cases hkind
  | cons c cs ih =>
    intro skip p t ht hkind
    have hrest : ∀ {skip : Nat} {p : Position}, t ∈ tokensFrom skip p cs →
        t.text.length ≤ (c :: cs).length :=
      fun h => Nat.le_succ_of_le (ih h hkind)
    cases skip with
    | succ skip => exact hrest ht
    | zero =>
      simp only [tokensFrom] at ht
      split at ht
      · exact hrest ht
      · rcases List.mem_cons.mp ht with rfl | ht
        · obtain ⟨hdigit, hquote, hstart⟩ := read_identifier hkind
          simp only [read_eq_word hdigit hquote hstart, Lexeme.word, String.length_ofList,
            List.length_cons]
          exact Nat.succ_le_succ (List.takeWhile_prefix _).length_le
        · exact hrest ht

/-- A word that is read as one identifier. -/
def IsName (name : String) : Prop :=
  (tokens name).map (fun t => (t.kind, t.text)) = [(.identifier, name), (.eof, "")]

instance (name : String) : Decidable (IsName name) :=
  inferInstanceAs (Decidable (_ = _))

/-- A name is one identifier also in front of what closes it. -/
theorem IsName.read (h : IsName name) : ∃ c cs, name.toList = c :: cs ∧
    isWordStart edition c ∧ Text.isBlank c = false ∧
    ∀ rest, Closes rest → Lexeme.read c (cs ++ rest) = ⟨.identifier, name, cs.length⟩ := by
  cases hname : name.toList with
  | nil => simp [IsName, tokens, hname, tokensFrom] at h
  | cons c cs =>
    refine ⟨c, cs, rfl, ?_⟩
    unfold IsName tokens at h
    rw [hname, tokensFrom] at h
    split at h
    · -- behind a blank the identifier would be shorter than the name
      have hmem : (TokenKind.identifier, name) ∈
          (tokensFrom 0 (Position.next {} c) cs).map fun t => (t.kind, t.text) := by
        rw [h]
        exact List.mem_cons_self
      obtain ⟨t, ht, heq⟩ := List.mem_map.mp hmem
      obtain ⟨hkind, rfl⟩ := Prod.mk.inj heq
      have hle := length_identifier_le cs ht hkind
      rw [← String.length_toList, hname, List.length_cons] at hle
      omega
    · rename_i hblank
      rw [List.map_cons] at h
      obtain ⟨hlexeme, -⟩ := List.cons.inj h
      obtain ⟨hkind, htext⟩ := Prod.mk.inj hlexeme
      obtain ⟨hdigit, hquote, hstart⟩ := read_identifier hkind
      simp only [read_eq_word hdigit hquote hstart] at hkind htext
      have hall : cs.takeWhile (isWordPart edition) = cs := by
        have hchars := congrArg String.toList htext
        rw [hname] at hchars
        simpa [Lexeme.word] using hchars
      have hword : Lexeme.word c cs = ⟨.identifier, name, cs.length⟩ := by
        rw [← hkind, ← htext]
        simp only [Lexeme.word, hall]
      refine ⟨hstart, by simpa using hblank, fun rest hrest => ?_⟩
      rw [read_eq_word hdigit hquote hstart,
        word_append (List.takeWhile_eq_self_iff.mp hall) hrest, hword]

theorem tokensFrom_name (h : IsName name) (hrest : Closes rest) (p : Position) :
    tokensFrom 0 p (name.toList ++ rest) =
      ⟨.identifier, name, p⟩ :: tokensFrom 0 (p.after name.toList) rest := by
  obtain ⟨c, cs, hname, -, hblank, hread⟩ := h.read
  rw [hname]
  exact tokensFrom_lexeme cs hblank (hread rest hrest)

theorem tokensFrom_word (hblank : Text.isBlank c = false) (hdigit : c.isDigit = false)
    (hquote : c ≠ '"' ∧ c ≠ '\'') (hstart : isWordStart edition c)
    (hcs : cs.all (isWordPart edition)) (hword : Lexeme.word c cs = ⟨kind, text, cs.length⟩)
    (hrest : Closes rest) (p : Position) :
    tokensFrom 0 p (c :: cs ++ rest) =
      ⟨kind, text, p⟩ :: tokensFrom 0 (p.after (c :: cs)) rest := by
  refine tokensFrom_lexeme cs hblank ?_
  rw [read_eq_word hdigit hquote hstart, word_append (List.all_eq_true.mp hcs) hrest, hword]

theorem tokensFrom_boolean (b : Bool) (hrest : Closes rest) (p : Position) :
    tokensFrom 0 p ((toString b).toList ++ rest) =
      ⟨if b then .true else .false, toString b, p⟩ ::
        tokensFrom 0 (p.after (toString b).toList) rest := by
  cases b <;> exact tokensFrom_word (by decide) (by decide) (by decide) (by decide)
    (by decide) (by decide +kernel) hrest p

/-! ### Numbers -/

/-- The characters begin with none that a row of digits before them could go on with. -/
def ClosesNumber (rest : List Char) : Prop := ∀ c ∈ rest.head?, c.isDigit = false ∧ c ≠ '.'

theorem Closes.closesNumber (hrest : Closes rest) : ClosesNumber rest := by
  have hall : (closers.all fun c => !c.isDigit && c != '.') = true := by decide
  intro c hc
  simpa using List.all_eq_true.mp hall c (hrest c hc)

theorem number_append (hcs : ∀ c ∈ cs, c.isDigit) (hrest : ClosesNumber rest) :
    Lexeme.number c (cs ++ rest) = ⟨.integer, String.ofList (c :: cs), cs.length⟩ := by
  have hwhole : (cs ++ rest).takeWhile Char.isDigit = cs := by
    rw [List.takeWhile_append_of_pos hcs]
    cases rest with
    | nil => exact List.append_nil cs
    | cons d rest => simp [(hrest d rfl).1]
  have hpoint : ∀ behind, rest ≠ '.' :: behind := by
    rintro behind rfl
    exact (hrest '.' rfl).2 rfl
  simp only [Lexeme.number, hwhole, List.drop_left]

theorem isBlank_of_isDigit (hc : c.isDigit) : Text.isBlank c = false := by
  simp only [Char.isDigit, Bool.and_eq_true, decide_eq_true_eq, UInt32.le_iff_toNat_le] at hc
  have hn : 48 ≤ c.toNat ∧ c.toNat ≤ 57 := hc
  simp [Text.isBlank, Text.inRanges]
  omega

/-- A row of digits is one integer. -/
theorem tokensFrom_digits (hc : c.isDigit) (hcs : ∀ c ∈ cs, c.isDigit)
    (hrest : ClosesNumber rest) (p : Position) :
    tokensFrom 0 p (c :: cs ++ rest) =
      ⟨.integer, String.ofList (c :: cs), p⟩ :: tokensFrom 0 (p.after (c :: cs)) rest := by
  refine tokensFrom_lexeme cs (isBlank_of_isDigit hc) ?_
  rw [Lexeme.read, if_pos hc]
  exact number_append hcs hrest

/-! ### Signs -/

/-- The characters that operators and delimiters are made of. -/
def signs : List Char :=
  ['(', ')', '{', '}', '[', ']', ',', ';', '=', '!', '-', '+', '*', '/', '<', '>', '&', '|']

theorem read_sign (cs : List Char) (hc : c ∈ signs) :
    Text.isBlank c = false ∧ Lexeme.read c cs = Lexeme.symbol c cs := by
  have hall : (signs.all fun c => !Text.isBlank c && !c.isDigit && (c ≠ '"' && c ≠ '\'') &&
      !isWordStart edition c) = true := by decide
  have hsign := List.all_eq_true.mp hall c hc
  simp only [Bool.and_eq_true, Bool.not_eq_true', decide_eq_true_eq] at hsign
  obtain ⟨⟨⟨hblank, hdigit⟩, hquote⟩, hstart⟩ := hsign
  exact ⟨hblank, by simp [Lexeme.read, hdigit, hquote, hstart]⟩

/-- A sign is a token by itself, unless it makes one together with the next character. -/
theorem tokensFrom_sign (hc : c ∈ signs) (hnext : ∀ d ∈ cs.head?, Lexeme.pair? c d = none)
    (p : Position) : tokensFrom 0 p (c :: cs) =
      ⟨Lexeme.single c, String.ofList [c], p⟩ :: tokensFrom 0 (p.next c) cs := by
  obtain ⟨hblank, hread⟩ := read_sign ([] ++ cs) hc
  refine tokensFrom_lexeme [] hblank (hread.trans ?_)
  have hnone : cs.head?.bind (fun d => (Lexeme.pair? c d).map (·, d)) = none := by
    refine Option.bind_eq_none_iff.mpr fun d hd => ?_
    rw [hnext d hd, Option.map_none]
  simp only [Lexeme.symbol, List.nil_append, hnone, List.length_nil]

@[simp] theorem tokensFrom_leftParen (p : Position) (cs : List Char) :
    tokensFrom 0 p ('(' :: cs) = ⟨.leftParen, "(", p⟩ :: tokensFrom 0 (p.next '(') cs :=
  tokensFrom_sign (by decide) (by simp [Lexeme.pair?]) p

@[simp] theorem tokensFrom_rightParen (p : Position) (cs : List Char) :
    tokensFrom 0 p (')' :: cs) = ⟨.rightParen, ")", p⟩ :: tokensFrom 0 (p.next ')') cs :=
  tokensFrom_sign (by decide) (by simp [Lexeme.pair?]) p

@[simp] theorem tokensFrom_comma (p : Position) (cs : List Char) :
    tokensFrom 0 p (',' :: cs) = ⟨.comma, ",", p⟩ :: tokensFrom 0 (p.next ',') cs :=
  tokensFrom_sign (by decide) (by simp [Lexeme.pair?]) p

@[simp] theorem tokensFrom_minus (p : Position) (cs : List Char) :
    tokensFrom 0 p ('-' :: cs) = ⟨.minus, "-", p⟩ :: tokensFrom 0 (p.next '-') cs :=
  tokensFrom_sign (by decide) (by simp [Lexeme.pair?]) p

@[simp] theorem tokensFrom_assign (p : Position) (cs : List Char) :
    tokensFrom 0 p ('=' :: ' ' :: cs) = ⟨.assign, "=", p⟩ :: tokensFrom 0 (p.next '=') (' ' :: cs) :=
  tokensFrom_sign (by decide) (by simp [Lexeme.pair?]) p

theorem tokensFrom_bang (h : cs.head? ≠ some '=') (p : Position) :
    tokensFrom 0 p ('!' :: cs) = ⟨.bang, "!", p⟩ :: tokensFrom 0 (p.next '!') cs := by
  refine tokensFrom_sign (by decide) (fun d hd => ?_) p
  have hne : d ≠ '=' := by
    rintro rfl
    exact h hd
  simp [Lexeme.pair?, hne]

theorem tokensFrom_pair {d : Char} (hc : c ∈ signs) (hpair : Lexeme.pair? c d = some kind)
    (p : Position) : tokensFrom 0 p (c :: d :: cs) =
      ⟨kind, String.ofList [c, d], p⟩ :: tokensFrom 0 (p.after [c, d]) cs := by
  obtain ⟨hblank, hread⟩ := read_sign ([d] ++ cs) hc
  refine tokensFrom_lexeme [d] hblank (hread.trans ?_)
  simp [Lexeme.symbol, hpair]

/-- The operators. -/
def operatorKinds : List TokenKind :=
  [.assign, .plus, .minus, .bang, .asterisk, .slash, .less, .greater, .lessEqual, .greaterEqual,
    .equal, .notEqual, .and, .or]

/-- The delimiters. -/
def delimiterKinds : List TokenKind :=
  [.comma, .semicolon, .leftParen, .rightParen, .leftBrace, .rightBrace, .leftBracket, .rightBracket]

/-- Nothing that closes a token makes a longer one together with it. -/
theorem Closes.pair?_eq_none (hrest : Closes rest) : ∀ d ∈ rest.head?, Lexeme.pair? c d = none := by
  intro d hd
  have hcloser := hrest d hd
  simp only [closers, List.mem_cons, List.not_mem_nil, or_false] at hcloser
  rcases hcloser with rfl | rfl | rfl | rfl <;> simp [Lexeme.pair?]

/-- An operator or delimiter in front of what closes it is one token. -/
theorem tokensFrom_symbol (hkind : kind ∈ operatorKinds ++ delimiterKinds) (hrest : Closes rest)
    (p : Position) : tokensFrom 0 p (kind.name.toList ++ rest) =
      ⟨kind, kind.name, p⟩ :: tokensFrom 0 (p.after kind.name.toList) rest := by
  have hsingle : ∀ c ∈ signs, kind.name = String.ofList [c] → kind = Lexeme.single c →
      tokensFrom 0 p (kind.name.toList ++ rest) =
        ⟨kind, kind.name, p⟩ :: tokensFrom 0 (p.after kind.name.toList) rest := by
    intro c hc hname hkind
    rw [hname, hkind, String.toList_ofList]
    exact tokensFrom_sign hc hrest.pair?_eq_none p
  have hpair : ∀ c d, c ∈ signs → kind.name = String.ofList [c, d] →
      Lexeme.pair? c d = some kind → tokensFrom 0 p (kind.name.toList ++ rest) =
        ⟨kind, kind.name, p⟩ :: tokensFrom 0 (p.after kind.name.toList) rest := by
    intro c d hc hname hpair
    rw [hname, String.toList_ofList]
    exact tokensFrom_pair hc hpair p
  cases kind with
  | assign => exact hsingle '=' (by decide) rfl rfl
  | plus => exact hsingle '+' (by decide) rfl rfl
  | minus => exact hsingle '-' (by decide) rfl rfl
  | bang => exact hsingle '!' (by decide) rfl rfl
  | asterisk => exact hsingle '*' (by decide) rfl rfl
  | slash => exact hsingle '/' (by decide) rfl rfl
  | less => exact hsingle '<' (by decide) rfl rfl
  | greater => exact hsingle '>' (by decide) rfl rfl
  | lessEqual => exact hpair '<' '=' (by decide) rfl rfl
  | greaterEqual => exact hpair '>' '=' (by decide) rfl rfl
  | equal => exact hpair '=' '=' (by decide) rfl rfl
  | notEqual => exact hpair '!' '=' (by decide) rfl rfl
  | and => exact hpair '&' '&' (by decide) rfl rfl
  | or => exact hpair '|' '|' (by decide) rfl rfl
  | comma => exact hsingle ',' (by decide) rfl rfl
  | semicolon => exact hsingle ';' (by decide) rfl rfl
  | leftParen => exact hsingle '(' (by decide) rfl rfl
  | rightParen => exact hsingle ')' (by decide) rfl rfl
  | leftBrace => exact hsingle '{' (by decide) rfl rfl
  | rightBrace => exact hsingle '}' (by decide) rfl rfl
  | leftBracket => exact hsingle '[' (by decide) rfl rfl
  | rightBracket => exact hsingle ']' (by decide) rfl rfl
  | _ => exact absurd hkind (by decide)

theorem BinaryOp.binaryOp?_kind (op : BinaryOp) : op.kind.binaryOp? = some op := by
  cases op <;> rfl

theorem BinaryOp.kind_mem_operatorKinds (op : BinaryOp) : op.kind ∈ operatorKinds := by
  cases op <;> decide

theorem BinaryOp.name_kind (op : BinaryOp) : op.kind.name = op.sign := by
  cases op <;> rfl

/-- An operator in front of a blank is one token. -/
theorem tokensFrom_binary (op : BinaryOp) (p : Position) (cs : List Char) :
    tokensFrom 0 p (op.sign.toList ++ ' ' :: cs) =
      ⟨op.kind, op.sign, p⟩ :: tokensFrom 0 (p.after op.sign.toList) (' ' :: cs) := by
  have hkind := List.mem_append_left delimiterKinds op.kind_mem_operatorKinds
  rw [← op.name_kind]
  exact tokensFrom_symbol hkind (closes_cons (by decide)) p

end NovelScript.Expr
