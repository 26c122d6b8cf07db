import NovelScript.Proofs.Parsing.Terms

/-!
The words of trees and of tokens. A word is a token without its place, where a number is what it is
read as; a tree has words in the order of the text, and no parentheses, braces or separators. Main
statements: tokens that spell words have balanced brackets, and what is left of them without
brackets and separators is these words.
-/

namespace NovelScript.Expr

/-! ### Words -/

/-- A name, a literal, or a keyword or operator. -/
inductive Word
  | identifier (name : String)
  | integer (value : Nat)
  | double (value : Option Float)
  | string (content : String)
  | sign (kind : TokenKind)

/-- The word that a token is. -/
def Token.word (t : Token) : Word :=
  match t.kind with
  | .identifier => .identifier t.text
  | .integer => .integer (Text.digitsValue t.text.toList)
  | .double => .double (Decimal.readFloat? t.text)
  | .string => .string t.text
  | kind => .sign kind

namespace TokenKind

/-- The brackets that a program has, each with the one that closes it. -/
def pairs : List (TokenKind × TokenKind) :=
  [(.leftParen, .rightParen), (.leftBrace, .rightBrace)]

/-- The brackets that a program has. -/
def brackets : List TokenKind := [.leftParen, .rightParen, .leftBrace, .rightBrace]

/-- What stands between arguments, parameters and statements. -/
def separators : List TokenKind := [.comma, .semicolon]

/-- What no program has. -/
def strays : List TokenKind := [.illegal, .eof, .leftBracket, .rightBracket]

end TokenKind

/-- Whether a token is a word of a program. -/
def Token.isWord (t : Token) : Bool := t.kind ∉ TokenKind.brackets ++ TokenKind.separators

/-- The words of an integer: a negative one has its sign in front. -/
def integerWords (z : Int) : List Word :=
  if z < 0 then [.sign .minus, .integer z.natAbs] else [.integer z.natAbs]

/-- The token that an operator is. -/
def UnaryOp.kind : UnaryOp → TokenKind
  | not => .bang
  | negate => .minus

mutual

/-- The words of an expression from left to right. -/
def Expression.words : Expression → List Word
  | .identifier name => [.identifier name]
  | .integer n => integerWords n.toInt
  | .double x => [.double (some x)]
  | .string s => [.string s]
  | .boolean b => [.sign (if b then .true else .false)]
  | .unary op operand => .sign op.kind :: operand.words
  | .binary op left right => left.words ++ .sign op.kind :: right.words
  | .assign name value => .identifier name :: .sign .assign :: value.words
  | .ifThen condition consequence =>
    .sign .if :: (condition.words ++ statementWords consequence)
  | .ifThenElse condition consequence alternative =>
    .sign .if :: (condition.words ++ (statementWords consequence ++
      .sign .else :: statementWords alternative))
  | .function parameters body =>
    .sign .function :: (parameters.map .identifier ++ statementWords body)
  | .call callee arguments => callee.words ++ expressionWords arguments

/-- The words of a statement. -/
def Statement.words : Statement → List Word
  | .let name value => .sign .let :: .identifier name :: .sign .assign :: value.words
  | .return value => .sign .return :: value.words
  | .expression value => value.words
  | .block body => statementWords body

/-- The words of statements one behind the other. -/
def statementWords : List Statement → List Word
  | [] => []
  | first :: rest => first.words ++ statementWords rest

/-- The words of expressions one behind the other. -/
def expressionWords : List Expression → List Word
  | [] => []
  | first :: rest => first.words ++ expressionWords rest

end

/-- The words of a program. -/
def Program.words (program : Program) : List Word := statementWords program

/-! ### Brackets -/

/-- Brackets are closed in the reverse order of their opening. -/
inductive Balanced : List TokenKind → Prop
  | nil : Balanced []
  | other {kind : TokenKind} {kinds : List TokenKind} (h : kind ∉ TokenKind.brackets)
      (hrest : Balanced kinds) : Balanced (kind :: kinds)
  | enclosed {left right : TokenKind} {inside kinds : List TokenKind}
      (hpair : (left, right) ∈ TokenKind.pairs) (h : Balanced inside) (hrest : Balanced kinds) :
      Balanced (left :: (inside ++ right :: kinds))

/-! ### Tokens that spell words -/

variable {t : Token} {ts us : List Token} {ws vs : List Word}

/-- The kinds of token that are read for themselves. -/
def plainKinds : List TokenKind :=
  [.identifier, .double, .string, .assign, .plus, .minus, .bang, .asterisk, .slash, .less, .greater,
    .lessEqual, .greaterEqual, .equal, .notEqual, .and, .or, .function, .let, .true, .false, .if,
    .else, .return]

/-- The tokens spell the words, with brackets around them and separators between them. -/
inductive Spells : List Token → List Word → Prop
  | nil : Spells [] []
  | word {t : Token} {ts : List Token} {ws : List Word} (ht : t.kind ∈ plainKinds)
      (h : Spells ts ws) : Spells (t :: ts) (t.word :: ws)
  | integer {t : Token} {n : Int32} {ts : List Token} {ws : List Word} (ht : t.kind = .integer)
      (hn : Text.readInt32? t.text = some n) (h : Spells ts ws) :
      Spells (t :: ts) (integerWords n.toInt ++ ws)
  | negative {t t' : Token} {n : Int32} {ts : List Token} {ws : List Word} (ht : t.kind = .minus)
      (ht' : t'.kind = .integer) (hn : Text.readInt32? ("-" ++ t'.text) = some n)
      (h : Spells ts ws) : Spells (t :: t' :: ts) (integerWords n.toInt ++ ws)
  | separator {t : Token} {ts : List Token} {ws : List Word} (ht : t.kind ∈ TokenKind.separators)
      (h : Spells ts ws) : Spells (t :: ts) ws
  | enclosed {left right : Token} {ts us : List Token} {ws vs : List Word}
      (hpair : (left.kind, right.kind) ∈ TokenKind.pairs) (h : Spells ts ws) (h' : Spells us vs) :
      Spells (left :: (ts ++ right :: us)) (ws ++ vs)

namespace Spells

theorem append (h : Spells ts ws) (h' : Spells us vs) : Spells (ts ++ us) (ws ++ vs) := by
  induction h with
  | nil => exact h'
  | word ht _ ih => exact .word ht ih
  | integer ht hn _ ih =>
    rw [List.append_assoc]
    exact .integer ht hn ih
  | negative ht ht' hn _ ih =>
    rw [List.append_assoc]
    exact .negative ht ht' hn ih
  | separator ht _ ih => exact .separator ht ih
  | enclosed hpair h _ _ ih =>
    rw [List.cons_append, List.append_assoc, List.append_assoc]
    exact .enclosed hpair h ih

theorem balanced (h : Spells ts ws) : Balanced (ts.map Token.kind) := by
  have hplain : ∀ kind ∈ plainKinds, kind ∉ TokenKind.brackets := by decide
  have hseparator : ∀ kind ∈ TokenKind.separators, kind ∉ TokenKind.brackets := by decide
  induction h with
  | nil => exact .nil
  | word ht _ ih => exact .other (hplain _ ht) ih
  | integer ht _ _ ih => exact .other (by simp [ht, TokenKind.brackets]) ih
  | negative ht ht' _ _ ih =>
    exact .other (by simp [ht, TokenKind.brackets]) (.other (by simp [ht', TokenKind.brackets]) ih)
  | separator ht _ ih => exact .other (hseparator _ ht) ih
  | enclosed hpair _ _ ih ih' =>
    simp only [List.map_cons, List.map_append]
    exact .enclosed hpair ih ih'

theorem not_stray (h : Spells ts ws) : ∀ t ∈ ts, t.kind ∉ TokenKind.strays := by
  have hplain : ∀ kind ∈ plainKinds, kind ∉ TokenKind.strays := by decide
  have hseparator : ∀ kind ∈ TokenKind.separators, kind ∉ TokenKind.strays := by decide
  have hbracket : ∀ pair ∈ TokenKind.pairs,
      pair.1 ∉ TokenKind.strays ∧ pair.2 ∉ TokenKind.strays := by decide
  induction h with
  | nil => exact fun _ ht => absurd ht List.not_mem_nil
  | word ht _ ih => exact List.forall_mem_cons.mpr ⟨hplain _ ht, ih⟩
  | integer ht _ _ ih => exact List.forall_mem_cons.mpr ⟨by simp [ht, TokenKind.strays], ih⟩
  | negative ht ht' _ _ ih =>
    exact List.forall_mem_cons.mpr ⟨by simp [ht, TokenKind.strays],
      List.forall_mem_cons.mpr ⟨by simp [ht', TokenKind.strays], ih⟩⟩
  | separator ht _ ih => exact List.forall_mem_cons.mpr ⟨hseparator _ ht, ih⟩
  | enclosed hpair _ _ ih ih' =>
    refine List.forall_mem_cons.mpr ⟨(hbracket _ hpair).1, ?_⟩
    exact List.forall_mem_append.mpr ⟨ih, List.forall_mem_cons.mpr ⟨(hbracket _ hpair).2, ih'⟩⟩

end Spells

/-! ### Numbers -/

theorem toInt_of_readInt32? {s : String} {n : Int32} (h : Text.readInt32? s = some n) :
    Text.readInteger? s = some n.toInt := by
  obtain ⟨z, hz, hn⟩ := Option.bind_eq_some_iff.mp h
  split at hn
  · rename_i hrange
    obtain rfl := Option.some.inj hn
    rw [hz, Int32.toInt_ofInt_of_le hrange.1 hrange.2]
  · cases hn

theorem digitsValue_of_readDigits? {cs : List Char} {k : Nat} (h : Text.readDigits? cs = some k) :
    Text.digitsValue cs = k := by
  unfold Text.readDigits? at h
  split at h
  · exact Option.some.inj h
  · cases h

/-- An integer that begins with a digit is the value of its digits. -/
theorem integerWords_of_digit {s : String} {n : Int32} (hs : ∃ c ∈ s.toList.head?, c.isDigit)
    (h : Text.readInt32? s = some n) :
    integerWords n.toInt = [.integer (Text.digitsValue s.toList)] := by
  have hread := toInt_of_readInt32? h
  obtain ⟨c, hc, hdigit⟩ := hs
  unfold Text.readInteger? at hread
  split at hread
  · rename_i cs hcs
    rw [hcs] at hc
    obtain rfl := Option.some.inj hc
    cases hdigit
  · rename_i cs hcs
    rw [hcs] at hc
    obtain rfl := Option.some.inj hc
    cases hdigit
  · obtain ⟨k, hk, hn⟩ := Option.map_eq_some_iff.mp hread
    rw [← hn, digitsValue_of_readDigits? hk]
    simp [integerWords]

/-- Behind a minus sign, the digits of a negative integer are read. -/
theorem integerWords_negative {s : String} {n : Int32} (hs : Text.digitsValue s.toList ≠ 0)
    (h : Text.readInt32? ("-" ++ s) = some n) :
    integerWords n.toInt = [.sign .minus, .integer (Text.digitsValue s.toList)] := by
  have hread := toInt_of_readInt32? h
  cases hk : Text.readDigits? s.toList with
  | none => simp [Text.readInteger?, hk] at hread
  | some k =>
    have hn : -(k : Int) = n.toInt := by simpa [Text.readInteger?, hk] using hread
    rw [digitsValue_of_readDigits? hk] at hs ⊢
    rw [← hn, integerWords, if_pos (by omega), Int.natAbs_neg, Int.natAbs_natCast]

/-! ### Words left over -/

/-- Every integer begins with a digit, and none that is zero stands right behind a minus sign, where
it would be read as zero without the sign. -/
structure Unambiguous (ts : List Token) : Prop where
  digit : ∀ t ∈ ts, t.kind = .integer → ∃ c ∈ t.text.toList.head?, c.isDigit
  nonzero : ∀ t t', [t, t'] <:+: ts → t.kind = .minus → t'.kind = .integer →
    Text.digitsValue t'.text.toList ≠ 0

theorem Unambiguous.part (h : Unambiguous us) (hts : ts <:+: us) : Unambiguous ts :=
  ⟨fun t ht => h.digit t (hts.subset ht), fun t t' htt' => h.nonzero t t' (htt'.trans hts)⟩

theorem Unambiguous.tail (h : Unambiguous (t :: ts)) : Unambiguous ts :=
  h.part (List.infix_cons (List.infix_refl ts))

/-- What is left of tokens without brackets and separators, as words. -/
def wordsOf (ts : List Token) : List Word := (ts.filter Token.isWord).map Token.word

theorem wordsOf_append (ts us : List Token) : wordsOf (ts ++ us) = wordsOf ts ++ wordsOf us := by
  rw [wordsOf, List.filter_append, List.map_append]
  rfl

theorem wordsOf_cons (ht : t.kind ∉ TokenKind.brackets ++ TokenKind.separators) (ts : List Token) :
    wordsOf (t :: ts) = t.word :: wordsOf ts := by
  have hword : t.isWord = true := decide_eq_true ht
  rw [wordsOf, List.filter_cons_of_pos hword]
  rfl

theorem wordsOf_cons_of_mem (ht : t.kind ∈ TokenKind.brackets ++ TokenKind.separators)
    (ts : List Token) : wordsOf (t :: ts) = wordsOf ts := by
  have hword : t.isWord = false := decide_eq_false (not_not_intro ht)
  rw [wordsOf, List.filter_cons_of_neg (by simp [hword])]
  rfl

/-- **Without brackets and separators the tokens are the words.** -/
theorem Spells.wordsOf_eq (h : Spells ts ws) (hts : Unambiguous ts) : wordsOf ts = ws := by
  have hplain : ∀ kind ∈ .integer :: plainKinds,
      kind ∉ TokenKind.brackets ++ TokenKind.separators := by decide
  have hbracket : ∀ pair ∈ TokenKind.pairs, pair.1 ∈ TokenKind.brackets ++ TokenKind.separators ∧
      pair.2 ∈ TokenKind.brackets ++ TokenKind.separators := by decide
  induction h with
  | nil => rfl
  | @word t ts ws ht _ ih =>
    rw [wordsOf_cons (hplain _ (List.mem_cons_of_mem _ ht)), ih hts.tail]
  | @integer t n ts ws ht hn _ ih =>
    rw [integerWords_of_digit (hts.digit t List.mem_cons_self ht) hn,
      wordsOf_cons (hplain _ (by simp [ht])), ih hts.tail]
    simp [Token.word, ht]
  | @negative t t' n ts ws ht ht' hn _ ih =>
    have hvalue := hts.nonzero t t' (List.prefix_append [t, t'] ts).isInfix ht ht'
    rw [integerWords_negative hvalue hn, wordsOf_cons (hplain _ (by simp [ht, plainKinds])),
      wordsOf_cons (hplain _ (by simp [ht'])), ih hts.tail.tail]
    simp [Token.word, ht, ht']
  | separator ht _ ih =>
    rw [wordsOf_cons_of_mem (List.mem_append_right _ ht), ih hts.tail]
  | @enclosed left right ts us ws vs hpair _ _ ih ih' =>
    have hinside : ts <:+: left :: (ts ++ right :: us) := ⟨[left], right :: us, by simp⟩
    have hrest : us <:+: left :: (ts ++ right :: us) := ⟨left :: (ts ++ [right]), [], by simp⟩
    rw [wordsOf_cons_of_mem (hbracket _ hpair).1, wordsOf_append,
      wordsOf_cons_of_mem (hbracket _ hpair).2, ih (hts.part hinside), ih' (hts.part hrest)]

end NovelScript.Expr
