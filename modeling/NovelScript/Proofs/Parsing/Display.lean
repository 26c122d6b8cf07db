import NovelScript.Proofs.Parsing.Digits
import NovelScript.Proofs.Parsing.Lexeme
import NovelScript.Proofs.Parsing.Operand

/-!
Expression trees as text and back. Main statement: the text of a tree of identifiers, integers,
booleans, operators, assignments and calls is read as this tree, if it is not nested too deeply.
-/

namespace NovelScript.Expr

variable {c : Char} {cs rest : List Char} {depth height : Nat} {e e' : Expression}
  {es : List Expression} {name : String}

/-- Expressions of at most this height that have no doubles, strings, conditionals or functions.
A minus sign does not stand right before a digit, where it would be part of a literal. -/
inductive Plain : Nat → Expression → Prop
  | identifier {height : Nat} {name : String} (hname : IsName name) :
      Plain height (.identifier name)
  | integer {height : Nat} (n : Int32) : Plain height (.integer n)
  | boolean {height : Nat} (b : Bool) : Plain height (.boolean b)
  | not {height : Nat} {e : Expression} (he : Plain height e) : Plain (height + 1) (.unary .not e)
  | negate {height : Nat} {e : Expression} (he : Plain height e)
      (hfirst : ∀ c ∈ e.show.toList.head?, c.isDigit = false) :
      Plain (height + 1) (.unary .negate e)
  | binary {height : Nat} (op : BinaryOp) {left right : Expression} (hleft : Plain height left)
      (hright : Plain height right) : Plain (height + 1) (.binary op left right)
  | assign {height : Nat} {name : String} {value : Expression} (hname : IsName name)
      (hvalue : Plain height value) : Plain (height + 1) (.assign name value)
  | call {height : Nat} {callee : Expression} {arguments : List Expression}
      (hcallee : Plain height callee) (harguments : ∀ a ∈ arguments, Plain height a) :
      Plain (height + 1) (.call callee arguments)

/-! ### Texts as operands -/

/-- The text of an expression, in front of what closes it, is read as tokens that are an operand.
They begin with an integer only if the text begins with a digit. -/
structure Reads (depth : Nat) (e : Expression) : Prop where
  starts : ∃ c cs, e.show.toList = c :: cs ∧ c ≠ '='
  tokens : ∀ rest, Closes rest → ∀ p, ∃ ts p',
    tokensFrom 0 p (e.show.toList ++ rest) = ts ++ tokensFrom 0 p' rest ∧ Operand depth ts e ∧
      ((firstToken ts).kind = .integer → ∃ c ∈ e.show.toList.head?, c.isDigit)

theorem Reads.mono (h : Reads depth e) {deeper : Nat} (hle : depth ≤ deeper) : Reads deeper e := by
  refine ⟨h.starts, fun rest hrest p => ?_⟩
  obtain ⟨ts, p', hts, hoperand, hinteger⟩ := h.tokens rest hrest p
  exact ⟨ts, p', hts, hoperand.mono hle, hinteger⟩

theorem reads_identifier (depth : Nat) (h : IsName name) : Reads depth (.identifier name) := by
  refine ⟨?_, fun rest hrest p => ?_⟩
  · obtain ⟨c, cs, hname, hstart, -⟩ := h.read
    refine ⟨c, cs, hname, ?_⟩
    rintro rfl
    exact absurd hstart (by decide)
  · refine ⟨[_], _, tokensFrom_name h hrest p, operand_identifier depth rfl, ?_⟩
    rintro ⟨⟩

theorem reads_boolean (depth : Nat) (b : Bool) : Reads depth (.boolean b) := by
  refine ⟨?_, fun rest hrest p => ?_⟩
  · cases b
    · exact ⟨'f', ['a', 'l', 's', 'e'], rfl, by decide⟩
    · exact ⟨'t', ['r', 'u', 'e'], rfl, by decide⟩
  · refine ⟨[_], _, tokensFrom_boolean b hrest p, operand_boolean depth rfl, ?_⟩
    cases b <;> rintro ⟨⟩

theorem reads_integer (depth : Nat) (n : Int32) : Reads depth (.integer n) := by
  cases hn : n.toInt with
  | ofNat k =>
    obtain ⟨c, cs, hk, hc, hcs⟩ :=
      Text.exists_digit_cons Nat.toDigits_ne_nil (Text.isDigit_of_mem_toDigits k)
    have hshow : (Expression.integer n).show.toList = c :: cs := by
      rw [Expression.show, hn, ← hk]
      exact String.toList_ofList
    have hread := Text.readInteger?_digits k
    rw [hk] at hread
    refine ⟨⟨c, cs, hshow, ?_⟩, fun rest hrest p => ?_⟩
    · rintro rfl
      exact absurd hc (by decide)
    · rw [hshow]
      refine ⟨[_], _, tokensFrom_digits hc hcs hrest.closesNumber p, operand_integer depth rfl ?_,
        fun _ => ⟨c, rfl, hc⟩⟩
      exact Text.readInt32?_of_toInt (hread.trans (congrArg some hn.symm))
  | negSucc k =>
    obtain ⟨c, cs, hk, hc, hcs⟩ :=
      Text.exists_digit_cons Nat.toDigits_ne_nil (Text.isDigit_of_mem_toDigits (k + 1))
    have hshow : (Expression.integer n).show.toList = '-' :: (c :: cs) := by
      rw [Expression.show, hn, ← hk]
      show ("-" ++ String.ofList (Nat.toDigits 10 (k + 1))).toList = _
      simp
    have hread := Text.readInteger?_negative (k + 1)
    rw [hk] at hread
    refine ⟨⟨'-', c :: cs, hshow, by decide⟩, fun rest hrest p => ?_⟩
    rw [hshow]
    refine ⟨[⟨.minus, "-", p⟩, ⟨.integer, String.ofList (c :: cs), p.next '-'⟩],
      (p.next '-').after (c :: cs), ?_, operand_negative depth rfl rfl ?_, ?_⟩
    · rw [List.cons_append, tokensFrom_minus, tokensFrom_digits hc hcs hrest.closesNumber]
      rfl
    · exact Text.readInt32?_of_toInt (hread.trans (congrArg some hn.symm))
    · rintro ⟨⟩

/-- The text between two parentheses is tokens that are an operand with parentheses around them. -/
theorem reads_paren (cs : List Char) (hshow : e.show.toList = '(' :: (cs ++ [')']))
    (h : ∀ rest p, ∃ ts p',
      tokensFrom 0 p (cs ++ ')' :: rest) = ts ++ tokensFrom 0 p' (')' :: rest) ∧
        ∀ left right,
          Operand depth (⟨.leftParen, "(", left⟩ :: ts ++ [⟨.rightParen, ")", right⟩]) e) :
    Reads depth e := by
  refine ⟨⟨'(', _, hshow, by decide⟩, fun rest _ p => ?_⟩
  obtain ⟨ts, p', hts, hoperand⟩ := h rest (p.next '(')
  refine ⟨⟨.leftParen, "(", p⟩ :: ts ++ [⟨.rightParen, ")", p'⟩], p'.next ')', ?_,
    hoperand p p', ?_⟩
  · simp [hshow, hts]
  · rintro ⟨⟩

theorem reads_not (he : Reads depth e) : Reads (depth + 2) (.unary .not e) := by
  refine reads_paren ('!' :: e.show.toList) (by simp [Expression.show, UnaryOp.sign]) ?_
  intro rest p
  obtain ⟨ts, p', hts, hoperand, -⟩ := he.tokens (')' :: rest) (closes_cons (by decide))
    (p.next '!')
  have hbang : (e.show.toList ++ ')' :: rest).head? ≠ some '=' := by
    obtain ⟨c, cs, hcs, hc⟩ := he.starts
    simpa [hcs] using hc
  refine ⟨⟨.bang, "!", p⟩ :: ts, p', ?_, fun left right => .not rfl rfl hoperand rfl⟩
  rw [List.cons_append, tokensFrom_bang hbang, hts, List.cons_append]

theorem reads_negate (he : Reads depth e) (hfirst : ∀ c ∈ e.show.toList.head?, c.isDigit = false) :
    Reads (depth + 2) (.unary .negate e) := by
  refine reads_paren ('-' :: e.show.toList) (by simp [Expression.show, UnaryOp.sign]) ?_
  intro rest p
  obtain ⟨ts, p', hts, hoperand, hinteger⟩ := he.tokens (')' :: rest) (closes_cons (by decide))
    (p.next '-')
  have hkind : (firstToken ts).kind ≠ .integer := by
    intro hkind
    obtain ⟨c, hc, hdigit⟩ := hinteger hkind
    rw [hfirst c hc] at hdigit
    cases hdigit
  refine ⟨⟨.minus, "-", p⟩ :: ts, p', ?_, fun left right => .negate rfl rfl hoperand hkind rfl⟩
  rw [List.cons_append, tokensFrom_minus, hts, List.cons_append]

theorem reads_binary (op : BinaryOp) (he : Reads depth e) (he' : Reads depth e') :
    Reads (depth + 2) (.binary op e e') := by
  refine reads_paren (e.show.toList ++ ' ' :: (op.sign.toList ++ ' ' :: e'.show.toList))
    (by simp [Expression.show]) ?_
  intro rest p
  obtain ⟨ts, p₁, hts, hleft, -⟩ :=
    he.tokens (' ' :: (op.sign.toList ++ ' ' :: (e'.show.toList ++ ')' :: rest)))
      (closes_cons (by decide)) p
  obtain ⟨us, p₂, hus, hright, -⟩ := he'.tokens (')' :: rest) (closes_cons (by decide))
    (((p₁.next ' ').after op.sign.toList).next ' ')
  refine ⟨ts ++ ⟨op.kind, op.sign, p₁.next ' '⟩ :: us, p₂, ?_,
    fun left right => .binary rfl hleft op.binaryOp?_kind hright rfl⟩
  simp [hts, tokensFrom_binary, hus]

theorem reads_assign (hname : IsName name) (he : Reads depth e) :
    Reads (depth + 2) (.assign name e) := by
  refine reads_paren (name.toList ++ ' ' :: '=' :: ' ' :: e.show.toList)
    (by simp [Expression.show]) ?_
  intro rest p
  let p₁ := p.after name.toList
  have htarget : tokensFrom 0 p
        (name.toList ++ ' ' :: '=' :: ' ' :: (e.show.toList ++ ')' :: rest)) =
      ⟨.identifier, name, p⟩ ::
        tokensFrom 0 p₁ (' ' :: '=' :: ' ' :: (e.show.toList ++ ')' :: rest)) :=
    tokensFrom_name hname (closes_cons (by decide)) _
  obtain ⟨ts, p₂, hts, hoperand, -⟩ := he.tokens (')' :: rest) (closes_cons (by decide))
    (((p₁.next ' ').next '=').next ' ')
  refine ⟨⟨.identifier, name, p⟩ :: ⟨.assign, "=", p₁.next ' '⟩ :: ts, p₂, ?_,
    fun left right => .assign rfl rfl rfl hoperand rfl⟩
  simp [htarget, hts]

/-! ### Calls -/

/-- The texts of arguments behind another one. -/
def moreText (es : List Expression) : List Char :=
  es.flatMap fun e => ',' :: ' ' :: e.show.toList

theorem toList_intercalate_showEach (es : List Expression) : ∀ e : Expression,
    (", ".intercalate (showEach (e :: es))).toList = e.show.toList ++ moreText es := by
  induction es with
  | nil => simp [showEach, moreText]
  | cons e' es ih =>
    intro e
    have hrest := ih e'
    rw [showEach] at hrest
    rw [showEach, showEach, String.intercalate_cons_cons, String.toList_append, hrest]
    simp [moreText]

theorem closes_moreText (es : List Expression) (rest : List Char) :
    Closes (moreText es ++ ')' :: rest) := by
  cases es <;> exact closes_cons (by decide)

theorem reads_moreArguments (hes : ∀ e ∈ es, Reads depth e) (rest : List Char) :
    ∀ p, ∃ ts p', tokensFrom 0 p (moreText es ++ ')' :: rest) = ts ++ tokensFrom 0 p' rest ∧
      MoreArguments depth ts es := by
  induction es with
  | nil =>
    intro p
    exact ⟨[_], _, tokensFrom_rightParen p rest, .nil depth rfl⟩
  | cons e es ih =>
    intro p
    obtain ⟨he, hmore⟩ := List.forall_mem_cons.mp hes
    obtain ⟨ts, p₁, hts, hoperand, -⟩ := he.tokens _ (closes_moreText es rest)
      ((p.next ',').next ' ')
    obtain ⟨us, p₂, hus, harguments⟩ := ih hmore p₁
    refine ⟨⟨.comma, ",", p⟩ :: ts ++ us, p₂, ?_, .cons rfl hoperand harguments⟩
    have hshow : moreText (e :: es) ++ ')' :: rest =
        ',' :: ' ' :: (e.show.toList ++ (moreText es ++ ')' :: rest)) := by
      simp [moreText]
    simp [hshow, hts, hus]

theorem reads_arguments (hes : ∀ e ∈ es, Reads depth e) (rest : List Char) (p : Position) :
    ∃ ts p', tokensFrom 0 p ((", ".intercalate (showEach es)).toList ++ ')' :: rest) =
      ts ++ tokensFrom 0 p' rest ∧ Arguments depth ts es := by
  cases es with
  | nil => exact ⟨[_], _, tokensFrom_rightParen p rest, .nil depth rfl⟩
  | cons e es =>
    obtain ⟨he, hmore⟩ := List.forall_mem_cons.mp hes
    obtain ⟨ts, p₁, hts, hoperand, -⟩ := he.tokens _ (closes_moreText es rest) p
    obtain ⟨us, p₂, hus, harguments⟩ := reads_moreArguments hmore rest p₁
    refine ⟨ts ++ us, p₂, ?_, .cons hoperand harguments⟩
    rw [toList_intercalate_showEach, List.append_assoc, hts, hus, List.append_assoc]

theorem reads_call (he : Reads (depth + 1) e) (hes : ∀ e ∈ es, Reads depth e) :
    Reads (depth + 1) (.call e es) := by
  have hshow : (Expression.call e es).show.toList =
      e.show.toList ++ '(' :: ((", ".intercalate (showEach es)).toList ++ [')']) := by
    simp [Expression.show]
  obtain ⟨c, cs, hcs, hc⟩ := he.starts
  refine ⟨⟨c, _, by rw [hshow, hcs]; rfl, hc⟩, fun rest hrest p => ?_⟩
  obtain ⟨ts, p₁, hts, hoperand, hinteger⟩ := he.tokens
    ('(' :: ((", ".intercalate (showEach es)).toList ++ ')' :: rest)) (closes_cons (by decide)) p
  obtain ⟨us, p₂, hus, harguments⟩ := reads_arguments hes rest (p₁.next '(')
  refine ⟨ts ++ ⟨.leftParen, "(", p₁⟩ :: us, p₂, ?_, hoperand.call rfl harguments, ?_⟩
  · rw [hshow, List.append_assoc, List.cons_append, List.append_assoc, List.singleton_append, hts,
      tokensFrom_leftParen, hus, List.append_assoc, List.cons_append]
  · obtain ⟨first, vs, rfl, -⟩ := hoperand.opens
    intro hkind
    obtain ⟨d, hd, hdigit⟩ := hinteger hkind
    refine ⟨d, ?_, hdigit⟩
    rw [hcs] at hd
    rw [hshow, hcs]
    exact hd

theorem Plain.reads (h : Plain height e) : Reads (2 * height) e := by
  induction h with
  | identifier hname => exact reads_identifier _ hname
  | integer n => exact reads_integer _ n
  | boolean b => exact reads_boolean _ b
  | not he ih => exact reads_not ih
  | negate he hfirst ih => exact reads_negate ih hfirst
  | binary op hleft hright ihleft ihright => exact reads_binary op ihleft ihright
  | assign hname hvalue ih => exact reads_assign hname ih
  | @call height _ _ hcallee harguments ihcallee iharguments =>
    show Reads (2 * height + 1 + 1) _
    exact reads_call (ihcallee.mono (by omega)) fun a ha => (iharguments a ha).mono (by omega)

/-! ### Programs -/

/-- An operand at the end of the text is a statement. -/
theorem statement_of_operand {ts : List Token} {levels : Nat} {p : Position}
    (h : Operand depth ts e) (hlevels : depth < levels) :
    Parser.statement (Parser.within levels) (ts ++ [⟨.eof, "", p⟩]) =
      .ok (.expression e, [⟨.eof, "", p⟩]) := by
  have hinner : (Parser.within levels).expression .lowest (ts ++ [⟨.eof, "", p⟩]) =
      .ok (e, [⟨.eof, "", p⟩]) := h.inside hlevels (by decide) (Nat.lt_irrefl 0)
  have hkinds : ∀ kind ∈ operandKinds, kind ∉ nonExpressionKinds := by decide
  obtain ⟨t, us, rfl, ht⟩ := h.opens
  exact statement_of_expression (hkinds t.kind ht) hinner

/-- **The text of an expression is read as this expression** and nothing else, if its height is at
most 127. -/
theorem parse_show (h : Plain 127 e) : parse e.show = .ok [.expression e] := by
  obtain ⟨ts, p, hts, hoperand, -⟩ := h.reads.tokens [] closes_nil {}
  have htokens : tokens e.show = ts ++ [⟨.eof, "", p⟩] := by
    rw [tokens, ← List.append_nil e.show.toList, hts]
    rfl
  have hstatement : Parser.statement (Parser.within maxNesting) (ts ++ [⟨.eof, "", p⟩]) =
      .ok (.expression e, [⟨.eof, "", p⟩]) := statement_of_operand hoperand (by decide)
  obtain ⟨t, us, rfl, ht⟩ := hoperand.opens
  have hstart : (firstToken (t :: (us ++ [⟨.eof, "", p⟩]))).kind ≠ .eof := by
    intro hkind
    rw [show t.kind = .eof from hkind] at ht
    exact absurd ht (by decide)
  have hrest : ∀ n, parseStatements n [⟨.eof, "", p⟩] = ([], []) := by
    intro n
    cases n <;> rfl
  have hprogram : parseTokens (t :: us ++ [⟨.eof, "", p⟩]) = ([.expression e], []) := by
    rw [parseTokens, List.cons_append, List.length_cons, parseStatements, if_neg hstart]
    rw [List.cons_append] at hstatement
    simp only [StateT.run, hstatement, hrest]
  rw [parse, htokens, hprogram]

/-- A call with the least integer and an assignment as arguments. -/
def nestedCall : Expression :=
  .call (.identifier "f") [.integer (-2147483648), .assign "x" (.boolean true)]

/-- Operators of both kinds around a call. -/
def nestedExpression : Expression :=
  .binary .subtract (.unary .negate nestedCall) (.unary .not (.integer 5))

theorem plain_nestedCall : Plain 125 nestedCall := by
  have hf : IsName "f" := by decide
  have hx : IsName "x" := by decide
  refine .call (.identifier hf) ?_
  simp only [List.forall_mem_cons]
  exact ⟨.integer _, .assign hx (.boolean true), by simp⟩

theorem parse_show_nestedExpression :
    nestedExpression.show = "((-f(-2147483648, (x = true))) - (!5))" ∧
      Plain 127 nestedExpression ∧
      parse nestedExpression.show = .ok [.expression nestedExpression] := by
  have hhead : nestedCall.show.toList.head? = some 'f' := by decide
  have hfirst : ∀ c ∈ nestedCall.show.toList.head?, c.isDigit = false := by
    intro c hc
    obtain rfl := Option.some.inj (hhead.symm.trans hc)
    decide
  have hplain : Plain 127 nestedExpression :=
    .binary _ (.negate plain_nestedCall hfirst) (.not (.integer 5))
  exact ⟨by decide, hplain, parse_show hplain⟩

end NovelScript.Expr
