import NovelScript.Expr.Tree.Parser

/-!
How operator precedence reads expressions that have parentheses around every operator. Behind the
tokens of an operand, reading goes on with the operators that follow; a closing parenthesis or a
comma ends it. Main statements: which tokens are operands, one for each kind of expression.
-/

namespace NovelScript.Expr

open NovelScript.Expr.Parser

variable {α β : Type} {levels depth n : Nat} {least : Precedence} {inner : Inner}
  {t t' p p' : Token} {ts us rest : List Token} {e e' : Expression} {es : List Expression}

/-! ### Single tokens -/

theorem Parser.bind_ok {m : Parser α} {a : α} (f : α → Parser β) (h : m ts = .ok (a, us)) :
    (m >>= f) ts = f a us := by
  show (StateT.bind m f) ts = f a us
  rw [StateT.bind, h]
  rfl

@[simp] theorem Parser.pure_apply (a : α) (ts : List Token) :
    (pure a : Parser α) ts = .ok (a, ts) := rfl

@[simp] theorem Parser.peek_cons_bind (f : Token → Parser β) (t : Token) (ts : List Token) :
    (peek >>= f) (t :: ts) = f t (t :: ts) := rfl

@[simp] theorem Parser.advance_cons_bind (f : Unit → Parser β) (t : Token) (ts : List Token) :
    (advance >>= f) (t :: ts) = f () ts := rfl

theorem Parser.remaining_bind (f : Nat → Parser β) (ts : List Token) :
    (remaining >>= f) ts = f ts.length ts := rfl

theorem Parser.expect_cons {kind : TokenKind} (h : t.kind = kind) (ts : List Token) :
    expect kind (t :: ts) = .ok (t, ts) := by
  rw [expect, peek_cons_bind, if_pos h]
  rfl

theorem Parser.accept_cons {kind : TokenKind} (h : t.kind = kind) (ts : List Token) :
    accept kind (t :: ts) = .ok (true, ts) := by
  rw [accept, peek_cons_bind, if_pos h]
  rfl

theorem Parser.accept_cons_of_ne {kind : TokenKind} (h : t.kind ≠ kind) (ts : List Token) :
    accept kind (t :: ts) = .ok (false, t :: ts) := by
  rw [accept, peek_cons_bind, if_neg h]
  rfl

/-! ### Operands -/

/-- The kinds of token that an operand begins with. -/
def operandKinds : List TokenKind := [.identifier, .integer, .minus, .true, .false, .leftParen]

/-- With so many levels to go inside, the tokens are read as the operand `e`, and reading goes on
with the operators behind them. -/
structure Operand (depth : Nat) (ts : List Token) (e : Expression) : Prop where
  opens : ∃ t us, ts = t :: us ∧ t.kind ∈ operandKinds
  read : ∀ levels ≥ depth, ∀ least < Precedence.call, ∀ rest, ∃ n ≥ rest.length,
    expression (within levels) least (ts ++ rest) = operators (within levels) least n e rest

theorem Operand.mono (h : Operand depth ts e) {deeper : Nat} (hle : depth ≤ deeper) :
    Operand deeper ts e :=
  ⟨h.opens, fun levels hlevels => h.read levels (Nat.le_trans hle hlevels)⟩

/-- Where no operator that binds tightly enough follows, an operand is all there is. -/
theorem operators_stop (h : ¬ least < (firstToken rest).kind.precedence) (n : Nat) :
    operators inner least n e rest = .ok (e, rest) := by
  cases n with
  | zero => rfl
  | succ n =>
    show (if least < (firstToken rest).kind.precedence then _ else pure e : Parser Expression)
      rest = _
    rw [if_neg h]
    rfl

theorem expression_of_operand (h : operand inner ts = .ok (e, rest)) :
    expression inner least ts = operators inner least rest.length e rest := by
  rw [expression, bind_ok _ h]
  rfl

theorem Operand.whole (h : Operand depth ts e) (hlevels : depth ≤ levels)
    (hleast : least < Precedence.call) (hstop : ¬ least < (firstToken rest).kind.precedence) :
    expression (within levels) least (ts ++ rest) = .ok (e, rest) := by
  obtain ⟨n, -, hread⟩ := h.read levels hlevels least hleast rest
  rw [hread, operators_stop hstop]

theorem Operand.inside (h : Operand depth ts e) (hlevels : depth < levels)
    (hleast : least < Precedence.call) (hstop : ¬ least < (firstToken rest).kind.precedence) :
    (within levels).expression least (ts ++ rest) = .ok (e, rest) := by
  obtain ⟨deeper, rfl⟩ := Nat.exists_eq_add_one_of_ne_zero (Nat.ne_zero_of_lt hlevels)
  exact h.whole (Nat.le_of_lt_succ hlevels) hleast hstop

/-- What is read at once is an operand. -/
theorem Operand.atom (hopens : ∃ t us, ts = t :: us ∧ t.kind ∈ operandKinds)
    (h : ∀ levels ≥ depth, ∀ rest, operand (within levels) (ts ++ rest) = .ok (e, rest)) :
    Operand depth ts e := by
  refine ⟨hopens, fun levels hlevels least _ rest => ⟨rest.length, Nat.le_refl _, ?_⟩⟩
  exact expression_of_operand (h levels hlevels rest)

theorem operand_identifier (depth : Nat) (ht : t.kind = .identifier) :
    Operand depth [t] (.identifier t.text) := by
  refine .atom ⟨t, [], rfl, by simp [ht, operandKinds]⟩ fun levels _ rest => ?_
  rw [List.singleton_append, operand, peek_cons_bind, ht]
  rfl

theorem operand_boolean (depth : Nat) {b : Bool} (ht : t.kind = if b then .true else .false) :
    Operand depth [t] (.boolean b) := by
  refine .atom ⟨t, [], rfl, by cases b <;> simp [ht, operandKinds]⟩ fun levels _ rest => ?_
  rw [List.singleton_append, operand, peek_cons_bind, ht]
  cases b <;> rfl

theorem operand_integer (depth : Nat) {n : Int32} (ht : t.kind = .integer)
    (hn : Text.readInt32? t.text = some n) : Operand depth [t] (.integer n) := by
  refine .atom ⟨t, [], rfl, by simp [ht, operandKinds]⟩ fun levels _ rest => ?_
  simp [operand, ht, integer, hn]

theorem operand_negative (depth : Nat) {n : Int32} (ht : t.kind = .minus) (ht' : t'.kind = .integer)
    (hn : Text.readInt32? ("-" ++ t'.text) = some n) : Operand depth [t, t'] (.integer n) := by
  refine .atom ⟨t, [t'], rfl, by simp [ht, operandKinds]⟩ fun levels _ rest => ?_
  simp [operand, ht, negative, ht', integer, hn]

/-! ### Parentheses -/

theorem not_lt_of_rightParen (ht : t.kind = .rightParen) :
    ¬ least < (firstToken (t :: ts)).kind.precedence := by
  show ¬ least < t.kind.precedence
  rw [ht]
  exact Nat.not_lt_zero _

/-- What is read up to a closing parenthesis is an operand between two parentheses. -/
theorem Operand.paren (hp : p.kind = .leftParen) (hp' : p'.kind = .rightParen)
    (h : ∀ levels ≥ depth, ∀ rest, ∃ n,
      expression (within levels) .lowest (ts ++ p' :: rest) =
        operators (within levels) .lowest n e (p' :: rest)) :
    Operand (depth + 1) (p :: ts ++ [p']) e := by
  refine .atom ⟨p, ts ++ [p'], rfl, by simp [hp, operandKinds]⟩ fun levels hlevels rest => ?_
  obtain ⟨deeper, rfl⟩ : ∃ deeper, levels = deeper + 1 := ⟨levels - 1, by omega⟩
  have hinner : (within (deeper + 1)).expression .lowest (ts ++ p' :: rest) =
      .ok (e, p' :: rest) := by
    obtain ⟨n, hread⟩ := h deeper (by omega) rest
    exact hread.trans (operators_stop (not_lt_of_rightParen hp') n)
  rw [List.append_assoc, List.cons_append, operand, peek_cons_bind, hp]
  show (advance >>= fun _ => (within (deeper + 1)).expression .lowest >>= fun value =>
    expect .rightParen >>= fun _ => pure value) (p :: (ts ++ p' :: rest)) = _
  rw [advance_cons_bind, bind_ok _ hinner, bind_ok _ (expect_cons hp' rest)]
  rfl

theorem Operand.not (hp : p.kind = .leftParen) (ht : t.kind = .bang) (h : Operand depth ts e)
    (hp' : p'.kind = .rightParen) :
    Operand (depth + 2) (p :: (t :: ts) ++ [p']) (.unary .not e) := by
  refine .paren hp hp' fun levels hlevels rest => ⟨_, expression_of_operand ?_⟩
  have hinner : (within levels).expression .unary (ts ++ p' :: rest) = .ok (e, p' :: rest) :=
    h.inside hlevels (by decide) (not_lt_of_rightParen hp')
  rw [List.cons_append, operand, peek_cons_bind, ht]
  show (advance >>= fun _ => (within levels).expression .unary >>= fun value =>
    pure (Expression.unary .not value)) (t :: (ts ++ p' :: rest)) = _
  rw [advance_cons_bind, bind_ok _ hinner]
  rfl

theorem Operand.negate (hp : p.kind = .leftParen) (ht : t.kind = .minus) (h : Operand depth ts e)
    (hfirst : (firstToken ts).kind ≠ .integer) (hp' : p'.kind = .rightParen) :
    Operand (depth + 2) (p :: (t :: ts) ++ [p']) (.unary .negate e) := by
  refine .paren hp hp' fun levels hlevels rest => ⟨_, expression_of_operand ?_⟩
  have hinner : (within levels).expression .unary (ts ++ p' :: rest) = .ok (e, p' :: rest) :=
    h.inside hlevels (by decide) (not_lt_of_rightParen hp')
  obtain ⟨first, us, rfl, -⟩ := h.opens
  have hfirst' : first.kind ≠ .integer := hfirst
  have hnegative : negative (within levels) t.position (first :: us ++ p' :: rest) =
      .ok (.unary .negate e, p' :: rest) := by
    rw [List.cons_append, negative, peek_cons_bind, if_neg hfirst']
    exact bind_ok _ hinner
  rw [List.cons_append, operand, peek_cons_bind, ht]
  exact hnegative

/-! ### Operators -/

theorem operators_succ (h : least < t.kind.precedence) (n : Nat) :
    operators inner least (n + 1) e (t :: ts) =
      (extend inner e >>= operators inner least n) (t :: ts) := by
  show (if least < t.kind.precedence then _ else _ : Parser Expression) (t :: ts) = _
  rw [if_pos h]

theorem precedence_of_binaryOp? {kind : TokenKind} {op : BinaryOp} (h : kind.binaryOp? = some op) :
    kind.precedence = op.precedence := by
  unfold TokenKind.precedence
  split
  · cases h
  · cases h
  · rw [h]
    rfl

/-- Behind the left operand stand the operator and the right operand. -/
theorem extend_binary {op : BinaryOp} (ht : t.kind.binaryOp? = some op)
    (h : inner.expression op.precedence ts = .ok (e', rest)) :
    extend inner e (t :: ts) = .ok (.binary op e e', rest) := by
  have hread : (advance >>= fun _ => inner.expression op.precedence >>= fun value =>
      pure (Expression.binary op e value)) (t :: ts) = .ok (.binary op e e', rest) := by
    rw [advance_cons_bind, bind_ok _ h]
    rfl
  rw [extend, peek_cons_bind]
  unfold TokenKind.binaryOp? at ht
  split at ht <;> cases ht
  all_goals
    rename_i hkind
    rw [hkind]
    exact hread

theorem Operand.binary {op : BinaryOp} (hp : p.kind = .leftParen) (h : Operand depth ts e)
    (ht : t.kind.binaryOp? = some op) (h' : Operand depth us e') (hp' : p'.kind = .rightParen) :
    Operand (depth + 2) (p :: (ts ++ t :: us) ++ [p']) (.binary op e e') := by
  refine .paren hp hp' fun levels hlevels rest => ?_
  obtain ⟨n, hn, hread⟩ := h.read levels (by omega) .lowest (by decide) (t :: us ++ p' :: rest)
  obtain ⟨n, rfl⟩ := Nat.exists_eq_add_one_of_ne_zero (Nat.ne_zero_of_lt hn)
  have hinner : (within levels).expression op.precedence (us ++ p' :: rest) =
      .ok (e', p' :: rest) :=
    h'.inside hlevels (by cases op <;> decide) (not_lt_of_rightParen hp')
  have hlowest : Precedence.lowest < t.kind.precedence := by
    rw [precedence_of_binaryOp? ht]
    cases op <;> decide
  refine ⟨n, ?_⟩
  rw [List.append_assoc, hread, List.cons_append, operators_succ hlowest]
  exact bind_ok _ (extend_binary ht hinner)

theorem Operand.assign (hp : p.kind = .leftParen) (ht : t.kind = .identifier)
    (ht' : t'.kind = .assign) (h : Operand depth ts e) (hp' : p'.kind = .rightParen) :
    Operand (depth + 2) (p :: (t :: t' :: ts) ++ [p']) (.assign t.text e) := by
  refine .paren hp hp' fun levels hlevels rest => ?_
  obtain ⟨n, hn, hread⟩ := (operand_identifier depth ht).read levels (by omega) .lowest (by decide)
    (t' :: ts ++ p' :: rest)
  obtain ⟨n, rfl⟩ := Nat.exists_eq_add_one_of_ne_zero (Nat.ne_zero_of_lt hn)
  have hinner : (within levels).expression .lowest (ts ++ p' :: rest) = .ok (e, p' :: rest) :=
    h.inside hlevels (by decide) (not_lt_of_rightParen hp')
  have hextend : extend (within levels) (.identifier t.text) (t' :: (ts ++ p' :: rest)) =
      .ok (.assign t.text e, p' :: rest) := by
    rw [extend, peek_cons_bind, ht']
    show (advance >>= fun _ => (within levels).expression .lowest >>= fun value =>
      pure (Expression.assign t.text value)) (t' :: (ts ++ p' :: rest)) = _
    rw [advance_cons_bind, bind_ok _ hinner]
    rfl
  refine ⟨n, hread.trans ?_⟩
  rw [List.cons_append, operators_succ (by rw [ht']; decide)]
  exact bind_ok _ hextend

/-! ### Calls -/

/-- With so many levels to go inside, the tokens are read as the arguments behind another one. -/
structure MoreArguments (depth : Nat) (ts : List Token) (es : List Expression) : Prop where
  closes : ∃ t us, ts = t :: us ∧ t.kind.precedence = .lowest
  read : ∀ levels > depth, ∀ n ≥ ts.length, ∀ rest,
    moreArguments (within levels) n (ts ++ rest) = .ok (es, rest)

theorem MoreArguments.nil (depth : Nat) (ht : t.kind = .rightParen) :
    MoreArguments depth [t] [] := by
  refine ⟨⟨t, [], rfl, by rw [ht]; rfl⟩, fun levels _ n hn rest => ?_⟩
  obtain ⟨n, rfl⟩ := Nat.exists_eq_add_one_of_ne_zero (Nat.ne_zero_of_lt hn)
  have hcomma : t.kind ≠ .comma := by simp [ht]
  rw [moreArguments, List.singleton_append, bind_ok _ (accept_cons_of_ne hcomma rest)]
  exact bind_ok _ (expect_cons ht rest)

/-- An argument ends where more of them, or none, follow. -/
theorem MoreArguments.inside (hmore : MoreArguments depth us es) (h : Operand depth ts e)
    (hlevels : depth < levels) (rest : List Token) :
    (within levels).expression .lowest (ts ++ (us ++ rest)) = .ok (e, us ++ rest) := by
  refine h.inside hlevels (by decide) ?_
  obtain ⟨t, vs, rfl, ht⟩ := hmore.closes
  show ¬ Precedence.lowest < t.kind.precedence
  rw [ht]
  decide

theorem MoreArguments.cons (ht : t.kind = .comma) (h : Operand depth ts e)
    (hmore : MoreArguments depth us es) : MoreArguments depth (t :: ts ++ us) (e :: es) := by
  refine ⟨⟨t, ts ++ us, rfl, by rw [ht]; rfl⟩, fun levels hlevels n hn rest => ?_⟩
  obtain ⟨n, rfl⟩ := Nat.exists_eq_add_one_of_ne_zero (Nat.ne_zero_of_lt hn)
  have hrest := hmore.read levels hlevels n (by simp at hn; omega) rest
  rw [moreArguments, List.append_assoc, List.cons_append, bind_ok _ (accept_cons ht _)]
  show ((within levels).expression .lowest >>= fun value =>
    moreArguments (within levels) n >>= fun values => pure (value :: values))
      (ts ++ (us ++ rest)) = _
  rw [bind_ok _ (hmore.inside h hlevels rest), bind_ok _ hrest]
  rfl

/-- With so many levels to go inside, the tokens are read as the arguments of a call. -/
def Arguments (depth : Nat) (ts : List Token) (es : List Expression) : Prop :=
  ∀ levels > depth, ∀ rest, arguments (within levels) (ts ++ rest) = .ok (es, rest)

theorem Arguments.nil (depth : Nat) (ht : t.kind = .rightParen) : Arguments depth [t] [] := by
  intro levels _ rest
  rw [arguments, List.singleton_append, bind_ok _ (accept_cons ht rest)]
  rfl

theorem Arguments.cons (h : Operand depth ts e) (hmore : MoreArguments depth us es) :
    Arguments depth (ts ++ us) (e :: es) := by
  intro levels hlevels rest
  obtain ⟨t, vs, rfl, ht⟩ := h.opens
  have hclose : t.kind ≠ .rightParen := by
    rintro hkind
    rw [hkind] at ht
    exact absurd ht (by decide)
  have hrest := hmore.read levels hlevels (us ++ rest).length (by simp) rest
  rw [arguments, List.append_assoc, List.cons_append, bind_ok _ (accept_cons_of_ne hclose _)]
  show ((within levels).expression .lowest >>= fun value => remaining >>= fun n =>
    moreArguments (within levels) n >>= fun values => pure (value :: values))
      (t :: vs ++ (us ++ rest)) = _
  rw [bind_ok _ (hmore.inside h hlevels rest), remaining_bind, bind_ok _ hrest]
  rfl

/-- The callee stands in front of the call, and takes no level: only the arguments do. -/
theorem Operand.call (h : Operand (depth + 1) ts e) (ht : t.kind = .leftParen)
    (harguments : Arguments depth us es) : Operand (depth + 1) (ts ++ t :: us) (.call e es) := by
  refine ⟨?_, fun levels hlevels least hleast rest => ?_⟩
  · obtain ⟨first, vs, rfl, hfirst⟩ := h.opens
    exact ⟨first, vs ++ t :: us, rfl, hfirst⟩
  · obtain ⟨n, hn, hread⟩ := h.read levels hlevels least hleast (t :: us ++ rest)
    obtain ⟨n, rfl⟩ := Nat.exists_eq_add_one_of_ne_zero (Nat.ne_zero_of_lt hn)
    have hextend : extend (within levels) e (t :: (us ++ rest)) = .ok (.call e es, rest) := by
      rw [extend, peek_cons_bind, ht]
      show (advance >>= fun _ => arguments (within levels) >>= fun values =>
        pure (Expression.call e values)) (t :: (us ++ rest)) = _
      rw [advance_cons_bind, bind_ok _ (harguments levels hlevels rest)]
      rfl
    have hcall : least < t.kind.precedence := by rwa [ht]
    refine ⟨n, by simp at hn; omega, ?_⟩
    rw [List.append_assoc, hread, List.cons_append, operators_succ hcall]
    exact bind_ok _ hextend

/-! ### Statements -/

/-- The kinds of token that no statement begins with which is an expression. -/
def nonExpressionKinds : List TokenKind := [.eof, .let, .return, .leftBrace]

/-- An expression up to the end of the text is a statement. -/
theorem statement_of_expression {place : Position} (ht : t.kind ∉ nonExpressionKinds)
    (h : inner.expression .lowest (t :: ts) = .ok (e, [⟨.eof, "", place⟩])) :
    statement inner (t :: ts) = .ok (.expression e, [⟨.eof, "", place⟩]) := by
  have hread : (inner.expression .lowest >>= fun value => accept .semicolon >>= fun _ =>
      pure (Statement.expression value)) (t :: ts) = .ok (.expression e, [⟨.eof, "", place⟩]) := by
    rw [bind_ok _ h]
    rfl
  rw [statement, peek_cons_bind]
  generalize t.kind = kind at ht
  cases kind with
  | «let» | «return» | leftBrace => simp [nonExpressionKinds] at ht
  | _ => exact hread

end NovelScript.Expr
