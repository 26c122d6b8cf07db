import NovelScript.Proofs.Parsing.Depth
import NovelScript.Proofs.Parsing.Terms

/-!
Chains of terms with operators between them. An operator takes for its right operand all that
follows and binds tighter than itself, and what stands before it for its left one. Main statement:
every chain, however long, is one expression with the same operands and operators from left to
right; an operator binds no tighter than the root of its left operand, and looser than the root of
its right one.
-/

namespace NovelScript.Expr

open NovelScript.Expr.Parser

/-! ### Trees -/

/-- The operator at the root. -/
def Expression.operator? : Expression → Option BinaryOp
  | .binary op _ _ => some op
  | _ => none

/-- What an expression is made of from left to right: its first operand, and the operators with the
operands behind them. -/
def Expression.inorder : Expression → Expression × List (BinaryOp × Expression)
  | .binary op left right =>
    (left.inorder.1, left.inorder.2 ++ (op, right.inorder.1) :: right.inorder.2)
  | e => (e, [])

/-- How tightly an operator binds. -/
def BinaryOp.level : BinaryOp → Nat
  | or => 0
  | and => 1
  | equal | notEqual => 2
  | less | greater | lessEqual | greaterEqual => 3
  | add | subtract => 4
  | multiply | divide => 5

/-- Operators bind looser towards the root, and operators of one level group to the left. -/
def Expression.Ordered : Expression → Prop
  | .binary op left right => left.Ordered ∧ right.Ordered ∧
    (∀ op' ∈ left.operator?, op.level ≤ op'.level) ∧
    ∀ op' ∈ right.operator?, op.level < op'.level
  | _ => True

theorem Precedence.lt_iff {p q : Precedence} : p < q ↔ p.rank < q.rank := Iff.rfl

theorem BinaryOp.rank_precedence (op : BinaryOp) :
    op.precedence.rank = op.level + 2 ∧ op.level ≤ 5 := by
  cases op <;> decide

/-! ### Chains -/

/-- Operators with the terms behind them. -/
abbrev Links := List (BinaryOp × Term)

/-- A term, and the operators and terms behind it. -/
structure Chain where
  first : Term
  links : Links

variable {least : Precedence} {op : BinaryOp} {term : Term} {left right e : Expression}
  {links between behind : Links} {ts us : List Token}

namespace Links

/-- The tokens of operators and terms up to the end of the text. -/
def unplaced : Links → List (TokenKind × String)
  | [] => [(.eof, "")]
  | (op, term) :: links => (op.kind, op.sign) :: (term.unplaced ++ unplaced links)

/-- Operators and terms with blanks between them. -/
def text : Links → List Char
  | [] => []
  | (op, term) :: links => ' ' :: (op.sign.toList ++ ' ' :: (term.text ++ text links))

/-- The operators with the operands behind them. -/
def expressions (links : Links) : List (BinaryOp × Expression) :=
  links.map fun (op, term) => (op, term.expression)

/-- How tightly the first operator binds. -/
def precedence : Links → Precedence
  | [] => .lowest
  | (op, _) :: _ => op.precedence

end Links

namespace Chain

/-- The tokens of a chain that is the whole text. -/
def unplaced (chain : Chain) : List (TokenKind × String) :=
  chain.first.unplaced ++ chain.links.unplaced

/-- A chain with blanks around its operators. -/
def text (chain : Chain) : String := String.ofList (chain.first.text ++ chain.links.text)

/-- The operands and operators of a chain from left to right. -/
def inorder (chain : Chain) : Expression × List (BinaryOp × Expression) :=
  (chain.first.expression, chain.links.expressions)

end Chain

/-! ### Terms in trees -/

theorem Term.operator?_expression (term : Term) : term.expression.operator? = none := by
  obtain ⟨negated, atom⟩ := term
  cases negated <;> cases atom <;> rfl

theorem Term.ordered_expression (term : Term) : term.expression.Ordered := by
  obtain ⟨negated, atom⟩ := term
  cases negated <;> cases atom <;> simp [Term.expression, Atom.expression, Expression.Ordered]

theorem Term.inorder_expression (term : Term) : term.expression.inorder = (term.expression, []) := by
  obtain ⟨negated, atom⟩ := term
  cases negated <;> cases atom <;> simp [Term.expression, Atom.expression, Expression.inorder]

/-! ### Reading a chain -/

theorem Links.precedence_firstToken (hus : us.map Token.unplaced = links.unplaced) :
    (firstToken us).kind.precedence = links.precedence := by
  cases links with
  | nil =>
    obtain ⟨t, rfl, ht⟩ := List.map_eq_singleton_iff.mp hus
    have hkind : t.kind = .eof := congrArg Prod.fst ht
    simp [firstToken, hkind, Links.precedence, TokenKind.precedence, TokenKind.binaryOp?]
  | cons link links =>
    obtain ⟨t, ts, rfl, ht, -⟩ := List.map_eq_cons_iff.mp hus
    have hkind : t.kind = link.1.kind := congrArg Prod.fst ht
    simp only [firstToken, List.head?_cons, Option.getD_some, hkind]
    exact precedence_of_binaryOp? link.1.binaryOp?_kind

theorem Links.length_le (hus : us.map Token.unplaced = links.unplaced) :
    links.length ≤ us.length := by
  have hle : links.length ≤ links.unplaced.length := by
    clear hus
    induction links with
    | nil => exact Nat.zero_le _
    | cons link links ih =>
      simp only [Links.unplaced, List.length_cons, List.length_append]
      omega
  rwa [← hus, List.length_map] at hle

/-- No operator between terms binds tighter than a negation. -/
theorem Links.not_unary_lt (links : Links) : ¬ Precedence.unary < links.precedence := by
  cases links with
  | nil => decide
  | cons link links =>
    obtain ⟨hrank, hlevel⟩ := link.1.rank_precedence
    have hunary : Precedence.unary.rank = 8 := rfl
    rw [Precedence.lt_iff, Links.precedence, hrank]
    omega

/-- Behind the operand `left`, the operators that bind tighter than `least` make it the operand `e`,
and then reading stops. -/
structure Climbs (least : Precedence) (left : Expression) (links : Links) (e : Expression)
    (behind : Links) : Prop where
  inorder : ∃ between, links = between ++ behind ∧
    e.inorder = (left.inorder.1, left.inorder.2 ++ between.expressions)
  ordered : e.Ordered
  tight : ∀ op ∈ e.operator?, least < op.precedence
  stops : ¬ least < behind.precedence
  /-- A level is taken for each operator inside of another one, and these bind tighter and tighter. -/
  read : ∀ levels n us, 9 ≤ levels + least.rank → links.length ≤ n →
    us.map Token.unplaced = links.unplaced → ∃ vs, vs.map Token.unplaced = behind.unplaced ∧
      operators (within levels) least n left us = .ok (e, vs)

theorem Climbs.refl (hordered : left.Ordered) (htight : ∀ op ∈ left.operator?, least < op.precedence)
    (hstops : ¬ least < links.precedence) : Climbs least left links left links where
  inorder := ⟨[], rfl, by simp [Links.expressions]⟩
  ordered := hordered
  tight := htight
  stops := hstops
  read := fun _ n us _ _ hus =>
    ⟨us, hus, operators_stop (by rwa [Links.precedence_firstToken hus]) n⟩

theorem Climbs.length_le (h : Climbs least left links e behind) : behind.length ≤ links.length := by
  obtain ⟨between, rfl, -⟩ := h.inorder
  simp

/-- An operator takes its right operand, and reading goes on behind it. -/
theorem Climbs.step (hop : least < op.precedence)
    (hright : Climbs op.precedence term.expression links right between)
    (hmore : Climbs least (.binary op left right) between e behind) :
    Climbs least left ((op, term) :: links) e behind := by
  refine ⟨?_, hmore.ordered, hmore.tight, hmore.stops, ?_⟩
  · obtain ⟨inside, rfl, hinside⟩ := hright.inorder
    obtain ⟨further, rfl, hfurther⟩ := hmore.inorder
    refine ⟨(op, term) :: inside ++ further, by simp, ?_⟩
    rw [hfurther, Expression.inorder, hinside, term.inorder_expression]
    simp [Links.expressions]
  · intro levels n us hlevels hn hus
    obtain ⟨hrank, hlevel⟩ := op.rank_precedence
    obtain ⟨t, us, rfl, ht, hus⟩ := List.map_eq_cons_iff.mp hus
    obtain ⟨ts, us, rfl, hts, hus⟩ := List.map_eq_append_iff.mp hus
    -- the right operand is read one level further in
    rw [Precedence.lt_iff] at hop
    obtain ⟨deeper, rfl⟩ : ∃ deeper, levels = deeper + 1 + 1 := ⟨levels - 2, by omega⟩
    obtain ⟨n, rfl⟩ := Nat.exists_eq_add_one_of_ne_zero (Nat.ne_zero_of_lt hn)
    have hkind : t.kind = op.kind := congrArg Prod.fst ht
    have hop? : t.kind.binaryOp? = some op := hkind ▸ op.binaryOp?_kind
    have hoperand : operand (within (deeper + 1)) (ts ++ us) = .ok (term.expression, us) :=
      operand_term hts (by rw [Links.precedence_firstToken hus]; exact links.not_unary_lt)
    obtain ⟨vs, hvs, hinside⟩ := hright.read (deeper + 1) us.length us (by omega)
      (Links.length_le hus) hus
    have hinner : (within (deeper + 1 + 1)).expression op.precedence (ts ++ us) = .ok (right, vs) :=
      (expression_of_operand hoperand).trans hinside
    obtain ⟨ws, hws, hread⟩ := hmore.read (deeper + 1 + 1) n vs hlevels
      (hright.length_le.trans (Nat.le_of_succ_le_succ hn)) hvs
    refine ⟨ws, hws, ?_⟩
    have hbinds : least < t.kind.precedence := by
      rw [precedence_of_binaryOp? hop?, Precedence.lt_iff]
      exact hop
    rw [operators_succ hbinds, bind_ok _ (extend_binary hop? hinner)]
    exact hread

/-- An operator between operands that fit keeps to the order. -/
theorem Climbs.ordered_binary (hright : Climbs op.precedence term.expression links right between)
    (hordered : left.Ordered) (hfits : ∀ op' ∈ left.operator?, ¬ op'.precedence < op.precedence) :
    (Expression.binary op left right).Ordered := by
  refine ⟨hordered, hright.ordered, fun op' hop' => ?_, fun op' hop' => ?_⟩
  · have hloose := hfits op' hop'
    rw [Precedence.lt_iff, op.rank_precedence.1, op'.rank_precedence.1] at hloose
    omega
  · have htighter := hright.tight op' hop'
    rw [Precedence.lt_iff, op.rank_precedence.1, op'.rank_precedence.1] at htighter
    omega

/-- However the operators bind, reading behind an operand comes to a stop. -/
theorem exists_climbs (least : Precedence) (left : Expression) (links : Links)
    (hordered : left.Ordered) (htight : ∀ op ∈ left.operator?, least < op.precedence)
    (hfits : ∀ op ∈ left.operator?, ¬ op.precedence < links.precedence) :
    ∃ e behind, Climbs least left links e behind := by
  -- the right operand and what follows it are both shorter than the whole
  induction hlength : links.length using Nat.strong_induction_on generalizing least left links with
  | _ n ih =>
    by_cases hbinds : least < links.precedence
    · cases links with
      | nil => exact absurd hbinds (Nat.not_lt_zero _)
      | cons link links =>
        obtain ⟨op, term⟩ := link
        have hnone := term.operator?_expression
        obtain ⟨right, between, hright⟩ := ih links.length (by simp [← hlength]) op.precedence
          term.expression links term.ordered_expression (by simp [hnone]) (by simp [hnone]) rfl
        have hroot : ∀ op' ∈ (Expression.binary op left right).operator?, op' = op :=
          fun op' hop' => (Option.some.inj hop').symm
        have hshorter : between.length < n := by
          have hle := hright.length_le
          rw [List.length_cons] at hlength
          omega
        obtain ⟨e, behind, hmore⟩ := ih between.length hshorter least (.binary op left right) between
          (hright.ordered_binary hordered hfits) (fun op' hop' => hroot op' hop' ▸ hbinds)
          (fun op' hop' => hroot op' hop' ▸ hright.stops) rfl
        exact ⟨e, behind, hright.step hbinds hmore⟩
    · exact ⟨left, links, .refl hordered htight hbinds⟩

/-! ### Whole texts -/

/-- A term begins with no token that a statement of another kind begins with. -/
theorem Term.exists_firstToken (hts : ts.map Token.unplaced = term.unplaced) :
    ∃ t us, ts = t :: us ∧ t.kind ∉ nonExpressionKinds := by
  have hfirst : ∃ first more, term.unplaced = first :: more ∧
      first.1 ∉ nonExpressionKinds := by
    obtain ⟨negated, atom⟩ := term
    cases negated with
    | true => exact ⟨_, _, rfl, by decide⟩
    | false =>
      refine ⟨_, _, rfl, ?_⟩
      cases atom with
      | boolean value => cases value <;> decide
      | identifier | string | double | integer => simp [Atom.unplaced, nonExpressionKinds]
  obtain ⟨first, more, hterm, hkind⟩ := hfirst
  obtain ⟨t, us, rfl, rfl, -⟩ := List.map_eq_cons_iff.mp (hts.trans hterm)
  exact ⟨t, us, rfl, hkind⟩

/-- Tokens of a chain that is the whole text are read as one expression. -/
theorem parse_of_unplaced {chain : Chain} {source : String}
    (h : Climbs .lowest chain.first.expression chain.links e [])
    (hsource : (tokens source).map Token.unplaced = chain.unplaced) :
    parse source = .ok [.expression e] := by
  obtain ⟨ts, us, htokens, hts, hus⟩ := List.map_eq_append_iff.mp hsource
  have hlength : chain.links.length ≤ us.length := Links.length_le hus
  obtain ⟨vs, hvs, hread⟩ := h.read 255 us.length us (by decide) hlength hus
  obtain ⟨⟨kind, text, p⟩, rfl, heof⟩ := List.map_eq_singleton_iff.mp hvs
  obtain ⟨rfl, rfl⟩ := Prod.mk.inj heof
  have hoperand : operand (within 255) (ts ++ us) = .ok (chain.first.expression, us) :=
    operand_term hts (by rw [Links.precedence_firstToken hus]; exact chain.links.not_unary_lt)
  have hexpression : (within maxNesting).expression .lowest (ts ++ us) =
      .ok (e, [⟨.eof, "", p⟩]) := (expression_of_operand hoperand).trans hread
  obtain ⟨t, more, rfl, ht⟩ := Term.exists_firstToken hts
  have hstatement : statement (within maxNesting) (t :: (more ++ us)) =
      .ok (.expression e, [⟨.eof, "", p⟩]) := statement_of_expression ht hexpression
  have heof : t.kind ≠ .eof := fun hkind => ht (by simp [hkind, nonExpressionKinds])
  rw [parse, htokens, List.cons_append, parseTokens_of_statement heof hstatement]

theorem closes_links (links : Links) : Closes links.text := by
  cases links with
  | nil => exact closes_nil
  | cons link links => exact closes_cons (by decide)

/-- A blank before each operator and behind it keeps the tokens apart. -/
theorem tokensFrom_links (links : Links) (p : Position) :
    (tokensFrom 0 p links.text).map Token.unplaced = links.unplaced := by
  induction links generalizing p with
  | nil => rfl
  | cons link links ih =>
    obtain ⟨op, term⟩ := link
    obtain ⟨ts, p', hterm, hts⟩ := tokensFrom_term term (closes_links links)
      (((p.next ' ').after op.sign.toList).next ' ')
    simp only [Links.text, Links.unplaced, tokensFrom_space, tokensFrom_binary, hterm,
      List.map_cons, List.map_append, hts, ih]
    rfl

/-- The text of a chain has its tokens. -/
theorem tokens_text (chain : Chain) : (tokens chain.text).map Token.unplaced = chain.unplaced := by
  obtain ⟨ts, p', hterm, hts⟩ := tokensFrom_term chain.first (closes_links chain.links) {}
  rw [tokens, Chain.text, String.toList_ofList, hterm, List.map_append, hts, tokensFrom_links]
  rfl

/-- **Chains are read by precedence and from left to right.** Every chain is accepted, and it is one
expression, however it is written. The expression has the operands and operators of the chain in
their order, and they are grouped by how tightly the operators bind. -/
theorem parse_chain (chain : Chain) : ∃ e, e.inorder = chain.inorder ∧ e.Ordered ∧
    parse chain.text = .ok [.expression e] ∧
    ∀ source, (tokens source).map Token.unplaced = chain.unplaced →
      parse source = .ok [.expression e] := by
  have hnone := chain.first.operator?_expression
  obtain ⟨e, behind, h⟩ := exists_climbs .lowest chain.first.expression chain.links
    chain.first.ordered_expression (by simp [hnone]) (by simp [hnone])
  have hbehind : behind = [] := by
    cases behind with
    | nil => rfl
    | cons link links =>
      refine absurd ?_ h.stops
      rw [Links.precedence, Precedence.lt_iff, link.1.rank_precedence.1]
      exact Nat.zero_lt_succ _
  subst hbehind
  obtain ⟨between, hbetween, hinorder⟩ := h.inorder
  refine ⟨e, ?_, h.ordered, parse_of_unplaced h (tokens_text chain), fun source =>
    parse_of_unplaced h⟩
  rw [hinorder, chain.first.inorder_expression, Chain.inorder, hbetween, List.append_nil]
  rfl

end NovelScript.Expr
