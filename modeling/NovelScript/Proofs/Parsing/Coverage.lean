import Mathlib.Data.List.Basic
import NovelScript.Proofs.Parsing.Consumption

/-!
What an accepted text consists of. Every reader takes the tokens that spell what it gives. Main
statement: the brackets of an accepted text are balanced, and without brackets and separators its
tokens are the words of the program.
-/

namespace NovelScript.Expr

variable {t t' : Token} {ts us used rest : List Token} {ws vs : List Word} {right : TokenKind}

/-! ### Tokens of a construct -/

/-- The tokens spell the words, and the last one of them is no semicolon. -/
structure Covers (ts : List Token) (ws : List Word) : Prop where
  spells : Spells ts ws
  last : ∃ t ∈ ts.getLast?, t.kind ≠ .semicolon

/-- The tokens spell the words up to a closing bracket. -/
def Closed (right : TokenKind) (ts : List Token) (ws : List Word) : Prop :=
  ∃ inside t, ts = inside ++ [t] ∧ t.kind = right ∧ Spells inside ws

theorem Spells.single (ht : t.kind ∈ plainKinds) : Spells [t] [t.word] := .word ht .nil

theorem Covers.ne_nil (h : Covers ts ws) : ts ≠ [] := by
  obtain ⟨t, ht, -⟩ := h.last
  rintro rfl
  cases ht

theorem Covers.behind (h : Covers us vs) (hts : Spells ts ws) : Covers (ts ++ us) (ws ++ vs) := by
  obtain ⟨t, ht, hkind⟩ := h.last
  exact ⟨hts.append h.spells, t, List.mem_getLast?_append_of_mem_getLast? ht, hkind⟩

theorem Covers.single (ht : t.kind ∈ plainKinds) : Covers [t] [t.word] :=
  ⟨.single ht, t, rfl, fun heq => absurd (heq ▸ ht) (by decide)⟩

theorem Closed.nil (ht : t.kind = right) : Closed right [t] [] := ⟨[], t, rfl, ht, .nil⟩

theorem Closed.behind (h : Closed right us vs) (hts : Spells ts ws) :
    Closed right (ts ++ us) (ws ++ vs) := by
  obtain ⟨inside, t, rfl, ht, hinside⟩ := h
  exact ⟨ts ++ inside, t, (List.append_assoc ts inside [t]).symm, ht, hts.append hinside⟩

theorem Closed.covers (h : Closed right us ws) (hpair : (t.kind, right) ∈ TokenKind.pairs) :
    Covers (t :: us) ws := by
  obtain ⟨inside, t', rfl, rfl, hinside⟩ := h
  refine ⟨by simpa using Spells.enclosed hpair hinside .nil, t', ?_, fun heq => ?_⟩
  · rw [← List.cons_append, List.getLast?_concat]
    rfl
  rw [heq] at hpair
  have hsemicolon : ∀ pair ∈ TokenKind.pairs, pair.2 ≠ .semicolon := by decide
  exact hsemicolon _ hpair rfl

namespace Parser

variable {n n' : Nat}

/-! ### Expressions -/

theorem takes_integer {text : String} {p p' : Position} {P : List Token → Expression → Prop}
    (h : ∀ z, Text.readInt32? text = some z → P [] (.integer z)) :
    Takes n n' (integer text p) (integer text p') P := by
  unfold integer
  cases hread : Text.readInt32? text with
  | some z => exact takes_pure (h z hread)
  | none => exact takes_fail _ _

/-- What the readers of nested expressions and blocks take. -/
structure Inner.Reads (inner : Inner) : Prop where
  expression : ∀ least n n', Takes n n' (inner.expression least) (inner.expression least)
    fun used e => Covers used e.words
  block : ∀ t t' n n', t.unplaced = t'.unplaced → t.kind = .leftBrace →
    TakesAt t t' n n' inner.block inner.block fun used body => Covers used (statementWords body)

variable {inner : Inner}

theorem takes_negative (h : inner.Reads) (ht : t.kind = .minus) {p p' : Position} :
    Takes n n' (negative inner p) (negative inner p') fun us e => Covers (t :: us) e.words := by
  have hword : t.word = .sign .minus := by simp [Token.word, ht]
  have hplain : t.kind ∈ plainKinds := by simp [ht, plainKinds]
  refine takes_peek fun next next' hnext => ?_
  have hkinds : next.kind = next'.kind := congrArg Prod.fst hnext
  have htexts : next.text = next'.text := congrArg Prod.snd hnext
  rw [← hkinds, ← htexts]
  by_cases hkind : next.kind = .integer
  · rw [if_pos hkind, if_pos hkind]
    refine takesAt_advance (by simp [hkind]) (takes_integer fun z hz => ⟨?_, next, rfl, ?_⟩)
    · simpa [Expression.words] using Spells.negative ht hkind hz .nil
    · simp [hkind]
  · rw [if_neg hkind, if_neg hkind]
    refine (h.expression .unary n n').bind (fun e used hused => takes_pure ?_) next next' hnext
    rw [List.append_nil, Expression.words, UnaryOp.kind, ← hword]
    exact hused.behind (.single hplain)

theorem takes_braced (h : inner.Reads) :
    Takes n n' (braced inner) (braced inner) fun used body =>
      Covers used (statementWords body) := by
  refine takes_peek fun t t' ht => ?_
  have hkinds : t.kind = t'.kind := congrArg Prod.fst ht
  rw [← hkinds]
  by_cases hkind : t.kind = .leftBrace
  · rw [if_pos hkind, if_pos hkind]
    exact h.block t t' n n' ht hkind
  · rw [if_neg hkind, if_neg hkind]
    exact takes_fail _ _ t t' ht

/-- The keyword `t` has been read. -/
theorem takes_conditional (h : inner.Reads) (ht : t.kind = .if) :
    Takes n n' (conditional inner) (conditional inner) fun us e => Covers (t :: us) e.words := by
  have hword : t.word = .sign .if := by simp [Token.word, ht]
  have hplain : t.kind ∈ plainKinds := by simp [ht, plainKinds]
  refine takes_expect (by decide) fun left left' hleft _ => ?_
  refine (h.expression .lowest _ _).bind fun condition used hcondition => ?_
  refine takes_expect (by decide) fun right right' hright _ => ?_
  refine (takes_braced h).bind fun consequence us hconsequence => ?_
  have hpair : (left.kind, right.kind) ∈ TokenKind.pairs := by simp [hleft, hright, TokenKind.pairs]
  have hthen : Covers (t :: left :: (used ++ right :: us))
      (Expression.ifThen condition consequence).words := by
    have hparen : Spells (left :: (used ++ [right])) condition.words := by
      simpa using Spells.enclosed hpair hcondition.spells .nil
    rw [Expression.words, ← hword]
    simpa using hconsequence.behind (hparen.word hplain)
  refine takes_accept (by decide) (fun t₂ ht₂ => ?_) (takes_pure (by simpa using hthen))
  have hword₂ : t₂.word = .sign .else := by simp [Token.word, ht₂]
  have hplain₂ : t₂.kind ∈ plainKinds := by simp [ht₂, plainKinds]
  refine (takes_braced h).bind fun alternative vs halternative => takes_pure ?_
  have helse := (halternative.behind (.single hplain₂)).behind hthen.spells
  rw [hword₂] at helse
  simpa [Expression.words] using helse

/-- A name is read. -/
theorem takes_name {α : Type} {P : List Token → α → Prop} {f f' : Token → Parser α}
    (h : ∀ name name', Spells [name] [.identifier name.text] → name.text = name'.text →
      Takes (n - 1) (n' - 1) (f name) (f' name') fun us a => P (name :: us) a) :
    Takes n n' (expect .identifier >>= f) (expect .identifier >>= f') P := by
  refine takes_expect (by decide) fun name name' hname hplaces => ?_
  have hword : name.word = .identifier name.text := by simp [Token.word, hname]
  have hspells : Spells [name] [name.word] := .single (by simp [hname, plainKinds])
  exact h name name' (hword ▸ hspells) (congrArg Prod.snd hplaces)

theorem takes_moreParameters : ∀ k k', Takes k k' (moreParameters k) (moreParameters k')
    fun used names => Closed .rightParen used (names.map .identifier) := by
  refine takes_repeated fun k k' ih => ?_
  refine takes_accept (by decide) (fun comma hcomma => ?_) ?_
  · refine takes_name fun name name' hname htext => ?_
    have hseparator : comma.kind ∈ TokenKind.separators := by simp [hcomma, TokenKind.separators]
    rw [← htext]
    refine Takes.bind (ih.mono (by omega) (by omega))
      fun names used hnames => takes_pure ?_
    rw [List.append_nil, List.map_cons]
    exact hnames.behind (.separator hseparator hname)
  · exact takes_expect (by decide) fun t t' ht _ => takes_pure (.nil ht)

theorem takes_parameters : Takes n n' parameters parameters
    fun used names => Closed .rightParen used (names.map .identifier) := by
  refine takes_accept (by decide) (fun t ht => takes_pure (.nil ht)) ?_
  refine takes_name fun name name' hname htext => ?_
  rw [← htext]
  refine takes_remaining fun k k' => (takes_moreParameters k k').bind
    fun names used hnames => takes_pure ?_
  rw [List.append_nil, List.map_cons]
  exact hnames.behind hname

theorem takes_moreArguments (h : inner.Reads) :
    ∀ k k', Takes k k' (moreArguments inner k) (moreArguments inner k')
      fun used values => Closed .rightParen used (expressionWords values) := by
  refine takes_repeated fun k k' ih => ?_
  refine takes_accept (by decide) (fun comma hcomma => ?_) ?_
  · have hseparator : comma.kind ∈ TokenKind.separators := by simp [hcomma, TokenKind.separators]
    refine (h.expression .lowest _ _).bind fun value us hvalue => ?_
    refine Takes.bind (ih.mono (by omega) (by omega))
      fun values used hvalues => takes_pure ?_
    rw [List.append_nil]
    exact hvalues.behind (.separator hseparator hvalue.spells)
  · exact takes_expect (by decide) fun t t' ht _ => takes_pure (.nil ht)

theorem takes_arguments (h : inner.Reads) : Takes n n' (arguments inner) (arguments inner)
    fun used values => Closed .rightParen used (expressionWords values) := by
  refine takes_accept (by decide) (fun t ht => takes_pure (.nil ht)) ?_
  refine (h.expression .lowest _ _).bind fun value us hvalue => ?_
  refine takes_remaining fun k k' => (takes_moreArguments h k k').bind
    fun values used hvalues => takes_pure ?_
  rw [List.append_nil]
  exact hvalues.behind hvalue.spells

theorem takes_operand (h : inner.Reads) : Takes n n' (operand inner) (operand inner)
    fun used e => Covers used e.words := by
  refine takes_peek fun t t' ht => ?_
  obtain ⟨p', rfl⟩ := Token.exists_place ht
  obtain ⟨kind, text, p⟩ := t
  cases kind with
  | identifier => exact takesAt_advance (by simp) (takes_pure (.single (by simp [plainKinds])))
  | integer =>
    refine takesAt_advance (by simp) (takes_integer fun z hz => ⟨?_, _, rfl, by simp⟩)
    simpa [Expression.words] using Spells.integer rfl hz .nil
  | double =>
    refine takesAt_advance (by simp) ?_
    dsimp only
    cases hread : Decimal.readFloat? text with
    | none => exact takes_fail _ _
    | some x =>
      refine takes_pure ?_
      rw [Expression.words, ← hread]
      exact .single (by simp [plainKinds])
  | string => exact takesAt_advance (by simp) (takes_pure (.single (by simp [plainKinds])))
  | «true» => exact takesAt_advance (by simp) (takes_pure (.single (by simp [plainKinds])))
  | «false» => exact takesAt_advance (by simp) (takes_pure (.single (by simp [plainKinds])))
  | bang =>
    refine takesAt_advance (by simp) ((h.expression .unary _ _).bind
      fun e used hused => takes_pure ?_)
    rw [List.append_nil]
    exact hused.behind (.single (by simp [plainKinds]))
  | minus => exact takesAt_advance (by simp) (takes_negative h rfl)
  | leftParen =>
    refine takesAt_advance (by simp) ((h.expression .lowest _ _).bind fun e used hused => ?_)
    refine takes_expect (by decide) fun right right' hright _ => takes_pure ?_
    exact Closed.covers ⟨used, right, rfl, hright, hused.spells⟩ (by simp [TokenKind.pairs])
  | «if» => exact takesAt_advance (by simp) (takes_conditional h rfl)
  | function =>
    refine takesAt_advance (by simp) (takes_expect (by decide) fun left left' hleft _ => ?_)
    refine takes_parameters.bind fun names used hnames => ?_
    refine (takes_braced h).bind fun body us hbody => takes_pure ?_
    have hparameters := (hnames.covers (t := left) (by rw [hleft]; decide)).spells
    have hall := hbody.behind (hparameters.word (t := ⟨.function, text, p⟩) (by simp [plainKinds]))
    simpa [Expression.words, Token.word] using hall
  | _ => exact takes_fail _ _ _ _ rfl

/-! ### Operators -/

/-- What extends the operand `left` to an expression. -/
def Extends (left : Expression) (used : List Token) (e : Expression) : Prop :=
  ∀ ts, Covers ts left.words → Covers (ts ++ used) e.words

theorem eq_kind_of_binaryOp? {kind : TokenKind} {op : BinaryOp} (h : kind.binaryOp? = some op) :
    kind = op.kind := by
  unfold TokenKind.binaryOp? at h
  split at h <;> cases h <;> rfl

theorem binaryOp?_ne_none {kind : TokenKind} (h : .lowest < kind.precedence)
    (hassign : kind ≠ .assign) (hparen : kind ≠ .leftParen) : kind.binaryOp? ≠ none := by
  intro hnone
  unfold TokenKind.precedence at h
  split at h
  · exact hassign rfl
  · exact hparen rfl
  · rw [hnone] at h
    exact absurd h (by decide)

theorem kind_ne_eof (op : BinaryOp) : op.kind ≠ .eof := by
  cases op <;> decide

theorem takesAt_extend (h : inner.Reads) {left : Expression} (ht : t.unplaced = t'.unplaced)
    (hoperator : .lowest < t.kind.precedence) :
    TakesAt t t' n n' (extend inner left) (extend inner left)
      fun used e => used ≠ [] ∧ Extends left used e := by
  refine takesAt_peek ?_
  obtain ⟨p', rfl⟩ := Token.exists_place ht
  obtain ⟨kind, text, p⟩ := t
  dsimp only
  split
  · cases left with
    | identifier name =>
      refine takesAt_advance (by simp) ((h.expression .lowest _ _).bind
        fun value used hvalue => takes_pure ⟨List.cons_ne_nil _ _, fun ts hts => ?_⟩)
      rw [List.append_nil]
      exact (hvalue.behind (.single (by simp [plainKinds]))).behind hts.spells
    | _ => exact takes_fail _ _ _ _ rfl
  · refine takesAt_advance (by simp) ((takes_arguments h).bind
      fun values used hvalues => takes_pure ⟨List.cons_ne_nil _ _, fun ts hts => ?_⟩)
    rw [List.append_nil]
    exact (hvalues.covers (by simp [TokenKind.pairs])).behind hts.spells
  · cases hop : kind.binaryOp? with
    | none => exact absurd hop (binaryOp?_ne_none hoperator ‹_› ‹_›)
    | some op =>
      obtain rfl := eq_kind_of_binaryOp? hop
      refine takesAt_advance (kind_ne_eof op) ((h.expression op.precedence _ _).bind
        fun right used hright => takes_pure ⟨List.cons_ne_nil _ _, fun ts hts => ?_⟩)
      have hword : (⟨op.kind, text, p⟩ : Token).word = .sign op.kind := by cases op <;> rfl
      rw [List.append_nil, Expression.words, ← hword]
      exact (hright.behind (.single (by cases op <;> simp [BinaryOp.kind, plainKinds]))).behind
        hts.spells

theorem takes_operators (h : inner.Reads) (least : Precedence) : ∀ k k' left,
    Takes k k' (operators inner least k left) (operators inner least k' left) (Extends left) := by
  refine takes_repeated_from fun k k' left ih => takes_peek fun t t' ht => ?_
  rw [show t'.kind = t.kind from congrArg Prod.fst ht.symm]
  by_cases hbinds : least < t.kind.precedence
  · rw [if_pos hbinds, if_pos hbinds]
    refine (takesAt_extend h ht (Nat.zero_lt_of_lt hbinds)).bind fun e used hused => ?_
    have hlength := List.length_pos_iff.mpr hused.1
    refine fun u u' hu => ((ih e u u' hu).mono (by omega) (by omega)).imp fun us e' he' => ?_
    intro ts hts
    rw [← List.append_assoc]
    exact he' _ (hused.2 ts hts)
  · rw [if_neg hbinds, if_neg hbinds]
    exact takes_pure (fun ts hts => by rwa [List.append_nil]) t t' ht

theorem takes_expression (h : inner.Reads) (least : Precedence) :
    Takes n n' (expression inner least) (expression inner least)
      fun used e => Covers used e.words :=
  (takes_operand h).bind fun left used hused => takes_remaining fun k k' t t' ht =>
    (takes_operators h least k k' left t t' ht).imp fun _ _ he => he used hused

/-! ### Statements -/

/-- A statement without the semicolon behind it, and whether one may follow. -/
def unended (inner : Inner) : Parser (Statement × Bool) := do
  let token ← peek
  match token.kind with
  | .let =>
    advance
    let name ← expect .identifier
    let _ ← expect .assign
    let value ← inner.expression .lowest
    return (.let name.text value, true)
  | .return =>
    advance
    let value ← inner.expression .lowest
    return (.return value, true)
  | .leftBrace =>
    let body ← inner.block
    return (.block body, false)
  | _ =>
    let value ← inner.expression .lowest
    return (.expression value, true)

/-- A statement and the semicolon that may end it. -/
theorem statement_eq (inner : Inner) : statement inner = unended inner >>= fun read =>
    if read.2 then accept .semicolon >>= fun _ => pure read.1 else pure read.1 := by
  unfold statement unended
  rw [bind_assoc]
  refine congrArg (peek >>= ·) (funext fun token => ?_)
  cases token.kind <;> simp

theorem takes_unended (h : inner.Reads) : Takes n n' (unended inner) (unended inner)
    fun used read => Covers used read.1.words := by
  refine takes_peek fun t t' ht => ?_
  obtain ⟨p', rfl⟩ := Token.exists_place ht
  obtain ⟨kind, text, p⟩ := t
  cases kind with
  | «let» =>
    refine takesAt_advance (by simp) (takes_name fun name name' hname htext => ?_)
    rw [← htext]
    refine takes_expect (by decide) fun sign sign' hsign _ => ?_
    refine (h.expression .lowest _ _).bind fun value used hvalue => takes_pure ?_
    have hsign' : sign.word = .sign .assign := by simp [Token.word, hsign]
    rw [List.append_nil, Statement.words, ← hsign']
    exact ((hvalue.behind (.single (by simp [hsign, plainKinds]))).behind hname).behind
      (.single (t := ⟨.let, text, p⟩) (by simp [plainKinds]))
  | «return» =>
    refine takesAt_advance (by simp) ((h.expression .lowest _ _).bind
      fun value used hvalue => takes_pure ?_)
    rw [List.append_nil]
    exact hvalue.behind (.single (by simp [plainKinds]))
  | leftBrace =>
    refine (h.block _ _ _ _ ht rfl).bind fun body used hbody => takes_pure ?_
    rw [List.append_nil]
    exact hbody
  | _ =>
    refine (h.expression .lowest _ _).bind (fun value used hvalue => takes_pure ?_) _ _ ht
    rw [List.append_nil]
    exact hvalue

theorem takes_statement (h : inner.Reads) : Takes n n' (statement inner) (statement inner)
    fun used st => used ≠ [] ∧ Spells used st.words := by
  rw [statement_eq]
  refine (takes_unended h).bind fun read used hused => ?_
  have hplain : used ++ [] ≠ [] ∧ Spells (used ++ []) read.1.words := by
    rw [List.append_nil]
    exact ⟨hused.ne_nil, hused.spells⟩
  cases read.2 with
  | false => exact takes_pure hplain
  | true =>
    refine takes_accept (by decide) (fun t ht => takes_pure ⟨by simp, ?_⟩) (takes_pure hplain)
    have hend := hused.spells.append (.separator (t := t) (by simp [ht, TokenKind.separators]) .nil)
    rwa [List.append_nil] at hend

theorem takes_statements (h : inner.Reads) :
    ∀ k k', Takes k k' (statements inner k) (statements inner k')
      fun used body => Closed .rightBrace used (statementWords body) := by
  refine takes_repeated fun k k' ih => takes_peek fun t t' ht => ?_
  have hmore : TakesAt t t' (k + 1) (k' + 1)
      (statement inner >>= fun first => statements inner k >>= fun more => pure (first :: more))
      (statement inner >>= fun first => statements inner k' >>= fun more => pure (first :: more))
      fun used body => Closed .rightBrace used (statementWords body) := by
    refine (takes_statement h t t' ht).bind fun first us hfirst => ?_
    have hlength := List.length_pos_iff.mpr hfirst.1
    refine Takes.bind (ih.mono (by omega) (by omega))
      fun more used hmore => takes_pure ?_
    rw [List.append_nil]
    exact hmore.behind hfirst.2
  obtain ⟨p', rfl⟩ := Token.exists_place ht
  obtain ⟨kind, text, p⟩ := t
  cases kind with
  | rightBrace => exact takesAt_advance (by simp) (takes_pure (.nil rfl))
  | eof => exact takes_fail _ _ _ _ rfl
  | _ => exact hmore

theorem takesAt_block (h : inner.Reads) (ht : t.kind = .leftBrace) :
    TakesAt t t' n n' (block inner) (block inner)
      fun used body => Covers used (statementWords body) := by
  refine takesAt_advance (by simp [ht]) (takes_remaining fun k k' u u' hu => ?_)
  exact (takes_statements h k k' u u' hu).imp fun us body hus =>
    hus.covers (by simp [ht, TokenKind.pairs])

/-- **However deep they may go, the readers take what spells what they give.** -/
theorem reads_within (levels : Nat) : (within levels).Reads := by
  induction levels with
  | zero =>
    have hrefuse : ∀ {α : Type} {P : List Token → α → Prop} (n n' : Nat),
        Takes n n' refuse refuse P := fun _ _ => takes_peek fun t t' ht => takes_fail _ _ t t' ht
    exact ⟨fun _ n n' => hrefuse n n', fun t t' n n' ht _ => hrefuse n n' t t' ht⟩
  | succ levels ih =>
    exact ⟨fun least _ _ => takes_expression ih least, fun _ _ _ _ _ ht => takesAt_block ih ht⟩

end Parser

/-! ### Accepted tokens -/

/-- The tokens are statements one behind the other, up to the end of the text. -/
inductive Accepts : List Token → Program → Prop
  | done {ts : List Token} (hend : (firstToken ts).kind = .eof) : Accepts ts []
  | statement {ts rest : List Token} {first : Statement} {program : Program}
      (hstart : (firstToken ts).kind ≠ .eof)
      (hread : Parser.statement (Parser.within maxNesting) ts = .ok (first, rest))
      (hrest : Accepts rest program) : Accepts ts (first :: program)

/-- The statement that is read, what it takes and how its tokens are spelled. -/
theorem exists_used {st : Statement} (hend : HasEnd ts)
    (h : Parser.statement (Parser.within maxNesting) ts = .ok (st, rest)) :
    ∃ used, ts = used ++ rest ∧ HasEnd rest ∧ used ≠ [] ∧ Spells used st.words := by
  have htakes : Parser.Takes ts.length 0 _ _ _ :=
    Parser.takes_statement (Parser.reads_within maxNesting)
  exact (htakes _ _ rfl).front hend rfl (Nat.le_refl _) h

variable {program : Program}

theorem Accepts.parseStatements (h : Accepts ts program) : ∀ n, HasEnd ts → ts.length ≤ n →
    parseStatements n ts = (program, []) := by
  induction h with
  | done hlast => exact fun n _ _ => parseStatements_of_eof hlast n
  | @statement ts rest first program hstart hread _ ih =>
    intro n hend hn
    obtain ⟨used, rfl, hrest, hused, -⟩ := exists_used hend hread
    have hlength := List.length_pos_iff.mpr hused
    rw [List.length_append] at hn
    cases n with
    | zero => omega
    | succ n => rw [parseStatements_of_ok hstart hread, ih n hrest (by omega)]

theorem accepts_of_parseStatements (n : Nat) : ∀ {ts : List Token} {program : Program},
    HasEnd ts → ts.length ≤ n → parseStatements n ts = (program, []) → Accepts ts program := by
  induction n with
  | zero =>
    intro ts program hend hn _
    obtain ⟨t, us, rfl⟩ := hend.exists_cons
    exact absurd hn (Nat.not_succ_le_zero _)
  | succ n ih =>
    intro ts program hend hn h
    by_cases hlast : (firstToken ts).kind = .eof
    · rw [parseStatements_of_eof hlast] at h
      obtain ⟨rfl, -⟩ := Prod.mk.inj h
      exact .done hlast
    · cases hread : Parser.statement (Parser.within maxNesting) ts with
      | error failure =>
        rw [parseStatements_of_error hlast hread] at h
        exact absurd (Prod.mk.inj h).2 (List.cons_ne_nil _ _)
      | ok read =>
        obtain ⟨first, rest⟩ := read
        rw [parseStatements_of_ok hlast hread] at h
        obtain ⟨rfl, herrors⟩ := Prod.mk.inj h
        obtain ⟨used, rfl, hrest, hused, -⟩ := exists_used hend hread
        have hlength := List.length_pos_iff.mpr hused
        rw [List.length_append] at hn
        exact .statement hlast hread (ih hrest (by omega) (Prod.ext rfl herrors))

/-- The last token of a text is its end, and no other one is. -/
theorem exists_init (source : String) :
    ∃ init, tokens source = init ++ [⟨.eof, "", Position.after {} source.toList⟩] ∧
      ∀ t ∈ init, t.kind ≠ .eof :=
  (splits_tokensFrom (Scanner.ofString source)).eof

theorem hasEnd_tokens (source : String) : HasEnd (tokens source) := by
  obtain ⟨init, htokens, -⟩ := exists_init source
  exact ⟨_, htokens ▸ List.mem_append_right _ List.mem_cons_self, rfl⟩

/-- **A text is accepted where its tokens are statements up to its end.** -/
theorem parse_eq_ok_iff {source : String} :
    parse source = .ok program ↔ Accepts (tokens source) program := by
  have hend := hasEnd_tokens source
  have hparse : parse source = .ok program ↔ parseTokens (tokens source) = (program, []) := by
    unfold parse
    generalize parseTokens (tokens source) = read
    obtain ⟨kept, errors⟩ := read
    cases errors with
    | nil => simp
    | cons error errors => simp
  rw [hparse]
  exact ⟨accepts_of_parseStatements _ hend (Nat.le_refl _),
    fun h => h.parseStatements _ hend (Nat.le_refl _)⟩

/-- Up to the end of the text, accepted tokens spell the words of the program. -/
theorem Accepts.spells (h : Accepts ts program) (hend : HasEnd ts) :
    ∃ used rest, ts = used ++ rest ∧ (firstToken rest).kind = .eof ∧
      Spells used program.words := by
  induction h with
  | @done ts hlast => exact ⟨[], ts, rfl, hlast, .nil⟩
  | statement _ hread _ ih =>
    obtain ⟨first, rfl, hrest, -, hfirst⟩ := exists_used hend hread
    obtain ⟨used, rest, rfl, hlast, hused⟩ := ih hrest
    exact ⟨first ++ used, rest, (List.append_assoc first used rest).symm, hlast,
      hfirst.append hused⟩

/-! ### Whole texts -/

/-- The kinds of token that are neither a number nor one character for itself. -/
def longKinds : List TokenKind :=
  [.illegal, .identifier, .string, .lessEqual, .greaterEqual, .equal, .notEqual,
    .and, .or, .function, .let, .true, .false, .if, .else, .return]

theorem kind_symbol (c : Char) (cs : List Char) : (Lexeme.symbol c cs).kind = Lexeme.single c ∨
    (Lexeme.symbol c cs).kind ∈ longKinds := by
  unfold Lexeme.symbol
  split
  · rename_i kind second h
    obtain ⟨d, -, hd⟩ := Option.bind_eq_some_iff.mp h
    obtain ⟨_, hkind, heq⟩ := Option.map_eq_some_iff.mp hd
    obtain ⟨rfl, rfl⟩ := Prod.mk.inj heq
    right
    unfold Lexeme.pair? at hkind
    split at hkind <;> cases hkind <;> simp [longKinds]
  · exact .inl rfl

/-- What is read as a number, as one character, and otherwise. -/
theorem kind_read (c : Char) (cs : List Char) :
    ((Lexeme.read c cs).kind ∈ [.integer, .double] ∧ c.isDigit) ∨
      (Lexeme.read c cs).kind = Lexeme.single c ∨ (Lexeme.read c cs).kind ∈ longKinds := by
  unfold Lexeme.read
  split
  · rename_i hdigit
    refine .inl ⟨?_, hdigit⟩
    unfold Lexeme.number
    dsimp only
    split
    · split <;> simp
    · simp
  split
  · unfold Lexeme.string
    split <;> simp [longKinds]
  split
  · unfold Lexeme.word TokenKind.keyword?
    dsimp only
    split <;> simp [longKinds]
  · exact .inr (kind_symbol c cs)

/-- Only what begins with a digit is read as an integer. -/
theorem isDigit_of_read {c : Char} {cs : List Char} (h : (Lexeme.read c cs).kind = .integer) :
    c.isDigit := by
  rcases kind_read c cs with ⟨-, hdigit⟩ | hkind | hkind <;> rw [h] at *
  · exact hdigit
  · unfold Lexeme.single at hkind
    split at hkind <;> cases hkind
  · exact absurd hkind (by decide)

theorem integer_begins_with_digit (cs : List Char) : ∀ {skip : Nat} {p : Position},
    ∀ t ∈ tokensFrom skip p cs, t.kind = .integer → ∃ c ∈ t.text.toList.head?, c.isDigit := by
  induction cs with
  | nil =>
    intro skip p t ht hkind
    obtain rfl := List.mem_singleton.mp ht
    cases hkind
  | cons c cs ih =>
    intro skip p t ht hkind
    cases skip with
    | succ skip => exact ih t ht hkind
    | zero =>
      rw [tokensFrom] at ht
      split at ht
      · exact ih t ht hkind
      · rcases List.mem_cons.mp ht with rfl | ht
        · have hkind' : (Lexeme.read c cs).kind = .integer := hkind
          have hread := ((matches_read c cs).written p).text (by simp [hkind'])
          exact ⟨c, by rw [hread]; rfl, isDigit_of_read hkind⟩
        · exact ih t ht hkind

/-- **An accepted text is covered by its program.** No token of an accepted text is illegal or a
square bracket, and its parentheses and braces are closed in the reverse order of their opening.
Without brackets, separators and the end, the tokens are the words of the program in their order,
unless a zero stands right behind a minus sign, which is then lost. -/
theorem parse_covers_tokens {source : String} (h : parse source = .ok program) :
    ∃ init last, tokens source = init ++ [last] ∧ last.kind = .eof ∧
      (∀ t ∈ init, t.kind ∉ TokenKind.strays) ∧ Balanced (init.map Token.kind) ∧
      ((∀ t t', [t, t'] <:+: tokens source → t.kind = .minus → t'.kind = .integer →
          Text.digitsValue t'.text.toList ≠ 0) →
        wordsOf init = program.words) := by
  obtain ⟨init, htokens, hkinds⟩ := exists_init source
  obtain ⟨used, rest, hsplit, hlast, hused⟩ :=
    (parse_eq_ok_iff.mp h).spells (hasEnd_tokens source)
  have hstray : ∀ t ∈ used, t.kind ≠ .eof := fun t ht heof =>
    hused.not_stray t ht (by simp [heof, TokenKind.strays])
  -- both parts end in front of the first token that is the end of the text
  have hparts := congrArg (List.takeWhile fun t : Token => t.kind ≠ .eof)
    (htokens.symm.trans hsplit)
  have hrest : rest.takeWhile (fun t : Token => t.kind ≠ .eof) = [] := by
    cases rest with
    | nil => rfl
    | cons t us =>
      have ht : t.kind = .eof := hlast
      exact List.takeWhile_cons_of_neg (by simp [ht])
  rw [List.takeWhile_append_of_pos (by simpa using hkinds), List.takeWhile_cons_of_neg (by simp),
    List.takeWhile_append_of_pos (by simpa using hstray), hrest, List.append_nil,
    List.append_nil] at hparts
  subst hparts
  refine ⟨init, _, htokens, rfl, hused.not_stray, hused.balanced, fun hzero => ?_⟩
  have hall : Unambiguous (tokens source) :=
    ⟨fun t ht => integer_begins_with_digit source.toList t ht, hzero⟩
  exact hused.wordsOf_eq (hall.part (htokens ▸ (List.prefix_append _ _).isInfix))

/-- A function whose body has all kinds of brackets, and a negative number. -/
def functionText : String :=
  "let f = function(a, b) \x7bif (a < -1) \x7breturn !b;\x7d else \x7bf(a, (2))\x7d\x7d;"

/-- The tree of this text. -/
def functionTree : Program :=
  [.let "f" (.function ["a", "b"] [.expression (.ifThenElse
    (.binary .less (.identifier "a") (.integer (-1)))
    [.return (.unary .not (.identifier "b"))]
    [.expression (.call (.identifier "f") [.identifier "a", .integer 2])])])]

theorem parse_covers_tokens_functionText :
    parse functionText = .ok functionTree ∧ ∃ init last, tokens functionText = init ++ [last] ∧
      Balanced (init.map Token.kind) ∧ wordsOf init = functionTree.words := by
  have hparse : parse functionText = .ok functionTree := rfl
  obtain ⟨init, last, htokens, -, -, hbalanced, hwords⟩ := parse_covers_tokens hparse
  refine ⟨hparse, init, last, htokens, hbalanced, hwords fun t t' hpart _ hinteger => ?_⟩
  have hvalues : ∀ t ∈ tokens functionText, t.kind = .integer →
      Text.digitsValue t.text.toList ≠ 0 := by decide
  exact hvalues t' (hpart.subset (by simp)) hinteger

end NovelScript.Expr
