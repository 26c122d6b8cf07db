import NovelScript.Proofs.Parsing.Display

/-!
How deep accepted texts are nested. To go inside of a construct takes one of the levels that are
left; but what an operator or the arguments of a call are put behind becomes their operand or callee
when it has been read already, and takes no level. Main statement: on its way down a tree goes
inside of something at most as often as the limit allows. The way itself may be longer than that.
-/

namespace NovelScript.Expr

variable {α β : Type} {levels : Nat}

/-! ### Ways down a tree -/

/-- What a tree consists of. -/
inductive Node
  | expression (e : Expression)
  | block (body : Block)

/-- What stands in a statement. -/
def Statement.node : Statement → Node
  | .let _ value | .return value | .expression value => .expression value
  | .block body => .block body

/-- How a node stands in the one around it. -/
inductive Link
  /-- Inside of it. -/
  | inside
  /-- In front of its operator, or of its arguments. -/
  | front
deriving DecidableEq

namespace Node

/-- The nodes right below a node, and how they stand in it. -/
inductive Child : Link → Node → Node → Prop
  | operand {op e} : Child .inside (.expression (.unary op e)) (.expression e)
  | left {op l r} : Child .front (.expression (.binary op l r)) (.expression l)
  | right {op l r} : Child .inside (.expression (.binary op l r)) (.expression r)
  | value {name e} : Child .inside (.expression (.assign name e)) (.expression e)
  | onlyCondition {c body} : Child .inside (.expression (.ifThen c body)) (.expression c)
  | onlyBranch {c body} : Child .inside (.expression (.ifThen c body)) (.block body)
  | condition {c body other} :
    Child .inside (.expression (.ifThenElse c body other)) (.expression c)
  | consequence {c body other} :
    Child .inside (.expression (.ifThenElse c body other)) (.block body)
  | alternative {c body other} :
    Child .inside (.expression (.ifThenElse c body other)) (.block other)
  | body {parameters body} : Child .inside (.expression (.function parameters body)) (.block body)
  | callee {f es} : Child .front (.expression (.call f es)) (.expression f)
  | argument {f es e} : e ∈ es → Child .inside (.expression (.call f es)) (.expression e)
  | statement {body st} : st ∈ body → Child .inside (.block body) st.node

/-- The way from a node down to another one. -/
inductive Path : Node → List Link → Node → Prop
  | here {node} : Path node [] node
  | down {node child last link links} :
    Child link node child → Path child links last → Path node (link :: links) last

/-- Every way down from the node goes inside of something less often than there are levels. -/
def Within (levels : Nat) (node : Node) : Prop :=
  ∀ links last, Path node links last → links.count .inside < levels

/-- What stands inside of a node takes a level, what stands in front takes none. -/
theorem within_succ {node : Node} (hinside : ∀ child, Child .inside node child → child.Within levels)
    (hfront : ∀ child, Child .front node child → child.Within (levels + 1)) :
    node.Within (levels + 1) := by
  intro links last hpath
  cases hpath with
  | here => exact Nat.succ_pos levels
  | @down _ child _ link links hchild hrest =>
    cases link with
    | inside =>
      rw [List.count_cons_self]
      exact Nat.succ_lt_succ (hinside child hchild links last hrest)
    | front =>
      rw [List.count_cons_of_ne (by decide)]
      exact hfront child hchild links last hrest

end Node

/-! ### What a reader gives -/

namespace Parser

/-- Whatever the reader gives has the property. -/
def Gives (m : Parser α) (P : α → Prop) : Prop := ∀ ts a rest, m ts = .ok (a, rest) → P a

variable {P : α → Prop} {Q : β → Prop}

theorem gives_pure {a : α} (h : P a) : Gives (pure a) P := by
  intro ts a' rest hread
  obtain ⟨rfl, -⟩ := Prod.mk.inj (Except.ok.inj hread)
  exact h

theorem gives_fail (error : ParseError) : Gives (fail error) P :=
  fun _ _ _ hread => nomatch hread

theorem Gives.bind {m : Parser β} {f : β → Parser α} (hm : Gives m Q)
    (hf : ∀ b, Q b → Gives (f b) P) : Gives (m >>= f) P := by
  intro ts a rest hread
  have hread' : (m ts >>= fun read => f read.1 read.2) = .ok (a, rest) := hread
  cases hfirst : m ts with
  | error failure =>
    rw [hfirst] at hread'
    cases hread'
  | ok read =>
    rw [hfirst] at hread'
    exact hf read.1 (hm ts read.1 read.2 hfirst) read.2 a rest hread'

/-- What is read first may be of no interest. -/
theorem gives_bind {m : Parser β} {f : β → Parser α} (hf : ∀ b, Gives (f b) P) :
    Gives (m >>= f) P :=
  Gives.bind (Q := fun _ => True) (fun _ _ _ _ => trivial) fun b _ => hf b

theorem gives_ite {c : Prop} [Decidable c] {m m' : Parser α} (hm : Gives m P) (hm' : Gives m' P) :
    Gives (if c then m else m') P := by
  split
  · exact hm
  · exact hm'

/-! ### The constructs -/

/-- What the readers of a construct's inside give goes no deeper than so many levels. -/
structure Inner.Keeps (inner : Inner) (levels : Nat) : Prop where
  expression : ∀ least, Gives (inner.expression least) fun e => (Node.expression e).Within levels
  block : Gives inner.block fun body => (Node.block body).Within levels

section Readers

open Node

variable {inner : Inner} (h : inner.Keeps levels)

theorem gives_integer (text : String) (position : Position) :
    Gives (integer text position) fun e => (Node.expression e).Within (levels + 1) := by
  unfold integer
  cases Text.readInt32? text with
  | some n => exact gives_pure (within_succ nofun nofun)
  | none => exact gives_fail _

include h

theorem gives_negative (position : Position) :
    Gives (negative inner position) fun e => (Node.expression e).Within (levels + 1) := by
  refine gives_bind fun token => gives_ite (gives_bind fun _ => gives_integer _ _) ?_
  refine (h.expression .unary).bind fun e he => gives_pure (within_succ ?_ nofun)
  rintro child ⟨⟩
  exact he

theorem gives_braced : Gives (braced inner) fun body => (Node.block body).Within levels :=
  gives_bind fun _ => gives_ite h.block (gives_fail _)

theorem gives_conditional :
    Gives (conditional inner) fun e => (Node.expression e).Within (levels + 1) := by
  refine gives_bind fun _ => (h.expression .lowest).bind fun c hc => gives_bind fun _ => ?_
  refine (gives_braced h).bind fun body hbody => gives_bind fun hasElse => gives_ite ?_ ?_
  · refine (gives_braced h).bind fun other hother => gives_pure (within_succ ?_ nofun)
    rintro child ⟨⟩
    · exact hc
    · exact hbody
    · exact hother
  · refine gives_pure (within_succ ?_ nofun)
    rintro child ⟨⟩
    · exact hc
    · exact hbody

theorem gives_moreArguments (n : Nat) :
    Gives (moreArguments inner n) fun es => ∀ e ∈ es, (Node.expression e).Within levels := by
  induction n with
  | zero => exact gives_pure (by simp)
  | succ n ih =>
    refine gives_bind fun comma => gives_ite ?_ (gives_bind fun _ => gives_pure (by simp))
    refine (h.expression .lowest).bind fun e he => ih.bind fun es hes => gives_pure ?_
    exact List.forall_mem_cons.mpr ⟨he, hes⟩

theorem gives_arguments :
    Gives (arguments inner) fun es => ∀ e ∈ es, (Node.expression e).Within levels := by
  refine gives_bind fun closed => gives_ite (gives_pure (by simp)) ?_
  refine (h.expression .lowest).bind fun e he => gives_bind fun n => ?_
  refine (gives_moreArguments h n).bind fun es hes => gives_pure ?_
  exact List.forall_mem_cons.mpr ⟨he, hes⟩

theorem gives_operand :
    Gives (operand inner) fun e => (Node.expression e).Within (levels + 1) := by
  refine gives_bind fun token => ?_
  split
  · exact gives_bind fun _ => gives_pure (within_succ nofun nofun)
  · exact gives_bind fun _ => gives_integer _ _
  · refine gives_bind fun _ => ?_
    cases Decimal.readFloat? token.text with
    | some x => exact gives_pure (within_succ nofun nofun)
    | none => exact gives_fail _
  · exact gives_bind fun _ => gives_pure (within_succ nofun nofun)
  · exact gives_bind fun _ => gives_pure (within_succ nofun nofun)
  · exact gives_bind fun _ => gives_pure (within_succ nofun nofun)
  · refine gives_bind fun _ => (h.expression .unary).bind fun e he => ?_
    refine gives_pure (within_succ ?_ nofun)
    rintro child ⟨⟩
    exact he
  · exact gives_bind fun _ => gives_negative h _
  · -- parentheses take a level, and leave no trace in the tree
    refine gives_bind fun _ => (h.expression .lowest).bind fun e he => ?_
    exact gives_bind fun _ => gives_pure fun links last hpath => Nat.lt_succ_of_lt (he links last hpath)
  · exact gives_bind fun _ => gives_conditional h
  · refine gives_bind fun _ => gives_bind fun _ => gives_bind fun names => ?_
    refine (gives_braced h).bind fun body hbody => gives_pure (within_succ ?_ nofun)
    rintro child ⟨⟩
    exact hbody
  · exact gives_fail _

/-- An operator leaves its left operand on the level where it is, and so does a call its callee. -/
theorem gives_extend {left : Expression} (hleft : (Node.expression left).Within (levels + 1)) :
    Gives (extend inner left) fun e => (Node.expression e).Within (levels + 1) := by
  refine gives_bind fun token => ?_
  split
  · cases left with
    | identifier name =>
      refine gives_bind fun _ => (h.expression .lowest).bind fun e he => ?_
      refine gives_pure (within_succ ?_ nofun)
      rintro child ⟨⟩
      exact he
    | _ => exact gives_fail _
  · refine gives_bind fun _ => (gives_arguments h).bind fun es hes => ?_
    refine gives_pure (within_succ ?_ ?_)
    · intro child hchild
      cases hchild with
      | argument he => exact hes _ he
    · rintro child ⟨⟩
      exact hleft
  · split
    · rename_i op _
      refine gives_bind fun _ => (h.expression op.precedence).bind fun e he => ?_
      refine gives_pure (within_succ ?_ ?_)
      · rintro child ⟨⟩
        exact he
      · rintro child ⟨⟩
        exact hleft
    · exact gives_pure hleft

theorem gives_operators (least : Precedence) (n : Nat) : ∀ {left : Expression},
    (Node.expression left).Within (levels + 1) →
      Gives (operators inner least n left) fun e => (Node.expression e).Within (levels + 1) := by
  induction n with
  | zero => exact fun hleft => gives_pure hleft
  | succ n ih =>
    intro left hleft
    refine gives_bind fun token => gives_ite ?_ (gives_pure hleft)
    exact (gives_extend h hleft).bind fun e he => ih he

theorem gives_expression (least : Precedence) :
    Gives (expression inner least) fun e => (Node.expression e).Within (levels + 1) :=
  (gives_operand h).bind fun _ hleft => gives_bind fun n => gives_operators h least n hleft

theorem gives_statement : Gives (statement inner) fun st => st.node.Within levels := by
  have hvalue : ∀ make : Expression → Statement, (∀ e, (make e).node = .expression e) →
      Gives (do
        let value ← inner.expression .lowest
        let _ ← accept .semicolon
        return make value) fun st => st.node.Within levels := by
    intro make hmake
    refine (h.expression .lowest).bind fun e he => gives_bind fun _ => gives_pure ?_
    rwa [hmake]
  refine gives_bind fun token => ?_
  split
  · exact gives_bind fun _ => gives_bind fun name => gives_bind fun _ => hvalue _ fun _ => rfl
  · exact gives_bind fun _ => hvalue _ fun _ => rfl
  · exact h.block.bind fun body hbody => gives_pure hbody
  · exact hvalue _ fun _ => rfl

theorem gives_statements (n : Nat) :
    Gives (statements inner n) fun body => ∀ st ∈ body, st.node.Within levels := by
  induction n with
  | zero => exact gives_pure (by simp)
  | succ n ih =>
    refine gives_bind fun token => ?_
    split
    · exact gives_bind fun _ => gives_pure (by simp)
    · exact gives_fail _
    · refine (gives_statement h).bind fun st hst => ih.bind fun body hbody => gives_pure ?_
      exact List.forall_mem_cons.mpr ⟨hst, hbody⟩

theorem gives_block : Gives (block inner) fun body => (Node.block body).Within (levels + 1) := by
  refine gives_bind fun _ => gives_bind fun n => ?_
  intro ts body rest hread
  refine within_succ ?_ nofun
  intro child hchild
  cases hchild with
  | statement hst => exact gives_statements h n ts body rest hread _ hst

end Readers

/-- **A reader goes no deeper than the levels that it has.** -/
theorem keeps_within (levels : Nat) : (within levels).Keeps levels := by
  induction levels with
  | zero => exact ⟨fun _ => gives_bind fun _ => gives_fail _, gives_bind fun _ => gives_fail _⟩
  | succ levels ih => exact ⟨gives_expression ih, gives_block ih⟩

end Parser

/-! ### Accepted texts -/

theorem within_parseStatements (n : Nat) : ∀ tokens : List Token,
    ∀ st ∈ (parseStatements n tokens).1, st.node.Within maxNesting := by
  induction n with
  | zero => exact fun _ _ hst => absurd hst List.not_mem_nil
  | succ n ih =>
    intro tokens st hst
    rw [parseStatements] at hst
    split at hst
    · exact absurd hst List.not_mem_nil
    · split at hst
      · rename_i first rest hread
        rcases List.mem_cons.mp hst with rfl | hst
        · exact Parser.gives_statement (Parser.keeps_within maxNesting) _ _ _ hread
        · exact ih rest st hst
      · exact ih _ st hst

theorem Link.count_inside_add_count_front (links : List Link) :
    links.count .inside + links.count .front = links.length := by
  induction links with
  | nil => rfl
  | cons link links ih => cases link <;> simp <;> omega

/-- **An accepted text goes less often inside of something than there are levels**: a node lies
deeper than the limit only by as much as there are operands and callees in front on the way. -/
theorem accepted_goes_inside_within {source : String} {program : Program}
    (h : parse source = .ok program) :
    ∀ st ∈ program, ∀ links last, st.node.Path links last →
      links.count .inside < maxNesting ∧ links.length < maxNesting + links.count .front := by
  intro st hst links last hpath
  have hwithin : ∀ st ∈ (parseTokens (tokens source)).1, st.node.Within maxNesting :=
    within_parseStatements _ _
  have hprogram : (parseTokens (tokens source)).1 = program := by
    unfold parse at h
    split at h
    · rename_i read hread
      rw [hread]
      exact Except.ok.inj h
    · cases h
  rw [hprogram] at hwithin
  have hinside : links.count .inside < maxNesting := hwithin st hst links last hpath
  have hlinks := Link.count_inside_add_count_front links
  exact ⟨hinside, by omega⟩

/-! ### Callees of callees -/

/-- The name `f` with so many empty pairs of parentheses behind it. -/
def calls : Nat → Expression
  | 0 => .identifier "f"
  | n + 1 => .call (calls n) []

/-- The callee of all the calls is on the way down, behind as many links. -/
theorem path_calls (n : Nat) :
    Node.Path (.expression (calls n)) (List.replicate n .front) (.expression (.identifier "f")) := by
  induction n with
  | zero => exact .here
  | succ n ih => exact .down .callee ih

theorem reads_calls (n : Nat) : Reads 1 (calls n) := by
  induction n with
  | zero => exact reads_identifier 1 (by decide)
  | succ n ih => exact reads_call ih (by simp)

/-- Tokens that are read as a statement up to their end are a program. -/
theorem parseTokens_of_statement {t : Token} {us : List Token} {st : Statement} {p : Position}
    (hstart : t.kind ≠ .eof)
    (hread : Parser.statement (Parser.within maxNesting) (t :: us) = .ok (st, [⟨.eof, "", p⟩])) :
    parseTokens (t :: us) = ([st], []) := by
  have hstart' : (firstToken (t :: us)).kind ≠ .eof := hstart
  have hend : ∀ n, parseStatements n [⟨.eof, "", p⟩] = ([], []) := by
    intro n
    cases n <;> rfl
  rw [parseTokens, List.length_cons, parseStatements, if_neg hstart']
  simp only [StateT.run, hread, hend]

/-- However many pairs of parentheses there are, the text is accepted. -/
theorem parse_calls (n : Nat) : parse (calls n).show = .ok [.expression (calls n)] := by
  obtain ⟨ts, p, hts, hoperand, -⟩ := (reads_calls n).tokens [] closes_nil {}
  have htokens : tokens (calls n).show = ts ++ [⟨.eof, "", p⟩] := by
    rw [tokens, ← List.append_nil (calls n).show.toList, hts]
    rfl
  have hread := statement_of_operand (p := p) hoperand (show 1 < maxNesting by decide)
  obtain ⟨t, us, rfl, ht⟩ := hoperand.opens
  have hstart : t.kind ≠ .eof := fun hkind => absurd (hkind ▸ ht) (by decide)
  rw [List.cons_append] at hread
  rw [parse, htokens, List.cons_append, parseTokens_of_statement hstart hread]

theorem accepted_goes_inside_within_calls :
    parse (calls 300).show = .ok [.expression (calls 300)] ∧
      ∀ st ∈ [Statement.expression (calls 300)], ∀ links last, st.node.Path links last →
        links.count .inside < maxNesting ∧ links.length < maxNesting + links.count .front :=
  ⟨parse_calls 300, accepted_goes_inside_within (parse_calls 300)⟩

/-- How deep a node of an accepted text lies is not bounded by the limit. -/
theorem not_depth_le_maxNesting :
    ¬ ∀ (source : String) (program : Program), parse source = .ok program →
      ∀ st ∈ program, ∀ links last, st.node.Path links last → links.length ≤ maxNesting := by
  intro hclaim
  have hdeep : ∀ n, n ≤ maxNesting := by
    intro n
    have hlinks := hclaim _ _ (parse_calls n) _ (List.mem_singleton_self _) _ _ (path_calls n)
    rwa [List.length_replicate] at hlinks
  exact absurd (hdeep 300) (by decide)

end NovelScript.Expr
