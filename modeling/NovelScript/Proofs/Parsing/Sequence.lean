import NovelScript.Proofs.Evaluation.Returns
import NovelScript.Proofs.Parsing.Coverage

/-!
One text behind another. A semicolon ends what is read before it, so that neither the tokens nor the
statements up to it depend on what follows. Main statement: behind a text that ends with a semicolon
stands another one, and both together are the statements of the one and then those of the other,
which are evaluated where the first ones have left the heap.
-/

namespace NovelScript.Expr

variable {c : Char} {cs : List Char} {t last : Token} {ts us used rest : List Token}
  {program program' : Program}

/-! ### Tokens in front of a semicolon -/

/-- A row of characters of one kind ends in front of a semicolon that is not of this kind. -/
theorem takeWhile_append_of_semicolon {q : Char → Bool} (hcs : ';' ∈ cs) (hq : q ';' = false)
    (ds : List Char) : (cs ++ ds).takeWhile q = cs.takeWhile q := by
  rw [List.takeWhile_append, if_neg]
  intro hlength
  have hall := (List.takeWhile_prefix q).eq_of_length hlength
  rw [List.takeWhile_eq_self_iff.mp hall ';' hcs] at hq
  cases hq

theorem number_append_of_semicolon (hcs : ';' ∈ cs) (ds : List Char) :
    Lexeme.number c (cs ++ ds) = Lexeme.number c cs := by
  have hwhole := takeWhile_append_of_semicolon hcs (q := Char.isDigit) (by decide) ds
  have hsplit := List.takeWhile_append_dropWhile (p := Char.isDigit) (l := cs)
  have hbehind : ';' ∈ cs.dropWhile Char.isDigit := by
    rw [← hsplit] at hcs
    refine (List.mem_append.mp hcs).resolve_left fun hmem => ?_
    exact absurd (List.mem_takeWhile_imp hmem) (by decide)
  unfold Lexeme.number
  rw [hwhole]
  generalize cs.takeWhile Char.isDigit = whole, cs.dropWhile Char.isDigit = behind at *
  subst hsplit
  simp only [List.append_assoc, List.drop_left]
  cases behind with
  | nil => cases hbehind
  | cons d more =>
    by_cases hpoint : d = '.'
    · subst hpoint
      have hmore : ';' ∈ more := (List.mem_cons.mp hbehind).resolve_left (by decide)
      have hplaces := takeWhile_append_of_semicolon hmore (q := Char.isDigit) (by decide) ds
      simp only [List.cons_append, hplaces]
    · simp [hpoint]

theorem word_append_of_semicolon (hcs : ';' ∈ cs) (ds : List Char) :
    Lexeme.word c (cs ++ ds) = Lexeme.word c cs := by
  simp only [Lexeme.word, takeWhile_append_of_semicolon hcs (q := isWordPart edition) (by decide)]

theorem symbol_append_of_semicolon (hcs : ';' ∈ cs) (ds : List Char) :
    Lexeme.symbol c (cs ++ ds) = Lexeme.symbol c cs := by
  obtain ⟨d, more, rfl⟩ := List.exists_cons_of_ne_nil (List.ne_nil_of_mem hcs)
  rfl

/-- A string that is closed in front of a semicolon ends there. -/
theorem string_append_of_semicolon (hquote : c = '"' ∨ c = '\'')
    (hcs : ';' ∈ cs.drop (Lexeme.string c cs).more) (ds : List Char) :
    Lexeme.string c (cs ++ ds) = Lexeme.string c cs := by
  have hslash : c ≠ '\\' := by rcases hquote with rfl | rfl <;> decide
  cases hread : Lexeme.string? c cs with
  | none => simp [Lexeme.string, hread] at hcs
  | some read =>
    obtain ⟨body, behind, rfl, hlength, hbody⟩ := string?_eq_some (n := read.2) hread
    have hread' := hbody.string? hslash (behind ++ ds)
    unfold Lexeme.string
    rw [List.append_assoc, List.cons_append, hread', hread, ← hlength]

/-- What is read in front of a semicolon does not depend on what stands behind it. -/
theorem read_append_of_semicolon (h : ';' ∈ cs.drop (Lexeme.read c cs).more) (ds : List Char) :
    Lexeme.read c (cs ++ ds) = Lexeme.read c cs := by
  have hcs : ';' ∈ cs := List.mem_of_mem_drop h
  unfold Lexeme.read at h ⊢
  split
  · exact number_append_of_semicolon hcs ds
  split
  · rename_i hdigit hquote
    rw [if_neg hdigit, if_pos hquote] at h
    exact string_append_of_semicolon (by simpa using hquote) h ds
  split
  · exact word_append_of_semicolon hcs ds
  · exact symbol_append_of_semicolon hcs ds

theorem eq_semicolon_of_read (h : (Lexeme.read c cs).kind = .semicolon) : c = ';' := by
  rcases kind_read c cs with ⟨hkind, -⟩ | hkind | hkind <;> rw [h] at hkind
  · exact absurd hkind (by decide)
  · unfold Lexeme.single at hkind
    split at hkind <;> first | rfl | cases hkind
  · exact absurd hkind (by decide)

theorem read_semicolon (cs : List Char) : Lexeme.read ';' cs = ⟨.semicolon, ";", 0⟩ := by
  have hpair : cs.head?.bind (fun d => (Lexeme.pair? ';' d).map (·, d)) = none :=
    Option.bind_eq_none_iff.mpr fun d _ => by simp [Lexeme.pair?]
  have hstart : isWordStart edition ';' = false := by decide
  simp only [Lexeme.read, Lexeme.symbol, hstart, hpair]
  rfl

/-- A semicolon among the tokens is one among the characters that are not skipped. -/
theorem semicolon_mem (cs : List Char) : ∀ {skip : Nat} {p : Position} {t : Token},
    t ∈ tokensFrom skip p cs → t.kind = .semicolon → ';' ∈ cs.drop skip := by
  induction cs with
  | nil =>
    intro skip p t ht hkind
    obtain rfl := List.mem_singleton.mp ht
    cases hkind
  | cons c cs ih =>
    intro skip p t ht hkind
    cases skip with
    | succ skip => exact ih ht hkind
    | zero =>
      rw [tokensFrom] at ht
      split at ht
      · exact List.mem_cons_of_mem c (ih ht hkind)
      · rcases List.mem_cons.mp ht with rfl | ht
        · rw [eq_semicolon_of_read hkind]
          exact List.mem_cons_self
        · exact List.mem_cons_of_mem c (List.mem_of_mem_drop (ih ht hkind))

theorem tokensFrom_ne_nil (cs : List Char) : ∀ (skip : Nat) (p : Position),
    tokensFrom skip p cs ≠ [] := by
  induction cs with
  | nil => exact fun _ _ => List.cons_ne_nil _ _
  | cons c cs ih =>
    intro skip p
    cases skip with
    | succ skip => exact ih skip (p.next c)
    | zero =>
      rw [tokensFrom]
      split
      · exact ih 0 (p.next c)
      · exact List.cons_ne_nil _ _

/-- Characters without a token are blanks, behind which the tokens are those of the rest. -/
theorem tokensFrom_append_of_blanks (ds : List Char) : ∀ {p : Position},
    tokensFrom 0 p cs = [last] → tokensFrom 0 p (cs ++ ds) = tokensFrom 0 (p.after cs) ds := by
  induction cs with
  | nil => exact fun _ => rfl
  | cons c cs ih =>
    intro p h
    rw [tokensFrom] at h
    split at h
    · rename_i hblank
      rw [List.cons_append, tokensFrom, if_pos hblank]
      exact ih h
    · exact absurd (List.cons.inj h).2 (tokensFrom_ne_nil cs _ _)

/-- **The tokens of a text that ends with a semicolon stay what they are** in front of another text,
and the tokens of that text follow. -/
theorem tokensFrom_append_of_semicolon (ds : List Char) (ht : t.kind = .semicolon) :
    ∀ {skip : Nat} {p : Position} {init : List Token}, tokensFrom skip p cs = init ++ [t, last] →
      tokensFrom skip p (cs ++ ds) = init ++ t :: tokensFrom 0 (p.after cs) ds := by
  induction cs with
  | nil =>
    intro skip p init h
    have hlength := congrArg List.length h
    simp [tokensFrom] at hlength
  | cons c cs ih =>
    intro skip p init h
    cases skip with
    | succ skip => exact ih h
    | zero =>
      rw [tokensFrom] at h
      rw [List.cons_append, tokensFrom]
      split at h
      · rename_i hblank
        rw [if_pos hblank]
        exact ih h
      · rename_i hblank
        rw [if_neg hblank]
        cases init with
        | nil =>
          obtain ⟨rfl, hrest⟩ := List.cons.inj h
          obtain rfl := eq_semicolon_of_read ht
          simp only [read_semicolon] at hrest ⊢
          exact congrArg _ (tokensFrom_append_of_blanks ds hrest)
        | cons first init =>
          obtain ⟨rfl, hrest⟩ := List.cons.inj h
          have hmem : ';' ∈ cs.drop (Lexeme.read c cs).more := by
            refine semicolon_mem cs (p := p.next c) (t := t) ?_ ht
            rw [hrest]
            exact List.mem_append_right init List.mem_cons_self
          simp only [read_append_of_semicolon hmem ds]
          exact congrArg _ (ih hrest)

/-- But for places, the tokens do not depend on where the text stands. -/
theorem unplaced_tokensFrom (cs : List Char) : ∀ (skip : Nat) (p p' : Position),
    (tokensFrom skip p cs).map Token.unplaced = (tokensFrom skip p' cs).map Token.unplaced := by
  induction cs with
  | nil => exact fun _ _ _ => rfl
  | cons c cs ih =>
    intro skip p p'
    cases skip with
    | succ skip => exact ih skip _ _
    | zero =>
      rw [tokensFrom, tokensFrom]
      split
      · exact ih 0 _ _
      · exact congrArg (List.cons (_, _)) (ih _ _ _)

/-! ### Statements in front of a semicolon -/

/-- The same tokens are the same statement, wherever they stand. -/
theorem statement_again {st : Statement} {used' rest' : List Token} (hrest : HasEnd rest)
    (hread : Parser.statement (Parser.within maxNesting) (used ++ rest) = .ok (st, rest))
    (hsame : SameFront used rest used' rest') :
    Parser.statement (Parser.within maxNesting) (used' ++ rest') = .ok (st, rest') := by
  have htakes : Parser.Takes (used ++ rest).length (used' ++ rest').length _ _ _ :=
    Parser.takes_statement (Parser.reads_within maxNesting)
  exact (htakes _ _ (hsame.firstToken hrest)).again (hrest.append used) rfl (Nat.le_refl _) hread
    hsame rfl (Nat.le_refl _)

/-- What stands behind the semicolon of a statement does not matter to the statement. -/
theorem statement_append_of_semicolon {st : Statement} (hrest : HasEnd rest)
    (hread : Parser.statement (Parser.within maxNesting) (used ++ rest) = .ok (st, rest))
    (hused : ∃ t ∈ used.getLast?, t.kind = .semicolon) (rest' : List Token) :
    Parser.statement (Parser.within maxNesting) (used ++ rest') = .ok (st, rest') := by
  rw [Parser.statement_eq] at hread ⊢
  obtain ⟨⟨st', mayEnd⟩, mid, hfirst, hlast⟩ := Parser.bind_eq_ok hread
  have htakes : Parser.Takes (used ++ rest).length (used ++ rest').length _ _ _ :=
    Parser.takes_unended (Parser.reads_within maxNesting)
  obtain ⟨first, hsplit, hmid, hcovers⟩ :=
    (htakes _ _ rfl).front (hrest.append used) rfl (Nat.le_refl _) hfirst
  -- the statement does not end with a semicolon by itself
  have hne : used ≠ first := by
    rintro rfl
    obtain ⟨t, ht, hkind⟩ := hused
    obtain ⟨t', ht', hkind'⟩ := hcovers.last
    exact hkind' (Option.mem_unique ht ht' ▸ hkind)
  have hmore : mid ≠ rest := by
    rintro rfl
    exact hne (List.append_cancel_right hsplit)
  cases mayEnd with
  | false => exact absurd (Prod.mk.inj (Except.ok.inj hlast)).2 hmore
  | true =>
    obtain ⟨t, more, rfl⟩ := hmid.exists_cons
    by_cases ht : t.kind = .semicolon
    · have haccept := Parser.bind_ok (fun _ => pure st') (Parser.accept_cons ht more)
      have hlast' := haccept.symm.trans hlast
      obtain ⟨rfl, rfl⟩ := Prod.mk.inj (Except.ok.inj hlast')
      rw [List.append_cons] at hsplit
      obtain rfl := List.append_cancel_right hsplit
      rw [← List.append_cons] at hfirst ⊢
      have hsame : SameFront first (t :: more) first (t :: rest') := ⟨rfl, rfl⟩
      have hagain := (htakes _ _ (hsame.firstToken hmid)).again (hmid.append first) rfl (by simp)
        hfirst hsame rfl (by simp)
      rw [Parser.bind_ok _ hagain]
      exact Parser.bind_ok _ (Parser.accept_cons ht rest')
    · have haccept := Parser.bind_ok (fun _ => pure st') (Parser.accept_cons_of_ne ht more)
      have hlast' := haccept.symm.trans hlast
      exact absurd (Prod.mk.inj (Except.ok.inj hlast')).2 hmore

/-- Programs do not depend on where their tokens stand. -/
theorem Accepts.again (h : Accepts ts program) (hend : HasEnd ts) :
    ∀ {ts' : List Token}, ts.map Token.unplaced = ts'.map Token.unplaced → Accepts ts' program := by
  induction h with
  | @done ts hlast =>
    intro ts' hts
    have hsame : SameFront [] ts [] ts' := .of_unplaced rfl hts
    have hkind := congrArg Prod.fst (hsame.firstToken hend)
    exact .done (hkind.symm.trans hlast)
  | @statement ts rest first program hstart hread _ ih =>
    intro ts' hts
    obtain ⟨used, rfl, hrest, -, -⟩ := exists_used hend hread
    rw [List.map_append] at hts
    obtain ⟨used', rest', rfl, hused, hmore⟩ := List.map_eq_append_iff.mp hts.symm
    have hsame := SameFront.of_unplaced hused.symm hmore.symm
    have hkind := congrArg Prod.fst (hsame.firstToken hrest)
    refine .statement (fun heof => hstart (hkind.trans heof)) (statement_again hrest hread hsame)
      (ih hrest hmore.symm)

/-- Behind statements that end with a semicolon, other statements may stand. -/
theorem Accepts.append {all : List Token} (h : Accepts all program) :
    ∀ {ts}, all = ts ++ [last] → last.kind = .eof → (∀ t ∈ ts, t.kind ≠ .eof) →
      (∀ t ∈ ts.getLast?, t.kind = .semicolon) → Accepts us program' →
      Accepts (ts ++ us) (program ++ program') := by
  induction h with
  | @done all hlast =>
    rintro ts rfl _ hts _ hus
    cases ts with
    | nil => exact hus
    | cons t ts => exact absurd hlast (hts t List.mem_cons_self)
  | @statement all rest first program hstart hread _ ih =>
    rintro ts rfl heof hts hsemicolon hus
    obtain ⟨used, hsplit, hrest, hused, -⟩ :=
      exists_used ⟨last, List.mem_append_right ts List.mem_cons_self, heof⟩ hread
    obtain ⟨behind, rfl, rfl⟩ := hrest.exists_behind hsplit
    have hlater := ih rfl heof (fun t ht => hts t (List.mem_append_right used ht))
      (fun t ht => hsemicolon t (List.mem_getLast?_append_of_mem_getLast? ht)) hus
    obtain ⟨t, more, rfl⟩ := List.exists_cons_of_ne_nil hused
    have hstart' : t.kind ≠ .eof := hts t List.mem_cons_self
    rw [List.append_assoc] at hread ⊢
    refine .statement hstart' ?_ hlater
    cases behind with
    | nil =>
      refine statement_append_of_semicolon hrest hread ?_ us
      rw [List.append_nil] at hsemicolon
      exact ⟨(t :: more).getLast hused, List.getLast?_eq_some_getLast hused,
        hsemicolon _ (List.getLast?_eq_some_getLast hused)⟩
    | cons t' behind => exact statement_again hrest hread ⟨rfl, rfl⟩

/-! ### One program behind another -/

/-- The last token in front of the end is a semicolon. -/
def EndsStatement (source : String) : Prop :=
  (tokens source).dropLast.getLast?.map Token.kind = some .semicolon

instance (source : String) : Decidable (EndsStatement source) :=
  inferInstanceAs (Decidable (_ = _))

variable {source source' : String}

/-- Behind a text that ends with a semicolon, the statements of another text may stand. -/
theorem parse_append (h : parse source = .ok program) (hends : EndsStatement source)
    (h' : parse source' = .ok program') :
    parse (source ++ source') = .ok (program ++ program') := by
  obtain ⟨all, htokens, hkinds⟩ := exists_init source
  rw [EndsStatement, htokens, List.dropLast_concat] at hends
  obtain ⟨t, hlast, ht⟩ := Option.map_eq_some_iff.mp hends
  obtain ⟨init, rfl⟩ := List.getLast?_eq_some_iff.mp hlast
  have hboth : tokens (source ++ source') =
      init ++ [t] ++ tokensFrom 0 (Position.after {} source.toList) source'.toList := by
    rw [tokens, String.toList_append, List.append_assoc, List.singleton_append]
    exact tokensFrom_append_of_semicolon _ ht (htokens.trans (List.append_assoc _ _ _))
  have hsecond := (parse_eq_ok_iff.mp h').again (hasEnd_tokens source')
    (unplaced_tokensFrom source'.toList 0 {} (Position.after {} source.toList))
  rw [parse_eq_ok_iff, hboth]
  refine (parse_eq_ok_iff.mp h).append htokens rfl hkinds (fun t' ht' => ?_) hsecond
  obtain rfl := Option.mem_unique hlast ht'
  exact ht

/-- Statements behind others are evaluated where these have left the heap, unless one of these
leaves what is behind it out. -/
theorem run_statements_append (n : Nat) (s : ScopeId) (body more : Block) :
    ∀ (h : Heap) (v : Value), v.isFinal = false →
      Evaluation.run ⟨n, s, h, .statements v (body ++ more)⟩ =
      let r := Evaluation.run ⟨n, s, h, .statements v body⟩
      if r.1.isFinal then r else Evaluation.run ⟨n, s, r.2, .statements r.1 more⟩ := by
  induction body with
  | nil =>
    intro h v hv
    have hempty : Evaluation.run ⟨n, s, h, .statements v []⟩ = (v, h) := rfl
    simp only [List.nil_append, hempty, hv, Bool.false_eq_true, if_false]
  | cons first rest ih =>
    intro h v _
    rw [List.cons_append, Evaluation.run_cons, Evaluation.run_cons]
    dsimp only
    cases hfinal : (Evaluation.run ⟨n, s, h, .statement first⟩).1.isFinal with
    | true => simp only [if_true, hfinal]
    | false =>
      simp only [Bool.false_eq_true, if_false]
      exact ih _ _ hfinal

theorem run_evalText (h : parse source = .ok program) (scope : ScopeId) (heap : Heap) :
    (evalText source scope).run heap = (.ok (program.evaluation scope heap).run.1.unwrap,
      (program.evaluation scope heap).run.2) := by
  rw [evalText, h]
  rfl

/-- **Texts compose.** Behind an accepted text that ends with a semicolon, another accepted text may
stand. Both together are the statements of the one and then those of the other. If the first ones
come to no failure and no `return`, the others are evaluated on the heap that they leave behind, and
otherwise, or if there are no others, nothing but the first text is evaluated. -/
theorem texts_compose (h : parse source = .ok program) (hends : EndsStatement source)
    (h' : parse source' = .ok program') :
    parse (source ++ source') = .ok (program ++ program') ∧ ∀ scope heap,
      ((program.evaluation scope heap).run.1.isFinal = false ∧ program' ≠ [] →
        (evalText (source ++ source') scope).run heap =
          (evalText source' scope).run ((evalText source scope).run heap).2) ∧
      ((program.evaluation scope heap).run.1.isFinal = true ∨ program' = [] →
        (evalText (source ++ source') scope).run heap = (evalText source scope).run heap) := by
  have hboth := parse_append h hends h'
  refine ⟨hboth, fun scope heap => ?_⟩
  have hrun := run_statements_append maxCallDepth scope program program' heap .null rfl
  rw [run_evalText hboth, run_evalText h, run_evalText h']
  constructor
  · rintro ⟨hfinal, hmore⟩
    obtain ⟨first, rest, rfl⟩ := List.exists_cons_of_ne_nil hmore
    have heq : (Program.evaluation (program ++ first :: rest) scope heap).run =
        (Program.evaluation (first :: rest) scope (program.evaluation scope heap).run.2).run := by
      refine hrun.trans ((if_neg (by simpa [Program.evaluation] using hfinal)).trans ?_)
      rw [Program.evaluation, Evaluation.run_cons, Evaluation.run_cons]
      rfl
    rw [heq]
  · rintro (hfinal | rfl)
    · have heq : (Program.evaluation (program ++ program') scope heap).run =
          (program.evaluation scope heap).run :=
        hrun.trans (if_pos hfinal)
      rw [heq]
    · rw [List.append_nil]

/-- A function, and the value that it has for an argument. -/
def doublingText : String :=
  "let twice = function(n) \x7b n * 2 \x7d; let x = twice(21);"

/-- The tree of this text. -/
def doublingTree : Program :=
  [.let "twice" (.function ["n"]
    [.expression (.binary .multiply (.identifier "n") (.integer 2))]),
    .let "x" (.call (.identifier "twice") [.integer 21])]

/-- The value can be used behind the text. -/
theorem texts_compose_doublingText :
    parse (doublingText ++ "x + 1") =
      .ok (doublingTree ++ [.expression (.binary .add (.identifier "x") (.integer 1))]) ∧
      (evalText (doublingText ++ "x + 1") Heap.root).run .single =
        (evalText "x + 1" Heap.root).run ((evalText doublingText Heap.root).run .single).2 := by
  have hparse : parse doublingText = .ok doublingTree := rfl
  have hends : EndsStatement doublingText := by decide
  have hmore : parse "x + 1" = .ok [.expression (.binary .add (.identifier "x") (.integer 1))] :=
    rfl
  have hcompose := texts_compose hparse hends hmore
  have hgoes : (doublingTree.evaluation Heap.root .single).run.1.isFinal = false := by
    decide +kernel
  exact ⟨hcompose.1, (hcompose.2 Heap.root .single).1 ⟨hgoes, List.cons_ne_nil _ _⟩⟩

end NovelScript.Expr
