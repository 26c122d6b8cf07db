import NovelScript.Expr.Token.Stream
import NovelScript.Proofs.Parsing.Lexeme

/-!
How an expression text splits into blanks and lexemes. Main statement: the text is blanks and
lexemes in turn, one lexeme for each token and at its place; the end of the text is the last token
and no other, and the tokens that a lexer gives one after the other are the same. A lexeme is the
text of its token, but for strings, where it is a body in quotes that the text is decoded from.
-/

namespace NovelScript.Expr

variable {p : Position} {c quote : Char} {cs content blanks : List Char} {ts : List Token}

/-! ### Lexemes -/

/-- The body of a string in such quotes, and its content. -/
inductive Body (quote : Char) : List Char → List Char → Prop
  | nil : Body quote [] []
  | newline {cs content : List Char} (h : Body quote cs content) :
      Body quote ('\\' :: 'n' :: cs) ('\n' :: content)
  | tabulator {cs content : List Char} (h : Body quote cs content) :
      Body quote ('\\' :: 't' :: cs) ('\t' :: content)
  | escaped {c : Char} {cs content : List Char} (hc : c ≠ 'n' ∧ c ≠ 't') (h : Body quote cs content) :
      Body quote ('\\' :: c :: cs) (c :: content)
  | plain {c : Char} {cs content : List Char} (hc : c ≠ '\\' ∧ c ≠ quote) (h : Body quote cs content) :
      Body quote (c :: cs) (c :: content)

/-- Two characters of a body, the first a backslash, are one of its content. -/
theorem Body.unescape (h : Body quote cs content) (c : Char) :
    Body quote ('\\' :: c :: cs) (Lexeme.unescape c :: content) := by
  unfold Lexeme.unescape
  by_cases hn : c = 'n'
  · subst hn
    exact h.newline
  by_cases ht : c = 't'
  · subst ht
    exact h.tabulator
  · rw [if_neg hn, if_neg ht]
    exact h.escaped ⟨hn, ht⟩

/-- The characters that a token is read from. A token is written as its text, but for strings. -/
structure Token.IsWrittenAs (t : Token) (lexeme : List Char) : Prop where
  text : t.kind ≠ .string → t.text.toList = lexeme
  quoted : t.kind = .string → ∃ quote body, (quote = '"' ∨ quote = '\'') ∧
    lexeme = quote :: body ++ [quote] ∧ Body quote body t.text.toList

/-- Where a string is closed, a body stands in front of the quote that closes it. -/
theorem string?_eq_some {n : Nat} (h : Lexeme.string? quote cs = some (content, n)) :
    ∃ body behind, cs = body ++ quote :: behind ∧ n = body.length + 1 ∧ Body quote body content := by
  induction cs using Lexeme.string?.induct quote generalizing content n with
  | case1 => simp [Lexeme.string?] at h
  | case2 => simp [Lexeme.string?] at h
  | case3 c cs ih =>
    rw [Lexeme.string?, Option.map_eq_some_iff] at h
    obtain ⟨⟨content, m⟩, hrest, heq⟩ := h
    obtain ⟨rfl, rfl⟩ := Prod.mk.inj heq
    obtain ⟨body, behind, rfl, rfl, hbody⟩ := ih hrest
    exact ⟨'\\' :: c :: body, behind, rfl, rfl, hbody.unescape c⟩
  | case4 cs hlast hpair =>
    rw [Lexeme.string?.eq_4 _ _ _ hlast hpair, if_pos rfl] at h
    obtain ⟨rfl, rfl⟩ := Prod.mk.inj (Option.some.inj h)
    exact ⟨[], cs, rfl, rfl, .nil⟩
  | case5 c cs hlast hpair hquote ih =>
    rw [Lexeme.string?.eq_4 _ _ _ hlast hpair, if_neg hquote, Option.map_eq_some_iff] at h
    obtain ⟨⟨content, m⟩, hrest, heq⟩ := h
    obtain ⟨rfl, rfl⟩ := Prod.mk.inj heq
    obtain ⟨body, behind, rfl, rfl, hbody⟩ := ih hrest
    -- a backslash would have something behind it, since the string is closed
    have hslash : c ≠ '\\' := by
      cases hchars : body ++ quote :: behind with
      | nil => exact fun hc => hlast hc hchars
      | cons d ds => exact fun hc => hpair d ds hc hchars
    exact ⟨c :: body, behind, rfl, rfl, hbody.plain ⟨hslash, hquote⟩⟩

/-- A token of its own, and the characters behind the first one that it is read from. -/
structure Lexeme.Matches (lexeme : Lexeme) (first : Char) (rest : List Char) : Prop where
  kind : lexeme.kind ≠ .eof
  written : ∀ p, Token.IsWrittenAs ⟨lexeme.kind, lexeme.text, p⟩ (first :: rest.take lexeme.more)

/-- A token that is no string is written as its text. -/
theorem matches_of_prefix {kind : TokenKind} {more : List Char} {n : Nat}
    (hkind : kind ≠ .eof ∧ kind ≠ .string) (hmore : more <+: cs) (hn : n = more.length) :
    Lexeme.Matches ⟨kind, String.ofList (c :: more), n⟩ c cs := by
  refine ⟨hkind.1, fun p => ⟨fun _ => ?_, fun hstring => absurd hstring hkind.2⟩⟩
  rw [String.toList_ofList, hn, ← List.prefix_iff_eq_take.mp hmore]

theorem matches_string (hquote : c = '"' ∨ c = '\'') (cs : List Char) :
    (Lexeme.string c cs).Matches c cs := by
  unfold Lexeme.string
  cases hread : Lexeme.string? c cs with
  | none => exact matches_of_prefix (by simp) (List.prefix_refl cs) rfl
  | some read =>
    obtain ⟨content, n⟩ := read
    obtain ⟨body, behind, rfl, rfl, hbody⟩ := string?_eq_some hread
    refine ⟨by simp, fun p => ⟨fun hkind => absurd rfl hkind, fun _ => ⟨c, body, hquote, ?_, ?_⟩⟩⟩
    · rw [List.append_cons, List.take_left' (by simp), List.cons_append]
    · rwa [String.toList_ofList]

theorem matches_number (c : Char) (cs : List Char) : (Lexeme.number c cs).Matches c cs := by
  have hwhole := List.takeWhile_prefix (l := cs) Char.isDigit
  unfold Lexeme.number
  generalize cs.takeWhile Char.isDigit = whole at hwhole
  have hinteger : Lexeme.Matches ⟨.integer, String.ofList (c :: whole), whole.length⟩ c cs :=
    matches_of_prefix (by simp) hwhole rfl
  obtain ⟨rest, rfl⟩ := hwhole
  simp only [List.drop_left]
  split
  · rename_i behind
    have hplaces := List.takeWhile_prefix (l := behind) Char.isDigit
    split
    · exact hinteger
    · have hdouble : whole ++ '.' :: behind.takeWhile Char.isDigit <+: whole ++ '.' :: behind :=
        (List.prefix_append_right_inj whole).mpr ((List.prefix_cons_inj '.').mpr hplaces)
      exact matches_of_prefix (by simp) hdouble (by simp; omega)
  · exact hinteger

theorem matches_word (c : Char) (cs : List Char) : (Lexeme.word c cs).Matches c cs := by
  have hkind : ∀ text, (TokenKind.keyword? text).getD .identifier ≠ .eof ∧
      (TokenKind.keyword? text).getD .identifier ≠ .string := by
    intro text
    unfold TokenKind.keyword?
    split <;> simp
  exact matches_of_prefix (hkind _) (List.takeWhile_prefix _) rfl

theorem matches_symbol (c : Char) (cs : List Char) : (Lexeme.symbol c cs).Matches c cs := by
  unfold Lexeme.symbol
  split
  · rename_i kind second h
    obtain ⟨d, hd, hpair⟩ := Option.bind_eq_some_iff.mp h
    obtain ⟨_, hkind, heq⟩ := Option.map_eq_some_iff.mp hpair
    obtain ⟨rfl, rfl⟩ := Prod.mk.inj heq
    obtain ⟨rest, rfl⟩ := List.head?_eq_some_iff.mp hd
    refine matches_of_prefix ?_ (List.prefix_append [d] rest) rfl
    unfold Lexeme.pair? at hkind
    split at hkind <;> cases hkind <;> simp
  · refine matches_of_prefix ?_ List.nil_prefix rfl
    unfold Lexeme.single
    split <;> simp

/-- Every token is read from what it is written as. -/
theorem matches_read (c : Char) (cs : List Char) : (Lexeme.read c cs).Matches c cs := by
  unfold Lexeme.read
  split
  · exact matches_number c cs
  split
  · rename_i hquote
    exact matches_string (by simpa using hquote) cs
  split
  · exact matches_word c cs
  · exact matches_symbol c cs

/-! ### One token after the other -/

theorem tokensFrom_drop (n : Nat) (cs : List Char) : ∀ p : Position,
    tokensFrom n p cs = tokensFrom 0 (p.after (cs.take n)) (cs.drop n) := by
  induction cs generalizing n with
  | nil =>
    intro p
    rw [List.take_nil, List.drop_nil]
    rfl
  | cons c cs ih =>
    intro p
    cases n with
    | zero => rfl
    | succ n => exact ih n (p.next c)

theorem tokensFrom_dropWhile (cs : List Char) : ∀ p : Position, tokensFrom 0 p cs =
    tokensFrom 0 (p.after (cs.takeWhile Text.isBlank)) (cs.dropWhile Text.isBlank) := by
  induction cs with
  | nil => exact fun p => rfl
  | cons c cs ih =>
    intro p
    by_cases hc : Text.isBlank c = true
    · rw [List.takeWhile_cons_of_pos hc, List.dropWhile_cons_of_pos hc, Position.after_cons, ← ih,
        tokensFrom, if_pos hc]
    · rw [List.takeWhile_cons_of_neg hc, List.dropWhile_cons_of_neg hc]
      rfl

namespace Lexer

variable {s next : Scanner} {t : Token}

/-- What the next token is, what stands before it, and how the tokens go on behind it. -/
inductive Step (s : Scanner) : Token → Scanner → Prop
  | eof {next : Scanner} (hblanks : ∀ c ∈ s.rest, Text.isBlank c)
      (htokens : tokensFrom 0 s.position s.rest = [⟨.eof, "", s.position.after s.rest⟩]) :
      Step s ⟨.eof, "", s.position.after s.rest⟩ next
  | token {t : Token} {next : Scanner} {blanks lexeme : List Char}
      (hrest : s.rest = blanks ++ lexeme ++ next.rest)
      (hnext : next.position = s.position.after (blanks ++ lexeme))
      (hblanks : ∀ c ∈ blanks, Text.isBlank c) (hlexeme : lexeme ≠ [])
      (hkind : t.kind ≠ .eof) (hposition : t.position = s.position.after blanks)
      (hwritten : t.IsWrittenAs lexeme)
      (htokens : tokensFrom 0 s.position s.rest = t :: tokensFrom 0 next.position next.rest) :
      Step s t next

theorem step_nextToken (s : Scanner) : Step s (nextToken s).1 (nextToken s).2 := by
  have hsplit := List.takeWhile_append_dropWhile (p := Text.isBlank) (l := s.rest)
  have hblanks : ∀ c ∈ s.rest.takeWhile Text.isBlank, Text.isBlank c :=
    fun c hc => List.mem_takeWhile_imp hc
  have htokens := tokensFrom_dropWhile s.rest s.position
  unfold nextToken
  dsimp only
  cases hrest : (s.skipWhile Text.isBlank).rest with
  | nil =>
    rw [Scanner.rest_skipWhile] at hrest
    rw [hrest, List.append_nil] at hsplit
    rw [hrest, hsplit] at htokens
    rw [hsplit] at hblanks
    simp only [Scanner.skipWhile, Scanner.takeWhile, hsplit]
    exact .eof hblanks htokens
  | cons c cs =>
    rw [Scanner.rest_skipWhile] at hrest
    obtain ⟨hkind, hwritten⟩ := matches_read c cs
    -- all blanks have been skipped
    have hc : Text.isBlank c = false := by
      have hhead := List.head?_dropWhile_not Text.isBlank s.rest
      rw [hrest] at hhead
      simpa using hhead
    rw [hrest] at hsplit htokens
    have hlexeme : c :: cs.take (Lexeme.read c cs).more ≠ [] := List.cons_ne_nil _ _
    refine .token ?_ ?_ hblanks hlexeme hkind rfl (hwritten _) ?_
    · simp only [Scanner.rest_skip, Scanner.rest_skipWhile, hrest, List.drop_succ_cons]
      rw [List.append_assoc, List.cons_append, List.take_append_drop, hsplit]
    · simp [Scanner.skip, Scanner.skipWhile, Scanner.takeWhile, hrest, Position.after_append]
    · rw [htokens, tokensFrom, hc, if_neg Bool.false_ne_true]
      simp only [Scanner.skip, Scanner.skipWhile, Scanner.takeWhile, hrest]
      exact congrArg _ (tokensFrom_drop _ cs _)

theorem Step.tokens (h : Step s t next) : tokensFrom 0 s.position s.rest =
    t :: if t.kind = .eof then [] else tokensFrom 0 next.position next.rest := by
  cases h with
  | eof _ htokens => exact htokens
  | token _ _ _ _ hkind _ _ htokens => rw [htokens, if_neg hkind]

/-- Once the end has been given, nothing is. -/
theorem nth_done (s : Scanner) : ∀ n, nth n ⟨s, true⟩ = none
  | 0 => rfl
  | n + 1 => nth_done s n

/-- The tokens are given one after the other, and then nothing. -/
theorem nth_eq (n : Nat) (s : Scanner) :
    nth n ⟨s, false⟩ = (tokensFrom 0 s.position s.rest)[n]? := by
  have htokens := fun s => (step_nextToken s).tokens
  induction n generalizing s with
  | zero =>
    rw [htokens]
    rfl
  | succ n ih =>
    change nth n ⟨(nextToken s).2, (nextToken s).1.kind = .eof⟩ = _
    rw [htokens, List.getElem?_cons_succ]
    by_cases heof : (nextToken s).1.kind = .eof
    · rw [if_pos heof, decide_eq_true heof, nth_done]
      rfl
    · rw [if_neg heof, decide_eq_false heof, ih]

end Lexer

/-! ### Whole texts -/

/-- The characters from the place `p` on are blanks and lexemes in turn, with a lexeme for each
token but the last, which is the end. -/
inductive Splits : Position → List Char → List Token → Prop
  | last {p : Position} {blanks : List Char} (hblanks : ∀ c ∈ blanks, Text.isBlank c) :
      Splits p blanks [⟨.eof, "", p.after blanks⟩]
  | token {p : Position} {blanks lexeme cs : List Char} {t : Token} {ts : List Token}
      (hblanks : ∀ c ∈ blanks, Text.isBlank c) (hlexeme : lexeme ≠ []) (hkind : t.kind ≠ .eof)
      (hposition : t.position = p.after blanks) (hwritten : t.IsWrittenAs lexeme)
      (h : Splits (p.after (blanks ++ lexeme)) cs ts) : Splits p (blanks ++ lexeme ++ cs) (t :: ts)

/-- The end is the last token and no other, and its place is the end of the text. -/
theorem Splits.eof (h : Splits p cs ts) : ∃ init, ts = init ++ [⟨.eof, "", p.after cs⟩] ∧
    ∀ t ∈ init, t.kind ≠ .eof := by
  induction h with
  | last => exact ⟨[], rfl, by simp⟩
  | token _ _ hkind _ _ _ ih =>
    obtain ⟨init, rfl, hinit⟩ := ih
    refine ⟨_ :: init, ?_, List.forall_mem_cons.mpr ⟨hkind, hinit⟩⟩
    simp [Position.after_append]

theorem splits_tokensFrom (s : Scanner) :
    Splits s.position s.rest (tokensFrom 0 s.position s.rest) := by
  induction hlength : s.rest.length using Nat.strong_induction_on generalizing s with
  | _ n ih =>
    have hstep := Lexer.step_nextToken s
    generalize (Lexer.nextToken s).1 = t, (Lexer.nextToken s).2 = next at hstep
    cases hstep with
    | eof hblanks htokens =>
      rw [htokens]
      exact .last hblanks
    | token hrest hnext hblanks hlexeme hkind hposition hwritten htokens =>
      have hshorter : next.rest.length < n := by
        have hpos := List.length_pos_iff.mpr hlexeme
        rw [← hlength, hrest]
        simp only [List.length_append]
        omega
      rw [htokens, hrest]
      exact .token hblanks hlexeme hkind hposition hwritten (hnext ▸ ih _ hshorter next rfl)

/-- **The tokens cover the text.** An expression text is blanks and lexemes in turn, one lexeme for
each token, and the end is the last token and no other. A lexer gives the same tokens one after the
other, and then nothing. -/
theorem tokens_split_source (source : String) :
    Splits {} source.toList (tokens source) ∧
      (∃ init, tokens source = init ++ [⟨.eof, "", Position.after {} source.toList⟩] ∧
        ∀ t ∈ init, t.kind ≠ .eof) ∧
      ∀ n, (Lexer.ofString source).nth n = (tokens source)[n]? := by
  have hsplits : Splits {} source.toList (tokens source) :=
    splits_tokensFrom (Scanner.ofString source)
  exact ⟨hsplits, hsplits.eof, fun n => Lexer.nth_eq n (Scanner.ofString source)⟩

end NovelScript.Expr
