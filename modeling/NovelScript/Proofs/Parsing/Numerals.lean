import NovelScript.Expr.Value.Builtin
import NovelScript.Proofs.Parsing.Consumption
import NovelScript.Proofs.Parsing.Depth

/-!
Integers in decimal. In an expression the sign of an integer is a token of its own; the function
that turns strings into integers reads the sign and the digits at once. Main statement: both read
the decimal text of every integer of 32 bits back, whatever zeros lead it and whatever blanks are
around it, and both refuse it for every other whole number.
-/

namespace NovelScript.Expr

open NovelScript.Expr.Parser

variable {cs before after : List Char} {z : Int} {zeros : Nat} {t : Token} {ts : List Token}
  {inner : Inner} {failure : Failure}

/-! ### Numerals -/

/-- A whole number in decimal, with so many zeros behind its sign. -/
def numeral (zeros : Nat) (z : Int) : List Char :=
  if z < 0 then '-' :: Text.paddedDigits zeros z.natAbs else Text.paddedDigits zeros z.natAbs

/-- The number has 32 bits with a sign. -/
def IsInt32 (z : Int) : Prop := -2147483648 ≤ z ∧ z < 2147483648

instance (z : Int) : Decidable (IsInt32 z) := inferInstanceAs (Decidable (_ ∧ _))

theorem readInteger?_numeral (zeros : Nat) (z : Int) :
    Text.readInteger? (String.ofList (numeral zeros z)) = some z := by
  have hne := Text.paddedDigits_ne_nil zeros z.natAbs
  have hdigits := Text.isDigit_of_mem_paddedDigits zeros z.natAbs
  unfold numeral
  split
  · have hread := Text.readInteger?_of_minus hne hdigits
    have hvalue : -(z.natAbs : Int) = z := by omega
    rw [Text.digitsValue_paddedDigits, hvalue] at hread
    rw [String.ofList_cons]
    exact hread
  · have hvalue : (z.natAbs : Int) = z := by omega
    rw [Text.readInteger?_of_digits hne hdigits, Text.digitsValue_paddedDigits, hvalue]

theorem readInt32?_numeral (zeros : Nat) (z : Int) :
    Text.readInt32? (String.ofList (numeral zeros z)) =
      if IsInt32 z then some (Int32.ofInt z) else none :=
  Text.readInt32?_of_readInteger? (readInteger?_numeral zeros z)

/-- Without zeros in front, this is how integers are shown. -/
theorem toString_eq_numeral (z : Int) : toString z = String.ofList (numeral 0 z) := by
  cases z with
  | ofNat n => rfl
  | negSucc n =>
    rw [numeral, if_pos (Int.negSucc_lt_zero n), String.ofList_cons]
    rfl

/-! ### Blanks around a text -/

theorem dropWhile_blanks (hbefore : ∀ c ∈ before, Text.isBlank c = true)
    (hcs : ∀ c ∈ cs.head?, Text.isBlank c = false) :
    (before ++ cs).dropWhile Text.isBlank = cs := by
  rw [List.dropWhile_append_of_pos hbefore]
  cases cs with
  | nil => rfl
  | cons c cs => exact List.dropWhile_cons_of_neg (by simp [hcs c rfl])

/-- Nothing but the blanks around a text is trimmed. -/
theorem trim_blanks (hbefore : ∀ c ∈ before, Text.isBlank c = true)
    (hafter : ∀ c ∈ after, Text.isBlank c = true) (hcs : ∀ c ∈ cs, Text.isBlank c = false)
    (hne : cs ≠ []) : Text.trim (String.ofList (before ++ cs ++ after)) = String.ofList cs := by
  have hfirst : ∀ c ∈ (cs ++ after).head?, Text.isBlank c = false := by
    obtain ⟨first, more, rfl⟩ := List.exists_cons_of_ne_nil hne
    intro c hc
    obtain rfl := Option.some.inj hc
    exact hcs _ List.mem_cons_self
  have hlast : ∀ c ∈ cs.reverse.head?, Text.isBlank c = false :=
    fun c hc => hcs c (List.mem_reverse.mp (List.mem_of_head? hc))
  have hafter' : ∀ c ∈ after.reverse, Text.isBlank c = true :=
    fun c hc => hafter c (List.mem_reverse.mp hc)
  rw [Text.trim, Text.trimBlanks, String.toList_ofList, List.append_assoc,
    dropWhile_blanks hbefore hfirst, List.reverse_append, dropWhile_blanks hafter' hlast,
    List.reverse_reverse]

theorem isBlank_of_mem_numeral (zeros : Nat) (z : Int) :
    ∀ c ∈ numeral zeros z, Text.isBlank c = false := by
  have hdigits : ∀ c ∈ Text.paddedDigits zeros z.natAbs, Text.isBlank c = false :=
    fun c hc => isBlank_of_isDigit (Text.isDigit_of_mem_paddedDigits zeros z.natAbs c hc)
  unfold numeral
  split
  · exact List.forall_mem_cons.mpr ⟨by decide, hdigits⟩
  · exact hdigits

theorem numeral_ne_nil (zeros : Nat) (z : Int) : numeral zeros z ≠ [] := by
  unfold numeral
  split
  · exact List.cons_ne_nil _ _
  · exact Text.paddedDigits_ne_nil zeros z.natAbs

/-- Blanks in front of a text are skipped. -/
theorem tokensFrom_blanks (hbefore : ∀ c ∈ before, Text.isBlank c = true) (cs : List Char) :
    ∀ p : Position, tokensFrom 0 p (before ++ cs) = tokensFrom 0 (p.after before) cs := by
  induction before with
  | nil => exact fun p => rfl
  | cons c before ih =>
    intro p
    obtain ⟨hc, hrest⟩ := List.forall_mem_cons.mp hbefore
    rw [List.cons_append, tokensFrom, if_pos hc]
    exact ih hrest (p.next c)

theorem closesNumber_of_blanks (hafter : ∀ c ∈ after, Text.isBlank c = true) :
    ClosesNumber after := by
  intro c hc
  have hblank := hafter c (List.mem_of_head? hc)
  constructor
  · exact Bool.eq_false_iff.mpr fun hdigit => by simp [isBlank_of_isDigit hdigit] at hblank
  · rintro rfl
    exact absurd hblank (by decide)

/-! ### Numerals as expressions -/

/-- The digits of an integer are an operand. -/
theorem operand_digits (inner : Inner) (text : String) (p : Position) (rest : List Token) :
    operand inner (⟨.integer, text, p⟩ :: rest) = integer text p rest := rfl

/-- The sign of an integer is a token of its own, which is put back in front of the digits. -/
theorem operand_minus (inner : Inner) (text : String) (p q : Position) (rest : List Token) :
    operand inner (⟨.minus, "-", p⟩ :: ⟨.integer, text, q⟩ :: rest) =
      integer ("-" ++ text) p rest := rfl

/-- Whatever sign it has, the text of a whole number is one operand, and nothing is left of it. -/
theorem operand_numeral (hbefore : ∀ c ∈ before, Text.isBlank c = true)
    (hafter : ∀ c ∈ after, Text.isBlank c = true) (zeros : Nat) (z : Int) :
    ∃ t ts q, tokens (String.ofList (before ++ numeral zeros z ++ after)) = t :: ts ∧
      t.kind ∉ nonExpressionKinds ∧ ∀ inner, operand inner (t :: ts) =
        integer (String.ofList (numeral zeros z)) (Position.after {} before) [⟨.eof, "", q⟩] := by
  let digits := Text.paddedDigits zeros z.natAbs
  let start := Position.after {} before
  let stop (p : Position) := (p.after digits).after after
  have hdigits : ∀ p : Position, tokensFrom 0 p (digits ++ after) =
      [⟨.integer, String.ofList digits, p⟩, ⟨.eof, "", stop p⟩] := by
    intro p
    obtain ⟨c, cs, hcons, hc, hcs⟩ := Text.exists_digit_cons
      (Text.paddedDigits_ne_nil zeros z.natAbs) (Text.isDigit_of_mem_paddedDigits zeros z.natAbs)
    have hend := tokensFrom_blanks hafter [] ((p.after digits))
    rw [List.append_nil] at hend
    have hread := tokensFrom_digits hc hcs (closesNumber_of_blanks hafter) p
    rw [← hcons] at hread
    rw [hread, hend]
    rfl
  rw [tokens, String.toList_ofList, List.append_assoc, tokensFrom_blanks hbefore, numeral]
  split
  · have hkind : TokenKind.minus ∉ nonExpressionKinds := by decide
    refine ⟨⟨.minus, "-", start⟩, [⟨.integer, String.ofList digits, start.next '-'⟩,
      ⟨.eof, "", stop (start.next '-')⟩], stop (start.next '-'), ?_, hkind, fun inner => ?_⟩
    · rw [List.cons_append, tokensFrom_minus, hdigits]
    · rw [operand_minus, String.ofList_cons]
      rfl
  · have hkind : TokenKind.integer ∉ nonExpressionKinds := by decide
    exact ⟨⟨.integer, String.ofList digits, start⟩, [⟨.eof, "", stop start⟩], stop start,
      hdigits start, hkind, fun inner => operand_digits ..⟩

/-! ### Whole texts -/

/-- A statement is given up with its expression. -/
theorem statement_of_error (ht : t.kind ∉ nonExpressionKinds)
    (h : inner.expression .lowest (t :: ts) = .error failure) :
    statement inner (t :: ts) = .error failure := by
  have hread : (inner.expression .lowest >>= fun value => accept .semicolon >>= fun _ =>
      pure (Statement.expression value)) (t :: ts) = .error failure := bind_error h _
  rw [statement, peek_cons_bind]
  generalize t.kind = kind at ht
  cases kind with
  | «let» | «return» | leftBrace => simp [nonExpressionKinds] at ht
  | _ => exact hread

/-- What is read as one operand is a text of one expression. -/
theorem parse_of_operand {source : String} {e : Expression} {q : Position}
    (htokens : tokens source = t :: ts) (ht : t.kind ∉ nonExpressionKinds)
    (h : ∀ inner, operand inner (t :: ts) = .ok (e, [⟨.eof, "", q⟩])) :
    parse source = .ok [.expression e] := by
  have hexpression : (within maxNesting).expression .lowest (t :: ts) =
      .ok (e, [⟨.eof, "", q⟩]) :=
    (expression_of_operand (h (within 255))).trans (operators_stop (Nat.lt_irrefl 0) _)
  have heof : t.kind ≠ .eof := fun hkind => ht (by simp [hkind, nonExpressionKinds])
  rw [parse, htokens, parseTokens_of_statement heof (statement_of_expression ht hexpression)]

/-- If the operand that a text is cannot be read, its error is the only one. -/
theorem parse_of_operand_error {source : String} {error : ParseError} {q : Position}
    (htokens : tokens source = t :: ts) (ht : t.kind ∉ nonExpressionKinds)
    (h : ∀ inner, operand inner (t :: ts) = .error ⟨error, [⟨.eof, "", q⟩]⟩) :
    parse source = .error [error] := by
  have hexpression : (within maxNesting).expression .lowest (t :: ts) =
      .error ⟨error, [⟨.eof, "", q⟩]⟩ := bind_error (h (within 255)) _
  have heof : (firstToken (t :: ts)).kind ≠ .eof :=
    fun hkind => ht (by rw [show t.kind = .eof from hkind]; decide)
  have hstatement := statement_of_error ht hexpression
  have hread : parseTokens (t :: ts) = ([], [error]) := by
    rw [parseTokens, List.length_cons, parseStatements_of_error heof hstatement]
    have hrest : ∀ n, parseStatements n (recover [⟨.eof, "", q⟩]) = ([], []) :=
      parseStatements_of_eof rfl
    rw [hrest]
  rw [parse, htokens, hread]

/-! ### Conversion of strings -/

/-- A string that is a numeral, blanks aside, is converted if its number has 32 bits. -/
theorem apply_integer_of_trim {text : String}
    (htrim : Text.trim text = String.ofList (numeral zeros z)) :
    Builtin.integer.apply [.string text] =
      if IsInt32 z then .integer (.ofInt z) else .error (.notConvertible text .integer) := by
  have hread := readInt32?_numeral zeros z
  rw [← htrim] at hread
  by_cases hz : IsInt32 z
  · rw [if_pos hz] at hread ⊢
    simp only [Builtin.apply, hread]
  · rw [if_neg hz] at hread ⊢
    simp only [Builtin.apply, hread]

theorem trim_numeral (hbefore : ∀ c ∈ before, Text.isBlank c = true)
    (hafter : ∀ c ∈ after, Text.isBlank c = true) (zeros : Nat) (z : Int) :
    Text.trim (String.ofList (before ++ numeral zeros z ++ after)) =
      String.ofList (numeral zeros z) :=
  trim_blanks hbefore hafter (isBlank_of_mem_numeral zeros z) (numeral_ne_nil zeros z)

/-- The text of an integer has neither zeros in front of it nor blanks around it. -/
theorem apply_integer_string (n : Int32) :
    Builtin.integer.apply [Builtin.string.apply [.integer n]] = .integer n := by
  have hnone : ∀ c ∈ ([] : List Char), Text.isBlank c = true := List.forall_mem_nil _
  have htrim : Text.trim (toString n.toInt) = String.ofList (numeral 0 n.toInt) := by
    have hblanks := trim_numeral hnone hnone 0 n.toInt
    rw [List.nil_append, List.append_nil] at hblanks
    rw [toString_eq_numeral, hblanks]
  have hfits : IsInt32 n.toInt := ⟨n.le_toInt, n.toInt_lt⟩
  have hconvert := apply_integer_of_trim htrim
  rwa [if_pos hfits, Int32.ofInt_toInt] at hconvert

/-- **Integers are read back everywhere.** The decimal text of a whole number, with any zeros in
front of its digits and any blanks around it, is read as one literal of this number, and converted to this
number, if it has 32 bits; otherwise both readings fail, the first with one error about the numeral.
So an integer that is turned into a string is turned back into itself. -/
theorem integers_read_back (z : Int) (zeros : Nat)
    (hbefore : ∀ c ∈ before, Text.isBlank c = true) (hafter : ∀ c ∈ after, Text.isBlank c = true) :
    let text := String.ofList (before ++ numeral zeros z ++ after)
    (IsInt32 z → ∃ n : Int32, n.toInt = z ∧ parse text = .ok [.expression (.integer n)] ∧
        Builtin.integer.apply [.string text] = .integer n) ∧
      (¬ IsInt32 z →
        parse text = .error
            [.invalidInteger (String.ofList (numeral zeros z)) (Position.after {} before)] ∧
          Builtin.integer.apply [.string text] = .error (.notConvertible text .integer)) ∧
      ∀ n : Int32, Builtin.integer.apply [Builtin.string.apply [.integer n]] = .integer n := by
  intro text
  have hread := readInt32?_numeral zeros z
  have hconvert := apply_integer_of_trim (trim_numeral hbefore hafter zeros z)
  obtain ⟨t, ts, q, htokens, ht, hoperand⟩ := operand_numeral hbefore hafter zeros z
  refine ⟨fun hz => ?_, fun hz => ?_, apply_integer_string⟩
  · rw [if_pos hz] at hread hconvert
    have hvalue : ∀ inner, operand inner (t :: ts) =
        .ok (.integer (.ofInt z), [⟨.eof, "", q⟩]) := by
      intro inner
      rw [hoperand, integer, hread]
      rfl
    exact ⟨.ofInt z, Int32.toInt_ofInt_of_le hz.1 hz.2, parse_of_operand htokens ht hvalue, hconvert⟩
  · rw [if_neg hz] at hread hconvert
    have herror : ∀ inner, operand inner (t :: ts) =
        .error ⟨.invalidInteger (String.ofList (numeral zeros z)) (Position.after {} before),
          [⟨.eof, "", q⟩]⟩ := by
      intro inner
      rw [hoperand, integer, hread]
      rfl
    exact ⟨parse_of_operand_error htokens ht herror, hconvert⟩

/-- Between blanks of different kinds, the least integer is read back; what follows the greatest one
is refused. -/
theorem integers_read_back_bothEnds :
    (∀ c ∈ [' ', '\t'], Text.isBlank c = true) ∧ (∀ c ∈ ['\u3000'], Text.isBlank c = true) ∧
      IsInt32 (-2147483648) ∧
      parse " \t-002147483648\u3000" = .ok [.expression (.integer (-2147483648))] ∧
      Builtin.integer.apply [.string " \t-002147483648\u3000"] = .integer (-2147483648) ∧
      ¬ IsInt32 2147483648 ∧
      parse " \t002147483648\u3000" = .error [.invalidInteger "002147483648" ⟨2, 1, 3⟩] ∧
      Builtin.integer.apply [.string " \t002147483648\u3000"] =
        .error (.notConvertible " \t002147483648\u3000" .integer) := by
  have hbefore : ∀ c ∈ [' ', '\t'], Text.isBlank c = true := List.all_eq_true.mp (by decide)
  have hafter : ∀ c ∈ ['\u3000'], Text.isBlank c = true := List.all_eq_true.mp (by decide)
  have hleast : IsInt32 (-2147483648) := by decide
  have hbeyond : ¬ IsInt32 2147483648 := by decide
  obtain ⟨n, hn, hparse, hconvert⟩ :=
    (integers_read_back (-2147483648) 2 hbefore hafter).1 hleast
  obtain ⟨hparse', hconvert'⟩ := (integers_read_back 2147483648 2 hbefore hafter).2.1 hbeyond
  obtain rfl : n = -2147483648 := Int32.toInt_inj.mp (hn.trans (by decide))
  have htext : String.ofList ([' ', '\t'] ++ numeral 2 (-2147483648) ++ ['\u3000']) =
      " \t-002147483648\u3000" := by decide
  have htext' : String.ofList ([' ', '\t'] ++ numeral 2 2147483648 ++ ['\u3000']) =
      " \t002147483648\u3000" := by decide
  rw [htext] at hparse hconvert
  rw [htext'] at hparse' hconvert'
  exact ⟨hbefore, hafter, hleast, hparse, hconvert, hbeyond, hparse', hconvert'⟩

end NovelScript.Expr
