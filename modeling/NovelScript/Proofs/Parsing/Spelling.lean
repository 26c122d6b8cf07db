import NovelScript.Proofs.Parsing.Names
import NovelScript.Proofs.Reading.Rendering

/-!
Tokens written out. Operators, delimiters and keywords have one spelling each, names and numbers are
written as they are, strings in double quotes, and one blank stands between two tokens. Main
statement: what is read of the text written is the tokens it was written from.
-/

namespace NovelScript

open Script (escapeValue)

/-- A text between double quotes, with a backslash before each double quote and each backslash. -/
def quoteValue (text : String) : String := String.ofList ('"' :: escapeValue text.toList ++ ['"'])

namespace Expr

variable {kind : TokenKind} {text : String} {rest : List Char}

/-! ### Strings in quotes -/

/-- What is escaped between the quotes of a string is the content of the string. -/
theorem body_escapeValue (cs : List Char) : Body '"' (escapeValue cs) cs := by
  induction cs with
  | nil => exact .nil
  | cons c cs ih =>
    by_cases hc : c = '"' ∨ c = '\\'
    · have hpiece : escapeValue (c :: cs) = '\\' :: c :: escapeValue cs := by
        simp [escapeValue, hc]
      have hself : c ≠ 'n' ∧ c ≠ 't' := by rcases hc with rfl | rfl <;> decide
      rw [hpiece]
      exact ih.escaped hself
    · have hpiece : escapeValue (c :: cs) = c :: escapeValue cs := by
        simp [escapeValue, hc]
      obtain ⟨hquote, hslash⟩ := not_or.mp hc
      rw [hpiece]
      exact ih.plain ⟨hslash, hquote⟩

theorem tokensFrom_quoteValue (text : String) (rest : List Char) (p : Position) :
    tokensFrom 0 p ((quoteValue text).toList ++ rest) =
      ⟨.string, text, p⟩ :: tokensFrom 0 (p.after (quoteValue text).toList) rest := by
  have hread := tokensFrom_string (.inl rfl) (body_escapeValue text.toList) rest p
  rw [String.ofList_toList] at hread
  rw [quoteValue, String.toList_ofList]
  exact hread

/-! ### Tokens that can be written -/

/-- The tokens that a text can be written from: operators, delimiters and keywords, identifiers,
numbers of any length and strings with any content. -/
inductive IsWritable : TokenKind → String → Prop
  | symbol {kind : TokenKind} (h : kind ∈ operatorKinds ++ delimiterKinds) : IsWritable kind kind.name
  | keyword {kind : TokenKind} {word : String} (h : TokenKind.keyword? word = some kind) :
      IsWritable kind word
  | identifier {name : String} {first : Char} {more : List Char}
      (h : IsIdentifier name first more) : IsWritable .identifier name
  | integer (digits : Digits) : IsWritable .integer (String.ofList digits.toList)
  | double (whole places : Digits) :
      IsWritable .double (String.ofList (whole.toList ++ '.' :: places.toList))
  | string (content : String) : IsWritable .string content

/-- A token as it is written. -/
def spell (kind : TokenKind) (text : String) : String :=
  if kind = .string then quoteValue text else text

theorem spell_of_ne_string (h : kind ≠ .string) : spell kind text = text := if_neg h

theorem isWord_of_keyword? (h : TokenKind.keyword? text = some kind) :
    ∃ first more, IsWord text first more := by
  unfold TokenKind.keyword? at h
  split at h
  · exact ⟨'f', "unction".toList, by decide, by decide, by decide⟩
  · exact ⟨'l', "et".toList, by decide, by decide, by decide⟩
  · exact ⟨'t', "rue".toList, by decide, by decide, by decide⟩
  · exact ⟨'f', "alse".toList, by decide, by decide, by decide⟩
  · exact ⟨'i', "f".toList, by decide, by decide, by decide⟩
  · exact ⟨'e', "lse".toList, by decide, by decide, by decide⟩
  · exact ⟨'r', "eturn".toList, by decide, by decide, by decide⟩
  · cases h

theorem keyword?_ne_string (word : String) : TokenKind.keyword? word ≠ some .string := by
  unfold TokenKind.keyword?
  split <;> simp

/-- A token that is written in front of what closes it is read again. -/
theorem IsWritable.tokensFrom (h : IsWritable kind text) (hrest : Closes rest) (p : Position) :
    tokensFrom 0 p ((spell kind text).toList ++ rest) =
      ⟨kind, text, p⟩ :: tokensFrom 0 (p.after (spell kind text).toList) rest := by
  cases h with
  | symbol hkind =>
    have hstring : kind ≠ .string := by
      rintro rfl
      exact absurd hkind (by decide)
    rw [spell_of_ne_string hstring]
    exact tokensFrom_symbol hkind hrest p
  | keyword hkeyword =>
    have hstring : kind ≠ .string := by
      rintro rfl
      exact keyword?_ne_string text hkeyword
    obtain ⟨first, more, hword⟩ := isWord_of_keyword? hkeyword
    have hread := hword.tokensFrom hrest p
    rw [hkeyword, Option.getD_some] at hread
    rw [spell_of_ne_string hstring]
    exact hread
  | identifier hidentifier =>
    have hread := hidentifier.toIsWord.tokensFrom hrest p
    rw [hidentifier.keyword?, Option.getD_none] at hread
    exact hread
  | integer digits =>
    obtain ⟨hfirst, hmore⟩ := List.forall_mem_cons.mp digits.isDigit
    have hread := tokensFrom_digits hfirst hmore hrest.closesNumber p
    rw [spell_of_ne_string (by decide), String.toList_ofList]
    exact hread
  | double whole places =>
    rw [spell_of_ne_string (by decide), String.toList_ofList]
    exact tokensFrom_double whole places hrest p
  | string content => exact tokensFrom_quoteValue text rest p

/-! ### Whole texts -/

/-- Tokens, of which only kind and text are given, with one blank between two of them. -/
def spellAll (ts : List (TokenKind × String)) : String :=
  " ".intercalate (ts.map fun t => spell t.1 t.2)

/-- Wherever the text stands, the tokens read of it are those it was written from. -/
theorem tokensFrom_spellAll {ts : List (TokenKind × String)} (h : ∀ t ∈ ts, IsWritable t.1 t.2) :
    ∀ p : Position, (tokensFrom 0 p (spellAll ts).toList).map Token.unplaced =
      ts ++ [(.eof, "")] := by
  induction ts with
  | nil => exact fun p => rfl
  | cons t ts ih =>
    intro p
    obtain ⟨ht, hts⟩ := List.forall_mem_cons.mp h
    cases ts with
    | nil =>
      have hread := ht.tokensFrom closes_nil p
      rw [List.append_nil] at hread
      rw [spellAll, List.map_singleton, String.intercalate_singleton, hread]
      rfl
    | cons u us =>
      -- the blank closes the first token and is skipped in front of the next one
      have htext : (spellAll (t :: u :: us)).toList =
          (spell t.1 t.2).toList ++ ' ' :: (spellAll (u :: us)).toList := by
        simp [spellAll, String.intercalate_cons_cons]
      rw [htext, ht.tokensFrom (closes_cons (by decide)) p, tokensFrom_space, List.map_cons, ih hts]
      rfl

/-- **Tokens written out are read back.** A text that is written from operators, delimiters,
keywords, identifiers, numbers and strings, with one blank between two of them, has the same tokens
in the same order, and the end behind them. -/
theorem tokens_spellAll (ts : List (TokenKind × String)) (h : ∀ t ∈ ts, IsWritable t.1 t.2) :
    (tokens (spellAll ts)).map Token.unplaced = ts ++ [(.eof, "")] :=
  tokensFrom_spellAll h {}

/-- Tokens of each kind: words with and without a meaning, signs, numbers and a string. -/
def mixedTokens : List (TokenKind × String) :=
  [(.let, "let"), (.identifier, "größe"), (.assign, "="), (.lessEqual, "<="), (.double, "1.50"),
    (.integer, "99999999999"), (.string, "a\"\\")]

theorem tokens_spellAll_mixedTokens :
    (∀ t ∈ mixedTokens, IsWritable t.1 t.2) ∧
      (tokens "let größe = <= 1.50 99999999999 \"a\\\"\\\\\"").map Token.unplaced =
        mixedTokens ++ [(.eof, "")] := by
  have hname : IsIdentifier "größe" 'g' ['r', 'ö', 'ß', 'e'] :=
    { toList := by decide, first := by decide, more := by decide, keyword? := by decide }
  have hwritable : ∀ t ∈ mixedTokens, IsWritable t.1 t.2 := by
    simp only [mixedTokens, List.forall_mem_cons, List.not_mem_nil, false_implies, implies_true,
      and_true]
    refine ⟨.keyword rfl, .identifier hname, .symbol (by decide), .symbol (by decide), ?_, ?_,
      .string _⟩
    · exact .double ⟨'1', [], List.all_eq_true.mp (by decide)⟩
        ⟨'5', ['0'], List.all_eq_true.mp (by decide)⟩
    · exact .integer ⟨'9', "9999999999".toList, List.all_eq_true.mp (by decide)⟩
  have htext : spellAll mixedTokens =
      "let größe = <= 1.50 99999999999 \"a\\\"\\\\\"" := by decide
  have hread := tokens_spellAll mixedTokens hwritable
  rw [htext] at hread
  exact ⟨hwritable, hread⟩

end Expr
end NovelScript
