import NovelScript.Proofs.Parsing.Chains
import NovelScript.Proofs.Parsing.Sequence
import NovelScript.Script.Tag

/-!
Names. Which names a tag may give to variables is said by the characters of a name; what an
identifier is, by what a lexer makes of a text, which looks for blanks, digits and quotes first. Main
statement: both are the same names, where the editions that letters and numbers are taken from agree
on their characters; and the value of such a name as a text of its own is the value that it is bound
to.
-/

namespace NovelScript

namespace Expr

variable {c : Char} {cs : List Char} {name : String}

/-! ### What words do not begin with -/

/-- The code points of blanks, quotes and digits, which lexers look for before letters. -/
def lookedForFirst : List Nat :=
  List.range' 0x09 5 ++ [0x20, 0x22, 0x27] ++ List.range' 0x30 10 ++ [0x85, 0xA0, 0x1680] ++
    List.range' 0x2000 11 ++ [0x2028, 0x2029, 0x202F, 0x205F, 0x3000]

set_option maxRecDepth 4000 in
/-- None of them is a letter. -/
theorem isWordStart_of_mem (h : c.toNat ∈ lookedForFirst) : isWordStart edition c = false := by
  have hall : (lookedForFirst.all fun n => !isWordStart edition (Char.ofNat n)) = true := by decide
  have hnone := List.all_eq_true.mp hall c.toNat h
  rw [Char.ofNat_toNat] at hnone
  simpa using hnone

theorem mem_of_isBlank (h : Text.isBlank c = true) : c.toNat ∈ lookedForFirst := by
  simp [Text.isBlank, Text.inRanges] at h
  simp only [lookedForFirst, List.mem_append, List.mem_range'_1, List.mem_cons, List.not_mem_nil,
    or_false]
  omega

theorem mem_of_isDigit (h : c.isDigit = true) : c.toNat ∈ lookedForFirst := by
  simp only [Char.isDigit, Bool.and_eq_true, decide_eq_true_eq, UInt32.le_iff_toNat_le] at h
  have hn : 48 ≤ c.toNat ∧ c.toNat ≤ 57 := h
  simp only [lookedForFirst, List.mem_append, List.mem_range'_1, List.mem_cons, List.not_mem_nil,
    or_false]
  omega

/-- A word begins with no blank, no digit and no quote. -/
theorem isWordStart_apart (h : isWordStart edition c = true) :
    Text.isBlank c = false ∧ c.isDigit = false ∧ c ≠ '"' ∧ c ≠ '\'' := by
  have hapart : c.toNat ∉ lookedForFirst := by
    intro hmem
    rw [isWordStart_of_mem hmem] at h
    cases h
  refine ⟨?_, ?_, ?_, ?_⟩
  · exact Bool.eq_false_iff.mpr fun hblank => hapart (mem_of_isBlank hblank)
  · exact Bool.eq_false_iff.mpr fun hdigit => hapart (mem_of_isDigit hdigit)
  · rintro rfl
    exact hapart (by decide)
  · rintro rfl
    exact hapart (by decide)

/-! ### Words and identifiers by their characters -/

/-- A letter or underscore, and behind it letters, underscores and numbers. -/
structure IsWord (text : String) (first : Char) (more : List Char) : Prop where
  toList : text.toList = first :: more
  first : isWordStart edition first = true
  more : more.all (isWordPart edition) = true

/-- A word that is no keyword. -/
structure IsIdentifier (name : String) (first : Char) (more : List Char) : Prop
    extends IsWord name first more where
  keyword? : TokenKind.keyword? name = none

/-- A word is one token, of its keyword or an identifier. -/
theorem IsWord.tokensFrom (h : IsWord name c cs) {rest : List Char} (hrest : Closes rest)
    (p : Position) : tokensFrom 0 p (name.toList ++ rest) =
      ⟨(TokenKind.keyword? name).getD .identifier, name, p⟩ ::
        tokensFrom 0 (p.after name.toList) rest := by
  have hwhole : cs.takeWhile (isWordPart edition) = cs :=
    List.takeWhile_eq_self_iff.mpr (List.all_eq_true.mp h.more)
  have htext : String.ofList (c :: cs) = name := by rw [← h.toList, String.ofList_toList]
  have hword : Lexeme.word c cs =
      ⟨(TokenKind.keyword? name).getD .identifier, name, cs.length⟩ := by
    simp only [Lexeme.word, hwhole, htext]
  obtain ⟨hblank, hdigit, hquote⟩ := isWordStart_apart h.first
  rw [h.toList]
  exact tokensFrom_word hblank hdigit hquote h.first h.more hword hrest p

theorem keyword?_ne_identifier (word : String) : TokenKind.keyword? word ≠ some .identifier := by
  unfold TokenKind.keyword?
  split <;> simp

/-- **Identifiers are known by their characters.** -/
theorem isName_iff : IsName name ↔ ∃ first more, IsIdentifier name first more := by
  constructor
  · intro h
    obtain ⟨c, cs, hname, hstart, -, hread⟩ := h.read
    obtain ⟨-, hdigit, hquote⟩ := isWordStart_apart hstart
    have hword := hread [] closes_nil
    rw [List.append_nil, read_eq_word hdigit hquote hstart] at hword
    simp only [Lexeme.word, Lexeme.mk.injEq] at hword
    obtain ⟨hkind, htext, hlength⟩ := hword
    have hwhole : cs.takeWhile (isWordPart edition) = cs :=
      (List.takeWhile_prefix _).eq_of_length hlength
    rw [hwhole] at htext hkind
    rw [htext] at hkind
    refine ⟨c, cs, ⟨hname, hstart, ?_⟩, ?_⟩
    · exact List.all_eq_true.mpr (List.takeWhile_eq_self_iff.mp hwhole)
    · -- no keyword is an identifier
      cases hkeyword : TokenKind.keyword? name with
      | none => rfl
      | some kind =>
        rw [hkeyword, Option.getD_some] at hkind
        exact absurd (hkind ▸ hkeyword) (keyword?_ne_identifier name)
  · rintro ⟨c, cs, h⟩
    have hread := h.toIsWord.tokensFrom closes_nil {}
    rw [List.append_nil] at hread
    rw [IsName, tokens, hread, h.keyword?]
    rfl

/-! ### Identifiers as texts -/

theorem parse_name (h : IsName name) : parse name = .ok [.expression (.identifier name)] := by
  have hchain : Climbs .lowest (Term.expression ⟨false, .identifier name h⟩) [] _ [] :=
    .refl trivial (by simp [Expression.operator?, Term.expression, Atom.expression]) (by decide)
  let chain : Chain := ⟨⟨false, .identifier name h⟩, []⟩
  have hsource : (tokens name).map Token.unplaced = chain.unplaced := h
  exact parse_of_unplaced hchain hsource

/-- The value of an identifier as a text is what it is bound to, no longer on its way out. -/
theorem run_evalText_name (h : IsName name) {scope : ScopeId} {heap : Heap} {v : Value}
    (hbound : heap.lookup? name scope = some v) :
    (evalText name scope).run heap = (.ok v.unwrap, heap) := by
  have hrun : (Program.evaluation [.expression (.identifier name)] scope heap).run = (v, heap) := by
    rw [run_expression_evaluation, Evaluation.run_identifier, hbound]
    rfl
  rw [run_evalText (parse_name h), hrun]

end Expr

namespace Script

open NovelScript.Expr (IsIdentifier IsName ScopeId Heap Value)

/-! ### Variables -/

/-- The editions that names in tags and identifiers in expressions are made of have the character
in the same classes. -/
structure InSameClasses (c : Char) : Prop where
  alphabetic : Text.isAlphabetic nameEdition c = Text.isAlphabetic Expr.edition c
  numeric : Text.isNumeric nameEdition c = Text.isNumeric Expr.edition c

/-- A variable is named by an identifier, if its characters are letters or numbers of both editions
or of none. -/
theorem isVariableName_iff {name : String} (hclasses : ∀ c ∈ name.toList, InSameClasses c) :
    isVariableName name = true ↔ ∃ first more, IsIdentifier name first more := by
  cases hname : name.toList with
  | nil =>
    have hempty : isVariableName name = false := by rw [isVariableName, hname]
    rw [hempty]
    constructor
    · intro h
      cases h
    · rintro ⟨c, cs, h⟩
      have hcons := hname.symm.trans h.toList
      cases hcons
  | cons first more =>
    rw [hname] at hclasses
    obtain ⟨hfirst, hmore⟩ := List.forall_mem_cons.mp hclasses
    have hstart : Expr.isWordStart nameEdition first = Expr.isWordStart Expr.edition first := by
      rw [Expr.isWordStart, Expr.isWordStart, hfirst.alphabetic]
    have hpart : ∀ c ∈ more, Expr.isWordPart nameEdition c = Expr.isWordPart Expr.edition c := by
      intro c hc
      rw [Expr.isWordPart, Expr.isWordPart, (hmore c hc).alphabetic, (hmore c hc).numeric]
    have hparts : more.all (Expr.isWordPart nameEdition) =
        more.all (Expr.isWordPart Expr.edition) := by
      rw [Bool.eq_iff_iff, List.all_eq_true, List.all_eq_true]
      exact forall₂_congr fun c hc => by rw [hpart c hc]
    rw [isVariableName, hname]
    simp only [hstart, hparts, Bool.and_eq_true, Option.isNone_iff_eq_none]
    constructor
    · rintro ⟨⟨h, h'⟩, hkeyword⟩
      exact ⟨first, more, ⟨hname, h, h'⟩, hkeyword⟩
    · rintro ⟨c, cs, h⟩
      obtain ⟨rfl, rfl⟩ := List.cons.inj (hname.symm.trans h.toList)
      exact ⟨⟨h.first, h.more⟩, h.keyword?⟩

/-- **Variables can be read.** The names that tags take for variables are the texts that are read as
one identifier, if the characters of the name are letters or numbers of both editions or of none;
and where such a name is bound, its value as a text of its own is the value it is bound to, or what
that value leads out of a function, and no binding changes. -/
theorem variable_names_are_identifiers {name : String}
    (hclasses : ∀ c ∈ name.toList, InSameClasses c) :
    (isVariableName name = true ↔ IsName name) ∧
      (isVariableName name = true → ∀ (scope : ScopeId) (heap : Heap) (v : Value),
        heap.lookup? name scope = some v →
          (Expr.evalText name scope).run heap = (.ok v.unwrap, heap)) := by
  have hname : isVariableName name = true ↔ IsName name :=
    (isVariableName_iff hclasses).trans Expr.isName_iff.symm
  exact ⟨hname, fun h scope heap v hbound => Expr.run_evalText_name (hname.mp h) hbound⟩

/-- A name with a letter outside ASCII and a digit reads back the text it is bound to. -/
theorem variable_names_are_identifiers_nameWithUmlaut :
    (∀ c ∈ "größe1".toList, InSameClasses c) ∧
      (isVariableName "größe1" = true ↔ IsName "größe1") ∧
        (Expr.evalText "größe1" Heap.root).run
            (Heap.single.set "größe1" (.string "XL") Heap.root) =
          (.ok (.string "XL"), Heap.single.set "größe1" (.string "XL") Heap.root) := by
  have hclasses : ∀ c ∈ "größe1".toList, InSameClasses c := by
    have hsame : ("größe1".toList.all fun c =>
        Text.isAlphabetic nameEdition c == Text.isAlphabetic Expr.edition c &&
          Text.isNumeric nameEdition c == Text.isNumeric Expr.edition c) = true := by decide
    intro c hc
    have heach := List.all_eq_true.mp hsame c hc
    simp only [Bool.and_eq_true, beq_iff_eq] at heach
    exact ⟨heach.1, heach.2⟩
  have hbound : (Heap.single.set "größe1" (.string "XL") Heap.root).lookup? "größe1" Heap.root =
      some (.string "XL") := by
    rw [Heap.lookup?]
    rfl
  obtain ⟨hname, hreads⟩ := variable_names_are_identifiers hclasses
  exact ⟨hclasses, hname, hreads (by decide) Heap.root _ _ hbound⟩

/-- A heap where a variable is bound to a value on its way out of a function. -/
def boundReturn : Heap := Heap.single.set "x" (.returned (.integer 5)) Heap.root

/-- Not every variable reads back as it is bound: a value on its way out of a function leaves the
text, too. -/
theorem not_variables_read_as_bound :
    ¬ ∀ name : String, (∀ c ∈ name.toList, InSameClasses c) →
      (isVariableName name = true ↔ IsName name) ∧
        (isVariableName name = true → ∀ (scope : ScopeId) (heap : Heap) (v : Value),
          heap.lookup? name scope = some v →
            (Expr.evalText name scope).run heap = (.ok v, heap)) := by
  intro hall
  have hclasses : ∀ c ∈ "x".toList, InSameClasses c := by
    rintro c (_ | ⟨_, ⟨⟩⟩)
    exact ⟨by decide, by decide⟩
  obtain ⟨hname, hreads⟩ := hall "x" hclasses
  have hx : isVariableName "x" = true := by decide
  have hbound : boundReturn.lookup? "x" Heap.root = some (.returned (.integer 5)) := by
    rw [Heap.lookup?]
    rfl
  have hread := hreads hx Heap.root boundReturn _ hbound
  rw [Expr.run_evalText_name (hname.mp hx) hbound] at hread
  cases hread

end Script
end NovelScript
