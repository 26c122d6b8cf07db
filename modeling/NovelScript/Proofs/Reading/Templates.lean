import NovelScript.Proofs.Parsing.Digits
import NovelScript.Report.Catalog

/-!
Templates with their places filled in. A template is gone through once; what an argument puts in
place is not looked at again. Main statement: of a template made of literal text and numbered
places, every place becomes its argument, or stays as it is written if there is none, and the text
stays; with no arguments every template stays as it is.
-/

namespace NovelScript.Catalog

variable {arguments : List String} {cs : List Char}

/-- A piece of a template. -/
inductive Piece
  /-- Text with no opening brace. -/
  | literal (text : String) (hopen : '{' ∉ text.toList)
  /-- The place of an argument: its number between braces, with so many zeros in front. -/
  | place (zeros k : Nat)

namespace Piece

/-- How a piece is written in a template. -/
def text : Piece → String
  | literal text _ => text
  | place zeros k => String.ofList ('{' :: (Text.paddedDigits zeros k ++ ['}']))

/-- What stands for a piece in the message. -/
def filled (arguments : List String) (piece : Piece) : String :=
  match piece with
  | literal text _ => text
  | place _ k => arguments[k]?.getD piece.text

end Piece

/-! ### Stretches of a template -/

/-- What is skipped is left out. -/
theorem fill_skip (arguments : List String) (cs rest : List Char) :
    fill arguments cs.length (cs ++ rest) = fill arguments 0 rest := by
  induction cs with
  | nil => rfl
  | cons c cs ih => exact ih

/-- Text with no opening brace stays as it is. -/
theorem fill_literal (hopen : '{' ∉ cs) (rest : List Char) :
    fill arguments 0 (cs ++ rest) = cs ++ fill arguments 0 rest := by
  induction cs with
  | nil => rfl
  | cons c cs ih =>
    obtain ⟨hc, hcs⟩ : c ≠ '{' ∧ '{' ∉ cs := by simpa [eq_comm] using hopen
    rw [List.cons_append, fill, if_neg hc, ih hcs, List.cons_append]

/-- A brace that asks for an argument is replaced by it. -/
theorem fill_argument {text : String} {n : Nat} (h : argument? arguments cs = some (text, n)) :
    fill arguments 0 ('{' :: cs) = text.toList ++ fill arguments n cs := by
  simp only [fill, if_pos, h]

/-- A brace that asks for none stays. -/
theorem fill_brace (h : argument? arguments cs = none) :
    fill arguments 0 ('{' :: cs) = '{' :: fill arguments 0 cs := by
  simp only [fill, if_pos, h]

theorem ne_brace_of_isDigit {c : Char} (h : c.isDigit) : c ≠ '{' ∧ c ≠ '}' := by
  constructor <;> rintro rfl <;> exact absurd h (by decide)

/-- A number in front of a closing brace asks for the argument of this number. -/
theorem argument?_place (hcount : arguments.length ≤ UInt64.size) (zeros k : Nat)
    (rest : List Char) :
    argument? arguments (Text.paddedDigits zeros k ++ ['}'] ++ rest) =
      arguments[k]?.map (·, (Text.paddedDigits zeros k ++ ['}']).length) := by
  have hdigits : ∀ c ∈ Text.paddedDigits zeros k, decide (c ≠ '}') = true := fun c hc =>
    decide_eq_true (ne_brace_of_isDigit (Text.isDigit_of_mem_paddedDigits zeros k c hc)).2
  have hinside : (Text.paddedDigits zeros k ++ ['}'] ++ rest).takeWhile (· ≠ '}') =
      Text.paddedDigits zeros k := by
    rw [List.append_assoc, List.takeWhile_append_of_pos hdigits]
    simp
  have hread : ((Text.readWord64? (String.ofList (Text.paddedDigits zeros k))).bind fun n =>
      arguments[n]?) = arguments[k]? := by
    rw [Text.readWord64?, Text.readNatural?_paddedDigits]
    split
    · rfl
    · -- A number that does not fit a machine word is that of no argument.
      have hk : arguments.length ≤ k := by
        change arguments.length ≤ 18446744073709551616 at hcount
        omega
      rw [List.getElem?_eq_none hk, Option.bind_none]
  rw [argument?]
  simp only [hinside]
  rw [if_pos (by simp), hread, List.length_append, List.length_singleton]

theorem fill_place (hcount : arguments.length ≤ UInt64.size) (zeros k : Nat) (rest : List Char) :
    fill arguments 0 ((Piece.place zeros k).text.toList ++ rest) =
      ((Piece.place zeros k).filled arguments).toList ++ fill arguments 0 rest := by
  have hasked := argument?_place hcount zeros k rest
  rw [Piece.filled, Piece.text, String.toList_ofList, List.cons_append]
  cases hargument : arguments[k]? with
  | some argument =>
    rw [hargument] at hasked
    rw [fill_argument hasked, fill_skip, Option.getD_some]
  | none =>
    have hopen : '{' ∉ Text.paddedDigits zeros k ++ ['}'] := by
      intro hmem
      rcases List.mem_append.mp hmem with hdigit | hclose
      · exact (ne_brace_of_isDigit (Text.isDigit_of_mem_paddedDigits zeros k _ hdigit)).1 rfl
      · exact absurd hclose (by decide)
    rw [hargument] at hasked
    rw [fill_brace hasked, fill_literal hopen, Option.getD_none, String.toList_ofList,
      List.cons_append]

theorem fill_piece (hcount : arguments.length ≤ UInt64.size) (piece : Piece) (rest : List Char) :
    fill arguments 0 (piece.text.toList ++ rest) =
      (piece.filled arguments).toList ++ fill arguments 0 rest := by
  cases piece with
  | literal text hopen => exact fill_literal hopen rest
  | place zeros k => exact fill_place hcount zeros k rest

theorem fill_pieces (hcount : arguments.length ≤ UInt64.size) (pieces : List Piece) :
    fill arguments 0 (String.join (pieces.map Piece.text)).toList =
      (String.join (pieces.map (Piece.filled arguments))).toList := by
  induction pieces with
  | nil => rfl
  | cons piece pieces ih =>
    simp only [List.map_cons, String.join_cons, String.toList_append]
    rw [fill_piece hcount, ih]

/-- With no arguments nothing is filled in. -/
theorem fill_nil (cs : List Char) : fill [] 0 cs = cs := by
  induction cs with
  | nil => rfl
  | cons c cs ih =>
    have hnone : argument? [] cs = none := by simp [argument?]
    by_cases hc : c = '{'
    · rw [hc, fill_brace hnone, ih]
    · rw [fill, if_neg hc, ih]

/-- **Templates are filled in at one go**, as long as a machine word counts the arguments: places
with an argument become it and everything else stays, as does every template without arguments. -/
theorem format_fills (catalog : Catalog) (message : Message) :
    (∀ (arguments : List String) (pieces : List Piece), arguments.length ≤ UInt64.size →
      catalog.template message = String.join (pieces.map Piece.text) →
      catalog.format message arguments = String.join (pieces.map (Piece.filled arguments))) ∧
    catalog.format message [] = catalog.template message := by
  refine ⟨fun arguments pieces hcount htemplate => ?_, ?_⟩
  · rw [format, htemplate, fill_pieces hcount, String.ofList_toList]
  · rw [format, fill_nil, String.ofList_toList]

/-- A template with places in another order, one of them for an argument that there is not. -/
def reordered : Catalog := set .unknownTag "\x7b1\x7d\x7d for \x7b000\x7d\x7b7\x7d" {}

theorem format_fills_reordered :
    ["a", "\x7b0\x7d"].length ≤ UInt64.size ∧
    reordered.format .unknownTag ["a", "\x7b0\x7d"] = "\x7b0\x7d\x7d for a\x7b7\x7d" := by
  have hcount : ["a", "\x7b0\x7d"].length ≤ UInt64.size := by decide
  have hfills := (format_fills reordered .unknownTag).1 ["a", "\x7b0\x7d"]
    [.place 0 1, .literal "\x7d for " (by decide), .place 2 0, .place 0 7] hcount (by decide)
  exact ⟨hcount, hfills⟩

end NovelScript.Catalog
