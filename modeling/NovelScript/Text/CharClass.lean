import NovelScript.Text.Alphabetic
import NovelScript.Text.Extending
import NovelScript.Text.Invisible
import NovelScript.Text.Numeric

/-!
The character classes of the two languages. Letters, numbers and blanks are those of Unicode;
on ASCII they are the usual ones.
-/

namespace NovelScript.Text

/-- Whether a code point lies in one of the ascending ranges. -/
def inRanges : List (Nat × Nat) → Nat → Bool
  | [], _ => false
  | (first, last) :: ranges, n =>
    if n < first then false else n ≤ last || inRanges ranges n

/-- White space: the characters with the property `White_Space`. -/
def isBlank (c : Char) : Bool :=
  let n := c.toNat
  inRanges [(0x09, 0x0D), (0x20, 0x20), (0x85, 0x85), (0xA0, 0xA0), (0x1680, 0x1680),
    (0x2000, 0x200A), (0x2028, 0x2029), (0x202F, 0x202F), (0x205F, 0x205F), (0x3000, 0x3000)] n

/-- The editions of Unicode that letters and numbers are taken from. The later one has more. -/
inductive Edition
  | sixteen | seventeen
deriving DecidableEq, Repr

/-- Letters: the characters with the property `Alphabetic`. -/
def isAlphabetic (edition : Edition) (c : Char) : Bool :=
  c.isAlpha || inRanges alphabeticRanges c.toNat ||
    edition = .seventeen && inRanges addedAlphabeticRanges c.toNat

/-- Numbers: the characters of general category `N`. -/
def isNumeric (edition : Edition) (c : Char) : Bool :=
  c.isDigit || inRanges numericRanges c.toNat ||
    edition = .seventeen && inRanges addedNumericRanges c.toNat

/-- Characters that attach to the one before them without a width of their own. -/
def isExtending (c : Char) : Bool := inRanges extendingRanges c.toNat

/-- Characters that show a glyph, the space among them. -/
def isVisible (c : Char) : Bool :=
  if c.toNat < 0x80 then 0x20 ≤ c.toNat && c.toNat < 0x7F
  else !inRanges invisibleRanges c.toNat

/-- The text without the blanks at its two ends. -/
def trimBlanks (cs : List Char) : List Char :=
  ((cs.dropWhile isBlank).reverse.dropWhile isBlank).reverse

/-- The text without the blanks at its two ends. -/
def trim (s : String) : String := String.ofList (trimBlanks s.toList)

/-- The text with every ASCII capital made small. -/
def lowercase (s : String) : String := String.ofList (s.toList.map Char.toLower)

end NovelScript.Text
