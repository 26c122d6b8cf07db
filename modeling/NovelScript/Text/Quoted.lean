import NovelScript.Text.CharClass

/-!
Quoted text, as messages and listings show it: between double quotes, with everything that
would not show as itself written as an escape.
-/

namespace NovelScript.Text

/-- How a character is written between double quotes. The double quote and the backslash take a
backslash; line feed, tab, return and zero have a letter; what has no glyph of its own is
written by its code point. -/
def escape (c : Char) : List Char :=
  if c = '"' || c = '\\' then ['\\', c]
  else if c = '\n' then ['\\', 'n']
  else if c = '\t' then ['\\', 't']
  else if c = '\r' then ['\\', 'r']
  else if c = '\x00' then ['\\', '0']
  else if isExtending c || !isVisible c then
    ['\\', 'u', '{'] ++ Nat.toDigits 16 c.toNat ++ ['}']
  else [c]

/-- The text between double quotes. -/
def quote (s : String) : String :=
  String.ofList ('"' :: s.toList.flatMap escape ++ ['"'])

end NovelScript.Text
