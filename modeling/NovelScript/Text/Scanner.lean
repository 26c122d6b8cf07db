import NovelScript.Text.Position

/-!
A forward reader over a text, which knows the place of the next unread character and gives back
the text between any two places it has been at.
-/

namespace NovelScript

/-- A reader over a text. -/
structure Scanner where
  /-- The whole text. -/
  source : String
  /-- The characters not read yet. -/
  rest : List Char
  /-- The place of the next unread character. -/
  position : Position
deriving Repr

namespace Scanner

/-- The reader at the start of a text. -/
def ofString (source : String) : Scanner := ⟨source, source.toList, {}⟩

/-- Whether everything has been read. -/
def atEnd (s : Scanner) : Bool := s.rest.isEmpty

/-- The next unread character. -/
def peek? (s : Scanner) : Option Char := s.rest.head?

/-- The character behind the next unread one. -/
def peekSecond? (s : Scanner) : Option Char := s.rest.tail.head?

/-- Passes over the next `n` characters. -/
def skip (n : Nat) (s : Scanner) : Scanner :=
  { s with rest := s.rest.drop n, position := s.position.after (s.rest.take n) }

/-- Reads one character. -/
def advance? (s : Scanner) : Option (Char × Scanner) := s.rest.head?.map (·, s.skip 1)

/-- Passes over `c` if it is next. -/
def eat? (c : Char) (s : Scanner) : Option Scanner :=
  if s.peek? = some c then some (s.skip 1) else none

/-- Reads the longest run of characters in the class `p`. -/
def takeWhile (p : Char → Bool) (s : Scanner) : List Char × Scanner :=
  (s.rest.takeWhile p,
    { s with rest := s.rest.dropWhile p, position := s.position.after (s.rest.takeWhile p) })

/-- Passes over the longest run of characters in the class `p`. -/
def skipWhile (p : Char → Bool) (s : Scanner) : Scanner := (s.takeWhile p).2

@[simp] theorem rest_skip (n : Nat) (s : Scanner) : (s.skip n).rest = s.rest.drop n := rfl

@[simp] theorem rest_takeWhile (p : Char → Bool) (s : Scanner) :
    (s.takeWhile p).2.rest = s.rest.dropWhile p := rfl

@[simp] theorem rest_skipWhile (p : Char → Bool) (s : Scanner) :
    (s.skipWhile p).rest = s.rest.dropWhile p := rfl

/-- The characters that fill the first `n` bytes. -/
def firstBytes : Nat → List Char → List Char
  | 0, _ => []
  | _, [] => []
  | n, c :: cs => c :: firstBytes (n - c.utf8Size) cs

/-- The characters behind the first `n` bytes. -/
def behindBytes : Nat → List Char → List Char
  | 0, cs => cs
  | _, [] => []
  | n, c :: cs => behindBytes (n - c.utf8Size) cs

/-- The text between two places. -/
def slice (s : Scanner) (start stop : Position) : String :=
  String.ofList (firstBytes (stop.offset - start.offset) (behindBytes start.offset s.source.toList))

/-- The text between a place and the next unread character. -/
def sliceFrom (s : Scanner) (start : Position) : String := s.slice start s.position

/-- The text that was read between an earlier state of the reader and a later one. -/
def textTo (start stop : Scanner) : String :=
  String.ofList (firstBytes (stop.position.offset - start.position.offset) start.rest)

end Scanner
end NovelScript
