/-!
Places in a text. A place counts bytes from zero, and lines and columns from one; a line ends
with its line feed, and a column is a character, not a byte.
-/

namespace NovelScript

/-- A place in a text, between two characters or at one of its ends. -/
structure Position where
  /-- Bytes before this place. -/
  offset : Nat := 0
  line : Nat := 1
  column : Nat := 1
deriving DecidableEq, Repr, Inhabited

namespace Position

/-- The place behind the character `c` that stands at `p`. -/
def next (p : Position) (c : Char) : Position :=
  if c = '\n' then ⟨p.offset + c.utf8Size, p.line + 1, 1⟩
  else ⟨p.offset + c.utf8Size, p.line, p.column + 1⟩

/-- The place behind the characters `cs` that stand at `p`. -/
def after (p : Position) (cs : List Char) : Position := cs.foldl next p

@[simp] theorem after_nil (p : Position) : p.after [] = p := rfl

@[simp] theorem after_cons (p : Position) (c : Char) (cs : List Char) :
    p.after (c :: cs) = (p.next c).after cs := rfl

theorem after_append (p : Position) (cs ds : List Char) :
    p.after (cs ++ ds) = (p.after cs).after ds := List.foldl_append

@[simp] theorem offset_next (p : Position) (c : Char) :
    (p.next c).offset = p.offset + c.utf8Size := by
  unfold next
  split <;> rfl

/-- Characters take the bytes of their text. -/
@[simp] theorem offset_after (cs : List Char) : ∀ p : Position,
    (p.after cs).offset = p.offset + (String.ofList cs).utf8ByteSize := by
  induction cs with
  | nil => exact fun p => rfl
  | cons c cs ih =>
    intro p
    rw [after_cons, ih, offset_next, String.ofList_cons, String.utf8ByteSize_append,
      String.utf8ByteSize_singleton, Nat.add_assoc]

instance : ToString Position := ⟨fun p => s!"{p.line}:{p.column}"⟩

end Position
end NovelScript
