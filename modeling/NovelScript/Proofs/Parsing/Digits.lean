import NovelScript.Text.Numeral

/-!
Rows of decimal digits. The rows of a number are its digits behind any zeros, and every reader of
numbers takes such a row for this number, as far as its range goes.
-/

namespace NovelScript.Text

variable {c : Char} {cs : List Char}

/-! ### Rows of digits -/

/-- A row of at least one digit is its first digit and further ones. -/
theorem exists_digit_cons (hne : cs ≠ []) (hcs : ∀ c ∈ cs, c.isDigit) :
    ∃ d ds, cs = d :: ds ∧ d.isDigit ∧ ∀ c ∈ ds, c.isDigit := by
  obtain ⟨d, ds, rfl⟩ := List.exists_cons_of_ne_nil hne
  exact ⟨d, ds, rfl, List.forall_mem_cons.mp hcs⟩

theorem isDigit_of_mem_toDigits (k : Nat) : ∀ c ∈ Nat.toDigits 10 k, c.isDigit :=
  fun _ hc => Nat.isDigit_of_mem_toDigits (by decide) (by decide) hc

theorem digitsValue_toDigits (k : Nat) : digitsValue (Nat.toDigits 10 k) = k :=
  Nat.ofDigitChars_toDigits (by decide) (by decide)

/-- A natural number in decimal, with so many zeros in front of it. -/
def paddedDigits (zeros k : Nat) : List Char := List.replicate zeros '0' ++ Nat.toDigits 10 k

theorem paddedDigits_ne_nil (zeros k : Nat) : paddedDigits zeros k ≠ [] :=
  List.append_ne_nil_of_right_ne_nil _ Nat.toDigits_ne_nil

theorem isDigit_of_mem_paddedDigits (zeros k : Nat) : ∀ c ∈ paddedDigits zeros k, c.isDigit := by
  intro c hc
  rcases List.mem_append.mp hc with hzero | hdigit
  · rw [List.eq_of_mem_replicate hzero]
    rfl
  · exact isDigit_of_mem_toDigits _ c hdigit

/-- Zeros in front of digits make no difference to their value. -/
theorem digitsValue_replicate (zeros : Nat) (cs : List Char) :
    digitsValue (List.replicate zeros '0' ++ cs) = digitsValue cs := by
  induction zeros with
  | zero => rfl
  | succ zeros ih => exact ih

theorem digitsValue_paddedDigits (zeros k : Nat) : digitsValue (paddedDigits zeros k) = k :=
  (digitsValue_replicate zeros _).trans (digitsValue_toDigits _)

/-! ### Readers of numbers -/

theorem ne_sign_of_isDigit (h : c.isDigit) : c ≠ '-' ∧ c ≠ '+' := by
  constructor <;> rintro rfl <;> exact absurd h (by decide)

theorem readDigits?_of_digits (hne : cs ≠ []) (hcs : ∀ c ∈ cs, c.isDigit) :
    readDigits? cs = some (digitsValue cs) := by
  have hall : cs.all Char.isDigit := List.all_eq_true.mpr hcs
  simp [readDigits?, hall, hne]

/-- A row of at least one digit is a whole number. -/
theorem readInteger?_of_digits (hne : cs ≠ []) (hcs : ∀ c ∈ cs, c.isDigit) :
    readInteger? (String.ofList cs) = some (digitsValue cs : Int) := by
  rw [readInteger?, String.toList_ofList]
  split
  · exact absurd rfl (ne_sign_of_isDigit (hcs '-' List.mem_cons_self)).1
  · exact absurd rfl (ne_sign_of_isDigit (hcs '+' List.mem_cons_self)).2
  · simp [readDigits?_of_digits hne hcs]

/-- Behind a minus sign it is the opposite number. -/
theorem readInteger?_of_minus (hne : cs ≠ []) (hcs : ∀ c ∈ cs, c.isDigit) :
    readInteger? ("-" ++ String.ofList cs) = some (-(digitsValue cs : Int)) := by
  simp [readInteger?, readDigits?_of_digits hne hcs]

theorem readInteger?_digits (k : Nat) :
    readInteger? (String.ofList (Nat.toDigits 10 k)) = some (k : Int) := by
  rw [readInteger?_of_digits Nat.toDigits_ne_nil (isDigit_of_mem_toDigits k), digitsValue_toDigits]

theorem readInteger?_negative (k : Nat) :
    readInteger? ("-" ++ String.ofList (Nat.toDigits 10 k)) = some (-(k : Int)) := by
  rw [readInteger?_of_minus Nat.toDigits_ne_nil (isDigit_of_mem_toDigits k), digitsValue_toDigits]

/-- A number that fits is read, and no other. -/
theorem readInt32?_of_readInteger? {s : String} {z : Int} (h : readInteger? s = some z) :
    readInt32? s = if -2147483648 ≤ z ∧ z < 2147483648 then some (Int32.ofInt z) else none := by
  rw [readInt32?, h, Option.bind_some]

theorem readInt32?_of_toInt {s : String} {n : Int32} (h : readInteger? s = some n.toInt) :
    readInt32? s = some n := by
  rw [readInt32?_of_readInteger? h, if_pos ⟨n.le_toInt, n.toInt_lt⟩, Int32.ofInt_toInt]

/-- A natural number below the limit is read, whatever zeros lead it, and no other. -/
theorem readNatural?_paddedDigits (limit zeros k : Nat) :
    readNatural? limit (String.ofList (paddedDigits zeros k)) =
      if k < limit then some k else none := by
  have hdigits := isDigit_of_mem_paddedDigits zeros k
  have hread := readDigits?_of_digits (paddedDigits_ne_nil zeros k) hdigits
  rw [digitsValue_paddedDigits] at hread
  rw [readNatural?, String.toList_ofList]
  split
  · rename_i heq
    exact absurd rfl (ne_sign_of_isDigit (hdigits '+' (heq ▸ List.mem_cons_self))).2
  · rw [hread]
    by_cases hk : k < limit <;> simp [Option.filter, hk]

end NovelScript.Text
