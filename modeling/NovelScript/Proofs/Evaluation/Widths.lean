import NovelScript.Decimal.Form

/-!
How much room the texts of numbers take. An integer of 32 bits has ten digits at most, and a double
lies on a grid of powers of ten that is not much finer than its own binary places. Main statements:
eleven bytes are enough for the one, eight thousand for the other.
-/

namespace NovelScript

/-! ### Characters and bytes -/

/-- A text takes no more bytes than its characters may take. -/
theorem utf8ByteSize_ofList_le {k : Nat} {cs : List Char} (h : ∀ c ∈ cs, c.utf8Size ≤ k) :
    (String.ofList cs).utf8ByteSize ≤ k * cs.length := by
  induction cs with
  | nil => simp
  | cons c cs ih =>
    obtain ⟨hc, hcs⟩ := List.forall_mem_cons.mp h
    have hrest := ih hcs
    rw [String.ofList_cons, String.utf8ByteSize_append, String.utf8ByteSize_singleton,
      List.length_cons, Nat.mul_succ]
    omega

theorem utf8ByteSize_le (s : String) : s.utf8ByteSize ≤ 4 * s.length := by
  have hchars : ∀ c ∈ s.toList, c.utf8Size ≤ 4 := fun c _ => c.utf8Size_le_four
  have hbytes := utf8ByteSize_ofList_le hchars
  rwa [String.ofList_toList, String.length_toList] at hbytes

/-- Every character takes a byte at least. -/
theorem length_le_utf8ByteSize (s : String) : s.length ≤ s.utf8ByteSize := by
  have hlist : ∀ cs : List Char, cs.length ≤ (String.ofList cs).utf8ByteSize := by
    intro cs
    induction cs with
    | nil => simp
    | cons c cs ih =>
      have hc := c.utf8Size_pos
      rw [String.ofList_cons, String.utf8ByteSize_append, String.utf8ByteSize_singleton,
        List.length_cons]
      omega
  have hbytes := hlist s.toList
  rwa [String.ofList_toList, String.length_toList] at hbytes

theorem utf8Size_of_isDigit {c : Char} (h : c.isDigit) : c.utf8Size = 1 := by
  simp only [Char.isDigit, Bool.and_eq_true, decide_eq_true_eq] at h
  exact Char.utf8Size_eq_one_iff.mpr (UInt32.le_trans h.2 (by decide))

/-! ### Integers -/

/-- A number in decimal takes a byte for each digit. -/
theorem utf8ByteSize_repr_le (n : Nat) : n.repr.utf8ByteSize ≤ (Nat.toDigits 10 n).length := by
  have hone : ∀ c ∈ Nat.toDigits 10 n, c.utf8Size ≤ 1 := by
    intro c hc
    have hdigit := Nat.isDigit_of_mem_toDigits (by decide) (by decide) hc
    exact Nat.le_of_eq (utf8Size_of_isDigit hdigit)
  have hbytes := utf8ByteSize_ofList_le hone
  rwa [Nat.one_mul] at hbytes

/-- The size of an integer of 32 bits has ten digits at most. -/
theorem utf8ByteSize_repr_le_ten {n : Nat} (hn : n ≤ 2147483648) : n.repr.utf8ByteSize ≤ 10 := by
  have hdigits : (Nat.toDigits 10 n).length ≤ 10 :=
    (Nat.length_toDigits_le_iff (by decide) (by decide)).mpr (by omega)
  exact Nat.le_trans (utf8ByteSize_repr_le n) hdigits

/-- **An integer of 32 bits takes eleven bytes at most.** -/
theorem utf8ByteSize_int32_le (n : Int32) : (toString n.toInt).utf8ByteSize ≤ 11 := by
  have hlow := n.le_toInt
  have hhigh := n.toInt_lt
  show (Int.repr n.toInt).utf8ByteSize ≤ 11
  cases hn : n.toInt with
  | ofNat m =>
    have hm : m ≤ 2147483648 := by
      rw [hn] at hhigh
      simp only [Int.ofNat_eq_natCast] at hhigh
      omega
    exact Nat.le_succ_of_le (utf8ByteSize_repr_le_ten hm)
  | negSucc m =>
    have hm : m + 1 ≤ 2147483648 := by
      rw [hn] at hlow
      omega
    have hsign : ("-" : String).utf8ByteSize = 1 := by decide
    have hsize := utf8ByteSize_repr_le_ten hm
    show ("-" ++ (m + 1).repr).utf8ByteSize ≤ 11
    rw [String.utf8ByteSize_append]
    omega

/-! ### Doubles -/

namespace Decimal

variable {b : Binary} {p : Int}

namespace Binary

/-- A number of 53 binary digits, with an exponent as numbers with 64 bits have it. -/
structure IsDouble (b : Binary) : Prop where
  mantissa : b.mantissa < 0x20000000000000
  low : -1074 ≤ b.exponent
  high : b.exponent ≤ 972

theorem isDouble_ofBits (bits : UInt64) : (ofBits bits).IsDouble := by
  unfold ofBits
  simp only
  split
  · constructor <;> simp only <;> omega
  · constructor <;> simp only <;> omega

theorem IsDouble.coarsest (h : b.IsDouble) : -267 ≤ b.coarsest ∧ b.coarsest ≤ 343 := by
  have hlog : b.mantissa.log2 < 53 := by
    by_cases hzero : b.mantissa = 0
    · rw [hzero]
      decide
    · exact (Nat.log2_lt hzero).mpr h.mantissa
  have hlow := h.low
  have hhigh := h.high
  unfold Binary.coarsest
  simp only
  split <;> omega

/-- The point of a grid that is taken is not far above the number. -/
theorem digits_le {digits : Nat} (h : b.nearestOnGrid? p = some digits) :
    digits ≤ 4 * b.mantissa * (powerAbove 2 (b.exponent - 2) * powerBelow 10 p) + 1 := by
  have hbelow := Nat.div_le_self
    (4 * b.mantissa * (powerAbove 2 (b.exponent - 2) * powerBelow 10 p))
    (powerAbove 10 p * powerBelow 2 (b.exponent - 2))
  unfold nearestOnGrid? at h
  simp only at h
  split at h
  · split at h
    · obtain rfl := Option.some.inj h
      omega
    · obtain rfl := Option.some.inj h
      omega
  · obtain rfl := Option.some.inj h
    omega
  · obtain rfl := Option.some.inj h
    omega
  · cases h

/-- Each power of two or ten that a number is made of is one more digit. -/
theorem IsDouble.length_digits (h : b.IsDouble) {digits : Nat}
    (hdigits : b.nearestOnGrid? p = some digits) :
    (Nat.toDigits 10 digits).length ≤ 56 + (b.exponent - 2).toNat + (-p).toNat := by
  refine (Nat.length_toDigits_le_iff (by decide) (by omega)).mpr ?_
  have htwo : powerAbove 2 (b.exponent - 2) ≤ 10 ^ (b.exponent - 2).toNat :=
    Nat.pow_le_pow_left (by decide) _
  have hunit : powerAbove 2 (b.exponent - 2) * powerBelow 10 p ≤
      10 ^ (b.exponent - 2).toNat * 10 ^ (-p).toNat := Nat.mul_le_mul_right _ htwo
  have hmantissa : 4 * b.mantissa < 10 ^ 55 := by
    have := h.mantissa
    omega
  have hdigits' := digits_le hdigits
  have hcentre := Nat.mul_le_mul (Nat.le_of_lt hmantissa) hunit
  have hone : 1 ≤ 10 ^ 55 * (10 ^ (b.exponent - 2).toNat * 10 ^ (-p).toNat) :=
    Nat.mul_pos (by decide) (Nat.mul_pos (Nat.pow_pos (by decide)) (Nat.pow_pos (by decide)))
  have hsplit : 10 ^ (56 + (b.exponent - 2).toNat + (-p).toNat) =
      10 * (10 ^ 55 * (10 ^ (b.exponent - 2).toNat * 10 ^ (-p).toNat)) := by
    rw [Nat.add_assoc, Nat.pow_add, Nat.pow_add 10 _ (-p).toNat]
    omega
  omega

/-- The grid that is found is among those that are tried. -/
theorem firstGrid_eq (b : Binary) : ∀ (n : Nat) (p : Int), b.firstGrid n p = ⟨0, 0⟩ ∨
    ∃ q digits, p - n < q ∧ q ≤ p ∧ b.nearestOnGrid? q = some digits ∧
      b.firstGrid n p = ⟨digits, q⟩ := by
  intro n
  induction n with
  | zero => exact fun p => .inl rfl
  | succ n ih =>
    intro p
    unfold firstGrid
    cases hgrid : b.nearestOnGrid? p with
    | some digits => exact .inr ⟨p, digits, by omega, by omega, hgrid, rfl⟩
    | none =>
      rcases ih (p - 1) with hzero | ⟨q, digits, hlow, hhigh, hq, heq⟩
      · exact .inl hzero
      · exact .inr ⟨q, digits, by omega, by omega, hq, heq⟩

end Binary

/-- Beside its digits, a number with its point in place has a zero for each power of ten, a point
and a decimal. -/
theorem Scaled.length_positional (d : Scaled) (pointed : Bool) :
    (d.positional pointed).length ≤
      (Nat.toDigits 10 d.digits).length + d.exponent.natAbs + 2 := by
  unfold Scaled.positional
  simp only
  split
  · have hpoint : (if pointed then ['.', '0'] else []).length ≤ 2 := by
      cases pointed <;> decide
    simp only [String.length_ofList, List.length_append, List.length_replicate]
    omega
  · simp only [String.length_ofList, List.length_append, List.length_take, List.length_cons,
      List.length_drop, List.length_replicate]
    omega

theorem Binary.IsDouble.length_positional (h : b.IsDouble) (pointed : Bool) :
    (b.shortest.positional pointed).length ≤ 1760 := by
  have hlength := b.shortest.length_positional pointed
  obtain ⟨hlow, hhigh⟩ := h.coarsest
  have hexponent := h.high
  unfold Binary.shortest at hlength ⊢
  rcases b.firstGrid_eq 100 b.coarsest with hzero | ⟨q, digits, hq, hq', hgrid, heq⟩
  · rw [hzero] at hlength ⊢
    have hone : (Nat.toDigits 10 0).length = 1 := by decide
    simp only at hlength
    omega
  · have hdigits := h.length_digits hgrid
    rw [heq] at hlength ⊢
    simp only at hlength
    omega

/-- **A double with its point in place takes eight thousand bytes at most.** -/
theorem utf8ByteSize_write_le (x : Float) : (Form.value.write x).utf8ByteSize ≤ 8000 := by
  have hlength : (Form.value.write x).length ≤ 1761 := by
    have hsize := (Binary.isDouble_ofBits x.toBits).length_positional (Form.value.pointed x)
    have hzero : ((⟨0, 0⟩ : Scaled).positional (Form.value.pointed x)).length ≤ 3 := by
      cases Form.value.pointed x <;> decide
    have hsign : (if x.toBits >>> 63 = 1 then "-" else "").length ≤ 1 := by
      split <;> decide
    have hinf : ("inf" : String).length = 3 := by decide
    unfold Form.write
    split
    · decide
    · simp only [String.length_append]
      generalize (if x.toBits >>> 63 = 1 then "-" else "").length = sign at hsign ⊢
      rw [if_pos (show Form.value.positional x = true from rfl)]
      split
      · omega
      · split <;> omega
  have hbytes := utf8ByteSize_le (Form.value.write x)
  omega

end Decimal
end NovelScript
