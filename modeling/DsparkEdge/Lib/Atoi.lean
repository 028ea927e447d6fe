import Mathlib.Data.Int.Notation
import Mathlib.Data.List.TakeWhile
import Mathlib.Tactic.Common
import Mathlib.Tactic.Linarith

/-! Reading a decimal number the way `atoi` does: as `strtol` with a `long` of 64 bits, cut to an `int`.

        blanks, sign, digits, anything       "  -12ab" ↦ -12       "ab" ↦ 0       "4294967297" ↦ 1

    What `strtol` cannot represent it saturates. A number that is printed is read back. -/

namespace DsparkEdge.Atoi

/-- `isspace` in the C locale. -/
def isSpace (c : Char) : Bool := c.toNat = 0x20 || (0x09 ≤ c.toNat && c.toNat ≤ 0x0D)

/-- The number that the digits at the front spell, 0 if there is none. -/
def magnitude (s : List Char) : ℕ := Nat.ofDigitChars 10 (s.takeWhile Char.isDigit) 0

def strtol (s : List Char) : ℤ :=
  match s.dropWhile isSpace with
  | '-' :: s => max (-(magnitude s : ℤ)) (-2 ^ 63)
  | '+' :: s => min (magnitude s : ℤ) (2 ^ 63 - 1)
  | s => min (magnitude s : ℤ) (2 ^ 63 - 1)

def atoi (s : String) : ℤ := (strtol s.toList).bmod (2 ^ 32)

example : atoi "  -12ab" = -12 ∧ atoi "ab" = 0 ∧ atoi "4294967297" = 1 := by decide

/-- The range of an `int`. -/
def FitsInt (n : ℤ) : Prop := -2 ^ 31 ≤ n ∧ n < 2 ^ 31

theorem magnitude_toDigits (n : ℕ) : magnitude (Nat.toDigits 10 n) = n := by
  have hall : ∀ c ∈ Nat.toDigits 10 n, c.isDigit = true := fun c hc =>
    Nat.isDigit_of_mem_toDigits (by decide) (by decide) hc
  rw [magnitude, List.takeWhile_eq_self_iff.mpr hall, Nat.ofDigitChars_toDigits (by decide) (by decide)]

theorem strtol_nat (n : ℕ) : strtol (Nat.toDigits 10 n) = min (n : ℤ) (2 ^ 63 - 1) := by
  have hmag := magnitude_toDigits n
  obtain ⟨c, s, hs⟩ := List.exists_cons_of_ne_nil (Nat.toDigits_ne_nil (n := n) (b := 10))
  have hdigit : c.isDigit = true := by
    refine Nat.isDigit_of_mem_toDigits (b := 10) (n := n) (by decide) (by decide) ?_
    rw [hs]
    exact List.mem_cons_self
  have hne : c ≠ '-' ∧ c ≠ '+' ∧ isSpace c = false := by
    refine ⟨?_, ?_, ?_⟩
    · rintro rfl
      exact absurd hdigit (by decide)
    · rintro rfl
      exact absurd hdigit (by decide)
    · have hbounds : 48 ≤ c.toNat := by
        simp only [Char.isDigit, Bool.and_eq_true, decide_eq_true_eq] at hdigit
        exact hdigit.1
      simp only [isSpace, Bool.or_eq_false_iff, Bool.and_eq_false_iff, decide_eq_false_iff_not]
      omega
  rw [hs] at hmag ⊢
  rw [strtol, List.dropWhile_cons_of_neg (by simp [hne.2.2])]
  split
  · rename_i heq
    exact absurd (List.cons.inj heq).1 hne.1
  · rename_i heq
    exact absurd (List.cons.inj heq).1 hne.2.1
  · rw [hmag]

theorem strtol_neg (n : ℕ) : strtol ('-' :: Nat.toDigits 10 n) = max (-(n : ℤ)) (-2 ^ 63) := by
  rw [strtol, List.dropWhile_cons_of_neg (by decide)]
  exact congrArg (fun k : ℕ => max (-(k : ℤ)) (-2 ^ 63)) (magnitude_toDigits n)

theorem strtol_toString {n : ℤ} (hlow : -2 ^ 63 ≤ n) (hhigh : n < 2 ^ 63) : strtol (toString n).toList = n := by
  cases n with
  | ofNat n =>
    have hlist : (toString (Int.ofNat n)).toList = Nat.toDigits 10 n := Nat.toList_repr
    rw [hlist, strtol_nat]
    simp only [Int.ofNat_eq_natCast] at hhigh ⊢
    omega
  | negSucc n =>
    have hlist : (toString (Int.negSucc n)).toList = '-' :: Nat.toDigits 10 (n + 1) := by
      rw [← Nat.toList_repr]
      exact String.toList_append
    rw [hlist, strtol_neg]
    omega

/-- A printed `int` is read back. -/
theorem atoi_toString {n : ℤ} (h : FitsInt n) : atoi (toString n) = n := by
  obtain ⟨hlow, hhigh⟩ := h
  rw [atoi, strtol_toString (by omega) (by omega)]
  exact Int.bmod_eq_of_le (by omega) (by omega)

/-- A printed `unsigned int` is read back if it is an `int`. -/
theorem atoi_toString_unsigned {n : ℤ} (hlow : 0 ≤ n) (hhigh : n < 2 ^ 32) :
    atoi (toString n) = n ↔ n < 2 ^ 31 := by
  rw [atoi, strtol_toString (by omega) (by omega), Int.bmod_def]
  omega

/-- It has ten digits at most. -/
theorem length_toString_unsigned {n : ℕ} (h : n < 2 ^ 32) : (toString (n : ℤ)).toList.length ≤ 10 := by
  have hlist : (toString (n : ℤ)).toList = Nat.toDigits 10 n := Nat.toList_repr
  rw [hlist, Nat.length_toDigits_le_iff (by decide) (by decide)]
  omega

end DsparkEdge.Atoi
