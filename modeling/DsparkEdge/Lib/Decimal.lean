import Mathlib.Data.Char
import Mathlib.Data.List.Lex
import Mathlib.Data.Nat.Digits.Lemmas
import Mathlib.Tactic.Common

/-! Zero-padded decimal numerals, as `printf("%0*d")` writes them: at least `w` digits, most
    significant first. As long as the numbers fit their width, the order of the numerals as text is
    the order of the numbers; past it, a number comes behind a smaller one of fewer digits only if its
    leading digits do.

        73 ↦ 0073        padded (w + 1) n = padded w (n / 10) ++ [n % 10]       -/

namespace DsparkEdge.Decimal

/-- The numeral of `n`, padded with zeros to `w` characters. -/
def padded (w n : ℕ) : List Char :=
  let ds := (Nat.digits 10 n).reverse.map Nat.digitChar
  List.replicate (w - ds.length) '0' ++ ds

example : padded 4 73 = ['0', '0', '7', '3'] := by decide

/-- The last digit comes last. -/
theorem padded_succ (w n : ℕ) : padded (w + 1) n = padded w (n / 10) ++ [Nat.digitChar (n % 10)] := by
  rcases Nat.eq_zero_or_pos n with rfl | hpos
  · simp [padded, List.replicate_succ']
  · simp [padded, Nat.digits_def' (by decide : 1 < 10) hpos]

theorem length_padded : ∀ {w n : ℕ}, n < 10 ^ w → (padded w n).length = w
  | 0, n, h => by
    rw [Nat.lt_one_iff.mp h]; rfl
  | w + 1, n, h => by
    rw [padded_succ, List.length_append, length_padded (by omega), List.length_singleton]

theorem digitChar_isDigit : ∀ d < 10, (Nat.digitChar d).isDigit = true := by decide

theorem digitChar_lt : ∀ d < 10, ∀ c < d, Nat.digitChar c < Nat.digitChar d := by decide

/-- Every character of a numeral is a digit. -/
theorem isDigit_padded (w n : ℕ) : ∀ c ∈ padded w n, c.isDigit = true := by
  intro c hc
  rcases List.mem_append.mp hc with hc | hc
  · rw [List.eq_of_mem_replicate hc]; rfl
  · obtain ⟨d, hd, rfl⟩ := List.mem_map.mp hc
    exact digitChar_isDigit d (Nat.digits_lt_base (by decide) (List.mem_reverse.mp hd))

/-- Texts of one length are ordered whatever follows them. -/
theorem append_lt_append : ∀ {xs ys : List Char}, xs.length = ys.length → xs < ys →
    ∀ us vs, xs ++ us < ys ++ vs
  | [], [], _, h, _, _ => absurd h (List.not_lt_nil _)
  | x :: xs, y :: ys, hlen, h, us, vs => by
    rw [List.cons_append, List.cons_append, List.cons_lt_cons_iff]
    rcases List.cons_lt_cons_iff.mp h with hlt | ⟨rfl, hlt⟩
    · exact Or.inl hlt
    · exact Or.inr ⟨rfl, append_lt_append (Nat.succ.inj hlen) hlt us vs⟩

/-- The text order of numerals that fit is the order of the numbers. -/
theorem padded_lt : ∀ {w m n : ℕ}, m < n → n < 10 ^ w → padded w m < padded w n
  | 0, m, n, h, hn => by
    rw [pow_zero] at hn
    omega
  | w + 1, m, n, h, hn => by
    rw [padded_succ, padded_succ]
    rcases lt_or_eq_of_le (Nat.div_le_div_right h.le : m / 10 ≤ n / 10) with hlt | heq
    · have hfit : n / 10 < 10 ^ w := by omega
      refine append_lt_append ?_ (padded_lt hlt hfit) _ _
      rw [length_padded hfit, length_padded (hlt.trans hfit)]
    · rw [heq]
      refine List.append_left_lt (List.cons_lt_cons_iff.mpr (Or.inl ?_))
      exact digitChar_lt _ (Nat.mod_lt _ (by decide)) _ (by omega)

/-! ### Past the width -/

/-- How many characters the numeral of `n` has. -/
def width (w n : ℕ) : ℕ := max w (Nat.digits 10 n).length

theorem length_padded_eq (w n : ℕ) : (padded w n).length = width w n := by
  simp only [padded, width, List.length_append, List.length_replicate, List.length_map,
    List.length_reverse]
  omega

theorem lt_pow_width (w n : ℕ) : n < 10 ^ width w n :=
  (Nat.digits_length_le_iff (by decide) n).mp (le_max_right _ _)

theorem width_mono {w i k : ℕ} (h : i ≤ k) : width w i ≤ width w k :=
  max_le_max le_rfl (Nat.le_length_digits_le 10 i k h)

/-- A number with more digits than its width is not padded. -/
theorem padded_width (w n : ℕ) : padded w n = padded (width w n) n := by
  simp only [padded, width, List.length_map, List.length_reverse]
  rw [show w - (Nat.digits 10 n).length =
    max w (Nat.digits 10 n).length - (Nat.digits 10 n).length by omega]

theorem width_of_fit {w n : ℕ} (h : n < 10 ^ w) : width w n = w :=
  max_eq_left ((Nat.digits_length_le_iff (by decide) n).mpr h)

/-- A number of `d + 1` digits. -/
theorem width_of {w d n : ℕ} (hw : w ≤ d + 1) (hlo : 10 ^ d ≤ n) (hhi : n < 10 ^ (d + 1)) :
    width w n = d + 1 :=
  le_antisymm (max_le hw ((Nat.digits_length_le_iff (by decide) n).mpr hhi))
    (le_max_of_le_right ((Nat.lt_digits_length_iff (by decide) n).mpr hlo))

theorem padded_injective {w m n : ℕ} (h : padded w m = padded w n) : m = n := by
  have hlen := congrArg List.length h
  rw [length_padded_eq, length_padded_eq] at hlen
  rw [padded_width w m, padded_width w n, hlen] at h
  have hm := lt_pow_width w m
  rw [hlen] at hm
  rcases Nat.lt_trichotomy m n with hlt | heq | hgt
  · exact absurd h (ne_of_lt (padded_lt hlt (lt_pow_width w n)))
  · exact heq
  · exact absurd h.symm (ne_of_lt (padded_lt hgt hm))

/-- Numbers of one width are in order whatever follows them. -/
theorem padded_lt_of_width {w i k : ℕ} (h : i < k) (hw : width w i = width w k) (us vs : List Char) :
    padded w i ++ us < padded w k ++ vs := by
  rw [padded_width w i, padded_width w k, hw]
  have hk := lt_pow_width w k
  refine append_lt_append ?_ (padded_lt h hk) _ _
  rw [length_padded hk, length_padded (h.trans hk)]

/-- The leading digits of `k`, as many as `i` has characters. -/
def leading (w i k : ℕ) : ℕ := k / 10 ^ (width w k - width w i)

/-- The leading digits of a numeral come first, and a digit follows them. -/
theorem padded_add (w m n : ℕ) : ∃ d < 10, ∃ ds,
    padded (w + (m + 1)) n = padded w (n / 10 ^ (m + 1)) ++ Nat.digitChar d :: ds := by
  induction m generalizing n with
  | zero => exact ⟨n % 10, Nat.mod_lt n (by decide), [], by rw [padded_succ, pow_one]⟩
  | succ m ih =>
    obtain ⟨d, hd, ds, heq⟩ := ih (n / 10)
    refine ⟨d, hd, ds ++ [Nat.digitChar (n % 10)], ?_⟩
    rw [← Nat.add_assoc, padded_succ, heq, Nat.div_div_eq_div_mul, ← pow_succ', List.append_assoc,
      List.cons_append]

theorem padded_leading {w i k : ℕ} (h : width w i < width w k) : leading w i k < 10 ^ width w i ∧
    ∃ d < 10, ∃ ds, padded w k = padded (width w i) (leading w i k) ++ Nat.digitChar d :: ds := by
  obtain ⟨m, hm⟩ : ∃ m, width w k = width w i + (m + 1) := ⟨width w k - width w i - 1, by omega⟩
  have hk := lt_pow_width w k
  rw [leading, padded_width w k, hm, Nat.add_sub_cancel_left]
  rw [hm, pow_add, Nat.mul_comm] at hk
  exact ⟨Nat.div_lt_of_lt_mul hk, padded_add _ m k⟩

/-- A number comes before a smaller one that is above its leading digits. -/
theorem padded_lt_of_leading {w i k : ℕ} (h : width w i < width w k) (hlead : leading w i k < i)
    (us vs : List Char) : padded w k ++ us < padded w i ++ vs := by
  obtain ⟨hfit, d, -, ds, hsplit⟩ := padded_leading h
  have hi := lt_pow_width w i
  rw [hsplit, List.append_assoc, padded_width w i]
  refine append_lt_append ?_ (padded_lt hlead hi) _ _
  rw [length_padded hi, length_padded hfit]

/-- `i` has as many characters as `k`, or is below the leading digits of `k`. -/
def Precedes (w i k : ℕ) : Prop := width w i = width w k ∨ i < leading w i k

instance (w i k : ℕ) : Decidable (Precedes w i k) := inferInstanceAs (Decidable (_ ∨ _))

theorem digitChar_lt_underscore : ∀ d < 10, Nat.digitChar d < '_' := by decide

/-- Of two numbers the smaller one comes first, as text between others and before an underscore,
    exactly if it precedes. -/
theorem padded_le_iff_precedes {w i k : ℕ} (h : i < k) (pre us vs : List Char) :
    pre ++ (padded w i ++ '_' :: us) ≤ pre ++ (padded w k ++ '_' :: vs) ↔ Precedes w i k := by
  rcases Nat.eq_or_lt_of_le (width_mono (w := w) h.le) with heq | hlt
  · exact iff_of_true (le_of_lt (List.append_left_lt (padded_lt_of_width h heq _ _))) (Or.inl heq)
  · rw [Precedes, or_iff_right hlt.ne]
    obtain ⟨hfit, d, hd, ds, hsplit⟩ := padded_leading hlt
    have hi := lt_pow_width w i
    rcases Nat.lt_trichotomy i (leading w i k) with hbefore | hsame | hafter
    · refine iff_of_true (le_of_lt (List.append_left_lt ?_)) hbefore
      rw [hsplit, List.append_assoc, padded_width w i]
      refine append_lt_append ?_ (padded_lt hbefore hfit) _ _
      rw [length_padded hi, length_padded hfit]
    · -- the underscore behind the smaller one meets a digit
      refine iff_of_false (not_le_of_gt (List.append_left_lt ?_)) (Nat.not_lt_of_ge hsame.ge)
      rw [hsplit, List.append_assoc, padded_width w i, ← hsame]
      exact List.append_left_lt (List.cons_lt_cons_iff.mpr (Or.inl (digitChar_lt_underscore d hd)))
    · refine iff_of_false (not_le_of_gt (List.append_left_lt ?_)) (Nat.lt_asymm hafter)
      exact padded_lt_of_leading hlt hafter _ _

/-- Past the width, `10 ^ d` does not come after `10 ^ d - 1`. -/
theorem leading_pow {w d : ℕ} (hw : w ≤ d) (hd : 0 < d) :
    width w (10 ^ d - 1) < width w (10 ^ d) ∧ leading w (10 ^ d - 1) (10 ^ d) < 10 ^ d - 1 := by
  obtain ⟨d, rfl⟩ := Nat.exists_eq_succ_of_ne_zero (Nat.ne_of_gt hd)
  have hpow : 10 ^ (d + 1) = 10 ^ d * 10 := pow_succ 10 d
  have hpos : 0 < 10 ^ d := Nat.pow_pos (by decide)
  have hnines : width w (10 ^ (d + 1) - 1) = d + 1 := width_of hw (by omega) (by omega)
  have htens : width w (10 ^ (d + 1)) = d + 1 + 1 :=
    width_of (by omega) le_rfl (Nat.pow_lt_pow_right (by decide) (by omega))
  have hlead : leading w (10 ^ (d + 1) - 1) (10 ^ (d + 1)) = 10 ^ d := by
    rw [leading, hnines, htens, Nat.add_sub_cancel_left, pow_one, hpow, Nat.mul_div_cancel _ (by decide)]
  rw [hnines, htens, hlead]
  omega

/-- Counting from `first`, `k` numbers pass no power of ten from `10 ^ w` on. -/
def SameWidth (w first k : ℕ) : Prop := ∀ d, w ≤ d → 10 ^ d < first + k → 10 ^ d ≤ first

/-- Numbers that pass none are of one width. -/
theorem SameWidth.width_eq {w first k : ℕ} (h : SameWidth w first k) {i j : ℕ} (hi : first ≤ i)
    (hij : i < j) (hj : j < first + k) : width w i = width w j := by
  by_cases hfit : j < 10 ^ w
  · rw [width_of_fit hfit, width_of_fit (hij.trans hfit)]
  · obtain ⟨d, hd⟩ : ∃ d, (Nat.digits 10 j).length = d + 1 :=
      Nat.exists_eq_succ_of_ne_zero (Nat.ne_of_gt ((Nat.lt_digits_length_iff (by decide) j).mpr (by
        rw [pow_zero]; omega)))
    have hlo : 10 ^ d ≤ j := (Nat.lt_digits_length_iff (by decide) j).mp (by omega)
    have hhi : j < 10 ^ (d + 1) := (Nat.digits_length_le_iff (by decide) j).mp (by omega)
    have hwd : w ≤ d := by
      by_contra hlt
      exact hfit (hhi.trans_le (Nat.pow_le_pow_right (by decide) (by omega)))
    rw [width_of (by omega) hlo hhi,
      width_of (by omega) ((h d hwd (by omega)).trans hi) (hij.trans hhi)]

/-- Names that are numbered within a text are in order exactly if their numbers pass none. -/
theorem pairwise_named_iff {w first k : ℕ} (hw : 0 < w) (pre suf : List Char) :
    ((List.range' first k).map fun n => pre ++ (padded w n ++ suf)).Pairwise (· ≤ ·) ↔
      SameWidth w first k := by
  rw [List.pairwise_map]
  constructor
  · intro hsorted d hd hlt
    by_contra hpass
    -- the two numbers on both sides of the power stand next to each other
    have hnext := List.pairwise_iff_getElem.mp hsorted (10 ^ d - 1 - first) (10 ^ d - first)
      (by rw [List.length_range']; omega) (by rw [List.length_range']; omega) (by omega)
    simp only [List.getElem_range', Nat.one_mul] at hnext
    rw [show first + (10 ^ d - 1 - first) = 10 ^ d - 1 by omega,
      show first + (10 ^ d - first) = 10 ^ d by omega] at hnext
    obtain ⟨hwidth, hlead⟩ := leading_pow hd (hw.trans_le hd)
    exact absurd (List.append_left_lt (padded_lt_of_leading hwidth hlead suf suf)) (not_lt_of_ge hnext)
  · intro hsame
    refine List.Pairwise.imp_of_mem ?_ (List.pairwise_lt_range' (s := first) (n := k))
    intro i j hi hj hij
    have hlo := (List.mem_range'_1.mp hi).1
    have hhi := (List.mem_range'_1.mp hj).2
    exact le_of_lt (List.append_left_lt (padded_lt_of_width hij (hsame.width_eq hlo hij hhi) suf suf))

end DsparkEdge.Decimal
