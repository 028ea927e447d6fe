import Mathlib.Data.List.Basic
import Mathlib.Tactic.Common
import Mathlib.Tactic.Linarith

/-! A UTF-8 decoder that never fails: whatever cannot be decoded becomes U+FFFD, one for each longest
    prefix of a character that breaks off. It reads one byte after the other and holds at most one
    character that has begun and is not complete.

        none ──lead byte──▶ some pending ──continuation──▶ … ──last continuation──▶ none, the character
          │                   └─ any other byte, or the end: U+FFFD, and the byte starts over
          └─ASCII: itself

    What a line splitter needs is that ASCII characters come from their own bytes and from nowhere
    else, and that at such a byte the decoder starts afresh. -/

namespace DsparkEdge.Utf8

abbrev Octet := BitVec 8

/-- A character that has begun: the bits so far, how many bytes are to come, and the range of the next
    one. The range and the bits are such that no overlong form of an ASCII character can come out. -/
structure Pending where
  cp : ℕ
  needed : ℕ
  lower : ℕ
  upper : ℕ
  needed_pos : 0 < needed
  lower_ge : 0x80 ≤ lower
  wide : 0x80 ≤ (cp * 64 + (lower - 0x80)) * 64 ^ (needed - 1)

/-- U+FFFD. -/
def replacement : Char := Char.ofNat 0xFFFD

/-- A byte between characters. -/
def start (b : ℕ) : Option Pending × List Char :=
  if b < 0x80 then (none, [Char.ofNat b])
  else if h : 0xC2 ≤ b ∧ b ≤ 0xDF then
    (some ⟨b - 0xC0, 1, 0x80, 0xBF, by omega, by omega, by omega⟩, [])
  else if h : 0xE0 ≤ b ∧ b ≤ 0xEF then
    (some ⟨b - 0xE0, 2, if b = 0xE0 then 0xA0 else 0x80, if b = 0xED then 0x9F else 0xBF, by omega,
      by split <;> omega, by split <;> omega⟩, [])
  else if h : 0xF0 ≤ b ∧ b ≤ 0xF4 then
    (some ⟨b - 0xF0, 3, if b = 0xF0 then 0x90 else 0x80, if b = 0xF4 then 0x8F else 0xBF, by omega,
      by split <;> omega, by split <;> omega⟩, [])
  else (none, [replacement])

/-- The bits after one more continuation byte. -/
def Pending.next (p : Pending) (b : ℕ) : ℕ := p.cp * 64 + (b - 0x80)

theorem Pending.next_wide (p : Pending) {b : ℕ} (h : p.lower ≤ b) :
    0x80 ≤ p.next b * 64 ^ (p.needed - 1) := by
  have hnext : p.cp * 64 + (p.lower - 0x80) ≤ p.next b :=
    Nat.add_le_add_left (Nat.sub_le_sub_right h 0x80) (p.cp * 64)
  exact Nat.le_trans p.wide (Nat.mul_le_mul_right (64 ^ (p.needed - 1)) hnext)

/-- A byte, in whatever state it finds the decoder. -/
def feed : Option Pending → ℕ → Option Pending × List Char
  | none, b => start b
  | some p, b =>
    if h : p.lower ≤ b ∧ b ≤ p.upper then
      if hn : p.needed = 1 then (none, [Char.ofNat (p.next b)])
      else
        (some ⟨p.next b, p.needed - 1, 0x80, 0xBF, by have := p.needed_pos; omega, by omega, by
          have hwide := p.next_wide h.1
          have hpow : 64 ^ (p.needed - 1) = 64 * 64 ^ (p.needed - 1 - 1) := by
            rw [← pow_succ']; congr 1; have := p.needed_pos; omega
          rw [hpow] at hwide
          simpa [Nat.mul_assoc] using hwide⟩, [])
    else ((start b).1, replacement :: (start b).2)

/-- The end of the input. -/
def flush : Option Pending → List Char
  | none => []
  | some _ => [replacement]

def decodeFrom : Option Pending → List Octet → List Char
  | st, [] => flush st
  | st, b :: bs => (feed st b.toNat).2 ++ decodeFrom (feed st b.toNat).1 bs

def decode (bs : List Octet) : List Char := decodeFrom none bs

/-! ### ASCII characters -/

/-- The character of an ASCII byte. -/
def ascii (b : Octet) : Char := Char.ofNat b.toNat

@[simp] theorem decode_nil : decode [] = [] := rfl

theorem start_ascii {b : ℕ} (hb : b < 0x80) : start b = (none, [Char.ofNat b]) := if_pos hb

/-- An ASCII byte ends whatever was begun, and stands for itself. -/
theorem feed_ascii (st : Option Pending) {b : ℕ} (hb : b < 0x80) :
    feed st b = (none, flush st ++ [Char.ofNat b]) := by
  cases st with
  | none => exact start_ascii hb
  | some p =>
    have := p.lower_ge
    rw [feed, dif_neg (by omega), start_ascii hb]
    rfl

/-- At an ASCII byte the decoder starts afresh. -/
theorem decodeFrom_ascii {b : Octet} (hb : b.toNat < 0x80) (st : Option Pending) (xs ys : List Octet) :
    decodeFrom st (xs ++ b :: ys) = decodeFrom st xs ++ ascii b :: decode ys := by
  induction xs generalizing st with
  | nil =>
    rw [List.nil_append, decodeFrom, decodeFrom, feed_ascii st hb, List.append_assoc]
    rfl
  | cons x xs ih =>
    rw [List.cons_append, decodeFrom, decodeFrom, ih, List.append_assoc]

theorem decode_ascii {b : Octet} (hb : b.toNat < 0x80) (xs ys : List Octet) :
    decode (xs ++ b :: ys) = decode xs ++ ascii b :: decode ys := decodeFrom_ascii hb none xs ys

theorem toNat_ofNat {n : ℕ} (h : n.isValidChar) : (Char.ofNat n).toNat = n := by
  rw [Char.ofNat, dif_pos h]
  rfl

/-- A code that is no character stands for NUL. -/
theorem toNat_ofNat_or (n : ℕ) : (Char.ofNat n).toNat = n ∨ (Char.ofNat n).toNat = 0 := by
  by_cases h : n.isValidChar
  · exact Or.inl (toNat_ofNat h)
  · right
    rw [Char.ofNat, dif_neg h]
    rfl

/-- Two codes above and below 128 are two characters. -/
theorem ofNat_ne {n c : ℕ} (hn : 0x80 ≤ n) (hc : 0 < c) (hc' : c < 0x80) :
    Char.ofNat n ≠ Char.ofNat c := by
  intro h
  have hval := congrArg Char.toNat h
  rw [toNat_ofNat (n := c) (Or.inl (by omega))] at hval
  rcases toNat_ofNat_or n with hn' | hn' <;> omega

theorem count_singleton_ne {a b : Char} (h : a ≠ b) : [a].count b = 0 :=
  List.count_eq_zero.mpr fun hmem => h (List.mem_singleton.mp hmem).symm

/-- A byte yields the character of an ASCII code if it is that byte, and only then. -/
theorem count_feed (st : Option Pending) (b : Octet) {c : ℕ} (hc : 0 < c) (hc' : c < 0x80) :
    (feed st b.toNat).2.count (Char.ofNat c) = if b.toNat = c then 1 else 0 := by
  have hrep : replacement ≠ Char.ofNat c := ofNat_ne (by omega) hc hc'
  have hstart : (start b.toNat).2.count (Char.ofNat c) = if b.toNat = c then 1 else 0 := by
    by_cases hb : b.toNat < 0x80
    · rw [start_ascii hb]
      by_cases hbc : b.toNat = c
      · rw [hbc, if_pos rfl, List.count_singleton_self]
      · rw [if_neg hbc]
        refine count_singleton_ne fun h => hbc ?_
        have hval := congrArg Char.toNat h
        rwa [toNat_ofNat (Or.inl (by omega)), toNat_ofNat (Or.inl (by omega))] at hval
    · rw [start, if_neg hb, if_neg (show b.toNat ≠ c by omega)]
      split
      · rfl
      · split
        · rfl
        · split
          · rfl
          · exact count_singleton_ne hrep
  cases st with
  | none => exact hstart
  | some p =>
    rw [feed]
    split
    · rename_i h
      have hlow := p.lower_ge
      rw [if_neg (show b.toNat ≠ c by omega)]
      split
      · rename_i hn
        have hwide := p.next_wide h.1
        rw [hn] at hwide
        exact count_singleton_ne (ofNat_ne (by simpa using hwide) hc hc')
      · rfl
    · rw [List.count_cons_of_ne hrep, hstart]

theorem count_decodeFrom (st : Option Pending) (bs : List Octet) {c : ℕ} (hc : 0 < c) (hc' : c < 0x80) :
    (decodeFrom st bs).count (Char.ofNat c) = bs.countP fun b => b.toNat = c := by
  induction bs generalizing st with
  | nil =>
    cases st with
    | none => rfl
    | some p =>
      have hrep : replacement ≠ Char.ofNat c := ofNat_ne (by omega) hc hc'
      exact count_singleton_ne hrep
  | cons b bs ih =>
    rw [decodeFrom, List.count_append, count_feed st b hc hc', ih, List.countP_cons, Nat.add_comm]
    simp

/-- An ASCII character is as often in the text as its byte is in the input. -/
theorem count_decode (bs : List Octet) {b : Octet} (hb : 0 < b.toNat) (hb' : b.toNat < 0x80) :
    (decode bs).count (ascii b) = bs.count b := by
  rw [decode, ascii, count_decodeFrom none bs hb hb', List.count]
  refine List.countP_congr fun x _ => ?_
  simp [BitVec.toNat_inj]

theorem ascii_mem_decode {bs : List Octet} {b : Octet} (hb : 0 < b.toNat) (hb' : b.toNat < 0x80) :
    ascii b ∈ decode bs ↔ b ∈ bs := by
  rw [← List.count_pos_iff, count_decode bs hb hb', List.count_pos_iff]

/-! ### Every byte shows -/

theorem feed_shows (st : Option Pending) (b : ℕ) :
    (feed st b).2 ≠ [] ∨ (feed st b).1.isSome = true := by
  have hstart : (start b).2 ≠ [] ∨ (start b).1.isSome = true := by
    unfold start
    split
    · exact Or.inl (by simp)
    · split
      · exact Or.inr rfl
      · split
        · exact Or.inr rfl
        · split
          · exact Or.inr rfl
          · exact Or.inl (by simp)
  cases st with
  | none => exact hstart
  | some p =>
    rw [feed]
    split
    · split
      · exact Or.inl (by simp)
      · exact Or.inr rfl
    · exact Or.inl (by simp)

theorem decodeFrom_some_ne_nil (st : Option Pending) (hst : st.isSome = true) (bs : List Octet) :
    decodeFrom st bs ≠ [] := by
  induction bs generalizing st with
  | nil =>
    cases st with
    | none => cases hst
    | some p => simp [decodeFrom, flush]
  | cons b bs ih =>
    rw [decodeFrom]
    rcases feed_shows st b.toNat with h | h
    · exact fun hnil => h (List.append_eq_nil_iff.mp hnil).1
    · exact fun hnil => ih _ h (List.append_eq_nil_iff.mp hnil).2

theorem decodeFrom_cons_ne_nil (st : Option Pending) (b : Octet) (bs : List Octet) :
    decodeFrom st (b :: bs) ≠ [] := by
  rw [decodeFrom]
  rcases feed_shows st b.toNat with h | h
  · exact fun hnil => h (List.append_eq_nil_iff.mp hnil).1
  · exact fun hnil => decodeFrom_some_ne_nil _ h bs (List.append_eq_nil_iff.mp hnil).2

/-- Only the empty input decodes to the empty text. -/
theorem decode_eq_nil {bs : List Octet} : decode bs = [] ↔ bs = [] := by
  cases bs with
  | nil => simp
  | cons b bs => exact iff_of_false (decodeFrom_cons_ne_nil none b bs) (List.cons_ne_nil b bs)

/-- The last byte of the input is decoded in some state, behind what the others gave. -/
theorem decodeFrom_append (st : Option Pending) (xs ys : List Octet) :
    ∃ out st', decodeFrom st (xs ++ ys) = out ++ decodeFrom st' ys := by
  induction xs generalizing st with
  | nil => exact ⟨[], st, rfl⟩
  | cons x xs ih =>
    obtain ⟨out, st', h⟩ := ih (feed st x.toNat).1
    exact ⟨(feed st x.toNat).2 ++ out, st', by rw [List.cons_append, decodeFrom, h, List.append_assoc]⟩

/-- A text ends with an ASCII character exactly when the input ends with its byte. -/
theorem getLast?_decode {bs : List Octet} {b : Octet} (hb : 0 < b.toNat) (hb' : b.toNat < 0x80) :
    (decode bs).getLast? = some (ascii b) ↔ bs.getLast? = some b := by
  rcases List.eq_nil_or_concat bs with rfl | ⟨xs, x, rfl⟩
  · simp
  · rw [List.concat_eq_append, List.getLast?_concat]
    by_cases hx : x = b
    · rw [hx, decode_ascii hb' xs []]
      simp
    · simp only [Option.some.injEq, hx, iff_false]
      obtain ⟨out, st, h⟩ := decodeFrom_append none xs [x]
      have hcount : (decodeFrom st [x]).count (ascii b) = 0 := by
        rw [ascii, count_decodeFrom st [x] hb hb']
        simpa [BitVec.toNat_inj] using hx
      rw [decode, h, List.getLast?_append_of_ne_nil _ (decodeFrom_cons_ne_nil st x [])]
      intro hlast
      exact List.count_eq_zero.mp hcount (List.mem_of_getLast? hlast)

end DsparkEdge.Utf8
