import Mathlib.Data.List.Basic
import Mathlib.Tactic.Common

/-! Scanning a text for all matches, as a global regular expression does: the leftmost match first, then
    on from its end. What matches at a position is a parameter; it gives a result and the rest of the text.

        text   ··a1··a2·a3··       · no match here
                 └r1 └r2 └r3       scan = [r1, r2, r3]

    The loop runs on fuel. A matcher that always consumes something needs no more of it than the text is
    long. -/

namespace DsparkEdge.Scan

variable {α β : Type*} (matchAt : List α → Option (β × List α))

/-- The leftmost match. -/
def find : List α → Option (β × List α)
  | [] => matchAt []
  | c :: s =>
    match matchAt (c :: s) with
    | some r => some r
    | none => find s

def scan : ℕ → List α → List β
  | 0, _ => []
  | fuel + 1, s =>
    match find matchAt s with
    | some (b, rest) => b :: scan fuel rest
    | none => []

variable {matchAt}

theorem find_of_match {s : List α} {r : β × List α} (h : matchAt s = some r) :
    find matchAt s = some r := by
  cases s with
  | nil => exact h
  | cons c s => rw [find, h]

theorem find_of_no_match {c : α} {s : List α} (h : matchAt (c :: s) = none) :
    find matchAt (c :: s) = find matchAt s := by
  rw [find, h]

/-- A matcher that consumes something. -/
def Consumes (matchAt : List α → Option (β × List α)) : Prop :=
  ∀ s r, matchAt s = some r → r.2.length < s.length

theorem Consumes.find_length (h : Consumes matchAt) {s : List α} {r : β × List α}
    (hr : find matchAt s = some r) : r.2.length < s.length := by
  induction s with
  | nil => exact h [] r hr
  | cons c s ih =>
    cases hmatch : matchAt (c :: s) with
    | some r' =>
      rw [find_of_match hmatch] at hr
      rw [← Option.some.inj hr]
      exact h _ _ hmatch
    | none =>
      rw [find_of_no_match hmatch] at hr
      exact Nat.lt_succ_of_lt (ih hr)

/-- More fuel than the text is long changes nothing. -/
theorem Consumes.scan_fuel (h : Consumes matchAt) {n : ℕ} {s : List α} (hn : s.length ≤ n) :
    scan matchAt n s = scan matchAt s.length s := by
  have hall : ∀ k n m (s : List α), s.length ≤ k → s.length ≤ n → s.length ≤ m →
      scan matchAt n s = scan matchAt m s := by
    intro k
    induction k with
    | zero =>
      intro n m s hk _ _
      obtain rfl := List.eq_nil_of_length_eq_zero (Nat.le_zero.mp hk)
      have hnone : find matchAt [] = none := by
        by_contra hsome
        obtain ⟨r, hr⟩ := Option.ne_none_iff_exists'.mp hsome
        exact absurd (h [] r hr) (Nat.not_lt_zero _)
      cases n <;> cases m <;> simp [scan, hnone]
    | succ k ih =>
      intro n m s hk hn hm
      cases hfind : find matchAt s with
      | none => cases n <;> cases m <;> simp [scan, hfind]
      | some r =>
        have hlen := h.find_length hfind
        obtain ⟨n, rfl⟩ := Nat.exists_eq_succ_of_ne_zero (show n ≠ 0 by omega)
        obtain ⟨m, rfl⟩ := Nat.exists_eq_succ_of_ne_zero (show m ≠ 0 by omega)
        simp only [scan, hfind]
        rw [ih n m r.2 (by omega) (by omega) (by omega)]
  exact hall s.length n s.length s (Nat.le_refl _) hn (Nat.le_refl _)

/-- A text made of forms, one for each result, with a gap between any two. -/
inductive Joined (form : β → List α → Prop) (gap : List α → Prop) : List β → List α → Prop
  | nil : Joined form gap [] []
  | last {b : β} {t : List α} (h : form b t) : Joined form gap [b] t
  | cons {b b' : β} {bs : List β} {t g u : List α} (h : form b t) (hg : gap g)
      (hu : Joined form gap (b' :: bs) u) : Joined form gap (b :: b' :: bs) (t ++ (g ++ u))

variable {form : β → List α → Prop} {gap : List α → Prop}

/-- If a form is matched whole, at the end and in front of a gap, and gaps are skipped, the scan finds
    what the text was made of. -/
theorem scan_joined (hnil : matchAt [] = none)
    (hlast : ∀ b t, form b t → matchAt t = some (b, []))
    (hform : ∀ b t g u, form b t → gap g → matchAt (t ++ (g ++ u)) = some (b, g ++ u))
    (hgap : ∀ g u, gap g → find matchAt (g ++ u) = find matchAt u) {bs : List β} {t : List α}
    (h : Joined form gap bs t) {n : ℕ} (hn : bs.length ≤ n) : scan matchAt n t = bs := by
  have hskip : ∀ (g u : List α), (g = [] ∨ gap g) → find matchAt (g ++ u) = find matchAt u := by
    rintro g u (rfl | hg)
    · rfl
    · exact hgap g u hg
  -- the scan goes on behind a form, in front of the gap
  suffices hsuff : ∀ n g, (g = [] ∨ gap g) → bs.length ≤ n → scan matchAt n (g ++ t) = bs from
    hsuff n [] (Or.inl rfl) hn
  clear hn
  induction h with
  | nil =>
    intro n g hg _
    cases n with
    | zero => rfl
    | succ n => rw [scan, hskip g [] hg, find, hnil]
  | last h =>
    intro n g hg hn
    obtain ⟨n, rfl⟩ := Nat.exists_eq_succ_of_ne_zero (Nat.ne_of_gt hn)
    rw [Nat.succ_eq_add_one, scan, hskip g _ hg, find_of_match (hlast _ _ h)]
    have hend : find matchAt ([] : List α) = none := hnil
    cases n <;> simp [scan, hend]
  | cons h hg' _ ih =>
    intro n g hg hn
    obtain ⟨n, rfl⟩ := Nat.exists_eq_succ_of_ne_zero (Nat.ne_of_gt (Nat.lt_of_lt_of_le (Nat.succ_pos _) hn))
    rw [Nat.succ_eq_add_one, scan, hskip g _ hg, find_of_match (hform _ _ _ _ h hg')]
    exact congrArg _ (ih n _ (Or.inr hg') (Nat.le_of_succ_le_succ hn))

end DsparkEdge.Scan
