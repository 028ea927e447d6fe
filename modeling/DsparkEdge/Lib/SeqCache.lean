import Mathlib.Data.List.Induction
import Mathlib.Tactic.Common
import Mathlib.Tactic.Linarith

/-! A one-sequence KV cache: cells tagged with a position, in the order they were decoded. Three
    operations change it — decode a batch (append one cell per entry), truncate from a position
    (`seqRm`), clear — and one query reads it (`seqPosMax`).

    The shape a drafter wants is a *dense prefix*: one cell per position `0 .. top`, in order, with
    whatever transient cells lie beyond `top` behind them.

        0   1   2  …  top │ top+1 …
        confirmed values  │ transient
                          ▲ truncating here restores the prefix -/

namespace DsparkEdge.SeqCache

/-- A cell: its position and what was decoded into it. -/
structure Cell (κ : Type*) where
  pos : ℤ
  val : κ
  deriving DecidableEq, Repr

variable {κ : Type*}

/-- Remove the cells at positions `≥ p0`. -/
def seqRm (cells : List (Cell κ)) (p0 : ℤ) : List (Cell κ) :=
  cells.filter fun c => decide (c.pos < p0)

/-- The highest position in the cache, `-1` when it is empty. -/
def seqPosMax (cells : List (Cell κ)) : ℤ := cells.foldr (fun c m => max c.pos m) (-1)

/-- Cells at consecutive positions from `start`, one per value. -/
def consec (start : ℤ) : List κ → List (Cell κ)
  | [] => []
  | v :: vs => ⟨start, v⟩ :: consec (start + 1) vs

@[simp] theorem consec_nil (start : ℤ) : consec start ([] : List κ) = [] := rfl

@[simp] theorem length_consec (start : ℤ) (vs : List κ) : (consec start vs).length = vs.length := by
  induction vs generalizing start with
  | nil => rfl
  | cons v vs ih => simp [consec, ih]

theorem consec_append (start : ℤ) (vs ws : List κ) :
    consec start (vs ++ ws) = consec start vs ++ consec (start + vs.length) ws := by
  induction vs generalizing start with
  | nil => simp
  | cons v vs ih =>
    simp only [List.cons_append, consec, ih, List.length_cons, Nat.cast_add, Nat.cast_one]
    rw [add_right_comm, add_assoc]

/-- The positions of consecutive cells. -/
theorem pos_of_mem_consec {start : ℤ} {vs : List κ} {c : Cell κ} (h : c ∈ consec start vs) :
    start ≤ c.pos ∧ c.pos < start + vs.length := by
  induction vs generalizing start with
  | nil => simp at h
  | cons v vs ih =>
    simp only [List.length_cons, Nat.cast_add, Nat.cast_one]
    rcases List.mem_cons.mp h with rfl | h
    · simp only; omega
    · have := ih h
      omega

theorem map_val_consec (start : ℤ) (vs : List κ) : (consec start vs).map Cell.val = vs := by
  induction vs generalizing start with
  | nil => rfl
  | cons v vs ih => simp [consec, ih]

/-! ### Truncation -/

theorem seqRm_append (xs ys : List (Cell κ)) (p0 : ℤ) :
    seqRm (xs ++ ys) p0 = seqRm xs p0 ++ seqRm ys p0 := List.filter_append ..

theorem seqRm_eq_self {xs : List (Cell κ)} {p0 : ℤ} (h : ∀ c ∈ xs, c.pos < p0) :
    seqRm xs p0 = xs := by
  rw [seqRm, List.filter_eq_self]
  exact fun c hc => decide_eq_true (h c hc)

theorem seqRm_eq_nil {xs : List (Cell κ)} {p0 : ℤ} (h : ∀ c ∈ xs, p0 ≤ c.pos) :
    seqRm xs p0 = [] := by
  rw [seqRm, List.filter_eq_nil_iff]
  intro c hc
  simpa using h c hc

theorem mem_seqRm {xs : List (Cell κ)} {p0 : ℤ} {c : Cell κ} :
    c ∈ seqRm xs p0 ↔ c ∈ xs ∧ c.pos < p0 := by
  simp [seqRm]

/-! ### The dense prefix -/

/-- The cache holds the values `vals` at positions `0 .. top`, in order and once each, and nothing
    else at or below `top`. -/
structure Settled (cells : List (Cell κ)) (top : ℤ) (vals : List κ) : Prop where
  top_eq : top = vals.length - 1
  split : ∃ rest, cells = consec 0 vals ++ rest ∧ ∀ c ∈ rest, top < c.pos

theorem settled_nil : Settled ([] : List (Cell κ)) (-1) [] :=
  ⟨by simp, [], rfl, by simp⟩

theorem settled_consec (vals : List κ) : Settled (consec 0 vals) (vals.length - 1) vals :=
  ⟨rfl, [], by simp, by simp⟩

/-- Truncating beyond `top` leaves exactly the prefix. -/
theorem Settled.seqRm {cells : List (Cell κ)} {top : ℤ} {vals : List κ}
    (h : Settled cells top vals) : seqRm cells (top + 1) = consec 0 vals := by
  obtain ⟨htop, rest, rfl, hrest⟩ := h
  rw [seqRm_append, seqRm_eq_self, seqRm_eq_nil, List.append_nil]
  · intro c hc; have := hrest c hc; omega
  · intro c hc; have := pos_of_mem_consec hc; omega

/-- Cells beyond `top` do not disturb the prefix. -/
theorem Settled.append_beyond {cells : List (Cell κ)} {top : ℤ} {vals : List κ}
    (h : Settled cells top vals) {xs : List (Cell κ)} (hxs : ∀ c ∈ xs, top < c.pos) :
    Settled (cells ++ xs) top vals := by
  obtain ⟨htop, rest, rfl, hrest⟩ := h
  refine ⟨htop, rest ++ xs, by rw [List.append_assoc], fun c hc => ?_⟩
  rcases List.mem_append.mp hc with hc | hc
  · exact hrest c hc
  · exact hxs c hc

theorem neg_one_le_seqPosMax (cells : List (Cell κ)) : -1 ≤ seqPosMax cells := by
  induction cells with
  | nil => exact le_rfl
  | cons c cells ih => exact le_trans ih (le_max_right _ _)

theorem seqPosMax_append (xs ys : List (Cell κ)) :
    seqPosMax (xs ++ ys) = max (seqPosMax xs) (seqPosMax ys) := by
  induction xs with
  | nil => exact (max_eq_right (neg_one_le_seqPosMax ys)).symm
  | cons c xs ih =>
    simp only [List.cons_append, seqPosMax, List.foldr_cons] at ih ⊢
    rw [ih, max_assoc]

theorem le_seqPosMax {cells : List (Cell κ)} {c : Cell κ} (h : c ∈ cells) : c.pos ≤ seqPosMax cells := by
  induction cells with
  | nil => simp at h
  | cons d cells ih =>
    rcases List.mem_cons.mp h with rfl | h
    · exact le_max_left _ _
    · exact le_trans (ih h) (le_max_right _ _)

theorem seqPosMax_le {cells : List (Cell κ)} {m : ℤ} (hm : -1 ≤ m) (h : ∀ c ∈ cells, c.pos ≤ m) :
    seqPosMax cells ≤ m := by
  induction cells with
  | nil => exact hm
  | cons d cells ih =>
    exact max_le (h d List.mem_cons_self) (ih fun c hc => h c (List.mem_cons_of_mem d hc))

/-- Two truncations leave the same cells when no cell lies between them. -/
theorem seqRm_eq_seqRm_iff {cells : List (Cell κ)} {p q : ℤ} (hpq : p ≤ q) :
    seqRm cells q = seqRm cells p ↔ ∀ c ∈ cells, c.pos < q → c.pos < p := by
  constructor
  · intro h c hc hq
    have hmem : c ∈ seqRm cells p := h ▸ mem_seqRm.mpr ⟨hc, hq⟩
    exact (mem_seqRm.mp hmem).2
  · intro h
    refine List.filter_congr fun c hc => ?_
    have := h c hc
    simp only [decide_eq_decide]
    constructor <;> omega

/-- The highest position of a dense cache. -/
theorem seqPosMax_consec (vals : List κ) : seqPosMax (consec 0 vals) = vals.length - 1 := by
  induction vals using List.reverseRecOn with
  | nil => rfl
  | append_singleton vals v ih =>
    rw [consec_append, seqPosMax_append, ih]
    simp only [zero_add, consec, seqPosMax, List.foldr_cons, List.foldr_nil, List.length_append,
      List.length_singleton, Nat.cast_add, Nat.cast_one]
    omega

end DsparkEdge.SeqCache
