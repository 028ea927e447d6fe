import Mathlib.Data.List.Basic
import Mathlib.Data.List.Induction
import Mathlib.Tactic.Common
import Mathlib.Tactic.Linarith

/-! Flat buffers filled block by block, and lists cut into chunks.

    A matrix of `n` rows, each of `L` blocks of `H` values, is stored flat with row stride
    `E = L * H`. Filling it column of blocks by column of blocks (`fillColumn`, outer loop over `k`,
    inner loop over `i`) writes block `k` of row `i` at offset `i * E + k * H`. The blocks are
    disjoint and cover the buffer, so the order of the writes does not matter and nothing of the
    initial contents survives.

        row i:  │ k = 0 │ k = 1 │ … │ k = L-1 │      each H wide -/

namespace DsparkEdge.Blocks

variable {α ε : Type*}

/-! ### Chunks -/

/-- The chunks `xs[j*n .. j*n + n)`, for as long as `j * n < xs.length`. -/
def chunks (n : ℕ) (xs : List α) : List (List α) :=
  (List.range ((xs.length + n - 1) / n)).map fun j => (xs.drop (j * n)).take n

@[simp] theorem chunks_nil {n : ℕ} (hn : 0 < n) : chunks n ([] : List α) = [] := by
  have h0 : (([] : List α).length + n - 1) / n = 0 :=
    Nat.div_eq_of_lt (by simp only [List.length_nil]; omega)
  rw [chunks, h0]; rfl

/-- One turn of the chunking loop. -/
theorem chunks_eq_cons {n : ℕ} (hn : 0 < n) {xs : List α} (hxs : xs ≠ []) :
    chunks n xs = xs.take n :: chunks n (xs.drop n) := by
  have hlen : 0 < xs.length := List.length_pos_of_ne_nil hxs
  have hcount : (xs.length + n - 1) / n = ((xs.drop n).length + n - 1) / n + 1 := by
    rw [List.length_drop]
    by_cases h : xs.length ≤ n
    · rw [Nat.sub_eq_zero_of_le h, Nat.div_eq_of_lt (a := 0 + n - 1) (by omega)]
      exact Nat.div_eq_of_lt_le (by omega) (by omega)
    · rw [← Nat.add_div_right _ hn]
      congr 1; omega
  rw [chunks, hcount, List.range_succ_eq_map, List.map_cons, List.map_map, chunks]
  simp only [Nat.zero_mul, List.drop_zero, List.cons.injEq, true_and]
  refine List.map_congr_left fun j _ => ?_
  simp only [Function.comp, List.drop_drop, Nat.succ_eq_add_one, Nat.add_mul, Nat.one_mul]
  rw [Nat.add_comm n]

/-- Induction along the chunking loop. -/
theorem chunks_induction {n : ℕ} (hn : 0 < n) {motive : List α → Prop} (nil : motive [])
    (chunk : ∀ xs, xs ≠ [] → motive (xs.drop n) → motive xs) (xs : List α) : motive xs := by
  induction hlen : xs.length using Nat.strong_induction_on generalizing xs with
  | _ m ih =>
    by_cases hxs : xs = []
    · rw [hxs]; exact nil
    · have := List.length_pos_of_ne_nil hxs
      exact chunk xs hxs (ih (xs.drop n).length (by rw [List.length_drop]; omega) _ rfl)

theorem flatten_chunks {n : ℕ} (hn : 0 < n) (xs : List α) : (chunks n xs).flatten = xs := by
  induction xs using chunks_induction hn with
  | nil => rw [chunks_nil hn]; rfl
  | chunk xs hxs ih => rw [chunks_eq_cons hn hxs, List.flatten_cons, ih, List.take_append_drop]

/-- Item `i` is in chunk `i / n`. -/
theorem getElem?_chunks {n : ℕ} (hn : 0 < n) {xs : List α} {i : ℕ} (hi : i < xs.length) :
    (chunks n xs)[i / n]? = some ((xs.drop (i / n * n)).take n) := by
  have hle : i / n * n ≤ i := Nat.div_mul_le_self i n
  have hj : i / n < (xs.length + n - 1) / n := by
    rw [Nat.lt_iff_add_one_le, Nat.le_div_iff_mul_le hn, Nat.succ_mul]
    omega
  rw [chunks, List.getElem?_map, List.getElem?_range hj]
  rfl

theorem getElem?_chunk {n : ℕ} (hn : 0 < n) (xs : List α) (i : ℕ) :
    ((xs.drop (i / n * n)).take n)[i % n]? = xs[i]? := by
  rw [List.getElem?_take, if_pos (Nat.mod_lt i hn), List.getElem?_drop, Nat.mul_comm,
    Nat.div_add_mod]

/-! ### Blocks -/

/-- Overwrite `dst` with `src` from offset `off`. -/
def memcpy (dst : List α) (off : ℕ) (src : List α) : List α :=
  dst.take off ++ src ++ dst.drop (off + src.length)

theorem length_memcpy {dst src : List α} {off : ℕ} (h : off + src.length ≤ dst.length) :
    (memcpy dst off src).length = dst.length := by
  simp only [memcpy, List.length_append, List.length_take, List.length_drop]; omega

theorem getElem?_memcpy {dst src : List α} {off : ℕ} (h : off + src.length ≤ dst.length) (j : ℕ) :
    (memcpy dst off src)[j]? =
      if off ≤ j ∧ j < off + src.length then src[j - off]? else dst[j]? := by
  have htake : (dst.take off).length = off := by rw [List.length_take]; omega
  rw [memcpy, List.append_assoc, List.getElem?_append, htake]
  by_cases hlo : j < off
  · rw [if_pos hlo, if_neg (by omega), List.getElem?_take, if_pos hlo]
  · rw [if_neg hlo, List.getElem?_append]
    by_cases hhi : j < off + src.length
    · rw [if_pos (by omega), if_pos (by omega)]
    · rw [if_neg (by omega), if_neg (by omega), List.getElem?_drop]
      congr 1; omega

/-- Row `i` of a flat buffer with row stride `E`. -/
def rowAt (E i : ℕ) (buf : List α) : List α := (buf.drop (i * E)).take E

/-- A row is known once all its blocks are. -/
theorem rowAt_eq {L H i : ℕ} {buf full : List α} (hfull : full.length = L * H)
    (h : ∀ k < L, ∀ h < H, buf[i * (L * H) + (k * H + h)]? = full[k * H + h]?) :
    rowAt (L * H) i buf = full := by
  refine List.ext_getElem? fun j => ?_
  rw [rowAt, List.getElem?_take]
  by_cases hj : j < L * H
  · have hH : 0 < H := Nat.pos_of_mul_pos_left (Nat.lt_of_le_of_lt (Nat.zero_le j) hj)
    have hk : j / H < L := Nat.div_lt_of_lt_mul (by rwa [Nat.mul_comm] at hj)
    have := h (j / H) hk (j % H) (Nat.mod_lt _ hH)
    rw [Nat.div_add_mod'] at this
    rw [if_pos hj, List.getElem?_drop, this]
  · rw [if_neg hj, List.getElem?_eq_none (by omega)]

/-- Row `i` of `n` ends inside the buffer. -/
theorem row_end_le (E : ℕ) {i n : ℕ} (h : i < n) : i * E + E ≤ n * E := by
  rw [← Nat.succ_mul]
  exact Nat.mul_le_mul_right E h

/-- An index inside row `i`. -/
theorem row_index_lt {E i n r : ℕ} (h : i < n) (hr : r < E) : i * E + r < n * E := by
  have := row_end_le E h
  omega

/-- Block `k` of a row of `L` blocks. -/
theorem length_block {L H k : ℕ} {row : List α} (hrow : row.length = L * H) (hk : k < L) :
    ((row.drop (k * H)).take H).length = H := by
  have := row_end_le H hk
  rw [List.length_take, List.length_drop, hrow]; omega

/-- The inner loop: for every row `i < n`, copy `src i` to block `k` of row `i`. -/
def fillColumn (n E off : ℕ) (src : ℕ → Except ε (List α)) (buf : List α) :
    Except ε (List α) :=
  (List.range n).foldlM (fun buf i => do
    let s ← src i
    pure (memcpy buf (i * E + off) s)) buf

/-- The outer loop: fill the `L` columns of blocks in turn. -/
def fillBlocks (L n E H : ℕ) (src : ℕ → ℕ → Except ε (List α)) (buf : List α) :
    Except ε (List α) :=
  (List.range L).foldlM (fun buf k => fillColumn n E (k * H) (src k) buf) buf

/-- An index of row `i` lies in no range of columns of another row `j`. -/
theorem row_apart {E a lo hi : ℕ} (i j : ℕ) (ha : a < E) (hhi : hi ≤ E) (hij : i ≠ j) :
    ¬(j * E + lo ≤ i * E + a ∧ i * E + a < j * E + hi) := by
  rintro ⟨hlo, hlt⟩
  rcases Nat.lt_or_gt_of_ne hij with h | h
  · have := row_end_le E h
    omega
  · have := row_end_le E h
    omega

section Column
variable {n E off H : ℕ} {src : ℕ → Except ε (List α)} {row : ℕ → List α}

/-- The first `m` turns of the inner loop write their blocks and leave the rest alone. -/
theorem fillColumn_spec (hoff : off + H ≤ E) (hsrc : ∀ i < n, src i = .ok (row i))
    (hrow : ∀ i < n, (row i).length = H) {buf : List α} (hbuf : buf.length = n * E) :
    ∀ m ≤ n, ∃ out, fillColumn m E off src buf = .ok out ∧ out.length = n * E ∧
      (∀ i < m, ∀ h < H, out[i * E + (off + h)]? = (row i)[h]?) ∧
      (∀ i, ∀ r < E, (r < off ∨ off + H ≤ r) → out[i * E + r]? = buf[i * E + r]?)
  | 0, _ => ⟨buf, rfl, hbuf, by simp, fun _ _ _ _ => rfl⟩
  | m + 1, hm => by
    obtain ⟨out, hout, hlen, hin, hout'⟩ := fillColumn_spec hoff hsrc hrow hbuf m (by omega)
    have hle : m * E + off + (row m).length ≤ out.length := by
      rw [hrow m hm, hlen]
      have := row_end_le E hm
      omega
    refine ⟨memcpy out (m * E + off) (row m), ?_, ?_, ?_, ?_⟩
    · rw [fillColumn] at hout ⊢
      rw [List.range_succ, List.foldlM_append, hout]
      simp only [List.foldlM_cons, List.foldlM_nil, hsrc m hm]
      rfl
    · rw [length_memcpy hle, hlen]
    · intro i hi h hh
      rw [getElem?_memcpy hle, hrow m hm]
      by_cases him : i = m
      · rw [him, if_pos (by omega)]; congr 1; omega
      · rw [if_neg (by rw [Nat.add_assoc]; exact row_apart i m (by omega) hoff him),
          hin i (by omega) h hh]
    · intro i r hr hr'
      rw [getElem?_memcpy hle, hrow m hm, if_neg, hout' i r hr hr']
      rintro ⟨hlo, hhi⟩
      by_cases him : i = m
      · rw [him] at hlo hhi; omega
      · exact row_apart i m hr hoff him ⟨hlo, by omega⟩

end Column

section Matrix
variable {L n H : ℕ} {src : ℕ → ℕ → Except ε (List α)} {row : ℕ → ℕ → List α}

/-- Filling the first `K` columns puts block `k` of row `i` at `i * E + k * H`. -/
theorem fillBlocks_spec (hsrc : ∀ k < L, ∀ i < n, src k i = .ok (row k i))
    (hrow : ∀ k < L, ∀ i < n, (row k i).length = H) {buf : List α}
    (hbuf : buf.length = n * (L * H)) :
    ∀ K ≤ L, ∃ out, fillBlocks K n (L * H) H src buf = .ok out ∧ out.length = n * (L * H) ∧
      ∀ i < n, ∀ k < K, ∀ h < H, out[i * (L * H) + (k * H + h)]? = (row k i)[h]?
  | 0, _ => ⟨buf, rfl, hbuf, by simp⟩
  | K + 1, hK => by
    obtain ⟨out, hout, hlen, hin⟩ := fillBlocks_spec hsrc hrow hbuf K (by omega)
    have hcol : K * H + H ≤ L * H := row_end_le H hK
    obtain ⟨out', hout', hlen', hin', hrest⟩ :=
      fillColumn_spec hcol (hsrc K hK) (hrow K hK) hlen n le_rfl
    refine ⟨out', ?_, hlen', ?_⟩
    · rw [fillBlocks] at hout ⊢
      rw [List.range_succ, List.foldlM_append, hout]
      simp only [List.foldlM_cons, List.foldlM_nil]
      exact (bind_pure _).trans hout'
    · intro i hi k hk h hh
      by_cases hkK : k = K
      · rw [hkK]; exact hin' i hi h hh
      · have hkH : k * H + H ≤ K * H := row_end_le H (by omega)
        rw [hrest i (k * H + h) (by omega) (Or.inl (by omega))]
        exact hin i hi k (by omega) h hh

/-- The filled buffer, row by row. -/
theorem fillBlocks_row (hsrc : ∀ k < L, ∀ i < n, src k i = .ok (row k i))
    (hrow : ∀ k < L, ∀ i < n, (row k i).length = H) {buf : List α}
    (hbuf : buf.length = n * (L * H)) :
    ∃ out, fillBlocks L n (L * H) H src buf = .ok out ∧ out.length = n * (L * H) ∧
      ∀ i < n, ∀ k < L, ∀ h < H, out[i * (L * H) + (k * H + h)]? = (row k i)[h]? :=
  fillBlocks_spec hsrc hrow hbuf L le_rfl

/-- Filling succeeds only if every block read on the way does. -/
theorem fillColumn_ok {E off : ℕ} {src : ℕ → Except ε (List α)} {buf : List α} :
    ∀ {m : ℕ} {out : List α}, fillColumn m E off src buf = .ok out → ∀ i < m, ∃ s, src i = .ok s
  | 0, _, _, _, hi => absurd hi (Nat.not_lt_zero _)
  | m + 1, out, h, i, hi => by
    rw [fillColumn, List.range_succ, List.foldlM_append] at h
    cases hm : fillColumn m E off src buf with
    | error e => rw [fillColumn] at hm; rw [hm] at h; cases h
    | ok mid =>
      by_cases him : i = m
      · rw [fillColumn] at hm
        rw [hm] at h
        cases hs : src m with
        | error e => simp only [List.foldlM_cons, hs] at h; cases h
        | ok s => exact ⟨s, by rw [him, hs]⟩
      · exact fillColumn_ok hm i (by omega)

theorem fillBlocks_ok {E H : ℕ} {src : ℕ → ℕ → Except ε (List α)} {buf : List α} :
    ∀ {K : ℕ} {out : List α}, fillBlocks K n E H src buf = .ok out →
      ∀ k < K, ∀ i < n, ∃ s, src k i = .ok s
  | 0, _, _, _, hk => absurd hk (Nat.not_lt_zero _)
  | K + 1, out, h, k, hk => by
    rw [fillBlocks, List.range_succ, List.foldlM_append] at h
    cases hK : fillBlocks K n E H src buf with
    | error e => rw [fillBlocks] at hK; rw [hK] at h; cases h
    | ok mid =>
      by_cases hkK : k = K
      · rw [fillBlocks] at hK
        rw [hK] at h
        simp only [List.foldlM_cons, List.foldlM_nil] at h
        rw [hkK]
        exact fillColumn_ok ((bind_pure _).symm.trans h)
      · exact fillBlocks_ok hK k (by omega)

/-- Filling ends with an error only if one of the blocks read does. -/
theorem fillColumn_error {E off : ℕ} {src : ℕ → Except ε (List α)} {e : ε} :
    ∀ {m : ℕ} {buf : List α}, fillColumn m E off src buf = .error e → ∃ i < m, src i = .error e
  | 0, _, h => by cases h
  | m + 1, buf, h => by
    rw [fillColumn, List.range_succ, List.foldlM_append] at h
    cases hm : fillColumn m E off src buf with
    | error e' =>
      rw [fillColumn] at hm
      rw [hm] at h
      cases h
      obtain ⟨i, hi, hsrc⟩ := fillColumn_error hm
      exact ⟨i, by omega, hsrc⟩
    | ok mid =>
      rw [fillColumn] at hm
      rw [hm] at h
      cases hs : src m with
      | ok s => simp only [List.foldlM_cons, List.foldlM_nil, hs] at h; cases h
      | error e' =>
        simp only [List.foldlM_cons, hs] at h
        cases h
        exact ⟨m, by omega, hs⟩

theorem fillBlocks_error {E H : ℕ} {src : ℕ → ℕ → Except ε (List α)} {e : ε} :
    ∀ {K : ℕ} {buf : List α}, fillBlocks K n E H src buf = .error e →
      ∃ k < K, ∃ i < n, src k i = .error e
  | 0, _, h => by cases h
  | K + 1, buf, h => by
    rw [fillBlocks, List.range_succ, List.foldlM_append] at h
    cases hK : fillBlocks K n E H src buf with
    | error e' =>
      rw [fillBlocks] at hK
      rw [hK] at h
      cases h
      obtain ⟨k, hk, hsrc⟩ := fillBlocks_error hK
      exact ⟨k, by omega, hsrc⟩
    | ok mid =>
      rw [fillBlocks] at hK
      rw [hK] at h
      simp only [List.foldlM_cons, List.foldlM_nil] at h
      obtain ⟨i, hi, hsrc⟩ := fillColumn_error ((bind_pure _).symm.trans h)
      exact ⟨K, by omega, i, hi, hsrc⟩

end Matrix

end DsparkEdge.Blocks
