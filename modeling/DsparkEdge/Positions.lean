import DsparkEdge.EngineSpec
import DsparkEdge.Service

/-! Positions as llama.cpp has them. A packet carries its position as a `uint64`; the engine casts it to
    `llama_pos`, an `int32`, when it injects the packet and when it moves its mark, and adds one to the mark
    and up to a block to the last position.

        position    (llama_pos) position    kv_confirmed_max + 1    pos_last + 1 + i
        uint64      int32                   int32                   int32

    The engine's definitions have positions without a bound. They are the engine's as long as every position
    leaves room for the block behind it (`FitsPos`): no cast then changes a number, and no sum overflows. That
    is a condition on the packets alone, which every call keeps (`Engine.InRange`). -/

namespace DsparkEdge

open SeqCache

/-- `(llama_pos) position`. -/
def llamaPos (position : ℕ) : ℤ := toInt32 position

/-- A position behind which the next one, and a block, are still `int32`s. -/
def ModelConfig.FitsPos (cfg : ModelConfig) (position : ℤ) : Prop := position + max 1 cfg.blockSize < 2 ^ 31

instance (cfg : ModelConfig) (position : ℤ) : Decidable (cfg.FitsPos position) :=
  inferInstanceAs (Decidable (_ < _))

/-- The packets' positions fit. -/
def ModelConfig.FitsAll (cfg : ModelConfig) (tokens : List TokenFeatures) : Prop :=
  ∀ tf ∈ tokens, cfg.FitsPos tf.position

instance (cfg : ModelConfig) (tokens : List TokenFeatures) : Decidable (cfg.FitsAll tokens) :=
  inferInstanceAs (Decidable (∀ _ ∈ _, _))

variable {cfg : ModelConfig}

theorem ModelConfig.FitsPos.le {p q : ℤ} (h : cfg.FitsPos q) (hle : p ≤ q) : cfg.FitsPos p :=
  (add_le_add_left hle _).trans_lt h

theorem ModelConfig.FitsPos.lt {p : ℤ} (h : cfg.FitsPos p) : p + 1 < 2 ^ 31 := by
  unfold FitsPos at h
  omega

/-- The positions of a block behind `p`. -/
theorem ModelConfig.FitsPos.block_lt {p q : ℤ} (h : cfg.FitsPos p) (n : ℤ) (hq : q ≤ p + cfg.nDraft n) :
    q < 2 ^ 31 := by
  unfold FitsPos at h
  unfold nDraft at hq
  omega

/-- The cast changes nothing. -/
theorem llamaPos_eq {position : ℕ} (h : cfg.FitsPos position) : llamaPos position = position := by
  have hlt := h.lt
  rw [llamaPos, toInt32, BitVec.toInt_eq_toNat_cond, BitVec.toNat_ofNat]
  split <;> omega

/-- Every position of the engine is an `int32`: the mark with room for a block, the cells as they are. -/
structure Engine.InRange (cfg : ModelConfig) (st : Engine) : Prop where
  low : -1 ≤ st.kvConfirmedMax
  mark : cfg.FitsPos st.kvConfirmedMax
  cells : ∀ c ∈ st.cells, 0 ≤ c.pos ∧ c.pos < 2 ^ 31

theorem Engine.InRange.append {st : Engine} (h : st.InRange cfg) {xs : Cache}
    (hxs : ∀ c ∈ xs, 0 ≤ c.pos ∧ c.pos < 2 ^ 31) : Engine.InRange cfg { st with cells := st.cells ++ xs } :=
  ⟨h.low, h.mark, List.forall_mem_append.mpr ⟨h.cells, hxs⟩⟩

/-- Cells at positions of packets. -/
theorem packet_pos {tokens : List TokenFeatures} (hfit : cfg.FitsAll tokens) {c : Cell CellVal}
    (hc : ∃ tf ∈ tokens, c.pos = tf.position) : 0 ≤ c.pos ∧ cfg.FitsPos c.pos := by
  obtain ⟨tf, htf, hpos⟩ := hc
  rw [hpos]
  exact ⟨Int.natCast_nonneg _, hfit tf htf⟩

theorem Engine.InRange.advance {st : Engine} (h : st.InRange cfg) {tokens : List TokenFeatures}
    (hfit : cfg.FitsAll tokens) : (st.advance tokens).InRange cfg := by
  unfold Engine.advance
  cases hlast : tokens.getLast? with
  | none => exact h
  | some tf => exact ⟨by simp only; omega, hfit tf (List.mem_of_getLast? hlast), h.cells⟩

theorem prefill_inRange (calls : LlamaCalls) {tokens : List TokenFeatures} (hfit : cfg.FitsAll tokens) {st : Engine}
    (h : st.InRange cfg) : (st.prefill cfg calls tokens).2.2.InRange cfg := by
  have hlt {c : Cell CellVal} (hc : ∃ tf ∈ tokens, c.pos = tf.position) : 0 ≤ c.pos ∧ c.pos < 2 ^ 31 := by
    obtain ⟨h0, hpos⟩ := packet_pos hfit hc
    have := hpos.lt
    omega
  rcases prefill_cases cfg calls tokens st with heq | ⟨junk, heq, hjunk⟩
  · rw [heq]
    exact (h.append fun c hc => hlt (mem_packetCells hc).1).advance hfit
  · rw [heq]
    exact h.append fun c hc => hlt (hjunk c hc).1

/-- What is left after the truncation, and what is injected behind it, has room for a block. -/
theorem accept_inRange (calls : LlamaCalls) {tokens : List TokenFeatures} (hfit : cfg.FitsAll tokens) {st : Engine}
    (h : st.InRange cfg) : (st.accept cfg calls tokens).2.InRange cfg ∧
      ∀ c ∈ (st.accept cfg calls tokens).2.cells, cfg.FitsPos c.pos := by
  have hconfirmed : ∀ c ∈ st.confirmed, 0 ≤ c.pos ∧ cfg.FitsPos c.pos := by
    intro c hc
    obtain ⟨hmem, hpos⟩ := mem_seqRm.mp hc
    exact ⟨(h.cells c hmem).1, h.mark.le (by omega)⟩
  have hrange {xs : Cache} (hxs : ∀ c ∈ xs, 0 ≤ c.pos ∧ cfg.FitsPos c.pos) :
      Engine.InRange cfg { st with cells := st.confirmed ++ xs } ∧
        ∀ c ∈ st.confirmed ++ xs, cfg.FitsPos c.pos := by
    have hall := List.forall_mem_append.mpr ⟨hconfirmed, hxs⟩
    refine ⟨⟨h.low, h.mark, fun c hc => ?_⟩, fun c hc => (hall c hc).2⟩
    obtain ⟨h0, hpos⟩ := hall c hc
    have := hpos.lt
    omega
  rcases accept_ends cfg calls tokens st with heq | ⟨junk, heq, hjunk⟩
  · have hpackets : ∀ c ∈ packetCells cfg calls.gen tokens, 0 ≤ c.pos ∧ cfg.FitsPos c.pos :=
      fun c hc => packet_pos hfit (mem_packetCells hc).1
    obtain ⟨hin, hroom⟩ := hrange hpackets
    rw [heq]
    exact ⟨hin.advance hfit, by rw [advance_cells]; exact hroom⟩
  · rw [heq]
    exact hrange fun c hc => packet_pos hfit (hjunk c hc).1

/-- The noise block ends before `int32` does. -/
theorem runDraft_inRange (M : DraftModel) (calls : LlamaCalls) (anchor n : ℤ) {st : Engine} (h : st.InRange cfg)
    (hroom : ∀ c ∈ st.cells, cfg.FitsPos c.pos) : (st.runDraft cfg M calls anchor n).2.InRange cfg := by
  have htop : cfg.FitsPos (seqPosMax st.cells) := by
    have hlow := h.mark.le h.low
    have hle : seqPosMax st.cells ≤ 2 ^ 31 - 1 - max 1 cfg.blockSize := by
      refine seqPosMax_le (by unfold ModelConfig.FitsPos at hlow; omega) fun c hc => ?_
      have := hroom c hc
      unfold ModelConfig.FitsPos at this
      omega
    unfold ModelConfig.FitsPos
    omega
  have hnoise : ∀ c ∈ noiseBatch cfg calls.gen anchor n st.cells, 0 ≤ c.pos ∧ c.pos < 2 ^ 31 := by
    intro c hc
    obtain ⟨hlo, hhi⟩ := pos_of_mem_consec hc
    rw [List.length_map, List.length_range] at hhi
    have hlow := neg_one_le_seqPosMax st.cells
    exact ⟨by omega, htop.block_lt n (by omega)⟩
  unfold Engine.runDraft
  cases calls.noise with
  | ok => exact h.append hnoise
  | fails left =>
    refine h.append fun c hc => ?_
    obtain ⟨⟨d, hd, hdc⟩, -⟩ := mem_leftOver hc
    rw [hdc]
    exact hnoise d hd

theorem draft_inRange (M : DraftModel) (calls : LlamaCalls) (req : StepRequest)
    (hfit : cfg.FitsAll req.acceptedTokens) {st : Engine} (h : st.InRange cfg) :
    (st.draft cfg M calls req).2.InRange cfg := by
  obtain ⟨hin, hroom⟩ := accept_inRange calls hfit h
  unfold Engine.draft
  simp only
  split
  · obtain ⟨hlow, hmark, hcells⟩ := runDraft_inRange M calls _ req.maxDraftTokens hin hroom
    exact ⟨hlow, hmark, hcells⟩
  · exact hin

/-- The block size of a model is an `int32` itself. -/
theorem fresh_inRange (hblock : cfg.blockSize < 2 ^ 31) : Engine.fresh.InRange cfg :=
  ⟨le_rfl, by unfold ModelConfig.FitsPos Engine.fresh; simp only; omega, by simp [Engine.fresh]⟩

theorem session_draft_inRange (M : DraftModel) (calls : LlamaCalls) {req : DraftRequest}
    (hfit : cfg.FitsAll req.acceptedTokens) {s : Session} (h : s.engine.InRange cfg) :
    (s.draft cfg M calls req).2.2.engine.InRange cfg := by
  unfold Session.draft
  split
  · exact h
  · exact draft_inRange M calls (.ofWire req) hfit h

end DsparkEdge
