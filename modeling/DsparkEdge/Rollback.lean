import DsparkEdge.EngineRuns
import DsparkEdge.Positions

/-! What a draft keeps of the cache when the server's `position` is below the daemon's own mark. The
    engine ignores the field and truncates at `kv_confirmed_max`, so packets that start over from
    `position + 1` are appended to what the earlier packets left at the same positions.

        confirmed before:   0 … p  p+1 … kv
        after the call:     0 … p  p+1 … kv  p+1 … p+m │ noise
                                   ▲ a rolling-back server meant these to go

    Without a rollback (`p = kv`) the two truncation points are the same. All this is about packets whose
    positions fit `llama_pos`; a cast that wraps would move the mark itself. -/

namespace DsparkEdge

open SeqCache

/-! ### Sessions that any calls lead to -/

/-- The states of one session: any calls in any order, whatever llama.cpp makes of them, as long as their
    packets' positions fit. -/
inductive Session.Reachable (cfg : ModelConfig) (M : DraftModel) : Session → Prop
  | fresh : Reachable cfg M .fresh
  | prefill {s : Session} (calls : LlamaCalls) (req : PrefillRequest) (hfit : cfg.FitsAll req.tokens)
      (h : Reachable cfg M s) : Reachable cfg M (s.prefill cfg calls req).2.2
  | draft {s : Session} (calls : LlamaCalls) (req : DraftRequest) (hfit : cfg.FitsAll req.acceptedTokens)
      (h : Reachable cfg M s) : Reachable cfg M (s.draft cfg M calls req).2.2
  | reset {s : Session} (h : Reachable cfg M s) : Reachable cfg M s.reset.2.2

/-- No position of a reachable session leaves `int32`. -/
theorem reachable_inRange {cfg : ModelConfig} {M : DraftModel} {s : Session} (hblock : cfg.blockSize < 2 ^ 31)
    (h : s.Reachable cfg M) : s.engine.InRange cfg := by
  induction h with
  | fresh => exact fresh_inRange hblock
  | prefill calls req hfit _ ih => exact prefill_inRange calls hfit ih
  | draft calls req hfit _ ih => exact session_draft_inRange M calls hfit ih
  | reset => exact fresh_inRange hblock

/-- Once something is confirmed, the cache has a cell at the mark. -/
structure Engine.HoldsMark (st : Engine) : Prop where
  low : -1 ≤ st.kvConfirmedMax
  held : 0 ≤ st.kvConfirmedMax → ∃ c ∈ st.cells, c.pos = st.kvConfirmedMax

theorem Engine.HoldsMark.append {st : Engine} (h : st.HoldsMark) (xs : Cache) :
    Engine.HoldsMark { st with cells := st.cells ++ xs } :=
  ⟨h.low, fun h0 => (h.held h0).imp fun _ hc => ⟨List.mem_append_left _ hc.1, hc.2⟩⟩

/-- Truncating at the mark keeps the cell it sits at. -/
theorem Engine.HoldsMark.confirmed {st : Engine} (h : st.HoldsMark) :
    Engine.HoldsMark { st with cells := st.confirmed } := by
  refine ⟨h.low, fun h0 => ?_⟩
  obtain ⟨c, hc, hpos⟩ := h.held h0
  exact ⟨c, mem_seqRm.mpr ⟨hc, by omega⟩, hpos⟩

/-- Injected packets carry the mark along. -/
theorem Engine.HoldsMark.advance {st : Engine} (h : st.HoldsMark) (cfg : ModelConfig) (gen : ℕ)
    (tokens : List TokenFeatures) :
    ({ st with cells := st.cells ++ packetCells cfg gen tokens }.advance tokens).HoldsMark := by
  unfold Engine.advance
  cases hlast : tokens.getLast? with
  | none => exact h.append _
  | some tf =>
    refine ⟨by simp only; omega, fun _ => ⟨⟨tf.position, cellVal cfg gen tf⟩, ?_, rfl⟩⟩
    exact List.mem_append_right _ (List.mem_map_of_mem (List.mem_of_getLast? hlast))

theorem prefill_holdsMark (cfg : ModelConfig) (calls : LlamaCalls) (tokens : List TokenFeatures)
    {st : Engine} (h : st.HoldsMark) : (st.prefill cfg calls tokens).2.2.HoldsMark := by
  rcases prefill_cases cfg calls tokens st with heq | ⟨junk, heq, -⟩
  · rw [heq]; exact h.advance cfg calls.gen tokens
  · rw [heq]; exact h.append junk

theorem accept_holdsMark (cfg : ModelConfig) (calls : LlamaCalls) (tokens : List TokenFeatures)
    {st : Engine} (h : st.HoldsMark) : (st.accept cfg calls tokens).2.HoldsMark := by
  rcases accept_ends cfg calls tokens st with heq | ⟨junk, heq, -⟩
  · rw [heq]; exact h.confirmed.advance cfg calls.gen tokens
  · rw [heq]; exact h.confirmed.append junk

theorem draft_holdsMark (cfg : ModelConfig) (M : DraftModel) (calls : LlamaCalls) (req : StepRequest)
    {st : Engine} (h : st.HoldsMark) : (st.draft cfg M calls req).2.HoldsMark := by
  have hacc := accept_holdsMark cfg calls req.acceptedTokens h
  rcases hst : st.accept cfg calls req.acceptedTokens with ⟨ok, st1⟩
  rw [hst] at hacc
  cases ok with
  | false => rw [draft_refused M req hst]; exact hacc
  | true =>
    obtain ⟨noise, hcells, -, hkv, -⟩ := draft_accepted M req hst
    obtain ⟨hlow, hheld⟩ := hacc.append noise
    exact ⟨by rw [hkv]; exact hlow, by rw [hkv, hcells]; exact hheld⟩

theorem reset_holdsMark (st : Engine) : st.reset.HoldsMark :=
  ⟨by simp [Engine.reset], by simp [Engine.reset]⟩

theorem reachable_holdsMark {cfg : ModelConfig} {M : DraftModel} {s : Session}
    (h : s.Reachable cfg M) : s.engine.HoldsMark := by
  induction h with
  | fresh => exact reset_holdsMark .fresh
  | prefill calls req _ _ ih => exact prefill_holdsMark cfg calls req.tokens ih
  | draft calls req _ _ ih =>
    unfold Session.draft
    split
    · exact ih
    · exact draft_holdsMark cfg M calls (.ofWire req) ih
  | @reset s _ _ => exact reset_holdsMark s.engine

/-! ### One successful draft -/

/-- An answer with `ok` means that the packets were accepted. -/
theorem accept_of_draft_ok {cfg : ModelConfig} {M : DraftModel} {calls : LlamaCalls}
    {req : StepRequest} {st : Engine} (h : (st.draft cfg M calls req).1.ok = true) :
    st.accept cfg calls req.acceptedTokens =
      (true, { st with
        cells := st.confirmed ++ packetCells cfg calls.gen req.acceptedTokens }.advance
          req.acceptedTokens) := by
  rcases accept_ends cfg calls req.acceptedTokens st with heq | ⟨junk, heq, -⟩
  · exact heq
  · rw [draft_refused M req heq] at h; cases h

/-- The mark a request's packets lead to: unchanged without packets, else the last one's position as a
    `llama_pos`. -/
def markAfter (st : Engine) (tokens : List TokenFeatures) : ℤ :=
  match tokens.getLast? with
  | none => st.kvConfirmedMax
  | some tf => llamaPos tf.position

theorem advance_mark (st : Engine) {cfg : ModelConfig} {tokens : List TokenFeatures} (hfit : cfg.FitsAll tokens) :
    (st.advance tokens).kvConfirmedMax = markAfter st tokens := by
  unfold Engine.advance markAfter
  cases hlast : tokens.getLast? with
  | none => rfl
  | some tf => exact (llamaPos_eq (hfit tf (List.mem_of_getLast? hlast))).symm

/-- Packets behind the request's position end at the new mark. -/
theorem markAfter_eq (st : Engine) {cfg : ModelConfig} {position : ℕ} {tokens : List TokenFeatures}
    (h : PositionsFrom (position + 1) tokens) (hfit : cfg.FitsAll tokens) :
    markAfter st tokens = if tokens = [] then st.kvConfirmedMax else position + tokens.length := by
  rw [← advance_mark st hfit]
  unfold Engine.advance
  cases hlast : tokens.getLast? with
  | none => rw [if_pos (List.getLast?_eq_none_iff.mp hlast)]
  | some tf =>
    have hne : tokens ≠ [] := by rintro rfl; simp at hlast
    have := positionsFrom_getLast h hlast
    rw [if_neg hne]
    simp only; omega

theorem packets_le_mark {cfg : ModelConfig} (gen : ℕ) (st : Engine) {position : ℕ}
    {tokens : List TokenFeatures} (h : PositionsFrom (position + 1) tokens) (hfit : cfg.FitsAll tokens) :
    ∀ c ∈ packetCells cfg gen tokens, c.pos ≤ markAfter st tokens := by
  intro c hc
  have hne : tokens ≠ [] := by rintro rfl; simp [packetCells] at hc
  rw [packetCells_consec cfg gen h] at hc
  have hlast := (pos_of_mem_consec hc).2
  rw [markAfter_eq st h hfit, if_neg hne]
  simp only [List.length_map] at hlast
  omega

theorem Engine.HoldsMark.le_seqPosMax {st : Engine} (h : st.HoldsMark) :
    st.kvConfirmedMax ≤ seqPosMax st.cells := by
  have hlow := neg_one_le_seqPosMax st.cells
  rcases lt_or_ge st.kvConfirmedMax 0 with hneg | h0
  · omega
  · obtain ⟨c, hc, hpos⟩ := h.held h0
    exact hpos.ge.trans (SeqCache.le_seqPosMax hc)

/-- The highest confirmed position is the mark. -/
theorem seqPosMax_confirmed {st : Engine} (h : st.HoldsMark) :
    seqPosMax st.confirmed = st.kvConfirmedMax := by
  refine le_antisymm (seqPosMax_le h.low fun c hc => ?_) h.confirmed.le_seqPosMax
  have := (mem_seqRm.mp hc).2
  omega

/-- After a successful draft the cache holds the confirmed cells, the packets, and noise beyond the
    mark. -/
theorem draft_ok_cells {cfg : ModelConfig} {M : DraftModel} {calls : LlamaCalls} {req : StepRequest}
    {st : Engine} (h : st.HoldsMark) (hfit : cfg.FitsAll req.acceptedTokens)
    (hok : (st.draft cfg M calls req).1.ok = true) :
    (st.draft cfg M calls req).2.kvConfirmedMax = markAfter st req.acceptedTokens ∧
      ∃ noise, (st.draft cfg M calls req).2.cells =
          st.confirmed ++ packetCells cfg calls.gen req.acceptedTokens ++ noise ∧
        ∀ c ∈ noise, markAfter st req.acceptedTokens < c.pos := by
  have hacc := accept_of_draft_ok hok
  have hheld := accept_holdsMark cfg calls req.acceptedTokens h
  obtain ⟨noise, hcells, hnoise, hkv, -⟩ := draft_accepted M req hacc
  rw [hacc] at hheld
  have hmark : ({ st with cells := st.confirmed ++ packetCells cfg calls.gen req.acceptedTokens
      }.advance req.acceptedTokens).kvConfirmedMax = markAfter st req.acceptedTokens :=
    advance_mark _ hfit
  refine ⟨hkv.trans hmark, noise, by rw [hcells, advance_cells], fun c hc => ?_⟩
  rw [← hmark]
  exact lt_of_le_of_lt hheld.le_seqPosMax (hnoise c hc)

/-- What the wire contract asks of a draft from `st` to `st'`: the confirmed cells are those at or
    below the request's position, then one per packet, up to the mark. -/
def HonoursPosition (cfg : ModelConfig) (gen : ℕ) (req : DraftRequest) (st st' : Engine) : Prop :=
  st'.confirmed =
      seqRm st.confirmed (req.position + 1) ++ packetCells cfg gen req.acceptedTokens ∧
    seqPosMax st'.confirmed = st'.kvConfirmedMax

/-- Confirmed cells and packets, cut at the new mark. -/
theorem honoursPosition_iff {cfg : ModelConfig} {gen : ℕ} {req : DraftRequest} {st st' : Engine}
    {noise : Cache} (hheld : st'.HoldsMark)
    (hpos : PositionsFrom (req.position + 1) req.acceptedTokens)
    (hfit : cfg.FitsAll req.acceptedTokens) (hp : (req.position : ℤ) ≤ st.kvConfirmedMax)
    (hmark : st'.kvConfirmedMax = markAfter st req.acceptedTokens)
    (hcells : st'.cells = st.confirmed ++ packetCells cfg gen req.acceptedTokens ++ noise)
    (hnoise : ∀ c ∈ noise, st'.kvConfirmedMax < c.pos) :
    HonoursPosition cfg gen req st st' ↔
      ∀ c ∈ st.confirmed, c.pos ≤ st'.kvConfirmedMax → c.pos ≤ req.position := by
  have hbelow : ∀ c ∈ packetCells cfg gen req.acceptedTokens, c.pos < st'.kvConfirmedMax + 1 := by
    intro c hc
    have := packets_le_mark gen st hpos hfit c hc
    omega
  have hbeyond : ∀ c ∈ noise, st'.kvConfirmedMax + 1 ≤ c.pos := fun c hc => hnoise c hc
  have hconf : st'.confirmed = seqRm st.confirmed (st'.kvConfirmedMax + 1) ++
      packetCells cfg gen req.acceptedTokens := by
    rw [Engine.confirmed, hcells, seqRm_append, seqRm_append, seqRm_eq_self hbelow,
      seqRm_eq_nil hbeyond, List.append_nil]
  have hle : (req.position : ℤ) + 1 ≤ st'.kvConfirmedMax + 1 := by
    rw [hmark, markAfter_eq st hpos hfit]
    split <;> omega
  rw [HonoursPosition, and_iff_left (seqPosMax_confirmed hheld), hconf, List.append_left_inj,
    seqRm_eq_seqRm_iff hle]
  simp only [Int.lt_add_one_iff]

/-- POSITION: while the positions fit `llama_pos`, a successful draft keeps every confirmed cell, wherever the
    request's position is, and puts the accepted packets behind them; the mark is the last packet's position,
    and again no position leaves `int32`. This is what the wire contract asks for exactly when no confirmed cell
    lies between the request's position and the new mark. -/
theorem draft_keeps_confirmed {cfg : ModelConfig} {M : DraftModel} (hblock : cfg.blockSize < 2 ^ 31) {s : Session}
    (h : s.Reachable cfg M) (calls : LlamaCalls) {req : DraftRequest}
    (hfresh : s.lastStepId < req.stepId) (hp : (req.position : ℤ) ≤ s.engine.kvConfirmedMax)
    (hpos : PositionsFrom (req.position + 1) req.acceptedTokens) (hfit : cfg.FitsAll req.acceptedTokens)
    (hok : (s.draft cfg M calls req).1.ok = true) :
    let st := s.engine
    let st' := (s.draft cfg M calls req).2.2.engine
    st'.kvConfirmedMax = markAfter st req.acceptedTokens ∧
      (∃ noise, st'.cells =
          st.confirmed ++ packetCells cfg calls.gen req.acceptedTokens ++ noise ∧
        ∀ c ∈ noise, st'.kvConfirmedMax < c.pos) ∧
      st'.InRange cfg ∧
      (HonoursPosition cfg calls.gen req st st' ↔
        ∀ c ∈ st.confirmed, c.pos ≤ st'.kvConfirmedMax → c.pos ≤ req.position) := by
  have hheld : s.engine.HoldsMark := reachable_holdsMark h
  have hheld' := draft_holdsMark cfg M calls (.ofWire req) hheld
  have hrange := session_draft_inRange M calls hfit (reachable_inRange hblock h)
  rw [draft_executed cfg M calls hfresh] at hok hrange ⊢
  obtain ⟨hmark, noise, hcells, hnoise⟩ := draft_ok_cells hheld hfit hok
  rw [← hmark] at hnoise
  exact ⟨hmark, ⟨noise, hcells, hnoise⟩, hrange,
    honoursPosition_iff hheld' hpos hfit hp hmark hcells hnoise⟩

/-- Two prompt tokens are confirmed; the server goes back to position 0 and sends another token for
    position 1. -/
def rolledBack : Session × DraftRequest :=
  ((Session.fresh.prefill smallConfig (.succeed 1) ⟨1, [⟨7, 0, [1, 2]⟩, ⟨8, 1, [3, 4]⟩], true⟩).2.2,
    ⟨1, 1, [⟨9, 1, [5, 6]⟩], 0, 4, true, 9⟩)

/-- Nothing fails, every position fits, and the cache ends with two confirmed cells at position 1. -/
theorem rollback_keeps_both : ¬∀ (cfg : ModelConfig) (M : DraftModel) (s : Session) (calls : LlamaCalls)
    (req : DraftRequest), s.Reachable cfg M → s.lastStepId < req.stepId →
    (req.position : ℤ) ≤ s.engine.kvConfirmedMax →
    PositionsFrom (req.position + 1) req.acceptedTokens → cfg.FitsAll req.acceptedTokens →
    (s.draft cfg M calls req).1.ok = true →
    HonoursPosition cfg calls.gen req s.engine (s.draft cfg M calls req).2.2.engine := by
  intro h
  have hreach : rolledBack.1.Reachable smallConfig (constModel [5]) := .prefill _ _ (by decide) .fresh
  have := h smallConfig (constModel [5]) rolledBack.1 (.succeed 1) rolledBack.2 hreach
    (by decide) (by decide) ⟨rfl, trivial⟩ (by decide) (by decide)
  revert this
  unfold HonoursPosition
  decide

/-- The same session without a rollback: the packet at position 2 goes behind both prompt cells. -/
theorem draft_keeps_confirmed_small :
    let req : DraftRequest := ⟨1, 1, [⟨9, 2, [5, 6]⟩], 1, 4, true, 9⟩
    let st' := (rolledBack.1.draft smallConfig (constModel [5]) (.succeed 1) req).2.2.engine
    HonoursPosition smallConfig 1 req rolledBack.1.engine st' ∧ st'.kvConfirmedMax = 2 ∧
      st'.InRange smallConfig := by
  intro req st'
  have hreach : rolledBack.1.Reachable smallConfig (constModel [5]) := .prefill _ _ (by decide) .fresh
  obtain ⟨hmark, -, hrange, hiff⟩ := @draft_keeps_confirmed smallConfig (constModel [5]) (by decide) _ hreach
    (.succeed 1) req (by decide) (by decide) ⟨rfl, trivial⟩ (by decide) (by decide)
  exact ⟨hiff.mpr (by decide), hmark, hrange⟩

end DsparkEdge
