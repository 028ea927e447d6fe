import DsparkEdge.Engine
import Mathlib.Data.List.GetD

/-! What one engine operation does, once and for all: the bf16 codec in both directions, the rows a
    chunk hands to the encoder, and the two ways an injection can end. Every invariant of a session
    is derived from `injectFeatures_cases`.

        injectFeatures = (true,  cells ++ one cell per packet, in order)
                       | (false, cells ++ cells at positions of the packets)                      -/

namespace DsparkEdge

open Blocks SeqCache

/-! ### The bf16 codec -/

/-- The f32 a bf16 transport preserves: the low 16 bits cleared. -/
def clearLow (f : F32) : F32 := f &&& 0xFFFF0000#32

/-- The two halves of a 16-bit word make it up again. -/
theorem join_halves (u : BitVec 16) :
    ((u >>> 8).setWidth 8).setWidth 16 <<< 8 ||| (u.setWidth 8).setWidth 16 = u := by
  ext i hi
  by_cases h : i < 8
  · simp [h, hi]
  · simp [h, hi, Nat.add_sub_cancel' (Nat.le_of_not_lt h)]; omega

theorem low_half (a b : Byte) : (b.setWidth 16 <<< 8 ||| a.setWidth 16).setWidth 8 = a := by
  ext i hi
  simp

theorem high_half (a b : Byte) :
    ((b.setWidth 16 <<< 8 ||| a.setWidth 16) >>> 8).setWidth 8 = b := by
  ext i hi
  simp [show 8 + i < 16 by omega, show i < 16 by omega, BitVec.getLsbD_eq_getElem hi]

theorem ofBytes_toBytes (en : Endian) (u : BitVec 16) :
    ∃ a b, en.toBytes u = [a, b] ∧ en.ofBytes a b = u := by
  cases en with
  | little => exact ⟨_, _, rfl, join_halves u⟩
  | big => exact ⟨_, _, rfl, join_halves u⟩

theorem toBytes_ofBytes (en : Endian) (a b : Byte) : en.toBytes (en.ofBytes a b) = [a, b] := by
  cases en with
  | little => simp only [Endian.toBytes, Endian.ofBytes, low_half, high_half]
  | big => simp only [Endian.toBytes, Endian.ofBytes, low_half, high_half]

/-- Widening a truncated float clears its low half. -/
theorem widen_trunc (f : F32) : ((f >>> 16).setWidth 16).setWidth 32 <<< 16 = clearLow f := by
  rw [clearLow]
  ext i hi
  have hmask : (0xFFFF0000#32).getLsbD i = decide (16 ≤ i) := by
    revert i; decide
  simp only [BitVec.getElem_shiftLeft, BitVec.getElem_and, BitVec.getElem_setWidth,
    BitVec.getLsbD_setWidth, BitVec.getLsbD_ushiftRight]
  rw [← BitVec.getLsbD_eq_getElem (x := 0xFFFF0000#32) hi, hmask]
  by_cases h : 16 ≤ i
  · simp [h, hi, Nat.add_sub_cancel' h, Nat.not_lt.mpr h, show i - 16 < 16 by omega]
  · simp [h]

theorem trunc_widen (u : BitVec 16) : ((u.setWidth 32 <<< 16) >>> 16).setWidth 16 = u := by
  ext i hi
  simp [hi, show 16 + i < 32 by omega, show i < 32 by omega]

/-- One turn of the conversion loop. -/
theorem bf16ToF32_cons (en : Endian) (a b : Byte) (data : List Byte) (n : ℕ) :
    bf16ToF32 en (a :: b :: data) (n + 1) =
      (en.ofBytes a b).setWidth 32 <<< 16 :: bf16ToF32 en data n := by
  rw [bf16ToF32, List.range_succ_eq_map, List.map_cons, List.map_map]
  rfl

@[simp] theorem length_bf16ToF32 (en : Endian) (data : List Byte) (n : ℕ) :
    (bf16ToF32 en data n).length = n := by
  rw [bf16ToF32, List.length_map, List.length_range]

/-- Unpacking a packed row clears the low half of every value. -/
theorem bf16ToF32_packRow (en : Endian) (row : List F32) :
    bf16ToF32 en (packRow en row) row.length = row.map clearLow := by
  induction row with
  | nil => rfl
  | cons f row ih =>
    obtain ⟨a, b, hab, hf⟩ := ofBytes_toBytes en ((f >>> 16).setWidth 16)
    rw [packRow, List.flatMap_cons, packValue, hab, List.cons_append, List.cons_append,
      List.nil_append, List.length_cons, bf16ToF32_cons, hf, widen_trunc, ← packRow, ih,
      List.map_cons]

/-- Packing an unpacked buffer gives its bytes back. -/
theorem packRow_bf16ToF32 (en : Endian) :
    ∀ (n : ℕ) (data : List Byte), data.length = n * 2 → packRow en (bf16ToF32 en data n) = data
  | 0, data, h => by
    rw [Nat.zero_mul, List.length_eq_zero_iff] at h
    rw [h]; rfl
  | n + 1, data, h => by
    match data with
    | [] => simp at h
    | [_] => simp at h; omega
    | a :: b :: data =>
      have hlen : data.length = n * 2 := by simp only [List.length_cons] at h; omega
      rw [bf16ToF32_cons, packRow, List.flatMap_cons, packValue, trunc_widen, toBytes_ofBytes,
        ← packRow, packRow_bf16ToF32 en n data hlen]
      rfl

/-! ### Unpacking and packing chunks -/

/-- A packet passes the daemon's size check. -/
def SizeOk (cfg : ModelConfig) (tf : TokenFeatures) : Prop := tf.features.length = cfg.rowLen * 2

instance (cfg : ModelConfig) (tf : TokenFeatures) : Decidable (SizeOk cfg tf) :=
  inferInstanceAs (Decidable (_ = _))

theorem unpackFeatures_of_size {cfg : ModelConfig} {tf : TokenFeatures} (h : SizeOk cfg tf) :
    unpackFeatures cfg tf = bf16ToF32 cfg.endian tf.features cfg.rowLen := by
  exact if_neg (not_not.mpr h)

theorem length_unpackFeatures {cfg : ModelConfig} {tf : TokenFeatures} (h : SizeOk cfg tf) :
    (unpackFeatures cfg tf).length = cfg.rowLen := by
  rw [unpackFeatures_of_size h, length_bf16ToF32]

/-- A non-empty unpack passed the size check. -/
theorem sizeOk_of_unpack_ne_nil {cfg : ModelConfig} {tf : TokenFeatures}
    (h : unpackFeatures cfg tf ≠ []) : SizeOk cfg tf := by
  by_contra hs
  exact h (if_pos hs)

/-- Without tap layers every row is empty. -/
theorem unpackFeatures_of_rowLen_zero {cfg : ModelConfig} (h0 : cfg.rowLen = 0)
    (tf : TokenFeatures) : unpackFeatures cfg tf = [] := by
  rw [unpackFeatures, h0]
  split <;> rfl

theorem featureBlock_of_size {cfg : ModelConfig} {chunk : List TokenFeatures} {k i : ℕ}
    (hpos : 0 < cfg.rowLen) (h : SizeOk cfg (chunk.getD i default)) :
    featureBlock cfg chunk k i =
      .ok (((unpackFeatures cfg (chunk.getD i default)).drop (k * cfg.hiddenSize)).take
        cfg.hiddenSize) := by
  have hne : unpackFeatures cfg (chunk.getD i default) ≠ [] := by
    rw [← List.length_pos_iff, length_unpackFeatures h]; exact hpos
  rw [featureBlock, if_neg (by simpa [List.isEmpty_iff] using hne)]

theorem sizeOk_of_featureBlock {cfg : ModelConfig} {chunk : List TokenFeatures} {k i : ℕ}
    {s : List F32} (h : featureBlock cfg chunk k i = .ok s) :
    SizeOk cfg (chunk.getD i default) := by
  refine sizeOk_of_unpack_ne_nil fun hnil => ?_
  rw [featureBlock, hnil] at h
  cases h

/-- A chunk is packed only if every packet passes the size check (or there is nothing to pack). -/
theorem sizeOk_of_packChunk {cfg : ModelConfig} {chunk : List TokenFeatures} {buf : List F32}
    (h : packChunk cfg chunk = .ok buf) (hpos : 0 < cfg.rowLen) : ∀ tf ∈ chunk, SizeOk cfg tf := by
  intro tf htf
  obtain ⟨i, hi, rfl⟩ := List.getElem_of_mem htf
  have hL : 0 < cfg.targetLayerIds.length := Nat.pos_of_mul_pos_right hpos
  obtain ⟨s, hs⟩ := fillBlocks_ok h 0 hL i hi
  have := sizeOk_of_featureBlock hs
  rwa [List.getD_eq_getElem _ _ hi] at this

/-- The copy loops over packets of the right size: row `i` is packet `i`, unpacked. -/
theorem packChunk_fill {cfg : ModelConfig} {chunk : List TokenFeatures} (hpos : 0 < cfg.rowLen)
    (h : ∀ tf ∈ chunk, SizeOk cfg tf) : ∃ buf, packChunk cfg chunk = .ok buf ∧
      ∀ i (hi : i < chunk.length), rowAt cfg.rowLen i buf = unpackFeatures cfg chunk[i] := by
  have hsize : ∀ i < chunk.length, SizeOk cfg (chunk.getD i default) := fun i hi => by
    rw [List.getD_eq_getElem _ _ hi]; exact h _ (List.getElem_mem hi)
  obtain ⟨buf, hbuf, -, hin⟩ := fillBlocks_row
    (fun k _ i hi => featureBlock_of_size (k := k) hpos (hsize i hi))
    (fun k hk i hi => length_block (length_unpackFeatures (hsize i hi)) hk)
    (List.length_replicate (a := (0 : F32)))
  refine ⟨buf, hbuf, fun i hi => ?_⟩
  rw [← List.getD_eq_getElem _ default hi]
  refine rowAt_eq (length_unpackFeatures (hsize i hi)) fun k hk h hh => ?_
  rw [hin i hi k hk h hh, List.getElem?_take, if_pos hh, List.getElem?_drop]

/-- The encoder's input, whenever there is one. -/
theorem packChunk_rows {cfg : ModelConfig} {chunk : List TokenFeatures} {buf : List F32}
    (h : packChunk cfg chunk = .ok buf) {i : ℕ} (hi : i < chunk.length) :
    rowAt cfg.rowLen i buf = unpackFeatures cfg chunk[i] := by
  rcases Nat.eq_zero_or_pos cfg.rowLen with h0 | hpos
  · rw [unpackFeatures_of_rowLen_zero h0, rowAt, h0, List.take_zero]
  · obtain ⟨out, hout, hrows⟩ := packChunk_fill hpos (sizeOk_of_packChunk h hpos)
    rw [Except.ok.inj (h.symm.trans hout)]
    exact hrows i hi

/-- Packets of the right size can be packed. -/
theorem packChunk_of_size {cfg : ModelConfig} {chunk : List TokenFeatures}
    (h : ∀ tf ∈ chunk, SizeOk cfg tf) : ∃ buf, packChunk cfg chunk = .ok buf := by
  rcases Nat.eq_zero_or_pos cfg.targetLayerIds.length with hL | hL
  · exact ⟨_, by rw [packChunk, hL]; rfl⟩
  · obtain ⟨buf, hbuf, -⟩ := packChunk_fill (Nat.mul_pos hL cfg.hidden_pos) h
    exact ⟨buf, hbuf⟩

/-! ### Injection -/

/-- What a packet leaves in the cache when it is injected. -/
def cellVal (cfg : ModelConfig) (gen : ℕ) (tf : TokenFeatures) : CellVal :=
  .injected gen tf.token (unpackFeatures cfg tf)

/-- The cells of a list of packets, each at its own position. -/
def packetCells (cfg : ModelConfig) (gen : ℕ) (tokens : List TokenFeatures) : Cache :=
  tokens.map fun tf => ⟨tf.position, cellVal cfg gen tf⟩

theorem packetCells_consec (cfg : ModelConfig) (gen : ℕ) {start : ℤ} {tokens : List TokenFeatures}
    (h : PositionsFrom start tokens) :
    packetCells cfg gen tokens = consec start (tokens.map (cellVal cfg gen)) := by
  induction tokens generalizing start with
  | nil => rfl
  | cons tf rest ih =>
    obtain ⟨hpos, hrest⟩ := h
    have := ih hrest
    simp only [packetCells, List.map_cons, consec] at this ⊢
    rw [this, hpos]

theorem injectBatch_eq {cfg : ModelConfig} {gen : ℕ} {chunk : List TokenFeatures} {buf : List F32}
    (h : packChunk cfg chunk = .ok buf) : injectBatch cfg gen chunk buf = packetCells cfg gen chunk := by
  refine List.ext_getElem (by simp [injectBatch, packetCells]) fun i hi _ => ?_
  have hi' : i < chunk.length := by simpa [injectBatch] using hi
  simp only [injectBatch, packetCells, List.getElem_mapIdx, List.getElem_map, cellVal,
    packChunk_rows h hi']

/-- Cells a failing injection of `tokens` may leave: of this call, at positions of the packets. -/
def Junk (gen : ℕ) (tokens : List TokenFeatures) (junk : Cache) : Prop :=
  ∀ c ∈ junk, (∃ tf ∈ tokens, c.pos = tf.position) ∧ c.val.gen = gen

theorem mem_packetCells {cfg : ModelConfig} {gen : ℕ} {tokens : List TokenFeatures}
    {c : Cell CellVal} (h : c ∈ packetCells cfg gen tokens) :
    (∃ tf ∈ tokens, c.pos = tf.position) ∧ c.val.gen = gen := by
  obtain ⟨tf, htf, rfl⟩ := List.mem_map.mp h
  exact ⟨⟨tf, htf, rfl⟩, rfl⟩

/-- The injection loop either adds one cell per packet, or stops having added only cells at
    positions of its packets. -/
theorem injectLoop_cases (cfg : ModelConfig) (calls : LlamaCalls) :
    ∀ (chunks : List (List TokenFeatures)) (j : ℕ) (cells : Cache),
      injectLoop cfg calls j chunks cells =
        (true, cells ++ packetCells cfg calls.gen chunks.flatten) ∨
      ∃ junk, injectLoop cfg calls j chunks cells = (false, cells ++ junk) ∧
        Junk calls.gen chunks.flatten junk
  | [], j, cells => Or.inl (by simp [injectLoop, packetCells])
  | chunk :: rest, j, cells => by
    have stop : ∃ junk, ((false, cells) : Bool × Cache) = (false, cells ++ junk) ∧
        Junk calls.gen (chunk :: rest).flatten junk :=
      ⟨[], by rw [List.append_nil], fun c hc => absurd hc (List.not_mem_nil)⟩
    rw [injectLoop]
    cases hpack : packChunk cfg chunk with
    | error => exact Or.inr stop
    | ok buf =>
      cases calls.chunk j with
      | encodeFails => exact Or.inr stop
      | noOutput => exact Or.inr stop
      | decodeFails left =>
        refine Or.inr ⟨_, rfl, fun c hc => ?_⟩
        obtain ⟨⟨d, hd, hdc⟩, hgen⟩ := mem_leftOver hc
        rw [injectBatch_eq hpack] at hd
        obtain ⟨⟨tf, htf, hpos⟩, -⟩ := mem_packetCells hd
        exact ⟨⟨tf, List.mem_append_left _ htf, hdc.trans hpos⟩, hgen⟩
      | ok =>
        simp only [injectBatch_eq hpack]
        rcases injectLoop_cases cfg calls rest (j + 1) (cells ++ packetCells cfg calls.gen chunk)
          with h | ⟨junk, h, hjunk⟩
        · left
          rw [h, List.append_assoc, List.flatten_cons]
          simp only [packetCells, List.map_append]
        · right
          refine ⟨packetCells cfg calls.gen chunk ++ junk, by rw [h, List.append_assoc],
            fun c hc => ?_⟩
          rcases List.mem_append.mp hc with hc | hc
          · obtain ⟨⟨tf, htf, hpos⟩, hgen⟩ := mem_packetCells hc
            exact ⟨⟨tf, List.mem_append_left _ htf, hpos⟩, hgen⟩
          · obtain ⟨⟨tf, htf, hpos⟩, hgen⟩ := hjunk c hc
            exact ⟨⟨tf, List.mem_append_right _ htf, hpos⟩, hgen⟩

theorem injectFeatures_cases (cfg : ModelConfig) (calls : LlamaCalls)
    (tokens : List TokenFeatures) (cells : Cache) :
    injectFeatures cfg calls tokens cells = (true, cells ++ packetCells cfg calls.gen tokens) ∨
    ∃ junk, injectFeatures cfg calls tokens cells = (false, cells ++ junk) ∧
      Junk calls.gen tokens junk := by
  have := injectLoop_cases cfg calls (chunks cfg.nUbatch tokens) 0 cells
  rwa [flatten_chunks cfg.ubatch_pos] at this

/-- With every encode and decode succeeding, packets of the right size are injected. -/
theorem injectLoop_succeed (cfg : ModelConfig) {calls : LlamaCalls}
    (hcalls : ∀ j, calls.chunk j = .ok) (chunks : List (List TokenFeatures)) (j : ℕ) (cells : Cache)
    (h : ∀ tf ∈ chunks.flatten, SizeOk cfg tf) : (injectLoop cfg calls j chunks cells).1 = true := by
  induction chunks generalizing j cells with
  | nil => rfl
  | cons chunk rest ih =>
    obtain ⟨buf, hbuf⟩ := packChunk_of_size fun tf htf => h tf (List.mem_append_left _ htf)
    simp only [injectLoop, hbuf, hcalls j]
    exact ih _ _ fun tf htf => h tf (List.mem_append_right _ htf)

theorem injectFeatures_succeed (cfg : ModelConfig) {calls : LlamaCalls}
    (hcalls : ∀ j, calls.chunk j = .ok) {tokens : List TokenFeatures}
    (h : ∀ tf ∈ tokens, SizeOk cfg tf) (cells : Cache) :
    injectFeatures cfg calls tokens cells = (true, cells ++ packetCells cfg calls.gen tokens) := by
  have hok := injectLoop_succeed cfg hcalls (chunks cfg.nUbatch tokens) 0 cells
    (by rwa [flatten_chunks cfg.ubatch_pos])
  rcases injectFeatures_cases cfg calls tokens cells with heq | ⟨junk, heq, -⟩
  · exact heq
  · rw [injectFeatures] at heq; rw [heq] at hok; cases hok

/-! ### The two ways a call can end -/

/-- The cells at or below the mark, which a draft keeps. -/
def Engine.confirmed (st : Engine) : Cache := seqRm st.cells (st.kvConfirmedMax + 1)

theorem prefill_cases (cfg : ModelConfig) (calls : LlamaCalls) (tokens : List TokenFeatures)
    (st : Engine) :
    st.prefill cfg calls tokens =
        (true, (tokens.getLast?.map fun tf => tf.position + 1).getD 0,
          { st with cells := st.cells ++ packetCells cfg calls.gen tokens }.advance tokens) ∨
      ∃ junk, st.prefill cfg calls tokens = (false, 0, { st with cells := st.cells ++ junk }) ∧
        Junk calls.gen tokens junk := by
  unfold Engine.prefill
  rcases injectFeatures_cases cfg calls tokens st.cells with heq | ⟨junk, heq, hjunk⟩
  · left; rw [heq]; rfl
  · right; exact ⟨junk, by rw [heq]; rfl, hjunk⟩

theorem prefill_of_ok {cfg : ModelConfig} {calls : LlamaCalls} {tokens : List TokenFeatures}
    {st : Engine} (hok : (st.prefill cfg calls tokens).1 = true) :
    (st.prefill cfg calls tokens).2.2 =
      { st with cells := st.cells ++ packetCells cfg calls.gen tokens }.advance tokens := by
  rcases prefill_cases cfg calls tokens st with heq | ⟨junk, heq, -⟩
  · rw [heq]
  · rw [heq] at hok; cases hok

theorem accept_ends (cfg : ModelConfig) (calls : LlamaCalls) (tokens : List TokenFeatures)
    (st : Engine) :
    st.accept cfg calls tokens =
        (true, { st with cells := st.confirmed ++ packetCells cfg calls.gen tokens }.advance tokens) ∨
      ∃ junk, st.accept cfg calls tokens = (false, { st with cells := st.confirmed ++ junk }) ∧
        Junk calls.gen tokens junk := by
  unfold Engine.accept
  rcases injectFeatures_cases cfg calls tokens st.confirmed with heq | ⟨junk, heq, hjunk⟩
  · left; rw [Engine.confirmed] at heq; rw [heq]; rfl
  · right; rw [Engine.confirmed] at heq; exact ⟨junk, by rw [heq]; rfl, hjunk⟩

/-- A draft whose packets were refused is answered with that error, and nothing is drafted. -/
theorem draft_refused {cfg : ModelConfig} (M : DraftModel) {calls : LlamaCalls} (req : StepRequest)
    {st st1 : Engine} (h : st.accept cfg calls req.acceptedTokens = (false, st1)) :
    st.draft cfg M calls req =
      ({ sessionId := req.sessionId, stepId := req.stepId, error := "feature injection failed" },
        st1) := by
  unfold Engine.draft
  rw [h]; rfl

/-- A draft whose packets were accepted adds noise beyond the last cell, and leaves the marks where
    the packets put them. -/
theorem draft_accepted {cfg : ModelConfig} (M : DraftModel) {calls : LlamaCalls} (req : StepRequest)
    {st st1 : Engine} (h : st.accept cfg calls req.acceptedTokens = (true, st1)) :
    ∃ noise, (st.draft cfg M calls req).2.cells = st1.cells ++ noise ∧
      (∀ c ∈ noise, seqPosMax st1.cells < c.pos) ∧
      (st.draft cfg M calls req).2.kvConfirmedMax = st1.kvConfirmedMax ∧
      (st.draft cfg M calls req).2.lastTokenId = st1.lastTokenId := by
  obtain ⟨noise, hrun, hnoise⟩ := runDraft_cells cfg M calls (st1.anchor req) req.maxDraftTokens st1
  unfold Engine.draft
  rw [h]
  simp only [if_true, hrun, and_true]
  exact ⟨noise, rfl, fun c hc => (hnoise c hc).1⟩

/-! ### Where the cells come from -/

/-- Every cell was decoded by a call of generation `gen`. -/
def AllGen (gen : ℕ) (cells : Cache) : Prop := ∀ c ∈ cells, c.val.gen = gen

theorem AllGen.seqRm {gen : ℕ} {cells : Cache} (h : AllGen gen cells) (p0 : ℤ) :
    AllGen gen (seqRm cells p0) := fun c hc => h c (mem_seqRm.mp hc).1

theorem injectFeatures_gen (cfg : ModelConfig) {calls : LlamaCalls} (tokens : List TokenFeatures)
    {cells : Cache} (h : AllGen calls.gen cells) :
    AllGen calls.gen (injectFeatures cfg calls tokens cells).2 := by
  rcases injectFeatures_cases cfg calls tokens cells with heq | ⟨junk, heq, hjunk⟩
  · rw [heq]; exact List.forall_mem_append.mpr ⟨h, fun c hc => (mem_packetCells hc).2⟩
  · rw [heq]; exact List.forall_mem_append.mpr ⟨h, fun c hc => (hjunk c hc).2⟩

theorem prefill_gen (cfg : ModelConfig) {calls : LlamaCalls} (tokens : List TokenFeatures)
    {st : Engine} (h : AllGen calls.gen st.cells) :
    AllGen calls.gen (st.prefill cfg calls tokens).2.2.cells := by
  have hinj := injectFeatures_gen cfg tokens h
  unfold Engine.prefill
  simp only
  split
  · rw [advance_cells]; exact hinj
  · exact hinj

theorem accept_gen (cfg : ModelConfig) {calls : LlamaCalls} (tokens : List TokenFeatures)
    {st : Engine} (h : AllGen calls.gen st.cells) :
    AllGen calls.gen (st.accept cfg calls tokens).2.cells := by
  have hinj := injectFeatures_gen cfg tokens (AllGen.seqRm h (st.kvConfirmedMax + 1))
  unfold Engine.accept
  simp only
  split
  · rw [advance_cells]; exact hinj
  · exact hinj

theorem draft_gen (cfg : ModelConfig) (M : DraftModel) {calls : LlamaCalls} (req : StepRequest)
    {st : Engine} (h : AllGen calls.gen st.cells) :
    AllGen calls.gen (st.draft cfg M calls req).2.cells := by
  have hacc := accept_gen cfg req.acceptedTokens h
  unfold Engine.draft
  simp only
  split
  · obtain ⟨xs, hrun, hxs⟩ := runDraft_cells cfg M calls
      ((st.accept cfg calls req.acceptedTokens).2.anchor req) req.maxDraftTokens
      (st.accept cfg calls req.acceptedTokens).2
    rw [hrun]
    exact List.forall_mem_append.mpr ⟨hacc, fun c hc => (hxs c hc).2⟩
  · exact hacc

end DsparkEdge
