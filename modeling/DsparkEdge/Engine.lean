import DsparkEdge.Capture
import DsparkEdge.Lib.SeqCache

/-! The edge's draft engine (`dspark_engine.cpp`). One session owns one `Engine`: the draft KV cache
    and the marks that say how much of it is confirmed.

    llama.cpp is a parameter twice over. `DraftModel` is what the draft network computes (candidates
    and confidences, a function of the cache and the noise block). `LlamaCalls` is what goes wrong
    during one engine call: which encode or decode of the injection loop fails, and whether the
    noise decode does; a failing decode may leave cells at positions of its own batch.

        draft:  seq_rm(kv_confirmed_max+1) ─▶ inject accepted ─▶ advance marks ─▶ decode noise
                                               │ fails: reply ok=false, marks untouched

    A cell records what was decoded into it: the encoder's input row (with the token whose packet it
    came from) or a noise token, and the generation of the call that decoded it. The last is a ghost
    and no function reads it.

    Positions have no bound here. The source casts them to `llama_pos`, an `int32`, where it builds the
    inject batch and where it moves the mark; the casts do nothing and no sum overflows while the positions
    fit, which is a condition on the packets (`ModelConfig.FitsPos`, kept by every call: `Engine.InRange`). -/

namespace DsparkEdge

open Blocks SeqCache

inductive CellVal where
  | injected (gen : ℕ) (token : ℤ) (row : List F32)
  | noise (gen : ℕ) (token : ℤ)
  deriving DecidableEq, Repr

def CellVal.gen : CellVal → ℕ
  | .injected g _ _ => g
  | .noise g _ => g

def CellVal.isInjected : CellVal → Bool
  | .injected .. => true
  | .noise .. => false

abbrev Cache := List (Cell CellVal)

/-- Configuration of an initialised engine (`model_config`, `n_ubatch`, the host's byte order). The last
    three fields are assumptions of the model that `init` does not check: the hidden size (the draft's own
    width, where the file has none) and `n_ubatch` are positive, and the encoder row fits the `int32` it is
    computed in. -/
structure ModelConfig where
  targetLayerIds : List ℤ
  hiddenSize : ℕ
  nEmbdDec : ℕ
  blockSize : ℤ
  maskTokenId : ℤ
  confMin : F32
  nUbatch : ℕ
  endian : Endian
  hidden_pos : 0 < hiddenSize
  ubatch_pos : 0 < nUbatch
  row_fits : targetLayerIds.length * hiddenSize < 2 ^ 31

/-- `n_embd_enc_`, the encoder's row length. -/
def ModelConfig.rowLen (cfg : ModelConfig) : ℕ := cfg.targetLayerIds.length * cfg.hiddenSize

/-- What the draft network computes from the cache and the noise block: per block position the
    candidates in descending order with their logits, and the flat buffer of the confidence head, if
    the network has one. -/
structure DraftModel where
  cands : Cache → Cache → ℕ → List (ℤ × F32)
  nextn : Cache → Cache → Option (ℕ → F32)

inductive ChunkOutcome where
  | ok
  | encodeFails
  | noOutput
  | decodeFails (left : Cache)

inductive DecodeOutcome where
  | ok
  | fails (left : Cache)

/-- What llama.cpp does during one engine call, and the generation the call belongs to. -/
structure LlamaCalls where
  gen : ℕ
  chunk : ℕ → ChunkOutcome
  noise : DecodeOutcome

/-- A call in which every encode and decode succeeds. -/
def LlamaCalls.succeed (gen : ℕ) : LlamaCalls := ⟨gen, fun _ => .ok, .ok⟩

structure Engine where
  cells : Cache
  lastDraft : List ℤ
  lastStepId : ℕ
  lastTokenId : ℤ
  kvConfirmedMax : ℤ
  deriving DecidableEq, Repr

/-- A freshly initialised engine. -/
def Engine.fresh : Engine := ⟨[], [], 0, 0, -1⟩

/-! ### Feature injection -/

/-- Convert a packed bf16 buffer to float32. -/
def bf16ToF32 (en : Endian) (data : List Byte) (n : ℕ) : List F32 :=
  (List.range n).map fun i =>
    (en.ofBytes (data.getD (2 * i) 0) (data.getD (2 * i + 1) 0)).setWidth 32 <<< 16

/-- `[]` on a size mismatch. -/
def unpackFeatures (cfg : ModelConfig) (tf : TokenFeatures) : List F32 :=
  if tf.features.length ≠ cfg.rowLen * 2 then [] else bf16ToF32 cfg.endian tf.features cfg.rowLen

/-- Layer `k` of the unpacked packet of token `i`; an empty unpack stops the injection. -/
def featureBlock (cfg : ModelConfig) (chunk : List TokenFeatures) (k i : ℕ) :
    Except Unit (List F32) :=
  let f32 := unpackFeatures cfg (chunk.getD i default)
  if f32.isEmpty then .error () else .ok ((f32.drop (k * cfg.hiddenSize)).take cfg.hiddenSize)

/-- `features_buf_` of one chunk, the batch given to the encoder. -/
def packChunk (cfg : ModelConfig) (chunk : List TokenFeatures) : Except Unit (List F32) :=
  fillBlocks cfg.targetLayerIds.length chunk.length cfg.rowLen cfg.hiddenSize
    (featureBlock cfg chunk) (List.replicate (chunk.length * cfg.rowLen) 0)

/-- The inject batch of one chunk: row `i` of the encoder's input, at the position of token `i` (its
    `(llama_pos)`, if it fits). -/
def injectBatch (cfg : ModelConfig) (gen : ℕ) (chunk : List TokenFeatures) (buf : List F32) :
    Cache :=
  chunk.mapIdx fun i tf => ⟨tf.position, .injected gen tf.token (rowAt cfg.rowLen i buf)⟩

/-- What a failing decode of `batch` leaves behind: cells of this call, at positions of the batch
    only. -/
def leftOver (gen : ℕ) (batch left : Cache) : Cache :=
  left.filter fun c => decide (c.pos ∈ batch.map Cell.pos) && decide (c.val.gen = gen)

/-- The encode/decode loop over the remaining chunks; `j` counts the chunks done. -/
def injectLoop (cfg : ModelConfig) (calls : LlamaCalls) :
    ℕ → List (List TokenFeatures) → Cache → Bool × Cache
  | _, [], cells => (true, cells)
  | j, chunk :: rest, cells =>
    match packChunk cfg chunk with
    | .error _ => (false, cells)
    | .ok buf =>
      match calls.chunk j with
      | .encodeFails => (false, cells)
      | .noOutput => (false, cells)
      | .decodeFails left =>
        (false, cells ++ leftOver calls.gen (injectBatch cfg calls.gen chunk buf) left)
      | .ok => injectLoop cfg calls (j + 1) rest (cells ++ injectBatch cfg calls.gen chunk buf)

def injectFeatures (cfg : ModelConfig) (calls : LlamaCalls) (tokens : List TokenFeatures)
    (cells : Cache) : Bool × Cache :=
  injectLoop cfg calls 0 (chunks cfg.nUbatch tokens) cells

/-! ### The session operations -/

/-- The marks after `tokens` were injected; the new mark is the last position's `(llama_pos)`, if it fits. -/
def Engine.advance (st : Engine) (tokens : List TokenFeatures) : Engine :=
  match tokens.getLast? with
  | none => st
  | some tf => { st with lastTokenId := tf.token, kvConfirmedMax := tf.position }

/-- Inject prompt features: success, `n_positions`, the engine after the call. -/
def Engine.prefill (cfg : ModelConfig) (calls : LlamaCalls) (tokens : List TokenFeatures)
    (st : Engine) : Bool × ℕ × Engine :=
  let r := injectFeatures cfg calls tokens st.cells
  if r.1 then
    (true, (tokens.getLast?.map fun tf => tf.position + 1).getD 0,
      { st with cells := r.2 }.advance tokens)
  else (false, 0, { st with cells := r.2 })

/-- Clear the cache and the marks. -/
def Engine.reset (_ : Engine) : Engine := ⟨[], [], 0, 0, -1⟩

/-- The first half of a draft: drop the transient cells, inject the accepted tokens, advance. -/
def Engine.accept (cfg : ModelConfig) (calls : LlamaCalls) (tokens : List TokenFeatures)
    (st : Engine) : Bool × Engine :=
  let r := injectFeatures cfg calls tokens (seqRm st.cells (st.kvConfirmedMax + 1))
  if r.1 then (true, { st with cells := r.2 }.advance tokens) else (false, { st with cells := r.2 })

/-! ### The anchor-first block -/

/-- Not a number: all exponent bits set, some mantissa bit set. -/
def f32IsNaN (x : F32) : Bool := decide (0x7F800000 < (x &&& 0x7FFFFFFF).toNat)

/-- The sign-magnitude value of a bit pattern, which orders the numbers. -/
def f32Key (x : F32) : ℤ := if x.msb then -((x &&& 0x7FFFFFFF).toNat : ℤ) else x.toNat

/-- `a < b` on floats. -/
def f32Lt (a b : F32) : Bool := !f32IsNaN a && !f32IsNaN b && decide (f32Key a < f32Key b)

/-- `n_draft = min(max_draft_tokens, block_size)`; the block loop runs it times, none if `≤ 0`. -/
def ModelConfig.nDraft (cfg : ModelConfig) (maxDraftTokens : ℤ) : ℕ :=
  (min maxDraftTokens cfg.blockSize).toNat

/-- `[anchor, mask, …, mask]` right behind the last cell. -/
def noiseBatch (cfg : ModelConfig) (gen : ℕ) (anchor maxDraftTokens : ℤ) (cells : Cache) : Cache :=
  consec (seqPosMax cells + 1) ((List.range (cfg.nDraft maxDraftTokens)).map fun i =>
    .noise gen (if i = 0 then anchor else cfg.maskTokenId))

/-- `conf[i * n_embd_dec] < conf_min`, when the head is active. -/
def belowConf (cfg : ModelConfig) (conf : Option (ℕ → F32)) (i : ℕ) : Bool :=
  match conf with
  | none => false
  | some c => f32Lt (c (i * cfg.nEmbdDec)) cfg.confMin

/-- The sampling loop: `m` turns are left, `i` is the block position. -/
def sampleLoop (cfg : ModelConfig) (conf : Option (ℕ → F32)) (cands : ℕ → List (ℤ × F32)) :
    ℕ → ℕ → DraftResponse → DraftResponse
  | 0, _, res => res
  | m + 1, i, res =>
    if belowConf cfg conf i then res
    else
      match cands i with
      | [] => res
      | (id, logit) :: _ =>
        sampleLoop cfg conf cands m (i + 1)
          { res with
            draftTokens := res.draftTokens ++ [id]
            draftLogprobs := res.draftLogprobs ++ [logit]
            confidence := res.confidence ++ (conf.map fun c => c (i * cfg.nEmbdDec)).toList }

/-- `conf_min > 0` activates the confidence head. -/
def confHead (cfg : ModelConfig) (M : DraftModel) (cells noise : Cache) : Option (ℕ → F32) :=
  if f32Lt 0 cfg.confMin then M.nextn cells noise else none

/-- Decode the noise block and sample a draft from it. -/
def Engine.runDraft (cfg : ModelConfig) (M : DraftModel) (calls : LlamaCalls)
    (anchor maxDraftTokens : ℤ) (st : Engine) : DraftResponse × Engine :=
  let noise := noiseBatch cfg calls.gen anchor maxDraftTokens st.cells
  match calls.noise with
  | .fails left =>
    ({ error := "noise decode failed" },
      { st with cells := st.cells ++ leftOver calls.gen noise left })
  | .ok =>
    (sampleLoop cfg (confHead cfg M st.cells noise) (M.cands st.cells noise)
        (cfg.nDraft maxDraftTokens) 0 { ok := true },
      { st with cells := st.cells ++ noise })

/-- The anchor of the block: the request's, unless it is 0. -/
def Engine.anchor (st : Engine) (req : StepRequest) : ℤ :=
  if req.anchorToken ≠ 0 then req.anchorToken else st.lastTokenId

/-- Truncate stale draft state, inject accepted tokens, and draft a block. -/
def Engine.draft (cfg : ModelConfig) (M : DraftModel) (calls : LlamaCalls) (req : StepRequest)
    (st : Engine) : DraftResponse × Engine :=
  let a := st.accept cfg calls req.acceptedTokens
  if a.1 then
    let r := a.2.runDraft cfg M calls (a.2.anchor req) req.maxDraftTokens
    ({ r.1 with sessionId := req.sessionId, stepId := req.stepId },
      { r.2 with lastDraft := r.1.draftTokens, lastStepId := req.stepId })
  else
    ({ sessionId := req.sessionId, stepId := req.stepId, error := "feature injection failed" }, a.2)

/-! ### Marks and cells -/

@[simp] theorem advance_cells (st : Engine) (tokens : List TokenFeatures) :
    (st.advance tokens).cells = st.cells := by
  unfold Engine.advance; split <;> rfl

theorem mem_leftOver {gen : ℕ} {batch left : Cache} {c : Cell CellVal}
    (h : c ∈ leftOver gen batch left) : (∃ d ∈ batch, c.pos = d.pos) ∧ c.val.gen = gen := by
  obtain ⟨-, hc⟩ := List.mem_filter.mp h
  simp only [Bool.and_eq_true, decide_eq_true_eq] at hc
  obtain ⟨d, hd, hdc⟩ := List.mem_map.mp hc.1
  exact ⟨⟨d, hd, hdc.symm⟩, hc.2⟩

theorem mem_noiseBatch {cfg : ModelConfig} {gen : ℕ} {anchor n : ℤ} {cells : Cache}
    {c : Cell CellVal} (h : c ∈ noiseBatch cfg gen anchor n cells) :
    seqPosMax cells < c.pos ∧ c.val.gen = gen := by
  have hpos := pos_of_mem_consec h
  refine ⟨by omega, ?_⟩
  have hval := List.mem_map_of_mem (f := Cell.val) h
  rw [noiseBatch, map_val_consec] at hval
  obtain ⟨i, -, hi⟩ := List.mem_map.mp hval
  rw [← hi]; rfl

/-- Decoding a block only adds cells of this call beyond the last position. -/
theorem runDraft_cells (cfg : ModelConfig) (M : DraftModel) (calls : LlamaCalls) (anchor n : ℤ)
    (st : Engine) : ∃ xs, (st.runDraft cfg M calls anchor n).2 = { st with cells := st.cells ++ xs } ∧
      ∀ c ∈ xs, seqPosMax st.cells < c.pos ∧ c.val.gen = calls.gen := by
  unfold Engine.runDraft
  simp only
  cases calls.noise with
  | ok => exact ⟨_, rfl, fun c hc => mem_noiseBatch hc⟩
  | fails left =>
    refine ⟨_, rfl, fun c hc => ?_⟩
    obtain ⟨⟨d, hd, hdc⟩, hgen⟩ := mem_leftOver hc
    exact ⟨by rw [hdc]; exact (mem_noiseBatch hd).1, hgen⟩

/-! ### A small engine -/

/-- One tap layer of width one, micro-batches of two, blocks of four. -/
def smallConfig : ModelConfig where
  targetLayerIds := [0]
  hiddenSize := 1
  nEmbdDec := 1
  blockSize := 4
  maskTokenId := 99
  confMin := 0
  nUbatch := 2
  endian := .little
  hidden_pos := by decide
  ubatch_pos := by decide
  row_fits := by decide

/-- A network that drafts `ids` whatever it sees. -/
def constModel (ids : List ℤ) : DraftModel where
  cands _ _ i := (ids[i]?.map fun id => (id, 0)).toList
  nextn _ _ := none

end DsparkEdge
