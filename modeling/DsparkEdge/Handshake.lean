import DsparkEdge.CaptureSpec

/-! What the server makes of the handshake. The edge reports its tap layers, hidden size and block size;
    `init()` narrows them to `int32` and looks at nothing but the two success flags. `process()` then
    strides through the target's own layer buffers with the reported hidden size, and nobody has compared
    it with the target's.

        reply ──ok?──▶ (int32_t) hidden_size, block_size, layer ids
        layer buffer   │ n_embd │ n_embd │ …             n rows of the target's width
        reads          │ hidden_size │ hidden_size │ …   n rows of the reported one -/

namespace DsparkEdge

/-- What `init()` hands to the drafter. -/
structure Handshake where
  targetLayerIds : List ℤ
  hiddenSize : ℤ
  blockSize : ℤ
  featureDtype : String
  deriving DecidableEq, Repr

/-- `grpc_dspark_drafter::init`: the session id and the reply's numbers, if call and reply say ok. -/
def clientInit (status : Status) (resp : InitSessionResponse) : Option (ℕ × Handshake) :=
  if !status.isOk || !resp.ok then none
  else
    some (resp.sessionId,
      { targetLayerIds := resp.targetLayerIds.map toInt32
        hiddenSize := toInt32 resp.hiddenSize
        blockSize := toInt32 resp.blockSize
        featureDtype := resp.featureDtype })

/-- The drafter's configuration after the handshake. -/
def Handshake.params (h : Handshake) (nMax : ℤ) (endian : Endian) : SpecParams :=
  ⟨nMax, h.targetLayerIds, h.hiddenSize, h.blockSize, endian⟩

/-- The `size_t` values `process()` computes for a batch of `n` tokens: the floats of `features_buf`, the
    values and bytes of a packet, the bytes of one copied block. -/
def captureSizes (p : SpecParams) (n : ℕ) : List ℕ :=
  [n * (p.nLayers * p.width), p.nLayers * p.width, p.nLayers * p.width * 2, p.width * 4]

/-- Every extracted layer holds `n` rows of the target's width. -/
def TapLayers (nEmbd n : ℕ) (layerInp : LayerInp) : Prop :=
  ∀ lid layer, layerInp lid = some layer → layer.length = n * nEmbd

/-- The reads of `process()` stay inside the tap layers for every batch, and no number taken over from
    the reply, or computed from one, is negative or wraps. -/
structure TapReadsSafe (resp : InitSessionResponse) (p : SpecParams) (nEmbd : ℕ) : Prop where
  hiddenSize : p.hiddenSize = resp.hiddenSize
  blockSize : p.blockSize = resp.blockSize
  layers : p.nLayers = resp.targetLayerIds.length ∧ p.nLayers < 2 ^ 31
  row : nEmbdEnc p = .ok (p.nLayers * p.width)
  sizes : ∀ n < 2 ^ 31, ∀ v ∈ captureSizes p n, v < 2 ^ 64
  reads : ∀ n, ∀ k < p.nLayers, ∀ i < n, ∀ h < p.width, i * p.width + h < n * nEmbd
  copies : ∀ (entries : List (ℤ × ℕ)) (layerInp : LayerInp), TapLayers nEmbd entries.length layerInp →
    capture p layerInp entries ≠ .error .undefined

/-! ### Narrowing -/

theorem toInt32_lt (n : ℕ) : toInt32 n < 2 ^ 31 := by
  have := BitVec.toInt_lt (x := BitVec.ofNat 32 n)
  rw [toInt32]; omega

/-- A `uint32` survives the narrowing exactly when it is below `2^31`. -/
theorem toInt32_eq_iff (n : ℕ) : toInt32 n = n ↔ n < 2 ^ 31 := by
  constructor
  · intro h
    have := toInt32_lt n
    omega
  · intro h
    rw [toInt32, BitVec.toInt_eq_toNat_cond, BitVec.toNat_ofNat]
    omega

variable {p : SpecParams}

theorem width_of_hiddenSize {n : ℕ} (h : p.hiddenSize = n) : p.width = n := by
  rw [SpecParams.width, h, Int.toNat_natCast]

/-- An accepted handshake hands on the reply's numbers, narrowed. -/
theorem params_of_accepted (nMax : ℤ) (endian : Endian) {status : Status} {resp : InitSessionResponse}
    {session : ℕ} {h : Handshake} (hinit : clientInit status resp = some (session, h)) :
    h.params nMax endian = ⟨nMax, resp.targetLayerIds.map toInt32, toInt32 resp.hiddenSize,
      toInt32 resp.blockSize, endian⟩ := by
  rw [clientInit] at hinit
  split at hinit
  · cases hinit
  · cases hinit; rfl

/-! ### Reads and copies -/

/-- Rows of one width inside rows of another. -/
theorem strided_reads_iff {L width nEmbd : ℕ} :
    (∀ n, ∀ k < L, ∀ i < n, ∀ h < width, i * width + h < n * nEmbd) ↔ L = 0 ∨ width ≤ nEmbd := by
  constructor
  · intro hreads
    rcases Nat.eq_zero_or_pos L with hL | hL
    · exact Or.inl hL
    · right
      by_contra hlt
      have := hreads 1 0 hL 0 Nat.one_pos (width - 1) (by omega)
      omega
  · rintro (hL | hle) n k hk i hi h hh
    · omega
    · have hrow := Blocks.row_index_lt hi hh
      have hrows : n * width ≤ n * nEmbd := Nat.mul_le_mul_left n hle
      omega

/-- With a defined row and reads inside the layers, a capture may miss a layer but never reads
    elsewhere. -/
theorem capture_defined {nEmbd : ℕ} (hrow : nEmbdEnc p = .ok (p.nLayers * p.width))
    (hreads : p.nLayers = 0 ∨ p.width ≤ nEmbd) {entries : List (ℤ × ℕ)} {layerInp : LayerInp}
    (hlayers : TapLayers nEmbd entries.length layerInp) :
    capture p layerInp entries ≠ .error .undefined := by
  intro hundef
  have hbuf : captureBuf p layerInp entries.length = .error .undefined := by
    rw [capture] at hundef
    cases hbuf : captureBuf p layerInp entries.length with
    | ok buf => rw [hbuf] at hundef; cases hundef
    | error e => rw [hbuf] at hundef; cases hundef; rfl
  rw [captureBuf, hrow] at hbuf
  obtain ⟨k, hk, i, hi, hblock⟩ := Blocks.fillBlocks_error hbuf
  rw [layerBlock] at hblock
  cases hlayer : layerInp (p.targetLayerIds.getD k 0) with
  | none => rw [hlayer] at hblock; cases hblock
  | some layer =>
    simp only [hlayer, readLayer] at hblock
    split at hblock
    · cases hblock
    · rename_i hlong
      have hlen := hlayers _ _ hlayer
      have hend := Blocks.row_end_le p.width hi
      have hwide : entries.length * p.width ≤ entries.length * nEmbd :=
        Nat.mul_le_mul_left _ (hreads.resolve_left (Nat.ne_of_gt (Nat.lt_of_le_of_lt (Nat.zero_le k) hk)))
      exact hlong (by simp only [SpecParams.width] at hend hwide; omega)

/-- TAP READS: after an accepted handshake the reads of `process()` stay inside the target's layer
    buffers and no size wraps, exactly when the reported numbers are `int32`s, one row of them is, and
    the reported hidden size is no wider than the target's (or there is no tap layer). -/
theorem tap_reads_iff (nMax : ℤ) (endian : Endian) (nEmbd : ℕ) {status : Status}
    {resp : InitSessionResponse} {session : ℕ} {h : Handshake}
    (hinit : clientInit status resp = some (session, h)) :
    TapReadsSafe resp (h.params nMax endian) nEmbd ↔
      resp.hiddenSize < 2 ^ 31 ∧ resp.blockSize < 2 ^ 31 ∧ resp.targetLayerIds.length < 2 ^ 31 ∧
      resp.targetLayerIds.length * resp.hiddenSize < 2 ^ 31 ∧
      (resp.targetLayerIds.length = 0 ∨ resp.hiddenSize ≤ nEmbd) := by
  have hparams := params_of_accepted nMax endian hinit
  have hlen : (h.params nMax endian).nLayers = resp.targetLayerIds.length := by
    rw [hparams]; exact List.length_map _
  constructor
  · intro hsafe
    have hhidden := hsafe.hiddenSize
    have hblock := hsafe.blockSize
    have hwidth := width_of_hiddenSize hhidden
    have hreads := strided_reads_iff.mp hsafe.reads
    have hrow := (nEmbdEnc_ok hsafe.row).2
    rw [hparams] at hhidden hblock
    rw [hlen, hwidth] at hreads hrow
    have hlayers := hsafe.layers.2
    rw [hlen] at hlayers
    exact ⟨(toInt32_eq_iff _).mp hhidden, (toInt32_eq_iff _).mp hblock, hlayers, by exact_mod_cast hrow,
      hreads⟩
  · rintro ⟨hhidden, hblock, hlayers, hrow, hreads⟩
    have hhidden' : (h.params nMax endian).hiddenSize = resp.hiddenSize := by
      rw [hparams]; exact (toInt32_eq_iff _).mpr hhidden
    have hwidth := width_of_hiddenSize hhidden'
    have hfit : ((h.params nMax endian).nLayers : ℤ) * (h.params nMax endian).hiddenSize < 2 ^ 31 := by
      rw [hlen, hhidden']
      exact_mod_cast hrow
    have hdefined : nEmbdEnc (h.params nMax endian) =
        .ok ((h.params nMax endian).nLayers * (h.params nMax endian).width) :=
      nEmbdEnc_of_fits (by omega) hfit
    have hreads' : (h.params nMax endian).nLayers = 0 ∨ (h.params nMax endian).width ≤ nEmbd := by
      rw [hlen, hwidth]; exact hreads
    refine ⟨hhidden', by rw [hparams]; exact (toInt32_eq_iff _).mpr hblock, ⟨hlen, by rwa [hlen]⟩,
      hdefined, ?_, strided_reads_iff.mpr hreads', fun entries layerInp hlayers' =>
      capture_defined hdefined hreads' hlayers'⟩
    intro n hn v hv
    have hbuf : n * (resp.targetLayerIds.length * resp.hiddenSize) < 2 ^ 31 * 2 ^ 31 :=
      Nat.mul_lt_mul'' hn hrow
    simp only [captureSizes, hlen, hwidth, List.mem_cons, List.not_mem_nil, or_false] at hv
    rcases hv with rfl | rfl | rfl | rfl <;> omega

/-- A checkpoint for a target of width 3840 in front of a target of width 2560. -/
def wideReply : InitSessionResponse :=
  { ok := true, sessionId := 1, targetLayerIds := [1, 9, 17, 25, 33], hiddenSize := 3840, blockSize := 7,
    featureDtype := "bf16" }

def wideHandshake : Handshake := ⟨[1, 9, 17, 25, 33], 3840, 7, "bf16"⟩

theorem wideReply_accepted : clientInit .ok wideReply = some (1, wideHandshake) := by decide

/-- The handshake is accepted, and the first token's copy runs past its row and past the layer. -/
theorem wide_reply_reads_outside :
    clientInit .ok wideReply = some (1, wideHandshake) ∧
      ¬ TapReadsSafe wideReply (wideHandshake.params 4 .little) 2560 := by
  refine ⟨wideReply_accepted, fun hsafe => ?_⟩
  have := hsafe.reads 1 0 (by decide) 0 (by decide) 2560 (by decide)
  omega

/-- The same checkpoint in front of its own target. -/
theorem tap_reads_matched : TapReadsSafe wideReply (wideHandshake.params 4 .little) 3840 :=
  (tap_reads_iff 4 .little 3840 wideReply_accepted).mpr (by decide)

end DsparkEdge
