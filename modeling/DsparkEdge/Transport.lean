import DsparkEdge.CaptureSpec
import DsparkEdge.Daemon
import DsparkEdge.EngineSpec

/-! The feature transport from end to end: what `process()` packs on the server is what the edge hands to
    its encoder, up to the low half of every float.

        layer k, token i, h ─▶ features_buf[i·E + k·H + h] ─bf16─▶ packet i ─▶ wire
          ─▶ unpack ─▶ features_buf_[(i mod ubatch)·E + k·H + h] of chunk i div ubatch        -/

namespace DsparkEdge

open Blocks

/-- An unpacked packet, packed again, has the same bytes. -/
theorem packRow_unpackFeatures {cfg : ModelConfig} {tf : TokenFeatures} (h : SizeOk cfg tf) :
    packRow cfg.endian (unpackFeatures cfg tf) = tf.features := by
  rw [unpackFeatures_of_size h]
  exact packRow_bf16ToF32 cfg.endian cfg.rowLen tf.features h

/-- A captured packet unpacks to the row it was packed from, the low halves cleared. -/
theorem unpackFeatures_captured {cfg : ModelConfig} {nMax : ℤ} {layerInp : LayerInp} {i : ℕ}
    {e : ℤ × ℕ} {tf : TokenFeatures}
    (h : PacketOf (handshake cfg nMax cfg.endian) layerInp i e tf) :
    SizeOk cfg tf ∧ ∀ k < cfg.targetLayerIds.length, ∀ j < cfg.hiddenSize,
      (unpackFeatures cfg tf)[k * cfg.hiddenSize + j]? =
        (layerAt (handshake cfg nMax cfg.endian) layerInp k i j).map clearLow := by
  obtain ⟨row, hrow, hlen, hvals⟩ := h.row
  have hlen' : row.length = cfg.rowLen := hlen
  have hsize : SizeOk cfg tf := by
    rw [SizeOk, hrow, length_packRow, hlen']
  refine ⟨hsize, fun k hk j hj => ?_⟩
  rw [unpackFeatures_of_size hsize, hrow, ← hlen']
  have hunpack : bf16ToF32 cfg.endian (packRow cfg.endian row) row.length = row.map clearLow :=
    bf16ToF32_packRow cfg.endian row
  have hval : row[k * cfg.hiddenSize + j]? =
      layerAt (handshake cfg nMax cfg.endian) layerInp k i j := hvals k hk j hj
  simp only [handshake] at hunpack hval ⊢
  rw [hunpack, List.getElem?_map, hval]

/-- The encoder's input for packet `i`: its row in the buffer of its chunk. -/
theorem encoder_row {cfg : ModelConfig} {packets : List TokenFeatures}
    (h : ∀ tf ∈ packets, SizeOk cfg tf) {i : ℕ} (hi : i < packets.length) :
    ∃ chunk buf, (chunks cfg.nUbatch packets)[i / cfg.nUbatch]? = some chunk ∧
      packChunk cfg chunk = .ok buf ∧
      rowAt cfg.rowLen (i % cfg.nUbatch) buf = unpackFeatures cfg packets[i] := by
  have hchunk := getElem?_chunk cfg.ubatch_pos packets i
  rw [List.getElem?_eq_getElem hi] at hchunk
  obtain ⟨hr, hget⟩ := List.getElem?_eq_some_iff.mp hchunk
  have hsize : ∀ tf ∈ (packets.drop (i / cfg.nUbatch * cfg.nUbatch)).take cfg.nUbatch, SizeOk cfg tf :=
    fun tf htf => h tf (List.mem_of_mem_drop (List.mem_of_mem_take htf))
  obtain ⟨buf, hbuf⟩ := packChunk_of_size hsize
  refine ⟨_, buf, getElem?_chunks cfg.ubatch_pos hi, hbuf, ?_⟩
  rw [packChunk_rows hbuf hr, hget]

/-! ### Stored packets -/

/-- Every stored packet passes the daemon's size check. -/
def Sized (cfg : ModelConfig) (feats : Feats) : Prop := ∀ pos tf, feats pos = some tf → SizeOk cfg tf

theorem sized_store {cfg : ModelConfig} {feats : Feats} (h : Sized cfg feats)
    {packets : List TokenFeatures} (hsize : ∀ tf ∈ packets, SizeOk cfg tf) :
    Sized cfg (store feats packets) := by
  intro pos tf htf
  rw [store_eq] at htf
  cases hlast : lastOf packets pos with
  | none => rw [hlast] at htf; exact h pos tf htf
  | some t =>
    rw [hlast] at htf
    cases Option.some.inj htf
    exact hsize _ (position_of_lastOf hlast).1

theorem packetsOf_size (cfg : ModelConfig) (nMax : ℤ) (en : Endian) (layerInp : LayerInp)
    (batch : LlamaBatch) : ∀ tf ∈ packetsOf (handshake cfg nMax en) layerInp batch, SizeOk cfg tf := by
  intro tf htf
  cases batch with
  | embd n => cases htf
  | tokens entries =>
    rw [packetsOf] at htf
    cases hcap : capture (handshake cfg nMax en) layerInp entries with
    | error e => rw [hcap] at htf; cases htf
    | ok packets =>
      rw [hcap] at htf
      exact capture_size hcap tf htf

/-- FEATURE TRANSPORT: for every handshake whose row length fits an `int32`, every batch and every
    content of the layer buffers, the captured packets pass the size check, the encoder input of token
    `i` holds layer `k`, element `h` at `k * H + h` with the low half cleared, and packing an unpacked
    packet again gives its bytes. -/
theorem feature_transport (cfg : ModelConfig) (nMax : ℤ) (layerInp : LayerInp)
    (entries : List (ℤ × ℕ))
    (hlayers : ∀ lid ∈ cfg.targetLayerIds, ∃ layer, layerInp lid = some layer ∧
      layer.length = entries.length * cfg.hiddenSize) :
    ∃ packets, capture (handshake cfg nMax cfg.endian) layerInp entries = .ok packets ∧
      packets.length = entries.length ∧
      (∀ tf ∈ packets, SizeOk cfg tf ∧ packRow cfg.endian (unpackFeatures cfg tf) = tf.features) ∧
      ∀ i < entries.length, ∃ chunk buf,
        (chunks cfg.nUbatch packets)[i / cfg.nUbatch]? = some chunk ∧
        packChunk cfg chunk = .ok buf ∧
        ∀ k < cfg.targetLayerIds.length, ∀ h < cfg.hiddenSize, ∃ layer v,
          layerInp (cfg.targetLayerIds.getD k 0) = some layer ∧
          layer[i * cfg.hiddenSize + h]? = some v ∧
          buf[i % cfg.nUbatch * cfg.rowLen + (k * cfg.hiddenSize + h)]? = some (clearLow v) := by
  have hfit : ((handshake cfg nMax cfg.endian).nLayers : ℤ) *
      (handshake cfg nMax cfg.endian).hiddenSize < 2 ^ 31 := by
    have := cfg.row_fits
    simp only [SpecParams.nLayers, handshake]
    exact_mod_cast this
  have hcover : ∀ lid ∈ (handshake cfg nMax cfg.endian).targetLayerIds, ∃ layer,
      layerInp lid = some layer ∧
        entries.length * (handshake cfg nMax cfg.endian).width ≤ layer.length := by
    intro lid hlid
    obtain ⟨layer, hlayer, hlen⟩ := hlayers lid hlid
    exact ⟨layer, hlayer, hlen.ge⟩
  obtain ⟨packets, hcap⟩ := capture_succeeds (Int.natCast_nonneg _) hfit hcover
  obtain ⟨hlen, hpackets⟩ := capture_packets hcap
  have hsize : ∀ tf ∈ packets, SizeOk cfg tf := by
    intro tf htf
    obtain ⟨i, hi, rfl⟩ := List.getElem_of_mem htf
    exact (unpackFeatures_captured (hpackets i (by omega) hi)).1
  refine ⟨packets, hcap, hlen, fun tf htf => ⟨hsize tf htf, packRow_unpackFeatures (hsize tf htf)⟩,
    fun i hi => ?_⟩
  obtain ⟨chunk, buf, hchunk, hbuf, hrow⟩ := encoder_row hsize (by omega : i < packets.length)
  refine ⟨chunk, buf, hchunk, hbuf, fun k hk h hh => ?_⟩
  obtain ⟨layer, hlayer, hlayerlen⟩ := hlayers _ (List.getElem_mem hk)
  have hidx : i * cfg.hiddenSize + h < layer.length := by
    rw [hlayerlen]; exact row_index_lt hi hh
  have hlayer' : layerInp (cfg.targetLayerIds.getD k 0) = some layer := by
    rw [List.getD_eq_getElem _ _ hk]; exact hlayer
  refine ⟨layer, layer[i * cfg.hiddenSize + h], hlayer', List.getElem?_eq_getElem hidx, ?_⟩
  have hval := (unpackFeatures_captured (hpackets i hi (by omega))).2 k hk h hh
  have hat : layerAt (handshake cfg nMax cfg.endian) layerInp k i h =
      some layer[i * cfg.hiddenSize + h] := layerAt_eq (p := handshake cfg nMax cfg.endian) hlayer' hidx
  have hcol : k * cfg.hiddenSize + h < cfg.rowLen := row_index_lt hk hh
  rw [← hrow, hat, rowAt, List.getElem?_take, if_pos hcol, List.getElem?_drop] at hval
  exact hval

/-- A batch of three tokens over micro-batches of two. -/
theorem feature_transport_small :
    ∃ packets, capture (handshake smallConfig 4 .little) (fun _ => some [0x3F80BEEF, 7, 0xFFFFFFFF])
        [(5, 0), (6, 1), (7, 2)] = .ok packets ∧ packets.length = 3 ∧
      ∀ tf ∈ packets, SizeOk smallConfig tf := by
  obtain ⟨packets, hcap, hlen, hsize, -⟩ := feature_transport smallConfig 4
    (fun _ => some [0x3F80BEEF, 7, 0xFFFFFFFF]) [(5, 0), (6, 1), (7, 2)]
    (fun _ _ => ⟨_, rfl, rfl⟩)
  exact ⟨packets, hcap, hlen, fun tf htf => (hsize tf htf).1⟩

/-- Two tap layers of width `2 ^ 30`: the row length overflows its `int32` before anything is read. -/
theorem huge_row_undefined :
    capture ⟨4, [0, 1], 2 ^ 30, 4, .little⟩ (fun _ => some (List.replicate (2 ^ 30) 0)) [(1, 0)] =
      .error .undefined := by
  have hoverflow : nEmbdEnc ⟨4, [0, 1], 2 ^ 30, 4, .little⟩ = .error .undefined := by decide
  rw [capture, captureBuf, hoverflow]
  rfl

end DsparkEdge
