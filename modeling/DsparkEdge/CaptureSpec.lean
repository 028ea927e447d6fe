import DsparkEdge.Capture
import Mathlib.Data.List.GetD

/-! What a successful capture holds: packet `i` carries the token and position of batch entry `i`, and
    the packed row whose block `k` is what layer `k` read for token `i`. A capture succeeds whenever the
    row length fits an `int32` and every tap layer has its rows. -/

namespace DsparkEdge

open Blocks

variable {p : SpecParams} {layerInp : LayerInp}

/-- `hidden_size` as a length. -/
abbrev SpecParams.width (p : SpecParams) : ℕ := p.hiddenSize.toNat

/-- The number of tap layers. -/
abbrev SpecParams.nLayers (p : SpecParams) : ℕ := p.targetLayerIds.length

/-- Element `h` of layer index `k`, token `i`. -/
def layerAt (p : SpecParams) (layerInp : LayerInp) (k i h : ℕ) : Option F32 :=
  (layerInp (p.targetLayerIds.getD k 0)).bind fun layer => layer[i * p.width + h]?

theorem layerAt_eq {k i h : ℕ} {layer : List F32}
    (hlayer : layerInp (p.targetLayerIds.getD k 0) = some layer) (hh : i * p.width + h < layer.length) :
    layerAt p layerInp k i h = some layer[i * p.width + h] := by
  rw [layerAt, hlayer, Option.bind_some, List.getElem?_eq_getElem hh]

theorem layerBlock_ok {k i : ℕ} {s : List F32} (h : layerBlock p layerInp k i = .ok s) :
    s.length = p.width ∧ ∀ j < p.width, s[j]? = layerAt p layerInp k i j := by
  unfold layerBlock at h
  unfold layerAt
  cases hlayer : layerInp (p.targetLayerIds.getD k 0) with
  | none => rw [hlayer] at h; cases h
  | some layer =>
    rw [hlayer] at h
    simp only [readLayer] at h
    split at h
    · rename_i hfits
      cases h
      refine ⟨by simp only [List.length_take, List.length_drop, SpecParams.width]; omega, fun j hj => ?_⟩
      rw [List.getElem?_take, if_pos hj, List.getElem?_drop]
      rfl
    · cases h

/-- The buffer after the copy loops: row `i`, block `k` is layer `k` of token `i`. -/
theorem captureBuf_rows {n : ℕ} {buf : List F32} (h : captureBuf p layerInp n = .ok buf) :
    buf.length = n * (p.nLayers * p.width) ∧ ∀ i < n, ∀ k < p.nLayers, ∀ j < p.width,
      buf[i * (p.nLayers * p.width) + (k * p.width + j)]? = layerAt p layerInp k i j := by
  unfold captureBuf at h
  cases he : nEmbdEnc p with
  | error e => rw [he] at h; cases h
  | ok e =>
    rw [he] at h
    have hfill : fillBlocks p.nLayers n e p.width (layerBlock p layerInp)
        (List.replicate (n * e) 0) = .ok buf := h
    rw [nEmbdEnc_eq he] at hfill
    have hsrc := fillBlocks_ok hfill
    choose! row hrow using hsrc
    obtain ⟨out, hout, hlen, hin⟩ := fillBlocks_row hrow
      (fun k hk i hi => (layerBlock_ok (hrow k hk i hi)).1)
      (List.length_replicate (n := n * (p.nLayers * p.width)) (a := (0 : F32)))
    rw [Except.ok.inj (hfill.symm.trans hout)]
    refine ⟨hlen, fun i hi k hk j hj => ?_⟩
    rw [hin i hi k hk j hj]
    exact (layerBlock_ok (hrow k hk i hi)).2 j hj

theorem capture_ok {entries : List (ℤ × ℕ)} {packets : List TokenFeatures}
    (h : capture p layerInp entries = .ok packets) :
    ∃ buf, captureBuf p layerInp entries.length = .ok buf ∧ packets = packTokens p buf entries := by
  unfold capture at h
  cases hbuf : captureBuf p layerInp entries.length with
  | error e => rw [hbuf] at h; cases h
  | ok buf => rw [hbuf] at h; exact ⟨buf, rfl, (Except.ok.inj h).symm⟩

/-- The packet of batch entry `e` at index `i`: the packed row of its layers. -/
structure PacketOf (p : SpecParams) (layerInp : LayerInp) (i : ℕ) (e : ℤ × ℕ) (tf : TokenFeatures) :
    Prop where
  token : tf.token = e.1
  position : tf.position = e.2
  row : ∃ row, tf.features = packRow p.endian row ∧ row.length = p.nLayers * p.width ∧
    ∀ k < p.nLayers, ∀ j < p.width, row[k * p.width + j]? = layerAt p layerInp k i j

theorem capture_packets {entries : List (ℤ × ℕ)} {packets : List TokenFeatures}
    (h : capture p layerInp entries = .ok packets) :
    packets.length = entries.length ∧ ∀ i (hi : i < entries.length) (hi' : i < packets.length),
      PacketOf p layerInp i entries[i] packets[i] := by
  obtain ⟨buf, hbuf, rfl⟩ := capture_ok h
  obtain ⟨hlen, hrows⟩ := captureBuf_rows hbuf
  refine ⟨length_packTokens p buf entries, fun i hi hi' => ?_⟩
  have hget : (packTokens p buf entries)[i] = ⟨entries[i].1, entries[i].2,
      packRow p.endian (rowAt (p.nLayers * p.width) i buf)⟩ := by
    simp [packTokens]
  rw [hget]
  refine ⟨rfl, rfl, _, rfl, ?_, fun k hk j hj => ?_⟩
  · have := row_end_le (p.nLayers * p.width) hi
    rw [rowAt, List.length_take, List.length_drop, hlen]
    omega
  · rw [rowAt, List.getElem?_take, if_pos (row_index_lt hk hj), List.getElem?_drop]
    exact hrows i hi k hk j hj

/-- Every captured packet has two bytes per value. -/
theorem capture_size {entries : List (ℤ × ℕ)} {packets : List TokenFeatures}
    (h : capture p layerInp entries = .ok packets) :
    ∀ tf ∈ packets, tf.features.length = p.nLayers * p.width * 2 := by
  obtain ⟨hlen, hpackets⟩ := capture_packets h
  intro tf htf
  obtain ⟨i, hi, rfl⟩ := List.getElem_of_mem htf
  obtain ⟨row, hrow, hrowlen, -⟩ := (hpackets i (by omega) hi).row
  rw [hrow, length_packRow, hrowlen]

/-- The positions of the packets are those of the batch. -/
theorem capture_positions {entries : List (ℤ × ℕ)} {packets : List TokenFeatures}
    (h : capture p layerInp entries = .ok packets) :
    packets.map TokenFeatures.position = entries.map Prod.snd := by
  obtain ⟨buf, -, rfl⟩ := capture_ok h
  exact List.ext_getElem (by simp [packTokens]) fun i hi hi' => by simp [packTokens]

theorem capture_tokens {entries : List (ℤ × ℕ)} {packets : List TokenFeatures}
    (h : capture p layerInp entries = .ok packets) :
    packets.map TokenFeatures.token = entries.map Prod.fst := by
  obtain ⟨buf, -, rfl⟩ := capture_ok h
  exact List.ext_getElem (by simp [packTokens]) fun i hi hi' => by simp [packTokens]

/-- A capture succeeds when its numbers fit and every layer covers the batch. -/
theorem capture_succeeds {entries : List (ℤ × ℕ)} (hH : 0 ≤ p.hiddenSize)
    (hfit : (p.nLayers : ℤ) * p.hiddenSize < 2 ^ 31)
    (hlayers : ∀ lid ∈ p.targetLayerIds, ∃ layer, layerInp lid = some layer ∧
      entries.length * p.width ≤ layer.length) :
    ∃ packets, capture p layerInp entries = .ok packets := by
  have hblock : ∀ k < p.nLayers, ∀ i < entries.length,
      ∃ s, layerBlock p layerInp k i = .ok s := by
    intro k hk i hi
    obtain ⟨layer, hlayer, hlen⟩ := hlayers _ (List.getElem_mem hk)
    have hle := row_end_le p.width hi
    refine ⟨(layer.drop (i * p.width)).take p.width, ?_⟩
    rw [layerBlock, List.getD_eq_getElem _ _ hk, hlayer]
    exact if_pos (by simp only [SpecParams.width] at hle hlen; omega)
  choose! row hrow using hblock
  obtain ⟨out, hout, -⟩ := fillBlocks_row hrow (fun k hk i hi => (layerBlock_ok (hrow k hk i hi)).1)
    (List.length_replicate (n := entries.length * (p.nLayers * p.width)) (a := (0 : F32)))
  refine ⟨packTokens p out entries, ?_⟩
  rw [capture, captureBuf, nEmbdEnc_of_fits hH hfit]
  exact congrArg (fun r : Except CaptureError (List F32) =>
    r >>= fun buf => pure (packTokens p buf entries)) hout

end DsparkEdge
