import DsparkEdge.Lib.Blocks
import DsparkEdge.Proto

/-! What `process()` does with a decoded batch before it stores anything: copy the tap layers' rows
    into `features_buf` (layer-major reads, token-major writes), truncate every value to bf16 and
    pack one feature packet per token (`remote_dspark_impl.h`).

        layer k:  │ token 0 │ token 1 │ …           stride hidden_size
        features_buf row i:  │ layer 0 │ layer 1 │ …  stride n_embd_enc

    `hidden_size` is whatever the handshake said, so the row length `n_embd_enc` — an `int32`
    product — may overflow, and the copy may read past a layer's buffer. Both are undefined
    behaviour, as is the `length_error` of a negative size; the model stops with
    `CaptureError.undefined` there. -/

namespace DsparkEdge

open Blocks

/-- Byte order of a host: `memcpy` of a `uint16_t` writes its bytes in this order. -/
inductive Endian where | little | big
  deriving DecidableEq, Repr

def Endian.toBytes : Endian → BitVec 16 → List Byte
  | .little, u => [u.setWidth 8, (u >>> 8).setWidth 8]
  | .big, u => [(u >>> 8).setWidth 8, u.setWidth 8]

def Endian.ofBytes : Endian → Byte → Byte → BitVec 16
  | .little, a, b => b.setWidth 16 <<< 8 ||| a.setWidth 16
  | .big, a, b => a.setWidth 16 <<< 8 ||| b.setWidth 16

@[simp] theorem Endian.length_toBytes (e : Endian) (u : BitVec 16) : (e.toBytes u).length = 2 := by
  cases e <;> rfl

/-- The `int32` product, undefined on overflow. -/
def mulInt32 (a b : ℤ) : Option ℤ := if -2 ^ 31 ≤ a * b ∧ a * b < 2 ^ 31 then some (a * b) else none

/-- What the server drafter is configured with: its own `n_max`, and the handshake's numbers. -/
structure SpecParams where
  nMax : ℤ
  targetLayerIds : List ℤ
  hiddenSize : ℤ
  blockSize : ℤ
  endian : Endian
  deriving DecidableEq, Repr

/-- A decoded batch: either tokens with their positions, or raw embeddings. -/
inductive LlamaBatch where
  | tokens (entries : List (ℤ × ℕ))
  | embd (nTokens : ℕ)
  deriving DecidableEq, Repr

/-- `llama_get_embeddings_layer_inp`: the buffer of a layer's input rows, if it was extracted. -/
abbrev LayerInp := ℤ → Option (List F32)

inductive CaptureError where
  | missingLayer (lid : ℤ)
  | undefined
  deriving DecidableEq, Repr

/-- `layer[off .. off + len)`, a read past the end of the buffer being undefined. -/
def readLayer (layer : List F32) (off len : ℕ) : Except CaptureError (List F32) :=
  if off + len ≤ layer.length then .ok ((layer.drop off).take len) else .error .undefined

/-- `n_embd_enc`, the row length of `features_buf`. -/
def nEmbdEnc (p : SpecParams) : Except CaptureError ℕ :=
  match mulInt32 p.targetLayerIds.length p.hiddenSize with
  | none => .error .undefined
  | some e => if 0 ≤ e then .ok e.toNat else .error .undefined

/-- The block copied for layer index `k` and batch index `i`. -/
def layerBlock (p : SpecParams) (layerInp : LayerInp) (k i : ℕ) : Except CaptureError (List F32) :=
  match layerInp (p.targetLayerIds.getD k 0) with
  | none => .error (.missingLayer (p.targetLayerIds.getD k 0))
  | some layer => readLayer layer (i * p.hiddenSize.toNat) p.hiddenSize.toNat

/-- `features_buf` after the copy loops over a batch of `n` tokens. -/
def captureBuf (p : SpecParams) (layerInp : LayerInp) (n : ℕ) : Except CaptureError (List F32) := do
  let e ← nEmbdEnc p
  fillBlocks p.targetLayerIds.length n e p.hiddenSize.toNat (layerBlock p layerInp)
    (List.replicate (n * e) 0)

/-- Truncate f32 to bf16 and write its bytes. -/
def packValue (en : Endian) (f : F32) : List Byte := en.toBytes ((f >>> 16).setWidth 16)

def packRow (en : Endian) (row : List F32) : List Byte := row.flatMap (packValue en)

/-- One packet per token of the batch, from row `i` of `features_buf`. -/
def packTokens (p : SpecParams) (buf : List F32) (entries : List (ℤ × ℕ)) : List TokenFeatures :=
  entries.mapIdx fun i e =>
    { token := e.1, position := e.2,
      features := packRow p.endian
        (rowAt (p.targetLayerIds.length * p.hiddenSize.toNat) i buf) }

/-- The packets of a token batch. -/
def capture (p : SpecParams) (layerInp : LayerInp) (entries : List (ℤ × ℕ)) :
    Except CaptureError (List TokenFeatures) := do
  let buf ← captureBuf p layerInp entries.length
  pure (packTokens p buf entries)

theorem nEmbdEnc_ok {p : SpecParams} {e : ℕ} (h : nEmbdEnc p = .ok e) :
    (e : ℤ) = p.targetLayerIds.length * p.hiddenSize ∧ (e : ℤ) < 2 ^ 31 := by
  unfold nEmbdEnc mulInt32 at h
  split_ifs at h with hfit
  simp only at h
  split_ifs at h with hnn
  cases h
  exact ⟨Int.toNat_of_nonneg hnn, by rw [Int.toNat_of_nonneg hnn]; exact hfit.2⟩

/-- The row length is `L * H` whenever it is defined at all. -/
theorem nEmbdEnc_eq {p : SpecParams} {e : ℕ} (h : nEmbdEnc p = .ok e) :
    e = p.targetLayerIds.length * p.hiddenSize.toNat := by
  have he := (nEmbdEnc_ok h).1
  by_cases hH : 0 ≤ p.hiddenSize
  · obtain ⟨m, hm⟩ := Int.eq_ofNat_of_zero_le hH
    rw [hm] at he ⊢
    exact_mod_cast he
  · rcases Nat.eq_zero_or_pos p.targetLayerIds.length with hL | hL
    · rw [hL] at he ⊢; simpa using he
    · have hL' : (0 : ℤ) < p.targetLayerIds.length := by exact_mod_cast hL
      have := Int.mul_neg_of_pos_of_neg hL' (by omega : p.hiddenSize < 0)
      omega

/-- A handshake whose row fits an `int32` has a defined row length. -/
theorem nEmbdEnc_of_fits {p : SpecParams} (hH : 0 ≤ p.hiddenSize)
    (hfit : (p.targetLayerIds.length : ℤ) * p.hiddenSize < 2 ^ 31) :
    nEmbdEnc p = .ok (p.targetLayerIds.length * p.hiddenSize.toNat) := by
  have hnn : 0 ≤ (p.targetLayerIds.length : ℤ) * p.hiddenSize := by positivity
  unfold nEmbdEnc mulInt32
  rw [if_pos ⟨by omega, hfit⟩]
  simp only [hnn, if_true]
  congr 1
  obtain ⟨m, hm⟩ := Int.eq_ofNat_of_zero_le hH
  rw [hm]
  simp only [Int.toNat_natCast, ← Nat.cast_mul]

@[simp] theorem length_packRow (en : Endian) (row : List F32) :
    (packRow en row).length = row.length * 2 := by
  induction row with
  | nil => rfl
  | cons f row ih =>
    rw [packRow, List.flatMap_cons, List.length_append, ← packRow, ih, packValue,
      Endian.length_toBytes, List.length_cons]
    omega

theorem length_packTokens (p : SpecParams) (buf : List F32) (entries : List (ℤ × ℕ)) :
    (packTokens p buf entries).length = entries.length := List.length_mapIdx

end DsparkEdge
