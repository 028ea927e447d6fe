import DsparkEdge.Converter
import Mathlib.Data.Rat.Defs

/-! The reader's side of a converted draft: `llama_model_dspark::load_arch_hparams`, and what
    `dspark_engine::init` reads again, from the model that was loaded and from the texts of its metadata.

        metadata ──load_arch_hparams──▶ hparams, target layers ──┐
            └──── block_size as text, atoi ────────────────────── init

    The loader requires what the converter may leave out, `target_layers`, and it reads them as integers
    whatever the converter made of them. -/

namespace DsparkEdge

open Atoi

/-! ### Reading metadata -/

/-- `LLM_KV_NAMES`, with the architecture's name. -/
def LlmKv.llamaKey : LlmKv → String
  | .targetLayers => "dspark.target_layers"
  | .blockSize => "dspark.block_size"
  | .markovRank => "dspark.markov_rank"
  | .markovHeadType => "dspark.markov_head_type"
  | .enableConfidenceHead => "dspark.enable_confidence_head"
  | .confidenceHeadWithMarkov => "dspark.confidence_head_with_markov"
  | .causalAttention => "dspark.attention.causal"
  | .layernormRmsEps => "dspark.attention.layer_norm_rms_epsilon"
  | .finalLogitSoftcapping => "dspark.final_logit_softcapping"
  | .slidingWindow => "dspark.attention.sliding_window"
  | .slidingWindowPattern => "dspark.attention.sliding_window_pattern"

/-- Both sides call a key by the same name. -/
theorem LlmKv.llamaKey_eq (key : LlmKv) : key.llamaKey = key.ggufKey := by
  cases key <;> rfl

inductive LoadError where
  | notFound (key : String)
  | wrongType (key : String)
  | wrongLength (key : String)
  | noTargetLayers
  | unsupportedHeadType
  deriving DecidableEq, Repr

def GgufValue.u32? : GgufValue → Option ℕ
  | .u32 n => some n.toNat
  | _ => none

def GgufValue.f32? : GgufValue → Option (BitVec 32)
  | .f32 x => some x
  | _ => none

def GgufValue.bool? : GgufValue → Option Bool
  | .bool b => some b
  | _ => none

def GgufValue.str? : GgufValue → Option String
  | .str s => some s
  | _ => none

variable (file : Metadata)

/-- `get_key(key, result, false)`: `none` where it returns false; a value of another type is an error. -/
def getKey {α : Type} (read : GgufValue → Option α) (key : LlmKv) : Except LoadError (Option α) :=
  match file key.llamaKey with
  | none => .ok none
  | some g =>
    match read g with
    | some a => .ok (some a)
    | none => .error (.wrongType key.llamaKey)

/-- `get_key(key, result)`. -/
def getRequired {α : Type} (read : GgufValue → Option α) (key : LlmKv) : Except LoadError α := do
  match ← getKey file read key with
  | some a => pure a
  | none => throw (.notFound key.llamaKey)

/-- `get_arr(key, result, false)` for 32-bit integers. -/
def getArr (key : LlmKv) : Except LoadError (Option (List ℤ)) :=
  match file key.llamaKey with
  | some (.i32s xs) => .ok (some (xs.map BitVec.toInt))
  | some (.f32s _) => .error (.wrongType key.llamaKey)
  | some (.bools _) => .error (.wrongType key.llamaKey)
  | _ => .ok none

/-- `get_key_or_arr(key, result, n)` for flags. -/
def getKeyOrArr (n : ℕ) (key : LlmKv) : Except LoadError (List Bool) :=
  match file key.llamaKey with
  | none => .error (.notFound key.llamaKey)
  | some (.bools bs) => if bs.length = n then .ok bs else .error (.wrongLength key.llamaKey)
  | some (.i32s xs) =>
    if xs.length = n then .ok (xs.map fun x => x ≠ 0) else .error (.wrongLength key.llamaKey)
  | some (.bool b) => .ok (List.replicate n b)
  | some (.u32 m) => .ok (List.replicate n (m ≠ 0))
  | some _ => .error (.wrongType key.llamaKey)

/-! ### `load_arch_hparams` -/

/-- `n_swa`, `is_swa_impl` and `swa_type`, which the two rope settings of the window follow. -/
structure SlidingWindow where
  nSwa : ℕ := 0
  isSwa : List Bool := []
  standard : Bool := false
  deriving DecidableEq, Repr

/-- What the loader sets; a key that is optional and absent leaves its field as it was. -/
structure DraftHparams where
  fNormRmsEps : BitVec 32
  fFinalLogitSoftcapping : Option (BitVec 32)
  fAttentionScale : BitVec 32
  targetLayerIds : List ℤ
  nEmbdInpEncImpl : ℕ
  dsparkBlockSize : ℕ
  markovRank : ℕ
  enableConfidenceHead : Bool
  confidenceHeadWithMarkov : Bool
  window : SlidingWindow
  deriving DecidableEq, Repr

def loadTargetLayers : Except LoadError (List ℤ) := do
  match ← getArr file .targetLayers with
  | some ids => pure ids
  | none => throw .noTargetLayers

/-- `markov_rank`, and its head's type if there is one. -/
def loadMarkovRank : Except LoadError ℕ := do
  let markovRank := (← getKey file GgufValue.u32? .markovRank).getD 0
  if 0 < markovRank then
    let headType ← getKey file GgufValue.str? .markovHeadType
    if headType = some "vanilla" then pure markovRank else throw .unsupportedHeadType
  else pure markovRank

def loadSlidingWindow (nLayer : ℕ) : Except LoadError SlidingWindow := do
  match ← getKey file GgufValue.u32? .slidingWindow with
  | none => pure {}
  | some nSwa =>
    if 0 < nSwa then do
      let isSwa ← getKeyOrArr file nLayer .slidingWindowPattern
      if isSwa.any id then pure { nSwa := nSwa, isSwa := isSwa, standard := true }
      else pure { isSwa := isSwa }
    else pure {}

/-- `load_arch_hparams` of arch "dspark", for a model of `nLayer` layers and `nEmbd` values a row. -/
def loadArchHparams (nEmbd nLayer : ℕ) : Except LoadError DraftHparams := do
  let eps ← getRequired file GgufValue.f32? .layernormRmsEps
  let softcapping ← getKey file GgufValue.f32? .finalLogitSoftcapping
  let targetLayerIds ← loadTargetLayers file
  let blockSize ← getKey file GgufValue.u32? .blockSize
  let markovRank ← loadMarkovRank file
  let enable ← getKey file GgufValue.bool? .enableConfidenceHead
  let withMarkov ← getKey file GgufValue.bool? .confidenceHeadWithMarkov
  let window ← loadSlidingWindow file nLayer
  pure
    { fNormRmsEps := eps
      fFinalLogitSoftcapping := softcapping
      fAttentionScale := 0x3F800000
      targetLayerIds := targetLayerIds
      nEmbdInpEncImpl := targetLayerIds.length * nEmbd % 2 ^ 32
      dsparkBlockSize := blockSize.getD 0
      markovRank := markovRank
      enableConfidenceHead := enable.getD false
      confidenceHeadWithMarkov := withMarkov.getD false
      window := window }

/-! ### `dspark_engine::init` -/

/-- What `init` takes from the model and its metadata. `conf_min` is left as its text. -/
structure InitConfig where
  targetLayerIds : List ℤ
  hiddenSize : ℤ
  nEmbdDec : ℤ
  blockSize : ℤ
  confMin : Option String
  deriving DecidableEq, Repr

/-- `llama_model_meta_val_str` into a buffer of 32 bytes: arrays have no text. `showF32` is the text of a
    float. -/
def metaValStr (showF32 : BitVec 32 → String) (key : String) : Option String :=
  let text :=
    match file key with
    | some (.u32 n) => some (toString (n.toNat : ℤ))
    | some (.f32 x) => some (showF32 x)
    | some (.bool b) => some (if b then "true" else "false")
    | some (.str s) => some s
    | _ => none
  text.map fun s => String.ofList (s.toList.take 31)

/-- The text of the first key that has one. -/
def firstMetaVal (showF32 : BitVec 32 → String) (keys : List String) : Option String :=
  keys.findSome? (metaValStr file showF32)

def engineInit (showF32 : BitVec 32 → String) (nEmbd : ℤ) (targetLayerIds : List ℤ) : InitConfig :=
  let hiddenSize := ((firstMetaVal file showF32
    ["dspark.target_hidden_size", "dflash.target_hidden_size", "target_hidden_size"]).map atoi).getD 0
  { targetLayerIds := targetLayerIds
    hiddenSize := if hiddenSize ≤ 0 then nEmbd else hiddenSize
    nEmbdDec := nEmbd
    blockSize := ((firstMetaVal file showF32 ["dspark.block_size", "dflash.block_size"]).map atoi).getD 16
    confMin := metaValStr file showF32 "dspark.conf_min" }

/-! ### What the file holds -/

variable {py : PyRuntime} {file}

/-- What the base class has written is valid: the loader's own reads of it succeed, and it has left the
    keys of the head alone. -/
structure BaseValid (nLayer : ℕ) (baseKv : Kv py.Float) : Prop where
  apart : ∀ key : LlmKv, key.ofHead = true → baseKv.lookup key.ggufKey = none
  eps : ∃ x, getRequired (fileContents baseKv) GgufValue.f32? .layernormRmsEps = .ok x
  softcapping : ∃ x, getKey (fileContents baseKv) GgufValue.f32? .finalLogitSoftcapping = .ok x
  window : ∃ w, loadSlidingWindow (fileContents baseKv) nLayer = .ok w

/-- The file of an accepted dictionary, entry by entry. -/
structure Filed (hparams : Hparams py.Float) (nLayer : ℕ) (file : Metadata) : Prop where
  block : ∃ w : BitVec 32, (hparams.get "block_size" (.int 7)).number = some (w.toNat : ℤ) ∧
    file LlmKv.blockSize.llamaKey = some (.u32 w)
  layers : hparams.hasLayers = true → ∃ xs shifted g,
    hparams.get "target_layer_ids" (.list []) = .list xs ∧ xs ≠ [] ∧
      xs.mapM PyValue.addOne = .ok shifted ∧ packArray shifted = some g ∧
      file LlmKv.targetLayers.llamaKey = some g
  noLayers : hparams.hasLayers = false → file LlmKv.targetLayers.llamaKey = none
  rank : ∃ w : BitVec 32, (hparams.get "markov_rank" (.int 0)).toInt = .ok (w.toNat : ℤ) ∧
    file LlmKv.markovRank.llamaKey = some (.u32 w) ∧
      (0 < w.toNat → file LlmKv.markovHeadType.llamaKey = some (.str "vanilla"))
  enable : file LlmKv.enableConfidenceHead.llamaKey = some (.bool hparams.enableConfidenceHead)
  withMarkov : file LlmKv.confidenceHeadWithMarkov.llamaKey =
    if hparams.enableConfidenceHead = true then some (.bool hparams.confidenceHeadWithMarkov) else none
  eps : ∃ x, getRequired file GgufValue.f32? .layernormRmsEps = .ok x
  softcapping : ∃ x, getKey file GgufValue.f32? .finalLogitSoftcapping = .ok x
  window : ∃ w, loadSlidingWindow file nLayer = .ok w

theorem filed {base : Hparams py.Float → Except (PyError py.Float) (Kv py.Float)}
    {hparams : Hparams py.Float} {kv : Kv py.Float} {nLayer : ℕ}
    (hbase : ∀ baseKv, base hparams = .ok baseKv → BaseValid nLayer baseKv)
    (hset : setGgufParameters base hparams = .ok kv) (hfile : writeFile kv = some file) :
    Filed hparams nLayer file := by
  obtain ⟨baseKv, hkv, hw⟩ := setGgufParameters_spec hset
  have hvalid := hbase baseKv hkv
  have hnone {key : LlmKv} (h : kv.lookup key.ggufKey = none) : file key.llamaKey = none := by
    rw [LlmKv.llamaKey_eq, (writeFile_lookup hfile key.ggufKey).1, h]
    rfl
  have hsome {key : LlmKv} {v : WriterValue py.Float} (h : kv.lookup key.ggufKey = some v) :
      ∃ g, v.pack = some g ∧ file key.llamaKey = some g := by
    rw [LlmKv.llamaKey_eq]
    exact (writeFile_lookup hfile key.ggufKey).2 v h
  have hval {key : LlmKv} {v : WriterValue py.Float} {g : GgufValue} (h : kv.lookup key.ggufKey = some v)
      (hpack : v.pack = some g) : file key.llamaKey = some g := by
    rw [LlmKv.llamaKey_eq, (writeFile_lookup hfile key.ggufKey).1, h]
    exact hpack
  have hsame {key : LlmKv} (h : key.ofHead = false) (h' : key ≠ .causalAttention) :
      fileContents baseKv key.llamaKey = file key.llamaKey := by
    rw [LlmKv.llamaKey_eq, (writeFile_lookup hfile key.ggufKey).1, hw.base key h h']
    rfl
  refine ⟨?_, fun htruthy => ?_, fun htruthy => ?_, ?_, ?_, ?_, ?_, ?_, ?_⟩
  · obtain ⟨g, hpack, hg⟩ := hsome hw.blockSize
    obtain ⟨n, hn, -, w, rfl, hwn⟩ := pack_uint32 hpack
    exact ⟨w, by rw [hn, hwn], hg⟩
  · obtain ⟨ids, shifted, hids, hshifted, hlookup⟩ := hw.layers htruthy
    obtain ⟨g, hpack, hg⟩ := hsome hlookup
    obtain ⟨hlist, hne⟩ := list_of_shifted htruthy hids hshifted
    exact ⟨ids, shifted, g, hlist, hne, hshifted, hpack, hg⟩
  · exact hnone ((hw.noLayers htruthy).trans (hvalid.apart _ rfl))
  · obtain ⟨rank, hrank, hlookup, hhead⟩ := hw.rank
    obtain ⟨g, hpack, hg⟩ := hsome hlookup
    obtain ⟨n, hn, -, w, rfl, hwn⟩ := pack_uint32 hpack
    have heq : rank = (w.toNat : ℤ) := by
      rw [hwn]
      exact Option.some.inj hn
    exact ⟨w, by rw [hrank, heq], hg, fun hpos => hval (hhead (by omega)) rfl⟩
  · exact hval hw.enable rfl
  · have hlookup := hw.withMarkov
    by_cases henable : hparams.enableConfidenceHead = true
    · rw [if_pos henable] at hlookup ⊢
      exact hval hlookup rfl
    · rw [if_neg henable] at hlookup ⊢
      exact hnone (hlookup.trans (hvalid.apart _ rfl))
  · obtain ⟨x, hx⟩ := hvalid.eps
    exact ⟨x, by rwa [getRequired, getKey, hsame rfl (by decide)] at hx⟩
  · obtain ⟨x, hx⟩ := hvalid.softcapping
    exact ⟨x, by rwa [getKey, hsame rfl (by decide)] at hx⟩
  · obtain ⟨w, hwindow⟩ := hvalid.window
    refine ⟨w, ?_⟩
    simpa only [loadSlidingWindow, getKey, getKeyOrArr, @hsame .slidingWindow rfl (by decide),
      @hsame .slidingWindowPattern rfl (by decide)] using hwindow

/-! ### What the loader makes of it -/

/-- The integers that `target_layer_ids` lists, if it is a list of integers. -/
def Hparams.layerIds (hparams : Hparams py.Float) : Option (List ℤ) :=
  match hparams.get "target_layer_ids" (.list []) with
  | .list xs => xs.mapM PyValue.number
  | _ => none

theorem loadTargetLayers_eq (file : Metadata) :
    loadTargetLayers file =
      match file LlmKv.targetLayers.llamaKey with
      | some (.i32s xs) => .ok (xs.map BitVec.toInt)
      | some (.f32s _) => .error (.wrongType LlmKv.targetLayers.llamaKey)
      | some (.bools _) => .error (.wrongType LlmKv.targetLayers.llamaKey)
      | _ => .error .noTargetLayers := by
  rw [loadTargetLayers, getArr]
  split <;> rfl

/-- Integers come back as they were packed, floats do not. -/
theorem packArray_cases {xs shifted : List (PyValue py.Float)} {g : GgufValue}
    (hshifted : xs.mapM PyValue.addOne = .ok shifted) (hpack : packArray shifted = some g) :
    (∃ ids ws, xs.mapM PyValue.number = some ids ∧ g = .i32s ws ∧ ws.map BitVec.toInt = ids.map (· + 1)) ∨
      xs.mapM PyValue.number = none ∧ ∃ ws, g = .f32s ws := by
  rw [packArray, mapM_addOne hshifted] at hpack
  cases hids : xs.mapM PyValue.number with
  | some ids =>
    rw [hids] at hpack
    dsimp only [Option.map_some] at hpack
    split at hpack
    · rename_i hfit
      refine Or.inl ⟨ids, _, rfl, (Option.some.inj hpack).symm, ?_⟩
      rw [List.map_map]
      exact (List.map_congr_left fun n hn => toInt_ofInt (hfit n hn)).trans (List.map_id _)
    · cases hpack
  | none =>
    rw [hids] at hpack
    dsimp only [Option.map_none] at hpack
    obtain ⟨ws, -, hws⟩ := Option.map_eq_some_iff.mp hpack
    exact Or.inr ⟨rfl, ws, hws.symm⟩

/-- The loader finds its layers exactly if the dictionary lists integers, and at least one. -/
theorem Filed.targetLayers {hparams : Hparams py.Float} {nLayer : ℕ} (h : Filed hparams nLayer file) :
    (∃ ids, hparams.layerIds = some ids ∧ ids ≠ [] ∧ loadTargetLayers file = .ok (ids.map (· + 1))) ∨
      (∀ ids, hparams.layerIds = some ids → ids = []) ∧ ∃ e, loadTargetLayers file = .error e := by
  rw [loadTargetLayers_eq, Hparams.layerIds]
  by_cases htruthy : hparams.hasLayers = true
  · obtain ⟨xs, shifted, g, hget, hne, hshifted, hpack, hg⟩ := h.layers htruthy
    rw [hget, hg]
    rcases packArray_cases hshifted hpack with ⟨ids, ws, hids, rfl, hws⟩ | ⟨hids, ws, rfl⟩
    · refine Or.inl ⟨ids, hids, ?_, congrArg _ hws⟩
      rintro rfl
      cases xs with
      | nil => exact hne rfl
      | cons x xs =>
        rw [List.mapM_cons] at hids
        cases hx : x.number <;> cases hxs : xs.mapM PyValue.number <;> rw [hx, hxs] at hids <;> cases hids
    · right
      dsimp only
      rw [hids]
      exact ⟨fun ids h => (by cases h), _, rfl⟩
  · right
    rw [h.noLayers (by simpa using htruthy)]
    refine ⟨fun ids hids => ?_, _, rfl⟩
    split at hids
    · rename_i xs hget
      rw [Hparams.hasLayers, hget] at htruthy
      cases xs with
      | nil => exact (Option.some.inj hids).symm
      | cons x xs => exact absurd rfl htruthy
    · cases hids

theorem Filed.markovRank {hparams : Hparams py.Float} {nLayer : ℕ} (h : Filed hparams nLayer file) :
    ∃ rank : ℕ, (hparams.get "markov_rank" (.int 0)).toInt = .ok (rank : ℤ) ∧
      loadMarkovRank file = .ok rank := by
  obtain ⟨w, hrank, hfile, hhead⟩ := h.rank
  refine ⟨w.toNat, hrank, ?_⟩
  simp only [loadMarkovRank, getKey, hfile, GgufValue.u32?]
  by_cases hpos : 0 < w.toNat
  · rw [hhead hpos]
    simp [hpos, GgufValue.str?, bind, Except.bind, pure, Except.pure]
  · simp [hpos, bind, Except.bind, pure, Except.pure]

/-- A file whose layers load, loads. -/
theorem Filed.loads {hparams : Hparams py.Float} {nLayer : ℕ} (h : Filed hparams nLayer file)
    (nEmbd : ℕ) {ids : List ℤ} (hids : loadTargetLayers file = .ok ids) :
    ∃ hp, loadArchHparams file nEmbd nLayer = .ok hp ∧ hp.targetLayerIds = ids ∧
      (hparams.get "block_size" (.int 7)).number = some (hp.dsparkBlockSize : ℤ) ∧
      file LlmKv.blockSize.llamaKey = some (.u32 (BitVec.ofNat 32 hp.dsparkBlockSize)) ∧
      hp.dsparkBlockSize < 2 ^ 32 ∧
      (hparams.get "markov_rank" (.int 0)).toInt = .ok (hp.markovRank : ℤ) ∧
      hp.enableConfidenceHead = hparams.enableConfidenceHead ∧
      hp.confidenceHeadWithMarkov = (hparams.enableConfidenceHead && hparams.confidenceHeadWithMarkov) := by
  obtain ⟨eps, heps⟩ := h.eps
  obtain ⟨softcapping, hsoftcapping⟩ := h.softcapping
  obtain ⟨window, hwindow⟩ := h.window
  obtain ⟨block, hblock, hblockFile⟩ := h.block
  obtain ⟨rank, hrank, hrankFile⟩ := h.markovRank
  have hblockKey : getKey file GgufValue.u32? .blockSize = .ok (some block.toNat) := by
    simp [getKey, hblockFile, GgufValue.u32?]
  have henable : getKey file GgufValue.bool? .enableConfidenceHead =
      .ok (some hparams.enableConfidenceHead) := by
    simp [getKey, h.enable, GgufValue.bool?]
  have hwith : getKey file GgufValue.bool? .confidenceHeadWithMarkov =
      .ok (if hparams.enableConfidenceHead = true then some hparams.confidenceHeadWithMarkov else none) := by
    rw [getKey, h.withMarkov]
    by_cases henable : hparams.enableConfidenceHead = true
    · rw [if_pos henable, if_pos henable]
      rfl
    · rw [if_neg henable, if_neg henable]
  rw [loadArchHparams, heps, hsoftcapping, hids, hblockKey, hrankFile, henable, hwith, hwindow]
  refine ⟨_, rfl, rfl, hblock, ?_, block.isLt, hrank, rfl, ?_⟩
  · rw [hblockFile]
    simp
  · cases hparams.enableConfidenceHead <;> rfl

theorem loadArchHparams_error {nEmbd nLayer : ℕ} {hp : DraftHparams}
    (h : loadArchHparams file nEmbd nLayer = .ok hp) : ∃ ids, loadTargetLayers file = .ok ids := by
  rw [loadArchHparams, bind_ok_iff] at h
  obtain ⟨_, -, h⟩ := h
  rw [bind_ok_iff] at h
  obtain ⟨_, -, h⟩ := h
  rw [bind_ok_iff] at h
  obtain ⟨ids, hids, -⟩ := h
  exact ⟨ids, hids⟩

/-! ### The conversion -/

/-- A loaded draft has what the dictionary says, and the daemon's engine reads the same of it. -/
structure Recovered (hparams : Hparams py.Float) (hp : DraftHparams) (cfg : InitConfig) : Prop where
  blockSize : (hparams.get "block_size" (.int 7)).number = some (hp.dsparkBlockSize : ℤ)
  markovRank : (hparams.get "markov_rank" (.int 0)).toInt = .ok (hp.markovRank : ℤ)
  enable : hp.enableConfidenceHead = hparams.enableConfidenceHead
  withMarkov : hp.confidenceHeadWithMarkov = hparams.confidenceHeadWithMarkov
  layers : hparams.layerIds.map (List.map (· + 1)) = some hp.targetLayerIds
  engineBlockSize : cfg.blockSize = hp.dsparkBlockSize
  engineLayers : cfg.targetLayerIds = hp.targetLayerIds

/-- The file loads, and everything is recovered. -/
def Loadable (hparams : Hparams py.Float) (showF32 : BitVec 32 → String) (nEmbd nLayer : ℕ)
    (file : Metadata) : Prop :=
  ∃ hp, loadArchHparams file nEmbd nLayer = .ok hp ∧
    Recovered hparams hp (engineInit file showF32 nEmbd hp.targetLayerIds)

/-- At least one target layer, integers all of them; a block size that is an `int`; and no Markov part of
    a confidence head that is off. -/
structure Convertible (hparams : Hparams py.Float) : Prop where
  layers : ∃ ids, hparams.layerIds = some ids ∧ ids ≠ []
  block : ∀ n, (hparams.get "block_size" (.int 7)).number = some n → n < 2 ^ 31
  flags : hparams.confidenceHeadWithMarkov = true → hparams.enableConfidenceHead = true

/-- `init` has the block size as the text of the metadata. -/
theorem engineInit_blockSize (showF32 : BitVec 32 → String) (nEmbd : ℤ) (ids : List ℤ) {n : ℕ}
    (hn : n < 2 ^ 32) (hfile : file LlmKv.blockSize.llamaKey = some (.u32 (BitVec.ofNat 32 n))) :
    (engineInit file showF32 nEmbd ids).blockSize = atoi (toString (n : ℤ)) := by
  have hnat : (BitVec.ofNat 32 n).toNat = n := by
    rw [BitVec.toNat_ofNat, Nat.mod_eq_of_lt hn]
  have htake : (toString (n : ℤ)).toList.take 31 = (toString (n : ℤ)).toList :=
    List.take_of_length_le (by have := length_toString_unsigned hn; omega)
  have hval : metaValStr file showF32 "dspark.block_size" = some (toString (n : ℤ)) := by
    rw [metaValStr, show "dspark.block_size" = LlmKv.blockSize.llamaKey from rfl, hfile]
    dsimp only
    rw [hnat, Option.map_some, htake, String.ofList_toList]
  simp only [engineInit, firstMetaVal, List.findSome?_cons, hval, Option.map_some, Option.getD_some]

/-- CONVERSION: of every dictionary that the converter accepts and writes, the file loads and gives back
    what was in it exactly if the dictionary is convertible. -/
theorem loadable_iff (base : Hparams py.Float → Except (PyError py.Float) (Kv py.Float))
    (hparams : Hparams py.Float) (showF32 : BitVec 32 → String) (nEmbd nLayer : ℕ) {kv : Kv py.Float}
    {file : Metadata} (hbase : ∀ baseKv, base hparams = .ok baseKv → BaseValid nLayer baseKv)
    (hset : setGgufParameters base hparams = .ok kv) (hfile : writeFile kv = some file) :
    Loadable hparams showF32 nEmbd nLayer file ↔ Convertible hparams := by
  have hfiled := filed hbase hset hfile
  rcases hfiled.targetLayers with ⟨ids, hids, hne, hload⟩ | ⟨hnone, e, herror⟩
  · obtain ⟨hp, hhp, hlayers, hblock, hblockFile, hlt, hrank, henable, hwith⟩ := hfiled.loads nEmbd hload
    have hinit := engineInit_blockSize showF32 nEmbd hp.targetLayerIds hlt hblockFile
    have hunsigned := atoi_toString_unsigned (n := hp.dsparkBlockSize) (by omega) (by omega)
    constructor
    · rintro ⟨hp', hhp', hrec⟩
      obtain rfl := Except.ok.inj (hhp.symm.trans hhp')
      refine ⟨⟨ids, hids, hne⟩, fun n hn => ?_, fun hmarkov => ?_⟩
      · obtain rfl := Option.some.inj (hblock.symm.trans hn)
        exact hunsigned.mp (hinit.symm.trans hrec.engineBlockSize)
      · have := hrec.withMarkov
        rw [hwith, hmarkov, Bool.and_true] at this
        exact this
    · intro hconv
      refine ⟨hp, hhp, hblock, hrank, henable, ?_, ?_, ?_, rfl⟩
      · rw [hwith]
        cases hmarkov : hparams.confidenceHeadWithMarkov with
        | false => exact Bool.and_false _
        | true => rw [hconv.flags hmarkov, Bool.true_and]
      · rw [hids, hlayers]
        rfl
      · exact hinit.trans (hunsigned.mpr (hconv.block _ hblock))
  · refine iff_of_false ?_ ?_
    · rintro ⟨hp, hhp, -⟩
      obtain ⟨ids, hids⟩ := loadArchHparams_error hhp
      rw [herror] at hids
      cases hids
    · rintro ⟨⟨ids, hids, hne⟩, -, -⟩
      exact hne (hnone ids hids)

/-! ### Two conversions -/

/-- A Python whose floats are exact; `int` of a text is that of a numeral. -/
def exactRuntime : PyRuntime where
  Float := ℚ
  truthy := fun x => x ≠ 0
  trunc := fun x => some (x.num.tdiv x.den)
  succ := fun x => x + 1
  pack := fun _ => none
  intOfStr := String.toInt?

/-- A base class that writes the epsilon 1e-6 and nothing else. -/
def epsBase (_ : Hparams exactRuntime.Float) :
    Except (PyError exactRuntime.Float) (Kv exactRuntime.Float) :=
  .ok ((∅ : Kv exactRuntime.Float).insert LlmKv.layernormRmsEps.ggufKey (.written (.f32 0x358637BD)))

theorem epsBase_valid (hparams : Hparams exactRuntime.Float) (nLayer : ℕ) (baseKv : Kv exactRuntime.Float)
    (h : epsBase hparams = .ok baseKv) : BaseValid nLayer baseKv := by
  obtain rfl := Except.ok.inj h
  refine ⟨fun key hkey => ?_, ⟨_, rfl⟩, ⟨_, rfl⟩, ⟨_, rfl⟩⟩
  cases key <;> first | rfl | cases hkey

/-- A draft of block size 7 on two target layers, with both heads. -/
def twoLayerDraft : Hparams exactRuntime.Float :=
  [⟨"block_size", .int 7⟩, ⟨"target_layer_ids", .list [.int 0, .int 5]⟩, ⟨"markov_rank", .int 256⟩,
    ⟨"markov_head_type", .str "vanilla"⟩, ⟨"enable_confidence_head", .bool true⟩,
    ⟨"confidence_head_with_markov", .bool true⟩].toAList

theorem loadable_two_layers :
    ∃ kv file, setGgufParameters epsBase twoLayerDraft = .ok kv ∧ writeFile kv = some file ∧
      Loadable twoLayerDraft (fun _ => "") 2560 4 file := by
  refine ⟨_, _, rfl, rfl, (loadable_iff epsBase twoLayerDraft _ 2560 4 (epsBase_valid twoLayerDraft 4) rfl
    rfl).mpr ⟨⟨[0, 5], rfl, by decide⟩, fun n hn => ?_, fun _ => rfl⟩⟩
  obtain rfl := Option.some.inj hn
  decide

/-- A dictionary without target layers is accepted, and its file does not load. -/
theorem no_target_layers_unloadable :
    ¬∀ (py : PyRuntime) (base : Hparams py.Float → Except (PyError py.Float) (Kv py.Float))
      (hparams : Hparams py.Float) (showF32 : BitVec 32 → String) (nEmbd nLayer : ℕ) (kv : Kv py.Float)
      (file : Metadata), (∀ baseKv, base hparams = .ok baseKv → BaseValid nLayer baseKv) →
      setGgufParameters base hparams = .ok kv → writeFile kv = some file →
      Loadable hparams showF32 nEmbd nLayer file := by
  intro h
  obtain ⟨hp, hload, -⟩ := h exactRuntime epsBase ∅ (fun _ => "") 2560 4 _ _ (epsBase_valid ∅ 4) rfl rfl
  cases hload

end DsparkEdge
