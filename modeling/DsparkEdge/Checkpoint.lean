import DsparkEdge.Codec
import DsparkEdge.DraftBlock
import DsparkEdge.Handshake
import DsparkEdge.Loadable
import DsparkEdge.Sessions
import DsparkEdge.Transport

/-! From the dictionary of a checkpoint to the floats that the draft's encoder gets. The numbers go through five
    programs, and nobody on the way compares two of them:

        dictionary ──converter──▶ file ──load_arch_hparams──▶ the encoder's width
        ids, block size            └─────────init───────────▶ engine ──InitSession, as bytes──▶ server
                                                                                                  │ layer inputs
        encoder row ◀──unpack── packet ◀───────────────────────capture────────────────────────────┘ ids[k] + 1  -/

namespace DsparkEdge

open Atoi Blocks

/-! ### The engine's numbers -/

/-- What the engine goes on with after `init`, if a row is not empty and its length an `int32`. -/
def InitConfig.modelConfig (init : InitConfig) (maskTokenId : ℤ) (confMin : F32) (nUbatch : ℕ) (endian : Endian) :
    Option ModelConfig :=
  if h : 0 < init.hiddenSize.toNat ∧ 0 < nUbatch ∧ init.targetLayerIds.length * init.hiddenSize.toNat < 2 ^ 31 then
    some
      { targetLayerIds := init.targetLayerIds
        hiddenSize := init.hiddenSize.toNat
        nEmbdDec := init.nEmbdDec.toNat
        blockSize := init.blockSize
        maskTokenId := maskTokenId
        confMin := confMin
        nUbatch := nUbatch
        endian := endian
        hidden_pos := h.1
        ubatch_pos := h.2.1
        row_fits := h.2.2 }
  else none

/-- The keys `init` looks for the target's hidden size under. -/
def widthKeys : List String := ["dspark.target_hidden_size", "dflash.target_hidden_size", "target_hidden_size"]

section Converted

variable {py : PyRuntime} {hparams : Hparams py.Float} {kv : Kv py.Float} {file : Metadata}

theorem lookup_insert_apart (kv : Kv py.Float) {key : String} (hkey : ∀ k : LlmKv, key ≠ k.ggufKey) (k : LlmKv)
    (v : WriterValue py.Float) : (kv.insert k.ggufKey v).lookup key = kv.lookup key :=
  AList.lookup_insert_ne (hkey k)

/-- The draft's class writes its own keys only. -/
theorem setGgufParameters_apart {base : Hparams py.Float → Except (PyError py.Float) (Kv py.Float)}
    (h : setGgufParameters base hparams = .ok kv) {key : String} (hkey : ∀ k : LlmKv, key ≠ k.ggufKey) :
    ∃ baseKv, base hparams = .ok baseKv ∧ kv.lookup key = baseKv.lookup key := by
  rw [setGgufParameters, bind_ok_iff] at h
  obtain ⟨baseKv, hbase, h⟩ := h
  rw [bind_ok_iff] at h
  obtain ⟨kv₁, hlayers, h⟩ := h
  rw [bind_ok_iff] at h
  obtain ⟨kv₂, hmarkov, h⟩ := h
  obtain rfl := Except.ok.inj h
  have hconf : (addConfidenceHead hparams kv₂).lookup key = kv₂.lookup key := by
    rw [addConfidenceHead]
    split <;> simp only [lookup_insert_apart _ hkey]
  have hmarkovKey : kv₂.lookup key = kv₁.lookup key := by
    rw [addMarkovHead, bind_ok_iff] at hmarkov
    obtain ⟨rank, -, hmarkov⟩ := hmarkov
    split at hmarkov
    · dsimp only at hmarkov
      split at hmarkov
      · rw [← Except.ok.inj hmarkov]
        simp only [lookup_insert_apart _ hkey]
      · cases hmarkov
    · rw [← Except.ok.inj hmarkov]
      simp only [lookup_insert_apart _ hkey]
  have hlayersKey : kv₁.lookup key = baseKv.lookup key := by
    rcases addTargetLayers_spec hlayers with ⟨_, _, -, -, -, rfl⟩ | ⟨-, rfl⟩ <;>
      simp only [lookup_insert_apart _ hkey]
  exact ⟨baseKv, hbase, hconf.trans (hmarkovKey.trans hlayersKey)⟩

/-- A hidden size is in the file only if the base class has written it. -/
theorem no_width {base : Hparams py.Float → Except (PyError py.Float) (Kv py.Float)}
    (hset : setGgufParameters base hparams = .ok kv) (hfile : writeFile kv = some file)
    (hwidth : ∀ baseKv, base hparams = .ok baseKv → ∀ key ∈ widthKeys, baseKv.lookup key = none) :
    ∀ key ∈ widthKeys, file key = none := by
  intro key hkey
  have hapart : ∀ k : LlmKv, key ≠ k.ggufKey := by
    intro k heq
    rw [heq] at hkey
    revert hkey
    cases k <;> decide
  obtain ⟨baseKv, hbaseKv, hlookup⟩ := setGgufParameters_apart hset hapart
  rw [(writeFile_lookup hfile key).1, hlookup, hwidth baseKv hbaseKv key hkey]
  rfl

/-- Without a hidden size in the file `init` takes the draft's own. -/
theorem engineInit_hiddenSize (showF32 : BitVec 32 → String) (nEmbd : ℤ) (ids : List ℤ)
    (hwidth : ∀ key ∈ widthKeys, file key = none) : (engineInit file showF32 nEmbd ids).hiddenSize = nEmbd := by
  have hnone : firstMetaVal file showF32 widthKeys = none := by
    rw [firstMetaVal, List.findSome?_eq_none_iff]
    intro key hkey
    rw [metaValStr, hwidth key hkey]
    rfl
  rw [widthKeys] at hnone
  simp [engineInit, hnone]

/-- The layers of a file are `int32`s. -/
theorem loadTargetLayers_fits {ids : List ℤ} (h : loadTargetLayers file = .ok ids) :
    ∀ id ∈ ids, -2 ^ 31 ≤ id ∧ id < 2 ^ 31 := by
  rw [loadTargetLayers_eq] at h
  split at h
  · rename_i ws _
    rw [← Except.ok.inj h]
    intro id hid
    obtain ⟨w, -, rfl⟩ := List.mem_map.mp hid
    exact ⟨BitVec.le_toInt w, BitVec.toInt_lt⟩
  all_goals cases h

theorem loadArchHparams_width {nEmbd nLayer : ℕ} {hp : DraftHparams} (h : loadArchHparams file nEmbd nLayer = .ok hp) :
    hp.nEmbdInpEncImpl = hp.targetLayerIds.length * nEmbd % 2 ^ 32 := by
  rw [loadArchHparams] at h
  simp only [bind_ok_iff] at h
  obtain ⟨_, -, _, -, _, -, _, -, _, -, _, -, _, -, _, -, h⟩ := h
  rw [← Except.ok.inj h]

end Converted

/-! ### The handshake, as bytes -/

/-- The reply of a session whose numbers are `int32`s arrives as the engine's own numbers. -/
theorem handshake_arrives {pb : Protobuf} {cfg : ModelConfig} (hids : ∀ id ∈ cfg.targetLayerIds, -2 ^ 31 ≤ id ∧ id < 2 ^ 31)
    (hhidden : cfg.hiddenSize < 2 ^ 31) (hblock : -2 ^ 31 ≤ cfg.blockSize ∧ cfg.blockSize < 2 ^ 31) {sid : ℕ}
    (hreads : pb.initSessionResponse.ReadsBack (sessionCreated cfg sid)) :
    (pb.initSessionResponse.carry (sessionCreated cfg sid)).bind (clientInit .ok) =
      some (sid, ⟨cfg.targetLayerIds, cfg.hiddenSize, cfg.blockSize, "bf16"⟩) := by
  have hlayers : (cfg.targetLayerIds.map toUint32).map toInt32 = cfg.targetLayerIds := by
    rw [List.map_map]
    exact (List.map_congr_left fun id hid => toInt32_toUint32 (hids id hid).1 (hids id hid).2).trans (List.map_id _)
  rw [hreads, Option.bind_some, clientInit, sessionCreated]
  simp only [hlayers, toInt32_toUint32 hblock.1 hblock.2,
    toInt32_toUint32 (n := (cfg.hiddenSize : ℤ)) (by omega) (by omega)]
  rfl

/-! ### All the way -/

theorem modelConfig_eq {init : InitConfig} {maskTokenId : ℤ} {confMin : F32} {nUbatch : ℕ} {endian : Endian}
    {cfg : ModelConfig} (h : init.modelConfig maskTokenId confMin nUbatch endian = some cfg) :
    cfg.targetLayerIds = init.targetLayerIds ∧ cfg.hiddenSize = init.hiddenSize.toNat ∧
      cfg.blockSize = init.blockSize ∧ cfg.endian = endian := by
  rw [InitConfig.modelConfig] at h
  split at h
  · obtain rfl := Option.some.inj h
    exact ⟨rfl, rfl, rfl, rfl⟩
  · cases h

/-- What a file of the converter sets up: the loader's numbers and the engine's are those of the dictionary. -/
structure Converted (py : PyRuntime) (hparams : Hparams py.Float) (nEmbd : ℕ) (hp : DraftHparams) (cfg : ModelConfig)
    (ids : List ℤ) : Prop where
  layerIds : hparams.layerIds = some ids
  layers : cfg.targetLayerIds = ids.map (· + 1)
  hidden : cfg.hiddenSize = nEmbd
  block : (hparams.get "block_size" (.int 7)).number = some cfg.blockSize
  row : cfg.rowLen = hp.nEmbdInpEncImpl
  layersFit : ∀ id ∈ cfg.targetLayerIds, -2 ^ 31 ≤ id ∧ id < 2 ^ 31
  hiddenFits : cfg.hiddenSize < 2 ^ 31
  blockFits : -2 ^ 31 ≤ cfg.blockSize ∧ cfg.blockSize < 2 ^ 31

variable {py : PyRuntime} {base : Hparams py.Float → Except (PyError py.Float) (Kv py.Float)}
  {hparams : Hparams py.Float} {nEmbd nLayer : ℕ} {kv : Kv py.Float} {file : Metadata} {hp : DraftHparams}
  {maskTokenId : ℤ} {confMin : F32} {nUbatch : ℕ} {endian : Endian} {cfg : ModelConfig}

theorem converted (showF32 : BitVec 32 → String) (hbase : ∀ baseKv, base hparams = .ok baseKv → BaseValid nLayer baseKv)
    (hwidth : ∀ baseKv, base hparams = .ok baseKv → ∀ key ∈ widthKeys, baseKv.lookup key = none)
    (hset : setGgufParameters base hparams = .ok kv) (hfile : writeFile kv = some file) (hconv : Convertible hparams)
    (hload : loadArchHparams file nEmbd nLayer = .ok hp)
    (hcfg : (engineInit file showF32 nEmbd hp.targetLayerIds).modelConfig maskTokenId confMin nUbatch endian =
      some cfg) : ∃ ids, Converted py hparams nEmbd hp cfg ids := by
  have hfiled := filed hbase hset hfile
  obtain ⟨ids, hids, hne⟩ := hconv.layers
  rcases hfiled.targetLayers with ⟨ids', hids', -, hlayers⟩ | ⟨hnone, -⟩
  · obtain rfl := Option.some.inj (hids.symm.trans hids')
    obtain ⟨hp', hload', htargets, hblock, hblockFile, hlt, -⟩ := hfiled.loads nEmbd hlayers
    obtain rfl := Except.ok.inj (hload.symm.trans hload')
    obtain ⟨hcfgLayers, hcfgHidden, hcfgBlock, -⟩ := modelConfig_eq hcfg
    have hhidden : cfg.hiddenSize = nEmbd := by
      rw [hcfgHidden, engineInit_hiddenSize showF32 nEmbd _ (no_width hset hfile hwidth), Int.toNat_natCast]
    have hblockEq : cfg.blockSize = hp.dsparkBlockSize := by
      rw [hcfgBlock, engineInit_blockSize showF32 nEmbd _ hlt hblockFile]
      exact (atoi_toString_unsigned (n := hp.dsparkBlockSize) (by omega) (by omega)).mpr (hconv.block _ hblock)
    have hlength : cfg.targetLayerIds.length = ids.length := by
      rw [hcfgLayers, engineInit, htargets, List.length_map]
    have hrow := cfg.row_fits
    have hpos : 0 < ids.length := List.length_pos_iff.mpr hne
    refine ⟨ids, hids, hcfgLayers.trans htargets, hhidden, by rw [hblockEq]; exact hblock, ?_, ?_, ?_, ?_⟩
    · rw [ModelConfig.rowLen, loadArchHparams_width hload, htargets, List.length_map, ← hhidden, ← hlength,
        Nat.mod_eq_of_lt (by omega)]
    · rw [hcfgLayers.trans htargets]
      exact loadTargetLayers_fits hlayers
    · rw [hlength] at hrow
      exact (Nat.le_mul_of_pos_left _ hpos).trans_lt hrow
    · rw [hblockEq]
      exact ⟨by omega, hconv.block _ hblock⟩
  · exact absurd (hnone ids hids) hne

/-- FROM CHECKPOINT TO ENCODER: of every convertible dictionary, the server is handed the layers behind the ones it
    lists, the draft's width and its block size, through file, loader, engine and the bytes of the handshake; and of
    what it then captures, the encoder gets rows of the width it was loaded with, in which block `k` of token `i` is
    the output of layer `ids[k]` for that token, the low half of every float cleared. The base class is taken to
    write no hidden size of the target, the row to be neither empty nor beyond `int32`, and the handshake's reply to
    be read back from its bytes. -/
theorem checkpoint_reaches_encoder (pb : Protobuf) (showF32 : BitVec 32 → String)
    (hbase : ∀ baseKv, base hparams = .ok baseKv → BaseValid nLayer baseKv)
    (hwidth : ∀ baseKv, base hparams = .ok baseKv → ∀ key ∈ widthKeys, baseKv.lookup key = none)
    (hset : setGgufParameters base hparams = .ok kv) (hfile : writeFile kv = some file) (hconv : Convertible hparams)
    (hload : loadArchHparams file nEmbd nLayer = .ok hp)
    (hcfg : (engineInit file showF32 nEmbd hp.targetLayerIds).modelConfig maskTokenId confMin nUbatch endian = some cfg)
    {sid : ℕ} (hreads : pb.initSessionResponse.ReadsBack (sessionCreated cfg sid)) :
    ∃ ids block, hparams.layerIds = some ids ∧ (hparams.get "block_size" (.int 7)).number = some block ∧
      let h : Handshake := ⟨ids.map (· + 1), nEmbd, block, "bf16"⟩
      (pb.initSessionResponse.carry (sessionCreated cfg sid)).bind (clientInit .ok) = some (sid, h) ∧
      ∀ (nMax : ℤ) (layerInp : LayerInp) (entries : List (ℤ × ℕ)) (packets : List TokenFeatures),
        capture (h.params nMax endian) layerInp entries = .ok packets →
          packets.length = entries.length ∧ ∀ i (hi : i < packets.length),
            (unpackFeatures cfg packets[i]).length = hp.nEmbdInpEncImpl ∧
            ∀ k < ids.length, ∀ j < nEmbd, (unpackFeatures cfg packets[i])[k * nEmbd + j]? =
              ((layerInp (ids.getD k 0 + 1)).bind fun layer => layer[i * nEmbd + j]?).map clearLow := by
  obtain ⟨ids, hc⟩ := converted showF32 hbase hwidth hset hfile hconv hload hcfg
  have harrives := handshake_arrives hc.layersFit hc.hiddenFits hc.blockFits hreads
  refine ⟨ids, cfg.blockSize, hc.layerIds, hc.block, ?_⟩
  rw [hc.layers, hc.hidden] at harrives
  refine ⟨harrives, fun nMax layerInp entries packets hcap => ?_⟩
  have hparams : Handshake.params ⟨ids.map (· + 1), nEmbd, cfg.blockSize, "bf16"⟩ nMax endian =
      handshake cfg nMax cfg.endian := by
    rw [handshake, hc.layers, hc.hidden, (modelConfig_eq hcfg).2.2.2]
    rfl
  rw [hparams] at hcap
  obtain ⟨hlen, hpackets⟩ := capture_packets hcap
  refine ⟨hlen, fun i hi => ?_⟩
  obtain ⟨hsizeOk, hvals⟩ := unpackFeatures_captured (hpackets i (by omega) hi)
  refine ⟨by rw [length_unpackFeatures hsizeOk, hc.row], fun k hk j hj => ?_⟩
  have hval := hvals k (by rw [hc.layers, List.length_map]; exact hk) j (by rw [hc.hidden]; exact hj)
  rw [hc.hidden] at hval
  rw [hval, layerAt, SpecParams.width, handshake, hc.layers, hc.hidden, List.getD_eq_getElem _ _ (by simpa using hk),
    List.getD_eq_getElem _ _ hk, List.getElem_map]
  rfl

/-- The engine of a draft of width 2 on the outputs of the layers 0 and 5. -/
def twoLayerConfig : ModelConfig :=
  ⟨[1, 6], 2, 2, 7, 4, 0, 8, .little, Nat.succ_pos 1, Nat.succ_pos 7, Nat.le_of_ble_eq_true rfl⟩

/-- The reply to its first handshake, as protobuf writes it: the strings are "session created", "dspark" and "bf16". -/
def twoLayerProtobuf : Protobuf where
  initSessionResponse := .single (sessionCreated twoLayerConfig 1)
    ([8, 1, 16, 1] ++ [26, 15, 115, 101, 115, 115, 105, 111, 110, 32, 99, 114, 101, 97, 116, 101, 100] ++
      [34, 6, 100, 115, 112, 97, 114, 107] ++ [42, 2, 1, 6] ++ [48, 2, 56, 7] ++ [66, 4, 98, 102, 49, 54])
  prefillRequest := .single ⟨0, [], false⟩ []
  draftRequest := .single ⟨0, 0, [], 0, 0, false, 0⟩ []
  draftResponse := .single ({}, 0) []

theorem checkpoint_two_layers :
    ∃ kv file hp, setGgufParameters epsBase twoLayerDraft = .ok kv ∧ writeFile kv = some file ∧
      loadArchHparams file 2 4 = .ok hp ∧ hp.nEmbdInpEncImpl = 4 ∧
      (twoLayerProtobuf.initSessionResponse.carry (sessionCreated twoLayerConfig 1)).bind (clientInit .ok) =
        some (1, ⟨[1, 6], 2, 7, "bf16"⟩) ∧
      ∀ layerInp packets, capture (Handshake.params ⟨[1, 6], 2, 7, "bf16"⟩ 4 .little) layerInp [(9, 0)] = .ok packets →
        ∀ i (hi : i < packets.length), (unpackFeatures twoLayerConfig packets[i]).length = 4 := by
  have hconv : Convertible twoLayerDraft := by
    refine ⟨⟨[0, 5], rfl, by decide⟩, fun n hn => ?_, fun _ => rfl⟩
    obtain rfl := Option.some.inj hn
    decide
  have hwidth : ∀ baseKv, epsBase twoLayerDraft = .ok baseKv → ∀ key ∈ widthKeys, baseKv.lookup key = none := by
    intro baseKv hkv key hkey
    obtain rfl := Except.ok.inj hkv
    simp only [widthKeys, List.mem_cons, List.not_mem_nil, or_false] at hkey
    rcases hkey with rfl | rfl | rfl <;> rfl
  refine ⟨_, _, _, rfl, rfl, rfl, rfl, ?_⟩
  obtain ⟨ids, block, hids, hblock, harrives, hrows⟩ := checkpoint_reaches_encoder twoLayerProtobuf (fun _ => "")
    (epsBase_valid twoLayerDraft 4) hwidth rfl rfl hconv rfl
    (show InitConfig.modelConfig (engineInit _ _ 2 _) 4 0 8 .little = some twoLayerConfig from rfl)
    (Codec.single_readsBack _ _)
  obtain rfl := Option.some.inj (hids.symm.trans (show twoLayerDraft.layerIds = some [0, 5] from rfl))
  obtain rfl := Option.some.inj (hblock.symm.trans rfl)
  exact ⟨harrives, fun layerInp packets hcap i hi => ((hrows 4 layerInp [(9, 0)] packets hcap).2 i hi).1⟩

end DsparkEdge
