import DsparkEdge.Lib.Atoi
import Mathlib.Data.List.AList

/-! The converter's side of a draft checkpoint: `Gemma4DSparkModel.set_gguf_parameters`, which turns the
    hyperparameters of a checkpoint (`config.json`, a Python dictionary) into GGUF metadata.

        hparams ──set_gguf_parameters──▶ typed entries of the writer ──file──▶ metadata
                    │ raises                              │ a value does not fit its type

    Python's floats and `int` of a text are parameters, and so is the base class: what it writes before
    the keys of this class is a dictionary of entries. The file is faithful: it holds every entry with
    its type, and a value that its type cannot hold is not written, so there is no file. -/

namespace DsparkEdge

open Atoi

/-! ### Python values -/

/-- What Python does with its floats, and with the text of a number. -/
structure PyRuntime where
  Float : Type
  /-- `bool(x)` -/
  truthy : Float → Bool
  /-- `int(x)`, which raises for infinities and for what is no number -/
  trunc : Float → Option ℤ
  /-- `x + 1` -/
  succ : Float → Float
  /-- `struct.pack("<f", x)`, which raises for what is too large -/
  pack : Float → Option (BitVec 32)
  /-- `int(s)` -/
  intOfStr : String → Option ℤ

/-- A value of a JSON file. -/
inductive PyValue (F : Type) where
  | none
  | bool (b : Bool)
  | int (n : ℤ)
  | float (x : F)
  | str (s : String)
  | list (xs : List (PyValue F))
  | dict (items : List (String × PyValue F))

inductive PyError (F : Type) where
  | typeError
  | valueError
  | unsupportedHeadType (headType : PyValue F)

variable {py : PyRuntime}

namespace PyValue

/-- `bool(v)`. -/
def truthy : PyValue py.Float → Bool
  | .none => false
  | .bool b => b
  | .int n => n ≠ 0
  | .float x => py.truthy x
  | .str s => s ≠ ""
  | .list xs => !xs.isEmpty
  | .dict items => !items.isEmpty

/-- The integer that a value is: `True` and `False` are 1 and 0. -/
def number {F : Type} : PyValue F → Option ℤ
  | .int n => some n
  | .bool b => some (if b then 1 else 0)
  | _ => Option.none

/-- `int(v)`. -/
def toInt : PyValue py.Float → Except (PyError py.Float) ℤ
  | .int n => .ok n
  | .bool b => .ok (if b then 1 else 0)
  | .float x =>
    match py.trunc x with
    | some n => .ok n
    | Option.none => .error .valueError
  | .str s =>
    match py.intOfStr s with
    | some n => .ok n
    | Option.none => .error .valueError
  | _ => .error .typeError

/-- `i + 1`. -/
def addOne : PyValue py.Float → Except (PyError py.Float) (PyValue py.Float)
  | .int n => .ok (.int (n + 1))
  | .bool b => .ok (.int ((if b then 1 else 0) + 1))
  | .float x => .ok (.float (py.succ x))
  | _ => .error .typeError

/-- `for i in v`. -/
def elements {F : Type} : PyValue F → Except (PyError F) (List (PyValue F))
  | .list xs => .ok xs
  | .str s => .ok (s.toList.map fun c => .str (String.ofList [c]))
  | .dict items => .ok (items.map fun item => .str item.1)
  | _ => .error .typeError

/-- `v == "vanilla"`. -/
def isVanilla {F : Type} : PyValue F → Bool
  | .str s => s = "vanilla"
  | _ => false

end PyValue

/-- `self.hparams`. -/
abbrev Hparams (F : Type) := AList fun _ : String => PyValue F

/-- `hparams.get(key, default)`. -/
def Hparams.get {F : Type} (hparams : Hparams F) (key : String) (default : PyValue F) : PyValue F :=
  (hparams.lookup key).getD default

/-- `bool(hparams.get("enable_confidence_head", False))`. -/
def Hparams.enableConfidenceHead (hparams : Hparams py.Float) : Bool :=
  (hparams.get "enable_confidence_head" (.bool false)).truthy

/-- `bool(hparams.get("confidence_head_with_markov", False))`. -/
def Hparams.confidenceHeadWithMarkov (hparams : Hparams py.Float) : Bool :=
  (hparams.get "confidence_head_with_markov" (.bool false)).truthy

/-- `if target_layer_ids:` -/
def Hparams.hasLayers (hparams : Hparams py.Float) : Bool :=
  (hparams.get "target_layer_ids" (.list [])).truthy

/-! ### Keys -/

/-- The keys of the metadata that the draft's head and the loader speak of. -/
inductive LlmKv where
  | targetLayers
  | blockSize
  | markovRank
  | markovHeadType
  | enableConfidenceHead
  | confidenceHeadWithMarkov
  | causalAttention
  | layernormRmsEps
  | finalLogitSoftcapping
  | slidingWindow
  | slidingWindowPattern
  deriving DecidableEq, Repr

/-- `Keys.….format(arch="dspark")` (`gguf/constants.py`). -/
def LlmKv.ggufKey : LlmKv → String
  | .targetLayers => "dspark.target_layers"
  | .blockSize => "dspark.block_size"
  | .markovRank => "dspark.markov_rank"
  | .markovHeadType => "dspark.markov_head_type"
  | .enableConfidenceHead => "dspark.enable_confidence_head"
  | .confidenceHeadWithMarkov => "dspark.confidence_head_with_markov"
  | .causalAttention => "dspark.attention.causal"
  | .layernormRmsEps => "dspark.attention.layer_norm_rms_epsilon"
  | .finalLogitSoftcapping => "dspark.final_logit_softcapping"
  | .slidingWindow => "dspark.attention.sliding_window"
  | .slidingWindowPattern => "dspark.attention.sliding_window_pattern"

theorem LlmKv.ggufKey_injective {k k' : LlmKv} (h : k.ggufKey = k'.ggufKey) : k = k' := by
  cases k <;> cases k' <;> first | rfl | exact absurd h (by decide)

/-- The keys that the draft model's class writes, and nobody else. -/
def LlmKv.ofHead : LlmKv → Bool
  | .targetLayers | .blockSize | .markovRank | .markovHeadType | .enableConfidenceHead
  | .confidenceHeadWithMarkov => true
  | _ => false

/-! ### The writer -/

/-- A value in a file. -/
inductive GgufValue where
  | u32 (n : BitVec 32)
  | f32 (x : BitVec 32)
  | bool (b : Bool)
  | str (s : String)
  | i32s (xs : List (BitVec 32))
  | f32s (xs : List (BitVec 32))
  | bools (xs : List Bool)
  deriving DecidableEq, Repr

/-- An entry of the writer, with the type it is to be written as; the base class's are as in the file. -/
inductive WriterValue (F : Type) where
  | uint32 (v : PyValue F)
  | bool (b : Bool)
  | string (s : String)
  | array (xs : List (PyValue F))
  | written (g : GgufValue)

abbrev Kv (F : Type) := AList fun _ : String => WriterValue F

def PyValue.int? {F : Type} : PyValue F → Option ℤ
  | .int n => some n
  | _ => Option.none

def PyValue.float? {F : Type} : PyValue F → Option F
  | .float x => some x
  | _ => Option.none

instance (n : ℤ) : Decidable (FitsInt n) := inferInstanceAs (Decidable (_ ∧ _))

/-- An array has the type of its elements, which is one: all integers, or all floats. -/
def packArray (xs : List (PyValue py.Float)) : Option GgufValue :=
  match xs.mapM PyValue.int? with
  | some ns => if ∀ n ∈ ns, FitsInt n then some (.i32s (ns.map (BitVec.ofInt 32))) else none
  | none => ((xs.mapM PyValue.float?).bind fun fs => fs.mapM py.pack).map .f32s

/-- The entry as it is in the file, if it fits its type. -/
def WriterValue.pack : WriterValue py.Float → Option GgufValue
  | .uint32 v =>
    match v.number with
    | some n => if 0 ≤ n ∧ n < 2 ^ 32 then some (.u32 (BitVec.ofInt 32 n)) else none
    | none => none
  | .bool b => some (.bool b)
  | .string s => some (.str s)
  | .array xs => packArray xs
  | .written g => some g

abbrev Metadata := String → Option GgufValue

def fileContents (kv : Kv py.Float) : Metadata := fun key => (kv.lookup key).bind WriterValue.pack

/-- The metadata of the file, if it can be written. -/
def writeFile (kv : Kv py.Float) : Option Metadata :=
  if ∀ e ∈ kv.entries, (WriterValue.pack e.2).isSome then some (fileContents kv) else none

/-- The layers whose outputs the draft reads, 0-based, become the layers whose inputs they are. -/
def addTargetLayers (hparams : Hparams py.Float) (kv : Kv py.Float) :
    Except (PyError py.Float) (Kv py.Float) :=
  if hparams.hasLayers then do
    let ids ← (hparams.get "target_layer_ids" (.list [])).elements
    let extractLayerIds ← ids.mapM PyValue.addOne
    pure (kv.insert LlmKv.targetLayers.ggufKey (.array extractLayerIds))
  else pure kv

def addMarkovHead (hparams : Hparams py.Float) (kv : Kv py.Float) :
    Except (PyError py.Float) (Kv py.Float) := do
  let markovRank ← (hparams.get "markov_rank" (.int 0)).toInt
  let kv := kv.insert LlmKv.markovRank.ggufKey (.uint32 (.int markovRank))
  if 0 < markovRank then
    let markovHeadType := hparams.get "markov_head_type" .none
    if markovHeadType.isVanilla then pure (kv.insert LlmKv.markovHeadType.ggufKey (.string "vanilla"))
    else throw (.unsupportedHeadType markovHeadType)
  else pure kv

def addConfidenceHead (hparams : Hparams py.Float) (kv : Kv py.Float) : Kv py.Float :=
  let kv := kv.insert LlmKv.enableConfidenceHead.ggufKey (.bool hparams.enableConfidenceHead)
  if hparams.enableConfidenceHead then
    kv.insert LlmKv.confidenceHeadWithMarkov.ggufKey (.bool hparams.confidenceHeadWithMarkov)
  else kv

/-- `Gemma4DSparkModel.set_gguf_parameters`; `base` is `super().set_gguf_parameters()`. -/
def setGgufParameters (base : Hparams py.Float → Except (PyError py.Float) (Kv py.Float))
    (hparams : Hparams py.Float) : Except (PyError py.Float) (Kv py.Float) := do
  let kv ← base hparams
  let kv ← addTargetLayers hparams
    (kv.insert LlmKv.blockSize.ggufKey (.uint32 (hparams.get "block_size" (.int 7))))
  let kv ← addMarkovHead hparams (kv.insert LlmKv.causalAttention.ggufKey (.bool false))
  pure (addConfidenceHead hparams kv)

/-! ### What an accepted dictionary has written -/

theorem bind_ok_iff {ε α β : Type} {x : Except ε α} {f : α → Except ε β} {b : β} :
    (x >>= f) = .ok b ↔ ∃ a, x = .ok a ∧ f a = .ok b := by
  cases x with
  | ok a =>
    refine ⟨fun h => ⟨a, rfl, h⟩, ?_⟩
    rintro ⟨_, ⟨⟩, h⟩
    exact h
  | error e =>
    refine ⟨fun h => (by cases h), ?_⟩
    rintro ⟨_, ⟨⟩, -⟩

theorem lookup_insert_key (kv : Kv py.Float) (key key' : LlmKv) (v : WriterValue py.Float) :
    (kv.insert key.ggufKey v).lookup key'.ggufKey = if key' = key then some v else kv.lookup key'.ggufKey := by
  by_cases h : key' = key
  · rw [h, AList.lookup_insert, if_pos rfl]
  · rw [AList.lookup_insert_ne fun heq => h (LlmKv.ggufKey_injective heq), if_neg h]

section Accepted

variable {hparams : Hparams py.Float} {kv kv' : Kv py.Float}

/-- What the shifted layers are, or that there are none. -/
theorem addTargetLayers_spec (h : addTargetLayers hparams kv = .ok kv') :
    (∃ ids shifted, hparams.hasLayers = true ∧
      (hparams.get "target_layer_ids" (.list [])).elements = .ok ids ∧
      ids.mapM PyValue.addOne = .ok shifted ∧
      kv' = kv.insert LlmKv.targetLayers.ggufKey (.array shifted)) ∨
    hparams.hasLayers = false ∧ kv' = kv := by
  rw [addTargetLayers] at h
  split at h
  · rename_i htruthy
    rw [bind_ok_iff] at h
    obtain ⟨ids, hids, h⟩ := h
    rw [bind_ok_iff] at h
    obtain ⟨shifted, hshifted, h⟩ := h
    exact Or.inl ⟨ids, shifted, htruthy, hids, hshifted, (Except.ok.inj h).symm⟩
  · rename_i htruthy
    exact Or.inr ⟨by simpa using htruthy, (Except.ok.inj h).symm⟩

theorem addTargetLayers_others (h : addTargetLayers hparams kv = .ok kv') {key : LlmKv}
    (hkey : key ≠ .targetLayers) : kv'.lookup key.ggufKey = kv.lookup key.ggufKey := by
  rcases addTargetLayers_spec h with ⟨_, _, -, -, -, rfl⟩ | ⟨-, rfl⟩
  · rw [lookup_insert_key, if_neg hkey]
  · rfl

theorem addMarkovHead_spec (h : addMarkovHead hparams kv = .ok kv') :
    ∃ rank, (hparams.get "markov_rank" (.int 0)).toInt = .ok rank ∧ ∀ key : LlmKv,
      kv'.lookup key.ggufKey =
        if key = .markovHeadType ∧ 0 < rank then some (.string "vanilla")
        else if key = .markovRank then some (.uint32 (.int rank))
        else kv.lookup key.ggufKey := by
  rw [addMarkovHead, bind_ok_iff] at h
  obtain ⟨rank, hrank, h⟩ := h
  refine ⟨rank, hrank, fun key => ?_⟩
  split at h
  · rename_i hpos
    dsimp only at h
    split at h
    · rw [← Except.ok.inj h, lookup_insert_key, lookup_insert_key]
      simp only [hpos, and_true]
    · cases h
  · rename_i hpos
    rw [← Except.ok.inj h, lookup_insert_key]
    simp only [hpos, and_false, if_false]

theorem addConfidenceHead_lookup (hparams : Hparams py.Float) (kv : Kv py.Float) (key : LlmKv) :
    (addConfidenceHead hparams kv).lookup key.ggufKey =
      if key = .confidenceHeadWithMarkov ∧ hparams.enableConfidenceHead = true then
        some (.bool hparams.confidenceHeadWithMarkov)
      else if key = .enableConfidenceHead then some (.bool hparams.enableConfidenceHead)
      else kv.lookup key.ggufKey := by
  rw [addConfidenceHead]
  by_cases henable : hparams.enableConfidenceHead = true
  · rw [if_pos henable, lookup_insert_key, lookup_insert_key]
    simp only [henable, and_true]
  · rw [if_neg henable, lookup_insert_key, if_neg fun h : _ ∧ _ => henable h.2]

/-- The entries behind an accepted dictionary, on those of the base class. -/
structure Written (hparams : Hparams py.Float) (baseKv kv : Kv py.Float) : Prop where
  blockSize : kv.lookup LlmKv.blockSize.ggufKey = some (.uint32 (hparams.get "block_size" (.int 7)))
  layers : hparams.hasLayers = true → ∃ ids shifted,
    (hparams.get "target_layer_ids" (.list [])).elements = .ok ids ∧ ids.mapM PyValue.addOne = .ok shifted ∧
      kv.lookup LlmKv.targetLayers.ggufKey = some (.array shifted)
  noLayers : hparams.hasLayers = false →
    kv.lookup LlmKv.targetLayers.ggufKey = baseKv.lookup LlmKv.targetLayers.ggufKey
  rank : ∃ rank, (hparams.get "markov_rank" (.int 0)).toInt = .ok rank ∧
    kv.lookup LlmKv.markovRank.ggufKey = some (.uint32 (.int rank)) ∧
      (0 < rank → kv.lookup LlmKv.markovHeadType.ggufKey = some (.string "vanilla"))
  enable : kv.lookup LlmKv.enableConfidenceHead.ggufKey = some (.bool hparams.enableConfidenceHead)
  withMarkov : kv.lookup LlmKv.confidenceHeadWithMarkov.ggufKey =
    if hparams.enableConfidenceHead = true then some (.bool hparams.confidenceHeadWithMarkov)
    else baseKv.lookup LlmKv.confidenceHeadWithMarkov.ggufKey
  base : ∀ key : LlmKv, key.ofHead = false → key ≠ .causalAttention →
    kv.lookup key.ggufKey = baseKv.lookup key.ggufKey

theorem setGgufParameters_spec {base : Hparams py.Float → Except (PyError py.Float) (Kv py.Float)}
    (h : setGgufParameters base hparams = .ok kv) :
    ∃ baseKv, base hparams = .ok baseKv ∧ Written hparams baseKv kv := by
  rw [setGgufParameters, bind_ok_iff] at h
  obtain ⟨baseKv, hbase, h⟩ := h
  rw [bind_ok_iff] at h
  obtain ⟨kv₁, hlayers, h⟩ := h
  rw [bind_ok_iff] at h
  obtain ⟨kv₂, hmarkov, h⟩ := h
  obtain ⟨rank, hrank, hmarkovKey⟩ := addMarkovHead_spec hmarkov
  obtain rfl := Except.ok.inj h
  -- what the two heads and the causal flag have left of the entries before them
  have hbefore (key : LlmKv) : (addConfidenceHead hparams kv₂).lookup key.ggufKey =
      if key = .confidenceHeadWithMarkov ∧ hparams.enableConfidenceHead = true then
        some (.bool hparams.confidenceHeadWithMarkov)
      else if key = .enableConfidenceHead then some (.bool hparams.enableConfidenceHead)
      else if key = .markovHeadType ∧ 0 < rank then some (.string "vanilla")
      else if key = .markovRank then some (.uint32 (.int rank))
      else if key = .causalAttention then some (.bool false)
      else kv₁.lookup key.ggufKey := by
    rw [addConfidenceHead_lookup, hmarkovKey, lookup_insert_key]
  have hothers (key : LlmKv) (hkey : key ≠ .targetLayers) : kv₁.lookup key.ggufKey =
      if key = .blockSize then some (.uint32 (hparams.get "block_size" (.int 7)))
      else baseKv.lookup key.ggufKey := by
    rw [addTargetLayers_others hlayers hkey, lookup_insert_key]
  refine ⟨baseKv, hbase, ?_, fun htruthy => ?_, fun htruthy => ?_, ⟨rank, hrank, ?_, fun hpos => ?_⟩, ?_, ?_,
    fun key hkey hcausal => ?_⟩
  · simp [hbefore, hothers]
  · rcases addTargetLayers_spec hlayers with ⟨ids, shifted, -, hids, hshifted, rfl⟩ | ⟨hfalse, -⟩
    · exact ⟨ids, shifted, hids, hshifted, by simp [hbefore]⟩
    · rw [hfalse] at htruthy
      cases htruthy
  · rcases addTargetLayers_spec hlayers with ⟨_, _, htrue, -⟩ | ⟨-, rfl⟩
    · rw [htrue] at htruthy
      cases htruthy
    · simp [hbefore, lookup_insert_key]
  · simp [hbefore]
  · simp [hbefore, hpos]
  · simp [hbefore]
  · simp [hbefore, hothers]
  · have hne {k : LlmKv} (hk : k.ofHead = true) : key ≠ k := by
      rintro rfl
      rw [hk] at hkey
      cases hkey
    rw [hbefore, hothers key (hne rfl)]
    simp [hcausal, @hne .confidenceHeadWithMarkov rfl, @hne .enableConfidenceHead rfl,
      @hne .markovHeadType rfl, @hne .markovRank rfl, @hne .blockSize rfl]

end Accepted

/-! ### The file -/

/-- A file holds what its entries are packed to. -/
theorem writeFile_lookup {kv : Kv py.Float} {file : Metadata} (h : writeFile kv = some file) (key : String) :
    file key = (kv.lookup key).bind WriterValue.pack ∧
      ∀ v, kv.lookup key = some v → ∃ g, v.pack = some g ∧ file key = some g := by
  rw [writeFile] at h
  split at h
  · rename_i hall
    obtain rfl := Option.some.inj h
    refine ⟨rfl, fun v hv => ?_⟩
    have hmem : Sigma.mk key v ∈ kv.entries := AList.mem_lookup_iff.mp hv
    obtain ⟨g, hg⟩ := Option.isSome_iff_exists.mp (hall _ hmem)
    exact ⟨g, hg, by rw [fileContents, hv]; exact hg⟩
  · cases h

theorem toInt_ofInt {n : ℤ} (h : FitsInt n) : (BitVec.ofInt 32 n).toInt = n := by
  rw [BitVec.toInt_ofInt]
  exact Int.bmod_eq_of_le (by have := h.1; omega) (by have := h.2; omega)

theorem toNat_ofInt {n : ℤ} (hlow : 0 ≤ n) (hhigh : n < 2 ^ 32) : ((BitVec.ofInt 32 n).toNat : ℤ) = n := by
  rw [BitVec.toNat_ofInt]
  omega

/-- A packed unsigned number is the number. -/
theorem pack_uint32 {v : PyValue py.Float} {g : GgufValue} (h : WriterValue.pack (.uint32 v) = some g) :
    ∃ n : ℕ, v.number = some (n : ℤ) ∧ n < 2 ^ 32 ∧ ∃ w : BitVec 32, g = .u32 w ∧ w.toNat = n := by
  rw [WriterValue.pack] at h
  split at h
  · rename_i n hn
    split at h
    · rename_i hfit
      have hnat := toNat_ofInt hfit.1 hfit.2
      refine ⟨n.toNat, by rw [hn, Int.toNat_of_nonneg hfit.1], by omega, _, (Option.some.inj h).symm, ?_⟩
      omega
    · cases h
  · cases h

/-- Adding one to the elements adds one to the numbers among them. -/
theorem addOne_int? {x y : PyValue py.Float} (h : x.addOne = .ok y) : y.int? = x.number.map (· + 1) := by
  cases x with
  | int n | bool b | float z =>
    obtain rfl := Except.ok.inj h
    rfl
  | none | str s | list xs | dict items => cases h

theorem mapM_addOne {xs ys : List (PyValue py.Float)} (h : xs.mapM PyValue.addOne = .ok ys) :
    ys.mapM PyValue.int? = (xs.mapM PyValue.number).map (List.map (· + 1)) := by
  induction xs generalizing ys with
  | nil =>
    obtain rfl := Except.ok.inj h
    rfl
  | cons x xs ih =>
    rw [List.mapM_cons, bind_ok_iff] at h
    obtain ⟨y, hy, h⟩ := h
    rw [bind_ok_iff] at h
    obtain ⟨ys, hys, h⟩ := h
    obtain rfl := Except.ok.inj h
    rw [List.mapM_cons, List.mapM_cons, addOne_int? hy, ih hys]
    cases x.number <;> cases xs.mapM PyValue.number <;> rfl

/-- What `[i + 1 for i in v]` accepts, if it is not empty, is a list. -/
theorem list_of_shifted {v : PyValue py.Float} {ids shifted : List (PyValue py.Float)}
    (htruthy : v.truthy = true) (hids : v.elements = .ok ids) (hshifted : ids.mapM PyValue.addOne = .ok shifted) :
    v = .list ids ∧ ids ≠ [] := by
  have hstr (x : String) (xs : List (PyValue py.Float)) :
      (PyValue.str x :: xs).mapM PyValue.addOne ≠ .ok shifted := by
    rw [List.mapM_cons, Ne, bind_ok_iff]
    rintro ⟨_, hx, -⟩
    cases hx
  cases v with
  | list xs =>
    obtain rfl := Except.ok.inj hids
    refine ⟨rfl, ?_⟩
    rintro rfl
    cases htruthy
  | str s =>
    obtain rfl := Except.ok.inj hids
    have hne : s.toList ≠ [] := by
      intro hnil
      rw [PyValue.truthy, decide_eq_true_eq] at htruthy
      exact htruthy (String.toList_eq_nil_iff.mp hnil)
    obtain ⟨c, cs, hs⟩ := List.exists_cons_of_ne_nil hne
    rw [hs] at hshifted
    exact absurd hshifted (hstr _ _)
  | dict items =>
    obtain rfl := Except.ok.inj hids
    cases items with
    | nil => cases htruthy
    | cons item items => exact absurd hshifted (hstr _ _)
  | none | bool b | int n | float x => cases hids

end DsparkEdge
