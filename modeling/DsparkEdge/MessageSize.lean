import DsparkEdge.CaptureSpec
import DsparkEdge.LastCapture
import DsparkEdge.Lib.Wire

/-! How large a request is on the wire. gRPC refuses a message above 4 MiB unless the server raises the
    limit, and the daemon's `ServerBuilder` does not. A packet of the 5 × 2560 checkpoint takes some
    25 600 bytes; a Draft carries the few of one accepted span, but the prompt's packets all go into one
    Prefill. The bytes are those of proto3's documented encoding, and only their number matters here.

        Prefill   │ session │ packet 0 │ packet 1 │ … │ packet n_past-1 │ last_chunk │
        Draft     │ session │ step │ accepted packets … │ position │ max │ greedy │ anchor │ -/

namespace DsparkEdge

open Runs Wire

/-- gRPC's default for the largest message a server receives. -/
def maxReceiveSize : ℕ := 4194304

/-! ### Serialization -/

/-- A `uint64` as it is held. -/
def uint64 (n : ℕ) : ℕ := n % 2 ^ 64

def TokenFeatures.serialize (tf : TokenFeatures) : List Byte :=
  intField 1 tf.token ++ uintField 2 (uint64 tf.position) ++ bytesField 3 tf.features

def PrefillRequest.serialize (req : PrefillRequest) : List Byte :=
  uintField 1 (uint64 req.sessionId) ++ repeatedField 2 TokenFeatures.serialize req.tokens ++
    boolField 3 req.lastChunk

def DraftRequest.serialize (req : DraftRequest) : List Byte :=
  uintField 1 (uint64 req.sessionId) ++ uintField 2 (uint64 req.stepId) ++
    repeatedField 3 TokenFeatures.serialize req.acceptedTokens ++ uintField 4 (uint64 req.position) ++
    uintField 5 req.maxDraftTokens ++ boolField 6 req.greedy ++ intField 7 req.anchorToken

def ResetRequest.serialize (req : ResetRequest) : List Byte := uintField 1 (uint64 req.sessionId)

def Sent.serialize : Sent → List Byte
  | .prefill req _ => req.serialize
  | .draft req _ => req.serialize
  | .reset req _ => req.serialize

/-- What a packet with `width` feature bytes takes in a request. -/
def packetBytes (width : ℕ) (token : ℤ) (pos : ℕ) : ℕ :=
  delimitedSize (intSize token + uintSize (uint64 pos) + bytesSize width)

theorem length_serialize_packet (tf : TokenFeatures) :
    delimitedSize tf.serialize.length = packetBytes tf.features.length tf.token tf.position := by
  rw [TokenFeatures.serialize, packetBytes, List.length_append, List.length_append,
    length_intField (by omega), length_uintField (by omega), length_bytesField (by omega)]

/-- The bytes of a list of packets in a request. -/
def packetsBytes (tokens : List TokenFeatures) : ℕ :=
  (tokens.map fun tf => packetBytes tf.features.length tf.token tf.position).sum

theorem length_packets {field : ℕ} (h : field < 16) (tokens : List TokenFeatures) :
    (repeatedField field TokenFeatures.serialize tokens).length = packetsBytes tokens := by
  rw [length_repeatedField h]
  simp only [length_serialize_packet, packetsBytes]

theorem length_serialize_prefill (session : ℕ) (tokens : List TokenFeatures) :
    (PrefillRequest.serialize ⟨session, tokens, true⟩).length =
      uintSize (uint64 session) + 2 + packetsBytes tokens := by
  simp only [PrefillRequest.serialize, List.length_append, length_packets (show 2 < 16 by omega),
    length_uintField (show 1 < 16 by omega), length_boolField (show 3 < 16 by omega), if_true]
  omega

/-- What a Draft takes besides its packets, `base` being the position sent before. -/
def draftOverhead (p : SpecParams) (session stepId : ℕ) (dp : DraftParams) (base : ℤ) : ℕ :=
  uintSize (uint64 session) + uintSize (uint64 stepId) + uintSize (uint64 base.toNat) +
    uintSize (toUint32 (min p.nMax p.blockSize)) + 2 + intSize dp.idLast

theorem length_serialize_draft (p : SpecParams) (session stepId : ℕ) (dp : DraftParams) (base : ℤ)
    (tokens : List TokenFeatures) :
    (wireRequest p session stepId dp base tokens).serialize.length =
      draftOverhead p session stepId dp base + packetsBytes tokens := by
  simp only [DraftRequest.serialize, wireRequest, List.length_append,
    length_packets (show 3 < 16 by omega), length_uintField (show 1 < 16 by omega),
    length_uintField (show 2 < 16 by omega), length_uintField (show 4 < 16 by omega),
    length_uintField (show 5 < 16 by omega), length_boolField (show 6 < 16 by omega),
    length_intField (show 7 < 16 by omega), if_true, draftOverhead]
  omega

theorem uint64_lt (n : ℕ) : uint64 n < 2 ^ 64 := Nat.mod_lt _ (by norm_num)

/-- Without packets a Draft is small, whatever its numbers. -/
theorem draftOverhead_le (p : SpecParams) (session stepId : ℕ) (dp : DraftParams) (base : ℤ) :
    draftOverhead p session stepId dp base ≤ 57 := by
  have h1 := uintSize_le (uint64_lt session)
  have h2 := uintSize_le (uint64_lt stepId)
  have h3 := uintSize_le (uint64_lt base.toNat)
  have h4 : toUint32 (min p.nMax p.blockSize) < 2 ^ 32 := BitVec.isLt _
  have h5 := uintSize_le (n := toUint32 (min p.nMax p.blockSize)) (by omega)
  have h6 := intSize_le dp.idLast
  rw [draftOverhead]; omega

/-! ### What is stored, by position -/

variable {p : SpecParams}

/-- The feature bytes of one packet, by the handshake. -/
def SpecParams.packetWidth (p : SpecParams) : ℕ := p.nLayers * p.width * 2

theorem packetsOf_width (layerInp : LayerInp) (batch : LlamaBatch) :
    ∀ tf ∈ packetsOf p layerInp batch, tf.features.length = p.packetWidth := by
  cases batch with
  | embd n => intro tf htf; cases htf
  | tokens entries =>
    rw [packetsOf]
    cases hcap : capture p layerInp entries with
    | error e => intro tf htf; cases htf
    | ok packets => exact capture_size hcap

/-- Whatever survives a history was captured at the handshake's width. -/
theorem lastCapture_width {hist : List RemoteEvent} {pos : ℕ} {tf : TokenFeatures}
    (h : lastCapture p hist pos = some tf) : tf.features.length = p.packetWidth := by
  induction hist with
  | nil => cases h
  | cons e hist ih =>
    cases e with
    | process layerInp batch =>
      rw [lastCapture] at h
      cases hlast : lastOf (packetsOf p layerInp batch) pos with
      | none => rw [hlast, Option.none_or] at h; exact ih h
      | some t =>
        rw [hlast, Option.some_or] at h
        cases Option.some.inj h
        exact packetsOf_width layerInp batch _ (position_of_lastOf hlast).1
    | begin r prompt =>
      rw [lastCapture] at h
      split at h
      · cases h
      · exact ih h
    | draft r dparams => exact ih h

theorem map_position_of_gatherFrom {feats : Feats} (hk : Keyed feats) {n pos : ℕ}
    {tokens : List TokenFeatures} (h : gatherFrom feats pos n = some tokens) :
    tokens.map TokenFeatures.position = List.range' pos n := by
  induction n generalizing pos tokens with
  | zero => cases Option.some.inj h; rfl
  | succ n ih =>
    rw [gatherFrom] at h
    cases hpos : feats pos with
    | none => simp [hpos] at h
    | some tf =>
      rw [hpos] at h
      obtain ⟨ts, hts, rfl⟩ := Option.map_eq_some_iff.mp h
      rw [List.map_cons, ih hts, hk pos tf hpos, List.range'_succ]

/-- The token of a position's packet. -/
def tokenAt (feats : Feats) (pos : ℕ) : ℤ := ((feats pos).map TokenFeatures.token).getD 0

/-- The bytes of the packets of some positions, all of one width. -/
def spanBytes (width : ℕ) (feats : Feats) (positions : List ℕ) : ℕ :=
  (positions.map fun pos => packetBytes width (tokenAt feats pos) pos).sum

theorem packetsBytes_gathered {feats : Feats} (hk : Keyed feats) {width : ℕ}
    (hw : ∀ pos tf, feats pos = some tf → tf.features.length = width) {pos n : ℕ}
    {tokens : List TokenFeatures} (h : gatherFrom feats pos n = some tokens) :
    packetsBytes tokens = spanBytes width feats (List.range' pos n) := by
  rw [spanBytes, ← map_position_of_gatherFrom hk h, List.map_map, packetsBytes]
  refine congrArg List.sum (List.map_congr_left fun tf htf => ?_)
  obtain ⟨-, -, hfeats⟩ := mem_gatherFrom hk h htf
  simp only [Function.comp, tokenAt, hfeats, Option.map_some, Option.getD_some, hw _ _ hfeats]

/-! ### What one call sends -/

/-- The positions committed but not counted as sent. -/
def Server.unsent {δ : Type*} (s : Server δ) (nPast : ℕ) : List ℕ :=
  List.range' (s.nSent + 1).toNat (nPast - (s.nSent + 1)).toNat

theorem toShip_unsent {session : ℕ} {s : Remote} (h : s.Live session) (nPast : ℕ) :
    s.toShip nPast =
      gatherFrom s.feats (s.nSent + 1).toNat (nPast - (s.nSent + 1)).toNat := by
  cases hp : s.prefilled with
  | false =>
    rw [toShip_first hp, h.unsent hp]
    congr 1
  | true => exact toShip_later hp nPast

/-- The requests of one call of `draft()`. -/
def Remote.sends (p : SpecParams) (r : Replies) (dparams : List DraftParams) (s : Remote) : List Sent :=
  (s.step p (.draft r dparams)).log.drop s.log.length

def Sent.isPrefill : Sent → Bool
  | .prefill .. => true
  | _ => false

/-- Every request of the call is small enough to be received, and the prefills of a generation's first
    call bring the packets of all committed positions, in order. -/
structure MessagesFit (p : SpecParams) (r : Replies) (dparams : List DraftParams) (s : Remote) :
    Prop where
  size : ∀ m ∈ s.sends p r dparams, m.serialize.length ≤ maxReceiveSize
  prompt : ∀ dp, dparams.find? DraftParams.drafting = some dp → s.prefilled = false →
    s.sends p r dparams ≠ [] →
    (((s.sends p r dparams).filter Sent.isPrefill).flatMap Sent.tokens).map some =
      (List.range dp.nPast).map s.feats

/-- The bytes of the request that has to carry the unsent positions. -/
def requestBytes (p : SpecParams) (session : ℕ) (dp : DraftParams) (s : Remote) : ℕ :=
  (if s.prefilled then draftOverhead p session (s.stepId + 1) dp s.nSent
    else uintSize (uint64 session) + 2) +
  spanBytes p.packetWidth s.feats (s.unsent dp.nPast)

/-- An unsent position has no packet, and nothing is sent; or the packets of all of them fit. -/
def SpanFits (p : SpecParams) (session : ℕ) (dp : DraftParams) (s : Remote) : Prop :=
  (∃ pos ∈ s.unsent dp.nPast, s.feats pos = none) ∨ requestBytes p session dp s ≤ maxReceiveSize

theorem sends_none (r : Replies) {dparams : List DraftParams} {s : Remote}
    (hdp : dparams.find? DraftParams.drafting = none) : s.sends p r dparams = [] := by
  rw [Remote.sends, step_draft_none r hdp, List.drop_length]

theorem sends_of_draftSent {r : Replies} {dparams : List DraftParams} {s : Remote} {session : ℕ}
    {dp : DraftParams} {sent : List Sent}
    (h : DraftSent dp session s (s.step p (.draft r dparams)) sent) : s.sends p r dparams = sent := by
  rw [Remote.sends, h.log, List.drop_left]

section Call

variable {session : ℕ} {dp : DraftParams} {s : Remote} {r : Replies} {dparams : List DraftParams}

/-- With every unsent position stored, only the size of their request is in question. -/
theorem spanFits_iff (h : s.Live session)
    (hw : ∀ pos tf, s.feats pos = some tf → tf.features.length = p.packetWidth)
    {tokens : List TokenFeatures} (hship : s.toShip dp.nPast = some tokens) :
    SpanFits p session dp s ↔
      (if s.prefilled then draftOverhead p session (s.stepId + 1) dp s.nSent
        else uintSize (uint64 session) + 2) + packetsBytes tokens ≤ maxReceiveSize := by
  rw [toShip_unsent h] at hship
  rw [SpanFits, requestBytes, Server.unsent, ← packetsBytes_gathered h.keyed hw hship,
    or_iff_right]
  rintro ⟨pos, hpos, hnone⟩
  have hmem : s.feats pos ∈ tokens.map some := by
    rw [gatherFrom_eq_some.mp hship]
    exact List.mem_map_of_mem hpos
  obtain ⟨tf, -, htf⟩ := List.mem_map.mp hmem
  rw [hnone] at htf
  cases htf

/-- One call, in a connected state that stores packets of the handshake's width. -/
theorem messagesFit_iff_spanFits (h : s.Live session)
    (hw : ∀ pos tf, s.feats pos = some tf → tf.features.length = p.packetWidth)
    (hdp : dparams.find? DraftParams.drafting = some dp) :
    MessagesFit p r dparams s ↔ SpanFits p session dp s := by
  rcases step_draft_cases (p := p) h r hdp with
    ⟨hship, heq⟩ | ⟨tokens, hship, ⟨hp, hs⟩ | ⟨hp, hs⟩⟩
  · -- a committed position is missing, and nothing is sent
    have hsends : s.sends p r dparams = [] := by rw [Remote.sends, heq]; exact List.drop_length
    refine iff_of_true ⟨?_, fun _ _ _ hne => absurd hsends hne⟩ (Or.inl ?_)
    · rw [hsends]; intro m hm; cases hm
    · rw [toShip_unsent h, gatherFrom_eq_none] at hship
      obtain ⟨q, hlo, hhi, hnone⟩ := hship
      exact ⟨q, List.mem_range'_1.mpr ⟨hlo, hhi⟩, hnone⟩
  · -- the prompt goes into one prefill, followed by an empty request
    have hsends := sends_of_draftSent hs
    rw [spanFits_iff h hw hship, hp, if_neg Bool.false_ne_true, ← length_serialize_prefill]
    constructor
    · intro hfit
      have hmem : Sent.prefill ⟨session, tokens, true⟩ r.prefillOk ∈ s.sends p r dparams := by
        rw [hsends]; exact List.mem_cons_self
      exact hfit.size _ hmem
    · intro hsize
      refine ⟨fun m hm => ?_, fun dp' hdp' _ _ => ?_⟩
      · rw [hsends] at hm
        simp only [List.mem_cons, List.not_mem_nil, or_false] at hm
        rcases hm with rfl | rfl
        · exact hsize
        · have hsmall := draftOverhead_le p session (s.stepId + 1) dp (dp.nPast - 1)
          have hlen := length_serialize_draft p session (s.stepId + 1) dp (dp.nPast - 1) []
          rw [show packetsBytes [] = 0 from rfl] at hlen
          rw [Sent.serialize, hlen, maxReceiveSize]
          omega
      · cases Option.some.inj (hdp.symm.trans hdp')
        rw [toShip_first hp, gatherFrom_eq_some] at hship
        rw [hsends, List.range_eq_range', ← hship]
        exact congrArg (List.map some) (List.append_nil tokens)
  · -- a later request carries the accepted span
    have hsends := sends_of_draftSent hs
    rw [spanFits_iff h hw hship, hp, if_pos rfl, ← length_serialize_draft]
    constructor
    · intro hfit
      exact hfit.size (.draft (wireRequest p session (s.stepId + 1) dp s.nSent tokens) r.draftOk)
        (by rw [hsends]; exact List.mem_cons_self)
    · intro hsize
      refine ⟨fun m hm => ?_, fun _ _ hfirst _ => by rw [hp] at hfirst; cases hfirst⟩
      rw [hsends, List.mem_singleton] at hm
      rw [hm]
      exact hsize

end Call

theorem stored_width (session : ℕ) (es : List RemoteEvent) (pos : ℕ) (tf : TokenFeatures)
    (h : (exec (Remote.step p) (.fresh session) es).feats pos = some tf) :
    tf.features.length = p.packetWidth := by
  rw [feats_exec] at h
  exact lastCapture_width h

/-! ### How long a prompt may be -/

/-- The framing of a packet is small beside its features. -/
theorem packetBytes_bounds {width : ℕ} (hw : width < 2 ^ 31) (token : ℤ) (pos : ℕ) :
    width ≤ packetBytes width token pos ∧ packetBytes width token pos ≤ width + 34 := by
  have hint := intSize_le token
  have hpos := uintSize_le (uint64_lt pos)
  have hlo := le_bytesSize width
  have hhi : bytesSize width ≤ width + 6 := by
    have := delimitedSize_le (n := width) (by omega)
    rw [bytesSize]
    split <;> omega
  have hinner := le_delimitedSize (intSize token + uintSize (uint64 pos) + bytesSize width)
  have houter := delimitedSize_le (n := intSize token + uintSize (uint64 pos) + bytesSize width)
    (by omega)
  rw [packetBytes]
  omega

theorem spanBytes_bounds {width : ℕ} (hw : width < 2 ^ 31) (feats : Feats) (positions : List ℕ) :
    positions.length * width ≤ spanBytes width feats positions ∧
      spanBytes width feats positions ≤ positions.length * (width + 34) := by
  induction positions with
  | nil => exact ⟨by simp, by simp [spanBytes]⟩
  | cons pos positions ih =>
    have hone := packetBytes_bounds hw (tokenAt feats pos) pos
    rw [spanBytes] at ih ⊢
    rw [List.map_cons, List.sum_cons, List.length_cons, Nat.add_mul, Nat.add_mul]
    omega

/-- The first call of a generation at the width of five layers of 2560 values: 163 positions fit, a
    prompt of 164 does not. -/
theorem first_fits_iff (session : ℕ) {dp : DraftParams} {s : Remote} (hwidth : p.packetWidth = 25600)
    (hp : s.prefilled = false) (hsent : s.nSent = -1)
    (hstored : ∀ pos < dp.nPast, s.feats pos ≠ none) :
    SpanFits p session dp s ↔ dp.nPast ≤ 163 := by
  have hunsent : s.unsent dp.nPast = List.range dp.nPast := by
    rw [Server.unsent, hsent, List.range_eq_range']
    congr 1
  have hspan := spanBytes_bounds (show 25600 < 2 ^ 31 by omega) s.feats (List.range dp.nPast)
  have hsession := uintSize_le (uint64_lt session)
  rw [List.length_range] at hspan
  rw [SpanFits, requestBytes, hp, if_neg Bool.false_ne_true, hunsent, hwidth, maxReceiveSize,
    or_iff_right]
  · constructor <;> intro h <;> omega
  · rintro ⟨pos, hpos, hnone⟩
    exact hstored pos (List.mem_range.mp hpos) hnone

/-- MESSAGE SIZE: after any history, a call of `draft()` sends only requests that can be received, the
    prompt complete and in order, exactly when the packets of the unsent positions fit one message
    together (or one of them is missing). -/
theorem messages_fit_iff (p : SpecParams) (session : ℕ) (es : List RemoteEvent) (r : Replies)
    (dparams : List DraftParams) :
    let s := exec (Remote.step p) (.fresh session) es
    MessagesFit p r dparams s ↔
      ∀ dp, dparams.find? DraftParams.drafting = some dp → SpanFits p session dp s := by
  intro s
  have hlive : s.Live session := live_exec session es
  have hw := stored_width (p := p) session es
  cases hdp : dparams.find? DraftParams.drafting with
  | none =>
    have hsends : s.sends p r dparams = [] := sends_none r hdp
    refine iff_of_true ⟨?_, fun _ _ _ hne => absurd hsends hne⟩ fun _ h => by cases h
    rw [hsends]; intro m hm; cases hm
  | some dp =>
    rw [messagesFit_iff_spanFits hlive hw hdp]
    constructor
    · intro hfits dp' hdp'
      rw [← Option.some.inj hdp']
      exact hfits
    · exact fun hfits => hfits dp rfl

/-- Five tap layers of 2560 values, `n_max` 4, blocks of seven. -/
def blockSevenParams : SpecParams := ⟨4, [1, 9, 17, 25, 33], 2560, 7, .little⟩

/-- A prompt of `n` tokens is decoded in one batch, and a generation begins. -/
def promptHistory (n : ℕ) : List RemoteEvent :=
  [.process (zeroLayer (n * 2560)) (.tokens ((List.range n).map fun i => (1, i))),
    .begin (draftReplies []) (List.replicate n 1)]

theorem promptHistory_stored (n : ℕ) {pos : ℕ} (hpos : pos < n) :
    (exec (Remote.step blockSevenParams) (.fresh 1) (promptHistory n)).feats pos ≠ none := by
  have hlayers : ∀ lid ∈ blockSevenParams.targetLayerIds, ∃ layer,
      zeroLayer (n * 2560) lid = some layer ∧
        ((List.range n).map fun i => ((1 : ℤ), i)).length * blockSevenParams.width ≤ layer.length := by
    intro lid _
    refine ⟨_, rfl, ?_⟩
    rw [List.length_map, List.length_range, List.length_replicate]
    exact le_rfl
  obtain ⟨packets, hcap⟩ := capture_succeeds (by decide) (by decide) hlayers
  have hposs : packets.map TokenFeatures.position = List.range n :=
    (capture_positions hcap).trans (by simp [Function.comp_def])
  obtain ⟨tf, htf, htfpos⟩ := List.mem_map.mp (hposs ▸ List.mem_range.mpr hpos)
  have hlast : (lastOf packets pos).isSome := by
    rw [lastOf, List.find?_isSome]
    exact ⟨tf, List.mem_reverse.mpr htf, decide_eq_true htfpos⟩
  have hpackets : packetsOf blockSevenParams (zeroLayer (n * 2560))
      (.tokens ((List.range n).map fun i => (1, i))) = packets := by
    rw [packetsOf, hcap]
  rw [feats_exec, promptHistory, List.reverse_cons, List.reverse_singleton, List.singleton_append,
    lastCapture, if_neg (by rw [List.length_replicate]; omega), lastCapture, hpackets, lastCapture,
    Option.or_none]
  exact Option.isSome_iff_ne_none.mp hlast

/-- One packet of the checkpoint fits a request; the prompt of 164 tokens does not, and is sent. -/
theorem long_prompt_overflows :
    (PrefillRequest.serialize ⟨1, [⟨1, 0, List.replicate 25600 0⟩], true⟩).length ≤ maxReceiveSize ∧
    ¬ MessagesFit blockSevenParams (draftReplies []) [⟨true, 164, 5⟩]
      (exec (Remote.step blockSevenParams) (.fresh 1) (promptHistory 164)) := by
  constructor
  · have hone := packetBytes_bounds (show 25600 < 2 ^ 31 by omega) 1 0
    have hpackets : packetsBytes [⟨1, 0, List.replicate 25600 0⟩] = packetBytes 25600 1 0 := by
      rw [packetsBytes, List.map_singleton, List.sum_singleton, List.length_replicate]
    have hsession := uintSize_le (uint64_lt 1)
    rw [length_serialize_prefill, hpackets, maxReceiveSize]
    omega
  · have hlive : Remote.Live 1 (exec (Remote.step blockSevenParams) (.fresh 1) (promptHistory 164)) :=
      live_exec 1 _
    have hp : (exec (Remote.step blockSevenParams) (.fresh 1) (promptHistory 164)).prefilled = false :=
      unsent_after_begin 1 [_] (draftReplies []) (List.replicate 164 1) []
    rw [messagesFit_iff_spanFits hlive (stored_width 1 _) rfl,
      first_fits_iff 1 rfl hp (hlive.unsent hp) fun pos hpos => promptHistory_stored 164 hpos]
    decide

end DsparkEdge
