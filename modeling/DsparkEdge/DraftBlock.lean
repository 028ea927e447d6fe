import DsparkEdge.Anchor
import DsparkEdge.DraftBound

/-! The shape of a drafted block. The sampling loop takes the top candidate of position after position
    and stops at the first one that the confidence head is not sure of or the sampler has nothing for;
    both tests come before the three pushes, so the three arrays stay in step.

        position   0   1   2  …  n-1 │ n        n = min(m, b), or the first position that fails
        tokens     t₀  t₁  t₂ …  tₙ₋₁│
        logprobs   l₀  l₁  l₂ …  lₙ₋₁│
        confidence c₀  c₁  c₂ …  cₙ₋₁│          or none at all without a head

    The limit `m` comes off the wire as a `uint32` and is used as an `int32`: from `2^31` on it is
    negative, the noise batch is empty, and `llama_decode` rejects it. -/

namespace DsparkEdge

open SeqCache

/-- The block goes on at position `i`: the head is sure enough, and the sampler has a candidate. -/
def Goes (cfg : ModelConfig) (conf : Option (ℕ → F32)) (cands : ℕ → List (ℤ × F32)) (i : ℕ) : Prop :=
  belowConf cfg conf i = false ∧ cands i ≠ []

/-- The top candidate of a position that has one. -/
def top (cands : ℕ → List (ℤ × F32)) (i : ℕ) : ℤ × F32 := (cands i).headD (0, 0)

/-- The confidences pushed for the positions `is`. -/
def confidences (cfg : ModelConfig) (conf : Option (ℕ → F32)) (is : List ℕ) : List F32 :=
  match conf with
  | none => []
  | some c => is.map fun i => c (i * cfg.nEmbdDec)

/-- The reply holds the longest block of at most `limit` positions that goes on at every one. -/
structure LongestBlock (cfg : ModelConfig) (conf : Option (ℕ → F32)) (cands : ℕ → List (ℤ × F32))
    (limit n : ℕ) (res : DraftResponse) : Prop where
  le : n ≤ limit
  goes : ∀ i < n, Goes cfg conf cands i
  stops : n < limit → ¬ Goes cfg conf cands n
  tokens : res.draftTokens = (List.range n).map fun i => (top cands i).1
  logprobs : res.draftLogprobs = (List.range n).map fun i => (top cands i).2
  confidence : res.confidence = confidences cfg conf (List.range n)

variable {cfg : ModelConfig} {conf : Option (ℕ → F32)} {cands : ℕ → List (ℤ × F32)}

theorem confidences_cons (i : ℕ) (is : List ℕ) :
    confidences cfg conf (i :: is) =
      (conf.map fun c => c (i * cfg.nEmbdDec)).toList ++ confidences cfg conf is := by
  cases conf <;> rfl

/-- The reply after the positions `is` were pushed on it. -/
def pushed (cfg : ModelConfig) (conf : Option (ℕ → F32)) (cands : ℕ → List (ℤ × F32)) (is : List ℕ)
    (res : DraftResponse) : DraftResponse :=
  { res with
    draftTokens := res.draftTokens ++ is.map fun i => (top cands i).1
    draftLogprobs := res.draftLogprobs ++ is.map fun i => (top cands i).2
    confidence := res.confidence ++ confidences cfg conf is }

theorem pushed_nil (res : DraftResponse) : pushed cfg conf cands [] res = res := by
  cases conf <;> simp [pushed, confidences]

theorem pushed_cons (i : ℕ) (is : List ℕ) (res : DraftResponse) :
    pushed cfg conf cands (i :: is) res =
      pushed cfg conf cands is (pushed cfg conf cands [i] res) := by
  simp only [pushed, confidences_cons, List.map_cons, List.map_nil, List.append_assoc,
    List.singleton_append]
  cases conf <;> rfl

/-- A position that does not go on ends the loop. -/
theorem sampleLoop_stop {i : ℕ} (h : ¬ Goes cfg conf cands i) (m : ℕ) (res : DraftResponse) :
    sampleLoop cfg conf cands (m + 1) i res = res := by
  rw [sampleLoop]
  cases hbelow : belowConf cfg conf i with
  | true => rw [if_pos rfl]
  | false =>
    have hcands : cands i = [] := by
      by_contra hne
      exact h ⟨hbelow, hne⟩
    rw [if_neg Bool.false_ne_true, hcands]

/-- One that does is pushed, and the loop goes on behind it. -/
theorem sampleLoop_turn {i : ℕ} (h : Goes cfg conf cands i) (m : ℕ) (res : DraftResponse) :
    sampleLoop cfg conf cands (m + 1) i res =
      sampleLoop cfg conf cands m (i + 1) (pushed cfg conf cands [i] res) := by
  obtain ⟨hbelow, hne⟩ := h
  obtain ⟨c, rest, hcands⟩ := List.exists_cons_of_ne_nil hne
  have htop : top cands i = c := by rw [top, hcands]; rfl
  rw [sampleLoop, hbelow, if_neg Bool.false_ne_true, hcands]
  simp only [pushed, List.map_singleton, htop, confidences_cons]
  cases conf <;> rfl

/-- From position `i` on, the loop pushes the longest run of at most `m` positions that go on. -/
theorem sampleLoop_run (m i : ℕ) (res : DraftResponse) :
    ∃ k ≤ m, (∀ j < k, Goes cfg conf cands (i + j)) ∧ (k < m → ¬ Goes cfg conf cands (i + k)) ∧
      sampleLoop cfg conf cands m i res = pushed cfg conf cands (List.range' i k) res := by
  induction m generalizing i res with
  | zero =>
    exact ⟨0, le_rfl, fun j hj => absurd hj (Nat.not_lt_zero j), fun h => absurd h (lt_irrefl 0),
      (pushed_nil res).symm⟩
  | succ m ih =>
    by_cases hgo : Goes cfg conf cands i
    · obtain ⟨k, hk, hgoes, hstops, heq⟩ := ih (i + 1) (pushed cfg conf cands [i] res)
      refine ⟨k + 1, by omega, fun j hj => ?_, fun hlt => ?_, ?_⟩
      · cases j with
        | zero => exact hgo
        | succ j =>
          have := hgoes j (by omega)
          rwa [Nat.add_assoc, Nat.add_comm 1 j] at this
      · have := hstops (by omega)
        rwa [Nat.add_assoc, Nat.add_comm 1 k] at this
      · rw [sampleLoop_turn hgo, heq, ← pushed_cons, ← List.range'_succ]
    · exact ⟨0, Nat.zero_le _, fun j hj => absurd hj (Nat.not_lt_zero j), fun _ => hgo,
        (sampleLoop_stop hgo m res).trans (pushed_nil res).symm⟩

/-- The whole loop. -/
theorem sampleLoop_longest (cfg : ModelConfig) (conf : Option (ℕ → F32))
    (cands : ℕ → List (ℤ × F32)) (limit : ℕ) :
    ∃ n, LongestBlock cfg conf cands limit n (sampleLoop cfg conf cands limit 0 { ok := true }) := by
  obtain ⟨n, hn, hgoes, hstops, heq⟩ := @sampleLoop_run cfg conf cands limit 0 { ok := true }
  refine ⟨n, hn, fun i hi => ?_, fun h => ?_, ?_, ?_, ?_⟩
  · simpa using hgoes i hi
  · simpa using hstops h
  · rw [heq, List.range_eq_range']; rfl
  · rw [heq, List.range_eq_range']; rfl
  · rw [heq, List.range_eq_range']; rfl

/-! ### A Draft reply -/

/-- `llama_decode` rejects an empty batch. -/
def LlamaCalls.RejectsEmpty (cfg : ModelConfig) (calls : LlamaCalls) (maxDraftTokens : ℤ) : Prop :=
  ∀ anchor cells, noiseBatch cfg calls.gen anchor maxDraftTokens cells = [] → calls.noise ≠ .ok

/-- The cache a Draft's block is decoded on. -/
def Session.base (cfg : ModelConfig) (calls : LlamaCalls) (req : DraftRequest) (s : Session) : Cache :=
  (s.engine.accept cfg calls req.acceptedTokens).2.cells

/-- The confidence row of a Draft, if the head is active. -/
def Session.confRow (cfg : ModelConfig) (M : DraftModel) (calls : LlamaCalls) (req : DraftRequest)
    (s : Session) : Option (ℕ → F32) :=
  confHead cfg M (s.base cfg calls req) (s.block cfg calls req)

/-- The candidates of a Draft, by position. -/
def Session.candidates (cfg : ModelConfig) (M : DraftModel) (calls : LlamaCalls) (req : DraftRequest)
    (s : Session) : ℕ → List (ℤ × F32) :=
  M.cands (s.base cfg calls req) (s.block cfg calls req)

/-- A Draft that succeeds was executed, injected its packets and decoded its block. -/
theorem draft_ok {M : DraftModel} {calls : LlamaCalls} {req : DraftRequest} {s : Session}
    (hok : (s.draft cfg M calls req).1.ok = true) : calls.noise = .ok ∧
      (s.draft cfg M calls req).1 =
        { sampleLoop cfg (s.confRow cfg M calls req) (s.candidates cfg M calls req)
            (cfg.nDraft (toInt32 req.maxDraftTokens)) 0 { ok := true } with
          sessionId := req.sessionId, stepId := req.stepId } := by
  have hfresh : s.lastStepId < req.stepId := by
    by_contra hstale
    rw [draft_stale cfg M calls (Nat.not_lt.mp hstale)] at hok
    cases hok
  rw [draft_executed cfg M calls hfresh] at hok ⊢
  rcases hacc : s.engine.accept cfg calls req.acceptedTokens with ⟨ok, st1⟩
  cases ok with
  | false =>
    rw [draft_refused M (.ofWire req) hacc] at hok
    cases hok
  | true =>
    simp only [Engine.draft, Engine.runDraft, StepRequest.ofWire, hacc] at hok
    simp only [Engine.draft, Engine.runDraft, StepRequest.ofWire, Session.confRow, Session.candidates,
      Session.base, Session.block, hacc, hfresh]
    cases hnoise : calls.noise with
    | fails left => rw [hnoise] at hok; cases hok
    | ok => exact ⟨rfl, rfl⟩

theorem length_noiseBatch (cfg : ModelConfig) (gen : ℕ) (anchor n : ℤ) (cells : Cache) :
    (noiseBatch cfg gen anchor n cells).length = cfg.nDraft n := by
  rw [noiseBatch, length_consec, List.length_map, List.length_range]

/-- A non-empty batch means a limit that is positive on both sides of the narrowing. -/
theorem nDraft_of_pos {m : ℕ} (hm : m < 2 ^ 32) (h : cfg.nDraft (toInt32 m) ≠ 0) :
    (cfg.nDraft (toInt32 m) : ℤ) = min (m : ℤ) cfg.blockSize := by
  have hint : toInt32 m = m ∨ toInt32 m < 0 := by
    rw [toInt32, BitVec.toInt_eq_toNat_cond, BitVec.toNat_ofNat]
    split <;> omega
  rw [ModelConfig.nDraft] at h ⊢
  rcases hint with hint | hint
  · rw [hint] at h ⊢; omega
  · omega

/-- DRAFTED BLOCK: a successful reply holds the longest block of at most `min(m, b)` positions, with a
    log-prob for each token and a confidence for each or for none. -/
theorem drafted_block (cfg : ModelConfig) (M : DraftModel) (calls : LlamaCalls) (req : DraftRequest)
    (s : Session) (hm : req.maxDraftTokens < 2 ^ 32)
    (hempty : calls.RejectsEmpty cfg (toInt32 req.maxDraftTokens))
    (hok : (s.draft cfg M calls req).1.ok = true) :
    let res := (s.draft cfg M calls req).1
    let limit := min (req.maxDraftTokens : ℤ) cfg.blockSize
    (res.draftTokens.length : ℤ) ≤ limit ∧
    res.draftLogprobs.length = res.draftTokens.length ∧
    (res.confidence = [] ∨ res.confidence.length = res.draftTokens.length) ∧
    LongestBlock cfg (s.confRow cfg M calls req) (s.candidates cfg M calls req) limit.toNat
      res.draftTokens.length res := by
  intro res limit
  obtain ⟨hnoise, hres⟩ := draft_ok hok
  have hpos : cfg.nDraft (toInt32 req.maxDraftTokens) ≠ 0 := by
    intro hzero
    have hnil := length_noiseBatch cfg calls.gen 0 (toInt32 req.maxDraftTokens) []
    rw [hzero, List.length_eq_zero_iff] at hnil
    exact hempty 0 [] hnil hnoise
  have hlimit : (cfg.nDraft (toInt32 req.maxDraftTokens) : ℤ) = limit := nDraft_of_pos hm hpos
  obtain ⟨n, hblock⟩ := sampleLoop_longest cfg (s.confRow cfg M calls req)
    (s.candidates cfg M calls req) (cfg.nDraft (toInt32 req.maxDraftTokens))
  have hlong : LongestBlock cfg (s.confRow cfg M calls req) (s.candidates cfg M calls req) limit.toNat n res := by
    rw [← hlimit, Int.toNat_natCast]
    have hres' : res = _ := hres
    rw [hres']
    exact ⟨hblock.le, hblock.goes, hblock.stops, hblock.tokens, hblock.logprobs, hblock.confidence⟩
  have hn : res.draftTokens.length = n := by rw [hlong.tokens, List.length_map, List.length_range]
  refine ⟨?_, ?_, ?_, by rw [hn]; exact hlong⟩
  · have := hlong.le
    omega
  · rw [hn, hlong.logprobs, List.length_map, List.length_range]
  · rw [hn, hlong.confidence]
    cases s.confRow cfg M calls req with
    | none => exact Or.inl rfl
    | some c => right; rw [confidences, List.length_map, List.length_range]

/-- A request for three tokens of blocks of four, answered with a candidate for two positions. -/
theorem drafted_block_two :
    let res := (Session.fresh.draft smallConfig (constModel [5, 6]) (.succeed 0)
      ⟨1, 1, [], 0, 3, true, 5⟩).1
    (res.draftTokens.length : ℤ) ≤ 3 ∧ res.draftLogprobs.length = res.draftTokens.length := by
  have hempty : (LlamaCalls.succeed 0).RejectsEmpty smallConfig (toInt32 3) := by
    intro anchor cells hnil
    have hlen := length_noiseBatch smallConfig 0 anchor (toInt32 3) cells
    rw [show (LlamaCalls.succeed 0).gen = 0 from rfl] at hnil
    rw [hnil] at hlen
    exact absurd hlen (by decide)
  have hblock := drafted_block smallConfig (constModel [5, 6]) (.succeed 0) ⟨1, 1, [], 0, 3, true, 5⟩
    .fresh (by decide) hempty (by decide)
  exact ⟨hblock.1, hblock.2.1⟩

/-! ### The daemon keeps the server's limit -/

/-- Whatever becomes of a Draft, its reply has no more tokens than the batch had positions. -/
theorem draft_length_le (M : DraftModel) (calls : LlamaCalls) (req : DraftRequest) (s : Session)
    (hok : (s.draft cfg M calls req).1.ok = true) :
    (s.draft cfg M calls req).1.draftTokens.length ≤ cfg.nDraft (toInt32 req.maxDraftTokens) := by
  obtain ⟨-, hres⟩ := draft_ok hok
  obtain ⟨n, hblock⟩ := sampleLoop_longest cfg (s.confRow cfg M calls req)
    (s.candidates cfg M calls req) (cfg.nDraft (toInt32 req.maxDraftTokens))
  rw [hres]
  simp only [hblock.tokens, List.length_map, List.length_range]
  exact hblock.le

/-- An `int32` limit arrives as it was sent. -/
theorem toInt32_toUint32 {n : ℤ} (hlo : -2 ^ 31 ≤ n) (hhi : n < 2 ^ 31) : toInt32 (toUint32 n) = n := by
  rw [toInt32, toUint32, BitVec.ofNat_toNat, BitVec.setWidth_eq, BitVec.toInt_ofInt]
  exact Int.bmod_eq_of_le (by norm_num; omega) (by norm_num; omega)

/-- Connected to the daemon, with the numbers of its own handshake, `draft()` keeps the limit: it is the
    engine that cuts the block, not the server. -/
theorem daemon_within_limit {session : ℕ} {s : Edge} (h : s.Live session) (cfg : ModelConfig)
    (M : DraftModel) {nMax : ℤ} (en : Endian) (l : Link) (dparams : List DraftParams) (hn : 0 ≤ nMax)
    (hb : 0 ≤ cfg.blockSize) (hfit : min nMax cfg.blockSize < 2 ^ 31) :
    WithinLimit (handshake cfg nMax en)
      (s.draft (grpcDrafter (daemonStub cfg M l)) (handshake cfg nMax en) dparams).2 := by
  rw [withinLimit_iff]
  have hlimit : 0 ≤ (handshake cfg nMax en).draftLimit := le_min hn hb
  -- the reply to any request the server forms
  have hreply (d : Session) (req : DraftRequest) (hreq : req.maxDraftTokens = toUint32 (min nMax cfg.blockSize)) :
      (((if (d.draft cfg M l.draft req).1.ok then (d.draft cfg M l.draft req).1.draftTokens else []
        : List ℤ).length : ℕ) : ℤ) ≤ (handshake cfg nMax en).draftLimit := by
    cases hok : (d.draft cfg M l.draft req).1.ok with
    | false => exact hlimit
    | true =>
      have hlen := draft_length_le M l.draft req d hok
      have hmin : min (min nMax cfg.blockSize) cfg.blockSize = min nMax cfg.blockSize :=
        min_eq_left (min_le_right _ _)
      rw [hreq, toInt32_toUint32 (by omega) hfit, ModelConfig.nDraft, hmin] at hlen
      rw [if_pos rfl]
      have hpos : 0 ≤ min nMax cfg.blockSize := hlimit
      have hgoal : (handshake cfg nMax en).draftLimit = min nMax cfg.blockSize := rfl
      omega
  cases hdp : dparams.find? DraftParams.drafting with
  | none => rw [draft_none _ _ hdp]; exact hlimit
  | some dp =>
    cases hship : s.toShip dp.nPast with
    | none => rw [draft_missing h _ _ hdp hship]; exact hlimit
    | some tokens =>
      cases hp : s.prefilled with
      | false =>
        rw [(draft_first h (daemonStub cfg M l) (handshake cfg nMax en) hdp hp hship).tokens]
        exact hreply _ _ rfl
      | true =>
        rw [(draft_later h (daemonStub cfg M l) (handshake cfg nMax en) hdp hp hship).tokens]
        exact hreply _ _ rfl

end DsparkEdge
