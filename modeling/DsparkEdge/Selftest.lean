import DsparkEdge.DraftBlock
import DsparkEdge.ReplayFiles

/-! `run_selftest` (`selftest.cpp`, called by `main.cpp` with `--selftest`): eight synthetic packets are
    prefilled, then two blocks are drafted. The first one's first token is accepted behind the prompt, where the
    first block's anchor was, and the second block goes on from it.

        position    0 …  7   8        9
        prefill   100 … 107
        step 0    100 … 107 │108 mask …             the block on 108 starts with t
        step 1    100 … 107  t      │t mask …       block 0 is gone

    The exit code does not tell the failures apart, so a stage that fails is `none`. -/

namespace DsparkEdge

open SeqCache Blocks

/-! ### Synthetic features -/

/-- One of -1, 0 and 1; the sum is a `uint64`. -/
def featurePhase (token : ℤ) (position i : ℕ) : ℤ :=
  (((i + position * 7 + (BitVec.ofInt 64 token).toNat) % 2 ^ 64 % 3 : ℕ) : ℤ) - 1

/-- `0.005f * phase`. -/
def phaseValue (phase : ℤ) : F32 :=
  if phase = -1 then 0xBBA3D70A else if phase = 1 then 0x3BA3D70A else 0

/-- One packet of `target_layer_ids_n * hidden_size` bf16 values. -/
def makeFeatures (cfg : ModelConfig) (token : ℤ) (position : ℕ) : TokenFeatures where
  token := token
  position := position
  features := (List.range (cfg.targetLayerIds.length * cfg.hiddenSize)).flatMap fun i =>
    packValue cfg.endian (phaseValue (featurePhase token position i))

/-- `std::isfinite`: not all exponent bits are set. -/
def f32IsFinite (x : F32) : Bool := decide ((x &&& 0x7FFFFFFF).toNat < 0x7F800000)

def allFinite (xs : List F32) : Bool := xs.all f32IsFinite

/-! ### The test -/

def nPrompt : ℕ := 8

def selftestPrompt (cfg : ModelConfig) : List TokenFeatures :=
  (List.range nPrompt).map fun (i : ℕ) => makeFeatures cfg (100 + i) i

/-- The request of turn `step`. Its position is not set, and the engine does not read it. -/
def selftestRequest (cfg : ModelConfig) (step : ℕ) (anchor : ℤ) : StepRequest where
  sessionId := 1
  stepId := step
  position := 0
  maxDraftTokens := cfg.blockSize
  greedy := true
  anchorToken := anchor
  -- pretend the server accepted the anchor from the previous step
  acceptedTokens := if 0 < step then [makeFeatures cfg anchor (nPrompt + step - 1)] else []

/-- What the test wants of a block; the next anchor is its first token. -/
def checkDraft (cfg : ModelConfig) (res : DraftResponse) : Option ℤ :=
  if res.ok then
    match res.draftTokens with
    | [] => none
    | t :: _ =>
      if cfg.blockSize < res.draftTokens.length then none
      else if !allFinite res.draftLogprobs then none
      else if !allFinite res.confidence then none
      else some t
  else none

/-- One turn of the draft loop. -/
def selftestStep (cfg : ModelConfig) (M : DraftModel) (calls : LlamaCalls) (step : ℕ) (anchor : ℤ) (st : Engine) :
    Option (ℤ × Engine) :=
  let r := st.draft cfg M calls (selftestRequest cfg step anchor)
  (checkDraft cfg r.1).map fun t => (t, r.2)

/-- The exit code. -/
def runSelftest (cfg : ModelConfig) (M : DraftModel) (prefill : LlamaCalls) (draft : ℕ → LlamaCalls)
    (engine : Engine) : ℕ :=
  if cfg.targetLayerIds.isEmpty ∨ cfg.hiddenSize ≤ 0 ∨ cfg.blockSize ≤ 0 then 1
  else
    let r := engine.prefill cfg prefill (selftestPrompt cfg)
    if !r.1 then 1
    else if r.2.1 ≠ nPrompt then 1
    else
      match (List.range 2).foldlM (fun s step => selftestStep cfg M (draft step) step s.1 s.2)
          ((100 + nPrompt : ℤ), r.2.2) with
      | none => 1
      | some _ => 0

example : runSelftest smallConfig (constModel [5, 6]) (.succeed 0) (fun _ => .succeed 0) .fresh = 0 := by decide

/-! ### Packets of the right size -/

theorem makeFeatures_sizeOk (cfg : ModelConfig) (token : ℤ) (position : ℕ) :
    SizeOk cfg (makeFeatures cfg token position) := by
  rw [SizeOk, makeFeatures, ModelConfig.rowLen]
  generalize cfg.targetLayerIds.length * cfg.hiddenSize = n
  induction n with
  | zero => rfl
  | succ n ih =>
    rw [List.range_succ, List.flatMap_append, List.length_append, ih]
    simp [packValue]
    omega

theorem selftestPrompt_sizeOk (cfg : ModelConfig) : ∀ tf ∈ selftestPrompt cfg, SizeOk cfg tf := by
  intro tf htf
  obtain ⟨i, -, rfl⟩ := List.mem_map.mp htf
  exact makeFeatures_sizeOk cfg _ i

theorem selftestPrompt_positions (cfg : ModelConfig) : PositionsFrom 0 (selftestPrompt cfg) :=
  ⟨rfl, rfl, rfl, rfl, rfl, rfl, rfl, rfl, trivial⟩

@[simp] theorem selftestRequest_first (cfg : ModelConfig) (anchor : ℤ) :
    (selftestRequest cfg 0 anchor).acceptedTokens = [] := rfl

@[simp] theorem selftestRequest_second (cfg : ModelConfig) (anchor : ℤ) :
    (selftestRequest cfg 1 anchor).acceptedTokens = [makeFeatures cfg anchor nPrompt] := rfl

/-- Packets of the right size are injected exactly if llama.cpp takes every chunk of them. -/
theorem injectLoop_isOk (cfg : ModelConfig) (calls : LlamaCalls) {cs : List (List TokenFeatures)}
    (h : ∀ tf ∈ cs.flatten, SizeOk cfg tf) (j : ℕ) (cells : Cache) :
    (injectLoop cfg calls j cs cells).1 = true ↔ ∀ i < cs.length, calls.chunk (j + i) = .ok := by
  induction cs generalizing j cells with
  | nil => exact iff_of_true rfl fun i hi => absurd hi (Nat.not_lt_zero i)
  | cons chunk rest ih =>
    obtain ⟨buf, hbuf⟩ := packChunk_of_size fun tf htf => h tf (List.mem_append_left _ htf)
    have hrest := fun tf htf => h tf (List.mem_append_right _ htf)
    rw [injectLoop, hbuf, List.length_cons, Nat.forall_lt_succ_left', Nat.add_zero]
    cases hchunk : calls.chunk j with
    | ok =>
      simp only [true_and, ih hrest, Nat.add_assoc, Nat.add_comm 1]
    | encodeFails | noOutput | decodeFails => simp

theorem injects_iff {cfg : ModelConfig} {calls : LlamaCalls} {tokens : List TokenFeatures}
    (h : ∀ tf ∈ tokens, SizeOk cfg tf) :
    Injects cfg calls tokens ↔ ∀ j < (chunks cfg.nUbatch tokens).length, calls.chunk j = .ok := by
  rw [Injects, injectFeatures, injectLoop_isOk cfg calls (by rwa [flatten_chunks cfg.ubatch_pos])]
  simp only [Nat.zero_add]

@[simp] theorem injects_nil (cfg : ModelConfig) (calls : LlamaCalls) : Injects cfg calls [] := by
  rw [Injects, injectFeatures, chunks_nil cfg.ubatch_pos, injectLoop]

/-- One packet is one chunk. -/
theorem injects_one {cfg : ModelConfig} {calls : LlamaCalls} {tf : TokenFeatures} (h : SizeOk cfg tf) :
    Injects cfg calls [tf] ↔ calls.chunk 0 = .ok := by
  have hdrop : [tf].drop cfg.nUbatch = [] := List.drop_eq_nil_of_le cfg.ubatch_pos
  rw [injects_iff (by simpa using h), chunks_eq_cons cfg.ubatch_pos (List.cons_ne_nil _ _), hdrop,
    chunks_nil cfg.ubatch_pos]
  simp

/-! ### One draft -/

/-- What the network drafts behind `anchor` on these cells. -/
def DraftModel.block (M : DraftModel) (cfg : ModelConfig) (gen : ℕ) (cells : Cache) (anchor : ℤ) : DraftResponse :=
  let noise := noiseBatch cfg gen anchor cfg.blockSize cells
  sampleLoop cfg (confHead cfg M cells noise) (M.cands cells noise) (cfg.nDraft cfg.blockSize) 0 { ok := true }

/-- The block is not empty and starts with `t`, and its numbers are finite. -/
structure GoodBlock (res : DraftResponse) (t : ℤ) : Prop where
  first : res.draftTokens.head? = some t
  logprobs : ∀ x ∈ res.draftLogprobs, f32IsFinite x = true
  confidence : ∀ x ∈ res.confidence, f32IsFinite x = true

variable {cfg : ModelConfig} {M : DraftModel} {calls : LlamaCalls} {st : Engine} {vals : List CellVal}

theorem accept_iff_injects (st : Engine) (tokens : List TokenFeatures) :
    (st.accept cfg calls tokens).1 = true ↔ Injects cfg calls tokens := by
  have hflag : (injectFeatures cfg calls tokens (seqRm st.cells (st.kvConfirmedMax + 1))).1 =
      (injectFeatures cfg calls tokens []).1 := injectLoop_flag cfg calls _ 0 _ _
  rw [Injects, ← hflag]
  unfold Engine.accept
  cases h : (injectFeatures cfg calls tokens (seqRm st.cells (st.kvConfirmedMax + 1))).1 <;> simp [h]

theorem draft_isOk (req : StepRequest) :
    (st.draft cfg M calls req).1.ok = true ↔ Injects cfg calls req.acceptedTokens ∧ calls.noise = .ok := by
  rw [← accept_iff_injects]
  unfold Engine.draft Engine.runDraft
  cases hacc : (st.accept cfg calls req.acceptedTokens).1 with
  | false => simp [hacc]
  | true =>
    cases hnoise : calls.noise with
    | ok => simp [hacc, sampleLoop_ok]
    | fails left => simp [hacc]

/-- The packets extend a settled cache, and the block is decoded behind them. -/
theorem draft_drafts {req : StepRequest} (h : st.Settled vals)
    (hpos : PositionsFrom (st.kvConfirmedMax + 1) req.acceptedTokens) (hinj : Injects cfg calls req.acceptedTokens)
    (hnoise : calls.noise = .ok) (hmax : req.maxDraftTokens = cfg.blockSize) :
    let more := vals ++ req.acceptedTokens.map (cellVal cfg calls.gen)
    (st.draft cfg M calls req).1 =
        { M.block cfg calls.gen (consec 0 more) ((st.extended cfg calls.gen vals req.acceptedTokens).anchor req) with
          sessionId := req.sessionId, stepId := req.stepId } ∧
      (st.draft cfg M calls req).2.Settled more := by
  intro more
  have hacc : st.accept cfg calls req.acceptedTokens = (true, st.extended cfg calls.gen vals req.acceptedTokens) := by
    rcases accept_settled cfg calls h hpos with heq | ⟨junk, heq, -⟩
    · exact heq
    · have hflag := (accept_iff_injects st req.acceptedTokens).mpr hinj
      rw [heq] at hflag
      cases hflag
  have hcells := (extended_settled cfg calls.gen h.top_eq hpos).1
  refine ⟨?_, ?_⟩
  · unfold Engine.draft
    rw [hacc]
    simp only [if_true, Engine.runDraft, hnoise, hmax, hcells, DraftModel.block]
    rfl
  · have hrun := runDraft_settled cfg M calls ((st.extended cfg calls.gen vals req.acceptedTokens).anchor req)
      req.maxDraftTokens h.top_eq hpos
    unfold Engine.draft
    rw [hacc]
    exact hrun

/-! ### One turn -/

/-- The anchor of the block is the one that was asked for: 0 stands for the last token that was accepted, and the
    turn accepts its own anchor. -/
theorem selftest_anchor (cfg : ModelConfig) (gen : ℕ) (vals : List CellVal) (st : Engine) {step : ℕ} {anchor : ℤ}
    (h : 0 < step ∨ anchor ≠ 0) :
    (st.extended cfg gen vals (selftestRequest cfg step anchor).acceptedTokens).anchor
      (selftestRequest cfg step anchor) = anchor := by
  rw [Engine.anchor]
  by_cases hzero : anchor = 0
  · have hstep : 0 < step := h.resolve_right (not_not.mpr hzero)
    simp [selftestRequest, hzero, hstep, Engine.extended, Engine.advance, makeFeatures]
  · exact if_pos hzero

/-- A block is never longer than it may be. -/
theorem block_length_le (hblock : 0 < cfg.blockSize) (gen : ℕ) (cells : Cache) (anchor : ℤ) :
    ((M.block cfg gen cells anchor).draftTokens.length : ℤ) ≤ cfg.blockSize := by
  obtain ⟨n, hlong⟩ := sampleLoop_longest cfg
    (confHead cfg M cells (noiseBatch cfg gen anchor cfg.blockSize cells))
    (M.cands cells (noiseBatch cfg gen anchor cfg.blockSize cells)) (cfg.nDraft cfg.blockSize)
  have hlen : (M.block cfg gen cells anchor).draftTokens.length = n := by
    rw [DraftModel.block, hlong.tokens, List.length_map, List.length_range]
  have hle := hlong.le
  rw [ModelConfig.nDraft, min_self] at hle
  omega

theorem checkDraft_some (res : DraftResponse) (t : ℤ) :
    checkDraft cfg res = some t ↔
      res.ok = true ∧ (res.draftTokens.length : ℤ) ≤ cfg.blockSize ∧ GoodBlock res t := by
  rw [checkDraft]
  cases hok : res.ok with
  | false => simp
  | true =>
    cases htok : res.draftTokens with
    | nil =>
      refine iff_of_false (by simp) ?_
      rintro ⟨-, -, hgood⟩
      have hfirst := hgood.first
      rw [htok] at hfirst
      cases hfirst
    | cons t' rest =>
      have hgood : GoodBlock res t ↔ t' = t ∧ allFinite res.draftLogprobs = true ∧ allFinite res.confidence = true := by
        simp only [allFinite, List.all_eq_true]
        refine ⟨fun hg => ⟨?_, hg.logprobs, hg.confidence⟩, fun ⟨ht, hl, hc⟩ => ⟨?_, hl, hc⟩⟩
        · have hfirst := hg.first
          rw [htok] at hfirst
          exact Option.some.inj hfirst
        · rw [htok, ht]
          rfl
      rw [hgood]
      by_cases hlen : cfg.blockSize < ((t' :: rest).length : ℤ)
      · simp only [if_true, if_pos hlen]
        exact iff_of_false (by simp) fun h => absurd hlen (not_lt.mpr h.2.1)
      · have hle := not_lt.mp hlen
        simp only [if_true, if_neg hlen, hle, true_and]
        cases allFinite res.draftLogprobs <;> cases allFinite res.confidence <;> simp

/-- A turn on a settled cache goes on with `t` exactly if llama.cpp takes its packets and its block, and the block
    is good. -/
theorem selftestStep_iff (hblock : 0 < cfg.blockSize) {step : ℕ} {anchor : ℤ} (hanchor : 0 < step ∨ anchor ≠ 0)
    (h : st.Settled vals)
    (hpos : PositionsFrom (st.kvConfirmedMax + 1) (selftestRequest cfg step anchor).acceptedTokens) (t : ℤ)
    (st' : Engine) :
    let more := vals ++ (selftestRequest cfg step anchor).acceptedTokens.map (cellVal cfg calls.gen)
    selftestStep cfg M calls step anchor st = some (t, st') ↔
      Injects cfg calls (selftestRequest cfg step anchor).acceptedTokens ∧ calls.noise = .ok ∧
        GoodBlock (M.block cfg calls.gen (consec 0 more) anchor) t ∧
        (st.draft cfg M calls (selftestRequest cfg step anchor)).2 = st' := by
  intro more
  have hsome : selftestStep cfg M calls step anchor st = some (t, st') ↔
      checkDraft cfg (st.draft cfg M calls (selftestRequest cfg step anchor)).1 = some t ∧
        (st.draft cfg M calls (selftestRequest cfg step anchor)).2 = st' := by
    simp [selftestStep]
  rw [hsome, checkDraft_some, draft_isOk, and_assoc, and_assoc, and_assoc]
  refine and_congr_right fun hinj => and_congr_right fun hnoise => ?_
  obtain ⟨hres, -⟩ := draft_drafts (M := M) h hpos hinj hnoise rfl
  rw [selftest_anchor cfg calls.gen vals st hanchor] at hres
  have hlen := block_length_le (M := M) hblock calls.gen (consec 0 more) anchor
  have hgood : GoodBlock (st.draft cfg M calls (selftestRequest cfg step anchor)).1 t ↔
      GoodBlock (M.block cfg calls.gen (consec 0 more) anchor) t := by
    rw [hres]
    exact ⟨fun ⟨hf, hl, hc⟩ => ⟨hf, hl, hc⟩, fun ⟨hf, hl, hc⟩ => ⟨hf, hl, hc⟩⟩
  rw [hgood, hres]
  exact and_iff_right hlen

/-! ### The whole test -/

/-- The prompt's values in the cache. -/
def promptVals (cfg : ModelConfig) (gen : ℕ) : List CellVal := (selftestPrompt cfg).map (cellVal cfg gen)

/-- The cache of the second block, when the first one started with `t`. -/
def secondVals (cfg : ModelConfig) (gen gen' : ℕ) (t : ℤ) : List CellVal :=
  promptVals cfg gen ++ [cellVal cfg gen' (makeFeatures cfg t nPrompt)]

/-- The prompt lands on an empty engine, with `n_positions` as expected. -/
theorem prompt_prefilled (hinj : Injects cfg calls (selftestPrompt cfg)) :
    (Engine.fresh.prefill cfg calls (selftestPrompt cfg)).2.1 = nPrompt ∧
      (Engine.fresh.prefill cfg calls (selftestPrompt cfg)).2.2.Settled (promptVals cfg calls.gen) := by
  have hok := (prefill_iff_injects cfg calls (selftestPrompt cfg) .fresh).mpr hinj
  have hpos : PositionsFrom (Engine.fresh.kvConfirmedMax + 1) (selftestPrompt cfg) := selftestPrompt_positions cfg
  constructor
  · rcases prefill_cases cfg calls (selftestPrompt cfg) .fresh with heq | ⟨junk, heq, -⟩
    · rw [heq]; rfl
    · rw [heq] at hok; cases hok
  · rw [@prefill_extended cfg calls _ .fresh [] rfl rfl hpos hok]
    exact (extended_settled cfg calls.gen rfl hpos).2

/-- The stages of a test that exits with 0. -/
theorem runSelftest_zero (prefill : LlamaCalls) (draft : ℕ → LlamaCalls) :
    runSelftest cfg M prefill draft .fresh = 0 ↔
      cfg.targetLayerIds ≠ [] ∧ 0 < cfg.blockSize ∧ Injects cfg prefill (selftestPrompt cfg) ∧
        ∃ t st t' st',
          selftestStep cfg M (draft 0) 0 108 (Engine.fresh.prefill cfg prefill (selftestPrompt cfg)).2.2 =
            some (t, st) ∧
          selftestStep cfg M (draft 1) 1 t st = some (t', st') := by
  have hguard : (cfg.targetLayerIds.isEmpty = true ∨ cfg.hiddenSize ≤ 0 ∨ cfg.blockSize ≤ 0) ↔
      ¬(cfg.targetLayerIds ≠ [] ∧ 0 < cfg.blockSize) := by
    have hhidden := cfg.hidden_pos
    rw [List.isEmpty_iff, not_and_or, not_not, not_lt]
    simp [Nat.ne_of_gt hhidden]
  rw [runSelftest]
  by_cases hvalid : cfg.targetLayerIds ≠ [] ∧ 0 < cfg.blockSize
  · rw [if_neg (not_not.mpr hvalid ∘ hguard.mp)]
    simp only [hvalid, ne_eq, not_false_iff, true_and]
    by_cases hinj : Injects cfg prefill (selftestPrompt cfg)
    · have hok := (prefill_iff_injects cfg prefill (selftestPrompt cfg) .fresh).mpr hinj
      rw [hok, (prompt_prefilled hinj).1]
      simp only [Bool.not_true, Bool.false_eq_true, if_false, not_true_eq_false, hinj, true_and]
      generalize (Engine.fresh.prefill cfg prefill (selftestPrompt cfg)).2.2 = st
      -- the two turns of the loop
      change (match selftestStep cfg M (draft 0) 0 108 st >>= fun s =>
        selftestStep cfg M (draft 1) 1 s.1 s.2 >>= fun s' => some s' with
        | none => 1
        | some _ => 0) = 0 ↔ _
      cases hfirst : selftestStep cfg M (draft 0) 0 108 st with
      | none => simp
      | some s =>
        cases hsecond : selftestStep cfg M (draft 1) 1 s.1 s.2 with
        | none =>
          refine iff_of_false (by simp [hsecond]) ?_
          rintro ⟨t, st', t', st'', heq, hst''⟩
          rw [Option.some.inj heq, hst''] at hsecond
          cases hsecond
        | some s' =>
          refine iff_of_true (by simp [hsecond]) ?_
          exact ⟨s.1, s.2, s'.1, s'.2, rfl, hsecond⟩
    · have hok : (Engine.fresh.prefill cfg prefill (selftestPrompt cfg)).1 = false :=
        Bool.eq_false_iff.mpr fun h => hinj ((prefill_iff_injects cfg prefill _ _).mp h)
      rw [hok]
      exact iff_of_false (by simp) fun h => hinj h.1
  · rw [if_pos (hguard.mpr hvalid)]
    exact iff_of_false (by decide) fun h => hvalid ⟨h.1, h.2.1⟩

/-- SELF-TEST: it exits with 0 exactly if the model has tap layers and blocks, llama.cpp takes the prompt, the
    accepted token and both blocks, and both blocks are good. Its other checks, of `n_positions` and of the length
    of a block, never fail. The second block is drafted behind the prompt and the accepted token only, on that
    token, be it 0. -/
theorem selftest_exit_zero_iff (cfg : ModelConfig) (M : DraftModel) (prefill : LlamaCalls) (draft : ℕ → LlamaCalls) :
    runSelftest cfg M prefill draft .fresh = 0 ↔
      cfg.targetLayerIds ≠ [] ∧ 0 < cfg.blockSize ∧
      (∀ j < (chunks cfg.nUbatch (selftestPrompt cfg)).length, prefill.chunk j = .ok) ∧
      (draft 0).noise = .ok ∧ (draft 1).chunk 0 = .ok ∧ (draft 1).noise = .ok ∧
      ∃ t t', GoodBlock (M.block cfg (draft 0).gen (consec 0 (promptVals cfg prefill.gen)) 108) t ∧
        GoodBlock (M.block cfg (draft 1).gen (consec 0 (secondVals cfg prefill.gen (draft 1).gen t)) t) t' := by
  rw [runSelftest_zero, injects_iff (selftestPrompt_sizeOk cfg)]
  refine and_congr_right fun _ => and_congr_right fun hblock => and_congr_right fun hprefill => ?_
  obtain ⟨-, hset⟩ := prompt_prefilled ((injects_iff (selftestPrompt_sizeOk cfg)).mpr hprefill)
  generalize (Engine.fresh.prefill cfg prefill (selftestPrompt cfg)).2.2 = st at hset ⊢
  have hfirst := @selftestStep_iff cfg M (draft 0) st _ hblock 0 108 (Or.inr (by decide)) hset trivial
  have hsecond (t t' : ℤ) (st' st'' : Engine) (hset' : st'.Settled (promptVals cfg prefill.gen)) :=
    @selftestStep_iff cfg M (draft 1) st' _ hblock 1 t (Or.inl Nat.one_pos) hset'
      ⟨by rw [hset'.top_eq]; rfl, trivial⟩ t' st''
  simp only [selftestRequest_first, List.map_nil, List.append_nil, injects_nil, true_and] at hfirst
  simp only [selftestRequest_second, List.map_singleton, injects_one (makeFeatures_sizeOk cfg _ _)] at hsecond
  -- the first draft leaves the prompt settled
  have hset' (hnoise : (draft 0).noise = .ok) :
      (st.draft cfg M (draft 0) (selftestRequest cfg 0 108)).2.Settled (promptVals cfg prefill.gen) := by
    have hkeeps := @draft_drafts cfg M (draft 0) st _ (selftestRequest cfg 0 108) hset trivial (injects_nil _ _) hnoise rfl
    simpa using hkeeps.2
  constructor
  · rintro ⟨t, st', t', st'', h, h'⟩
    obtain ⟨hnoise, hgood, rfl⟩ := (hfirst t st').mp h
    obtain ⟨hchunk, hnoise', hgood', -⟩ := (hsecond t t' _ st'' (hset' hnoise)).mp h'
    exact ⟨hnoise, hchunk, hnoise', t, t', hgood, hgood'⟩
  · rintro ⟨hnoise, hchunk, hnoise', t, t', hgood, hgood'⟩
    exact ⟨t, _, t', _, (hfirst t _).mpr ⟨hnoise, hgood, rfl⟩,
      (hsecond t t' _ _ (hset' hnoise)).mpr ⟨hchunk, hnoise', hgood', rfl⟩⟩

end DsparkEdge
