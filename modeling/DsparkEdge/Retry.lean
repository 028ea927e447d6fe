import DsparkEdge.EngineRuns
import DsparkEdge.Positions

/-! What a failed call leaves behind, and what sending the same packets again then does.

    A failed Prefill keeps its marks but not its cache: the chunks before the failing one stay, the
    failing decode may leave cells of its own, and `prefill` does not truncate, so a retry appends
    the same positions a second time.

        first call:  chunk 0 ok, chunk 1 fails     cells ++ chunk 0
        retry:       chunk 0 ok, chunk 1 ok        cells ++ chunk 0 ++ chunk 0 ++ chunk 1

    A failed Draft has consumed its step id. Its packets are either all refused, and the next
    Draft truncates whatever they left, or all confirmed, when only the noise decode failed. Which marks
    that leaves is told for positions that fit `llama_pos`: beyond them the cast would move the mark. -/

namespace DsparkEdge

open Blocks SeqCache

/-! ### Where an injection fails -/

/-- A packet of the chunk fails the size check, and there is a tap layer to unpack it for. -/
def Malformed (cfg : ModelConfig) (chunk : List TokenFeatures) : Prop :=
  0 < cfg.rowLen ∧ ∃ tf ∈ chunk, ¬SizeOk cfg tf

instance decidableMalformed (cfg : ModelConfig) (chunk : List TokenFeatures) :
    Decidable (Malformed cfg chunk) := inferInstanceAs (Decidable (_ ∧ _))

theorem packChunk_error_iff (cfg : ModelConfig) (chunk : List TokenFeatures) :
    packChunk cfg chunk = .error () ↔ Malformed cfg chunk := by
  constructor
  · intro h
    by_contra hok
    have hbuf : ∃ buf, packChunk cfg chunk = .ok buf := by
      rcases Nat.eq_zero_or_pos cfg.targetLayerIds.length with hL | hL
      · exact ⟨_, by rw [packChunk, hL]; rfl⟩
      · refine packChunk_of_size fun tf htf => ?_
        by_contra hs
        exact hok ⟨Nat.mul_pos hL cfg.hidden_pos, tf, htf, hs⟩
    obtain ⟨buf, hbuf⟩ := hbuf
    rw [h] at hbuf; cases hbuf
  · rintro ⟨hpos, tf, htf, hs⟩
    cases hpack : packChunk cfg chunk with
    | error => rfl
    | ok buf => exact absurd (sizeOk_of_packChunk hpack hpos tf htf) hs

/-- The first chunk is the one that fails, and its decode leaves no cell of it. -/
def FailsClean (cfg : ModelConfig) (calls : LlamaCalls) (sent : List TokenFeatures) : Prop :=
  let chunk := sent.take cfg.nUbatch
  Malformed cfg chunk ∨
    match calls.chunk 0 with
    | .ok => False
    | .encodeFails => True
    | .noOutput => True
    | .decodeFails left => leftOver calls.gen (packetCells cfg calls.gen chunk) left = []

/-- Whether an injection succeeds does not depend on the cache. -/
theorem injectLoop_flag (cfg : ModelConfig) (calls : LlamaCalls) (chunks : List (List TokenFeatures))
    (j : ℕ) (cells cells' : Cache) :
    (injectLoop cfg calls j chunks cells).1 = (injectLoop cfg calls j chunks cells').1 := by
  induction chunks generalizing j cells cells' with
  | nil => rfl
  | cons chunk rest ih =>
    rw [injectLoop, injectLoop]
    cases packChunk cfg chunk with
    | error => rfl
    | ok buf =>
      cases calls.chunk j with
      | ok => exact ih (j + 1) _ _
      | encodeFails => rfl
      | noOutput => rfl
      | decodeFails left => rfl

/-- A failing injection leaves the cache as it was exactly when its first chunk fails clean. -/
theorem failed_cells_iff {cfg : ModelConfig} {calls : LlamaCalls} {sent : List TokenFeatures}
    {cells : Cache} (hfail : (injectFeatures cfg calls sent cells).1 = false) :
    (injectFeatures cfg calls sent cells).2 = cells ↔ FailsClean cfg calls sent := by
  have hne : sent ≠ [] := by
    rintro rfl
    rw [injectFeatures, chunks_nil cfg.ubatch_pos] at hfail
    cases hfail
  rw [injectFeatures, chunks_eq_cons cfg.ubatch_pos hne] at hfail ⊢
  rw [injectLoop] at hfail ⊢
  unfold FailsClean
  simp only
  cases hpack : packChunk cfg (sent.take cfg.nUbatch) with
  | error =>
    have hmal := (packChunk_error_iff cfg _).mp hpack
    simp [hmal]
  | ok buf =>
    have hmal : ¬Malformed cfg (sent.take cfg.nUbatch) := by
      rw [← packChunk_error_iff, hpack]
      simp
    simp only [hpack, hmal, false_or, injectBatch_eq hpack] at hfail ⊢
    cases hchunk : calls.chunk 0 with
    | encodeFails => simp
    | noOutput => simp
    | decodeFails left => simp
    | ok =>
      -- the first chunk is in the cache, so whatever fails later leaves it there
      simp only [hchunk, zero_add, iff_false] at hfail ⊢
      have htake : packetCells cfg calls.gen (sent.take cfg.nUbatch) ≠ [] := by
        simpa [packetCells, cfg.ubatch_pos.ne'] using hne
      rcases injectLoop_cases cfg calls (chunks cfg.nUbatch (sent.drop cfg.nUbatch)) 1
          (cells ++ packetCells cfg calls.gen (sent.take cfg.nUbatch)) with heq | ⟨junk, heq, -⟩
      · rw [heq] at hfail; cases hfail
      · rw [heq]; simp [htake]

/-! ### Prefill -/

/-- Whether a prefill succeeds does not depend on the cache either. -/
theorem prefill_flag (cfg : ModelConfig) (calls : LlamaCalls) (tokens : List TokenFeatures)
    (st st' : Engine) : (st.prefill cfg calls tokens).1 = (st'.prefill cfg calls tokens).1 := by
  have hflag := injectLoop_flag cfg calls (chunks cfg.nUbatch tokens) 0 st.cells st'.cells
  unfold Engine.prefill injectFeatures
  simp only [hflag]
  split <;> rfl

/-- The cache, the mark and the last token agree. -/
def SameCache (st st' : Engine) : Prop :=
  st.cells = st'.cells ∧ st.kvConfirmedMax = st'.kvConfirmedMax ∧ st.lastTokenId = st'.lastTokenId

instance decidableSameCache (st st' : Engine) : Decidable (SameCache st st') :=
  inferInstanceAs (Decidable (_ ∧ _))

theorem prefill_failed {cfg : ModelConfig} {calls : LlamaCalls} {sent : List TokenFeatures}
    {st : Engine} (hfail : (st.prefill cfg calls sent).1 = false) :
    (st.prefill cfg calls sent).2.2 =
        { st with cells := (injectFeatures cfg calls sent st.cells).2 } ∧
      (injectFeatures cfg calls sent st.cells).1 = false := by
  unfold Engine.prefill at hfail ⊢
  cases hinj : (injectFeatures cfg calls sent st.cells).1 with
  | false => simp [hinj]
  | true => simp [hinj] at hfail

/-- What a retry adds stands behind what the failed call left. -/
theorem sameCache_append_iff (cfg : ModelConfig) (gen : ℕ) (tokens : List TokenFeatures)
    (st : Engine) (cells : Cache) :
    SameCache ({ st with cells := cells ++ packetCells cfg gen tokens }.advance tokens)
        ({ st with cells := st.cells ++ packetCells cfg gen tokens }.advance tokens) ↔
      cells = st.cells := by
  unfold SameCache Engine.advance
  cases tokens.getLast? with
  | none => simp
  | some tf => simp

/-- RETRY: in every engine state, after a failed prefill the successful one succeeds too, and ends in
    the state of one prefill that never failed exactly when the failed call's first chunk was the
    one that failed, and left nothing. -/
theorem prefill_retry_iff (cfg : ModelConfig) (calls calls' : LlamaCalls)
    (sent tokens : List TokenFeatures) (st : Engine)
    (hfail : (st.prefill cfg calls sent).1 = false)
    (hok : (st.prefill cfg calls' tokens).1 = true) :
    ((st.prefill cfg calls sent).2.2.prefill cfg calls' tokens).1 = true ∧
      (SameCache ((st.prefill cfg calls sent).2.2.prefill cfg calls' tokens).2.2
          (st.prefill cfg calls' tokens).2.2 ↔
        FailsClean cfg calls sent) := by
  obtain ⟨hst, hinj⟩ := prefill_failed hfail
  have hretry : ((st.prefill cfg calls sent).2.2.prefill cfg calls' tokens).1 = true := by
    rw [prefill_flag cfg calls' tokens _ st]; exact hok
  refine ⟨hretry, ?_⟩
  rw [hst] at hretry ⊢
  rw [prefill_of_ok hok, prefill_of_ok hretry, ← failed_cells_iff hinj]
  exact sameCache_append_iff cfg calls'.gen tokens st _

/-- Three prompt tokens, in micro-batches of two. -/
def threeTokens : List TokenFeatures := [⟨7, 0, [1, 2]⟩, ⟨8, 1, [3, 4]⟩, ⟨9, 2, [5, 6]⟩]

/-- The encode of chunk `j` fails. -/
def encodeFailsAt (j : ℕ) : LlamaCalls := ⟨1, fun i => if i = j then .encodeFails else .ok, .ok⟩

/-- The second chunk's encode fails on a fresh engine: the retry doubles positions 0 and 1. -/
theorem late_failure_doubles : ¬∀ (cfg : ModelConfig) (M : DraftModel) (calls : LlamaCalls) (gen : ℕ)
    (tokens : List TokenFeatures) (st : Engine), Reached cfg M false st →
    PositionsFrom (st.kvConfirmedMax + 1) tokens → (∀ tf ∈ tokens, SizeOk cfg tf) →
    (st.prefill cfg calls tokens).1 = false →
    SameCache ((st.prefill cfg calls tokens).2.2.prefill cfg (.succeed gen) tokens).2.2
      (st.prefill cfg (.succeed gen) tokens).2.2 := by
  intro h
  have hsame := h smallConfig (constModel [5]) (encodeFailsAt 1) 1 threeTokens Engine.fresh.reset
    (.reset .fresh) ⟨rfl, rfl, rfl, trivial⟩ (by decide) (by decide)
  revert hsame
  decide

/-- When the first chunk's encode fails, the retry is as good as new; when the second's does, not. -/
theorem prefill_retry_small :
    SameCache
        ((Engine.fresh.prefill smallConfig (encodeFailsAt 0) threeTokens).2.2.prefill smallConfig
          (.succeed 1) threeTokens).2.2
        (Engine.fresh.prefill smallConfig (.succeed 1) threeTokens).2.2 ∧
      ¬SameCache
        ((Engine.fresh.prefill smallConfig (encodeFailsAt 1) threeTokens).2.2.prefill smallConfig
          (.succeed 1) threeTokens).2.2
        (Engine.fresh.prefill smallConfig (.succeed 1) threeTokens).2.2 := by
  have hclean : FailsClean smallConfig (encodeFailsAt 0) threeTokens := Or.inr trivial
  have hlate : ¬FailsClean smallConfig (encodeFailsAt 1) threeTokens := by
    rintro (hmal | hchunk)
    · exact absurd hmal (by decide)
    · exact hchunk
  exact ⟨(prefill_retry_iff smallConfig (encodeFailsAt 0) (.succeed 1) threeTokens threeTokens
      Engine.fresh (by decide) (by decide)).2.mpr hclean,
    fun h => hlate ((prefill_retry_iff smallConfig (encodeFailsAt 1) (.succeed 1) threeTokens
      threeTokens Engine.fresh (by decide) (by decide)).2.mp h)⟩

/-! ### Draft -/

theorem sampleLoop_ok (cfg : ModelConfig) (conf : Option (ℕ → F32)) (cands : ℕ → List (ℤ × F32))
    (m i : ℕ) (res : DraftResponse) : (sampleLoop cfg conf cands m i res).ok = res.ok := by
  induction m generalizing i res with
  | zero => rfl
  | succ m ih =>
    rw [sampleLoop]
    split
    · rfl
    · split
      · rfl
      · rw [ih]

/-- A draft whose packets were accepted fails in its noise decode or not at all. -/
theorem draft_noise_failed {cfg : ModelConfig} (M : DraftModel) {calls : LlamaCalls}
    (req : StepRequest) {st st1 : Engine}
    (hacc : st.accept cfg calls req.acceptedTokens = (true, st1))
    (hfail : (st.draft cfg M calls req).1.ok = false) :
    (st.draft cfg M calls req).1.error = "noise decode failed" := by
  unfold Engine.draft at hfail ⊢
  rw [hacc] at hfail ⊢
  simp only [if_true] at hfail ⊢
  unfold Engine.runDraft at hfail ⊢
  simp only at hfail ⊢
  cases hnoise : calls.noise with
  | fails left => rfl
  | ok => simp [hnoise, sampleLoop_ok] at hfail

/-- What an engine's next draft does depends on the confirmed cells and the marks only. -/
theorem draft_of_confirmed (cfg : ModelConfig) (M : DraftModel) (calls : LlamaCalls)
    (req : StepRequest) (st : Engine) {cells : Cache}
    (h : seqRm cells (st.kvConfirmedMax + 1) = st.confirmed) :
    Engine.draft cfg M calls req { st with cells := cells } = st.draft cfg M calls req := by
  have hacc : Engine.accept cfg calls req.acceptedTokens { st with cells := cells } =
      st.accept cfg calls req.acceptedTokens := by
    unfold Engine.accept
    rw [Engine.confirmed] at h
    simp only [h]
  unfold Engine.draft
  rw [hacc]

/-- Refused packets beyond the mark leave nothing that the next truncation keeps. -/
theorem seqRm_confirmed_junk {st : Engine} {gen : ℕ} {tokens : List TokenFeatures} {junk : Cache}
    (hjunk : Junk gen tokens junk) (hpos : ∀ tf ∈ tokens, st.kvConfirmedMax < tf.position) :
    seqRm (st.confirmed ++ junk) (st.kvConfirmedMax + 1) = st.confirmed := by
  have hself : seqRm st.confirmed (st.kvConfirmedMax + 1) = st.confirmed :=
    seqRm_eq_self fun c hc => (mem_seqRm.mp hc).2
  rw [seqRm_append, hself, seqRm_eq_nil, List.append_nil]
  intro c hc
  obtain ⟨⟨tf, htf, hcpos⟩, -⟩ := hjunk c hc
  have := hpos tf htf
  omega

/-- What a refused draft leaves of a session: the step id is consumed, the marks stay, and for packets
    beyond the mark every later step is served as if the refused one had not been sent. -/
structure Refused (cfg : ModelConfig) (M : DraftModel) (req : DraftRequest) (s s' : Session) : Prop where
  mark : s'.engine.kvConfirmedMax = s.engine.kvConfirmedMax
  last : s'.engine.lastTokenId = s.engine.lastTokenId
  served : (∀ tf ∈ req.acceptedTokens, s.engine.kvConfirmedMax < tf.position) →
    ∀ (calls : LlamaCalls) (req' : DraftRequest), req.stepId < req'.stepId →
      s'.draft cfg M calls req' = s.draft cfg M calls req'

/-- What a failed noise decode leaves: the packets are confirmed like those of a successful draft. -/
structure Confirmed (req : DraftRequest) (s s' : Session) : Prop where
  last : ∀ tf, req.acceptedTokens.getLast? = some tf →
    s'.engine.kvConfirmedMax = llamaPos tf.position ∧ llamaPos tf.position = tf.position ∧
      s'.engine.lastTokenId = tf.token
  none : req.acceptedTokens = [] → s'.engine.kvConfirmedMax = s.engine.kvConfirmedMax ∧
    s'.engine.lastTokenId = s.engine.lastTokenId

/-- FAILED DRAFT: a fresh step answered `ok=false`, on a session whose positions are `int32`s and with packets
    whose positions fit, has consumed its step id and left every position an `int32`. Its packets were refused
    and the marks stand where they stood, or its packets were confirmed and only the noise block
    failed; the reply's error says which. -/
theorem failed_draft_leaves (cfg : ModelConfig) (M : DraftModel) (calls : LlamaCalls)
    (req : DraftRequest) (s : Session) (hrange : s.engine.InRange cfg) (hfit : cfg.FitsAll req.acceptedTokens)
    (hfresh : s.lastStepId < req.stepId) (hfail : (s.draft cfg M calls req).1.ok = false) :
    let reply := (s.draft cfg M calls req).1
    let s' := (s.draft cfg M calls req).2.2
    s'.lastStepId = req.stepId ∧ s'.engine.InRange cfg ∧
      (reply.error = "feature injection failed" ∧ Refused cfg M req s s' ∨
        reply.error = "noise decode failed" ∧ Confirmed req s s') := by
  have hrange' := session_draft_inRange M calls hfit hrange
  rw [draft_executed cfg M calls hfresh] at hfail hrange' ⊢
  refine ⟨rfl, hrange', ?_⟩
  rcases accept_ends cfg calls req.acceptedTokens s.engine with hacc | ⟨junk, hacc, hjunk⟩
  · right
    obtain ⟨noise, -, -, hkv, hlast⟩ := draft_accepted M (.ofWire req) hacc
    refine ⟨draft_noise_failed M (.ofWire req) hacc hfail, fun tf htf => ?_,
      fun hnil => ⟨by rw [hkv]; simp [Engine.advance, hnil], by rw [hlast]; simp [Engine.advance, hnil]⟩⟩
    have hcast : llamaPos tf.position = tf.position := llamaPos_eq (hfit tf (List.mem_of_getLast? htf))
    exact ⟨by rw [hkv, hcast]; simp [Engine.advance, htf], hcast, by rw [hlast]; simp [Engine.advance, htf]⟩
  · left
    rw [draft_refused M (.ofWire req) hacc]
    refine ⟨rfl, rfl, rfl, fun hpos calls' req' hlater => ?_⟩
    rw [draft_executed cfg M calls' hlater, draft_executed cfg M calls' (hfresh.trans hlater)]
    simp only [draft_of_confirmed cfg M calls' _ s.engine (seqRm_confirmed_junk hjunk hpos)]

/-- The first step of a session, with one accepted token. -/
def firstStep : DraftRequest := ⟨1, 1, [⟨7, 0, [1, 2]⟩], 0, 4, true, 9⟩

/-- Only the noise decode fails. -/
def noiseFails : LlamaCalls := ⟨1, fun _ => .ok, .fails []⟩

/-- A failed noise decode on a fresh session moves the step guard, the mark and the last token. -/
theorem failed_noise_moves_marks : ¬∀ (cfg : ModelConfig) (M : DraftModel) (calls : LlamaCalls)
    (req : DraftRequest) (s : Session), s.lastStepId < req.stepId →
    (s.draft cfg M calls req).1.ok = false →
    (s.draft cfg M calls req).2.2.engine.kvConfirmedMax = s.engine.kvConfirmedMax ∧
      (s.draft cfg M calls req).2.2.engine.lastTokenId = s.engine.lastTokenId ∧
      (s.draft cfg M calls req).2.2.lastStepId = s.lastStepId := by
  intro h
  have hsame := h smallConfig (constModel [5]) noiseFails firstStep .fresh (by decide) (by decide)
  revert hsame
  decide

/-- On a fresh session: a failed encode refuses the packet, a failed noise decode confirms it. -/
theorem failed_draft_leaves_small :
    Refused smallConfig (constModel [5]) firstStep .fresh
        (Session.fresh.draft smallConfig (constModel [5]) (encodeFailsAt 0) firstStep).2.2 ∧
      Confirmed firstStep .fresh
        (Session.fresh.draft smallConfig (constModel [5]) noiseFails firstStep).2.2 := by
  have hfresh : Session.fresh.engine.InRange smallConfig := fresh_inRange (by decide)
  have hencode := (failed_draft_leaves smallConfig (constModel [5]) (encodeFailsAt 0) firstStep
    .fresh hfresh (by decide) (by decide) (by decide)).2.2
  have hnoise := (failed_draft_leaves smallConfig (constModel [5]) noiseFails firstStep
    .fresh hfresh (by decide) (by decide) (by decide)).2.2
  constructor
  · rcases hencode with ⟨-, h⟩ | ⟨herr, -⟩
    · exact h
    · exact absurd herr (by decide)
  · rcases hnoise with ⟨herr, -⟩ | ⟨-, h⟩
    · exact absurd herr (by decide)
    · exact h

end DsparkEdge
