import DsparkEdge.Daemon
import DsparkEdge.EngineSpec
import DsparkEdge.Lib.Runs

/-! The first token of the noise block, which the server means to be its last sampled one. The wire
    field has no presence, and the engine takes 0 for "not set" and falls back to the last token it
    confirmed.

        server  id_last ──anchor_token──▶ daemon   ≠ 0: block [id_last,    mask, …]
                                                   = 0: block [last_token, mask, …]

    Token 0 is a token like any other, so the two differ whenever it is sampled behind another. -/

namespace DsparkEdge

open Runs SeqCache

/-! ### The block of one Draft -/

/-- The Draft is executed, its packets are injected, and the block it asks for is not empty. -/
def Session.Decodes (cfg : ModelConfig) (calls : LlamaCalls) (req : DraftRequest) (s : Session) : Prop :=
  s.lastStepId < req.stepId ∧ (s.engine.accept cfg calls req.acceptedTokens).1 = true ∧
    0 < cfg.nDraft (toInt32 req.maxDraftTokens)

instance decidableDecodes (cfg : ModelConfig) (calls : LlamaCalls) (req : DraftRequest) (s : Session) :
    Decidable (s.Decodes cfg calls req) := inferInstanceAs (Decidable (_ ∧ _))

/-- The noise block the daemon decodes for a Draft. -/
def Session.block (cfg : ModelConfig) (calls : LlamaCalls) (req : DraftRequest) (s : Session) : Cache :=
  let a := s.engine.accept cfg calls req.acceptedTokens
  if s.lastStepId < req.stepId ∧ a.1 = true then
    noiseBatch cfg calls.gen (a.2.anchor (.ofWire req)) (toInt32 req.maxDraftTokens) a.2.cells
  else []

/-- It is what a draft adds to the cache behind the injected packets. -/
theorem draft_decodes_block (cfg : ModelConfig) (M : DraftModel) {calls : LlamaCalls}
    (hnoise : calls.noise = .ok) {req : DraftRequest} {s : Session} (hfresh : s.lastStepId < req.stepId) :
    (s.draft cfg M calls req).2.2.engine.cells =
      (s.engine.accept cfg calls req.acceptedTokens).2.cells ++ s.block cfg calls req := by
  rw [draft_executed cfg M calls hfresh]
  rcases hacc : s.engine.accept cfg calls req.acceptedTokens with ⟨ok, st1⟩
  cases ok with
  | false => simp [draft_refused M (.ofWire req) hacc, Session.block, hacc]
  | true =>
    simp [Engine.draft, Engine.runDraft, hnoise, Session.block, hacc, hfresh, StepRequest.ofWire]

/-- The last token the daemon has confirmed once `tokens` are injected. -/
def Session.lastToken (tokens : List TokenFeatures) (s : Session) : ℤ :=
  (tokens.getLast?.map TokenFeatures.token).getD s.engine.lastTokenId

theorem accept_lastTokenId {cfg : ModelConfig} {calls : LlamaCalls} {tokens : List TokenFeatures}
    {s : Session} (h : (s.engine.accept cfg calls tokens).1 = true) :
    (s.engine.accept cfg calls tokens).2.lastTokenId = s.lastToken tokens := by
  rcases accept_ends cfg calls tokens s.engine with heq | ⟨junk, heq, -⟩
  · rw [heq, Session.lastToken, Engine.advance]
    cases tokens.getLast? with
    | none => simp
    | some tf => simp
  · rw [heq] at h; cases h

theorem noiseBatch_head {cfg : ModelConfig} {n : ℤ} (h : 0 < cfg.nDraft n) (gen : ℕ) (anchor : ℤ)
    (cells : Cache) :
    (noiseBatch cfg gen anchor n cells).head? = some ⟨seqPosMax cells + 1, .noise gen anchor⟩ := by
  obtain ⟨m, hm⟩ := Nat.exists_eq_succ_of_ne_zero h.ne'
  simp [noiseBatch, hm, List.range_succ_eq_map, consec]

/-- A Draft that decodes nothing has no block. -/
theorem block_of_not_decodes {cfg : ModelConfig} {calls : LlamaCalls} {req : DraftRequest} {s : Session}
    (h : ¬s.Decodes cfg calls req) : s.block cfg calls req = [] := by
  by_cases hrun : s.lastStepId < req.stepId ∧ (s.engine.accept cfg calls req.acceptedTokens).1 = true
  · have hzero : cfg.nDraft (toInt32 req.maxDraftTokens) = 0 := by
      by_contra hpos
      exact h ⟨hrun.1, hrun.2, Nat.pos_of_ne_zero hpos⟩
    simp [Session.block, noiseBatch, hzero]
  · simp only [Session.block, if_neg hrun]

/-- The block, if any, starts with the request's anchor unless that is 0 and the last token is not. -/
theorem first_token_iff (cfg : ModelConfig) (calls : LlamaCalls) (req : DraftRequest) (s : Session) :
    (∀ c ∈ (s.block cfg calls req).head?, c.val = .noise calls.gen req.anchorToken) ↔
      (s.Decodes cfg calls req → req.anchorToken = 0 → s.lastToken req.acceptedTokens = 0) := by
  by_cases hdec : s.Decodes cfg calls req
  · obtain ⟨hfresh, hacc, hpos⟩ := id hdec
    have hanchor : (s.engine.accept cfg calls req.acceptedTokens).2.anchor (.ofWire req) =
        if req.anchorToken ≠ 0 then req.anchorToken else s.lastToken req.acceptedTokens := by
      rw [Engine.anchor, accept_lastTokenId hacc]
      rfl
    simp only [Session.block, hfresh, hacc, and_self, if_true, noiseBatch_head hpos, hanchor, hdec,
      Option.mem_def, Option.some.injEq, forall_eq', CellVal.noise.injEq, true_and, true_implies]
    by_cases h0 : req.anchorToken = 0
    · simp [h0]
    · simp [h0]
  · simp [hdec, block_of_not_decodes hdec]

/-! ### Runs -/

/-- The block of a handled Draft, if it decodes one, starts with `idLast`. -/
def AnchoredOn (cfg : ModelConfig) (idLast : ℤ) : Served → Prop
  | .draft req calls before => ∀ c ∈ (before.block cfg calls req).head?, c.val = .noise calls.gen idLast
  | _ => True

/-- A handled Draft that decodes a block is not asked to start it with token 0 behind another token. -/
def NotZeroBehind (cfg : ModelConfig) (idLast : ℤ) : Served → Prop
  | .draft req calls before =>
    before.Decodes cfg calls req → idLast = 0 → before.lastToken req.acceptedTokens = 0
  | _ => True

/-- `P id_last` holds of every call that a step makes the daemon handle. -/
def EveryServed (cfg : ModelConfig) (M : DraftModel) (p : SpecParams) (P : ℤ → Served → Prop) (s : Edge) :
    EdgeEvent → Prop
  | .draft l dparams => ∀ dp, dparams.find? DraftParams.drafting = some dp →
      ∀ e ∈ s.newlyServed cfg M p (.draft l dparams), P dp.idLast e
  | _ => True

theorem anchored_step (cfg : ModelConfig) (M : DraftModel) (p : SpecParams) {session : ℕ} {s : Edge}
    (h : s.Live session) (e : EdgeEvent) :
    EveryServed cfg M p (AnchoredOn cfg) s e ↔ EveryServed cfg M p (NotZeroBehind cfg) s e := by
  cases e with
  | process layerInp batch => exact Iff.rfl
  | begin l prompt => exact Iff.rfl
  | draft l dparams =>
    refine forall_congr' fun dp => forall_congr' fun hdp => forall₂_congr fun e he => ?_
    rcases newlyServed_draft cfg M p h l hdp e he with ⟨req, calls, before, rfl⟩ | ⟨base, tokens, before, rfl⟩
    · exact Iff.rfl
    · exact first_token_iff cfg l.draft (wireRequest p session (s.stepId + 1) dp base tokens) before

/-- ANCHOR: along any run, whatever is lost and whatever fails, the noise block of every Draft starts
    with the token the server sampled last exactly when no Draft that decodes a block carries token 0
    while the last token the daemon confirmed is another one. -/
theorem anchored_iff (cfg : ModelConfig) (M : DraftModel) (p : SpecParams) (session : ℕ)
    (golden : Option GoldenDir) (es : List EdgeEvent) :
    Along (Edge.step cfg M p) (EveryServed cfg M p (AnchoredOn cfg)) (.fresh session golden) es ↔
      Along (Edge.step cfg M p) (EveryServed cfg M p (NotZeroBehind cfg)) (.fresh session golden) es :=
  along_iff_free (Edge.Live session) (fun _ e h _ => edge_live_step cfg M p h e)
    (fun _ e h => anchored_step cfg M p h e) (edge_fresh_live session golden) es

/-- A prompt of token 7, behind which the target samples token 0. -/
def sampledZero : List EdgeEvent :=
  [.process (zeroLayer 1) (.tokens [(7, 0)]), .begin (.lossless 1) [7], .draft (.lossless 1) [⟨true, 1, 0⟩]]

/-- The block starts with 7 instead. -/
theorem zero_anchor_replaced :
    ¬Along (Edge.step smallConfig (constModel [5]) smallParams)
      (EveryServed smallConfig (constModel [5]) smallParams (AnchoredOn smallConfig)) (.fresh 1 none)
      sampledZero := by
  rintro ⟨-, -, hanchored, -⟩
  have hblock := hanchored ⟨true, 1, 0⟩ rfl _ (List.mem_of_getElem? (i := 1) rfl) _ rfl
  exact absurd hblock (by decide)

end DsparkEdge
