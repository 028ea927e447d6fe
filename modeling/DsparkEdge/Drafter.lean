import DsparkEdge.Capture
import DsparkEdge.Client

/-! The server half (`common_speculative_impl_draft_remote_dspark`): it keeps the packet of every
    decoded position, ships the prompt with the first draft of a generation and the newly committed
    positions with each later one.

        begin    ── forget what was sent, drop packets beyond the prompt, Reset
        process  ── feats[pos] := packet
        draft    ── account ─▶ ship prefill (once) ─▶ next request ─▶ Draft ─▶ settle

    `n_sent` never drops below `-1` and the committed count `n_past` is a natural number, so every
    position `gather` looks up is one. -/

namespace DsparkEdge

/-- The process-global metrics (`remote_dspark_stats`), less the durations. -/
structure Stats where
  connected : Bool := false
  draftBlocks : ℕ := 0
  draftTokens : ℕ := 0
  acceptedTokens : ℕ := 0
  fallbackSteps : ℕ := 0
  grpcCalls : ℕ := 0
  deriving DecidableEq, Repr

/-- What one sequence asks of `draft()`. -/
structure DraftParams where
  drafting : Bool
  nPast : ℕ
  idLast : ℤ
  deriving DecidableEq, Repr

abbrev Feats := ℕ → Option TokenFeatures

/-- The drafter's state; without a session there is no `drafter`. -/
structure Server (δ : Type*) where
  drafter : Option δ
  feats : Feats
  prefilled : Bool
  nSent : ℤ
  prevNPast : ℤ
  stepId : ℕ
  stats : Stats

variable {δ : Type*}

/-- A freshly constructed drafter over a session in state `d`. -/
def Server.fresh (d : δ) : Server δ := ⟨some d, fun _ => none, false, -1, -1, 0, { connected := true }⟩

/-- A new generation begins. -/
def Server.begin (D : DsparkDrafter δ) (prompt : List ℤ) (s : Server δ) : Server δ :=
  { s with
    prefilled := false
    nSent := -1
    prevNPast := -1
    stepId := 0
    feats := fun pos => if prompt.length ≤ pos then none else s.feats pos
    drafter := s.drafter.map fun d => (D.reset d).1 }

/-- `feats[tf.position] = tf`, packet after packet. -/
def store (feats : Feats) (packets : List TokenFeatures) : Feats :=
  packets.foldl (fun f tf => Function.update f tf.position (some tf)) feats

/-- Keep the packets of a decoded batch. A missing tap layer fails the call, an undefined capture
    stores nothing. -/
def Server.process (p : SpecParams) (layerInp : LayerInp) (batch : LlamaBatch) (s : Server δ) :
    Bool × Server δ :=
  match s.drafter, batch with
  | none, _ => (true, s)
  | some _, .embd _ => (true, s)
  | some _, .tokens entries =>
    if entries.isEmpty then (true, s)
    else
      match capture p layerInp entries with
      | .error _ => (false, s)
      | .ok packets => (true, { s with feats := store s.feats packets })

/-- The packets of `n` positions from `pos` on, all of which must be there. -/
def gatherFrom (feats : Feats) : ℕ → ℕ → Option (List TokenFeatures)
  | _, 0 => some []
  | pos, n + 1 =>
    match feats pos with
    | none => none
    | some tf => (gatherFrom feats (pos + 1) n).map (tf :: ·)

/-- The packets of positions `lo .. hi`. -/
def gather (feats : Feats) (lo hi : ℤ) : Option (List TokenFeatures) :=
  gatherFrom feats lo.toNat (hi + 1 - lo).toNat

/-- Acceptance accounting: of the tokens committed since the previous draft one is the freshly
    sampled one. -/
def Server.account (nPast : ℕ) (s : Server δ) : Server δ :=
  let accepted := nPast - s.prevNPast - 1
  { s with
    prevNPast := nPast
    stats :=
      if 0 ≤ s.prevNPast ∧ 0 < accepted then
        { s.stats with acceptedTokens := s.stats.acceptedTokens + accepted.toNat }
      else s.stats }

/-- Ship the prompt before the first request of a generation. The reply is not looked at. `none` when
    a position is missing. -/
def Server.shipPrefill (D : DsparkDrafter δ) (nPast : ℕ) (d : δ) (s : Server δ) :
    Option (δ × Server δ) :=
  if s.prefilled then some (d, s)
  else
    match gather s.feats 0 (nPast - 1) with
    | none => none
    | some tokens => some ((D.prefill d tokens true).1, { s with prefilled := true, nSent := nPast - 1 })

/-- The request of the next step. The step id is taken even when a position is missing. -/
def Server.nextRequest (p : SpecParams) (dp : DraftParams) (s : Server δ) :
    Option StepRequest × Server δ :=
  let s' := { s with stepId := s.stepId + 1 }
  match gather s.feats (s.nSent + 1) (dp.nPast - 1) with
  | none => (none, s')
  | some tokens =>
    (some
      { sessionId := 0
        stepId := s.stepId + 1
        position := s.nSent.toNat
        maxDraftTokens := min p.nMax p.blockSize
        greedy := true
        anchorToken := dp.idLast
        acceptedTokens := tokens },
      { s' with nSent := dp.nPast - 1 })

/-- Account for a reply; a failed draft is a fallback step. -/
def Server.settle (res : DraftResponse) (s : Server δ) : Server δ :=
  { s with
    stats :=
      if res.ok then
        { s.stats with
          connected := true
          grpcCalls := s.stats.grpcCalls + 1
          draftBlocks := s.stats.draftBlocks + 1
          draftTokens := s.stats.draftTokens + res.draftTokens.length }
      else
        { s.stats with
          connected := false
          grpcCalls := s.stats.grpcCalls + 1
          fallbackSteps := s.stats.fallbackSteps + 1 } }

/-- `draft()` for the sequence that wants one: the state after it and the tokens it appends to the
    sequence's result. -/
def Server.draftFor (D : DsparkDrafter δ) (p : SpecParams) (dp : DraftParams) (d : δ)
    (s : Server δ) : Server δ × List ℤ :=
  match (s.account dp.nPast).shipPrefill D dp.nPast d with
  | none => (s.account dp.nPast, [])
  | some (d₁, s₁) =>
    match s₁.nextRequest p dp with
    | (none, s₂) => ({ s₂ with drafter := some d₁ }, [])
    | (some req, s₂) =>
      let r := D.draft d₁ req
      ({ s₂ with drafter := some r.1 }.settle r.2, if r.2.ok then r.2.draftTokens else [])

/-- `draft()`: for the first sequence that wants one. -/
def Server.draft (D : DsparkDrafter δ) (p : SpecParams) (dparams : List DraftParams)
    (s : Server δ) : Server δ × List ℤ :=
  match s.drafter, dparams.find? DraftParams.drafting with
  | none, _ => (s, [])
  | some _, none => (s, [])
  | some d, some dp => s.draftFor D p dp d

/-! ### A small server -/

/-- One tap layer of width one, blocks of four. -/
def smallParams : SpecParams := ⟨4, [0], 1, 4, .little⟩

/-- A tap layer of zeros, for a batch of `n` tokens. -/
def zeroLayer (n : ℕ) : LayerInp := fun _ => some (List.replicate n 0)

end DsparkEdge
