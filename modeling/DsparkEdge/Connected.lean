import DsparkEdge.DrafterSpec

/-! The server half connected through an initialised client to some stub: what `begin` and `draft` do to
    the server and to the other end, whatever the stub answers.

        begin   net ─reset─▶ net'
        draft   net ─prefill─▶ ─draft─▶ net'      the first time in a generation
                net ─draft─▶ net'                 later                                  -/

namespace DsparkEdge

variable {δ : Type*}

/-- Connected to a session with `net` at the other end, every packet under its own position. -/
structure Server.Connected (session : ℕ) (net : δ) (s : Server (Client δ)) : Prop where
  client : ∃ c, s.drafter = some c ∧ c.Ready session ∧ c.net = net
  keyed : Keyed s.feats
  nSent_ge : -1 ≤ s.nSent
  unsent : s.prefilled = false → s.nSent = -1

/-- The request on the wire, `base` being the position sent before. -/
def wireRequest (p : SpecParams) (session stepId : ℕ) (dp : DraftParams) (base : ℤ)
    (tokens : List TokenFeatures) : DraftRequest where
  sessionId := session
  stepId := stepId
  acceptedTokens := tokens
  position := base.toNat
  maxDraftTokens := toUint32 (min p.nMax p.blockSize)
  greedy := true
  anchorToken := dp.idLast

/-- A call of `draft()` that sent its request: `res` came back, `net` is at the other end. -/
structure Drafted (session : ℕ) (dp : DraftParams) (res : DraftResponse) (s : Server (Client δ))
    (out : Server (Client δ) × List ℤ) (net : δ) : Prop where
  client : ∃ c, out.1.drafter = some c ∧ c.Ready session ∧ c.net = net
  feats : out.1.feats = s.feats
  prefilled : out.1.prefilled = true
  nSent : out.1.nSent = dp.nPast - 1
  stepId : out.1.stepId = s.stepId + 1
  tokens : out.2 = if res.ok then res.draftTokens else []

variable {p : SpecParams} {session : ℕ} {net : δ} {s : Server (Client δ)}

theorem fresh_connected (session : ℕ) (net : δ) (golden : Option GoldenDir) :
    (Server.fresh (⟨session, true, 0, golden, net⟩ : Client δ)).Connected session net :=
  ⟨⟨_, rfl, ⟨rfl, rfl⟩, rfl⟩, fun _ _ h => (Option.some_ne_none _ h.symm).elim, le_rfl, fun _ => rfl⟩

theorem process_connected (h : s.Connected session net) (p : SpecParams) (layerInp : LayerInp)
    (batch : LlamaBatch) : (s.process p layerInp batch).2 =
      { s with feats := store s.feats (packetsOf p layerInp batch) } := by
  obtain ⟨⟨c, hc, -⟩, -, -, -⟩ := h
  exact process_eq p layerInp batch hc

/-- `begin` forgets what was sent, trims the packets and issues one Reset, whatever comes of it. -/
theorem begin_connected (h : s.Connected session net) (S : Stub δ) (prompt : List ℤ) :
    ∃ c, c.Ready session ∧ c.net = (S.reset net ⟨session⟩).1 ∧ s.begin (grpcDrafter S) prompt =
      ⟨some c, fun pos => if prompt.length ≤ pos then none else s.feats pos, false, -1, -1, 0,
        s.stats⟩ := by
  obtain ⟨⟨c, hc, hready, rfl⟩, -, -, -⟩ := h
  obtain ⟨hready', hnet⟩ := client_reset S hready
  exact ⟨_, hready', hnet, by rw [Server.begin, hc]; rfl⟩

theorem Server.Connected.stored (h : s.Connected session net) (packets : List TokenFeatures) :
    Server.Connected session net { s with feats := store s.feats packets } :=
  ⟨h.client, keyed_store h.keyed _, h.nSent_ge, h.unsent⟩

/-- Taking a step id for a request that is not sent. -/
theorem Server.Connected.skipped (h : s.Connected session net) (nPast stepId : ℕ) :
    Server.Connected session net { s.account nPast with stepId := stepId } :=
  ⟨h.client, h.keyed, h.nSent_ge, h.unsent⟩

/-- Nothing happens for a call in which no sequence drafts. -/
theorem draft_none (D : DsparkDrafter δ) (p : SpecParams) {dparams : List DraftParams}
    (hdp : dparams.find? DraftParams.drafting = none) (s : Server δ) :
    s.draft D p dparams = (s, []) := by
  rw [Server.draft, hdp]
  cases s.drafter <;> rfl

/-- A missing packet stops the call before any RPC. -/
theorem draft_missing (h : s.Connected session net) (S : Stub δ) (p : SpecParams)
    {dparams : List DraftParams} {dp : DraftParams}
    (hdp : dparams.find? DraftParams.drafting = some dp) (hship : s.toShip dp.nPast = none) :
    s.draft (grpcDrafter S) p dparams =
      ({ s.account dp.nPast with stepId := if s.prefilled then s.stepId + 1 else s.stepId }, []) := by
  obtain ⟨⟨c, hc, -⟩, -, -, -⟩ := h
  rw [Server.draft, hdp, hc]
  simp only [draftFor_missing _ p hc hship]

theorem send_drafted (S : Stub δ) (dp : DraftParams) (base : ℤ) (tokens : List TokenFeatures)
    {c : Client δ} (hready : c.Ready session) :
    let r := S.draft c.net (wireRequest p session (s.stepId + 1) dp base tokens)
    Drafted session dp (clientResponse r.2.1 r.2.2) s (s.send (grpcDrafter S) p dp base tokens c)
      r.1 := by
  obtain ⟨hready', hnet, hres⟩ := client_draft S hready (s.request p dp base tokens)
  refine ⟨⟨_, rfl, hready', hnet⟩, rfl, rfl, rfl, rfl, ?_⟩
  exact congrArg (fun res : DraftResponse => if res.ok then res.draftTokens else []) hres

/-- The first draft of a generation sends the prompt and an empty request. -/
theorem draft_first (h : s.Connected session net) (S : Stub δ) (p : SpecParams)
    {dparams : List DraftParams} {dp : DraftParams}
    (hdp : dparams.find? DraftParams.drafting = some dp) (hp : s.prefilled = false)
    {tokens : List TokenFeatures} (hship : s.toShip dp.nPast = some tokens) :
    let r := S.draft (S.prefill net ⟨session, tokens, true⟩).1
      (wireRequest p session (s.stepId + 1) dp (dp.nPast - 1) [])
    Drafted session dp (clientResponse r.2.1 r.2.2) s (s.draft (grpcDrafter S) p dparams) r.1 := by
  obtain ⟨⟨c, hc, hready, rfl⟩, -, -, -⟩ := h
  obtain ⟨hready', hnet, -⟩ := client_prefill S hready tokens true
  rw [draft_eq_first _ p hc hdp hp hship, ← hnet]
  exact send_drafted S dp _ [] hready'

/-- A later draft sends the positions committed since. -/
theorem draft_later (h : s.Connected session net) (S : Stub δ) (p : SpecParams)
    {dparams : List DraftParams} {dp : DraftParams}
    (hdp : dparams.find? DraftParams.drafting = some dp) (hp : s.prefilled = true)
    {tokens : List TokenFeatures} (hship : s.toShip dp.nPast = some tokens) :
    let r := S.draft net (wireRequest p session (s.stepId + 1) dp s.nSent tokens)
    Drafted session dp (clientResponse r.2.1 r.2.2) s (s.draft (grpcDrafter S) p dparams) r.1 := by
  obtain ⟨⟨c, hc, hready, rfl⟩, -, -, -⟩ := h
  rw [draft_eq_later _ p hc hdp hp hship]
  exact send_drafted S dp _ tokens hready

theorem Drafted.connected {dp : DraftParams} {res : DraftResponse}
    {out : Server (Client δ) × List ℤ} {net' : δ} (h : Drafted session dp res s out net')
    (hk : Keyed s.feats) : out.1.Connected session net' where
  client := h.client
  keyed := by rw [h.feats]; exact hk
  nSent_ge := by rw [h.nSent]; omega
  unsent := fun hp => by rw [h.prefilled] at hp; cases hp

/-- What the next request has to bring along are the positions committed but not counted as sent. -/
theorem toShip_eq (h : s.Connected session net) (nPast : ℕ) :
    ∃ start n : ℕ, s.toShip nPast = gatherFrom s.feats start n ∧
      (start : ℤ) = s.nSent + 1 ∧ (n : ℤ) = max 0 (nPast - (s.nSent + 1)) := by
  have hge := h.nSent_ge
  cases hp : s.prefilled with
  | false =>
    have := h.unsent hp
    exact ⟨0, nPast, toShip_first hp nPast, by omega, by omega⟩
  | true => exact ⟨_, _, toShip_later hp nPast, by omega, by omega⟩

theorem toShip_positions (h : s.Connected session net) {nPast : ℕ} {tokens : List TokenFeatures}
    (hship : s.toShip nPast = some tokens) (pos : ℕ) :
    (∃ tf ∈ tokens, tf.position = pos) ↔ s.nSent < pos ∧ pos < nPast := by
  obtain ⟨start, n, hgather, hstart, hn⟩ := toShip_eq h nPast
  rw [hgather] at hship
  constructor
  · rintro ⟨tf, htf, rfl⟩
    obtain ⟨hlo, hhi, -⟩ := mem_gatherFrom h.keyed hship htf
    omega
  · rintro ⟨hlo, hhi⟩
    have hmem : s.feats pos ∈ (List.range' start n).map s.feats :=
      List.mem_map_of_mem (List.mem_range'_1.mpr ⟨by omega, by omega⟩)
    rw [← gatherFrom_eq_some.mp hship] at hmem
    obtain ⟨tf, htf, hfeats⟩ := List.mem_map.mp hmem
    exact ⟨tf, htf, h.keyed pos tf hfeats.symm⟩

end DsparkEdge
