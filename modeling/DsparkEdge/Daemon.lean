import DsparkEdge.Connected
import DsparkEdge.Service

/-! The server half talking to one session of the daemon. The daemon keeps, besides its session, two
    ghosts: the calls it handled, each with the session it met, and the events it queued for the watch
    renderer.

        server ──Prefill, Draft, Reset──▶ session
                 a Reset may not arrive, or be refused -/

namespace DsparkEdge

/-- A handled call: the request, what llama.cpp did during it, and the session it met. -/
inductive Served where
  | prefill (req : PrefillRequest) (calls : LlamaCalls) (before : Session)
  | draft (req : DraftRequest) (calls : LlamaCalls) (before : Session)
  | reset (before : Session)

def Served.isReset : Served → Bool
  | .reset _ => true
  | _ => false

structure Daemon where
  session : Session
  served : List Served
  events : List WatchEvent

def Daemon.fresh : Daemon := ⟨.fresh, [], []⟩

/-- What becomes of a Reset: it is executed, it does not arrive, or it is answered `ok = false`. -/
inductive Fate where
  | delivered
  | undelivered
  | refused
  deriving DecidableEq, Repr

/-- What happens to the RPCs of one call of the server half. -/
structure Link where
  prefill : LlamaCalls
  draft : LlamaCalls
  reset : Fate

/-- Everything arrives and succeeds, in a call of generation `gen`. -/
def Link.lossless (gen : ℕ) : Link := ⟨.succeed gen, .succeed gen, .delivered⟩

def Daemon.prefill (cfg : ModelConfig) (calls : LlamaCalls) (req : PrefillRequest) (d : Daemon) :
    Daemon :=
  let r := d.session.prefill cfg calls req
  ⟨r.2.2, d.served ++ [.prefill req calls d.session], d.events ++ r.2.1⟩

def Daemon.draft (cfg : ModelConfig) (M : DraftModel) (calls : LlamaCalls) (req : DraftRequest)
    (d : Daemon) : Daemon :=
  let r := d.session.draft cfg M calls req
  ⟨r.2.2, d.served ++ [.draft req calls d.session], d.events ++ r.2.1⟩

def Daemon.reset (d : Daemon) : Daemon :=
  let r := d.session.reset
  ⟨r.2.2, d.served ++ [.reset d.session], d.events ++ r.2.1⟩

/-- The stub of a client of this daemon. -/
def daemonStub (cfg : ModelConfig) (M : DraftModel) (l : Link) : Stub Daemon where
  prefill d req := (d.prefill cfg l.prefill req, .ok, (d.session.prefill cfg l.prefill req).1)
  draft d req := (d.draft cfg M l.draft req, .ok, (d.session.draft cfg M l.draft req).1)
  reset d _ :=
    match l.reset with
    | .delivered => (d.reset, .ok, d.session.reset.1)
    | .undelivered => (d, .failed "unavailable", {})
    | .refused => (d, .ok, {})

abbrev Edge := Server (Client Daemon)

/-- The server right after the handshake, the session just created. -/
def Edge.fresh (session : ℕ) (golden : Option GoldenDir) : Edge :=
  Server.fresh ⟨session, true, 0, golden, .fresh⟩

/-- The daemon at the other end. -/
def Edge.daemon (s : Edge) : Daemon := (s.drafter.map Client.net).getD .fresh

/-- The handshake's numbers, as the server configures itself with them. -/
def handshake (cfg : ModelConfig) (nMax : ℤ) (endian : Endian) : SpecParams :=
  ⟨nMax, cfg.targetLayerIds, cfg.hiddenSize, cfg.blockSize, endian⟩

inductive EdgeEvent where
  | process (layerInp : LayerInp) (batch : LlamaBatch)
  | begin (l : Link) (prompt : List ℤ)
  | draft (l : Link) (dparams : List DraftParams)

def Edge.step (cfg : ModelConfig) (M : DraftModel) (p : SpecParams) (s : Edge) : EdgeEvent → Edge
  | .process layerInp batch => (s.process p layerInp batch).2
  | .begin l prompt => s.begin (grpcDrafter (daemonStub cfg M l)) prompt
  | .draft l dparams => (s.draft (grpcDrafter (daemonStub cfg M l)) p dparams).1

/-- Connected to a session, the daemon at the other end. -/
def Edge.Live (session : ℕ) (s : Edge) : Prop := s.Connected session s.daemon

variable {cfg : ModelConfig} {M : DraftModel} {p : SpecParams} {session : ℕ} {s : Edge}

theorem edge_fresh_live (session : ℕ) (golden : Option GoldenDir) :
    (Edge.fresh session golden).Live session := fresh_connected session Daemon.fresh golden

theorem edge_of_connected {d : Daemon} (h : s.Connected session d) : s.daemon = d ∧ s.Live session := by
  obtain ⟨c, hc, -, hnet⟩ := h.client
  have hd : s.daemon = d := by rw [Edge.daemon, hc]; exact hnet
  exact ⟨hd, by rw [Edge.Live, hd]; exact h⟩

theorem edge_process (cfg : ModelConfig) (M : DraftModel) (p : SpecParams) (h : s.Live session)
    (layerInp : LayerInp) (batch : LlamaBatch) :
    s.step cfg M p (.process layerInp batch) =
      { s with feats := store s.feats (packetsOf p layerInp batch) } :=
  process_connected h p layerInp batch

/-- A new generation: the server forgets what it sent, the daemon resets if the Reset arrives. -/
structure Begun (session : ℕ) (s s' : Edge) (prompt : List ℤ) (l : Link) : Prop where
  live : s'.Live session
  daemon : s'.daemon = if l.reset = .delivered then s.daemon.reset else s.daemon
  feats : ∀ pos, s'.feats pos = if prompt.length ≤ pos then none else s.feats pos
  prefilled : s'.prefilled = false
  nSent : s'.nSent = -1
  stepId : s'.stepId = 0

theorem edge_begin (cfg : ModelConfig) (M : DraftModel) (p : SpecParams) (h : s.Live session) (l : Link)
    (prompt : List ℤ) :
    Begun session s (s.step cfg M p (.begin l prompt)) prompt l := by
  obtain ⟨c, hready, hnet, heq⟩ := begin_connected h (daemonStub cfg M l) prompt
  have hstep : s.step cfg M p (.begin l prompt) = _ := heq
  rw [hstep]
  refine ⟨⟨⟨c, rfl, hready, rfl⟩, keyed_trim h.keyed _, le_rfl, fun _ => rfl⟩, ?_, fun _ => rfl, rfl,
    rfl, rfl⟩
  have hd : Edge.daemon ⟨some c, fun pos => if prompt.length ≤ pos then none else s.feats pos, false,
      -1, -1, 0, s.stats⟩ = c.net := rfl
  rw [hd, hnet, daemonStub]
  simp only
  cases l.reset <;> rfl

/-- A call of `draft()` whose request the daemon handled, `d` being the daemon just before. -/
structure Handled (cfg : ModelConfig) (M : DraftModel) (session : ℕ) (dp : DraftParams)
    (calls : LlamaCalls) (req : DraftRequest) (d : Daemon) (s : Edge) (out : Edge × List ℤ) :
    Prop where
  live : out.1.Live session
  daemon : out.1.daemon = d.draft cfg M calls req
  feats : out.1.feats = s.feats
  prefilled : out.1.prefilled = true
  nSent : out.1.nSent = dp.nPast - 1
  stepId : out.1.stepId = s.stepId + 1
  tokens : out.2 = if (d.session.draft cfg M calls req).1.ok then
    (d.session.draft cfg M calls req).1.draftTokens else []

theorem handled_of_drafted (hk : Keyed s.feats) {dp : DraftParams} {calls : LlamaCalls}
    {req : DraftRequest} {d : Daemon} {out : Edge × List ℤ}
    (h : Drafted session dp (clientResponse .ok (d.session.draft cfg M calls req).1) s out
      (d.draft cfg M calls req)) : Handled cfg M session dp calls req d s out := by
  obtain ⟨hd, hlive⟩ := edge_of_connected (h.connected hk)
  exact ⟨hlive, hd, h.feats, h.prefilled, h.nSent, h.stepId, h.tokens⟩

/-- What a call of `draft()` with a drafting sequence can come to. -/
theorem edge_draft_cases (cfg : ModelConfig) (M : DraftModel) (p : SpecParams) (h : s.Live session)
    (l : Link) {dparams : List DraftParams} {dp : DraftParams}
    (hdp : dparams.find? DraftParams.drafting = some dp) :
    (s.toShip dp.nPast = none ∧ s.draft (grpcDrafter (daemonStub cfg M l)) p dparams =
      ({ s.account dp.nPast with stepId := if s.prefilled then s.stepId + 1 else s.stepId }, [])) ∨
    ∃ tokens, s.toShip dp.nPast = some tokens ∧
      (s.prefilled = false ∧ Handled cfg M session dp l.draft
          (wireRequest p session (s.stepId + 1) dp (dp.nPast - 1) [])
          (s.daemon.prefill cfg l.prefill ⟨session, tokens, true⟩) s
          (s.draft (grpcDrafter (daemonStub cfg M l)) p dparams) ∨
        s.prefilled = true ∧ Handled cfg M session dp l.draft
          (wireRequest p session (s.stepId + 1) dp s.nSent tokens) s.daemon s
          (s.draft (grpcDrafter (daemonStub cfg M l)) p dparams)) := by
  cases hship : s.toShip dp.nPast with
  | none => exact Or.inl ⟨rfl, draft_missing h _ p hdp hship⟩
  | some tokens =>
    right
    refine ⟨tokens, rfl, ?_⟩
    cases hp : s.prefilled with
    | false =>
      exact Or.inl ⟨rfl, handled_of_drafted h.keyed (draft_first h (daemonStub cfg M l) p hdp hp hship)⟩
    | true =>
      exact Or.inr ⟨rfl, handled_of_drafted h.keyed (draft_later h (daemonStub cfg M l) p hdp hp hship)⟩

theorem edge_live_step (cfg : ModelConfig) (M : DraftModel) (p : SpecParams) (h : s.Live session)
    (e : EdgeEvent) : (s.step cfg M p e).Live session := by
  cases e with
  | process layerInp batch =>
    rw [edge_process cfg M p h layerInp batch]
    exact h.stored _
  | begin l prompt => exact (edge_begin cfg M p h l prompt).live
  | draft l dparams =>
    cases hdp : dparams.find? DraftParams.drafting with
    | none =>
      rw [Edge.step, draft_none _ p hdp]
      exact h
    | some dp =>
      rcases edge_draft_cases cfg M p h l hdp with ⟨-, heq⟩ | ⟨tokens, -, ⟨-, hs⟩ | ⟨-, hs⟩⟩
      · rw [Edge.step, heq]
        exact h.skipped _ _
      · exact hs.live
      · exact hs.live

/-- The calls a step made the daemon handle. -/
def Edge.newlyServed (cfg : ModelConfig) (M : DraftModel) (p : SpecParams) (s : Edge)
    (e : EdgeEvent) : List Served :=
  (s.step cfg M p e).daemon.served.drop s.daemon.served.length

/-- A call of `draft()` makes the daemon handle at most a Prefill and the Draft of its sequence. -/
theorem newlyServed_draft (cfg : ModelConfig) (M : DraftModel) (p : SpecParams) (h : s.Live session)
    (l : Link) {dparams : List DraftParams} {dp : DraftParams}
    (hdp : dparams.find? DraftParams.drafting = some dp) :
    ∀ e ∈ s.newlyServed cfg M p (.draft l dparams), (∃ req calls before, e = .prefill req calls before) ∨
      ∃ base tokens before, e = .draft (wireRequest p session (s.stepId + 1) dp base tokens) l.draft
        before := by
  rcases edge_draft_cases cfg M p h l hdp with ⟨-, heq⟩ | ⟨tokens, -, ⟨-, hs⟩ | ⟨-, hs⟩⟩
  · have hnone : s.newlyServed cfg M p (.draft l dparams) = [] := by
      rw [Edge.newlyServed, Edge.step, heq]
      exact List.drop_length ..
    simp [hnone]
  · have hlog : s.newlyServed cfg M p (.draft l dparams) =
        [.prefill ⟨session, tokens, true⟩ l.prefill s.daemon.session,
          .draft (wireRequest p session (s.stepId + 1) dp (dp.nPast - 1) []) l.draft
            (s.daemon.prefill cfg l.prefill ⟨session, tokens, true⟩).session] := by
      rw [Edge.newlyServed, Edge.step, hs.daemon]
      simp [Daemon.draft, Daemon.prefill]
    rw [hlog]
    intro e he
    rcases List.mem_cons.mp he with rfl | he
    · exact Or.inl ⟨_, _, _, rfl⟩
    · rw [List.mem_singleton.mp he]
      exact Or.inr ⟨_, _, _, rfl⟩
  · have hlog : s.newlyServed cfg M p (.draft l dparams) =
        [.draft (wireRequest p session (s.stepId + 1) dp s.nSent tokens) l.draft s.daemon.session] := by
      rw [Edge.newlyServed, Edge.step, hs.daemon]
      simp [Daemon.draft]
    rw [hlog]
    intro e he
    rw [List.mem_singleton.mp he]
    exact Or.inr ⟨_, _, _, rfl⟩

end DsparkEdge
