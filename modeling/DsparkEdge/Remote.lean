import DsparkEdge.Connected
import DsparkEdge.Lib.Runs

/-! The server half against an arbitrary edge: every RPC is recorded and answered from a script. Any
    order of `begin`, `process` and `draft` calls is a run, with any pattern of replies.

        process  ─▶ packets              begin ─▶ Reset             draft ─▶ (Prefill) Draft

    The packets a draft can ship are determined by the history alone: the last batch that decoded a
    position, unless a later `begin` trimmed it away (`lastCapture`). -/

namespace DsparkEdge

open Runs

/-- A request that left the server, and whether its reply said ok. -/
inductive Sent where
  | prefill (req : PrefillRequest) (ok : Bool)
  | draft (req : DraftRequest) (ok : Bool)
  | reset (req : ResetRequest) (ok : Bool)
  deriving DecidableEq, Repr

def Sent.ok : Sent → Bool
  | .prefill _ ok => ok
  | .draft _ ok => ok
  | .reset _ ok => ok

/-- The packets a request carries. -/
def Sent.tokens : Sent → List TokenFeatures
  | .prefill req _ => req.tokens
  | .draft req _ => req.acceptedTokens
  | .reset _ _ => []

def Sent.isReset : Sent → Bool
  | .reset .. => true
  | _ => false

/-- How the RPCs of one call are answered. -/
structure Replies where
  prefill : Status × PrefillResponse
  draft : Status × DraftResponse
  reset : Status × ResetResponse

def Replies.prefillOk (r : Replies) : Bool := r.prefill.1.isOk && r.prefill.2.ok

def Replies.draftOk (r : Replies) : Bool := r.draft.1.isOk && r.draft.2.ok

def Replies.resetOk (r : Replies) : Bool := r.reset.1.isOk && r.reset.2.ok

/-- Every RPC succeeds, a Draft with the tokens `ids`. -/
def draftReplies (ids : List ℤ) : Replies :=
  ⟨(.ok, ⟨true, 0⟩), (.ok, { draftTokens := ids, ok := true }), (.ok, ⟨true⟩)⟩

/-- A stub that records the request and replies from the script. -/
def scriptedStub (r : Replies) : Stub (List Sent) where
  prefill log req := (log ++ [.prefill req r.prefillOk], r.prefill)
  draft log req := (log ++ [.draft req r.draftOk], r.draft)
  reset log req := (log ++ [.reset req r.resetOk], r.reset)

abbrev Remote := Server (Client (List Sent))

/-- The server right after a handshake that returned `session`. -/
def Remote.fresh (session : ℕ) : Remote := Server.fresh ⟨session, true, 0, none, []⟩

/-- The requests sent so far. -/
def Remote.log (s : Remote) : List Sent := (s.drafter.map Client.net).getD []

inductive RemoteEvent where
  | process (layerInp : LayerInp) (batch : LlamaBatch)
  | begin (r : Replies) (prompt : List ℤ)
  | draft (r : Replies) (dparams : List DraftParams)

def Remote.step (p : SpecParams) (s : Remote) : RemoteEvent → Remote
  | .process layerInp batch => (s.process p layerInp batch).2
  | .begin r prompt => s.begin (grpcDrafter (scriptedStub r)) prompt
  | .draft r dparams => (s.draft (grpcDrafter (scriptedStub r)) p dparams).1

/-! ### One event -/

/-- Connected to a session, the log at the other end. -/
def Remote.Live (session : ℕ) (s : Remote) : Prop := s.Connected session s.log

theorem fresh_live (session : ℕ) : (Remote.fresh session).Live session :=
  fresh_connected session [] none

variable {p : SpecParams} {session : ℕ} {s : Remote}

theorem live_of_connected {log : List Sent} (h : s.Connected session log) :
    s.log = log ∧ s.Live session := by
  obtain ⟨c, hc, -, hnet⟩ := h.client
  have hlog : s.log = log := by rw [Remote.log, hc]; exact hnet
  exact ⟨hlog, by rw [Remote.Live, hlog]; exact h⟩

theorem step_process (h : s.Live session) (layerInp : LayerInp) (batch : LlamaBatch) :
    s.step p (.process layerInp batch) =
      { s with feats := store s.feats (packetsOf p layerInp batch) } :=
  process_connected h p layerInp batch

/-- `begin` records its Reset. -/
theorem step_begin (h : s.Live session) (r : Replies) (prompt : List ℤ) :
    (s.step p (.begin r prompt)).log = s.log ++ [.reset ⟨session⟩ r.resetOk] ∧
      ∃ c, c.Ready session ∧ s.step p (.begin r prompt) =
        ⟨some c, fun pos => if prompt.length ≤ pos then none else s.feats pos, false, -1, -1, 0,
          s.stats⟩ := by
  obtain ⟨c, hready, hnet, heq⟩ := begin_connected h (scriptedStub r) prompt
  have hstep : s.step p (.begin r prompt) = _ := heq
  refine ⟨?_, c, hready, hstep⟩
  rw [hstep]
  exact hnet

theorem step_draft_none (r : Replies) {dparams : List DraftParams}
    (hdp : dparams.find? DraftParams.drafting = none) : s.step p (.draft r dparams) = s := by
  rw [Remote.step, draft_none _ p hdp]

theorem step_draft_missing (h : s.Live session) (r : Replies) {dparams : List DraftParams}
    {dp : DraftParams} (hdp : dparams.find? DraftParams.drafting = some dp)
    (hship : s.toShip dp.nPast = none) : s.step p (.draft r dparams) =
      { s.account dp.nPast with stepId := if s.prefilled then s.stepId + 1 else s.stepId } := by
  rw [Remote.step, draft_missing h _ p hdp hship]

/-- A call of `draft()` that sent the requests `sent`. -/
structure DraftSent (dp : DraftParams) (session : ℕ) (s s' : Remote) (sent : List Sent) : Prop where
  live : s'.Live session
  log : s'.log = s.log ++ sent
  feats : s'.feats = s.feats
  prefilled : s'.prefilled = true
  nSent : s'.nSent = dp.nPast - 1
  stepId : s'.stepId = s.stepId + 1

theorem draftSent_of_drafted (h : s.Live session) {dp : DraftParams} {res : DraftResponse}
    {out : Remote × List ℤ} {sent : List Sent}
    (hd : Drafted session dp res s out (s.log ++ sent)) : DraftSent dp session s out.1 sent := by
  obtain ⟨hlog, hlive⟩ := live_of_connected (hd.connected h.keyed)
  exact ⟨hlive, hlog, hd.feats, hd.prefilled, hd.nSent, hd.stepId⟩

/-- What a call of `draft()` with a drafting sequence can come to. -/
theorem step_draft_cases (h : s.Live session) (r : Replies) {dparams : List DraftParams}
    {dp : DraftParams} (hdp : dparams.find? DraftParams.drafting = some dp) :
    (s.toShip dp.nPast = none ∧ s.step p (.draft r dparams) =
      { s.account dp.nPast with stepId := if s.prefilled then s.stepId + 1 else s.stepId }) ∨
    ∃ tokens, s.toShip dp.nPast = some tokens ∧
      (s.prefilled = false ∧ DraftSent dp session s (s.step p (.draft r dparams))
          [.prefill ⟨session, tokens, true⟩ r.prefillOk,
            .draft (wireRequest p session (s.stepId + 1) dp (dp.nPast - 1) []) r.draftOk] ∨
        s.prefilled = true ∧ DraftSent dp session s (s.step p (.draft r dparams))
          [.draft (wireRequest p session (s.stepId + 1) dp s.nSent tokens) r.draftOk]) := by
  cases hship : s.toShip dp.nPast with
  | none => exact Or.inl ⟨rfl, step_draft_missing h r hdp hship⟩
  | some tokens =>
    right
    refine ⟨tokens, rfl, ?_⟩
    cases hp : s.prefilled with
    | false =>
      have hd := draft_first h (scriptedStub r) p hdp hp hship
      simp only [scriptedStub, List.append_assoc] at hd
      exact Or.inl ⟨rfl, draftSent_of_drafted h hd⟩
    | true =>
      have hd := draft_later h (scriptedStub r) p hdp hp hship
      exact Or.inr ⟨rfl, draftSent_of_drafted h hd⟩

/-- No event loses the connection. -/
theorem live_step (h : s.Live session) (e : RemoteEvent) : (s.step p e).Live session := by
  cases e with
  | process layerInp batch =>
    rw [step_process h]
    exact h.stored _
  | begin r prompt =>
    obtain ⟨-, c, hready, heq⟩ := step_begin (p := p) h r prompt
    rw [heq]
    exact ⟨⟨c, rfl, hready, rfl⟩, keyed_trim h.keyed _, le_rfl, fun _ => rfl⟩
  | draft r dparams =>
    cases hdp : dparams.find? DraftParams.drafting with
    | none => rwa [step_draft_none r hdp]
    | some dp =>
      rcases step_draft_cases (p := p) h r hdp with ⟨-, heq⟩ | ⟨tokens, -, ⟨-, hs⟩ | ⟨-, hs⟩⟩
      · rw [heq]; exact h.skipped _ _
      · exact hs.live
      · exact hs.live

theorem live_exec (session : ℕ) (es : List RemoteEvent) :
    (exec (Remote.step p) (.fresh session) es).Live session := by
  induction es using List.reverseRecOn with
  | nil => exact fresh_live session
  | append_singleton es e ih =>
    rw [exec_append]
    exact live_step ih e

end DsparkEdge
