import DsparkEdge.Engine

/-! One session of the edge daemon (`grpc_service.cpp`): the RPC handlers around the engine, with the
    replay guard and the events they queue for the watch renderer.

        Prefill  accepted ─▶ engine.prefill
        Draft    step_id ≤ last_step_id? reject : engine.draft ─▶ verdict, draft
        Reset    engine.reset, last_step_id := 0 ─▶ reset

    A handler is one atomic step: it holds the session's mutex throughout. -/

namespace DsparkEdge

/-- An event in the watch renderer's queue. -/
inductive WatchEvent where
  | accepted (tokens : List ℤ)
  | draft (tokens : List ℤ)
  | verdict (tokens : List ℤ)
  | reset
  deriving DecidableEq, Repr

/-- `on_accepted` drops an empty list. -/
def onAccepted (tokens : List ℤ) : List WatchEvent :=
  if tokens.isEmpty then [] else [.accepted tokens]

structure Session where
  engine : Engine
  lastStepId : ℕ
  deriving DecidableEq, Repr

/-- The session `InitSession` creates around a new engine. -/
def Session.fresh : Session := ⟨.fresh, 0⟩

def Session.prefill (cfg : ModelConfig) (calls : LlamaCalls) (req : PrefillRequest) (s : Session) :
    PrefillResponse × List WatchEvent × Session :=
  let r := s.engine.prefill cfg calls req.tokens
  (⟨r.1, r.2.1⟩, onAccepted (req.tokens.map TokenFeatures.token), { s with engine := r.2.2 })

/-- Only a request with a step id above every earlier one is executed. -/
def Session.draft (cfg : ModelConfig) (M : DraftModel) (calls : LlamaCalls) (req : DraftRequest)
    (s : Session) : DraftResponse × List WatchEvent × Session :=
  if req.stepId ≤ s.lastStepId then ({ error := "stale step_id" }, [], s)
  else
    let r := s.engine.draft cfg M calls (.ofWire req)
    (r.1, [.verdict (req.acceptedTokens.map TokenFeatures.token), .draft r.1.draftTokens],
      ⟨r.2, req.stepId⟩)

def Session.reset (s : Session) : ResetResponse × List WatchEvent × Session :=
  (⟨true⟩, [.reset], ⟨s.engine.reset, 0⟩)

/-- A stale request is answered without touching the session. -/
theorem draft_stale (cfg : ModelConfig) (M : DraftModel) (calls : LlamaCalls) {req : DraftRequest}
    {s : Session} (h : req.stepId ≤ s.lastStepId) :
    s.draft cfg M calls req = ({ error := "stale step_id" }, [], s) := if_pos h

/-- A request past the guard is executed, and raises the guard to its own step id. -/
theorem draft_executed (cfg : ModelConfig) (M : DraftModel) (calls : LlamaCalls)
    {req : DraftRequest} {s : Session} (h : s.lastStepId < req.stepId) :
    s.draft cfg M calls req =
      ((s.engine.draft cfg M calls (.ofWire req)).1,
        [.verdict (req.acceptedTokens.map TokenFeatures.token),
          .draft (s.engine.draft cfg M calls (.ofWire req)).1.draftTokens],
        ⟨(s.engine.draft cfg M calls (.ofWire req)).2, req.stepId⟩) :=
  if_neg (Nat.not_le.mpr h)

end DsparkEdge
