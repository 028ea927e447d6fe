import DsparkEdge.Lib.Locks
import DsparkEdge.Sessions

/-! The daemon's service at the grain of its mutexes (`grpc_service.cpp`). Every handler is a thread; a step
    takes or releases one mutex, touches the map once, or does one stage of a call: one chunk of an
    injection, the truncation of the cache, the guard, one event for the renderer.

        sessions_mtx_   call ─▶ looking ─▶ located ─▶ found            Prefill, Draft give it back
                                   └─────────────────▶ found           Reset keeps it to its end
        session's mtx   found ─▶ inside prefill, inject … ─▶ replied
                              ─▶ inside guard, truncate, accept …, noise, keep, verdict, preview ─▶ replied
                              ─▶ inside clear, restart ─▶ unlocked ─▶ notified ─▶ replied

    A step that wants a mutex somebody holds changes nothing. The renderer's own mutex is taken last and
    alone, so an event is queued in one step. In the queue an event carries, as a ghost, the session it
    came from. -/

namespace DsparkEdge

open Blocks SeqCache

/-! ### A call in stages -/

/-- One turn of the encode/decode loop. -/
def injectChunk (cfg : ModelConfig) (calls : LlamaCalls) (j : ℕ) (chunk : List TokenFeatures)
    (cells : Cache) : Bool × Cache :=
  match packChunk cfg chunk with
  | .error _ => (false, cells)
  | .ok buf =>
    match calls.chunk j with
    | .encodeFails => (false, cells)
    | .noOutput => (false, cells)
    | .decodeFails left => (false, cells ++ leftOver calls.gen (injectBatch cfg calls.gen chunk buf) left)
    | .ok => (true, cells ++ injectBatch cfg calls.gen chunk buf)

/-- What a handler does next inside its session's lock; `rest` are the chunks still to inject. -/
inductive Stage where
  | prefill (req : PrefillRequest) (calls : LlamaCalls)
  | inject (req : PrefillRequest) (calls : LlamaCalls) (j : ℕ) (rest : List (List TokenFeatures))
  | guard (req : DraftRequest) (calls : LlamaCalls)
  | truncate (req : DraftRequest) (calls : LlamaCalls)
  | accept (req : DraftRequest) (calls : LlamaCalls) (j : ℕ) (rest : List (List TokenFeatures))
  | noise (req : DraftRequest) (calls : LlamaCalls)
  | keep (req : DraftRequest) (res : DraftResponse)
  | verdict (req : DraftRequest) (res : DraftResponse)
  | preview (res : DraftResponse)
  | clear
  | restart
  | done (reply : SessionReply)

def Stage.start : SessionCall → Stage
  | .prefill req calls => .prefill req calls
  | .draft req calls => .guard req calls
  | .reset _ => .clear

def Session.withCells (cells : Cache) (s : Session) : Session :=
  { s with engine := { s.engine with cells := cells } }

/-- The reply to a draft whose accepted packets could not be injected. -/
def injectionFailed (req : DraftRequest) : DraftResponse :=
  { sessionId := req.sessionId, stepId := req.stepId, error := "feature injection failed" }

/-- One stage: the session after it, the events it queued, the next stage. -/
def Stage.step (cfg : ModelConfig) (M : DraftModel) (s : Session) :
    Stage → Session × List WatchEvent × Stage
  | .prefill req calls =>
    (s, onAccepted (req.tokens.map TokenFeatures.token), .inject req calls 0 (chunks cfg.nUbatch req.tokens))
  | .inject req calls j (chunk :: rest) =>
    let r := injectChunk cfg calls j chunk s.engine.cells
    (s.withCells r.2, [], if r.1 then .inject req calls (j + 1) rest else .done (.prefill ⟨false, 0⟩))
  | .inject req _ _ [] =>
    ({ s with engine := s.engine.advance req.tokens }, [],
      .done (.prefill ⟨true, (req.tokens.getLast?.map fun tf => tf.position + 1).getD 0⟩))
  | .guard req calls =>
    if req.stepId ≤ s.lastStepId then (s, [], .done (.draft { error := "stale step_id" }))
    else ({ s with lastStepId := req.stepId }, [], .truncate req calls)
  | .truncate req calls =>
    (s.withCells (seqRm s.engine.cells (s.engine.kvConfirmedMax + 1)), [],
      .accept req calls 0 (chunks cfg.nUbatch req.acceptedTokens))
  | .accept req calls j (chunk :: rest) =>
    let r := injectChunk cfg calls j chunk s.engine.cells
    (s.withCells r.2, [], if r.1 then .accept req calls (j + 1) rest else .verdict req (injectionFailed req))
  | .accept req calls _ [] =>
    ({ s with engine := s.engine.advance req.acceptedTokens }, [], .noise req calls)
  | .noise req calls =>
    let r := s.engine.runDraft cfg M calls (s.engine.anchor (.ofWire req)) (toInt32 req.maxDraftTokens)
    ({ s with engine := r.2 }, [], .keep req { r.1 with sessionId := req.sessionId, stepId := req.stepId })
  | .keep req res =>
    ({ s with engine := { s.engine with lastDraft := res.draftTokens, lastStepId := req.stepId } }, [],
      .verdict req res)
  | .verdict req res => (s, [.verdict (req.acceptedTokens.map TokenFeatures.token)], .preview res)
  | .preview res => (s, [.draft res.draftTokens], .done (.draft res))
  | .clear => ({ s with engine := s.engine.reset }, [], .restart)
  | .restart => ({ s with lastStepId := 0 }, [], .done (.reset ⟨true⟩))
  | .done reply => (s, [], .done reply)

/-- The stages from `st` on queue `evs`, reply `reply` and leave the session `s'`. -/
inductive Finishes (cfg : ModelConfig) (M : DraftModel) :
    Session → Stage → List WatchEvent → SessionReply → Session → Prop
  | done (s : Session) (reply : SessionReply) : Finishes cfg M s (.done reply) [] reply s
  | step {s : Session} {st : Stage} {evs : List WatchEvent} {reply : SessionReply} {s' : Session}
      (hst : ∀ reply, st ≠ .done reply)
      (h : Finishes cfg M (st.step cfg M s).1 (st.step cfg M s).2.2 evs reply s') :
      Finishes cfg M s st ((st.step cfg M s).2.1 ++ evs) reply s'

/-! ### The stages of a call are the call -/

section Finishes

variable {cfg : ModelConfig} {M : DraftModel} {calls : LlamaCalls} {s : Session}

theorem injectLoop_cons (cfg : ModelConfig) (calls : LlamaCalls) (j : ℕ) (chunk : List TokenFeatures)
    (rest : List (List TokenFeatures)) (cells : Cache) :
    injectLoop cfg calls j (chunk :: rest) cells =
      if (injectChunk cfg calls j chunk cells).1 then
        injectLoop cfg calls (j + 1) rest (injectChunk cfg calls j chunk cells).2
      else (false, (injectChunk cfg calls j chunk cells).2) := by
  rw [injectLoop, injectChunk]
  cases packChunk cfg chunk with
  | error e => rfl
  | ok buf => cases calls.chunk j <;> rfl

theorem Finishes.next {st st₁ : Stage} {s₁ s' : Session} {evs₁ evs : List WatchEvent} {reply : SessionReply}
    (hst : ∀ reply, st ≠ .done reply) (heq : st.step cfg M s = (s₁, evs₁, st₁))
    (h : Finishes cfg M s₁ st₁ evs reply s') : Finishes cfg M s st (evs₁ ++ evs) reply s' := by
  have hstep : Finishes cfg M s st ((st.step cfg M s).2.1 ++ evs) reply s' := .step hst (by rwa [heq])
  rwa [heq] at hstep

/-- A stage that queues nothing. -/
theorem Finishes.silent {st st₁ : Stage} {s₁ s' : Session} {evs : List WatchEvent} {reply : SessionReply}
    (hst : ∀ reply, st ≠ .done reply) (heq : st.step cfg M s = (s₁, [], st₁))
    (h : Finishes cfg M s₁ st₁ evs reply s') : Finishes cfg M s st evs reply s' := Finishes.next hst heq h

/-- A session after its packets went through the injection loop. -/
def Session.injected (tokens : List TokenFeatures) (r : Bool × Cache) (s : Session) : Session :=
  if r.1 then { s with engine := { s.engine with cells := r.2 }.advance tokens } else s.withCells r.2

/-- The chunks of a prompt. -/
theorem finishes_inject (req : PrefillRequest) (rest : List (List TokenFeatures)) (j : ℕ) (s : Session) :
    Finishes cfg M s (.inject req calls j rest) []
      (.prefill (if (injectLoop cfg calls j rest s.engine.cells).1 then
        ⟨true, (req.tokens.getLast?.map fun tf => tf.position + 1).getD 0⟩ else ⟨false, 0⟩))
      (s.injected req.tokens (injectLoop cfg calls j rest s.engine.cells)) := by
  induction rest generalizing j s with
  | nil => exact .silent (by simp) rfl (.done _ _)
  | cons chunk rest ih =>
    rw [injectLoop_cons]
    cases h : (injectChunk cfg calls j chunk s.engine.cells).1 with
    | true =>
      have hstep : Stage.step cfg M s (.inject req calls j (chunk :: rest)) =
          (s.withCells (injectChunk cfg calls j chunk s.engine.cells).2, [], .inject req calls (j + 1) rest) := by
        simp [Stage.step, h]
      exact .silent (by simp) hstep (ih (j + 1) _)
    | false =>
      have hstep : Stage.step cfg M s (.inject req calls j (chunk :: rest)) =
          (s.withCells (injectChunk cfg calls j chunk s.engine.cells).2, [], .done (.prefill ⟨false, 0⟩)) := by
        simp [Stage.step, h]
      exact .silent (by simp) hstep (.done _ _)

/-- The chunks of the accepted packets, and what follows. -/
theorem finishes_accept {req : DraftRequest} {evs : List WatchEvent} {reply : SessionReply} {s' : Session}
    (rest : List (List TokenFeatures)) (j : ℕ) (s : Session)
    (hok : (injectLoop cfg calls j rest s.engine.cells).1 = true →
      Finishes cfg M (s.injected req.acceptedTokens (injectLoop cfg calls j rest s.engine.cells))
        (.noise req calls) evs reply s')
    (hfail : (injectLoop cfg calls j rest s.engine.cells).1 = false →
      Finishes cfg M (s.injected req.acceptedTokens (injectLoop cfg calls j rest s.engine.cells))
        (.verdict req (injectionFailed req)) evs reply s') :
    Finishes cfg M s (.accept req calls j rest) evs reply s' := by
  induction rest generalizing j s with
  | nil => exact .silent (by simp) rfl (hok rfl)
  | cons chunk rest ih =>
    rw [injectLoop_cons] at hok hfail
    cases h : (injectChunk cfg calls j chunk s.engine.cells).1 with
    | true =>
      have hstep : Stage.step cfg M s (.accept req calls j (chunk :: rest)) =
          (s.withCells (injectChunk cfg calls j chunk s.engine.cells).2, [], .accept req calls (j + 1) rest) := by
        simp [Stage.step, h]
      rw [if_pos h] at hok hfail
      exact .silent (by simp) hstep (ih (j + 1) _ hok hfail)
    | false =>
      have hstep : Stage.step cfg M s (.accept req calls j (chunk :: rest)) =
          (s.withCells (injectChunk cfg calls j chunk s.engine.cells).2, [],
            .verdict req (injectionFailed req)) := by
        simp [Stage.step, h]
      rw [if_neg (by simp [h])] at hfail
      exact .silent (by simp) hstep (hfail rfl)

/-- The two events of a draft. -/
theorem finishes_verdict (req : DraftRequest) (res : DraftResponse) (s : Session) :
    Finishes cfg M s (.verdict req res)
      [.verdict (req.acceptedTokens.map TokenFeatures.token), .draft res.draftTokens] (.draft res) s :=
  .next (by simp) rfl (.next (by simp) rfl (.done _ _))

/-- The events a call queues inside its session's lock. -/
def SessionCall.watched (cfg : ModelConfig) (M : DraftModel) (s : Session) : SessionCall → List WatchEvent
  | .prefill req calls => (s.prefill cfg calls req).2.1
  | .draft req calls => (s.draft cfg M calls req).2.1
  | .reset _ => []

theorem prefill_injected (cfg : ModelConfig) (calls : LlamaCalls) (req : PrefillRequest) (s : Session) :
    s.prefill cfg calls req =
      (if (injectFeatures cfg calls req.tokens s.engine.cells).1 then
          ⟨true, (req.tokens.getLast?.map fun tf => tf.position + 1).getD 0⟩ else ⟨false, 0⟩,
        onAccepted (req.tokens.map TokenFeatures.token),
        s.injected req.tokens (injectFeatures cfg calls req.tokens s.engine.cells)) := by
  unfold Session.prefill Engine.prefill
  generalize injectFeatures cfg calls req.tokens s.engine.cells = r
  obtain ⟨_ | _, cells⟩ := r <;> rfl

theorem finishes_prefill (req : PrefillRequest) (s : Session) :
    Finishes cfg M s (.prefill req calls) (s.prefill cfg calls req).2.1
      (.prefill (s.prefill cfg calls req).1) (s.prefill cfg calls req).2.2 := by
  rw [prefill_injected]
  have hloop : Finishes cfg M s (.inject req calls 0 (chunks cfg.nUbatch req.tokens)) [] _ _ :=
    finishes_inject req _ 0 s
  have hstart : Finishes cfg M s (.prefill req calls) (onAccepted (req.tokens.map TokenFeatures.token) ++ []) _ _ :=
    .next (by simp) rfl hloop
  rwa [List.append_nil] at hstart

/-- The accepted packets of a draft, and how their injection ends. -/
def injectAccepted (cfg : ModelConfig) (calls : LlamaCalls) (req : DraftRequest) (st : Engine) : Bool × Cache :=
  injectFeatures cfg calls req.acceptedTokens (seqRm st.cells (st.kvConfirmedMax + 1))

theorem draft_injected (M : DraftModel) {req : DraftRequest} {st : Engine}
    (h : (injectAccepted cfg calls req st).1 = true) :
    let a := { st with cells := (injectAccepted cfg calls req st).2 }.advance req.acceptedTokens
    let d := a.runDraft cfg M calls (a.anchor (.ofWire req)) (toInt32 req.maxDraftTokens)
    st.draft cfg M calls (.ofWire req) = ({ d.1 with sessionId := req.sessionId, stepId := req.stepId },
      { d.2 with lastDraft := d.1.draftTokens, lastStepId := req.stepId }) := by
  have hacc : st.accept cfg calls (StepRequest.ofWire req).acceptedTokens =
      (true, { st with cells := (injectAccepted cfg calls req st).2 }.advance req.acceptedTokens) := if_pos h
  unfold Engine.draft
  rw [hacc]
  rfl

theorem draft_not_injected (M : DraftModel) {req : DraftRequest} {st : Engine}
    (h : (injectAccepted cfg calls req st).1 = false) :
    st.draft cfg M calls (.ofWire req) =
      (injectionFailed req, { st with cells := (injectAccepted cfg calls req st).2 }) := by
  have hacc : st.accept cfg calls (StepRequest.ofWire req).acceptedTokens =
      (false, { st with cells := (injectAccepted cfg calls req st).2 }) := if_neg (Bool.eq_false_iff.mp h)
  unfold Engine.draft
  rw [hacc]
  rfl

theorem finishes_noise (req : DraftRequest) (s : Session) :
    let d := s.engine.runDraft cfg M calls (s.engine.anchor (.ofWire req)) (toInt32 req.maxDraftTokens)
    Finishes cfg M s (.noise req calls)
      [.verdict (req.acceptedTokens.map TokenFeatures.token), .draft d.1.draftTokens]
      (.draft { d.1 with sessionId := req.sessionId, stepId := req.stepId })
      { s with engine := { d.2 with lastDraft := d.1.draftTokens, lastStepId := req.stepId } } :=
  .silent (by simp) rfl (.silent (by simp) rfl (finishes_verdict req _ _))

theorem finishes_truncate (req : DraftRequest) (s : Session) :
    let d := s.engine.draft cfg M calls (.ofWire req)
    Finishes cfg M s (.truncate req calls)
      [.verdict (req.acceptedTokens.map TokenFeatures.token), .draft d.1.draftTokens] (.draft d.1)
      { s with engine := d.2 } := by
  refine .silent (by simp) rfl (finishes_accept _ 0 _ (fun hok => ?_) fun hfail => ?_)
  · rw [draft_injected M hok]
    have hs : (s.withCells (seqRm s.engine.cells (s.engine.kvConfirmedMax + 1))).injected req.acceptedTokens
        (injectAccepted cfg calls req s.engine) = _ := if_pos hok
    exact hs ▸ finishes_noise req _
  · rw [draft_not_injected M hfail]
    have hs : (s.withCells (seqRm s.engine.cells (s.engine.kvConfirmedMax + 1))).injected req.acceptedTokens
        (injectAccepted cfg calls req s.engine) = _ := if_neg (Bool.eq_false_iff.mp hfail)
    exact hs ▸ finishes_verdict req _ _

theorem finishes_draft (req : DraftRequest) (s : Session) :
    Finishes cfg M s (.guard req calls) (s.draft cfg M calls req).2.1 (.draft (s.draft cfg M calls req).1)
      (s.draft cfg M calls req).2.2 := by
  by_cases h : req.stepId ≤ s.lastStepId
  · rw [draft_stale cfg M calls h]
    have hstep : Stage.step cfg M s (.guard req calls) =
        (s, [], .done (.draft { error := "stale step_id" })) := if_pos h
    exact .silent (by simp) hstep (.done _ _)
  · rw [draft_executed cfg M calls (Nat.not_le.mp h)]
    have hstep : Stage.step cfg M s (.guard req calls) =
        ({ s with lastStepId := req.stepId }, [], .truncate req calls) := if_neg h
    exact .silent (by simp) hstep (finishes_truncate req _)

/-- THE STAGES ARE THE CALL: taken one after the other they queue its events, give its reply and leave its
    session. -/
theorem finishes_start (c : SessionCall) (s : Session) :
    Finishes cfg M s (.start c) (c.watched cfg M s) (c.run cfg M s).1 (c.run cfg M s).2 := by
  cases c with
  | prefill req calls => exact finishes_prefill req s
  | draft req calls => exact finishes_draft req s
  | reset req => exact .silent (by simp [Stage.start]) rfl (.silent (by simp) rfl (.done _ _))

end Finishes

/-! ### The service -/

/-- Where a handler stands. -/
inductive Place where
  | idle
  | init (req : InitSessionRequest) (made : Option (ModelConfig × DraftModel))
  | creating (cfg : ModelConfig) (M : DraftModel)
  | created (res : InitSessionResponse)
  | initReplied (res : InitSessionResponse)
  | call (c : SessionCall)
  | looking (c : SessionCall)
  | missing (c : SessionCall)
  | located (c : SessionCall)
  | found (c : SessionCall)
  | inside (c : SessionCall) (st : Stage)
  | unlocked (c : SessionCall) (reply : SessionReply)
  | notified (c : SessionCall) (reply : SessionReply)
  | replied (c : SessionCall) (reply : SessionReply)

structure LockService where
  sessions : ℕ → Option Slot
  nextSessionId : ℕ
  sessionsMtx : Option ℕ
  /-- The mutex of each session, by its id. -/
  mtx : ℕ → Option ℕ
  places : ℕ → Place
  queue : List (ℕ × WatchEvent)

def LockService.fresh : LockService := ⟨fun _ => none, 1, none, fun _ => none, fun _ => .idle, []⟩

def LockService.goto (i : ℕ) (p : Place) (s : LockService) : LockService :=
  { s with places := Function.update s.places i p }

/-- Take `sessions_mtx_`, or wait for it. -/
def LockService.lockSessions (i : ℕ) (p : Place) (s : LockService) : LockService :=
  if s.sessionsMtx.isSome then s else { s with sessionsMtx := some i }.goto i p

def LockService.unlockSessions (i : ℕ) (p : Place) (s : LockService) : LockService :=
  { s with sessionsMtx := none }.goto i p

/-- Take the mutex of session `sid`, or wait for it. -/
def LockService.lockSession (i sid : ℕ) (p : Place) (s : LockService) : LockService :=
  if (s.mtx sid).isSome then s else { s with mtx := Function.update s.mtx sid (some i) }.goto i p

def LockService.unlockSession (i sid : ℕ) (p : Place) (s : LockService) : LockService :=
  { s with mtx := Function.update s.mtx sid none }.goto i p

/-- Insert the new session under the next id. -/
def LockService.insert (i : ℕ) (cfg : ModelConfig) (M : DraftModel) (s : LockService) : LockService :=
  { s with
    sessions := Function.update s.sessions s.nextSessionId (some ⟨cfg, M, .fresh⟩)
    nextSessionId := s.nextSessionId + 1 }.goto i (.created (sessionCreated cfg s.nextSessionId))

/-- What the map says about the session of a call. -/
def LockService.look (i : ℕ) (c : SessionCall) (s : LockService) : LockService :=
  match s.sessions c.sessionId with
  | none => s.goto i (.missing c)
  | some _ => s.goto i (if c.isReset then .found c else .located c)

/-- One stage of a call, on the session the handler has a pointer to. -/
def LockService.work (i : ℕ) (c : SessionCall) (st : Stage) (s : LockService) : LockService :=
  match s.sessions c.sessionId with
  | none => s
  | some slot =>
    let r := st.step slot.cfg slot.model slot.session
    { s with
      sessions := Function.update s.sessions c.sessionId (some { slot with session := r.1 })
      queue := s.queue ++ r.2.1.map (c.sessionId, ·) }.goto i (.inside c r.2.2)

/-- The next step of handler `i`. -/
def LockService.advance (s : LockService) (i : ℕ) : LockService :=
  match s.places i with
  | .init req made =>
    if req.targetModelId.isEmpty then s.goto i (.initReplied { message := "target_model_id required" })
    else
      match made with
      | none => s.goto i (.initReplied { message := "failed to initialize DSpark engine" })
      | some (cfg, M) => s.lockSessions i (.creating cfg M)
  | .creating cfg M => s.insert i cfg M
  | .created res => s.unlockSessions i (.initReplied res)
  | .call c => s.lockSessions i (.looking c)
  | .looking c => s.look i c
  | .missing c => s.unlockSessions i (.replied c c.notFound)
  | .located c => s.unlockSessions i (.found c)
  | .found c => s.lockSession i c.sessionId (.inside c (.start c))
  | .inside c (.done reply) =>
    s.unlockSession i c.sessionId (if c.isReset then .unlocked c reply else .replied c reply)
  | .inside c st => s.work i c st
  | .unlocked c reply => { s with queue := s.queue ++ [(c.sessionId, WatchEvent.reset)] }.goto i (.notified c reply)
  | .notified c reply => s.unlockSessions i (.replied c reply)
  | .idle => s
  | .initReplied _ => s
  | .replied _ _ => s

def LockService.step (s : LockService) : ServiceEvent → LockService
  | .initSession i req made =>
    match s.places i with
    | .idle => s.goto i (.init req made)
    | _ => s
  | .call i c =>
    match s.places i with
    | .idle => s.goto i (.call c)
    | _ => s
  | .advance i => s.advance i

end DsparkEdge
