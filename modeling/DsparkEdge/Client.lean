import DsparkEdge.Lib.Decimal
import DsparkEdge.Proto

/-! The gRPC client (`remote_dspark_client.cpp`) behind the drafter interface the speculative backend
    calls (`dspark_drafter.h`). The generated stub is a parameter: a call gives a gRPC status and a
    reply message, and changes the state `δ` of whatever is at the other end.

        prefill:  dump request ─▶ RPC                       ok = status.ok() && resp.ok()
        draft:    RPC ─▶ dump request, dump response        ok = status.ok() && resp.ok()
        reset:    RPC                                       nothing is dumped

    With `LLAMA_DSPARK_GOLDEN_DIR` set every message is written to a file of that directory. A file
    holds the serialized message, which the model keeps as the message itself. -/

namespace DsparkEdge

open Decimal

/-- The generated client stub, with the state of the other end threaded through. -/
structure Stub (δ : Type*) where
  prefill : δ → PrefillRequest → δ × Status × PrefillResponse
  draft : δ → DraftRequest → δ × Status × DraftResponse
  reset : δ → ResetRequest → δ × Status × ResetResponse

/-- The drafter interface of the speculative backend. -/
structure DsparkDrafter (δ : Type*) where
  prefill : δ → List TokenFeatures → Bool → δ × Bool
  draft : δ → StepRequest → δ × DraftResponse
  reset : δ → δ × Bool

/-! ### Golden files -/

abbrev FileName := List Char

inductive Message where
  | prefill (m : PrefillRequest)
  | request (m : DraftRequest)
  | response (m : DraftResponse)
  deriving DecidableEq, Repr

/-- The golden directory, in no particular order. -/
abbrev GoldenDir := List (FileName × Message)

/-- Write a file, truncating an existing one. -/
def GoldenDir.write (name : FileName) (m : Message) (dir : GoldenDir) : GoldenDir :=
  (name, m) :: dir.filter fun f => f.1 ≠ name

def GoldenDir.read (name : FileName) (dir : GoldenDir) : Option Message :=
  (dir.find? fun f => f.1 = name).map Prod.snd

/-- `prefill_chunk_%03d.pb`. -/
def prefillName (n : ℕ) : FileName := "prefill_chunk_".toList ++ padded 3 n ++ ".pb".toList

/-- `step_%04llu_request.pb`. -/
def requestName (stepId : ℕ) : FileName := "step_".toList ++ padded 4 stepId ++ "_request.pb".toList

/-- `step_%04llu_response.pb`. -/
def responseName (stepId : ℕ) : FileName :=
  "step_".toList ++ padded 4 stepId ++ "_response.pb".toList

/-! ### The client -/

/-- `golden` is `none` when the directory is not set. -/
structure Client (δ : Type*) where
  sessionId : ℕ
  initialized : Bool
  prefillChunk : ℕ
  golden : Option GoldenDir
  net : δ

variable {δ : Type*}

/-- `dump_message`: nothing without a directory. -/
def Client.dump (name : FileName) (m : Message) (c : Client δ) : Client δ :=
  { c with golden := c.golden.map (GoldenDir.write name m) }

def Client.prefill (S : Stub δ) (c : Client δ) (tokens : List TokenFeatures) (lastChunk : Bool) :
    Client δ × Bool :=
  if c.initialized then
    let req : PrefillRequest := ⟨c.sessionId, tokens, lastChunk⟩
    let c := { c with prefillChunk := c.prefillChunk + 1 }.dump (prefillName c.prefillChunk)
      (.prefill req)
    let r := S.prefill c.net req
    ({ c with net := r.1 }, r.2.1.isOk && r.2.2.ok)
  else (c, false)

def Client.reset (S : Stub δ) (c : Client δ) : Client δ × Bool :=
  if c.initialized then
    let r := S.reset c.net ⟨c.sessionId⟩
    ({ c with net := r.1 }, r.2.1.isOk && r.2.2.ok)
  else (c, false)

/-- What the caller sees of a reply: success needs both the call and the reply to say so. -/
def clientResponse (status : Status) (resp : DraftResponse) : DraftResponse :=
  { resp with
    ok := status.isOk && resp.ok
    error := match status with
      | .ok => resp.error
      | .failed message => message }

def Client.draft (S : Stub δ) (c : Client δ) (req : StepRequest) : Client δ × DraftResponse :=
  if c.initialized then
    let wire := req.toWire c.sessionId
    let r := S.draft c.net wire
    let c := ({ c with net := r.1 }.dump (requestName req.stepId) (.request wire)).dump
      (responseName req.stepId) (.response r.2.2)
    (c, clientResponse r.2.1 r.2.2)
  else (c, { error := "not initialized" })

/-- `grpc_dspark_drafter` over a stub. -/
def grpcDrafter (S : Stub δ) : DsparkDrafter (Client δ) :=
  ⟨Client.prefill S, Client.draft S, Client.reset S⟩

/-! ### An initialised client -/

/-- The client of a session the handshake created. -/
structure Client.Ready (c : Client δ) (session : ℕ) : Prop where
  initialized : c.initialized = true
  sessionId : c.sessionId = session

/-- A prefill is one RPC, whose state and success the caller sees. -/
theorem client_prefill (S : Stub δ) {c : Client δ} {session : ℕ} (h : c.Ready session)
    (tokens : List TokenFeatures) (lastChunk : Bool) :
    (c.prefill S tokens lastChunk).1.Ready session ∧
    (c.prefill S tokens lastChunk).1.net = (S.prefill c.net ⟨session, tokens, lastChunk⟩).1 ∧
    (c.prefill S tokens lastChunk).2 =
      ((S.prefill c.net ⟨session, tokens, lastChunk⟩).2.1.isOk &&
        (S.prefill c.net ⟨session, tokens, lastChunk⟩).2.2.ok) := by
  obtain ⟨hinit, rfl⟩ := h
  rw [Client.prefill, if_pos hinit]
  exact ⟨⟨hinit, rfl⟩, rfl, rfl⟩

theorem client_reset (S : Stub δ) {c : Client δ} {session : ℕ} (h : c.Ready session) :
    (c.reset S).1.Ready session ∧ (c.reset S).1.net = (S.reset c.net ⟨session⟩).1 := by
  obtain ⟨hinit, rfl⟩ := h
  rw [Client.reset, if_pos hinit]
  exact ⟨⟨hinit, rfl⟩, rfl⟩

/-- A draft is one RPC. -/
theorem client_draft (S : Stub δ) {c : Client δ} {session : ℕ} (h : c.Ready session)
    (req : StepRequest) :
    (c.draft S req).1.Ready session ∧
    (c.draft S req).1.net = (S.draft c.net (req.toWire session)).1 ∧
    (c.draft S req).2 = clientResponse (S.draft c.net (req.toWire session)).2.1
      (S.draft c.net (req.toWire session)).2.2 := by
  obtain ⟨hinit, rfl⟩ := h
  rw [Client.draft, if_pos hinit]
  exact ⟨⟨hinit, rfl⟩, rfl, rfl⟩

/-- What a call leaves in the golden directory, and in the counter of the prefill files. -/
theorem client_prefill_golden (S : Stub δ) {c : Client δ} {session : ℕ} (h : c.Ready session)
    (tokens : List TokenFeatures) (lastChunk : Bool) :
    (c.prefill S tokens lastChunk).1.golden = c.golden.map
      (GoldenDir.write (prefillName c.prefillChunk) (.prefill ⟨session, tokens, lastChunk⟩)) ∧
    (c.prefill S tokens lastChunk).1.prefillChunk = c.prefillChunk + 1 := by
  obtain ⟨hinit, rfl⟩ := h
  rw [Client.prefill, if_pos hinit]
  exact ⟨rfl, rfl⟩

theorem client_reset_golden (S : Stub δ) {c : Client δ} {session : ℕ} (h : c.Ready session) :
    (c.reset S).1.golden = c.golden ∧ (c.reset S).1.prefillChunk = c.prefillChunk := by
  obtain ⟨hinit, rfl⟩ := h
  rw [Client.reset, if_pos hinit]
  exact ⟨rfl, rfl⟩

theorem client_draft_golden (S : Stub δ) {c : Client δ} {session : ℕ} (h : c.Ready session)
    (req : StepRequest) :
    (c.draft S req).1.golden = c.golden.map (fun dir =>
      (dir.write (requestName req.stepId) (.request (req.toWire session))).write
        (responseName req.stepId) (.response (S.draft c.net (req.toWire session)).2.2)) ∧
    (c.draft S req).1.prefillChunk = c.prefillChunk := by
  obtain ⟨hinit, rfl⟩ := h
  rw [Client.draft, if_pos hinit]
  refine ⟨?_, rfl⟩
  simp only [Client.dump, Option.map_map]
  rfl

end DsparkEdge
