import Mathlib.Tactic.Common
import Mathlib.Data.Int.Notation

/-! The messages of `proto/dspark.proto` and the two structs the C++ sides build them from. A token
    packet has the same three fields on the server (`dspark_token_features`), on the wire
    (`TokenFeatures`) and on the edge (`token_features`), so one structure stands for all three;
    likewise the reply of a draft step. The request differs in one field: `max_draft_tokens` is an
    `int32` on both ends and a `uint32` on the wire.

        server  remote_dspark_request ──toWire──▶ DraftRequest ──ofWire──▶ draft_request  edge

    Token ids are `int32`, positions, step and session ids `uint64`: no arithmetic is done on the
    former, and the latter only count. Floats are their bit patterns. Durations (`draft_us`) are
    left out: nothing but a metric reads them. -/

namespace DsparkEdge

/-- The bit pattern of an IEEE single. -/
abbrev F32 := BitVec 32

abbrev Byte := BitVec 8

/-- Per-token feature packet. -/
structure TokenFeatures where
  token : ℤ
  position : ℕ
  features : List Byte
  deriving DecidableEq, Repr, Inhabited

/-- The packets sit at consecutive positions from `start`. -/
def PositionsFrom (start : ℤ) : List TokenFeatures → Prop
  | [] => True
  | tf :: rest => (tf.position : ℤ) = start ∧ PositionsFrom (start + 1) rest

/-- A draft step as both C++ sides hold it (`remote_dspark_request`, `draft_request`). -/
structure StepRequest where
  sessionId : ℕ
  stepId : ℕ
  position : ℕ
  maxDraftTokens : ℤ
  greedy : Bool
  anchorToken : ℤ
  acceptedTokens : List TokenFeatures
  deriving DecidableEq, Repr

/-- A draft step on the wire. -/
structure DraftRequest where
  sessionId : ℕ
  stepId : ℕ
  acceptedTokens : List TokenFeatures
  position : ℕ
  maxDraftTokens : ℕ
  greedy : Bool
  anchorToken : ℤ
  deriving DecidableEq, Repr

/-- The reply to a draft step, on the wire and on both ends. -/
structure DraftResponse where
  sessionId : ℕ := 0
  stepId : ℕ := 0
  draftTokens : List ℤ := []
  draftLogprobs : List F32 := []
  confidence : List F32 := []
  ok : Bool := false
  error : String := ""
  deriving DecidableEq, Repr

structure InitSessionRequest where
  targetModelId : String
  tokenizerHash : String
  deriving DecidableEq, Repr

structure InitSessionResponse where
  sessionId : ℕ := 0
  ok : Bool := false
  message : String := ""
  draftModelId : String := ""
  targetLayerIds : List ℕ := []
  hiddenSize : ℕ := 0
  blockSize : ℕ := 0
  featureDtype : String := ""
  deriving DecidableEq, Repr

structure PrefillRequest where
  sessionId : ℕ
  tokens : List TokenFeatures
  lastChunk : Bool
  deriving DecidableEq, Repr

structure PrefillResponse where
  ok : Bool := false
  nPositions : ℕ := 0
  deriving DecidableEq, Repr

structure ResetRequest where
  sessionId : ℕ
  deriving DecidableEq, Repr

structure ResetResponse where
  ok : Bool := false
  deriving DecidableEq, Repr

/-- What gRPC reports about a call (`grpc::Status`). -/
inductive Status where
  | ok
  | failed (message : String)
  deriving DecidableEq, Repr

def Status.isOk : Status → Bool
  | .ok => true
  | .failed _ => false

/-- `int32` to `uint32`, as assigning to the wire field does. -/
def toUint32 (n : ℤ) : ℕ := (BitVec.ofInt 32 n).toNat

/-- `uint32` to `int32`, as reading the wire field into an `int32_t` does. -/
def toInt32 (n : ℕ) : ℤ := (BitVec.ofNat 32 n).toInt

/-- The client's copy of a step onto the wire; `session` is the id the handshake returned. -/
def StepRequest.toWire (session : ℕ) (r : StepRequest) : DraftRequest where
  sessionId := session
  stepId := r.stepId
  acceptedTokens := r.acceptedTokens
  position := r.position
  maxDraftTokens := toUint32 r.maxDraftTokens
  greedy := r.greedy
  anchorToken := r.anchorToken

/-- The daemon's copy of a step off the wire. -/
def StepRequest.ofWire (r : DraftRequest) : StepRequest where
  sessionId := r.sessionId
  stepId := r.stepId
  position := r.position
  maxDraftTokens := toInt32 r.maxDraftTokens
  greedy := r.greedy
  anchorToken := r.anchorToken
  acceptedTokens := r.acceptedTokens

end DsparkEdge
