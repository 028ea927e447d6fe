import DsparkEdge.Proto

/-! The messages of `proto/dspark.proto` as bytes. Writing and reading them is protobuf's: its runtime and the
    code `protoc` generates are not part of the repository, so they are a parameter here, one codec a message
    type, and the same one wherever bytes are written and read.

        SerializeToString   message ──▶ bytes
        ParseFromString     bytes   ──▶ message, or refused

    All that is ever asked of it is that certain messages are read back from the bytes written for them
    (`ReadsBack`). protobuf promises that of every message whose numbers fit the types of their fields and that
    stays below 2 GiB. `draft_us`, which the structure of a reply leaves out, is carried beside it. -/

namespace DsparkEdge

structure Codec (α : Type*) where
  serialize : α → List Byte
  parse : List Byte → Option α

/-- The message types that are recorded, replayed or handed over as bytes. -/
structure Protobuf where
  initSessionResponse : Codec InitSessionResponse
  prefillRequest : Codec PrefillRequest
  draftRequest : Codec DraftRequest
  draftResponse : Codec (DraftResponse × ℕ)

variable {α : Type*}

/-- What arrives of a message that travels as bytes. -/
def Codec.carry (c : Codec α) (m : α) : Option α := c.parse (c.serialize m)

/-- The message is read back from its bytes. -/
def Codec.ReadsBack (c : Codec α) (m : α) : Prop := c.carry m = some m

/-- The codec of a type of which one message is met, with the bytes it is met as. -/
def Codec.single [DecidableEq α] (m : α) (bytes : List Byte) : Codec α where
  serialize m' := if m' = m then bytes else []
  parse b := if b = bytes then some m else none

theorem Codec.single_readsBack [DecidableEq α] (m : α) (bytes : List Byte) : (single m bytes).ReadsBack m := by
  simp [ReadsBack, carry, single]

end DsparkEdge
