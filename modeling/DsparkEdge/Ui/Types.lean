import Mathlib.Tactic.Common
import Mathlib.Data.Int.Notation

/-! The dashboard's own data (`lib/types.ts`): the two processes it manages, their status, their log
    lines. A field that may be `null` is an `Option`; a `Partial` is a record of optional fields, `none`
    for a field that is not given. Timestamps count milliseconds; the one of a log line is left out. -/

namespace DsparkEdge.Ui

inductive ProcId where
  | server
  | daemon
  deriving DecidableEq, Repr

def ProcId.name : ProcId → String
  | .server => "server"
  | .daemon => "daemon"

/-- `Record<ProcId, α>`. -/
@[ext] structure ByProc (α : Type*) where
  server : α
  daemon : α
  deriving DecidableEq, Repr

variable {α : Type*}

def ByProc.get (r : ByProc α) : ProcId → α
  | .server => r.server
  | .daemon => r.daemon

def ByProc.set (r : ByProc α) (id : ProcId) (a : α) : ByProc α :=
  match id with
  | .server => { r with server := a }
  | .daemon => { r with daemon := a }

@[simp] theorem ByProc.get_set_self (r : ByProc α) (id : ProcId) (a : α) : (r.set id a).get id = a := by
  cases id <;> rfl

theorem ByProc.get_set_ne (r : ByProc α) {id id' : ProcId} (h : id' ≠ id) (a : α) :
    (r.set id a).get id' = r.get id' := by
  cases id <;> cases id' <;> first | rfl | exact absurd rfl h

theorem ByProc.get_set (r : ByProc α) (id id' : ProcId) (a : α) :
    (r.set id a).get id' = if id' = id then a else r.get id' := by
  split
  case isTrue h => rw [h, ByProc.get_set_self]
  case isFalse h => exact r.get_set_ne h a

/-- Two records with the same entries are the same. -/
theorem ByProc.ext_get {r r' : ByProc α} (h : ∀ id, r.get id = r'.get id) : r = r' :=
  ByProc.ext (h .server) (h .daemon)

inductive ProcState where
  | stopped
  | starting
  | running
  | exited
  | error
  deriving DecidableEq, Repr

structure ProcStatus where
  id : ProcId
  state : ProcState
  pid : Option ℕ
  startedAt : Option ℕ
  exitedAt : Option ℕ
  exitCode : Option ℤ
  signal : Option String
  command : Option String
  error : Option String
  deriving DecidableEq, Repr

/-- `Partial<ProcStatus>`, as far as the manager patches it. -/
structure StatusPatch where
  state : Option ProcState := none
  pid : Option (Option ℕ) := none
  startedAt : Option (Option ℕ) := none
  exitedAt : Option (Option ℕ) := none
  exitCode : Option (Option ℤ) := none
  signal : Option (Option String) := none
  command : Option (Option String) := none
  error : Option (Option String) := none

/-- `{ ...st, ...patch }`. -/
def ProcStatus.patch (st : ProcStatus) (p : StatusPatch) : ProcStatus where
  id := st.id
  state := p.state.getD st.state
  pid := p.pid.getD st.pid
  startedAt := p.startedAt.getD st.startedAt
  exitedAt := p.exitedAt.getD st.exitedAt
  exitCode := p.exitCode.getD st.exitCode
  signal := p.signal.getD st.signal
  command := p.command.getD st.command
  error := p.error.getD st.error

/-- The status of a process that was never started. -/
def emptyStatus (id : ProcId) : ProcStatus := ⟨id, .stopped, none, none, none, none, none, none, none⟩

inductive LogStream where
  | stdout
  | stderr
  | system
  deriving DecidableEq, Repr

structure LogLine where
  id : ℕ
  proc : ProcId
  stream : LogStream
  text : String
  deriving DecidableEq, Repr

end DsparkEdge.Ui
