import DsparkEdge.Ui.Types
import Mathlib.Logic.Relation

/-! The dashboard's process manager (`lib/process-manager.ts`): it spawns the server and the daemon, keeps
    their status and their last log lines, and tells its listeners about every change of either.

        start   guard ─▶ binary there? ─▶ clear logs, "starting" ─▶ spawn ─▶ "running"
        stop    SIGINT to the child ── 2.5 s ─▶ SIGTERM ── 5 s ─▶ SIGKILL, all until its exit
        exit    child := null, "exited" or "error"        error   "error"

    The event loop runs one callback at a time, so each is one step. Child processes are numbered in the
    order of their spawns; a child is live until its 'exit' event. The callbacks of a child close over the
    entry of its process id, not over the child. `emitted` is all that was ever handed to the emitter's
    listeners, `signals` all that was ever sent to a process. -/

namespace DsparkEdge.Ui

/-- The most lines kept of one process. -/
def maxLogLines : ℕ := 4000

/-- What a child is to the operating system: running, never spawned with its 'error' still to come, or
    gone. -/
inductive ChildPhase where
  | live
  | failing
  | gone
  deriving DecidableEq, Repr

structure Child where
  proc : ProcId
  pid : Option ℕ
  phase : ChildPhase
  deriving DecidableEq, Repr

structure ManagedProc where
  child : Option ℕ
  status : ProcStatus
  logs : List LogLine
  deriving DecidableEq, Repr

/-- What listeners of the emitter see. -/
inductive Emitted where
  | log (line : LogLine)
  | status (st : ProcStatus)
  deriving DecidableEq, Repr

/-- A pending `stop()`: the child it asked to stop, the pid it read, its timers, and whether its promise
    is settled. -/
structure StopCall where
  proc : ProcId
  child : ℕ
  pid : ℕ
  t1 : Bool
  t2 : Bool
  settled : Bool
  deriving DecidableEq, Repr

/-- A signal, sent through a child's handle or to a pid. -/
inductive Signal where
  | child (c : ℕ) (name : String)
  | pid (pid : ℕ) (name : String)
  deriving DecidableEq, Repr

structure Manager where
  procs : ByProc ManagedProc
  logSeq : ℕ
  children : List Child
  stops : List StopCall
  signals : List Signal
  emitted : List Emitted
  deriving DecidableEq, Repr

def blankProc (id : ProcId) : ManagedProc := ⟨none, emptyStatus id, []⟩

def Manager.fresh : Manager := ⟨⟨blankProc .server, blankProc .daemon⟩, 0, [], [], [], []⟩

def Manager.status (m : Manager) (id : ProcId) : ProcStatus := (m.procs.get id).status

def Manager.allStatus (m : Manager) : ByProc ProcStatus := ⟨m.status .server, m.status .daemon⟩

/-- The lines of both processes, by id. -/
def Manager.allLogs (m : Manager) : List LogLine :=
  (m.procs.server.logs ++ m.procs.daemon.logs).mergeSort fun a b => a.id ≤ b.id

/-! ### Log lines and status -/

/-- `text.split(/\r?\n/)`. -/
def splitLines : List Char → List (List Char)
  | [] => [[]]
  | '\r' :: '\n' :: rest => [] :: splitLines rest
  | '\n' :: rest => [] :: splitLines rest
  | c :: rest =>
    match splitLines rest with
    | [] => [[c]]
    | line :: lines => (c :: line) :: lines

/-- Number a line, keep it, emit it. -/
def Manager.pushLine (id : ProcId) (stream : LogStream) (m : Manager) (raw : String) : Manager :=
  let line : LogLine := ⟨m.logSeq + 1, id, stream, raw⟩
  let proc := m.procs.get id
  let logs := proc.logs ++ [line]
  { m with
    procs := m.procs.set id { proc with logs := if maxLogLines < logs.length then logs.tail else logs }
    logSeq := m.logSeq + 1
    emitted := m.emitted ++ [.log line] }

/-- Every line of the text that is not empty. -/
def Manager.pushLog (id : ProcId) (stream : LogStream) (text : String) (m : Manager) : Manager :=
  (((splitLines text.toList).filter fun raw => !raw.isEmpty).map String.ofList).foldl
    (Manager.pushLine id stream) m

def Manager.updateStatus (id : ProcId) (patch : StatusPatch) (m : Manager) : Manager :=
  let st := (m.status id).patch patch
  { m with
    procs := m.procs.set id { m.procs.get id with status := st }
    emitted := m.emitted ++ [.status st] }

/-- `proc.logs = []`. -/
def Manager.dropLogs (id : ProcId) (m : Manager) : Manager :=
  { m with procs := m.procs.set id { m.procs.get id with logs := [] } }

/-- `proc.child = child`. -/
def Manager.setChild (id : ProcId) (child : Option ℕ) (m : Manager) : Manager :=
  { m with procs := m.procs.set id { m.procs.get id with child := child } }

@[simp] theorem pushLine_children (id : ProcId) (stream : LogStream) (m : Manager) (raw : String) :
    (m.pushLine id stream raw).children = m.children := rfl

@[simp] theorem pushLine_child (id : ProcId) (stream : LogStream) (m : Manager) (raw : String)
    (id' : ProcId) : ((m.pushLine id stream raw).procs.get id').child = (m.procs.get id').child := by
  simp only [Manager.pushLine, ByProc.get_set]
  split <;> simp_all

@[simp] theorem pushLine_status (id : ProcId) (stream : LogStream) (m : Manager) (raw : String)
    (id' : ProcId) : (m.pushLine id stream raw).status id' = m.status id' := by
  simp only [Manager.status, Manager.pushLine, ByProc.get_set]
  split <;> simp_all

/-- What every pushed line leaves alone, pushing a text leaves alone. -/
theorem pushLog_inv {β : Type*} (f : Manager → β) {id : ProcId} {stream : LogStream}
    (hline : ∀ m raw, f (m.pushLine id stream raw) = f m) (text : String) (m : Manager) :
    f (m.pushLog id stream text) = f m := by
  rw [Manager.pushLog]
  generalize ((splitLines text.toList).filter fun raw => !raw.isEmpty).map String.ofList = raws
  induction raws generalizing m with
  | nil => rfl
  | cons raw raws ih => rw [List.foldl_cons, ih, hline]

@[simp] theorem pushLog_children (id : ProcId) (stream : LogStream) (text : String) (m : Manager) :
    (m.pushLog id stream text).children = m.children :=
  pushLog_inv Manager.children (pushLine_children id stream) text m

@[simp] theorem pushLog_child (id : ProcId) (stream : LogStream) (text : String) (m : Manager)
    (id' : ProcId) : ((m.pushLog id stream text).procs.get id').child = (m.procs.get id').child :=
  pushLog_inv (fun m => (m.procs.get id').child) (fun m raw => pushLine_child id stream m raw id') text m

@[simp] theorem pushLog_status (id : ProcId) (stream : LogStream) (text : String) (m : Manager)
    (id' : ProcId) : (m.pushLog id stream text).status id' = m.status id' :=
  pushLog_inv (fun m => m.status id') (fun m raw => pushLine_status id stream m raw id') text m

@[simp] theorem updateStatus_children (id : ProcId) (patch : StatusPatch) (m : Manager) :
    (m.updateStatus id patch).children = m.children := rfl

@[simp] theorem updateStatus_child (id : ProcId) (patch : StatusPatch) (m : Manager) (id' : ProcId) :
    ((m.updateStatus id patch).procs.get id').child = (m.procs.get id').child := by
  simp only [Manager.updateStatus, ByProc.get_set]
  split <;> simp_all

@[simp] theorem updateStatus_status (id : ProcId) (patch : StatusPatch) (m : Manager) (id' : ProcId) :
    (m.updateStatus id patch).status id' =
      if id' = id then (m.status id).patch patch else m.status id' := by
  simp only [Manager.status, Manager.updateStatus, ByProc.get_set]
  split <;> rfl

@[simp] theorem dropLogs_children (id : ProcId) (m : Manager) : (m.dropLogs id).children = m.children :=
  rfl

@[simp] theorem dropLogs_child (id : ProcId) (m : Manager) (id' : ProcId) :
    ((m.dropLogs id).procs.get id').child = (m.procs.get id').child := by
  simp only [Manager.dropLogs, ByProc.get_set]
  split <;> simp_all

@[simp] theorem dropLogs_status (id : ProcId) (m : Manager) (id' : ProcId) :
    (m.dropLogs id).status id' = m.status id' := by
  simp only [Manager.status, Manager.dropLogs, ByProc.get_set]
  split <;> simp_all

@[simp] theorem setChild_children (id : ProcId) (child : Option ℕ) (m : Manager) :
    (m.setChild id child).children = m.children := rfl

@[simp] theorem setChild_child (id : ProcId) (child : Option ℕ) (m : Manager) (id' : ProcId) :
    ((m.setChild id child).procs.get id').child = if id' = id then child else (m.procs.get id').child := by
  simp only [Manager.setChild, ByProc.get_set]
  split <;> rfl

@[simp] theorem setChild_status (id : ProcId) (child : Option ℕ) (m : Manager) (id' : ProcId) :
    (m.setChild id child).status id' = m.status id' := by
  simp only [Manager.status, Manager.setChild, ByProc.get_set]
  split <;> simp_all

/-! ### Starting -/

/-- What `spawn` does: it throws, it returns a child that then fails with 'error', or the child runs. -/
inductive SpawnOutcome where
  | throws (msg : String)
  | fails
  | runs (pid : ℕ)
  deriving DecidableEq, Repr

/-- A new child, which the process refers to from now on. -/
def Manager.spawned (id : ProcId) (child : Child) (m : Manager) : Manager :=
  ({ m with children := m.children ++ [child] }.setChild id (some m.children.length)).updateStatus id
    { state := some .running, pid := some child.pid }

/-- `String(pid)`. -/
def pidString : Option ℕ → String
  | none => "null"
  | some pid => toString pid

def Manager.start (id : ProcId) (bin : String) (args : List String) (binExists : Bool)
    (spawn : SpawnOutcome) (now : ℕ) (m : Manager) : Except String ProcStatus × Manager :=
  let proc := m.procs.get id
  if proc.child.isSome ∧ proc.status.state = .running then
    (.error (id.name ++ " is already running (pid " ++ pidString proc.status.pid ++ ")"), m)
  else if !binExists then
    let msg := "binary not found: " ++ bin ++ " — build it with scripts/build.sh"
    (.error msg, (m.pushLog id .system ("error: " ++ msg)).updateStatus id
      { state := some .error, error := some (some msg) })
  else
    let command := bin ++ " " ++ String.intercalate " " args
    let m := (m.dropLogs id).updateStatus id
      { state := some .starting, pid := some none, startedAt := some (some now), exitedAt := some none,
        exitCode := some none, signal := some none, command := some (some command), error := some none }
    let m := m.pushLog id .system ("$ " ++ command)
    match spawn with
    | .throws msg =>
      (.error msg, (m.pushLog id .system ("spawn failed: " ++ msg)).updateStatus id
        { state := some .error, error := some (some msg) })
    | .fails =>
      let m := m.spawned id ⟨id, none, .failing⟩
      (.ok (m.status id), m)
    | .runs pid =>
      let m := m.spawned id ⟨id, some pid, .live⟩
      (.ok (m.status id), m)

/-! ### Stopping -/

/-- Start to stop the child, or say that there is none. -/
def Manager.stop (id : ProcId) (m : Manager) : Manager :=
  let proc := m.procs.get id
  match proc.child, proc.status.pid with
  | some c, some pid =>
    let m := m.pushLog id .system "stopping…"
    { m with
      signals := m.signals ++ [.child c "SIGINT"]
      stops := m.stops ++ [⟨id, c, pid, true, true, false⟩] }
  | _, _ => m.updateStatus id { state := some .stopped }

/-- `done`: both timers are cleared and the promise is settled. -/
def StopCall.done (call : StopCall) : StopCall := { call with t1 := false, t2 := false, settled := true }

/-- The 2.5 s timer of stop call `k`: SIGTERM to whatever child the process has by then. -/
def Manager.sigterm (k : ℕ) (m : Manager) : Manager :=
  match m.stops[k]? with
  | none => m
  | some call =>
    if call.t1 then
      { m with
        stops := m.stops.set k { call with t1 := false }
        signals := m.signals ++
          ((m.procs.get call.proc).child.map fun c => Signal.child c "SIGTERM").toList }
    else m

/-- The 5 s timer of stop call `k`: SIGKILL to the pid, unless it is 0, and the promise is settled. -/
def Manager.sigkill (k : ℕ) (m : Manager) : Manager :=
  match m.stops[k]? with
  | none => m
  | some call =>
    if call.t2 then
      { m with
        stops := m.stops.set k call.done
        signals := m.signals ++ if call.pid = 0 then [] else [.pid call.pid "SIGKILL"] }
    else m

/-! ### What a child reports -/

/-- `code ?? "null"`. -/
def codeString : Option ℤ → String
  | none => "null"
  | some code => toString code

/-- The state an exit leads to. -/
def exitState (code : Option ℤ) (signal : Option String) : ProcState :=
  if code = some 0 ∨ signal = some "SIGINT" ∨ signal = some "SIGTERM" then .exited else .error

/-- The listener `child.once("exit", done)` of a stop call. -/
def StopCall.onExit (c : ℕ) (call : StopCall) : StopCall := if call.child = c then call.done else call

/-- The 'exit' of a live child: its process has no child any more, and the stops that wait for it are
    done. -/
def Manager.exit (c : ℕ) (code : Option ℤ) (signal : Option String) (now : ℕ) (m : Manager) : Manager :=
  match m.children[c]? with
  | none => m
  | some child =>
    if child.phase = .live then
      let m := { m.setChild child.proc none with
        children := m.children.set c { child with phase := .gone }
        stops := m.stops.map (StopCall.onExit c) }
      (m.pushLog child.proc .system
        ("process exited (code=" ++ codeString code ++ ", signal=" ++ signal.getD "null" ++ ")")).updateStatus
          child.proc
        { state := some (exitState code signal), pid := some none, exitedAt := some (some now),
          exitCode := some code, signal := some signal }
    else m

/-- A child that never ran has nothing more to report after its 'error'. -/
def Child.afterError (child : Child) : Child :=
  { child with phase := if child.phase = .failing then .gone else child.phase }

/-- An 'error' of a child: its spawn failed, or a signal could not be delivered and it keeps running. -/
def Manager.error (c : ℕ) (msg : String) (m : Manager) : Manager :=
  match m.children[c]? with
  | none => m
  | some child =>
    if child.phase = .gone then m
    else
      let m := { m with children := m.children.set c child.afterError }
      (m.pushLog child.proc .system ("process error: " ++ msg)).updateStatus child.proc
        { state := some .error, error := some (some msg) }

/-! ### Steps -/

inductive ManagerEvent where
  | start (id : ProcId) (bin : String) (args : List String) (binExists : Bool) (spawn : SpawnOutcome)
      (now : ℕ)
  | stop (id : ProcId)
  | sigterm (k : ℕ)
  | sigkill (k : ℕ)
  | exit (c : ℕ) (code : Option ℤ) (signal : Option String) (now : ℕ)
  | error (c : ℕ) (msg : String)
  | data (id : ProcId) (stream : LogStream) (text : String)

def Manager.step (m : Manager) : ManagerEvent → Manager
  | .start id bin args binExists spawn now => (m.start id bin args binExists spawn now).2
  | .stop id => m.stop id
  | .sigterm k => m.sigterm k
  | .sigkill k => m.sigkill k
  | .exit c code signal now => m.exit c code signal now
  | .error c msg => m.error c msg
  | .data id stream text => m.pushLog id stream text

/-! ### Every step is made of few moves -/

/-- The log lines, the statuses and what was emitted are the same. -/
structure SameBooks (m m' : Manager) : Prop where
  logs : ∀ id, (m'.procs.get id).logs = (m.procs.get id).logs
  status : ∀ id, m'.status id = m.status id
  logSeq : m'.logSeq = m.logSeq
  emitted : m'.emitted = m.emitted

/-- A line, a status, fewer lines of one process, or none of that. -/
inductive Move : Manager → Manager → Prop
  | line (id : ProcId) (stream : LogStream) (m : Manager) (raw : String) : Move m (m.pushLine id stream raw)
  | status (id : ProcId) (patch : StatusPatch) (m : Manager) : Move m (m.updateStatus id patch)
  | drop (id : ProcId) (m : Manager) : Move m (m.dropLogs id)
  | other {m m' : Manager} (h : SameBooks m m') : Move m m'

abbrev Moves : Manager → Manager → Prop := Relation.ReflTransGen Move

theorem sameBooks_setChild (id : ProcId) (child : Option ℕ) (m : Manager) :
    SameBooks m (m.setChild id child) where
  logs := by
    intro id'
    rw [Manager.setChild, ByProc.get_set]
    split <;> simp_all
  status := setChild_status id child m
  logSeq := rfl
  emitted := rfl

theorem pushLog_moves (id : ProcId) (stream : LogStream) (text : String) (m : Manager) :
    Moves m (m.pushLog id stream text) := by
  rw [Manager.pushLog]
  generalize ((splitLines text.toList).filter fun raw => !raw.isEmpty).map String.ofList = raws
  induction raws generalizing m with
  | nil => exact .refl
  | cons raw raws ih => exact .head (.line id stream m raw) (ih _)

theorem spawned_moves (id : ProcId) (child : Child) (m : Manager) : Moves m (m.spawned id child) := by
  have hchild : SameBooks m { m with children := m.children ++ [child] } :=
    ⟨fun _ => rfl, fun _ => rfl, rfl, rfl⟩
  rw [Manager.spawned]
  exact ((Relation.ReflTransGen.single (.other hchild)).tail (.other (sameBooks_setChild id _ _))).tail
    (.status id _ _)

theorem start_moves (id : ProcId) (bin : String) (args : List String) (binExists : Bool)
    (spawn : SpawnOutcome) (now : ℕ) (m : Manager) :
    Moves m (m.start id bin args binExists spawn now).2 := by
  simp only [Manager.start]
  split
  · exact .refl
  · split
    · exact (pushLog_moves id .system _ m).tail (.status id _ _)
    · have hstarting (patch : StatusPatch) (text : String) :
          Moves m (((m.dropLogs id).updateStatus id patch).pushLog id .system text) :=
        ((Relation.ReflTransGen.single (.drop id m)).tail (.status id patch _)).trans
          (pushLog_moves id .system text _)
      cases spawn with
      | throws msg => exact ((hstarting _ _).trans (pushLog_moves id .system _ _)).tail (.status id _ _)
      | fails => exact (hstarting _ _).trans (spawned_moves id _ _)
      | runs pid => exact (hstarting _ _).trans (spawned_moves id _ _)

theorem stop_moves (id : ProcId) (m : Manager) : Moves m (m.stop id) := by
  simp only [Manager.stop]
  split
  · exact (pushLog_moves id .system _ m).tail (.other ⟨fun _ => rfl, fun _ => rfl, rfl, rfl⟩)
  · exact .single (.status id _ m)

theorem sigterm_moves (k : ℕ) (m : Manager) : Moves m (m.sigterm k) := by
  unfold Manager.sigterm
  split
  · exact .refl
  · split
    · exact .single (.other ⟨fun _ => rfl, fun _ => rfl, rfl, rfl⟩)
    · exact .refl

theorem sigkill_moves (k : ℕ) (m : Manager) : Moves m (m.sigkill k) := by
  unfold Manager.sigkill
  split
  · exact .refl
  · split
    · exact .single (.other ⟨fun _ => rfl, fun _ => rfl, rfl, rfl⟩)
    · exact .refl

theorem exit_moves (c : ℕ) (code : Option ℤ) (signal : Option String) (now : ℕ) (m : Manager) :
    Moves m (m.exit c code signal now) := by
  unfold Manager.exit
  split
  · exact .refl
  · rename_i child _
    split
    · refine Relation.ReflTransGen.tail (Relation.ReflTransGen.trans ?_ (pushLog_moves child.proc .system _ _))
        (.status child.proc _ _)
      have hchild := sameBooks_setChild child.proc none m
      exact .single (.other ⟨hchild.logs, hchild.status, hchild.logSeq, hchild.emitted⟩)
    · exact .refl

theorem error_moves (c : ℕ) (msg : String) (m : Manager) : Moves m (m.error c msg) := by
  unfold Manager.error
  split
  · exact .refl
  · rename_i child _
    split
    · exact .refl
    · refine Relation.ReflTransGen.tail (Relation.ReflTransGen.trans ?_ (pushLog_moves child.proc .system _ _))
        (.status child.proc _ _)
      exact .single (.other ⟨fun _ => rfl, fun _ => rfl, rfl, rfl⟩)

theorem step_moves (m : Manager) (e : ManagerEvent) : Moves m (m.step e) := by
  cases e with
  | start id bin args binExists spawn now => exact start_moves id bin args binExists spawn now m
  | stop id => exact stop_moves id m
  | sigterm k => exact sigterm_moves k m
  | sigkill k => exact sigkill_moves k m
  | exit c code signal now => exact exit_moves c code signal now m
  | error c msg => exact error_moves c msg m
  | data id stream text => exact pushLog_moves id stream text m

/-- What every move preserves, every step preserves. -/
theorem step_inv {P : Manager → Prop} (hmove : ∀ m m', Move m m' → P m → P m') {m : Manager}
    (h : P m) (e : ManagerEvent) : P (m.step e) := by
  have hmoves := step_moves m e
  generalize m.step e = m' at hmoves ⊢
  induction hmoves with
  | refl => exact h
  | tail _ hm ih => exact hmove _ _ hm ih

end DsparkEdge.Ui
