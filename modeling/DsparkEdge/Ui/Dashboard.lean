import DsparkEdge.Lib.Window
import DsparkEdge.Ui.ConfigStore
import DsparkEdge.Ui.ProcessManager

/-! The dashboard as a whole: the browser's store (`lib/store.ts`), its live connection
    (`live-sync.tsx`), the API routes (`app/api/process`, `config`, `logs`) and the process manager behind
    them.

        store ──persist──▶ POST /api/config   ─▶ save ─▶ any answer                  ─▶ dirty := false
              ──runAction▶ POST /api/process  ─▶ save ─▶ act … ─▶ status              ─▶ status, dirty := false
              ──pollStatus▶ GET /api/process  ─▶ status                               ─▶ status
              ◀──backlog, then every line and status emitted since── GET /api/logs

    A request is handled, answered and delivered in steps of its own, in any order among the requests; it
    may be lost for the browser at any time, whether the route handles it or not. What an action does to
    the processes is left to the manager's own events, which come in any order. A connection delivers its
    messages in order; closing it drops what was not delivered. -/

namespace DsparkEdge.Ui

open Window

/-- The most lines the store keeps. -/
def maxLogs : ℕ := 2000

/-- The most lines of a backlog. -/
def maxBacklog : ℕ := 400

/-! ### The store -/

structure AppState where
  config : Option DashboardConfig
  presets : List Preset
  status : ByProc ProcStatus
  logs : List LogLine
  dirty : Bool

def AppState.patchServer (patch : ServerPatch) (s : AppState) : AppState :=
  match s.config with
  | none => s
  | some c => { s with config := some { c with server := c.server.patch patch }, dirty := true }

def AppState.patchDaemon (patch : DaemonPatch) (s : AppState) : AppState :=
  match s.config with
  | none => s
  | some c => { s with config := some { c with daemon := c.daemon.patch patch }, dirty := true }

def AppState.applyPreset (id : String) (s : AppState) : AppState :=
  match s.config with
  | none => s
  | some c =>
    match s.presets.find? fun p => p.id = id with
    | none => s
    | some preset =>
      { s with
        dirty := true
        config := some
          { activePreset := id
            server := c.server.patch preset.server
            daemon := c.daemon.patch preset.daemon } }

def AppState.appendLog (line : LogLine) (s : AppState) : AppState :=
  { s with logs := lastN maxLogs (s.logs ++ [line]) }

def AppState.setBacklog (logs : List LogLine) (status : ByProc ProcStatus) (s : AppState) : AppState :=
  { s with logs := lastN maxLogs logs, status := status }

def AppState.setStatus (st : ProcStatus) (s : AppState) : AppState :=
  { s with status := s.status.set st.id st }

/-- The listeners of the event stream behind its backlog. -/
def AppState.hear (e : Emitted) (s : AppState) : AppState :=
  match e with
  | .log line => s.appendLog line
  | .status st => s.setStatus st

/-- An edit changes nothing, or the configuration and then it sets the flag. -/
def Edited (s s' : AppState) : Prop := s' = s ∨ ∃ config, s' = { s with config := config, dirty := true }

theorem patchServer_edited (patch : ServerPatch) (s : AppState) : Edited s (s.patchServer patch) := by
  rw [AppState.patchServer]
  split
  · exact Or.inl rfl
  · exact Or.inr ⟨_, rfl⟩

theorem patchDaemon_edited (patch : DaemonPatch) (s : AppState) : Edited s (s.patchDaemon patch) := by
  rw [AppState.patchDaemon]
  split
  · exact Or.inl rfl
  · exact Or.inr ⟨_, rfl⟩

theorem applyPreset_edited (id : String) (s : AppState) : Edited s (s.applyPreset id) := by
  rw [AppState.applyPreset]
  split
  · exact Or.inl rfl
  · split
    · exact Or.inl rfl
    · exact Or.inr ⟨_, rfl⟩

@[simp] theorem appendLog_config (line : LogLine) (s : AppState) : (s.appendLog line).config = s.config := by
  simp only [AppState.appendLog]

@[simp] theorem appendLog_status (line : LogLine) (s : AppState) : (s.appendLog line).status = s.status := by
  simp only [AppState.appendLog]

@[simp] theorem appendLog_dirty (line : LogLine) (s : AppState) : (s.appendLog line).dirty = s.dirty := by
  simp only [AppState.appendLog]

@[simp] theorem appendLog_logs (line : LogLine) (s : AppState) :
    (s.appendLog line).logs = lastN maxLogs (s.logs ++ [line]) := by
  simp only [AppState.appendLog]

@[simp] theorem setBacklog_config (logs : List LogLine) (status : ByProc ProcStatus) (s : AppState) :
    (s.setBacklog logs status).config = s.config := by
  simp only [AppState.setBacklog]

@[simp] theorem setBacklog_dirty (logs : List LogLine) (status : ByProc ProcStatus) (s : AppState) :
    (s.setBacklog logs status).dirty = s.dirty := by
  simp only [AppState.setBacklog]

@[simp] theorem setBacklog_logs (logs : List LogLine) (status : ByProc ProcStatus) (s : AppState) :
    (s.setBacklog logs status).logs = lastN maxLogs logs := by
  simp only [AppState.setBacklog]

@[simp] theorem setBacklog_status (logs : List LogLine) (status : ByProc ProcStatus) (s : AppState) :
    (s.setBacklog logs status).status = status := by
  simp only [AppState.setBacklog]

@[simp] theorem setStatus_logs (st : ProcStatus) (s : AppState) : (s.setStatus st).logs = s.logs := by
  simp only [AppState.setStatus]

@[simp] theorem hear_config (e : Emitted) (s : AppState) : (s.hear e).config = s.config := by
  cases e <;> simp [AppState.hear, AppState.setStatus]

@[simp] theorem hear_dirty (e : Emitted) (s : AppState) : (s.hear e).dirty = s.dirty := by
  cases e <;> simp [AppState.hear, AppState.setStatus]

/-! ### Requests -/

/-- A request of the store; the first two carry the configuration it had then. -/
inductive ApiCall where
  | persist (cfg : DashboardConfig)
  | action (cfg : DashboardConfig)
  | poll

/-- An answer, as far as the store looks at it: one without a status, whatever its code; one with the
    status of both processes, be the code 200 or 500; an error page that cannot be parsed. -/
inductive ApiResponse where
  | plain
  | status (st : ByProc ProcStatus)
  | broken

inductive Phase where
  | sent
  | acting
  | answered (res : ApiResponse)
  | delivered

structure Request where
  call : ApiCall
  phase : Phase
  lost : Bool

/-- A route runs, and its write of the file succeeds or not; or it fails before it does anything. -/
inductive Handling where
  | handled (written : Bool)
  | crashed
  deriving DecidableEq, Repr

/-- What the store does with an answer. -/
def AppState.respond (call : ApiCall) (res : ApiResponse) (s : AppState) : AppState :=
  match call, res with
  | .persist _, _ => { s with dirty := false }
  | .action _, .status st => { s with status := st, dirty := false }
  | .poll, .status st => { s with status := st }
  | _, _ => s

/-! ### The whole -/

/-- An open `EventSource`: the backlog message, whether it has been delivered, the emissions it was opened
    after, and the next one to deliver. -/
structure Connection where
  logs : List LogLine
  status : ByProc ProcStatus
  opened : Bool
  start : ℕ
  next : ℕ

structure Dashboard where
  pm : Manager
  file : Option ConfigFile
  store : AppState
  conn : Option Connection
  requests : List Request

/-- Right after the first load. -/
def Dashboard.loaded (base : DashboardConfig) (presets : List Preset) (file : Option ConfigFile) :
    Dashboard :=
  ⟨.fresh, file,
    ⟨some (loadConfig base file), presets, ⟨emptyStatus .server, emptyStatus .daemon⟩, [], false⟩, none, []⟩

def Dashboard.send (call : ApiCall) (d : Dashboard) : Dashboard :=
  { d with requests := d.requests ++ [⟨call, .sent, false⟩] }

def Dashboard.persist (d : Dashboard) : Dashboard :=
  match d.store.config with
  | none => d
  | some cfg => d.send (.persist cfg)

def Dashboard.runAction (d : Dashboard) : Dashboard :=
  match d.store.config with
  | none => d
  | some cfg => d.send (.action cfg)

def Dashboard.setRequest (i : ℕ) (r : Request) (d : Dashboard) : Dashboard :=
  { d with requests := d.requests.set i r }

/-- A route takes up request `i`. -/
def Dashboard.serve (i : ℕ) (h : Handling) (d : Dashboard) : Dashboard :=
  match d.requests[i]? with
  | some ⟨call, .sent, lost⟩ =>
    match call, h with
    | .persist cfg, .handled written =>
      { d with file := saveConfig written cfg d.file }.setRequest i ⟨call, .answered .plain, lost⟩
    | .persist _, .crashed => d.setRequest i ⟨call, .answered .plain, lost⟩
    | .action cfg, .handled written =>
      { d with file := saveConfig written cfg d.file }.setRequest i ⟨call, .acting, lost⟩
    | .action _, .crashed => d.setRequest i ⟨call, .answered .broken, lost⟩
    | .poll, .handled _ => d.setRequest i ⟨call, .answered (.status d.pm.allStatus), lost⟩
    | .poll, .crashed => d.setRequest i ⟨call, .answered .broken, lost⟩
  | _ => d

/-- The action of request `i` is over, in one way or the other. -/
def Dashboard.finish (i : ℕ) (d : Dashboard) : Dashboard :=
  match d.requests[i]? with
  | some ⟨call, .acting, lost⟩ => d.setRequest i ⟨call, .answered (.status d.pm.allStatus), lost⟩
  | _ => d

/-- The answer to request `i` arrives. -/
def Dashboard.deliver (i : ℕ) (d : Dashboard) : Dashboard :=
  match d.requests[i]? with
  | some ⟨call, .answered res, false⟩ =>
    { d with store := d.store.respond call res }.setRequest i ⟨call, .delivered, false⟩
  | _ => d

/-- The browser gives request `i` up. -/
def Dashboard.lose (i : ℕ) (d : Dashboard) : Dashboard :=
  match d.requests[i]? with
  | some r => d.setRequest i { r with lost := true }
  | none => d

/-- What `GET /api/logs` sends first, and where its subscription begins. -/
def Manager.subscribe (m : Manager) : Connection where
  logs := lastN maxBacklog m.allLogs
  status := m.allStatus
  opened := false
  start := m.emitted.length
  next := m.emitted.length

@[simp] theorem subscribe_logs (m : Manager) : m.subscribe.logs = lastN maxBacklog m.allLogs := by
  rw [Manager.subscribe]

@[simp] theorem subscribe_status (m : Manager) : m.subscribe.status = m.allStatus := by
  rw [Manager.subscribe]

@[simp] theorem subscribe_opened (m : Manager) : m.subscribe.opened = false := by
  rw [Manager.subscribe]

@[simp] theorem subscribe_start (m : Manager) : m.subscribe.start = m.emitted.length := by
  rw [Manager.subscribe]

@[simp] theorem subscribe_next (m : Manager) : m.subscribe.next = m.emitted.length := by
  rw [Manager.subscribe]

def Dashboard.connect (d : Dashboard) : Dashboard := { d with conn := some d.pm.subscribe }

/-- The next message of the connection arrives, the backlog first. -/
def Dashboard.receive (d : Dashboard) : Dashboard :=
  match d.conn with
  | none => d
  | some k =>
    if k.opened then
      match d.pm.emitted[k.next]? with
      | none => d
      | some e => { d with store := d.store.hear e, conn := some { k with next := k.next + 1 } }
    else { d with store := d.store.setBacklog k.logs k.status, conn := some { k with opened := true } }

inductive DashEvent where
  | patchServer (patch : ServerPatch)
  | patchDaemon (patch : DaemonPatch)
  | applyPreset (id : String)
  | persist
  | runAction
  | pollStatus
  | serve (i : ℕ) (h : Handling)
  | finish (i : ℕ)
  | deliver (i : ℕ)
  | lose (i : ℕ)
  | manager (e : ManagerEvent)
  | connect
  | disconnect
  | receive

def Dashboard.step (d : Dashboard) : DashEvent → Dashboard
  | .patchServer patch => { d with store := d.store.patchServer patch }
  | .patchDaemon patch => { d with store := d.store.patchDaemon patch }
  | .applyPreset id => { d with store := d.store.applyPreset id }
  | .persist => d.persist
  | .runAction => d.runAction
  | .pollStatus => d.send .poll
  | .serve i h => d.serve i h
  | .finish i => d.finish i
  | .deliver i => d.deliver i
  | .lose i => d.lose i
  | .manager e => { d with pm := d.pm.step e }
  | .connect => d.connect
  | .disconnect => { d with conn := none }
  | .receive => d.receive

/-! ### Steps that leave the store alone -/

/-- Only the requests differ. -/
def OnlyRequests (d d' : Dashboard) : Prop := ∃ requests, d' = { d with requests := requests }

theorem persist_only (d : Dashboard) : OnlyRequests d d.persist := by
  rw [Dashboard.persist]
  split <;> exact ⟨_, rfl⟩

theorem runAction_only (d : Dashboard) : OnlyRequests d d.runAction := by
  rw [Dashboard.runAction]
  split <;> exact ⟨_, rfl⟩

theorem finish_only (i : ℕ) (d : Dashboard) : OnlyRequests d (d.finish i) := by
  rw [Dashboard.finish]
  split <;> exact ⟨_, rfl⟩

theorem lose_only (i : ℕ) (d : Dashboard) : OnlyRequests d (d.lose i) := by
  rw [Dashboard.lose]
  split <;> exact ⟨_, rfl⟩

/-- A route takes up a request that was sent, or does nothing; of the rest it changes the file only. -/
theorem serve_cases (i : ℕ) (how : Handling) (d : Dashboard) :
    d.serve i how = d ∨
      ∃ r r' file, d.requests[i]? = some r ∧ r.phase = .sent ∧
        d.serve i how = { d with file := file, requests := d.requests.set i r' } ∧ r'.call = r.call := by
  rw [Dashboard.serve]
  rcases hr : d.requests[i]? with _ | ⟨call, phase, lost⟩
  · exact Or.inl rfl
  · rcases phase with _ | _ | res | _
    · right
      cases call <;> cases how <;> exact ⟨_, _, _, rfl, rfl, rfl, rfl⟩
    · exact Or.inl rfl
    · exact Or.inl rfl
    · exact Or.inl rfl

/-- An answer that is there and not lost is acted on; anything else is no answer. -/
theorem deliver_cases (i : ℕ) (d : Dashboard) :
    (d.deliver i = d ∧ ∀ call res, d.requests[i]? ≠ some ⟨call, .answered res, false⟩) ∨
      ∃ call res, d.requests[i]? = some ⟨call, .answered res, false⟩ ∧
        d.deliver i =
          { d with
            store := d.store.respond call res
            requests := d.requests.set i ⟨call, .delivered, false⟩ } := by
  rw [Dashboard.deliver]
  split
  · rename_i call res hr
    exact Or.inr ⟨call, res, hr, rfl⟩
  · rename_i hno
    exact Or.inl ⟨rfl, fun call res hr => hno call res hr⟩

/-- What arrives on a connection: nothing, the backlog, or the next of what was emitted since. -/
theorem receive_cases (d : Dashboard) :
    d.receive = d ∨
      ∃ k, d.conn = some k ∧
        (k.opened = false ∧ d.receive =
            { d with store := d.store.setBacklog k.logs k.status, conn := some { k with opened := true } } ∨
          k.opened = true ∧ ∃ e, d.pm.emitted[k.next]? = some e ∧ d.receive =
            { d with store := d.store.hear e, conn := some { k with next := k.next + 1 } }) := by
  simp only [Dashboard.receive]
  rcases hk : d.conn with _ | k
  · exact Or.inl rfl
  · simp only
    split
    · rename_i hopen
      rcases he : d.pm.emitted[k.next]? with _ | e
      · exact Or.inl rfl
      · exact Or.inr ⟨k, rfl, Or.inr ⟨hopen, e, he, rfl⟩⟩
    · rename_i hclosed
      exact Or.inr ⟨k, rfl, Or.inl ⟨by simpa using hclosed, rfl⟩⟩

theorem receive_requests (d : Dashboard) : d.receive.requests = d.requests := by
  rcases receive_cases d with heq | ⟨k, -, ⟨-, heq⟩ | ⟨-, e, -, heq⟩⟩ <;> rw [heq]

theorem receive_pm (d : Dashboard) : d.receive.pm = d.pm := by
  rcases receive_cases d with heq | ⟨k, -, ⟨-, heq⟩ | ⟨-, e, -, heq⟩⟩ <;> rw [heq]

/-! ### Steps beside the stream -/

/-- The manager, the connection and what the store shows of them are the same. -/
structure SameView (d d' : Dashboard) : Prop where
  pm : d'.pm = d.pm
  conn : d'.conn = d.conn
  logs : d'.store.logs = d.store.logs
  status : d'.store.status = d.store.status

theorem Edited.view {d : Dashboard} {store : AppState} (h : Edited d.store store) :
    SameView d { d with store := store } := by
  rcases h with rfl | ⟨config, rfl⟩ <;> exact ⟨rfl, rfl, rfl, rfl⟩

theorem OnlyRequests.view {d d' : Dashboard} (h : OnlyRequests d d') : SameView d d' := by
  obtain ⟨requests, rfl⟩ := h
  exact ⟨rfl, rfl, rfl, rfl⟩

theorem serve_view (i : ℕ) (how : Handling) (d : Dashboard) : SameView d (d.serve i how) := by
  rcases serve_cases i how d with heq | ⟨r, r', file, -, -, heq, -⟩ <;> rw [heq] <;> exact ⟨rfl, rfl, rfl, rfl⟩

/-- Which steps matter to what the store shows of the manager. -/
theorem step_view (d : Dashboard) (e : DashEvent) :
    SameView d (d.step e) ∨ (∃ i, e = .deliver i) ∨ (∃ m, e = .manager m) ∨ e = .connect ∨
      e = .disconnect ∨ e = .receive := by
  cases e with
  | patchServer patch => exact Or.inl (patchServer_edited patch d.store).view
  | patchDaemon patch => exact Or.inl (patchDaemon_edited patch d.store).view
  | applyPreset id => exact Or.inl (applyPreset_edited id d.store).view
  | persist => exact Or.inl (persist_only d).view
  | runAction => exact Or.inl (runAction_only d).view
  | pollStatus => exact Or.inl ⟨rfl, rfl, rfl, rfl⟩
  | serve i how => exact Or.inl (serve_view i how d)
  | finish i => exact Or.inl (finish_only i d).view
  | lose i => exact Or.inl (lose_only i d).view
  | deliver i => simp
  | manager m => simp
  | connect => simp
  | disconnect => simp
  | receive => simp

end DsparkEdge.Ui
