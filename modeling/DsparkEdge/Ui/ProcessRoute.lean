import DsparkEdge.Ui.LaunchArgs
import DsparkEdge.Ui.Stopping

/-! `POST /api/process` (`app/api/process/route.ts`): any number of requests at a time, each of them a script of
    calls to the process manager with waits in between.

        start-…     save ─▶ start ─▶ 200 or 500
        stop-…      save ─▶ stop ┄┄ settled ┄┄▶ 200
        stop-all    save ─▶ stop server, stop daemon ┄┄ both settled ┄┄▶ 200
        quickstart  save ─▶ start daemon ─▶ 500
                                 └┄┄ 1.2 s ┄┄▶ start server ─▶ 200 or 500

    The event loop runs one callback at a time: a request takes turns, and between two of them anything may
    happen. `calls` is a ghost, all calls of the manager that the requests made, with the request's number. -/

namespace DsparkEdge.Ui

open Runs

/-! ### Command lines -/

def FlashAttn.name : FlashAttn → String
  | .on => "on"
  | .off => "off"

/-- `num` is JavaScript's `String` of a number that need not be an integer. -/
def serverArgs (num : ℚ → String) (cfg : ServerConfig) : List String :=
  ["-m", cfg.targetModel, "--host", cfg.host, "--port", toString cfg.httpPort,
    "--ctx-size", toString cfg.ctxSize, "--n-gpu-layers", toString cfg.nGpuLayers,
    "--flash-attn", cfg.flashAttn.name, "--parallel", toString cfg.parallel,
    "--temp", num cfg.temp, "--top-k", toString cfg.topK] ++
  (if cfg.remoteSpec then
    ["--spec-type", "draft-remote-dspark", "--spec-draft-remote-grpc", cfg.grpcTarget,
      "--spec-draft-n-max", toString cfg.nMax]
  else []) ++
  tokenizeExtra cfg.extraArgs

/-- A binary and its arguments. -/
structure Command where
  bin : String
  args : List String
  deriving DecidableEq, Repr

/-- `${bin} ${args.join(" ")}`. -/
def Command.text (c : Command) : String := c.bin ++ " " ++ String.intercalate " " c.args

/-- The command line that a configuration gives a process. -/
def DashboardConfig.command (num : ℚ → String) (cfg : DashboardConfig) : ProcId → Command
  | .server => ⟨cfg.server.bin, serverArgs num cfg.server⟩
  | .daemon => ⟨cfg.daemon.bin, daemonArgs cfg.daemon⟩

/-- What a start meets: whether the binary is there, what `spawn` does, the time. -/
structure StartHost where
  binExists : Bool
  spawn : SpawnOutcome
  now : ℕ

section

variable (num : ℚ → String)

def Manager.startServer (cfg : ServerConfig) (h : StartHost) (m : Manager) : Except String ProcStatus × Manager :=
  m.start .server cfg.bin (serverArgs num cfg) h.binExists h.spawn h.now

def Manager.startDaemon (cfg : DaemonConfig) (h : StartHost) (m : Manager) : Except String ProcStatus × Manager :=
  m.start .daemon cfg.bin (daemonArgs cfg) h.binExists h.spawn h.now

/-- The one or the other. -/
def Manager.startProc (cfg : DashboardConfig) (h : StartHost) (m : Manager) :
    ProcId → Except String ProcStatus × Manager
  | .server => m.startServer num cfg.server h
  | .daemon => m.startDaemon cfg.daemon h

theorem startProc_eq (cfg : DashboardConfig) (h : StartHost) (m : Manager) (id : ProcId) :
    m.startProc num cfg h id =
      m.start id (cfg.command num id).bin (cfg.command num id).args h.binExists h.spawn h.now := by
  cases id <;> rfl

end

/-- The call that a `stop` has its caller wait for, if it finds a child. -/
def Manager.awaited (id : ProcId) (m : Manager) : Option ℕ :=
  match (m.procs.get id).child, (m.procs.get id).status.pid with
  | some _, some _ => some m.stops.length
  | _, _ => none

/-! ### Requests -/

/-- `start-server`, `start-daemon`, `stop-server`, `stop-daemon`, `quickstart`, `stop-all`, or anything else. -/
inductive ProcessAction where
  | start (id : ProcId)
  | stop (id : ProcId)
  | quickstart
  | stopAll
  | unknown
  deriving DecidableEq, Repr

structure ActionBody where
  action : ProcessAction
  config : Option DashboardConfig

/-- The answer's code and JSON. -/
structure ActionAnswer where
  code : ℕ
  error : Option String
  status : Option (ByProc ProcStatus)
  deriving DecidableEq, Repr

def succeeded (m : Manager) : ActionAnswer := ⟨200, none, some m.allStatus⟩

def failed (msg : String) (m : Manager) : ActionAnswer := ⟨500, some msg, some m.allStatus⟩

def unknownAction : ActionAnswer := ⟨400, some "unknown action", none⟩

/-- The `TypeError` of `config.server` or `config.daemon` without a configuration in the body. A JSON `null` in
    its place, which is not modelled, fails alike with "null" for "undefined". -/
def missingConfig (id : ProcId) : String := "Cannot read properties of undefined (reading '" ++ id.name ++ "')"

/-- How far a request got: asleep before its second start, waiting for stop calls, or answered. -/
inductive Progress where
  | sleeping (cfg : DashboardConfig)
  | stopping (ks : List ℕ)
  | answered (res : ActionAnswer)

/-- A call of the manager: a start and whether it returned, or a stop and the call it waits for. -/
inductive ManagerCall where
  | start (id : ProcId) (c : Command) (ok : Bool)
  | stop (id : ProcId) (k : Option ℕ)
  deriving DecidableEq, Repr

/-- One turn of a request. -/
structure Turn where
  calls : List ManagerCall
  pm : Manager
  progress : Progress

variable (num : ℚ → String)

/-- A start, and what comes after it unless it throws. -/
def startTurn (id : ProcId) (cfg : DashboardConfig) (h : StartHost) (next : Manager → Progress) (m : Manager) : Turn :=
  match m.startProc num cfg h id with
  | (.ok _, m') => ⟨[.start id (cfg.command num id) true], m', next m'⟩
  | (.error msg, m') => ⟨[.start id (cfg.command num id) false], m', .answered (failed msg m')⟩

/-- The first turn, up to the first wait. -/
def firstTurn (body : ActionBody) (h : StartHost) (m : Manager) : Turn :=
  match body.action, body.config with
  | .start id, some cfg => startTurn num id cfg h (fun m => .answered (succeeded m)) m
  | .start id, none => ⟨[], m, .answered (failed (missingConfig id) m)⟩
  | .stop id, _ => ⟨[.stop id (m.awaited id)], m.stop id, .stopping (m.awaited id).toList⟩
  | .quickstart, some cfg => startTurn num .daemon cfg h (fun _ => .sleeping cfg) m
  | .quickstart, none => ⟨[], m, .answered (failed (missingConfig .daemon) m)⟩
  | .stopAll, _ =>
    let k := m.awaited .server
    let k' := (m.stop .server).awaited .daemon
    ⟨[.stop .server k, .stop .daemon k'], (m.stop .server).stop .daemon, .stopping (k.toList ++ k'.toList)⟩
  | .unknown, _ => ⟨[], m, .answered unknownAction⟩

/-- Stop call `k` is settled. -/
def Manager.settled (m : Manager) (k : ℕ) : Bool := (m.stops[k]?.map StopCall.settled).getD false

/-- The turn behind a wait, when the wait may be over. -/
def nextTurn (h : StartHost) (m : Manager) : Progress → Option Turn
  | .sleeping cfg => some (startTurn num .server cfg h (fun m => .answered (succeeded m)) m)
  | .stopping ks => if ks.all m.settled then some ⟨[], m, .answered (succeeded m)⟩ else none
  | .answered _ => none

/-! ### The route -/

structure Post where
  body : ActionBody
  progress : Progress

structure ProcessRoute where
  pm : Manager
  file : Option ConfigFile
  posts : List Post
  calls : List (ℕ × ManagerCall)

def ProcessRoute.fresh (file : Option ConfigFile) : ProcessRoute := ⟨.fresh, file, [], []⟩

/-- What happens to the manager by itself: its timers, and what the children do. -/
inductive WorldEvent where
  | sigterm (k : ℕ)
  | sigkill (k : ℕ)
  | exit (c : ℕ) (code : Option ℤ) (signal : Option String) (now : ℕ)
  | error (c : ℕ) (msg : String)
  | data (id : ProcId) (stream : LogStream) (text : String)

def WorldEvent.event : WorldEvent → ManagerEvent
  | .sigterm k => .sigterm k
  | .sigkill k => .sigkill k
  | .exit c code signal now => .exit c code signal now
  | .error c msg => .error c msg
  | .data id stream text => .data id stream text

inductive RouteEvent where
  | post (body : ActionBody) (written : Bool) (h : StartHost)
  | resume (i : ℕ) (h : StartHost)
  | world (e : WorldEvent)

/-- `if (config) saveConfig(config)`, and the first turn. -/
def ProcessRoute.post (body : ActionBody) (written : Bool) (h : StartHost) (r : ProcessRoute) : ProcessRoute :=
  let t := firstTurn num body h r.pm
  { pm := t.pm
    file := match body.config with
      | none => r.file
      | some cfg => saveConfig written cfg r.file
    posts := r.posts ++ [⟨body, t.progress⟩]
    calls := r.calls ++ t.calls.map fun c => (r.posts.length, c) }

/-- The next turn of request `i`, if it is time for it. -/
def ProcessRoute.resume (i : ℕ) (h : StartHost) (r : ProcessRoute) : ProcessRoute :=
  match r.posts[i]? with
  | none => r
  | some post =>
    match nextTurn num h r.pm post.progress with
    | none => r
    | some t =>
      { r with
        pm := t.pm
        posts := r.posts.set i ⟨post.body, t.progress⟩
        calls := r.calls ++ t.calls.map fun c => (i, c) }

def ProcessRoute.step (r : ProcessRoute) : RouteEvent → ProcessRoute
  | .post body written h => r.post num body written h
  | .resume i h => r.resume num i h
  | .world e => { r with pm := r.pm.step e.event }

/-- The calls that request `i` made. -/
def ProcessRoute.callsOf (r : ProcessRoute) (i : ℕ) : List ManagerCall :=
  r.calls.filterMap fun c => if c.1 = i then some c.2 else none

/-! ### Scripts -/

/-- What a request of each kind has done by the time it got as far as it did. -/
inductive Script : ActionBody → Progress → List ManagerCall → Prop
  | startOk (id : ProcId) (cfg : DashboardConfig) (m : Manager) :
    Script ⟨.start id, some cfg⟩ (.answered (succeeded m)) [.start id (cfg.command num id) true]
  | startFails (id : ProcId) (cfg : DashboardConfig) (msg : String) (m : Manager) :
    Script ⟨.start id, some cfg⟩ (.answered (failed msg m)) [.start id (cfg.command num id) false]
  | startBlank (id : ProcId) (m : Manager) :
    Script ⟨.start id, none⟩ (.answered (failed (missingConfig id) m)) []
  | stopWaits (id : ProcId) (config : Option DashboardConfig) (k : Option ℕ) :
    Script ⟨.stop id, config⟩ (.stopping k.toList) [.stop id k]
  | stopOk (id : ProcId) (config : Option DashboardConfig) (k : Option ℕ) (m : Manager) :
    Script ⟨.stop id, config⟩ (.answered (succeeded m)) [.stop id k]
  | stopAllWaits (config : Option DashboardConfig) (k k' : Option ℕ) :
    Script ⟨.stopAll, config⟩ (.stopping (k.toList ++ k'.toList)) [.stop .server k, .stop .daemon k']
  | stopAllOk (config : Option DashboardConfig) (k k' : Option ℕ) (m : Manager) :
    Script ⟨.stopAll, config⟩ (.answered (succeeded m)) [.stop .server k, .stop .daemon k']
  | quickSleeps (cfg : DashboardConfig) :
    Script ⟨.quickstart, some cfg⟩ (.sleeping cfg) [.start .daemon (cfg.command num .daemon) true]
  | quickOk (cfg : DashboardConfig) (m : Manager) :
    Script ⟨.quickstart, some cfg⟩ (.answered (succeeded m))
      [.start .daemon (cfg.command num .daemon) true, .start .server (cfg.command num .server) true]
  | quickFails (cfg : DashboardConfig) (msg : String) (m : Manager) :
    Script ⟨.quickstart, some cfg⟩ (.answered (failed msg m)) [.start .daemon (cfg.command num .daemon) false]
  | quickHalf (cfg : DashboardConfig) (msg : String) (m : Manager) :
    Script ⟨.quickstart, some cfg⟩ (.answered (failed msg m))
      [.start .daemon (cfg.command num .daemon) true, .start .server (cfg.command num .server) false]
  | quickBlank (m : Manager) : Script ⟨.quickstart, none⟩ (.answered (failed (missingConfig .daemon) m)) []
  | unknown (config : Option DashboardConfig) : Script ⟨.unknown, config⟩ (.answered unknownAction) []

/-- A start returns and the turn goes on, or it throws and the request is answered. -/
theorem startTurn_cases (id : ProcId) (cfg : DashboardConfig) (h : StartHost) (next : Manager → Progress)
    (m : Manager) :
    (∃ st m', m.startProc num cfg h id = (.ok st, m') ∧
        startTurn num id cfg h next m = ⟨[.start id (cfg.command num id) true], m', next m'⟩) ∨
      ∃ msg m', m.startProc num cfg h id = (.error msg, m') ∧
        startTurn num id cfg h next m = ⟨[.start id (cfg.command num id) false], m', .answered (failed msg m')⟩ := by
  rw [startTurn]
  rcases hstart : m.startProc num cfg h id with ⟨msg | st, m'⟩
  · exact Or.inr ⟨msg, m', rfl, rfl⟩
  · exact Or.inl ⟨st, m', rfl, rfl⟩

variable {num}

theorem firstTurn_script (body : ActionBody) (h : StartHost) (m : Manager) :
    Script num body (firstTurn num body h m).progress (firstTurn num body h m).calls := by
  rcases body with ⟨action, config⟩
  cases action with
  | start id =>
    cases config with
    | none => exact .startBlank id m
    | some cfg =>
      rcases startTurn_cases num id cfg h (fun m => .answered (succeeded m)) m with
        ⟨st, m', -, heq⟩ | ⟨msg, m', -, heq⟩
      · simp only [firstTurn, heq]
        exact .startOk id cfg m'
      · simp only [firstTurn, heq]
        exact .startFails id cfg msg m'
  | stop id => exact .stopWaits id config (m.awaited id)
  | quickstart =>
    cases config with
    | none => exact .quickBlank m
    | some cfg =>
      rcases startTurn_cases num .daemon cfg h (fun _ => .sleeping cfg) m with
        ⟨st, m', -, heq⟩ | ⟨msg, m', -, heq⟩
      · simp only [firstTurn, heq]
        exact .quickSleeps cfg
      · simp only [firstTurn, heq]
        exact .quickFails cfg msg m'
  | stopAll => exact .stopAllWaits config _ _
  | unknown => exact .unknown config

/-- A later turn carries the script on. -/
theorem nextTurn_script {body : ActionBody} {progress : Progress} {calls : List ManagerCall}
    (hs : Script num body progress calls) {h : StartHost} {m : Manager} {t : Turn}
    (ht : nextTurn num h m progress = some t) : Script num body t.progress (calls ++ t.calls) := by
  cases hs with
  | stopWaits id config k =>
    rw [nextTurn] at ht
    split at ht
    · obtain rfl := Option.some.inj ht
      exact .stopOk id config k m
    · cases ht
  | stopAllWaits config k k' =>
    rw [nextTurn] at ht
    split at ht
    · obtain rfl := Option.some.inj ht
      exact .stopAllOk config k k' m
    · cases ht
  | quickSleeps cfg =>
    obtain rfl := Option.some.inj ht
    rcases startTurn_cases num .server cfg h (fun m => .answered (succeeded m)) m with
      ⟨st, m', -, heq⟩ | ⟨msg, m', -, heq⟩
    · rw [heq]
      exact .quickOk cfg m'
    · rw [heq]
      exact .quickHalf cfg msg m'
  | _ => cases ht

/-! ### Runs -/

/-- Every call is the call of a request, and every request follows its script. -/
structure Scripted (num : ℚ → String) (r : ProcessRoute) : Prop where
  made : ∀ c ∈ r.calls, c.1 < r.posts.length
  script : ∀ i post, r.posts[i]? = some post → Script num post.body post.progress (r.callsOf i)

theorem callsOf_append (r : ProcessRoute) (pm : Manager) (file : Option ConfigFile) (posts : List Post)
    (i j : ℕ) (calls : List ManagerCall) :
    ProcessRoute.callsOf ⟨pm, file, posts, r.calls ++ calls.map fun c => (i, c)⟩ j =
      r.callsOf j ++ if i = j then calls else [] := by
  rw [ProcessRoute.callsOf, List.filterMap_append, ← ProcessRoute.callsOf]
  congr 1
  by_cases hij : i = j
  · simp [hij, List.filterMap_map]
  · simp [hij, List.filterMap_map]

theorem Scripted.callsOf_new {r : ProcessRoute} (h : Scripted num r) : r.callsOf r.posts.length = [] := by
  rw [ProcessRoute.callsOf, List.filterMap_eq_nil_iff]
  intro c hc
  rw [if_neg (Nat.ne_of_lt (h.made c hc))]

theorem scripted_post {r : ProcessRoute} (h : Scripted num r) (body : ActionBody) (written : Bool)
    (host : StartHost) : Scripted num (r.post num body written host) where
  made := by
    intro c hc
    rw [ProcessRoute.post, List.length_append, List.length_singleton]
    rcases List.mem_append.mp hc with hold | hnew
    · exact Nat.lt_succ_of_lt (h.made c hold)
    · obtain ⟨c', -, rfl⟩ := List.mem_map.mp hnew
      exact Nat.lt_succ_self _
  script := by
    intro i post hpost
    have hlt := (List.getElem?_eq_some_iff.mp hpost).1
    simp only [ProcessRoute.post, List.length_append, List.length_singleton] at hpost hlt
    rw [ProcessRoute.post, callsOf_append]
    rcases Nat.lt_succ_iff_lt_or_eq.mp hlt with hold | rfl
    · rw [List.getElem?_append_left hold] at hpost
      rw [if_neg (Nat.ne_of_gt hold), List.append_nil]
      exact h.script i post hpost
    · rw [List.getElem?_concat_length] at hpost
      rw [← Option.some.inj hpost, if_pos rfl, h.callsOf_new, List.nil_append]
      exact firstTurn_script body host r.pm

/-- A resumption takes the next turn of its request, or does nothing. -/
theorem resume_cases (num : ℚ → String) (i : ℕ) (h : StartHost) (r : ProcessRoute) :
    r.resume num i h = r ∨ ∃ post t, r.posts[i]? = some post ∧ nextTurn num h r.pm post.progress = some t ∧
      r.resume num i h = ⟨t.pm, r.file, r.posts.set i ⟨post.body, t.progress⟩,
        r.calls ++ t.calls.map fun c => (i, c)⟩ := by
  rw [ProcessRoute.resume]
  cases hpost : r.posts[i]? with
  | none => exact Or.inl rfl
  | some post =>
    cases ht : nextTurn num h r.pm post.progress with
    | none => exact Or.inl (by simp only [ht])
    | some t => exact Or.inr ⟨post, t, rfl, ht, by simp only [ht]⟩

theorem scripted_resume {r : ProcessRoute} (h : Scripted num r) (i : ℕ) (host : StartHost) :
    Scripted num (r.resume num i host) := by
  rcases resume_cases num i host r with heq | ⟨post, t, hpost, ht, heq⟩ <;> rw [heq]
  · exact h
  · have hi := (List.getElem?_eq_some_iff.mp hpost).1
    refine ⟨fun c hc => ?_, fun j post' hpost' => ?_⟩
    · rw [List.length_set]
      rcases List.mem_append.mp hc with hold | hnew
      · exact h.made c hold
      · obtain ⟨c', -, rfl⟩ := List.mem_map.mp hnew
        exact hi
    · rw [callsOf_append]
      rcases eq_or_ne i j with rfl | hij
      · rw [List.getElem?_set_self hi] at hpost'
        rw [← Option.some.inj hpost', if_pos rfl]
        exact nextTurn_script (h.script i post hpost) ht
      · rw [List.getElem?_set_ne hij] at hpost'
        rw [if_neg hij, List.append_nil]
        exact h.script j post' hpost'

theorem scripted_step {r : ProcessRoute} (h : Scripted num r) (e : RouteEvent) : Scripted num (r.step num e) := by
  cases e with
  | post body written host => exact scripted_post h body written host
  | resume i host => exact scripted_resume h i host
  | world e => exact ⟨h.made, h.script⟩

theorem scripted_exec (num : ℚ → String) (file : Option ConfigFile) (es : List RouteEvent) :
    Scripted num (exec (ProcessRoute.step num) (.fresh file) es) :=
  exec_inv_free (Scripted num) (fun _ e h => scripted_step h e)
    ⟨fun c hc => (by cases hc), fun i post hpost => (by simp [ProcessRoute.fresh] at hpost)⟩ es

/-- ACTIONS: however the requests, the timers and the children interleave, each request has made exactly the calls
    of its own script, with its own configuration: a quickstart starts the daemon first and the server only if that
    returned, and an answer of 200 means that every start returned. -/
theorem actions_follow_script (num : ℚ → String) (file : Option ConfigFile) (es : List RouteEvent) (i : ℕ)
    (post : Post) (h : (exec (ProcessRoute.step num) (.fresh file) es).posts[i]? = some post) :
    Script num post.body post.progress ((exec (ProcessRoute.step num) (.fresh file) es).callsOf i) :=
  (scripted_exec num file es).script i post h

/-- A quickstart whose two starts return, with a stop in between that finds the daemon. -/
def quickstartRun : List RouteEvent :=
  [.post ⟨.quickstart, some bareConfig⟩ true ⟨true, .runs 100, 1⟩, .post ⟨.stop .daemon, some bareConfig⟩ true ⟨true, .fails, 2⟩,
    .resume 0 ⟨true, .runs 101, 3⟩]

theorem actions_follow_script_quick :
    let r := exec (ProcessRoute.step toString) (.fresh none) quickstartRun
    r.calls.map Prod.fst = [0, 1, 0] ∧
      ∃ post, r.posts[0]? = some post ∧ Script toString post.body post.progress (r.callsOf 0) :=
  ⟨by decide, _, rfl, actions_follow_script toString none quickstartRun 0 _ rfl⟩

end DsparkEdge.Ui
