import DsparkEdge.Ui.Dashboard
import DsparkEdge.Ui.Launches

/-! The dashboard with its buttons: `runAction` of the store posts a named action with the configuration, and what
    it does is the script of `POST /api/process`. In `Dashboard` the same action is a request that acts for a while,
    with any events of the manager meanwhile.

        button ─▶ sent ─▶ posted k: first turn ┄┄ next turn ─▶ answered ─▶ delivered       Console
                  sent ─▶ acting ┄┄┄┄ any manager events ┄┄┄┄▶ answered ─▶ delivered       Dashboard

    `Console.dashboard` forgets which action it was and how far its script got. -/

namespace DsparkEdge.Ui

open Runs

/-- `ActionName` of the store. -/
inductive ActionName where
  | start (id : ProcId)
  | stop (id : ProcId)
  | quickstart
  | stopAll
  deriving DecidableEq, Repr

def ActionName.action : ActionName → ProcessAction
  | .start id => .start id
  | .stop id => .stop id
  | .quickstart => .quickstart
  | .stopAll => .stopAll

inductive ConsoleCall where
  | persist (cfg : DashboardConfig)
  | action (a : ActionName) (cfg : DashboardConfig)
  | poll

/-- An action that the route has taken up is one of its posts. -/
inductive ConsolePhase where
  | sent
  | posted (k : ℕ)
  | answered (res : ApiResponse)
  | delivered

structure ConsoleRequest where
  call : ConsoleCall
  phase : ConsolePhase
  lost : Bool

structure Console where
  route : ProcessRoute
  store : AppState
  conn : Option Connection
  requests : List ConsoleRequest

/-! ### What the store sees of a request -/

def ConsoleCall.seen : ConsoleCall → ApiCall
  | .persist cfg => .persist cfg
  | .action _ cfg => .action cfg
  | .poll => .poll

/-- `data.status`, whatever the code. -/
def ActionAnswer.seen (res : ActionAnswer) : ApiResponse :=
  match res.status with
  | some st => .status st
  | none => .plain

def Progress.seen : Progress → Phase
  | .answered res => .answered res.seen
  | _ => .acting

def ConsolePhase.seen (posts : List Post) : ConsolePhase → Phase
  | .sent => .sent
  | .posted k => ((posts[k]?).map fun post => post.progress.seen).getD .acting
  | .answered res => .answered res
  | .delivered => .delivered

def ConsoleRequest.seen (posts : List Post) (r : ConsoleRequest) : Request := ⟨r.call.seen, r.phase.seen posts, r.lost⟩

def Console.dashboard (c : Console) : Dashboard :=
  ⟨c.route.pm, c.route.file, c.store, c.conn, c.requests.map (ConsoleRequest.seen c.route.posts)⟩

/-! ### Steps -/

/-- Right after the first load. -/
def Console.loaded (base : DashboardConfig) (presets : List Preset) (file : Option ConfigFile) : Console :=
  ⟨.fresh file,
    ⟨some (loadConfig base file), presets, ⟨emptyStatus .server, emptyStatus .daemon⟩, [], false⟩, none, []⟩

def Console.send (call : ConsoleCall) (c : Console) : Console :=
  { c with requests := c.requests ++ [⟨call, .sent, false⟩] }

def Console.persist (c : Console) : Console :=
  match c.store.config with
  | none => c
  | some cfg => c.send (.persist cfg)

def Console.runAction (a : ActionName) (c : Console) : Console :=
  match c.store.config with
  | none => c
  | some cfg => c.send (.action a cfg)

def Console.setRequest (i : ℕ) (r : ConsoleRequest) (c : Console) : Console :=
  { c with requests := c.requests.set i r }

/-- A route takes up request `i`; an action takes its first turn. -/
def Console.serve (num : ℚ → String) (i : ℕ) (how : Handling) (host : StartHost) (c : Console) : Console :=
  match c.requests[i]? with
  | some ⟨call, .sent, lost⟩ =>
    match call, how with
    | .persist cfg, .handled written =>
      { c with route := { c.route with file := saveConfig written cfg c.route.file } }.setRequest i
        ⟨call, .answered .plain, lost⟩
    | .persist _, .crashed => c.setRequest i ⟨call, .answered .plain, lost⟩
    | .action a cfg, .handled written =>
      { c with route := c.route.post num ⟨a.action, some cfg⟩ written host }.setRequest i
        ⟨call, .posted c.route.posts.length, lost⟩
    | .action _ _, .crashed => c.setRequest i ⟨call, .answered .broken, lost⟩
    | .poll, .handled _ => c.setRequest i ⟨call, .answered (.status c.route.pm.allStatus), lost⟩
    | .poll, .crashed => c.setRequest i ⟨call, .answered .broken, lost⟩
  | _ => c

/-- The answer to request `i` arrives. -/
def Console.deliver (i : ℕ) (c : Console) : Console :=
  match c.requests[i]? with
  | some ⟨call, phase, false⟩ =>
    match phase.seen c.route.posts with
    | .answered res => { c with store := c.store.respond call.seen res }.setRequest i ⟨call, .delivered, false⟩
    | _ => c
  | _ => c

/-- The browser gives request `i` up. -/
def Console.lose (i : ℕ) (c : Console) : Console :=
  match c.requests[i]? with
  | some r => c.setRequest i { r with lost := true }
  | none => c

/-- The next message of the connection arrives, the backlog first. -/
def Console.receive (c : Console) : Console :=
  match c.conn with
  | none => c
  | some k =>
    if k.opened then
      match c.route.pm.emitted[k.next]? with
      | none => c
      | some e => { c with store := c.store.hear e, conn := some { k with next := k.next + 1 } }
    else { c with store := c.store.setBacklog k.logs k.status, conn := some { k with opened := true } }

inductive ConsoleEvent where
  | patchServer (patch : ServerPatch)
  | patchDaemon (patch : DaemonPatch)
  | applyPreset (id : String)
  | persist
  | runAction (a : ActionName)
  | pollStatus
  | serve (i : ℕ) (how : Handling) (host : StartHost)
  | resume (k : ℕ) (host : StartHost)
  | deliver (i : ℕ)
  | lose (i : ℕ)
  | world (e : WorldEvent)
  | connect
  | disconnect
  | receive

def Console.step (num : ℚ → String) (c : Console) : ConsoleEvent → Console
  | .patchServer patch => { c with store := c.store.patchServer patch }
  | .patchDaemon patch => { c with store := c.store.patchDaemon patch }
  | .applyPreset id => { c with store := c.store.applyPreset id }
  | .persist => c.persist
  | .runAction a => c.runAction a
  | .pollStatus => c.send .poll
  | .serve i how host => c.serve num i how host
  | .resume k host => { c with route := c.route.resume num k host }
  | .deliver i => c.deliver i
  | .lose i => c.lose i
  | .world e => { c with route := c.route.step num (.world e) }
  | .connect => { c with conn := some c.route.pm.subscribe }
  | .disconnect => { c with conn := none }
  | .receive => c.receive

/-! ### The easy steps -/

variable {num : ℚ → String} {c : Console}

theorem dashboard_send (call : ConsoleCall) (c : Console) : (c.send call).dashboard = c.dashboard.send call.seen := by
  simp [Console.send, Console.dashboard, Dashboard.send, ConsoleRequest.seen, ConsolePhase.seen]

theorem dashboard_set (i : ℕ) (r : ConsoleRequest) (c : Console) :
    (c.setRequest i r).dashboard = c.dashboard.setRequest i (r.seen c.route.posts) := by
  simp only [Console.setRequest, Console.dashboard, Dashboard.setRequest, List.map_set]

theorem dashboard_get (i : ℕ) (c : Console) :
    c.dashboard.requests[i]? = (c.requests[i]?).map (ConsoleRequest.seen c.route.posts) := List.getElem?_map ..

theorem dashboard_persist (c : Console) : c.persist.dashboard = c.dashboard.persist := by
  have hstore : c.dashboard.store = c.store := rfl
  rw [Console.persist, Dashboard.persist, hstore]
  cases c.store.config with
  | none => rfl
  | some cfg => exact dashboard_send _ c

theorem dashboard_runAction (a : ActionName) (c : Console) : (c.runAction a).dashboard = c.dashboard.runAction := by
  have hstore : c.dashboard.store = c.store := rfl
  rw [Console.runAction, Dashboard.runAction, hstore]
  cases c.store.config with
  | none => rfl
  | some cfg => exact dashboard_send _ c

theorem dashboard_deliver (i : ℕ) (c : Console) : (c.deliver i).dashboard = c.dashboard.deliver i := by
  rw [Console.deliver, Dashboard.deliver, dashboard_get]
  rcases c.requests[i]? with _ | ⟨call, phase, _ | _⟩
  · rfl
  · simp only [Option.map_some, ConsoleRequest.seen]
    cases hphase : phase.seen c.route.posts with
    | answered res => exact dashboard_set i _ { c with store := c.store.respond call.seen res }
    | _ => rfl
  · cases hphase : phase.seen c.route.posts <;> simp [ConsoleRequest.seen, hphase]

theorem dashboard_lose (i : ℕ) (c : Console) : (c.lose i).dashboard = c.dashboard.lose i := by
  rw [Console.lose, Dashboard.lose, dashboard_get]
  cases c.requests[i]? with
  | none => rfl
  | some r => exact dashboard_set i _ c

theorem dashboard_receive (c : Console) : c.receive.dashboard = c.dashboard.receive := by
  have hconn : c.dashboard.conn = c.conn := rfl
  rw [Console.receive, Dashboard.receive, hconn]
  cases c.conn with
  | none => rfl
  | some k =>
    simp only
    split
    · have hpm : c.dashboard.pm = c.route.pm := rfl
      rw [hpm]
      cases c.route.pm.emitted[k.next]? <;> rfl
    · rfl

/-! ### Turns -/

/-- What a turn does to the manager is a run of the manager's events. -/
theorem firstTurn_run (body : ActionBody) (host : StartHost) (m : Manager) :
    ∃ es, (firstTurn num body host m).pm = exec Manager.step m es :=
  firstTurn_inv (P := fun m' => ∃ es, m' = exec Manager.step m es)
    (fun m' e ⟨es, h⟩ => ⟨es ++ [e], by rw [exec_append, ← h]; rfl⟩) ⟨[], rfl⟩ body host

theorem nextTurn_run {host : StartHost} {m : Manager} {progress : Progress} {t : Turn}
    (ht : nextTurn num host m progress = some t) : ∃ es, t.pm = exec Manager.step m es :=
  nextTurn_inv (P := fun m' => ∃ es, m' = exec Manager.step m es)
    (fun m' e ⟨es, h⟩ => ⟨es ++ [e], by rw [exec_append, ← h]; rfl⟩) ⟨[], rfl⟩ ht

theorem exec_managers (d : Dashboard) (es : List ManagerEvent) :
    exec Dashboard.step d (es.map .manager) = { d with pm := exec Manager.step d.pm es } := by
  induction es generalizing d with
  | nil => rfl
  | cons e es ih => exact ih (d.step (.manager e))

/-- A turn goes on, or answers with the status it leaves. -/
def Turn.Answers (t : Turn) : Prop := t.progress.seen = .acting ∨ t.progress.seen = .answered (.status t.pm.allStatus)

theorem startTurn_answers (id : ProcId) (cfg : DashboardConfig) (host : StartHost) {next : Manager → Progress}
    (hnext : ∀ m, (next m).seen = .acting ∨ (next m).seen = .answered (.status m.allStatus)) (m : Manager) :
    (startTurn num id cfg host next m).Answers := by
  rcases startTurn_cases num id cfg host next m with ⟨st, m', -, heq⟩ | ⟨msg, m', -, heq⟩ <;> rw [heq]
  · exact hnext m'
  · exact Or.inr rfl

theorem firstTurn_answers (a : ActionName) (cfg : DashboardConfig) (host : StartHost) (m : Manager) :
    (firstTurn num ⟨a.action, some cfg⟩ host m).Answers := by
  cases a with
  | start id => exact startTurn_answers id cfg host (fun _ => Or.inr rfl) m
  | stop id => exact Or.inl rfl
  | quickstart => exact startTurn_answers .daemon cfg host (fun _ => Or.inl rfl) m
  | stopAll => exact Or.inl rfl

/-- The turn behind a wait is the last. -/
theorem nextTurn_answers {host : StartHost} {m : Manager} {progress : Progress} {t : Turn}
    (ht : nextTurn num host m progress = some t) :
    progress.seen = .acting ∧ t.progress.seen = .answered (.status t.pm.allStatus) := by
  cases progress with
  | sleeping cfg =>
    obtain rfl := Option.some.inj ht
    refine ⟨rfl, ?_⟩
    rcases startTurn_cases num .server cfg host (fun m => .answered (succeeded m)) m with
      ⟨st, m', -, heq⟩ | ⟨msg, m', -, heq⟩ <;> rw [heq] <;> rfl
  | stopping ks =>
    rw [nextTurn] at ht
    split at ht
    · obtain rfl := Option.some.inj ht
      exact ⟨rfl, rfl⟩
    · cases ht
  | answered res => cases ht

/-! ### Requests and posts -/

/-- The post of request `i`. -/
def Console.postOf (c : Console) (i : ℕ) : Option ℕ :=
  match c.requests[i]? with
  | some ⟨_, .posted k, _⟩ => some k
  | _ => none

/-- Every request's post is there, and is no other request's. -/
structure Owned (c : Console) : Prop where
  made : ∀ i k, c.postOf i = some k → k < c.route.posts.length
  one : ∀ i j k, c.postOf i = some k → c.postOf j = some k → i = j

theorem postOf_iff {i k : ℕ} :
    c.postOf i = some k ↔ ∃ call lost, c.requests[i]? = some ⟨call, .posted k, lost⟩ := by
  rw [Console.postOf]
  rcases c.requests[i]? with _ | ⟨call, phase, lost⟩
  · simp
  · cases phase <;> simp

/-- No post goes to another request. -/
theorem Owned.mono (h : Owned c) {c' : Console} (hsub : ∀ i k, c'.postOf i = some k → c.postOf i = some k)
    (hlen : c.route.posts.length ≤ c'.route.posts.length) : Owned c' :=
  ⟨fun i k hi => (h.made i k (hsub i k hi)).trans_le hlen, fun i j k hi hj => h.one i j k (hsub i k hi) (hsub j k hj)⟩

theorem Owned.send (h : Owned c) (call : ConsoleCall) : Owned (c.send call) := by
  refine h.mono (fun i k hi => ?_) le_rfl
  obtain ⟨call', lost, hget⟩ := postOf_iff.mp hi
  refine postOf_iff.mpr ⟨call', lost, ?_⟩
  simp only [Console.send, List.getElem?_append, List.getElem?_singleton] at hget
  split at hget
  · exact hget
  · split at hget <;> cases hget

/-- Request `i` goes on without a post, or with the one it has. -/
theorem Owned.set (h : Owned c) {i : ℕ} {r : ConsoleRequest} (hr : ∀ k, r.phase = .posted k → c.postOf i = some k) :
    Owned (c.setRequest i r) := by
  refine h.mono (fun j k hj => ?_) le_rfl
  obtain ⟨call, lost, hget⟩ := postOf_iff.mp hj
  simp only [Console.setRequest, List.getElem?_set] at hget
  split at hget
  case isTrue heq =>
    split at hget
    · subst heq
      cases hget
      exact hr k rfl
    · cases hget
  case isFalse => exact postOf_iff.mpr ⟨call, lost, hget⟩

/-- Who has a post when request `i` gets a new one. -/
theorem postOf_new {c' : Console} {i j k n : ℕ} {call : ConsoleCall} {lost : Bool} (hreq : c'.requests = c.requests)
    (h : (c'.setRequest i ⟨call, .posted n, lost⟩).postOf j = some k) :
    j = i ∧ k = n ∨ c.postOf j = some k := by
  obtain ⟨call', lost', hget⟩ := postOf_iff.mp h
  simp only [Console.setRequest, List.getElem?_set, hreq] at hget
  split at hget
  case isTrue heq =>
    split at hget
    · cases hget
      exact Or.inl ⟨heq.symm, rfl⟩
    · cases hget
  case isFalse => exact Or.inr (postOf_iff.mpr ⟨call', lost', hget⟩)

theorem Owned.post (h : Owned c) (i : ℕ) (call : ConsoleCall) (lost : Bool) (body : ActionBody) (written : Bool)
    (host : StartHost) :
    Owned ({ c with route := c.route.post num body written host }.setRequest i
      ⟨call, .posted c.route.posts.length, lost⟩) where
  made := by
    intro j k hj
    have hlen : (c.route.post num body written host).posts.length = c.route.posts.length + 1 := by
      simp [ProcessRoute.post]
    change k < (c.route.post num body written host).posts.length
    rw [hlen]
    rcases postOf_new rfl hj with ⟨-, rfl⟩ | hold
    · exact Nat.lt_succ_self _
    · exact Nat.lt_succ_of_lt (h.made j k hold)
  one := by
    intro j j' k hj hj'
    rcases postOf_new rfl hj with ⟨rfl, rfl⟩ | hold <;> rcases postOf_new rfl hj' with ⟨rfl, hk⟩ | hold'
    · rfl
    · exact absurd (h.made j' _ hold') (lt_irrefl _)
    · rw [hk] at hold
      exact absurd (h.made j _ hold) (lt_irrefl _)
    · exact h.one j j' k hold hold'

/-- More posts, or a post that goes on, are seen by the requests that have it. -/
theorem seen_congr {posts posts' : List Post} {r : ConsoleRequest}
    (h : ∀ k, r.phase = .posted k → posts'[k]? = posts[k]?) : r.seen posts' = r.seen posts := by
  rcases r with ⟨call, phase, lost⟩
  cases phase with
  | posted k => simp only [ConsoleRequest.seen, ConsolePhase.seen, h k rfl]
  | _ => rfl

/-- What the store sees of the other requests when there is one more post. -/
theorem seen_append (h : Owned c) (post : Post) :
    c.requests.map (ConsoleRequest.seen (c.route.posts ++ [post])) = c.dashboard.requests := by
  refine List.map_congr_left fun r hr => seen_congr fun k hk => ?_
  obtain ⟨j, hj⟩ := List.mem_iff_getElem?.mp hr
  obtain ⟨call, phase, lost⟩ := r
  obtain rfl := hk
  exact List.getElem?_append_left (h.made j k (postOf_iff.mpr ⟨call, lost, hj⟩))

/-- The end of an action that is at work, after a run of the manager. -/
theorem exec_finish {d : Dashboard} {i : ℕ} {call : ApiCall} {lost : Bool}
    (hget : d.requests[i]? = some ⟨call, .acting, lost⟩) (es : List ManagerEvent) :
    exec Dashboard.step d (es.map .manager ++ [.finish i]) =
      { d with
        pm := exec Manager.step d.pm es
        requests := d.requests.set i ⟨call, .answered (.status (exec Manager.step d.pm es).allStatus), lost⟩ } := by
  rw [exec_append, exec_managers, exec_cons, exec_nil, Dashboard.step, Dashboard.finish]
  simp only [hget]
  rfl

/-- The first turn of an action, within the run of the dashboard. -/
theorem post_refines (h : Owned c) {i : ℕ} {a : ActionName} {cfg : DashboardConfig} {lost : Bool}
    (hget : c.requests[i]? = some ⟨.action a cfg, .sent, lost⟩) (written : Bool) (host : StartHost) :
    ∃ fs, (c.serve num i (.handled written) host).dashboard = exec Dashboard.step c.dashboard fs := by
  obtain ⟨t, ht⟩ : ∃ t, t = firstTurn num ⟨a.action, some cfg⟩ host c.route.pm := ⟨_, rfl⟩
  obtain ⟨es, hrun⟩ := @firstTurn_run num ⟨a.action, some cfg⟩ host c.route.pm
  have hanswers := @firstTurn_answers num a cfg host c.route.pm
  rw [← ht] at hrun hanswers
  have hview : (c.serve num i (.handled written) host).dashboard =
      { c.dashboard with
        pm := t.pm
        file := saveConfig written cfg c.route.file
        requests := c.dashboard.requests.set i ⟨.action cfg, t.progress.seen, lost⟩ } := by
    rw [Console.serve, hget]
    simp only [Console.dashboard, Console.setRequest, ProcessRoute.post, ← ht, List.map_set]
    rw [seen_append h]
    simp [ConsoleRequest.seen, ConsolePhase.seen, ConsoleCall.seen, Console.dashboard]
  have hsent : c.dashboard.requests[i]? = some ⟨.action cfg, .sent, lost⟩ := by
    rw [dashboard_get, hget]
    rfl
  have hserve : c.dashboard.serve i (.handled written) =
      { c.dashboard with
        file := saveConfig written cfg c.route.file
        requests := c.dashboard.requests.set i ⟨.action cfg, .acting, lost⟩ } := by
    rw [Dashboard.serve, hsent]
    rfl
  have hacting : (c.dashboard.serve i (.handled written)).requests[i]? = some ⟨.action cfg, .acting, lost⟩ := by
    rw [hserve]
    exact List.getElem?_set_self (List.getElem?_eq_some_iff.mp hsent).1
  rw [hview]
  rcases hanswers with hphase | hphase
  · refine ⟨.serve i (.handled written) :: es.map .manager, ?_⟩
    rw [exec_cons, Dashboard.step, exec_managers, hserve, hphase, hrun]
    rfl
  · refine ⟨.serve i (.handled written) :: (es.map .manager ++ [.finish i]), ?_⟩
    rw [exec_cons, Dashboard.step, exec_finish hacting, hserve, hphase, hrun]
    simp only [List.set_set]
    rfl

theorem serve_refines (h : Owned c) (i : ℕ) (how : Handling) (host : StartHost) :
    ∃ fs, (c.serve num i how host).dashboard = exec Dashboard.step c.dashboard fs := by
  rcases hget : c.requests[i]? with _ | ⟨call, phase, lost⟩
  · exact ⟨[], by simp only [Console.serve, hget, exec_nil]⟩
  · cases phase with
    | sent =>
      have hsent : c.dashboard.requests[i]? = some ⟨call.seen, .sent, lost⟩ := by
        rw [dashboard_get, hget]
        rfl
      cases call with
      | persist cfg =>
        refine ⟨[.serve i how], ?_⟩
        rw [exec_cons, exec_nil, Dashboard.step, Dashboard.serve, hsent, Console.serve, hget]
        cases how with
        | handled written =>
          exact dashboard_set i _ { c with route := { c.route with file := saveConfig written cfg c.route.file } }
        | crashed => exact dashboard_set i _ c
      | action a cfg =>
        cases how with
        | handled written => exact post_refines h hget written host
        | crashed =>
          refine ⟨[.serve i .crashed], ?_⟩
          rw [exec_cons, exec_nil, Dashboard.step, Dashboard.serve, hsent, Console.serve, hget]
          exact dashboard_set i _ c
      | poll =>
        refine ⟨[.serve i how], ?_⟩
        rw [exec_cons, exec_nil, Dashboard.step, Dashboard.serve, hsent, Console.serve, hget]
        cases how <;> exact dashboard_set i _ c
    | _ => exact ⟨[], by simp only [Console.serve, hget, exec_nil]⟩

/-- What the store sees of a request whose post is not the one that went on. -/
theorem seen_set {k : ℕ} (post : Post) {j : ℕ} {r : ConsoleRequest} (hj : c.requests[j]? = some r)
    (hne : c.postOf j ≠ some k) : r.seen (c.route.posts.set k post) = r.seen c.route.posts := by
  refine seen_congr fun k' hk' => List.getElem?_set_ne ?_
  rintro rfl
  obtain ⟨call, phase, lost⟩ := r
  obtain rfl := hk'
  exact hne (postOf_iff.mpr ⟨call, lost, hj⟩)

/-- A later turn of an action, within the run of the dashboard. -/
theorem resume_refines (h : Owned c) (k : ℕ) (host : StartHost) :
    ∃ fs, (c.step num (.resume k host)).dashboard = exec Dashboard.step c.dashboard fs := by
  rw [Console.step]
  rcases resume_cases num k host c.route with heq | ⟨post, t, hpost, hturn, heq⟩
  · exact ⟨[], by rw [heq, exec_nil]⟩
  · obtain ⟨es, hrun⟩ := nextTurn_run hturn
    obtain ⟨hacting, hanswered⟩ := nextTurn_answers hturn
    rw [heq]
    by_cases hex : ∃ i, c.postOf i = some k
    · obtain ⟨i, hi⟩ := hex
      obtain ⟨call, lost, hget⟩ := postOf_iff.mp hi
      have hseen : c.dashboard.requests[i]? = some ⟨call.seen, .acting, lost⟩ := by
        rw [dashboard_get, hget]
        simp [ConsoleRequest.seen, ConsolePhase.seen, hpost, hacting]
      have hrequests : c.requests.map (ConsoleRequest.seen (c.route.posts.set k ⟨post.body, t.progress⟩)) =
          c.dashboard.requests.set i ⟨call.seen, t.progress.seen, lost⟩ := by
        refine List.ext_getElem? fun j => ?_
        rw [List.getElem?_map]
        rcases eq_or_ne i j with rfl | hne
        · rw [List.getElem?_set_self (List.getElem?_eq_some_iff.mp hseen).1, hget]
          simp [ConsoleRequest.seen, ConsolePhase.seen, (List.getElem?_eq_some_iff.mp hpost).1]
        · rw [List.getElem?_set_ne hne, dashboard_get]
          cases hj : c.requests[j]? with
          | none => rfl
          | some r => exact congrArg some (seen_set _ hj fun hk => hne (h.one i j k hi hk))
      refine ⟨es.map .manager ++ [.finish i], ?_⟩
      rw [exec_finish hseen, Console.dashboard]
      simp only [hrequests, hanswered, hrun]
      rfl
    · refine ⟨es.map .manager, ?_⟩
      have hrequests : c.requests.map (ConsoleRequest.seen (c.route.posts.set k ⟨post.body, t.progress⟩)) =
          c.dashboard.requests := by
        refine List.map_congr_left fun r hr => ?_
        obtain ⟨j, hj⟩ := List.mem_iff_getElem?.mp hr
        exact seen_set _ hj fun hk => hex ⟨j, hk⟩
      rw [exec_managers, Console.dashboard]
      simp only [hrequests, hrun]
      rfl

theorem owned_step (h : Owned c) (e : ConsoleEvent) : Owned (c.step num e) := by
  have hsame (c' : Console) (hreq : c'.requests = c.requests) (hlen : c.route.posts.length ≤ c'.route.posts.length) :
      Owned c' := h.mono (fun i k hi => by rwa [Console.postOf, hreq] at hi) hlen
  cases e with
  | patchServer patch => exact hsame _ rfl le_rfl
  | patchDaemon patch => exact hsame _ rfl le_rfl
  | applyPreset id => exact hsame _ rfl le_rfl
  | persist =>
    rw [Console.step, Console.persist]
    split
    · exact h
    · exact h.send _
  | runAction a =>
    rw [Console.step, Console.runAction]
    split
    · exact h
    · exact h.send _
  | pollStatus => exact h.send .poll
  | serve i how host =>
    rw [Console.step, Console.serve]
    split
    case h_1 call lost hget =>
      cases call with
      | persist cfg =>
        cases how with
        | handled written =>
          exact (hsame { c with route := { c.route with file := saveConfig written cfg c.route.file } } rfl le_rfl).set
            (by simp)
        | crashed => exact h.set (by simp)
      | action a cfg =>
        cases how with
        | handled written => exact h.post i _ lost _ written host
        | crashed => exact h.set (by simp)
      | poll => cases how <;> exact h.set (by simp)
    case h_2 => exact h
  | resume k host =>
    refine hsame _ rfl ?_
    rcases resume_cases num k host c.route with heq | ⟨post, t, -, -, heq⟩
    · rw [Console.step, heq]
    · rw [Console.step, heq]
      simp
  | deliver i =>
    rw [Console.step, Console.deliver]
    split
    · split
      · rename_i res _
        exact (hsame { c with store := c.store.respond _ res } rfl le_rfl).set (by simp)
      · exact h
    · exact h
  | lose i =>
    rw [Console.step, Console.lose]
    split
    case h_1 r hget => exact h.set fun k hk => postOf_iff.mpr ⟨_, _, by rw [hget, ← hk]⟩
    case h_2 => exact h
  | world e => exact hsame _ rfl le_rfl
  | connect => exact hsame _ rfl le_rfl
  | disconnect => exact hsame _ rfl le_rfl
  | receive =>
    rw [Console.step, Console.receive]
    split
    · exact h
    · split
      · split
        · exact h
        · exact hsame _ rfl le_rfl
      · exact hsame _ rfl le_rfl

/-- One event of the console is a run of the dashboard. -/
theorem console_step (h : Owned c) (e : ConsoleEvent) :
    ∃ fs, (c.step num e).dashboard = exec Dashboard.step c.dashboard fs := by
  cases e with
  | patchServer patch => exact ⟨[.patchServer patch], rfl⟩
  | patchDaemon patch => exact ⟨[.patchDaemon patch], rfl⟩
  | applyPreset id => exact ⟨[.applyPreset id], rfl⟩
  | persist => exact ⟨[.persist], dashboard_persist c⟩
  | runAction a => exact ⟨[.runAction], dashboard_runAction a c⟩
  | pollStatus => exact ⟨[.pollStatus], dashboard_send .poll c⟩
  | serve i how host => exact serve_refines h i how host
  | resume k host => exact resume_refines h k host
  | deliver i => exact ⟨[.deliver i], dashboard_deliver i c⟩
  | lose i => exact ⟨[.lose i], dashboard_lose i c⟩
  | world e => exact ⟨[.manager e.event], rfl⟩
  | connect => exact ⟨[.connect], rfl⟩
  | disconnect => exact ⟨[.disconnect], rfl⟩
  | receive => exact ⟨[.receive], dashboard_receive c⟩

/-! ### The route -/

/-- The same processes, posts and calls, whatever the file. -/
structure SameRoute (r r' : ProcessRoute) : Prop where
  pm : r.pm = r'.pm
  posts : r.posts = r'.posts
  calls : r.calls = r'.calls

theorem SameRoute.step {r r' : ProcessRoute} (h : SameRoute r r') (g : RouteEvent) :
    SameRoute (r.step num g) (r'.step num g) := by
  obtain ⟨pm, file, posts, calls⟩ := r
  obtain ⟨pm', file', posts', calls'⟩ := r'
  obtain ⟨rfl, rfl, rfl⟩ := h
  cases g with
  | post body written host => exact ⟨rfl, rfl, rfl⟩
  | resume i host =>
    simp only [ProcessRoute.step, ProcessRoute.resume]
    split
    · exact ⟨rfl, rfl, rfl⟩
    · split <;> exact ⟨rfl, rfl, rfl⟩
  | world e => exact ⟨rfl, rfl, rfl⟩

/-- An event of the console is one of the route, or leaves the processes and the posts alone. -/
theorem step_route (c : Console) (e : ConsoleEvent) :
    (∃ g, (c.step num e).route = c.route.step num g) ∨ SameRoute (c.step num e).route c.route := by
  cases e with
  | serve i how host =>
    rw [Console.step, Console.serve]
    split
    case h_1 call lost hget =>
      cases call with
      | persist cfg => cases how <;> exact Or.inr ⟨rfl, rfl, rfl⟩
      | action a cfg =>
        cases how with
        | handled written => exact Or.inl ⟨.post ⟨a.action, some cfg⟩ written host, rfl⟩
        | crashed => exact Or.inr ⟨rfl, rfl, rfl⟩
      | poll => cases how <;> exact Or.inr ⟨rfl, rfl, rfl⟩
    case h_2 => exact Or.inr ⟨rfl, rfl, rfl⟩
  | resume k host => exact Or.inl ⟨.resume k host, rfl⟩
  | world e => exact Or.inl ⟨.world e, rfl⟩
  | persist =>
    rw [Console.step, Console.persist]
    split <;> exact Or.inr ⟨rfl, rfl, rfl⟩
  | runAction a =>
    rw [Console.step, Console.runAction]
    split <;> exact Or.inr ⟨rfl, rfl, rfl⟩
  | deliver i =>
    rw [Console.step, Console.deliver]
    split
    · split <;> exact Or.inr ⟨rfl, rfl, rfl⟩
    · exact Or.inr ⟨rfl, rfl, rfl⟩
  | lose i =>
    rw [Console.step, Console.lose]
    split <;> exact Or.inr ⟨rfl, rfl, rfl⟩
  | receive =>
    rw [Console.step, Console.receive]
    split
    · exact Or.inr ⟨rfl, rfl, rfl⟩
    · split
      · split <;> exact Or.inr ⟨rfl, rfl, rfl⟩
      · exact Or.inr ⟨rfl, rfl, rfl⟩
  | _ => exact Or.inr ⟨rfl, rfl, rfl⟩

/-! ### Runs -/

/-- What the store, the file and the processes go through is a run of the dashboard; and every post is its request's
    own. -/
theorem console_dashboard (num : ℚ → String) (base : DashboardConfig) (presets : List Preset)
    (file : Option ConfigFile) (es : List ConsoleEvent) :
    Owned (exec (Console.step num) (.loaded base presets file) es) ∧
      ∃ fs, (exec (Console.step num) (.loaded base presets file) es).dashboard =
        exec Dashboard.step (.loaded base presets file) fs := by
  refine exec_inv_free (fun c => Owned c ∧ ∃ fs, c.dashboard = exec Dashboard.step (.loaded base presets file) fs)
    ?_ ⟨?_, [], rfl⟩ es
  · rintro c e ⟨howned, fs, hdash⟩
    obtain ⟨more, hmore⟩ := @console_step num c howned e
    exact ⟨owned_step howned e, fs ++ more, by rw [hmore, hdash, exec_append]⟩
  · exact ⟨fun i k hi => by simp [Console.postOf, Console.loaded] at hi,
      fun i j k hi => by simp [Console.postOf, Console.loaded] at hi⟩

/-- What the processes and the posts go through is a run of the route. -/
theorem console_route (num : ℚ → String) (c : Console) (es : List ConsoleEvent) :
    ∃ gs, SameRoute (exec (Console.step num) c es).route (exec (ProcessRoute.step num) c.route gs) := by
  refine exec_inv_free (fun c' : Console => ∃ gs, SameRoute c'.route (exec (ProcessRoute.step num) c.route gs)) ?_
    ⟨[], rfl, rfl, rfl⟩ es
  rintro c' e ⟨gs, hroute⟩
  rcases @step_route num c' e with ⟨g, hg⟩ | hsame
  · refine ⟨gs ++ [g], ?_⟩
    rw [hg, exec_append]
    exact hroute.step g
  · exact ⟨gs, hsame.pm.trans hroute.pm, hsame.posts.trans hroute.posts, hsame.calls.trans hroute.calls⟩

/-- THE BUTTONS: every run of the store with the real actions is, for the store, the file, the processes and what is
    on the way, a run of the dashboard whose actions do anything; and the processes, the posts and their calls are
    those of a run of the route alone. -/
theorem console_refines (num : ℚ → String) (base : DashboardConfig) (presets : List Preset) (file : Option ConfigFile)
    (es : List ConsoleEvent) :
    let c := exec (Console.step num) (.loaded base presets file) es
    (∃ fs, c.dashboard = exec Dashboard.step (.loaded base presets file) fs) ∧
      ∃ gs, SameRoute c.route (exec (ProcessRoute.step num) (.fresh file) gs) :=
  ⟨(console_dashboard num base presets file es).2, console_route num (.loaded base presets file) es⟩

end DsparkEdge.Ui
