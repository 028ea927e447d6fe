import DsparkEdge.Ui.ProcessRoute

/-! What the requests make of the two processes. The manager sees its own events only, so what holds in all its runs
    holds here; beyond that, every child comes of one start that returned, and every start of one request.

        requests ──▶ calls:  start d ✓   start s ✗   stop d   start s ✓   start d ✓
                             child 0                          child 1     child 2

    "Running" is said of the child that the process refers to, together with the command line of the start that
    spawned it. -/

namespace DsparkEdge.Ui

open Runs

variable {num : ℚ → String}

/-! ### The manager's own runs -/

theorem startTurn_pm (id : ProcId) (cfg : DashboardConfig) (h : StartHost) (next : Manager → Progress)
    (m : Manager) :
    (startTurn num id cfg h next m).pm =
      m.step (.start id (cfg.command num id).bin (cfg.command num id).args h.binExists h.spawn h.now) := by
  rw [Manager.step, ← startProc_eq]
  rcases startTurn_cases num id cfg h next m with ⟨st, m', hstart, heq⟩ | ⟨msg, m', hstart, heq⟩
  · rw [heq, hstart]
  · rw [heq, hstart]

/-- What the manager's events preserve, a first turn preserves. -/
theorem firstTurn_inv {P : Manager → Prop} (hstep : ∀ m e, P m → P (m.step e)) {m : Manager} (hm : P m)
    (body : ActionBody) (h : StartHost) : P (firstTurn num body h m).pm := by
  rcases body with ⟨action, config⟩
  cases action with
  | start id =>
    cases config with
    | none => exact hm
    | some cfg =>
      rw [firstTurn, startTurn_pm]
      exact hstep m _ hm
  | stop id => exact hstep m (.stop id) hm
  | quickstart =>
    cases config with
    | none => exact hm
    | some cfg =>
      rw [firstTurn, startTurn_pm]
      exact hstep m _ hm
  | stopAll => exact hstep _ (.stop .daemon) (hstep m (.stop .server) hm)
  | unknown => exact hm

theorem nextTurn_inv {P : Manager → Prop} (hstep : ∀ m e, P m → P (m.step e)) {m : Manager} (hm : P m)
    {progress : Progress} {h : StartHost} {t : Turn} (ht : nextTurn num h m progress = some t) : P t.pm := by
  cases progress with
  | sleeping cfg =>
    obtain rfl := Option.some.inj ht
    rw [startTurn_pm]
    exact hstep m _ hm
  | stopping ks =>
    rw [nextTurn] at ht
    split at ht
    · obtain rfl := Option.some.inj ht
      exact hm
    · cases ht
  | answered res => cases ht

/-! ### Children -/

/-- A start that returned has spawned one child of its process, one that threw none. -/
theorem start_children (id : ProcId) (bin : String) (args : List String) (binExists : Bool) (spawn : SpawnOutcome)
    (now : ℕ) (m : Manager) :
    (∃ st m' child, m.start id bin args binExists spawn now = (.ok st, m') ∧ child.proc = id ∧
        m'.children = m.children ++ [child]) ∨
      ∃ msg m', m.start id bin args binExists spawn now = (.error msg, m') ∧ m'.children = m.children := by
  simp only [Manager.start]
  split
  · exact Or.inr ⟨_, _, rfl, rfl⟩
  · split
    · exact Or.inr ⟨_, _, rfl, by simp⟩
    · cases spawn with
      | throws msg => exact Or.inr ⟨_, _, rfl, by simp⟩
      | fails => exact Or.inl ⟨_, _, ⟨id, none, .failing⟩, rfl, rfl, by simp [spawned_children]⟩
      | runs pid => exact Or.inl ⟨_, _, ⟨id, some pid, .live⟩, rfl, rfl, by simp [spawned_children]⟩

/-- The process of every child, in the order of their spawns. -/
def Manager.spawns (m : Manager) : List ProcId := m.children.map Child.proc

theorem map_proc_set {children : List Child} {c : ℕ} {child child' : Child} (hc : children[c]? = some child)
    (hproc : child'.proc = child.proc) : (children.set c child').map Child.proc = children.map Child.proc := by
  have hsame : (children.map Child.proc)[c]? = some child.proc := by rw [List.getElem?_map, hc, Option.map_some]
  obtain ⟨hlt, hget⟩ := List.getElem?_eq_some_iff.mp hsame
  rw [List.map_set, hproc, ← hget, List.set_getElem_self]

/-- No other event spawns a child. -/
theorem spawns_world (m : Manager) (e : WorldEvent) : (m.step e.event).spawns = m.spawns := by
  cases e with
  | sigterm k =>
    rcases sigterm_cases k m with heq | ⟨-, -, -, hsame, -⟩
    · rw [WorldEvent.event, Manager.step, heq]
    · exact congrArg (List.map Child.proc) hsame.children
  | sigkill k =>
    rcases sigkill_cases k m with ⟨heq, -⟩ | ⟨-, -, -, hsame, -⟩
    · rw [WorldEvent.event, Manager.step, heq]
    · exact congrArg (List.map Child.proc) hsame.children
  | exit c code signal now =>
    rcases exit_cases c code signal now m with heq | ⟨child, hc, hlive⟩
    · rw [WorldEvent.event, Manager.step, heq]
    · rw [WorldEvent.event, Manager.step, Manager.spawns, (exit_of_live hc hlive code signal now).children]
      exact map_proc_set hc rfl
  | error c msg =>
    simp only [WorldEvent.event, Manager.step, Manager.error]
    split
    · rfl
    · rename_i child hc
      split
      · rfl
      · rw [Manager.spawns, updateStatus_children, pushLog_children]
        exact map_proc_set hc rfl
  | data id stream text => exact congrArg (List.map Child.proc) (pushLog_children id stream text m)

theorem spawns_stop (id : ProcId) (m : Manager) : (m.stop id).spawns = m.spawns :=
  congrArg (List.map Child.proc) (stop_sameProcs id m).children

/-- The start that a call was, if it returned. -/
def ManagerCall.launch : ManagerCall → Option (ProcId × Command)
  | .start id c true => some (id, c)
  | _ => none

/-- The starts that returned, with the requests that made them. -/
def launches (calls : List (ℕ × ManagerCall)) : List (ℕ × ProcId × Command) :=
  calls.filterMap fun c => c.2.launch.map fun l => (c.1, l)

/-- A turn spawns one child for each of its calls that is a launch. -/
def Turn.Launches (m : Manager) (t : Turn) : Prop :=
  t.pm.spawns = m.spawns ++ (t.calls.filterMap ManagerCall.launch).map Prod.fst

theorem startTurn_launches (id : ProcId) (cfg : DashboardConfig) (h : StartHost) (next : Manager → Progress)
    (m : Manager) : (startTurn num id cfg h next m).Launches m := by
  have hproc := startProc_eq num cfg h m id
  rcases startTurn_cases num id cfg h next m with ⟨st, m', hstart, heq⟩ | ⟨msg, m', hstart, heq⟩
  · rw [hstart] at hproc
    rcases start_children id (cfg.command num id).bin (cfg.command num id).args h.binExists h.spawn h.now m with
      ⟨st', m'', child, hrun, hid, hchildren⟩ | ⟨msg, m'', hrun, -⟩
    · obtain ⟨-, rfl⟩ := Prod.mk.inj (hproc.trans hrun)
      rw [heq, Turn.Launches, Manager.spawns, hchildren, List.map_append, List.map_singleton, hid]
      rfl
    · cases (Prod.mk.inj (hproc.trans hrun)).1
  · rw [hstart] at hproc
    rcases start_children id (cfg.command num id).bin (cfg.command num id).args h.binExists h.spawn h.now m with
      ⟨st', m'', child, hrun, -, -⟩ | ⟨msg', m'', hrun, hchildren⟩
    · cases (Prod.mk.inj (hproc.trans hrun)).1
    · obtain ⟨-, rfl⟩ := Prod.mk.inj (hproc.trans hrun)
      rw [heq, Turn.Launches, Manager.spawns, hchildren]
      exact (List.append_nil _).symm

theorem firstTurn_launches (body : ActionBody) (h : StartHost) (m : Manager) :
    (firstTurn num body h m).Launches m := by
  rcases body with ⟨action, config⟩
  cases action with
  | start id =>
    cases config with
    | none => exact (List.append_nil _).symm
    | some cfg => exact startTurn_launches id cfg h _ m
  | stop id => exact (spawns_stop id m).trans (List.append_nil _).symm
  | quickstart =>
    cases config with
    | none => exact (List.append_nil _).symm
    | some cfg => exact startTurn_launches .daemon cfg h _ m
  | stopAll =>
    exact ((spawns_stop .daemon _).trans (spawns_stop .server m)).trans (List.append_nil _).symm
  | unknown => exact (List.append_nil _).symm

theorem nextTurn_launches {m : Manager} {progress : Progress} {h : StartHost} {t : Turn}
    (ht : nextTurn num h m progress = some t) : t.Launches m := by
  cases progress with
  | sleeping cfg =>
    obtain rfl := Option.some.inj ht
    exact startTurn_launches .server cfg h _ m
  | stopping ks =>
    rw [nextTurn] at ht
    split at ht
    · obtain rfl := Option.some.inj ht
      exact (List.append_nil _).symm
    · cases ht
  | answered res => cases ht

theorem launches_append (calls : List (ℕ × ManagerCall)) (i : ℕ) (more : List ManagerCall) :
    launches (calls ++ more.map fun c => (i, c)) =
      launches calls ++ (more.filterMap ManagerCall.launch).map fun l => (i, l) := by
  rw [launches, List.filterMap_append, ← launches, List.filterMap_map, List.map_filterMap]
  rfl

/-- The children are those of the launches, one by one. -/
def Accounted (r : ProcessRoute) : Prop := r.pm.spawns = (launches r.calls).map fun l => l.2.1

theorem Accounted.turn {r : ProcessRoute} (h : Accounted r) {t : Turn} (ht : t.Launches r.pm) (i : ℕ)
    (file : Option ConfigFile) (posts : List Post) :
    Accounted ⟨t.pm, file, posts, r.calls ++ t.calls.map fun c => (i, c)⟩ := by
  rw [Accounted, launches_append, List.map_append, List.map_map, ht, h]
  rfl

/-! ### What "running" says -/

/-- "Running" is said with the command line of the launch whose child the process refers to. -/
def Manager.ShowsOwn (m : Manager) (ls : List (ProcId × Command)) : Prop :=
  ∀ id, (m.status id).state = .running → ∃ c cmd, (m.procs.get id).child = some c ∧ ls[c]? = some (id, cmd) ∧
    (m.status id).command = some cmd.text

/-- No process has come to be running. -/
def Unpromoted (m m' : Manager) : Prop :=
  ∀ id, (m'.status id).state ≠ .running ∨
    m'.status id = m.status id ∧ (m'.procs.get id).child = (m.procs.get id).child

theorem Manager.ShowsOwn.unpromoted {m m' : Manager} {ls : List (ProcId × Command)} (h : m.ShowsOwn ls)
    (hm : Unpromoted m m') : m'.ShowsOwn ls := by
  intro id hrun
  rcases hm id with hne | ⟨hstatus, hchild⟩
  · exact absurd hrun hne
  · rw [hstatus] at hrun ⊢
    rw [hchild]
    exact h id hrun

theorem Calm.unpromoted {m m' : Manager} (h : Calm m m') : Unpromoted m m' := fun id =>
  (h.status id).imp_right fun hstatus => ⟨hstatus, h.child id⟩

theorem unpromoted_world (m : Manager) (e : WorldEvent) : Unpromoted m (m.step e.event) := by
  cases e with
  | sigterm k => exact (calm_sigterm k m).unpromoted
  | sigkill k => exact (calm_sigkill k m).unpromoted
  | exit c code signal now =>
    rcases exit_cases c code signal now m with heq | ⟨child, hc, hlive⟩
    · rw [WorldEvent.event, Manager.step, heq]
      exact (Calm.refl m).unpromoted
    · have hexit := exit_of_live hc hlive code signal now
      intro id
      rcases eq_or_ne id child.proc with rfl | hne
      · exact Or.inl hexit.status_own
      · exact Or.inr ⟨hexit.status_other id hne, hexit.child_other id hne⟩
  | error c msg =>
    simp only [WorldEvent.event, Manager.step, Manager.error]
    split
    · exact (Calm.refl m).unpromoted
    · rename_i child hc
      split
      · exact (Calm.refl m).unpromoted
      · intro id
        rcases eq_or_ne id child.proc with rfl | hne
        · left
          simp [ProcStatus.patch]
        · right
          rw [updateStatus_status, if_neg hne, pushLog_status, updateStatus_child, pushLog_child]
          exact ⟨rfl, rfl⟩
  | data id stream text => exact (calm_pushLog id stream text m).unpromoted

/-- A start that returned shows the child it spawned with its own command line; one that threw shows nothing new. -/
theorem start_shows (id : ProcId) (bin : String) (args : List String) (binExists : Bool) (spawn : SpawnOutcome)
    (now : ℕ) (m : Manager) :
    (∃ st m', m.start id bin args binExists spawn now = (.ok st, m') ∧
        (m'.procs.get id).child = some m.children.length ∧ (m'.status id).command = some (Command.text ⟨bin, args⟩) ∧
        ∀ id', id' ≠ id → m'.status id' = m.status id' ∧ (m'.procs.get id').child = (m.procs.get id').child) ∨
      ∃ msg m', m.start id bin args binExists spawn now = (.error msg, m') ∧ Unpromoted m m' := by
  simp only [Manager.start]
  split
  · exact Or.inr ⟨_, _, rfl, (Calm.refl m).unpromoted⟩
  · cases binExists with
    | false =>
      exact Or.inr ⟨_, _, rfl,
        ((calm_pushLog id .system _ m).trans (calm_updateStatus rfl (by simp) _)).unpromoted⟩
    | true =>
      have hready (patch : StatusPatch) (hpatch : patch.state = some .starting) (text : String) :
          Calm m (((m.dropLogs id).updateStatus id patch).pushLog id .system text) :=
        ((calm_dropLogs id m).trans (calm_updateStatus hpatch (by simp) _)).trans (calm_pushLog id .system text _)
      have hothers (patch : StatusPatch) (text : String) (child : Child) (id' : ProcId) (hne : id' ≠ id) :
          ((((m.dropLogs id).updateStatus id patch).pushLog id .system text).spawned id child).status id' =
              m.status id' ∧
            (((((m.dropLogs id).updateStatus id patch).pushLog id .system text).spawned id child).procs.get id').child =
              (m.procs.get id').child := by
        rw [spawned_status, if_neg hne, spawned_child, if_neg hne]
        simp [hne]
      cases spawn with
      | throws msg =>
        exact Or.inr ⟨_, _, rfl, (((hready _ rfl _).trans (calm_pushLog id .system _ _)).trans
          (calm_updateStatus rfl (by simp) _)).unpromoted⟩
      | fails =>
        refine Or.inl ⟨_, _, rfl, ?_, ?_, hothers _ _ _⟩
        · simp [spawned_child]
        · simp [spawned_status, ProcStatus.patch, Command.text]
      | runs pid =>
        refine Or.inl ⟨_, _, rfl, ?_, ?_, hothers _ _ _⟩
        · simp [spawned_child]
        · simp [spawned_status, ProcStatus.patch, Command.text]

theorem Manager.ShowsOwn.append {m : Manager} {ls : List (ProcId × Command)} (h : m.ShowsOwn ls)
    (more : List (ProcId × Command)) : m.ShowsOwn (ls ++ more) := by
  intro id hrun
  obtain ⟨c, cmd, hchild, hget, hcommand⟩ := h id hrun
  have hlt := (List.getElem?_eq_some_iff.mp hget).1
  exact ⟨c, cmd, hchild, by rw [List.getElem?_append_left hlt, hget], hcommand⟩

/-- What a turn launches it may show. -/
def Turn.Shows (m : Manager) (t : Turn) : Prop :=
  ∀ ls, ls.length = m.children.length → m.ShowsOwn ls → t.pm.ShowsOwn (ls ++ t.calls.filterMap ManagerCall.launch)

theorem startTurn_shows (id : ProcId) (cfg : DashboardConfig) (h : StartHost) (next : Manager → Progress)
    (m : Manager) : (startTurn num id cfg h next m).Shows m := by
  intro ls hlen hown
  have hproc := startProc_eq num cfg h m id
  have hshows := start_shows id (cfg.command num id).bin (cfg.command num id).args h.binExists h.spawn h.now m
  rw [← hproc] at hshows
  rcases startTurn_cases num id cfg h next m with ⟨st, m', hstart, heq⟩ | ⟨msg, m', hstart, heq⟩
  · rw [heq]
    rcases hshows with ⟨st', m'', hrun, hchild, hcommand, hothers⟩ | ⟨msg, m'', hrun, -⟩
    · obtain ⟨-, rfl⟩ := Prod.mk.inj (hstart.symm.trans hrun)
      intro id' hrunning
      rcases eq_or_ne id' id with rfl | hne
      · exact ⟨_, cfg.command num id', hchild, by rw [← hlen]; exact List.getElem?_concat_length, hcommand⟩
      · obtain ⟨hstatus, hsame⟩ := hothers id' hne
        rw [hstatus] at hrunning ⊢
        rw [hsame]
        exact hown.append _ id' hrunning
    · cases (Prod.mk.inj (hstart.symm.trans hrun)).1
  · rw [heq]
    rcases hshows with ⟨st', m'', hrun, -, -, -⟩ | ⟨msg', m'', hrun, hquiet⟩
    · cases (Prod.mk.inj (hstart.symm.trans hrun)).1
    · obtain ⟨-, rfl⟩ := Prod.mk.inj (hstart.symm.trans hrun)
      exact (hown.unpromoted hquiet).append _

theorem Turn.shows_of_unpromoted {m : Manager} {t : Turn} (h : Unpromoted m t.pm) : t.Shows m :=
  fun _ _ hown => (hown.unpromoted h).append _

theorem firstTurn_shows (body : ActionBody) (h : StartHost) (m : Manager) : (firstTurn num body h m).Shows m := by
  rcases body with ⟨action, config⟩
  cases action with
  | start id =>
    cases config with
    | none => exact Turn.shows_of_unpromoted (Calm.refl m).unpromoted
    | some cfg => exact startTurn_shows id cfg h _ m
  | stop id => exact Turn.shows_of_unpromoted (calm_stop id m).unpromoted
  | quickstart =>
    cases config with
    | none => exact Turn.shows_of_unpromoted (Calm.refl m).unpromoted
    | some cfg => exact startTurn_shows .daemon cfg h _ m
  | stopAll => exact Turn.shows_of_unpromoted ((calm_stop .server m).trans (calm_stop .daemon _)).unpromoted
  | unknown => exact Turn.shows_of_unpromoted (Calm.refl m).unpromoted

theorem nextTurn_shows {m : Manager} {progress : Progress} {h : StartHost} {t : Turn}
    (ht : nextTurn num h m progress = some t) : t.Shows m := by
  cases progress with
  | sleeping cfg =>
    obtain rfl := Option.some.inj ht
    exact startTurn_shows .server cfg h _ m
  | stopping ks =>
    rw [nextTurn] at ht
    split at ht
    · obtain rfl := Option.some.inj ht
      exact Turn.shows_of_unpromoted (Calm.refl m).unpromoted
    · cases ht
  | answered res => cases ht

/-- The children and what is said of them agree with the launches. -/
structure Launched (r : ProcessRoute) : Prop where
  accounted : Accounted r
  shows : r.pm.ShowsOwn ((launches r.calls).map Prod.snd)

theorem Launched.turn {r : ProcessRoute} (h : Launched r) {t : Turn} (hl : t.Launches r.pm) (hs : t.Shows r.pm)
    (i : ℕ) (file : Option ConfigFile) (posts : List Post) :
    Launched ⟨t.pm, file, posts, r.calls ++ t.calls.map fun c => (i, c)⟩ where
  accounted := h.accounted.turn hl i file posts
  shows := by
    have hlen : ((launches r.calls).map Prod.snd).length = r.pm.children.length := by
      have := congrArg List.length h.accounted
      rw [Manager.spawns, List.length_map, List.length_map] at this
      rw [List.length_map, this]
    have hown := hs _ hlen h.shows
    rw [launches_append, List.map_append, List.map_map]
    simpa [Function.comp_def] using hown

theorem launched_step {r : ProcessRoute} (h : Launched r) (e : RouteEvent) : Launched (r.step num e) := by
  cases e with
  | post body written host => exact h.turn (firstTurn_launches body host r.pm) (firstTurn_shows body host r.pm) _ _ _
  | resume i host =>
    rcases resume_cases num i host r with heq | ⟨post, t, -, ht, heq⟩
    · rw [ProcessRoute.step, heq]
      exact h
    · rw [ProcessRoute.step, heq]
      exact h.turn (nextTurn_launches ht) (nextTurn_shows ht) _ _ _
  | world e => exact ⟨(spawns_world r.pm e).trans h.accounted, h.shows.unpromoted (unpromoted_world r.pm e)⟩

/-- A script launches with the configuration of its request only. -/
theorem Script.launch {body : ActionBody} {progress : Progress} {calls : List ManagerCall}
    (hs : Script num body progress calls) {id : ProcId} {c : Command} (h : ManagerCall.start id c true ∈ calls) :
    ∃ cfg, body.config = some cfg ∧ c = cfg.command num id ∧ (body.action = .start id ∨ body.action = .quickstart) := by
  cases hs with
  | startOk id' cfg m =>
    cases List.mem_singleton.mp h
    exact ⟨cfg, rfl, rfl, Or.inl rfl⟩
  | quickSleeps cfg =>
    cases List.mem_singleton.mp h
    exact ⟨cfg, rfl, rfl, Or.inr rfl⟩
  | quickOk cfg m =>
    rcases List.mem_cons.mp h with h | h
    · cases h
      exact ⟨cfg, rfl, rfl, Or.inr rfl⟩
    · cases List.mem_singleton.mp h
      exact ⟨cfg, rfl, rfl, Or.inr rfl⟩
  | quickHalf cfg msg m =>
    rcases List.mem_cons.mp h with h | h
    · cases h
      exact ⟨cfg, rfl, rfl, Or.inr rfl⟩
    · cases List.mem_singleton.mp h
  | startBlank id' m => cases h
  | quickBlank m => cases h
  | unknown config => cases h
  | _ => simp at h

theorem mem_callsOf {r : ProcessRoute} {i : ℕ} {c : ManagerCall} : c ∈ r.callsOf i ↔ (i, c) ∈ r.calls := by
  simp only [ProcessRoute.callsOf, List.mem_filterMap]
  constructor
  · rintro ⟨⟨j, c'⟩, hmem, heq⟩
    split at heq
    · rename_i hj
      cases heq
      rwa [← hj]
    · cases heq
  · intro hmem
    exact ⟨(i, c), hmem, if_pos rfl⟩

theorem mem_launches {calls : List (ℕ × ManagerCall)} {i : ℕ} {id : ProcId} {c : Command}
    (h : (i, id, c) ∈ launches calls) : (i, ManagerCall.start id c true) ∈ calls := by
  obtain ⟨⟨j, call⟩, hmem, heq⟩ := List.mem_filterMap.mp h
  obtain ⟨l, hl, heq⟩ := Option.map_eq_some_iff.mp heq
  cases heq
  rcases call with ⟨id', c', ok⟩ | ⟨id', k⟩
  · cases ok with
    | false => cases hl
    | true => cases hl; exact hmem
  · cases hl

/-- LAUNCHED AS POSTED: whatever is posted, and whenever, the children are those of the starts that returned, one
    by one; each of these was made by a request whose own configuration gave the command line; and a process that
    shows as running shows the command line of the child it refers to. -/
theorem launched_as_posted (num : ℚ → String) (file : Option ConfigFile) (es : List RouteEvent) :
    let r := exec (ProcessRoute.step num) (.fresh file) es
    r.pm.children.map Child.proc = (launches r.calls).map (fun l => l.2.1) ∧
    (∀ i id c, (i, id, c) ∈ launches r.calls → ∃ post cfg, r.posts[i]? = some post ∧
      post.body.config = some cfg ∧ c = cfg.command num id ∧
      (post.body.action = .start id ∨ post.body.action = .quickstart)) ∧
    ∀ id, (r.pm.status id).state = .running → ∃ c i cmd, (r.pm.procs.get id).child = some c ∧
      (launches r.calls)[c]? = some (i, id, cmd) ∧ (r.pm.status id).command = some cmd.text := by
  intro r
  have hscript : Scripted num r := scripted_exec num file es
  have hfresh : Launched (.fresh file) := ⟨rfl, fun id hrun => by cases id <;> cases hrun⟩
  have hlaunched : Launched r := exec_inv_free Launched (fun _ e h => launched_step h e) hfresh es
  refine ⟨hlaunched.accounted, fun i id c hmem => ?_, fun id hrun => ?_⟩
  · have hcall := mem_launches hmem
    have hlt := hscript.made _ hcall
    have hpost : r.posts[i]? = some r.posts[i] := List.getElem?_eq_getElem hlt
    obtain ⟨cfg, hcfg, hc, haction⟩ := (hscript.script i _ hpost).launch (mem_callsOf.mpr hcall)
    exact ⟨_, cfg, hpost, hcfg, hc, haction⟩
  · obtain ⟨c, cmd, hchild, hget, hcommand⟩ := hlaunched.shows id hrun
    rw [List.getElem?_map] at hget
    obtain ⟨⟨i, l⟩, hl, rfl⟩ := Option.map_eq_some_iff.mp hget
    exact ⟨c, i, cmd, hchild, hl, hcommand⟩

end DsparkEdge.Ui
