import DsparkEdge.Ui.Launches

/-! When the requests of the process route are answered. A request that waits for a stop waits for a stop call of
    its own, and is answered only behind it; no child, however stubborn, and no other request can keep it from
    being answered, since the call's own 5 s timer settles it.

        stop ─▶ call k, timers armed ──┬── exit of the child ─▶ settled ─▶ 200
                                       └── 5 s, SIGKILL      ─▶ settled ─▶ 200 -/

namespace DsparkEdge.Ui

open Runs

variable {num : ℚ → String}

/-! ### Stop calls over a step -/

/-- A stop call that is not settled has its 5 s timer armed. -/
def Manager.Armed (m : Manager) : Prop := ∀ call ∈ m.stops, call.settled = false → call.t2 = true

/-- Every stop call stays, under its number, and a settled one stays settled. -/
def StopsStay (m m' : Manager) : Prop :=
  ∀ (k : ℕ) (call : StopCall), m.stops[k]? = some call → ∃ call' : StopCall, m'.stops[k]? = some call' ∧
    call'.proc = call.proc ∧ (call.settled = true → call'.settled = true)

theorem StopsStay.of_eq {m m' : Manager} (h : m'.stops = m.stops) : StopsStay m m' := fun _ call hcall =>
  ⟨call, by rw [h, hcall], rfl, fun hset => hset⟩

theorem StopsStay.of_set {m m' : Manager} {k : ℕ} {call call' : StopCall} (h : m'.stops = m.stops.set k call')
    (hcall : m.stops[k]? = some call) (hproc : call'.proc = call.proc)
    (hset : call.settled = true → call'.settled = true) : StopsStay m m' := by
  intro j old hold
  rcases eq_or_ne k j with rfl | hne
  · rw [hcall] at hold
    obtain rfl := Option.some.inj hold
    exact ⟨call', by rw [h, List.getElem?_set_self (List.getElem?_eq_some_iff.mp hcall).1], hproc, hset⟩
  · exact ⟨old, by rw [h, List.getElem?_set_ne hne, hold], rfl, fun h => h⟩

theorem stop_stops (id : ProcId) (m : Manager) :
    (m.stop id).stops = m.stops ∧ m.awaited id = none ∨
      ∃ c pid, (m.stop id).stops = m.stops ++ [⟨id, c, pid, true, true, false⟩] ∧
        m.awaited id = some m.stops.length := by
  by_cases h : m.HasChild id
  · obtain ⟨c, pid, hc, hne, hstops⟩ := stop_of_child h
    obtain ⟨pid', hpid⟩ := Option.ne_none_iff_exists'.mp hne
    have hpid' : (m.procs.get id).status.pid = some pid' := hpid
    exact Or.inr ⟨c, pid, hstops, by rw [Manager.awaited, hc, hpid']⟩
  · refine Or.inl ⟨by rw [stop_of_lost h, updateStatus_stops], ?_⟩
    rw [Manager.awaited]
    split
    · rename_i c pid hc hpid
      exact absurd ⟨by simp [hc], by simp [Manager.status, hpid]⟩ h
    · rfl

theorem stopsStay_step (m : Manager) (e : ManagerEvent) : StopsStay m (m.step e) := by
  cases e with
  | start id bin args binExists spawn now => exact .of_eq (start_stops id bin args binExists spawn now m)
  | stop id =>
    rcases stop_stops id m with ⟨heq, -⟩ | ⟨c, pid, heq, -⟩
    · exact .of_eq heq
    · intro k call hcall
      have hlt := (List.getElem?_eq_some_iff.mp hcall).1
      exact ⟨call, by rw [Manager.step, heq, List.getElem?_append_left hlt, hcall], rfl, fun h => h⟩
  | sigterm k =>
    rcases sigterm_cases k m with heq | ⟨call, hcall, -, -, hstops⟩
    · exact .of_eq (by rw [Manager.step, heq])
    · exact .of_set hstops hcall rfl fun h => h
  | sigkill k =>
    rcases sigkill_cases k m with ⟨heq, -⟩ | ⟨call, hcall, -, -, hstops⟩
    · exact .of_eq (by rw [Manager.step, heq])
    · exact .of_set hstops hcall rfl fun _ => rfl
  | exit c code signal now =>
    rcases exit_cases c code signal now m with heq | ⟨child, hc, hlive⟩
    · exact .of_eq (by rw [Manager.step, heq])
    · intro k call hcall
      have hstops := (exit_books hc hlive code signal now).2
      refine ⟨call.onExit c, by rw [Manager.step, hstops, List.getElem?_map, hcall]; rfl, ?_, ?_⟩
      · rw [StopCall.onExit]; split <;> rfl
      · intro hset
        rw [StopCall.onExit]
        split
        · rfl
        · exact hset
  | error c msg => exact .of_eq (steady_error c msg m).stops
  | data id stream text => exact .of_eq (pushLog_stops id stream text m)

theorem armed_step {m : Manager} (h : m.Armed) (e : ManagerEvent) : (m.step e).Armed := by
  cases e with
  | start id bin args binExists spawn now =>
    rw [Manager.step, Manager.Armed, start_stops]
    exact h
  | stop id =>
    rcases stop_stops id m with ⟨heq, -⟩ | ⟨c, pid, heq, -⟩ <;> rw [Manager.step, Manager.Armed, heq]
    · exact h
    · intro call hcall hwait
      rcases List.mem_append.mp hcall with hold | hnew
      · exact h call hold hwait
      · rw [List.mem_singleton.mp hnew]
  | sigterm k =>
    rcases sigterm_cases k m with heq | ⟨call, hcall, -, -, hstops⟩
    · rwa [Manager.step, heq]
    · rw [Manager.step, Manager.Armed, hstops]
      intro call' hcall' hwait
      rcases List.mem_or_eq_of_mem_set hcall' with hold | rfl
      · exact h call' hold hwait
      · exact h call (List.mem_of_getElem? hcall) hwait
  | sigkill k =>
    rcases sigkill_cases k m with ⟨heq, -⟩ | ⟨call, hcall, -, -, hstops⟩
    · rwa [Manager.step, heq]
    · rw [Manager.step, Manager.Armed, hstops]
      intro call' hcall' hwait
      rcases List.mem_or_eq_of_mem_set hcall' with hold | rfl
      · exact h call' hold hwait
      · cases hwait
  | exit c code signal now =>
    rcases exit_cases c code signal now m with heq | ⟨child, hc, hlive⟩
    · rwa [Manager.step, heq]
    · rw [Manager.step, Manager.Armed, (exit_books hc hlive code signal now).2]
      intro call' hcall' hwait
      obtain ⟨call, hold, rfl⟩ := List.mem_map.mp hcall'
      rw [StopCall.onExit] at hwait ⊢
      split at hwait
      · cases hwait
      · rename_i hne
        rw [if_neg hne]
        exact h call hold hwait
  | error c msg =>
    rw [Manager.step, Manager.Armed, (steady_error c msg m).stops]
    exact h
  | data id stream text =>
    rw [Manager.step, Manager.Armed, pushLog_stops]
    exact h

theorem StopsStay.trans {m m' m'' : Manager} (h : StopsStay m m') (h' : StopsStay m' m'') : StopsStay m m'' := by
  intro k call hcall
  obtain ⟨call', hcall', hproc, hset⟩ := h k call hcall
  obtain ⟨call'', hcall'', hproc', hset'⟩ := h' k call' hcall'
  exact ⟨call'', hcall'', hproc'.trans hproc, fun h => hset' (hset h)⟩

theorem settled_iff {m : Manager} {k : ℕ} :
    m.settled k = true ↔ ∃ call, m.stops[k]? = some call ∧ call.settled = true := by
  rw [Manager.settled]
  cases m.stops[k]? <;> simp

theorem StopsStay.settled {m m' : Manager} (h : StopsStay m m') {k : ℕ} (hk : m.settled k = true) :
    m'.settled k = true := by
  obtain ⟨call, hcall, hset⟩ := settled_iff.mp hk
  obtain ⟨call', hcall', -, hset'⟩ := h k call hcall
  exact settled_iff.mpr ⟨call', hcall', hset' hset⟩

/-- The 5 s timer settles its call. -/
theorem sigkill_settles {m : Manager} (h : m.Armed) {k : ℕ} (hk : k < m.stops.length) :
    (m.sigkill k).settled k = true := by
  rcases sigkill_cases k m with ⟨heq, hoff⟩ | ⟨call, hcall, -, -, hstops⟩
  · have hcall : m.stops[k]? = some m.stops[k] := List.getElem?_eq_getElem hk
    rw [heq, settled_iff]
    refine ⟨_, hcall, ?_⟩
    by_contra hwait
    have harmed := h _ (List.getElem_mem hk) (Bool.eq_false_iff.mpr hwait)
    rw [hoff _ hcall] at harmed
    cases harmed
  · rw [settled_iff]
    exact ⟨call.done, by rw [hstops, List.getElem?_set_self hk], rfl⟩

/-! ### Calls and progress -/

theorem Script.stopping {body : ActionBody} {ks : List ℕ} {calls : List ManagerCall}
    (hs : Script num body (.stopping ks) calls) (k : ℕ) : k ∈ ks ↔ ∃ id, ManagerCall.stop id (some k) ∈ calls := by
  cases hs with
  | stopWaits id config k' => cases k' <;> simp [eq_comm]
  | stopAllWaits config k' k'' =>
    rw [List.mem_append, Option.mem_toList, Option.mem_toList]
    constructor
    · rintro (h | h)
      · exact ⟨.server, by rw [Option.mem_def.mp h]; exact List.mem_cons_self⟩
      · exact ⟨.daemon, by rw [Option.mem_def.mp h]; exact List.mem_cons_of_mem _ List.mem_cons_self⟩
    · rintro ⟨id, h⟩
      rcases List.mem_cons.mp h with h | h
      · cases h
        exact Or.inl rfl
      · cases List.mem_singleton.mp h
        exact Or.inr rfl

theorem Script.sleeping {body : ActionBody} {cfg : DashboardConfig} {calls : List ManagerCall}
    (hs : Script num body (.sleeping cfg) calls) (id : ProcId) (k : Option ℕ) : ManagerCall.stop id k ∉ calls := by
  cases hs
  simp

/-- A turn leaves the stop calls in place, and the ones it makes are its manager's. -/
structure Turn.Stops (m : Manager) (t : Turn) : Prop where
  stay : StopsStay m t.pm
  own : ∀ id k, ManagerCall.stop id (some k) ∈ t.calls → ∃ call, t.pm.stops[k]? = some call ∧ call.proc = id

theorem stop_awaited {id : ProcId} {m : Manager} {k : ℕ} (h : m.awaited id = some k) :
    ∃ call, (m.stop id).stops[k]? = some call ∧ call.proc = id := by
  rcases stop_stops id m with ⟨-, hnone⟩ | ⟨c, pid, hstops, hsome⟩
  · rw [hnone] at h
    cases h
  · rw [hsome] at h
    obtain rfl := Option.some.inj h
    exact ⟨_, by rw [hstops]; exact List.getElem?_concat_length, rfl⟩

theorem StopsStay.found {m m' : Manager} (h : StopsStay m m') {id : ProcId} {k : ℕ}
    (hk : ∃ call, m.stops[k]? = some call ∧ call.proc = id) : ∃ call, m'.stops[k]? = some call ∧ call.proc = id := by
  obtain ⟨call, hcall, hproc⟩ := hk
  obtain ⟨call', hcall', hproc', -⟩ := h k call hcall
  exact ⟨call', hcall', hproc'.trans hproc⟩

theorem startTurn_calls (id : ProcId) (cfg : DashboardConfig) (h : StartHost) (next : Manager → Progress)
    (m : Manager) (id' : ProcId) (k : Option ℕ) : ManagerCall.stop id' k ∉ (startTurn num id cfg h next m).calls := by
  rcases startTurn_cases num id cfg h next m with ⟨st, m', -, heq⟩ | ⟨msg, m', -, heq⟩ <;> simp [heq]

theorem firstTurn_stops (body : ActionBody) (h : StartHost) (m : Manager) : (firstTurn num body h m).Stops m where
  stay := firstTurn_inv (fun _ e hm => hm.trans (stopsStay_step _ e)) (.of_eq rfl) body h
  own := by
    intro id k hk
    rcases body with ⟨action, config⟩
    cases action with
    | start id' =>
      cases config with
      | none => cases hk
      | some cfg => exact absurd hk (startTurn_calls id' cfg h _ m id _)
    | stop id' =>
      obtain ⟨rfl, hawait⟩ := ManagerCall.stop.inj (List.mem_singleton.mp hk)
      exact stop_awaited hawait.symm
    | quickstart =>
      cases config with
      | none => cases hk
      | some cfg => exact absurd hk (startTurn_calls .daemon cfg h _ m id _)
    | stopAll =>
      rcases List.mem_cons.mp hk with hk | hk
      · obtain ⟨rfl, hawait⟩ := ManagerCall.stop.inj hk
        exact (stopsStay_step _ (.stop .daemon)).found (stop_awaited hawait.symm)
      · obtain ⟨rfl, hawait⟩ := ManagerCall.stop.inj (List.mem_singleton.mp hk)
        exact stop_awaited hawait.symm
    | unknown => cases hk

/-- A request that is answered at once stops nothing. -/
theorem firstTurn_answered {body : ActionBody} {h : StartHost} {m : Manager} {res : ActionAnswer}
    (ht : (firstTurn num body h m).progress = .answered res) (id : ProcId) (k : Option ℕ) :
    ManagerCall.stop id k ∉ (firstTurn num body h m).calls := by
  rcases body with ⟨action, config⟩
  cases action with
  | start id' =>
    cases config with
    | none => exact List.not_mem_nil
    | some cfg => exact startTurn_calls id' cfg h _ m id k
  | stop id' => cases ht
  | quickstart =>
    cases config with
    | none => exact List.not_mem_nil
    | some cfg => exact startTurn_calls .daemon cfg h _ m id k
  | stopAll => cases ht
  | unknown => exact List.not_mem_nil

theorem nextTurn_stops {m : Manager} {progress : Progress} {h : StartHost} {t : Turn}
    (ht : nextTurn num h m progress = some t) : t.Stops m where
  stay := nextTurn_inv (fun _ e hm => hm.trans (stopsStay_step _ e)) (.of_eq rfl) ht
  own := by
    intro id k hk
    cases progress with
    | sleeping cfg =>
      obtain rfl := Option.some.inj ht
      exact absurd hk (startTurn_calls .server cfg h _ m id _)
    | stopping ks =>
      rw [nextTurn] at ht
      split at ht
      · obtain rfl := Option.some.inj ht
        cases hk
      · cases ht
    | answered res => cases ht

/-- What a request has waited for is settled when its wait is over. -/
theorem nextTurn_settles {body : ActionBody} {progress : Progress} {calls : List ManagerCall}
    (hs : Script num body progress calls) {h : StartHost} {m : Manager} {t : Turn}
    (ht : nextTurn num h m progress = some t) (id : ProcId) (k : ℕ)
    (hk : ManagerCall.stop id (some k) ∈ calls ++ t.calls) : t.pm.settled k = true := by
  cases progress with
  | sleeping cfg =>
    obtain rfl := Option.some.inj ht
    rcases List.mem_append.mp hk with hold | hnew
    · exact absurd hold (hs.sleeping id _)
    · exact absurd hnew (startTurn_calls .server cfg h _ m id _)
  | stopping ks =>
    rw [nextTurn] at ht
    split at ht
    · rename_i hall
      obtain rfl := Option.some.inj ht
      rw [List.append_nil] at hk
      exact List.all_eq_true.mp hall k ((hs.stopping k).mpr ⟨id, hk⟩)
    · cases ht
  | answered res => cases ht

/-! ### Runs -/

/-- The books of the waits: timers are armed, a stop call is its request's own, and what an answered request waited
    for is settled. -/
structure Waits (num : ℚ → String) (r : ProcessRoute) : Prop where
  scripted : Scripted num r
  armed : r.pm.Armed
  own : ∀ i id k, (i, ManagerCall.stop id (some k)) ∈ r.calls → ∃ call, r.pm.stops[k]? = some call ∧ call.proc = id
  settled : ∀ i post res, r.posts[i]? = some post → post.progress = .answered res →
    ∀ id k, (i, ManagerCall.stop id (some k)) ∈ r.calls → r.pm.settled k = true

theorem waits_own {r : ProcessRoute} (h : Waits num r) {t : Turn} (ht : t.Stops r.pm) (i : ℕ) :
    ∀ j id k, (j, ManagerCall.stop id (some k)) ∈ r.calls ++ t.calls.map (fun c => (i, c)) →
      ∃ call, t.pm.stops[k]? = some call ∧ call.proc = id := by
  intro j id k hmem
  rcases List.mem_append.mp hmem with hold | hnew
  · exact ht.stay.found (h.own j id k hold)
  · obtain ⟨c, hc, heq⟩ := List.mem_map.mp hnew
    cases heq
    exact ht.own id k hc

theorem waits_post {r : ProcessRoute} (h : Waits num r) (body : ActionBody) (written : Bool) (host : StartHost) :
    Waits num (r.post num body written host) where
  scripted := scripted_post h.scripted body written host
  armed := firstTurn_inv (P := Manager.Armed) (fun _ e hm => armed_step hm e) h.armed body host
  own := waits_own h (firstTurn_stops body host r.pm) _
  settled := by
    intro i post res hpost hres id k hmem
    have hlt := (List.getElem?_eq_some_iff.mp hpost).1
    simp only [ProcessRoute.post, List.length_append, List.length_singleton] at hpost hlt hmem ⊢
    rcases Nat.lt_succ_iff_lt_or_eq.mp hlt with hold | rfl
    · rw [List.getElem?_append_left hold] at hpost
      rcases List.mem_append.mp hmem with hmem | hnew
      · exact (firstTurn_stops body host r.pm).stay.settled (h.settled i post res hpost hres id k hmem)
      · obtain ⟨c, -, heq⟩ := List.mem_map.mp hnew
        exact absurd (Prod.mk.inj heq).1 (Nat.ne_of_gt hold)
    · rw [List.getElem?_concat_length] at hpost
      rw [← Option.some.inj hpost] at hres
      rcases List.mem_append.mp hmem with hmem | hnew
      · exact absurd (h.scripted.made _ hmem) (Nat.lt_irrefl _)
      · obtain ⟨c, hc, heq⟩ := List.mem_map.mp hnew
        cases heq
        exact absurd hc (firstTurn_answered hres id (some k))

theorem waits_resume {r : ProcessRoute} (h : Waits num r) (i : ℕ) (host : StartHost) :
    Waits num (r.resume num i host) := by
  have hscripted := scripted_resume h.scripted i host
  rcases resume_cases num i host r with heq | ⟨post, t, hpost, ht, heq⟩ <;> rw [heq] at hscripted ⊢
  · exact h
  · have harmed : t.pm.Armed := nextTurn_inv (P := Manager.Armed) (fun _ e hm => armed_step hm e) h.armed ht
    refine ⟨hscripted, harmed, waits_own h (nextTurn_stops ht) i, ?_⟩
    intro j post' res hpost' hres id k hmem
    rcases eq_or_ne i j with rfl | hij
    · refine nextTurn_settles (h.scripted.script i post hpost) ht id k ?_
      have hown := mem_callsOf.mpr hmem
      rwa [callsOf_append, if_pos rfl] at hown
    · rw [List.getElem?_set_ne hij] at hpost'
      rcases List.mem_append.mp hmem with hmem | hnew
      · exact (nextTurn_stops ht).stay.settled (h.settled j post' res hpost' hres id k hmem)
      · obtain ⟨c, -, heq⟩ := List.mem_map.mp hnew
        exact absurd (Prod.mk.inj heq).1 hij

theorem waits_step {r : ProcessRoute} (h : Waits num r) (e : RouteEvent) : Waits num (r.step num e) := by
  cases e with
  | post body written host => exact waits_post h body written host
  | resume i host => exact waits_resume h i host
  | world e =>
    have hstay := stopsStay_step r.pm e.event
    exact ⟨⟨h.scripted.made, h.scripted.script⟩, armed_step h.armed e.event,
      fun i id k hmem => hstay.found (h.own i id k hmem),
      fun i post res hpost hres id k hmem => hstay.settled (h.settled i post res hpost hres id k hmem)⟩

theorem waits_exec (num : ℚ → String) (file : Option ConfigFile) (es : List RouteEvent) :
    Waits num (exec (ProcessRoute.step num) (.fresh file) es) := by
  refine exec_inv_free (Waits num) (fun _ e h => waits_step h e) ?_ es
  refine ⟨⟨fun c hc => (by cases hc), fun i post hpost => (by simp [ProcessRoute.fresh] at hpost)⟩, ?_, ?_, ?_⟩
  · intro call hcall
    cases hcall
  · intro i id k hmem
    cases hmem
  · intro i post res hpost
    simp [ProcessRoute.fresh] at hpost

/-! ### Nobody waits for ever -/

/-- The manager's own events leave the requests alone. -/
theorem exec_world (num : ℚ → String) (r : ProcessRoute) (es : List WorldEvent) :
    exec (ProcessRoute.step num) r (es.map .world) =
      { r with pm := exec Manager.step r.pm (es.map WorldEvent.event) } := by
  induction es generalizing r with
  | nil => rfl
  | cons e es ih => exact ih _

/-- The timers of some stop calls settle all of them. -/
theorem sigkills_settle {m : Manager} (h : m.Armed) {ks : List ℕ} (hks : ∀ k ∈ ks, k < m.stops.length) :
    ∀ k ∈ ks, (exec Manager.step m (ks.map .sigkill)).settled k = true := by
  induction ks generalizing m with
  | nil => exact fun k hk => (by cases hk)
  | cons k ks ih =>
    have hstay := stopsStay_step m (.sigkill k)
    have hrest : ∀ k' ∈ ks, k' < (m.step (.sigkill k)).stops.length := by
      intro k' hk'
      obtain ⟨call, hcall, -⟩ := hstay k' _ (List.getElem?_eq_getElem (hks k' (List.mem_cons_of_mem k hk')))
      exact (List.getElem?_eq_some_iff.mp hcall).1
    have hlater : StopsStay (m.step (.sigkill k)) (exec Manager.step m ((k :: ks).map .sigkill)) :=
      exec_inv_free (StopsStay (m.step (.sigkill k))) (fun _ e hm => hm.trans (stopsStay_step _ e)) (.of_eq rfl) _
    intro k' hk'
    rcases List.mem_cons.mp hk' with rfl | hmem
    · exact hlater.settled (sigkill_settles h (hks k' List.mem_cons_self))
    · exact ih (armed_step h (.sigkill k)) hrest k' hmem

/-- Once its calls are settled, a request that waits for them is answered. -/
theorem resume_stopping {r : ProcessRoute} {i : ℕ} {body : ActionBody} {ks : List ℕ}
    (hpost : r.posts[i]? = some ⟨body, .stopping ks⟩) (hks : ∀ k ∈ ks, r.pm.settled k = true) (h : StartHost) :
    (r.resume num i h).posts[i]? = some ⟨body, .answered (succeeded r.pm)⟩ := by
  have hi := (List.getElem?_eq_some_iff.mp hpost).1
  have hturn : nextTurn num h r.pm (.stopping ks) = some ⟨[], r.pm, .answered (succeeded r.pm)⟩ :=
    if_pos (List.all_eq_true.mpr hks)
  rw [ProcessRoute.resume, hpost]
  simp only [hturn, List.getElem?_set_self hi]

/-- A quickstart is answered behind its sleep, be its server started or not. -/
theorem resume_sleeping {r : ProcessRoute} {i : ℕ} {body : ActionBody} {cfg : DashboardConfig}
    (hpost : r.posts[i]? = some ⟨body, .sleeping cfg⟩) (h : StartHost) :
    ∃ res, (r.resume num i h).posts[i]? = some ⟨body, .answered res⟩ := by
  have hi := (List.getElem?_eq_some_iff.mp hpost).1
  rw [ProcessRoute.resume, hpost]
  simp only [nextTurn, List.getElem?_set_self hi]
  rcases startTurn_cases num .server cfg h (fun m => .answered (succeeded m)) r.pm with
    ⟨st, m', -, heq⟩ | ⟨msg, m', -, heq⟩
  · exact ⟨_, by rw [heq]⟩
  · exact ⟨_, by rw [heq]⟩

/-- ANSWERS: what an answered request stopped, as far as it found a child, is a settled stop call of that process;
    and a request that is not answered can be, by its own timers alone, whatever the children do and the other
    requests. -/
theorem actions_answered (num : ℚ → String) (file : Option ConfigFile) (es : List RouteEvent) (i : ℕ) (post : Post)
    (h : (exec (ProcessRoute.step num) (.fresh file) es).posts[i]? = some post) :
    let r := exec (ProcessRoute.step num) (.fresh file) es
    (∀ res, post.progress = .answered res → ∀ id k, ManagerCall.stop id (some k) ∈ r.callsOf i →
      ∃ call, r.pm.stops[k]? = some call ∧ call.proc = id ∧ call.settled = true) ∧
    ∃ es' : List RouteEvent,
      (∀ e ∈ es', (∃ host, e = .resume i host) ∨
        ∃ k id, e = .world (.sigkill k) ∧ ManagerCall.stop id (some k) ∈ r.callsOf i) ∧
      ∃ res, (exec (ProcessRoute.step num) r es').posts[i]? = some ⟨post.body, .answered res⟩ := by
  intro r
  have hw : Waits num r := waits_exec num file es
  have hscript := hw.scripted.script i post h
  have hown (id : ProcId) (k : ℕ) (hk : ManagerCall.stop id (some k) ∈ r.callsOf i) :=
    hw.own i id k (mem_callsOf.mp hk)
  refine ⟨fun res hres id k hk => ?_, ?_⟩
  · obtain ⟨call, hcall, hproc⟩ := hown id k hk
    obtain ⟨call', hcall', hset⟩ := settled_iff.mp (hw.settled i post res h hres id k (mem_callsOf.mp hk))
    rw [hcall] at hcall'
    obtain rfl := Option.some.inj hcall'
    exact ⟨call, hcall, hproc, hset⟩
  · have host : StartHost := ⟨true, .fails, 0⟩
    rcases post with ⟨body, progress⟩
    cases progress with
    | answered res => exact ⟨[], fun e he => (by cases he), res, h⟩
    | sleeping cfg =>
      refine ⟨[.resume i host], fun e he => Or.inl ⟨host, List.mem_singleton.mp he⟩, ?_⟩
      exact resume_sleeping h host
    | stopping ks =>
      have hks : ∀ k ∈ ks, k < r.pm.stops.length := by
        intro k hk
        obtain ⟨id, hcall⟩ := (hscript.stopping k).mp hk
        obtain ⟨call, hget, -⟩ := hown id k hcall
        exact (List.getElem?_eq_some_iff.mp hget).1
      refine ⟨(ks.map WorldEvent.sigkill).map .world ++ [.resume i host], fun e he => ?_, ?_⟩
      · rcases List.mem_append.mp he with hkill | hresume
        · rw [List.map_map] at hkill
          obtain ⟨k, hk, rfl⟩ := List.mem_map.mp hkill
          obtain ⟨id, hcall⟩ := (hscript.stopping k).mp hk
          exact Or.inr ⟨k, id, rfl, hcall⟩
        · exact Or.inl ⟨host, List.mem_singleton.mp hresume⟩
      · have hsettled := sigkills_settle hw.armed hks
        rw [exec_append, exec_world, List.map_map]
        exact ⟨_, @resume_stopping num { r with pm := exec Manager.step r.pm (ks.map .sigkill) } i body ks h hsettled host⟩

/-- A stop of a server that ignores its signals. -/
theorem actions_answered_stubborn :
    let es : List RouteEvent := [.post ⟨.start .server, some bareConfig⟩ true ⟨true, .runs 100, 1⟩,
      .post ⟨.stop .server, some bareConfig⟩ true ⟨true, .fails, 2⟩]
    let r := exec (ProcessRoute.step toString) (.fresh none) es
    r.callsOf 1 = [.stop .server (some 0)] ∧ r.pm.settled 0 = false ∧
      ∃ es' body res, (exec (ProcessRoute.step toString) r es').posts[1]? = some ⟨body, .answered res⟩ := by
  intro es r
  obtain ⟨-, es', -, res, hanswered⟩ := actions_answered toString none es 1 _ rfl
  exact ⟨by decide +kernel, by decide +kernel, es', _, res, hanswered⟩

end DsparkEdge.Ui
