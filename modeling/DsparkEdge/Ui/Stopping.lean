import DsparkEdge.Ui.Children

/-! What a settled `stop()` says. A stop call is settled by the 'exit' of its child, or by its own 5 s
    timer, which sends SIGKILL and does not wait for what comes of it.

        stop ─▶ SIGINT ──┬── exit of the child ─▶ settled, timers cleared: gone, no pid
                         ├── 2.5 s ─▶ SIGTERM
                         └── 5 s ─▶ SIGKILL, settled: still "running", with its pid

    A stop that finds no child or no pid returns at once. The process can have lost a child that lives:
    after an undelivered signal a `start` drops the pid, or the exit of one child takes away the other. -/

namespace DsparkEdge.Ui

open Runs

/-- The status that a stopped process has. -/
def Manager.ShowsStopped (m : Manager) (id : ProcId) : Prop :=
  (m.status id).state ≠ .running ∧ (m.status id).pid = none

/-- The child has exited. -/
def Manager.Gone (m : Manager) (c : ℕ) : Prop := ∃ child, m.children[c]? = some child ∧ child.phase = .gone

/-- Stop call `k` waits. -/
def Manager.Pending (m : Manager) (k : ℕ) (call : StopCall) : Prop :=
  m.stops[k]? = some call ∧ call.settled = false

/-- The process has a child and knows its pid. -/
def Manager.HasChild (m : Manager) (id : ProcId) : Prop :=
  (m.procs.get id).child ≠ none ∧ (m.status id).pid ≠ none

/-- What a caller may rely on, about one step: a call that is settled in it finds its child gone and
    returns a stopped status, so does a call that returns at once, and the timers of a settled call
    signal nobody. -/
structure StopMeansStopped (m : Manager) (e : ManagerEvent) : Prop where
  settled : ∀ k call call', m.Pending k call → (m.step e).stops[k]? = some call' → call'.settled = true →
    (m.step e).Gone call.child ∧ (m.step e).ShowsStopped call.proc
  atOnce : ∀ id, e = .stop id → ¬m.HasChild id →
    (∀ c, ¬(m.step e).Live id c) ∧ (m.step e).ShowsStopped id
  silent : ∀ k call, m.stops[k]? = some call → call.settled = true → e = .sigterm k ∨ e = .sigkill k →
    (m.step e).signals = m.signals

/-- No 5 s timer fires: the exit of the child comes first and clears it. -/
def ExitsInTime (m : Manager) : ManagerEvent → Prop
  | .sigkill k => ∀ call, m.stops[k]? = some call → call.t2 = false
  | _ => True

/-- A stop finds the child, if one lives. -/
def FindsChild (m : Manager) : ManagerEvent → Prop
  | .stop id => ∀ c, m.Live id c → m.HasChild id
  | _ => True

/-- A start gets past its guard, and to its spawn, only when every child of its process has exited. -/
def StartsAfterExit (m : Manager) : ManagerEvent → Prop
  | .start id _ _ binExists _ _ => m.ReachesSpawn id binExists → ∀ c, ¬m.Live id c
  | _ => True

/-! ### The books of the stop calls -/

/-- A child that a process refers to, with a pid, is live; a call that waits waits for a live child; a
    settled call has no timer left. -/
structure StopsKept (m : Manager) : Prop where
  own : ∀ id c, (m.procs.get id).child = some c → (m.status id).pid ≠ none → m.Live id c
  lost : ∀ id, (m.procs.get id).child = none → (m.status id).pid = none
  pending : ∀ call ∈ m.stops, call.settled = false → m.Live call.proc call.child
  timers : ∀ call ∈ m.stops, call.settled = true → call.t1 = false ∧ call.t2 = false

theorem fresh_stopsKept : StopsKept .fresh where
  own := by
    intro id c hc
    cases id <;> cases hc
  lost := by
    intro id _
    cases id <;> rfl
  pending := by simp [Manager.fresh]
  timers := by simp [Manager.fresh]

/-- The children live on, and the references, the pids and the stop calls are what they were. -/
structure Steady (m m' : Manager) : Prop where
  live : ∀ id c, m'.Live id c ↔ m.Live id c
  child : ∀ id, (m'.procs.get id).child = (m.procs.get id).child
  pid : ∀ id, (m'.status id).pid = (m.status id).pid
  stops : m'.stops = m.stops

theorem Steady.refl (m : Manager) : Steady m m := ⟨fun _ _ => Iff.rfl, fun _ => rfl, fun _ => rfl, rfl⟩

theorem Steady.trans {m m' m'' : Manager} (h : Steady m m') (h' : Steady m' m'') : Steady m m'' where
  live := fun id c => (h'.live id c).trans (h.live id c)
  child := fun id => (h'.child id).trans (h.child id)
  pid := fun id => (h'.pid id).trans (h.pid id)
  stops := h'.stops.trans h.stops

/-- The books are kept if the children live on, no pid is new and the calls are in order. -/
theorem StopsKept.calls {m m' : Manager} (h : StopsKept m) (hlive : ∀ id c, m'.Live id c ↔ m.Live id c)
    (hchild : ∀ id, (m'.procs.get id).child = (m.procs.get id).child)
    (hpid : ∀ id, (m'.status id).pid = none ∨ (m'.status id).pid = (m.status id).pid)
    (hpending : ∀ call ∈ m'.stops, call.settled = false → m.Live call.proc call.child)
    (htimers : ∀ call ∈ m'.stops, call.settled = true → call.t1 = false ∧ call.t2 = false) :
    StopsKept m' where
  own := by
    intro id c hc hne
    rw [hchild] at hc
    rcases hpid id with hnone | hsame
    · exact absurd hnone hne
    · rw [hsame] at hne
      exact (hlive id c).mpr (h.own id c hc hne)
  lost := by
    intro id hc
    rw [hchild] at hc
    rcases hpid id with hnone | hsame
    · exact hnone
    · rw [hsame]
      exact h.lost id hc
  pending := fun call hcall hwait => (hlive _ _).mpr (hpending call hcall hwait)
  timers := htimers

theorem StopsKept.steady {m m' : Manager} (h : StopsKept m) (hm : Steady m m') : StopsKept m' := by
  refine h.calls hm.live hm.child (fun id => Or.inr (hm.pid id)) ?_ ?_
  · rw [hm.stops]
    exact h.pending
  · rw [hm.stops]
    exact h.timers

theorem live_congr {m m' : Manager} (h : m'.children = m.children) (id : ProcId) (c : ℕ) :
    m'.Live id c ↔ m.Live id c := by
  rw [Manager.Live, Manager.Live, h]

@[simp] theorem pushLog_stops (id : ProcId) (stream : LogStream) (text : String) (m : Manager) :
    (m.pushLog id stream text).stops = m.stops :=
  pushLog_inv Manager.stops (fun _ _ => rfl) text m

@[simp] theorem updateStatus_stops (id : ProcId) (patch : StatusPatch) (m : Manager) :
    (m.updateStatus id patch).stops = m.stops := rfl

theorem steady_pushLog (id : ProcId) (stream : LogStream) (text : String) (m : Manager) :
    Steady m (m.pushLog id stream text) :=
  ⟨live_congr (by simp), by simp, by simp, by simp⟩

theorem steady_updateStatus {patch : StatusPatch} (hpatch : patch.pid = none) (id : ProcId) (m : Manager) :
    Steady m (m.updateStatus id patch) where
  live := live_congr (by simp)
  child := by simp
  pid := by
    intro id'
    rw [updateStatus_status]
    split
    · rename_i h
      simp [ProcStatus.patch, hpatch, h]
    · rfl
  stops := rfl

theorem steady_dropLogs (id : ProcId) (m : Manager) : Steady m (m.dropLogs id) :=
  ⟨live_congr (by simp), by simp, by simp, rfl⟩

/-- An 'error' takes no live child away. -/
theorem steady_error (c : ℕ) (msg : String) (m : Manager) : Steady m (m.error c msg) := by
  unfold Manager.error
  split
  · exact .refl m
  · rename_i child hc
    split
    · exact .refl m
    · have hlive : ∀ id c', Manager.Live { m with children := m.children.set c child.afterError } id c' ↔
          m.Live id c' := by
        intro id c'
        rcases eq_or_ne c c' with rfl | hne
        · have hlt := (List.getElem?_eq_some_iff.mp hc).1
          simp only [Manager.Live, List.getElem?_set_self hlt, hc, Option.some.injEq, exists_eq_left']
          cases hphase : child.phase <;> simp [Child.afterError, hphase]
        · simp only [Manager.Live, List.getElem?_set_ne hne]
      have hset : Steady m { m with children := m.children.set c child.afterError } :=
        ⟨hlive, fun _ => rfl, fun _ => rfl, rfl⟩
      exact (hset.trans (steady_pushLog child.proc .system _ _)).trans (steady_updateStatus rfl child.proc _)

/-! ### Starts -/

/-- Before it spawns, a start forgets the pid of its process. -/
structure Readied (id : ProcId) (m m' : Manager) : Prop where
  live : ∀ id' c, m'.Live id' c ↔ m.Live id' c
  child : ∀ id', (m'.procs.get id').child = (m.procs.get id').child
  pid : ∀ id', (m'.status id').pid = if id' = id then none else (m.status id').pid
  stops : m'.stops = m.stops

theorem Readied.steady {id : ProcId} {m m' m'' : Manager} (h : Readied id m m') (h' : Steady m' m'') :
    Readied id m m'' where
  live := fun id' c => (h'.live id' c).trans (h.live id' c)
  child := fun id' => (h'.child id').trans (h.child id')
  pid := fun id' => (h'.pid id').trans (h.pid id')
  stops := h'.stops.trans h.stops

theorem readied_updateStatus {patch : StatusPatch} (hpatch : patch.pid = some none) (id : ProcId)
    (m : Manager) : Readied id m (m.updateStatus id patch) where
  live := live_congr (by simp)
  child := by simp
  pid := by
    intro id'
    rw [updateStatus_status]
    split
    · simp [ProcStatus.patch, hpatch]
    · rfl
  stops := rfl

/-- A start leaves all as it is, or it is ready to spawn and spawns or not. -/
theorem start_readies (id : ProcId) (bin : String) (args : List String) (binExists : Bool)
    (spawn : SpawnOutcome) (now : ℕ) (m : Manager) :
    Steady m (m.start id bin args binExists spawn now).2 ∨
      m.ReachesSpawn id binExists ∧ ∃ ready, Readied id m ready ∧
        ((m.start id bin args binExists spawn now).2 = ready ∨
          (m.start id bin args binExists spawn now).2 = ready.spawned id ⟨id, none, .failing⟩ ∨
          ∃ pid, (m.start id bin args binExists spawn now).2 = ready.spawned id ⟨id, some pid, .live⟩) := by
  simp only [Manager.start, Manager.ReachesSpawn]
  split
  · exact Or.inl (.refl m)
  · rename_i hrun
    cases binExists with
    | false => exact Or.inl ((steady_pushLog id .system _ m).trans (steady_updateStatus rfl id _))
    | true =>
      have hready (patch : StatusPatch) (hpatch : patch.pid = some none) (text : String) :
          Readied id m (((m.dropLogs id).updateStatus id patch).pushLog id .system text) := by
        have hdrop := steady_dropLogs id m
        have hupdate := readied_updateStatus hpatch id (m.dropLogs id)
        refine Readied.steady ⟨fun id' c => (hupdate.live id' c).trans (hdrop.live id' c),
          fun id' => (hupdate.child id').trans (hdrop.child id'), fun id' => ?_, rfl⟩
          (steady_pushLog id .system text _)
        rw [hupdate.pid, hdrop.pid]
      refine Or.inr ⟨⟨rfl, hrun⟩, ?_⟩
      cases spawn with
      | throws msg =>
        exact ⟨_, ((hready _ rfl _).steady (steady_pushLog id .system _ _)).steady
          (steady_updateStatus rfl id _), Or.inl rfl⟩
      | fails => exact ⟨_, hready _ rfl _, Or.inr (Or.inl rfl)⟩
      | runs pid => exact ⟨_, hready _ rfl _, Or.inr (Or.inr ⟨pid, rfl⟩)⟩

theorem live_spawned (id : ProcId) (child : Child) (m : Manager) (id' : ProcId) (c : ℕ) :
    (m.spawned id child).Live id' c ↔
      m.Live id' c ∨ c = m.children.length ∧ child.proc = id' ∧ child.phase = .live := by
  rw [Manager.Live, Manager.Live, spawned_children]
  rcases Nat.lt_trichotomy c m.children.length with hlt | rfl | hgt
  · rw [List.getElem?_append_left hlt]
    simp [Nat.ne_of_lt hlt]
  · simp
  · have hnone : m.children[c]? = none := List.getElem?_eq_none (by omega)
    have hnone' : (m.children ++ [child])[c]? = none := List.getElem?_eq_none (by simp; omega)
    rw [hnone, hnone']
    simp [Nat.ne_of_gt hgt]

theorem spawned_pid (id : ProcId) (child : Child) (m : Manager) (id' : ProcId) :
    ((m.spawned id child).status id').pid = if id' = id then child.pid else (m.status id').pid := by
  rw [spawned_status]
  split
  · rfl
  · rfl

theorem spawned_stops (id : ProcId) (child : Child) (m : Manager) : (m.spawned id child).stops = m.stops :=
  rfl

theorem StopsKept.readied {id : ProcId} {m m' : Manager} (h : StopsKept m) (hm : Readied id m m') :
    StopsKept m' := by
  refine h.calls hm.live hm.child (fun id' => ?_) ?_ ?_
  · rw [hm.pid]
    split
    · exact Or.inl rfl
    · exact Or.inr rfl
  · rw [hm.stops]
    exact h.pending
  · rw [hm.stops]
    exact h.timers

/-- A child with a pid is spawned live. -/
theorem StopsKept.spawned {m : Manager} (h : StopsKept m) {id : ProcId} {child : Child}
    (hproc : child.proc = id) (hlive : child.pid ≠ none → child.phase = .live) :
    StopsKept (m.spawned id child) where
  own := by
    intro id' c hc hpid
    rw [spawned_child] at hc
    rw [spawned_pid] at hpid
    rw [live_spawned]
    split at hc
    · rename_i heq
      rw [if_pos heq] at hpid
      exact Or.inr ⟨(Option.some.inj hc).symm, hproc.trans heq.symm, hlive hpid⟩
    · rename_i hne
      rw [if_neg hne] at hpid
      exact Or.inl (h.own id' c hc hpid)
  lost := by
    intro id' hc
    rw [spawned_child] at hc
    rw [spawned_pid]
    split at hc
    · cases hc
    · rename_i hne
      rw [if_neg hne]
      exact h.lost id' hc
  pending := fun call hcall hwait => (live_spawned id child m _ _).mpr (Or.inl (h.pending call hcall hwait))
  timers := h.timers

theorem StopsKept.start {m : Manager} (h : StopsKept m) (id : ProcId) (bin : String) (args : List String)
    (binExists : Bool) (spawn : SpawnOutcome) (now : ℕ) :
    StopsKept (m.start id bin args binExists spawn now).2 := by
  rcases start_readies id bin args binExists spawn now m with
    hm | ⟨-, ready, hready, heq | heq | ⟨pid, heq⟩⟩
  · exact h.steady hm
  · rw [heq]
    exact h.readied hready
  · rw [heq]
    exact (h.readied hready).spawned rfl fun hne => absurd rfl hne
  · rw [heq]
    exact (h.readied hready).spawned rfl fun _ => rfl

/-- A start settles no call. -/
theorem start_stops (id : ProcId) (bin : String) (args : List String) (binExists : Bool)
    (spawn : SpawnOutcome) (now : ℕ) (m : Manager) :
    (m.start id bin args binExists spawn now).2.stops = m.stops := by
  rcases start_readies id bin args binExists spawn now m with
    hm | ⟨-, ready, hready, heq | heq | ⟨pid, heq⟩⟩
  · exact hm.stops
  · rw [heq, hready.stops]
  · rw [heq, spawned_stops, hready.stops]
  · rw [heq, spawned_stops, hready.stops]

/-! ### Stops and their timers -/

theorem stop_of_lost {id : ProcId} {m : Manager} (h : ¬m.HasChild id) :
    m.stop id = m.updateStatus id { state := some .stopped } := by
  simp only [Manager.stop]
  split
  · rename_i c pid hc hpid
    exact absurd ⟨by simp [hc], by simp [Manager.status, hpid]⟩ h
  · rfl

theorem stop_of_child {id : ProcId} {m : Manager} (h : m.HasChild id) :
    ∃ c pid, (m.procs.get id).child = some c ∧ (m.status id).pid ≠ none ∧
      (m.stop id).stops = m.stops ++ [⟨id, c, pid, true, true, false⟩] := by
  obtain ⟨c, hc⟩ := Option.ne_none_iff_exists'.mp h.1
  obtain ⟨pid, hpid⟩ := Option.ne_none_iff_exists'.mp h.2
  have hpid' : (m.procs.get id).status.pid = some pid := hpid
  refine ⟨c, pid, hc, h.2, ?_⟩
  simp only [Manager.stop, hc, hpid', pushLog_stops]

/-- Nothing but the calls may change. -/
structure SameProcs (m m' : Manager) : Prop where
  children : m'.children = m.children
  child : ∀ id, (m'.procs.get id).child = (m.procs.get id).child
  pid : ∀ id, (m'.status id).pid = (m.status id).pid

theorem stop_sameProcs (id : ProcId) (m : Manager) : SameProcs m (m.stop id) := by
  by_cases h : m.HasChild id
  · obtain ⟨c, hc⟩ := Option.ne_none_iff_exists'.mp h.1
    obtain ⟨pid, hpid⟩ := Option.ne_none_iff_exists'.mp h.2
    have hpid' : (m.procs.get id).status.pid = some pid := hpid
    have hsteady := steady_pushLog id .system "stopping…" m
    have hchildren := pushLog_children id .system "stopping…" m
    simp only [Manager.stop, hc, hpid']
    exact ⟨hchildren, hsteady.child, hsteady.pid⟩
  · rw [stop_of_lost h]
    have hsteady := @steady_updateStatus { state := some .stopped } rfl id m
    exact ⟨rfl, hsteady.child, hsteady.pid⟩

theorem StopsKept.same {m m' : Manager} (h : StopsKept m) (hm : SameProcs m m')
    (hpending : ∀ call ∈ m'.stops, call.settled = false → m.Live call.proc call.child)
    (htimers : ∀ call ∈ m'.stops, call.settled = true → call.t1 = false ∧ call.t2 = false) :
    StopsKept m' :=
  h.calls (live_congr hm.children) hm.child (fun id => Or.inr (hm.pid id)) hpending htimers

/-- One call becomes another that is in order. -/
theorem StopsKept.setCall {m m' : Manager} (h : StopsKept m) (hm : SameProcs m m') {k : ℕ} {call : StopCall}
    (hstops : m'.stops = m.stops.set k call) (hpending : call.settled = false → m.Live call.proc call.child)
    (htimers : call.settled = true → call.t1 = false ∧ call.t2 = false) : StopsKept m' := by
  refine h.same hm ?_ ?_
  · rw [hstops]
    intro call' hcall' hwait
    rcases List.mem_or_eq_of_mem_set hcall' with hold | rfl
    · exact h.pending call' hold hwait
    · exact hpending hwait
  · rw [hstops]
    intro call' hcall' hset
    rcases List.mem_or_eq_of_mem_set hcall' with hold | rfl
    · exact h.timers call' hold hset
    · exact htimers hset

theorem StopsKept.stop {m : Manager} (h : StopsKept m) (id : ProcId) : StopsKept (m.stop id) := by
  by_cases hchild : m.HasChild id
  · obtain ⟨c, pid, hc, hpid, hstops⟩ := stop_of_child hchild
    refine h.same (stop_sameProcs id m) ?_ ?_
    · rw [hstops]
      intro call hcall hwait
      rcases List.mem_append.mp hcall with hold | hnew
      · exact h.pending call hold hwait
      · rw [List.mem_singleton.mp hnew]
        exact h.own id c hc hpid
    · rw [hstops]
      intro call hcall hset
      rcases List.mem_append.mp hcall with hold | hnew
      · exact h.timers call hold hset
      · rw [List.mem_singleton.mp hnew] at hset
        cases hset
  · rw [stop_of_lost hchild]
    exact h.steady (steady_updateStatus rfl id m)

/-- A timer of call `k` that is not armed does nothing; an armed one changes that call. -/
theorem sigterm_cases (k : ℕ) (m : Manager) :
    m.sigterm k = m ∨ ∃ call, m.stops[k]? = some call ∧ call.t1 = true ∧ SameProcs m (m.sigterm k) ∧
      (m.sigterm k).stops = m.stops.set k { call with t1 := false } := by
  unfold Manager.sigterm
  split
  · exact Or.inl rfl
  · rename_i call hcall
    split
    · rename_i ht
      exact Or.inr ⟨call, hcall, ht, ⟨rfl, fun _ => rfl, fun _ => rfl⟩, rfl⟩
    · exact Or.inl rfl

theorem sigkill_cases (k : ℕ) (m : Manager) :
    (m.sigkill k = m ∧ ∀ call, m.stops[k]? = some call → call.t2 = false) ∨
      ∃ call, m.stops[k]? = some call ∧ call.t2 = true ∧ SameProcs m (m.sigkill k) ∧
        (m.sigkill k).stops = m.stops.set k call.done := by
  unfold Manager.sigkill
  split
  · rename_i hnone
    exact Or.inl ⟨rfl, by simp [hnone]⟩
  · rename_i call hcall
    split
    · rename_i ht
      exact Or.inr ⟨call, hcall, ht, ⟨rfl, fun _ => rfl, fun _ => rfl⟩, rfl⟩
    · rename_i ht
      exact Or.inl ⟨rfl, by simpa [hcall] using ht⟩

theorem StopsKept.sigterm {m : Manager} (h : StopsKept m) (k : ℕ) : StopsKept (m.sigterm k) := by
  rcases sigterm_cases k m with heq | ⟨call, hcall, -, hm, hstops⟩
  · rwa [heq]
  · have hmem := List.mem_of_getElem? hcall
    exact h.setCall hm hstops (h.pending call hmem) fun hset => ⟨rfl, (h.timers call hmem hset).2⟩

theorem StopsKept.sigkill {m : Manager} (h : StopsKept m) (k : ℕ) : StopsKept (m.sigkill k) := by
  rcases sigkill_cases k m with ⟨heq, -⟩ | ⟨call, -, -, hm, hstops⟩
  · rwa [heq]
  · exact h.setCall hm hstops (fun hwait => (by cases hwait)) fun _ => ⟨rfl, rfl⟩

/-! ### Exits -/

/-- The process of a child that exits has no pid any more, and the calls that wait for it are settled. -/
theorem exit_books {c : ℕ} {child : Child} {m : Manager} (hc : m.children[c]? = some child)
    (hlive : child.phase = .live) (code : Option ℤ) (signal : Option String) (now : ℕ) :
    ((m.exit c code signal now).status child.proc).pid = none ∧
      (m.exit c code signal now).stops = m.stops.map (StopCall.onExit c) := by
  simp only [Manager.exit, hc, hlive, if_true]
  refine ⟨by rw [updateStatus_status, if_pos rfl]; rfl, ?_⟩
  rw [updateStatus_stops, pushLog_stops]

theorem Exited.live {c : ℕ} {child : Child} {m m' : Manager} (he : Exited c child m m') (id : ProcId)
    (c' : ℕ) : m'.Live id c' ↔ m.Live id c' ∧ c' ≠ c := by
  rw [Manager.Live, Manager.Live, he.children]
  rcases eq_or_ne c c' with rfl | hne
  · rw [List.getElem?_set]
    simp
  · rw [List.getElem?_set_ne hne]
    simp [Ne.symm hne]

theorem StopsKept.exited {c : ℕ} {child : Child} {m m' : Manager} (h : StopsKept m)
    (he : Exited c child m m') (hc : m.children[c]? = some child)
    (hpid : (m'.status child.proc).pid = none) (hstops : m'.stops = m.stops.map (StopCall.onExit c)) :
    StopsKept m' where
  own := by
    intro id c' hc' hpid'
    have hid : id ≠ child.proc := by
      rintro rfl
      exact hpid' hpid
    rw [he.child_other id hid] at hc'
    rw [he.status_other id hid] at hpid'
    have hold := h.own id c' hc' hpid'
    refine (he.live id c').mpr ⟨hold, ?_⟩
    rintro rfl
    obtain ⟨child', hget, hproc, -⟩ := hold
    rw [hc] at hget
    exact hid (by rw [← hproc, ← Option.some.inj hget])
  lost := by
    intro id hnone
    rcases eq_or_ne id child.proc with rfl | hid
    · exact hpid
    · rw [he.child_other id hid] at hnone
      rw [he.status_other id hid]
      exact h.lost id hnone
  pending := by
    rw [hstops]
    intro call hcall hwait
    obtain ⟨call, hold, rfl⟩ := List.mem_map.mp hcall
    rw [StopCall.onExit] at hwait ⊢
    split at hwait
    · cases hwait
    · rename_i hne
      rw [if_neg hne]
      exact (he.live _ _).mpr ⟨h.pending call hold hwait, hne⟩
  timers := by
    rw [hstops]
    intro call hcall hset
    obtain ⟨call, hold, rfl⟩ := List.mem_map.mp hcall
    rw [StopCall.onExit] at hset ⊢
    split at hset
    · rename_i heq
      rw [if_pos heq]
      exact ⟨rfl, rfl⟩
    · rename_i hne
      rw [if_neg hne]
      exact h.timers call hold hset

/-- The 'exit' of a live child, or nothing. -/
theorem exit_cases (c : ℕ) (code : Option ℤ) (signal : Option String) (now : ℕ) (m : Manager) :
    m.exit c code signal now = m ∨ ∃ child, m.children[c]? = some child ∧ child.phase = .live := by
  by_cases h : ∃ child, m.children[c]? = some child ∧ child.phase = .live
  · exact Or.inr h
  · exact Or.inl (exit_of_not_live (fun child hc hlive => h ⟨child, hc, hlive⟩) code signal now)

theorem StopsKept.exit {m : Manager} (h : StopsKept m) (c : ℕ) (code : Option ℤ) (signal : Option String)
    (now : ℕ) : StopsKept (m.exit c code signal now) := by
  rcases exit_cases c code signal now m with heq | ⟨child, hc, hlive⟩
  · rwa [heq]
  · obtain ⟨hpid, hstops⟩ := exit_books hc hlive code signal now
    exact h.exited (exit_of_live hc hlive code signal now) hc hpid hstops

theorem stopsKept_step {m : Manager} (h : StopsKept m) (e : ManagerEvent) : StopsKept (m.step e) := by
  cases e with
  | start id bin args binExists spawn now => exact h.start id bin args binExists spawn now
  | stop id => exact h.stop id
  | sigterm k => exact h.sigterm k
  | sigkill k => exact h.sigkill k
  | exit c code signal now => exact h.exit c code signal now
  | error c msg => exact h.steady (steady_error c msg m)
  | data id stream text => exact h.steady (steady_pushLog id stream text m)

/-! ### What a step means for those who wait -/

theorem silent_step {m : Manager} (h : StopsKept m) (e : ManagerEvent) (k : ℕ) (call : StopCall)
    (hcall : m.stops[k]? = some call) (hset : call.settled = true) (he : e = .sigterm k ∨ e = .sigkill k) :
    (m.step e).signals = m.signals := by
  obtain ⟨ht1, ht2⟩ := h.timers call (List.mem_of_getElem? hcall) hset
  rcases he with rfl | rfl
  · simp [Manager.step, Manager.sigterm, hcall, ht1]
  · simp [Manager.step, Manager.sigkill, hcall, ht2]

/-- A step that settles no call keeps its promises if it is no stop that returns at once. -/
theorem stopMeansStopped_of_waiting {m : Manager} (h : StopsKept m) {e : ManagerEvent}
    (hwait : ∀ k call call', m.Pending k call → (m.step e).stops[k]? = some call' → call'.settled = false)
    (hstop : ∀ id, e = .stop id → m.HasChild id) : StopMeansStopped m e where
  settled := by
    intro k call call' hpending hcall' hset
    rw [hwait k call call' hpending hcall'] at hset
    cases hset
  atOnce := fun id he hlost => absurd (hstop id he) hlost
  silent := silent_step h e

theorem stopMeansStopped_of_stops {m : Manager} (h : StopsKept m) {e : ManagerEvent}
    (hstops : (m.step e).stops = m.stops) (hstop : ∀ id, e ≠ .stop id) : StopMeansStopped m e := by
  refine stopMeansStopped_of_waiting h ?_ fun id he => absurd he (hstop id)
  intro k call call' hpending hcall'
  rw [hstops, hpending.1] at hcall'
  rw [← Option.some.inj hcall']
  exact hpending.2

/-- A stop that returns at once is right exactly if no child of its process lives. -/
theorem stopMeansStopped_stop {m : Manager} (h : StopsKept m) (id : ProcId) :
    StopMeansStopped m (.stop id) ↔ FindsChild m (.stop id) := by
  by_cases hchild : m.HasChild id
  · refine iff_of_true (stopMeansStopped_of_waiting h ?_ ?_) fun _ _ => hchild
    · intro k call call' hpending hcall'
      obtain ⟨c, pid, -, -, hstops⟩ := stop_of_child hchild
      have hlt := (List.getElem?_eq_some_iff.mp hpending.1).1
      rw [Manager.step, hstops, List.getElem?_append_left hlt, hpending.1] at hcall'
      rw [← Option.some.inj hcall']
      exact hpending.2
    · rintro id' ⟨⟩
      exact hchild
  · have hlive : ∀ c, (m.stop id).Live id c ↔ m.Live id c := live_congr (stop_sameProcs id m).children id
    constructor
    · intro hmeans c hc
      exact absurd ((hlive c).mpr hc) ((hmeans.atOnce id rfl hchild).1 c)
    · intro hfinds
      have hnone : (m.status id).pid = none := by
        by_contra hpid
        exact hchild ⟨fun hc => hpid (h.lost id hc), hpid⟩
      refine ⟨?_, ?_, silent_step h _⟩
      · intro k call call' hpending hcall' hset
        rw [Manager.step, stop_of_lost hchild] at hcall'
        rw [← Option.some.inj (hpending.1.symm.trans hcall'), hpending.2] at hset
        cases hset
      · rintro id' ⟨⟩ -
        refine ⟨fun c hc => hchild (hfinds c ((hlive c).mp hc)), ?_, ?_⟩
        · rw [Manager.step, stop_of_lost hchild, updateStatus_status, if_pos rfl]
          simp [ProcStatus.patch]
        · rw [Manager.step, stop_of_lost hchild, updateStatus_status, if_pos rfl]
          exact hnone

/-- An exit settles the calls of its child, and the status of that moment is returned. -/
theorem stopMeansStopped_exit {m : Manager} (h : StopsKept m) (c : ℕ) (code : Option ℤ)
    (signal : Option String) (now : ℕ) : StopMeansStopped m (.exit c code signal now) := by
  rcases exit_cases c code signal now m with heq | ⟨child, hc, hlive⟩
  · exact stopMeansStopped_of_stops h (by rw [Manager.step, heq]) (by simp)
  · have he := exit_of_live hc hlive code signal now
    obtain ⟨hpid, hstops⟩ := exit_books hc hlive code signal now
    refine ⟨?_, by simp, silent_step h _⟩
    intro k call call' hpending hcall' hset
    rw [Manager.step, hstops, List.getElem?_map, hpending.1] at hcall'
    obtain rfl := Option.some.inj hcall'
    rw [StopCall.onExit] at hset
    split at hset
    · rename_i hown
      -- the call waits for a live child of its own process, so for this one
      obtain ⟨child', hget, hproc, -⟩ := h.pending call (List.mem_of_getElem? hpending.1) hpending.2
      rw [hown, hc] at hget
      obtain rfl := Option.some.inj hget
      have hlt := (List.getElem?_eq_some_iff.mp hc).1
      rw [hown, ← hproc]
      refine ⟨⟨{ child with phase := .gone }, ?_, rfl⟩, he.status_own, hpid⟩
      rw [Manager.step, he.children, List.getElem?_set_self hlt]
    · rw [hpending.2] at hset
      cases hset

/-- The 5 s timer settles its call while the child still lives. -/
theorem stopMeansStopped_sigkill {m : Manager} (h : StopsKept m) (k : ℕ) :
    StopMeansStopped m (.sigkill k) ↔ ExitsInTime m (.sigkill k) := by
  rcases sigkill_cases k m with ⟨heq, hcleared⟩ | ⟨call, hcall, ht2, hm, hstops⟩
  · exact iff_of_true (stopMeansStopped_of_stops h (by rw [Manager.step, heq]) (by simp)) hcleared
  · refine iff_of_false ?_ ?_
    · intro hmeans
      have hmem := List.mem_of_getElem? hcall
      have hwaits : call.settled = false := by
        by_contra hset
        rw [(h.timers call hmem (by simpa using hset)).2] at ht2
        cases ht2
      obtain ⟨child, hget, -, hlive⟩ := h.pending call hmem hwaits
      have hlt := (List.getElem?_eq_some_iff.mp hcall).1
      obtain ⟨⟨child', hget', hgone⟩, -⟩ := hmeans.settled k call call.done ⟨hcall, hwaits⟩
        (by rw [Manager.step, hstops, List.getElem?_set_self hlt]) rfl
      rw [Manager.step, hm.children, hget] at hget'
      rw [← Option.some.inj hget', hlive] at hgone
      cases hgone
    · intro hcleared
      rw [hcleared call hcall] at ht2
      cases ht2

theorem stopMeansStopped_sigterm {m : Manager} (h : StopsKept m) (k : ℕ) : StopMeansStopped m (.sigterm k) := by
  rcases sigterm_cases k m with heq | ⟨call, hcall, -, -, hstops⟩
  · exact stopMeansStopped_of_stops h (by rw [Manager.step, heq]) (by simp)
  · refine stopMeansStopped_of_waiting h ?_ (by simp)
    intro k' call' call'' hpending hcall''
    rw [Manager.step, hstops, List.getElem?_set] at hcall''
    split at hcall''
    · rename_i hk
      subst hk
      split at hcall''
      · obtain rfl := Option.some.inj (hcall.symm.trans hpending.1)
        rw [← Option.some.inj hcall'']
        exact hpending.2
      · cases hcall''
    · rw [← Option.some.inj (hpending.1.symm.trans hcall'')]
      exact hpending.2

theorem stopMeansStopped_step {m : Manager} (h : StopsKept m) (e : ManagerEvent) :
    StopMeansStopped m e ↔ ExitsInTime m e ∧ FindsChild m e := by
  cases e with
  | start id bin args binExists spawn now =>
    have hstops := start_stops id bin args binExists spawn now m
    exact iff_of_true (stopMeansStopped_of_stops h hstops (by simp)) ⟨trivial, trivial⟩
  | stop id =>
    rw [stopMeansStopped_stop h id]
    exact ⟨fun hfinds => ⟨trivial, hfinds⟩, And.right⟩
  | sigterm k => exact iff_of_true (stopMeansStopped_sigterm h k) ⟨trivial, trivial⟩
  | sigkill k =>
    rw [stopMeansStopped_sigkill h k]
    exact ⟨fun hcleared => ⟨hcleared, trivial⟩, And.left⟩
  | exit c code signal now =>
    exact iff_of_true (stopMeansStopped_exit h c code signal now) ⟨trivial, trivial⟩
  | error c msg =>
    exact iff_of_true (stopMeansStopped_of_stops h (steady_error c msg m).stops (by simp)) ⟨trivial, trivial⟩
  | data id stream text =>
    have hstops := (steady_pushLog id stream text m).stops
    exact iff_of_true (stopMeansStopped_of_stops h hstops (by simp)) ⟨trivial, trivial⟩

/-! ### No child is lost -/

/-- A live child is the one its process refers to, and its process has a pid. -/
def Held (m : Manager) : Prop :=
  ∀ id c, m.Live id c → (m.procs.get id).child = some c ∧ (m.status id).pid ≠ none

theorem fresh_held : Held .fresh := by
  rintro id c ⟨child, hc, -⟩
  simp [Manager.fresh] at hc

theorem Held.steady {m m' : Manager} (h : Held m) (hm : Steady m m') : Held m' := by
  intro id c hc
  rw [hm.child, hm.pid]
  exact h id c ((hm.live id c).mp hc)

theorem Held.same {m m' : Manager} (h : Held m) (hm : SameProcs m m') : Held m' := by
  intro id c hc
  rw [hm.child, hm.pid]
  exact h id c ((live_congr hm.children id c).mp hc)

/-- A process without a live child gets ready to spawn. -/
theorem Held.readied {id : ProcId} {m m' : Manager} (h : Held m) (hnone : ∀ c, ¬m.Live id c)
    (hm : Readied id m m') : Held m' := by
  intro id' c hc
  have hold := (hm.live id' c).mp hc
  have hne : id' ≠ id := by
    rintro rfl
    exact hnone c hold
  rw [hm.child, hm.pid, if_neg hne]
  exact h id' c hold

/-- It spawns a child, which has a pid if it lives. -/
theorem Held.spawned {id : ProcId} {m : Manager} (h : Held m) (hnone : ∀ c, ¬m.Live id c) {child : Child}
    (hpid : child.phase = .live → child.pid ≠ none) (hproc : child.proc = id) : Held (m.spawned id child) := by
  intro id' c hc
  rw [spawned_child, spawned_pid]
  rcases (live_spawned id child m id' c).mp hc with hold | ⟨rfl, hid, hlive⟩
  · have hne : id' ≠ id := by
      rintro rfl
      exact hnone c hold
    rw [if_neg hne, if_neg hne]
    exact h id' c hold
  · rw [if_pos (hid.symm.trans hproc), if_pos (hid.symm.trans hproc)]
    exact ⟨rfl, hpid hlive⟩

theorem Held.start {m : Manager} (h : Held m) (id : ProcId) (bin : String) (args : List String)
    (binExists : Bool) (spawn : SpawnOutcome) (now : ℕ)
    (halone : StartsAfterExit m (.start id bin args binExists spawn now)) :
    Held (m.start id bin args binExists spawn now).2 := by
  rcases start_readies id bin args binExists spawn now m with
    hm | ⟨hreach, ready, hready, heq⟩
  · exact h.steady hm
  · have hnone := halone hreach
    have hnone' : ∀ c, ¬ready.Live id c := fun c hc => hnone c ((hready.live id c).mp hc)
    have hheld := h.readied hnone hready
    rcases heq with heq | heq | ⟨pid, heq⟩ <;> rw [heq]
    · exact hheld
    · exact hheld.spawned hnone' (fun hlive => by cases hlive) rfl
    · exact hheld.spawned hnone' (fun _ => by simp) rfl

theorem Held.exit {m : Manager} (h : Held m) (c : ℕ) (code : Option ℤ) (signal : Option String) (now : ℕ) :
    Held (m.exit c code signal now) := by
  rcases exit_cases c code signal now m with heq | ⟨child, hc, hlive⟩
  · rwa [heq]
  · have he := exit_of_live hc hlive code signal now
    intro id c' hc'
    obtain ⟨hold, hne⟩ := (he.live id c').mp hc'
    have hid : id ≠ child.proc := by
      rintro rfl
      have hown := (h child.proc c ⟨child, hc, rfl, hlive⟩).1
      exact hne (Option.some.inj ((h child.proc c' hold).1.symm.trans hown))
    rw [he.child_other id hid, he.status_other id hid]
    exact h id c' hold

theorem held_step {m : Manager} (h : Held m) (e : ManagerEvent) (halone : StartsAfterExit m e) :
    Held (m.step e) := by
  cases e with
  | start id bin args binExists spawn now => exact h.start id bin args binExists spawn now halone
  | stop id => exact h.same (stop_sameProcs id m)
  | sigterm k =>
    rcases sigterm_cases k m with heq | ⟨-, -, -, hm, -⟩
    · rwa [Manager.step, heq]
    · exact h.same hm
  | sigkill k =>
    rcases sigkill_cases k m with ⟨heq, -⟩ | ⟨-, -, -, hm, -⟩
    · rwa [Manager.step, heq]
    · exact h.same hm
  | exit c code signal now => exact h.exit c code signal now
  | error c msg => exact h.steady (steady_error c msg m)
  | data id stream text => exact h.steady (steady_pushLog id stream text m)

theorem Held.findsChild {m : Manager} (h : Held m) (e : ManagerEvent) : FindsChild m e := by
  cases e with
  | stop id =>
    intro c hc
    obtain ⟨hchild, hpid⟩ := h id c hc
    exact ⟨by simp [hchild], hpid⟩
  | _ => trivial

/-! ### Runs -/

/-- STOPPING: along any run every settled stop means stopped exactly when no 5 s timer fires and no stop
    overlooks a child that lives; and none is overlooked where every start that comes to its spawn finds
    the children of its process gone. -/
theorem stop_means_stopped_iff (es : List ManagerEvent) :
    (Along Manager.step StopMeansStopped .fresh es ↔
      Along Manager.step (fun m e => ExitsInTime m e ∧ FindsChild m e) .fresh es) ∧
    (Along Manager.step StartsAfterExit .fresh es → Along Manager.step FindsChild .fresh es) :=
  ⟨along_iff_free StopsKept (fun _ e h _ => stopsKept_step h e) (fun _ e h => stopMeansStopped_step h e)
      fresh_stopsKept es,
    along_of_inv Held (fun _ e h halone => held_step h e halone) (fun _ e h _ => h.findsChild e) fresh_held⟩

/-- Two calls stop the server, which exits after the first SIGTERM. -/
def patientServer : List ManagerEvent :=
  [.start .server "bin" [] true (.runs 100) 1, .stop .server, .stop .server, .sigterm 0,
    .exit 0 none (some "SIGTERM") 2]

/-- Both are settled by its exit. -/
theorem patient_server_stopped :
    Along Manager.step StopMeansStopped .fresh patientServer ∧
      Along Manager.step FindsChild .fresh patientServer := by
  have hfinds : Along Manager.step FindsChild .fresh patientServer :=
    (stop_means_stopped_iff patientServer).2
      ⟨fun _ c => by simp [Manager.Live, Manager.fresh], trivial, trivial, trivial, trivial, trivial⟩
  have htime : Along Manager.step ExitsInTime .fresh patientServer :=
    ⟨trivial, trivial, trivial, trivial, trivial, trivial⟩
  exact ⟨(stop_means_stopped_iff patientServer).1.mpr (along_and Manager.step htime hfinds), hfinds⟩

/-- A server that ignores SIGINT and SIGTERM. -/
def stubbornServer : List ManagerEvent :=
  [.start .server "bin" [] true (.runs 100) 1, .stop .server, .sigterm 0, .sigkill 0]

/-- Its stop is settled while it is still "running". -/
theorem stubborn_server_running : ¬∀ es, Along Manager.step StopMeansStopped .fresh es := by
  intro h
  obtain ⟨-, -, -, hkill, -⟩ := h stubbornServer
  obtain ⟨-, hshown⟩ := hkill.settled 0 ⟨.server, 0, 100, false, true, false⟩
    ⟨.server, 0, 100, false, false, true⟩ ⟨by decide, rfl⟩ (by decide) rfl
  exact absurd hshown.1 (by decide)

end DsparkEdge.Ui
