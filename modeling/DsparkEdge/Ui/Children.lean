import DsparkEdge.Lib.Runs
import DsparkEdge.Ui.ProcessManager

/-! One live child per process id. The guard of `start` looks at the state, not at the child: an 'error'
    that comes of a signal that could not be delivered turns "running" into "error" while the child lives
    on, and the next `start` spawns a second one beside it.

        start ─▶ running, child 0 ── 'error' ─▶ error, child 0 lives ── start ─▶ running, child 1
                                                                       exit of 0 ─▶ child := null

    A spawn that fails only later is "running" with no pid until its 'error' arrives. Apart from these two
    kinds of start, every step keeps the books in order. -/

namespace DsparkEdge.Ui

open Runs

/-- Child `c` of the process is live. -/
def Manager.Live (m : Manager) (id : ProcId) (c : ℕ) : Prop :=
  ∃ child, m.children[c]? = some child ∧ child.proc = id ∧ child.phase = .live

/-- "Running" is said of the live child that the process refers to, with its pid. -/
def Manager.RunsOwn (m : Manager) (id : ProcId) : Prop :=
  (m.status id).state = .running →
    ∃ c child, (m.procs.get id).child = some c ∧ m.children[c]? = some child ∧ child.proc = id ∧
      child.phase = .live ∧ (m.status id).pid = child.pid

/-- At most one live child of every process, and "running" is said of it. -/
structure OneChild (m : Manager) : Prop where
  unique : ∀ id c c', m.Live id c → m.Live id c' → c = c'
  running : ∀ id, m.RunsOwn id

/-- The exit of a child does nothing to a process that refers to another one. -/
def ExitsApart (m : Manager) : ManagerEvent → Prop
  | .exit c code signal now => ∀ id c', (m.procs.get id).child = some c' → c' ≠ c →
      (m.exit c code signal now).status id = m.status id ∧
        ((m.exit c code signal now).procs.get id).child = some c'
  | _ => True

/-- What one step has to do for the children to stay apart. -/
def KeepsChildren (m : Manager) (e : ManagerEvent) : Prop := OneChild (m.step e) ∧ ExitsApart m e

/-- The start passes the guard and finds its binary. -/
def Manager.ReachesSpawn (m : Manager) (id : ProcId) (binExists : Bool) : Prop :=
  binExists = true ∧ ¬((m.procs.get id).child.isSome ∧ (m.status id).state = .running)

/-- A start that comes as far as spawning meets no live child of its process, and its spawn does not fail
    later. -/
def StartsAlone (m : Manager) : ManagerEvent → Prop
  | .start id _ _ binExists spawn _ =>
    m.ReachesSpawn id binExists →
      match spawn with
      | .throws _ => True
      | .fails => False
      | .runs _ => ∀ c, ¬m.Live id c
  | _ => True

/-- Every live child is the one its process refers to, and no spawn has failed. -/
structure Tidy (m : Manager) : Prop where
  child : ∀ id c, m.Live id c → (m.procs.get id).child = some c
  running : ∀ id, m.RunsOwn id
  spawned : ∀ child ∈ m.children, child.phase ≠ .failing

theorem fresh_tidy : Tidy .fresh where
  child := by
    rintro id c ⟨child, hc, -⟩
    simp [Manager.fresh] at hc
  running := by
    intro id hrun
    cases id <;> cases hrun
  spawned := by simp [Manager.fresh]

theorem Tidy.oneChild {m : Manager} (h : Tidy m) : OneChild m where
  unique := by
    intro id c c' hc hc'
    have := (h.child id c hc).symm.trans (h.child id c' hc')
    exact Option.some.inj this
  running := h.running

/-- The children are what they were, and no status has become "running". -/
structure Calm (m m' : Manager) : Prop where
  children : m'.children = m.children
  child : ∀ id, (m'.procs.get id).child = (m.procs.get id).child
  status : ∀ id, (m'.status id).state ≠ .running ∨ m'.status id = m.status id

theorem Calm.refl (m : Manager) : Calm m m := ⟨rfl, fun _ => rfl, fun _ => Or.inr rfl⟩

theorem Tidy.calm {m m' : Manager} (h : Tidy m) (hm : Calm m m') : Tidy m' where
  child := by
    rintro id c ⟨child, hc, hproc, hlive⟩
    rw [hm.children] at hc
    rw [hm.child]
    exact h.child id c ⟨child, hc, hproc, hlive⟩
  running := by
    intro id hrun
    rcases hm.status id with hne | heq
    · exact absurd hrun hne
    · rw [heq] at hrun ⊢
      rw [hm.child, hm.children]
      exact h.running id hrun
  spawned := by
    rw [hm.children]
    exact h.spawned

/-! ### The steps that spawn nothing -/

theorem calm_pushLog (id : ProcId) (stream : LogStream) (text : String) (m : Manager) :
    Calm m (m.pushLog id stream text) :=
  ⟨by simp, by simp, fun id' => Or.inr (by simp)⟩

theorem calm_updateStatus {id : ProcId} {patch : StatusPatch} {state : ProcState}
    (hpatch : patch.state = some state) (hstate : state ≠ .running) (m : Manager) :
    Calm m (m.updateStatus id patch) where
  children := by simp
  child := by simp
  status := by
    intro id'
    rcases eq_or_ne id' id with rfl | hne
    · left
      simpa [ProcStatus.patch, hpatch] using hstate
    · right
      simp [hne]

theorem Calm.trans {m m' m'' : Manager} (h : Calm m m') (h' : Calm m' m'') : Calm m m'' where
  children := h'.children.trans h.children
  child := fun id => (h'.child id).trans (h.child id)
  status := by
    intro id
    rcases h'.status id with hne | heq
    · exact Or.inl hne
    · rw [heq]
      exact h.status id

theorem calm_dropLogs (id : ProcId) (m : Manager) : Calm m (m.dropLogs id) :=
  ⟨by simp, by simp, fun id' => Or.inr (by simp)⟩

theorem calm_stop (id : ProcId) (m : Manager) : Calm m (m.stop id) := by
  simp only [Manager.stop]
  split
  · obtain ⟨hchildren, hchild, hstatus⟩ := calm_pushLog id .system "stopping…" m
    exact ⟨hchildren, hchild, hstatus⟩
  · exact calm_updateStatus rfl (by simp) m

theorem calm_sigterm (k : ℕ) (m : Manager) : Calm m (m.sigterm k) := by
  unfold Manager.sigterm
  split
  · exact .refl m
  · split
    · exact ⟨rfl, fun _ => rfl, fun _ => Or.inr rfl⟩
    · exact .refl m

theorem calm_sigkill (k : ℕ) (m : Manager) : Calm m (m.sigkill k) := by
  unfold Manager.sigkill
  split
  · exact .refl m
  · split
    · exact ⟨rfl, fun _ => rfl, fun _ => Or.inr rfl⟩
    · exact .refl m

/-- An 'error' of a child that runs changes no child. -/
theorem calm_error (c : ℕ) (msg : String) {m : Manager} (h : Tidy m) : Calm m (m.error c msg) := by
  unfold Manager.error
  split
  · exact .refl m
  · rename_i child hc
    split
    · exact .refl m
    · have hphase := h.spawned child (List.mem_of_getElem? hc)
      have hsame : child.afterError = child := by simp [Child.afterError, hphase]
      have hset : m.children.set c child.afterError = m.children := by
        obtain ⟨hlt, rfl⟩ := List.getElem?_eq_some_iff.mp hc
        rw [hsame, List.set_getElem_self]
      simp only [hset]
      exact (calm_pushLog child.proc .system _ m).trans (calm_updateStatus rfl (by simp) _)

/-! ### Starts -/

/-- Before it spawns, a start changes no child; a start that spawns nothing changes none at all. -/
theorem start_cases (id : ProcId) (bin : String) (args : List String) (binExists : Bool)
    (spawn : SpawnOutcome) (now : ℕ) (m : Manager) :
    ((m.ReachesSpawn id binExists → ∃ msg, spawn = .throws msg) ∧
        Calm m (m.start id bin args binExists spawn now).2) ∨
      ∃ ready child, m.ReachesSpawn id binExists ∧ Calm m ready ∧
        (m.start id bin args binExists spawn now).2 = ready.spawned id child ∧
        (spawn = .fails ∧ child = ⟨id, none, .failing⟩ ∨
          ∃ pid, spawn = .runs pid ∧ child = ⟨id, some pid, .live⟩) := by
  simp only [Manager.start, Manager.ReachesSpawn]
  split
  · rename_i hrun
    exact Or.inl ⟨fun h => absurd hrun h.2, .refl m⟩
  · rename_i hrun
    cases binExists with
    | false =>
      left
      exact ⟨by simp, (calm_pushLog id .system _ m).trans (calm_updateStatus rfl (by simp) _)⟩
    | true =>
      have hready (patch : StatusPatch) (hpatch : patch.state = some .starting) (text : String) :
          Calm m (((m.dropLogs id).updateStatus id patch).pushLog id .system text) :=
        ((calm_dropLogs id m).trans (calm_updateStatus hpatch (by simp) _)).trans
          (calm_pushLog id .system text _)
      cases spawn with
      | throws msg =>
        left
        exact ⟨fun _ => ⟨msg, rfl⟩, ((hready _ rfl _).trans (calm_pushLog id .system _ _)).trans
          (calm_updateStatus rfl (by simp) _)⟩
      | fails => exact Or.inr ⟨_, _, ⟨rfl, hrun⟩, hready _ rfl _, rfl, Or.inl ⟨rfl, rfl⟩⟩
      | runs pid => exact Or.inr ⟨_, _, ⟨rfl, hrun⟩, hready _ rfl _, rfl, Or.inr ⟨pid, rfl, rfl⟩⟩

theorem spawned_children (id : ProcId) (child : Child) (m : Manager) :
    (m.spawned id child).children = m.children ++ [child] := by simp [Manager.spawned]

theorem spawned_child (id : ProcId) (child : Child) (m : Manager) (id' : ProcId) :
    ((m.spawned id child).procs.get id').child =
      if id' = id then some m.children.length else (m.procs.get id').child := by
  simp [Manager.spawned]

theorem spawned_status (id : ProcId) (child : Child) (m : Manager) (id' : ProcId) :
    (m.spawned id child).status id' =
      if id' = id then (m.status id).patch { state := some .running, pid := some child.pid }
      else m.status id' := by
  simp only [Manager.spawned, updateStatus_status, setChild_status]
  rfl

/-- A child that is spawned next to no live one is the only one. -/
theorem Tidy.spawned_alone {m : Manager} (h : Tidy m) {id : ProcId} (hnone : ∀ c, ¬m.Live id c) (pid : ℕ) :
    Tidy (m.spawned id ⟨id, some pid, .live⟩) where
  child := by
    rintro id' c ⟨child, hc, hproc, hlive⟩
    rw [spawned_children, List.getElem?_append] at hc
    rw [spawned_child]
    split at hc
    · rename_i hlt
      have hold : m.Live id' c := ⟨child, hc, hproc, hlive⟩
      have hne : id' ≠ id := by
        rintro rfl
        exact hnone c hold
      rw [if_neg hne]
      exact h.child id' c hold
    · have hlast : c - m.children.length = 0 := by
        have := (List.getElem?_eq_some_iff.mp hc).1
        simpa using this
      rw [hlast] at hc
      simp only [List.getElem?_cons_zero, Option.some.injEq] at hc
      have hid : id' = id := by rw [← hproc, ← hc]
      rw [if_pos hid]
      congr 1
      omega
  running := by
    intro id' hrun
    rw [spawned_status] at hrun ⊢
    rw [spawned_child, spawned_children]
    rcases eq_or_ne id' id with rfl | hne
    · simp only [if_true]
      exact ⟨_, _, rfl, List.getElem?_concat_length, rfl, rfl, by simp [ProcStatus.patch]⟩
    · simp only [if_neg hne] at hrun ⊢
      obtain ⟨c, child, hc, hchild, hrest⟩ := h.running id' hrun
      have hlt := (List.getElem?_eq_some_iff.mp hchild).1
      exact ⟨c, child, hc, by rw [List.getElem?_append_left hlt, hchild], hrest⟩
  spawned := by
    rw [spawned_children]
    intro child hmem
    rcases List.mem_append.mp hmem with hmem | hmem
    · exact h.spawned child hmem
    · rw [List.mem_singleton.mp hmem]
      simp

/-- A child that never ran is not what "running" says. -/
theorem not_oneChild_failing (id : ProcId) (m : Manager) :
    ¬OneChild (m.spawned id ⟨id, none, .failing⟩) := by
  rintro ⟨-, hrun⟩
  obtain ⟨c, child, hc, hchild, -, hlive, -⟩ := hrun id (by simp [spawned_status, ProcStatus.patch])
  simp only [spawned_child, if_true, Option.some.injEq] at hc
  subst hc
  simp only [spawned_children, List.getElem?_concat_length, Option.some.injEq] at hchild
  rw [← hchild] at hlive
  cases hlive

/-- Nor can a child be spawned next to a live one. -/
theorem not_oneChild_beside {m : Manager} {id : ProcId} {c : ℕ} (hc : m.Live id c) (pid : ℕ) :
    ¬OneChild (m.spawned id ⟨id, some pid, .live⟩) := by
  rintro ⟨hunique, -⟩
  obtain ⟨child, hget, hproc, hlive⟩ := hc
  have hlt : c < m.children.length := (List.getElem?_eq_some_iff.mp hget).1
  have hold : (m.spawned id ⟨id, some pid, .live⟩).Live id c :=
    ⟨child, by rw [spawned_children, List.getElem?_append_left hlt, hget], hproc, hlive⟩
  have hnew : (m.spawned id ⟨id, some pid, .live⟩).Live id m.children.length :=
    ⟨_, by rw [spawned_children, List.getElem?_concat_length], rfl, rfl⟩
  have := hunique id _ _ hold hnew
  omega

/-! ### Exits -/

/-- The 'exit' of a live child. -/
structure Exited (c : ℕ) (child : Child) (m m' : Manager) : Prop where
  children : m'.children = m.children.set c { child with phase := .gone }
  child_own : (m'.procs.get child.proc).child = none
  child_other : ∀ id, id ≠ child.proc → (m'.procs.get id).child = (m.procs.get id).child
  status_own : (m'.status child.proc).state ≠ .running
  status_other : ∀ id, id ≠ child.proc → m'.status id = m.status id

theorem exitState_ne_running (code : Option ℤ) (signal : Option String) :
    exitState code signal ≠ .running := by
  unfold exitState
  split <;> simp

theorem exit_of_live {c : ℕ} {child : Child} {m : Manager} (hc : m.children[c]? = some child)
    (hlive : child.phase = .live) (code : Option ℤ) (signal : Option String) (now : ℕ) :
    Exited c child m (m.exit c code signal now) := by
  have hexit := exitState_ne_running code signal
  have hstatus (id : ProcId) : Manager.status { m.setChild child.proc none with
      children := m.children.set c { child with phase := .gone }
      stops := m.stops.map (StopCall.onExit c) } id = m.status id := setChild_status child.proc none m id
  have hchild (id : ProcId) : (Manager.procs { m.setChild child.proc none with
      children := m.children.set c { child with phase := .gone }
      stops := m.stops.map (StopCall.onExit c) } |>.get id).child =
        if id = child.proc then none else (m.procs.get id).child := setChild_child child.proc none m id
  simp only [Manager.exit, hc, hlive, if_true]
  refine ⟨by simp, ?_, ?_, ?_, ?_⟩
  · rw [updateStatus_child, pushLog_child, hchild, if_pos rfl]
  · intro id hne
    rw [updateStatus_child, pushLog_child, hchild, if_neg hne]
  · rw [updateStatus_status, if_pos rfl]
    exact hexit
  · intro id hne
    rw [updateStatus_status, if_neg hne, pushLog_status, hstatus]

/-- The 'exit' of any other child is not heard of. -/
theorem exit_of_not_live {c : ℕ} {m : Manager}
    (h : ∀ child, m.children[c]? = some child → child.phase ≠ .live) (code : Option ℤ)
    (signal : Option String) (now : ℕ) : m.exit c code signal now = m := by
  unfold Manager.exit
  split
  · rfl
  · rename_i child hc
    rw [if_neg (h child hc)]

theorem Tidy.exited {c : ℕ} {child : Child} {m m' : Manager} (h : Tidy m)
    (hc : m.children[c]? = some child) (hlive : child.phase = .live) (he : Exited c child m m') :
    Tidy m' where
  child := by
    rintro id c' ⟨child', hc', hproc, hlive'⟩
    rw [he.children, List.getElem?_set] at hc'
    split at hc'
    · split at hc'
      · rw [← Option.some.inj hc'] at hlive'
        cases hlive'
      · cases hc'
    · rename_i hne
      have hold := h.child id c' ⟨child', hc', hproc, hlive'⟩
      have hid : id ≠ child.proc := by
        rintro rfl
        have := h.child child.proc c ⟨child, hc, rfl, hlive⟩
        exact hne (Option.some.inj (this.symm.trans hold))
      rw [he.child_other id hid]
      exact hold
  running := by
    intro id hrun
    have hid : id ≠ child.proc := by
      rintro rfl
      exact he.status_own hrun
    rw [he.status_other id hid] at hrun ⊢
    obtain ⟨c', child', href, hc', hproc, hrest⟩ := h.running id hrun
    have hne : c ≠ c' := by
      rintro rfl
      rw [hc] at hc'
      exact hid (by rw [← hproc, ← Option.some.inj hc'])
    refine ⟨c', child', by rw [he.child_other id hid]; exact href, ?_, hproc, hrest⟩
    rw [he.children, List.getElem?_set_ne hne]
    exact hc'
  spawned := by
    rw [he.children]
    intro child' hmem
    rcases List.mem_or_eq_of_mem_set hmem with hmem | rfl
    · exact h.spawned child' hmem
    · simp

theorem exit_tidy {m : Manager} (h : Tidy m) (c : ℕ) (code : Option ℤ) (signal : Option String) (now : ℕ) :
    Tidy (m.exit c code signal now) ∧ ExitsApart m (.exit c code signal now) := by
  by_cases hlive : ∃ child, m.children[c]? = some child ∧ child.phase = .live
  · obtain ⟨child, hc, hphase⟩ := hlive
    have he := exit_of_live hc hphase code signal now
    refine ⟨h.exited hc hphase he, ?_⟩
    intro id c' href hne
    have hid : id ≠ child.proc := by
      rintro rfl
      have := h.child child.proc c ⟨child, hc, rfl, hphase⟩
      exact hne (Option.some.inj (href.symm.trans this))
    exact ⟨he.status_other id hid, by rw [he.child_other id hid]; exact href⟩
  · have hsame : m.exit c code signal now = m :=
      exit_of_not_live (fun child hc hphase => hlive ⟨child, hc, hphase⟩) code signal now
    refine ⟨by rw [hsame]; exact h, ?_⟩
    rintro id c' href -
    rw [hsame]
    exact ⟨rfl, href⟩

/-! ### Runs -/

/-- Under the invariant a step keeps the children apart exactly when it does not start a second one or one
    that fails, and then the invariant survives. -/
theorem keepsChildren_step {m : Manager} (h : Tidy m) (e : ManagerEvent) :
    (KeepsChildren m e ↔ StartsAlone m e) ∧ (StartsAlone m e → Tidy (m.step e)) := by
  have hcalm (hm : Calm m (m.step e)) (hapart : ExitsApart m e) (halone : StartsAlone m e) :
      (KeepsChildren m e ↔ StartsAlone m e) ∧ (StartsAlone m e → Tidy (m.step e)) :=
    ⟨iff_of_true ⟨(h.calm hm).oneChild, hapart⟩ halone, fun _ => h.calm hm⟩
  cases e with
  | start id bin args binExists spawn now =>
    rcases start_cases id bin args binExists spawn now m with
      ⟨hspawn, hm⟩ | ⟨ready, child, hreach, hm, heq, ⟨rfl, rfl⟩ | ⟨pid, rfl, rfl⟩⟩
    · refine hcalm hm trivial ?_
      intro hreach
      obtain ⟨msg, rfl⟩ := hspawn hreach
      trivial
    · have hbad : ¬StartsAlone m (.start id bin args binExists .fails now) := fun halone => halone hreach
      refine ⟨iff_of_false ?_ hbad, fun halone => absurd halone hbad⟩
      rintro ⟨hone, -⟩
      rw [Manager.step, heq] at hone
      exact not_oneChild_failing id ready hone
    · have hready := h.calm hm
      have hsame : ∀ c, ready.Live id c ↔ m.Live id c := by
        intro c
        rw [Manager.Live, Manager.Live, hm.children]
      have htidy : StartsAlone m (.start id bin args binExists (.runs pid) now) →
          Tidy (m.step (.start id bin args binExists (.runs pid) now)) := by
        intro halone
        rw [Manager.step, heq]
        exact hready.spawned_alone (fun c hc => halone hreach c ((hsame c).mp hc)) pid
      refine ⟨⟨?_, fun halone => ⟨(htidy halone).oneChild, trivial⟩⟩, htidy⟩
      rintro ⟨hone, -⟩ - c hc
      rw [Manager.step, heq] at hone
      exact not_oneChild_beside ((hsame c).mpr hc) pid hone
  | stop id => exact hcalm (calm_stop id m) trivial trivial
  | sigterm k => exact hcalm (calm_sigterm k m) trivial trivial
  | sigkill k => exact hcalm (calm_sigkill k m) trivial trivial
  | exit c code signal now =>
    obtain ⟨htidy, hapart⟩ := exit_tidy h c code signal now
    exact ⟨iff_of_true ⟨htidy.oneChild, hapart⟩ trivial, fun _ => htidy⟩
  | error c msg => exact hcalm (calm_error c msg h) trivial trivial
  | data id stream text => exact hcalm (calm_pushLog id stream text m) trivial trivial

/-- ONE CHILD: along any run there is at most one live child of a process, "running" is said of it alone,
    and no exit reaches another child, exactly when no start spawns beside a live child and no spawn fails
    after it returned. -/
theorem one_child_iff (es : List ManagerEvent) :
    Along Manager.step KeepsChildren .fresh es ↔ Along Manager.step StartsAlone .fresh es :=
  along_iff_free Tidy (fun _ e h => (keepsChildren_step h e).2) (fun _ e h => (keepsChildren_step h e).1)
    fresh_tidy es

/-- The server is started; stopping it, the signal cannot be delivered; it is started again. -/
def undeliveredSignal : List ManagerEvent :=
  [.start .server "bin" [] true (.runs 100) 1, .stop .server, .error 0 "kill EPERM",
    .start .server "bin" [] true (.runs 101) 2]

/-- Both children are live. -/
theorem second_child_spawned : ¬Along Manager.step KeepsChildren .fresh undeliveredSignal := by
  rintro ⟨-, -, -, ⟨⟨hunique, -⟩, -⟩, -⟩
  have h0 : Manager.Live (exec Manager.step .fresh undeliveredSignal) .server 0 := ⟨_, rfl, rfl, rfl⟩
  have h1 : Manager.Live (exec Manager.step .fresh undeliveredSignal) .server 1 := ⟨_, rfl, rfl, rfl⟩
  exact absurd (hunique .server 0 1 h0 h1) (by decide)

end DsparkEdge.Ui
