import DsparkEdge.Lib.Runs
import DsparkEdge.Ui.Dashboard

/-! The dirty flag against the configuration file. Both `persist` and `runAction` take the configuration,
    wait for the answer and then clear the flag, whatever was edited meanwhile; `persist` does not look at
    the answer, and a failed write is not reported at all.

        persist ──cfg──▶ saved            file = cfg
        edit                              config = cfg', dirty
        answer ─▶ dirty := false          config ≠ file

    The flag tells the truth along a run exactly when no answer clears it over another configuration than
    the one in the file, and no late request replaces the file under a clean store. -/

namespace DsparkEdge.Ui

open Runs

/-- A clean store has the configuration that was written last. -/
def Dashboard.Saved (base : DashboardConfig) (d : Dashboard) : Prop :=
  d.store.dirty = false → d.store.config = some (loadConfig base d.file)

/-- The configuration that a request asks to save. -/
def ApiCall.config : ApiCall → Option DashboardConfig
  | .persist cfg => some cfg
  | .action cfg => some cfg
  | .poll => none

/-- The answer clears the flag. -/
def ApiCall.clears : ApiCall → ApiResponse → Bool
  | .persist _, _ => true
  | .action _, .status _ => true
  | _, _ => false

/-- What the route would write if it took up request `i` now. -/
def Dashboard.writes (i : ℕ) (d : Dashboard) : Option DashboardConfig :=
  match d.requests[i]? with
  | some ⟨call, .sent, _⟩ => call.config
  | _ => none

/-- The answer to request `i` is there, and clears the flag. -/
def Dashboard.clears (i : ℕ) (d : Dashboard) : Bool :=
  match d.requests[i]? with
  | some ⟨call, .answered res, false⟩ => call.clears res
  | _ => false

/-- A clearing answer finds the configuration in the store that was written last, and nothing else is
    written under a clean store. -/
def SavesInTime (base : DashboardConfig) (d : Dashboard) : DashEvent → Prop
  | .serve i (.handled true) =>
    ∀ cfg, d.writes i = some cfg → d.store.dirty = false → d.store.config = some cfg
  | .deliver i => d.clears i = true → d.store.config = some (loadConfig base d.file)
  | _ => True

theorem loaded_saved (base : DashboardConfig) (presets : List Preset) (file : Option ConfigFile) :
    (Dashboard.loaded base presets file).Saved base := fun _ => rfl

/-! ### Steps -/

theorem Dashboard.Saved.edit {base : DashboardConfig} {d : Dashboard} (h : d.Saved base)
    {store : AppState} (hstore : Edited d.store store) : { d with store := store }.Saved base := by
  rcases hstore with rfl | ⟨config, rfl⟩
  · exact h
  · intro hclean
    cases hclean

/-- What a route writes is what the request carries. -/
theorem serve_file (i : ℕ) (h : Handling) (d : Dashboard) :
    (d.serve i h).file =
      match h, d.writes i with
      | .handled true, some cfg => saveConfig true cfg d.file
      | _, _ => d.file := by
  rw [Dashboard.serve, Dashboard.writes]
  rcases d.requests[i]? with _ | ⟨call, phase, lost⟩
  · cases h with
    | handled written => cases written <;> rfl
    | crashed => rfl
  · cases phase <;> cases call <;> rcases h with (_ | _) | _ <;> rfl

/-- A route touches nothing of the store. -/
theorem serve_store (i : ℕ) (how : Handling) (d : Dashboard) : (d.serve i how).store = d.store := by
  rcases serve_cases i how d with heq | ⟨r, r', file, -, -, heq, -⟩ <;> rw [heq]

theorem respond_dirty (call : ApiCall) (res : ApiResponse) (s : AppState) :
    (s.respond call res).config = s.config ∧ (s.respond call res).dirty = (s.dirty && !call.clears res) := by
  cases call <;> cases res <;> simp [AppState.respond, ApiCall.clears]

/-- An answer leaves the file and the configuration, and the flag unless it clears it. -/
theorem deliver_store (i : ℕ) (d : Dashboard) :
    (d.deliver i).file = d.file ∧ (d.deliver i).store.config = d.store.config ∧
      (d.deliver i).store.dirty = (d.store.dirty && !d.clears i) := by
  rw [Dashboard.clears]
  rcases deliver_cases i d with ⟨heq, hno⟩ | ⟨call, res, hr, heq⟩
  · rw [heq]
    split
    · rename_i call res hr
      exact absurd hr (hno call res)
    · simp
  · rw [heq, hr]
    exact ⟨rfl, respond_dirty call res d.store⟩

/-- File, configuration and flag are the same. -/
structure SameSave (d d' : Dashboard) : Prop where
  file : d'.file = d.file
  config : d'.store.config = d.store.config
  dirty : d'.store.dirty = d.store.dirty

theorem SameSave.saved {base : DashboardConfig} {d d' : Dashboard} (hs : SameSave d d')
    (h : d.Saved base) : d'.Saved base := by
  intro hclean
  rw [hs.config, hs.file]
  exact h (hs.dirty.symm.trans hclean)

theorem OnlyRequests.save {d d' : Dashboard} (h : OnlyRequests d d') : SameSave d d' := by
  obtain ⟨requests, rfl⟩ := h
  exact ⟨rfl, rfl, rfl⟩

theorem receive_same (d : Dashboard) : SameSave d d.receive := by
  rcases receive_cases d with heq | ⟨k, -, ⟨-, heq⟩ | ⟨-, e, -, heq⟩⟩ <;> rw [heq]
  · exact ⟨rfl, rfl, rfl⟩
  · exact ⟨rfl, setBacklog_config _ _ _, setBacklog_dirty _ _ _⟩
  · exact ⟨rfl, hear_config e d.store, hear_dirty e d.store⟩

/-! ### Runs -/

theorem serve_saved {base : DashboardConfig} {d : Dashboard} (h : d.Saved base) (i : ℕ) (how : Handling) :
    (d.serve i how).Saved base ↔ SavesInTime base d (.serve i how) := by
  rw [Dashboard.Saved, serve_store, serve_file]
  rcases how with (_ | _) | _
  · exact iff_of_true h trivial
  · rcases hw : d.writes i with _ | cfg
    · exact iff_of_true h (by simp [SavesInTime, hw])
    · simp [SavesInTime, hw]
  · exact iff_of_true h trivial

theorem deliver_saved {base : DashboardConfig} {d : Dashboard} (h : d.Saved base) (i : ℕ) :
    (d.deliver i).Saved base ↔ SavesInTime base d (.deliver i) := by
  obtain ⟨hfile, hconfig, hdirty⟩ := deliver_store i d
  rw [Dashboard.Saved, hfile, hconfig, hdirty, SavesInTime]
  rw [Dashboard.Saved] at h
  cases hclears : d.clears i with
  | false => simpa using h
  | true => simp

theorem saved_step {base : DashboardConfig} {d : Dashboard} (h : d.Saved base) (e : DashEvent) :
    (d.step e).Saved base ↔ SavesInTime base d e := by
  cases e with
  | patchServer patch => exact iff_of_true (h.edit (patchServer_edited patch d.store)) trivial
  | patchDaemon patch => exact iff_of_true (h.edit (patchDaemon_edited patch d.store)) trivial
  | applyPreset id => exact iff_of_true (h.edit (applyPreset_edited id d.store)) trivial
  | persist => exact iff_of_true ((persist_only d).save.saved h) trivial
  | runAction => exact iff_of_true ((runAction_only d).save.saved h) trivial
  | pollStatus => exact iff_of_true h trivial
  | serve i how => exact serve_saved h i how
  | finish i => exact iff_of_true ((finish_only i d).save.saved h) trivial
  | deliver i => exact deliver_saved h i
  | lose i => exact iff_of_true ((lose_only i d).save.saved h) trivial
  | manager e => exact iff_of_true h trivial
  | connect => exact iff_of_true h trivial
  | disconnect => exact iff_of_true h trivial
  | receive => exact iff_of_true ((receive_same d).saved h) trivial

/-! ### Edits between saves -/

/-- No save is in flight. -/
def Dashboard.Settled (d : Dashboard) : Prop :=
  ∀ r ∈ d.requests, r.call.config.isSome → r.phase = .delivered

/-- Edits wait until no save is in flight, and a save that is taken up is written. -/
def Orderly (d : Dashboard) : DashEvent → Prop
  | .patchServer _ => d.Settled
  | .patchDaemon _ => d.Settled
  | .applyPreset _ => d.Settled
  | .serve i how => (d.writes i).isSome → how = .handled true
  | _ => True

/-- A save in flight carries the store's configuration, and so does the file once it is taken up. -/
def Request.Carries (base : DashboardConfig) (d : Dashboard) (r : Request) : Prop :=
  ∀ cfg, r.call.config = some cfg → r.phase ≠ .delivered →
    d.store.config = some cfg ∧ (r.phase ≠ .sent → loadConfig base d.file = cfg)

structure InStep (base : DashboardConfig) (d : Dashboard) : Prop where
  saved : d.Saved base
  carried : ∀ r ∈ d.requests, r.Carries base d

/-- A request that only comes further carries what it did. -/
theorem Request.Carries.advance {base : DashboardConfig} {d d' : Dashboard} (hfile : d'.file = d.file)
    (hconfig : d'.store.config = d.store.config) {r r' : Request} (h : r.Carries base d)
    (hcall : r'.call = r.call) (hsent : r.phase = .sent → r'.phase = .sent ∨ r.call.config = none)
    (hdelivered : r.phase = .delivered → r'.phase = .delivered) : r'.Carries base d' := by
  intro cfg hcfg hopen
  rw [hcall] at hcfg
  obtain ⟨hstore, hload⟩ := h cfg hcfg fun heq => hopen (hdelivered heq)
  refine ⟨hconfig.trans hstore, fun hne => ?_⟩
  rw [hfile]
  refine hload fun heq => ?_
  rcases hsent heq with hsent | hnone
  · exact hne hsent
  · rw [hnone] at hcfg
    cases hcfg

/-- Every request is an old one, or carries what it should. -/
theorem InStep.same {base : DashboardConfig} {d d' : Dashboard} (h : InStep base d)
    (hsaved : d'.Saved base) (hfile : d'.file = d.file) (hconfig : d'.store.config = d.store.config)
    (hrequests : ∀ r ∈ d'.requests, r ∈ d.requests ∨ r.Carries base d') : InStep base d' where
  saved := hsaved
  carried := by
    intro r hr
    rcases hrequests r hr with hold | hnew
    · exact (h.carried r hold).advance hfile hconfig rfl Or.inl id
    · exact hnew

/-- An edit while nothing is in flight. -/
theorem InStep.edit {base : DashboardConfig} {d : Dashboard} (h : InStep base d) (hsettled : d.Settled)
    {store : AppState} (hstore : Edited d.store store) :
    InStep base { d with store := store } where
  saved := h.saved.edit hstore
  carried := by
    intro r hr cfg hcfg hopen
    exact absurd (hsettled r hr (by simp [hcfg])) hopen

/-- A new save carries what the store has. -/
theorem InStep.send {base : DashboardConfig} {d : Dashboard} (h : InStep base d) {call : ApiCall}
    (hcall : ∀ cfg, call.config = some cfg → d.store.config = some cfg) : InStep base (d.send call) := by
  refine h.same h.saved rfl rfl fun r hr => ?_
  rcases List.mem_append.mp hr with hold | hnew
  · exact Or.inl hold
  · right
    obtain rfl := List.mem_singleton.mp hnew
    intro cfg hcfg _
    exact ⟨hcall cfg hcfg, fun hne => absurd rfl hne⟩

/-- One request comes further. -/
theorem InStep.set {base : DashboardConfig} {d d' : Dashboard} (h : InStep base d)
    (hsaved : d'.Saved base) (hfile : d'.file = d.file) (hconfig : d'.store.config = d.store.config) {i : ℕ}
    {r r' : Request} (hr : d.requests[i]? = some r) (hrequests : d'.requests = d.requests.set i r')
    (hcall : r'.call = r.call) (hsent : r.phase = .sent → r'.phase = .sent ∨ r.call.config = none)
    (hdelivered : r.phase = .delivered → r'.phase = .delivered) : InStep base d' := by
  refine h.same hsaved hfile hconfig fun r'' hr'' => ?_
  rw [hrequests] at hr''
  rcases List.mem_or_eq_of_mem_set hr'' with hold | rfl
  · exact Or.inl hold
  · exact Or.inr ((h.carried r (List.mem_of_getElem? hr)).advance hfile hconfig hcall hsent hdelivered)

theorem writes_sent {d : Dashboard} {i : ℕ} {r : Request} (hr : d.requests[i]? = some r)
    (hsent : r.phase = .sent) : d.writes i = r.call.config := by
  obtain ⟨call, phase, lost⟩ := r
  obtain rfl : phase = .sent := hsent
  rw [Dashboard.writes, hr]

theorem InStep.serve {base : DashboardConfig} {d : Dashboard} (h : InStep base d) {i : ℕ} {how : Handling}
    (hhow : (d.writes i).isSome → how = .handled true) : InStep base (d.serve i how) := by
  rcases serve_cases i how d with heq | ⟨r, r', file, hr, hsent, heq, hcall⟩
  · rw [heq]
    exact h
  · have hrequests : (d.serve i how).requests = d.requests.set i r' := by rw [heq]
    have hwrites := writes_sent hr hsent
    have hfile := serve_file i how d
    have hstore := serve_store i how d
    rcases hcfg : r.call.config with _ | cfg
    · -- a poll
      have hsame : (d.serve i how).file = d.file := by
        rw [hfile, hwrites, hcfg]
        rcases how with (_ | _) | _ <;> rfl
      have hsaved : (d.serve i how).Saved base := by
        rw [Dashboard.Saved, hstore, hsame]
        exact h.saved
      refine h.set hsaved hsame (by rw [hstore]) hr hrequests hcall (fun _ => Or.inr hcfg) fun heq => ?_
      rw [hsent] at heq
      cases heq
    · -- a save: the file has what the store has, and so has every other save in flight
      obtain rfl := hhow (by simp [hwrites, hcfg])
      obtain ⟨hconfig, -⟩ := h.carried r (List.mem_of_getElem? hr) cfg hcfg (by simp [hsent])
      have hload : loadConfig base (d.serve i (.handled true)).file = cfg := by
        rw [hfile, hwrites, hcfg]
        exact loadConfig_saveConfig base cfg d.file
      constructor
      · intro _
        rw [hstore, hconfig, hload]
      · intro r'' hr'' cfg'' hcfg'' hopen
        have hsame : cfg'' = cfg := by
          rw [hrequests] at hr''
          rcases List.mem_or_eq_of_mem_set hr'' with hold | rfl
          · have := (h.carried r'' hold cfg'' hcfg'' hopen).1
            simpa using this.symm.trans hconfig
          · rw [hcall, hcfg] at hcfg''
            simpa using hcfg''.symm
        rw [hstore, hconfig, hload, hsame]
        exact ⟨rfl, fun _ => rfl⟩

theorem InStep.finish {base : DashboardConfig} {d : Dashboard} (h : InStep base d) (i : ℕ) :
    InStep base (d.finish i) := by
  rw [Dashboard.finish]
  split
  · rename_i hr
    exact h.set h.saved rfl rfl hr rfl rfl (by simp) (by simp)
  · exact h

theorem InStep.lose {base : DashboardConfig} {d : Dashboard} (h : InStep base d) (i : ℕ) :
    InStep base (d.lose i) := by
  rw [Dashboard.lose]
  split
  · rename_i hr
    exact h.set h.saved rfl rfl hr rfl rfl Or.inl id
  · exact h

/-- A clearing answer finds in the file what the store has. -/
theorem InStep.inTime {base : DashboardConfig} {d : Dashboard} (h : InStep base d) (i : ℕ)
    (hclears : d.clears i = true) : d.store.config = some (loadConfig base d.file) := by
  rw [Dashboard.clears] at hclears
  split at hclears
  · rename_i call res hr
    have hcarried := h.carried _ (List.mem_of_getElem? hr)
    have hload (cfg : DashboardConfig) (hcfg : call.config = some cfg) :
        d.store.config = some (loadConfig base d.file) := by
      obtain ⟨hconfig, hfile⟩ := hcarried cfg hcfg (by simp)
      rw [hconfig, hfile (by simp)]
    cases call with
    | persist cfg => exact hload cfg rfl
    | action cfg => exact hload cfg rfl
    | poll => simp [ApiCall.clears] at hclears
  · cases hclears

theorem InStep.deliver {base : DashboardConfig} {d : Dashboard} (h : InStep base d) (i : ℕ) :
    InStep base (d.deliver i) := by
  have hsaved := (deliver_saved h.saved i).mpr (h.inTime i)
  obtain ⟨hfile, hconfig, -⟩ := deliver_store i d
  rcases deliver_cases i d with ⟨heq, -⟩ | ⟨call, res, hr, heq⟩
  · rw [heq]
    exact h
  · have hrequests : (d.deliver i).requests = d.requests.set i ⟨call, .delivered, false⟩ := by rw [heq]
    exact h.set hsaved hfile hconfig hr hrequests rfl (by simp) (by simp)

theorem inStep_step {base : DashboardConfig} {d : Dashboard} (h : InStep base d) (e : DashEvent)
    (ho : Orderly d e) : InStep base (d.step e) := by
  cases e with
  | patchServer patch => exact h.edit ho (patchServer_edited patch d.store)
  | patchDaemon patch => exact h.edit ho (patchDaemon_edited patch d.store)
  | applyPreset id => exact h.edit ho (applyPreset_edited id d.store)
  | persist =>
    rw [Dashboard.step, Dashboard.persist]
    split
    · exact h
    · rename_i cfg hcfg
      exact h.send fun cfg' heq => hcfg.trans heq
  | runAction =>
    rw [Dashboard.step, Dashboard.runAction]
    split
    · exact h
    · rename_i cfg hcfg
      exact h.send fun cfg' heq => hcfg.trans heq
  | pollStatus => exact h.send fun cfg heq => by cases heq
  | serve i how => exact h.serve ho
  | finish i => exact h.finish i
  | deliver i => exact h.deliver i
  | lose i => exact h.lose i
  | manager e => exact h.same h.saved rfl rfl fun r hr => Or.inl hr
  | connect => exact h.same h.saved rfl rfl fun r hr => Or.inl hr
  | disconnect => exact h.same h.saved rfl rfl fun r hr => Or.inl hr
  | receive =>
    have hsame := receive_same d
    refine h.same (hsame.saved h.saved) hsame.file hsame.config fun r hr => Or.inl ?_
    rwa [Dashboard.step, receive_requests] at hr

/-- While edits wait for the saves in flight and every save is written, the flag tells the truth. -/
theorem orderly_saved {base : DashboardConfig} {presets : List Preset} {file : Option ConfigFile}
    {es : List DashEvent} (hes : Along Dashboard.step Orderly (.loaded base presets file) es) :
    Along Dashboard.step (fun d e => (d.step e).Saved base) (.loaded base presets file) es := by
  have hloaded : InStep base (.loaded base presets file) :=
    ⟨loaded_saved base presets file, by simp [Dashboard.loaded]⟩
  exact along_of_inv (InStep base) (fun _ e h ho => inStep_step h e ho)
    (fun _ e h ho => (inStep_step h e ho).saved) hloaded hes

/-- DIRTY FLAG: along any run after the first load, a clean store has the configuration written last
    exactly when every clearing answer finds it there and every save under a clean store is of the store's
    own configuration. It does so along every run in which edits wait for the saves in flight and every save
    that is taken up is written. -/
theorem clean_saved_iff (base : DashboardConfig) (presets : List Preset) (file : Option ConfigFile)
    (es : List DashEvent) :
    (Along Dashboard.step (fun d e => (d.step e).Saved base) (.loaded base presets file) es ↔
      Along Dashboard.step (SavesInTime base) (.loaded base presets file) es) ∧
    (Along Dashboard.step Orderly (.loaded base presets file) es →
      Along Dashboard.step (fun d e => (d.step e).Saved base) (.loaded base presets file) es) :=
  ⟨along_iff_free (Dashboard.Saved base) (fun _ e h hQ => (saved_step h e).mpr hQ)
      (fun _ e h => saved_step h e) (loaded_saved base presets file) es,
    orderly_saved⟩

/-- The port is edited and saved, then edited again: the flag tells the truth all along. -/
theorem clean_saved_iff_orderly :
    Along Dashboard.step (fun d e => (d.step e).Saved bareConfig) (.loaded bareConfig [] none)
      [.patchServer { httpPort := some 9090 }, .persist, .serve 0 (.handled true), .deliver 0,
        .patchServer { httpPort := some 9091 }] := by
  refine (clean_saved_iff bareConfig [] none _).2 ⟨?_, trivial, fun _ => rfl, trivial, ?_, trivial⟩
  · intro r hr
    cases hr
  · intro r hr _
    obtain rfl := List.mem_singleton.mp hr
    rfl

/-- The port is edited while a save is on its way. -/
def editInFlight : List DashEvent :=
  [.persist, .serve 0 (.handled true), .patchServer { httpPort := some 9090 }, .deliver 0]

/-- The answer clears the flag over the new port. -/
theorem edit_in_flight_hidden :
    ¬Along Dashboard.step (fun d e => (d.step e).Saved bareConfig) (.loaded bareConfig [] none)
      editInFlight := by
  rintro ⟨-, -, -, hsaved, -⟩
  have hport := congrArg (Option.map fun c => c.server.httpPort) (hsaved rfl)
  exact absurd hport (by decide)

end DsparkEdge.Ui
