import DsparkEdge.Ui.Console
import DsparkEdge.Ui.StatusSync

/-! Where the statuses come from that the store shows. They reach it by three ways (the stream, the backlog of a
    connect, the answers to polls and actions), and each copy is made of what the manager has at that time. So a
    status is old at worst: it is the one a process begins with, or one that the manager announced of that process.

        manager.status ──announce──▶ emitted ──stream───▶ store.status
                 └──────copy──────▶ backlog, answers ──────────┘                                       -/

namespace DsparkEdge.Ui

open Runs

/-- A status the process had: the first one, or one that was announced. -/
structure Had (m : Manager) (id : ProcId) (st : ProcStatus) : Prop where
  own : st.id = id
  known : st = emptyStatus id ∨ .status st ∈ m.emitted

/-- Both statuses of a snapshot. -/
def AllHad (m : Manager) (st : ByProc ProcStatus) : Prop := ∀ id, Had m id (st.get id)

theorem had_empty (m : Manager) (id : ProcId) : Had m id (emptyStatus id) := ⟨rfl, Or.inl rfl⟩

/-- What a process had it goes on having had. -/
theorem Had.mono {m m' : Manager} {id : ProcId} {st : ProcStatus} (h : Had m id st)
    (hgrow : m.emitted <+: m'.emitted) : Had m' id st :=
  ⟨h.own, h.known.imp_right fun hmem => hgrow.subset hmem⟩

theorem AllHad.mono {m m' : Manager} {st : ByProc ProcStatus} (h : AllHad m st) (hgrow : m.emitted <+: m'.emitted) :
    AllHad m' st := fun id => (h id).mono hgrow

/-! ### The manager -/

theorem allHad_move (m m' : Manager) (hmove : Move m m') (h : AllHad m m.allStatus) : AllHad m' m'.allStatus := by
  intro id'
  have hold := h id'
  rw [allStatus_get] at hold ⊢
  cases hmove with
  | line id stream m raw =>
    rw [pushLine_status]
    exact hold.mono (List.prefix_append _ _)
  | status id patch m =>
    rw [updateStatus_status]
    split
    · rename_i heq
      subst heq
      exact ⟨hold.own, Or.inr (List.mem_append_right _ (List.mem_singleton_self _))⟩
    · exact hold.mono (List.prefix_append _ _)
  | drop id m =>
    rw [dropLogs_status]
    exact hold.mono (List.prefix_refl _)
  | other hsame =>
    rw [hsame.status]
    exact hold.mono (hsame.emitted ▸ List.prefix_refl _)

theorem allHad_step {m : Manager} (h : AllHad m m.allStatus) (e : ManagerEvent) :
    AllHad (m.step e) (m.step e).allStatus :=
  step_inv (P := fun m' => AllHad m' m'.allStatus) allHad_move h e

/-! ### The copies -/

/-- Every copy of a status is one the process had. -/
structure Honest (d : Dashboard) : Prop where
  manager : AllHad d.pm d.pm.allStatus
  store : AllHad d.pm d.store.status
  backlog : ∀ k, d.conn = some k → AllHad d.pm k.status
  answers : ∀ r ∈ d.requests, ∀ st, r.snapshot = some st → AllHad d.pm st

variable {d d' : Dashboard}

/-- A step that leaves the processes and the connection alone makes copies of what there is only. -/
theorem Honest.same (h : Honest d) (hview : SameView d d')
    (hanswers : ∀ r ∈ d'.requests, ∀ st, r.snapshot = some st →
      st = d.pm.allStatus ∨ ∃ r' ∈ d.requests, r'.snapshot = some st) : Honest d' where
  manager := by
    rw [hview.pm]
    exact h.manager
  store := by
    rw [hview.pm, hview.status]
    exact h.store
  backlog := by
    rw [hview.pm, hview.conn]
    exact h.backlog
  answers := by
    intro r hr st hst
    rw [hview.pm]
    rcases hanswers r hr st hst with rfl | ⟨r', hr', hst'⟩
    · exact h.manager
    · exact h.answers r' hr' st hst'

/-- The answers of a list in which one request is another. -/
theorem answers_set {P : ByProc ProcStatus → Prop} {requests : List Request} {i : ℕ} {r : Request}
    (hr : ∀ st, r.snapshot = some st → P st) :
    ∀ r' ∈ requests.set i r, ∀ st, r'.snapshot = some st → P st ∨ ∃ r₀ ∈ requests, r₀.snapshot = some st := by
  intro r' hr' st hst
  rcases List.mem_or_eq_of_mem_set hr' with hold | rfl
  · exact Or.inr ⟨r', hold, hst⟩
  · exact Or.inl (hr st hst)

theorem honest_send (h : Honest d) (call : ApiCall) : Honest (d.send call) := by
  refine h.same ⟨rfl, rfl, rfl, rfl⟩ fun r hr st hst => ?_
  rcases List.mem_append.mp hr with hold | hnew
  · exact Or.inr ⟨r, hold, hst⟩
  · obtain rfl := List.mem_singleton.mp hnew
    cases hst

theorem honest_serve (h : Honest d) (i : ℕ) (how : Handling) : Honest (d.serve i how) := by
  refine h.same (serve_view i how d) ?_
  rw [Dashboard.serve]
  split
  · rename_i call lost _
    cases call <;> cases how <;> (refine answers_set ?_; cases lost <;> rintro _ ⟨⟩ <;> rfl)
  · exact fun r hr st hst => Or.inr ⟨r, hr, hst⟩

theorem honest_finish (h : Honest d) (i : ℕ) : Honest (d.finish i) := by
  refine h.same (finish_only i d).view ?_
  rw [Dashboard.finish]
  split
  · rename_i call lost _
    refine answers_set ?_
    cases call <;> cases lost <;> rintro _ ⟨⟩ <;> rfl
  · exact fun r hr st hst => Or.inr ⟨r, hr, hst⟩

theorem honest_lose (h : Honest d) (i : ℕ) : Honest (d.lose i) := by
  refine h.same (lose_only i d).view ?_
  rw [Dashboard.lose]
  split
  · rename_i r _
    refine answers_set ?_
    rcases r with ⟨call, _ | _ | res | _, lost⟩ <;> rintro _ ⟨⟩
  · exact fun r hr st hst => Or.inr ⟨r, hr, hst⟩

theorem honest_deliver (h : Honest d) (i : ℕ) : Honest (d.deliver i) := by
  have hstore : AllHad d.pm (d.deliver i).store.status := by
    rw [deliver_status]
    cases hst : d.snapshot i with
    | none => exact h.store
    | some st =>
      obtain ⟨r, hr, hshows⟩ := Option.bind_eq_some_iff.mp hst
      exact h.answers r (List.mem_of_getElem? hr) st hshows
  rcases deliver_cases i d with ⟨heq, -⟩ | ⟨call, res, -, heq⟩ <;> rw [heq] at hstore ⊢
  · exact h
  · refine ⟨h.manager, hstore, h.backlog, fun r hr st hst => ?_⟩
    rcases List.mem_or_eq_of_mem_set hr with hold | rfl
    · exact h.answers r hold st hst
    · cases hst

theorem honest_receive (h : Honest d) : Honest d.receive := by
  rcases receive_cases d with heq | ⟨k, hk, ⟨-, heq⟩ | ⟨-, e, he, heq⟩⟩ <;> rw [heq]
  · exact h
  · refine ⟨h.manager, h.backlog k hk, ?_, h.answers⟩
    rintro _ ⟨⟩
    exact h.backlog k hk
  · refine ⟨h.manager, fun id => ?_, ?_, h.answers⟩
    · -- what the message is about is an announcement itself
      rw [hear_status]
      cases e with
      | log line => exact h.store id
      | status st =>
        by_cases hid : st.id = id
        · simpa [Emitted.about, hid] using Had.mk hid (Or.inr (List.mem_of_getElem? he))
        · simpa [Emitted.about, hid] using h.store id
    · rintro _ ⟨⟩
      exact h.backlog k hk

theorem honest_step (h : Honest d) (e : DashEvent) : Honest (d.step e) := by
  cases e with
  | patchServer patch => exact h.same (patchServer_edited patch d.store).view fun r hr st hst => Or.inr ⟨r, hr, hst⟩
  | patchDaemon patch => exact h.same (patchDaemon_edited patch d.store).view fun r hr st hst => Or.inr ⟨r, hr, hst⟩
  | applyPreset id => exact h.same (applyPreset_edited id d.store).view fun r hr st hst => Or.inr ⟨r, hr, hst⟩
  | persist =>
    rw [Dashboard.step, Dashboard.persist]
    split
    · exact h
    · exact honest_send h _
  | runAction =>
    rw [Dashboard.step, Dashboard.runAction]
    split
    · exact h
    · exact honest_send h _
  | pollStatus => exact honest_send h .poll
  | serve i how => exact honest_serve h i how
  | finish i => exact honest_finish h i
  | deliver i => exact honest_deliver h i
  | lose i => exact honest_lose h i
  | manager e =>
    have hgrow := emitted_grows d.pm e
    exact ⟨allHad_step h.manager e, h.store.mono hgrow, fun k hk => (h.backlog k hk).mono hgrow,
      fun r hr st hst => (h.answers r hr st hst).mono hgrow⟩
  | connect =>
    refine ⟨h.manager, h.store, fun k hk => ?_, h.answers⟩
    obtain rfl := Option.some.inj hk
    change AllHad d.pm d.pm.subscribe.status
    rw [subscribe_status]
    exact h.manager
  | disconnect => exact ⟨h.manager, h.store, by rintro k ⟨⟩, h.answers⟩
  | receive => exact honest_receive h

theorem loaded_honest (base : DashboardConfig) (presets : List Preset) (file : Option ConfigFile) :
    Honest (.loaded base presets file) where
  manager := by
    intro id
    cases id <;> exact had_empty _ _
  store := by
    intro id
    cases id <;> exact had_empty _ _
  backlog := by rintro k ⟨⟩
  answers := by rintro r ⟨⟩

/-- NOTHING INVENTED: in every run of the store with the real actions, whatever is lost, late or in another order,
    the status it shows of a process is that process's first one, or one that the manager announced of that process. -/
theorem console_honest (num : ℚ → String) (base : DashboardConfig) (presets : List Preset) (file : Option ConfigFile)
    (es : List ConsoleEvent) (id : ProcId) :
    let c := exec (Console.step num) (.loaded base presets file) es
    (c.store.status.get id).id = id ∧
      (c.store.status.get id = emptyStatus id ∨ .status (c.store.status.get id) ∈ c.route.pm.emitted) := by
  obtain ⟨-, fs, hdash⟩ := console_dashboard num base presets file es
  have hrun := exec_inv_free Honest (fun _ e h => honest_step h e) (loaded_honest base presets file) fs
  rw [← hdash] at hrun
  exact ⟨(hrun.store id).own, (hrun.store id).known⟩

end DsparkEdge.Ui
