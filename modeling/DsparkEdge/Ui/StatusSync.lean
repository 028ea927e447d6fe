import DsparkEdge.Ui.LogStream

/-! The status a connected store shows. Three writers put it there with no version between them: the
    events of the stream, in order; the backlog of a connect; and whole snapshots that answer a poll or an
    action, each taken when its route answered.

        manager   stopped ─▶ starting ─▶ running
        stream            ──starting──running──▶ store: running
        poll      stopped ────────────────────────────▶ store: stopped    overtaken

    What the stream still owes about a process ends with its present status. So the store is right as
    long as no answer is delivered that the stream has overtaken, and any later answer sets it right. -/

namespace DsparkEdge.Ui

open Runs Window

/-- What a message of the stream says about the process. -/
def Emitted.about (id : ProcId) : Emitted → Option ProcStatus
  | .log _ => none
  | .status st => if st.id = id then some st else none

/-- What the connection has still to deliver about the process, at last. -/
def Connection.due (k : Connection) (emitted : List Emitted) (id : ProcId) : Option ProcStatus :=
  (latest (Emitted.about id) (emitted.drop k.next)).or
    (if k.opened then none else some (k.status.get id))

/-- A status is of the process it is kept under. -/
def Labelled (m : Manager) : Prop := ∀ id, (m.status id).id = id

theorem fresh_labelled : Labelled .fresh := by
  intro id
  cases id <;> rfl

theorem labelled_move (m m' : Manager) (hmove : Move m m') (h : Labelled m) : Labelled m' := by
  intro id'
  cases hmove with
  | line id stream m raw =>
    rw [pushLine_status]
    exact h id'
  | status id patch m =>
    rw [updateStatus_status]
    split
    · rename_i heq
      rw [heq]
      exact h id
    · exact h id'
  | drop id m =>
    rw [dropLogs_status]
    exact h id'
  | other hsame =>
    rw [hsame.status]
    exact h id'

/-- The connection stays within what is emitted, and for every process there is a new message that ends
    what it owes, or neither this nor the status has changed. -/
structure Announces (k : Connection) (m m' : Manager) : Prop where
  next : k.next ≤ m'.emitted.length
  due : ∀ id, k.due m'.emitted id = some (m'.status id) ∨
    k.due m'.emitted id = k.due m.emitted id ∧ m'.status id = m.status id

/-- One more message. -/
theorem due_concat {k : Connection} {emitted : List Emitted} (hnext : k.next ≤ emitted.length) (e : Emitted)
    (id : ProcId) : k.due (emitted ++ [e]) id = (e.about id).or (k.due emitted id) := by
  rw [Connection.due, List.drop_append_of_le_length hnext, latest_concat, Option.or_assoc]
  rfl

theorem announces_move {k : Connection} {m₀ : Manager} (m m' : Manager) (hmove : Move m m')
    (hl : Labelled m) (h : Announces k m₀ m) : Announces k m₀ m' := by
  cases hmove with
  | line id stream m raw =>
    have hdue (id' : ProcId) : k.due (m.pushLine id stream raw).emitted id' = k.due m.emitted id' :=
      due_concat h.next _ id'
    refine ⟨?_, fun id' => ?_⟩
    · rw [Manager.pushLine, List.length_append]
      exact Nat.le_add_right_of_le h.next
    · rw [hdue, pushLine_status]
      exact h.due id'
  | status id patch m =>
    have hid : ((m.status id).patch patch).id = id := hl id
    have hdue (id' : ProcId) : k.due (m.updateStatus id patch).emitted id' =
        (Emitted.about id' (.status ((m.status id).patch patch))).or (k.due m.emitted id') :=
      due_concat h.next _ id'
    refine ⟨?_, fun id' => ?_⟩
    · rw [Manager.updateStatus, List.length_append]
      exact Nat.le_add_right_of_le h.next
    · rw [hdue, updateStatus_status]
      simp only [Emitted.about, hid]
      by_cases heq : id' = id
      · subst heq
        simp
      · simpa [heq, Ne.symm heq] using h.due id'
  | drop id m =>
    refine ⟨h.next, fun id' => ?_⟩
    rw [dropLogs_status]
    exact h.due id'
  | other hsame =>
    refine ⟨by rw [hsame.emitted]; exact h.next, fun id => ?_⟩
    rw [hsame.emitted, hsame.status]
    exact h.due id

theorem labelled_step {m : Manager} (h : Labelled m) (e : ManagerEvent) : Labelled (m.step e) :=
  step_inv labelled_move h e

/-- What a step of the manager does to what is due. -/
theorem announces_step {k : Connection} {m : Manager} (h : Labelled m) (hnext : k.next ≤ m.emitted.length)
    (e : ManagerEvent) : Announces k m (m.step e) := by
  have hstart : Labelled m ∧ Announces k m m := ⟨h, hnext, fun _ => Or.inr ⟨rfl, rfl⟩⟩
  exact (step_inv (P := fun m' => Labelled m' ∧ Announces k m m')
    (fun m₁ m₂ hmove hm => ⟨labelled_move m₁ m₂ hmove hm.1, announces_move m₁ m₂ hmove hm.1 hm.2⟩)
    hstart e).2

/-! ### The connection -/

/-- What is due about a process ends with its present status. -/
structure Announced (d : Dashboard) : Prop where
  labelled : Labelled d.pm
  next : ∀ k, d.conn = some k → k.next ≤ d.pm.emitted.length
  due : ∀ k, d.conn = some k → ∀ id st, k.due d.pm.emitted id = some st → st = d.pm.status id

/-- Where nothing is due about a process, the store shows its status. -/
def Shown (d : Dashboard) : Prop :=
  ∀ k, d.conn = some k → ∀ id, k.due d.pm.emitted id = none → d.store.status.get id = d.pm.status id

/-- Everything sent on the connection has been delivered. -/
def Dashboard.Drained (d : Dashboard) : Prop :=
  ∃ k, d.conn = some k ∧ k.opened = true ∧ k.next = d.pm.emitted.length

/-- The status that an answer puts into the store. -/
def ApiCall.shows : ApiCall → ApiResponse → Option (ByProc ProcStatus)
  | .action _, .status st => some st
  | .poll, .status st => some st
  | _, _ => none

/-- What the answer to a request will show, if it is there. -/
def Request.snapshot : Request → Option (ByProc ProcStatus)
  | ⟨call, .answered res, false⟩ => call.shows res
  | _ => none

def Dashboard.snapshot (i : ℕ) (d : Dashboard) : Option (ByProc ProcStatus) :=
  d.requests[i]?.bind Request.snapshot

/-- An answer that is delivered to a connected store shows the present status of every process about which
    nothing is due: the stream has not overtaken it. -/
def NotOvertaken (d : Dashboard) : DashEvent → Prop
  | .deliver i => ∀ st, d.snapshot i = some st → ∀ k, d.conn = some k → ∀ id,
      k.due d.pm.emitted id = none → st.get id = d.pm.status id
  | _ => True

theorem allStatus_get (m : Manager) (id : ProcId) : m.allStatus.get id = m.status id := by
  cases id <;> rfl

theorem shown_drained {d : Dashboard} (h : Shown d) (hdrained : d.Drained) :
    d.store.status = d.pm.allStatus := by
  obtain ⟨k, hk, hopen, hnext⟩ := hdrained
  refine ByProc.ext_get fun id => ?_
  rw [allStatus_get]
  refine h k hk id ?_
  simp [Connection.due, hopen, hnext]

theorem respond_status (call : ApiCall) (res : ApiResponse) (s : AppState) :
    (s.respond call res).status = (call.shows res).getD s.status := by
  cases call <;> cases res <;> rfl

/-- A delivered answer, as far as the status goes. -/
theorem deliver_status (i : ℕ) (d : Dashboard) :
    (d.deliver i).store.status = (d.snapshot i).getD d.store.status := by
  rw [Dashboard.snapshot]
  rcases deliver_cases i d with ⟨heq, hno⟩ | ⟨call, res, hr, heq⟩
  · rw [heq]
    rcases hr : d.requests[i]? with _ | ⟨call, phase, lost⟩
    · rfl
    · rcases phase with _ | _ | res | _ <;> rcases lost with _ | _ <;> try rfl
      exact absurd hr (hno call res)
  · rw [heq, hr]
    exact respond_status call res d.store

/-! ### Steps -/

/-- The backlog is due before all that was emitted since. -/
theorem due_opened {k : Connection} (hclosed : k.opened = false) (emitted : List Emitted) (id : ProcId) :
    k.due emitted id = (Connection.due { k with opened := true } emitted id).or (some (k.status.get id)) := by
  simp [Connection.due, hclosed]

/-- The next message is due before the ones behind it. -/
theorem due_next {k : Connection} (hopen : k.opened = true) {emitted : List Emitted} {e : Emitted}
    (he : emitted[k.next]? = some e) (id : ProcId) :
    k.due emitted id = (Connection.due { k with next := k.next + 1 } emitted id).or (e.about id) := by
  obtain ⟨hlt, rfl⟩ := List.getElem?_eq_some_iff.mp he
  rw [Connection.due, List.drop_eq_getElem_cons hlt, latest_cons]
  simp [Connection.due, hopen]

theorem due_subscribe (m : Manager) (id : ProcId) : m.subscribe.due m.emitted id = some (m.status id) := by
  rw [Connection.due, subscribe_next, subscribe_status, subscribe_opened, List.drop_length, allStatus_get]
  rfl

theorem hear_status (e : Emitted) (s : AppState) (id : ProcId) :
    (s.hear e).status.get id = (e.about id).getD (s.status.get id) := by
  cases e with
  | log line => simp [AppState.hear, Emitted.about]
  | status st =>
    simp only [AppState.hear, AppState.setStatus, ByProc.get_set, Emitted.about]
    by_cases hid : id = st.id
    · simp [hid]
    · simp [hid, Ne.symm hid]

theorem Announced.same {d d' : Dashboard} (h : Announced d) (hpm : d'.pm = d.pm)
    (hconn : d'.conn = d.conn) : Announced d' where
  labelled := by
    rw [hpm]
    exact h.labelled
  next := by
    rw [hpm, hconn]
    exact h.next
  due := by
    rw [hpm, hconn]
    exact h.due

theorem announced_receive {d : Dashboard} (h : Announced d) : Announced d.receive := by
  rcases receive_cases d with heq | ⟨k, hk, ⟨hclosed, heq⟩ | ⟨hopen, e, he, heq⟩⟩ <;> rw [heq]
  · exact h
  · refine ⟨h.labelled, ?_, ?_⟩
    · rintro _ ⟨⟩
      exact h.next k hk
    · rintro _ ⟨⟩ id st hdue
      exact h.due k hk id st (by rw [due_opened hclosed, hdue]; rfl)
  · refine ⟨h.labelled, ?_, ?_⟩
    · rintro _ ⟨⟩
      obtain ⟨hlt, -⟩ := List.getElem?_eq_some_iff.mp he
      exact hlt
    · rintro _ ⟨⟩ id st hdue
      exact h.due k hk id st (by rw [due_next hopen he, hdue]; rfl)

theorem shown_receive {d : Dashboard} (ha : Announced d) (h : Shown d) : Shown d.receive := by
  rcases receive_cases d with heq | ⟨k, hk, ⟨hclosed, heq⟩ | ⟨hopen, e, he, heq⟩⟩ <;> rw [heq]
  · exact h
  · rintro _ ⟨⟩ id hdue
    rw [setBacklog_status]
    exact ha.due k hk id _ (by rw [due_opened hclosed, hdue]; rfl)
  · rintro _ ⟨⟩ id hdue
    have hbefore : k.due d.pm.emitted id = e.about id := by
      rw [due_next hopen he, hdue]
      rfl
    rw [hear_status]
    cases habout : e.about id with
    | none => exact h k hk id (hbefore.trans habout)
    | some st => exact ha.due k hk id st (hbefore.trans habout)

/-- A connect owes something about every process. -/
theorem shown_connect (d : Dashboard) : Shown (d.step .connect) := by
  intro k hk id hdue
  obtain rfl := Option.some.inj hk
  have hbacklog := due_subscribe d.pm id
  rw [show d.pm.subscribe.due d.pm.emitted id = none from hdue] at hbacklog
  cases hbacklog

theorem announced_step {d : Dashboard} (h : Announced d) (e : DashEvent) : Announced (d.step e) := by
  rcases step_view d e with hview | ⟨i, rfl⟩ | ⟨m, rfl⟩ | rfl | rfl | rfl
  · exact h.same hview.pm hview.conn
  · obtain ⟨hpm, hconn, -⟩ := deliver_view i d
    exact h.same hpm hconn
  · have hmove (k : Connection) (hk : d.conn = some k) := announces_step h.labelled (h.next k hk) m
    refine ⟨labelled_step h.labelled m, fun k hk => (hmove k hk).next, fun k hk id st hdue => ?_⟩
    rcases (hmove k hk).due id with hnew | ⟨hold, hstatus⟩
    · exact Option.some.inj (hdue.symm.trans hnew)
    · exact (h.due k hk id st (hold.symm.trans hdue)).trans hstatus.symm
  · refine ⟨h.labelled, fun k hk => ?_, fun k hk id st hdue => ?_⟩
    · obtain rfl := Option.some.inj hk
      exact Nat.le_of_eq (subscribe_next d.pm)
    · obtain rfl := Option.some.inj hk
      exact Option.some.inj (hdue.symm.trans (due_subscribe d.pm id))
  · exact ⟨h.labelled, by rintro k ⟨⟩, by rintro k ⟨⟩⟩
  · exact announced_receive h

/-- A delivered answer keeps a store right exactly when the stream has not overtaken it. -/
theorem shown_deliver {d : Dashboard} (h : Shown d) (i : ℕ) :
    Shown (d.deliver i) ↔ NotOvertaken d (.deliver i) := by
  obtain ⟨hpm, hconn, -⟩ := deliver_view i d
  rw [Shown, hpm, hconn, deliver_status, NotOvertaken]
  rw [Shown] at h
  cases d.snapshot i with
  | none => simpa using h
  | some st => simp

theorem shown_step {d : Dashboard} (ha : Announced d) (h : Shown d) (e : DashEvent) :
    Shown (d.step e) ↔ NotOvertaken d e := by
  by_cases hdeliver : ∃ i, e = .deliver i
  · obtain ⟨i, rfl⟩ := hdeliver
    exact shown_deliver h i
  · have hfresh : NotOvertaken d e := by
      cases e with
      | deliver i => exact absurd ⟨i, rfl⟩ hdeliver
      | _ => trivial
    refine iff_of_true ?_ hfresh
    rcases step_view d e with hview | hdeliver' | ⟨m, rfl⟩ | rfl | rfl | rfl
    · rw [Shown, hview.pm, hview.conn, hview.status]
      exact h
    · exact absurd hdeliver' hdeliver
    · intro k hk id hdue
      rcases (announces_step ha.labelled (ha.next k hk) m).due id with hnew | ⟨hold, hstatus⟩
      · rw [Dashboard.step, hnew] at hdue
        cases hdue
      · exact (h k hk id (hold.symm.trans hdue)).trans hstatus.symm
    · exact shown_connect d
    · rintro k ⟨⟩
    · exact shown_receive ha h

/-- A store that shows what it should goes on doing so exactly as long as no answer is overtaken. -/
theorem shown_along_iff {d₀ : Dashboard} (ha : Announced d₀) (h : Shown d₀) (es : List DashEvent) :
    Along Dashboard.step (fun d e => Shown (d.step e)) d₀ es ↔ Along Dashboard.step NotOvertaken d₀ es :=
  along_iff_free (fun d => Announced d ∧ Shown d)
    (fun _ e hd hfresh => ⟨announced_step hd.1 e, (shown_step hd.1 hd.2 e).mpr hfresh⟩)
    (fun _ e hd => shown_step hd.1 hd.2 e) ⟨ha, h⟩ es

/-! ### Answers when nothing changes -/

/-- Every answer under way shows the present status. -/
def Present (d : Dashboard) : Prop := ∀ r ∈ d.requests, ∀ st, r.snapshot = some st → st = d.pm.allStatus

/-- No process changes its status in this step. -/
def Still (d : Dashboard) (e : DashEvent) : Prop := (d.step e).pm.allStatus = d.pm.allStatus

theorem Present.set {d : Dashboard} (h : Present d) (i : ℕ) {r : Request}
    (hr : ∀ st, r.snapshot = some st → st = d.pm.allStatus) : Present (d.setRequest i r) := by
  intro r' hr'
  rcases List.mem_or_eq_of_mem_set hr' with hold | rfl
  · exact h r' hold
  · exact hr

theorem Present.send {d : Dashboard} (h : Present d) (call : ApiCall) : Present (d.send call) := by
  intro r hr st hst
  rcases List.mem_append.mp hr with hold | hnew
  · exact h r hold st hst
  · obtain rfl := List.mem_singleton.mp hnew
    cases hst

theorem present_serve {d : Dashboard} (h : Present d) (i : ℕ) (how : Handling) : Present (d.serve i how) := by
  rw [Dashboard.serve]
  split
  · rename_i call lost _
    cases call <;> cases how <;> (refine Present.set h i ?_; cases lost <;> rintro _ ⟨⟩ <;> rfl)
  · exact h

theorem present_finish {d : Dashboard} (h : Present d) (i : ℕ) : Present (d.finish i) := by
  rw [Dashboard.finish]
  split
  · rename_i call lost _
    refine h.set i ?_
    cases call <;> cases lost <;> rintro _ ⟨⟩ <;> rfl
  · exact h

theorem present_step {d : Dashboard} (h : Present d) (e : DashEvent) (hstill : Still d e) :
    Present (d.step e) := by
  cases e with
  | patchServer patch => exact h
  | patchDaemon patch => exact h
  | applyPreset id => exact h
  | persist =>
    rw [Dashboard.step, Dashboard.persist]
    split
    · exact h
    · exact h.send _
  | runAction =>
    rw [Dashboard.step, Dashboard.runAction]
    split
    · exact h
    · exact h.send _
  | pollStatus => exact h.send _
  | serve i how => exact present_serve h i how
  | finish i => exact present_finish h i
  | deliver i =>
    rw [Dashboard.step, Dashboard.deliver]
    split
    · refine Present.set h i ?_
      rintro _ ⟨⟩
    · exact h
  | lose i =>
    rw [Dashboard.step, Dashboard.lose]
    split
    · rename_i r _
      refine h.set i ?_
      rcases r with ⟨call, _ | _ | res | _, lost⟩ <;> rintro _ ⟨⟩
    · exact h
  | manager e =>
    intro r hr st hst
    exact (h r hr st hst).trans hstill.symm
  | connect => exact h
  | disconnect => exact h
  | receive =>
    rw [Dashboard.step, Present, receive_requests, receive_pm]
    exact h

/-! ### Runs -/

/-- After some connect no answer is delivered that the stream has overtaken. -/
def NeverOvertaken (d₀ : Dashboard) (es : List DashEvent) : Prop :=
  ∃ before after, es = before ++ .connect :: after ∧
    Along Dashboard.step NotOvertaken ((exec Dashboard.step d₀ before).step .connect) after

/-- From some moment on no process changes its status, the answers under way are up to date, and one more
    that shows the status is delivered. -/
def AnsweredStill (d₀ : Dashboard) (es : List DashEvent) : Prop :=
  ∃ before mid i after, es = before ++ (mid ++ .deliver i :: after) ∧
    Present (exec Dashboard.step d₀ before) ∧
    Along Dashboard.step Still (exec Dashboard.step d₀ before) (mid ++ .deliver i :: after) ∧
    ((exec Dashboard.step d₀ (before ++ mid)).snapshot i).isSome

theorem loaded_announced (base : DashboardConfig) (presets : List Preset) (file : Option ConfigFile) :
    Announced (.loaded base presets file) :=
  ⟨fresh_labelled, by rintro k ⟨⟩, by rintro k ⟨⟩⟩

theorem announced_exec {d₀ : Dashboard} (h : Announced d₀) (es : List DashEvent) :
    Announced (exec Dashboard.step d₀ es) :=
  exec_inv_free Announced (fun _ e h => announced_step h e) h es

/-- A store that shows what it should goes on doing so. -/
theorem shown_exec {d₀ : Dashboard} (ha : Announced d₀) (h : Shown d₀) {es : List DashEvent}
    (hes : Along Dashboard.step NotOvertaken d₀ es) : Shown (exec Dashboard.step d₀ es) :=
  (exec_inv (fun d => Announced d ∧ Shown d)
    (fun _ e hd hfresh => ⟨announced_step hd.1 e, (shown_step hd.1 hd.2 e).mpr hfresh⟩) ⟨ha, h⟩ hes).2

theorem shown_of_neverOvertaken {d₀ : Dashboard} (ha : Announced d₀) {es : List DashEvent}
    (h : NeverOvertaken d₀ es) : Shown (exec Dashboard.step d₀ es) := by
  obtain ⟨before, after, rfl, hafter⟩ := h
  rw [exec_append, exec_cons]
  exact shown_exec (announced_step (announced_exec ha before) .connect) (shown_connect _) hafter

theorem Present.snapshot {d : Dashboard} (h : Present d) {i : ℕ} {st : ByProc ProcStatus}
    (hst : d.snapshot i = some st) : st = d.pm.allStatus := by
  obtain ⟨r, hr, hshows⟩ := Option.bind_eq_some_iff.mp hst
  exact h r (List.mem_of_getElem? hr) st hshows

/-- An answer that is up to date is not overtaken. -/
theorem Present.notOvertaken {d : Dashboard} (h : Present d) (e : DashEvent) : NotOvertaken d e := by
  cases e with
  | deliver i =>
    intro st hst k _ id _
    rw [h.snapshot hst, allStatus_get]
  | _ => trivial

/-- It sets the store right. -/
theorem Present.shown_deliver {d : Dashboard} (h : Present d) {i : ℕ} (hi : (d.snapshot i).isSome) :
    Shown (d.deliver i) := by
  obtain ⟨st, hst⟩ := Option.isSome_iff_exists.mp hi
  obtain ⟨hpm, hconn, -⟩ := deliver_view i d
  rw [Shown, hpm, hconn, deliver_status, hst]
  intro k _ id _
  rw [Option.getD_some, h.snapshot hst, allStatus_get]

theorem present_exec {d : Dashboard} (h : Present d) {es : List DashEvent}
    (hes : Along Dashboard.step Still d es) : Present (exec Dashboard.step d es) :=
  exec_inv Present (fun _ e h hstill => present_step h e hstill) h hes

theorem shown_of_answeredStill {d₀ : Dashboard} (ha : Announced d₀) {es : List DashEvent}
    (h : AnsweredStill d₀ es) : Shown (exec Dashboard.step d₀ es) := by
  obtain ⟨before, mid, i, after, rfl, hpresent, hstill, hi⟩ := h
  obtain ⟨hmid, hdeliver, hafter⟩ := (along_append _ _ _ _ _).mp hstill
  rw [exec_append] at hi
  rw [exec_append, exec_append, exec_cons]
  have hthen := present_exec hpresent hmid
  have hannounced := announced_exec (announced_exec ha before) mid
  have hfresh := along_of_inv (P := NotOvertaken) Present (fun _ e h hstill => present_step h e hstill)
    (fun _ e h _ => h.notOvertaken e) (present_step hthen (.deliver i) hdeliver) hafter
  exact shown_exec (announced_step hannounced (.deliver i)) (hthen.shown_deliver hi) hfresh

/-- STATUS: once everything sent on the stream has been delivered, the store shows the manager's status of
    both processes, if since some connect no answer was delivered that the stream had overtaken, or if
    nothing changes any more and one more answer has been delivered. -/
theorem status_converges (base : DashboardConfig) (presets : List Preset) (file : Option ConfigFile)
    (es : List DashEvent) (hdrained : (exec Dashboard.step (.loaded base presets file) es).Drained)
    (hes : NeverOvertaken (.loaded base presets file) es ∨ AnsweredStill (.loaded base presets file) es) :
    let d := exec Dashboard.step (.loaded base presets file) es
    d.store.status = d.pm.allStatus := by
  have ha := loaded_announced base presets file
  rcases hes with hnever | hstill
  · exact shown_drained (shown_of_neverOvertaken ha hnever) hdrained
  · exact shown_drained (shown_of_answeredStill ha hstill) hdrained

/-- A poll is answered before the server starts, and its answer arrives behind the start's three messages. -/
def lateAnswer : List DashEvent :=
  [.connect, .receive, .pollStatus, .serve 0 (.handled true),
    .manager (.start .server "bin" [] true (.runs 100) 1), .receive, .receive, .receive, .deliver 0]

/-- The server runs, nothing is in flight any more, and the store shows it stopped. -/
theorem late_answer_stays : ¬∀ (base : DashboardConfig) (presets : List Preset) (file : Option ConfigFile)
    (es : List DashEvent), (exec Dashboard.step (.loaded base presets file) es).Drained →
    (∀ r ∈ (exec Dashboard.step (.loaded base presets file) es).requests, r.phase = .delivered) →
    (exec Dashboard.step (.loaded base presets file) es).store.status =
      (exec Dashboard.step (.loaded base presets file) es).pm.allStatus := by
  intro h
  have hsame := h bareConfig [] none lateAnswer ⟨_, rfl, rfl, rfl⟩ (by
    intro r hr
    obtain rfl := List.mem_singleton.mp hr
    rfl)
  have hstate := congrArg (fun st => st.server.state) hsame
  exact absurd hstate (by decide)

/-- The next poll sets it right. -/
theorem status_converges_small :
    let es := lateAnswer ++ ([.pollStatus, .serve 1 (.handled true)] ++ .deliver 1 :: [])
    let d := exec Dashboard.step (.loaded bareConfig [] none) es
    d.store.status.server.state = .running ∧ d.store.status = d.pm.allStatus := by
  intro es d
  have hpresent : Present (exec Dashboard.step (.loaded bareConfig [] none) lateAnswer) := by
    intro r hr st hst
    obtain rfl := List.mem_singleton.mp hr
    cases hst
  have hstill (d' : Dashboard) :
      Along Dashboard.step Still d' ([.pollStatus, .serve 1 (.handled true)] ++ .deliver 1 :: []) :=
    ⟨rfl, congrArg Manager.allStatus (serve_view 1 _ _).pm,
      congrArg Manager.allStatus (deliver_view 1 _).1, trivial⟩
  have hsame := status_converges bareConfig [] none es ⟨_, rfl, rfl, rfl⟩
    (Or.inr ⟨lateAnswer, _, 1, [], rfl, hpresent, hstill _, rfl⟩)
  have hrunning : d.pm.allStatus.server.state = .running := by decide
  exact ⟨by rw [hsame]; exact hrunning, hsame⟩

end DsparkEdge.Ui
