import DsparkEdge.Lib.Runs
import DsparkEdge.Lib.Window
import DsparkEdge.Ui.Dashboard

/-! `GET /api/logs` (`app/api/logs/route.ts`), as many connections of it as there are: what each registers
    with the process manager's emitter and with the timers, and what releases it.

        open ──abort, cancel──▶ released      nothing registered
          └──enqueue throws──▶ stuck          everything registered, for good

    `closed` serves the sender, which sets it when an enqueue throws, and guards the clean-up. Either way
    nothing is sent any more. -/

namespace DsparkEdge.Ui

open Runs Window

/-! ### A connection -/

/-- What is handed to `controller.enqueue`. -/
inductive Frame where
  | backlog (logs : List LogLine) (status : ByProc ProcStatus)
  | log (line : LogLine)
  | status (st : ProcStatus)
  | ping
  deriving DecidableEq, Repr

structure LogsConn where
  closed : Bool
  sent : List Frame
  deriving DecidableEq, Repr

/-- `send`, and the body of the heartbeat; `ok` is false when the enqueue throws. -/
def LogsConn.send (frame : Frame) (ok : Bool) (c : LogsConn) : LogsConn :=
  if c.closed then c
  else if ok then { c with sent := c.sent ++ [frame] }
  else { c with closed := true }

/-- The connections in the order they were opened, and by number who listens and whose interval runs. -/
structure LogsRoute where
  manager : Manager
  logListeners : List ℕ
  statusListeners : List ℕ
  heartbeats : List ℕ
  conns : List LogsConn
  deriving DecidableEq

def LogsRoute.fresh : LogsRoute := ⟨.fresh, [], [], [], []⟩

/-- `start`: the backlog first, then the registrations. -/
def LogsRoute.get (ok : Bool) (s : LogsRoute) : LogsRoute :=
  let i := s.conns.length
  let backlog := Frame.backlog (lastN maxBacklog s.manager.allLogs) s.manager.allStatus
  { s with
    logListeners := s.logListeners ++ [i]
    statusListeners := s.statusListeners ++ [i]
    heartbeats := s.heartbeats ++ [i]
    conns := s.conns ++ [LogsConn.send backlog ok ⟨false, []⟩] }

/-- The emitter calls the listeners one after the other; `ok i` is false when the enqueue of the
    `i`-th connection throws. -/
def emit (listeners : List ℕ) (frame : Frame) (ok : ℕ → Bool) (conns : List LogsConn) : List LogsConn :=
  listeners.foldl (fun conns i => conns.modify i (LogsConn.send frame (ok i))) conns

/-- A line of `pushLog`. -/
def LogsRoute.pushLine (id : ProcId) (stream : LogStream) (raw : String) (ok : ℕ → Bool) (s : LogsRoute) :
    LogsRoute :=
  { s with
    manager := s.manager.pushLine id stream raw
    conns := emit s.logListeners (.log ⟨s.manager.logSeq + 1, id, stream, raw⟩) ok s.conns }

def LogsRoute.updateStatus (id : ProcId) (patch : StatusPatch) (ok : ℕ → Bool) (s : LogsRoute) : LogsRoute :=
  { s with
    manager := s.manager.updateStatus id patch
    conns := emit s.statusListeners (.status ((s.manager.status id).patch patch)) ok s.conns }

/-- A tick of an interval that was not cleared. -/
def LogsRoute.heartbeat (i : ℕ) (ok : Bool) (s : LogsRoute) : LogsRoute :=
  if i ∈ s.heartbeats then { s with conns := s.conns.modify i (LogsConn.send .ping ok) } else s

/-- `cleanup` of a connection. -/
def LogsRoute.cleanup (i : ℕ) (s : LogsRoute) : LogsRoute :=
  match s.conns[i]? with
  | none => s
  | some c =>
    if c.closed then s
    else
      { s with
        heartbeats := s.heartbeats.erase i
        logListeners := s.logListeners.erase i
        statusListeners := s.statusListeners.erase i
        conns := s.conns.set i { c with closed := true } }

inductive LogsEvent where
  | get (ok : Bool)
  | log (id : ProcId) (stream : LogStream) (raw : String) (ok : ℕ → Bool)
  | status (id : ProcId) (patch : StatusPatch) (ok : ℕ → Bool)
  | dropLogs (id : ProcId)
  | heartbeat (i : ℕ) (ok : Bool)
  | abort (i : ℕ)
  | cancel (i : ℕ)

def LogsRoute.step (s : LogsRoute) : LogsEvent → LogsRoute
  | .get ok => s.get ok
  | .log id stream raw ok => s.pushLine id stream raw ok
  | .status id patch ok => s.updateStatus id patch ok
  | .dropLogs id => { s with manager := s.manager.dropLogs id }
  | .heartbeat i ok => s.heartbeat i ok
  | .abort i => s.cleanup i
  | .cancel i => s.cleanup i

/-- An abort or a cancel of the `i`-th connection. -/
def LogsEvent.Ends (i : ℕ) (e : LogsEvent) : Prop := e = .abort i ∨ e = .cancel i

/-! ### What an event does to one connection -/

/-- The frame the event offers to the `i`-th connection, and whether its enqueue succeeds. -/
def LogsRoute.offered (i : ℕ) (s : LogsRoute) : LogsEvent → Option (Frame × Bool)
  | .get ok =>
    if s.conns.length = i then some (.backlog (lastN maxBacklog s.manager.allLogs) s.manager.allStatus, ok)
    else none
  | .log id stream raw ok =>
    if i ∈ s.logListeners then some (.log ⟨s.manager.logSeq + 1, id, stream, raw⟩, ok i) else none
  | .status id patch ok =>
    if i ∈ s.statusListeners then some (.status ((s.manager.status id).patch patch), ok i) else none
  | .heartbeat j ok => if j = i ∧ i ∈ s.heartbeats then some (.ping, ok) else none
  | .dropLogs _ | .abort _ | .cancel _ => none

def LogsConn.receive (frame : Option (Frame × Bool)) (c : LogsConn) : LogsConn :=
  match frame with
  | none => c
  | some f => c.send f.1 f.2

/-- Connection `i` is `c`, registered `n` times for each of the emitter's events and with the timers. -/
structure Registered (i n : ℕ) (c : LogsConn) (s : LogsRoute) : Prop where
  conn : s.conns[i]? = some c
  log : s.logListeners.count i = n
  status : s.statusListeners.count i = n
  heartbeat : s.heartbeats.count i = n

structure Unopened (i : ℕ) (s : LogsRoute) : Prop where
  beyond : s.conns.length ≤ i
  log : i ∉ s.logListeners
  status : i ∉ s.statusListeners
  heartbeat : i ∉ s.heartbeats

theorem emit_length (listeners : List ℕ) (frame : Frame) (ok : ℕ → Bool) (conns : List LogsConn) :
    (emit listeners frame ok conns).length = conns.length := by
  induction listeners generalizing conns with
  | nil => rfl
  | cons j listeners ih =>
    rw [emit, List.foldl_cons, ← emit, ih, List.length_modify]

/-- A listener that is registered at most once gets the frame at most once. -/
theorem emit_getElem? {listeners : List ℕ} {i : ℕ} (hcount : listeners.count i ≤ 1) (frame : Frame)
    (ok : ℕ → Bool) (conns : List LogsConn) : (emit listeners frame ok conns)[i]? =
      if i ∈ listeners then conns[i]?.map (LogsConn.send frame (ok i)) else conns[i]? := by
  induction listeners generalizing conns with
  | nil => rfl
  | cons j listeners ih =>
    rw [emit, List.foldl_cons, ← emit]
    by_cases hj : j = i
    · subst hj
      rw [List.count_cons_self] at hcount
      have hnot : j ∉ listeners := List.count_eq_zero.mp (by omega)
      rw [ih (by omega), if_neg hnot, if_pos List.mem_cons_self, List.getElem?_modify]
      simp
    · rw [List.count_cons_of_ne hj] at hcount
      rw [ih hcount, List.getElem?_modify]
      simp [hj, Ne.symm hj]

theorem receive_closed {c : LogsConn} (hc : c.closed = true) (frame : Option (Frame × Bool)) :
    c.receive frame = c := by
  cases frame with
  | none => rfl
  | some f => rw [LogsConn.receive, LogsConn.send, if_pos hc]

variable {i n : ℕ} {c : LogsConn} {s : LogsRoute}

theorem registered_get (h : Registered i n c s) (ok : Bool) : Registered i n c (s.get ok) := by
  have hlt : i < s.conns.length := (List.getElem?_eq_some_iff.mp h.conn).1
  have hcount : [s.conns.length].count i = 0 := List.count_singleton.trans (if_neg (by simp; omega))
  refine ⟨?_, ?_, ?_, ?_⟩
  · rw [LogsRoute.get, List.getElem?_append_left hlt]
    exact h.conn
  · rw [LogsRoute.get, List.count_append, hcount]
    exact h.log
  · rw [LogsRoute.get, List.count_append, hcount]
    exact h.status
  · rw [LogsRoute.get, List.count_append, hcount]
    exact h.heartbeat

theorem registered_cleanup_ne (h : Registered i n c s) {j : ℕ} (hj : j ≠ i) :
    Registered i n c (s.cleanup j) := by
  rw [LogsRoute.cleanup]
  split
  · exact h
  · split
    · exact h
    · refine ⟨?_, ?_, ?_, ?_⟩
      · rw [List.getElem?_set_ne hj]
        exact h.conn
      · rw [List.count_erase_of_ne hj.symm]
        exact h.log
      · rw [List.count_erase_of_ne hj.symm]
        exact h.status
      · rw [List.count_erase_of_ne hj.symm]
        exact h.heartbeat

/-- The frame of an emission reaches the connections that listen. -/
theorem registered_emit (h : Registered i n c s) {listeners : List ℕ} (hcount : listeners.count i ≤ 1)
    (frame : Frame) (ok : ℕ → Bool) (m : Manager) :
    Registered i n (c.receive (if i ∈ listeners then some (frame, ok i) else none))
      { s with manager := m, conns := emit listeners frame ok s.conns } := by
  refine ⟨?_, h.log, h.status, h.heartbeat⟩
  rw [emit_getElem? hcount, h.conn]
  split <;> rfl

/-- Unless it is ended, a connection receives what it is offered and stays registered. -/
theorem registered_step (h : Registered i n c s) (hn : n ≤ 1) {e : LogsEvent} (he : ¬e.Ends i) :
    Registered i n (c.receive (s.offered i e)) (s.step e) := by
  cases e with
  | get ok =>
    have hlt : i < s.conns.length := (List.getElem?_eq_some_iff.mp h.conn).1
    rw [LogsRoute.offered, if_neg (Nat.ne_of_gt hlt)]
    exact registered_get h ok
  | log id stream raw ok => exact registered_emit h (h.log ▸ hn) _ ok _
  | status id patch ok => exact registered_emit h (h.status ▸ hn) _ ok _
  | dropLogs id => exact ⟨h.conn, h.log, h.status, h.heartbeat⟩
  | heartbeat j ok =>
    rw [LogsRoute.step, LogsRoute.heartbeat, LogsRoute.offered]
    by_cases hmem : j ∈ s.heartbeats
    · rw [if_pos hmem]
      refine ⟨?_, h.log, h.status, h.heartbeat⟩
      rw [List.getElem?_modify, h.conn]
      by_cases hj : j = i
      · subst hj
        simp [hmem, LogsConn.receive]
      · simp [hj, LogsConn.receive]
    · rw [if_neg hmem, if_neg]
      · exact h
      · rintro ⟨rfl, hi⟩
        exact hmem hi
  | abort j => exact registered_cleanup_ne h fun hj => he (Or.inl (congrArg _ hj))
  | cancel j => exact registered_cleanup_ne h fun hj => he (Or.inr (congrArg _ hj))

/-- Ending an open connection takes back one registration of each kind. -/
theorem registered_end (h : Registered i n c s) (hc : c.closed = false) {e : LogsEvent} (he : e.Ends i) :
    Registered i (n - 1) { c with closed := true } (s.step e) := by
  have hlt : i < s.conns.length := (List.getElem?_eq_some_iff.mp h.conn).1
  have hstep : s.step e = s.cleanup i := by rcases he with rfl | rfl <;> rfl
  rw [hstep, LogsRoute.cleanup, h.conn]
  simp only [hc, Bool.false_eq_true, if_false]
  refine ⟨List.getElem?_set_self hlt, ?_, ?_, ?_⟩
  · rw [List.count_erase_self, h.log]
  · rw [List.count_erase_self, h.status]
  · rw [List.count_erase_self, h.heartbeat]

/-- Nothing changes for a closed connection, whatever happens. -/
theorem registered_closed (h : Registered i n c s) (hn : n ≤ 1) (hc : c.closed = true) (e : LogsEvent) :
    Registered i n c (s.step e) := by
  by_cases he : e.Ends i
  · have hstep : s.step e = s.cleanup i := by rcases he with rfl | rfl <;> rfl
    rw [hstep, LogsRoute.cleanup, h.conn]
    simp only [hc, if_true]
    exact h
  · have hstep := registered_step h hn he
    rwa [receive_closed hc] at hstep

theorem count_concat {listeners : List ℕ} (h : i ∉ listeners) : (listeners ++ [i]).count i = 1 := by
  rw [List.count_append, List.count_eq_zero.mpr h, List.count_singleton_self]

theorem cleanup_subset (i j : ℕ) (s : LogsRoute) : (s.cleanup j).conns.length = s.conns.length ∧
    (i ∈ (s.cleanup j).logListeners → i ∈ s.logListeners) ∧
    (i ∈ (s.cleanup j).statusListeners → i ∈ s.statusListeners) ∧
    (i ∈ (s.cleanup j).heartbeats → i ∈ s.heartbeats) := by
  rw [LogsRoute.cleanup]
  split
  · exact ⟨rfl, id, id, id⟩
  · split
    · exact ⟨rfl, id, id, id⟩
    · exact ⟨List.length_set, List.mem_of_mem_erase, List.mem_of_mem_erase, List.mem_of_mem_erase⟩

/-- A connection is opened by its `GET`, which offers it the backlog. -/
theorem unopened_step (h : Unopened i s) (e : LogsEvent) :
    s.offered i e = none ∧ Unopened i (s.step e) ∨
      ∃ frame ok, s.offered i e = some (frame, ok) ∧
        Registered i 1 (LogsConn.send frame ok ⟨false, []⟩) (s.step e) := by
  have hcleanup (j : ℕ) : Unopened i (s.cleanup j) := by
    obtain ⟨hlen, hlog, hstatus, hheart⟩ := cleanup_subset i j s
    exact ⟨hlen ▸ h.beyond, mt hlog h.log, mt hstatus h.status, mt hheart h.heartbeat⟩
  have hlen (listeners : List ℕ) (frame : Frame) (ok : ℕ → Bool) :
      (emit listeners frame ok s.conns).length ≤ i := emit_length listeners frame ok s.conns ▸ h.beyond
  cases e with
  | get ok =>
    by_cases hi : s.conns.length = i
    · subst hi
      refine Or.inr ⟨_, ok, if_pos rfl, List.getElem?_concat_length, ?_, ?_, ?_⟩
      · exact count_concat h.log
      · exact count_concat h.status
      · exact count_concat h.heartbeat
    · have hlast : i ∉ [s.conns.length] := fun hmem => hi (List.mem_singleton.mp hmem).symm
      refine Or.inl ⟨if_neg hi, ?_, ?_, ?_, ?_⟩
      · rw [LogsRoute.step, LogsRoute.get, List.length_append, List.length_singleton]
        have := h.beyond
        omega
      · exact List.not_mem_append h.log hlast
      · exact List.not_mem_append h.status hlast
      · exact List.not_mem_append h.heartbeat hlast
  | log id stream raw ok =>
    exact Or.inl ⟨if_neg h.log, hlen _ _ ok, h.log, h.status, h.heartbeat⟩
  | status id patch ok =>
    exact Or.inl ⟨if_neg h.status, hlen _ _ ok, h.log, h.status, h.heartbeat⟩
  | dropLogs id => exact Or.inl ⟨rfl, h.beyond, h.log, h.status, h.heartbeat⟩
  | heartbeat j ok =>
    refine Or.inl ⟨if_neg fun hand => h.heartbeat hand.2, ?_⟩
    rw [LogsRoute.step, LogsRoute.heartbeat]
    split
    · exact ⟨by rw [List.length_modify]; exact h.beyond, h.log, h.status, h.heartbeat⟩
    · exact h
  | abort j => exact Or.inl ⟨rfl, hcleanup j⟩
  | cancel j => exact Or.inl ⟨rfl, hcleanup j⟩

/-! ### The life of a connection -/

def Open (i : ℕ) (s : LogsRoute) : Prop := ∃ c, Registered i 1 c s ∧ c.closed = false

/-- Closed by its sender and still registered. -/
def Stuck (i : ℕ) (s : LogsRoute) : Prop := ∃ c, Registered i 1 c s ∧ c.closed = true

def Released (i : ℕ) (s : LogsRoute) : Prop := ∃ c, Registered i 0 c s ∧ c.closed = true

def Known (i : ℕ) (s : LogsRoute) : Prop := Unopened i s ∨ Open i s ∨ Stuck i s ∨ Released i s

/-- The event offers a frame to the `i`-th connection, new or open, and its enqueue throws. -/
def Fails (i : ℕ) (s : LogsRoute) (e : LogsEvent) : Prop :=
  (∃ frame, s.offered i e = some (frame, false)) ∧ ∀ c ∈ s.conns[i]?, c.closed = false

theorem send_ok (frame : Frame) (ok : Bool) {c : LogsConn} (hc : c.closed = false) :
    (c.send frame ok).closed = !ok := by
  cases ok <;> simp [LogsConn.send, hc]

theorem stuck_step (h : Stuck i s) (e : LogsEvent) : Stuck i (s.step e) := by
  obtain ⟨c, hreg, hc⟩ := h
  exact ⟨c, registered_closed hreg (Nat.le_refl 1) hc e, hc⟩

theorem released_step (h : Released i s) (e : LogsEvent) : Released i (s.step e) := by
  obtain ⟨c, hreg, hc⟩ := h
  exact ⟨c, registered_closed hreg (Nat.zero_le 1) hc e, hc⟩

/-- A failing enqueue leaves the connection stuck. -/
theorem stuck_of_fails (h : Known i s) {e : LogsEvent} (hfail : Fails i s e) : Stuck i (s.step e) := by
  obtain ⟨⟨frame, hoffer⟩, hopen⟩ := hfail
  rcases h with hun | ⟨c, hreg, hc⟩ | ⟨c, hreg, hc⟩ | ⟨c, hreg, hc⟩
  · rcases unopened_step hun e with ⟨hnone, -⟩ | ⟨frame', ok, hsome, hreg⟩
    · rw [hnone] at hoffer
      cases hoffer
    · rw [hsome] at hoffer
      cases hoffer
      exact ⟨_, hreg, send_ok frame false rfl⟩
  · have he : ¬e.Ends i := by
      rintro (rfl | rfl) <;> cases hoffer
    have hstep := registered_step hreg (Nat.le_refl 1) he
    rw [hoffer] at hstep
    exact ⟨_, hstep, send_ok frame false hc⟩
  · rw [hopen c hreg.conn] at hc
    cases hc
  · rw [hopen c hreg.conn] at hc
    cases hc

/-- Otherwise a connection that is not stuck does not become so. -/
theorem unstuck_step (h : Unopened i s ∨ Open i s ∨ Released i s) {e : LogsEvent} (hfail : ¬Fails i s e) :
    Unopened i (s.step e) ∨ Open i (s.step e) ∨ Released i (s.step e) := by
  rcases h with hun | ⟨c, hreg, hc⟩ | hrel
  · rcases unopened_step hun e with ⟨-, hun'⟩ | ⟨frame, ok, hsome, hreg⟩
    · exact Or.inl hun'
    · cases ok with
      | true => exact Or.inr (Or.inl ⟨_, hreg, send_ok frame true rfl⟩)
      | false =>
        refine absurd ⟨⟨frame, hsome⟩, fun c hc => ?_⟩ hfail
        rw [List.getElem?_eq_none hun.beyond] at hc
        cases hc
  · by_cases he : e.Ends i
    · exact Or.inr (Or.inr ⟨_, registered_end hreg hc he, rfl⟩)
    · have hstep := registered_step hreg (Nat.le_refl 1) he
      refine Or.inr (Or.inl ⟨_, hstep, ?_⟩)
      cases hoffer : s.offered i e with
      | none => exact hc
      | some f =>
        obtain ⟨frame, ok⟩ := f
        cases ok with
        | true => exact send_ok frame true hc
        | false =>
          refine absurd ⟨⟨frame, hoffer⟩, fun c' hc' => ?_⟩ hfail
          rw [hreg.conn] at hc'
          cases Option.some.inj hc'
          exact hc
  · exact Or.inr (Or.inr (released_step hrel e))

theorem known_step (h : Known i s) (e : LogsEvent) : Known i (s.step e) := by
  by_cases hfail : Fails i s e
  · exact Or.inr (Or.inr (Or.inl (stuck_of_fails h hfail)))
  · rcases h with hun | hopen | hstuck | hrel
    · exact (unstuck_step (Or.inl hun) hfail).imp_right (Or.imp_right Or.inr)
    · exact (unstuck_step (Or.inr (Or.inl hopen)) hfail).imp_right (Or.imp_right Or.inr)
    · exact Or.inr (Or.inr (Or.inl (stuck_step hstuck e)))
    · exact Or.inr (Or.inr (Or.inr (released_step hrel e)))

theorem unopened_fresh (i : ℕ) : Unopened i .fresh :=
  ⟨Nat.zero_le i, List.not_mem_nil, List.not_mem_nil, List.not_mem_nil⟩

/-! ### Runs -/

/-- Neither listener nor interval of the `i`-th connection is registered. -/
def Unregistered (i : ℕ) (s : LogsRoute) : Prop :=
  i ∉ s.logListeners ∧ i ∉ s.statusListeners ∧ i ∉ s.heartbeats

instance (i : ℕ) (s : LogsRoute) : Decidable (Unregistered i s) := inferInstanceAs (Decidable (_ ∧ _))

def LogsRoute.sentTo (i : ℕ) (s : LogsRoute) : Option (List Frame) := s.conns[i]?.map LogsConn.sent

/-- From the first abort or cancel on, the connection is not registered and is sent nothing. -/
def ReleasedWhenEnded (i : ℕ) (es : List LogsEvent) : Prop :=
  ∀ before e after later, es = before ++ e :: (after ++ later) → e.Ends i →
    i < (exec LogsRoute.step .fresh before).conns.length →
    Unregistered i (exec LogsRoute.step .fresh (before ++ e :: after)) ∧
      (exec LogsRoute.step .fresh (before ++ e :: after)).sentTo i =
        (exec LogsRoute.step .fresh before).sentTo i

/-- No enqueue fails on the connection, while open, before it is aborted or cancelled. -/
def NoneFailsBefore (i : ℕ) (es : List LogsEvent) : Prop :=
  ∀ before e after, es = before ++ e :: after → e.Ends i →
    i < (exec LogsRoute.step .fresh before).conns.length →
    Along LogsRoute.step (fun s e => ¬Fails i s e) .fresh before

theorem registered_closed_exec (h : Registered i n c s) (hn : n ≤ 1) (hc : c.closed = true)
    (es : List LogsEvent) : Registered i n c (exec LogsRoute.step s es) :=
  exec_inv_free (Registered i n c) (fun _ e hs => registered_closed hs hn hc e) h es

theorem Registered.unregistered (h : Registered i 0 c s) : Unregistered i s :=
  ⟨List.count_eq_zero.mp h.log, List.count_eq_zero.mp h.status, List.count_eq_zero.mp h.heartbeat⟩

theorem Registered.sentTo (h : Registered i n c s) : s.sentTo i = some c.sent := by
  rw [LogsRoute.sentTo, h.conn]
  rfl

/-- Whatever closed it, an ended connection is sent nothing more. -/
theorem silent_when_ended (h : Open i s ∨ Stuck i s ∨ Released i s) {e : LogsEvent} (he : e.Ends i)
    (after : List LogsEvent) : (exec LogsRoute.step s (e :: after)).sentTo i = s.sentTo i := by
  rcases h with ⟨c, hreg, hc⟩ | ⟨c, hreg, hc⟩ | ⟨c, hreg, hc⟩
  · have hend := registered_closed_exec (registered_end hreg hc he) (Nat.zero_le 1) rfl after
    rw [exec_cons, hend.sentTo, hreg.sentTo]
  · rw [(registered_closed_exec hreg (Nat.le_refl 1) hc (e :: after)).sentTo, hreg.sentTo]
  · rw [(registered_closed_exec hreg (Nat.zero_le 1) hc (e :: after)).sentTo, hreg.sentTo]

/-- One that is not stuck is released for good. -/
theorem released_when_ended (h : Open i s ∨ Released i s) {e : LogsEvent} (he : e.Ends i)
    (after : List LogsEvent) : Unregistered i (exec LogsRoute.step s (e :: after)) := by
  rcases h with ⟨c, hreg, hc⟩ | ⟨c, hreg, hc⟩
  · exact (registered_closed_exec (registered_end hreg hc he) (Nat.zero_le 1) rfl after).unregistered
  · exact (registered_closed_exec hreg (Nat.zero_le 1) hc (e :: after)).unregistered

/-- A stuck one is not. -/
theorem stuck_when_ended (h : Stuck i s) (e : LogsEvent) : ¬Unregistered i (s.step e) := by
  obtain ⟨c, hreg, -⟩ := stuck_step h e
  rintro ⟨hlog, -, -⟩
  rw [← List.count_eq_zero, hreg.log] at hlog
  cases hlog

/-- RELEASE: in any run, with any other connections beside it, an aborted or cancelled connection is
    released for good and sent nothing more, exactly when no enqueue fails on it before. -/
theorem released_when_ended_iff (i : ℕ) (es : List LogsEvent) :
    ReleasedWhenEnded i es ↔ NoneFailsBefore i es := by
  constructor
  · intro hrel before e after hes he hlt
    refine along_of_unmarked (Known i) (Stuck i) (fun s e h => known_step h e)
      (fun s e h hfail => stuck_of_fails h (not_not.mp hfail)) (fun s e _ h => stuck_step h e)
      (Or.inl (unopened_fresh i)) fun hstuck => ?_
    obtain ⟨hun, -⟩ := hrel before e [] after hes he hlt
    rw [exec_append] at hun
    exact stuck_when_ended hstuck e hun
  · intro hnone before e after later hes he hlt
    rw [exec_append]
    have hunstuck := exec_inv (fun s => Unopened i s ∨ Open i s ∨ Released i s)
      (fun s e h hfail => unstuck_step h hfail) (Or.inl (unopened_fresh i))
      (hnone before e (after ++ later) hes he hlt)
    rcases hunstuck with hun | hdone
    · exact absurd hlt (Nat.not_lt.mpr hun.beyond)
    · exact ⟨released_when_ended hdone he after,
        silent_when_ended (hdone.imp_right Or.inr) he after⟩

/-- A status is lost on the connection, and the abort that follows leaves everything registered. -/
theorem failed_enqueue_never_released :
    ¬ReleasedWhenEnded 0 [.get true, .status .server {} fun _ => false, .abort 0] := by
  intro hrel
  obtain ⟨hun, -⟩ := hrel [.get true, .status .server {} fun _ => false] (.abort 0) [] [] rfl
    (Or.inl rfl) (by decide)
  exact absurd hun (by decide)

end DsparkEdge.Ui
