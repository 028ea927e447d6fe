import DsparkEdge.Lib.Runs
import DsparkEdge.Ui.Dashboard
import Mathlib.Data.List.Induction
import Mathlib.Data.List.Nodup

/-! The log lines a connected store shows. The route takes the backlog and subscribes in one go, so what
    comes behind the backlog is exactly what is pushed from then on; the windows on the way (4000 lines
    kept of a process, 400 in a backlog, 2000 in the store) only ever cut the front.

        pushed:   l₁ l₂ l₃ l₄ l₅ │ l₆ l₇ l₈            ids increase over both processes
        kept:        l₂    l₄ l₅ │                     one list a process, cleared by a start
        backlog:           l₄ l₅ │                     merged by id, the last 400
        store:             l₄ l₅   l₆ l₇ l₈            the last 2000

    Every kept line was pushed before the connect, every later one has a greater id. -/

namespace DsparkEdge.Ui

open Runs Window

def Emitted.line? : Emitted → Option LogLine
  | .log line => some line
  | .status _ => none

/-- The lines among what was emitted. -/
def linesOf (emitted : List Emitted) : List LogLine := emitted.filterMap Emitted.line?

@[simp] theorem linesOf_append (xs ys : List Emitted) : linesOf (xs ++ ys) = linesOf xs ++ linesOf ys :=
  List.filterMap_append

@[simp] theorem linesOf_log (line : LogLine) : linesOf [.log line] = [line] := rfl

@[simp] theorem linesOf_status (st : ProcStatus) : linesOf [.status st] = [] := rfl

/-- The ids increase. -/
def Increasing (lines : List LogLine) : Prop := lines.Pairwise fun a b => a.id < b.id

theorem Increasing.sublist {xs ys : List LogLine} (h : Increasing ys) (hsub : xs.Sublist ys) :
    Increasing xs := List.Pairwise.sublist hsub h

/-! ### The manager's books -/

/-- The lines are numbered in the order in which they are pushed, and what is kept of a process are lines
    it pushed. -/
structure Numbered (m : Manager) : Prop where
  increasing : Increasing (linesOf m.emitted)
  bound : ∀ line ∈ linesOf m.emitted, line.id ≤ m.logSeq
  kept : ∀ id, (m.procs.get id).logs.Sublist ((linesOf m.emitted).filter fun line => line.proc = id)

theorem fresh_numbered : Numbered .fresh where
  increasing := List.Pairwise.nil
  bound := by simp [Manager.fresh, linesOf]
  kept := by
    intro id
    cases id <;> exact List.nil_sublist _

theorem numbered_line {m : Manager} (h : Numbered m) (id : ProcId) (stream : LogStream) (raw : String) :
    Numbered (m.pushLine id stream raw) where
  increasing := by
    simp only [Manager.pushLine, linesOf_append, linesOf_log]
    refine List.pairwise_append.mpr ⟨h.increasing, List.pairwise_singleton _ _, ?_⟩
    intro a ha b hb
    have := h.bound a ha
    simp at hb
    subst hb
    exact Nat.lt_succ_of_le this
  bound := by
    intro line hline
    simp only [Manager.pushLine, linesOf_append, linesOf_log, List.mem_append, List.mem_singleton] at hline ⊢
    rcases hline with hold | rfl
    · exact Nat.le_succ_of_le (h.bound line hold)
    · exact Nat.le_refl _
  kept := by
    intro id'
    simp only [Manager.pushLine, linesOf_append, linesOf_log, ByProc.get_set, List.filter_append]
    have hproc : (LogLine.mk (m.logSeq + 1) id stream raw).proc = id := rfl
    generalize LogLine.mk (m.logSeq + 1) id stream raw = line at hproc ⊢
    split
    · rename_i hid
      subst hid
      have hgrow : ((m.procs.get id').logs ++ [line]).Sublist
          ((linesOf m.emitted).filter (fun l => l.proc = id') ++ [line].filter fun l => l.proc = id') := by
        simpa [hproc] using h.kept id'
      simp only
      split
      · exact (List.tail_sublist _).trans hgrow
      · exact hgrow
    · exact (h.kept id').trans (List.sublist_append_left _ _)

theorem numbered_move (m m' : Manager) (hmove : Move m m') (h : Numbered m) : Numbered m' := by
  cases hmove with
  | line id stream m raw => exact numbered_line h id stream raw
  | status id patch m =>
    refine ⟨by simpa [Manager.updateStatus] using h.increasing,
      by simpa [Manager.updateStatus] using h.bound, fun id' => ?_⟩
    simp only [Manager.updateStatus, linesOf_append, linesOf_status, List.append_nil, ByProc.get_set]
    split
    · rename_i hid
      subst hid
      exact h.kept id'
    · exact h.kept id'
  | drop id m =>
    refine ⟨h.increasing, h.bound, fun id' => ?_⟩
    simp only [Manager.dropLogs, ByProc.get_set]
    split
    · exact List.nil_sublist _
    · exact h.kept id'
  | other hsame =>
    refine ⟨by rw [hsame.emitted]; exact h.increasing, ?_, fun id => ?_⟩
    · rw [hsame.emitted, hsame.logSeq]
      exact h.bound
    · rw [hsame.emitted, hsame.logs]
      exact h.kept id

/-- What was emitted stays emitted. -/
theorem emitted_grows (m : Manager) (e : ManagerEvent) : m.emitted <+: (m.step e).emitted := by
  refine step_inv (P := fun m' => m.emitted <+: m'.emitted) ?_ (List.prefix_refl _) e
  intro m₁ m₂ hmove h
  cases hmove with
  | line id stream m raw => exact h.trans (List.prefix_append _ _)
  | status id patch m => exact h.trans (List.prefix_append _ _)
  | drop id m => exact h
  | other hsame => rwa [hsame.emitted]

theorem mem_allLogs {m : Manager} (h : Numbered m) {line : LogLine} (hline : line ∈ m.allLogs) :
    line ∈ linesOf m.emitted := by
  rw [Manager.allLogs, List.mem_mergeSort, List.mem_append] at hline
  rcases hline with hserver | hdaemon
  · exact List.mem_of_mem_filter ((h.kept .server).mem hserver)
  · exact List.mem_of_mem_filter ((h.kept .daemon).mem hdaemon)

/-- Lines of different numbers, in whatever order. -/
theorem logs_apart {m : Manager} (h : Numbered m) :
    (m.procs.server.logs ++ m.procs.daemon.logs).Pairwise fun a b => a.id ≠ b.id := by
  have hown (id : ProcId) : (m.procs.get id).logs.Pairwise fun a b => a.id ≠ b.id :=
    ((h.increasing.sublist List.filter_sublist).sublist (h.kept id)).imp fun hlt => Nat.ne_of_lt hlt
  refine List.pairwise_append.mpr ⟨hown .server, hown .daemon, fun a ha b hb hid => ?_⟩
  have ha' := List.mem_filter.mp ((h.kept .server).mem ha)
  have hb' := List.mem_filter.mp ((h.kept .daemon).mem hb)
  have hdistinct : ((linesOf m.emitted).map LogLine.id).Nodup :=
    List.pairwise_map.mpr (h.increasing.imp fun hlt => Nat.ne_of_lt hlt)
  have heq : a = b := List.inj_on_of_nodup_map hdistinct ha'.1 hb'.1 hid
  subst heq
  have hserver : a.proc = .server := by simpa using ha'.2
  have hdaemon : a.proc = .daemon := by simpa using hb'.2
  rw [hserver] at hdaemon
  cases hdaemon

/-- Both processes draw from one counter, so the merge has no id twice. -/
theorem allLogs_increasing {m : Manager} (h : Numbered m) : Increasing m.allLogs := by
  have hsorted : m.allLogs.Pairwise fun a b => a.id ≤ b.id := by
    have := @List.pairwise_mergeSort LogLine (fun a b => decide (a.id ≤ b.id))
      (by simp only [decide_eq_true_eq]; omega) (by simp; omega)
      (m.procs.server.logs ++ m.procs.daemon.logs)
    simpa [Manager.allLogs] using this
  have hdistinct : m.allLogs.Pairwise fun a b => a.id ≠ b.id :=
    (List.mergeSort_perm _ _).symm.pairwise (logs_apart h) fun hne => hne.symm
  exact (hsorted.and hdistinct).imp fun hboth => Nat.lt_of_le_of_ne hboth.1 hboth.2

/-! ### The connection -/

/-- The lines of a connection that have been delivered behind its backlog. -/
def Connection.delivered (k : Connection) (emitted : List Emitted) : List LogLine :=
  linesOf ((emitted.take k.next).drop k.start)

/-- The backlog is of lines emitted before the connection was opened, and an opened store shows it with
    what has been delivered since. -/
structure Tracks (k : Connection) (emitted : List Emitted) (shown : List LogLine) : Prop where
  backlog : Increasing k.logs
  old : ∀ line ∈ k.logs, line ∈ linesOf (emitted.take k.start)
  start : k.start ≤ k.next
  next : k.next ≤ emitted.length
  unopened : k.opened = false → k.next = k.start
  opened : k.opened = true → shown = lastN maxLogs (k.logs ++ k.delivered emitted)

/-- The backlog and all that is emitted behind it. -/
theorem Tracks.increasing {k : Connection} {emitted : List Emitted} {shown : List LogLine}
    (h : Tracks k emitted shown) (hemitted : Increasing (linesOf emitted)) :
    Increasing (k.logs ++ linesOf (emitted.drop k.start)) := by
  have hsplit : linesOf emitted = linesOf (emitted.take k.start) ++ linesOf (emitted.drop k.start) := by
    rw [← linesOf_append, List.take_append_drop]
  rw [hsplit] at hemitted
  obtain ⟨-, hdrop, hcross⟩ := List.pairwise_append.mp hemitted
  exact List.pairwise_append.mpr ⟨h.backlog, hdrop, fun a ha b hb => hcross a (h.old a ha) b hb⟩

theorem delivered_sublist (k : Connection) (emitted : List Emitted) :
    (k.delivered emitted).Sublist (linesOf (emitted.drop k.start)) := by
  rw [Connection.delivered, List.drop_take]
  exact (List.take_sublist _ _).filterMap _

/-- The next message of the connection. -/
theorem delivered_succ {k : Connection} {emitted : List Emitted} {e : Emitted}
    (he : emitted[k.next]? = some e) (hle : k.start ≤ k.next) :
    Connection.delivered { k with next := k.next + 1 } emitted = k.delivered emitted ++ e.line?.toList := by
  obtain ⟨hlt, -⟩ := List.getElem?_eq_some_iff.mp he
  have hlen : k.start ≤ (emitted.take k.next).length := by
    rw [List.length_take]
    omega
  simp only [Connection.delivered, List.take_add_one, he, List.drop_append_of_le_length hlen, linesOf_append]
  cases e <;> rfl

/-- More is emitted. -/
theorem Tracks.grow {k : Connection} {emitted emitted' : List Emitted} {shown : List LogLine}
    (h : Tracks k emitted shown) (hgrow : emitted <+: emitted') : Tracks k emitted' shown := by
  obtain ⟨more, rfl⟩ := hgrow
  have hnext := h.next
  have hstart := h.start
  refine ⟨h.backlog, ?_, hstart, by rw [List.length_append]; omega, h.unopened, ?_⟩
  · rw [List.take_append_of_le_length (by omega)]
    exact h.old
  · rw [Connection.delivered, List.take_append_of_le_length hnext]
    exact h.opened

/-- Every line in the store is of the stream, so they increase. -/
theorem Tracks.shown_increasing {k : Connection} {emitted : List Emitted} {shown : List LogLine}
    (h : Tracks k emitted shown) (hemitted : Increasing (linesOf emitted)) (hopen : k.opened = true) :
    Increasing shown := by
  rw [h.opened hopen]
  have hstream := (h.increasing hemitted).sublist
    ((List.Sublist.refl k.logs).append (delivered_sublist k emitted))
  exact hstream.sublist (lastN_sublist _ _)

/-- The store is never longer than its window. -/
theorem Tracks.full {k : Connection} {emitted : List Emitted} {shown : List LogLine}
    (h : Tracks k emitted shown) (hopen : k.opened = true) : lastN maxLogs shown = shown := by
  rw [h.opened hopen, lastN_lastN]

/-- The manager's books are in order, the store's lines increase, and an open connection is tracked. -/
structure Follows (d : Dashboard) : Prop where
  numbered : Numbered d.pm
  shown : Increasing d.store.logs
  tracked : ∀ k, d.conn = some k → Tracks k d.pm.emitted d.store.logs

theorem loaded_follows (base : DashboardConfig) (presets : List Preset) (file : Option ConfigFile) :
    Follows (.loaded base presets file) where
  numbered := fresh_numbered
  shown := List.Pairwise.nil
  tracked := by
    intro k hk
    cases hk

theorem subscribe_tracks {m : Manager} (h : Numbered m) (shown : List LogLine) :
    Tracks m.subscribe m.emitted shown where
  backlog := by
    rw [subscribe_logs]
    exact (allLogs_increasing h).sublist (lastN_sublist _ _)
  old := by
    intro line hline
    rw [subscribe_logs] at hline
    rw [subscribe_start, List.take_length]
    exact mem_allLogs h ((lastN_sublist _ _).mem hline)
  start := by simp
  next := by simp
  unopened := by simp
  opened := by simp

/-- The backlog arrives. -/
theorem Tracks.open {k : Connection} {emitted : List Emitted} {shown : List LogLine}
    (h : Tracks k emitted shown) (hopen : k.opened = false) :
    Tracks { k with opened := true } emitted (lastN maxLogs k.logs) where
  backlog := h.backlog
  old := h.old
  start := h.start
  next := h.next
  unopened := by simp
  opened := by
    intro _
    simp [Connection.delivered, h.unopened hopen, linesOf]

/-- A message behind it arrives. -/
theorem Tracks.receive {k : Connection} {emitted : List Emitted} {shown : List LogLine} {e : Emitted}
    (h : Tracks k emitted shown) (hopen : k.opened = true) (he : emitted[k.next]? = some e) :
    Tracks { k with next := k.next + 1 } emitted (lastN maxLogs (shown ++ e.line?.toList)) where
  backlog := h.backlog
  old := h.old
  start := Nat.le_succ_of_le h.start
  next := by
    obtain ⟨hlt, -⟩ := List.getElem?_eq_some_iff.mp he
    exact hlt
  unopened := by simp [hopen]
  opened := by
    intro _
    rw [delivered_succ he h.start, h.opened hopen, lastN_lastN_append, List.append_assoc]

theorem hear_logs {s : AppState} (hfull : lastN maxLogs s.logs = s.logs) (e : Emitted) :
    (s.hear e).logs = lastN maxLogs (s.logs ++ e.line?.toList) := by
  cases e with
  | log line => simp [AppState.hear, Emitted.line?]
  | status st => simp [AppState.hear, Emitted.line?, hfull]

theorem follows_receive {d : Dashboard} (h : Follows d) : Follows d.receive := by
  have hlines := h.numbered.increasing
  rcases receive_cases d with heq | ⟨k, hk, ⟨hclosed, heq⟩ | ⟨hopen, e, he, heq⟩⟩ <;> rw [heq]
  · exact h
  · have hopened := (h.tracked k hk).open hclosed
    rw [← setBacklog_logs k.logs k.status d.store] at hopened
    refine ⟨h.numbered, hopened.shown_increasing hlines rfl, ?_⟩
    rintro _ ⟨⟩
    exact hopened
  · have ht := h.tracked k hk
    have hnext := ht.receive hopen he
    rw [← hear_logs (ht.full hopen) e] at hnext
    refine ⟨h.numbered, hnext.shown_increasing hlines hopen, ?_⟩
    rintro _ ⟨⟩
    exact hnext

theorem Follows.same {d d' : Dashboard} (h : Follows d) (hpm : d'.pm = d.pm) (hconn : d'.conn = d.conn)
    (hlogs : d'.store.logs = d.store.logs) : Follows d' where
  numbered := by
    rw [hpm]
    exact h.numbered
  shown := by
    rw [hlogs]
    exact h.shown
  tracked := by
    rw [hpm, hconn, hlogs]
    exact h.tracked

theorem respond_logs (call : ApiCall) (res : ApiResponse) (s : AppState) :
    (s.respond call res).logs = s.logs := by
  cases call <;> cases res <;> rfl

/-- An answer may change the status shown, but no line. -/
theorem deliver_view (i : ℕ) (d : Dashboard) :
    (d.deliver i).pm = d.pm ∧ (d.deliver i).conn = d.conn ∧ (d.deliver i).store.logs = d.store.logs := by
  rcases deliver_cases i d with ⟨heq, -⟩ | ⟨call, res, -, heq⟩ <;> rw [heq]
  · exact ⟨rfl, rfl, rfl⟩
  · exact ⟨rfl, rfl, respond_logs call res d.store⟩

theorem follows_step {d : Dashboard} (h : Follows d) (e : DashEvent) : Follows (d.step e) := by
  rcases step_view d e with hview | ⟨i, rfl⟩ | ⟨m, rfl⟩ | rfl | rfl | rfl
  · exact h.same hview.pm hview.conn hview.logs
  · obtain ⟨hpm, hconn, hlogs⟩ := deliver_view i d
    exact h.same hpm hconn hlogs
  · have hgrow := emitted_grows d.pm m
    exact ⟨step_inv numbered_move h.numbered m, h.shown, fun k hk => (h.tracked k hk).grow hgrow⟩
  · refine ⟨h.numbered, h.shown, fun k hk => ?_⟩
    obtain rfl := Option.some.inj hk
    exact subscribe_tracks h.numbered d.store.logs
  · exact ⟨h.numbered, h.shown, fun k hk => by cases hk⟩
  · exact follows_receive h

/-! ### The latest connect -/

/-- Only `connect` opens a connection, and nothing else touches its backlog or where it starts. -/
theorem conn_step {d : Dashboard} {e : DashEvent} (hconnect : e ≠ .connect) {k : Connection}
    (hk : (d.step e).conn = some k) :
    e ≠ .disconnect ∧ ∃ k', d.conn = some k' ∧ k.logs = k'.logs ∧ k.start = k'.start := by
  have hdisconnect : e ≠ .disconnect := by
    rintro rfl
    cases hk
  refine ⟨hdisconnect, ?_⟩
  rcases step_view d e with hview | ⟨i, rfl⟩ | ⟨m, rfl⟩ | rfl | rfl | rfl
  · exact ⟨k, hview.conn.symm.trans hk, rfl, rfl⟩
  · exact ⟨k, (deliver_view i d).2.1.symm.trans hk, rfl, rfl⟩
  · exact ⟨k, hk, rfl, rfl⟩
  · exact absurd rfl hconnect
  · exact absurd rfl hdisconnect
  · rw [Dashboard.step] at hk
    rcases receive_cases d with heq | ⟨k', hconn, ⟨-, heq⟩ | ⟨-, e, -, heq⟩⟩ <;> rw [heq] at hk
    · exact ⟨k, hk, rfl, rfl⟩
    · obtain rfl := Option.some.inj hk
      exact ⟨k', hconn, rfl, rfl⟩
    · obtain rfl := Option.some.inj hk
      exact ⟨k', hconn, rfl, rfl⟩

/-- An open connection goes back to the latest connect. -/
theorem latest_connect {d₀ : Dashboard} (h₀ : d₀.conn = none) (es : List DashEvent) {k : Connection}
    (hk : (exec Dashboard.step d₀ es).conn = some k) :
    ∃ before after, es = before ++ .connect :: after ∧
      (∀ e ∈ after, e ≠ .connect ∧ e ≠ .disconnect) ∧
      k.logs = lastN maxBacklog (exec Dashboard.step d₀ before).pm.allLogs ∧
      k.start = (exec Dashboard.step d₀ before).pm.emitted.length := by
  induction es using List.reverseRecOn generalizing k with
  | nil =>
    rw [exec_nil, h₀] at hk
    cases hk
  | append_singleton es e ih =>
    rw [exec_append, exec_cons, exec_nil] at hk
    by_cases hconnect : e = .connect
    · subst hconnect
      obtain rfl := Option.some.inj hk
      exact ⟨es, [], rfl, by simp, subscribe_logs _, subscribe_start _⟩
    · obtain ⟨hdisconnect, k', hk', hlogs, hstart⟩ := conn_step hconnect hk
      obtain ⟨before, after, rfl, hafter, hlogs', hstart'⟩ := ih hk'
      refine ⟨before, after ++ [e], by simp, ?_, hlogs.trans hlogs', hstart.trans hstart'⟩
      intro e' he'
      rcases List.mem_append.mp he' with hold | hnew
      · exact hafter e' hold
      · obtain rfl := List.mem_singleton.mp hnew
        exact ⟨hconnect, hdisconnect⟩

/-- The backlog of a connect in manager state `m`, and every line emitted since. -/
def streamSince (m : Manager) (emitted : List Emitted) : List LogLine :=
  lastN maxBacklog m.allLogs ++ linesOf (emitted.drop m.emitted.length)

/-- LOG STREAM: in every run the ids in the store increase; and a connected store that has received
    everything sent shows the last lines of what its latest connect began: the backlog of that moment
    and every line pushed since, without one twice. `pushLine` emits every line it keeps; that those are
    the lines of the processes' output, chunk by chunk, is `texts_exec`. -/
theorem log_stream (base : DashboardConfig) (presets : List Preset) (file : Option ConfigFile)
    (es : List DashEvent) :
    let d := exec Dashboard.step (.loaded base presets file) es
    Increasing d.store.logs ∧
      ∀ k, d.conn = some k → k.opened = true → k.next = d.pm.emitted.length →
        ∃ before after, es = before ++ .connect :: after ∧
          (∀ e ∈ after, e ≠ .connect ∧ e ≠ .disconnect) ∧
          let stream := streamSince (exec Dashboard.step (.loaded base presets file) before).pm d.pm.emitted
          Increasing stream ∧ d.store.logs = lastN maxLogs stream := by
  intro d
  have h : Follows d := exec_inv_free Follows (fun _ e h => follows_step h e)
    (loaded_follows base presets file) es
  refine ⟨h.shown, fun k hk hopen hall => ?_⟩
  obtain ⟨before, after, hes, hafter, hlogs, hstart⟩ := latest_connect rfl es hk
  have ht := h.tracked k hk
  have hstream : streamSince (exec Dashboard.step (.loaded base presets file) before).pm d.pm.emitted =
      k.logs ++ linesOf (d.pm.emitted.drop k.start) := by
    rw [streamSince, hlogs, hstart]
  refine ⟨before, after, hes, hafter, ?_⟩
  intro stream
  rw [show stream = _ from hstream]
  refine ⟨ht.increasing h.numbered.increasing, ?_⟩
  rw [ht.opened hopen, Connection.delivered, hall, List.take_length]

end DsparkEdge.Ui
