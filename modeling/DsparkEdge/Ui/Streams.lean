import DsparkEdge.Ui.LogsRoute
import DsparkEdge.Ui.StatusSync

/-! What the route sends and what the store hears are the same stream. `LogsRoute` keeps the listeners, the intervals
    and the frames of every connection; `Dashboard` has one connection and reads what was emitted since it was opened.

        emitted:   e₁ e₂ e₃ │ e₄ e₅ e₆ …
        frames:             backlog e₄ ping e₅ ✗          a prefix, pings between; after a failure nothing
        receive:            backlog e₄      e₅ e₆ …

    No frame is sent twice or left out before the last one, at the seam of backlog and subscription either. -/

namespace DsparkEdge.Ui

open Runs

/-! ### Frames -/

/-- What the listeners of a connection send. -/
def Emitted.frame : Emitted → Frame
  | .log line => .log line
  | .status st => .status st

/-- The browser has no listener for comments. -/
def heard (sent : List Frame) : List Frame := sent.filter fun frame => frame ≠ .ping

/-- All that a connection has to say, by now. -/
def Connection.frames (k : Connection) (emitted : List Emitted) : List Frame :=
  .backlog k.logs k.status :: (emitted.drop k.start).map Emitted.frame

/-- The listeners of `live-sync.tsx`. -/
def AppState.take (s : AppState) : Frame → AppState
  | .backlog logs status => s.setBacklog logs status
  | .log line => s.appendLog line
  | .status st => s.setStatus st
  | .ping => s

/-- What an event makes the manager emit. -/
def LogsRoute.emits (s : LogsRoute) : LogsEvent → Option Emitted
  | .log id stream raw _ => some (.log ⟨s.manager.logSeq + 1, id, stream, raw⟩)
  | .status id patch _ => some (.status ((s.manager.status id).patch patch))
  | _ => none

@[simp] theorem heard_append (xs ys : List Frame) : heard (xs ++ ys) = heard xs ++ heard ys := List.filter_append ..

@[simp] theorem take_frame (s : AppState) (e : Emitted) : s.take e.frame = s.hear e := by
  cases e <;> rfl

theorem frames_append {k : Connection} {emitted : List Emitted} (h : k.start ≤ emitted.length) (more : List Emitted) :
    k.frames (emitted ++ more) = k.frames emitted ++ more.map Emitted.frame := by
  rw [Connection.frames, List.drop_append_of_le_length h, List.map_append]
  rfl

/-- A comment changes nothing. -/
theorem take_heard (sent : List Frame) (s : AppState) :
    sent.foldl AppState.take s = (heard sent).foldl AppState.take s := by
  induction sent generalizing s with
  | nil => rfl
  | cons frame sent ih =>
    cases frame with
    | ping => exact ih s
    | _ => rw [List.foldl_cons, ih, heard, heard, List.filter_cons_of_pos (by simp), List.foldl_cons]

variable {i : ℕ} {k : Connection} {c : LogsConn} {s : LogsRoute}

/-! ### The route -/

theorem step_emitted (s : LogsRoute) (e : LogsEvent) :
    (s.step e).manager.emitted = s.manager.emitted ++ (s.emits e).toList := by
  have hcleanup (j : ℕ) : (s.cleanup j).manager = s.manager := by
    rw [LogsRoute.cleanup]
    split
    · rfl
    · split <;> rfl
  cases e with
  | get ok => exact (List.append_nil _).symm
  | log id stream raw ok => rfl
  | status id patch ok => rfl
  | dropLogs id => exact (List.append_nil _).symm
  | heartbeat j ok =>
    rw [LogsRoute.step, LogsRoute.heartbeat]
    split <;> exact (List.append_nil _).symm
  | abort j => simp [LogsRoute.step, hcleanup, LogsRoute.emits]
  | cancel j => simp [LogsRoute.step, hcleanup, LogsRoute.emits]

/-- A registered connection is offered what is emitted, or a comment when nothing is. -/
theorem offered_cases (h : Registered i 1 c s) (e : LogsEvent) :
    s.offered i e = none ∧ s.emits e = none ∨
      ∃ frame ok, s.offered i e = some (frame, ok) ∧ heard [frame] = (s.emits e).toList.map Emitted.frame := by
  cases e with
  | get ok =>
    have hlt : i < s.conns.length := (List.getElem?_eq_some_iff.mp h.conn).1
    exact Or.inl ⟨if_neg (Nat.ne_of_gt hlt), rfl⟩
  | log id stream raw ok =>
    have hmem : i ∈ s.logListeners := List.count_pos_iff.mp (by rw [h.log]; exact Nat.one_pos)
    exact Or.inr ⟨_, ok i, if_pos hmem, rfl⟩
  | status id patch ok =>
    have hmem : i ∈ s.statusListeners := List.count_pos_iff.mp (by rw [h.status]; exact Nat.one_pos)
    exact Or.inr ⟨_, ok i, if_pos hmem, rfl⟩
  | heartbeat j ok =>
    by_cases hj : j = i ∧ i ∈ s.heartbeats
    · exact Or.inr ⟨_, ok, if_pos hj, rfl⟩
    · exact Or.inl ⟨if_neg hj, rfl⟩
  | dropLogs id => exact Or.inl ⟨rfl, rfl⟩
  | abort j => exact Or.inl ⟨rfl, rfl⟩
  | cancel j => exact Or.inl ⟨rfl, rfl⟩

/-- Connection `i` has been sent the stream of `k`, all of it while it is open. -/
structure Streams (i : ℕ) (k : Connection) (s : LogsRoute) : Prop where
  start : k.start ≤ s.manager.emitted.length
  conn : ∃ c n, Registered i n c s ∧ n ≤ 1 ∧ heard c.sent <+: k.frames s.manager.emitted ∧
    (c.closed = false → n = 1 ∧ heard c.sent = k.frames s.manager.emitted)

/-- A connection that is closed is sent nothing, and the stream goes on without it. -/
theorem streams_closed (hstart : k.start ≤ s.manager.emitted.length) {n : ℕ} (hreg : Registered i n c s) (hn : n ≤ 1)
    (hc : c.closed = true) (hsent : heard c.sent <+: k.frames s.manager.emitted) : Streams i k s :=
  ⟨hstart, c, n, hreg, hn, hsent, fun hopen => absurd hopen (by simp [hc])⟩

/-- An open one is sent what is offered, or closes. -/
theorem streams_offered {e : LogsEvent} (hstart : k.start ≤ (s.step e).manager.emitted.length)
    (hreg : Registered i 1 (c.receive (s.offered i e)) (s.step e)) (hc : c.closed = false)
    (hsent : heard c.sent = k.frames s.manager.emitted)
    (hgrows : k.frames (s.step e).manager.emitted =
      k.frames s.manager.emitted ++ (s.emits e).toList.map Emitted.frame)
    (hoffer : s.offered i e = none ∧ s.emits e = none ∨
      ∃ frame ok, s.offered i e = some (frame, ok) ∧ heard [frame] = (s.emits e).toList.map Emitted.frame) :
    Streams i k (s.step e) := by
  rcases hoffer with ⟨hoffer, hemits⟩ | ⟨frame, ok, hoffer, hemits⟩ <;> rw [hoffer] at hreg
  · have heq : heard c.sent = k.frames (s.step e).manager.emitted := by
      rw [hgrows, hemits, hsent]
      exact (List.append_nil _).symm
    exact ⟨hstart, c, 1, hreg, Nat.le_refl 1, heq ▸ List.prefix_refl _, fun _ => ⟨rfl, heq⟩⟩
  · cases ok with
    | false =>
      have hclosed : c.receive (some (frame, false)) = { c with closed := true } := by
        simp [LogsConn.receive, LogsConn.send, hc]
      rw [hclosed] at hreg
      refine streams_closed hstart hreg (Nat.le_refl 1) rfl ?_
      rw [hgrows, ← hsent]
      exact List.prefix_append _ _
    | true =>
      have hsend : c.receive (some (frame, true)) = { c with sent := c.sent ++ [frame] } := by
        simp [LogsConn.receive, LogsConn.send, hc]
      rw [hsend] at hreg
      have heq : heard (c.sent ++ [frame]) = k.frames (s.step e).manager.emitted := by
        rw [hgrows, heard_append, hsent, hemits]
      exact ⟨hstart, _, 1, hreg, Nat.le_refl 1, heq ▸ List.prefix_refl _, fun _ => ⟨rfl, heq⟩⟩

theorem streams_step (h : Streams i k s) (e : LogsEvent) : Streams i k (s.step e) := by
  obtain ⟨c, n, hreg, hn, hsent, hopen⟩ := h.conn
  have hstart : k.start ≤ (s.step e).manager.emitted.length := by
    rw [step_emitted, List.length_append]
    exact Nat.le_add_right_of_le h.start
  have hgrows : k.frames (s.step e).manager.emitted =
      k.frames s.manager.emitted ++ (s.emits e).toList.map Emitted.frame := by
    rw [step_emitted, frames_append h.start]
  have hprefix : heard c.sent <+: k.frames (s.step e).manager.emitted := by
    rw [hgrows]
    exact hsent.trans (List.prefix_append _ _)
  cases hc : c.closed with
  | true => exact streams_closed hstart (registered_closed hreg hn hc e) hn hc hprefix
  | false =>
    obtain ⟨rfl, hall⟩ := hopen hc
    by_cases he : e.Ends i
    · exact streams_closed hstart (registered_end hreg hc he) (Nat.zero_le 1) rfl hprefix
    · exact streams_offered hstart (registered_step hreg (Nat.le_refl 1) he) hc hall hgrows (offered_cases hreg e)

/-- A connection that is opened is sent the backlog of that moment first. -/
theorem streams_opened (h : Unopened i s) {e : LogsEvent} (hopen : ¬Unopened i (s.step e)) :
    (∃ ok, e = .get ok) ∧ s.conns.length = i ∧ Streams i s.manager.subscribe (s.step e) := by
  rcases unopened_step h e with ⟨-, hun⟩ | ⟨frame, ok, hoffer, hreg⟩
  · exact absurd hun hopen
  · have hget : e = .get ok ∧ s.conns.length = i ∧
        frame = .backlog s.manager.subscribe.logs s.manager.subscribe.status := by
      cases e with
      | get ok' =>
        simp only [LogsRoute.offered] at hoffer
        split at hoffer
        · rename_i hi
          cases hoffer
          exact ⟨rfl, hi, by rw [subscribe_logs, subscribe_status]⟩
        · cases hoffer
      | log id stream raw ok' => exact absurd hoffer (by simp [LogsRoute.offered, h.log])
      | status id patch ok' => exact absurd hoffer (by simp [LogsRoute.offered, h.status])
      | heartbeat j ok' => exact absurd hoffer (by simp [LogsRoute.offered, h.heartbeat])
      | _ => cases hoffer
    obtain ⟨rfl, hi, rfl⟩ := hget
    have hemitted : (s.step (.get ok)).manager.emitted = s.manager.emitted := rfl
    have hframes : s.manager.subscribe.frames s.manager.emitted =
        [.backlog s.manager.subscribe.logs s.manager.subscribe.status] := by
      rw [Connection.frames, subscribe_start, List.drop_length]
      rfl
    have hstart : s.manager.subscribe.start ≤ (s.step (.get ok)).manager.emitted.length :=
      Nat.le_of_eq (subscribe_start s.manager)
    refine ⟨⟨ok, rfl⟩, hi, ?_⟩
    cases ok with
    | false => exact streams_closed hstart hreg (Nat.le_refl 1) rfl (List.nil_prefix)
    | true =>
      refine ⟨hstart, _, 1, hreg, Nat.le_refl 1, ?_, fun _ => ⟨rfl, ?_⟩⟩ <;> rw [hemitted, hframes]
      · exact List.prefix_refl _
      · rfl

/-- Every connection has been sent the stream it was opened with. -/
theorem streams_exec (i : ℕ) (es : List LogsEvent) :
    Unopened i (exec LogsRoute.step .fresh es) ∨ ∃ before ok after, es = before ++ .get ok :: after ∧
      (exec LogsRoute.step .fresh before).conns.length = i ∧
      Streams i (exec LogsRoute.step .fresh before).manager.subscribe (exec LogsRoute.step .fresh es) := by
  induction es using List.reverseRecOn with
  | nil => exact Or.inl (unopened_fresh i)
  | append_singleton es e ih =>
    rw [exec_append, exec_cons, exec_nil]
    rcases ih with hun | ⟨before, ok, after, rfl, hlen, hstreams⟩
    · by_cases hopen : Unopened i ((exec LogsRoute.step .fresh es).step e)
      · exact Or.inl hopen
      · obtain ⟨⟨ok, rfl⟩, hlen, hstreams⟩ := streams_opened hun hopen
        exact Or.inr ⟨es, ok, [], rfl, hlen, hstreams⟩
    · exact Or.inr ⟨before, ok, after ++ [e], by simp, hlen, streams_step hstreams e⟩

/-! ### The store -/

variable {d : Dashboard}

/-- Behind the backlog a store receives what was emitted, one at a time. -/
theorem receive_emitted (hk : d.conn = some k) (hopen : k.opened = true) {n : ℕ}
    (hn : n ≤ (d.pm.emitted.drop k.next).length) :
    exec Dashboard.step d (List.replicate n .receive) =
      { d with
        store := ((d.pm.emitted.drop k.next).take n).foldl (fun s e => s.hear e) d.store
        conn := some { k with next := k.next + n } } := by
  induction n generalizing d k with
  | zero =>
    rw [List.replicate_zero, exec_nil, List.take_zero, List.foldl_nil, Nat.add_zero, ← hk]
  | succ n ih =>
    rw [List.length_drop] at hn
    have hlt : k.next < d.pm.emitted.length := by omega
    have hstep : d.step .receive =
        { d with store := d.store.hear d.pm.emitted[k.next], conn := some { k with next := k.next + 1 } } := by
      simp [Dashboard.step, Dashboard.receive, hk, hopen, hlt]
    rw [List.replicate_succ, exec_cons, hstep, List.drop_eq_getElem_cons hlt, List.take_succ_cons, List.foldl_cons]
    have hnext := @ih { k with next := k.next + 1 }
      { d with store := d.store.hear d.pm.emitted[k.next], conn := some { k with next := k.next + 1 } } rfl hopen
      (by simp; omega)
    rw [hnext]
    simp [Nat.add_assoc, Nat.add_comm 1 n]

/-- A store that has received `n` messages shows what the first `n` frames make of it. -/
theorem receive_frames (hk : d.conn = some k) (hclosed : k.opened = false) (hnext : k.next = k.start)
    (hstart : k.start ≤ d.pm.emitted.length) {n : ℕ} (hn : n ≤ (k.frames d.pm.emitted).length) :
    (exec Dashboard.step d (List.replicate n .receive)).store =
        ((k.frames d.pm.emitted).take n).foldl AppState.take d.store ∧
      (n = (k.frames d.pm.emitted).length → (exec Dashboard.step d (List.replicate n .receive)).Drained) := by
  cases n with
  | zero => exact ⟨rfl, fun h => by cases h⟩
  | succ n =>
    have hfirst : d.step .receive =
        { d with store := d.store.setBacklog k.logs k.status, conn := some { k with opened := true } } := by
      simp [Dashboard.step, Dashboard.receive, hk, hclosed]
    have hlen : n ≤ (d.pm.emitted.drop k.next).length := by
      simpa [Connection.frames, hnext] using hn
    have hrest := @receive_emitted { k with opened := true }
      { d with store := d.store.setBacklog k.logs k.status, conn := some { k with opened := true } } rfl rfl n hlen
    rw [List.replicate_succ, exec_cons, hfirst, hrest]
    refine ⟨?_, fun hall => ⟨_, rfl, rfl, ?_⟩⟩
    · rw [Connection.frames, List.take_succ_cons, List.foldl_cons, ← List.map_take, List.foldl_map, hnext]
      simp only [take_frame]
      rfl
    · simp only [Connection.frames, List.length_cons, List.length_map, List.length_drop] at hall
      simp only [hnext]
      omega

/-- THE STREAM: whatever the other connections and the intervals do, and whichever enqueues fail, the frames of a
    connection, comments left out, are the first ones of its backlog and of what is emitted from its `GET` on, each
    once and in order; a store that hears them is the store of the dashboard that received as many messages; and
    while the connection is open there is nothing more to receive. -/
theorem route_streams (i : ℕ) (es : List LogsEvent) {sent : List Frame}
    (hsent : (exec LogsRoute.step .fresh es).sentTo i = some sent) :
    ∃ before ok after, es = before ++ .get ok :: after ∧ (exec LogsRoute.step .fresh before).conns.length = i ∧
      let s := exec LogsRoute.step .fresh es
      let k := (exec LogsRoute.step .fresh before).manager.subscribe
      heard sent <+: k.frames s.manager.emitted ∧
        ∀ d : Dashboard, d.pm = s.manager → d.conn = some k →
          let d' := exec Dashboard.step d (List.replicate (heard sent).length .receive)
          d'.store = sent.foldl AppState.take d.store ∧ (Open i s → d'.Drained) := by
  rcases streams_exec i es with hun | ⟨before, ok, after, hes, hlen, hstreams⟩
  · rw [LogsRoute.sentTo, List.getElem?_eq_none hun.beyond] at hsent
    cases hsent
  · obtain ⟨c, n, hreg, -, hprefix, hopen⟩ := hstreams.conn
    rw [hreg.sentTo] at hsent
    obtain rfl := Option.some.inj hsent
    refine ⟨before, ok, after, hes, hlen, hprefix, fun d hpm hconn => ?_⟩
    have hstart := hstreams.start
    rw [← hpm] at hprefix hopen hstart
    obtain ⟨hstore, hdrained⟩ := receive_frames hconn (subscribe_opened _)
      ((subscribe_next _).trans (subscribe_start _).symm) hstart hprefix.length_le
    refine ⟨?_, fun hstill => hdrained ?_⟩
    · have htake := List.prefix_iff_eq_take.mp hprefix
      exact hstore.trans ((congrArg (List.foldl AppState.take d.store) htake.symm).trans (take_heard _ _).symm)
    · obtain ⟨c', hreg', hc'⟩ := hstill
      obtain rfl := Option.some.inj (hreg.conn.symm.trans hreg'.conn)
      rw [(hopen hc').2]

/-- A line, a comment and a status on the second of two connections; the status is lost. -/
def twoConnections : List LogsEvent :=
  [.get true, .log .server .stdout "old" fun _ => true, .get true, .log .server .stdout "new" fun _ => true,
    .heartbeat 1 true, .status .daemon {} fun i => i = 0]

theorem route_streams_second :
    ∃ before, (exec LogsRoute.step .fresh before).conns.length = 1 ∧
      [.backlog [⟨1, .server, .stdout, "old"⟩] ⟨emptyStatus .server, emptyStatus .daemon⟩,
        .log ⟨2, .server, .stdout, "new"⟩] <+:
          (exec LogsRoute.step .fresh before).manager.subscribe.frames
            (exec LogsRoute.step .fresh twoConnections).manager.emitted := by
  have hsent : (exec LogsRoute.step .fresh twoConnections).sentTo 1 =
      some [.backlog [⟨1, .server, .stdout, "old"⟩] ⟨emptyStatus .server, emptyStatus .daemon⟩,
        .log ⟨2, .server, .stdout, "new"⟩, .ping] := by decide +kernel
  obtain ⟨before, ok, after, -, hlen, hprefix, -⟩ := route_streams 1 twoConnections hsent
  exact ⟨before, hlen, hprefix⟩

end DsparkEdge.Ui
