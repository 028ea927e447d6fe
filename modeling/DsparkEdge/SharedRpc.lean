import DsparkEdge.ServiceRefines

/-! One RPC among the others. A client blocks until its handler has replied, and meanwhile the handlers of other
    clients take their steps, on other sessions: a session id is known to the client that was given it. From the
    session a call is for, its handler goes through the stages of the call and nobody else is seen:

        call ─ looking ─ (located) ─ found ─ inside … inside ─ (unlocked ─ notified) ─ replied
             the session is as it was       on its way              what the call makes of it                -/

namespace DsparkEdge

open Runs

/-- The session an open RPC is for. -/
def Place.openOn : Place → Option ℕ
  | .call c => some c.sessionId
  | .looking c => some c.sessionId
  | .missing c => some c.sessionId
  | .located c => some c.sessionId
  | .found c => some c.sessionId
  | .inside c _ => some c.sessionId
  | .unlocked c _ => some c.sessionId
  | .notified c _ => some c.sessionId
  | _ => none

def Place.isIdle : Place → Bool
  | .idle => true
  | _ => false

theorem Place.isIdle_iff {p : Place} : p.isIdle = true ↔ p = .idle := by
  cases p <;> simp [Place.isIdle]

/-- An event that is not a call on session `sid`. -/
def ServiceEvent.OnOther (sid : ℕ) : ServiceEvent → Prop
  | .call _ c => c.sessionId ≠ sid
  | _ => True

instance (sid : ℕ) : DecidablePred (ServiceEvent.OnOther sid)
  | .call _ c => inferInstanceAs (Decidable (c.sessionId ≠ sid))
  | .initSession _ _ _ => inferInstanceAs (Decidable True)
  | .advance _ => inferInstanceAs (Decidable True)

/-! ### A step of somebody else -/

/-- Handler `j` made a step that session `sid` takes no part in; at most the session is created. -/
structure Apart (sid j : ℕ) (s s' : LockService) : Prop where
  session : s'.sessions sid = s.sessions sid ∨
    sid = s.nextSessionId ∧ s'.nextSessionId = sid + 1 ∧ ∃ cfg M, s'.sessions sid = some ⟨cfg, M, .fresh⟩
  places : ∀ k ≠ j, s'.places k = s.places k
  still : (s'.places j).openOn ≠ some sid
  ids : s.nextSessionId ≤ s'.nextSessionId

variable {sid i j : ℕ} {s s' : LockService} {p : Place} {c : SessionCall}

theorem Apart.refl (h : (s.places j).openOn ≠ some sid) : Apart sid j s s := ⟨Or.inl rfl, fun _ _ => rfl, h, le_rfl⟩

/-- The handler moved, and session `sid` is as it was. -/
theorem apart_of (hplaces : s'.places = Function.update s.places j p) (hp : p.openOn ≠ some sid)
    (hsession : s'.sessions sid = s.sessions sid) (hids : s.nextSessionId = s'.nextSessionId) : Apart sid j s s' where
  session := Or.inl hsession
  places := fun k hk => by rw [hplaces, Function.update_of_ne hk]
  still := by rwa [hplaces, Function.update_self]
  ids := hids.le

theorem apart_lockSessions (h : (s.places j).openOn ≠ some sid) (hp : p.openOn ≠ some sid) :
    Apart sid j s (s.lockSessions j p) := by
  rw [LockService.lockSessions]
  split
  · exact .refl h
  · exact apart_of rfl hp rfl rfl

/-- A handler whose call is for another session, or that has no call. -/
theorem advance_apart (h : (s.places j).openOn ≠ some sid) : Apart sid j s (s.advance j) := by
  have hstays : s.advance j = s → Apart sid j s (s.advance j) := fun heq => by
    rw [heq]
    exact .refl h
  cases hj : s.places j with
  | idle => exact hstays (by simp only [LockService.advance, hj])
  | init req made =>
    simp only [LockService.advance, hj]
    split
    · exact apart_of rfl (by simp [Place.openOn]) rfl rfl
    · cases made with
      | none => exact apart_of rfl (by simp [Place.openOn]) rfl rfl
      | some e => exact apart_lockSessions h (by simp [Place.openOn])
  | creating cfg M =>
    simp only [LockService.advance, hj]
    refine ⟨?_, fun k hk => Function.update_of_ne hk _ _, by simp [LockService.insert, LockService.goto, Place.openOn],
      Nat.le_succ _⟩
    rcases eq_or_ne sid s.nextSessionId with rfl | hne
    · exact Or.inr ⟨rfl, rfl, cfg, M, Function.update_self ..⟩
    · exact Or.inl (Function.update_of_ne hne _ _)
  | created res =>
    simp only [LockService.advance, hj]
    exact apart_of rfl (by simp [Place.openOn]) rfl rfl
  | initReplied res => exact hstays (by simp only [LockService.advance, hj])
  | call c =>
    rw [hj] at h
    simp only [LockService.advance, hj]
    exact apart_lockSessions (by rwa [hj]) h
  | looking c =>
    rw [hj] at h
    simp only [LockService.advance, hj, LockService.look]
    split
    · exact apart_of rfl h rfl rfl
    · refine apart_of rfl ?_ rfl rfl
      split <;> exact h
  | missing c =>
    simp only [LockService.advance, hj]
    exact apart_of rfl (by simp [Place.openOn]) rfl rfl
  | located c =>
    rw [hj] at h
    simp only [LockService.advance, hj]
    exact apart_of rfl h rfl rfl
  | found c =>
    rw [hj] at h
    simp only [LockService.advance, hj, LockService.lockSession]
    split
    · exact .refl (by rwa [hj])
    · exact apart_of rfl h rfl rfl
  | inside c st =>
    rw [hj] at h
    have hne : sid ≠ c.sessionId := fun heq => h (congrArg some heq.symm)
    cases st with
    | done reply =>
      simp only [LockService.advance, hj]
      refine apart_of rfl ?_ rfl rfl
      split
      · exact h
      · simp [Place.openOn]
    | _ =>
      simp only [LockService.advance, hj, LockService.work]
      split
      · exact .refl (by rwa [hj])
      · exact apart_of rfl h (Function.update_of_ne hne _ _) rfl
  | unlocked c reply =>
    rw [hj] at h
    simp only [LockService.advance, hj]
    exact apart_of rfl h rfl rfl
  | notified c reply =>
    simp only [LockService.advance, hj]
    exact apart_of rfl (by simp [Place.openOn]) rfl rfl
  | replied c reply => exact hstays (by simp only [LockService.advance, hj])

theorem step_apart {e : ServiceEvent} (he : e.OnOther sid) (h : (s.places (serviceHandler e)).openOn ≠ some sid) :
    Apart sid (serviceHandler e) s (s.step e) := by
  cases e with
  | initSession i req made =>
    rw [LockService.step]
    split
    · exact apart_of rfl (by simp [Place.openOn]) rfl rfl
    · exact .refl h
  | call i c =>
    rw [LockService.step]
    split
    · exact apart_of rfl (fun heq => he (Option.some.inj heq)) rfl rfl
    · exact .refl h
  | advance i => exact advance_apart h

/-! ### A session nobody has called on -/

/-- No RPC on session `sid` is open. -/
def LockService.Quiet (sid : ℕ) (s : LockService) : Prop := ∀ j, (s.places j).openOn ≠ some sid

/-- As long as nobody calls on a session it is new, from when it is there. -/
structure Untouched (sid : ℕ) (s : LockService) : Prop where
  quiet : s.Quiet sid
  session : ∀ slot, s.sessions sid = some slot → slot.session = .fresh ∧ sid < s.nextSessionId

theorem Apart.quiet (h : Apart sid j s s') (hs : s.Quiet sid) : s'.Quiet sid := by
  intro k
  rcases eq_or_ne k j with rfl | hne
  · exact h.still
  · rw [h.places k hne]
    exact hs k

theorem untouched_step (h : Untouched sid s) {e : ServiceEvent} (he : e.OnOther sid) : Untouched sid (s.step e) := by
  have hapart := step_apart he (h.quiet _)
  refine ⟨hapart.quiet h.quiet, fun slot hslot => ?_⟩
  rcases hapart.session with hsame | ⟨-, hids, cfg, M, hnew⟩
  · obtain ⟨hfresh, hlt⟩ := h.session slot (hsame ▸ hslot)
    exact ⟨hfresh, hlt.trans_le hapart.ids⟩
  · rw [hnew] at hslot
    cases hslot
    exact ⟨rfl, by omega⟩

theorem untouched_exec (h : Untouched sid s) {es : List ServiceEvent} (hothers : ∀ e ∈ es, e.OnOther sid) :
    Untouched sid (exec LockService.step s es) := by
  induction es generalizing s with
  | nil => exact h
  | cons e es ih =>
    exact ih (untouched_step h (hothers e List.mem_cons_self)) fun e' he' => hothers e' (List.mem_cons_of_mem e he')

/-- Session `sid` is there with the engine of `slot`, its session is `d`, and no RPC on it is open. -/
structure Calm (sid : ℕ) (slot : Slot) (d : Session) (s : LockService) : Prop where
  quiet : s.Quiet sid
  below : sid < s.nextSessionId
  session : s.sessions sid = some { slot with session := d }

theorem calm_reached {slot : Slot} {es : List ServiceEvent} (hothers : ∀ e ∈ es, e.OnOther sid)
    (hslot : (exec LockService.step .fresh es).sessions sid = some slot) :
    Calm sid slot .fresh (exec LockService.step .fresh es) := by
  have hfresh : Untouched sid .fresh := ⟨fun j => by simp [LockService.fresh, Place.openOn], fun slot hslot => by cases hslot⟩
  have huntouched := untouched_exec hfresh hothers
  obtain ⟨hnew, hlt⟩ := huntouched.session slot hslot
  refine ⟨huntouched.quiet, hlt, ?_⟩
  rw [hslot, ← hnew]

/-! ### The handler of the call -/

/-- Where the handler of call `c` can be, and the session meanwhile, if the call met it as `d`. -/
inductive Stands (slot : Slot) (d : Session) (c : SessionCall) : Place → Session → Prop
  | call : Stands slot d c (.call c) d
  | looking : Stands slot d c (.looking c) d
  | located : Stands slot d c (.located c) d
  | found : Stands slot d c (.found c) d
  | inside {st : Stage} {evs : List WatchEvent} {now : Session}
      (h : Finishes slot.cfg slot.model now st evs (slot.act d c).1 (slot.act d c).2) :
      Stands slot d c (.inside c st) now
  | unlocked : Stands slot d c (.unlocked c (slot.act d c).1) (slot.act d c).2
  | notified : Stands slot d c (.notified c (slot.act d c).1) (slot.act d c).2
  | replied : Stands slot d c (.replied c (slot.act d c).1) (slot.act d c).2

/-- Handler `i` is at call `c`, and nobody else on its session. -/
structure Serving (slot : Slot) (d : Session) (i : ℕ) (c : SessionCall) (s : LockService) : Prop where
  others : ∀ j ≠ i, (s.places j).openOn ≠ some c.sessionId
  below : c.sessionId < s.nextSessionId
  stands : ∃ now, s.sessions c.sessionId = some { slot with session := now } ∧ Stands slot d c (s.places i) now

variable {slot : Slot} {d now : Session}

/-- The handler goes on, the session is `now`. -/
theorem Serving.moved (h : Serving slot d i c s) (hplaces : s'.places = Function.update s.places i p)
    (hids : s'.nextSessionId = s.nextSessionId) (hsession : s'.sessions c.sessionId = some { slot with session := now })
    (hp : Stands slot d c p now) : Serving slot d i c s' where
  others := by
    intro j hj
    rw [hplaces, Function.update_of_ne hj]
    exact h.others j hj
  below := by
    rw [hids]
    exact h.below
  stands := ⟨now, hsession, by rwa [hplaces, Function.update_self]⟩

/-- A step of its own handler brings the call on. -/
theorem serving_advance (h : Serving slot d i c s) : Serving slot d i c (s.advance i) := by
  obtain ⟨now, hsession, hstands⟩ := h.stands
  generalize hi : s.places i = p at hstands
  cases hstands with
  | call =>
    simp only [LockService.advance, hi, LockService.lockSessions]
    split
    · exact h
    · exact h.moved rfl rfl hsession .looking
  | looking =>
    simp only [LockService.advance, hi, LockService.look, hsession]
    refine h.moved rfl rfl hsession ?_
    split
    · exact .found
    · exact .located
  | located =>
    simp only [LockService.advance, hi]
    exact h.moved rfl rfl hsession .found
  | found =>
    simp only [LockService.advance, hi, LockService.lockSession]
    split
    · exact h
    · exact h.moved rfl rfl hsession (.inside (finishes_start c _))
  | @inside st evs now hfinishes =>
    by_cases hdone : ∃ reply, st = .done reply
    · obtain ⟨reply, rfl⟩ := hdone
      obtain ⟨-, rfl, rfl⟩ := hfinishes.finished
      simp only [LockService.advance, hi]
      refine h.moved rfl rfl hsession ?_
      split
      · exact .unlocked
      · exact .replied
    · have hst := not_exists.mp hdone
      obtain ⟨evs', -, hnext⟩ := hfinishes.unfinished hst
      have hadvance : s.advance i = s.work i c st := by simp only [LockService.advance, hi]
      rw [hadvance, LockService.work, hsession]
      exact h.moved rfl rfl (Function.update_self ..) (.inside hnext)
  | unlocked =>
    simp only [LockService.advance, hi]
    exact h.moved rfl rfl hsession .notified
  | notified =>
    simp only [LockService.advance, hi]
    exact h.moved rfl rfl hsession .replied
  | replied =>
    simp only [LockService.advance, hi]
    exact h

/-- A step of anybody: the others do not touch the session. -/
theorem serving_step (h : Serving slot d i c s) {e : ServiceEvent} (he : e.OnOther c.sessionId) :
    Serving slot d i c (s.step e) := by
  rcases eq_or_ne (serviceHandler e) i with hown | hne
  · have hbusy : s.places i ≠ .idle := by
      obtain ⟨now, -, hstands⟩ := h.stands
      intro hidle
      rw [hidle] at hstands
      cases hstands
    cases e with
    | initSession j req made =>
      cases hown
      rw [LockService.step]
      split
      case h_1 hidle => exact absurd hidle hbusy
      case h_2 => exact h
    | call j c' =>
      cases hown
      rw [LockService.step]
      split
      case h_1 hidle => exact absurd hidle hbusy
      case h_2 => exact h
    | advance j =>
      cases hown
      exact serving_advance h
  · have hapart := step_apart he (h.others _ hne)
    obtain ⟨now, hsession, hstands⟩ := h.stands
    refine ⟨fun j hj => ?_, h.below.trans_le hapart.ids, now, ?_, by rwa [hapart.places i hne.symm]⟩
    · rcases eq_or_ne j (serviceHandler e) with rfl | hje
      · exact hapart.still
      · rw [hapart.places j hje]
        exact h.others j hj
    · rcases hapart.session with hsame | ⟨hnew, -⟩
      · rw [hsame]
        exact hsession
      · exact absurd hnew h.below.ne

theorem serving_exec (h : Serving slot d i c s) {es : List ServiceEvent} (hothers : ∀ e ∈ es, e.OnOther c.sessionId) :
    Serving slot d i c (exec LockService.step s es) := by
  induction es generalizing s with
  | nil => exact h
  | cons e es ih =>
    exact ih (serving_step h (hothers e List.mem_cons_self)) fun e' he' => hothers e' (List.mem_cons_of_mem e he')

/-- A handler that got to its end has replied, and left what the call makes of the session. -/
theorem Serving.replied (h : Serving slot d i c s) (hdone : (s.places i).pending = false) :
    s.places i = .replied c (slot.act d c).1 ∧
      s.sessions c.sessionId = some { slot with session := (slot.act d c).2 } := by
  obtain ⟨now, hsession, hstands⟩ := h.stands
  generalize s.places i = p at hstands hdone ⊢
  cases hstands with
  | replied => exact ⟨rfl, hsession⟩
  | _ => cases hdone

/-! ### The RPC -/

/-- How an RPC goes: the handler that takes it, and the steps of all handlers until the client reads the reply. -/
structure Slice where
  handler : ℕ
  steps : List ServiceEvent

def LockService.rpc (sl : Slice) (c : SessionCall) (s : LockService) : LockService :=
  exec LockService.step (s.step (.call sl.handler c)) sl.steps

/-- The RPC comes to a free handler, which gets to its end; meanwhile the other clients call on other sessions. -/
structure Answered (sl : Slice) (c : SessionCall) (s : LockService) : Prop where
  free : (s.places sl.handler).isIdle = true
  others : ∀ e ∈ sl.steps, e.OnOther c.sessionId
  done : ((s.rpc sl c).places sl.handler).pending = false

instance (sl : Slice) (c : SessionCall) (s : LockService) : Decidable (Answered sl c s) :=
  decidable_of_iff ((s.places sl.handler).isIdle = true ∧ (∀ e ∈ sl.steps, e.OnOther c.sessionId) ∧
    ((s.rpc sl c).places sl.handler).pending = false)
    ⟨fun ⟨hfree, hothers, hdone⟩ => ⟨hfree, hothers, hdone⟩, fun ⟨hfree, hothers, hdone⟩ => ⟨hfree, hothers, hdone⟩⟩

theorem serving_call (h : Calm c.sessionId slot d s) (hi : (s.places i).isIdle = true) :
    Serving slot d i c (s.step (.call i c)) := by
  have hstep : s.step (.call i c) = s.goto i (.call c) := by simp [LockService.step, Place.isIdle_iff.mp hi]
  rw [hstep]
  refine ⟨fun j hj => ?_, h.below, d, h.session, ?_⟩
  · simpa [LockService.goto, hj] using h.quiet j
  · simpa [LockService.goto] using Stands.call

/-- AN RPC AMONG OTHERS: its reply, and what becomes of its session, are those of the call on a session that is
    alone. -/
theorem rpc_served (h : Calm c.sessionId slot d s) {sl : Slice} (ha : Answered sl c s) :
    (s.rpc sl c).places sl.handler = .replied c (slot.act d c).1 ∧
      Calm c.sessionId slot (slot.act d c).2 (s.rpc sl c) := by
  have hserving : Serving slot d sl.handler c (s.rpc sl c) := serving_exec (serving_call h ha.free) ha.others
  obtain ⟨hreply, hsession⟩ := hserving.replied ha.done
  refine ⟨hreply, fun j => ?_, hserving.below, hsession⟩
  rcases eq_or_ne j sl.handler with rfl | hne
  · rw [hreply]
    simp [Place.openOn]
  · exact hserving.others j hne

theorem exec_advances (s : LockService) (sched : List ℕ) :
    exec LockService.step s (sched.map .advance) = exec LockService.advance s sched := by
  rw [exec, exec, List.foldl_map]
  rfl

/-- Whatever the other handlers are at, an RPC at a free handler can be answered without any new one. -/
theorem exists_answered {es : List ServiceEvent} (c : SessionCall)
    (hi : ((exec LockService.step .fresh es).places i).isIdle = true) :
    ∃ sl, sl.handler = i ∧ Answered sl c (exec LockService.step .fresh es) := by
  obtain ⟨n, hbelow⟩ := exists_below (es ++ [.call i c])
  obtain ⟨sched, hsched, hend⟩ := (lowers n).exhausts hbelow
  refine ⟨⟨i, sched.map .advance⟩, rfl, hi, fun e he => ?_, ?_⟩
  · obtain ⟨j, -, rfl⟩ := List.mem_map.mp he
    trivial
  · have hdone := answered_of_disabled ((lowers n).inv hbelow hsched).held hend i
    rwa [exec_append, exec_cons, exec_nil, ← exec_advances] at hdone

end DsparkEdge
