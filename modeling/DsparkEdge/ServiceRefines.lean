import DsparkEdge.ServiceHeld

/-! The handlers at the grain of their mutexes against the handlers whose critical sections are single steps
    (`Sessions`). A section happens where its mutex is taken: the lookup at the read of the map, the whole
    call at the lock of its session, whose engine is then on its way to what the call makes of it.

        mutexes   call ─ looking ─ found ─ inside … inside ─ replied
        sections  call ───────── found ─── replied                                              -/

namespace DsparkEdge

open Locks Runs

/-- The handler of a call that took its session's lock. -/
def SessionCall.resting (reply : SessionReply) (c : SessionCall) : Handler :=
  if c.isReset then .resetDone c reply else .replied c reply

/-- What a handler's place is in the atomic service. -/
def Place.Matches : Place → Handler → Prop
  | .idle, h => h = .idle
  | .init req made, h => h = .init req made
  | .creating cfg M, h => ∃ req, req.targetModelId.isEmpty = false ∧ h = .init req (some (cfg, M))
  | .created res, h => h = .initReplied res
  | .initReplied res, h => h = .initReplied res
  | .call c, h => h = .call c
  | .looking c, h => h = .call c
  | .missing c, h => h = .replied c c.notFound
  | .located c, h => h = .found c
  | .found c, h => h = .found c
  | .inside c _, h => ∃ reply, h = c.resting reply
  | .unlocked c reply, h => h = .resetDone c reply
  | .notified c reply, h => h = .resetDone c reply
  | .replied c reply, h => h = .replied c reply

/-- A Reset keeps `sessions_mtx_` from its lookup on. -/
def Place.keepsMap : Place → Bool
  | .found c => c.isReset
  | .inside c _ => c.isReset
  | .unlocked _ _ => true
  | .notified _ _ => true
  | _ => false

def isResetEvent : WatchEvent → Bool
  | .reset => true
  | _ => false

/-- The events that came out of the calls on session `sid`, in the order of the queue. -/
def queuedOf (sid : ℕ) (queue : List (ℕ × WatchEvent)) : List WatchEvent :=
  (queue.filter fun e => e.1 = sid && !isResetEvent e.2).map Prod.snd

/-- One call on a session that is all alone, as the renderer sees it. -/
def Slot.watch (slot : Slot) (s : Session) (c : SessionCall) : List WatchEvent × Session :=
  (c.watched slot.cfg slot.model s, (slot.act s c).2)

/-- What the calls `cs` on a new session queue. -/
def Slot.watchedOf (slot : Slot) (cs : List SessionCall) : List WatchEvent :=
  (answers slot.watch .fresh cs).flatten

/-- Session `sid` is on its way to `s'`, with `evs` still to be queued. -/
structure Tracks (c : LockService) (a : Service) (sid : ℕ) (slot : Slot) (s' : Session)
    (evs : List WatchEvent) : Prop where
  session : a.sessions sid = some { slot with session := s' }
  queue : queuedOf sid c.queue ++ evs = slot.watchedOf (callsOf sid a.log)
  free : c.mtx sid = none → s' = slot.session ∧ evs = []
  busy : ∀ i, c.mtx sid = some i → ∃ call st reply, c.places i = .inside call st ∧ call.sessionId = sid ∧
    a.handlers i = call.resting reply ∧ Finishes slot.cfg slot.model slot.session st evs reply s'

structure Refines (c : LockService) (a : Service) : Prop where
  held : Held c
  consistent : Consistent a
  ids : a.nextSessionId = c.nextSessionId
  holder : ∀ i, a.holder = some i → (c.places i).keepsMap = true
  handlers : ∀ i, (c.places i).Matches (a.handlers i)
  absent : ∀ sid, c.sessions sid = none → a.sessions sid = none ∧ queuedOf sid c.queue = []
  present : ∀ sid slot, c.sessions sid = some slot → ∃ s' evs, Tracks c a sid slot s' evs

variable {c c' : LockService} {a a' : Service} {i : ℕ} {p : Place}

theorem holdsMap_of_keepsMap (h : p.keepsMap = true) : p.holdsMap = true := by
  cases p <;> first | exact h | rfl

/-- While a handler looks something up, no Reset is at work. -/
theorem Refines.holder_none (h : Refines c a) (hmap : (c.places i).holdsMap = true)
    (hkeeps : (c.places i).keepsMap = false) : a.holder = none := by
  rw [Option.eq_none_iff_forall_ne_some]
  intro j hj
  have hk := h.holder j hj
  have hown := (h.held.map j).mpr (holdsMap_of_keepsMap hk)
  rw [(h.held.map i).mpr hmap] at hown
  cases hown
  rw [hkeeps] at hk
  cases hk

/-- Nothing that a session's track is about has changed. -/
theorem Tracks.frame {sid : ℕ} {slot : Slot} {s' : Session} {evs : List WatchEvent}
    (h : Tracks c a sid slot s' evs) (hmtx : c'.mtx sid = c.mtx sid)
    (hplaces : ∀ j, c.mtx sid = some j → c'.places j = c.places j ∧ a'.handlers j = a.handlers j)
    (hqueue : queuedOf sid c'.queue = queuedOf sid c.queue) (hsession : a'.sessions sid = a.sessions sid)
    (hlog : callsOf sid a'.log = callsOf sid a.log) : Tracks c' a' sid slot s' evs where
  session := by rw [hsession]; exact h.session
  queue := by rw [hqueue, hlog]; exact h.queue
  free := by rw [hmtx]; exact h.free
  busy := by
    intro i hi
    rw [hmtx] at hi
    obtain ⟨hplace, hhandler⟩ := hplaces i hi
    rw [hplace, hhandler]
    exact h.busy i hi

/-- What a move of one handler leaves alone in the service with mutexes. -/
structure Keeps (c c' : LockService) : Prop where
  sessions : c'.sessions = c.sessions
  mtx : c'.mtx = c.mtx
  queue : ∀ sid, queuedOf sid c'.queue = queuedOf sid c.queue
  ids : c'.nextSessionId = c.nextSessionId

/-- Handler `i` moved in the atomic service too, or stayed. -/
structure Follows (i : ℕ) (new : Handler) (a a' : Service) : Prop where
  handlers : a'.handlers = Function.update a.handlers i new
  sessions : a'.sessions = a.sessions
  log : a'.log = a.log
  ids : a'.nextSessionId = a.nextSessionId
  consistent : Consistent a'

/-- A move of a handler outside every session. -/
theorem Refines.move (h : Refines c a) {new : Handler} (hm : Moved i p c c') (hkeeps : Keeps c c')
    (hfollows : Follows i new a a') (hnone : (c.places i).session = none) (hmatch : p.Matches new)
    (hholder : ∀ j, a'.holder = some j → (Function.update c.places i p j).keepsMap = true) : Refines c' a' where
  held := h.held.moved hm
  consistent := hfollows.consistent
  ids := by rw [hfollows.ids, hkeeps.ids]; exact h.ids
  holder := by rw [hm.places]; exact hholder
  handlers := by
    intro j
    rw [hm.places, hfollows.handlers]
    rcases eq_or_ne j i with rfl | hne
    · simpa using hmatch
    · simpa [hne] using h.handlers j
  absent := by
    intro sid hsid
    rw [hkeeps.sessions] at hsid
    rw [hfollows.sessions, hkeeps.queue]
    exact h.absent sid hsid
  present := by
    intro sid slot hslot
    rw [hkeeps.sessions] at hslot
    obtain ⟨s', evs, htracks⟩ := h.present sid slot hslot
    refine ⟨s', evs, htracks.frame (by rw [hkeeps.mtx]) (fun j hj => ?_) (hkeeps.queue sid)
      (by rw [hfollows.sessions]) (by rw [hfollows.log])⟩
    have hne : j ≠ i := by
      rintro rfl
      rw [h.held.session j sid, hnone] at hj
      cases hj
    rw [hm.places, hfollows.handlers]
    exact ⟨Function.update_of_ne hne _ _, Function.update_of_ne hne _ _⟩

/-- A step before or behind a section is no step of the atomic service. -/
theorem Refines.stutter (h : Refines c a) (hm : Moved i p c c') (hkeeps : Keeps c c')
    (hnone : (c.places i).session = none) (hmatch : p.Matches (a.handlers i))
    (hmap : p.keepsMap = (c.places i).keepsMap) : Refines c' a := by
  have hfollows : Follows i (a.handlers i) a a :=
    ⟨(Function.update_eq_self i a.handlers).symm, rfl, rfl, rfl, h.consistent⟩
  refine h.move hm hkeeps hfollows hnone hmatch fun j hj => ?_
  rcases eq_or_ne j i with rfl | hne
  · rw [Function.update_self, hmap]
    exact h.holder j hj
  · rw [Function.update_of_ne hne]
    exact h.holder j hj

/-! ### The sections -/

theorem Finishes.unfinished {cfg : ModelConfig} {M : DraftModel} {s s' : Session} {st : Stage}
    {evs : List WatchEvent} {reply : SessionReply} (h : Finishes cfg M s st evs reply s')
    (hst : ∀ reply, st ≠ .done reply) : ∃ evs', evs = (st.step cfg M s).2.1 ++ evs' ∧
      Finishes cfg M (st.step cfg M s).1 (st.step cfg M s).2.2 evs' reply s' := by
  cases h with
  | done => exact absurd rfl (hst reply)
  | step _ h => exact ⟨_, rfl, h⟩

theorem Finishes.finished {cfg : ModelConfig} {M : DraftModel} {s s' : Session} {evs : List WatchEvent}
    {reply reply' : SessionReply} (h : Finishes cfg M s (.done reply') evs reply s') :
    evs = [] ∧ reply = reply' ∧ s' = s := by
  cases h with
  | done => exact ⟨rfl, rfl, rfl⟩
  | step hst _ => exact absurd rfl (hst reply')

/-- No stage queues the event of a Reset. -/
theorem stage_events (cfg : ModelConfig) (M : DraftModel) (s : Session) (st : Stage) :
    ∀ e ∈ (st.step cfg M s).2.1, isResetEvent e = false := by
  intro e he
  cases st with
  | prefill req calls =>
    simp only [Stage.step, onAccepted] at he
    split at he
    · cases he
    · rw [List.mem_singleton.mp he]
      rfl
  | inject req calls j rest => cases rest <;> cases he
  | guard req calls =>
    simp only [Stage.step] at he
    split at he <;> cases he
  | accept req calls j rest => cases rest <;> cases he
  | verdict req res =>
    rw [List.mem_singleton.mp he]
    rfl
  | preview res =>
    rw [List.mem_singleton.mp he]
    rfl
  | _ => cases he

theorem queuedOf_append (sid : ℕ) (queue more : List (ℕ × WatchEvent)) :
    queuedOf sid (queue ++ more) = queuedOf sid queue ++ queuedOf sid more := by
  simp [queuedOf]

theorem queuedOf_own {sid : ℕ} {evs : List WatchEvent} (h : ∀ e ∈ evs, isResetEvent e = false) :
    queuedOf sid (evs.map (sid, ·)) = evs := by
  have hall : (evs.map (sid, ·)).filter (fun e => e.1 = sid && !isResetEvent e.2) = evs.map (sid, ·) := by
    rw [List.filter_eq_self]
    intro e he
    obtain ⟨e', he', rfl⟩ := List.mem_map.mp he
    simp [h e' he']
  rw [queuedOf, hall, List.map_map]
  exact List.map_id evs

theorem queuedOf_other {sid sid' : ℕ} (h : sid ≠ sid') (evs : List WatchEvent) :
    queuedOf sid (evs.map (sid', ·)) = [] := by
  have hnone : (evs.map (sid', ·)).filter (fun e => e.1 = sid && !isResetEvent e.2) = [] := by
    rw [List.filter_eq_nil_iff]
    intro e he
    obtain ⟨e', -, rfl⟩ := List.mem_map.mp he
    simp [h.symm]
  rw [queuedOf, hnone]
  rfl

/-- The event of a Reset is no event of the calls. -/
theorem queuedOf_reset (sid sid' : ℕ) : queuedOf sid [(sid', WatchEvent.reset)] = [] := by
  simp [queuedOf, isResetEvent]

theorem final_watch (slot : Slot) (s : Session) (cs : List SessionCall) :
    final slot.watch s cs = final slot.act s cs := rfl

/-- One more call queues its events. -/
theorem watchedOf_concat (slot : Slot) (cs : List SessionCall) (call : SessionCall) :
    slot.watchedOf (cs ++ [call]) =
      slot.watchedOf cs ++ call.watched slot.cfg slot.model (final slot.act .fresh cs) := by
  rw [Slot.watchedOf, answers_concat, List.flatten_append, Slot.watchedOf, final_watch]
  simp [Slot.watch]

/-- The id of the next session is not in use. -/
theorem Refines.next_absent (h : Refines c a) : c.sessions c.nextSessionId = none := by
  cases hslot : c.sessions c.nextSessionId with
  | none => rfl
  | some slot =>
    obtain ⟨s', evs, htracks⟩ := h.present _ slot hslot
    have hlt := h.consistent.separate.below c.nextSessionId (by rw [htracks.session]; rfl)
    rw [h.ids] at hlt
    exact absurd hlt (lt_irrefl _)

/-- A session without calls. -/
theorem callsOf_absent (h : Consistent a) {sid : ℕ} (hsid : a.sessions sid = none) : callsOf sid a.log = [] := by
  have hnone : a.log.filter (fun t => t.call.sessionId = sid) = [] := by
    rw [List.filter_eq_nil_iff]
    intro t ht heq
    have hsome := h.separate.known t ht
    rw [of_decide_eq_true heq, hsid] at hsome
    cases hsome
  rw [callsOf, hnone]
  rfl

/-- The mutex of a session is held by nobody else than who is inside. -/
theorem Refines.owner_ne (h : Refines c a) {sid j : ℕ} (hj : c.mtx sid = some j)
    (hi : (c.places i).session ≠ some sid) : j ≠ i := by
  rintro rfl
  exact hi ((h.held.session j sid).mp hj)

/-- The handlers after one of them moved on both sides. -/
theorem Refines.match_moved (h : Refines c a) {new : Handler} (hm : Moved i p c c') (hmatch : p.Matches new)
    (hhandlers : a'.handlers = Function.update a.handlers i new) (j : ℕ) : (c'.places j).Matches (a'.handlers j) := by
  rw [hm.places, hhandlers]
  rcases eq_or_ne j i with rfl | hne
  · simpa using hmatch
  · simpa [hne] using h.handlers j

/-- The holder after a move of a handler that keeps or gives back what it kept. -/
theorem Refines.holder_moved (h : Refines c a) (hm : Moved i p c c') (hholder : a'.holder = a.holder)
    (hmap : (c.places i).keepsMap = true → p.keepsMap = true) :
    ∀ j, a'.holder = some j → (c'.places j).keepsMap = true := by
  intro j hj
  rw [hholder] at hj
  rw [hm.places]
  rcases eq_or_ne j i with rfl | hne
  · rw [Function.update_self]
    exact hmap (h.holder j hj)
  · rw [Function.update_of_ne hne]
    exact h.holder j hj

/-- A new session. -/
theorem refines_creating (h : Refines c a) {cfg : ModelConfig} {M : DraftModel} (hi : c.places i = .creating cfg M) :
    Refines (c.advance i) (a.step (.advance i)) := by
  have hm := (advance_creating h.held hi).moved
  have hmatch := h.handlers i
  rw [hi] at hmatch
  obtain ⟨req, hreq, hh⟩ := hmatch
  have hfree := h.holder_none (i := i) (by rw [hi]; rfl) (by rw [hi]; rfl)
  have hcons := consistent_step a (.advance i) h.consistent
  have ha : a.step (.advance i) = { a with
      sessions := Function.update a.sessions c.nextSessionId (some ⟨cfg, M, .fresh⟩)
      nextSessionId := c.nextSessionId + 1 }.goto i (.initReplied (sessionCreated cfg c.nextSessionId)) := by
    simp [Service.step, hh, Service.initSession, hreq, hfree, h.ids]
  have hc : c.advance i = c.insert i cfg M := by simp only [LockService.advance, hi]
  have hout : (c.places i).session = none := by rw [hi]; rfl
  rw [ha] at hcons ⊢
  rw [hc] at hm ⊢
  refine ⟨h.held.moved hm, hcons, rfl, h.holder_moved hm rfl (by rw [hi]; simp [Place.keepsMap]),
    h.match_moved hm rfl rfl, fun sid hsid => ?_, fun sid slot hslot => ?_⟩
  · rcases eq_or_ne sid c.nextSessionId with rfl | hne
    · simp [LockService.insert, LockService.goto] at hsid
    · simp only [LockService.insert, LockService.goto, Function.update_of_ne hne] at hsid
      simpa [hne, LockService.insert, LockService.goto] using h.absent sid hsid
  · rcases eq_or_ne sid c.nextSessionId with rfl | hne
    · simp only [LockService.insert, LockService.goto, Function.update_self, Option.some.injEq] at hslot
      obtain ⟨hnone, hqueue⟩ := h.absent c.nextSessionId h.next_absent
      have hmtx : c.mtx c.nextSessionId = none := by
        rw [Option.eq_none_iff_forall_ne_some]
        intro j hj
        have hsession := (h.held.session j _).mp hj
        have hsome : (c.sessions c.nextSessionId).isSome := by
          refine h.held.pointer j _ ?_
          cases hp : c.places j <;> rw [hp] at hsession <;> first | exact hsession | cases hsession
        rw [h.next_absent] at hsome
        cases hsome
      refine ⟨.fresh, [], ?_, ?_, fun _ => ⟨by rw [← hslot], rfl⟩, fun j hj => ?_⟩
      · simp [← hslot]
      · have hcalls := callsOf_absent h.consistent hnone
        simp only [LockService.insert, LockService.goto, goto_log, hqueue, hcalls]
        rfl
      · have hj' : c.mtx c.nextSessionId = some j := hj
        rw [hmtx] at hj'
        cases hj'
    · simp only [LockService.insert, LockService.goto, Function.update_of_ne hne] at hslot
      obtain ⟨s', evs, htracks⟩ := h.present sid slot hslot
      refine ⟨s', evs, htracks.frame rfl (fun j hj => ?_) rfl (by simp [hne]) rfl⟩
      have hji := h.owner_ne (i := i) hj (by rw [hout]; simp)
      exact ⟨Function.update_of_ne hji _ _, Function.update_of_ne hji _ _⟩

/-- The lock of a session, where the atomic service takes the whole call. -/
theorem refines_enter (h : Refines c a) {call : SessionCall} (hi : c.places i = .found call)
    (hfree : c.mtx call.sessionId = none) : Refines (c.advance i) (a.step (.advance i)) := by
  have hin : ∀ sid, (Place.found call).pointer = some sid → (c.sessions sid).isSome :=
    fun sid hsid => h.held.pointer i sid (by rw [hi]; exact hsid)
  obtain ⟨slot, hslot⟩ := Option.isSome_iff_exists.mp (hin call.sessionId rfl)
  obtain ⟨s', evs, htracks⟩ := h.present call.sessionId slot hslot
  obtain ⟨rfl, rfl⟩ := htracks.free hfree
  have hm : Moved i (.inside call (.start call)) c (c.lockSession i call.sessionId (.inside call (.start call))) :=
    moved_lockSession h.held hfree (by rw [hi]; rfl) (by rw [hi]; rfl) rfl hin
  have hc : c.advance i =
      { c with mtx := Function.update c.mtx call.sessionId (some i) }.goto i (.inside call (.start call)) := by
    simp [LockService.advance, hi, LockService.lockSession, hfree]
  have hh : a.handlers i = .found call := by
    have hmatch := h.handlers i
    rw [hi] at hmatch
    exact hmatch
  have hslotA : a.sessions call.sessionId = some slot := htracks.session
  obtain ⟨r, hr⟩ : ∃ r, r = call.run slot.cfg slot.model slot.session := ⟨_, rfl⟩
  have ha : a.step (.advance i) = { a with
      sessions := Function.update a.sessions call.sessionId (some { slot with session := r.2 })
      log := a.log ++ [Taken.mk i call r.1] }.goto i (call.resting r.1) := by
    simp only [Service.step, hh, Service.enter, hslotA, hr]
    rfl
  have hcons := consistent_step a (.advance i) h.consistent
  have hsolo := h.consistent.separate.solo call.sessionId slot hslotA
  have hout : (c.places i).session = none := by rw [hi]; rfl
  have hcm : c.lockSession i call.sessionId (.inside call (.start call)) = c.advance i := by
    simp only [LockService.advance, hi]
  rw [hcm] at hm
  rw [hc] at hm ⊢
  rw [ha] at hcons ⊢
  refine ⟨h.held.moved hm, hcons, h.ids, h.holder_moved hm rfl (by rw [hi]; exact id),
    h.match_moved hm ⟨r.1, rfl⟩ rfl, fun sid hsid => ?_, fun sid slot' hslot' => ?_⟩
  · have hne : sid ≠ call.sessionId := by
      rintro rfl
      rw [show c.sessions call.sessionId = none from hsid] at hslot
      cases hslot
    simpa [hne, LockService.goto] using h.absent sid hsid
  · rcases eq_or_ne sid call.sessionId with rfl | hne
    · cases hslot.symm.trans hslot'
      refine ⟨r.2, call.watched slot.cfg slot.model slot.session, by simp, ?_, fun hnone => ?_, fun j hj => ?_⟩
      · have hqueue := htracks.queue
        rw [List.append_nil] at hqueue
        simp only [LockService.goto, goto_log, (callsOf_own ⟨i, call, r.1⟩ a.log).1, watchedOf_concat]
        rw [hqueue, ← hsolo.session]
      · simp [LockService.goto] at hnone
      · simp only [LockService.goto, Function.update_self, Option.some.injEq] at hj
        subst hj
        refine ⟨call, .start call, r.1, by simp [LockService.goto], rfl, by simp, ?_⟩
        rw [hr]
        exact finishes_start call slot.session
    · obtain ⟨s', evs, htracks'⟩ := h.present sid slot' hslot'
      refine ⟨s', evs, htracks'.frame (by simp [LockService.goto, hne]) (fun j hj => ?_) rfl (by simp [hne])
        (callsOf_other (t := ⟨i, call, r.1⟩) hne.symm a.log).1⟩
      have hji := h.owner_ne (i := i) hj (by rw [hout]; simp)
      exact ⟨Function.update_of_ne hji _ _, Function.update_of_ne hji _ _⟩

/-- A stage of a call, which the atomic service has already taken. -/
theorem refines_stage (h : Refines c a) {call : SessionCall} {st : Stage} (hi : c.places i = .inside call st)
    (hst : ∀ reply, st ≠ .done reply) : Refines (c.advance i) a := by
  obtain ⟨slot, hslot, hadv⟩ := advance_work h.held hi hst
  have hm := hadv.moved
  obtain ⟨s', evs, htracks⟩ := h.present call.sessionId slot hslot
  have hmine : c.mtx call.sessionId = some i := (h.held.session i _).mpr (by rw [hi]; rfl)
  obtain ⟨call', st', reply, hplace, hsid, hhandler, hfin⟩ := htracks.busy i hmine
  rw [hi] at hplace
  cases hplace
  obtain ⟨evs', rfl, hfin'⟩ := hfin.unfinished hst
  have hc : c.advance i = { c with
      sessions := Function.update c.sessions call.sessionId
        (some { slot with session := (st.step slot.cfg slot.model slot.session).1 })
      queue := c.queue ++ (st.step slot.cfg slot.model slot.session).2.1.map (call.sessionId, ·) }.goto i
        (.inside call (st.step slot.cfg slot.model slot.session).2.2) := by
    simp only [LockService.advance, hi, LockService.work, hslot]
  have hevents := stage_events slot.cfg slot.model slot.session st
  rw [hc] at hm ⊢
  refine ⟨h.held.moved hm, h.consistent, h.ids, h.holder_moved hm rfl (by rw [hi]; exact id),
    h.match_moved hm ⟨reply, hhandler⟩ (Function.update_eq_self i a.handlers).symm, fun sid hsid => ?_,
    fun sid slot' hslot' => ?_⟩
  · have hne : sid ≠ call.sessionId := by
      rintro rfl
      simp [LockService.goto] at hsid
    simp only [LockService.goto, Function.update_of_ne hne] at hsid
    simpa [LockService.goto, queuedOf_append, queuedOf_other hne] using h.absent sid hsid
  · rcases eq_or_ne sid call.sessionId with rfl | hne
    · simp only [LockService.goto, Function.update_self, Option.some.injEq] at hslot'
      subst hslot'
      refine ⟨s', evs', htracks.session, ?_, fun hnone => ?_, fun j hj => ?_⟩
      · have hqueue := htracks.queue
        rw [← List.append_assoc] at hqueue
        simp only [LockService.goto, queuedOf_append, queuedOf_own hevents]
        exact hqueue
      · have hnone' : c.mtx call.sessionId = none := hnone
        rw [hmine] at hnone'
        cases hnone'
      · have hj' : c.mtx call.sessionId = some j := hj
        rw [hmine] at hj'
        cases hj'
        exact ⟨call, _, reply, by simp [LockService.goto], rfl, hhandler, hfin'⟩
    · simp only [LockService.goto, Function.update_of_ne hne] at hslot'
      obtain ⟨s'', evs'', htracks'⟩ := h.present sid slot' hslot'
      refine ⟨s'', evs'', htracks'.frame rfl (fun j hj => ?_) ?_ rfl rfl⟩
      · have hji := h.owner_ne (i := i) hj (by rw [hi]; simpa [Place.session] using hne.symm)
        exact ⟨Function.update_of_ne hji _ _, rfl⟩
      · simp [LockService.goto, queuedOf_append, queuedOf_other hne]

/-- The release of a session, whose engine is where the call left it. -/
theorem refines_release (h : Refines c a) {call : SessionCall} {reply : SessionReply}
    (hi : c.places i = .inside call (.done reply)) : Refines (c.advance i) a := by
  have hm := (advance_release h.held hi).moved
  have hmine : c.mtx call.sessionId = some i := (h.held.session i _).mpr (by rw [hi]; rfl)
  have hc : c.advance i = c.unlockSession i call.sessionId
      (if call.isReset then .unlocked call reply else .replied call reply) := by
    simp only [LockService.advance, hi]
  obtain ⟨slot, hslot⟩ := Option.isSome_iff_exists.mp (h.held.pointer i call.sessionId (by rw [hi]; rfl))
  obtain ⟨s', evs, htracks⟩ := h.present call.sessionId slot hslot
  obtain ⟨call', st', reply', hplace, -, hhandler, hfin⟩ := htracks.busy i hmine
  rw [hi] at hplace
  cases hplace
  obtain ⟨rfl, rfl, rfl⟩ := hfin.finished
  rw [hc] at hm ⊢
  refine ⟨h.held.moved hm, h.consistent, h.ids, h.holder_moved hm rfl ?_,
    h.match_moved hm ?_ (Function.update_eq_self i a.handlers).symm, h.absent, fun sid slot' hslot' => ?_⟩
  · rw [hi]
    intro hreset
    have hreset' : call.isReset = true := hreset
    simp [hreset', Place.keepsMap]
  · rw [hhandler, SessionCall.resting]
    cases call.isReset <;> rfl
  · obtain ⟨s'', evs'', htracks'⟩ := h.present sid slot' hslot'
    rcases eq_or_ne sid call.sessionId with rfl | hne
    · cases hslot.symm.trans hslot'
      refine ⟨slot.session, [], htracks.session, htracks.queue, fun _ => ⟨rfl, rfl⟩, fun j hj => ?_⟩
      simp [LockService.unlockSession, LockService.goto] at hj
    · refine ⟨s'', evs'', htracks'.frame (by simp [LockService.unlockSession, LockService.goto, hne]) (fun j hj => ?_)
        rfl rfl rfl⟩
      have hji := h.owner_ne (i := i) hj (by rw [hi]; simpa [Place.session] using hne.symm)
      exact ⟨Function.update_of_ne hji _ _, rfl⟩

/-! ### The steps outside the sections -/

theorem keeps_goto (i : ℕ) (p : Place) (c : LockService) : Keeps c (c.goto i p) := ⟨rfl, rfl, fun _ => rfl, rfl⟩

/-- A step that moves the handler and nothing else. -/
theorem Refines.goto (h : Refines c a) (heq : c.advance i = c.goto i p) (hmap : p.holdsMap = (c.places i).holdsMap)
    (hnone : (c.places i).session = none) (hsession : p.session = none)
    (hpointer : ∀ sid, p.pointer = some sid → (c.sessions sid).isSome)
    (hlocated : ∀ call, p = .located call → call.isReset = false) {new : Handler} (hfollows : Follows i new a a')
    (hmatch : p.Matches new) (hholder : ∀ j, a'.holder = some j → (Function.update c.places i p j).keepsMap = true) :
    Refines (c.advance i) a' := by
  rw [heq]
  exact h.move (moved_goto h.held hmap (by rw [hsession, hnone]) hpointer hlocated) (keeps_goto i p c) hfollows hnone
    hmatch hholder

/-- A handler takes `sessions_mtx_`, or waits for it. -/
theorem Refines.lockSessions (h : Refines c a) (heq : c.advance i = c.lockSessions i p) (hmap : p.holdsMap = true)
    (hnone : (c.places i).session = none) (hsession : p.session = none) (hpointer : p.pointer = none)
    (hmatch : p.Matches (a.handlers i)) (hkeeps : p.keepsMap = (c.places i).keepsMap) : Refines (c.advance i) a := by
  rw [heq]
  cases hfree : c.sessionsMtx with
  | none =>
    refine h.stutter (moved_lockSessions h.held hfree hmap (by rw [hsession, hnone]) hpointer) ?_ hnone hmatch hkeeps
    simp only [LockService.lockSessions, hfree]
    exact ⟨rfl, rfl, fun _ => rfl, rfl⟩
  | some j =>
    simp only [LockService.lockSessions, hfree]
    exact h

/-- A handler gives `sessions_mtx_` back. -/
theorem Refines.unlockSessions (h : Refines c a) (heq : c.advance i = c.unlockSessions i p)
    (hmap : (c.places i).holdsMap = true) (hnot : p.holdsMap = false) (hnone : (c.places i).session = none)
    (hsession : p.session = none) (hpointer : ∀ sid, p.pointer = some sid → (c.sessions sid).isSome) {new : Handler}
    (hfollows : Follows i new a a') (hmatch : p.Matches new)
    (hholder : ∀ j, a'.holder = some j → (Function.update c.places i p j).keepsMap = true) :
    Refines (c.advance i) a' := by
  rw [heq]
  exact h.move (moved_unlockSessions h.held hmap hnot (by rw [hsession, hnone]) hpointer)
    ⟨rfl, rfl, fun _ => rfl, rfl⟩ hfollows hnone hmatch hholder

/-- The atomic service stands still. -/
theorem Follows.refl (h : Consistent a) (i : ℕ) : Follows i (a.handlers i) a a :=
  ⟨(Function.update_eq_self i a.handlers).symm, rfl, rfl, rfl, h⟩

/-- The atomic service moves the handler. -/
theorem follows_goto (h : Consistent a) {e : ServiceEvent} {new : Handler} (heq : a.step e = a.goto i new) :
    Follows i new a (a.step e) :=
  ⟨by rw [heq]; rfl, by rw [heq]; rfl, by rw [heq]; rfl, by rw [heq]; rfl, consistent_step a e h⟩

/-- The holder is somebody else, or nobody, and did not move. -/
theorem Refines.holder_other (h : Refines c a) (hkeeps : (c.places i).keepsMap = false) :
    ∀ j, a.holder = some j → (Function.update c.places i p j).keepsMap = true := by
  intro j hj
  have hne : j ≠ i := by
    rintro rfl
    rw [h.holder j hj] at hkeeps
    cases hkeeps
  rw [Function.update_of_ne hne]
  exact h.holder j hj

theorem refines_init (h : Refines c a) {req : InitSessionRequest} {made : Option (ModelConfig × DraftModel)}
    (hi : c.places i = .init req made) : Refines (c.advance i) (a.step (.advance i)) ∨ Refines (c.advance i) a := by
  have hh : a.handlers i = .init req made := by
    have hmatch := h.handlers i
    rwa [hi] at hmatch
  have hrefused : ∀ message, c.advance i = c.goto i (.initReplied { message := message }) →
      a.step (.advance i) = a.goto i (.initReplied { message := message }) →
      Refines (c.advance i) (a.step (.advance i)) := by
    intro message hc ha
    refine h.goto hc (by rw [hi]; rfl) (by rw [hi]; rfl) rfl (by simp [Place.pointer]) (by simp)
      (follows_goto h.consistent ha) rfl ?_
    rw [ha]
    exact h.holder_other (by rw [hi]; rfl)
  by_cases hempty : req.targetModelId.isEmpty
  · exact Or.inl (hrefused "target_model_id required" (by simp [LockService.advance, hi, hempty])
      (by simp [Service.step, hh, Service.initSession, hempty]))
  · cases hmade : made with
    | none =>
      exact Or.inl (hrefused "failed to initialize DSpark engine" (by simp [LockService.advance, hi, hempty, hmade])
        (by simp [Service.step, hh, Service.initSession, hempty, hmade]))
    | some e =>
      have hc : c.advance i = c.lockSessions i (.creating e.1 e.2) := by
        simp [LockService.advance, hi, hempty, hmade]
      exact Or.inr (h.lockSessions hc rfl (by rw [hi]; rfl) rfl rfl
        ⟨req, Bool.eq_false_iff.mpr hempty, by rw [hh, hmade]⟩ (by rw [hi]; rfl))

/-- The lookup, where the atomic service looks too. -/
theorem refines_looking (h : Refines c a) {call : SessionCall} (hi : c.places i = .looking call) :
    Refines (c.advance i) (a.step (.advance i)) := by
  have hh : a.handlers i = .call call := by
    have hmatch := h.handlers i
    rwa [hi] at hmatch
  have hfree := h.holder_none (i := i) (by rw [hi]; rfl) (by rw [hi]; rfl)
  cases hslot : c.sessions call.sessionId with
  | none =>
    have hc : c.advance i = c.goto i (.missing call) := by simp [LockService.advance, hi, LockService.look, hslot]
    have ha : a.step (.advance i) = a.goto i (.replied call call.notFound) := by
      simp [Service.step, hh, Service.find, hfree, (h.absent _ hslot).1]
    refine h.goto hc (by rw [hi]; rfl) (by rw [hi]; rfl) rfl (by simp [Place.pointer]) (by simp)
      (follows_goto h.consistent ha) rfl ?_
    rw [ha]
    exact h.holder_other (by rw [hi]; rfl)
  | some slot =>
    obtain ⟨s', evs, htracks⟩ := h.present _ slot hslot
    have hin : (c.sessions call.sessionId).isSome := by rw [hslot]; rfl
    have hc : c.advance i = c.goto i (if call.isReset then .found call else .located call) := by
      simp [LockService.advance, hi, LockService.look, hslot]
    have ha : a.step (.advance i) =
        { a with holder := if call.isReset then some i else none }.goto i (.found call) := by
      simp [Service.step, hh, Service.find, hfree, htracks.session]
    have hfollows : Follows i (.found call) a (a.step (.advance i)) :=
      ⟨by rw [ha]; rfl, by rw [ha]; rfl, by rw [ha]; rfl, by rw [ha]; rfl, consistent_step a _ h.consistent⟩
    cases hreset : call.isReset with
    | true =>
      rw [hreset, if_pos rfl] at hc ha
      refine h.goto hc (by rw [hi]; exact hreset) (by rw [hi]; rfl) rfl (by rintro sid hsid; cases hsid; exact hin)
        (by simp) hfollows rfl ?_
      rw [ha]
      intro j hj
      cases hj
      rw [Function.update_self]
      exact hreset
    | false =>
      rw [hreset, if_neg (by simp)] at hc ha
      refine h.goto hc (by rw [hi]; rfl) (by rw [hi]; rfl) rfl (by rintro sid hsid; cases hsid; exact hin)
        (by rintro call' hcall; cases hcall; exact hreset) hfollows rfl ?_
      rw [ha]
      intro j hj
      cases hj

/-- The event of a Reset, behind its section. -/
theorem refines_unlocked (h : Refines c a) {call : SessionCall} {reply : SessionReply}
    (hi : c.places i = .unlocked call reply) : Refines (c.advance i) a := by
  have hm := (advance_unlocked h.held hi).moved
  have hmatch : (Place.notified call reply).Matches (a.handlers i) := by
    have hmatch := h.handlers i
    rwa [hi] at hmatch
  have hkeeps : Keeps c (c.advance i) := by
    simp only [LockService.advance, hi]
    refine ⟨rfl, rfl, fun sid => ?_, rfl⟩
    simp [LockService.goto, queuedOf_append, queuedOf_reset]
  exact h.stutter hm hkeeps (by rw [hi]; rfl) hmatch (by rw [hi]; rfl)

/-- The end of a Reset opens the map again. -/
theorem refines_notified (h : Refines c a) {call : SessionCall} {reply : SessionReply}
    (hi : c.places i = .notified call reply) : Refines (c.advance i) (a.step (.advance i)) := by
  have hh : a.handlers i = .resetDone call reply := by
    have hmatch := h.handlers i
    rwa [hi] at hmatch
  have hc : c.advance i = c.unlockSessions i (.replied call reply) := by simp only [LockService.advance, hi]
  have ha : a.step (.advance i) = { a with holder := none }.goto i (.replied call reply) := by
    simp [Service.step, hh]
  have hfollows : Follows i (.replied call reply) a (a.step (.advance i)) :=
    ⟨by rw [ha]; rfl, by rw [ha]; rfl, by rw [ha]; rfl, by rw [ha]; rfl, consistent_step a _ h.consistent⟩
  refine h.unlockSessions hc (by rw [hi]; rfl) rfl (by rw [hi]; rfl) rfl (by simp [Place.pointer]) hfollows rfl ?_
  rw [ha]
  intro j hj
  cases hj

/-- Somebody else's release, after a lookup that was no Reset's. -/
theorem Refines.giveBack (h : Refines c a) (heq : c.advance i = c.unlockSessions i p)
    (hmap : (c.places i).holdsMap = true) (hnot : p.holdsMap = false) (hnone : (c.places i).session = none)
    (hsession : p.session = none) (hpointer : ∀ sid, p.pointer = some sid → (c.sessions sid).isSome)
    (hmatch : p.Matches (a.handlers i)) (hkeeps : (c.places i).keepsMap = false) : Refines (c.advance i) a :=
  h.unlockSessions heq hmap hnot hnone hsession hpointer (Follows.refl h.consistent i) hmatch (h.holder_other hkeeps)

theorem refines_advance (h : Refines c a) (i : ℕ) :
    Refines (c.advance i) (a.step (.advance i)) ∨ Refines (c.advance i) a := by
  have hmatch := h.handlers i
  have hstays : c.advance i = c → Refines (c.advance i) a := fun heq => by rw [heq]; exact h
  cases hi : c.places i with
  | idle => exact Or.inr (hstays (by simp only [LockService.advance, hi]))
  | init req made => exact refines_init h hi
  | creating cfg M => exact Or.inl (refines_creating h hi)
  | created res =>
    rw [hi] at hmatch
    exact Or.inr (h.giveBack (p := .initReplied res) (by simp only [LockService.advance, hi]) (by rw [hi]; rfl) rfl
      (by rw [hi]; rfl) rfl (by simp [Place.pointer]) hmatch (by rw [hi]; rfl))
  | initReplied res => exact Or.inr (hstays (by simp only [LockService.advance, hi]))
  | call call =>
    rw [hi] at hmatch
    exact Or.inr (h.lockSessions (p := .looking call) (by simp only [LockService.advance, hi]) rfl (by rw [hi]; rfl) rfl
      rfl hmatch (by rw [hi]; rfl))
  | looking call => exact Or.inl (refines_looking h hi)
  | missing call =>
    rw [hi] at hmatch
    exact Or.inr (h.giveBack (p := .replied call call.notFound) (by simp only [LockService.advance, hi])
      (by rw [hi]; rfl) rfl (by rw [hi]; rfl) rfl (by simp [Place.pointer]) hmatch (by rw [hi]; rfl))
  | located call =>
    rw [hi] at hmatch
    exact Or.inr (h.giveBack (p := .found call) (by simp only [LockService.advance, hi]) (by rw [hi]; rfl)
      (h.held.located i call hi) (by rw [hi]; rfl) rfl (fun sid hsid => h.held.pointer i sid (by rw [hi]; exact hsid))
      hmatch (by rw [hi]; rfl))
  | found call =>
    cases hfree : c.mtx call.sessionId with
    | none => exact Or.inl (refines_enter h hi hfree)
    | some j => exact Or.inr (hstays (by simp [LockService.advance, hi, LockService.lockSession, hfree]))
  | inside call st =>
    by_cases hdone : ∃ reply, st = .done reply
    · obtain ⟨reply, rfl⟩ := hdone
      exact Or.inr (refines_release h hi)
    · exact Or.inr (refines_stage h hi (not_exists.mp hdone))
  | unlocked call reply => exact Or.inr (refines_unlocked h hi)
  | notified call reply => exact Or.inl (refines_notified h hi)
  | replied call reply => exact Or.inr (hstays (by simp only [LockService.advance, hi]))

/-- An RPC arrives at a free handler. -/
theorem refines_arrive (h : Refines c a) {new : Handler} {e : ServiceEvent} (hi : c.places i = .idle)
    (ha : a.step e = a.goto i new) (hmap : p.holdsMap = false) (hsession : p.session = none)
    (hpointer : p.pointer = none) (hmatch : p.Matches new) : Refines (c.goto i p) (a.step e) := by
  have hlocated : ∀ call, p = .located call → call.isReset = false := by
    rintro call rfl
    cases hpointer
  have hm : Moved i p c (c.goto i p) :=
    moved_goto h.held (by rw [hi]; exact hmap) (by rw [hi]; exact hsession) (by simp [hpointer]) hlocated
  refine h.move hm (keeps_goto i p c) (follows_goto h.consistent ha) (by rw [hi]; rfl) hmatch ?_
  rw [ha]
  exact h.holder_other (by rw [hi]; rfl)

theorem refines_step (c : LockService) (a : Service) (e : ServiceEvent) (h : Refines c a) :
    Refines (c.step e) (a.step e) ∨ Refines (c.step e) a := by
  have hidle : ∀ {i}, c.places i = .idle → a.handlers i = .idle := by
    intro i hi
    have hmatch := h.handlers i
    rwa [hi] at hmatch
  cases e with
  | initSession i req made =>
    rw [LockService.step]
    split
    case h_1 hi =>
      have ha : a.step (.initSession i req made) = a.goto i (.init req made) := by simp [Service.step, hidle hi]
      exact Or.inl (refines_arrive h hi ha rfl rfl rfl rfl)
    case h_2 => exact Or.inr h
  | call i call =>
    rw [LockService.step]
    split
    case h_1 hi =>
      have ha : a.step (.call i call) = a.goto i (.call call) := by simp [Service.step, hidle hi]
      exact Or.inl (refines_arrive h hi ha rfl rfl rfl rfl)
    case h_2 => exact Or.inr h
  | advance i => exact refines_advance h i

theorem fresh_refines : Refines .fresh .fresh where
  held := fresh_held
  consistent := fresh_consistent
  ids := rfl
  holder := by simp [Service.fresh]
  handlers := fun _ => rfl
  absent := fun _ _ => ⟨rfl, rfl⟩
  present := by simp [LockService.fresh]

theorem reachable_refines (es : List ServiceEvent) :
    ∃ fs, fs.Sublist es ∧ Refines (exec LockService.step .fresh es) (exec Service.step .fresh fs) :=
  simulates Refines refines_step fresh_refines es

/-- THE SECTIONS ARE ATOMIC: however the handlers' steps interleave, leaving some of the steps out gives a run
    of the service whose critical sections are single steps, with the same replies, the same next id, the same
    ids in the map and the same session wherever no handler is inside. -/
theorem sections_atomic (es : List ServiceEvent) :
    ∃ fs, fs.Sublist es ∧
      let c := exec LockService.step .fresh es
      let a := exec Service.step .fresh fs
      (∀ i call reply, c.places i = .replied call reply → a.handlers i = .replied call reply) ∧
      (∀ i res, c.places i = .initReplied res → a.handlers i = .initReplied res) ∧
      a.nextSessionId = c.nextSessionId ∧
      (∀ sid, (a.sessions sid).isSome = (c.sessions sid).isSome) ∧
      ∀ sid, c.mtx sid = none → a.sessions sid = c.sessions sid := by
  obtain ⟨fs, hfs, h⟩ := reachable_refines es
  refine ⟨fs, hfs, fun i call reply hi => ?_, fun i res hi => ?_, h.ids, fun sid => ?_, fun sid hfree => ?_⟩
  · have hmatch := h.handlers i
    rwa [hi] at hmatch
  · have hmatch := h.handlers i
    rwa [hi] at hmatch
  · cases hslot : (exec LockService.step .fresh es).sessions sid with
    | none => rw [(h.absent sid hslot).1]
    | some slot =>
      obtain ⟨s', evs, htracks⟩ := h.present sid slot hslot
      rw [htracks.session]
      rfl
  · cases hslot : (exec LockService.step .fresh es).sessions sid with
    | none => rw [(h.absent sid hslot).1]
    | some slot =>
      obtain ⟨s', evs, htracks⟩ := h.present sid slot hslot
      rw [htracks.session, (htracks.free hfree).1]

/-- WHAT THE RENDERER IS TOLD: the calls on a session take its mutex in an order, each handler once; what they
    queue stands in the queue in that order, one call after the other, and while no handler is inside it is all
    there, the session is what the calls make of a new one, and each was answered as if it were alone. (The
    event of a Reset is queued behind its section, and may come late.) -/
theorem renderer_told (es : List ServiceEvent) (sid : ℕ) (slot : Slot)
    (hslot : (exec LockService.step .fresh es).sessions sid = some slot) :
    ∃ ts : List Taken,
      let c := exec LockService.step .fresh es
      (ts.map Taken.handler).Nodup ∧
      (∀ i call reply, c.places i = .replied call reply → call.sessionId = sid →
        reply = call.notFound ∨ ⟨i, call, reply⟩ ∈ ts) ∧
      queuedOf sid c.queue <+: slot.watchedOf (ts.map Taken.call) ∧
      ts.map Taken.reply = answers slot.act .fresh (ts.map Taken.call) ∧
      (c.mtx sid = none → queuedOf sid c.queue = slot.watchedOf (ts.map Taken.call) ∧
        slot.session = final slot.act .fresh (ts.map Taken.call)) := by
  obtain ⟨fs, -, h⟩ := reachable_refines es
  obtain ⟨s', evs, htracks⟩ := h.present sid slot hslot
  have hsolo := h.consistent.separate.solo sid _ htracks.session
  refine ⟨(exec Service.step .fresh fs).log.filter fun t => t.call.sessionId = sid, ?_, fun i call reply hi hsid => ?_,
    ⟨evs, htracks.queue⟩, hsolo.replies, fun hfree => ⟨?_, ?_⟩⟩
  · exact h.consistent.attended.once.sublist (List.filter_sublist.map _)
  · have hmatch := h.handlers i
    rw [hi] at hmatch
    refine (h.consistent.attended.replied i call reply hmatch).imp_right fun ht => ?_
    exact List.mem_filter.mpr ⟨ht, by simpa using hsid⟩
  · have hqueue := htracks.queue
    rw [(htracks.free hfree).2, List.append_nil] at hqueue
    exact hqueue
  · rw [← (htracks.free hfree).1]
    exact hsolo.session

/-- A handshake, and a Prefill of the session it made. -/
def oneCall : List ServiceEvent :=
  let tf : TokenFeatures := { token := 7, position := 0, features := [] }
  [.initSession 0 ⟨"t", ""⟩ (some (smallConfig, constModel [])), .advance 0, .advance 0, .advance 0,
    .call 1 (.prefill ⟨1, [tf], true⟩ (.succeed 0)), .advance 1, .advance 1, .advance 1, .advance 1, .advance 1]

theorem renderer_told_oneCall : ∃ ts : List Taken,
    queuedOf 1 (exec LockService.step .fresh oneCall).queue <+:
      Slot.watchedOf ⟨smallConfig, constModel [], .fresh⟩ (ts.map Taken.call) := by
  obtain ⟨ts, -, -, hprefix, -⟩ := renderer_told oneCall 1 ⟨smallConfig, constModel [], .fresh⟩ rfl
  exact ⟨ts, hprefix⟩

end DsparkEdge
