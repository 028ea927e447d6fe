import DsparkEdge.Sessions

/-! Between a call's lookup and its reply. The lookup alone decides whether a call is served: a session that is
    in the map stays there, and its handler gets into the session's lock whatever the other handlers do.

        call ──lookup──▶ found ──lock: entry in the log──▶ (resetDone) ──▶ replied, as the entry says
                 └─────▶ replied: not found, no entry                                                  -/

namespace DsparkEdge

open Runs

/-! ### What a step does -/

def ServiceEvent.handler : ServiceEvent → ℕ
  | .initSession i _ _ => i
  | .call i _ => i
  | .advance i => i

/-- The handler has looked the session of call `c` up. -/
def Handler.beyond (c : SessionCall) : Handler → Prop
  | .found c' => c' = c
  | .resetDone c' _ => c' = c
  | .replied c' _ => c' = c
  | _ => False

/-- The next step of handler `i` looks the session of call `c` up. -/
structure LooksUp (i : ℕ) (c : SessionCall) (s : Service) : Prop where
  call : s.handlers i = .call c
  free : s.holder = none

/-- What a step of handler `i` can do. -/
inductive HandlerStep (i : ℕ) (s : Service) : Service → Prop
  | stays : HandlerStep i s s
  | starts (new : Handler) (hi : s.handlers i = .idle)
      (hnew : (∃ req made, new = .init req made) ∨ ∃ c, new = .call c) : HandlerStep i s (s.goto i new)
  | refused (res : InitSessionResponse) (hi : ∃ req made, s.handlers i = .init req made) (hres : res.ok = false) :
      HandlerStep i s (s.goto i (.initReplied res))
  | created (cfg : ModelConfig) (M : DraftModel) (hi : ∃ req made, s.handlers i = .init req made) :
      HandlerStep i s ({ s with
        sessions := Function.update s.sessions s.nextSessionId (some ⟨cfg, M, .fresh⟩)
        nextSessionId := s.nextSessionId + 1 }.goto i (.initReplied (sessionCreated cfg s.nextSessionId)))
  | missing (c : SessionCall) (hi : LooksUp i c s) (hnone : s.sessions c.sessionId = none) :
      HandlerStep i s (s.goto i (.replied c c.notFound))
  | found (c : SessionCall) (hi : LooksUp i c s) (hsome : (s.sessions c.sessionId).isSome) (holder : Option ℕ) :
      HandlerStep i s ({ s with holder := holder }.goto i (.found c))
  | entered (c : SessionCall) (reply : SessionReply) (slot : Slot) (hi : s.handlers i = .found c) :
      HandlerStep i s ({ s with
        sessions := Function.update s.sessions c.sessionId (some slot)
        log := s.log ++ [Taken.mk i c reply] }.goto i
          (if c.isReset then .resetDone c reply else .replied c reply))
  | released (c : SessionCall) (reply : SessionReply) (hi : s.handlers i = .resetDone c reply) :
      HandlerStep i s ({ s with holder := none }.goto i (.replied c reply))

theorem handlerStep_initSession {i : ℕ} {s : Service} {req : InitSessionRequest}
    {made : Option (ModelConfig × DraftModel)} (hi : s.handlers i = .init req made) :
    HandlerStep i s (s.initSession i req made) := by
  unfold Service.initSession
  split
  · exact .refused _ ⟨req, made, hi⟩ rfl
  · split
    · exact .refused _ ⟨_, _, hi⟩ rfl
    · split
      · exact .stays
      · exact .created _ _ ⟨_, _, hi⟩

theorem handlerStep_find {i : ℕ} {s : Service} {c : SessionCall} (hi : s.handlers i = .call c) :
    HandlerStep i s (s.find i c) := by
  rw [Service.find]
  split
  · exact .stays
  · rename_i hfree
    have hlook : LooksUp i c s := ⟨hi, by simpa using hfree⟩
    split
    · rename_i hnone
      exact .missing c hlook hnone
    · rename_i slot hslot
      exact .found c hlook (by simp [hslot]) _

theorem handlerStep_enter {i : ℕ} {s : Service} {c : SessionCall} (hi : s.handlers i = .found c) :
    HandlerStep i s (s.enter i c) := by
  rw [Service.enter]
  split
  · exact .stays
  · exact .entered c _ _ hi

theorem handler_step (s : Service) (e : ServiceEvent) : HandlerStep e.handler s (s.step e) := by
  unfold Service.step
  cases e with
  | initSession i req made =>
    simp only
    split
    · rename_i hi
      exact .starts _ hi (Or.inl ⟨req, made, rfl⟩)
    · exact .stays
  | call i c =>
    simp only
    split
    · rename_i hi
      exact .starts _ hi (Or.inr ⟨c, rfl⟩)
    · exact .stays
  | advance i =>
    simp only
    split
    · rename_i hi
      exact handlerStep_initSession hi
    · rename_i hi
      exact handlerStep_find hi
    · rename_i hi
      exact handlerStep_enter hi
    · rename_i hi
      exact .released _ _ hi
    · exact .stays

section Step

variable {i j : ℕ} {c : SessionCall} {s s' : Service}

/-- A handler moves in its own steps only. -/
theorem HandlerStep.handlers_ne (h : HandlerStep j s s') (hij : i ≠ j) : s'.handlers i = s.handlers i := by
  cases h with
  | stays => rfl
  | starts => exact goto_ne hij ..
  | refused => exact goto_ne hij ..
  | created => exact goto_ne hij ..
  | missing => exact goto_ne hij ..
  | found => exact goto_ne hij ..
  | entered => exact goto_ne hij ..
  | released => exact goto_ne hij ..

/-- The log grows by entries of handlers that were inside. -/
theorem HandlerStep.log (h : HandlerStep j s s') :
    s'.log = s.log ∨ ∃ c reply, s.handlers j = .found c ∧ s'.log = s.log ++ [⟨j, c, reply⟩] := by
  cases h with
  | entered c reply slot hi => exact Or.inr ⟨c, reply, hi, rfl⟩
  | stays => exact Or.inl rfl
  | starts => exact Or.inl rfl
  | refused => exact Or.inl rfl
  | created => exact Or.inl rfl
  | missing => exact Or.inl rfl
  | found => exact Or.inl rfl
  | released => exact Or.inl rfl

theorem HandlerStep.mem_log (h : HandlerStep j s s') {t : Taken} (ht : t ∈ s.log) : t ∈ s'.log := by
  rcases h.log with heq | ⟨c, reply, -, heq⟩ <;> rw [heq]
  · exact ht
  · exact List.mem_append_left _ ht

/-- Sessions are never erased. -/
theorem HandlerStep.isSome (h : HandlerStep j s s') {sid : ℕ} (hsid : (s.sessions sid).isSome) :
    (s'.sessions sid).isSome := by
  have hupdate (k : ℕ) (slot : Slot) : (Function.update s.sessions k (some slot) sid).isSome := by
    rcases eq_or_ne sid k with rfl | hne
    · simp
    · rwa [Function.update_of_ne hne]
  cases h with
  | created cfg M => exact hupdate _ _
  | entered c reply slot => exact hupdate _ _
  | stays => exact hsid
  | starts => exact hsid
  | refused => exact hsid
  | missing => exact hsid
  | found => exact hsid
  | released => exact hsid

/-! ### Served or turned away -/

/-- The session's lock is before the handler, or the handler has an entry in the log and the reply in it. -/
def Admitted (i : ℕ) (c : SessionCall) (s : Service) : Prop :=
  s.handlers i = .found c ∨
    ∃ reply, (s.handlers i = .resetDone c reply ∨ s.handlers i = .replied c reply) ∧ ⟨i, c, reply⟩ ∈ s.log

/-- The handler has answered that there is no such session, and was in no lock. -/
structure TurnedAway (i : ℕ) (c : SessionCall) (s : Service) : Prop where
  replied : s.handlers i = .replied c c.notFound
  unlogged : ∀ t ∈ s.log, t.handler ≠ i

theorem Admitted.beyond (h : Admitted i c s) : (s.handlers i).beyond c := by
  rcases h with hi | ⟨reply, hi | hi, -⟩ <;> rw [hi] <;> exact rfl

/-- Beyond its lookup a handler goes into the lock with an entry, or gives the map back; a reply is final. -/
theorem HandlerStep.of_beyond (h : HandlerStep i s s') (hi : (s.handlers i).beyond c) :
    s' = s ∨
      (s.handlers i = .found c ∧ ∃ reply,
        s'.handlers i = (if c.isReset then .resetDone c reply else .replied c reply) ∧
          s'.log = s.log ++ [⟨i, c, reply⟩]) ∨
      ∃ reply, s.handlers i = .resetDone c reply ∧ s'.handlers i = .replied c reply ∧ s'.log = s.log := by
  cases h with
  | stays => exact Or.inl rfl
  | entered c' reply slot h' =>
    rw [h'] at hi
    obtain rfl : c' = c := hi
    exact Or.inr (Or.inl ⟨h', reply, goto_self .., rfl⟩)
  | released c' reply h' =>
    rw [h'] at hi
    obtain rfl : c' = c := hi
    exact Or.inr (Or.inr ⟨reply, h', goto_self .., rfl⟩)
  | starts new h' =>
    rw [h'] at hi
    exact hi.elim
  | refused res h' =>
    obtain ⟨req, made, h'⟩ := h'
    rw [h'] at hi
    exact hi.elim
  | created cfg M h' =>
    obtain ⟨req, made, h'⟩ := h'
    rw [h'] at hi
    exact hi.elim
  | missing c' h' =>
    rw [h'.call] at hi
    exact hi.elim
  | found c' h' =>
    rw [h'.call] at hi
    exact hi.elim

theorem Admitted.stepped (hin : Admitted i c s) (h : HandlerStep j s s') : Admitted i c s' := by
  rcases eq_or_ne i j with rfl | hij
  · rcases h.of_beyond hin.beyond with rfl | ⟨-, reply, hhandler, hlog⟩ | ⟨reply, hi, hhandler, hlog⟩
    · exact hin
    · refine Or.inr ⟨reply, ?_, by rw [hlog]; exact List.mem_append_right _ (List.mem_singleton.mpr rfl)⟩
      rw [hhandler]
      split
      · exact Or.inl rfl
      · exact Or.inr rfl
    · rcases hin with hfound | ⟨reply', hout | hout, hmem⟩
      · cases hi.symm.trans hfound
      · cases hi.symm.trans hout
        exact Or.inr ⟨reply, Or.inr hhandler, hlog ▸ hmem⟩
      · cases hi.symm.trans hout
  · unfold Admitted
    rw [h.handlers_ne hij]
    exact hin.imp_right fun ⟨reply, hi, hlog⟩ => ⟨reply, hi, h.mem_log hlog⟩

theorem TurnedAway.stepped (hout : TurnedAway i c s) (h : HandlerStep j s s') : TurnedAway i c s' := by
  rcases eq_or_ne i j with rfl | hij
  · have hi : (s.handlers i).beyond c := by
      rw [hout.replied]
      exact rfl
    rcases h.of_beyond hi with rfl | ⟨hfound, -⟩ | ⟨reply, hdone, -⟩
    · exact hout
    · cases hout.replied.symm.trans hfound
    · cases hout.replied.symm.trans hdone
  · refine ⟨(h.handlers_ne hij).trans hout.replied, ?_⟩
    rcases h.log with heq | ⟨c', reply, -, heq⟩ <;> rw [heq]
    · exact hout.unlogged
    · exact List.forall_mem_append.mpr ⟨hout.unlogged, by simpa using hij.symm⟩

/-- A lookup takes the handler on if the session is in the map, and turns it away if it is not. -/
theorem LooksUp.decides (hlook : LooksUp i c s) (hcons : Consistent s) :
    ((s.sessions c.sessionId).isSome → Admitted i c (s.step (.advance i))) ∧
      (s.sessions c.sessionId = none → TurnedAway i c (s.step (.advance i))) := by
  have hfind : s.step (.advance i) = s.find i c := by
    simp only [Service.step, hlook.call]
  rw [hfind, Service.find, hlook.free]
  refine ⟨fun hsome => ?_, fun hnone => ?_⟩
  · obtain ⟨slot, hslot⟩ := Option.isSome_iff_exists.mp hsome
    simp only [hslot]
    exact Or.inl (goto_self ..)
  · simp only [hnone]
    exact ⟨goto_self .., hcons.attended.not_mem (by simp [hlook.call, Handler.took])⟩

/-! ### Replies and ids -/

/-- Only a lookup takes a handler beyond it. -/
theorem HandlerStep.looked_up (h : HandlerStep j s s') (hi : (s'.handlers i).beyond c) :
    (s.handlers i).beyond c ∨ j = i ∧ LooksUp i c s := by
  rcases eq_or_ne i j with rfl | hij
  · cases h with
    | stays => exact Or.inl hi
    | starts new h' hnew =>
      rw [goto_self] at hi
      rcases hnew with ⟨req, made, rfl⟩ | ⟨c', rfl⟩ <;> exact hi.elim
    | refused res h' =>
      rw [goto_self] at hi
      exact hi.elim
    | created cfg M h' =>
      rw [goto_self] at hi
      exact hi.elim
    | missing c' hlook =>
      rw [goto_self] at hi
      exact Or.inr ⟨rfl, hi ▸ hlook⟩
    | found c' hlook =>
      rw [goto_self] at hi
      exact Or.inr ⟨rfl, hi ▸ hlook⟩
    | entered c' reply slot h' =>
      rw [goto_self] at hi
      rw [h']
      split at hi <;> exact Or.inl hi
    | released c' reply h' =>
      rw [goto_self] at hi
      rw [h']
      exact Or.inl hi
  · rw [h.handlers_ne hij] at hi
    exact Or.inl hi

theorem step_looked_up {e : ServiceEvent} (h : ((s.step e).handlers i).beyond c) :
    (s.handlers i).beyond c ∨ e = .advance i ∧ LooksUp i c s := by
  rcases (handler_step s e).looked_up h with hold | ⟨he, hlook⟩
  · exact Or.inl hold
  · -- a request that arrives does not move a busy handler
    cases e with
    | advance j => exact Or.inr ⟨congrArg ServiceEvent.advance he, hlook⟩
    | initSession j req made =>
      obtain rfl : j = i := he
      simp only [Service.step, hlook.call] at h
      exact h.elim
    | call j c' =>
      obtain rfl : j = i := he
      simp only [Service.step, hlook.call] at h
      exact h.elim

/-- The session of an id that was handed out is in the map. -/
def HandedOut (s : Service) : Prop :=
  ∀ i res, s.handlers i = .initReplied res → res.ok = true → (s.sessions res.sessionId).isSome

theorem HandedOut.stepped (hout : HandedOut s) (h : HandlerStep j s s') : HandedOut s' := by
  intro i res hi hok
  have hold (hi : s.handlers i = .initReplied res) : (s'.sessions res.sessionId).isSome := h.isSome (hout i res hi hok)
  rcases eq_or_ne i j with rfl | hij
  · cases h with
    | stays => exact hold hi
    | starts new h' hnew =>
      rw [goto_self] at hi
      rcases hnew with ⟨req, made, rfl⟩ | ⟨c', rfl⟩ <;> cases hi
    | refused res' h' hres =>
      rw [goto_self] at hi
      cases hi
      rw [hres] at hok
      cases hok
    | created cfg M h' =>
      rw [goto_self] at hi
      cases hi
      simp [sessionCreated]
    | missing c' hlook =>
      rw [goto_self] at hi
      cases hi
    | found c' hlook =>
      rw [goto_self] at hi
      cases hi
    | entered c' reply slot h' =>
      rw [goto_self] at hi
      split at hi <;> cases hi
    | released c' reply h' =>
      rw [goto_self] at hi
      cases hi
  · rw [h.handlers_ne hij] at hi
    exact hold hi

end Step

/-! ### Whole runs -/

theorem consistent_exec (es : List ServiceEvent) : Consistent (exec Service.step .fresh es) :=
  exec_inv_free Consistent consistent_step fresh_consistent es

theorem handedOut_exec (es : List ServiceEvent) : HandedOut (exec Service.step .fresh es) :=
  exec_inv_free HandedOut (fun s e h => h.stepped (handler_step s e)) (by simp [HandedOut, Service.fresh]) es

/-- A call of handler `i` on a session that is in the map at the lookup is served, any other turned away. -/
theorem lookup_decides {before after : List ServiceEvent} {i : ℕ} {c : SessionCall}
    (hlook : LooksUp i c (exec Service.step .fresh before)) :
    let found := (exec Service.step .fresh before).sessions c.sessionId
    let s := exec Service.step .fresh (before ++ .advance i :: after)
    (found.isSome → Admitted i c s) ∧ (found = none → TurnedAway i c s) := by
  intro found s
  have hs : s = exec Service.step ((exec Service.step .fresh before).step (.advance i)) after := exec_append ..
  obtain ⟨hin, hout⟩ := hlook.decides (consistent_exec before)
  rw [hs]
  exact ⟨fun hsome => exec_inv_free (Admitted i c) (fun s e h => h.stepped (handler_step s e)) (hin hsome) after,
    fun hnone => exec_inv_free (TurnedAway i c) (fun s e h => h.stepped (handler_step s e)) (hout hnone) after⟩

/-- Behind every reply there is a lookup. -/
theorem lookup_of_beyond {es : List ServiceEvent} {i : ℕ} {c : SessionCall}
    (h : ((exec Service.step .fresh es).handlers i).beyond c) :
    ∃ before after, es = before ++ .advance i :: after ∧ LooksUp i c (exec Service.step .fresh before) := by
  induction es using List.reverseRecOn with
  | nil => exact h.elim
  | append_singleton es e ih =>
    rw [exec_append] at h
    rcases step_looked_up h with hold | ⟨rfl, hlook⟩
    · obtain ⟨before, after, rfl, hlook⟩ := ih hold
      exact ⟨before, after ++ [e], by simp, hlook⟩
    · exact ⟨es, [], rfl, hlook⟩

/-- SESSION ISOLATION: in every interleaving of the handlers, no two handshakes get one id, and the session of
    every id is in the map from then on; every session is in the state, and has given the replies, of a session
    that is alone with the calls that took its lock, in the order in which they took it; no handler takes a lock
    twice. A call whose session is in the map when it looks it up goes to the lock and replies what it did there,
    whatever else is in the map; one whose session is not is answered so; and every reply is one of the two. -/
theorem sessions_isolated (es : List ServiceEvent) :
    let s := exec Service.step .fresh es
    (∀ i j res res', s.handlers i = .initReplied res → s.handlers j = .initReplied res' →
      res.ok = true → res'.ok = true → res.sessionId = res'.sessionId → i = j) ∧
    (∀ i res, s.handlers i = .initReplied res → res.ok = true → (s.sessions res.sessionId).isSome) ∧
    (∀ sid slot, s.sessions sid = some slot →
      slot.session = final slot.act .fresh (callsOf sid s.log) ∧
      repliesOf sid s.log = answers slot.act .fresh (callsOf sid s.log)) ∧
    (s.log.map Taken.handler).Nodup ∧
    (∀ before after i c, es = before ++ .advance i :: after → LooksUp i c (exec Service.step .fresh before) →
      let found := (exec Service.step .fresh before).sessions c.sessionId
      (found.isSome → Admitted i c s) ∧ (found = none → TurnedAway i c s)) ∧
    (∀ i c reply, s.handlers i = .replied c reply →
      ∃ before after, es = before ++ .advance i :: after ∧ LooksUp i c (exec Service.step .fresh before)) := by
  intro s
  have h : Consistent s := consistent_exec es
  refine ⟨h.issued.distinct, handedOut_exec es, fun sid slot hslot => ?_, h.attended.once, ?_, ?_⟩
  · exact ⟨(h.separate.solo sid slot hslot).session, (h.separate.solo sid slot hslot).replies⟩
  · rintro before after i c rfl hlook
    exact lookup_decides hlook
  · intro i c reply hi
    refine lookup_of_beyond ?_
    rw [show (exec Service.step .fresh es).handlers i = .replied c reply from hi]
    exact rfl

/-- A handshake; a Reset of the session it made and one of a session that nobody made, looked up in turn. -/
theorem sessions_isolated_two :
    let es : List ServiceEvent :=
      [.initSession 0 ⟨"t", ""⟩ (some (smallConfig, constModel [])), .advance 0, .call 1 (.reset ⟨1⟩),
        .call 2 (.reset ⟨9⟩), .advance 2, .advance 1, .advance 1]
    let s := exec Service.step .fresh es
    Admitted 1 (.reset ⟨1⟩) s ∧ TurnedAway 2 (.reset ⟨9⟩) s := by
  intro es s
  obtain ⟨-, -, -, -, hlookup, -⟩ := sessions_isolated es
  constructor
  · exact (hlookup (es.take 5) (es.drop 6) 1 _ rfl ⟨rfl, rfl⟩).1 rfl
  · exact (hlookup (es.take 4) (es.drop 5) 2 _ rfl ⟨rfl, rfl⟩).2 rfl

end DsparkEdge
