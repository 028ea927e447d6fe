import DsparkEdge.Lib.Runs
import DsparkEdge.Service
import Mathlib.Logic.Function.Basic

/-! The daemon's service over any number of sessions and handlers (`dspark_service_impl`). A handler is a
    thread that takes its critical sections one at a time:

        InitSession   make the engine │ sessions_mtx_: next id, insert
        Prefill       sessions_mtx_: find │ session's mtx: prefill
        Draft         sessions_mtx_: find │ session's mtx: guard, draft
        Reset         sessions_mtx_: find … session's mtx: reset … on_reset, release

    Reset keeps the map's mutex while it waits for the session's, so the map is closed to the other
    handlers meanwhile. The session pointer outlives its lock: sessions are never erased, which is also
    why the 64-bit id counter cannot come round. What the handlers queue for the watch renderer feeds
    nothing back and is left out. `log` is a ghost: the calls of all sessions in the order in which they
    took their session's lock. -/

namespace DsparkEdge

open Runs

/-- A call on a session, with what llama.cpp does during it. -/
inductive SessionCall where
  | prefill (req : PrefillRequest) (calls : LlamaCalls)
  | draft (req : DraftRequest) (calls : LlamaCalls)
  | reset (req : ResetRequest)

inductive SessionReply where
  | prefill (res : PrefillResponse)
  | draft (res : DraftResponse)
  | reset (res : ResetResponse)
  deriving DecidableEq, Repr

def SessionCall.sessionId : SessionCall → ℕ
  | .prefill req _ => req.sessionId
  | .draft req _ => req.sessionId
  | .reset req => req.sessionId

def SessionCall.isReset : SessionCall → Bool
  | .reset _ => true
  | _ => false

/-- The answer to a call on a session that is not in the map. -/
def SessionCall.notFound : SessionCall → SessionReply
  | .prefill _ _ => .prefill { ok := false }
  | .draft _ _ => .draft { ok := false, error := "session not found" }
  | .reset _ => .reset { ok := false }

/-- What a handler does inside the session's lock. -/
def SessionCall.run (cfg : ModelConfig) (M : DraftModel) (s : Session) :
    SessionCall → SessionReply × Session
  | .prefill req calls => (.prefill (s.prefill cfg calls req).1, (s.prefill cfg calls req).2.2)
  | .draft req calls => (.draft (s.draft cfg M calls req).1, (s.draft cfg M calls req).2.2)
  | .reset _ => (.reset s.reset.1, s.reset.2.2)

/-- A session with the engine the factory made for it. -/
structure Slot where
  cfg : ModelConfig
  model : DraftModel
  session : Session

/-- Where a handler stands. -/
inductive Handler where
  | idle
  | init (req : InitSessionRequest) (made : Option (ModelConfig × DraftModel))
  | initReplied (res : InitSessionResponse)
  | call (c : SessionCall)
  | found (c : SessionCall)
  | resetDone (c : SessionCall) (reply : SessionReply)
  | replied (c : SessionCall) (reply : SessionReply)

/-- A call that took its session's lock. -/
structure Taken where
  handler : ℕ
  call : SessionCall
  reply : SessionReply

structure Service where
  sessions : ℕ → Option Slot
  nextSessionId : ℕ
  /-- The Reset handler that holds `sessions_mtx_`. -/
  holder : Option ℕ
  handlers : ℕ → Handler
  log : List Taken

def Service.fresh : Service := ⟨fun _ => none, 1, none, fun _ => .idle, []⟩

/-- An RPC arrives at a free handler, or handler `i` takes its next critical section. -/
inductive ServiceEvent where
  | initSession (i : ℕ) (req : InitSessionRequest) (made : Option (ModelConfig × DraftModel))
  | call (i : ℕ) (c : SessionCall)
  | advance (i : ℕ)

def Service.goto (i : ℕ) (h : Handler) (s : Service) : Service :=
  { s with handlers := Function.update s.handlers i h }

/-- The reply to a handshake that created session `sid`. -/
def sessionCreated (cfg : ModelConfig) (sid : ℕ) : InitSessionResponse where
  sessionId := sid
  ok := true
  message := "session created"
  draftModelId := "dspark"
  targetLayerIds := cfg.targetLayerIds.map toUint32
  hiddenSize := toUint32 cfg.hiddenSize
  blockSize := toUint32 cfg.blockSize
  featureDtype := "bf16"

/-- `InitSession` of handler `i`; an engine that cannot be made or initialised is `none`. -/
def Service.initSession (i : ℕ) (req : InitSessionRequest) (made : Option (ModelConfig × DraftModel))
    (s : Service) : Service :=
  if req.targetModelId.isEmpty then
    s.goto i (.initReplied { message := "target_model_id required" })
  else
    match made with
    | none => s.goto i (.initReplied { message := "failed to initialize DSpark engine" })
    | some (cfg, M) =>
      if s.holder.isSome then s
      else
        { s with
          sessions := Function.update s.sessions s.nextSessionId (some ⟨cfg, M, .fresh⟩)
          nextSessionId := s.nextSessionId + 1 }.goto i
            (.initReplied (sessionCreated cfg s.nextSessionId))

/-- The lookup of handler `i` under `sessions_mtx_`, which a Reset keeps. -/
def Service.find (i : ℕ) (c : SessionCall) (s : Service) : Service :=
  if s.holder.isSome then s
  else
    match s.sessions c.sessionId with
    | none => s.goto i (.replied c c.notFound)
    | some _ => { s with holder := if c.isReset then some i else none }.goto i (.found c)

/-- The critical section of handler `i` under the session's mutex. -/
def Service.enter (i : ℕ) (c : SessionCall) (s : Service) : Service :=
  match s.sessions c.sessionId with
  | none => s
  | some slot =>
    let r := c.run slot.cfg slot.model slot.session
    { s with
      sessions := Function.update s.sessions c.sessionId (some { slot with session := r.2 })
      log := s.log ++ [Taken.mk i c r.1] }.goto i
        (if c.isReset then .resetDone c r.1 else .replied c r.1)

def Service.step (s : Service) : ServiceEvent → Service
  | .initSession i req made =>
    match s.handlers i with
    | .idle => s.goto i (.init req made)
    | _ => s
  | .call i c =>
    match s.handlers i with
    | .idle => s.goto i (.call c)
    | _ => s
  | .advance i =>
    match s.handlers i with
    | .init req made => s.initSession i req made
    | .call c => s.find i c
    | .found c => s.enter i c
    | .resetDone c reply => { s with holder := none }.goto i (.replied c reply)
    | _ => s

@[simp] theorem goto_sessions (i : ℕ) (h : Handler) (s : Service) : (s.goto i h).sessions = s.sessions := rfl

@[simp] theorem goto_nextSessionId (i : ℕ) (h : Handler) (s : Service) :
    (s.goto i h).nextSessionId = s.nextSessionId := rfl

@[simp] theorem goto_log (i : ℕ) (h : Handler) (s : Service) : (s.goto i h).log = s.log := rfl

@[simp] theorem goto_self (i : ℕ) (h : Handler) (s : Service) : (s.goto i h).handlers i = h :=
  Function.update_self ..

theorem goto_ne {i j : ℕ} (hij : j ≠ i) (h : Handler) (s : Service) :
    (s.goto i h).handlers j = s.handlers j := Function.update_of_ne hij ..

/-- What a move of handler `i` did to a handler. -/
theorem goto_cases {i j : ℕ} {new h : Handler} {s : Service} (hj : (s.goto i new).handlers j = h) :
    j = i ∧ new = h ∨ j ≠ i ∧ s.handlers j = h := by
  rcases eq_or_ne j i with rfl | hne
  · exact Or.inl ⟨rfl, by simpa using hj⟩
  · exact Or.inr ⟨hne, by rwa [goto_ne hne] at hj⟩

/-! ### One session on its own -/

/-- The calls on session `sid`, in the order of its lock. -/
def callsOf (sid : ℕ) (log : List Taken) : List SessionCall :=
  (log.filter fun t => t.call.sessionId = sid).map Taken.call

/-- The replies to them. -/
def repliesOf (sid : ℕ) (log : List Taken) : List SessionReply :=
  (log.filter fun t => t.call.sessionId = sid).map Taken.reply

/-- One call on the session of a slot that is all alone. -/
def Slot.act (slot : Slot) (s : Session) (c : SessionCall) : SessionReply × Session :=
  c.run slot.cfg slot.model s

/-- The slot's session is what its own calls make of a new one, and so are the replies. -/
structure Solo (log : List Taken) (sid : ℕ) (slot : Slot) : Prop where
  session : slot.session = final slot.act .fresh (callsOf sid log)
  replies : repliesOf sid log = answers slot.act .fresh (callsOf sid log)

theorem callsOf_other {sid : ℕ} {t : Taken} (h : t.call.sessionId ≠ sid) (log : List Taken) :
    callsOf sid (log ++ [t]) = callsOf sid log ∧ repliesOf sid (log ++ [t]) = repliesOf sid log := by
  simp [callsOf, repliesOf, h]

theorem callsOf_own (t : Taken) (log : List Taken) :
    callsOf t.call.sessionId (log ++ [t]) = callsOf t.call.sessionId log ++ [t.call] ∧
      repliesOf t.call.sessionId (log ++ [t]) = repliesOf t.call.sessionId log ++ [t.reply] := by
  simp [callsOf, repliesOf]

/-- A call on another session changes nothing. -/
theorem Solo.other {log : List Taken} {sid : ℕ} {slot : Slot} (h : Solo log sid slot) {t : Taken}
    (ht : t.call.sessionId ≠ sid) : Solo (log ++ [t]) sid slot := by
  obtain ⟨hcalls, hreplies⟩ := callsOf_other ht log
  exact ⟨by rw [hcalls]; exact h.session, by rw [hcalls, hreplies]; exact h.replies⟩

/-- A call on the session continues its run. -/
theorem Solo.own {log : List Taken} {slot : Slot} (i : ℕ) (c : SessionCall)
    (h : Solo log c.sessionId slot) :
    Solo (log ++ [⟨i, c, (slot.act slot.session c).1⟩]) c.sessionId
      { slot with session := (slot.act slot.session c).2 } := by
  obtain ⟨hcalls, hreplies⟩ := callsOf_own ⟨i, c, (slot.act slot.session c).1⟩ log
  have hact : Slot.act { slot with session := (slot.act slot.session c).2 } = slot.act := rfl
  refine ⟨?_, ?_⟩
  · rw [hcalls, hact, final_concat, ← h.session]
  · rw [hcalls, hreplies, hact, answers_concat, ← h.session, ← h.replies]

/-- Every session is a run of its own calls, and every id in use is below the counter. -/
structure Separate (s : Service) : Prop where
  solo : ∀ sid slot, s.sessions sid = some slot → Solo s.log sid slot
  below : ∀ sid, (s.sessions sid).isSome → sid < s.nextSessionId
  known : ∀ t ∈ s.log, (s.sessions t.call.sessionId).isSome

theorem Separate.goto {s : Service} (h : Separate s) (i : ℕ) (new : Handler) : Separate (s.goto i new) :=
  ⟨h.solo, h.below, h.known⟩

/-- A new session has no calls yet. -/
theorem Separate.create {s : Service} (h : Separate s) (cfg : ModelConfig) (M : DraftModel) :
    Separate { s with
      sessions := Function.update s.sessions s.nextSessionId (some ⟨cfg, M, .fresh⟩)
      nextSessionId := s.nextSessionId + 1 } where
  solo := by
    intro sid slot hslot
    rcases eq_or_ne sid s.nextSessionId with rfl | hne
    · simp only [Function.update_self, Option.some.injEq] at hslot
      have hnone : ∀ t ∈ s.log, t.call.sessionId ≠ s.nextSessionId := by
        intro t ht heq
        have := h.below _ (h.known t ht)
        omega
      have hcalls : s.log.filter (fun t => t.call.sessionId = s.nextSessionId) = [] := by
        simpa using hnone
      rw [← hslot]
      exact ⟨by simp [callsOf, hcalls, final], by simp [callsOf, repliesOf, hcalls, answers]⟩
    · simp only [Function.update_of_ne hne] at hslot
      exact h.solo sid slot hslot
  below := by
    intro sid hsid
    rcases eq_or_ne sid s.nextSessionId with rfl | hne
    · exact Nat.lt_succ_self _
    · simp only [Function.update_of_ne hne] at hsid
      exact Nat.lt_succ_of_lt (h.below sid hsid)
  known := by
    intro t ht
    have hne : t.call.sessionId ≠ s.nextSessionId := (h.below _ (h.known t ht)).ne
    simp only [Function.update_of_ne hne]
    exact h.known t ht

/-- A call inside one session's lock continues that session's run and no other's. -/
theorem Separate.take {s : Service} (h : Separate s) (i : ℕ) {c : SessionCall} {slot : Slot}
    (hslot : s.sessions c.sessionId = some slot) :
    Separate { s with
      sessions := Function.update s.sessions c.sessionId
        (some { slot with session := (slot.act slot.session c).2 })
      log := s.log ++ [⟨i, c, (slot.act slot.session c).1⟩] } where
  solo := by
    intro sid slot' hslot'
    rcases eq_or_ne sid c.sessionId with rfl | hne
    · simp only [Function.update_self, Option.some.injEq] at hslot'
      rw [← hslot']
      exact (h.solo _ slot hslot).own i c
    · simp only [Function.update_of_ne hne] at hslot'
      exact (h.solo sid slot' hslot').other hne.symm
  below := by
    intro sid hsid
    rcases eq_or_ne sid c.sessionId with rfl | hne
    · exact h.below _ (by rw [hslot]; rfl)
    · simp only [Function.update_of_ne hne] at hsid
      exact h.below sid hsid
  known := by
    intro t ht
    rcases eq_or_ne t.call.sessionId c.sessionId with heq | hne
    · simp [heq]
    · simp only [Function.update_of_ne hne]
      rcases List.mem_append.mp ht with ht | ht
      · exact h.known t ht
      · rw [List.mem_singleton.mp ht] at hne
        exact absurd rfl hne

/-! ### Handlers and their entries in the log -/

/-- The handler has taken its session's lock with this entry: it has replied, or is about to. -/
def Handler.took (t : Taken) : Handler → Prop
  | .resetDone c reply => c = t.call ∧ reply = t.reply
  | .replied c reply => c = t.call ∧ reply = t.reply
  | _ => False

/-- Every handler is in the log at most once, and replies what its entry says. -/
structure Attended (s : Service) : Prop where
  took : ∀ t ∈ s.log, (s.handlers t.handler).took t
  once : (s.log.map Taken.handler).Nodup
  done : ∀ i c reply, s.handlers i = .resetDone c reply → ⟨i, c, reply⟩ ∈ s.log
  replied : ∀ i c reply, s.handlers i = .replied c reply → reply = c.notFound ∨ ⟨i, c, reply⟩ ∈ s.log

theorem Attended.of_eq {s s' : Service} (h : Attended s) (hh : s'.handlers = s.handlers)
    (hl : s'.log = s.log) : Attended s' :=
  ⟨by rw [hh, hl]; exact h.took, by rw [hl]; exact h.once, by rw [hh, hl]; exact h.done,
    by rw [hh, hl]; exact h.replied⟩

theorem Attended.goto {s : Service} (h : Attended s) {i : ℕ} {new : Handler}
    (htook : ∀ t ∈ s.log, t.handler = i → new.took t)
    (hdone : ∀ c reply, new = .resetDone c reply → ⟨i, c, reply⟩ ∈ s.log)
    (hreplied : ∀ c reply, new = .replied c reply → reply = c.notFound ∨ ⟨i, c, reply⟩ ∈ s.log) :
    Attended (s.goto i new) where
  took := by
    intro t ht
    rcases eq_or_ne t.handler i with heq | hne
    · rw [heq, goto_self]
      exact htook t ht heq
    · rw [goto_ne hne]
      exact h.took t ht
  once := h.once
  done := by
    intro j c reply hj
    rcases goto_cases hj with ⟨rfl, hnew⟩ | ⟨-, hj⟩
    · exact hdone c reply hnew
    · exact h.done j c reply hj
  replied := by
    intro j c reply hj
    rcases goto_cases hj with ⟨rfl, hnew⟩ | ⟨-, hj⟩
    · exact hreplied c reply hnew
    · exact h.replied j c reply hj

/-- A handler at a stage without an entry has none. -/
theorem Attended.not_mem {s : Service} (h : Attended s) {i : ℕ} (hi : ∀ t, ¬(s.handlers i).took t) :
    ∀ t ∈ s.log, t.handler ≠ i := by
  rintro t ht rfl
  exact hi t (h.took t ht)

/-- A handler without an entry gets one, and moves to a stage that says so. -/
theorem Attended.take {s : Service} (h : Attended s) {i : ℕ} {c : SessionCall} {reply : SessionReply}
    (hnone : ∀ t ∈ s.log, t.handler ≠ i) (sessions : ℕ → Option Slot) :
    Attended ({ s with sessions := sessions, log := s.log ++ [Taken.mk i c reply] }.goto i
      (if c.isReset then .resetDone c reply else .replied c reply)) where
  took := by
    intro t ht
    simp only [goto_log, List.mem_append, List.mem_singleton] at ht
    rcases ht with ht | rfl
    · rw [goto_ne (hnone t ht)]
      exact h.took t ht
    · rw [goto_self]
      split <;> exact ⟨rfl, rfl⟩
  once := by
    simp only [goto_log, List.map_append, List.map_cons, List.map_nil]
    rw [List.nodup_append]
    refine ⟨h.once, by simp, ?_⟩
    rintro j hj k hk rfl
    obtain ⟨t, ht, rfl⟩ := List.mem_map.mp hj
    exact hnone t ht (List.mem_singleton.mp hk)
  done := by
    intro j c' reply' hj
    rcases goto_cases hj with ⟨rfl, hnew⟩ | ⟨-, hj⟩
    · split at hnew
      · injection hnew with hc hr
        subst hc hr
        simp
      · cases hnew
    · exact List.mem_append_left _ (h.done j c' reply' hj)
  replied := by
    intro j c' reply' hj
    rcases goto_cases hj with ⟨rfl, hnew⟩ | ⟨-, hj⟩
    · split at hnew
      · cases hnew
      · injection hnew with hc hr
        subst hc hr
        simp
    · exact (h.replied j c' reply' hj).imp_right (List.mem_append_left _)

/-! ### Issued ids -/

/-- The ids of successful handshakes are below the counter and pairwise distinct. -/
structure Issued (s : Service) : Prop where
  below : ∀ i res, s.handlers i = .initReplied res → res.ok = true → res.sessionId < s.nextSessionId
  distinct : ∀ i j res res', s.handlers i = .initReplied res → s.handlers j = .initReplied res' →
    res.ok = true → res'.ok = true → res.sessionId = res'.sessionId → i = j

theorem Issued.of_eq {s s' : Service} (h : Issued s) (hh : s'.handlers = s.handlers)
    (hn : s'.nextSessionId = s.nextSessionId) : Issued s' :=
  ⟨by rw [hh, hn]; exact h.below, by rw [hh]; exact h.distinct⟩

theorem Issued.goto {s : Service} (h : Issued s) {i : ℕ} {new : Handler}
    (hnew : ∀ res, new = .initReplied res → res.ok = false) : Issued (s.goto i new) where
  below := by
    intro j res hj hok
    rcases goto_cases hj with ⟨-, heq⟩ | ⟨-, hj⟩
    · rw [hnew res heq] at hok; cases hok
    · exact h.below j res hj hok
  distinct := by
    intro j k res res' hj hk hok hok' hsid
    rcases goto_cases hj with ⟨-, heq⟩ | ⟨-, hj⟩
    · rw [hnew res heq] at hok; cases hok
    · rcases goto_cases hk with ⟨-, heq⟩ | ⟨-, hk⟩
      · rw [hnew res' heq] at hok'; cases hok'
      · exact h.distinct j k res res' hj hk hok hok' hsid

/-- The next id is a new one. -/
theorem Issued.create {s : Service} (h : Issued s) (i : ℕ) (cfg : ModelConfig)
    (sessions : ℕ → Option Slot) :
    Issued ({ s with sessions := sessions, nextSessionId := s.nextSessionId + 1 }.goto i
      (.initReplied (sessionCreated cfg s.nextSessionId))) where
  below := by
    intro j res hj hok
    rcases goto_cases hj with ⟨-, heq⟩ | ⟨-, hj⟩
    · injection heq with heq
      rw [← heq]
      exact Nat.lt_succ_self _
    · exact Nat.lt_succ_of_lt (h.below j res hj hok)
  distinct := by
    intro j k res res' hj hk hok hok' hsid
    rcases goto_cases hj with ⟨hji, hres⟩ | ⟨-, hj⟩ <;> rcases goto_cases hk with ⟨hki, hres'⟩ | ⟨-, hk⟩
    · rw [hji, hki]
    · have hlt := h.below k res' hk hok'
      injection hres with hres
      rw [← hsid, ← hres] at hlt
      exact absurd hlt (lt_irrefl _)
    · have hlt := h.below j res hj hok
      injection hres' with hres'
      rw [hsid, ← hres'] at hlt
      exact absurd hlt (lt_irrefl _)
    · exact h.distinct j k res res' hj hk hok hok' hsid

/-! ### Runs -/

structure Consistent (s : Service) : Prop where
  separate : Separate s
  attended : Attended s
  issued : Issued s

theorem fresh_consistent : Consistent .fresh where
  separate := ⟨by simp [Service.fresh], by simp [Service.fresh], by simp [Service.fresh]⟩
  attended := ⟨by simp [Service.fresh], by simp [Service.fresh], by simp [Service.fresh],
    by simp [Service.fresh]⟩
  issued := ⟨by simp [Service.fresh], by simp [Service.fresh]⟩

/-- A handler without an entry moves to a stage that claims none. -/
theorem Consistent.goto {s : Service} (h : Consistent s) {i : ℕ} {new : Handler}
    (hnone : ∀ t, ¬(s.handlers i).took t) (hinit : ∀ res, new = .initReplied res → res.ok = false)
    (hdone : ∀ c reply, new ≠ .resetDone c reply)
    (hreplied : ∀ c reply, new = .replied c reply → reply = c.notFound) : Consistent (s.goto i new) where
  separate := h.separate.goto i new
  attended := h.attended.goto (fun t ht hi => absurd hi (h.attended.not_mem hnone t ht))
    (fun c reply hc => absurd hc (hdone c reply)) (fun c reply hc => Or.inl (hreplied c reply hc))
  issued := h.issued.goto hinit

theorem consistent_initSession {s : Service} (h : Consistent s) {i : ℕ} (req : InitSessionRequest)
    (made : Option (ModelConfig × DraftModel)) (hnone : ∀ t, ¬(s.handlers i).took t) :
    Consistent (s.initSession i req made) := by
  have hrefused : ∀ message, Consistent (s.goto i (.initReplied { message := message })) := by
    intro message
    exact h.goto hnone (by rintro res heq; injection heq with heq; rw [← heq]) (by simp) (by simp)
  unfold Service.initSession
  split
  · exact hrefused _
  · split
    · exact hrefused _
    · split
      · exact h
      · rename_i cfg M _
        refine ⟨(h.separate.create cfg M).goto i _, ?_, h.issued.create i cfg _⟩
        refine Attended.goto ?_ ?_ (by simp) (by simp)
        · exact h.attended.of_eq rfl rfl
        · intro t ht hi
          exact absurd hi (h.attended.not_mem hnone t ht)

theorem consistent_find {s : Service} (h : Consistent s) {i : ℕ} (c : SessionCall)
    (hnone : ∀ t, ¬(s.handlers i).took t) : Consistent (s.find i c) := by
  rw [Service.find]
  split
  · exact h
  · split
    · exact h.goto hnone (by simp) (by simp) (by rintro c' reply heq; injection heq with hc hr; rw [← hr, hc])
    · have hheld : Consistent { s with holder := if c.isReset then some i else none } :=
        ⟨⟨h.separate.solo, h.separate.below, h.separate.known⟩, h.attended.of_eq rfl rfl,
          h.issued.of_eq rfl rfl⟩
      exact hheld.goto hnone (by simp) (by simp) (by simp)

theorem consistent_enter {s : Service} (h : Consistent s) {i : ℕ} (c : SessionCall)
    (hnone : ∀ t, ¬(s.handlers i).took t) : Consistent (s.enter i c) := by
  rw [Service.enter]
  split
  · exact h
  · rename_i slot hslot
    refine ⟨(h.separate.take i hslot).goto i _, h.attended.take (h.attended.not_mem hnone) _, ?_⟩
    simp only
    refine Issued.goto ?_ ?_
    · exact h.issued.of_eq rfl rfl
    · intro res hres
      split at hres <;> cases hres

theorem consistent_release {s : Service} (h : Consistent s) {i : ℕ} {c : SessionCall}
    {reply : SessionReply} (hi : s.handlers i = .resetDone c reply) :
    Consistent ({ s with holder := none }.goto i (.replied c reply)) where
  separate := ⟨h.separate.solo, h.separate.below, h.separate.known⟩
  attended := by
    refine Attended.goto ?_ ?_ (by simp) ?_
    · exact h.attended.of_eq rfl rfl
    · rintro t ht rfl
      have := h.attended.took t ht
      rw [hi] at this
      exact this
    · intro c' reply' heq
      injection heq with hc hr
      rw [← hc, ← hr]
      exact Or.inr (h.attended.done i c reply hi)
  issued := by
    refine Issued.goto ?_ (by simp)
    exact h.issued.of_eq rfl rfl

theorem consistent_step (s : Service) (e : ServiceEvent) (h : Consistent s) : Consistent (s.step e) := by
  unfold Service.step
  cases e with
  | initSession i req made =>
    simp only
    split
    · rename_i hi
      exact h.goto (by simp [hi, Handler.took]) (by simp) (by simp) (by simp)
    · exact h
  | call i c =>
    simp only
    split
    · rename_i hi
      exact h.goto (by simp [hi, Handler.took]) (by simp) (by simp) (by simp)
    · exact h
  | advance i =>
    simp only
    split
    · rename_i req made hi
      exact consistent_initSession h req made (by simp [hi, Handler.took])
    · rename_i c hi
      exact consistent_find h c (by simp [hi, Handler.took])
    · rename_i c hi
      exact consistent_enter h c (by simp [hi, Handler.took])
    · rename_i c reply hi
      exact consistent_release h hi
    · exact h

end DsparkEdge
