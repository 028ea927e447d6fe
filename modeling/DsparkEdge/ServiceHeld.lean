import DsparkEdge.ServiceLocks
import Mathlib.Algebra.Order.BigOperators.Group.Finset

/-! Who holds the mutexes of the service, and that every RPC is answered. A mutex is held by the handler
    whose place says so and by no other; a session that is in the map stays there, so a pointer into it
    stays good. A handler wants `sessions_mtx_` with empty hands, and a session's mutex with at most
    `sessions_mtx_` in hand:

        sessions_mtx_ (0)  <  session's mtx (1)

    Hence no deadlock. Every step of a handler that is not blocked brings it closer to its reply. -/

namespace DsparkEdge

open Locks Runs

/-! ### What a handler holds -/

def Place.holdsMap : Place → Bool
  | .creating _ _ => true
  | .created _ => true
  | .looking _ => true
  | .missing _ => true
  | .located _ => true
  | .found c => c.isReset
  | .inside c _ => c.isReset
  | .unlocked _ _ => true
  | .notified _ _ => true
  | _ => false

/-- The session whose mutex the handler holds. -/
def Place.session : Place → Option ℕ
  | .inside c _ => some c.sessionId
  | _ => none

/-- The session the handler has a pointer to. -/
def Place.pointer : Place → Option ℕ
  | .located c => some c.sessionId
  | .found c => some c.sessionId
  | .inside c _ => some c.sessionId
  | _ => none

/-- The mutexes are held as the places say, every pointer leads into the map, and `get_session` is for
    Prefill and Draft only. -/
structure Held (s : LockService) : Prop where
  map : ∀ i, s.sessionsMtx = some i ↔ (s.places i).holdsMap = true
  session : ∀ i sid, s.mtx sid = some i ↔ (s.places i).session = some sid
  pointer : ∀ i sid, (s.places i).pointer = some sid → (s.sessions sid).isSome
  located : ∀ i c, s.places i = .located c → c.isReset = false

/-- Handler `i` moved to `p`: the mutexes follow it and are otherwise as they were, and no session left the
    map. -/
structure Moved (i : ℕ) (p : Place) (s s' : LockService) : Prop where
  places : s'.places = Function.update s.places i p
  map : s'.sessionsMtx = some i ↔ p.holdsMap = true
  mapOther : ∀ j, j ≠ i → (s'.sessionsMtx = some j ↔ s.sessionsMtx = some j)
  session : ∀ sid, s'.mtx sid = some i ↔ p.session = some sid
  sessionOther : ∀ j sid, j ≠ i → (s'.mtx sid = some j ↔ s.mtx sid = some j)
  pointer : ∀ sid, p.pointer = some sid → (s'.sessions sid).isSome
  located : ∀ c, p = .located c → c.isReset = false
  stay : ∀ sid, (s.sessions sid).isSome → (s'.sessions sid).isSome

variable {s s' : LockService} {i : ℕ} {p : Place}

theorem Held.moved (h : Held s) (hm : Moved i p s s') : Held s' where
  map := by
    intro j
    rcases eq_or_ne j i with rfl | hne
    · rw [hm.places, Function.update_self]
      exact hm.map
    · rw [hm.places, Function.update_of_ne hne, hm.mapOther j hne]
      exact h.map j
  session := by
    intro j sid
    rcases eq_or_ne j i with rfl | hne
    · rw [hm.places, Function.update_self]
      exact hm.session sid
    · rw [hm.places, Function.update_of_ne hne, hm.sessionOther j sid hne]
      exact h.session j sid
  pointer := by
    intro j sid hj
    rcases eq_or_ne j i with rfl | hne
    · rw [hm.places, Function.update_self] at hj
      exact hm.pointer sid hj
    · rw [hm.places, Function.update_of_ne hne] at hj
      exact hm.stay sid (h.pointer j sid hj)
  located := by
    intro j c hj
    rcases eq_or_ne j i with rfl | hne
    · rw [hm.places, Function.update_self] at hj
      exact hm.located c hj
    · rw [hm.places, Function.update_of_ne hne] at hj
      exact h.located j c hj

/-- A move that takes and releases nothing. -/
theorem moved_goto (h : Held s) (hmap : p.holdsMap = (s.places i).holdsMap)
    (hsession : p.session = (s.places i).session) (hpointer : ∀ sid, p.pointer = some sid → (s.sessions sid).isSome)
    (hlocated : ∀ c, p = .located c → c.isReset = false) : Moved i p s (s.goto i p) where
  places := rfl
  map := by rw [hmap]; exact h.map i
  mapOther := fun _ _ => Iff.rfl
  session := by rw [hsession]; exact h.session i
  sessionOther := fun _ _ _ => Iff.rfl
  pointer := hpointer
  located := hlocated
  stay := fun _ => id

theorem moved_lockSessions (h : Held s) (hfree : s.sessionsMtx = none) (hmap : p.holdsMap = true)
    (hsession : p.session = (s.places i).session) (hpointer : p.pointer = none) :
    Moved i p s (s.lockSessions i p) := by
  have heq : s.lockSessions i p = { s with sessionsMtx := some i }.goto i p := by
    simp [LockService.lockSessions, hfree]
  rw [heq]
  refine ⟨rfl, by simp [hmap, LockService.goto], fun j hj => ?_, ?_, fun _ _ _ => Iff.rfl, by simp [hpointer],
    (by rintro c rfl; cases hpointer), fun _ => id⟩
  · simp [LockService.goto, hfree, hj.symm]
  · rw [hsession]
    exact h.session i

theorem moved_unlockSessions (h : Held s) (hmap : (s.places i).holdsMap = true) (hnot : p.holdsMap = false)
    (hsession : p.session = (s.places i).session) (hpointer : ∀ sid, p.pointer = some sid → (s.sessions sid).isSome) :
    Moved i p s (s.unlockSessions i p) := by
  have hmine := (h.map i).mpr hmap
  refine ⟨rfl, by simp [hnot, LockService.unlockSessions, LockService.goto], fun j hj => ?_, ?_,
    fun _ _ _ => Iff.rfl, hpointer, (by rintro c rfl; cases hnot), fun _ => id⟩
  · simp [LockService.unlockSessions, LockService.goto, hmine, hj.symm]
  · rw [hsession]
    exact h.session i

theorem moved_lockSession (h : Held s) {sid : ℕ} (hfree : s.mtx sid = none)
    (hmap : p.holdsMap = (s.places i).holdsMap) (hnone : (s.places i).session = none)
    (hsession : p.session = some sid) (hpointer : ∀ sid, p.pointer = some sid → (s.sessions sid).isSome) :
    Moved i p s (s.lockSession i sid p) := by
  have heq : s.lockSession i sid p = { s with mtx := Function.update s.mtx sid (some i) }.goto i p := by
    simp [LockService.lockSession, hfree]
  rw [heq]
  refine ⟨rfl, by rw [hmap]; exact h.map i, fun _ _ => Iff.rfl, fun sid' => ?_, fun j sid' hj => ?_, hpointer,
    (by rintro c rfl; cases hsession), fun _ => id⟩
  · rcases eq_or_ne sid' sid with rfl | hne
    · simp [LockService.goto, hsession]
    · have hother : s.mtx sid' ≠ some i := by
        rw [Ne, h.session i sid', hnone]
        simp
      simp [LockService.goto, hsession, hne, hne.symm, hother]
  · rcases eq_or_ne sid' sid with rfl | hne
    · simp [LockService.goto, hfree, hj.symm]
    · simp [LockService.goto, hne]

theorem moved_unlockSession (h : Held s) {sid : ℕ} (hmap : p.holdsMap = (s.places i).holdsMap)
    (hmine : (s.places i).session = some sid) (hnone : p.session = none) (hpointer : p.pointer = none) :
    Moved i p s (s.unlockSession i sid p) := by
  have howned : s.mtx sid = some i := (h.session i sid).mpr hmine
  refine ⟨rfl, by rw [hmap]; exact h.map i, fun _ _ => Iff.rfl, fun sid' => ?_, fun j sid' hj => ?_,
    by simp [hpointer], (by rintro c rfl; cases hpointer), fun _ => id⟩
  · rcases eq_or_ne sid' sid with rfl | hne
    · simp [LockService.unlockSession, LockService.goto, hnone]
    · have hother : s.mtx sid' ≠ some i := by
        rw [Ne, h.session i sid', hmine]
        simpa using hne.symm
      simp [LockService.unlockSession, LockService.goto, hne, hnone, hother]
  · rcases eq_or_ne sid' sid with rfl | hne
    · simp [LockService.unlockSession, LockService.goto, howned, hj.symm]
    · simp [LockService.unlockSession, LockService.goto, hne]

/-! ### What a handler wants, and how far it is from its reply -/

inductive Mutex where
  | sessions
  | session (sid : ℕ)

def Mutex.rank : Mutex → ℕ
  | .sessions => 0
  | .session _ => 1

def LockService.owner (s : LockService) : Mutex → Option ℕ
  | .sessions => s.sessionsMtx
  | .session sid => s.mtx sid

/-- The mutex the handler's next step takes. -/
def Place.wants : Place → Option Mutex
  | .init req made => if req.targetModelId.isEmpty || made.isNone then none else some .sessions
  | .call _ => some .sessions
  | .found c => some (.session c.sessionId)
  | _ => none

/-- The handler has an RPC and has not replied. -/
def Place.pending : Place → Bool
  | .idle => false
  | .initReplied _ => false
  | .replied _ _ => false
  | _ => true

def LockService.Enabled (s : LockService) (i : ℕ) : Prop :=
  (s.places i).pending = true ∧ ¬Blocked s.owner (fun j => (s.places j).wants) i

/-- A bound on the stages that are left, and the release of the session's mutex. -/
def Stage.work : Stage → ℕ
  | .prefill req _ => req.tokens.length + 3
  | .inject _ _ _ rest => rest.length + 2
  | .guard req _ => req.acceptedTokens.length + 8
  | .truncate req _ => req.acceptedTokens.length + 7
  | .accept _ _ _ rest => rest.length + 6
  | .noise _ _ => 5
  | .keep _ _ => 4
  | .verdict _ _ => 3
  | .preview _ => 2
  | .clear => 3
  | .restart => 2
  | .done _ => 1

/-- A bound on the steps to the reply. -/
def Place.work : Place → ℕ
  | .idle => 0
  | .init _ _ => 3
  | .creating _ _ => 2
  | .created _ => 1
  | .initReplied _ => 0
  | .call c => (Stage.start c).work + 6
  | .looking c => (Stage.start c).work + 5
  | .missing _ => 1
  | .located c => (Stage.start c).work + 4
  | .found c => (Stage.start c).work + 3
  | .inside _ st => st.work + 2
  | .unlocked _ _ => 2
  | .notified _ _ => 1
  | .replied _ _ => 0

theorem length_chunks_le {α : Type*} {n : ℕ} (hn : 0 < n) (xs : List α) :
    (Blocks.chunks n xs).length ≤ xs.length := by
  induction xs using Blocks.chunks_induction hn with
  | nil => simp [Blocks.chunks_nil hn]
  | chunk xs hxs ih =>
    have hpos : 0 < xs.length := List.length_pos_iff.mpr hxs
    rw [Blocks.chunks_eq_cons hn hxs, List.length_cons]
    rw [List.length_drop] at ih
    omega

/-- A stage that is not the last is one less. -/
theorem stage_work (cfg : ModelConfig) (M : DraftModel) (s : Session) {st : Stage}
    (h : ∀ reply, st ≠ .done reply) : (st.step cfg M s).2.2.work < st.work := by
  cases st with
  | prefill req calls =>
    have hle := length_chunks_le cfg.ubatch_pos req.tokens
    simp only [Stage.step, Stage.work]
    omega
  | inject req calls j rest =>
    cases rest with
    | nil => simp [Stage.step, Stage.work]
    | cons chunk rest =>
      simp only [Stage.step]
      split <;> simp [Stage.work]
  | guard req calls =>
    simp only [Stage.step]
    split <;> simp [Stage.work]
  | truncate req calls =>
    have hle := length_chunks_le cfg.ubatch_pos req.acceptedTokens
    simp only [Stage.step, Stage.work]
    omega
  | accept req calls j rest =>
    cases rest with
    | nil => simp [Stage.step, Stage.work]
    | cons chunk rest =>
      simp only [Stage.step]
      split <;> simp [Stage.work]
  | noise req calls => simp [Stage.step, Stage.work]
  | keep req res => simp [Stage.step, Stage.work]
  | verdict req res => simp [Stage.step, Stage.work]
  | preview res => simp [Stage.step, Stage.work]
  | clear => simp [Stage.step, Stage.work]
  | restart => simp [Stage.step, Stage.work]
  | done reply => exact absurd rfl (h reply)

/-! ### One step -/

/-- The handler waits: the step changes nothing. -/
structure Waits (s : LockService) (i : ℕ) : Prop where
  same : s.advance i = s
  disabled : ¬s.Enabled i

/-- The handler moves on. -/
structure Advances (s : LockService) (i : ℕ) (p : Place) : Prop where
  moved : Moved i p s (s.advance i)
  closer : p.work < (s.places i).work

/-- A step that wants `sessions_mtx_`. -/
theorem advance_lockSessions (h : Held s) (heq : s.advance i = s.lockSessions i p)
    (hwants : (s.places i).wants = some .sessions) (hmap : p.holdsMap = true)
    (hsession : p.session = (s.places i).session) (hpointer : p.pointer = none)
    (hwork : p.work < (s.places i).work) : Waits s i ∨ Advances s i p := by
  cases hfree : s.sessionsMtx with
  | none =>
    refine Or.inr ⟨?_, hwork⟩
    rw [heq]
    exact moved_lockSessions h hfree hmap hsession hpointer
  | some j =>
    refine Or.inl ⟨?_, fun hen => hen.2 ⟨.sessions, j, hwants, hfree⟩⟩
    simp [heq, LockService.lockSessions, hfree]

/-- A step that wants the mutex of the session it has a pointer to. -/
theorem advance_lockSession (h : Held s) {c : SessionCall} (hi : s.places i = .found c) :
    Waits s i ∨ Advances s i (.inside c (.start c)) := by
  have heq : s.advance i = s.lockSession i c.sessionId (.inside c (.start c)) := by
    simp only [LockService.advance, hi]
  have hin : ∀ sid, (Place.found c).pointer = some sid → (s.sessions sid).isSome := by
    intro sid hsid
    exact h.pointer i sid (by rw [hi]; exact hsid)
  cases hfree : s.mtx c.sessionId with
  | none =>
    refine Or.inr ⟨?_, ?_⟩
    · rw [heq]
      exact moved_lockSession h hfree (by rw [hi]; rfl) (by rw [hi]; rfl) rfl hin
    · rw [hi]
      exact Nat.lt_succ_self _
  | some j =>
    have hwants : (s.places i).wants = some (.session c.sessionId) := by rw [hi]; rfl
    refine Or.inl ⟨?_, fun hen => hen.2 ⟨.session c.sessionId, j, hwants, hfree⟩⟩
    simp [heq, LockService.lockSession, hfree]

/-- A stage of a call moves nobody's mutex. -/
theorem advance_work (h : Held s) {c : SessionCall} {st : Stage} (hi : s.places i = .inside c st)
    (hst : ∀ reply, st ≠ .done reply) :
    ∃ slot, s.sessions c.sessionId = some slot ∧
      Advances s i (.inside c (st.step slot.cfg slot.model slot.session).2.2) := by
  have hsome : (s.sessions c.sessionId).isSome := h.pointer i c.sessionId (by rw [hi]; rfl)
  obtain ⟨slot, hslot⟩ := Option.isSome_iff_exists.mp hsome
  refine ⟨slot, hslot, ?_, ?_⟩
  · have heq : s.advance i = s.work i c st := by
      simp only [LockService.advance, hi]
    rw [heq, LockService.work, hslot]
    refine ⟨rfl, ?_, fun _ _ => Iff.rfl, ?_, fun _ _ _ => Iff.rfl, ?_, by simp, ?_⟩
    · have hmap := h.map i
      rw [hi] at hmap
      exact hmap
    · have hsession := h.session i
      rw [hi] at hsession
      exact hsession
    · intro sid hsid
      cases hsid
      simp [LockService.goto]
    · intro sid hsid
      rcases eq_or_ne sid c.sessionId with rfl | hne
      · simp [LockService.goto]
      · simpa [LockService.goto, hne] using hsid
  · rw [hi]
    exact Nat.add_lt_add_right (stage_work slot.cfg slot.model slot.session hst) 2

/-- A handler that is idle or has replied stays. -/
theorem waits_of_not_pending (hsame : s.advance i = s) (h : (s.places i).pending = false) : Waits s i :=
  ⟨hsame, fun hen => by rw [hen.1] at h; cases h⟩

/-- A step that takes nothing. -/
theorem advances_goto (h : Held s) (heq : s.advance i = s.goto i p) (hmap : p.holdsMap = (s.places i).holdsMap)
    (hsession : p.session = (s.places i).session) (hpointer : ∀ sid, p.pointer = some sid → (s.sessions sid).isSome)
    (hlocated : ∀ c, p = .located c → c.isReset = false) (hwork : p.work < (s.places i).work) : Advances s i p :=
  ⟨by rw [heq]; exact moved_goto h hmap hsession hpointer hlocated, hwork⟩

theorem advances_unlockSessions (h : Held s) (heq : s.advance i = s.unlockSessions i p)
    (hmap : (s.places i).holdsMap = true) (hnot : p.holdsMap = false) (hsession : p.session = (s.places i).session)
    (hpointer : ∀ sid, p.pointer = some sid → (s.sessions sid).isSome) (hwork : p.work < (s.places i).work) :
    Advances s i p :=
  ⟨by rw [heq]; exact moved_unlockSessions h hmap hnot hsession hpointer, hwork⟩

theorem advance_init (h : Held s) {req : InitSessionRequest} {made : Option (ModelConfig × DraftModel)}
    (hi : s.places i = .init req made) : Waits s i ∨ ∃ p, Advances s i p := by
  have hrefused : ∀ message, s.advance i = s.goto i (.initReplied { message := message }) →
      Advances s i (.initReplied { message := message }) := fun message heq =>
    advances_goto h heq (by rw [hi]; rfl) (by rw [hi]; rfl) (by simp [Place.pointer]) (by simp)
      (by rw [hi]; simp [Place.work])
  by_cases hempty : req.targetModelId.isEmpty
  · exact Or.inr ⟨_, hrefused "target_model_id required" (by simp [LockService.advance, hi, hempty])⟩
  · cases hmade : made with
    | none =>
      exact Or.inr ⟨_, hrefused "failed to initialize DSpark engine"
        (by simp [LockService.advance, hi, hempty, hmade])⟩
    | some e =>
      have heq : s.advance i = s.lockSessions i (.creating e.1 e.2) := by
        simp [LockService.advance, hi, hempty, hmade]
      have hwants : (s.places i).wants = some .sessions := by simp [hi, Place.wants, hempty, hmade]
      exact (advance_lockSessions h heq hwants rfl (by rw [hi]; rfl) rfl (by rw [hi]; simp [Place.work])).imp_right
        fun hadv => ⟨_, hadv⟩

/-- The new session: nothing else changes in the map. -/
theorem advance_creating (h : Held s) {cfg : ModelConfig} {M : DraftModel} (hi : s.places i = .creating cfg M) :
    Advances s i (.created (sessionCreated cfg s.nextSessionId)) := by
  have heq : s.advance i = s.insert i cfg M := by simp only [LockService.advance, hi]
  refine ⟨?_, by rw [hi]; simp [Place.work]⟩
  rw [heq]
  refine ⟨rfl, ?_, fun _ _ => Iff.rfl, ?_, fun _ _ _ => Iff.rfl, by simp [Place.pointer], by simp, fun sid hsid => ?_⟩
  · have hmap := h.map i
    rw [hi] at hmap
    exact hmap
  · have hsession := h.session i
    rw [hi] at hsession
    exact hsession
  · rcases eq_or_ne sid s.nextSessionId with rfl | hne
    · simp [LockService.insert, LockService.goto]
    · simpa [LockService.insert, LockService.goto, hne] using hsid

theorem advance_looking (h : Held s) {c : SessionCall} (hi : s.places i = .looking c) : ∃ p, Advances s i p := by
  cases hslot : s.sessions c.sessionId with
  | none =>
    have heq : s.advance i = s.goto i (.missing c) := by simp [LockService.advance, hi, LockService.look, hslot]
    exact ⟨_, advances_goto h heq (by rw [hi]; rfl) (by rw [hi]; rfl) (by simp [Place.pointer]) (by simp)
      (by rw [hi]; simp [Place.work])⟩
  | some slot =>
    have heq : s.advance i = s.goto i (if c.isReset then .found c else .located c) := by
      simp [LockService.advance, hi, LockService.look, hslot]
    have hin : (s.sessions c.sessionId).isSome := by rw [hslot]; rfl
    cases hreset : c.isReset with
    | true =>
      rw [hreset, if_pos rfl] at heq
      exact ⟨_, advances_goto h heq (by rw [hi]; exact hreset) (by rw [hi]; rfl)
        (by rintro sid hsid; cases hsid; exact hin) (by simp) (by rw [hi]; simp [Place.work])⟩
    | false =>
      rw [hreset, if_neg (by simp)] at heq
      exact ⟨_, advances_goto h heq (by rw [hi]; rfl) (by rw [hi]; rfl)
        (by rintro sid hsid; cases hsid; exact hin) (by rintro c' hc; cases hc; exact hreset)
        (by rw [hi]; simp [Place.work])⟩

/-- The release of the session's mutex. -/
theorem advance_release (h : Held s) {c : SessionCall} {reply : SessionReply}
    (hi : s.places i = .inside c (.done reply)) :
    Advances s i (if c.isReset then .unlocked c reply else .replied c reply) := by
  have heq : s.advance i = s.unlockSession i c.sessionId (if c.isReset then .unlocked c reply else .replied c reply) := by
    simp only [LockService.advance, hi]
  refine ⟨?_, ?_⟩
  · rw [heq]
    refine moved_unlockSession h ?_ (by rw [hi]; rfl) ?_ ?_
    · rw [hi]
      cases hreset : c.isReset <;> simp [Place.holdsMap, hreset]
    · split <;> rfl
    · split <;> rfl
  · rw [hi]
    split <;> simp [Place.work, Stage.work]

/-- The event of a Reset. -/
theorem advance_unlocked (h : Held s) {c : SessionCall} {reply : SessionReply}
    (hi : s.places i = .unlocked c reply) : Advances s i (.notified c reply) := by
  have hmoved : Moved i (.notified c reply) s (s.goto i (.notified c reply)) :=
    moved_goto h (by rw [hi]; rfl) (by rw [hi]; rfl) (by simp [Place.pointer]) (by simp)
  have heq : s.advance i =
      { s.goto i (.notified c reply) with queue := s.queue ++ [(c.sessionId, WatchEvent.reset)] } := by
    simp only [LockService.advance, hi]
    rfl
  refine ⟨?_, by rw [hi]; simp [Place.work]⟩
  rw [heq]
  exact ⟨hmoved.places, hmoved.map, hmoved.mapOther, hmoved.session, hmoved.sessionOther, hmoved.pointer,
    hmoved.located, hmoved.stay⟩

/-- WHAT A STEP DOES: the handler waits, or it moves on. -/
theorem advance_cases (h : Held s) (i : ℕ) : Waits s i ∨ ∃ p, Advances s i p := by
  have hstays : s.advance i = s → (s.places i).pending = false → Waits s i ∨ ∃ p, Advances s i p :=
    fun hsame hdone => Or.inl (waits_of_not_pending hsame hdone)
  cases hi : s.places i with
  | idle => exact hstays (by simp only [LockService.advance, hi]) (by rw [hi]; rfl)
  | init req made => exact advance_init h hi
  | creating cfg M => exact Or.inr ⟨_, advance_creating h hi⟩
  | created res =>
    have heq : s.advance i = s.unlockSessions i (.initReplied res) := by simp only [LockService.advance, hi]
    exact Or.inr ⟨_, advances_unlockSessions h heq (by rw [hi]; rfl) rfl (by rw [hi]; rfl) (by simp [Place.pointer])
      (by rw [hi]; simp [Place.work])⟩
  | initReplied res => exact hstays (by simp only [LockService.advance, hi]) (by rw [hi]; rfl)
  | call c =>
    have heq : s.advance i = s.lockSessions i (.looking c) := by simp only [LockService.advance, hi]
    exact (advance_lockSessions h heq (by rw [hi]; rfl) rfl (by rw [hi]; rfl) rfl (by rw [hi]; simp [Place.work])).imp_right
      fun hadv => ⟨_, hadv⟩
  | looking c => exact Or.inr (advance_looking h hi)
  | missing c =>
    have heq : s.advance i = s.unlockSessions i (.replied c c.notFound) := by simp only [LockService.advance, hi]
    exact Or.inr ⟨_, advances_unlockSessions h heq (by rw [hi]; rfl) rfl (by rw [hi]; rfl) (by simp [Place.pointer])
      (by rw [hi]; simp [Place.work])⟩
  | located c =>
    have heq : s.advance i = s.unlockSessions i (.found c) := by simp only [LockService.advance, hi]
    have hin : ∀ sid, (Place.found c).pointer = some sid → (s.sessions sid).isSome :=
      fun sid hsid => h.pointer i sid (by rw [hi]; exact hsid)
    exact Or.inr ⟨_, advances_unlockSessions h heq (by rw [hi]; rfl) (h.located i c hi) (by rw [hi]; rfl) hin
      (by rw [hi]; simp [Place.work])⟩
  | found c => exact (advance_lockSession h hi).imp_right fun hadv => ⟨_, hadv⟩
  | inside c st =>
    by_cases hdone : ∃ reply, st = .done reply
    · obtain ⟨reply, rfl⟩ := hdone
      exact Or.inr ⟨_, advance_release h hi⟩
    · obtain ⟨slot, -, hadv⟩ := advance_work h hi (not_exists.mp hdone)
      exact Or.inr ⟨_, hadv⟩
  | unlocked c reply => exact Or.inr ⟨_, advance_unlocked h hi⟩
  | notified c reply =>
    have heq : s.advance i = s.unlockSessions i (.replied c reply) := by simp only [LockService.advance, hi]
    exact Or.inr ⟨_, advances_unlockSessions h heq (by rw [hi]; rfl) rfl (by rw [hi]; rfl) (by simp [Place.pointer])
      (by rw [hi]; simp [Place.work])⟩
  | replied c reply => exact hstays (by simp only [LockService.advance, hi]) (by rw [hi]; rfl)

/-! ### Runs -/

theorem fresh_held : Held .fresh where
  map := by simp [LockService.fresh, Place.holdsMap]
  session := by simp [LockService.fresh, Place.session]
  pointer := by simp [LockService.fresh, Place.pointer]
  located := by simp [LockService.fresh]

theorem advance_held (h : Held s) (i : ℕ) : Held (s.advance i) := by
  rcases advance_cases h i with hwaits | ⟨p, hadv⟩
  · rw [hwaits.same]
    exact h
  · exact h.moved hadv.moved

/-- An RPC arrives at a free handler, which holds nothing. -/
theorem arrive_held (h : Held s) (hi : s.places i = .idle) (hmap : p.holdsMap = false) (hsession : p.session = none)
    (hpointer : p.pointer = none) : Held (s.goto i p) := by
  refine h.moved (moved_goto h (by rw [hi]; exact hmap) (by rw [hi]; exact hsession) (by simp [hpointer]) ?_)
  rintro c rfl
  cases hpointer

theorem held_step (s : LockService) (e : ServiceEvent) (h : Held s) : Held (s.step e) := by
  cases e with
  | initSession i req made =>
    rw [LockService.step]
    split
    case h_1 hi => exact arrive_held h hi rfl rfl rfl
    case h_2 => exact h
  | call i c =>
    rw [LockService.step]
    split
    case h_1 hi => exact arrive_held h hi rfl rfl rfl
    case h_2 => exact h
  | advance i => exact advance_held h i

theorem reachable_held (es : List ServiceEvent) : Held (exec LockService.step .fresh es) :=
  exec_inv_free Held held_step fresh_held es

/-- MUTUAL EXCLUSION: in every interleaving a session's engine has at most one handler inside, the handlers
    that change or read the map exclude each other, and a pointer from `get_session` stays good. -/
theorem engines_exclusive (es : List ServiceEvent) :
    let s := exec LockService.step .fresh es
    (∀ i j sid, (s.places i).session = some sid → (s.places j).session = some sid → i = j) ∧
    (∀ i j, (s.places i).holdsMap = true → (s.places j).holdsMap = true → i = j) ∧
    ∀ i sid, (s.places i).pointer = some sid → (s.sessions sid).isSome := by
  have h := reachable_held es
  refine ⟨fun i j sid hi hj => ?_, fun i j hi hj => ?_, h.pointer⟩
  · rw [← h.session] at hi hj
    exact Option.some.inj (hi.symm.trans hj)
  · rw [← h.map] at hi hj
    exact Option.some.inj (hi.symm.trans hj)

/-! ### Every RPC is answered -/

/-- Who wants a mutex holds no session's, and holds the map's only if he wants a session's. -/
theorem emptyHanded {l : Mutex} (h : p.wants = some l) :
    p.session = none ∧ (p.holdsMap = true → ∃ sid, l = .session sid) := by
  cases p with
  | init req made => exact ⟨rfl, fun hmap => by cases hmap⟩
  | call c => exact ⟨rfl, fun hmap => by cases hmap⟩
  | found c =>
    cases h
    exact ⟨rfl, fun _ => ⟨_, rfl⟩⟩
  | _ => cases h

theorem upwards (h : Held s) :
    Upwards s.owner (fun i => (s.places i).wants) (fun i => (s.places i).pending = true) Mutex.rank where
  busy := by
    intro l i hi
    cases l with
    | sessions =>
      have hmap := (h.map i).mp hi
      cases hp : s.places i <;> rw [hp] at hmap <;> first | rfl | cases hmap
    | session sid =>
      have hsession := (h.session i sid).mp hi
      cases hp : s.places i <;> rw [hp] at hsession <;> first | rfl | cases hsession
  above := by
    intro i l l' hwants howner
    obtain ⟨hnone, hmap⟩ := emptyHanded hwants
    cases l' with
    | sessions =>
      obtain ⟨sid, rfl⟩ := hmap ((h.map i).mp howner)
      exact Nat.zero_lt_one
    | session sid =>
      have hsession := (h.session i sid).mp howner
      rw [hnone] at hsession
      cases hsession

theorem Mutex.rank_le (l : Mutex) : l.rank ≤ 1 := by
  cases l <;> simp [Mutex.rank]

/-- As long as an RPC is open, some handler can go on. -/
theorem exists_enabled (h : Held s) (hi : (s.places i).pending = true) : ∃ j, s.Enabled j :=
  exists_unblocked (upwards h) Mutex.rank_le hi

/-- Handlers from `n` on are free. -/
structure Below (n : ℕ) (s : LockService) : Prop where
  held : Held s
  free : ∀ i, n ≤ i → s.places i = .idle

/-- What is left to do for the first `n` handlers. -/
def LockService.left (n : ℕ) (s : LockService) : ℕ := ∑ i ∈ Finset.range n, (s.places i).work

theorem lowers (n : ℕ) : Lowers LockService.advance LockService.Enabled (Below n) (LockService.left n) where
  keeps := by
    intro s i h hen
    refine ⟨advance_held h.held i, fun j hj => ?_⟩
    have hi : i ≠ j := by
      rintro rfl
      rw [LockService.Enabled, h.free i hj] at hen
      cases hen.1
    rcases advance_cases h.held i with hwaits | ⟨p, hadv⟩
    · rw [hwaits.same]
      exact h.free j hj
    · rw [hadv.moved.places, Function.update_of_ne hi.symm]
      exact h.free j hj
  lowers := by
    intro s i h hen
    have hi : i < n := by
      by_contra hge
      rw [LockService.Enabled, h.free i (Nat.le_of_not_lt hge)] at hen
      cases hen.1
    rcases advance_cases h.held i with hwaits | ⟨p, hadv⟩
    · exact absurd hen hwaits.disabled
    · refine Finset.sum_lt_sum (fun j _ => ?_) ⟨i, Finset.mem_range.mpr hi, ?_⟩
      · rw [hadv.moved.places]
        rcases eq_or_ne j i with rfl | hne
        · rw [Function.update_self]
          exact hadv.closer.le
        · rw [Function.update_of_ne hne]
      · rw [hadv.moved.places, Function.update_self]
        exact hadv.closer

/-- The handler an event is about. -/
def serviceHandler : ServiceEvent → ℕ
  | .initSession i _ _ => i
  | .call i _ => i
  | .advance i => i

theorem step_places (h : Held s) (e : ServiceEvent) {j : ℕ} (hj : j ≠ serviceHandler e) :
    (s.step e).places j = s.places j := by
  cases e with
  | initSession i req made =>
    rw [LockService.step]
    split
    · exact Function.update_of_ne hj _ _
    · rfl
  | call i c =>
    rw [LockService.step]
    split
    · exact Function.update_of_ne hj _ _
    · rfl
  | advance i =>
    rw [LockService.step]
    rcases advance_cases h i with hwaits | ⟨p, hadv⟩
    · rw [hwaits.same]
    · rw [hadv.moved.places]
      exact Function.update_of_ne hj _ _

/-- Only finitely many handlers take part in a run. -/
theorem exists_below (es : List ServiceEvent) : ∃ n, Below n (exec LockService.step .fresh es) := by
  induction es using List.reverseRecOn with
  | nil => exact ⟨0, fresh_held, fun _ _ => rfl⟩
  | append_singleton es e ih =>
    obtain ⟨n, hheld, hfree⟩ := ih
    rw [exec_append]
    refine ⟨max n (serviceHandler e + 1), held_step _ e hheld, fun j hj => ?_⟩
    have hge := max_le_iff.mp hj
    rw [exec_cons, exec_nil, step_places hheld e (by omega)]
    exact hfree j hge.1

/-- Where no handler can go on, no RPC is open. -/
theorem answered_of_disabled (h : Held s) (hend : ∀ j, ¬s.Enabled j) (i : ℕ) : (s.places i).pending = false := by
  rw [← Bool.not_eq_true]
  intro hi
  obtain ⟨j, hj⟩ := exists_enabled h hi
  exact hend j hj

/-- EVERY RPC IS ANSWERED: in every state the handlers reach, as long as an RPC is open some handler is not
    blocked; and if no new RPC arrives, however the handlers are scheduled, they take boundedly many steps,
    and once none of them can go on all of them have replied. -/
theorem every_call_answered (es : List ServiceEvent) :
    let s := exec LockService.step .fresh es
    (∀ i, (s.places i).pending = true → ∃ j, s.Enabled j) ∧
    (∃ n, ∀ sched, Along LockService.advance LockService.Enabled s sched → sched.length ≤ n ∧
      ((∀ j, ¬(exec LockService.advance s sched).Enabled j) →
        ∀ i, ((exec LockService.advance s sched).places i).pending = false)) ∧
    ∃ sched, Along LockService.advance LockService.Enabled s sched ∧
      ∀ i, ((exec LockService.advance s sched).places i).pending = false := by
  intro s
  obtain ⟨n, hbelow⟩ := exists_below es
  refine ⟨fun i hi => exists_enabled hbelow.held hi, ⟨s.left n, fun sched hsched => ⟨?_, ?_⟩⟩, ?_⟩
  · exact (Nat.le_add_right _ _).trans ((lowers n).bounded hbelow hsched)
  · exact answered_of_disabled ((lowers n).inv hbelow hsched).held
  · obtain ⟨sched, hsched, hend⟩ := (lowers n).exhausts hbelow
    exact ⟨sched, hsched, answered_of_disabled ((lowers n).inv hbelow hsched).held hend⟩

end DsparkEdge
