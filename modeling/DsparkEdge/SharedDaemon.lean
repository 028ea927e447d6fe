import DsparkEdge.Recording
import DsparkEdge.SharedRpc
import DsparkEdge.Transparent

/-! Servers that share a daemon, seen from one of them. Its RPCs are handlers of the daemon's service, whose steps
    interleave with those of the other servers' handlers; between two of its RPCs the others go on too.

        this server   ──Prefill, Draft, Reset──▶ session sid   ┐
        other servers ──handshakes, calls──────▶ other sessions┘ one map, one mutex each, one queue

    The daemon it meets is, reply by reply, the daemon it would have alone. -/

namespace DsparkEdge

open Runs

/-- A call this server made: how it went, and the service it met. -/
structure Made where
  slice : Slice
  call : SessionCall
  before : LockService

/-- The daemon's service; as a ghost, the calls of this server. -/
structure Shared where
  service : LockService
  made : List Made

/-- So far every call of this server was answered. -/
def Shared.AllAnswered (d : Shared) : Prop := ∀ m ∈ d.made, Answered m.slice m.call m.before

def Shared.rpc (sl : Slice) (c : SessionCall) (d : Shared) : Shared :=
  ⟨d.service.rpc sl c, d.made ++ [⟨sl, c, d.service⟩]⟩

/-- What happens to the RPCs of one call of the server half, and how they go at the daemon. -/
structure SharedLink where
  fate : Link
  prefill : Slice
  draft : Slice
  reset : Slice

/-- The stub of a client of the shared daemon. A Reset that does not arrive, or is refused, never reaches the
    service. -/
def sharedStub (l : SharedLink) : Stub Shared where
  prefill d req :=
    let d' := d.rpc l.prefill (.prefill req l.fate.prefill)
    match d'.service.places l.prefill.handler with
    | .replied _ (.prefill res) => (d', .ok, res)
    | _ => (d', .failed "unavailable", {})
  draft d req :=
    let d' := d.rpc l.draft (.draft req l.fate.draft)
    match d'.service.places l.draft.handler with
    | .replied _ (.draft res) => (d', .ok, res)
    | _ => (d', .failed "unavailable", {})
  reset d req :=
    match l.fate.reset with
    | .delivered =>
      let d' := d.rpc l.reset (.reset req)
      match d'.service.places l.reset.handler with
      | .replied _ (.reset res) => (d', .ok, res)
      | _ => (d', .failed "unavailable", {})
    | .undelivered => (d, .failed "unavailable", {})
    | .refused => (d, .ok, {})

inductive SharedEvent where
  | process (layerInp : LayerInp) (batch : LlamaBatch)
  | begin (l : SharedLink) (prompt : List ℤ)
  | draft (l : SharedLink) (dparams : List DraftParams)

/-- The event were the server alone. -/
def SharedEvent.alone : SharedEvent → EdgeEvent
  | .process layerInp batch => .process layerInp batch
  | .begin l prompt => .begin l.fate prompt
  | .draft l dparams => .draft l.fate dparams

abbrev SharedEdge := Server (Client Shared)

/-- The server right after the handshake. -/
def SharedEdge.fresh (session : ℕ) (golden : Option GoldenDir) (service : LockService) : SharedEdge :=
  Server.fresh ⟨session, true, 0, golden, ⟨service, []⟩⟩

def SharedEdge.daemon (s : SharedEdge) : Shared := (s.drafter.map Client.net).getD ⟨.fresh, []⟩

def SharedEdge.step (p : SpecParams) (s : SharedEdge) : SharedEvent → SharedEdge
  | .process layerInp batch => (s.process p layerInp batch).2
  | .begin l prompt => s.begin (grpcDrafter (sharedStub l)) prompt
  | .draft l dparams => (s.draft (grpcDrafter (sharedStub l)) p dparams).1

/-- What an event hands to the target. -/
def SharedEdge.handed (p : SpecParams) (s : SharedEdge) : SharedEvent → List ℤ
  | .draft l dparams => (s.draft (grpcDrafter (sharedStub l)) p dparams).2
  | _ => []

def SharedEdge.act (p : SpecParams) (s : SharedEdge) (e : SharedEvent) : List ℤ × SharedEdge :=
  (s.handed p e, s.step p e)

/-! ### One RPC -/

variable {sid : ℕ} {slot : Slot} {d : Session} {s : Shared} {l : SharedLink}

theorem sharedStub_prefill (l : SharedLink) (s : Shared) (req : PrefillRequest) :
    ((sharedStub l).prefill s req).1 = s.rpc l.prefill (.prefill req l.fate.prefill) := by
  simp only [sharedStub]
  split <;> rfl

theorem sharedStub_draft (l : SharedLink) (s : Shared) (req : DraftRequest) :
    ((sharedStub l).draft s req).1 = s.rpc l.draft (.draft req l.fate.draft) := by
  simp only [sharedStub]
  split <;> rfl

theorem sharedStub_reset (l : SharedLink) (s : Shared) (req : ResetRequest) : ((sharedStub l).reset s req).1 =
    if l.fate.reset = .delivered then s.rpc l.reset (.reset req) else s := by
  simp only [sharedStub]
  cases l.fate.reset with
  | delivered =>
    rw [if_pos rfl]
    simp only
    split <;> rfl
  | undelivered => rfl
  | refused => rfl

theorem AllAnswered.before {sl : Slice} {c : SessionCall} (h : (s.rpc sl c).AllAnswered) :
    s.AllAnswered ∧ Answered sl c s.service :=
  ⟨fun m hm => h m (List.mem_append_left _ hm), h _ (List.mem_append_right _ (List.mem_singleton.mpr rfl))⟩

theorem shared_closed (l : SharedLink) :
    Closed (fun c : Client Shared => c.net.AllAnswered) (grpcDrafter (sharedStub l)) := by
  refine grpcDrafter_closed Shared.AllAnswered (fun s req h => ?_) (fun s req h => ?_) fun s req h => ?_
  · rw [sharedStub_prefill] at h
    exact (AllAnswered.before h).1
  · rw [sharedStub_draft] at h
    exact (AllAnswered.before h).1
  · rw [sharedStub_reset] at h
    split at h
    · exact (AllAnswered.before h).1
    · exact h

theorem shared_prefill (l : SharedLink) {req : PrefillRequest} (hcalm : Calm req.sessionId slot d s.service)
    (h : ((sharedStub l).prefill s req).1.AllAnswered) :
    Calm req.sessionId slot (d.prefill slot.cfg l.fate.prefill req).2.2 ((sharedStub l).prefill s req).1.service := by
  rw [sharedStub_prefill] at h ⊢
  exact (rpc_served (c := .prefill req l.fate.prefill) hcalm (AllAnswered.before h).2).2

theorem shared_draft (l : SharedLink) {req : DraftRequest} (hcalm : Calm req.sessionId slot d s.service)
    (h : ((sharedStub l).draft s req).1.AllAnswered) :
    Calm req.sessionId slot (d.draft slot.cfg slot.model l.fate.draft req).2.2 ((sharedStub l).draft s req).1.service ∧
      ((sharedStub l).draft s req).2 = (.ok, (d.draft slot.cfg slot.model l.fate.draft req).1) := by
  rw [sharedStub_draft] at h ⊢
  obtain ⟨hreplied, hnext⟩ := rpc_served (c := .draft req l.fate.draft) hcalm (AllAnswered.before h).2
  refine ⟨hnext, ?_⟩
  have hplace : (s.rpc l.draft (.draft req l.fate.draft)).service.places l.draft.handler =
    .replied (.draft req l.fate.draft) (.draft (d.draft slot.cfg slot.model l.fate.draft req).1) := hreplied
  simp only [sharedStub, hplace]

theorem shared_reset (l : SharedLink) {req : ResetRequest} (hcalm : Calm req.sessionId slot d s.service)
    (h : ((sharedStub l).reset s req).1.AllAnswered) :
    Calm req.sessionId slot (if l.fate.reset = .delivered then d.reset.2.2 else d)
      ((sharedStub l).reset s req).1.service := by
  rw [sharedStub_reset] at h ⊢
  split
  case isTrue hfate =>
    rw [if_pos hfate] at h
    exact (rpc_served (c := .reset req) hcalm (AllAnswered.before h).2).2
  case isFalse => exact hcalm

/-! ### The client -/

/-- A client of the shared daemon, and one of a daemon of its own whose session is in the same state. -/
structure SharedClient (sid : ℕ) (slot : Slot) (c : Client Shared) (c' : Client Daemon) : Prop where
  ready : c.Ready sid
  ready' : c'.Ready sid
  prefillChunk : c.prefillChunk = c'.prefillChunk
  golden : c.golden = c'.golden
  calm : Calm sid slot c'.net.session c.net.service

theorem shared_alike (sid : ℕ) (slot : Slot) (l : SharedLink) :
    Alike (fun c : Client Shared => c.net.AllAnswered) (SharedClient sid slot) (grpcDrafter (sharedStub l))
      (grpcDrafter (daemonStub slot.cfg slot.model l.fate)) where
  closed := shared_closed l
  prefill := by
    intro c c' h tokens last hall
    obtain ⟨hready, hnet, -⟩ := client_prefill (sharedStub l) h.ready tokens last
    obtain ⟨hready', hnet', -⟩ := client_prefill (daemonStub slot.cfg slot.model l.fate) h.ready' tokens last
    obtain ⟨hgolden, hchunk⟩ := client_prefill_golden (sharedStub l) h.ready tokens last
    obtain ⟨hgolden', hchunk'⟩ := client_prefill_golden (daemonStub slot.cfg slot.model l.fate) h.ready' tokens last
    change (c.prefill (sharedStub l) tokens last).1.net.AllAnswered at hall
    rw [hnet] at hall
    refine ⟨hready, hready', ?_, ?_, ?_⟩
    · exact hchunk.trans (h.prefillChunk ▸ hchunk'.symm)
    · exact hgolden.trans (h.golden ▸ h.prefillChunk ▸ hgolden'.symm)
    · change Calm sid slot (Client.prefill _ c' tokens last).1.net.session (Client.prefill _ c tokens last).1.net.service
      rw [hnet, hnet']
      exact shared_prefill l h.calm hall
  draft := by
    intro c c' h req hall
    obtain ⟨hready, hnet, hres⟩ := client_draft (sharedStub l) h.ready req
    obtain ⟨hready', hnet', hres'⟩ := client_draft (daemonStub slot.cfg slot.model l.fate) h.ready' req
    obtain ⟨hgolden, hchunk⟩ := client_draft_golden (sharedStub l) h.ready req
    obtain ⟨hgolden', hchunk'⟩ := client_draft_golden (daemonStub slot.cfg slot.model l.fate) h.ready' req
    change (c.draft (sharedStub l) req).1.net.AllAnswered at hall
    rw [hnet] at hall
    obtain ⟨hcalm, hreply⟩ := shared_draft l h.calm hall
    rw [hreply] at hres hgolden
    refine ⟨⟨hready, hready', ?_, ?_, ?_⟩, hres.trans hres'.symm⟩
    · exact hchunk.trans (h.prefillChunk.trans hchunk'.symm)
    · exact hgolden.trans (h.golden ▸ hgolden'.symm)
    · change Calm sid slot (Client.draft _ c' req).1.net.session (Client.draft _ c req).1.net.service
      rw [hnet, hnet']
      exact hcalm
  reset := by
    intro c c' h hall
    obtain ⟨hready, hnet⟩ := client_reset (sharedStub l) h.ready
    obtain ⟨hready', hnet'⟩ := client_reset (daemonStub slot.cfg slot.model l.fate) h.ready'
    obtain ⟨hgolden, hchunk⟩ := client_reset_golden (sharedStub l) h.ready
    obtain ⟨hgolden', hchunk'⟩ := client_reset_golden (daemonStub slot.cfg slot.model l.fate) h.ready'
    change (c.reset (sharedStub l)).1.net.AllAnswered at hall
    rw [hnet] at hall
    refine ⟨hready, hready', hchunk.trans (h.prefillChunk.trans hchunk'.symm),
      hgolden.trans (h.golden.trans hgolden'.symm), ?_⟩
    change Calm sid slot (Client.reset _ c').1.net.session (Client.reset _ c).1.net.service
    have hsession : ((daemonStub slot.cfg slot.model l.fate).reset c'.net ⟨sid⟩).1.session =
        if l.fate.reset = .delivered then c'.net.session.reset.2.2 else c'.net.session := by
      simp only [daemonStub]
      cases l.fate.reset <;> rfl
    rw [hnet, hnet', hsession]
    exact shared_reset l h.calm hall

/-! ### The run -/

variable {p : SpecParams} {s : SharedEdge} {s' : Edge}

theorem shared_good {e : SharedEvent} (h : (s.step p e).Good fun c => c.net.AllAnswered) :
    s.Good fun c => c.net.AllAnswered := by
  cases e with
  | process layerInp batch => rwa [SharedEdge.step, Server.Good, process_drafter] at h
  | begin l prompt => exact begin_good (shared_closed l) h
  | draft l dparams => exact draft_good (shared_closed l) h

theorem shared_step (h : SameServer (SharedClient sid slot) s s') {e : SharedEvent}
    (hgood : (s.step p e).Good fun c => c.net.AllAnswered) :
    SameServer (SharedClient sid slot) (s.step p e) (s'.step slot.cfg slot.model p e.alone) ∧
      s.handed p e = s'.handed slot.cfg slot.model p e.alone := by
  cases e with
  | process layerInp batch => exact ⟨process_alike h p layerInp batch, rfl⟩
  | begin l prompt => exact ⟨begin_alike (shared_alike sid slot l) h hgood, rfl⟩
  | draft l dparams => exact draft_alike (shared_alike sid slot l) h hgood

/-- If every call was answered at the end, every call was on the way. -/
theorem shared_good_exec {es : List SharedEvent} (h : (exec (SharedEdge.step p) s es).Good fun c => c.net.AllAnswered) :
    s.Good fun c => c.net.AllAnswered := by
  induction es generalizing s with
  | nil => exact h
  | cons e es ih => exact shared_good (ih h)

theorem shared_exec {e : Edge} (h : SameServer (SharedClient sid slot) s e) {es : List SharedEvent}
    (hgood : (exec (SharedEdge.step p) s es).Good fun c => c.net.AllAnswered) :
    SameServer (SharedClient sid slot) (exec (SharedEdge.step p) s es)
        (exec (Edge.step slot.cfg slot.model p) e (es.map SharedEvent.alone)) ∧
      answers (SharedEdge.act p) s es = answers (Edge.act slot.cfg slot.model p) e (es.map SharedEvent.alone) := by
  induction es generalizing s e with
  | nil => exact ⟨h, rfl⟩
  | cons e₀ es ih =>
    obtain ⟨hnext, hhanded⟩ := shared_step h (shared_good_exec hgood)
    obtain ⟨hend, hanswers⟩ := ih hnext hgood
    exact ⟨hend, congrArg₂ List.cons hhanded hanswers⟩

/-- A SHARED DAEMON: whatever the other servers' handshakes and calls do in between, in whatever order the handlers
    take the mutexes and their stages, a server whose calls are answered hands out the same tokens at every event,
    counts the same and records the same files as with a daemon of its own, and so does its session. -/
theorem daemon_shared (p : SpecParams) (golden : Option GoldenDir) {sid : ℕ} {slot : Slot} {before : List ServiceEvent}
    (hothers : ∀ e ∈ before, e.OnOther sid)
    (hslot : (exec LockService.step .fresh before).sessions sid = some slot) {es : List SharedEvent}
    (hanswered : (exec (SharedEdge.step p) (.fresh sid golden (exec LockService.step .fresh before)) es).daemon.AllAnswered) :
    let start := SharedEdge.fresh sid golden (exec LockService.step .fresh before)
    let s := exec (SharedEdge.step p) start es
    let e := exec (Edge.step slot.cfg slot.model p) (.fresh sid golden) (es.map SharedEvent.alone)
    answers (SharedEdge.act p) start es =
        answers (Edge.act slot.cfg slot.model p) (.fresh sid golden) (es.map SharedEvent.alone) ∧
      s.stats = e.stats ∧ s.drafter.bind Client.golden = e.golden ∧
      s.daemon.service.sessions sid = some { slot with session := e.daemon.session } := by
  intro start s e
  have hgood : s.Good fun c => c.net.AllAnswered := by
    intro c hc
    have hdaemon : s.daemon = c.net := by
      rw [SharedEdge.daemon, hc]
      rfl
    rw [← hdaemon]
    exact hanswered
  have hclient : SharedClient sid slot ⟨sid, true, 0, golden, ⟨exec LockService.step .fresh before, []⟩⟩
      ⟨sid, true, 0, golden, .fresh⟩ := ⟨⟨rfl, rfl⟩, ⟨rfl, rfl⟩, rfl, rfl, calm_reached hothers hslot⟩
  have hsame : SameServer (SharedClient sid slot) start (Edge.fresh sid golden) :=
    ⟨.some hclient, rfl, rfl, rfl, rfl, rfl, rfl⟩
  obtain ⟨hend, hanswers⟩ := shared_exec hsame hgood
  have hlive : e.Live sid := exec_inv_free (Edge.Live sid)
    (fun s e h => edge_live_step slot.cfg slot.model p h e) (edge_fresh_live sid golden) _
  obtain ⟨c', hc', -⟩ := hlive.client
  refine ⟨hanswers, hend.stats, ?_⟩
  rcases hend.drafters with ⟨-, hnone⟩ | ⟨c, c'', hc, hc'', hR⟩
  · cases hc'.symm.trans hnone
  · rw [SharedEdge.daemon, Edge.daemon, Edge.golden, hc, hc'']
    exact ⟨hR.golden, hR.calm.session⟩

/-- Two servers shake hands at the same time. -/
def twoHandshakes : List ServiceEvent :=
  let made : Option (ModelConfig × DraftModel) := some (smallConfig, constModel [5])
  [.initSession 0 ⟨"t", ""⟩ made, .initSession 1 ⟨"t", ""⟩ made, .advance 0, .advance 1, .advance 0, .advance 0,
    .advance 1, .advance 1, .advance 1]

/-- A prompt of one token and a draft of the first server; the second one's prompt arrives during its Reset. -/
def sharedRun : List SharedEvent :=
  let other : SessionCall := .prefill ⟨2, [⟨7, 0, []⟩], true⟩ (.succeed 0)
  let reset : Slice := ⟨2, [.advance 2, .call 5 other, .advance 2, .advance 5, .advance 2, .advance 2, .advance 2,
    .advance 5, .advance 2, .advance 2, .advance 2, .advance 5, .advance 5]⟩
  let l : SharedLink := ⟨.lossless 0, ⟨3, .advance 3 :: .advance 5 :: List.replicate 8 (.advance 3)⟩,
    ⟨4, .advance 5 :: List.replicate 12 (.advance 4)⟩, reset⟩
  [.process (zeroLayer 1) (.tokens [(1, 0)]), .begin l [1], .draft l [⟨true, 1, 9⟩]]

theorem daemon_shared_two :
    let p := handshake smallConfig 4 .little
    let service := exec LockService.step .fresh twoHandshakes
    answers (SharedEdge.act p) (.fresh 1 none service) sharedRun = [[], [], [5]] ∧
      answers (SharedEdge.act p) (.fresh 1 none service) sharedRun =
        answers (Edge.act smallConfig (constModel [5]) p) (.fresh 1 none) (sharedRun.map SharedEvent.alone) := by
  intro p service
  have hothers : ∀ e ∈ twoHandshakes, e.OnOther 1 := by
    simp [twoHandshakes, ServiceEvent.OnOther]
  have hslot : service.sessions 1 = some ⟨smallConfig, constModel [5], .fresh⟩ := rfl
  have hanswered : ∀ m ∈ (exec (SharedEdge.step p) (.fresh 1 none service) sharedRun).daemon.made,
    Answered m.slice m.call m.before := by decide +kernel
  exact ⟨by decide +kernel, (daemon_shared p none hothers hslot hanswered).1⟩

end DsparkEdge
