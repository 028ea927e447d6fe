import DsparkEdge.Lib.Mailbox
import DsparkEdge.Watch

/-! The renderer's queue and worker thread. The `on_*` methods only push an event and notify; the worker
    pops and handles; the destructor sets the stop flag, notifies and joins.

        gRPC threads ──push, notify_one──▶ queue_ ──worker_loop──▶ transcript_
        ~watch_renderer ──stop_, notify_all, join──▶

    Whatever the order in which all this happens, the confirmed text of the transcript is what the handled
    `accepted` and `verdict` events spell out since the last reset. -/

namespace DsparkEdge

open Runs Mailbox

/-- A `watch_renderer` and its worker. -/
abbrev WatchRenderer := Box WatchEvent Watch

def WatchRenderer.fresh : WatchRenderer := Box.fresh .fresh

def WatchRenderer.step (piece : ℤ → String) : WatchRenderer → Move WatchEvent → WatchRenderer :=
  Box.step (Watch.handle piece)

/-! ### What an event confirms -/

def WatchEvent.isReset : WatchEvent → Bool
  | .reset => true
  | _ => false

/-- The tokens an event adds to the confirmed text. -/
def WatchEvent.confirms : WatchEvent → List ℤ
  | .accepted tokens => tokens
  | .draft _ => []
  | .verdict tokens => tokens
  | .reset => []

/-- The tokens confirmed since the last reset, in order. -/
def confirmedTokens (handled : List WatchEvent) : List ℤ :=
  (since WatchEvent.isReset handled).flatMap WatchEvent.confirms

/-- Dropping the pending tail drops no confirmed text. -/
theorem confirmedText_popPending (transcript : List Region) :
    confirmedText (popPending transcript) = confirmedText transcript := by
  induction transcript using List.reverseRecOn with
  | nil => rfl
  | append_singleton regions r ih =>
    rw [popPending, List.rdropWhile_concat]
    split
    · rename_i hpending
      have hr : confirmedText [r] = "" := by
        have hst : r.st = .pending := by simpa [Region.isPending] using hpending
        simp [confirmedText, hst]
      rw [confirmedText_append, hr, String.append_empty]
      exact ih
    · rfl

theorem confirmedText_confirmed (text : String) : confirmedText [⟨text, .confirmed⟩] = text := by
  simp [confirmedText]

/-- One event: a reset empties the confirmed text, any other adds what it confirms. -/
theorem handle_confirmed (piece : ℤ → String) (w : Watch) (e : WatchEvent) :
    confirmedText (w.handle piece e).transcript =
      if e.isReset then "" else confirmedText w.transcript ++ detokenize piece e.confirms := by
  cases e with
  | accepted tokens =>
    simp only [Watch.handle, Watch.handleAccepted, WatchEvent.isReset, WatchEvent.confirms]
    by_cases h : tokens = []
    · simp [h]
    · simp [h, confirmedText_append, confirmedText_confirmed]
  | draft tokens =>
    obtain ⟨shown, htranscript, hconfirmed, -⟩ := handleDraft_shown piece tokens w
    simp [Watch.handle, htranscript, confirmedText_append, hconfirmed, WatchEvent.isReset,
      WatchEvent.confirms]
  | verdict tokens =>
    simp only [Watch.handle, Watch.handleVerdict, WatchEvent.isReset, WatchEvent.confirms]
    by_cases hp : w.pendingTokens = []
    · by_cases h : tokens = []
      · simp [hp, h]
      · simp [hp, h, confirmedText_append, confirmedText_confirmed]
    · simp [hp, confirmedText_append, confirmedText_popPending, confirmedText_verdict]
  | reset => rfl

/-- The confirmed text after any events. -/
theorem run_confirmed (piece : ℤ → String) (events : List WatchEvent) :
    confirmedText (Watch.run piece events).transcript = detokenize piece (confirmedTokens events) := by
  induction events using List.reverseRecOn with
  | nil => rfl
  | append_singleton events e ih =>
    rw [run_append, List.foldl_cons, List.foldl_nil, handle_confirmed]
    cases he : e.isReset with
    | true => simp [confirmedTokens, since_append_mark _ events he]
    | false =>
      have hsince : since WatchEvent.isReset (events ++ [e]) = since WatchEvent.isReset events ++ [e] :=
        since_append _ events (by simpa using he)
      simp [confirmedTokens, hsince, ih, detokenize_append]

/-! ### Runs -/

/-- TRANSCRIPT: in every run of producers, worker and destructor, what was pushed is what was handled, is
    in hand or is queued, once each and in order; a worker that has ended has handled everything pushed
    before the stop flag, and from every state stopping leads it to its end; and the confirmed text is
    that of the events handled since the last reset. -/
theorem watch_transcript (piece : ℤ → String) (moves : List (Move WatchEvent)) :
    let r := exec (WatchRenderer.step piece) .fresh moves
    r.handled ++ r.inHand ++ r.queue = moves.flatMap Move.pushed ∧
      (∀ before after, moves = before ++ .stop :: after → .stop ∉ before → r.worker = .ended →
        before.flatMap Move.pushed <+: r.handled) ∧
      (∃ n, (exec (WatchRenderer.step piece) r
        (.stop :: .notifyAll :: List.replicate n .work)).worker = .ended) ∧
      confirmedText r.state.transcript = detokenize piece (confirmedTokens r.handled) := by
  refine ⟨exec_log _ _ moves, ?_, ends _ _, ?_⟩
  · rintro before after rfl hbefore hended
    exact drained_at_end (Watch.handle piece) .fresh hbefore hended
  · have hstate : (exec (WatchRenderer.step piece) .fresh moves).state =
        Watch.run piece (exec (WatchRenderer.step piece) .fresh moves).handled :=
      exec_folded (Watch.handle piece) .fresh moves
    rw [hstate]
    exact run_confirmed piece _

/-- A worker asleep with no notification due has an empty queue and has not been told to stop. -/
theorem asleep_is_idle (piece : ℤ → String) (moves : List (Move WatchEvent)) :
    let r := exec (WatchRenderer.step piece) .fresh moves
    r.worker = .asleep → r.notifying = 0 → r.notifyingAll = false → r.queue = [] ∧ r.stop = false := by
  intro r hasleep hone hall
  have hfresh : NoLostWakeup WatchRenderer.fresh :=
    ⟨by simp [WatchRenderer.fresh, Box.fresh], by simp [WatchRenderer.fresh, Box.fresh]⟩
  have h : NoLostWakeup r := exec_inv_free NoLostWakeup (noLostWakeup_step _) hfresh moves
  constructor
  · by_contra hne
    exact absurd (h.queue hasleep hne) (by omega)
  · cases hstop : r.stop with
    | false => rfl
    | true => exact absurd (h.stop hasleep hstop) (by simp [hall])

end DsparkEdge
