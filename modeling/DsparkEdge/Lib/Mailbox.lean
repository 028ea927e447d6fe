import DsparkEdge.Lib.Runs

/-! A worker thread fed through a queue under one mutex and one condition variable. Producers append and
    then notify; the worker sleeps while there is nothing to do; a stop flag ends it once the queue is
    empty. Each critical section is one move, and a notification is a move of its own, so anything may
    happen between a push and the notification that follows it.

        producer     push, later notify_one
        destructor   stop, later notify_all
        worker       checking ─▶ handling ─▶ checking ─▶ … ─▶ ended
                        │ ▲
                        ▼ │ notified, or woken for no reason
                       asleep

    Three facts carry every use of it: what was pushed is what was handled, is in hand or is queued, in that
    order (`exec_log`); a worker that has ended has handled all of it (`Drained`); a worker that sleeps has
    nothing to do, or will be notified (`NoLostWakeup`). -/

namespace DsparkEdge.Mailbox

open Runs

inductive Worker (α : Type*) where
  | checking
  | asleep
  | handling (a : α)
  | ended
  deriving DecidableEq, Repr

/-- The queue, the worker and what it works on; `handled` is a ghost, the items handled so far. -/
structure Box (α σ : Type*) where
  queue : List α
  stop : Bool
  worker : Worker α
  state : σ
  notifying : ℕ
  notifyingAll : Bool
  handled : List α

inductive Move (α : Type*) where
  | push (a : α)
  | notify
  | stop
  | notifyAll
  | spurious
  | work

variable {α σ : Type*} (handle : σ → α → σ)

/-- A box whose worker has just started. -/
def Box.fresh (s : σ) : Box α σ := ⟨[], false, .checking, s, 0, false, []⟩

/-- A sleeping worker looks at the queue again. -/
def Box.wake (b : Box α σ) : Box α σ :=
  match b.worker with
  | .asleep => { b with worker := .checking }
  | _ => b

/-- One turn of the worker: look at the queue under the mutex, or handle the item in hand. -/
def Box.work (b : Box α σ) : Box α σ :=
  match b.worker with
  | .checking =>
    match b.queue with
    | [] => if b.stop then { b with worker := .ended } else { b with worker := .asleep }
    | a :: rest => { b with queue := rest, worker := .handling a }
  | .handling a =>
    { b with worker := .checking, state := handle b.state a, handled := b.handled ++ [a] }
  | .asleep => b
  | .ended => b

def Box.step (b : Box α σ) : Move α → Box α σ
  | .push a => { b with queue := b.queue ++ [a], notifying := b.notifying + 1 }
  | .notify => if 0 < b.notifying then { b.wake with notifying := b.notifying - 1 } else b
  | .stop => { b with stop := true, notifyingAll := true }
  | .notifyAll => if b.notifyingAll then { b.wake with notifyingAll := false } else b
  | .spurious => b.wake
  | .work => b.work handle

def Move.pushed : Move α → List α
  | .push a => [a]
  | _ => []

/-- The item being handled. -/
def Box.inHand (b : Box α σ) : List α :=
  match b.worker with
  | .handling a => [a]
  | _ => []

/-- Everything that was ever pushed, in order. -/
def Box.log (b : Box α σ) : List α := b.handled ++ b.inHand ++ b.queue

@[simp] theorem wake_queue (b : Box α σ) : b.wake.queue = b.queue := by
  unfold Box.wake; split <;> rfl

@[simp] theorem wake_stop (b : Box α σ) : b.wake.stop = b.stop := by
  unfold Box.wake; split <;> rfl

@[simp] theorem wake_state (b : Box α σ) : b.wake.state = b.state := by
  unfold Box.wake; split <;> rfl

@[simp] theorem wake_handled (b : Box α σ) : b.wake.handled = b.handled := by
  unfold Box.wake; split <;> rfl

@[simp] theorem wake_inHand (b : Box α σ) : b.wake.inHand = b.inHand := by
  unfold Box.wake
  cases hw : b.worker <;> simp [Box.inHand, hw]

@[simp] theorem wake_ended (b : Box α σ) : b.wake.worker = .ended ↔ b.worker = .ended := by
  unfold Box.wake
  cases hw : b.worker <;> simp [hw]

@[simp] theorem wake_asleep (b : Box α σ) : b.wake.worker ≠ .asleep := by
  unfold Box.wake
  cases hw : b.worker <;> simp [hw]

/-- What one turn of the worker does: look and sleep, look and end, take an item, handle it, or nothing. -/
theorem work_cases (b : Box α σ) :
    (b.worker = .checking ∧ b.queue = [] ∧ b.stop = false ∧ b.work handle = { b with worker := .asleep }) ∨
    (b.worker = .checking ∧ b.queue = [] ∧ b.stop = true ∧ b.work handle = { b with worker := .ended }) ∨
    (∃ a rest, b.worker = .checking ∧ b.queue = a :: rest ∧
      b.work handle = { b with queue := rest, worker := .handling a }) ∨
    (∃ a, b.worker = .handling a ∧ b.work handle =
      { b with worker := .checking, state := handle b.state a, handled := b.handled ++ [a] }) ∨
    ((b.worker = .asleep ∨ b.worker = .ended) ∧ b.work handle = b) := by
  unfold Box.work
  cases hw : b.worker with
  | checking =>
    cases hq : b.queue with
    | nil => cases hstop : b.stop <;> simp
    | cons a rest => simp
  | handling a => simp
  | asleep => simp
  | ended => simp

/-! ### Order -/

theorem log_wake (b : Box α σ) : b.wake.log = b.log := by simp [Box.log]

theorem log_work (b : Box α σ) : (b.work handle).log = b.log := by
  rcases work_cases handle b with ⟨hw, hq, -, heq⟩ | ⟨hw, hq, -, heq⟩ | ⟨a, rest, hw, hq, heq⟩ | ⟨a, hw, heq⟩ |
    ⟨-, heq⟩
  · simp [heq, Box.log, Box.inHand, hw]
  · simp [heq, Box.log, Box.inHand, hw]
  · simp [heq, Box.log, Box.inHand, hw, hq]
  · simp [heq, Box.log, Box.inHand, hw]
  · rw [heq]

/-- A move adds to the log what it pushes. -/
theorem log_step (b : Box α σ) (m : Move α) : (b.step handle m).log = b.log ++ m.pushed := by
  cases m with
  | push a => simp [Box.step, Box.log, Box.inHand, Move.pushed]
  | notify =>
    simp only [Box.step, Move.pushed, List.append_nil]
    split
    · exact log_wake b
    · rfl
  | stop => simp [Box.step, Box.log, Box.inHand, Move.pushed]
  | notifyAll =>
    simp only [Box.step, Move.pushed, List.append_nil]
    split
    · exact log_wake b
    · rfl
  | spurious => simp [Box.step, Move.pushed, log_wake]
  | work => simp [Box.step, Move.pushed, log_work]

/-- What was pushed is what was handled, is in hand or is queued, once each and in order. -/
theorem exec_log (b : Box α σ) (ms : List (Move α)) :
    (exec (Box.step handle) b ms).log = b.log ++ ms.flatMap Move.pushed := by
  induction ms generalizing b with
  | nil => simp
  | cons m ms ih => rw [exec_cons, ih, log_step, List.flatMap_cons, List.append_assoc]

/-! ### What the worker has done -/

/-- The state is the fold of the handled items. -/
def Folded (s : σ) (b : Box α σ) : Prop := b.state = b.handled.foldl handle s

theorem folded_step {s : σ} (b : Box α σ) (m : Move α) (h : Folded handle s b) :
    Folded handle s (b.step handle m) := by
  unfold Folded at h ⊢
  cases m with
  | push a => exact h
  | notify =>
    rw [Box.step]
    split
    · simpa using h
    · exact h
  | stop => exact h
  | notifyAll =>
    rw [Box.step]
    split
    · simpa using h
    · exact h
  | spurious => simpa [Box.step] using h
  | work =>
    rw [Box.step]
    rcases work_cases handle b with ⟨-, -, -, heq⟩ | ⟨-, -, -, heq⟩ | ⟨a, rest, -, -, heq⟩ | ⟨a, -, heq⟩ | ⟨-, heq⟩
    · rw [heq]; exact h
    · rw [heq]; exact h
    · rw [heq]; exact h
    · simp [heq, h]
    · rw [heq]; exact h

theorem exec_folded (s : σ) (ms : List (Move α)) :
    Folded handle s (exec (Box.step handle) (Box.fresh s) ms) := by
  have hfresh : Folded handle s (Box.fresh s) := rfl
  exact exec_inv_free (Folded handle s) (folded_step handle) hfresh ms

/-! ### The end of the worker -/

/-- `before` has been pushed, and a worker that has ended has handled it. -/
structure Drained (before : List α) (b : Box α σ) : Prop where
  pushed : before <+: b.log
  handled : b.worker = .ended → before <+: b.handled

theorem drained_step (before : List α) (b : Box α σ) (m : Move α) (h : Drained before b) :
    Drained before (b.step handle m) := by
  refine ⟨by rw [log_step]; exact h.pushed.trans (List.prefix_append _ _), ?_⟩
  cases m with
  | push a => exact h.handled
  | notify =>
    rw [Box.step]
    split
    · simpa using h.handled
    · exact h.handled
  | stop => exact h.handled
  | notifyAll =>
    rw [Box.step]
    split
    · simpa using h.handled
    · exact h.handled
  | spurious => simpa [Box.step] using h.handled
  | work =>
    rw [Box.step]
    rcases work_cases handle b with ⟨-, -, -, heq⟩ | ⟨hw, hq, -, heq⟩ | ⟨a, rest, -, -, heq⟩ | ⟨a, -, heq⟩ | ⟨-, heq⟩
    · simp [heq]
    · -- the worker ends on an empty queue with nothing in hand
      have hlog : b.log = b.handled := by simp [Box.log, Box.inHand, hw, hq]
      rw [heq]
      exact fun _ => hlog ▸ h.pushed
    · simp [heq]
    · simp [heq]
    · rw [heq]; exact h.handled

/-- Without the stop flag the worker does not end. -/
def Running (b : Box α σ) : Prop := b.stop = false ∧ b.worker ≠ .ended

theorem running_step {b : Box α σ} {m : Move α} (hm : m ≠ .stop) (h : Running b) :
    Running (b.step handle m) := by
  obtain ⟨hstop, hw⟩ := h
  cases m with
  | push a => exact ⟨hstop, hw⟩
  | notify =>
    rw [Box.step]
    split
    · exact ⟨by simpa using hstop, by simpa using hw⟩
    · exact ⟨hstop, hw⟩
  | stop => exact (hm rfl).elim
  | notifyAll =>
    rw [Box.step]
    split
    · exact ⟨by simpa using hstop, by simpa using hw⟩
    · exact ⟨hstop, hw⟩
  | spurious => exact ⟨by simpa [Box.step] using hstop, by simpa [Box.step] using hw⟩
  | work =>
    rw [Box.step]
    rcases work_cases handle b with ⟨-, -, -, heq⟩ | ⟨-, -, hs, -⟩ | ⟨a, rest, -, -, heq⟩ | ⟨a, -, heq⟩ | ⟨-, heq⟩
    · rw [heq]; exact ⟨hstop, by simp⟩
    · rw [hstop] at hs; cases hs
    · rw [heq]; exact ⟨hstop, by simp⟩
    · rw [heq]; exact ⟨hstop, by simp⟩
    · rw [heq]; exact ⟨hstop, hw⟩

theorem exec_running {b : Box α σ} {ms : List (Move α)} (hms : .stop ∉ ms) (h : Running b) :
    Running (exec (Box.step handle) b ms) := by
  induction ms generalizing b with
  | nil => exact h
  | cons m ms ih =>
    have hm : m ≠ .stop := by
      rintro rfl
      exact hms List.mem_cons_self
    exact ih (fun hmem => hms (List.mem_cons_of_mem m hmem)) (running_step handle hm h)

/-- What was pushed before the stop flag was set is handled when the worker has ended. -/
theorem drained_at_end (s : σ) {ms more : List (Move α)} (hms : .stop ∉ ms)
    (hend : (exec (Box.step handle) (Box.fresh s) (ms ++ more)).worker = .ended) :
    ms.flatMap Move.pushed <+: (exec (Box.step handle) (Box.fresh s) (ms ++ more)).handled := by
  rw [exec_append] at hend ⊢
  have hrun := exec_running handle hms (b := Box.fresh s) ⟨rfl, by simp [Box.fresh]⟩
  have hlog : (exec (Box.step handle) (Box.fresh s) ms).log = ms.flatMap Move.pushed := by
    rw [exec_log]; rfl
  have hinit : Drained (ms.flatMap Move.pushed) (exec (Box.step handle) (Box.fresh s) ms) :=
    ⟨hlog ▸ List.prefix_refl _, fun hended => absurd hended hrun.2⟩
  exact (exec_inv_free (Drained _) (drained_step handle _) hinit more).handled hend

/-! ### No lost wakeup -/

/-- A sleeping worker has nothing to do, or a notification is on its way. -/
structure NoLostWakeup (b : Box α σ) : Prop where
  queue : b.worker = .asleep → b.queue ≠ [] → 0 < b.notifying
  stop : b.worker = .asleep → b.stop = true → b.notifyingAll = true

theorem noLostWakeup_step (b : Box α σ) (m : Move α) (h : NoLostWakeup b) :
    NoLostWakeup (b.step handle m) := by
  cases m with
  | push a => exact ⟨fun _ _ => Nat.succ_pos _, h.stop⟩
  | notify =>
    rw [Box.step]
    split
    · exact ⟨fun hw => absurd hw (wake_asleep b), fun hw => absurd hw (wake_asleep b)⟩
    · exact h
  | stop => exact ⟨h.queue, fun _ _ => rfl⟩
  | notifyAll =>
    rw [Box.step]
    split
    · exact ⟨fun hw => absurd hw (wake_asleep b), fun hw => absurd hw (wake_asleep b)⟩
    · exact h
  | spurious => exact ⟨fun hw => absurd hw (wake_asleep b), fun hw => absurd hw (wake_asleep b)⟩
  | work =>
    rw [Box.step]
    rcases work_cases handle b with ⟨-, hq, hstop, heq⟩ | ⟨-, -, -, heq⟩ | ⟨a, rest, -, -, heq⟩ | ⟨a, -, heq⟩ |
      ⟨-, heq⟩
    · rw [heq]
      exact ⟨fun _ hne => absurd hq hne, fun _ hs => absurd (hstop.symm.trans hs) (by simp)⟩
    · rw [heq]; exact ⟨by simp, by simp⟩
    · rw [heq]; exact ⟨by simp, by simp⟩
    · rw [heq]; exact ⟨by simp, by simp⟩
    · rw [heq]; exact h

/-! ### Draining -/

/-- Once stopped, a worker that is looking at its queue drains it and ends. -/
theorem ends_of_checking {b : Box α σ} (hw : b.worker = .checking) (hstop : b.stop = true) :
    ∃ n, (exec (Box.step handle) b (List.replicate n .work)).worker = .ended := by
  induction hq : b.queue generalizing b with
  | nil => exact ⟨1, by simp [Box.step, Box.work, hw, hq, hstop]⟩
  | cons a rest ih =>
    obtain ⟨n, hn⟩ := ih (b := (b.work handle).work handle) (by simp [Box.work, hw, hq])
      (by simp [Box.work, hw, hq, hstop]) (by simp [Box.work, hw, hq])
    exact ⟨n + 2, hn⟩

/-- Whatever the worker is doing, once the box is stopped and that is notified it runs to its end. -/
theorem ends (b : Box α σ) :
    ∃ n, (exec (Box.step handle) b (.stop :: .notifyAll :: List.replicate n .work)).worker = .ended := by
  cases hw : b.worker with
  | checking =>
    exact ends_of_checking handle (b := (b.step handle .stop).step handle .notifyAll)
      (by simp [Box.step, Box.wake, hw]) (by simp [Box.step])
  | asleep =>
    exact ends_of_checking handle (b := (b.step handle .stop).step handle .notifyAll)
      (by simp [Box.step, Box.wake, hw]) (by simp [Box.step])
  | handling a =>
    obtain ⟨n, hn⟩ := ends_of_checking handle
      (b := (((b.step handle .stop).step handle .notifyAll).work handle))
      (by simp [Box.step, Box.wake, Box.work, hw]) (by simp [Box.step, Box.wake, Box.work, hw])
    exact ⟨n + 1, hn⟩
  | ended => exact ⟨0, by simp [Box.step, hw]⟩

end DsparkEdge.Mailbox
