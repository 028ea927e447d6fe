import DsparkEdge.Lib.Runs

/-! Threads and the locks they take. A thread's next step wants at most one lock, and it is blocked while
    someone holds that one. Where every lock a thread wants is above all the locks it holds, somebody can
    always go on: a chain of blocked threads only climbs.

        t₀ wants l₁ ─held by─▶ t₁ wants l₂ ─held by─▶ t₂ …       rank l₁ < rank l₂ < …

    With a measure that every step lowers this is completion: a schedule of enabled steps is finite, and
    where it cannot be continued nobody is left. `simulates` compares the machine of single steps with one
    whose steps are whole sections, by a relation that one step keeps. -/

namespace DsparkEdge.Locks

open Runs

section Order

variable {ι L : Type*}

/-- The next step of a thread waits for a lock that is held. -/
def Blocked (owner : L → Option ι) (wants : ι → Option L) (i : ι) : Prop :=
  ∃ l j, wants i = some l ∧ owner l = some j

/-- Only busy threads hold locks, and what they want is above what they hold. -/
structure Upwards (owner : L → Option ι) (wants : ι → Option L) (busy : ι → Prop) (rank : L → ℕ) : Prop where
  busy : ∀ l i, owner l = some i → busy i
  above : ∀ i l l', wants i = some l → owner l' = some i → rank l' < rank l

variable {owner : L → Option ι} {wants : ι → Option L} {busy : ι → Prop} {rank : L → ℕ}

/-- From a blocked thread the chain of holders climbs, at most to the top. -/
theorem unblocked_above (h : Upwards owner wants busy rank) {top : ℕ} (htop : ∀ l, rank l ≤ top) {i : ι}
    {l : L} (hi : busy i) (hl : wants i = some l) : ∃ j, busy j ∧ ¬Blocked owner wants j := by
  induction hn : top - rank l using Nat.strongRecOn generalizing i l with
  | ind n ih =>
    by_cases hblocked : Blocked owner wants i
    · obtain ⟨l', j, hl', hj⟩ := hblocked
      rw [hl] at hl'
      cases hl'
      by_cases hnext : Blocked owner wants j
      · obtain ⟨l'', k, hl'', -⟩ := hnext
        have hclimb := h.above j l'' l hl'' hj
        have hle := htop l''
        exact ih (top - rank l'') (by omega) (h.busy l j hj) hl'' rfl
      · exact ⟨j, h.busy l j hj, hnext⟩
    · exact ⟨i, hi, hblocked⟩

/-- NO DEADLOCK: with locks taken upwards, as long as one thread is busy some busy thread can go on. -/
theorem exists_unblocked (h : Upwards owner wants busy rank) {top : ℕ} (htop : ∀ l, rank l ≤ top) {i : ι}
    (hi : busy i) : ∃ j, busy j ∧ ¬Blocked owner wants j := by
  by_cases hblocked : Blocked owner wants i
  · obtain ⟨l, -, hl, -⟩ := hblocked
    exact unblocked_above h htop hi hl
  · exact ⟨i, hi, hblocked⟩

end Order

section Schedules

variable {σ ι : Type*} {step : σ → ι → σ} {enabled : σ → ι → Prop} {work : σ → ℕ}

/-- An enabled step keeps the invariant and lowers the work that is left. -/
structure Lowers (step : σ → ι → σ) (enabled : σ → ι → Prop) (Inv : σ → Prop) (work : σ → ℕ) : Prop where
  keeps : ∀ s i, Inv s → enabled s i → Inv (step s i)
  lowers : ∀ s i, Inv s → enabled s i → work (step s i) < work s

variable {Inv : σ → Prop}

theorem Lowers.inv (h : Lowers step enabled Inv work) {s : σ} (hs : Inv s) {sched : List ι}
    (hsched : Along step enabled s sched) : Inv (exec step s sched) :=
  exec_inv Inv h.keeps hs hsched

/-- A schedule of enabled steps is no longer than the work at its start. -/
theorem Lowers.bounded (h : Lowers step enabled Inv work) {s : σ} (hs : Inv s) {sched : List ι}
    (hsched : Along step enabled s sched) : sched.length + work (exec step s sched) ≤ work s := by
  induction sched generalizing s with
  | nil => simp
  | cons i sched ih =>
    have hstep := h.lowers s i hs hsched.1
    have hrest := ih (h.keeps s i hs hsched.1) hsched.2
    rw [exec_cons, List.length_cons]
    omega

/-- Some schedule goes on until nothing is enabled. -/
theorem Lowers.exhausts (h : Lowers step enabled Inv work) {s : σ} (hs : Inv s) :
    ∃ sched, Along step enabled s sched ∧ ∀ i, ¬enabled (exec step s sched) i := by
  induction hn : work s using Nat.strongRecOn generalizing s with
  | ind n ih =>
    by_cases hdone : ∀ i, ¬enabled s i
    · exact ⟨[], trivial, hdone⟩
    · obtain ⟨i, hi⟩ := not_forall_not.mp hdone
      obtain ⟨sched, hsched, hend⟩ := ih _ (hn ▸ h.lowers s i hs hi) (h.keeps s i hs hi) rfl
      exact ⟨i :: sched, ⟨hi, hsched⟩, hend⟩

end Schedules

section Simulation

variable {σ τ ε : Type*} {stepC : σ → ε → σ} {stepA : τ → ε → τ}

/-- Where every step of the one machine is the same step of the other or none, every run of the one is a run
    of the other with steps left out. -/
theorem simulates (R : σ → τ → Prop) (hstep : ∀ c a e, R c a → R (stepC c e) (stepA a e) ∨ R (stepC c e) a) {c : σ}
    {a : τ} (h : R c a) (es : List ε) : ∃ fs, fs.Sublist es ∧ R (exec stepC c es) (exec stepA a fs) := by
  induction es generalizing c a with
  | nil => exact ⟨[], .slnil, h⟩
  | cons e es ih =>
    rcases hstep c a e h with hsame | hnone
    · obtain ⟨fs, hfs, hR⟩ := ih hsame
      exact ⟨e :: fs, hfs.cons_cons e, hR⟩
    · obtain ⟨fs, hfs, hR⟩ := ih hnone
      exact ⟨fs, hfs.cons e, hR⟩

end Simulation

end DsparkEdge.Locks
