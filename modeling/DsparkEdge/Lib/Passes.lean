import Mathlib.Tactic.Common

/-! Passes over a state that settle: each has a condition it establishes and under which it changes
    nothing. A sequence of passes whose later ones keep what the earlier ones settled changes nothing
    when it is run again; around a step `g` that keeps everything, a second run is one more `g`.

        s ──p₁──▶ ──p₂──▶ … ──pₙ──▶ t      all settled at t:  t ──p₁ … pₙ──▶ t                -/

namespace DsparkEdge.Passes

variable {σ : Type*}

structure Pass (σ : Type*) where
  run : σ → σ
  Settled : σ → Prop
  settle : ∀ s, Settled (run s)
  fixed : ∀ s, Settled s → run s = s

/-- `g` keeps what `p` settled. -/
def Keeps (g : σ → σ) (p : Pass σ) : Prop := ∀ s, p.Settled s → p.Settled (g s)

/-- No pass disturbs an earlier one. -/
def Ordered (ps : List (Pass σ)) : Prop := ps.Pairwise fun p q => Keeps q.run p

def runAll (ps : List (Pass σ)) (s : σ) : σ := ps.foldl (fun s p => p.run s) s

@[simp] theorem runAll_nil (s : σ) : runAll [] s = s := rfl

@[simp] theorem runAll_cons (p : Pass σ) (ps : List (Pass σ)) (s : σ) :
    runAll (p :: ps) s = runAll ps (p.run s) := rfl

/-- What every pass keeps, the sequence keeps. -/
theorem runAll_inv (P : σ → Prop) {ps : List (Pass σ)} (h : ∀ p ∈ ps, ∀ s, P s → P (p.run s)) {s : σ}
    (hs : P s) : P (runAll ps s) := by
  induction ps generalizing s with
  | nil => exact hs
  | cons p ps ih =>
    exact ih (fun q hq => h q (List.mem_cons_of_mem p hq)) (h p List.mem_cons_self s hs)

/-- Settled passes change nothing. -/
theorem runAll_fixed {ps : List (Pass σ)} {s : σ} (h : ∀ p ∈ ps, p.Settled s) : runAll ps s = s := by
  induction ps with
  | nil => rfl
  | cons p ps ih =>
    rw [runAll_cons, p.fixed s (h p List.mem_cons_self)]
    exact ih fun q hq => h q (List.mem_cons_of_mem p hq)

/-- Behind a sequence whose order is right all are settled. -/
theorem runAll_settled {ps : List (Pass σ)} (h : Ordered ps) (s : σ) : ∀ p ∈ ps, p.Settled (runAll ps s) := by
  induction ps generalizing s with
  | nil => exact fun p hp => absurd hp List.not_mem_nil
  | cons p ps ih =>
    obtain ⟨hp, hps⟩ := List.pairwise_cons.mp h
    intro q hq
    rcases List.mem_cons.mp hq with rfl | hq
    · exact runAll_inv q.Settled hp (q.settle s)
    · exact ih hps (p.run s) q hq

/-- The sequence with a step in its middle that keeps every pass settled: run again, it is that step. -/
theorem rerun_iff {ps qs : List (Pass σ)} (h : Ordered (ps ++ qs)) {g : σ → σ}
    (hg : ∀ p ∈ ps ++ qs, Keeps g p) (s : σ) :
    runAll qs (g (runAll ps (runAll qs (g (runAll ps s))))) = runAll qs (g (runAll ps s)) ↔
      g (runAll qs (g (runAll ps s))) = runAll qs (g (runAll ps s)) := by
  obtain ⟨hps, hqs, hcross⟩ := List.pairwise_append.mp h
  obtain ⟨t, ht⟩ : ∃ t, t = runAll qs (g (runAll ps s)) := ⟨_, rfl⟩
  have hsettled : ∀ p ∈ ps ++ qs, p.Settled t := by
    intro p hp
    rw [ht]
    rcases List.mem_append.mp hp with hp | hp
    · exact runAll_inv p.Settled (hcross p hp) (hg p (List.mem_append_left qs hp) _ (runAll_settled hps s p hp))
    · exact runAll_settled hqs _ p hp
  have hfirst : runAll ps t = t := runAll_fixed fun p hp => hsettled p (List.mem_append_left qs hp)
  have hlast : runAll qs (g t) = g t := runAll_fixed fun p hp =>
    hg p (List.mem_append_right ps hp) t (hsettled p (List.mem_append_right ps hp))
  rw [← ht, hfirst, hlast]

/-- The same with the step at the end. -/
theorem rerun_last_iff {ps : List (Pass σ)} (h : Ordered ps) {g : σ → σ} (hg : ∀ p ∈ ps, Keeps g p) (s : σ) :
    g (runAll ps (g (runAll ps s))) = g (runAll ps s) ↔ g (g (runAll ps s)) = g (runAll ps s) := by
  rw [← List.append_nil ps] at h hg
  exact rerun_iff h hg s

/-- Without such a step, nothing changes. -/
theorem runAll_idem {ps : List (Pass σ)} (h : Ordered ps) (s : σ) : runAll ps (runAll ps s) = runAll ps s :=
  runAll_fixed (runAll_settled h s)

end DsparkEdge.Passes
