import Mathlib.Tactic.Common

/-! Loops in `Except`: a fold that a step may end early.

        s₀ ──a₀──▶ s₁ ──a₁──▶ s₂ ──a₂──✗  error

    `foldlM_ok` carries an invariant, indexed by what was folded, to the end of a loop that got there;
    `foldlM_isOk` says when it gets there, and `foldlM_sim` compares it with a loop over other states. -/

namespace DsparkEdge.Loops

variable {σ τ ε α : Type*} {step : σ → α → Except ε σ}

/-- An invariant of the steps holds at the end of a loop that was not ended early. -/
theorem foldlM_ok (Inv : List α → σ → Prop)
    (hstep : ∀ done a s s', Inv done s → step s a = .ok s' → Inv (done ++ [a]) s') {as : List α} (done : List α)
    {s s' : σ} (hs : Inv done s) (h : as.foldlM step s = .ok s') : Inv (done ++ as) s' := by
  induction as generalizing done s with
  | nil =>
    cases h
    rwa [List.append_nil]
  | cons a as ih =>
    rw [List.foldlM_cons] at h
    cases ha : step s a with
    | error e => rw [ha] at h; cases h
    | ok s₁ =>
      rw [ha] at h
      have := ih (done ++ [a]) (hstep done a s s₁ hs ha) h
      rwa [List.append_assoc] at this

/-- A loop is not ended early if no step ends it, whatever the state. -/
theorem foldlM_isOk {good : α → Prop} (hstep : ∀ s a, (∃ s', step s a = .ok s') ↔ good a) (as : List α) (s : σ) :
    (∃ s', as.foldlM step s = .ok s') ↔ ∀ a ∈ as, good a := by
  induction as generalizing s with
  | nil => exact ⟨fun _ => by simp, fun _ => ⟨s, rfl⟩⟩
  | cons a as ih =>
    rw [List.foldlM_cons, List.forall_mem_cons]
    constructor
    · rintro ⟨s', h⟩
      cases ha : step s a with
      | error e => rw [ha] at h; cases h
      | ok s₁ =>
        rw [ha] at h
        exact ⟨(hstep s a).mp ⟨s₁, ha⟩, (ih s₁).mp ⟨s', h⟩⟩
    · rintro ⟨hgood, hrest⟩
      obtain ⟨s₁, ha⟩ := (hstep s a).mpr hgood
      obtain ⟨s', h⟩ := (ih s₁).mpr hrest
      exact ⟨s', by rw [ha]; exact h⟩

/-- A loop whose every step follows that of another one follows it to the end. -/
theorem foldlM_sim {abstract : τ → α → Option τ} (R : τ → σ → Prop) {as : List α}
    (hstep : ∀ a ∈ as, ∀ t t' s, R t s → abstract t a = some t' → ∃ s', step s a = .ok s' ∧ R t' s') {t t' : τ} {s : σ}
    (hR : R t s) (h : as.foldlM abstract t = some t') : ∃ s', as.foldlM step s = .ok s' ∧ R t' s' := by
  induction as generalizing t s with
  | nil =>
    cases h
    exact ⟨s, rfl, hR⟩
  | cons a as ih =>
    rw [List.foldlM_cons] at h
    obtain ⟨t₁, ha, hrest⟩ := Option.bind_eq_some_iff.mp h
    obtain ⟨s₁, hs₁, hR₁⟩ := hstep a List.mem_cons_self t t₁ s hR ha
    obtain ⟨s', hs', hR'⟩ := ih (fun b hb => hstep b (List.mem_cons_of_mem a hb)) hR₁ hrest
    exact ⟨s', by rw [List.foldlM_cons, hs₁]; exact hs', hR'⟩

end DsparkEdge.Loops
