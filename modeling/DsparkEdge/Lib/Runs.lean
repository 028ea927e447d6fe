import Mathlib.Tactic.Common

/-! Runs of a deterministic machine: a step function on states and events, folded over a list of
    events. A *legal* run is one whose every event satisfies a guard in the state it meets; an
    invariant that a legal step preserves holds in the last state, and a property that follows from
    the invariant holds at every event on the way.

        s₀ ──e₀──▶ s₁ ──e₁──▶ s₂ ──▶ …      `Along step P s₀ es`:  P s₀ e₀ ∧ P s₁ e₁ ∧ …

    `along_iff` compares two properties of steps that agree only as long as the invariant holds,
    where the invariant itself survives only the good steps: the first bad step of a run is bad for
    both.

    `since` is the part of a log behind its last marked entry. -/

namespace DsparkEdge.Runs

variable {σ ε : Type*} (step : σ → ε → σ)

/-- The state a run of events ends in. -/
def exec (s : σ) (es : List ε) : σ := es.foldl step s

/-- `P` holds at every event of the run, in the state that event meets. -/
def Along (P : σ → ε → Prop) : σ → List ε → Prop
  | _, [] => True
  | s, e :: es => P s e ∧ Along P (step s e) es

@[simp] theorem exec_nil (s : σ) : exec step s [] = s := rfl

@[simp] theorem exec_cons (s : σ) (e : ε) (es : List ε) :
    exec step s (e :: es) = exec step (step s e) es := rfl

@[simp] theorem along_cons (P : σ → ε → Prop) (s : σ) (e : ε) (es : List ε) :
    Along step P s (e :: es) ↔ P s e ∧ Along step P (step s e) es := Iff.rfl

theorem exec_append (s : σ) (es fs : List ε) :
    exec step s (es ++ fs) = exec step (exec step s es) fs := by
  rw [exec, List.foldl_append]; rfl

theorem along_append (P : σ → ε → Prop) (s : σ) (es fs : List ε) :
    Along step P s (es ++ fs) ↔ Along step P s es ∧ Along step P (exec step s es) fs := by
  induction es generalizing s with
  | nil => simp [Along]
  | cons e es ih => simp [ih, and_assoc]

theorem along_true (s : σ) (es : List ε) : Along step (fun _ _ => True) s es := by
  induction es generalizing s with
  | nil => trivial
  | cons e es ih => exact ⟨trivial, ih _⟩

theorem along_and {P Q : σ → ε → Prop} {s : σ} {es : List ε} (hP : Along step P s es)
    (hQ : Along step Q s es) : Along step (fun s e => P s e ∧ Q s e) s es := by
  induction es generalizing s with
  | nil => trivial
  | cons e es ih => exact ⟨⟨hP.1, hQ.1⟩, ih hP.2 hQ.2⟩

variable {step} {ok P Q : σ → ε → Prop} (Inv : σ → Prop)

/-- An invariant of legal steps holds at the end of a legal run. -/
theorem exec_inv (hstep : ∀ s e, Inv s → ok s e → Inv (step s e)) {s : σ} {es : List ε}
    (h : Inv s) (hes : Along step ok s es) : Inv (exec step s es) := by
  induction es generalizing s with
  | nil => exact h
  | cons e es ih => exact ih (hstep s e h hes.1) hes.2

/-- What the invariant gives at one legal step holds at every step of a legal run. -/
theorem along_of_inv (hstep : ∀ s e, Inv s → ok s e → Inv (step s e))
    (hP : ∀ s e, Inv s → ok s e → P s e) {s : σ} {es : List ε}
    (h : Inv s) (hes : Along step ok s es) : Along step P s es := by
  induction es generalizing s with
  | nil => trivial
  | cons e es ih => exact ⟨hP s e h hes.1, ih (hstep s e h hes.1) hes.2⟩

/-- Two properties that agree under the invariant, which the steps good for `Q` preserve, agree
    about whole runs: up to the first bad step the invariant holds. -/
theorem along_iff (hstep : ∀ s e, Inv s → ok s e → Q s e → Inv (step s e))
    (hPQ : ∀ s e, Inv s → ok s e → (P s e ↔ Q s e)) {s : σ} {es : List ε}
    (h : Inv s) (hes : Along step ok s es) : Along step P s es ↔ Along step Q s es := by
  induction es generalizing s with
  | nil => exact Iff.rfl
  | cons e es ih =>
    rw [along_cons, along_cons, hPQ s e h hes.1]
    exact and_congr_right fun hQ => ih (hstep s e h hes.1 hQ) hes.2

/-- The same without a guard. -/
theorem along_iff_free (hstep : ∀ s e, Inv s → Q s e → Inv (step s e))
    (hPQ : ∀ s e, Inv s → (P s e ↔ Q s e)) {s : σ} (h : Inv s) (es : List ε) :
    Along step P s es ↔ Along step Q s es :=
  along_iff Inv (fun s e hs _ hQ => hstep s e hs hQ) (fun s e hs _ => hPQ s e hs) h
    (along_true step s es)

/-- An invariant of every step holds at the end of every run. -/
theorem exec_inv_free (hstep : ∀ s e, Inv s → Inv (step s e)) {s : σ} (h : Inv s) (es : List ε) :
    Inv (exec step s es) :=
  exec_inv Inv (fun s e hs _ => hstep s e hs) h (along_true step s es)

/-- Where a bad step leaves a mark that stays, a run that ends without one took good steps only. -/
theorem along_of_unmarked (Bad : σ → Prop) (hstep : ∀ s e, Inv s → Inv (step s e))
    (hmark : ∀ s e, Inv s → ¬P s e → Bad (step s e))
    (hkeep : ∀ s e, Inv s → Bad s → Bad (step s e)) {s : σ} {es : List ε} (h : Inv s)
    (hend : ¬Bad (exec step s es)) : Along step P s es := by
  induction es generalizing s with
  | nil => trivial
  | cons e es ih =>
    refine ⟨?_, ih (hstep s e h) hend⟩
    by_contra hbad
    have hmarked : Inv (step s e) ∧ Bad (step s e) := ⟨hstep s e h, hmark s e h hbad⟩
    exact hend (exec_inv_free (fun s => Inv s ∧ Bad s)
      (fun s e hs => ⟨hstep s e hs.1, hkeep s e hs.1 hs.2⟩) hmarked es).2

instance decidableAlong [∀ s e, Decidable (P s e)] :
    ∀ (s : σ) (es : List ε), Decidable (Along step P s es)
  | _, [] => .isTrue trivial
  | s, e :: es => by
    have := decidableAlong (step s e) es
    exact inferInstanceAs (Decidable (P s e ∧ Along step P (step s e) es))

/-! ### Machines that answer -/

section Answers

variable {ο : Type*} (act : σ → ε → ο × σ)

/-- The answers of a run, in order. -/
def answers : σ → List ε → List ο
  | _, [] => []
  | s, e :: es => (act s e).1 :: answers (act s e).2 es

/-- The state such a run ends in. -/
def final (s : σ) (es : List ε) : σ := exec (fun s e => (act s e).2) s es

theorem final_concat (s : σ) (es : List ε) (e : ε) :
    final act s (es ++ [e]) = (act (final act s es) e).2 := by
  rw [final, exec_append]; rfl

theorem answers_concat (s : σ) (es : List ε) (e : ε) :
    answers act s (es ++ [e]) = answers act s es ++ [(act (final act s es) e).1] := by
  induction es generalizing s with
  | nil => rfl
  | cons e' es ih => exact congrArg _ (ih (act s e').2)

end Answers

/-! ### The events since the last mark -/

section Since

variable {α : Type*} (mark : α → Bool)

/-- The part of a log behind its last marked entry. -/
def since (log : List α) : List α := log.foldl (fun acc e => if mark e then [] else acc ++ [e]) []

theorem since_append_mark (log : List α) {e : α} (h : mark e = true) : since mark (log ++ [e]) = [] := by
  rw [since, List.foldl_append, List.foldl_cons, List.foldl_nil, if_pos h]

theorem since_append (log : List α) {es : List α} (h : ∀ e ∈ es, mark e = false) :
    since mark (log ++ es) = since mark log ++ es := by
  induction es generalizing log with
  | nil => simp
  | cons e es ih =>
    have hlog : since mark (log ++ [e]) = since mark log ++ [e] := by
      simp [since, h e List.mem_cons_self]
    rw [List.append_cons, ih (log ++ [e]) fun x hx => h x (List.mem_cons_of_mem e hx), hlog,
      List.append_assoc, List.singleton_append]

end Since

end DsparkEdge.Runs
