import DsparkEdge.Lib.Passes
import DsparkEdge.Lib.Texts
import Mathlib.Logic.Relation

/-! Editing a text by replacing a fixed part of it. What stands at both ends of the pattern and of its
    replacement stays, so that an edit is a splice:

        … left old right …   ──▶   … left new right …

    A guarded edit is skipped once its guard occurs, which it brings in itself; a sweep replaces all there
    is. Both settle, and whether an edit disturbs what another one settled is decided on the constants. -/

namespace DsparkEdge.Edits

open Passes Texts

variable {α β : Type*}

/-! ### Splices -/

/-- Between `left` and `right`, `old` is replaced by `new`. -/
structure Splice (α : Type*) where
  left : List α
  old : List α
  new : List α
  right : List α

def Splice.pattern (σ : Splice α) : List α := σ.left ++ σ.old ++ σ.right

def Splice.result (σ : Splice α) : List α := σ.left ++ σ.new ++ σ.right

/-- `m` is put behind every `a`. -/
def Splice.after (a m : List α) : Splice α := ⟨a, [], m, []⟩

/-- `m` is put before every `b`. -/
def Splice.before (m b : List α) : Splice α := ⟨[], [], m, b⟩

@[simp] theorem pattern_after (a m : List α) : (Splice.after a m).pattern = a := by
  simp [Splice.pattern, Splice.after]

@[simp] theorem result_after (a m : List α) : (Splice.after a m).result = a ++ m := by
  simp [Splice.result, Splice.after]

@[simp] theorem new_after (a m : List α) : (Splice.after a m).new = m := rfl

@[simp] theorem pattern_before (m b : List α) : (Splice.before m b).pattern = b := by
  simp [Splice.pattern, Splice.before]

@[simp] theorem result_before (m b : List α) : (Splice.before m b).result = m ++ b := by
  simp [Splice.result, Splice.before]

/-- One occurrence is replaced. -/
def Splice.Step (σ : Splice α) (s t : List α) : Prop :=
  ∃ l r, s = l ++ σ.pattern ++ r ∧ t = l ++ σ.result ++ r

theorem step_append_left {σ : Splice α} {s t : List α} (u : List α) (h : σ.Step s t) : σ.Step (u ++ s) (u ++ t) := by
  obtain ⟨l, r, rfl, rfl⟩ := h
  exact ⟨u ++ l, r, by simp only [List.append_assoc], by simp only [List.append_assoc]⟩

theorem steps_append_left {σ : Splice α} {s t : List α} (u : List α) (h : Relation.TransGen σ.Step s t) :
    Relation.TransGen σ.Step (u ++ s) (u ++ t) :=
  h.lift (u ++ ·) fun _ _ => step_append_left u

/-- `f` is cut at the joints of the splice, before and after. -/
structure Clean (f : List α → Option β) (σ : Splice α) : Prop where
  leftOld : Cuts f σ.left (σ.old ++ σ.right)
  oldRight : σ.old = [] ∨ Cuts f σ.old σ.right
  leftNew : Cuts f σ.left (σ.new ++ σ.right)
  newRight : σ.new = [] ∨ Cuts f σ.new σ.right

theorem scan_step {f : List α → Option β} {σ : Splice α} {s t : List α} (h : Clean f σ)
    (hs : σ.Step s t) :
    ∃ xs ys, scan f s = xs ++ scan f σ.old ++ ys ∧ scan f t = xs ++ scan f σ.new ++ ys := by
  obtain ⟨l, r, rfl, rfl⟩ := hs
  exact ⟨_, _, scan_joint h.leftOld h.oldRight l r, scan_joint h.leftNew h.newRight l r⟩

variable [DecidableEq α]

def Splice.run (σ : Splice α) (all : Bool) (s : List α) : List α :=
  if all then replaceAll σ.pattern σ.result s else replaceFirst σ.pattern σ.result s

/-- Nothing is replaced, or at least one occurrence. -/
def Splice.Runs (σ : Splice α) (s t : List α) : Prop :=
  occurs σ.pattern s = false ∧ t = s ∨ occurs σ.pattern s = true ∧ Relation.TransGen σ.Step s t

section Runs

variable {σ : Splice α} {s t : List α}

/-- A place where the pattern does not begin is passed over. -/
theorem runs_cons {c : α} (hpre : ¬σ.pattern <+: c :: s) (h : σ.Runs s t) : σ.Runs (c :: s) (c :: t) := by
  have hocc : occurs σ.pattern (c :: s) = occurs σ.pattern s := by
    rw [occurs, Bool.eq_false_iff.mpr (mt List.isPrefixOf_iff_prefix.mp hpre), Bool.false_or]
  rcases h with ⟨hno, rfl⟩ | ⟨hyes, hsteps⟩
  · exact Or.inl ⟨hocc.trans hno, rfl⟩
  · exact Or.inr ⟨hocc.trans hyes, steps_append_left [c] hsteps⟩

theorem runs_found (σ : Splice α) (r : List α) : occurs σ.pattern (σ.pattern ++ r) = true ∧
    σ.Step (σ.pattern ++ r) (σ.result ++ r) :=
  ⟨occurs_iff.mpr (List.prefix_append _ r).isInfix, [], r, rfl, rfl⟩

theorem run_runs (hne : σ.pattern ≠ []) (all : Bool) (s : List α) : σ.Runs s (σ.run all s) := by
  have hnil : σ.Runs [] [] := Or.inl ⟨occurs_eq_false.mpr (mt List.infix_nil.mp hne), rfl⟩
  cases all with
  | true =>
    refine replaceAll_induct (motive := σ.Runs) hne hnil ?_ (fun c s hpre ih => runs_cons hpre ih) s
    intro r ih
    obtain ⟨hocc, hstep⟩ := runs_found σ r
    refine Or.inr ⟨hocc, ?_⟩
    rcases ih with ⟨-, heq⟩ | ⟨-, hsteps⟩
    · rw [heq]
      exact .single hstep
    · exact .head hstep (steps_append_left σ.result hsteps)
  | false =>
    rcases replaceFirst_cases hne σ.result s with ⟨hno, heq⟩ | ⟨hyes, hstep⟩
    · exact Or.inl ⟨hno, heq⟩
    · exact Or.inr ⟨hyes, .single hstep⟩

end Runs

/-! ### What a splice leaves alone -/

/-- What each step keeps, a run keeps. -/
theorem run_inv {σ : Splice α} (hne : σ.pattern ≠ []) (P : List α → Prop) (h : ∀ s t, σ.Step s t → P s → P t)
    (all : Bool) {s : List α} (hs : P s) : P (σ.run all s) := by
  rcases run_runs hne all s with ⟨-, hrun⟩ | ⟨-, hsteps⟩
  · rwa [hrun]
  · revert hsteps
    generalize σ.run all s = t
    intro hsteps
    induction hsteps with
    | single hstep => exact h _ _ hstep hs
    | tail _ hstep ih => exact h _ _ hstep ih

theorem run_of_not_occurs {σ : Splice α} (hne : σ.pattern ≠ []) {s : List α} (h : occurs σ.pattern s = false)
    (all : Bool) : σ.run all s = s := by
  rcases run_runs hne all s with ⟨-, hrun⟩ | ⟨hyes, -⟩
  · exact hrun
  · rw [h] at hyes
    cases hyes

/-- A reading that `old` and `new` scan alike does not tell the two texts apart. -/
theorem scan_run {f : List α → Option β} {σ : Splice α} (h : Clean f σ) (hne : σ.pattern ≠ [])
    (heq : scan f σ.old = scan f σ.new) (all : Bool) (s : List α) : scan f (σ.run all s) = scan f s := by
  refine run_inv hne (fun t => scan f t = scan f s) (fun t t' hstep ht => ?_) all rfl
  obtain ⟨xs, ys, hold, hnew⟩ := scan_step h hstep
  rw [hnew, ← heq, ← hold, ht]

/-- No occurrence of the word is lost with `old`. -/
def Splice.retains (σ : Splice α) (p : List α) : Bool :=
  !p.isEmpty && !occurs p σ.old && cut p σ.left (σ.old ++ σ.right) && (σ.old.isEmpty || cut p σ.old σ.right)

/-- Nor does one come about across the joints of `new`. -/
def Splice.spares (σ : Splice α) (p : List α) : Bool :=
  σ.retains p && cut p σ.left (σ.new ++ σ.right) && (σ.new.isEmpty || cut p σ.new σ.right)

theorem retains_iff {σ : Splice α} {p : List α} (h : σ.retains p = true) : p ≠ [] ∧ occurs p σ.old = false ∧
    Cuts (here p) σ.left (σ.old ++ σ.right) ∧ (σ.old = [] ∨ Cuts (here p) σ.old σ.right) := by
  simp only [Splice.retains, Bool.and_eq_true, Bool.or_eq_true, Bool.not_eq_true', List.isEmpty_iff,
    ← Bool.not_eq_true] at h
  obtain ⟨⟨⟨hp, hold⟩, hlo⟩, hor⟩ := h
  exact ⟨hp, Bool.eq_false_iff.mpr hold, cuts_of_cut hlo, hor.imp_right cuts_of_cut⟩

theorem spares_iff {σ : Splice α} {p : List α} (h : σ.spares p = true) :
    p ≠ [] ∧ occurs p σ.old = false ∧ Clean (here p) σ := by
  simp only [Splice.spares, Bool.and_eq_true, Bool.or_eq_true, List.isEmpty_iff] at h
  obtain ⟨⟨hretains, hln⟩, hnr⟩ := h
  obtain ⟨hp, hold, hlo, hor⟩ := retains_iff hretains
  exact ⟨hp, hold, hlo, hor, cuts_of_cut hln, hnr.imp_right cuts_of_cut⟩

theorem occurs_run_retained {σ : Splice α} {p : List α} (hne : σ.pattern ≠ []) (h : σ.retains p = true)
    (all : Bool) {s : List α} (hs : occurs p s = true) : occurs p (σ.run all s) = true := by
  obtain ⟨hp, hold, hlo, hor⟩ := retains_iff h
  refine run_inv hne (fun s => occurs p s = true) (fun s t hstep hs => ?_) all hs
  obtain ⟨l, r, rfl, rfl⟩ := hstep
  rw [occurs_iff_scan hp, Splice.pattern, scan_joint hlo hor, scan_of_not_occurs hp hold, List.append_nil,
    Ne, List.append_eq_nil_iff, not_and_or, ← Ne, ← Ne, ← occurs_iff_scan hp, ← occurs_iff_scan hp,
    occurs_iff, occurs_iff] at hs
  rw [occurs_iff, Splice.result]
  rcases hs with hleft | hright
  · refine hleft.trans ⟨[], σ.new ++ σ.right ++ r, ?_⟩
    simp only [List.nil_append, List.append_assoc]
  · refine hright.trans ⟨l ++ σ.left ++ σ.new, [], ?_⟩
    simp only [List.append_nil, List.append_assoc]

/-- What `new` brings in occurs once the pattern was found. -/
theorem occurs_run_brought {σ : Splice α} {p : List α} (hne : σ.pattern ≠ []) (hnew : occurs p σ.new = true)
    (all : Bool) {s : List α} (hs : occurs σ.pattern s = true) : occurs p (σ.run all s) = true := by
  have hstep {s t : List α} (h : σ.Step s t) : occurs p t = true := by
    obtain ⟨l, r, -, rfl⟩ := h
    rw [occurs_iff] at hnew ⊢
    refine hnew.trans ⟨l ++ σ.left, σ.right ++ r, ?_⟩
    simp only [Splice.result, List.append_assoc]
  rcases run_runs hne all s with ⟨hno, -⟩ | ⟨-, hsteps⟩
  · rw [hs] at hno
    cases hno
  · cases hsteps with
    | single h => exact hstep h
    | tail _ h => exact hstep h

/-- A spared word occurs in the result if it did before, or if `new` brings it in. -/
theorem occurs_run {σ : Splice α} {p : List α} (hne : σ.pattern ≠ []) (h : σ.spares p = true) (all : Bool)
    (s : List α) : occurs p (σ.run all s) = (occurs p s || (occurs σ.pattern s && occurs p σ.new)) := by
  cases hocc : occurs σ.pattern s with
  | false => rw [run_of_not_occurs hne hocc, Bool.false_and, Bool.or_false]
  | true =>
    rw [Bool.true_and]
    cases hnew : occurs p σ.new with
    | true => rw [occurs_run_brought hne hnew all hocc, Bool.or_true]
    | false =>
      obtain ⟨hp, hold, hclean⟩ := spares_iff h
      have hscan := scan_run hclean hne ((scan_of_not_occurs hp hold).trans (scan_of_not_occurs hp hnew).symm)
        all s
      rw [Bool.or_false, Bool.eq_iff_iff, occurs_iff_scan hp, occurs_iff_scan hp, hscan]

/-! ### Edits -/

def guarded (guard : Option (List α)) (s : List α) : Bool := guard.any fun g => occurs g s

/-- What makes an edit settle: each splice of a guarded one brings in the guard, a sweep clears its pattern. -/
def settles (guard : Option (List α)) (splices : List (Splice α)) (all : Bool) : Bool :=
  splices.all (fun σ => !σ.pattern.isEmpty) &&
    match guard, splices with
    | some g, _ => splices.all fun σ => σ.retains g && occurs g σ.new
    | none, [σ] => all && cut σ.pattern [] σ.result && cut σ.pattern σ.result [] && !occurs σ.pattern σ.result
    | none, _ => false

/-- Splices one after the other, skipped if the guard occurs. -/
structure Edit (α : Type*) [DecidableEq α] where
  guard : Option (List α)
  splices : List (Splice α)
  all : Bool
  sound : settles guard splices all = true

def Edit.run (e : Edit α) (s : List α) : List α :=
  if guarded e.guard s then s else e.splices.foldl (fun s σ => σ.run e.all s) s

def Edit.Settled (e : Edit α) (s : List α) : Prop :=
  guarded e.guard s = true ∨ ∀ σ ∈ e.splices, occurs σ.pattern s = false

section Splices

variable {splices : List (Splice α)} {g : List α}

theorem foldl_fixed (hne : ∀ σ ∈ splices, σ.pattern ≠ []) {s : List α}
    (h : ∀ σ ∈ splices, occurs σ.pattern s = false) (all : Bool) :
    splices.foldl (fun s σ => σ.run all s) s = s := by
  induction splices with
  | nil => rfl
  | cons σ splices ih =>
    rw [List.foldl_cons, run_of_not_occurs (hne σ List.mem_cons_self) (h σ List.mem_cons_self)]
    exact ih (fun τ hτ => hne τ (List.mem_cons_of_mem σ hτ)) fun τ hτ => h τ (List.mem_cons_of_mem σ hτ)

theorem foldl_inv (P : List α → Prop) {all : Bool} (h : ∀ σ ∈ splices, ∀ s, P s → P (σ.run all s))
    {s : List α} (hs : P s) : P (splices.foldl (fun s σ => σ.run all s) s) := by
  induction splices generalizing s with
  | nil => exact hs
  | cons σ splices ih =>
    exact ih (fun τ hτ => h τ (List.mem_cons_of_mem σ hτ)) (h σ List.mem_cons_self s hs)

/-- If no splice brought in the guard, none found its pattern. -/
theorem foldl_settled (hne : ∀ σ ∈ splices, σ.pattern ≠ [])
    (hg : ∀ σ ∈ splices, σ.retains g = true ∧ occurs g σ.new = true) (all : Bool) (s : List α) :
    occurs g (splices.foldl (fun s σ => σ.run all s) s) = true ∨ ∀ σ ∈ splices, occurs σ.pattern s = false := by
  induction splices generalizing s with
  | nil => exact Or.inr fun σ hσ => absurd hσ List.not_mem_nil
  | cons σ splices ih =>
    have hne' : ∀ τ ∈ splices, τ.pattern ≠ [] := fun τ hτ => hne τ (List.mem_cons_of_mem σ hτ)
    have hg' : ∀ τ ∈ splices, τ.retains g = true ∧ occurs g τ.new = true := fun τ hτ =>
      hg τ (List.mem_cons_of_mem σ hτ)
    rw [List.foldl_cons]
    cases hocc : occurs σ.pattern s with
    | true =>
      refine Or.inl (foldl_inv (fun s => occurs g s = true) (fun τ hτ s hs => ?_) ?_)
      · exact occurs_run_retained (hne' τ hτ) (hg' τ hτ).1 all hs
      · exact occurs_run_brought (hne σ List.mem_cons_self) (hg σ List.mem_cons_self).2 all hocc
    | false =>
      rw [run_of_not_occurs (hne σ List.mem_cons_self) hocc]
      refine (ih hne' hg' s).imp_right fun h τ hτ => ?_
      rcases List.mem_cons.mp hτ with rfl | hτ
      · exact hocc
      · exact h τ hτ

end Splices

theorem Edit.pattern_ne (e : Edit α) : ∀ σ ∈ e.splices, σ.pattern ≠ [] := by
  intro σ hσ
  have h := e.sound
  unfold settles at h
  rw [Bool.and_eq_true, List.all_eq_true] at h
  simpa using h.1 σ hσ

/-- Without a guard there is one splice, which runs at every place and clears its pattern. -/
theorem sweep_of_settles {splices : List (Splice α)} {all : Bool} (h : settles none splices all = true) :
    ∃ σ, splices = [σ] ∧ all = true ∧ cut σ.pattern [] σ.result = true ∧ cut σ.pattern σ.result [] = true ∧
      occurs σ.pattern σ.result = false := by
  rcases splices with _ | ⟨σ, _ | ⟨τ, splices⟩⟩
  · simp [settles] at h
  · simp only [settles, Bool.and_eq_true, Bool.not_eq_true'] at h
    obtain ⟨-, ⟨⟨hall, hleft⟩, hright⟩, hq⟩ := h
    exact ⟨σ, rfl, hall, hleft, hright, hq⟩
  · simp [settles] at h

theorem guards_of_settles {g : List α} {splices : List (Splice α)} {all : Bool}
    (h : settles (some g) splices all = true) : ∀ σ ∈ splices, σ.retains g = true ∧ occurs g σ.new = true := by
  intro σ hσ
  rw [settles, Bool.and_eq_true] at h
  have hboth := List.all_eq_true.mp h.2 σ hσ
  rwa [Bool.and_eq_true] at hboth

theorem edit_settle (e : Edit α) (s : List α) : e.Settled (e.run s) := by
  obtain ⟨guard, splices, all, hsound⟩ := e
  have hne := Edit.pattern_ne ⟨guard, splices, all, hsound⟩
  simp only [Edit.Settled, Edit.run]
  cases guard with
  | some g =>
    split
    · exact Or.inl ‹_›
    · rcases foldl_settled hne (guards_of_settles hsound) all s with hocc | hno
      · exact Or.inl hocc
      · rw [foldl_fixed hne hno]
        exact Or.inr hno
  | none =>
    obtain ⟨σ, rfl, rfl, hleft, hright, hq⟩ := sweep_of_settles hsound
    refine Or.inr fun τ hτ => ?_
    rw [List.mem_singleton.mp hτ]
    exact replaceAll_clears (hne σ List.mem_cons_self) hleft hright hq s

/-- An edit is a pass. -/
def Edit.pass (e : Edit α) : Pass (List α) where
  run := e.run
  Settled := e.Settled
  settle := edit_settle e
  fixed := by
    rintro s (hguard | hno)
    · rw [Edit.run, if_pos hguard]
    · rw [Edit.run, foldl_fixed e.pattern_ne hno, ite_self]

@[simp] theorem pass_run (e : Edit α) : e.pass.run = e.run := rfl

/-! ### Edits among each other -/

/-- The splice leaves occurrences of the word as they are, and brings in none. -/
def Splice.ignores (σ : Splice α) (p : List α) : Bool := σ.spares p && !occurs p σ.new

/-- The splice keeps the guard of the edit and makes none of its patterns. -/
def Splice.keeps (σ : Splice α) (e : Edit α) : Bool :=
  e.guard.all σ.retains && e.splices.all fun τ => σ.ignores τ.pattern

theorem occurs_run_ignored {σ : Splice α} {p : List α} (hne : σ.pattern ≠ []) (h : σ.ignores p = true)
    (all : Bool) (s : List α) : occurs p (σ.run all s) = occurs p s := by
  rw [Splice.ignores, Bool.and_eq_true, Bool.not_eq_true'] at h
  rw [occurs_run hne h.1, h.2, Bool.and_false, Bool.or_false]

theorem keeps_splice {σ : Splice α} {e : Edit α} (hne : σ.pattern ≠ []) (h : σ.keeps e = true) (all : Bool) :
    Keeps (σ.run all) e.pass := by
  rw [Splice.keeps, Bool.and_eq_true, List.all_eq_true] at h
  obtain ⟨hguard, hsplices⟩ := h
  rintro s (hg | hno)
  · left
    cases hgd : e.guard with
    | none => rw [hgd] at hg; cases hg
    | some g =>
      rw [hgd] at hg hguard
      exact occurs_run_retained hne hguard all hg
  · right
    intro τ hτ
    rw [occurs_run_ignored hne (hsplices τ hτ), hno τ hτ]

/-- What every splice of an edit keeps, the edit keeps. -/
theorem edit_inv (P : List α → Prop) (e : Edit α) (h : ∀ σ ∈ e.splices, ∀ s, P s → P (σ.run e.all s))
    {s : List α} (hs : P s) : P (e.run s) := by
  rw [Edit.run]
  split
  · exact hs
  · exact foldl_inv P h hs

def Edit.keeps (e e' : Edit α) : Bool := e.splices.all fun σ => σ.keeps e'

theorem keeps_edit {e e' : Edit α} (h : e.keeps e' = true) : Keeps e.pass.run e'.pass := by
  intro s hs
  refine edit_inv e'.pass.Settled e (fun σ hσ s hs => ?_) hs
  exact keeps_splice (e.pattern_ne σ hσ) (List.all_eq_true.mp h σ hσ) e.all s hs

/-- The words an edit looks for. -/
def Edit.words (e : Edit α) : List (List α) := e.guard.toList ++ e.splices.map Splice.pattern

theorem guarded_words {e : Edit α} {s t : List α} (h : ∀ p ∈ e.words, occurs p t = occurs p s) :
    guarded e.guard t = guarded e.guard s := by
  unfold Edit.words at h
  cases hguard : e.guard with
  | none => rfl
  | some p => exact h p (by rw [hguard]; exact List.mem_cons_self)

theorem pattern_mem_words {e : Edit α} {σ : Splice α} (hσ : σ ∈ e.splices) : σ.pattern ∈ e.words :=
  List.mem_append_right _ (List.mem_map_of_mem hσ)

/-- A step that leaves these words alone keeps the edit settled. -/
theorem keeps_words {g : List α → List α} {e : Edit α} (h : ∀ p ∈ e.words, ∀ s, occurs p (g s) = occurs p s) :
    Keeps g e.pass := by
  rintro s (hguard | hno)
  · exact Or.inl ((guarded_words fun p hp => h p hp s).trans hguard)
  · exact Or.inr fun σ hσ => (h σ.pattern (pattern_mem_words hσ) s).trans (hno σ hσ)

/-- A list of edits none of which disturbs an earlier one. -/
theorem ordered_edits {es : List (Edit α)} (h : es.Pairwise fun e e' => e'.keeps e = true) :
    Ordered (es.map Edit.pass) :=
  List.pairwise_map.mpr (h.imp keeps_edit)

/-- No splice of the edits touches the word. -/
def ignored (es : List (Edit α)) (p : List α) : Bool := es.all fun e => e.splices.all fun σ => σ.ignores p

theorem ignored_subset {es es' : List (Edit α)} {p : List α} (h : ignored es' p = true) (hsub : es ⊆ es') :
    ignored es p = true := by
  rw [ignored, List.all_eq_true] at h ⊢
  exact fun e he => h e (hsub he)

theorem occurs_edits {es : List (Edit α)} {p : List α} (h : ignored es p = true) (s : List α) :
    occurs p (runAll (es.map Edit.pass) s) = occurs p s := by
  refine runAll_inv (fun t => occurs p t = occurs p s) (fun q hq t ht => ?_) rfl
  obtain ⟨e, he, rfl⟩ := List.mem_map.mp hq
  refine edit_inv (fun t => occurs p t = occurs p s) e (fun σ hσ t ht => ?_) ht
  rw [occurs_run_ignored (e.pattern_ne σ hσ)
    (List.all_eq_true.mp (List.all_eq_true.mp h e he) σ hσ), ht]

/-- Nor the reading. -/
theorem scan_edits {f : List α → Option β} {es : List (Edit α)}
    (h : ∀ e ∈ es, ∀ σ ∈ e.splices, Clean f σ ∧ scan f σ.old = scan f σ.new) (s : List α) :
    scan f (runAll (es.map Edit.pass) s) = scan f s := by
  refine runAll_inv (fun t => scan f t = scan f s) (fun q hq t ht => ?_) rfl
  obtain ⟨e, he, rfl⟩ := List.mem_map.mp hq
  refine edit_inv (fun t => scan f t = scan f s) e (fun σ hσ t ht => ?_) ht
  obtain ⟨hclean, heq⟩ := h e he σ hσ
  rw [scan_run hclean (e.pattern_ne σ hσ) heq, ht]

theorem scan_ignored {σ : Splice α} {p : List α} (h : σ.ignores p = true) :
    Clean (here p) σ ∧ scan (here p) σ.old = scan (here p) σ.new := by
  rw [Splice.ignores, Bool.and_eq_true, Bool.not_eq_true'] at h
  obtain ⟨hp, hold, hclean⟩ := spares_iff h.1
  exact ⟨hclean, (scan_of_not_occurs hp hold).trans (scan_of_not_occurs hp h.2).symm⟩

/-- An ignored word occurs as often as it did. -/
theorem count_run {σ : Splice α} {p : List α} (hne : σ.pattern ≠ []) (h : σ.ignores p = true) (all : Bool)
    (s : List α) : count p (σ.run all s) = count p s := by
  obtain ⟨hclean, heq⟩ := scan_ignored h
  rw [count, count, scan_run hclean hne heq]

theorem count_edits {es : List (Edit α)} {p : List α} (h : ignored es p = true) (s : List α) :
    count p (runAll (es.map Edit.pass) s) = count p s :=
  congrArg List.length (scan_edits (fun e he σ hσ =>
    scan_ignored (List.all_eq_true.mp (List.all_eq_true.mp h e he) σ hσ)) s)

/-- A word that all splices spare occurs behind them if it did before, or if one of them found its
    pattern and brings it in; the patterns are looked for in the text as it was. -/
theorem occurs_foldl {splices : List (Splice α)} {p : List α} (hne : ∀ σ ∈ splices, σ.pattern ≠ [])
    (hspares : ∀ σ ∈ splices, σ.spares p = true)
    (hapart : splices.Pairwise fun σ τ => σ.ignores τ.pattern = true) (all : Bool) (s : List α) :
    occurs p (splices.foldl (fun s σ => σ.run all s) s) = true ↔
      occurs p s = true ∨ ∃ σ ∈ splices, occurs σ.pattern s = true ∧ occurs p σ.new = true := by
  induction splices generalizing s with
  | nil => simp
  | cons σ splices ih =>
    obtain ⟨hσ, hrest⟩ := List.pairwise_cons.mp hapart
    rw [List.foldl_cons, ih (fun τ hτ => hne τ (List.mem_cons_of_mem σ hτ))
      (fun τ hτ => hspares τ (List.mem_cons_of_mem σ hτ)) hrest,
      occurs_run (hne σ List.mem_cons_self) (hspares σ List.mem_cons_self), Bool.or_eq_true, Bool.and_eq_true,
      List.exists_mem_cons_iff, or_assoc]
    refine or_congr_right (or_congr_right (exists_congr fun τ => and_congr_right fun hτ => ?_))
    rw [occurs_run_ignored (hne σ List.mem_cons_self) (hσ τ hτ)]

/-- Every splice of the edit spares the word, and leaves the patterns of the later ones alone. -/
def Edit.admits (e : Edit α) (p : List α) : Prop :=
  (∀ σ ∈ e.splices, σ.spares p = true) ∧ e.splices.Pairwise fun σ τ => σ.ignores τ.pattern = true

instance (e : Edit α) (p : List α) : Decidable (e.admits p) :=
  inferInstanceAs (Decidable ((∀ σ ∈ e.splices, σ.spares p = true) ∧ _))

/-- The edit finds a pattern of its own in `s`, for which it brings the word in. -/
def Edit.Brings (e : Edit α) (p s : List α) : Prop :=
  guarded e.guard s = false ∧ ∃ σ ∈ e.splices, occurs σ.pattern s = true ∧ occurs p σ.new = true

theorem occurs_edit {e : Edit α} {p : List α} (h : e.admits p) (s : List α) :
    occurs p (e.run s) = true ↔ occurs p s = true ∨ e.Brings p s := by
  rw [Edit.run, Edit.Brings]
  cases hguard : guarded e.guard s with
  | true => simp
  | false =>
    rw [if_neg Bool.false_ne_true, occurs_foldl e.pattern_ne h.1 h.2]
    simp

theorem brings_words {e : Edit α} {p s t : List α} (h : ∀ w ∈ e.words, occurs w t = occurs w s) :
    e.Brings p t ↔ e.Brings p s := by
  rw [Edit.Brings, Edit.Brings, guarded_words h]
  refine and_congr_right fun _ => exists_congr fun σ => and_congr_right fun hσ => ?_
  rw [h σ.pattern (pattern_mem_words hσ)]

/-- Edits none of which touches what a later one looks for. -/
structure Parallel (α : Type*) [DecidableEq α] where
  edits : List (Edit α)
  apart : edits.Pairwise fun e e' => ∀ w ∈ e'.words, ignored [e] w = true

/-- They all look for it in the text as it was. -/
theorem occurs_parallel (P : Parallel α) {p : List α} (hp : ∀ e ∈ P.edits, e.admits p) (s : List α) :
    occurs p (runAll (P.edits.map Edit.pass) s) = true ↔ occurs p s = true ∨ ∃ e ∈ P.edits, e.Brings p s := by
  obtain ⟨es, hapart⟩ := P
  simp only at hp ⊢
  induction es generalizing s with
  | nil => simp
  | cons e es ih =>
    obtain ⟨he, hrest⟩ := List.pairwise_cons.mp hapart
    have hwords : ∀ e' ∈ es, e'.Brings p (e.run s) ↔ e'.Brings p s := fun e' he' =>
      brings_words fun w hw => occurs_edits (he e' he' w hw) s
    rw [List.map_cons, runAll_cons, ih _ hrest (fun e' he' => hp e' (List.mem_cons_of_mem e he')),
      List.exists_mem_cons_iff, ← or_assoc, pass_run, ← occurs_edit (hp e List.mem_cons_self)]
    exact or_congr_right (exists_congr fun e' => and_congr_right fun he' => hwords e' he')

end DsparkEdge.Edits
