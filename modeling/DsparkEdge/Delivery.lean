import DsparkEdge.Remote
import DsparkEdge.Service

/-! Requests that reach the daemon late, twice, out of order or not at all. The server's log is what it
    issued; a delivery is an index into it, and any list of indices may arrive. The replay guard orders
    the Drafts of one generation by their step ids. A Reset sets it back to 0, since the step ids start
    over, so a Draft of an old generation that arrives after a Reset passes again.

        issued      Reset   Draft 1   Reset   Draft 1'
        delivered     ✓        ✓        ✓        Draft 1 once more: 0 < 1, executed            -/

namespace DsparkEdge

open Runs

/-! ### What was issued -/

/-- The step id of the `i`-th issued request, if it is a Draft. -/
def stepOf (log : List Sent) (i : ℕ) : Option ℕ :=
  match log[i]? with
  | some (.draft req _) => some req.stepId
  | _ => none

def isResetAt (log : List Sent) (i : ℕ) : Bool := (log[i]?.map Sent.isReset).getD false

/-- The generation of the `i`-th issued request: a Reset opens its own. -/
def genOf (log : List Sent) (i : ℕ) : ℕ := (log.take (i + 1)).countP Sent.isReset

theorem genOf_mono (log : List Sent) {i j : ℕ} (h : i ≤ j) : genOf log i ≤ genOf log j :=
  List.Sublist.countP_le (List.take_sublist_take_left (by omega))

/-- Whatever comes before a Reset belongs to an earlier generation. -/
theorem genOf_lt_reset {log : List Sent} {i j : ℕ} (hj : isResetAt log j = true) (h : i < j) :
    genOf log i < genOf log j := by
  have hle : genOf log i ≤ (log.take j).countP Sent.isReset :=
    List.Sublist.countP_le (List.take_sublist_take_left (by omega))
  cases hget : log[j]? with
  | none => rw [isResetAt, hget] at hj; cases hj
  | some e =>
    rw [isResetAt, hget] at hj
    have hstep : genOf log j = (log.take j).countP Sent.isReset + 1 := by
      rw [genOf, List.take_add_one, hget, List.countP_append]
      simpa using hj
    omega

/-- Within a generation the step ids of the issued Drafts increase; those of the current one are at
    most `bound`. -/
structure StepsOrdered (log : List Sent) (bound : ℕ) : Prop where
  order : ∀ i j a b, i < j → stepOf log i = some a → stepOf log j = some b →
    genOf log i = genOf log j → a < b
  bound : ∀ i a, stepOf log i = some a → genOf log i = log.countP Sent.isReset → a ≤ bound

theorem stepOf_lt {log : List Sent} {i a : ℕ} (h : stepOf log i = some a) : i < log.length := by
  by_contra hge
  rw [stepOf, List.getElem?_eq_none (by omega)] at h
  cases h

theorem stepOf_append {log : List Sent} (e : Sent) {i : ℕ} (h : i < log.length) :
    stepOf (log ++ [e]) i = stepOf log i := by
  rw [stepOf, List.getElem?_append_left h, stepOf]

theorem genOf_append {log : List Sent} (e : Sent) {i : ℕ} (h : i < log.length) :
    genOf (log ++ [e]) i = genOf log i := by
  rw [genOf, List.take_append_of_le_length (by omega), genOf]

theorem genOf_le (log : List Sent) (i : ℕ) : genOf log i ≤ log.countP Sent.isReset :=
  List.Sublist.countP_le (List.take_sublist _ _)

theorem stepOf_last (log : List Sent) (e : Sent) : stepOf (log ++ [e]) log.length =
    match e with
    | .draft req _ => some req.stepId
    | _ => none := by
  rw [stepOf, List.getElem?_concat_length]
  cases e <;> rfl

/-- Issuing one more request keeps the order if a Draft takes a step id above the bound. -/
theorem StepsOrdered.append {log : List Sent} {bound bound' : ℕ} (h : StepsOrdered log bound)
    {e : Sent} (hle : e.isReset = false → bound ≤ bound')
    (hnew : ∀ a, stepOf (log ++ [e]) log.length = some a → bound < a ∧ a ≤ bound') :
    StepsOrdered (log ++ [e]) bound' := by
  have hcases : ∀ i a, stepOf (log ++ [e]) i = some a → i < log.length ∨ i = log.length := by
    intro i a hi
    have := stepOf_lt hi
    rw [List.length_append, List.length_singleton] at this
    omega
  have hcount : (log ++ [e]).countP Sent.isReset =
      log.countP Sent.isReset + if e.isReset then 1 else 0 := by
    rw [List.countP_append]
    simp [List.countP_cons]
  have hlast : genOf (log ++ [e]) log.length = (log ++ [e]).countP Sent.isReset := by
    rw [genOf, List.take_of_length_le (by simp)]
  have hdraft : ∀ a, stepOf (log ++ [e]) log.length = some a → e.isReset = false := by
    intro a ha
    rw [stepOf_last] at ha
    cases e with
    | prefill req ok => rfl
    | draft req ok => rfl
    | reset req ok => cases ha
  refine ⟨?_, ?_⟩
  · intro i j a b hij hi hj hgen
    rcases hcases j b hj with hjl | rfl
    · rw [stepOf_append e (by omega)] at hi hj
      rw [genOf_append e (by omega), genOf_append e (by omega)] at hgen
      exact h.order i j a b hij hi hj hgen
    · rw [stepOf_append e hij] at hi
      rw [genOf_append e hij, hlast, hcount, hdraft b hj] at hgen
      have := h.bound i a hi (by simpa using hgen)
      exact lt_of_le_of_lt this (hnew b hj).1
  · intro i a hi hgen
    rcases hcases i a hi with hil | rfl
    · rw [stepOf_append e hil] at hi
      rw [genOf_append e hil, hcount] at hgen
      cases hreset : e.isReset with
      | true =>
        have := genOf_le log i
        rw [hreset, if_pos rfl] at hgen
        omega
      | false =>
        rw [hreset, if_neg Bool.false_ne_true] at hgen
        exact le_trans (h.bound i a hi hgen) (hle hreset)
    · exact (hnew a hi).2

variable {p : SpecParams} {session : ℕ} {s : Remote}

theorem stepsOrdered_mono {log : List Sent} {bound bound' : ℕ} (h : StepsOrdered log bound)
    (hle : bound ≤ bound') : StepsOrdered log bound' :=
  ⟨h.order, fun i a hi hgen => le_trans (h.bound i a hi hgen) hle⟩

/-- Of two Drafts of one generation, the one with the smaller step id was issued first. -/
theorem StepsOrdered.issued_lt {log : List Sent} {bound : ℕ} (h : StepsOrdered log bound)
    {i j a b : ℕ} (hi : stepOf log i = some a) (hj : stepOf log j = some b)
    (hgen : genOf log i ≤ genOf log j) (hlt : a < b) : i < j := by
  rcases lt_or_ge i j with hij | hge
  · exact hij
  · have heq : genOf log j = genOf log i := le_antisymm (genOf_mono log hge) hgen
    rcases eq_or_lt_of_le hge with rfl | hji
    · rw [hi] at hj
      cases Option.some.inj hj
      omega
    · have := h.order j i b a hji hj hi heq
      omega

theorem stepsOrdered_draft {log : List Sent} {bound : ℕ} (h : StepsOrdered log bound)
    {req : DraftRequest} (ok : Bool) (hstep : req.stepId = bound + 1) :
    StepsOrdered (log ++ [.draft req ok]) (bound + 1) := by
  refine h.append (fun _ => Nat.le_succ bound) ?_
  intro a ha
  rw [stepOf_last] at ha
  cases Option.some.inj ha
  omega

/-- The server issues its Drafts in order. -/
theorem stepsOrdered_step (h : s.Live session) (hord : StepsOrdered s.log s.stepId)
    (e : RemoteEvent) : StepsOrdered (s.step p e).log (s.step p e).stepId := by
  cases e with
  | process layerInp batch => rw [step_process h]; exact hord
  | begin r prompt =>
    obtain ⟨hlog, c, -, heq⟩ := step_begin (p := p) h r prompt
    have hstep : (s.step p (.begin r prompt)).stepId = 0 := by rw [heq]
    rw [hlog, hstep]
    refine hord.append (fun hreset => by cases hreset) ?_
    intro a ha
    rw [stepOf_last] at ha
    cases ha
  | draft r dparams =>
    cases hdp : dparams.find? DraftParams.drafting with
    | none => rw [step_draft_none r hdp]; exact hord
    | some dp =>
      rcases step_draft_cases (p := p) h r hdp with ⟨-, heq⟩ | ⟨tokens, -, ⟨-, hs⟩ | ⟨-, hs⟩⟩
      · rw [heq]
        exact stepsOrdered_mono hord (stepId_le_skipped s)
      · have hprefill : StepsOrdered (s.log ++ [.prefill ⟨session, tokens, true⟩ r.prefillOk])
            s.stepId := by
          refine hord.append (fun _ => le_rfl) ?_
          intro a ha
          rw [stepOf_last] at ha
          cases ha
        rw [hs.log, hs.stepId, List.append_cons]
        exact stepsOrdered_draft hprefill _ rfl
      · rw [hs.log, hs.stepId]
        exact stepsOrdered_draft hord _ rfl

theorem stepsOrdered_exec (session : ℕ) (es : List RemoteEvent) :
    StepsOrdered (exec (Remote.step p) (.fresh session) es).log
      (exec (Remote.step p) (.fresh session) es).stepId := by
  induction es using List.reverseRecOn with
  | nil =>
    refine ⟨?_, ?_⟩
    · intro i j a b _ hi; cases hi
    · intro i a hi; cases hi
  | append_singleton es e ih =>
    rw [exec_append]
    exact stepsOrdered_step (live_exec session es) ih e

/-! ### What is executed -/

/-- The daemon's session, the requests it executed up to the last Reset (`past`, that one included) and
    the Drafts it executed since. -/
structure Receiver where
  session : Session
  past : List ℕ
  recent : List ℕ

def Receiver.fresh : Receiver := ⟨.fresh, [], []⟩

/-- The Drafts and Resets the engine executed, in order. -/
def Receiver.executed (rc : Receiver) : List ℕ := rc.past ++ rc.recent

/-- The `i`-th issued request reaches the daemon. -/
def Receiver.deliver (cfg : ModelConfig) (M : DraftModel) (log : List Sent) (rc : Receiver)
    (d : ℕ × LlamaCalls) : Receiver :=
  match log[d.1]? with
  | none => rc
  | some (.prefill req _) => { rc with session := (rc.session.prefill cfg d.2 req).2.2 }
  | some (.draft req _) =>
    { rc with
      session := (rc.session.draft cfg M d.2 req).2.2
      recent := if rc.session.lastStepId < req.stepId then rc.recent ++ [d.1] else rc.recent }
  | some (.reset _ _) => ⟨rc.session.reset.2.2, rc.past ++ rc.recent ++ [d.1], []⟩

/-- No request arrives after one of a later generation, and a Reset only after everything of earlier
    generations. -/
def Barrier (log : List Sent) (ds : List ℕ) : Prop :=
  ds.Pairwise fun i j => genOf log i ≤ genOf log j ∧ (isResetAt log j = true → genOf log i < genOf log j)

/-- `j` is not executed out of order after `i`: if it is a Draft, it was issued later. -/
def InOrder (log : List Sent) (i j : ℕ) : Prop := (stepOf log j).isSome → i < j

instance (log : List Sent) (i j : ℕ) : Decidable (InOrder log i j) :=
  inferInstanceAs (Decidable (_ → _))

/-- What the daemon has executed after the deliveries `ds`. -/
structure Executed (log : List Sent) (ds : List ℕ) (rc : Receiver) : Prop where
  recent_step : ∀ i ∈ rc.recent, ∃ a, stepOf log i = some a ∧ a ≤ rc.session.lastStepId
  recent_incr : rc.recent.Pairwise fun i j =>
    ∀ a b, stepOf log i = some a → stepOf log j = some b → a < b
  recent_mem : ∀ i ∈ rc.recent, i ∈ ds
  past_mem : ∀ i ∈ rc.past, i ∈ ds
  past_lt : Barrier log ds → ∀ j, (stepOf log j).isSome → (∀ d ∈ ds, genOf log d ≤ genOf log j) →
    ∀ i ∈ rc.past, i < j
  inOrder : Barrier log ds → rc.executed.Pairwise (InOrder log)

theorem fresh_executed (log : List Sent) : Executed log [] .fresh where
  recent_step := fun i hi => by cases hi
  recent_incr := .nil
  recent_mem := fun i hi => by cases hi
  past_mem := fun i hi => by cases hi
  past_lt := fun _ j _ _ i hi => by cases hi
  inOrder := fun _ => .nil

theorem stepOf_of_reset {log : List Sent} {i : ℕ} (h : isResetAt log i = true) : stepOf log i = none := by
  unfold isResetAt at h
  unfold stepOf
  cases hget : log[i]? with
  | none => rfl
  | some e =>
    rw [hget] at h
    cases e with
    | prefill req ok => rfl
    | draft req ok => cases h
    | reset req ok => rfl

theorem isResetAt_eq {log : List Sent} {i : ℕ} {e : Sent} (h : log[i]? = some e) :
    isResetAt log i = e.isReset := by
  rw [isResetAt, h]; rfl

/-- A request that leaves the guard alone leaves the account alone. -/
theorem Executed.skip {log : List Sent} {ds : List ℕ} {rc rc' : Receiver} (h : Executed log ds rc)
    (i : ℕ) (hpast : rc'.past = rc.past) (hrecent : rc'.recent = rc.recent)
    (hlast : rc'.session.lastStepId = rc.session.lastStepId) : Executed log (ds ++ [i]) rc' where
  recent_step := by rw [hrecent, hlast]; exact h.recent_step
  recent_incr := by rw [hrecent]; exact h.recent_incr
  recent_mem := by
    rw [hrecent]
    exact fun j hj => List.mem_append_left _ (h.recent_mem j hj)
  past_mem := by
    rw [hpast]
    exact fun j hj => List.mem_append_left _ (h.past_mem j hj)
  past_lt := by
    intro hb j hj hgen
    rw [hpast]
    exact h.past_lt (List.pairwise_append.mp hb).1 j hj fun d hd => hgen d (List.mem_append_left _ hd)
  inOrder := by
    intro hb
    rw [Receiver.executed, hpast, hrecent]
    exact h.inOrder (List.pairwise_append.mp hb).1

variable {log : List Sent} {bound : ℕ} {ds : List ℕ} {rc : Receiver}

/-- An executed Draft comes after everything of earlier generations and after the earlier Drafts of its
    own. -/
theorem Executed.draft (hord : StepsOrdered log bound) (h : Executed log ds rc) {i a : ℕ}
    (hi : stepOf log i = some a) (hfresh : rc.session.lastStepId < a) {session : Session}
    (hlast : session.lastStepId = a) :
    Executed log (ds ++ [i]) ⟨session, rc.past, rc.recent ++ [i]⟩ where
  recent_step := by
    intro j hj
    rcases List.mem_append.mp hj with hj | hj
    · obtain ⟨b, hb, hle⟩ := h.recent_step j hj
      exact ⟨b, hb, by simp only; omega⟩
    · rw [List.mem_singleton.mp hj]
      exact ⟨a, hi, hlast.ge⟩
  recent_incr := by
    refine List.pairwise_append.mpr ⟨h.recent_incr, List.pairwise_singleton _ _, ?_⟩
    intro j hj k hk b c hb hc
    rw [List.mem_singleton.mp hk, hi] at hc
    obtain ⟨b', hb', hle⟩ := h.recent_step j hj
    rw [hb] at hb'
    cases Option.some.inj hb'
    cases Option.some.inj hc
    omega
  recent_mem := by
    intro j hj
    rcases List.mem_append.mp hj with hj | hj
    · exact List.mem_append_left _ (h.recent_mem j hj)
    · exact List.mem_append_right _ hj
  past_mem := fun j hj => List.mem_append_left _ (h.past_mem j hj)
  past_lt := by
    intro hb j hj hgen
    exact h.past_lt (List.pairwise_append.mp hb).1 j hj fun d hd => hgen d (List.mem_append_left _ hd)
  inOrder := by
    intro hb
    obtain ⟨hds, -, hcross⟩ := List.pairwise_append.mp hb
    rw [Receiver.executed, ← List.append_assoc]
    refine List.pairwise_append.mpr ⟨h.inOrder hds, List.pairwise_singleton _ _, ?_⟩
    intro j hj k hk hdraft
    rw [List.mem_singleton.mp hk]
    rcases List.mem_append.mp hj with hj | hj
    · refine h.past_lt hds i (by rw [hi]; rfl) ?_ j hj
      intro d hd
      exact (hcross d hd i (List.mem_singleton_self i)).1
    · have hgen := (hcross j (h.recent_mem j hj) i (List.mem_singleton_self i)).1
      obtain ⟨b, hb, hle⟩ := h.recent_step j hj
      exact hord.issued_lt hb hi hgen (by omega)

/-- An executed Reset closes the account of the Drafts before it. -/
theorem Executed.reset (h : Executed log ds rc) {i : ℕ} (hi : isResetAt log i = true)
    (session : Session) : Executed log (ds ++ [i]) ⟨session, rc.past ++ rc.recent ++ [i], []⟩ where
  recent_step := fun j hj => by cases hj
  recent_incr := .nil
  recent_mem := fun j hj => by cases hj
  past_mem := by
    intro j hj
    rcases List.mem_append.mp hj with hj | hj
    · rcases List.mem_append.mp hj with hj | hj
      · exact List.mem_append_left _ (h.past_mem j hj)
      · exact List.mem_append_left _ (h.recent_mem j hj)
    · exact List.mem_append_right _ hj
  past_lt := by
    intro hb j hj hgen k hk
    obtain ⟨hds, -, hcross⟩ := List.pairwise_append.mp hb
    have hij : genOf log i ≤ genOf log j := hgen i (List.mem_append_right _ (List.mem_singleton_self i))
    rcases List.mem_append.mp hk with hk | hk
    · rcases List.mem_append.mp hk with hk | hk
      · exact h.past_lt hds j hj (fun d hd => hgen d (List.mem_append_left _ hd)) k hk
      · -- a Draft of an earlier generation than the Reset
        have hlt := (hcross k (h.recent_mem k hk) i (List.mem_singleton_self i)).2 hi
        rcases lt_or_ge k j with hkj | hjk
        · exact hkj
        · have := genOf_mono log hjk
          omega
    · rw [List.mem_singleton.mp hk]
      rcases lt_trichotomy i j with hlt | rfl | hgt
      · exact hlt
      · rw [stepOf_of_reset hi] at hj
        cases hj
      · have := genOf_lt_reset hi hgt
        omega
  inOrder := by
    intro hb
    obtain ⟨hds, -, -⟩ := List.pairwise_append.mp hb
    rw [Receiver.executed, List.append_nil]
    refine List.pairwise_append.mpr ⟨h.inOrder hds, List.pairwise_singleton _ _, ?_⟩
    intro j _ k hk hdraft
    rw [List.mem_singleton.mp hk, stepOf_of_reset hi] at hdraft
    cases hdraft

theorem executed_deliver (cfg : ModelConfig) (M : DraftModel) (hord : StepsOrdered log bound)
    (h : Executed log ds rc) (d : ℕ × LlamaCalls) :
    Executed log (ds ++ [d.1]) (rc.deliver cfg M log d) := by
  unfold Receiver.deliver
  cases hget : log[d.1]? with
  | none => exact h.skip d.1 rfl rfl rfl
  | some e =>
    cases e with
    | prefill req ok => exact h.skip d.1 rfl rfl rfl
    | reset req ok => exact h.reset (isResetAt_eq hget) _
    | draft req ok =>
      simp only
      rcases Nat.lt_or_ge rc.session.lastStepId req.stepId with hfresh | hstale
      · rw [if_pos hfresh, draft_executed cfg M d.2 hfresh]
        exact h.draft hord (by rw [stepOf, hget]) hfresh rfl
      · rw [if_neg (by omega), draft_stale cfg M d.2 hstale]
        exact h.skip d.1 rfl rfl rfl

theorem executed_exec (cfg : ModelConfig) (M : DraftModel) (hord : StepsOrdered log bound)
    (ds : List (ℕ × LlamaCalls)) :
    Executed log (ds.map Prod.fst) (exec (Receiver.deliver cfg M log) .fresh ds) := by
  induction ds using List.reverseRecOn with
  | nil => exact fresh_executed log
  | append_singleton ds d ih =>
    rw [exec_append, List.map_append]
    exact executed_deliver cfg M hord ih d

/-- DELIVERY ORDER: whatever the server issued and whatever of it arrives in whatever order, since the
    last executed Reset no Draft was executed twice or after a later Draft of its generation; and if no
    request arrives after one of a later generation, with every Reset ahead of its own, no Draft at all
    was executed twice or after a Draft or Reset issued later. -/
theorem executed_in_order (p : SpecParams) (session : ℕ) (es : List RemoteEvent) (cfg : ModelConfig)
    (M : DraftModel) (ds : List (ℕ × LlamaCalls)) :
    let log := (exec (Remote.step p) (.fresh session) es).log
    let rc := exec (Receiver.deliver cfg M log) .fresh ds
    rc.recent.Pairwise (fun i j => i ≠ j ∧ (genOf log i = genOf log j → i < j)) ∧
    (Barrier log (ds.map Prod.fst) → rc.executed.Pairwise (InOrder log)) := by
  intro log rc
  have hord := stepsOrdered_exec (p := p) session es
  have h := executed_exec cfg M hord ds
  refine ⟨?_, h.inOrder⟩
  refine List.Pairwise.imp_of_mem ?_ h.recent_incr
  intro i j hi hj hlt
  obtain ⟨a, ha, -⟩ := h.recent_step i hi
  obtain ⟨b, hb, -⟩ := h.recent_step j hj
  have hab := hlt a b ha hb
  refine ⟨?_, ?_⟩
  · rintro rfl
    rw [ha] at hb
    cases Option.some.inj hb
    omega
  · intro hgen
    exact hord.issued_lt ha hb hgen.le hab

/-- Two generations of one draft each. -/
def twoGenerations : List RemoteEvent :=
  [.process (zeroLayer 1) (.tokens [(1, 0)]),
    .begin (draftReplies []) [1], .draft (draftReplies [5]) [⟨true, 1, 9⟩],
    .begin (draftReplies []) [1], .draft (draftReplies [5]) [⟨true, 1, 9⟩]]

/-- The first generation's Draft, duplicated, arrives once more after the second Reset: it is executed
    a second time, after a Reset issued later. -/
theorem late_draft_executed_again :
    let log := (exec (Remote.step smallParams) (.fresh 1) twoGenerations).log
    ¬(exec (Receiver.deliver smallConfig (constModel [5]) log) .fresh
      [(0, .succeed 1), (2, .succeed 1), (3, .succeed 2), (2, .succeed 1)]).executed.Pairwise
        (InOrder log) := by
  decide

/-- Both generations delivered as they were issued, the first one's Draft twice in a row: the two Drafts are
    executed once each, in order. -/
theorem executed_in_order_two :
    let log := (exec (Remote.step smallParams) (.fresh 1) twoGenerations).log
    let rc := exec (Receiver.deliver smallConfig (constModel [5]) log) .fresh
      [(0, .succeed 1), (1, .succeed 1), (2, .succeed 1), (2, .succeed 1), (3, .succeed 2), (4, .succeed 2),
        (5, .succeed 2)]
    rc.executed = [0, 2, 3, 5] ∧ rc.executed.Pairwise (InOrder log) := by
  intro log rc
  have hbarrier : Barrier log [0, 1, 2, 2, 3, 4, 5] := by
    unfold Barrier
    decide
  exact ⟨by decide, (executed_in_order smallParams 1 twoGenerations smallConfig (constModel [5]) _).2 hbarrier⟩

end DsparkEdge
