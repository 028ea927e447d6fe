import DsparkEdge.Remote
import Mathlib.Algebra.Order.Field.Basic
import Mathlib.Algebra.Order.Field.Rat

/-! Acceptance accounting. The server never sees the target's verdicts: it infers the accepted tokens
    of a step from the growth of `n_past` between two calls of `draft()`, taking off one token for the
    step itself. The run below keeps the true count beside it.

        decode k        n_past += 1 + k,  k accepted
        draft()         accepted_tokens += n_past - prev_n_past - 1     (same generation, if > 0)
        begin           prev_n_past := -1: what the last steps accepted is never counted          -/

namespace DsparkEdge

open Runs

/-- `acceptance_rate` of `/debug/spec`. -/
def Stats.accRate (st : Stats) : ℚ :=
  if st.draftTokens ≠ 0 then (st.acceptedTokens : ℚ) / st.draftTokens else 0

/-- The server with the target beside it. -/
structure Metered where
  server : Remote
  nPast : ℕ
  /-- draft tokens handed to the target and not decided yet -/
  pending : ℕ
  /-- draft tokens the target accepted in all decode steps so far -/
  accepted : ℕ
  /-- decode steps since the previous drafting call of this generation, if there was one -/
  steps : Option ℕ
  /-- draft tokens accepted since the previous drafting call of this generation -/
  since : ℕ
  /-- draft tokens that were still in `since` when a generation ended -/
  lost : ℕ

def Metered.fresh (session : ℕ) : Metered := ⟨.fresh session, 0, 0, 0, none, 0, 0⟩

inductive MeterEvent where
  | process (layerInp : LayerInp) (batch : LlamaBatch)
  | begin (r : Replies) (prompt : List ℤ)
  | draft (r : Replies) (drafting : Bool) (idLast : ℤ)
  | decode (k : ℕ)

/-- `decode k` is a target step in which `k` draft tokens are accepted. -/
def Metered.step (p : SpecParams) (m : Metered) : MeterEvent → Metered
  | .process layerInp batch => { m with server := m.server.step p (.process layerInp batch) }
  | .begin r prompt =>
    { m with
      server := m.server.step p (.begin r prompt)
      nPast := prompt.length
      pending := 0
      steps := none
      since := 0
      lost := m.lost + m.since }
  | .draft r drafting idLast =>
    let out := m.server.draft (grpcDrafter (scriptedStub r)) p [⟨drafting, m.nPast, idLast⟩]
    { m with
      server := out.1
      pending := out.2.length
      steps := if drafting then some 0 else m.steps
      since := if drafting then 0 else m.since }
  | .decode k =>
    { m with
      nPast := m.nPast + 1 + k
      pending := 0
      accepted := m.accepted + k
      steps := m.steps.map (· + 1)
      since := m.since + k }

/-- The target accepts at most what was drafted. -/
def Metered.Legal (m : Metered) : MeterEvent → Prop
  | .decode k => k ≤ m.pending
  | _ => True

/-- After a call of `draft()` the metrics tell the truth. -/
def Exact (p : SpecParams) (m : Metered) : MeterEvent → Prop
  | .draft r drafting idLast =>
    let m' := m.step p (.draft r drafting idLast)
    m'.server.stats.acceptedTokens = m'.accepted ∧
    m'.server.stats.acceptedTokens ≤ m'.server.stats.draftTokens ∧
    0 ≤ m'.server.stats.accRate ∧ m'.server.stats.accRate ≤ 1
  | _ => True

/-- Nothing was lost with an earlier generation; a drafting call comes at most one decode step after
    the previous one of its generation, and another call finds no accepted tokens to count. -/
def Regular (m : Metered) : MeterEvent → Prop
  | .draft _ drafting _ =>
    m.lost = 0 ∧ if drafting then m.steps.getD 0 ≤ 1 else m.since = 0
  | _ => True

instance (m : Metered) : ∀ e, Decidable (m.Legal e)
  | .decode k => inferInstanceAs (Decidable (k ≤ m.pending))
  | .process .. => .isTrue trivial
  | .begin .. => .isTrue trivial
  | .draft .. => .isTrue trivial

instance (m : Metered) : ∀ e, Decidable (Regular m e)
  | .draft _ drafting _ => inferInstanceAs
      (Decidable (m.lost = 0 ∧ if drafting then m.steps.getD 0 ≤ 1 else m.since = 0))
  | .process .. => .isTrue trivial
  | .begin .. => .isTrue trivial
  | .decode .. => .isTrue trivial

theorem accRate_mem {st : Stats} (h : st.acceptedTokens ≤ st.draftTokens) :
    0 ≤ st.accRate ∧ st.accRate ≤ 1 := by
  unfold Stats.accRate
  split
  · rename_i hne
    have hpos : (0 : ℚ) < st.draftTokens := by exact_mod_cast Nat.pos_of_ne_zero hne
    refine ⟨div_nonneg (Nat.cast_nonneg _) hpos.le, ?_⟩
    rw [div_le_one hpos]
    exact_mod_cast h
  · exact ⟨le_rfl, zero_le_one⟩

/-- The true count is what was counted, what is still to be counted and what was lost; `n_past` has
    grown by one a step on top of what was accepted. -/
structure Balanced (session : ℕ) (m : Metered) : Prop where
  connected : m.server.Live session
  split : m.accepted = m.server.stats.acceptedTokens + m.since + m.lost
  drafted : m.accepted + m.pending ≤ m.server.stats.draftTokens
  unasked : m.steps = none → m.server.prevNPast = -1 ∧ m.since = 0 ∧ m.pending = 0
  asked : ∀ n, m.steps = some n → 0 ≤ m.server.prevNPast ∧
    (m.nPast : ℤ) = m.server.prevNPast + n + m.since ∧ m.lost = 0 ∧ (n = 0 → m.since = 0)

variable {p : SpecParams} {session : ℕ} {m : Metered}

theorem fresh_balanced (session : ℕ) : Balanced session (.fresh session) where
  connected := fresh_live session
  split := rfl
  drafted := le_rfl
  unasked := fun _ => ⟨rfl, rfl, rfl⟩
  asked := fun n hn => by cases hn

/-- A call in which the sequence does not ask leaves the server alone and hands nothing out. -/
theorem draft_idle (r : Replies) (idLast : ℤ) :
    m.step p (.draft r false idLast) = { m with pending := 0 } := by
  have hdraft : m.server.draft (grpcDrafter (scriptedStub r)) p [⟨false, m.nPast, idLast⟩] =
      (m.server, []) := by
    unfold Server.draft
    cases m.server.drafter <;> rfl
  rw [Metered.step, hdraft]
  rfl

/-- A drafting call counts the growth of `n_past`. -/
theorem draft_asked (h : m.server.Live session) (r : Replies) (idLast : ℤ) :
    (m.step p (.draft r true idLast)).server.prevNPast = m.nPast ∧
    (m.step p (.draft r true idLast)).server.stats.acceptedTokens =
      (m.server.account m.nPast).stats.acceptedTokens ∧
    (m.step p (.draft r true idLast)).server.stats.draftTokens =
      m.server.stats.draftTokens + (m.step p (.draft r true idLast)).pending := by
  obtain ⟨c, hc, -⟩ := h.client
  have hdraft : m.server.draft (grpcDrafter (scriptedStub r)) p [⟨true, m.nPast, idLast⟩] =
      m.server.draftFor (grpcDrafter (scriptedStub r)) p ⟨true, m.nPast, idLast⟩ c := by
    rw [Server.draft, hc]; rfl
  rw [Metered.step, hdraft]
  exact draftFor_stats _ p hc

/-- What a drafting call counts, against what was accepted since the last one. -/
theorem account_accepted (h : Balanced session m) :
    (m.server.account m.nPast).stats.acceptedTokens = m.accepted ↔
      m.lost = 0 ∧ m.steps.getD 0 ≤ 1 := by
  have hsplit := h.split
  rw [Server.account]
  simp only
  cases hsteps : m.steps with
  | none =>
    obtain ⟨hprev, hsince, -⟩ := h.unasked hsteps
    rw [if_neg (by omega)]
    constructor
    · intro heq
      exact ⟨by omega, Nat.zero_le 1⟩
    · rintro ⟨hlost, -⟩
      omega
  | some n =>
    obtain ⟨hprev, hgrow, hlost, hzero⟩ := h.asked n hsteps
    simp only [Option.getD_some, hlost, true_and]
    rcases Nat.eq_zero_or_pos (n + m.since - 1) with hsmall | hbig
    · rw [if_neg (by omega)]
      constructor
      · intro _; omega
      · intro _; omega
    · rw [if_pos (by omega)]
      simp only
      constructor
      · intro heq; omega
      · intro hle
        omega

theorem exact_step (h : Balanced session m) (e : MeterEvent) : Exact p m e ↔ Regular m e := by
  cases e with
  | process layerInp batch => exact Iff.rfl
  | begin r prompt => exact Iff.rfl
  | decode k => exact Iff.rfl
  | draft r drafting idLast =>
    have hsplit := h.split
    have hdrafted := h.drafted
    cases drafting with
    | false =>
      rw [Exact, draft_idle, Regular, if_neg Bool.false_ne_true]
      simp only
      constructor
      · rintro ⟨heq, -⟩
        omega
      · rintro ⟨hlost, hsince⟩
        have hle : m.server.stats.acceptedTokens ≤ m.server.stats.draftTokens := by omega
        exact ⟨by omega, hle, accRate_mem hle⟩
    | true =>
      obtain ⟨-, hacc, htok⟩ := draft_asked (p := p) h.connected r idLast
      have hiff := account_accepted h
      rw [Exact, Regular, if_pos rfl, ← hiff, hacc]
      constructor
      · rintro ⟨heq, -⟩
        exact heq
      · intro heq
        have heq' : (m.server.account m.nPast).stats.acceptedTokens = m.accepted := heq
        have hle : (m.server.account m.nPast).stats.acceptedTokens ≤
            (m.step p (.draft r true idLast)).server.stats.draftTokens := by omega
        exact ⟨heq, hle, accRate_mem (by rw [hacc]; exact hle)⟩

theorem balanced_decode (h : Balanced session m) {k : ℕ} (hk : k ≤ m.pending) :
    Balanced session (m.step p (.decode k)) := by
  have hsplit := h.split
  have hdrafted := h.drafted
  refine ⟨h.connected, ?_, ?_, ?_, ?_⟩
  all_goals simp only [Metered.step]
  · omega
  · omega
  · intro hnone
    obtain ⟨hprev, hsince, hpending⟩ := h.unasked (Option.map_eq_none_iff.mp hnone)
    exact ⟨hprev, by omega, trivial⟩
  · intro n hn
    obtain ⟨n', hn', rfl⟩ := Option.map_eq_some_iff.mp hn
    obtain ⟨hprev, hgrow, hlost, -⟩ := h.asked n' hn'
    exact ⟨hprev, by push_cast; omega, hlost, by omega⟩

/-- A drafting call that counts right starts the count afresh. -/
theorem balanced_asked (h : Balanced session m) (r : Replies) (idLast : ℤ)
    (hreg : Regular m (.draft r true idLast)) :
    Balanced session (m.step p (.draft r true idLast)) := by
  have hdrafted := h.drafted
  obtain ⟨hprev, hacc, htok⟩ := draft_asked (p := p) h.connected r idLast
  obtain ⟨heq, -⟩ := (exact_step (p := p) h (.draft r true idLast)).mpr hreg
  have hlost : m.lost = 0 := hreg.1
  have heq' : (m.step p (.draft r true idLast)).server.stats.acceptedTokens = m.accepted := heq
  refine ⟨?_, ?_, ?_, ?_, ?_⟩
  · exact live_step (p := p) h.connected (.draft r [⟨true, m.nPast, idLast⟩])
  · rw [heq']
    exact hlost ▸ rfl
  · rw [htok]
    exact Nat.add_le_add_right (by omega) _
  · intro hnone; cases hnone
  · intro n hn
    cases Option.some.inj hn
    refine ⟨by rw [hprev]; omega, ?_, hlost, fun _ => rfl⟩
    rw [hprev]
    simp only [Metered.step, if_true]
    omega

/-- The balance survives every step after which the metrics are right. -/
theorem balanced_step (h : Balanced session m) {e : MeterEvent} (hlegal : m.Legal e)
    (hreg : Regular m e) : Balanced session (m.step p e) := by
  have hsplit := h.split
  have hdrafted := h.drafted
  cases e with
  | process layerInp batch =>
    have hstep := step_process (p := p) h.connected layerInp batch
    refine ⟨live_step (p := p) h.connected (.process layerInp batch), ?_, ?_, ?_, ?_⟩
    all_goals simp only [Metered.step, hstep]
    · exact h.split
    · exact h.drafted
    · exact h.unasked
    · exact h.asked
  | begin r prompt =>
    obtain ⟨-, c, -, heq⟩ := step_begin (p := p) h.connected r prompt
    refine ⟨live_step (p := p) h.connected (.begin r prompt), ?_, ?_, ?_, ?_⟩
    all_goals simp only [Metered.step, heq]
    · omega
    · omega
    · exact fun _ => ⟨trivial, trivial, trivial⟩
    · exact fun n hn => by cases hn
  | decode k => exact balanced_decode h hlegal
  | draft r drafting idLast =>
    cases drafting with
    | false =>
      rw [draft_idle]
      refine ⟨h.connected, h.split, ?_, ?_, h.asked⟩
      · simp only; omega
      · intro hnone
        obtain ⟨hprev, hsince, -⟩ := h.unasked hnone
        exact ⟨hprev, hsince, rfl⟩
    | true => exact balanced_asked h r idLast hreg

/-- ACCEPTANCE ACCOUNTING: along any run the metrics are right after every `draft()` exactly when every
    call is regular. -/
theorem exact_iff (p : SpecParams) (session : ℕ) (es : List MeterEvent)
    (hlegal : Along (Metered.step p) Metered.Legal (.fresh session) es) :
    Along (Metered.step p) (Exact p) (.fresh session) es ↔
      Along (Metered.step p) Regular (.fresh session) es :=
  along_iff (Balanced session) (fun _ _ h hl hreg => balanced_step h hl hreg)
    (fun _ e h _ => exact_step h e) (fresh_balanced session) hlegal

/-- A generation whose only block `[5, 6]` is accepted in full, then the next one. -/
def lastBlockAccepted : List MeterEvent :=
  [.process (zeroLayer 1) (.tokens [(1, 0)]), .begin (draftReplies []) [1],
    .draft (draftReplies [5, 6]) true 9, .decode 2,
    .process (zeroLayer 1) (.tokens [(1, 0)]), .begin (draftReplies []) [1],
    .draft (draftReplies [5, 6]) true 9]

/-- Two tokens were accepted and none is counted. -/
theorem last_block_not_counted :
    ¬Along (Metered.step smallParams) (Exact smallParams) (.fresh 1) lastBlockAccepted := by
  rintro ⟨-, -, -, -, -, -, ⟨heq, -⟩, -⟩
  exact absurd heq (by decide)

/-- A generation of two steps is counted right. -/
theorem exact_iff_small : Along (Metered.step smallParams) (Exact smallParams) (.fresh 1)
    [.process (zeroLayer 1) (.tokens [(1, 0)]), .begin (draftReplies []) [1],
      .draft (draftReplies [5, 6]) true 9, .decode 1, .draft (draftReplies [7]) true 8] :=
  (exact_iff smallParams 1 _ (by decide)).mpr (by decide)

end DsparkEdge
