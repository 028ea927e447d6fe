import DsparkEdge.Remote

/-! Whether a failed RPC loses committed positions. `draft()` moves `n_sent` to `n_past - 1` whatever
    comes back, and never looks at the reply of a prefill; so a position whose packet was carried only
    by a failed request is counted as sent and never carried again in its generation.

        draft n_past = 2   Prefill 0,1 ─▶ fails      n_sent = 1, nothing acknowledged
        draft n_past = 3   Draft 2     ─▶ ok         n_sent = 2, positions 0,1 lost            -/

namespace DsparkEdge

open Runs

/-- A request of this generation (one sent after the last Reset) carried the position and was answered
    ok. -/
def Acked (log : List Sent) (pos : ℕ) : Prop :=
  ∃ e ∈ since Sent.isReset log, e.ok = true ∧ ∃ tf ∈ e.tokens, tf.position = pos

instance (log : List Sent) (pos : ℕ) : Decidable (Acked log pos) :=
  inferInstanceAs (Decidable (∃ e ∈ since Sent.isReset log, e.ok = true ∧ ∃ tf ∈ e.tokens, tf.position = pos))

/-- Everything counted as sent is acknowledged. -/
def AllAcked (s : Remote) : Prop := ∀ pos : ℕ, (pos : ℤ) ≤ s.nSent → Acked s.log pos

theorem acked_append {log sent : List Sent} (h : ∀ e ∈ sent, e.isReset = false) (pos : ℕ) :
    Acked (log ++ sent) pos ↔
      Acked log pos ∨ ∃ e ∈ sent, e.ok = true ∧ ∃ tf ∈ e.tokens, tf.position = pos := by
  unfold Acked
  rw [since_append Sent.isReset log h]
  constructor
  · rintro ⟨e, he, hpos⟩
    rcases List.mem_append.mp he with he | he
    · exact Or.inl ⟨e, he, hpos⟩
    · exact Or.inr ⟨e, he, hpos⟩
  · rintro (⟨e, he, hpos⟩ | ⟨e, he, hpos⟩)
    · exact ⟨e, List.mem_append_left _ he, hpos⟩
    · exact ⟨e, List.mem_append_right _ he, hpos⟩

variable {p : SpecParams} {session : ℕ} {s : Remote}

/-- Whether the request that carries the packets is answered ok: the prompt goes with the Prefill, later
    positions go with the Draft. -/
def carrierOk (s : Remote) (r : Replies) : Bool := if s.prefilled then r.draftOk else r.prefillOk

/-- A draft that sends acknowledges exactly what its carrier brought along. -/
theorem acked_draft (h : s.Live session) (r : Replies) {dparams : List DraftParams}
    {dp : DraftParams} (hdp : dparams.find? DraftParams.drafting = some dp)
    {tokens : List TokenFeatures} (hship : s.toShip dp.nPast = some tokens) :
    (s.step p (.draft r dparams)).nSent = dp.nPast - 1 ∧
    ∀ pos, Acked (s.step p (.draft r dparams)).log pos ↔
      Acked s.log pos ∨ carrierOk s r = true ∧ ∃ tf ∈ tokens, tf.position = pos := by
  rcases step_draft_cases (p := p) h r hdp with ⟨hnone, -⟩ | ⟨tokens', hship', hs⟩
  · rw [hnone] at hship; cases hship
  · cases Option.some.inj (hship.symm.trans hship')
    rcases hs with ⟨hp, hs⟩ | ⟨hp, hs⟩
    · refine ⟨hs.nSent, fun pos => ?_⟩
      rw [hs.log, acked_append (by simp [Sent.isReset])]
      simp [Sent.ok, Sent.tokens, wireRequest, carrierOk, hp]
    · refine ⟨hs.nSent, fun pos => ?_⟩
      rw [hs.log, acked_append (by simp [Sent.isReset])]
      simp [Sent.ok, Sent.tokens, wireRequest, carrierOk, hp]

/-- After the call of `draft()` everything counted as sent is acknowledged. -/
def NothingLost (p : SpecParams) (s : Remote) : RemoteEvent → Prop
  | .draft r dparams => AllAcked (s.step p (.draft r dparams))
  | _ => True

/-- A carrier that fails brings along only positions acknowledged before. -/
def CarriedSafely (s : Remote) : RemoteEvent → Prop
  | .draft r dparams => ∀ dp tokens, dparams.find? DraftParams.drafting = some dp →
      s.toShip dp.nPast = some tokens → carrierOk s r = false →
      ∀ tf ∈ tokens, Acked s.log tf.position
  | _ => True

theorem nothing_lost_step (h : s.Live session) (hall : AllAcked s) (e : RemoteEvent) :
    NothingLost p s e ↔ CarriedSafely s e := by
  cases e with
  | process layerInp batch => exact Iff.rfl
  | begin r prompt => exact Iff.rfl
  | draft r dparams =>
    simp only [NothingLost, CarriedSafely]
    cases hdp : dparams.find? DraftParams.drafting with
    | none =>
      rw [step_draft_none r hdp]
      exact iff_of_true hall fun dp tokens hdp' => (Option.some_ne_none _ hdp'.symm).elim
    | some dp =>
      cases hship : s.toShip dp.nPast with
      | none =>
        rw [step_draft_missing h r hdp hship]
        refine iff_of_true hall fun dp' tokens hdp' hship' => ?_
        cases hdp'
        rw [hship] at hship'; cases hship'
      | some tokens =>
        obtain ⟨hnSent, hacked⟩ := acked_draft (p := p) h r hdp hship
        have hpos := toShip_positions h hship
        constructor
        · intro hlost dp' tokens' hdp' hship' hfail tf htf
          cases hdp'
          cases Option.some.inj (hship.symm.trans hship')
          obtain ⟨-, hlt⟩ := (hpos tf.position).mp ⟨tf, htf, rfl⟩
          rcases (hacked _).mp (hlost tf.position (by rw [hnSent]; omega)) with hold | ⟨hok, -⟩
          · exact hold
          · rw [hfail] at hok; cases hok
        · intro hsafe pos hle
          rw [hnSent] at hle
          rw [hacked]
          rcases le_or_gt (pos : ℤ) s.nSent with hsent | hnew
          · exact Or.inl (hall pos hsent)
          · obtain ⟨tf, htf, rfl⟩ := (hpos pos).mpr ⟨hnew, by omega⟩
            cases hok : carrierOk s r with
            | true => exact Or.inr ⟨rfl, tf, htf, rfl⟩
            | false => exact Or.inl (hsafe dp tokens rfl hship hok tf htf)

/-- What is counted as sent stays acknowledged through the calls that lose nothing. -/
theorem allAcked_step (h : s.Live session) (hall : AllAcked s) {e : RemoteEvent}
    (hsafe : CarriedSafely s e) : AllAcked (s.step p e) := by
  cases e with
  | process layerInp batch => rw [step_process h]; exact hall
  | begin r prompt =>
    obtain ⟨-, c, -, heq⟩ := step_begin (p := p) h r prompt
    rw [heq]
    intro pos hle
    simp only at hle; omega
  | draft r dparams => exact (nothing_lost_step h hall (.draft r dparams)).mpr hsafe

/-- LOST POSITIONS: along any run, with any replies, every `draft()` leaves only acknowledged positions
    behind exactly when every failing carrier brings along only positions acknowledged before. -/
theorem nothing_lost_iff (p : SpecParams) (session : ℕ) (es : List RemoteEvent) :
    Along (Remote.step p) (NothingLost p) (.fresh session) es ↔
      Along (Remote.step p) CarriedSafely (.fresh session) es := by
  refine along_iff_free (fun s => s.Live session ∧ AllAcked s) ?_ ?_
    ⟨fresh_live session, ?_⟩ es
  · rintro s e ⟨hconn, hall⟩ hsafe
    exact ⟨live_step hconn e, allAcked_step hconn hall hsafe⟩
  · rintro s e ⟨hconn, hall⟩
    exact nothing_lost_step hconn hall e
  · intro pos hle
    have : (pos : ℤ) ≤ -1 := hle
    omega

/-- The prompt `[1, 2]` is drafted for, the Prefill failing and the Draft succeeding. -/
def prefillFails : List RemoteEvent :=
  let ok : Status × DraftResponse := (.ok, { ok := true })
  [.process (zeroLayer 2) (.tokens [(1, 0), (2, 1)]),
    .begin ⟨(.ok, ⟨true, 0⟩), ok, (.ok, ⟨true⟩)⟩ [1, 2],
    .draft ⟨(.failed "unavailable", {}), ok, (.ok, ⟨true⟩)⟩ [⟨true, 2, 9⟩]]

/-- Positions 0 and 1 are counted as sent, and no request that carried them was answered ok. -/
theorem failed_prefill_loses_prompt :
    ¬Along (Remote.step smallParams) (NothingLost smallParams) (.fresh 1) prefillFails := by
  rintro ⟨-, -, hlost, -⟩
  exact absurd (hlost 0 (by decide)) (by decide)

end DsparkEdge
