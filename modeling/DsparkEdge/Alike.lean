import DsparkEdge.Client
import DsparkEdge.Connected

/-! The server half knows its drafter by three operations only, so two drafters that answer alike, in states that
    stay related, are not told apart. Where they answer alike only as long as every call went well, `Ok` says of
    the first drafter's state that so far every call did.

        s  ──prefill, draft, reset──▶ d  : Ok
        │                             │
        same server                   R
        │                             │
        s' ──prefill, draft, reset──▶ d'                                                                    -/

namespace DsparkEdge

variable {δ δ' : Type*}

/-- What was not in order before a call is not in order after it. -/
structure Closed (Ok : δ → Prop) (D : DsparkDrafter δ) : Prop where
  prefill : ∀ d tokens last, Ok (D.prefill d tokens last).1 → Ok d
  draft : ∀ d req, Ok (D.draft d req).1 → Ok d
  reset : ∀ d, Ok (D.reset d).1 → Ok d

/-- `D'` answers like `D` while `D` is in order, and what the two become stays related. -/
structure Alike (Ok : δ → Prop) (R : δ → δ' → Prop) (D : DsparkDrafter δ) (D' : DsparkDrafter δ') : Prop where
  closed : Closed Ok D
  prefill : ∀ d d', R d d' → ∀ tokens last, Ok (D.prefill d tokens last).1 →
    R (D.prefill d tokens last).1 (D'.prefill d' tokens last).1
  draft : ∀ d d', R d d' → ∀ req, Ok (D.draft d req).1 →
    R (D.draft d req).1 (D'.draft d' req).1 ∧ (D.draft d req).2 = (D'.draft d' req).2
  reset : ∀ d d', R d d' → Ok (D.reset d).1 → R (D.reset d).1 (D'.reset d').1

/-- The same server over related drafters. -/
structure SameServer (R : δ → δ' → Prop) (s : Server δ) (s' : Server δ') : Prop where
  drafter : Option.Rel R s.drafter s'.drafter
  feats : s.feats = s'.feats
  prefilled : s.prefilled = s'.prefilled
  nSent : s.nSent = s'.nSent
  prevNPast : s.prevNPast = s'.prevNPast
  stepId : s.stepId = s'.stepId
  stats : s.stats = s'.stats

/-- The drafter is in order, if there is one. -/
def Server.Good (Ok : δ → Prop) (s : Server δ) : Prop := ∀ d, s.drafter = some d → Ok d

variable {Ok : δ → Prop} {R : δ → δ' → Prop} {D : DsparkDrafter δ} {D' : DsparkDrafter δ'} {s : Server δ}
  {s' : Server δ'}

/-- Both servers have a drafter, or neither has. -/
theorem SameServer.drafters (h : SameServer R s s') : s.drafter = none ∧ s'.drafter = none ∨
    ∃ d d', s.drafter = some d ∧ s'.drafter = some d' ∧ R d d' := by
  have hrel := h.drafter
  cases hd : s.drafter with
  | none =>
    cases hd' : s'.drafter with
    | none => exact Or.inl ⟨rfl, rfl⟩
    | some d' => rw [hd, hd'] at hrel; cases hrel
  | some d =>
    cases hd' : s'.drafter with
    | none => rw [hd, hd'] at hrel; cases hrel
    | some d' =>
      rw [hd, hd'] at hrel
      cases hrel with
      | some hR => exact Or.inr ⟨d, d', rfl, rfl, hR⟩

/-! ### A captured batch -/

theorem process_drafter (s : Server δ) (p : SpecParams) (layerInp : LayerInp) (batch : LlamaBatch) :
    (s.process p layerInp batch).2.drafter = s.drafter := by
  unfold Server.process
  split
  · rfl
  · rfl
  · split
    · rfl
    · split <;> rfl

theorem process_alike (h : SameServer R s s') (p : SpecParams) (layerInp : LayerInp) (batch : LlamaBatch) :
    SameServer R (s.process p layerInp batch).2 (s'.process p layerInp batch).2 := by
  rcases h.drafters with ⟨hd, hd'⟩ | ⟨d, d', hd, hd', hR⟩
  · simpa only [Server.process, hd, hd'] using h
  · cases batch with
    | embd n => simpa only [Server.process, hd, hd'] using h
    | tokens entries =>
      simp only [Server.process, hd, hd']
      split
      · exact h
      · cases capture p layerInp entries with
        | error e => exact h
        | ok packets =>
          exact ⟨.some hR, congrArg (store · packets) h.feats, h.prefilled, h.nSent, h.prevNPast, h.stepId, h.stats⟩

/-! ### A new generation -/

theorem begin_good (hD : Closed Ok D) {prompt : List ℤ} (h : (s.begin D prompt).Good Ok) : s.Good Ok := by
  intro d hd
  refine hD.reset d (h _ ?_)
  rw [Server.begin, hd]
  rfl

theorem begin_alike (hD : Alike Ok R D D') (h : SameServer R s s') {prompt : List ℤ}
    (hgood : (s.begin D prompt).Good Ok) : SameServer R (s.begin D prompt) (s'.begin D' prompt) := by
  refine ⟨?_, ?_, rfl, rfl, rfl, rfl, h.stats⟩
  · rcases h.drafters with ⟨hd, hd'⟩ | ⟨d, d', hd, hd', hR⟩
    · rw [Server.begin, Server.begin, hd, hd']
      exact .none
    · have hok : Ok (D.reset d).1 := hgood _ (by rw [Server.begin, hd]; rfl)
      rw [Server.begin, Server.begin, hd, hd']
      exact .some (hD.reset d d' hR hok)
  · rw [Server.begin, Server.begin, h.feats]

/-! ### A draft -/

theorem send_drafter (D : DsparkDrafter δ) (p : SpecParams) (dp : DraftParams) (base : ℤ) (tokens : List TokenFeatures)
    (d : δ) (s : Server δ) :
    (s.send D p dp base tokens d).1.drafter = some (D.draft d (s.request p dp base tokens)).1 := rfl

theorem send_alike (hD : Alike Ok R D D') (h : SameServer R s s') {d : δ} {d' : δ'} (hR : R d d') {p : SpecParams}
    {dp : DraftParams} {base : ℤ} {tokens : List TokenFeatures}
    (hok : Ok (D.draft d (s.request p dp base tokens)).1) :
    SameServer R (s.send D p dp base tokens d).1 (s'.send D' p dp base tokens d').1 ∧
      (s.send D p dp base tokens d).2 = (s'.send D' p dp base tokens d').2 := by
  obtain ⟨drafter, feats, prefilled, nSent, prevNPast, stepId, stats⟩ := s
  obtain ⟨drafter', feats', prefilled', nSent', prevNPast', stepId', stats'⟩ := s'
  obtain ⟨-, rfl, rfl, rfl, rfl, rfl, rfl⟩ := h
  obtain ⟨hnext, hres⟩ :=
    hD.draft d d' hR ⟨0, stepId + 1, base.toNat, min p.nMax p.blockSize, true, dp.idLast, tokens⟩ hok
  simp only [Server.send, Server.request, Server.account, Server.settle, hres]
  exact ⟨⟨.some hnext, rfl, rfl, rfl, rfl, rfl, rfl⟩, rfl⟩

/-- A missing packet stops the call before any operation of the drafter. -/
theorem draft_unsent (D : DsparkDrafter δ) (p : SpecParams) {dparams : List DraftParams} {dp : DraftParams}
    (hdp : dparams.find? DraftParams.drafting = some dp) {d : δ} (hd : s.drafter = some d)
    (hship : s.toShip dp.nPast = none) : s.draft D p dparams =
      ({ s.account dp.nPast with stepId := if s.prefilled then s.stepId + 1 else s.stepId }, []) := by
  rw [Server.draft, hd, hdp]
  exact draftFor_missing D p hd hship

theorem draft_good (hD : Closed Ok D) {p : SpecParams} {dparams : List DraftParams}
    (h : (s.draft D p dparams).1.Good Ok) : s.Good Ok := by
  intro d hd
  cases hdp : dparams.find? DraftParams.drafting with
  | none =>
    rw [draft_none D p hdp] at h
    exact h d hd
  | some dp =>
    cases hship : s.toShip dp.nPast with
    | none =>
      rw [draft_unsent D p hdp hd hship] at h
      exact h d hd
    | some tokens =>
      cases hp : s.prefilled with
      | false =>
        rw [draft_eq_first D p hd hdp hp hship] at h
        exact hD.prefill d tokens true (hD.draft _ _ (h _ (send_drafter ..)))
      | true =>
        rw [draft_eq_later D p hd hdp hp hship] at h
        exact hD.draft d _ (h _ (send_drafter ..))

theorem draft_alike (hD : Alike Ok R D D') (h : SameServer R s s') {p : SpecParams} {dparams : List DraftParams}
    (hgood : (s.draft D p dparams).1.Good Ok) : SameServer R (s.draft D p dparams).1 (s'.draft D' p dparams).1 ∧
      (s.draft D p dparams).2 = (s'.draft D' p dparams).2 := by
  cases hdp : dparams.find? DraftParams.drafting with
  | none =>
    rw [draft_none D p hdp, draft_none D' p hdp]
    exact ⟨h, rfl⟩
  | some dp =>
    have hship' : s'.toShip dp.nPast = s.toShip dp.nPast := by
      simp only [Server.toShip, h.feats, h.prefilled, h.nSent]
    rcases h.drafters with ⟨hd, hd'⟩ | ⟨d, d', hd, hd', hR⟩
    · rw [Server.draft, Server.draft, hd, hd']
      exact ⟨h, rfl⟩
    · cases hship : s.toShip dp.nPast with
      | none =>
        rw [draft_unsent D p hdp hd hship, draft_unsent D' p hdp hd' (hship'.trans hship)]
        refine ⟨⟨h.drafter, h.feats, h.prefilled, h.nSent, rfl, ?_, ?_⟩, rfl⟩
        · rw [h.prefilled, h.stepId]
        · simp only [Server.account, h.prevNPast, h.stats]
      | some tokens =>
        cases hp : s.prefilled with
        | false =>
          have hfirst := draft_eq_first D p hd hdp hp hship
          have hok := hgood _ (by rw [hfirst]; exact send_drafter ..)
          rw [hfirst, draft_eq_first D' p hd' hdp (h.prefilled ▸ hp) (hship'.trans hship)]
          exact send_alike hD h (hD.prefill d d' hR tokens true (hD.closed.draft _ _ hok)) hok
        | true =>
          have hlater := draft_eq_later D p hd hdp hp hship
          have hok := hgood _ (by rw [hlater]; exact send_drafter ..)
          rw [hlater, draft_eq_later D' p hd' hdp (h.prefilled ▸ hp) (hship'.trans hship), ← h.nSent]
          exact send_alike hD h hR hok

/-! ### A client's state of the other end -/

/-- What a stub keeps, a client of it keeps. -/
theorem grpcDrafter_closed (Ok : δ → Prop) {S : Stub δ} (hprefill : ∀ d req, Ok (S.prefill d req).1 → Ok d)
    (hdraft : ∀ d req, Ok (S.draft d req).1 → Ok d) (hreset : ∀ d req, Ok (S.reset d req).1 → Ok d) :
    Closed (fun c : Client δ => Ok c.net) (grpcDrafter S) where
  prefill := by
    rintro ⟨session, _ | _, chunk, golden, net⟩ tokens last h
    · exact h
    · exact hprefill net _ h
  draft := by
    rintro ⟨session, _ | _, chunk, golden, net⟩ req h
    · exact h
    · exact hdraft net _ h
  reset := by
    rintro ⟨session, _ | _, chunk, golden, net⟩ h
    · exact h
    · exact hreset net _ h

end DsparkEdge
