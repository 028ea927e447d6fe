import DsparkEdge.Remote

/-! How many draft tokens a call of `draft()` hands to the target. The limit `min(n_max, block_size)` goes
    out with the request; what comes back is copied twice, by the client and by the drafter, and neither
    counts. The verify batch is the tokens handed over and the anchor, so a long reply makes a batch of
    more than `n_max + 1` outputs.

        DraftRequest.max_draft_tokens ─▶ edge ─▶ DraftResponse.draft_tokens ─▶ result, all of them -/

namespace DsparkEdge

open Runs

/-- The tokens a call of `draft()` appends to the sequence's result. -/
def Remote.appended (p : SpecParams) (r : Replies) (dparams : List DraftParams) (s : Remote) : List ℤ :=
  (s.draft (grpcDrafter (scriptedStub r)) p dparams).2

/-- The limit the request asks for. -/
def SpecParams.draftLimit (p : SpecParams) : ℤ := min p.nMax p.blockSize

/-- The outputs of the batch that verifies a draft: one for each token and one for the anchor. -/
def verifyOutputs (draft : List ℤ) : ℤ := draft.length + 1

/-- At most as many tokens as asked for, and a verify batch within its bound. -/
structure WithinLimit (p : SpecParams) (draft : List ℤ) : Prop where
  tokens : (draft.length : ℤ) ≤ p.draftLimit
  outputs : verifyOutputs draft ≤ p.nMax + 1

theorem withinLimit_iff (p : SpecParams) (draft : List ℤ) :
    WithinLimit p draft ↔ (draft.length : ℤ) ≤ p.draftLimit := by
  refine ⟨WithinLimit.tokens, fun h => ⟨h, ?_⟩⟩
  have hmin : p.draftLimit ≤ p.nMax := min_le_left _ _
  rw [verifyOutputs]
  omega

/-- The call sends a request: some sequence drafts, and no packet it needs is missing. -/
def Remote.Asks (s : Remote) (dparams : List DraftParams) : Prop :=
  ∃ dp, dparams.find? DraftParams.drafting = some dp ∧ s.toShip dp.nPast ≠ none

/-- A reply that hands over no more than the limit. -/
def Replies.Modest (p : SpecParams) (r : Replies) : Prop :=
  r.draftOk = true → (r.draft.2.draftTokens.length : ℤ) ≤ p.draftLimit

variable {p : SpecParams} {session : ℕ} {s : Remote} {r : Replies} {dparams : List DraftParams}

/-- All tokens of a reply that says ok, and none of another. -/
theorem appended_drafted {dp : DraftParams} {out : Remote × List ℤ} {log : List Sent}
    (hd : Drafted session dp (clientResponse r.draft.1 r.draft.2) s out log) :
    out.2 = if r.draftOk then r.draft.2.draftTokens else [] := hd.tokens

/-- A call that asks takes what the reply has, whatever was asked for. -/
theorem appended_asked (h : s.Live session) (hasks : s.Asks dparams) :
    s.appended p r dparams = if r.draftOk then r.draft.2.draftTokens else [] := by
  obtain ⟨dp, hdp, hship⟩ := hasks
  obtain ⟨tokens, htokens⟩ := Option.ne_none_iff_exists'.mp hship
  cases hp : s.prefilled with
  | false => exact appended_drafted (draft_first h (scriptedStub r) p hdp hp htokens)
  | true => exact appended_drafted (draft_later h (scriptedStub r) p hdp hp htokens)

theorem appended_silent (h : s.Live session) (hasks : ¬ s.Asks dparams) :
    s.appended p r dparams = [] := by
  cases hdp : dparams.find? DraftParams.drafting with
  | none => rw [Remote.appended, draft_none _ p hdp]
  | some dp =>
    have hship : s.toShip dp.nPast = none := by
      by_contra hne
      exact hasks ⟨dp, hdp, hne⟩
    rw [Remote.appended, draft_missing h _ p hdp hship]

/-- DRAFT BOUND: after any history, a call of `draft()` keeps the limit exactly when the limit is not
    negative and the reply, if one is asked for and says ok, has no more tokens than that. -/
theorem within_limit_iff (p : SpecParams) (session : ℕ) (es : List RemoteEvent) (r : Replies)
    (dparams : List DraftParams) :
    let s := exec (Remote.step p) (.fresh session) es
    WithinLimit p (s.appended p r dparams) ↔
      0 ≤ p.draftLimit ∧ (s.Asks dparams → r.Modest p) := by
  intro s
  have hlive : s.Live session := live_exec session es
  rw [withinLimit_iff]
  by_cases hasks : s.Asks dparams
  · rw [appended_asked hlive hasks, Replies.Modest]
    cases hok : r.draftOk with
    | false => simp
    | true =>
      simp only [if_true, forall_const, hasks]
      constructor
      · intro hlen
        exact ⟨by omega, hlen⟩
      · exact fun h => h.2
  · rw [appended_silent hlive hasks]
    simp [hasks]

/-- An edge that answers with a fixed list of five tokens where four are asked for. -/
theorem long_reply_taken :
    ¬ WithinLimit smallParams
      ((exec (Remote.step smallParams) (.fresh 1)
        [.process (zeroLayer 1) (.tokens [(7, 0)]), .begin (draftReplies []) [7]]).appended smallParams
          (draftReplies [1, 2, 3, 4, 5]) [⟨true, 1, 8⟩]) := by
  rw [withinLimit_iff]
  decide

end DsparkEdge
