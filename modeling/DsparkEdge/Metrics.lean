import DsparkEdge.Remote

/-! The metrics of `/debug/spec` (`remote_dspark_stats`) against what went over the wire. A call of `draft()`
    that sends its request counts one gRPC call and either a draft block or a fallback step, by the reply's
    `ok`; the accounting of accepted tokens and a call that does not send touch none of these.

        log    P✓ D✓ D✗ R✓ P✗ D✓     grpc_calls 3 = draft_blocks 2 + fallback_steps 1, connected -/

namespace DsparkEdge

open Runs

variable {δ : Type*}

/-- What a reply does to the metrics; `out` is what the caller got. -/
structure Tallied (res : DraftResponse) (out : List ℤ) (st st' : Stats) : Prop where
  grpcCalls : st'.grpcCalls = st.grpcCalls + 1
  draftBlocks : st'.draftBlocks = st.draftBlocks + if res.ok then 1 else 0
  fallbackSteps : st'.fallbackSteps = st.fallbackSteps + if res.ok then 0 else 1
  connected : st'.connected = res.ok
  draftTokens : st'.draftTokens = st.draftTokens + out.length

/-- The metrics that only a reply moves. -/
structure SameTally (st st' : Stats) : Prop where
  grpcCalls : st'.grpcCalls = st.grpcCalls
  draftBlocks : st'.draftBlocks = st.draftBlocks
  fallbackSteps : st'.fallbackSteps = st.fallbackSteps
  connected : st'.connected = st.connected
  draftTokens : st'.draftTokens = st.draftTokens

theorem account_tally (nPast : ℕ) (s : Server δ) : SameTally s.stats (s.account nPast).stats := by
  rw [Server.account]
  simp only
  split <;> exact ⟨rfl, rfl, rfl, rfl, rfl⟩

theorem send_tally (D : DsparkDrafter δ) (p : SpecParams) (dp : DraftParams) (base : ℤ)
    (tokens : List TokenFeatures) (d : δ) (s : Server δ) :
    Tallied (D.draft d (s.request p dp base tokens)).2 (s.send D p dp base tokens d).2 s.stats
      (s.send D p dp base tokens d).1.stats := by
  have hacc := account_tally dp.nPast s
  rw [Server.send, Server.settle]
  cases hok : (D.draft d (s.request p dp base tokens)).2.ok with
  | true =>
    exact
      { grpcCalls := congrArg (· + 1) hacc.grpcCalls
        draftBlocks := by rw [hok]; exact congrArg (· + 1) hacc.draftBlocks
        fallbackSteps := by rw [hok]; exact hacc.fallbackSteps
        connected := hok.symm
        draftTokens := congrArg (· + _) hacc.draftTokens }
  | false =>
    exact
      { grpcCalls := congrArg (· + 1) hacc.grpcCalls
        draftBlocks := by rw [hok]; exact hacc.draftBlocks
        fallbackSteps := by rw [hok]; exact congrArg (· + 1) hacc.fallbackSteps
        connected := hok.symm
        draftTokens := hacc.draftTokens }

variable {p : SpecParams} {session : ℕ} {s : Remote}

def Sent.isDraft : Sent → Bool
  | .draft .. => true
  | _ => false

/-- The Drafts sent, in order. -/
def Remote.drafts (s : Remote) : List Sent := s.log.filter Sent.isDraft

/-- The tokens a call hands to the target. -/
def Remote.handed (p : SpecParams) (s : Remote) : RemoteEvent → List ℤ
  | .draft r dparams => (s.draft (grpcDrafter (scriptedStub r)) p dparams).2
  | _ => []

/-- One event, and what it hands out. -/
def Remote.act (p : SpecParams) (s : Remote) (e : RemoteEvent) : List ℤ × Remote := (s.handed p e, s.step p e)

/-- The metrics are those of the Drafts sent, and `handed` is all that was handed out. -/
structure Ledger (s : Remote) (handed : List ℤ) : Prop where
  grpcCalls : s.stats.grpcCalls = s.drafts.length
  draftBlocks : s.stats.draftBlocks = s.drafts.countP Sent.ok
  fallbackSteps : s.stats.fallbackSteps = s.drafts.countP fun d => !d.ok
  connected : s.stats.connected = (s.drafts.getLast?.map Sent.ok).getD true
  draftTokens : s.stats.draftTokens = handed.length

/-- An event without a Draft. -/
theorem Ledger.quiet {handed : List ℤ} (h : Ledger s handed) {s' : Remote} (htally : SameTally s.stats s'.stats)
    (hdrafts : s'.drafts = s.drafts) : Ledger s' handed where
  grpcCalls := by rw [htally.grpcCalls, hdrafts]; exact h.grpcCalls
  draftBlocks := by rw [htally.draftBlocks, hdrafts]; exact h.draftBlocks
  fallbackSteps := by rw [htally.fallbackSteps, hdrafts]; exact h.fallbackSteps
  connected := by rw [htally.connected, hdrafts]; exact h.connected
  draftTokens := by rw [htally.draftTokens]; exact h.draftTokens

/-- One more Draft. -/
theorem Ledger.sent {handed out : List ℤ} (h : Ledger s handed) {s' : Remote} {res : DraftResponse}
    (htally : Tallied res out s.stats s'.stats) (req : DraftRequest)
    (hdrafts : s'.drafts = s.drafts ++ [.draft req res.ok]) :
    Ledger s' (handed ++ out) where
  grpcCalls := by rw [htally.grpcCalls, hdrafts, h.grpcCalls, List.length_append]; rfl
  draftBlocks := by
    rw [htally.draftBlocks, hdrafts, h.draftBlocks, List.countP_append]
    cases hok : res.ok <;> simp [Sent.ok]
  fallbackSteps := by
    rw [htally.fallbackSteps, hdrafts, h.fallbackSteps, List.countP_append]
    cases hok : res.ok <;> simp [Sent.ok]
  connected := by
    rw [htally.connected, hdrafts, List.getLast?_append]
    rfl
  draftTokens := by rw [htally.draftTokens, h.draftTokens, List.length_append]

theorem drafts_append {s' : Remote} {sent : List Sent} (h : s'.log = s.log ++ sent) :
    s'.drafts = s.drafts ++ sent.filter Sent.isDraft := by
  rw [Remote.drafts, h, List.filter_append, Remote.drafts]

/-- The reply of a scripted Draft, as the client hands it on. -/
theorem scripted_ok (r : Replies) {c : Client (List Sent)} (hready : c.Ready session) (req : StepRequest) :
    ((grpcDrafter (scriptedStub r)).draft c req).2.ok = r.draftOk := by
  obtain ⟨-, -, hres⟩ := client_draft (scriptedStub r) hready req
  rw [grpcDrafter, hres]
  rfl

theorem ledger_draft (h : s.Live session) {handed : List ℤ} (hl : Ledger s handed) (r : Replies)
    (dparams : List DraftParams) :
    Ledger (s.step p (.draft r dparams)) (handed ++ s.handed p (.draft r dparams)) := by
  cases hdp : dparams.find? DraftParams.drafting with
  | none =>
    have hout : s.draft (grpcDrafter (scriptedStub r)) p dparams = (s, []) := draft_none _ p hdp s
    rw [Remote.handed, Remote.step, hout, List.append_nil]
    exact hl
  | some dp =>
    obtain ⟨c, hc, hready, -⟩ := h.client
    rcases step_draft_cases (p := p) h r hdp with ⟨hship, heq⟩ | ⟨tokens, hship, ⟨hp, hs⟩ | ⟨hp, hs⟩⟩
    · have hout := draft_missing h (scriptedStub r) p hdp hship
      have hacc := account_tally dp.nPast s
      rw [Remote.handed, hout, List.append_nil, heq]
      exact hl.quiet ⟨hacc.grpcCalls, hacc.draftBlocks, hacc.fallbackSteps, hacc.connected, hacc.draftTokens⟩ rfl
    · have hready' := (client_prefill (scriptedStub r) hready tokens true).1
      have htally := send_tally (grpcDrafter (scriptedStub r)) p dp (dp.nPast - 1) []
        (c.prefill (scriptedStub r) tokens true).1 s
      rw [Remote.handed, Remote.step] at *
      rw [draft_eq_first _ p hc hdp hp hship] at *
      refine hl.sent htally (wireRequest p session (s.stepId + 1) dp (dp.nPast - 1) []) ?_
      rw [drafts_append hs.log, scripted_ok r hready']
      rfl
    · have htally := send_tally (grpcDrafter (scriptedStub r)) p dp s.nSent tokens c s
      rw [Remote.handed, Remote.step] at *
      rw [draft_eq_later _ p hc hdp hp hship] at *
      refine hl.sent htally (wireRequest p session (s.stepId + 1) dp s.nSent tokens) ?_
      rw [drafts_append hs.log, scripted_ok r hready]
      rfl

theorem ledger_step (h : s.Live session) {handed : List ℤ} (hl : Ledger s handed) (e : RemoteEvent) :
    Ledger (s.step p e) (handed ++ s.handed p e) := by
  cases e with
  | process layerInp batch =>
    have hnone : s.handed p (.process layerInp batch) = [] := rfl
    rw [step_process h, hnone, List.append_nil]
    exact hl.quiet ⟨rfl, rfl, rfl, rfl, rfl⟩ rfl
  | begin r prompt =>
    obtain ⟨hlog, c, -, heq⟩ := step_begin (p := p) h r prompt
    have hdrafts := drafts_append hlog
    have hstats : (s.step p (.begin r prompt)).stats = s.stats := by rw [heq]
    have hnone : s.handed p (.begin r prompt) = [] := rfl
    rw [hnone, List.append_nil]
    refine hl.quiet ?_ (by rw [hdrafts]; exact List.append_nil _)
    rw [hstats]
    exact ⟨rfl, rfl, rfl, rfl, rfl⟩
  | draft r dparams => exact ledger_draft h hl r dparams

/-- THE METRICS TELL THE WIRE: after any calls of `process`, `begin` and `draft`, answered in any way, every
    Draft sent is one gRPC call and either a draft block or a fallback step by its own reply, the edge counts
    as connected by the last reply, and the draft tokens are exactly those handed to the target. -/
theorem metrics_tell_wire (p : SpecParams) (session : ℕ) (es : List RemoteEvent) :
    let s := exec (Remote.step p) (.fresh session) es
    Ledger s (answers (Remote.act p) (.fresh session) es).flatten ∧
      s.stats.grpcCalls = s.stats.draftBlocks + s.stats.fallbackSteps := by
  have hledger : Ledger (exec (Remote.step p) (.fresh session) es)
      (answers (Remote.act p) (.fresh session) es).flatten := by
    induction es using List.reverseRecOn with
    | nil => exact ⟨rfl, rfl, rfl, rfl, rfl⟩
    | append_singleton es e ih =>
      have hstep := @ledger_step p session _ (live_exec session es) _ ih e
      rw [exec_append, answers_concat, List.flatten_append, List.flatten_singleton]
      exact hstep
  refine ⟨hledger, ?_⟩
  rw [hledger.grpcCalls, hledger.draftBlocks, hledger.fallbackSteps]
  simpa using List.length_eq_countP_add_countP Sent.ok

end DsparkEdge
