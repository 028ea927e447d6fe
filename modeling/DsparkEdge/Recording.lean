import DsparkEdge.Lib.Runs
import DsparkEdge.Replay
import DsparkEdge.Transport

/-! Recording a run in which nothing is lost, and replaying what was recorded. The names of the step files
    restart with every generation, those of the prefill files never do, a Reset leaves no file, and the
    replay plays every prefill before the first step. So the replay goes through the calls of the run as
    long as one generation sends; the prompt of a second one would come before the first one's steps.

        run      P₀ D₁ D₂ D₃ │ Reset │ P₁ D₁ D₂
        files    P₀ P₁ D₁ D₂ D₃             D₁, D₂ of the second generation, D₃ of the first
        replay   P₀ P₁ D₁ D₂ D₃

    Every call is labelled 0: the generation a cell belongs to is not observed here. -/

namespace DsparkEdge

open Runs

inductive RecordEvent where
  | process (layerInp : LayerInp) (batch : LlamaBatch)
  | begin (prompt : List ℤ)
  | draft (dparams : List DraftParams)

/-- One event of a run in which nothing is lost. -/
def RecordEvent.edge : RecordEvent → EdgeEvent
  | .process layerInp batch => .process layerInp batch
  | .begin prompt => .begin (.lossless 0) prompt
  | .draft dparams => .draft (.lossless 0) dparams

def Edge.record (cfg : ModelConfig) (M : DraftModel) (p : SpecParams) (s : Edge) (e : RecordEvent) :
    Edge := s.step cfg M p e.edge

/-! ### What was recorded -/

/-- The client's golden directory. -/
def Edge.golden (s : Edge) : Option GoldenDir := s.drafter.bind Client.golden

/-- The client's counter of prefill files. -/
def Edge.prefills (s : Edge) : ℕ := (s.drafter.map Client.prefillChunk).getD 0

/-- The call of the engine a handled call led to, with the engine it met. -/
def Served.engineCall : Served → Option (EngineCall × Engine)
  | .prefill req _ before => some (.prefill req.tokens, before.engine)
  | .draft req _ before =>
    if before.lastStepId < req.stepId then some (.draft (.ofWire req), before.engine) else none
  | .reset _ => none

/-- The reply to a handled Draft. -/
def Served.answer (cfg : ModelConfig) (M : DraftModel) : Served → Option DraftResponse
  | .draft req calls before => some (before.draft cfg M calls req).1
  | _ => none

def Edge.calls (s : Edge) : List (EngineCall × Engine) := s.daemon.served.filterMap Served.engineCall

def Edge.answers (cfg : ModelConfig) (M : DraftModel) (s : Edge) : List DraftResponse :=
  s.daemon.served.filterMap (Served.answer cfg M)

/-- The replay goes through the calls of the run, each on the same engine, and compares the reply to
    every request with the one recorded for it. -/
def Faithful (cfg : ModelConfig) (M : DraftModel) (s : Edge) : Prop :=
  ∃ dir r, s.golden = some dir ∧ replayGolden cfg M dir .fresh = some r ∧ r.played = s.calls ∧
    r.compared = (s.answers cfg M).map fun a => (a, some a)

/-- A call of `draft()` ships a prompt only if the client has not recorded one yet. -/
def SendsOnce (s : Edge) : RecordEvent → Prop
  | .draft dparams => ∀ dp, dparams.find? DraftParams.drafting = some dp →
      (s.toShip dp.nPast).isSome → s.prefilled = false → s.prefills = 0
  | _ => True

/-- The step ids fit their four digits. -/
def StepsFit (cfg : ModelConfig) (M : DraftModel) (p : SpecParams) (s : Edge) (e : RecordEvent) : Prop :=
  (s.record cfg M p e).stepId < 10 ^ 4

instance decidableStepsFit (cfg : ModelConfig) (M : DraftModel) (p : SpecParams) (s : Edge)
    (e : RecordEvent) : Decidable (StepsFit cfg M p s e) := inferInstanceAs (Decidable (_ < _))

/-! ### One event -/

variable {cfg : ModelConfig} {M : DraftModel} {nMax : ℤ} {en : Endian} {p : SpecParams} {session : ℕ}
  {s s' : Edge}

structure Recorder (cfg : ModelConfig) (session : ℕ) (s : Edge) : Prop where
  live : s.Live session
  sized : Sized cfg s.feats
  guard : s.daemon.session.lastStepId ≤ s.stepId

/-- An event that sends no Prefill and no Draft. -/
structure Quiet (cfg : ModelConfig) (M : DraftModel) (s s' : Edge) : Prop where
  golden : s'.golden = s.golden
  prefills : s'.prefills = s.prefills
  calls : s'.calls = s.calls
  answers : s'.answers cfg M = s.answers cfg M
  kept : s'.prefilled = true → s.prefilled = true ∧
    s'.daemon.session.engine = s.daemon.session.engine ∧ s.stepId ≤ s'.stepId
  idle : s.daemon.session.engine = .fresh → s'.daemon.session.engine = .fresh

/-- The request and the response of a step are written. -/
def writeStep (cfg : ModelConfig) (M : DraftModel) (c : DraftRequest × Engine) (dir : GoldenDir) :
    GoldenDir :=
  (dir.write (requestName c.1.stepId) (.request c.1)).write (responseName c.1.stepId)
    (.response (answerOf cfg M c))

/-- An event that sends a Draft `c.1`, which meets the engine `c.2`; `calls` and `golden` are what was
    recorded before it. -/
structure Stepped (cfg : ModelConfig) (M : DraftModel) (s s' : Edge) (c : DraftRequest × Engine)
    (calls : List (EngineCall × Engine)) (golden : Option GoldenDir) : Prop where
  golden : s'.golden = golden.map (writeStep cfg M c)
  calls : s'.calls = calls ++ [callOf c]
  answers : s'.answers cfg M = s.answers cfg M ++ [answerOf cfg M c]
  engine : s'.daemon.session.engine = (c.2.draft cfg M (.succeed 0) (.ofWire c.1)).2
  prefilled : s'.prefilled = true
  reqStep : c.1.stepId = s.stepId + 1
  stepId : s'.stepId = s.stepId + 1

/-- An event that ships the prompt `tokens` first. -/
structure Prompted (cfg : ModelConfig) (M : DraftModel) (session : ℕ) (s s' : Edge)
    (tokens : List TokenFeatures) (c : DraftRequest × Engine) : Prop where
  ok : (s.daemon.session.engine.prefill cfg (.succeed 0) tokens).1 = true
  engine : c.2 = (s.daemon.session.engine.prefill cfg (.succeed 0) tokens).2.2
  prefills : s'.prefills = s.prefills + 1
  unsent : s.prefilled = false
  stepped : Stepped cfg M s s' c (s.calls ++ [(.prefill tokens, s.daemon.session.engine)])
    (s.golden.map (GoldenDir.write (prefillName s.prefills) (.prefill ⟨session, tokens, true⟩)))

/-- An event that sends what was committed since the last one. -/
structure Continued (cfg : ModelConfig) (M : DraftModel) (s s' : Edge) (c : DraftRequest × Engine) :
    Prop where
  engine : c.2 = s.daemon.session.engine
  prefills : s'.prefills = s.prefills
  sent : s.prefilled = true
  stepped : Stepped cfg M s s' c s.calls s.golden

theorem golden_of_client {c : Client Daemon} (hc : s.drafter = some c) :
    s.golden = c.golden ∧ s.prefills = c.prefillChunk := by
  rw [Edge.golden, Edge.prefills, hc]
  exact ⟨rfl, rfl⟩

/-- What a handled Draft adds to the record. -/
theorem stepped_of_handled {dp : DraftParams} {req : DraftRequest} {d : Daemon}
    {out : Edge × List ℤ} (hs : Handled cfg M session dp (.succeed 0) req d s out)
    (hfresh : d.session.lastStepId < req.stepId) (hreq : req.stepId = s.stepId + 1)
    {pre : List Served} (hserved : d.served = s.daemon.served ++ pre)
    (hpre : pre.filterMap (Served.answer cfg M) = []) {golden : Option GoldenDir}
    (hgolden : out.1.golden = golden.map (writeStep cfg M (req, d.session.engine))) :
    Stepped cfg M s out.1 (req, d.session.engine) (s.calls ++ pre.filterMap Served.engineCall)
      golden := by
  have hexec := draft_executed cfg M (.succeed 0) hfresh
  have hlog : out.1.daemon.served =
      s.daemon.served ++ (pre ++ [.draft req (.succeed 0) d.session]) := by
    rw [hs.daemon, Daemon.draft, hserved, List.append_assoc]
  refine ⟨hgolden, ?_, ?_, ?_, hs.prefilled, hreq, hs.stepId⟩
  · rw [Edge.calls, hlog, List.filterMap_append, List.filterMap_append, ← List.append_assoc]
    simp [Served.engineCall, hfresh, callOf, Edge.calls]
  · rw [Edge.answers, hlog, List.filterMap_append, List.filterMap_append, hpre]
    simp [Served.answer, hexec, answerOf, Edge.answers]
  · rw [hs.daemon, Daemon.draft]
    simp only [hexec]

/-- What sending a Draft writes. -/
theorem send_golden (cfg : ModelConfig) (M : DraftModel) (p : SpecParams) (dp : DraftParams) (base : ℤ)
    (tokens : List TokenFeatures) {c : Client Daemon} (hready : c.Ready session) {s : Edge}
    (hfresh : c.net.session.lastStepId < s.stepId + 1) :
    Edge.golden (s.send (grpcDrafter (daemonStub cfg M (.lossless 0))) p dp base tokens c).1 =
      c.golden.map (writeStep cfg M
        (wireRequest p session (s.stepId + 1) dp base tokens, c.net.session.engine)) ∧
    Edge.prefills (s.send (grpcDrafter (daemonStub cfg M (.lossless 0))) p dp base tokens c).1 =
      c.prefillChunk := by
  obtain ⟨hgolden, hprefills⟩ := client_draft_golden (daemonStub cfg M (.lossless 0)) hready
    (s.request p dp base tokens)
  refine ⟨?_, hprefills⟩
  have hwire : (s.request p dp base tokens).toWire session =
      wireRequest p session (s.stepId + 1) dp base tokens := rfl
  have hresp : ((daemonStub cfg M (.lossless 0)).draft c.net
      (wireRequest p session (s.stepId + 1) dp base tokens)).2.2 =
        answerOf cfg M (wireRequest p session (s.stepId + 1) dp base tokens, c.net.session.engine) := by
    have hfresh' : c.net.session.lastStepId <
        (wireRequest p session (s.stepId + 1) dp base tokens).stepId := hfresh
    exact congrArg Prod.fst (draft_executed cfg M (.succeed 0) hfresh')
  rw [hwire, hresp] at hgolden
  exact hgolden

/-- The events that are not drafts leave no record. -/
theorem record_process (h : Recorder cfg session s) (M : DraftModel) (nMax : ℤ) (en : Endian)
    (layerInp : LayerInp) (batch : LlamaBatch) :
    Recorder cfg session (s.record cfg M (handshake cfg nMax en) (.process layerInp batch)) ∧
      Quiet cfg M s (s.record cfg M (handshake cfg nMax en) (.process layerInp batch)) := by
  have hstep := edge_process cfg M (handshake cfg nMax en) h.live layerInp batch
  have hsize := packetsOf_size cfg nMax en layerInp batch
  rw [Edge.record, RecordEvent.edge, hstep]
  generalize packetsOf (handshake cfg nMax en) layerInp batch = packets at hsize
  refine ⟨⟨h.live.stored packets, sized_store h.sized hsize, h.guard⟩, rfl, rfl, rfl, rfl, fun hp => ⟨hp, rfl, le_rfl⟩, id⟩

theorem record_begin (h : Recorder cfg session s) (M : DraftModel) (p : SpecParams) (prompt : List ℤ) :
    Recorder cfg session (s.record cfg M p (.begin prompt)) ∧
      Quiet cfg M s (s.record cfg M p (.begin prompt)) := by
  have hb := edge_begin cfg M p h.live (.lossless 0) prompt
  have hd : (s.record cfg M p (.begin prompt)).daemon = s.daemon.reset := hb.daemon.trans (if_pos rfl)
  obtain ⟨c, hc, hready, -⟩ := h.live.client
  obtain ⟨hgolden, hprefills⟩ := client_reset_golden (daemonStub cfg M (.lossless 0)) hready
  have hdrafter : (s.record cfg M p (.begin prompt)).drafter =
      some (c.reset (daemonStub cfg M (.lossless 0))).1 := by
    have hbegin : (s.record cfg M p (.begin prompt)).drafter =
        s.drafter.map fun c => (c.reset (daemonStub cfg M (.lossless 0))).1 := rfl
    rw [hbegin, hc]; rfl
  refine ⟨⟨hb.live, ?_, ?_⟩, ?_, ?_, ?_, ?_, ?_, ?_⟩
  · intro pos tf htf
    have htf' : (if prompt.length ≤ pos then none else s.feats pos) = some tf := by
      rw [← hb.feats]; exact htf
    split at htf'
    · cases htf'
    · exact h.sized pos tf htf'
  · rw [hd]
    exact Nat.zero_le _
  · rw [Edge.golden, Edge.golden, hdrafter, hc]
    exact hgolden
  · rw [Edge.prefills, Edge.prefills, hdrafter, hc]
    exact hprefills
  · rw [Edge.calls, hd, Daemon.reset, List.filterMap_append]
    exact List.append_nil _
  · rw [Edge.answers, hd, Daemon.reset, List.filterMap_append]
    exact List.append_nil _
  · intro hp
    cases hp.symm.trans hb.prefilled
  · intro _
    rw [hd]
    rfl

theorem recorder_of_handled (h : Recorder cfg session s) {dp : DraftParams} {req : DraftRequest}
    {d : Daemon} {out : Edge × List ℤ} (hs : Handled cfg M session dp (.succeed 0) req d s out)
    (hfresh : d.session.lastStepId < req.stepId) (hreq : req.stepId = s.stepId + 1) :
    Recorder cfg session out.1 := by
  refine ⟨hs.live, ?_, ?_⟩
  · rw [hs.feats]
    exact h.sized
  · rw [hs.daemon, Daemon.draft, hs.stepId, ← hreq]
    simp only [draft_executed cfg M (.succeed 0) hfresh]
    exact le_rfl

/-- The first Draft of a generation, and the prompt before it. -/
theorem prompted_of_handled (h : Recorder cfg session s) {dparams : List DraftParams}
    {dp : DraftParams} {tokens : List TokenFeatures}
    (hdp : dparams.find? DraftParams.drafting = some dp) (hp : s.prefilled = false)
    (hship : s.toShip dp.nPast = some tokens)
    (hs : Handled cfg M session dp (.succeed 0)
      (wireRequest p session (s.stepId + 1) dp (dp.nPast - 1) [])
      (s.daemon.prefill cfg (.succeed 0) ⟨session, tokens, true⟩) s
      (s.draft (grpcDrafter (daemonStub cfg M (.lossless 0))) p dparams)) :
    Recorder cfg session (s.record cfg M p (.draft dparams)) ∧
      ∃ c, Prompted cfg M session s (s.record cfg M p (.draft dparams)) tokens c := by
  obtain ⟨c, hc, hready, hnet⟩ := h.live.client
  obtain ⟨hdir, hcount⟩ := golden_of_client hc
  obtain ⟨hready', hnet', -⟩ :=
    client_prefill (daemonStub cfg M (.lossless 0)) hready tokens true
  obtain ⟨hgolden', hprefills'⟩ :=
    client_prefill_golden (daemonStub cfg M (.lossless 0)) hready tokens true
  have hprefilled : (c.prefill (daemonStub cfg M (.lossless 0)) tokens true).1.net =
      s.daemon.prefill cfg (.succeed 0) ⟨session, tokens, true⟩ := by
    rw [hnet', hnet]; rfl
  have hfresh : (s.daemon.prefill cfg (.succeed 0) ⟨session, tokens, true⟩).session.lastStepId <
      s.stepId + 1 := Nat.lt_succ_of_le h.guard
  have hfresh' : (c.prefill (daemonStub cfg M (.lossless 0)) tokens true).1.net.session.lastStepId <
      s.stepId + 1 := by rw [hprefilled]; exact hfresh
  obtain ⟨hgolden, hprefills⟩ := send_golden cfg M p dp (dp.nPast - 1) [] hready' hfresh'
  have hsize : ∀ tf ∈ tokens, SizeOk cfg tf := by
    rw [toShip_first hp] at hship
    exact fun tf htf => h.sized _ tf (mem_gatherFrom h.live.keyed hship htf).2.2
  have hout := draft_eq_first (grpcDrafter (daemonStub cfg M (.lossless 0))) p hc hdp hp hship
  refine ⟨recorder_of_handled h hs hfresh rfl, _, prefill_ok cfg 0 hsize _, rfl, ?_, hp,
    stepped_of_handled hs hfresh rfl rfl rfl ?_⟩
  · rw [hcount, ← hprefills', ← hprefills, Edge.record, RecordEvent.edge, Edge.step, hout]
    rfl
  · rw [hout, hdir, hcount, ← hgolden']
    rw [hprefilled] at hgolden
    exact hgolden

/-- A later Draft of a generation. -/
theorem continued_of_handled (h : Recorder cfg session s) {dparams : List DraftParams}
    {dp : DraftParams} {tokens : List TokenFeatures}
    (hdp : dparams.find? DraftParams.drafting = some dp) (hp : s.prefilled = true)
    (hship : s.toShip dp.nPast = some tokens)
    (hs : Handled cfg M session dp (.succeed 0)
      (wireRequest p session (s.stepId + 1) dp s.nSent tokens) s.daemon s
      (s.draft (grpcDrafter (daemonStub cfg M (.lossless 0))) p dparams)) :
    Recorder cfg session (s.record cfg M p (.draft dparams)) ∧
      ∃ c, Continued cfg M s (s.record cfg M p (.draft dparams)) c := by
  obtain ⟨c, hc, hready, hnet⟩ := h.live.client
  have hfresh : s.daemon.session.lastStepId < s.stepId + 1 := Nat.lt_succ_of_le h.guard
  have hfresh' : c.net.session.lastStepId < s.stepId + 1 := by rw [hnet]; exact hfresh
  obtain ⟨hgolden, hprefills⟩ := send_golden cfg M p dp s.nSent tokens hready hfresh'
  have hout := draft_eq_later (grpcDrafter (daemonStub cfg M (.lossless 0))) p hc hdp hp hship
  obtain ⟨hdir, hcount⟩ := golden_of_client hc
  have hwritten : Edge.golden (s.draft (grpcDrafter (daemonStub cfg M (.lossless 0))) p dparams).1 =
      s.golden.map (writeStep cfg M
        (wireRequest p session (s.stepId + 1) dp s.nSent tokens, s.daemon.session.engine)) := by
    rw [hout, hgolden, hdir, hnet]
  have hstepped := stepped_of_handled hs hfresh rfl (List.append_nil _).symm rfl hwritten
  rw [List.filterMap_nil, List.append_nil] at hstepped
  refine ⟨recorder_of_handled h hs hfresh rfl, _, rfl, ?_, hp, hstepped⟩
  rw [hcount, ← hprefills, Edge.record, RecordEvent.edge, Edge.step, hout]

/-- A call of `draft()` is quiet, ships a prompt, or continues. -/
theorem record_draft (h : Recorder cfg session s) (M : DraftModel) (p : SpecParams)
    (dparams : List DraftParams) :
    Recorder cfg session (s.record cfg M p (.draft dparams)) ∧
      (Quiet cfg M s (s.record cfg M p (.draft dparams)) ∧ SendsOnce s (.draft dparams) ∨
        (∃ tokens c, Prompted cfg M session s (s.record cfg M p (.draft dparams)) tokens c) ∧
          (SendsOnce s (.draft dparams) ↔ s.prefills = 0) ∨
        (∃ c, Continued cfg M s (s.record cfg M p (.draft dparams)) c) ∧
          SendsOnce s (.draft dparams)) := by
  cases hdp : dparams.find? DraftParams.drafting with
  | none =>
    have hstep : s.record cfg M p (.draft dparams) = s := by
      rw [Edge.record, RecordEvent.edge, Edge.step, draft_none _ p hdp]
    rw [hstep]
    refine ⟨h, Or.inl ⟨⟨rfl, rfl, rfl, rfl, fun hp => ⟨hp, rfl, le_rfl⟩, id⟩, ?_⟩⟩
    intro dp hdp'
    rw [hdp] at hdp'; cases hdp'
  | some dp =>
    have hsends : SendsOnce s (.draft dparams) ↔
        ((s.toShip dp.nPast).isSome → s.prefilled = false → s.prefills = 0) := by
      refine ⟨fun hs => hs dp hdp, fun hs dp' hdp' => ?_⟩
      rw [hdp] at hdp'
      cases hdp'
      exact hs
    rcases edge_draft_cases cfg M p h.live (.lossless 0) hdp with
      ⟨hship, heq⟩ | ⟨tokens, hship, ⟨hp, hs⟩ | ⟨hp, hs⟩⟩
    · have hgrow := stepId_le_skipped s
      rw [Edge.record, RecordEvent.edge, Edge.step, heq, hsends, hship]
      exact ⟨⟨h.live.skipped _ _, h.sized, h.guard.trans hgrow⟩, Or.inl ⟨⟨rfl, rfl, rfl, rfl, fun hp => ⟨hp, rfl, hgrow⟩, id⟩,
          fun hsome => by cases hsome⟩⟩
    · obtain ⟨hrec, c, hprompt⟩ := prompted_of_handled h hdp hp hship hs
      refine ⟨hrec, Or.inr (Or.inl ⟨⟨tokens, c, hprompt⟩, ?_⟩)⟩
      rw [hsends, hship, hp]
      simp
    · obtain ⟨hrec, c, hcont⟩ := continued_of_handled h hdp hp hship hs
      refine ⟨hrec, Or.inr (Or.inr ⟨⟨c, hcont⟩, ?_⟩)⟩
      rw [hsends, hp]
      intro _ hfalse
      cases hfalse

/-- Every event is quiet, ships a prompt, or continues; only a second prompt breaks the rule. -/
theorem record_cases (h : Recorder cfg session s) (M : DraftModel) (nMax : ℤ) (en : Endian)
    (e : RecordEvent) :
    Recorder cfg session (s.record cfg M (handshake cfg nMax en) e) ∧
      (Quiet cfg M s (s.record cfg M (handshake cfg nMax en) e) ∧ SendsOnce s e ∨
        (∃ tokens c, Prompted cfg M session s (s.record cfg M (handshake cfg nMax en) e) tokens c) ∧
          (SendsOnce s e ↔ s.prefills = 0) ∨
        (∃ c, Continued cfg M s (s.record cfg M (handshake cfg nMax en) e) c) ∧ SendsOnce s e) := by
  cases e with
  | process layerInp batch =>
    obtain ⟨hrec, hquiet⟩ := record_process h M nMax en layerInp batch
    exact ⟨hrec, Or.inl ⟨hquiet, trivial⟩⟩
  | begin prompt =>
    obtain ⟨hrec, hquiet⟩ := record_begin h M (handshake cfg nMax en) prompt
    exact ⟨hrec, Or.inl ⟨hquiet, trivial⟩⟩
  | draft dparams => exact record_draft h M (handshake cfg nMax en) dparams

/-! ### One prompt -/

/-- Nothing has been sent yet. -/
structure Unsent (cfg : ModelConfig) (M : DraftModel) (s : Edge) : Prop where
  golden : s.golden = some []
  prefills : s.prefills = 0
  calls : s.calls = []
  answers : s.answers cfg M = []
  prefilled : s.prefilled = false
  engine : s.daemon.session.engine = .fresh

/-- One prompt and the steps `reqs` behind it have been sent; while their generation lasts, the engine is
    where they left it, and no step id is ahead. -/
structure SentOne (cfg : ModelConfig) (M : DraftModel) (s : Edge) (dir : GoldenDir)
    (preq : PrefillRequest) (reqs : List DraftRequest) : Prop where
  golden : s.golden = some dir
  prefills : s.prefills ≠ 0
  holds : Holds cfg M dir preq reqs
  ok : (Engine.fresh.prefill cfg (.succeed 0) preq.tokens).1 = true
  calls : s.calls =
    (.prefill preq.tokens, .fresh) :: (draftsFrom cfg M (afterPrompt cfg preq) reqs).map callOf
  answers : s.answers cfg M = (draftsFrom cfg M (afterPrompt cfg preq) reqs).map (answerOf cfg M)
  current : s.prefilled = true →
    s.daemon.session.engine = afterDrafts cfg M (afterPrompt cfg preq) reqs ∧
      ∀ req ∈ reqs, req.stepId ≤ s.stepId

theorem quiet_unsent (h : Unsent cfg M s) (hq : Quiet cfg M s s') : Unsent cfg M s' := by
  refine ⟨hq.golden.trans h.golden, hq.prefills.trans h.prefills, hq.calls.trans h.calls,
    hq.answers.trans h.answers, ?_, hq.idle h.engine⟩
  rw [← Bool.not_eq_true]
  intro hp
  cases (hq.kept hp).1.symm.trans h.prefilled

theorem quiet_sentOne {dir : GoldenDir} {preq : PrefillRequest} {reqs : List DraftRequest}
    (h : SentOne cfg M s dir preq reqs) (hq : Quiet cfg M s s') : SentOne cfg M s' dir preq reqs := by
  refine ⟨hq.golden.trans h.golden, hq.prefills.trans_ne h.prefills, h.holds, h.ok,
    hq.calls.trans h.calls, hq.answers.trans h.answers, fun hp => ?_⟩
  obtain ⟨hsent, hengine, hgrow⟩ := hq.kept hp
  obtain ⟨hafter, hids⟩ := h.current hsent
  exact ⟨hengine.trans hafter, fun req hreq => (hids req hreq).trans hgrow⟩

/-- A Draft behind the prompt and the steps `reqs`. -/
theorem stepped_sentOne {dir : GoldenDir} {preq : PrefillRequest} {reqs : List DraftRequest}
    (hholds : Holds cfg M dir preq reqs)
    (hok : (Engine.fresh.prefill cfg (.succeed 0) preq.tokens).1 = true)
    {c : DraftRequest × Engine}
    (hs : Stepped cfg M s s' c ((.prefill preq.tokens, .fresh) ::
      (draftsFrom cfg M (afterPrompt cfg preq) reqs).map callOf) (some dir))
    (hanswers : s.answers cfg M = (draftsFrom cfg M (afterPrompt cfg preq) reqs).map (answerOf cfg M))
    (hengine : c.2 = afterDrafts cfg M (afterPrompt cfg preq) reqs)
    (hids : ∀ req ∈ reqs, req.stepId ≤ s.stepId) (hfit : s'.stepId < 10 ^ 4)
    (hprefills : s'.prefills ≠ 0) :
    SentOne cfg M s' (writeStep cfg M c dir) preq (reqs ++ [c.1]) := by
  obtain ⟨req, st⟩ := c
  cases hengine
  have hreq : req.stepId = s'.stepId := hs.reqStep.trans hs.stepId.symm
  have hlast : ∀ r ∈ reqs, r.stepId < req.stepId := by
    intro r hr
    have hreq' : req.stepId = s.stepId + 1 := hs.reqStep
    have := hids r hr
    omega
  refine ⟨hs.golden, hprefills, holds_snoc hholds hlast (hreq ▸ hfit), hok, ?_, ?_, fun _ => ⟨?_, ?_⟩⟩
  · rw [hs.calls, draftsFrom_snoc, List.map_append]; rfl
  · rw [hs.answers, hanswers, draftsFrom_snoc, List.map_append]; rfl
  · rw [hs.engine, afterDrafts_snoc]; rfl
  · intro r hr
    rcases List.mem_append.mp hr with hr | hr
    · exact (hlast r hr).le.trans hreq.le
    · rw [List.mem_singleton.mp hr]
      exact hreq.le

/-- The first prompt and its Draft. -/
theorem prompted_sentOne (h : Unsent cfg M s) {tokens : List TokenFeatures}
    {c : DraftRequest × Engine} (hp : Prompted cfg M session s s' tokens c)
    (hfit : s'.stepId < 10 ^ 4) : ∃ dir preq reqs, SentOne cfg M s' dir preq reqs := by
  have hok := hp.ok
  have hengine := hp.engine
  have hs := hp.stepped
  rw [h.engine] at hok hengine hs
  rw [h.calls, h.golden, h.prefills] at hs
  have hprefills : s'.prefills ≠ 0 := by
    rw [hp.prefills]
    exact Nat.succ_ne_zero _
  exact ⟨_, _, _, stepped_sentOne (holds_prompt ⟨session, tokens, true⟩) hok hs h.answers hengine
    (by simp) hfit hprefills⟩

/-- A further Draft of the same generation. -/
theorem continued_sentOne {dir : GoldenDir} {preq : PrefillRequest} {reqs : List DraftRequest}
    (h : SentOne cfg M s dir preq reqs) {c : DraftRequest × Engine} (hc : Continued cfg M s s' c)
    (hfit : s'.stepId < 10 ^ 4) : ∃ dir preq reqs, SentOne cfg M s' dir preq reqs := by
  obtain ⟨hengine, hids⟩ := h.current hc.sent
  have hs := hc.stepped
  rw [h.calls, h.golden] at hs
  have hprefills : s'.prefills ≠ 0 := by
    rw [hc.prefills]
    exact h.prefills
  exact ⟨_, _, _, stepped_sentOne h.holds h.ok hs h.answers (hc.engine.trans hengine) hids hfit
    hprefills⟩

/-! ### Runs -/

/-- A run that ships at most one prompt: so far none, or one. -/
def OnePrompt (cfg : ModelConfig) (M : DraftModel) (session : ℕ) (s : Edge) : Prop :=
  Recorder cfg session s ∧ (Unsent cfg M s ∨ ∃ dir preq reqs, SentOne cfg M s dir preq reqs)

theorem onePrompt_step (h : OnePrompt cfg M session s) {e : RecordEvent}
    (hfit : StepsFit cfg M (handshake cfg nMax en) s e) (hsend : SendsOnce s e) :
    OnePrompt cfg M session (s.record cfg M (handshake cfg nMax en) e) := by
  obtain ⟨hrec, hsent⟩ := h
  obtain ⟨hrec', ⟨hquiet, -⟩ | ⟨⟨tokens, c, hprompt⟩, hiff⟩ | ⟨⟨c, hcont⟩, -⟩⟩ :=
    record_cases hrec M nMax en e
  · refine ⟨hrec', ?_⟩
    rcases hsent with hun | ⟨dir, preq, reqs, hone⟩
    · exact Or.inl (quiet_unsent hun hquiet)
    · exact Or.inr ⟨dir, preq, reqs, quiet_sentOne hone hquiet⟩
  · refine ⟨hrec', Or.inr ?_⟩
    rcases hsent with hun | ⟨dir, preq, reqs, hone⟩
    · exact prompted_sentOne hun hprompt hfit
    · exact absurd (hiff.mp hsend) hone.prefills
  · refine ⟨hrec', Or.inr ?_⟩
    rcases hsent with hun | ⟨dir, preq, reqs, hone⟩
    · cases hcont.sent.symm.trans hun.prefilled
    · exact continued_sentOne hone hcont hfit

theorem onePrompt_faithful (h : OnePrompt cfg M session s) : Faithful cfg M s := by
  obtain ⟨-, hun | ⟨dir, preq, reqs, hone⟩⟩ := h
  · exact ⟨[], ⟨.fresh, [], []⟩, hun.golden, rfl, hun.calls.symm, by rw [hun.answers]; rfl⟩
  · refine ⟨dir, _, hone.golden, replay_holds hone.holds hone.ok, hone.calls.symm, ?_⟩
    rw [hone.answers, List.map_map]
    rfl

/-- Once a prompt is out there are drafts in the record. -/
def Marked (cfg : ModelConfig) (session : ℕ) (s : Edge) : Prop :=
  Recorder cfg session s ∧ (s.prefills ≠ 0 → ∃ c ∈ s.calls, c.1.isPrefill = false)

theorem calls_grow (h : Recorder cfg session s) (M : DraftModel) (nMax : ℤ) (en : Endian)
    (e : RecordEvent) :
    ∃ more, (s.record cfg M (handshake cfg nMax en) e).calls = s.calls ++ more := by
  obtain ⟨-, ⟨hquiet, -⟩ | ⟨⟨tokens, c, hprompt⟩, -⟩ | ⟨⟨c, hcont⟩, -⟩⟩ := record_cases h M nMax en e
  · exact ⟨[], by rw [hquiet.calls, List.append_nil]⟩
  · exact ⟨_, by rw [hprompt.stepped.calls, List.append_assoc]⟩
  · exact ⟨_, hcont.stepped.calls⟩

theorem marked_step (h : Marked cfg session s) (M : DraftModel) (nMax : ℤ) (en : Endian)
    (e : RecordEvent) : Marked cfg session (s.record cfg M (handshake cfg nMax en) e) := by
  obtain ⟨hrec, hmark⟩ := h
  obtain ⟨hrec', ⟨hquiet, -⟩ | ⟨⟨tokens, c, hprompt⟩, -⟩ | ⟨⟨c, hcont⟩, -⟩⟩ :=
    record_cases hrec M nMax en e
  · refine ⟨hrec', ?_⟩
    rw [hquiet.prefills, hquiet.calls]
    exact hmark
  · refine ⟨hrec', fun _ => ⟨callOf c, ?_, rfl⟩⟩
    rw [hprompt.stepped.calls]
    simp
  · refine ⟨hrec', fun _ => ⟨callOf c, ?_, rfl⟩⟩
    rw [hcont.stepped.calls]
    simp

/-- A second prompt comes after drafts. -/
theorem second_prompt_marked (h : Marked cfg session s) (M : DraftModel) (nMax : ℤ) (en : Endian)
    {e : RecordEvent} (he : ¬SendsOnce s e) :
    ¬PrefillsFirst (s.record cfg M (handshake cfg nMax en) e).calls := by
  obtain ⟨hrec, hmark⟩ := h
  obtain ⟨-, ⟨-, hsend⟩ | ⟨⟨tokens, c, hprompt⟩, hiff⟩ | ⟨-, hsend⟩⟩ := record_cases hrec M nMax en e
  · exact absurd hsend he
  · obtain ⟨d, hd, hdraft⟩ := hmark (mt hiff.mpr he)
    intro hfirst
    rw [PrefillsFirst, hprompt.stepped.calls, List.append_assoc, List.map_append,
      List.pairwise_append] at hfirst
    have := hfirst.2.2 _ (List.mem_map_of_mem hd) true (by simp [EngineCall.isPrefill]) rfl
    rw [hdraft] at this
    cases this
  · exact absurd hsend he

theorem faithful_prefillsFirst (h : Faithful cfg M s) : PrefillsFirst s.calls := by
  obtain ⟨dir, r, -, hreplay, hcalls, -⟩ := h
  rw [← hcalls]
  exact replay_prefillsFirst hreplay

theorem fresh_recorder (cfg : ModelConfig) (session : ℕ) (golden : Option GoldenDir) :
    Recorder cfg session (.fresh session golden) where
  live := edge_fresh_live session golden
  sized := by
    intro pos tf htf
    cases htf
  guard := le_rfl

/-- RECORD AND REPLAY: for every run in which nothing is lost and the step ids fit their digits, the replay
    of the recorded directory goes through the calls of the run, each on the same engine and each reply
    beside its own, exactly when at most one prompt is shipped. -/
theorem replay_faithful_iff (cfg : ModelConfig) (M : DraftModel) (nMax : ℤ) (en : Endian)
    (session : ℕ) {es : List RecordEvent}
    (hfit : Along (Edge.record cfg M (handshake cfg nMax en)) (StepsFit cfg M (handshake cfg nMax en))
      (.fresh session (some [])) es) :
    Faithful cfg M (exec (Edge.record cfg M (handshake cfg nMax en)) (.fresh session (some [])) es) ↔
      Along (Edge.record cfg M (handshake cfg nMax en)) SendsOnce (.fresh session (some [])) es := by
  constructor
  · intro hfaithful
    refine along_of_unmarked (Marked cfg session) (fun s => ¬PrefillsFirst s.calls)
      (fun s e h => marked_step h M nMax en e) (fun s e h he => second_prompt_marked h M nMax en he)
      ?_ ⟨fresh_recorder cfg session _, fun h => absurd rfl h⟩
      (not_not.mpr (faithful_prefillsFirst hfaithful))
    intro s e h hbad hfirst
    obtain ⟨more, hmore⟩ := calls_grow h.1 M nMax en e
    rw [hmore] at hfirst
    exact hbad hfirst.of_append
  · intro hsends
    refine onePrompt_faithful (exec_inv (OnePrompt cfg M session)
      (fun s e h he => onePrompt_step h he.1 he.2) ⟨fresh_recorder cfg session _, Or.inl ?_⟩
      (along_and (Edge.record cfg M (handshake cfg nMax en)) hfit hsends))
    exact ⟨rfl, rfl, rfl, rfl, rfl, rfl⟩

/-- Two generations of one prompt and one draft each. -/
def twoRecorded : List RecordEvent :=
  [.process (zeroLayer 1) (.tokens [(1, 0)]), .begin [1], .draft [⟨true, 1, 9⟩], .begin [1],
    .draft [⟨true, 1, 9⟩]]

/-- The replay plays the second prompt before the first draft. -/
theorem second_generation_not_replayed :
    ¬Faithful smallConfig (constModel [5])
      (exec (Edge.record smallConfig (constModel [5]) (handshake smallConfig 4 .little))
        (.fresh 1 (some [])) twoRecorded) := by
  intro hfaithful
  exact absurd (faithful_prefillsFirst hfaithful) (by decide)

theorem replay_faithful_iff_small :
    Faithful smallConfig (constModel [5])
        (exec (Edge.record smallConfig (constModel [5]) (handshake smallConfig 4 .little))
          (.fresh 1 (some [])) (twoRecorded.take 3)) ↔
      Along (Edge.record smallConfig (constModel [5]) (handshake smallConfig 4 .little)) SendsOnce
        (.fresh 1 (some [])) (twoRecorded.take 3) :=
  replay_faithful_iff smallConfig (constModel [5]) 4 .little 1 (by decide)

end DsparkEdge
