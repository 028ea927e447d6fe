import DsparkEdge.Metrics
import DsparkEdge.ReplayFiles

/-! The files of a recorded run, replayed. What the server counted while it recorded is what the replay
    counts when it reads the directory back: its steps are the gRPC calls, its expected tokens the draft
    tokens, and all of them match.

        run   ──serialize──▶  files  ──parse──▶  replay
        grpc_calls                               steps
        draft_tokens                             total match = total expected

    The bytes follow the messages (`Mirrors`): a replay of files in which every message is read back from its
    bytes does what the replay of the messages does. -/

namespace DsparkEdge

open Runs Loops

/-! ### The bytes of a golden directory -/

/-- The bytes of a message; `draftUs` is the latency in a response. -/
def Message.serialize (pb : Protobuf) (draftUs : ℕ) : Message → List Byte
  | .prefill m => pb.prefillRequest.serialize m
  | .request m => pb.draftRequest.serialize m
  | .response m => pb.draftResponse.serialize (m, draftUs)

/-- The message is read back from its bytes. -/
def Message.ReadsBack (pb : Protobuf) (draftUs : ℕ) : Message → Prop
  | .prefill m => pb.prefillRequest.ReadsBack m
  | .request m => pb.draftRequest.ReadsBack m
  | .response m => pb.draftResponse.ReadsBack (m, draftUs)

/-- The directory on disk; `us` are the latencies in the responses. -/
def GoldenDir.files (pb : Protobuf) (us : FileName → ℕ) (dir : GoldenDir) : FileDir :=
  dir.map fun f => (f.1, some (f.2.serialize pb (us f.1)))

def GoldenDir.ReadsBack (pb : Protobuf) (us : FileName → ℕ) (dir : GoldenDir) : Prop :=
  ∀ f ∈ dir, f.2.ReadsBack pb (us f.1)

variable {pb : Protobuf} {cfg : ModelConfig} {M : DraftModel} {dir : GoldenDir} {us : FileName → ℕ}

theorem names_files (pb : Protobuf) (us : FileName → ℕ) (dir : GoldenDir) : (dir.files pb us).names = dir.names :=
  List.map_map

theorem read_files (pb : Protobuf) (us : FileName → ℕ) (name : FileName) (dir : GoldenDir) :
    (dir.files pb us).read name = (dir.read name).map (Message.serialize pb (us name)) := by
  induction dir with
  | nil => rfl
  | cons f dir ih =>
    unfold GoldenDir.files FileDir.read GoldenDir.read at ih ⊢
    by_cases hf : f.1 = name
    · simp [hf]
    · rw [List.map_cons, List.find?_cons_of_neg (by simpa using hf), List.find?_cons_of_neg (by simpa using hf)]
      exact ih

theorem GoldenDir.ReadsBack.read (h : dir.ReadsBack pb us) {name : FileName} {m : Message}
    (hm : dir.read name = some m) :
    m.ReadsBack pb (us name) := by
  obtain ⟨f, hf, rfl⟩ := Option.map_eq_some_iff.mp hm
  have hname : f.1 = name := by simpa using List.find?_some hf
  rw [← hname]
  exact h f (List.mem_of_find?_eq_some hf)

/-! ### The files follow the messages -/

/-- A replay of files beside the replay of the messages in them. -/
structure Mirrors (r : Replay) (f : ReplayRun) : Prop where
  engine : f.engine = r.engine
  steps : f.steps = r.compared.length
  compared : f.compared = r.compared.filterMap fun c => c.2.map fun res => (res.draftTokens, c.1.draftTokens)

theorem prefill_mirrored (hreads : dir.ReadsBack pb us) {r r' : Replay} {f : ReplayRun} {name : FileName}
    (h : Mirrors r f) (hstep : r.prefill cfg dir name = some r') :
    ∃ f', f.prefill pb cfg (fun _ => .succeed 0) (dir.files pb us) name = .ok f' ∧ Mirrors r' f' := by
  unfold Replay.prefill at hstep
  split at hstep
  case h_2 => cases hstep
  case h_1 req hread =>
    simp only at hstep
    split at hstep
    case isFalse => cases hstep
    case isTrue hok =>
      cases hstep
      have hparse : pb.prefillRequest.parse (pb.prefillRequest.serialize req) = some req := hreads.read hread
      have hbytes : (dir.files pb us).read name = some (pb.prefillRequest.serialize req) := by
        rw [read_files, hread]
        rfl
      rw [ReplayRun.prefill, hbytes]
      simp only [hparse, h.engine, hok, if_true]
      exact ⟨_, rfl, rfl, h.steps, h.compared⟩

/-- What stands beside a request is its response, if anything does. -/
def GoldenDir.Answered (dir : GoldenDir) : Prop :=
  ∀ name ∈ requestFiles dir, ∀ m, dir.read (responseFile name) = some m → ∃ res, m = .response res

theorem response_files (hreads : dir.ReadsBack pb us) {name : FileName}
    (hkind : ∀ m, dir.read (responseFile name) = some m → ∃ res, m = .response res) :
    (dir.files pb us).response pb name = goldenResponse dir name := by
  rw [FileDir.response, read_files, goldenResponse]
  cases hread : dir.read (responseFile name) with
  | none => rfl
  | some m =>
    obtain ⟨res, rfl⟩ := hkind m hread
    have hparse : pb.draftResponse.parse (pb.draftResponse.serialize (res, us (responseFile name))) =
        some (res, us (responseFile name)) := hreads.read hread
    simp only [Option.map_some, Option.bind_some, Message.serialize, hparse]

theorem request_mirrored (hreads : dir.ReadsBack pb us) {r r' : Replay} {f : ReplayRun} {name : FileName}
    (hkind : ∀ m, dir.read (responseFile name) = some m → ∃ res, m = .response res) (h : Mirrors r f)
    (hstep : r.request cfg M dir name = some r') :
    ∃ f', f.request pb cfg M (fun _ => .succeed 0) (dir.files pb us) name = .ok f' ∧ Mirrors r' f' := by
  unfold Replay.request at hstep
  split at hstep
  case h_2 => cases hstep
  case h_1 req hread =>
    cases hstep
    have hparse : pb.draftRequest.parse (pb.draftRequest.serialize req) = some req := hreads.read hread
    have hbytes : (dir.files pb us).read name = some (pb.draftRequest.serialize req) := by
      rw [read_files, hread]
      rfl
    rw [ReplayRun.request, hbytes]
    simp only [hparse, h.engine, response_files hreads hkind]
    refine ⟨_, rfl, ?_⟩
    cases goldenResponse dir name with
    | none => exact ⟨rfl, by simp [ReplayRun.compare, h.steps], by simp [ReplayRun.compare, h.compared]⟩
    | some res => exact ⟨rfl, by simp [ReplayRun.compare, h.steps], by simp [ReplayRun.compare, h.compared]⟩

/-- A replay of files that hold their messages does what the replay of the messages does. -/
theorem files_mirrored (hreads : dir.ReadsBack pb us) (hkind : dir.Answered) {engine : Engine} {r : Replay}
    (h : replayGolden cfg M dir engine = some r) :
    ∃ f, replayFiles pb cfg M (fun _ => .succeed 0) (some (dir.files pb us)) engine = .ok f ∧ Mirrors r f := by
  obtain ⟨r₁, hprefills, hrequests⟩ := Option.bind_eq_some_iff.mp h
  have hp : (dir.files pb us).prefillFiles = prefillFiles dir := by rw [FileDir.prefillFiles, names_files, prefillFiles]
  have hr : (dir.files pb us).requestFiles = requestFiles dir := by rw [FileDir.requestFiles, names_files, requestFiles]
  have hstart : Mirrors ⟨engine, [], []⟩ (.start engine) := ⟨rfl, rfl, rfl⟩
  obtain ⟨f₁, hf₁, hmirror⟩ := foldlM_sim Mirrors
    (fun name _ r r' f => @prefill_mirrored pb cfg dir us hreads r r' f name) hstart hprefills
  obtain ⟨f, hf, hmirror'⟩ := foldlM_sim Mirrors
    (fun name hname r r' f => @request_mirrored pb cfg M dir us hreads r r' f name (hkind name hname)) hmirror hrequests
  rw [← hp] at hf₁
  rw [← hr] at hf
  exact ⟨f, replayFiles_ok.mpr ⟨f₁, hf₁, hf⟩, hmirror'⟩

/-! ### What the server counted -/

variable {nMax : ℤ} {en : Endian} {session : ℕ} {s : Edge}

/-- A draft that fails hands out no tokens. -/
theorem failed_draft_empty {calls : LlamaCalls} {req : StepRequest} {st : Engine}
    (hfail : (st.draft cfg M calls req).1.ok = false) : (st.draft cfg M calls req).1.draftTokens = [] := by
  unfold Engine.draft at hfail ⊢
  cases hacc : (st.accept cfg calls req.acceptedTokens).1 with
  | false => simp [hacc]
  | true =>
    unfold Engine.runDraft at hfail ⊢
    cases hnoise : calls.noise with
    | fails left => simp [hacc]
    | ok => simp [hacc, hnoise, sampleLoop_ok] at hfail

theorem failed_no_tokens (cfg : ModelConfig) (M : DraftModel) (calls : LlamaCalls) (req : DraftRequest) (s : Session)
    (hfail : (s.draft cfg M calls req).1.ok = false) : (s.draft cfg M calls req).1.draftTokens = [] := by
  by_cases hstale : req.stepId ≤ s.lastStepId
  · rw [draft_stale cfg M calls hstale]
  · rw [draft_executed cfg M calls (by omega)] at hfail ⊢
    exact failed_draft_empty hfail

/-- The metrics are those of the replies. -/
structure Told (cfg : ModelConfig) (M : DraftModel) (s : Edge) : Prop where
  grpcCalls : s.stats.grpcCalls = (s.answers cfg M).length
  draftTokens : s.stats.draftTokens = ((s.answers cfg M).map fun a => a.draftTokens.length).sum

/-- Sending a Draft. -/
theorem told_send (h : Told cfg M s) (l : Link) (p : SpecParams) (dp : DraftParams) (base : ℤ)
    (tokens : List TokenFeatures) {c : Client Daemon} (hready : c.Ready session)
    (hanswers : c.net.served.filterMap (Served.answer cfg M) = s.answers cfg M) :
    Told cfg M (s.send (grpcDrafter (daemonStub cfg M l)) p dp base tokens c).1 := by
  have htally := send_tally (grpcDrafter (daemonStub cfg M l)) p dp base tokens c s
  obtain ⟨-, hnet, hres⟩ := client_draft (daemonStub cfg M l) hready (s.request p dp base tokens)
  let reply := (c.net.session.draft cfg M l.draft ((s.request p dp base tokens).toWire session)).1
  have hgrow : Edge.answers cfg M (s.send (grpcDrafter (daemonStub cfg M l)) p dp base tokens c).1 =
      s.answers cfg M ++ [reply] := by
    have hdaemon : Edge.daemon (s.send (grpcDrafter (daemonStub cfg M l)) p dp base tokens c).1 =
        c.net.draft cfg M l.draft ((s.request p dp base tokens).toWire session) := hnet
    rw [Edge.answers, hdaemon, Daemon.draft, List.filterMap_append, hanswers]
    rfl
  have hout : (s.send (grpcDrafter (daemonStub cfg M l)) p dp base tokens c).2.length = reply.draftTokens.length := by
    have hsend : (s.send (grpcDrafter (daemonStub cfg M l)) p dp base tokens c).2 =
        if reply.ok then reply.draftTokens else [] := by
      rw [Server.send, grpcDrafter]
      simp only [hres]
      rfl
    rw [hsend]
    split
    · rfl
    · rw [failed_no_tokens cfg M l.draft _ _ (by simpa using ‹¬reply.ok = true›)]
  refine ⟨?_, ?_⟩
  · rw [htally.grpcCalls, hgrow, h.grpcCalls, List.length_append, List.length_singleton]
  · rw [htally.draftTokens, hgrow, h.draftTokens, hout, List.map_append, List.sum_append, List.map_singleton,
      List.sum_singleton]

/-- Nothing was answered and nothing counted. -/
theorem Told.quiet (h : Told cfg M s) {s' : Edge} (htally : SameTally s.stats s'.stats)
    (hanswers : s'.answers cfg M = s.answers cfg M) : Told cfg M s' :=
  ⟨by rw [htally.grpcCalls, hanswers, h.grpcCalls], by rw [htally.draftTokens, hanswers, h.draftTokens]⟩

theorem told_draft (hlive : s.Live session) (h : Told cfg M s) (p : SpecParams) (dparams : List DraftParams) :
    Told cfg M (s.record cfg M p (.draft dparams)) := by
  rw [Edge.record, RecordEvent.edge, Edge.step]
  cases hdp : dparams.find? DraftParams.drafting with
  | none =>
    rw [draft_none _ p hdp]
    exact h
  | some dp =>
    obtain ⟨c, hc, hready, hnet⟩ := hlive.client
    cases hship : s.toShip dp.nPast with
    | none =>
      rw [draft_missing hlive _ p hdp hship]
      have hacc := account_tally dp.nPast s
      exact h.quiet ⟨hacc.grpcCalls, hacc.draftBlocks, hacc.fallbackSteps, hacc.connected, hacc.draftTokens⟩ rfl
    | some tokens =>
      cases hp : s.prefilled with
      | false =>
        rw [draft_eq_first _ p hc hdp hp hship]
        obtain ⟨hready', hnet', -⟩ := client_prefill (daemonStub cfg M (.lossless 0)) hready tokens true
        have hserved : (c.prefill (daemonStub cfg M (.lossless 0)) tokens true).1.net.served =
            s.daemon.served ++ [.prefill ⟨session, tokens, true⟩ (.succeed 0) s.daemon.session] := by
          rw [hnet', hnet]
          rfl
        refine told_send h (.lossless 0) p dp (dp.nPast - 1) [] hready' ?_
        rw [grpcDrafter, hserved, List.filterMap_append]
        exact List.append_nil _
      | true =>
        rw [draft_eq_later _ p hc hdp hp hship]
        refine told_send h (.lossless 0) p dp s.nSent tokens hready ?_
        rw [hnet]
        rfl

theorem told_step (hrec : Recorder cfg session s) (h : Told cfg M s) (nMax : ℤ) (en : Endian) (e : RecordEvent) :
    Told cfg M (s.record cfg M (handshake cfg nMax en) e) := by
  cases e with
  | process layerInp batch =>
    obtain ⟨-, hquiet⟩ := record_process hrec M nMax en layerInp batch
    refine h.quiet ?_ hquiet.answers
    rw [Edge.record, RecordEvent.edge, edge_process cfg M _ hrec.live layerInp batch]
    exact ⟨rfl, rfl, rfl, rfl, rfl⟩
  | begin prompt =>
    obtain ⟨-, hquiet⟩ := record_begin hrec M (handshake cfg nMax en) prompt
    refine h.quiet ?_ hquiet.answers
    obtain ⟨c, -, -, heq⟩ := begin_connected hrec.live (daemonStub cfg M (.lossless 0)) prompt
    have hstats : (s.record cfg M (handshake cfg nMax en) (.begin prompt)).stats = s.stats := by
      rw [Edge.record, RecordEvent.edge, Edge.step, heq]
    rw [hstats]
    exact ⟨rfl, rfl, rfl, rfl, rfl⟩
  | draft dparams => exact told_draft hrec.live h (handshake cfg nMax en) dparams

/-! ### A recorded run -/

theorem mem_draftsFrom_of_mem {reqs : List DraftRequest} {req : DraftRequest} (h : req ∈ reqs) (st : Engine) :
    ∃ c ∈ draftsFrom cfg M st reqs, c.1 = req := by
  induction reqs generalizing st with
  | nil => cases h
  | cons r reqs ih =>
    rw [draftsFrom]
    rcases List.mem_cons.mp h with rfl | hmem
    · exact ⟨_, List.mem_cons_self, rfl⟩
    · obtain ⟨c, hc, hreq⟩ := ih hmem (st.draft cfg M (.succeed 0) (.ofWire r)).2
      exact ⟨c, List.mem_cons_of_mem _ hc, hreq⟩

theorem Holds.answered {preq : PrefillRequest} {reqs : List DraftRequest} (h : Holds cfg M dir preq reqs) :
    dir.Answered := by
  intro name hname m hm
  rw [h.requestFiles_eq] at hname
  obtain ⟨req, hreq, rfl⟩ := List.mem_map.mp hname
  obtain ⟨c, hc, rfl⟩ := @mem_draftsFrom_of_mem cfg M reqs req hreq (afterPrompt cfg preq)
  rw [responseFile_requestName, h.response c hc] at hm
  exact ⟨_, (Option.some.inj hm).symm⟩

theorem onePrompt_answered (h : OnePrompt cfg M session s) (hgolden : s.golden = some dir) : dir.Answered := by
  obtain ⟨-, hun | ⟨dir', preq, reqs, hone⟩⟩ := h
  · cases hun.golden.symm.trans hgolden
    intro name hname
    cases hname
  · cases hone.golden.symm.trans hgolden
    exact hone.holds.answered

/-- A draft that matches itself does so over its whole length. -/
theorem sum_matched_self (as : List DraftResponse) :
    (∀ c ∈ as.map fun a => (a.draftTokens, a.draftTokens), c.1 = c.2) ∧
      ((as.map fun a => (a.draftTokens, a.draftTokens)).map fun c => c.1.length).sum =
        (as.map fun a => a.draftTokens.length).sum := by
  refine ⟨fun c hc => ?_, ?_⟩
  · obtain ⟨a, -, rfl⟩ := List.mem_map.mp hc
    rfl
  · rw [List.map_map]
    rfl

/-- RECORD, WRITE, READ, REPLAY: for every run in which nothing is lost, at most one prompt is shipped and no step
    id has more than four digits, whatever the latencies, as long as protobuf reads the recorded messages back from
    the bytes it wrote for them, the files are replayed to their end, no line says DIVERGES, all recorded tokens are
    matched, and the replay's totals are the server's own metrics. -/
theorem recorded_replays (pb : Protobuf) (cfg : ModelConfig) (M : DraftModel) (nMax : ℤ) (en : Endian) (session : ℕ)
    {es : List RecordEvent} {dir : GoldenDir} {us : FileName → ℕ}
    (hfit : Along (Edge.record cfg M (handshake cfg nMax en)) (StepsFit cfg M (handshake cfg nMax en))
      (.fresh session (some [])) es)
    (hsends : Along (Edge.record cfg M (handshake cfg nMax en)) SendsOnce (.fresh session (some [])) es)
    (hgolden : (exec (Edge.record cfg M (handshake cfg nMax en)) (.fresh session (some [])) es).golden = some dir)
    (hreads : dir.ReadsBack pb us) :
    let s := exec (Edge.record cfg M (handshake cfg nMax en)) (.fresh session (some [])) es
    ∃ r, replayFiles pb cfg M (fun _ => .succeed 0) (some (dir.files pb us)) .fresh = .ok r ∧
      (∀ l ∈ r.lines, l.diverges = false) ∧ r.totalMatch = r.totalExpected ∧
      r.totalExpected = s.stats.draftTokens ∧ r.steps = s.stats.grpcCalls := by
  intro s
  have hone : OnePrompt cfg M session s := by
    refine exec_inv (OnePrompt cfg M session) (fun s e h he => onePrompt_step h he.1 he.2)
      ⟨fresh_recorder cfg session _, Or.inl ⟨rfl, rfl, rfl, rfl, rfl, rfl⟩⟩
      (along_and (Edge.record cfg M (handshake cfg nMax en)) hfit hsends)
  have htold : Recorder cfg session s ∧ Told cfg M s := by
    refine exec_inv_free (fun s => Recorder cfg session s ∧ Told cfg M s) (fun s e h => ?_)
      ⟨fresh_recorder cfg session _, rfl, rfl⟩ es
    exact ⟨(record_cases h.1 M nMax en e).1, told_step h.1 h.2 nMax en e⟩
  obtain ⟨dir', r, hdir', hreplay, -, hcompared⟩ := onePrompt_faithful hone
  cases hdir'.symm.trans hgolden
  obtain ⟨f, hf, hmirror⟩ := files_mirrored hreads (onePrompt_answered hone hgolden) hreplay
  have hcount := replay_counted hf
  have hpairs : f.compared = (s.answers cfg M).map fun a => (a.draftTokens, a.draftTokens) := by
    rw [hmirror.compared, hcompared, List.filterMap_map]
    exact congrFun List.filterMap_eq_map _
  obtain ⟨hself, hsum⟩ := sum_matched_self (s.answers cfg M)
  have hexpected : f.totalExpected = s.stats.draftTokens := by rw [hcount.expected, hpairs, hsum, htold.2.draftTokens]
  refine ⟨f, hf, hcount.no_divergence.mpr (hpairs ▸ hself), ?_, hexpected, ?_⟩
  · rw [hcount.matched, hcount.expected, (sum_matched f.compared).2, hpairs]
    intro c hc
    rw [hself c hc]
  · rw [hmirror.steps, hcompared, List.length_map, htold.2.grpcCalls]

/-- What the first generation of `twoRecorded` leaves. -/
def smallRecording : GoldenDir :=
  [(responseName 1, .response { sessionId := 1, stepId := 1, draftTokens := [5], draftLogprobs := [0], ok := true }),
    (requestName 1, .request ⟨1, 1, [], 0, 4, true, 9⟩), (prefillName 0, .prefill ⟨1, [⟨1, 0, [0, 0]⟩], true⟩)]

/-- Its messages, a latency of 3 in the response, and their bytes. -/
def smallProtobuf : Protobuf where
  initSessionResponse := .single {} []
  prefillRequest := .single ⟨1, [⟨1, 0, [0, 0]⟩], true⟩ [8, 1, 18, 6, 8, 1, 26, 2, 0, 0, 24, 1]
  draftRequest := .single ⟨1, 1, [], 0, 4, true, 9⟩ [8, 1, 16, 1, 40, 4, 48, 1, 56, 9]
  draftResponse := .single
    ({ sessionId := 1, stepId := 1, draftTokens := [5], draftLogprobs := [0], ok := true }, 3)
    [8, 1, 16, 1, 26, 1, 5, 34, 4, 0, 0, 0, 0, 48, 3, 56, 1]

theorem smallRecording_readsBack : smallRecording.ReadsBack smallProtobuf fun _ => 3 := by
  rw [GoldenDir.ReadsBack, smallRecording, List.forall_mem_cons, List.forall_mem_cons, List.forall_mem_singleton]
  exact ⟨Codec.single_readsBack _ _, Codec.single_readsBack _ _, Codec.single_readsBack _ _⟩

theorem recorded_replays_small :
    ∃ r, replayFiles smallProtobuf smallConfig (constModel [5]) (fun _ => .succeed 0)
        (some (smallRecording.files smallProtobuf fun _ => 3)) .fresh = .ok r ∧
      (∀ l ∈ r.lines, l.diverges = false) ∧ r.totalMatch = r.totalExpected ∧ r.totalExpected = 1 ∧ r.steps = 1 :=
  @recorded_replays smallProtobuf smallConfig (constModel [5]) 4 .little 1 (twoRecorded.take 3) smallRecording
    (fun _ => 3) (by decide) ⟨trivial, trivial, fun _ _ _ _ => by decide, trivial⟩ (by decide)
    smallRecording_readsBack

end DsparkEdge
