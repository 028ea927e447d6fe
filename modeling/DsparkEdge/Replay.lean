import DsparkEdge.EngineRuns
import DsparkEdge.Golden

/-! `replay_golden` (`replay_mode.cpp`): play a golden directory on one engine, all prefills first and
    then all requests, each kind in the order of the file names, and compare every draft with the response
    recorded beside its request.

        prefill files ─sorted─▶ engine.prefill …      a failing one ends the replay
        request files ─sorted─▶ engine.draft  …       ═ response file

    A directory that holds one prompt and the steps behind it, ids increasing, is played back as it was. -/

namespace DsparkEdge

/-- A call of the engine. -/
inductive EngineCall where
  | prefill (tokens : List TokenFeatures)
  | draft (req : StepRequest)
  deriving DecidableEq, Repr

def EngineCall.isPrefill : EngineCall → Bool
  | .prefill _ => true
  | .draft _ => false

/-- The engine under replay; as ghosts the calls it went through, each with the engine it met, and the
    drafts with the responses they were compared with. -/
structure Replay where
  engine : Engine
  played : List (EngineCall × Engine)
  compared : List (DraftResponse × Option DraftResponse)
  deriving DecidableEq

/-- One prefill file. `none` ends the replay. -/
def Replay.prefill (cfg : ModelConfig) (dir : GoldenDir) (r : Replay) (name : FileName) :
    Option Replay :=
  match dir.read name with
  | some (.prefill req) =>
    let out := r.engine.prefill cfg (.succeed 0) req.tokens
    if out.1 then
      some ⟨out.2.2, r.played ++ [(.prefill req.tokens, r.engine)], r.compared⟩
    else none
  | _ => none

/-- The golden response beside a request file, if present. -/
def goldenResponse (dir : GoldenDir) (name : FileName) : Option DraftResponse :=
  match dir.read (responseFile name) with
  | some (.response m) => some m
  | _ => none

/-- One request file. -/
def Replay.request (cfg : ModelConfig) (M : DraftModel) (dir : GoldenDir) (r : Replay)
    (name : FileName) : Option Replay :=
  match dir.read name with
  | some (.request req) =>
    let out := r.engine.draft cfg M (.succeed 0) (.ofWire req)
    some ⟨out.2, r.played ++ [(.draft (.ofWire req), r.engine)],
      r.compared ++ [(out.1, goldenResponse dir name)]⟩
  | _ => none

def replayGolden (cfg : ModelConfig) (M : DraftModel) (dir : GoldenDir) (engine : Engine) :
    Option Replay := do
  let r ← (prefillFiles dir).foldlM (Replay.prefill cfg dir) ⟨engine, [], []⟩
  (requestFiles dir).foldlM (Replay.request cfg M dir) r

variable {cfg : ModelConfig} {M : DraftModel} {dir : GoldenDir}

/-! ### The order of a replay -/

/-- No prefill comes after a draft. -/
def PrefillsFirst (calls : List (EngineCall × Engine)) : Prop :=
  (calls.map fun c => c.1.isPrefill).Pairwise fun a b => b = true → a = true

instance (calls : List (EngineCall × Engine)) : Decidable (PrefillsFirst calls) :=
  inferInstanceAs (Decidable (List.Pairwise _ _))

theorem prefill_played {r r' : Replay} {name : FileName} (h : r.prefill cfg dir name = some r') :
    ∃ c, r'.played = r.played ++ [c] ∧ c.1.isPrefill = true := by
  unfold Replay.prefill at h
  split at h
  · simp only at h
    split at h
    · cases Option.some.inj h
      exact ⟨_, rfl, rfl⟩
    · cases h
  · cases h

theorem request_played {r r' : Replay} {name : FileName} (h : r.request cfg M dir name = some r') :
    ∃ c, r'.played = r.played ++ [c] ∧ c.1.isPrefill = false := by
  unfold Replay.request at h
  split at h
  · cases Option.some.inj h
    exact ⟨_, rfl, rfl⟩
  · cases h

/-- A pass over some files plays calls of one kind. -/
theorem foldlM_played {f : Replay → FileName → Option Replay} {kind : Bool}
    (hf : ∀ r r' name, f r name = some r' → ∃ c, r'.played = r.played ++ [c] ∧ c.1.isPrefill = kind)
    {names : List FileName} {r r' : Replay} (h : names.foldlM f r = some r') :
    ∃ more, r'.played = r.played ++ more ∧ ∀ c ∈ more, c.1.isPrefill = kind := by
  induction names generalizing r with
  | nil =>
    cases Option.some.inj h
    exact ⟨[], by simp, by simp⟩
  | cons name names ih =>
    rw [List.foldlM_cons] at h
    obtain ⟨r₁, hstep, hrest⟩ := Option.bind_eq_some_iff.mp h
    obtain ⟨c, hc, hkind⟩ := hf r r₁ name hstep
    obtain ⟨more, hmore, hall⟩ := ih hrest
    refine ⟨c :: more, by simp [hmore, hc], ?_⟩
    intro d hd
    rcases List.mem_cons.mp hd with rfl | hd
    · exact hkind
    · exact hall d hd

theorem PrefillsFirst.of_append {calls more : List (EngineCall × Engine)}
    (h : PrefillsFirst (calls ++ more)) : PrefillsFirst calls := by
  rw [PrefillsFirst, List.map_append, List.pairwise_append] at h
  exact h.1

/-- Whatever a directory holds, its prefills are played before its drafts. -/
theorem replay_prefillsFirst {engine : Engine} {r : Replay}
    (h : replayGolden cfg M dir engine = some r) : PrefillsFirst r.played := by
  obtain ⟨r₁, hprefills, hrequests⟩ := Option.bind_eq_some_iff.mp h
  obtain ⟨ps, hps, hallps⟩ := foldlM_played (fun _ _ _ => prefill_played) hprefills
  obtain ⟨ds, hds, hallds⟩ := foldlM_played (fun _ _ _ => request_played) hrequests
  rw [PrefillsFirst, hds, hps, List.nil_append, List.map_append, List.pairwise_append]
  refine ⟨?_, ?_, ?_⟩
  · rw [List.pairwise_map]
    exact List.pairwise_of_forall_mem_list fun a ha b _ _ => hallps a ha
  · rw [List.pairwise_map]
    refine List.pairwise_of_forall_mem_list fun a _ b hb htrue => ?_
    rw [hallds b hb] at htrue
    cases htrue
  · intro a ha _ _ _
    obtain ⟨c, hc, rfl⟩ := List.mem_map.mp ha
    exact hallps c hc

/-! ### Playing back one prompt -/

/-- The drafts of a list of requests, each with the engine it meets. -/
def draftsFrom (cfg : ModelConfig) (M : DraftModel) :
    Engine → List DraftRequest → List (DraftRequest × Engine)
  | _, [] => []
  | st, req :: reqs =>
    (req, st) :: draftsFrom cfg M (st.draft cfg M (.succeed 0) (.ofWire req)).2 reqs

/-- The engine behind them. -/
def afterDrafts (cfg : ModelConfig) (M : DraftModel) (st : Engine) (reqs : List DraftRequest) : Engine :=
  reqs.foldl (fun st req => (st.draft cfg M (.succeed 0) (.ofWire req)).2) st

/-- What a draft of `draftsFrom` answers. -/
def answerOf (cfg : ModelConfig) (M : DraftModel) (c : DraftRequest × Engine) : DraftResponse :=
  (c.2.draft cfg M (.succeed 0) (.ofWire c.1)).1

/-- A draft of `draftsFrom` as a call. -/
def callOf (c : DraftRequest × Engine) : EngineCall × Engine := (.draft (.ofWire c.1), c.2)

theorem afterDrafts_snoc (st : Engine) (reqs : List DraftRequest) (req : DraftRequest) :
    afterDrafts cfg M st (reqs ++ [req]) =
      ((afterDrafts cfg M st reqs).draft cfg M (.succeed 0) (.ofWire req)).2 := by
  rw [afterDrafts, List.foldl_append]; rfl

theorem draftsFrom_snoc (req : DraftRequest) (reqs : List DraftRequest) (st : Engine) :
    draftsFrom cfg M st (reqs ++ [req]) =
      draftsFrom cfg M st reqs ++ [(req, afterDrafts cfg M st reqs)] := by
  induction reqs generalizing st with
  | nil => rfl
  | cons r reqs ih =>
    rw [List.cons_append, draftsFrom, ih]; rfl

theorem mem_draftsFrom {reqs : List DraftRequest} {st : Engine} {c : DraftRequest × Engine}
    (h : c ∈ draftsFrom cfg M st reqs) : c.1 ∈ reqs := by
  induction reqs generalizing st with
  | nil => cases h
  | cons r reqs ih =>
    rcases List.mem_cons.mp h with rfl | h
    · exact List.mem_cons_self
    · exact List.mem_cons_of_mem r (ih h)

/-- The engine behind the prompt. -/
def afterPrompt (cfg : ModelConfig) (preq : PrefillRequest) : Engine :=
  (Engine.fresh.prefill cfg (.succeed 0) preq.tokens).2.2

/-- The directory holds one prompt and the steps behind it, ids increasing. -/
structure Holds (cfg : ModelConfig) (M : DraftModel) (dir : GoldenDir) (preq : PrefillRequest)
    (reqs : List DraftRequest) : Prop where
  names : dir.names.Perm (prefillName 0 ::
    reqs.flatMap fun req => [responseName req.stepId, requestName req.stepId])
  prefill : dir.read (prefillName 0) = some (.prefill preq)
  request : ∀ req ∈ reqs, dir.read (requestName req.stepId) = some (.request req)
  response : ∀ c ∈ draftsFrom cfg M (afterPrompt cfg preq) reqs,
    dir.read (responseName c.1.stepId) = some (.response (answerOf cfg M c))
  order : reqs.Pairwise fun a b => a.stepId < b.stepId
  fit : ∀ req ∈ reqs, req.stepId < 10 ^ 4

section Holds

variable {preq : PrefillRequest} {reqs : List DraftRequest}

theorem stepFiles_map (reqs : List DraftRequest) : stepFiles (reqs.map DraftRequest.stepId) =
    reqs.flatMap fun req => [responseName req.stepId, requestName req.stepId] :=
  List.flatMap_map _ _ _

theorem Holds.prefillFiles_eq (h : Holds cfg M dir preq reqs) : prefillFiles dir = [prefillName 0] := by
  refine sorted_names ((h.names.filter _).trans (.of_eq ?_)) (List.pairwise_singleton _ _)
  rw [List.filter_cons_of_pos (isPrefillFile_prefillName 0), ← stepFiles_map, stepFiles_prefills]

theorem Holds.requestFiles_eq (h : Holds cfg M dir preq reqs) :
    requestFiles dir = reqs.map fun req => requestName req.stepId := by
  refine sorted_names ((h.names.filter _).trans (.of_eq ?_)) ?_
  · rw [List.filter_cons_of_neg (by simp), ← stepFiles_map, stepFiles_requests, List.map_map]
    rfl
  · rw [List.pairwise_map]
    exact h.order.imp_of_mem fun _ hk hlt => requestName_lt hlt (h.fit _ hk)

/-- The requests are played one after the other, each beside its own response. -/
theorem foldlM_requests : ∀ {reqs : List DraftRequest} {r : Replay},
    (∀ req ∈ reqs, dir.read (requestName req.stepId) = some (.request req)) →
    (∀ c ∈ draftsFrom cfg M r.engine reqs,
      dir.read (responseName c.1.stepId) = some (.response (answerOf cfg M c))) →
    (reqs.map fun req => requestName req.stepId).foldlM (Replay.request cfg M dir) r =
      some ⟨afterDrafts cfg M r.engine reqs, r.played ++ (draftsFrom cfg M r.engine reqs).map callOf,
        r.compared ++ (draftsFrom cfg M r.engine reqs).map fun c =>
          (answerOf cfg M c, some (answerOf cfg M c))⟩
  | [], r, _, _ => by simp [draftsFrom, afterDrafts]
  | req :: reqs, r, hreq, hresp => by
    have hstep : r.request cfg M dir (requestName req.stepId) =
        some ⟨(r.engine.draft cfg M (.succeed 0) (.ofWire req)).2, r.played ++ [callOf (req, r.engine)],
          r.compared ++ [(answerOf cfg M (req, r.engine), some (answerOf cfg M (req, r.engine)))]⟩ := by
      rw [Replay.request, hreq req List.mem_cons_self]
      simp only [goldenResponse, responseFile_requestName, hresp _ List.mem_cons_self]
      rfl
    rw [List.map_cons, List.foldlM_cons, hstep, Option.bind_eq_bind, Option.bind_some,
      foldlM_requests (fun req' h => hreq req' (List.mem_cons_of_mem _ h))
        fun c h => hresp c (List.mem_cons_of_mem _ h)]
    simp [draftsFrom, afterDrafts]

/-- A directory that holds one prompt and its steps is played back as they were. -/
theorem replay_holds (h : Holds cfg M dir preq reqs)
    (hok : (Engine.fresh.prefill cfg (.succeed 0) preq.tokens).1 = true) :
    replayGolden cfg M dir .fresh = some ⟨afterDrafts cfg M (afterPrompt cfg preq) reqs,
      (.prefill preq.tokens, .fresh) :: (draftsFrom cfg M (afterPrompt cfg preq) reqs).map callOf,
      (draftsFrom cfg M (afterPrompt cfg preq) reqs).map fun c =>
        (answerOf cfg M c, some (answerOf cfg M c))⟩ := by
  have hprefill : Replay.prefill cfg dir ⟨.fresh, [], []⟩ (prefillName 0) =
      some ⟨afterPrompt cfg preq, [(.prefill preq.tokens, .fresh)], []⟩ := by
    rw [Replay.prefill, h.prefill]
    simp only [hok, if_true]
    rfl
  rw [replayGolden, h.prefillFiles_eq, h.requestFiles_eq, List.foldlM_cons, hprefill]
  exact foldlM_requests h.request h.response

/-- The first file of a recording is its prompt. -/
theorem holds_prompt (preq : PrefillRequest) :
    Holds cfg M (GoldenDir.write (prefillName 0) (.prefill preq) []) preq [] where
  names := .refl _
  prefill := read_write_self _ _ _
  request := by simp
  response := by simp [draftsFrom]
  order := .nil
  fit := by simp

/-- The names a recording has not used yet. -/
theorem Holds.not_mem_names (h : Holds cfg M dir preq reqs) {name : FileName}
    (hprefill : name ≠ prefillName 0)
    (hsteps : ∀ r ∈ reqs, name ≠ responseName r.stepId ∧ name ≠ requestName r.stepId) :
    name ∉ dir.names := by
  intro hmem
  rcases List.mem_cons.mp (h.names.mem_iff.mp hmem) with heq | hmem
  · exact hprefill heq
  · obtain ⟨r, hr, hname⟩ := List.mem_flatMap.mp hmem
    obtain ⟨hresp, hreq⟩ := hsteps r hr
    rcases List.mem_pair.mp hname with heq | heq
    · exact hresp heq
    · exact hreq heq

/-- A step past the others is recorded behind them. -/
theorem holds_snoc (h : Holds cfg M dir preq reqs) {req : DraftRequest}
    (hlast : ∀ r ∈ reqs, r.stepId < req.stepId) (hfit : req.stepId < 10 ^ 4) :
    Holds cfg M ((dir.write (requestName req.stepId) (.request req)).write (responseName req.stepId)
      (.response (answerOf cfg M (req, afterDrafts cfg M (afterPrompt cfg preq) reqs)))) preq
      (reqs ++ [req]) := by
  have hreq : requestName req.stepId ∉ dir.names :=
    h.not_mem_names (prefill_ne_request 0 _).symm fun r hr =>
      ⟨request_ne_response _ _, mt requestName_injective (hlast r hr).ne'⟩
  have hresp : responseName req.stepId ∉ dir.names :=
    h.not_mem_names (prefill_ne_response 0 _).symm fun r hr =>
      ⟨mt responseName_injective (hlast r hr).ne', (request_ne_response _ _).symm⟩
  have hresp' : responseName req.stepId ∉
      (dir.write (requestName req.stepId) (.request req)).names := by
    rw [names_write hreq]
    exact List.not_mem_cons_of_ne_of_not_mem (request_ne_response _ _).symm hresp
  have hread : ∀ name, name ≠ requestName req.stepId → name ≠ responseName req.stepId →
      GoldenDir.read name ((dir.write (requestName req.stepId) (.request req)).write
        (responseName req.stepId)
        (.response (answerOf cfg M (req, afterDrafts cfg M (afterPrompt cfg preq) reqs)))) =
      dir.read name := by
    intro name hne hne'
    rw [read_write_ne hne', read_write_ne hne]
  refine ⟨?_, ?_, ?_, ?_, ?_, ?_⟩
  · rw [names_write hresp', names_write hreq, List.flatMap_append, List.flatMap_singleton]
    exact (h.names.append_left [responseName req.stepId, requestName req.stepId]).trans
      List.perm_append_comm
  · rw [hread _ (prefill_ne_request 0 _) (prefill_ne_response 0 _), h.prefill]
  · intro r hr
    rcases List.mem_append.mp hr with hr | hr
    · rw [hread _ (mt requestName_injective (hlast r hr).ne) (request_ne_response _ _), h.request r hr]
    · rw [List.mem_singleton.mp hr, read_write_ne (request_ne_response _ _), read_write_self]
  · intro c hc
    rw [draftsFrom_snoc] at hc
    rcases List.mem_append.mp hc with hc | hc
    · rw [hread _ (request_ne_response _ _).symm (mt responseName_injective (hlast _ (mem_draftsFrom hc)).ne),
        h.response c hc]
    · rw [List.mem_singleton.mp hc, read_write_self]
  · rw [List.pairwise_append]
    refine ⟨h.order, List.pairwise_singleton _ _, fun r hr r' hr' => ?_⟩
    rw [List.mem_singleton.mp hr']
    exact hlast r hr
  · intro r hr
    rcases List.mem_append.mp hr with hr | hr
    · exact h.fit r hr
    · rw [List.mem_singleton.mp hr]
      exact hfit

end Holds

end DsparkEdge
