import DsparkEdge.Daemon
import DsparkEdge.EngineSpec
import DsparkEdge.Lib.Runs

/-! Several generations on one session, where a Reset may be lost. `begin` restarts the server half
    whatever becomes of its Reset; the daemon half keeps its cells and its last step id until a Reset
    arrives. A session that served a Draft of an earlier generation since its last Reset is *carried
    over*: the next generation's first Draft has step id 1 and is refused as stale.

        generation 1   Draft 1 … Draft n             last_step_id = n ≥ 1
        begin          Reset ─✗                      step_id = 0
        generation 2   Prefill onto the old cells, Draft 1 ≤ n: stale

    Every call is labelled with the generation it belongs to, and so are the cells it decodes; the label
    is a ghost. -/

namespace DsparkEdge

open Runs

structure Generations where
  edge : Edge
  gen : ℕ

def Generations.fresh (session : ℕ) : Generations := ⟨.fresh session none, 0⟩

/-- Label the calls with their generation. -/
def Link.tag (gen : ℕ) (l : Link) : Link :=
  { l with prefill := { l.prefill with gen := gen }, draft := { l.draft with gen := gen } }

def Generations.step (cfg : ModelConfig) (M : DraftModel) (p : SpecParams) (g : Generations) :
    EdgeEvent → Generations
  | .process layerInp batch => { g with edge := g.edge.step cfg M p (.process layerInp batch) }
  | .begin l prompt => ⟨g.edge.step cfg M p (.begin l prompt), g.gen + 1⟩
  | .draft l dparams => { g with edge := g.edge.step cfg M p (.draft (l.tag g.gen) dparams) }

/-- The calls the daemon handled since its last Reset. -/
def Edge.sinceReset (s : Edge) : List Served := since Served.isReset s.daemon.served

/-- The call is a Draft, and the generation it belongs to. -/
def Served.draftGen : Served → Option ℕ
  | .draft _ calls _ => some calls.gen
  | _ => none

/-- The session served a Draft of an earlier generation since its last Reset. -/
def Generations.CarriedOver (g : Generations) : Prop :=
  ∃ e ∈ g.edge.sinceReset, ∃ n, e.draftGen = some n ∧ n < g.gen

/-- A Draft of this generation is answered as if there had been no other: it is not stale, and if it is
    answered ok, no cell of an earlier generation was in the cache when its block was decoded. -/
def Isolated (cfg : ModelConfig) (M : DraftModel) (gen : ℕ) : Served → Prop
  | .draft req calls before =>
    before.lastStepId < req.stepId ∧
    ((before.draft cfg M calls req).1.ok = true →
      ∀ c ∈ (before.engine.accept cfg calls req.acceptedTokens).2.cells, ¬c.val.gen < gen)
  | _ => True

/-- Every Draft handled in the call of `draft()` is isolated. -/
def DraftsIsolated (cfg : ModelConfig) (M : DraftModel) (p : SpecParams) (g : Generations) :
    EdgeEvent → Prop
  | .draft l dparams =>
    ∀ e ∈ (g.step cfg M p (.draft l dparams)).edge.daemon.served.drop g.edge.daemon.served.length,
      Isolated cfg M g.gen e
  | _ => True

/-- A call of `draft()` that sends does not meet a carried-over session. -/
def MeetsOwnSession (g : Generations) : EdgeEvent → Prop
  | .draft _ dparams => ∀ dp, dparams.find? DraftParams.drafting = some dp →
      (g.edge.toShip dp.nPast).isSome → ¬g.CarriedOver
  | _ => True

/-- The two halves of a session: without a Draft since the last Reset it is empty; its Drafts are of no
    later generation; not carried over, it holds this generation's cells and the server's step ids;
    carried over, the server has not sent yet. -/
structure Coherent (session : ℕ) (g : Generations) : Prop where
  live : g.edge.Live session
  empty : (∀ e ∈ g.edge.sinceReset, e.draftGen = none) →
    g.edge.daemon.session.engine.cells = [] ∧ g.edge.daemon.session.lastStepId = 0
  used : ∀ e ∈ g.edge.sinceReset, ∀ n, e.draftGen = some n →
    n ≤ g.gen ∧ 1 ≤ g.edge.daemon.session.lastStepId
  own : ¬g.CarriedOver → AllGen g.gen g.edge.daemon.session.engine.cells ∧
    g.edge.daemon.session.lastStepId ≤ g.edge.stepId
  carried : g.CarriedOver → g.edge.prefilled = false ∧ g.edge.stepId = 0

variable {cfg : ModelConfig} {M : DraftModel} {p : SpecParams} {session : ℕ} {g : Generations}

theorem fresh_coherent (session : ℕ) : Coherent session (.fresh session) where
  live := edge_fresh_live session none
  empty := fun _ => ⟨rfl, rfl⟩
  used := fun e he => by cases he
  own := by
    intro _
    refine ⟨?_, le_rfl⟩
    intro c hc; cases hc
  carried := by
    rintro ⟨e, he, -⟩
    cases he

/-- A lost Reset leaves the session as it is, carried over if it was used at all. -/
theorem coherent_begin (h : Coherent session g) (l : Link) (prompt : List ℤ) :
    Coherent session (g.step cfg M p (.begin l prompt)) := by
  have hb := edge_begin cfg M p h.live l prompt
  rcases eq_or_ne l.reset .delivered with hreset | hlost
  · have hd : (g.step cfg M p (.begin l prompt)).edge.daemon = g.edge.daemon.reset :=
      hb.daemon.trans (if_pos hreset)
    have hsince : (g.step cfg M p (.begin l prompt)).edge.sinceReset = [] := by
      rw [Edge.sinceReset, hd]
      exact since_append_mark Served.isReset _ rfl
    have hnot : ¬(g.step cfg M p (.begin l prompt)).CarriedOver := by
      rintro ⟨e, he, -⟩
      rw [hsince] at he; cases he
    refine ⟨hb.live, fun _ => ?_, ?_, fun _ => ?_, fun hc => absurd hc hnot⟩
    · rw [hd]; exact ⟨rfl, rfl⟩
    · intro e he
      rw [hsince] at he; cases he
    · rw [hd]
      exact ⟨fun c hc => (by cases hc), Nat.zero_le _⟩
  · have hd : (g.step cfg M p (.begin l prompt)).edge.daemon = g.edge.daemon :=
      hb.daemon.trans (if_neg hlost)
    have hsince : (g.step cfg M p (.begin l prompt)).edge.sinceReset = g.edge.sinceReset := by
      rw [Edge.sinceReset, hd, Edge.sinceReset]
    refine ⟨hb.live, ?_, ?_, ?_, fun _ => ⟨hb.prefilled, hb.stepId⟩⟩
    · rw [hsince, hd]; exact h.empty
    · rw [hsince, hd]
      intro e he n hn
      obtain ⟨hle, hlast⟩ := h.used e he n hn
      exact ⟨Nat.le_succ_of_le hle, hlast⟩
    · intro hnot
      have hnone : ∀ e ∈ g.edge.sinceReset, e.draftGen = none := by
        intro e he
        cases hgen : e.draftGen with
        | none => rfl
        | some n =>
          obtain ⟨hle, -⟩ := h.used e he n hgen
          exact absurd ⟨e, by rw [hsince]; exact he, n, hgen, Nat.lt_succ_of_le hle⟩ hnot
      obtain ⟨hcells, hlast⟩ := h.empty hnone
      rw [hd, hcells, hlast]
      exact ⟨fun c hc => (by cases hc), Nat.zero_le _⟩

/-- What a call of `draft()` that sends does to a session of its own generation. -/
theorem coherent_handled (h : Coherent session g) (hown : ¬g.CarriedOver) {l : Link}
    {dparams : List DraftParams} {dp : DraftParams} {req : DraftRequest} {d : Daemon}
    (served : List Served) (hserved : d.served = g.edge.daemon.served ++ served)
    (hdrafts : ∀ e ∈ served, e.isReset = false ∧ e.draftGen = none)
    (hlast : d.session.lastStepId = g.edge.daemon.session.lastStepId)
    (hcells : AllGen g.gen d.session.engine.cells) (hreq : req.stepId = g.edge.stepId + 1)
    (hs : Handled cfg M session dp (l.tag g.gen).draft req d g.edge
      (g.edge.draft (grpcDrafter (daemonStub cfg M (l.tag g.gen))) p dparams)) :
    Coherent session (g.step cfg M p (.draft l dparams)) ∧
      DraftsIsolated cfg M p g (.draft l dparams) := by
  obtain ⟨hgens, hle⟩ := h.own hown
  have hfresh : d.session.lastStepId < req.stepId := by omega
  have hd : (g.step cfg M p (.draft l dparams)).edge.daemon = d.draft cfg M (l.tag g.gen).draft req :=
    hs.daemon
  have hlog : (g.step cfg M p (.draft l dparams)).edge.daemon.served =
      g.edge.daemon.served ++ (served ++ [.draft req (l.tag g.gen).draft d.session]) := by
    rw [hd, ← List.append_assoc, ← hserved]; rfl
  have hsince : (g.step cfg M p (.draft l dparams)).edge.sinceReset =
      g.edge.sinceReset ++ (served ++ [.draft req (l.tag g.gen).draft d.session]) := by
    rw [Edge.sinceReset, hlog, since_append]
    · rfl
    · intro e he
      rcases List.mem_append.mp he with he | he
      · exact (hdrafts e he).1
      · rw [List.mem_singleton.mp he]; rfl
  have hsession : (g.step cfg M p (.draft l dparams)).edge.daemon.session =
      ⟨(d.session.engine.draft cfg M (l.tag g.gen).draft (.ofWire req)).2, req.stepId⟩ := by
    rw [hd, Daemon.draft]
    simp only [draft_executed cfg M (l.tag g.gen).draft hfresh]
  have hgen : ∀ e ∈ (g.step cfg M p (.draft l dparams)).edge.sinceReset, ∀ n, e.draftGen = some n →
      e ∈ g.edge.sinceReset ∨ n = g.gen := by
    intro e he n hn
    rw [hsince] at he
    rcases List.mem_append.mp he with he | he
    · exact Or.inl he
    · rcases List.mem_append.mp he with he | he
      · rw [(hdrafts e he).2] at hn; cases hn
      · rw [List.mem_singleton.mp he] at hn
        exact Or.inr (Option.some.inj hn).symm
  have hown' : ¬(g.step cfg M p (.draft l dparams)).CarriedOver := by
    rintro ⟨e, he, n, hn, hlt⟩
    rcases hgen e he n hn with he | rfl
    · exact hown ⟨e, he, n, hn, hlt⟩
    · exact absurd hlt (lt_irrefl _)
  refine ⟨⟨hs.live, fun hnone => ?_, ?_, fun _ => ?_, fun hc => absurd hc hown'⟩, ?_⟩
  · have hmem : Served.draft req (l.tag g.gen).draft d.session ∈
        (g.step cfg M p (.draft l dparams)).edge.sinceReset := by
      rw [hsince]; simp
    cases hnone _ hmem
  · intro e he n hn
    rw [hsession]
    rcases hgen e he n hn with he | rfl
    · exact ⟨(h.used e he n hn).1, by simp only; omega⟩
    · exact ⟨le_rfl, by simp only; omega⟩
  · rw [hsession]
    have hcells' : AllGen (l.tag g.gen).draft.gen d.session.engine.cells := hcells
    refine ⟨draft_gen cfg M _ hcells', ?_⟩
    have hstep : (g.step cfg M p (.draft l dparams)).edge.stepId = g.edge.stepId + 1 := hs.stepId
    simp only; omega
  · intro e he
    rw [hlog, List.drop_left] at he
    rcases List.mem_append.mp he with he | he
    · have := (hdrafts e he).2
      cases e with
      | draft req calls before => cases this
      | prefill req calls before => exact trivial
      | reset before => exact trivial
    · rw [List.mem_singleton.mp he]
      refine ⟨hfresh, fun _ c hc hlt => ?_⟩
      have hcells' : AllGen (l.tag g.gen).draft.gen d.session.engine.cells := hcells
      have hgen : c.val.gen = g.gen := accept_gen cfg req.acceptedTokens hcells' c hc
      omega

/-- The first Draft of a generation is stale on a carried-over session. -/
theorem stale_when_carried (h : Coherent session g) (hc : g.CarriedOver) {l : Link}
    {dparams : List DraftParams} {dp : DraftParams} {tokens : List TokenFeatures}
    (hs : Handled cfg M session dp (l.tag g.gen).draft
      (wireRequest p session (g.edge.stepId + 1) dp (dp.nPast - 1) [])
      (g.edge.daemon.prefill cfg (l.tag g.gen).prefill ⟨session, tokens, true⟩) g.edge
      (g.edge.draft (grpcDrafter (daemonStub cfg M (l.tag g.gen))) p dparams)) :
    ¬DraftsIsolated cfg M p g (.draft l dparams) := by
  intro hiso
  obtain ⟨-, hzero⟩ := h.carried hc
  obtain ⟨e, he, n, hn, -⟩ := hc
  obtain ⟨-, hlast⟩ := h.used e he n hn
  have hlog : (g.step cfg M p (.draft l dparams)).edge.daemon.served = g.edge.daemon.served ++
      [.prefill ⟨session, tokens, true⟩ (l.tag g.gen).prefill g.edge.daemon.session,
        .draft (wireRequest p session (g.edge.stepId + 1) dp (dp.nPast - 1) []) (l.tag g.gen).draft
          (g.edge.daemon.prefill cfg (l.tag g.gen).prefill ⟨session, tokens, true⟩).session] := by
    have hd : (g.step cfg M p (.draft l dparams)).edge.daemon = _ := hs.daemon
    rw [hd, Daemon.draft, Daemon.prefill]
    simp
  obtain ⟨hfresh, -⟩ : Isolated cfg M g.gen (.draft
      (wireRequest p session (g.edge.stepId + 1) dp (dp.nPast - 1) []) (l.tag g.gen).draft
      (g.edge.daemon.prefill cfg (l.tag g.gen).prefill ⟨session, tokens, true⟩).session) :=
    hiso _ (by rw [hlog, List.drop_left]; simp)
  have hkeep : (g.edge.daemon.prefill cfg (l.tag g.gen).prefill ⟨session, tokens, true⟩).session.lastStepId =
      g.edge.daemon.session.lastStepId := rfl
  simp only [wireRequest] at hfresh
  omega

theorem coherent_process (h : Coherent session g) (layerInp : LayerInp) (batch : LlamaBatch) :
    Coherent session (g.step cfg M p (.process layerInp batch)) := by
  have hstep := edge_process cfg M p h.live layerInp batch
  have hlive : (g.edge.step cfg M p (.process layerInp batch)).Live session := by
    rw [hstep]
    exact h.live.stored _
  refine ⟨hlive, ?_, ?_, ?_, ?_⟩
  all_goals simp only [Generations.step, hstep]
  · exact h.empty
  · exact h.used
  · exact h.own
  · exact h.carried

/-- A call of `draft()` in which the daemon handles nothing is isolated. -/
theorem draftsIsolated_of_unhandled {l : Link} {dparams : List DraftParams}
    (h : (g.step cfg M p (.draft l dparams)).edge.daemon.served = g.edge.daemon.served) :
    DraftsIsolated cfg M p g (.draft l dparams) := by
  intro e he
  rw [h, List.drop_length] at he
  cases he

/-- A missing packet stops the call; a step id may be taken, which a carried-over session has none of. -/
theorem coherent_missing (h : Coherent session g) (nPast : ℕ) :
    Coherent session { g with edge :=
      { g.edge.account nPast with
        stepId := if g.edge.prefilled then g.edge.stepId + 1 else g.edge.stepId } } := by
  refine ⟨h.live.skipped _ _, h.empty, h.used, ?_, ?_⟩
  · intro hown
    obtain ⟨hgens, hle⟩ := h.own hown
    exact ⟨hgens, le_trans hle (stepId_le_skipped g.edge)⟩
  · intro hc
    obtain ⟨hp, hzero⟩ := h.carried hc
    refine ⟨hp, ?_⟩
    simp only [hp, Bool.false_eq_true, if_false]
    exact hzero

theorem meetsOwnSession_iff {l : Link} {dparams : List DraftParams} {dp : DraftParams}
    (hdp : dparams.find? DraftParams.drafting = some dp) {tokens : List TokenFeatures}
    (hship : g.edge.toShip dp.nPast = some tokens) :
    MeetsOwnSession g (.draft l dparams) ↔ ¬g.CarriedOver := by
  constructor
  · intro hm
    exact hm dp hdp (by rw [hship]; rfl)
  · intro hown dp' _ _
    exact hown

theorem meetsOwnSession_of_missing {l : Link} {dparams : List DraftParams} {dp : DraftParams}
    (hdp : dparams.find? DraftParams.drafting = some dp) (hship : g.edge.toShip dp.nPast = none) :
    MeetsOwnSession g (.draft l dparams) := by
  intro dp' hdp' hsome
  rw [hdp] at hdp'
  cases hdp'
  rw [hship] at hsome; cases hsome

/-- Under the invariant, a call of `draft()` is isolated exactly when it does not send to a carried-over
    session; and then the invariant survives. -/
theorem isolated_draft (h : Coherent session g) (l : Link) (dparams : List DraftParams) :
    (DraftsIsolated cfg M p g (.draft l dparams) ↔ MeetsOwnSession g (.draft l dparams)) ∧
      (MeetsOwnSession g (.draft l dparams) →
        Coherent session (g.step cfg M p (.draft l dparams))) := by
  cases hdp : dparams.find? DraftParams.drafting with
  | none =>
    have hstep : g.step cfg M p (.draft l dparams) = g := by
      rw [Generations.step, Edge.step, draft_none _ p hdp]
    refine ⟨iff_of_true (draftsIsolated_of_unhandled (by rw [hstep])) ?_, fun _ => by rw [hstep]; exact h⟩
    intro dp hdp'
    rw [hdp] at hdp'; cases hdp'
  | some dp =>
    rcases edge_draft_cases cfg M p h.live (l.tag g.gen) hdp with ⟨hship, heq⟩ | ⟨tokens, hship, hs⟩
    · have hstep : g.step cfg M p (.draft l dparams) = { g with edge :=
          { g.edge.account dp.nPast with
            stepId := if g.edge.prefilled then g.edge.stepId + 1 else g.edge.stepId } } := by
        rw [Generations.step, Edge.step, heq]
      refine ⟨iff_of_true (draftsIsolated_of_unhandled ?_) (meetsOwnSession_of_missing hdp hship),
        fun _ => ?_⟩
      · rw [hstep]; rfl
      · rw [hstep]; exact coherent_missing h dp.nPast
    · have hown : ¬g.CarriedOver → Coherent session (g.step cfg M p (.draft l dparams)) ∧
          DraftsIsolated cfg M p g (.draft l dparams) := by
        intro hown
        obtain ⟨hgens, -⟩ := h.own hown
        rcases hs with ⟨-, hs⟩ | ⟨-, hs⟩
        · refine coherent_handled h hown [.prefill ⟨session, tokens, true⟩ (l.tag g.gen).prefill
            g.edge.daemon.session] ?_ ?_ ?_ ?_ ?_ hs
          · rfl
          · intro e he
            rw [List.mem_singleton.mp he]
            exact ⟨rfl, rfl⟩
          · rfl
          · exact prefill_gen cfg tokens hgens
          · rfl
        · exact coherent_handled h hown [] (List.append_nil _).symm (fun e he => by cases he) rfl
            hgens rfl hs
      rw [meetsOwnSession_iff hdp hship]
      refine ⟨⟨fun hiso hc => ?_, fun ho => (hown ho).2⟩, fun ho => (hown ho).1⟩
      rcases hs with ⟨-, hs⟩ | ⟨hp, -⟩
      · exact stale_when_carried h hc hs hiso
      · rw [(h.carried hc).1] at hp; cases hp

theorem isolated_step (h : Coherent session g) (e : EdgeEvent) :
    (DraftsIsolated cfg M p g e ↔ MeetsOwnSession g e) ∧
      (MeetsOwnSession g e → Coherent session (g.step cfg M p e)) := by
  cases e with
  | process layerInp batch => exact ⟨Iff.rfl, fun _ => coherent_process h layerInp batch⟩
  | begin l prompt => exact ⟨Iff.rfl, fun _ => coherent_begin h l prompt⟩
  | draft l dparams => exact isolated_draft h l dparams

/-- GENERATION ISOLATION: along any run, whatever Resets are lost and whatever fails inside the daemon,
    the Drafts of every generation are isolated exactly when none is sent to a session carried over
    from an earlier one. -/
theorem isolated_iff (cfg : ModelConfig) (M : DraftModel) (p : SpecParams) (session : ℕ)
    (es : List EdgeEvent) :
    Along (Generations.step cfg M p) (DraftsIsolated cfg M p) (.fresh session) es ↔
      Along (Generations.step cfg M p) MeetsOwnSession (.fresh session) es :=
  along_iff_free (Coherent session) (fun _ e h => (isolated_step h e).2)
    (fun _ e h => (isolated_step h e).1) (fresh_coherent session) es

/-- Two generations of one draft each, the second Reset lost. -/
def lostReset : List EdgeEvent :=
  [.process (zeroLayer 1) (.tokens [(1, 0)]), .begin (.lossless 1) [1],
    .draft (.lossless 1) [⟨true, 1, 9⟩],
    .begin { Link.lossless 2 with reset := .undelivered } [1], .draft (.lossless 2) [⟨true, 1, 9⟩]]

/-- The second generation's Draft meets a session that has seen step id 1. -/
theorem lost_reset_draft_stale :
    ¬Along (Generations.step smallConfig (constModel [5]) smallParams)
      (DraftsIsolated smallConfig (constModel [5]) smallParams) (.fresh 1) lostReset := by
  rintro ⟨-, -, -, -, hiso, -⟩
  obtain ⟨hfresh, -⟩ := hiso _ (List.mem_of_getElem? (i := 1) rfl)
  exact absurd hfresh (by decide)

end DsparkEdge
