import DsparkEdge.Alike
import DsparkEdge.Daemon
import DsparkEdge.Lib.Runs

/-! What a run of the server half does not depend on: whether its calls are recorded. The golden files are
    written beside every call and read by nobody while the server runs.

        server ──▶ client ──▶ daemon
                     └──▶ golden files (or none)          -/

namespace DsparkEdge

open Runs

variable {δ : Type*}

/-- Two clients in the same state, whatever they record. -/
structure SameClient (c c' : Client δ) : Prop where
  sessionId : c.sessionId = c'.sessionId
  initialized : c.initialized = c'.initialized
  prefillChunk : c.prefillChunk = c'.prefillChunk
  net : c.net = c'.net

/-- The files do not feed back. -/
theorem grpcDrafter_alike (S : Stub δ) : Alike (fun _ => True) SameClient (grpcDrafter S) (grpcDrafter S) where
  closed := ⟨fun _ _ _ _ => trivial, fun _ _ _ => trivial, fun _ _ => trivial⟩
  prefill := by
    rintro ⟨session, init, chunk, golden, net⟩ ⟨session', init', chunk', golden', net'⟩ ⟨rfl, rfl, rfl, rfl⟩ tokens
      last -
    cases init <;> exact ⟨rfl, rfl, rfl, rfl⟩
  draft := by
    rintro ⟨session, init, chunk, golden, net⟩ ⟨session', init', chunk', golden', net'⟩ ⟨rfl, rfl, rfl, rfl⟩ req -
    cases init <;> exact ⟨⟨rfl, rfl, rfl, rfl⟩, rfl⟩
  reset := by
    rintro ⟨session, init, chunk, golden, net⟩ ⟨session', init', chunk', golden', net'⟩ ⟨rfl, rfl, rfl, rfl⟩ -
    cases init <;> exact ⟨rfl, rfl, rfl, rfl⟩

variable {cfg : ModelConfig} {M : DraftModel} {p : SpecParams}

/-- What an event hands to the target. -/
def Edge.handed (cfg : ModelConfig) (M : DraftModel) (p : SpecParams) (s : Edge) : EdgeEvent → List ℤ
  | .draft l dparams => (s.draft (grpcDrafter (daemonStub cfg M l)) p dparams).2
  | _ => []

/-- One event, and what it hands out. -/
def Edge.act (cfg : ModelConfig) (M : DraftModel) (p : SpecParams) (s : Edge) (e : EdgeEvent) : List ℤ × Edge :=
  (s.handed cfg M p e, s.step cfg M p e)

theorem step_recording {s s' : Edge} (h : SameServer SameClient s s') (e : EdgeEvent) :
    SameServer SameClient (s.step cfg M p e) (s'.step cfg M p e) ∧ s.handed cfg M p e = s'.handed cfg M p e := by
  cases e with
  | process layerInp batch => exact ⟨process_alike h p layerInp batch, rfl⟩
  | begin l prompt => exact ⟨begin_alike (grpcDrafter_alike _) h fun _ _ => trivial, rfl⟩
  | draft l dparams => exact draft_alike (grpcDrafter_alike _) h fun _ _ => trivial

theorem daemon_recording {s s' : Edge} (h : SameServer SameClient s s') : s.daemon = s'.daemon := by
  rw [Edge.daemon, Edge.daemon]
  rcases h.drafters with ⟨hd, hd'⟩ | ⟨c, c', hd, hd', hc⟩
  · rw [hd, hd']
  · rw [hd, hd', Option.map_some, Option.map_some, hc.net]

/-- RECORDING CHANGES NOTHING: over any events and whatever becomes of the calls, a server that records and one that
    does not hand out the same tokens at every event, and leave the same metrics and the same daemon. -/
theorem recording_transparent (cfg : ModelConfig) (M : DraftModel) (p : SpecParams) (session : ℕ)
    (golden golden' : Option GoldenDir) (es : List EdgeEvent) :
    answers (Edge.act cfg M p) (.fresh session golden) es = answers (Edge.act cfg M p) (.fresh session golden') es ∧
      (exec (Edge.step cfg M p) (.fresh session golden) es).stats =
        (exec (Edge.step cfg M p) (.fresh session golden') es).stats ∧
      (exec (Edge.step cfg M p) (.fresh session golden) es).daemon =
        (exec (Edge.step cfg M p) (.fresh session golden') es).daemon := by
  have hrun : ∀ s s' : Edge, SameServer SameClient s s' →
      answers (Edge.act cfg M p) s es = answers (Edge.act cfg M p) s' es ∧
        SameServer SameClient (exec (Edge.step cfg M p) s es) (exec (Edge.step cfg M p) s' es) := by
    induction es with
    | nil => exact fun s s' h => ⟨rfl, h⟩
    | cons e es ih =>
      intro s s' h
      obtain ⟨hnext, hhanded⟩ := @step_recording cfg M p _ _ h e
      obtain ⟨hanswers, hend⟩ := ih _ _ hnext
      exact ⟨congrArg₂ List.cons hhanded hanswers, hend⟩
  have hfresh : SameServer SameClient (Edge.fresh session golden) (Edge.fresh session golden') :=
    ⟨.some ⟨rfl, rfl, rfl, rfl⟩, rfl, rfl, rfl, rfl, rfl, rfl⟩
  obtain ⟨hanswers, hend⟩ := hrun _ _ hfresh
  exact ⟨hanswers, hend.stats, daemon_recording hend⟩

end DsparkEdge
