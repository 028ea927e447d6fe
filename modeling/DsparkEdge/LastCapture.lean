import DsparkEdge.Remote

/-! Which packet a prefill ships for a position, read off the history: the last batch that decoded the
    position, unless a later `begin` with a prompt of at most that length trimmed it. `begin` trims by
    length only, so a packet of an older prompt survives under a position both prompts have.

        process … p ↦ tok …      begin prompt', p < |prompt'|      draft
                  └────────────── survives, whatever prompt'[p] ─────▶ shipped  -/

namespace DsparkEdge

open Runs

/-- The packet that survives a history (latest event first) under a position. -/
def lastCapture (p : SpecParams) : List RemoteEvent → ℕ → Option TokenFeatures
  | [], _ => none
  | .process layerInp batch :: hist, pos =>
    (lastOf (packetsOf p layerInp batch) pos).or (lastCapture p hist pos)
  | .begin _ prompt :: hist, pos => if prompt.length ≤ pos then none else lastCapture p hist pos
  | .draft .. :: hist, pos => lastCapture p hist pos

variable {p : SpecParams}

theorem step_draft_feats {session : ℕ} {s : Remote} (h : s.Live session) (r : Replies)
    (dparams : List DraftParams) : (s.step p (.draft r dparams)).feats = s.feats := by
  cases hdp : dparams.find? DraftParams.drafting with
  | none => rw [step_draft_none r hdp]
  | some dp =>
    rcases step_draft_cases (p := p) h r hdp with ⟨-, heq⟩ | ⟨tokens, -, ⟨-, hs⟩ | ⟨-, hs⟩⟩
    · rw [heq]; rfl
    · exact hs.feats
    · exact hs.feats

/-- The stored packets are those that survive the history. -/
theorem feats_exec (session : ℕ) (es : List RemoteEvent) (pos : ℕ) :
    (exec (Remote.step p) (.fresh session) es).feats pos = lastCapture p es.reverse pos := by
  induction es using List.reverseRecOn generalizing pos with
  | nil => rfl
  | append_singleton es e ih =>
    have hconn := live_exec (p := p) session es
    rw [exec_append, exec_cons, exec_nil, List.reverse_append, List.reverse_singleton,
      List.singleton_append]
    cases e with
    | process layerInp batch =>
      rw [step_process hconn, lastCapture, ← ih]
      exact store_eq _ _ _
    | begin r prompt =>
      obtain ⟨-, c, -, heq⟩ := step_begin (p := p) hconn r prompt
      rw [heq, lastCapture, ← ih]
    | draft r dparams =>
      rw [step_draft_feats hconn, ih, lastCapture]

/-- A generation's first draft faces a state in which nothing was sent. -/
theorem unsent_after_begin (session : ℕ) (es : List RemoteEvent) (r : Replies) (prompt : List ℤ)
    (batches : List (LayerInp × LlamaBatch)) :
    (exec (Remote.step p) (.fresh session)
      (es ++ .begin r prompt :: batches.map fun b => .process b.1 b.2)).prefilled = false := by
  induction batches using List.reverseRecOn with
  | nil =>
    obtain ⟨-, c, -, heq⟩ := step_begin (p := p) (live_exec session es) r prompt
    rw [List.map_nil, exec_append, exec_cons, exec_nil, heq]
  | append_singleton batches b ih =>
    rw [List.map_append, List.map_singleton, ← List.cons_append, ← List.append_assoc, exec_append,
      exec_cons, exec_nil, step_process (live_exec session _)]
    exact ih

/-- The next draft is faithful to the prompt: what its prefill ships for a prompt position carries the
    prompt's token, and nothing at all is sent when such a packet is missing. -/
def ShipsPrompt (p : SpecParams) (r : Replies) (nPast : ℕ) (idLast : ℤ) (prompt : List ℤ)
    (s : Remote) : Prop :=
  let sent := (s.step p (.draft r [⟨true, nPast, idLast⟩])).log.drop s.log.length
  (∀ req ok, Sent.prefill req ok ∈ sent → ∀ tf ∈ req.tokens, ∀ tok,
    prompt[tf.position]? = some tok → tf.token = tok) ∧
  ((∃ pos < prompt.length, (s.feats pos).map TokenFeatures.token ≠ prompt[pos]?) → sent = [])

/-- The prompt is held back exactly when a committed position has no packet. -/
theorem toShip_none {s : Remote} (hunsent : s.prefilled = false) (nPast : ℕ) :
    s.toShip nPast = none ↔ ∃ pos < nPast, s.feats pos = none := by
  rw [toShip_first hunsent, gatherFrom_eq_none]
  simp

/-- What is shipped carries the prompt's tokens if what is stored does. -/
theorem shipped_token {s : Remote} (hk : Keyed s.feats) {nPast : ℕ} {tokens : List TokenFeatures}
    (hship : gatherFrom s.feats 0 nPast = some tokens) {prompt : List ℤ}
    (hall : ∀ pos < prompt.length, (s.feats pos).map TokenFeatures.token = prompt[pos]?)
    {tf : TokenFeatures} (htf : tf ∈ tokens) {tok : ℤ} (htok : prompt[tf.position]? = some tok) :
    tf.token = tok := by
  obtain ⟨-, -, hfeats⟩ := mem_gatherFrom hk hship htf
  obtain ⟨hpos, -⟩ := List.getElem?_eq_some_iff.mp htok
  have := hall _ hpos
  rw [hfeats, htok] at this
  exact Option.some.inj this

/-- STALE PACKETS: after any history, the first draft of a generation is faithful to its prompt exactly
    when some committed position has no packet, or the packet that survives under every prompt
    position carries the prompt's token. -/
theorem ships_prompt_iff (p : SpecParams) (session : ℕ) (es : List RemoteEvent) (r₀ : Replies)
    (prompt : List ℤ) (batches : List (LayerInp × LlamaBatch)) (r : Replies) (nPast : ℕ) (idLast : ℤ) :
    let hist := es ++ .begin r₀ prompt :: batches.map fun b => .process b.1 b.2
    ShipsPrompt p r nPast idLast prompt (exec (Remote.step p) (.fresh session) hist) ↔
      (∃ pos < nPast, lastCapture p hist.reverse pos = none) ∨
      ∀ pos < prompt.length,
        (lastCapture p hist.reverse pos).map TokenFeatures.token = prompt[pos]? := by
  intro hist
  have hconn := live_exec (p := p) session hist
  have hunsent := unsent_after_begin (p := p) session es r₀ prompt batches
  simp only [← feats_exec session hist]
  generalize exec (Remote.step p) (.fresh session) hist = s at hconn hunsent ⊢
  have hdp : List.find? DraftParams.drafting [⟨true, nPast, idLast⟩] = some ⟨true, nPast, idLast⟩ :=
    rfl
  rw [← toShip_none hunsent]
  rcases step_draft_cases (p := p) hconn r hdp with ⟨hship, heq⟩ | ⟨tokens, hship, ⟨-, hs⟩ | ⟨hp, -⟩⟩
  · -- a committed position is missing, and nothing is sent
    have hsent : (s.step p (.draft r [⟨true, nPast, idLast⟩])).log.drop s.log.length = [] := by
      rw [heq]; exact List.drop_length
    refine iff_of_true ⟨?_, fun _ => hsent⟩ (Or.inl hship)
    rw [hsent]
    intro req ok hreq; cases hreq
  · -- the prefill ships what is stored
    have hpresent : s.toShip nPast ≠ none := by
      rw [hship]; exact Option.some_ne_none _
    rw [toShip_first hunsent] at hship
    rw [ShipsPrompt, hs.log, List.drop_left, or_iff_right hpresent]
    constructor
    · rintro ⟨-, hnone⟩ pos hpos
      by_contra hne
      cases hnone ⟨pos, hpos, hne⟩
    · intro hall
      refine ⟨?_, ?_⟩
      · intro req ok hreq tf htf tok htok
        rcases List.mem_cons.mp hreq with heq | hreq
        · cases heq
          exact shipped_token hconn.keyed hship hall htf htok
        · cases List.mem_singleton.mp hreq
      · rintro ⟨pos, hpos, hne⟩
        exact absurd (hall pos hpos) hne
  · rw [hp] at hunsent; cases hunsent

/-- A prompt `[3, 4]` was decoded; for the next one, `[1, 2, 5]`, the cache of `1, 2` was restored
    and only position 2 decoded. -/
def restoredPrompt : List RemoteEvent :=
  [.process (zeroLayer 2) (.tokens [(3, 0), (4, 1)]), .begin (draftReplies []) [3, 4],
    .process (zeroLayer 1) (.tokens [(5, 2)]), .begin (draftReplies []) [1, 2, 5]]

/-- The packets of `3, 4` are shipped as those of `1, 2`. -/
theorem restored_prompt_ships_stale :
    ¬ShipsPrompt smallParams (draftReplies []) 3 9 [1, 2, 5]
      (exec (Remote.step smallParams) (.fresh 1) restoredPrompt) := by
  rintro ⟨-, hnone⟩
  have hsent := hnone ⟨0, by decide, by decide⟩
  exact absurd (congrArg List.length hsent) (by decide)

end DsparkEdge
