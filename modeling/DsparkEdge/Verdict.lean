import DsparkEdge.Joint
import DsparkEdge.Watch

/-! What the transcript says about the target's verdict on a block. The block `d` drafted behind the
    anchor `a` is verified as the batch `a d₀ d₁ …`; of it the target accepts `a d₀ … d₍k₋₁₎`, and that is
    what the next Draft brings along and what the renderer compares with `d` from its first token on:

        pending     d₀   d₁   d₂  …
        accepted    a    d₀   d₁  …  d₍k₋₁₎
                    └ one token ahead

    So the match is as long as the run of anchors the block starts with, and the rejected token is the one
    behind that run, not `d_k`. The confirmed text is right all the same. -/

namespace DsparkEdge

open Runs

/-- The verify batch of a block: the anchor and the drafted tokens, from `nPast` on. -/
def verifyBatch (nPast : ℕ) (tokens : List ℤ) : List (ℤ × ℕ) :=
  tokens.zip (List.range' nPast tokens.length)

/-- The transcript once the renderer has handled every event queued so far. -/
def Joint.transcript (piece : ℤ → String) (j : Joint) : List Region :=
  (Watch.run piece j.edge.daemon.events).transcript

/-- Behind what was settled before the block, the confirmed text ends in the `k` accepted tokens, and the
    only rejected region is the first token not accepted, if there is one. -/
def TellsVerdict (piece : ℤ → String) (settled transcript : List Region) (block : List ℤ) (k : ℕ) :
    Prop :=
  ∃ shown, transcript = settled ++ shown ∧
    (∃ earlier, confirmedText shown = earlier ++ detokenize piece (block.take k)) ∧
    rejectedTexts shown = (block[k]?.map piece).toList

/-- The length of the run of anchors the block starts with. -/
def anchorRun (anchor : ℤ) (block : List ℤ) : ℕ := (block.takeWhile fun t => t = anchor).length

/-- The token behind the run of anchors, of which at most `k + 1` count, reads like token `k`; or both
    are past the end of the block. -/
def Aligned (piece : ℤ → String) (anchor : ℤ) (block : List ℤ) (k : ℕ) : Prop :=
  block[min (anchorRun anchor block) (k + 1)]?.map piece = block[k]?.map piece

/-- Compared with itself one token late, a block matches as far as its first tokens are the anchor. -/
theorem matchLength_late (anchor : ℤ) : ∀ (block : List ℤ) (k : ℕ),
    matchLength block (anchor :: block.take k) = min (anchorRun anchor block) (k + 1)
  | [], k => by simp [matchLength, anchorRun]
  | t :: block, k => by
    rw [matchLength]
    split
    case isTrue h =>
      subst h
      cases k with
      | zero => cases block <;> simp [matchLength, anchorRun]
      | succ k =>
        rw [List.take_succ_cons, matchLength_late t block k]
        simp [anchorRun]
    case isFalse h => simp [anchorRun, h]

/-! ### The verify batch -/

theorem length_verifyBatch (nPast : ℕ) (tokens : List ℤ) :
    (verifyBatch nPast tokens).length = tokens.length := by simp [verifyBatch]

theorem verifyBatch_positions (nPast : ℕ) (tokens : List ℤ) :
    (verifyBatch nPast tokens).map Prod.snd = List.range' nPast tokens.length := by
  rw [verifyBatch, List.map_snd_zip (by simp)]

theorem verifyBatch_tokens (nPast : ℕ) (tokens : List ℤ) :
    (verifyBatch nPast tokens).map Prod.fst = tokens := by
  rw [verifyBatch, List.map_fst_zip (by simp)]

theorem positionsFrom_of_map : ∀ {start : ℕ} {packets : List TokenFeatures},
    packets.map TokenFeatures.position = List.range' start packets.length → PositionsFrom start packets
  | _, [], _ => trivial
  | start, t :: packets, h => by
    rw [List.map_cons, List.length_cons, List.range'_succ, List.cons.injEq] at h
    refine ⟨congrArg Nat.cast h.1, ?_⟩
    have := positionsFrom_of_map h.2
    exact_mod_cast this

variable {cfg : ModelConfig} {M : DraftModel} {nMax : ℤ} {en : Endian} {session : ℕ} {j : Joint}

/-- A batch that `process()` took is captured, entry by entry. -/
theorem process_captured {p : SpecParams} {layerInp : LayerInp} {entries : List (ℤ × ℕ)} {s : Edge}
    (h : s.Live session) (hne : entries ≠ [])
    (hok : (s.process p layerInp (.tokens entries)).1 = true) :
    capture p layerInp entries = .ok (packetsOf p layerInp (.tokens entries)) := by
  obtain ⟨c, hc, -⟩ := h.client
  unfold Server.process at hok
  rw [packetsOf]
  simp only [hc, List.isEmpty_iff, hne, if_false] at hok
  cases hcap : capture p layerInp entries with
  | error err => rw [hcap] at hok; cases hok
  | ok packets => rfl

/-! ### One block -/

/-- A Draft the daemon executed queues its verdict and its block. -/
theorem round_events (M : DraftModel) {p : SpecParams} {idLast : ℤ} {tokens : List TokenFeatures}
    {req : DraftRequest} {d : Daemon} {pre : List Served}
    (hr : Round cfg M session j idLast (j.callDraft cfg M p idLast) tokens req d pre) :
    ∃ block, (j.step cfg M p (.draft idLast)).edge.daemon.events = d.events ++
        [.verdict (req.acceptedTokens.map TokenFeatures.token), .draft block] ∧
      ((j.callDraft cfg M p idLast).2 ≠ [] → (j.callDraft cfg M p idLast).2 = block) := by
  have hs := hr.handled
  have htokens := hs.tokens
  rw [draft_executed cfg M (.succeed j.gen) hr.fresh] at htokens
  refine ⟨(d.session.engine.draft cfg M (.succeed j.gen) (.ofWire req)).1.draftTokens, ?_,
    fun hne => ?_⟩
  · rw [Joint.step, hs.daemon, Daemon.draft]
    simp only [draft_executed cfg M (.succeed j.gen) hr.fresh]
  · rw [htokens] at hne ⊢
    split at hne
    case isTrue h => rw [if_pos h]
    case isFalse h => exact absurd rfl hne

/-- In a generation whose prompt is out, `n_past` packets of which `n` are new, the next draft brings
    those along. -/
theorem shipped_stored {s : Edge} (hp : s.prefilled = true) {nPast n : ℕ} (hsent : s.nSent = nPast - 1)
    {feats : Feats} {packets : List TokenFeatures} (hfeats : s.feats = store feats packets)
    (hpos : PositionsFrom nPast packets) (hn : n ≤ packets.length) :
    s.toShip (nPast + n) = some (packets.take n) := by
  rw [toShip_later hp, hfeats, hsent,
    show ((nPast : ℤ) - 1 + 1).toNat = nPast by omega,
    show (((nPast + n : ℕ) : ℤ) - (nPast - 1 + 1)).toNat = n by omega]
  exact gatherFrom_store feats hpos hn

/-- With the prompt out and `packets` decoded behind the positions sent, of which `n` are committed, the
    next draft queues their tokens as the verdict. -/
theorem stored_draft_events {packets : List TokenFeatures} {n : ℕ}
    (h : JointInv cfg session { j.stored packets with nPast := j.nPast + n })
    (hactive : j.active = true) (M : DraftModel) (p : SpecParams) (hprefilled : j.edge.prefilled = true)
    (hsent : j.edge.nSent = j.nPast - 1) (hpos : PositionsFrom j.nPast packets)
    (hn : n ≤ packets.length) (next : ℤ) :
    ∃ block, (Joint.step cfg M p { j.stored packets with nPast := j.nPast + n }
        (.draft next)).edge.daemon.events =
      j.edge.daemon.events ++
        [.verdict ((packets.take n).map TokenFeatures.token), .draft block] := by
  have hprefilled' : (j.stored packets).edge.prefilled = true := hprefilled
  have hsent' : (j.stored packets).edge.nSent = j.nPast - 1 := hsent
  have hship : (j.stored packets).edge.toShip (j.nPast + n) = some (packets.take n) :=
    shipped_stored hprefilled' hsent' rfl hpos hn
  rcases draft_round h (h.running hactive) M p next with ⟨hmiss, -⟩ | ⟨shipped, req, d, pre, hr⟩
  · cases hship.symm.trans hmiss
  · obtain ⟨block, hevents, -⟩ := round_events M hr
    rcases hr.events with ⟨hp, -⟩ | ⟨-, hacc, hd⟩
    · cases hprefilled.symm.trans hp
    · cases hship.symm.trans hr.shipped
      rw [hacc, hd] at hevents
      exact ⟨block, hevents⟩

/-- A verify batch and the draft behind it: the verdict queued is what was accepted of the batch. -/
theorem verify_draft_events (h : JointInv cfg session j) (hactive : j.active = true) (M : DraftModel)
    (hprefilled : j.edge.prefilled = true) (hsent : j.edge.nSent = j.nPast - 1) {layerInp : LayerInp}
    {tokens : List ℤ} (hne : tokens ≠ []) {n : ℕ} (hn : n ≤ tokens.length)
    (hok : (j.edge.process (handshake cfg nMax en) layerInp
      (.tokens (verifyBatch j.nPast tokens))).1 = true) (next : ℤ) :
    ∃ block, (exec (Joint.step cfg M (handshake cfg nMax en)) j
        [.verify layerInp (verifyBatch j.nPast tokens) n, .draft next]).edge.daemon.events =
      j.edge.daemon.events ++ [.verdict (tokens.take n), .draft block] := by
  have hbatch : verifyBatch j.nPast tokens ≠ [] := by
    rw [← List.length_pos_iff, length_verifyBatch]
    exact List.length_pos_iff.mpr hne
  have hcap := process_captured h.live hbatch hok
  have hsize := packetsOf_size cfg nMax en layerInp (.tokens (verifyBatch j.nPast tokens))
  have hstep : j.step cfg M (handshake cfg nMax en)
      (.verify layerInp (verifyBatch j.nPast tokens) n) = { j.stored (packetsOf (handshake cfg nMax en)
        layerInp (.tokens (verifyBatch j.nPast tokens))) with nPast := j.nPast + n } := by
    rw [Joint.step, decode_eq h.live]
  rw [exec_cons, exec_cons, exec_nil, hstep]
  generalize packetsOf (handshake cfg nMax en) layerInp (.tokens (verifyBatch j.nPast tokens)) = packets
    at hcap hsize ⊢
  have htokens : packets.map TokenFeatures.token = tokens := by
    rw [capture_tokens hcap, verifyBatch_tokens]
  have hlen : packets.length = tokens.length := by
    rw [← htokens, List.length_map]
  have hpos : PositionsFrom j.nPast packets := by
    refine positionsFrom_of_map ?_
    rw [capture_positions hcap, verifyBatch_positions, hlen]
  have hinv := stored_round h hactive hsize
    (fun tf htf => by exact_mod_cast positionsFrom_le hpos tf htf) n
  rw [← htokens, ← List.map_take]
  exact stored_draft_events hinv hactive M _ hprefilled hsent hpos (hlen.symm ▸ hn) next

/-- Draft a block, verify it with `k` of its tokens accepted, draft again. -/
def blockRound (anchor : ℤ) (layerInp : LayerInp) (nPast : ℕ) (block : List ℤ) (k : ℕ) (next : ℤ) :
    List JointEvent :=
  [.draft anchor, .verify layerInp (verifyBatch nPast (anchor :: block)) (1 + k), .draft next]

/-- The transcript tells the verdict exactly when the comparison, one token late, hits token `k`. -/
theorem tells_iff (h : JointInv cfg session j) (hactive : j.active = true) (M : DraftModel)
    (piece : ℤ → String) {anchor : ℤ} {block : List ℤ}
    (hblock : (j.callDraft cfg M (handshake cfg nMax en) anchor).2 = block) (hne : block ≠ [])
    {layerInp : LayerInp} {k : ℕ} (hk : k ≤ block.length)
    (hok : ((j.step cfg M (handshake cfg nMax en) (.draft anchor)).edge.process (handshake cfg nMax en)
      layerInp (.tokens (verifyBatch j.nPast (anchor :: block)))).1 = true) (next : ℤ) :
    TellsVerdict piece
        (popPending ((j.step cfg M (handshake cfg nMax en) (.draft anchor)).transcript piece))
        ((exec (Joint.step cfg M (handshake cfg nMax en)) j
          (blockRound anchor layerInp j.nPast block k next)).transcript piece) block k ↔
      Aligned piece anchor block k := by
  rcases draft_round h (h.running hactive) M (handshake cfg nMax en) anchor with
    ⟨-, heq⟩ | ⟨tokens, req, d, pre, hr⟩
  · rw [heq] at hblock
    exact absurd hblock.symm hne
  obtain ⟨drafted, hevents, hdrafted⟩ := round_events M hr
  rw [hblock] at hdrafted
  rw [← hdrafted hne] at hevents
  have hinv := jointInv_step M nMax en h (e := .draft anchor) hactive
  obtain ⟨block', hnext⟩ := verify_draft_events hinv hactive M hr.handled.prefilled hr.handled.nSent
    (List.cons_ne_nil anchor block) (n := 1 + k) (by simp only [List.length_cons]; omega) hok next
  have htake : (anchor :: block).take (1 + k) = anchor :: block.take k := by
    rw [Nat.add_comm, List.take_succ_cons]
  rw [htake, hevents] at hnext
  obtain ⟨shown, htranscript, hconfirmed, hrejected⟩ := run_next_verdict piece d.events
    (req.acceptedTokens.map TokenFeatures.token) (anchor :: block.take k) block' hne
  rw [matchLength_late] at hrejected
  have hshown : (exec (Joint.step cfg M (handshake cfg nMax en)) j
      (blockRound anchor layerInp j.nPast block k next)).transcript piece =
        popPending ((j.step cfg M (handshake cfg nMax en) (.draft anchor)).transcript piece) ++ shown := by
    rw [Joint.transcript, Joint.transcript, hevents, ← htranscript, ← hnext]
    rfl
  constructor
  · rintro ⟨shown', heq, -, hrejected'⟩
    cases List.append_cancel_left (hshown.symm.trans heq)
    have hfirst := congrArg List.head? (hrejected.symm.trans hrejected')
    rwa [Option.head?_toList, Option.head?_toList] at hfirst
  · intro haligned
    refine ⟨shown, hshown, ⟨piece anchor, ?_⟩, ?_⟩
    · rw [hconfirmed, ← List.singleton_append, detokenize_append, detokenize_singleton]
    · rw [hrejected, haligned]

/-- THE VERDICT, ONE TOKEN LATE: after any run in which nothing is lost, a block drafted and verified with
    `k` of its tokens accepted is told right exactly when the token behind its run of anchors reads like
    token `k`. -/
theorem verdict_told_iff (cfg : ModelConfig) (M : DraftModel) (nMax : ℤ) (en : Endian) (session : ℕ)
    (golden : Option GoldenDir) (piece : ℤ → String) {es : List JointEvent}
    (hes : Along (Joint.step cfg M (handshake cfg nMax en)) Joint.Legal (.fresh session golden) es)
    {j : Joint} (hj : j = exec (Joint.step cfg M (handshake cfg nMax en)) (.fresh session golden) es)
    (hactive : j.active = true) {anchor : ℤ} {block : List ℤ}
    (hblock : (j.callDraft cfg M (handshake cfg nMax en) anchor).2 = block) (hne : block ≠ [])
    {layerInp : LayerInp} {k : ℕ} (hk : k ≤ block.length)
    (hok : ((j.step cfg M (handshake cfg nMax en) (.draft anchor)).edge.process (handshake cfg nMax en)
      layerInp (.tokens (verifyBatch j.nPast (anchor :: block)))).1 = true) (next : ℤ) :
    TellsVerdict piece
        (popPending ((j.step cfg M (handshake cfg nMax en) (.draft anchor)).transcript piece))
        ((exec (Joint.step cfg M (handshake cfg nMax en)) j
          (blockRound anchor layerInp j.nPast block k next)).transcript piece) block k ↔
      Aligned piece anchor block k := by
  have hinv : JointInv cfg session j := by
    rw [hj]
    exact jointInv_exec cfg M nMax en session golden hes
  exact tells_iff hinv hactive M piece hblock hne hk hok next

/-- A vocabulary that tells token 5 from every other. -/
def fivePiece (t : ℤ) : String := if t = 5 then "five" else "other"

/-- A prompt of one token, and its generation. -/
def onePrompt : List JointEvent := [.process (zeroLayer 1) (.tokens [(1, 0)]), .begin [1]]

/-- Of the block `5 6` behind anchor 9 the target accepts `5`; the transcript strikes `5` out. -/
theorem accepted_token_struck_out :
    let step := Joint.step smallConfig (constModel [5, 6]) (handshake smallConfig 4 .little)
    let j := exec step (.fresh 1 none) onePrompt
    Along step Joint.Legal (.fresh 1 none) onePrompt ∧
    (j.callDraft smallConfig (constModel [5, 6]) (handshake smallConfig 4 .little) 9).2 = [5, 6] ∧
    ¬TellsVerdict fivePiece (popPending ((step j (.draft 9)).transcript fivePiece))
      ((exec step j (blockRound 9 (zeroLayer 3) j.nPast [5, 6] 1 6)).transcript fivePiece) [5, 6] 1 := by
  intro step j
  have hlegal : Along step Joint.Legal (.fresh 1 none) onePrompt := by decide
  have hinv := jointInv_exec smallConfig (constModel [5, 6]) 4 .little 1 none hlegal
  refine ⟨hlegal, by decide, fun htells => ?_⟩
  have haligned := (tells_iff hinv rfl (constModel [5, 6]) fivePiece (by decide) (by decide) (by decide)
    (by decide) 6).mp htells
  exact absurd haligned (by unfold Aligned; decide)

theorem verdict_told_iff_small :
    let step := Joint.step smallConfig (constModel [5, 6]) (handshake smallConfig 4 .little)
    let j := exec step (.fresh 1 none) onePrompt
    TellsVerdict fivePiece (popPending ((step j (.draft 9)).transcript fivePiece))
        ((exec step j (blockRound 9 (zeroLayer 3) j.nPast [5, 6] 0 6)).transcript fivePiece) [5, 6] 0 ↔
      Aligned fivePiece 9 [5, 6] 0 :=
  verdict_told_iff smallConfig (constModel [5, 6]) 4 .little 1 none fivePiece (by decide) rfl rfl
    (by decide) (by decide) (by decide) (by decide) 6

end DsparkEdge
