import DsparkEdge.EngineRuns
import DsparkEdge.Lib.Runs
import DsparkEdge.Transport

/-! The two halves together, with the target beside them and nothing lost. A generation decodes its
    prompt, begins, and then takes rounds: `draft()` at the committed count, a verify batch from there
    on, of which the target accepts a prefix.

        process …, begin prompt        n_past = |prompt|
        draft id_last                  at n_past
        verify entries k               decodes n_past …, n_past += k

    The invariant ties the server's marks to the daemon's cache: positions `0 .. n_sent` of the stored
    packets are exactly the settled prefix, and no step id is ahead of the server's.

        feats      0 ……… n_sent … n_past-1 │ rejected, newer
        cache      0 ……… n_sent │ old noise                                                 -/

namespace DsparkEdge

open Runs SeqCache

/-- `captured` is a ghost: the packet most recently captured for a position. -/
structure Joint where
  edge : Edge
  nPast : ℕ
  gen : ℕ
  active : Bool
  captured : Feats

def Joint.fresh (session : ℕ) (golden : Option GoldenDir) : Joint :=
  ⟨.fresh session golden, 0, 0, false, fun _ => none⟩

inductive JointEvent where
  | process (layerInp : LayerInp) (batch : LlamaBatch)
  | begin (prompt : List ℤ)
  | draft (idLast : ℤ)
  | verify (layerInp : LayerInp) (entries : List (ℤ × ℕ)) (k : ℕ)

/-- The server's `process()` of a batch, and what it captures. -/
def Joint.decode (p : SpecParams) (layerInp : LayerInp) (batch : LlamaBatch) (j : Joint) : Joint :=
  { j with
    edge := (j.edge.process p layerInp batch).2
    captured := store j.captured (packetsOf p layerInp batch) }

/-- The call of `draft()` in a round. -/
def Joint.callDraft (cfg : ModelConfig) (M : DraftModel) (p : SpecParams) (j : Joint) (idLast : ℤ) :
    Edge × List ℤ :=
  j.edge.draft (grpcDrafter (daemonStub cfg M (.lossless j.gen))) p [⟨true, j.nPast, idLast⟩]

def Joint.step (cfg : ModelConfig) (M : DraftModel) (p : SpecParams) (j : Joint) : JointEvent → Joint
  | .process layerInp batch => { j.decode p layerInp batch with active := false }
  | .begin prompt =>
    { j with
      edge := j.edge.step cfg M p (.begin (.lossless (j.gen + 1)) prompt)
      nPast := prompt.length
      gen := j.gen + 1
      active := true }
  | .draft idLast => { j with edge := (j.callDraft cfg M p idLast).1 }
  | .verify layerInp entries k => { j.decode p layerInp (.tokens entries) with nPast := j.nPast + k }

/-- Rounds are taken within a generation; a verify batch starts at `n_past`, and a prefix of it is
    accepted. -/
def Joint.Legal (j : Joint) : JointEvent → Prop
  | .process .. => True
  | .begin _ => True
  | .draft _ => j.active = true
  | .verify _ entries k => j.active = true ∧
      entries.map Prod.snd = List.range' j.nPast entries.length ∧ k ≤ entries.length

instance decidableJointLegal (j : Joint) : ∀ e, Decidable (j.Legal e)
  | .process .. => .isTrue trivial
  | .begin _ => .isTrue trivial
  | .draft _ => inferInstanceAs (Decidable (j.active = true))
  | .verify .. => inferInstanceAs (Decidable (_ ∧ _ ∧ _))

/-- A generation that has begun: the daemon's cache is settled on the positions sent, and its guard is
    not ahead of the server's step id. -/
structure Running (cfg : ModelConfig) (j : Joint) : Prop where
  sent : j.edge.nSent < j.nPast
  stepId : j.edge.daemon.session.lastStepId ≤ j.edge.stepId
  cache : ∃ tokens, gatherFrom j.edge.feats 0 (j.edge.nSent + 1).toNat = some tokens ∧
    j.edge.daemon.session.engine.Settled (tokens.map (cellVal cfg j.gen))
  empty : j.edge.prefilled = false → j.edge.daemon.session.engine.cells = []

structure JointInv (cfg : ModelConfig) (session : ℕ) (j : Joint) : Prop where
  live : j.edge.Live session
  sized : Sized cfg j.edge.feats
  captured : ∀ pos tf, j.edge.feats pos = some tf → j.captured pos = some tf
  running : j.active = true → Running cfg j

/-- What a Draft meets: it passes the step guard, its packets are injected, and its noise block is
    decoded behind one cell per committed position, in order, each with the packet captured last. -/
structure MeetsCommitted (cfg : ModelConfig) (j : Joint) (req : DraftRequest) (calls : LlamaCalls)
    (before : Session) : Prop where
  fresh : before.lastStepId < req.stepId
  injected : (before.engine.accept cfg calls req.acceptedTokens).1 = true
  cells : ∃ tokens : List TokenFeatures, tokens.map some = (List.range j.nPast).map j.captured ∧
    (before.engine.accept cfg calls req.acceptedTokens).2.cells =
      consec 0 (tokens.map (cellVal cfg j.gen))

/-- The calls the daemon handled in a step. -/
def Joint.handled (cfg : ModelConfig) (M : DraftModel) (p : SpecParams) (j : Joint) (e : JointEvent) :
    List Served :=
  (j.step cfg M p e).edge.daemon.served.drop j.edge.daemon.served.length

/-- Every Draft of a call of `draft()` meets the committed cache; and if every committed position is
    held, a Draft is sent. -/
def DraftsMeetCommitted (cfg : ModelConfig) (M : DraftModel) (p : SpecParams) (j : Joint) :
    JointEvent → Prop
  | .draft idLast =>
    (∀ req calls before, .draft req calls before ∈ j.handled cfg M p (.draft idLast) →
      MeetsCommitted cfg j req calls before) ∧
    ((∀ pos < j.nPast, (j.edge.feats pos).isSome) →
      ∃ req calls before, .draft req calls before ∈ j.handled cfg M p (.draft idLast))
  | _ => True

variable {cfg : ModelConfig} {M : DraftModel} {nMax : ℤ} {en : Endian} {session : ℕ} {j : Joint}

theorem fresh_jointInv (cfg : ModelConfig) (session : ℕ) (golden : Option GoldenDir) :
    JointInv cfg session (.fresh session golden) where
  live := edge_fresh_live session golden
  sized := by
    intro pos tf htf
    cases htf
  captured := by
    intro pos tf htf
    cases htf
  running := by
    intro hactive
    cases hactive

/-! ### Decoding -/

/-- What is captured of a batch sits at the positions of the batch. -/
theorem packetsOf_position {p : SpecParams} {layerInp : LayerInp} {entries : List (ℤ × ℕ)}
    {tf : TokenFeatures} (h : tf ∈ packetsOf p layerInp (.tokens entries)) :
    tf.position ∈ entries.map Prod.snd := by
  rw [packetsOf] at h
  cases hcap : capture p layerInp entries with
  | error e => rw [hcap] at h; cases h
  | ok packets =>
    rw [hcap] at h
    rw [← capture_positions hcap]
    exact List.mem_map_of_mem h

/-- The state after a batch was decoded, `packets` being what was captured. -/
def Joint.stored (packets : List TokenFeatures) (j : Joint) : Joint :=
  { j with
    edge := { j.edge with feats := store j.edge.feats packets }
    captured := store j.captured packets }

theorem decode_eq (h : j.edge.Live session) (p : SpecParams) (layerInp : LayerInp)
    (batch : LlamaBatch) :
    j.decode p layerInp batch = j.stored (packetsOf p layerInp batch) := by
  rw [Joint.decode, process_connected h]
  rfl

/-- Capturing keeps the parts of the invariant that hold between generations. -/
theorem stored_inv (h : JointInv cfg session j) {packets : List TokenFeatures}
    (hsize : ∀ tf ∈ packets, SizeOk cfg tf) :
    (j.stored packets).edge.Live session ∧
    Sized cfg (store j.edge.feats packets) ∧
    ∀ pos tf, store j.edge.feats packets pos = some tf → store j.captured packets pos = some tf := by
  refine ⟨h.live.stored packets, sized_store h.sized hsize, ?_⟩
  intro pos tf htf
  rw [store_eq] at htf ⊢
  cases hlast : lastOf packets pos with
  | none => rw [hlast] at htf; exact h.captured pos tf htf
  | some t => rw [hlast] at htf; exact htf

/-- A batch from `n_past` on leaves the committed packets alone. -/
theorem store_committed {packets : List TokenFeatures} {n : ℕ}
    (hpos : ∀ tf ∈ packets, n ≤ tf.position) (feats : Feats) {pos : ℕ} (hlt : pos < n) :
    store feats packets pos = feats pos := by
  rw [store_eq]
  cases hlast : lastOf packets pos with
  | none => rfl
  | some tf =>
    obtain ⟨hmem, rfl⟩ := position_of_lastOf hlast
    exact absurd (hpos tf hmem) (Nat.not_le.mpr hlt)

theorem stored_running (hrun : Running cfg j) {packets : List TokenFeatures}
    (hpos : ∀ tf ∈ packets, j.nPast ≤ tf.position) (k : ℕ) :
    Running cfg { j.stored packets with nPast := j.nPast + k } := by
  have hsent := hrun.sent
  have hcommitted : ∀ q, q < 0 + (j.edge.nSent + 1).toNat → q < j.nPast := by
    intro q hq; omega
  refine ⟨?_, hrun.stepId, ?_, hrun.empty⟩
  · have hgrow : j.edge.nSent < (j.nPast + k : ℕ) := by omega
    exact hgrow
  · obtain ⟨tokens, hgather, hset⟩ := hrun.cache
    refine ⟨tokens, ?_, hset⟩
    rw [← hgather]
    exact gatherFrom_congr fun q _ hq => store_committed hpos j.edge.feats (hcommitted q hq)

theorem stored_round (h : JointInv cfg session j) (hactive : j.active = true)
    {packets : List TokenFeatures} (hsize : ∀ tf ∈ packets, SizeOk cfg tf)
    (hpos : ∀ tf ∈ packets, j.nPast ≤ tf.position) (k : ℕ) :
    JointInv cfg session { j.stored packets with nPast := j.nPast + k } := by
  obtain ⟨hlive, hsized, hcap⟩ := stored_inv h hsize
  exact ⟨hlive, hsized, hcap, fun _ => stored_running (h.running hactive) hpos k⟩

/-! ### Drafting -/

/-- A call of `draft()` that found every packet: the Draft it sent, the daemon that met it, what was
    handled before it. -/
structure Round (cfg : ModelConfig) (M : DraftModel) (session : ℕ) (j : Joint) (idLast : ℤ)
    (out : Edge × List ℤ) (tokens : List TokenFeatures) (req : DraftRequest) (d : Daemon)
    (pre : List Served) : Prop where
  handled : Handled cfg M session ⟨true, j.nPast, idLast⟩ (.succeed j.gen) req d j.edge out
  served : d.served = j.edge.daemon.served ++ pre
  noDraft : ∀ req calls before, .draft req calls before ∉ pre
  fresh : d.session.lastStepId < req.stepId
  stepId : req.stepId = j.edge.stepId + 1
  shipped : j.edge.toShip j.nPast = some tokens
  cache : ∃ sent : List TokenFeatures, d.session.engine.Settled (sent.map (cellVal cfg j.gen)) ∧
    gatherFrom j.edge.feats 0 j.nPast = some (sent ++ req.acceptedTokens)
  events : j.edge.prefilled = false ∧ req.acceptedTokens = [] ∧
      d.events = j.edge.daemon.events ++ onAccepted (tokens.map TokenFeatures.token) ∨
    j.edge.prefilled = true ∧ req.acceptedTokens = tokens ∧ d.events = j.edge.daemon.events

/-- Packets gathered from the start are settled as they are. -/
theorem gathered_settled (h : JointInv cfg session j) {n : ℕ} {tokens : List TokenFeatures}
    (hgather : gatherFrom j.edge.feats 0 n = some tokens) :
    PositionsFrom 0 tokens ∧ ∀ tf ∈ tokens, SizeOk cfg tf := by
  refine ⟨?_, fun tf htf => ?_⟩
  · have := positionsFrom_of_gatherFrom h.live.keyed hgather
    exact_mod_cast this
  · exact h.sized _ tf (mem_gatherFrom h.live.keyed hgather htf).2.2

/-- What a call of `draft()` in a running generation comes to. -/
theorem draft_round (h : JointInv cfg session j) (hrun : Running cfg j) (M : DraftModel)
    (p : SpecParams) (idLast : ℤ) :
    (j.edge.toShip j.nPast = none ∧ j.callDraft cfg M p idLast =
      ({ j.edge.account j.nPast with
          stepId := if j.edge.prefilled then j.edge.stepId + 1 else j.edge.stepId }, [])) ∨
    ∃ tokens req d pre,
      Round cfg M session j idLast (j.callDraft cfg M p idLast) tokens req d pre := by
  have hfind : ([⟨true, j.nPast, idLast⟩] : List DraftParams).find? DraftParams.drafting =
      some ⟨true, j.nPast, idLast⟩ := rfl
  have hle := hrun.stepId
  obtain ⟨sent, hgather, hset⟩ := hrun.cache
  rcases edge_draft_cases cfg M p h.live (.lossless j.gen) hfind with hmiss | ⟨tokens, hship, hs⟩
  · exact Or.inl hmiss
  right
  rcases hs with ⟨hp, hs⟩ | ⟨hp, hs⟩
  · -- the prompt goes into an empty cache
    have hgather' : gatherFrom j.edge.feats 0 j.nPast = some tokens := by
      rw [← toShip_first hp]; exact hship
    obtain ⟨hpos, hsize⟩ := gathered_settled h hgather'
    have hunsent := h.live.unsent hp
    have hsent : sent = [] := by
      rw [hunsent] at hgather
      exact (Option.some.inj hgather).symm
    rw [hsent, List.map_nil] at hset
    have htop : j.edge.daemon.session.engine.kvConfirmedMax = -1 := hset.top_eq
    have hpre := prefill_succeed cfg j.gen (hrun.empty hp) htop hpos hsize
    have hpos' : PositionsFrom (j.edge.daemon.session.engine.kvConfirmedMax + 1) tokens := by
      rw [htop]; exact hpos
    obtain ⟨-, hset'⟩ := extended_settled cfg j.gen hset.top_eq hpos'
    refine ⟨tokens, _, _, [_], hs, rfl, ?_, ?_, rfl, hship, ⟨tokens, ?_, ?_⟩, Or.inl ⟨hp, rfl, rfl⟩⟩
    · intro req calls before hmem
      cases List.mem_singleton.mp hmem
    · exact Nat.lt_succ_of_le hle
    · rw [List.nil_append, ← hpre] at hset'
      exact hset'
    · rw [hgather']
      exact congrArg some (List.append_nil tokens).symm
  · -- the packets go behind those sent before
    have hge := h.live.nSent_ge
    have hlt := hrun.sent
    have hlater : gatherFrom j.edge.feats (0 + (j.edge.nSent + 1).toNat)
        (j.nPast - (j.edge.nSent + 1)).toNat = some tokens := by
      rw [zero_add, ← toShip_later hp]; exact hship
    have hall := gatherFrom_append hgather hlater
    rw [show (j.edge.nSent + 1).toNat + (j.nPast - (j.edge.nSent + 1)).toNat = j.nPast by omega]
      at hall
    refine ⟨tokens, _, _, [], hs, (List.append_nil _).symm, ?_, ?_, rfl, hship, ⟨sent, hset, hall⟩,
      Or.inr ⟨hp, rfl, rfl⟩⟩
    · intro req calls before hmem
      cases hmem
    · exact Nat.lt_succ_of_le hle

/-- In a round the accepted packets sit right behind those sent before. -/
theorem round_positions (h : JointInv cfg session j) {p : SpecParams} {idLast : ℤ}
    {tokens : List TokenFeatures} {req : DraftRequest} {d : Daemon} {pre : List Served}
    (hr : Round cfg M session j idLast (j.callDraft cfg M p idLast) tokens req d pre) :
    ∃ sent, d.session.engine.Settled (sent.map (cellVal cfg j.gen)) ∧
      gatherFrom j.edge.feats 0 j.nPast = some (sent ++ req.acceptedTokens) ∧
      PositionsFrom (d.session.engine.kvConfirmedMax + 1) req.acceptedTokens ∧
      ∀ tf ∈ req.acceptedTokens, SizeOk cfg tf := by
  obtain ⟨sent, hset, hgather⟩ := hr.cache
  obtain ⟨hpos, hsize⟩ := gathered_settled h hgather
  have htop : d.session.engine.kvConfirmedMax + 1 = 0 + (sent.length : ℤ) := by
    have := hset.top_eq
    rw [List.length_map] at this
    omega
  refine ⟨sent, hset, hgather, ?_, fun tf htf => hsize tf (List.mem_append_right _ htf)⟩
  rw [htop]
  exact positionsFrom_append_right hpos

theorem round_meets (h : JointInv cfg session j) {p : SpecParams} {idLast : ℤ}
    {tokens : List TokenFeatures} {req : DraftRequest} {d : Daemon} {pre : List Served}
    (hr : Round cfg M session j idLast (j.callDraft cfg M p idLast) tokens req d pre) :
    MeetsCommitted cfg j req (.succeed j.gen) d.session := by
  obtain ⟨sent, hset, hgather, hpos, hsize⟩ := round_positions h hr
  have hacc := accept_succeed cfg j.gen hset hpos hsize
  obtain ⟨hcells, -⟩ := extended_settled cfg j.gen hset.top_eq hpos
  refine ⟨hr.fresh, by rw [hacc], sent ++ req.acceptedTokens, ?_, ?_⟩
  · rw [gatherFrom_eq_some.mp hgather, List.range_eq_range']
    refine List.map_congr_left fun pos hmem => ?_
    have hsome := gatherFrom_isSome.mp (Option.isSome_of_eq_some hgather) pos (Nat.zero_le _)
      (List.mem_range'_1.mp hmem).2
    obtain ⟨tf, htf⟩ := Option.isSome_iff_exists.mp hsome
    rw [htf, h.captured pos tf htf]
  · rw [hacc, hcells, List.map_append]

theorem round_running (h : JointInv cfg session j) {p : SpecParams} {idLast : ℤ}
    {tokens : List TokenFeatures} {req : DraftRequest} {d : Daemon} {pre : List Served}
    (hr : Round cfg M session j idLast (j.callDraft cfg M p idLast) tokens req d pre) :
    Running cfg (j.step cfg M p (.draft idLast)) := by
  obtain ⟨sent, hset, hgather, hpos, hsize⟩ := round_positions h hr
  have hs := hr.handled
  have hsession : (j.step cfg M p (.draft idLast)).edge.daemon.session =
      ⟨(d.session.engine.draft cfg M (.succeed j.gen) (.ofWire req)).2, req.stepId⟩ := by
    rw [Joint.step, hs.daemon, Daemon.draft]
    simp only [draft_executed cfg M (.succeed j.gen) hr.fresh]
  have hsent : (j.step cfg M p (.draft idLast)).edge.nSent = j.nPast - 1 := hs.nSent
  refine ⟨?_, ?_, ⟨sent ++ req.acceptedTokens, ?_, ?_⟩, ?_⟩
  · rw [hsent]
    exact sub_one_lt _
  · rw [hsession, hr.stepId]
    exact hs.stepId.ge
  · rw [hsent, sub_add_cancel, Int.toNat_natCast, ← hgather, Joint.step, hs.feats]
  · rw [hsession, List.map_append]
    exact draft_succeed cfg M j.gen hset hpos hsize
  · intro hp
    rw [Joint.step, hs.prefilled] at hp
    cases hp

/-! ### Runs -/

/-- A new generation starts over on both sides. -/
theorem begin_jointInv (h : JointInv cfg session j) (p : SpecParams) (prompt : List ℤ) :
    JointInv cfg session (j.step cfg M p (.begin prompt)) := by
  have hb := edge_begin cfg M p h.live (.lossless (j.gen + 1)) prompt
  have hd : (j.step cfg M p (.begin prompt)).edge.daemon = j.edge.daemon.reset :=
    hb.daemon.trans (if_pos rfl)
  have hkept : ∀ pos tf, (j.step cfg M p (.begin prompt)).edge.feats pos = some tf →
      j.edge.feats pos = some tf := by
    intro pos tf htf
    rw [Joint.step, hb.feats] at htf
    split at htf
    · cases htf
    · exact htf
  refine ⟨hb.live, fun pos tf htf => h.sized pos tf (hkept pos tf htf),
    fun pos tf htf => h.captured pos tf (hkept pos tf htf), fun _ => ⟨?_, ?_, ⟨[], ?_, ?_⟩, ?_⟩⟩
  · rw [Joint.step, hb.nSent]
    exact neg_one_lt_zero.trans_le (Int.natCast_nonneg _)
  · rw [hd]
    exact Nat.zero_le _
  · rw [Joint.step, hb.nSent]
    rfl
  · rw [hd]
    exact reset_settled j.edge.daemon.session.engine
  · intro _
    rw [hd]
    rfl

theorem jointInv_step (M : DraftModel) (nMax : ℤ) (en : Endian) (h : JointInv cfg session j)
    {e : JointEvent} (he : j.Legal e) :
    JointInv cfg session (j.step cfg M (handshake cfg nMax en) e) := by
  cases e with
  | process layerInp batch =>
    obtain ⟨hlive, hsized, hcap⟩ := stored_inv h (packetsOf_size cfg nMax en layerInp batch)
    rw [Joint.step, decode_eq h.live]
    exact ⟨hlive, hsized, hcap, fun hactive => by cases hactive⟩
  | begin prompt => exact begin_jointInv h _ prompt
  | draft idLast =>
    have hrun := h.running he
    rcases draft_round h hrun M (handshake cfg nMax en) idLast with
      ⟨-, heq⟩ | ⟨tokens, req, d, pre, hr⟩
    · have hgrow := hrun.stepId.trans (stepId_le_skipped j.edge)
      rw [Joint.step, heq]
      exact ⟨h.live.skipped _ _, h.sized, h.captured,
        fun _ => ⟨hrun.sent, hgrow, hrun.cache, hrun.empty⟩⟩
    · have hfeats : (j.step cfg M (handshake cfg nMax en) (.draft idLast)).edge.feats =
          j.edge.feats := hr.handled.feats
      refine ⟨hr.handled.live, ?_, ?_, fun _ => round_running h hr⟩
      · rw [hfeats]; exact h.sized
      · rw [hfeats]; exact h.captured
  | verify layerInp entries k =>
    obtain ⟨hactive, hpos, -⟩ := he
    rw [Joint.step, decode_eq h.live]
    refine stored_round h hactive (packetsOf_size cfg nMax en layerInp (.tokens entries)) ?_ k
    intro tf htf
    have hmem := packetsOf_position htf
    rw [hpos] at hmem
    exact (List.mem_range'_1.mp hmem).1

theorem jointInv_exec (cfg : ModelConfig) (M : DraftModel) (nMax : ℤ) (en : Endian) (session : ℕ)
    (golden : Option GoldenDir) {es : List JointEvent}
    (hes : Along (Joint.step cfg M (handshake cfg nMax en)) Joint.Legal (.fresh session golden) es) :
    JointInv cfg session (exec (Joint.step cfg M (handshake cfg nMax en)) (.fresh session golden) es) :=
  exec_inv (JointInv cfg session) (fun _ _ h he => jointInv_step M nMax en h he)
    (fresh_jointInv cfg session golden) hes

theorem draftsMeet_step (h : JointInv cfg session j) (p : SpecParams) {e : JointEvent}
    (he : j.Legal e) : DraftsMeetCommitted cfg M p j e := by
  cases e with
  | process layerInp batch => trivial
  | begin prompt => trivial
  | verify layerInp entries k => trivial
  | draft idLast =>
    have hrun := h.running he
    rcases draft_round h hrun M p idLast with ⟨hship, heq⟩ | ⟨tokens, req, d, pre, hr⟩
    · have hserved : j.handled cfg M p (.draft idLast) = [] := by
        rw [Joint.handled, Joint.step, heq]
        exact List.drop_length
      refine ⟨fun req calls before hmem => ?_, fun hheld => ?_⟩
      · rw [hserved] at hmem
        cases hmem
      · obtain ⟨start, n, hgather, hstart, hn⟩ := toShip_eq h.live j.nPast
        rw [hgather] at hship
        have hsome : (gatherFrom j.edge.feats start n).isSome :=
          gatherFrom_isSome.mpr fun q hlo hhi => hheld q (by have := hrun.sent; omega)
        rw [hship] at hsome
        cases hsome
    · have hserved : j.handled cfg M p (.draft idLast) =
          pre ++ [.draft req (.succeed j.gen) d.session] := by
        rw [Joint.handled, Joint.step, hr.handled.daemon, Daemon.draft]
        simp only [hr.served, List.append_assoc, List.drop_left]
      refine ⟨fun req' calls before hmem => ?_, fun _ => ⟨req, .succeed j.gen, d.session, ?_⟩⟩
      · rw [hserved] at hmem
        rcases List.mem_append.mp hmem with hmem | hmem
        · exact absurd hmem (hr.noDraft req' calls before)
        · cases List.mem_singleton.mp hmem
          exact round_meets h hr
      · rw [hserved]
        exact List.mem_append_right _ (List.mem_singleton.mpr rfl)

/-- COMMITTED CACHE: in every run of any number of generations in which nothing is lost, every Draft
    passes the step guard, and its noise block is decoded behind exactly the committed positions, each
    with the packet captured last for it. -/
theorem drafts_meet_committed (cfg : ModelConfig) (M : DraftModel) (nMax : ℤ) (en : Endian)
    (session : ℕ) (golden : Option GoldenDir) {es : List JointEvent}
    (hes : Along (Joint.step cfg M (handshake cfg nMax en)) Joint.Legal (.fresh session golden) es) :
    Along (Joint.step cfg M (handshake cfg nMax en))
      (DraftsMeetCommitted cfg M (handshake cfg nMax en)) (.fresh session golden) es :=
  along_of_inv (JointInv cfg session) (fun _ _ h he => jointInv_step M nMax en h he)
    (fun _ _ h he => draftsMeet_step h _ he) (fresh_jointInv cfg session golden) hes

/-- Two generations; in the second a rejected position is decoded again. -/
def rejectedOnce : List JointEvent :=
  [.process (zeroLayer 2) (.tokens [(1, 0), (2, 1)]), .begin [1, 2], .draft 9,
    .verify (zeroLayer 2) [(9, 2), (5, 3)] 2, .draft 7,
    .process (zeroLayer 1) (.tokens [(3, 0)]), .begin [3], .draft 8,
    .verify (zeroLayer 2) [(8, 1), (5, 2)] 1, .draft 6, .verify (zeroLayer 1) [(6, 2)] 1, .draft 4]

theorem drafts_meet_committed_small :
    Along (Joint.step smallConfig (constModel [5]) (handshake smallConfig 4 .little))
      (DraftsMeetCommitted smallConfig (constModel [5]) (handshake smallConfig 4 .little))
      (.fresh 1 none) rejectedOnce :=
  drafts_meet_committed smallConfig (constModel [5]) 4 .little 1 none (by decide)

end DsparkEdge
