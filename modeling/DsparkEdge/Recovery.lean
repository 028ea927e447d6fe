import DsparkEdge.Joint

/-! The two halves when any RPC may fail, any way it can: the request is lost, the daemon fails inside it,
    the reply is lost. The server half takes no notice of a failed Prefill, Draft or Reset, so a failure may
    leave the daemon without positions the server counts as sent; from then on the generation is beyond
    repair. The next Reset that the daemon executes repairs it.

        generation n     Draft ─✗                     the cache lacks what the server counts as sent
        begin            Reset ─▶ executed
        generation n+1   Prefill ─▶  Draft ─▶ …       harmless: handled, and the packets went in

    A lost reply is harmless, and so is a noise block that cannot be decoded. -/

namespace DsparkEdge

open Runs SeqCache

/-- What becomes of a Prefill or a Draft. -/
inductive RpcFate where
  | lost
  | handled (calls : LlamaCalls) (answered : Bool)

/-- What becomes of the RPCs of one call of the server half. A Reset that is answered without being
    executed is refused. -/
structure Faults where
  prefill : RpcFate
  draft : RpcFate
  executed : Bool
  answered : Bool

/-- A call handled by the daemon, or not, and what the client hears of it. -/
def RpcFate.serve {α : Type*} (gen : ℕ) (empty : α) (handle : LlamaCalls → Daemon × α) (d : Daemon) :
    RpcFate → Daemon × Status × α
  | .lost => (d, .failed "unavailable", empty)
  | .handled calls answered =>
    let r := handle { calls with gen := gen }
    (r.1, if answered then (.ok, r.2) else (.failed "unavailable", empty))

/-- The stub of a client of this daemon, in generation `gen`. -/
def faultyStub (cfg : ModelConfig) (M : DraftModel) (gen : ℕ) (f : Faults) : Stub Daemon where
  prefill d req := f.prefill.serve gen {} (fun calls => (d.prefill cfg calls req,
    (d.session.prefill cfg calls req).1)) d
  draft d req := f.draft.serve gen {} (fun calls => (d.draft cfg M calls req,
    (d.session.draft cfg M calls req).1)) d
  reset d _ := (if f.executed then d.reset else d,
    if f.answered then (.ok, ⟨f.executed⟩) else (.failed "unavailable", {}))

inductive FaultEvent where
  | process (layerInp : LayerInp) (batch : LlamaBatch)
  | begin (f : Faults) (prompt : List ℤ)
  | draft (f : Faults) (idLast : ℤ)
  | verify (layerInp : LayerInp) (entries : List (ℤ × ℕ)) (k : ℕ)

/-- The same event with nothing lost. -/
def FaultEvent.plain : FaultEvent → JointEvent
  | .process layerInp batch => .process layerInp batch
  | .begin _ prompt => .begin prompt
  | .draft _ idLast => .draft idLast
  | .verify layerInp entries k => .verify layerInp entries k

def Joint.faultStep (cfg : ModelConfig) (M : DraftModel) (p : SpecParams) (j : Joint) : FaultEvent → Joint
  | .process layerInp batch => { j.decode p layerInp batch with active := false }
  | .begin f prompt =>
    { j with
      edge := j.edge.begin (grpcDrafter (faultyStub cfg M (j.gen + 1) f)) prompt
      nPast := prompt.length
      gen := j.gen + 1
      active := true }
  | .draft f idLast =>
    { j with edge := (j.edge.draft (grpcDrafter (faultyStub cfg M j.gen f)) p [⟨true, j.nPast, idLast⟩]).1 }
  | .verify layerInp entries k => { j.decode p layerInp (.tokens entries) with nPast := j.nPast + k }

def Joint.FaultLegal (j : Joint) (e : FaultEvent) : Prop := j.Legal e.plain

instance (j : Joint) (e : FaultEvent) : Decidable (j.FaultLegal e) := inferInstanceAs (Decidable (j.Legal _))

/-- The daemon handles the call and its packets go in. -/
def RpcFate.Injects : RpcFate → Prop
  | .lost => False
  | .handled calls _ => ∀ i, calls.chunk i = .ok

/-- The Reset is executed; the packets of a draft go in, those of the prompt too when it is the first. -/
def Joint.Harmless (j : Joint) : FaultEvent → Prop
  | .begin f _ => f.executed = true
  | .draft f _ => (j.edge.prefilled = false → f.prefill.Injects) ∧ f.draft.Injects
  | _ => True

def Joint.faultHandled (cfg : ModelConfig) (M : DraftModel) (p : SpecParams) (j : Joint) (e : FaultEvent) :
    List Served :=
  (j.faultStep cfg M p e).edge.daemon.served.drop j.edge.daemon.served.length

/-- Every Draft the daemon handles in a call of `draft()` meets the committed cache; and if every committed
    position is held, it handles one. -/
def FaultDraftsMeet (cfg : ModelConfig) (M : DraftModel) (p : SpecParams) (j : Joint) (e : FaultEvent) : Prop :=
  match e with
  | .draft _ _ =>
    (∀ req calls before, .draft req calls before ∈ j.faultHandled cfg M p e →
      MeetsCommitted cfg j req calls before) ∧
    ((∀ pos < j.nPast, (j.edge.feats pos).isSome) →
      ∃ req calls before, .draft req calls before ∈ j.faultHandled cfg M p e)
  | _ => True

variable {cfg : ModelConfig} {M : DraftModel} {session : ℕ} {j : Joint} {p : SpecParams} {f : Faults}

/-! ### Whatever fails -/

/-- What no failure touches: the connection, and the packets captured. -/
structure Kept (cfg : ModelConfig) (session : ℕ) (j : Joint) : Prop where
  live : j.edge.Live session
  sized : Sized cfg j.edge.feats
  captured : ∀ pos tf, j.edge.feats pos = some tf → j.captured pos = some tf

theorem Kept.inv (h : Kept cfg session j) (hrun : j.active = true → Running cfg j) : JointInv cfg session j :=
  ⟨h.live, h.sized, h.captured, hrun⟩

theorem JointInv.kept (h : JointInv cfg session j) : Kept cfg session j := ⟨h.live, h.sized, h.captured⟩

/-- An event that keeps some of the packets and captures nothing. -/
theorem Kept.of_feats (h : Kept cfg session j) {j' : Joint} (hlive : j'.edge.Live session)
    (hfeats : ∀ pos tf, j'.edge.feats pos = some tf → j.edge.feats pos = some tf)
    (hcaptured : j'.captured = j.captured) : Kept cfg session j' where
  live := hlive
  sized := fun pos tf htf => h.sized pos tf (hfeats pos tf htf)
  captured := by
    intro pos tf htf
    rw [hcaptured]
    exact h.captured pos tf (hfeats pos tf htf)

theorem Kept.of_eq (h : Kept cfg session j) {j' : Joint} (hedge : j'.edge = j.edge)
    (hcaptured : j'.captured = j.captured) : Kept cfg session j' := by
  refine h.of_feats ?_ ?_ hcaptured
  · rw [hedge]
    exact h.live
  · rw [hedge]
    exact fun _ _ htf => htf

/-- A new generation, on whatever becomes of its Reset. -/
structure Restarted (session : ℕ) (s s' : Edge) (prompt : List ℤ) (f : Faults) : Prop where
  live : s'.Live session
  daemon : s'.daemon = if f.executed then s.daemon.reset else s.daemon
  feats : ∀ pos tf, s'.feats pos = some tf → s.feats pos = some tf
  prefilled : s'.prefilled = false
  nSent : s'.nSent = -1
  stepId : s'.stepId = 0

theorem faulty_begin (cfg : ModelConfig) (M : DraftModel) (gen : ℕ) {s : Edge} (h : s.Live session) (f : Faults)
    (prompt : List ℤ) : Restarted session s (s.begin (grpcDrafter (faultyStub cfg M gen f)) prompt) prompt f := by
  obtain ⟨c, hready, hnet, heq⟩ := begin_connected h (faultyStub cfg M gen f) prompt
  rw [heq]
  refine ⟨⟨⟨c, rfl, hready, rfl⟩, keyed_trim h.keyed _, le_rfl, fun _ => rfl⟩, hnet, fun pos tf htf => ?_, rfl, rfl,
    rfl⟩
  simp only at htf
  split at htf
  · cases htf
  · exact htf

/-- A call of `draft()` that sent its requests, `d` being the daemon behind them. -/
structure Shipped (session nPast : ℕ) (s s' : Edge) (d : Daemon) : Prop where
  live : s'.Live session
  daemon : s'.daemon = d
  feats : s'.feats = s.feats
  prefilled : s'.prefilled = true
  nSent : s'.nSent = nPast - 1
  stepId : s'.stepId = s.stepId + 1

theorem shipped_of_drafted {s : Edge} (h : s.Live session) {dp : DraftParams} {res : DraftResponse}
    {out : Edge × List ℤ} {d : Daemon} (hd : Drafted session dp res s out d) :
    Shipped session dp.nPast s out.1 d := by
  obtain ⟨hdaemon, hlive⟩ := edge_of_connected (hd.connected h.keyed)
  exact ⟨hlive, hdaemon, hd.feats, hd.prefilled, hd.nSent, hd.stepId⟩

/-- What a call of `draft()` can come to. -/
theorem faulty_draft_cases (cfg : ModelConfig) (M : DraftModel) (p : SpecParams) (gen : ℕ) {s : Edge}
    (h : s.Live session) (f : Faults) (nPast : ℕ) (idLast : ℤ) :
    let S := faultyStub cfg M gen f
    let s' := (s.draft (grpcDrafter S) p [⟨true, nPast, idLast⟩]).1
    s.toShip nPast = none ∧
        s' = { s.account nPast with stepId := if s.prefilled then s.stepId + 1 else s.stepId } ∨
      ∃ tokens, s.toShip nPast = some tokens ∧
        (s.prefilled = false ∧ Shipped session nPast s s'
            (S.draft (S.prefill s.daemon ⟨session, tokens, true⟩).1
              (wireRequest p session (s.stepId + 1) ⟨true, nPast, idLast⟩ (nPast - 1) [])).1 ∨
          s.prefilled = true ∧ Shipped session nPast s s'
            (S.draft s.daemon (wireRequest p session (s.stepId + 1) ⟨true, nPast, idLast⟩ s.nSent tokens)).1) := by
  intro S s'
  have hfind : ([⟨true, nPast, idLast⟩] : List DraftParams).find? DraftParams.drafting =
      some ⟨true, nPast, idLast⟩ := rfl
  cases hship : s.toShip nPast with
  | none => exact Or.inl ⟨rfl, by rw [show s' = _ from congrArg Prod.fst (draft_missing h S p hfind hship)]⟩
  | some tokens =>
    refine Or.inr ⟨tokens, rfl, ?_⟩
    cases hp : s.prefilled with
    | false => exact Or.inl ⟨rfl, shipped_of_drafted h (draft_first h S p hfind hp hship)⟩
    | true => exact Or.inr ⟨rfl, shipped_of_drafted h (draft_later h S p hfind hp hship)⟩

theorem kept_step (M : DraftModel) (nMax : ℤ) (en : Endian) (e : FaultEvent) (h : Kept cfg session j) :
    Kept cfg session (j.faultStep cfg M (handshake cfg nMax en) e) := by
  have hstored : ∀ layerInp batch,
      Kept cfg session (j.stored (packetsOf (handshake cfg nMax en) layerInp batch)) := by
    intro layerInp batch
    have hinv : JointInv cfg session { j with active := false } := ⟨h.live, h.sized, h.captured, by simp⟩
    obtain ⟨hlive, hsized, hcap⟩ := stored_inv hinv (packetsOf_size cfg nMax en layerInp batch)
    exact ⟨hlive, hsized, hcap⟩
  cases e with
  | process layerInp batch =>
    rw [Joint.faultStep, decode_eq h.live]
    exact (hstored layerInp batch).of_eq rfl rfl
  | verify layerInp entries k =>
    rw [Joint.faultStep, decode_eq h.live]
    have hk := hstored layerInp (.tokens entries)
    generalize packetsOf (handshake cfg nMax en) layerInp (.tokens entries) = packets at hk ⊢
    exact hk.of_eq rfl rfl
  | begin f prompt =>
    have hr := faulty_begin cfg M (j.gen + 1) h.live f prompt
    exact h.of_feats hr.live hr.feats rfl
  | draft f idLast =>
    rcases faulty_draft_cases cfg M (handshake cfg nMax en) j.gen h.live f j.nPast idLast with
      ⟨-, heq⟩ | ⟨tokens, -, ⟨-, hs⟩ | ⟨-, hs⟩⟩
    · rw [Joint.faultStep, heq]
      exact h.of_feats (h.live.skipped _ _) (fun _ _ htf => htf) rfl
    · exact h.of_feats hs.live (by rw [Joint.faultStep, hs.feats]; exact fun _ _ htf => htf) rfl
    · exact h.of_feats hs.live (by rw [Joint.faultStep, hs.feats]; exact fun _ _ htf => htf) rfl

/-! ### A generation on an executed Reset -/

/-- With the Reset executed the new generation starts from nothing on both sides. -/
theorem begin_executed (h : Kept cfg session j) (M : DraftModel) (p : SpecParams) (hf : f.executed = true)
    (prompt : List ℤ) : JointInv cfg session (j.faultStep cfg M p (.begin f prompt)) := by
  have hr := faulty_begin cfg M (j.gen + 1) h.live f prompt
  have hd : (j.faultStep cfg M p (.begin f prompt)).edge.daemon = j.edge.daemon.reset :=
    hr.daemon.trans (if_pos hf)
  have hkept : Kept cfg session (j.faultStep cfg M p (.begin f prompt)) := h.of_feats hr.live hr.feats rfl
  refine hkept.inv fun _ => ⟨?_, ?_, ⟨[], ?_, ?_⟩, fun _ => ?_⟩
  · rw [Joint.faultStep, hr.nSent]
    exact neg_one_lt_zero.trans_le (Int.natCast_nonneg _)
  · rw [hd]
    exact Nat.zero_le _
  · rw [Joint.faultStep, hr.nSent]
    rfl
  · rw [hd]
    exact reset_settled j.edge.daemon.session.engine
  · have hcells : j.edge.daemon.reset.session.engine.cells = [] := rfl
    rw [hd, hcells]

/-- A call of `draft()` whose packets went in: the Draft the daemon handled, the daemon that met it, what
    was handled before it. -/
structure Healthy (cfg : ModelConfig) (M : DraftModel) (session : ℕ) (j : Joint) (s' : Edge) (req : DraftRequest)
    (calls : LlamaCalls) (d : Daemon) (pre : List Served) : Prop where
  shipped : Shipped session j.nPast j.edge s' (d.draft cfg M calls req)
  gen : calls.gen = j.gen
  chunks : ∀ i, calls.chunk i = .ok
  served : d.served = j.edge.daemon.served ++ pre
  noDraft : ∀ req calls before, .draft req calls before ∉ pre
  fresh : d.session.lastStepId < req.stepId
  stepId : req.stepId = j.edge.stepId + 1
  cache : ∃ sent : List TokenFeatures, d.session.engine.Settled (sent.map (cellVal cfg j.gen)) ∧
    gatherFrom j.edge.feats 0 j.nPast = some (sent ++ req.acceptedTokens)

/-- Where every chunk goes in, packets of the right size are accepted. -/
theorem accept_injects {calls : LlamaCalls} (hcalls : ∀ i, calls.chunk i = .ok) {tokens : List TokenFeatures}
    {st : Engine} {vals : List CellVal} (h : st.Settled vals) (hpos : PositionsFrom (st.kvConfirmedMax + 1) tokens)
    (hsize : ∀ tf ∈ tokens, SizeOk cfg tf) :
    st.accept cfg calls tokens = (true, st.extended cfg calls.gen vals tokens) := by
  have hok : (st.accept cfg calls tokens).1 = true := by
    unfold Engine.accept
    rw [injectFeatures_succeed cfg hcalls hsize]
    rfl
  rcases accept_settled cfg calls h hpos with heq | ⟨junk, heq, -⟩
  · exact heq
  · rw [heq] at hok
    cases hok

/-- So is a prompt, into an empty cache. -/
theorem prefill_injects {calls : LlamaCalls} (hcalls : ∀ i, calls.chunk i = .ok) {tokens : List TokenFeatures}
    {st : Engine} (hcells : st.cells = []) (htop : st.kvConfirmedMax = -1) (hpos : PositionsFrom 0 tokens)
    (hsize : ∀ tf ∈ tokens, SizeOk cfg tf) :
    (st.prefill cfg calls tokens).2.2.Settled (tokens.map (cellVal cfg calls.gen)) := by
  have hcells' : st.cells = consec 0 ([] : List CellVal) := hcells
  have htop' : st.kvConfirmedMax = (([] : List CellVal).length : ℤ) - 1 := htop
  have hpos' : PositionsFrom (st.kvConfirmedMax + 1) tokens := by
    rw [htop]
    exact hpos
  have hok : (st.prefill cfg calls tokens).1 = true := by
    unfold Engine.prefill
    rw [injectFeatures_succeed cfg hcalls hsize]
    rfl
  rw [prefill_extended cfg calls hcells' htop' hpos' hok]
  exact (extended_settled cfg calls.gen htop' hpos').2

/-- A call the daemon handles leaves it where the call does. -/
theorem serve_handled {α : Type*} (gen : ℕ) (empty : α) (handle : LlamaCalls → Daemon × α) (d : Daemon)
    {r : RpcFate} (h : r.Injects) : ∃ calls : LlamaCalls, calls.gen = gen ∧ (∀ i, calls.chunk i = .ok) ∧
      (r.serve gen empty handle d).1 = (handle calls).1 := by
  cases r with
  | lost => cases h
  | handled calls answered => exact ⟨{ calls with gen := gen }, rfl, h, rfl⟩

/-- What a harmless call of `draft()` in a running generation comes to. -/
theorem healthy_round (h : JointInv cfg session j) (hrun : Running cfg j) (M : DraftModel) (p : SpecParams)
    {idLast : ℤ} (hf : j.Harmless (.draft f idLast)) :
    (j.edge.toShip j.nPast = none ∧ (j.faultStep cfg M p (.draft f idLast)).edge =
      { j.edge.account j.nPast with
        stepId := if j.edge.prefilled then j.edge.stepId + 1 else j.edge.stepId }) ∨
    ∃ req calls d pre, Healthy cfg M session j (j.faultStep cfg M p (.draft f idLast)).edge req calls d pre := by
  have hle := hrun.stepId
  obtain ⟨sent, hgather, hset⟩ := hrun.cache
  rcases faulty_draft_cases cfg M p j.gen h.live f j.nPast idLast with hmiss | ⟨tokens, hship, hs⟩
  · exact Or.inl hmiss
  right
  rcases hs with ⟨hp, hs⟩ | ⟨hp, hs⟩
  · -- the prompt goes into an empty cache
    have hgather' : gatherFrom j.edge.feats 0 j.nPast = some tokens := by
      rw [← toShip_first hp]
      exact hship
    obtain ⟨hpos, hsize⟩ := gathered_settled h hgather'
    have hunsent := h.live.unsent hp
    have hsent : sent = [] := by
      rw [hunsent] at hgather
      exact (Option.some.inj hgather).symm
    rw [hsent, List.map_nil] at hset
    obtain ⟨pcalls, hpgen, hpchunks, hpre⟩ := serve_handled (α := PrefillResponse) j.gen {}
      (fun calls => (j.edge.daemon.prefill cfg calls ⟨session, tokens, true⟩,
        (j.edge.daemon.session.prefill cfg calls ⟨session, tokens, true⟩).1)) j.edge.daemon (hf.1 hp)
    have hset' := prefill_injects hpchunks (hrun.empty hp) hset.top_eq hpos hsize
    rw [hpgen] at hset'
    have hd : ((faultyStub cfg M j.gen f).prefill j.edge.daemon ⟨session, tokens, true⟩).1 =
        j.edge.daemon.prefill cfg pcalls ⟨session, tokens, true⟩ := hpre
    rw [hd] at hs
    obtain ⟨calls, hgen, hchunks, hdraft⟩ := serve_handled (α := DraftResponse) j.gen {}
      (fun calls => ((j.edge.daemon.prefill cfg pcalls ⟨session, tokens, true⟩).draft cfg M calls
          (wireRequest p session (j.edge.stepId + 1) ⟨true, j.nPast, idLast⟩ (j.nPast - 1) []),
        ((j.edge.daemon.prefill cfg pcalls ⟨session, tokens, true⟩).session.draft cfg M calls
          (wireRequest p session (j.edge.stepId + 1) ⟨true, j.nPast, idLast⟩ (j.nPast - 1) [])).1))
      (j.edge.daemon.prefill cfg pcalls ⟨session, tokens, true⟩) hf.2
    refine ⟨_, calls, _, [_], ⟨hdraft ▸ hs, hgen, hchunks, rfl, ?_, Nat.lt_succ_of_le hle, rfl, ⟨tokens, hset', ?_⟩⟩⟩
    · intro req calls before hmem
      cases List.mem_singleton.mp hmem
    · rw [hgather']
      exact congrArg some (List.append_nil tokens).symm
  · -- the packets go behind those sent before
    have hge := h.live.nSent_ge
    have hlt := hrun.sent
    have hlater : gatherFrom j.edge.feats (0 + (j.edge.nSent + 1).toNat)
        (j.nPast - (j.edge.nSent + 1)).toNat = some tokens := by
      rw [zero_add, ← toShip_later hp]
      exact hship
    have hall := gatherFrom_append hgather hlater
    rw [show (j.edge.nSent + 1).toNat + (j.nPast - (j.edge.nSent + 1)).toNat = j.nPast by omega] at hall
    obtain ⟨calls, hgen, hchunks, hdraft⟩ := serve_handled (α := DraftResponse) j.gen {}
      (fun calls => (j.edge.daemon.draft cfg M calls
          (wireRequest p session (j.edge.stepId + 1) ⟨true, j.nPast, idLast⟩ j.edge.nSent tokens),
        (j.edge.daemon.session.draft cfg M calls
          (wireRequest p session (j.edge.stepId + 1) ⟨true, j.nPast, idLast⟩ j.edge.nSent tokens)).1))
      j.edge.daemon hf.2
    refine ⟨_, calls, _, [], ⟨hdraft ▸ hs, hgen, hchunks, (List.append_nil _).symm, ?_, Nat.lt_succ_of_le hle, rfl,
      ⟨sent, hset, hall⟩⟩⟩
    intro req calls before hmem
    cases hmem

section Healthy

variable {s' : Edge} {req : DraftRequest} {calls : LlamaCalls} {d : Daemon} {pre : List Served}

/-- The accepted packets sit right behind those sent before, and are injected. -/
theorem Healthy.injected (hr : Healthy cfg M session j s' req calls d pre) (h : JointInv cfg session j) :
    ∃ sent, d.session.engine.kvConfirmedMax = ((sent.map (cellVal cfg j.gen)).length : ℤ) - 1 ∧
      gatherFrom j.edge.feats 0 j.nPast = some (sent ++ req.acceptedTokens) ∧
      PositionsFrom (d.session.engine.kvConfirmedMax + 1) req.acceptedTokens ∧
      d.session.engine.accept cfg calls req.acceptedTokens =
        (true, d.session.engine.extended cfg j.gen (sent.map (cellVal cfg j.gen)) req.acceptedTokens) := by
  obtain ⟨sent, hset, hgather⟩ := hr.cache
  obtain ⟨hpos, hsize⟩ := gathered_settled h hgather
  have htop : d.session.engine.kvConfirmedMax + 1 = 0 + (sent.length : ℤ) := by
    have := hset.top_eq
    rw [List.length_map] at this
    omega
  have hpos' : PositionsFrom (d.session.engine.kvConfirmedMax + 1) req.acceptedTokens := by
    rw [htop]
    exact positionsFrom_append_right hpos
  refine ⟨sent, hset.top_eq, hgather, hpos', ?_⟩
  rw [← hr.gen] at hset ⊢
  exact accept_injects hr.chunks hset hpos' fun tf htf => hsize tf (List.mem_append_right _ htf)

theorem Healthy.meets (hr : Healthy cfg M session j s' req calls d pre) (h : JointInv cfg session j) :
    MeetsCommitted cfg j req calls d.session := by
  obtain ⟨sent, htop, hgather, hpos, hacc⟩ := hr.injected h
  obtain ⟨hcells, -⟩ := extended_settled cfg j.gen htop hpos
  refine ⟨hr.fresh, by rw [hacc], sent ++ req.acceptedTokens, ?_, by rw [hacc, hcells, List.map_append]⟩
  rw [gatherFrom_eq_some.mp hgather, List.range_eq_range']
  refine List.map_congr_left fun pos hmem => ?_
  have hsome := gatherFrom_isSome.mp (Option.isSome_of_eq_some hgather) pos (Nat.zero_le _)
    (List.mem_range'_1.mp hmem).2
  obtain ⟨tf, htf⟩ := Option.isSome_iff_exists.mp hsome
  rw [htf, h.captured pos tf htf]

/-- The generation goes on, whether or not the block was decoded and the reply came back. -/
theorem Healthy.running (hr : Healthy cfg M session j s' req calls d pre) (h : JointInv cfg session j) :
    Running cfg { j with edge := s' } := by
  obtain ⟨sent, htop, hgather, hpos, hacc⟩ := hr.injected h
  have hs := hr.shipped
  have hsession : s'.daemon.session =
      ⟨(d.session.engine.draft cfg M calls (.ofWire req)).2, req.stepId⟩ := by
    rw [hs.daemon, Daemon.draft]
    simp only [draft_executed cfg M calls hr.fresh]
  have hsettled : (d.session.engine.draft cfg M calls (.ofWire req)).2.Settled
      (sent.map (cellVal cfg j.gen) ++ req.acceptedTokens.map (cellVal cfg j.gen)) := by
    unfold Engine.draft
    rw [show (StepRequest.ofWire req).acceptedTokens = req.acceptedTokens from rfl, hacc, ← hr.gen]
    rw [← hr.gen] at htop
    exact runDraft_settled cfg M calls _ _ htop hpos
  refine ⟨?_, ?_, ⟨sent ++ req.acceptedTokens, ?_, ?_⟩, fun hp => ?_⟩
  · rw [hs.nSent]
    exact sub_one_lt _
  · rw [hsession, hr.stepId]
    exact hs.stepId.ge
  · rw [hs.nSent, sub_add_cancel, Int.toNat_natCast, ← hgather, hs.feats]
  · rw [hsession, List.map_append]
    exact hsettled
  · rw [hs.prefilled] at hp
    cases hp

end Healthy

/-! ### Runs -/

theorem healthy_step (M : DraftModel) (nMax : ℤ) (en : Endian) (h : JointInv cfg session j) {e : FaultEvent}
    (he : j.FaultLegal e) (hf : j.Harmless e) :
    JointInv cfg session (j.faultStep cfg M (handshake cfg nMax en) e) := by
  have hkept := kept_step M nMax en e h.kept
  cases e with
  | process layerInp batch =>
    refine hkept.inv fun hactive => ?_
    rw [Joint.faultStep] at hactive
    cases hactive
  | begin f prompt => exact begin_executed h.kept M _ hf prompt
  | draft f idLast =>
    refine hkept.inv fun _ => ?_
    have hrun := h.running he
    rcases healthy_round h hrun M (handshake cfg nMax en) hf with ⟨-, heq⟩ | ⟨req, calls, d, pre, hr⟩
    · have hgrow := hrun.stepId.trans (stepId_le_skipped j.edge)
      have hstep : j.faultStep cfg M (handshake cfg nMax en) (.draft f idLast) =
          { j with edge := (j.faultStep cfg M (handshake cfg nMax en) (.draft f idLast)).edge } := rfl
      rw [hstep, heq]
      exact ⟨hrun.sent, hgrow, hrun.cache, hrun.empty⟩
    · exact hr.running h
  | verify layerInp entries k =>
    obtain ⟨hactive, hpos, -⟩ := he
    rw [Joint.faultStep, decode_eq h.live]
    refine stored_round h hactive (packetsOf_size cfg nMax en layerInp (.tokens entries)) ?_ k
    intro tf htf
    have hmem := packetsOf_position htf
    rw [hpos] at hmem
    exact (List.mem_range'_1.mp hmem).1

theorem healthy_drafts (h : JointInv cfg session j) (p : SpecParams) {e : FaultEvent} (he : j.FaultLegal e)
    (hf : j.Harmless e) : FaultDraftsMeet cfg M p j e := by
  cases e with
  | process layerInp batch => trivial
  | begin f prompt => trivial
  | verify layerInp entries k => trivial
  | draft f idLast =>
    have hrun := h.running he
    rcases healthy_round h hrun M p hf with ⟨hship, heq⟩ | ⟨req, calls, d, pre, hr⟩
    · have hserved : j.faultHandled cfg M p (.draft f idLast) = [] := by
        rw [Joint.faultHandled, heq]
        exact List.drop_length
      refine ⟨fun req calls before hmem => ?_, fun hheld => ?_⟩
      · rw [hserved] at hmem
        cases hmem
      · obtain ⟨start, n, hgather, hstart, hn⟩ := toShip_eq h.live j.nPast
        rw [hgather] at hship
        have hsome : (gatherFrom j.edge.feats start n).isSome :=
          gatherFrom_isSome.mpr fun q hlo hhi => hheld q (by have := hrun.sent; omega)
        rw [hship] at hsome
        cases hsome
    · have hserved : j.faultHandled cfg M p (.draft f idLast) = pre ++ [.draft req calls d.session] := by
        rw [Joint.faultHandled, hr.shipped.daemon, Daemon.draft]
        simp only [hr.served, List.append_assoc, List.drop_left]
      refine ⟨fun req' calls' before hmem => ?_, fun _ => ⟨req, calls, d.session, ?_⟩⟩
      · rw [hserved] at hmem
        rcases List.mem_append.mp hmem with hmem | hmem
        · exact absurd hmem (hr.noDraft req' calls' before)
        · cases List.mem_singleton.mp hmem
          exact hr.meets h
      · rw [hserved]
        exact List.mem_append_right _ (List.mem_singleton.mpr rfl)

/-- A RESET REPAIRS: whatever failed in whatever order before, once a generation's Reset is executed every
    Draft is decoded behind exactly the committed positions, each with the packet captured last for it, as
    long as the daemon takes in what it is sent; lost replies, and blocks that cannot be decoded, do no harm. -/
theorem reset_repairs (cfg : ModelConfig) (M : DraftModel) (nMax : ℤ) (en : Endian) (session : ℕ)
    (golden : Option GoldenDir) (es : List FaultEvent) {f : Faults} (hf : f.executed = true) (prompt : List ℤ)
    {rounds : List FaultEvent} :
    let step := Joint.faultStep cfg M (handshake cfg nMax en)
    let j := exec step (.fresh session golden) (es ++ [.begin f prompt])
    Along step Joint.FaultLegal j rounds → Along step Joint.Harmless j rounds →
      Along step (FaultDraftsMeet cfg M (handshake cfg nMax en)) j rounds := by
  intro step j hlegal hharmless
  have hkept : Kept cfg session (exec step (.fresh session golden) es) :=
    exec_inv_free (Kept cfg session) (fun _ e h => kept_step M nMax en e h) (fresh_jointInv cfg session golden).kept es
  have hj : JointInv cfg session j := by
    rw [show j = _ from exec_append ..]
    exact begin_executed hkept M (handshake cfg nMax en) hf prompt
  exact along_of_inv (JointInv cfg session) (fun _ _ h he => healthy_step M nMax en h he.1 he.2)
    (fun _ _ h he => healthy_drafts h _ he.1 he.2) hj (along_and step hlegal hharmless)

/-- Every RPC is handled; the replies come back or not. -/
def handledFaults (answered : Bool) : Faults :=
  ⟨.handled (.succeed 0) answered, .handled ⟨0, fun _ => .ok, .fails []⟩ answered, true, answered⟩

/-- A generation whose Draft is lost, and a Reset that is not executed. -/
def lossyRun : List FaultEvent :=
  [.process (zeroLayer 2) (.tokens [(1, 0), (2, 1)]), .begin (handledFaults true) [1, 2],
    .draft { handledFaults true with draft := .lost } 9, .begin { handledFaults true with executed := false } [1]]

theorem reset_repairs_small :
    let step := Joint.faultStep smallConfig (constModel [5]) (handshake smallConfig 4 .little)
    Along step (FaultDraftsMeet smallConfig (constModel [5]) (handshake smallConfig 4 .little))
      (exec step (.fresh 1 none) (lossyRun ++ [.begin (handledFaults false) [1]]))
      [.draft (handledFaults false) 9, .verify (zeroLayer 2) [(9, 1), (5, 2)] 1, .draft (handledFaults false) 7] :=
  reset_repairs smallConfig (constModel [5]) 4 .little 1 none lossyRun (f := handledFaults false) rfl [1] (by decide)
    ⟨⟨fun _ _ => rfl, fun _ => rfl⟩, trivial, ⟨fun _ _ => rfl, fun _ => rfl⟩, trivial⟩

end DsparkEdge
