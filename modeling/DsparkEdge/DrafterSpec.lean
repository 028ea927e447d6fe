import DsparkEdge.Drafter

/-! What one call of the server half does. The packets are looked up by position, so every run of
    them that `gather` returns is consecutive; and `draft()` either stops for a missing packet, or
    ships the prompt with an empty first request, or sends the newly committed positions.

        toShip = none       ─▶ no RPC
        toShip = some tokens, not prefilled  ─▶ Prefill tokens, Draft []
        toShip = some tokens, prefilled      ─▶ Draft tokens                      -/

namespace DsparkEdge

variable {δ : Type*}

/-! ### Packets by position -/

/-- Every packet is stored under its own position. -/
def Keyed (feats : Feats) : Prop := ∀ pos tf, feats pos = some tf → tf.position = pos

/-- The last of the packets of a position. -/
def lastOf (packets : List TokenFeatures) (pos : ℕ) : Option TokenFeatures :=
  packets.reverse.find? fun tf => tf.position = pos

theorem store_eq (feats : Feats) (packets : List TokenFeatures) (pos : ℕ) :
    store feats packets pos = (lastOf packets pos).or (feats pos) := by
  induction packets using List.reverseRecOn with
  | nil => rfl
  | append_singleton packets t ih =>
    rw [store, List.foldl_append, List.foldl_cons, List.foldl_nil, ← store, lastOf,
      List.reverse_append, List.reverse_singleton, List.singleton_append, List.find?_cons]
    rcases eq_or_ne t.position pos with rfl | hne
    · rw [Function.update_self, decide_eq_true rfl]; rfl
    · rw [Function.update_of_ne hne.symm, decide_eq_false hne, ih]; rfl

theorem position_of_lastOf {packets : List TokenFeatures} {pos : ℕ} {tf : TokenFeatures}
    (h : lastOf packets pos = some tf) : tf ∈ packets ∧ tf.position = pos := by
  refine ⟨List.mem_reverse.mp (List.mem_of_find?_eq_some h), ?_⟩
  have := List.find?_some h
  simpa using this

theorem lastOf_cons (t : TokenFeatures) (packets : List TokenFeatures) (pos : ℕ) :
    lastOf (t :: packets) pos =
      (lastOf packets pos).or (if t.position = pos then some t else none) := by
  rw [lastOf, List.reverse_cons, List.find?_append, ← lastOf, List.find?_cons, List.find?_nil]
  by_cases h : t.position = pos <;> simp [h]

/-- Of packets at consecutive positions, the last of a position is the only one. -/
theorem lastOf_consecutive : ∀ {start : ℕ} {packets : List TokenFeatures}, PositionsFrom start packets →
    (∀ pos < start, lastOf packets pos = none) ∧ ∀ i, lastOf packets (start + i) = packets[i]?
  | start, [], _ => ⟨fun _ _ => rfl, fun _ => rfl⟩
  | start, t :: packets, ⟨hpos, hrest⟩ => by
    have hstart : t.position = start := by exact_mod_cast hpos
    have hrest' : PositionsFrom (start + 1 : ℕ) packets := by exact_mod_cast hrest
    obtain ⟨hbelow, hat⟩ := lastOf_consecutive hrest'
    refine ⟨fun pos hlt => ?_, fun i => ?_⟩
    · rw [lastOf_cons, hbelow pos (by omega), if_neg (by omega)]; rfl
    · rw [lastOf_cons]
      cases i with
      | zero => rw [Nat.add_zero, hbelow start (by omega), if_pos hstart]; rfl
      | succ i =>
        rw [show start + (i + 1) = start + 1 + i by omega, hat i, if_neg (by omega), Option.or_none]
        rfl

theorem keyed_store {feats : Feats} (h : Keyed feats) (packets : List TokenFeatures) :
    Keyed (store feats packets) := by
  intro pos tf htf
  rw [store_eq] at htf
  cases hlast : lastOf packets pos with
  | none => rw [hlast] at htf; exact h pos tf htf
  | some t =>
    rw [hlast] at htf
    cases Option.some.inj htf
    exact (position_of_lastOf hlast).2

theorem keyed_trim {feats : Feats} (h : Keyed feats) (n : ℕ) :
    Keyed fun pos => if n ≤ pos then none else feats pos := by
  intro pos tf htf
  simp only at htf
  split at htf
  · cases htf
  · exact h pos tf htf

/-- The packets `process()` keeps of a batch. -/
def packetsOf (p : SpecParams) (layerInp : LayerInp) : LlamaBatch → List TokenFeatures
  | .embd _ => []
  | .tokens entries =>
    match capture p layerInp entries with
    | .error _ => []
    | .ok packets => packets

theorem packetsOf_nil (p : SpecParams) (layerInp : LayerInp) : packetsOf p layerInp (.tokens []) = [] := by
  unfold packetsOf capture
  simp only
  cases captureBuf p layerInp ([] : List (ℤ × ℕ)).length <;> rfl

/-- A call of `process()` stores the packets of its batch and changes nothing else. -/
theorem process_eq (p : SpecParams) (layerInp : LayerInp) (batch : LlamaBatch) {s : Server δ} {d : δ}
    (hd : s.drafter = some d) : (s.process p layerInp batch).2 =
      { s with feats := store s.feats (packetsOf p layerInp batch) } := by
  obtain ⟨drafter, feats⟩ := s
  cases hd
  cases batch with
  | embd n => rfl
  | tokens entries =>
    cases entries with
    | nil => rw [packetsOf_nil]; rfl
    | cons e entries =>
      unfold Server.process packetsOf
      simp only [List.isEmpty_cons, Bool.false_eq_true, if_false]
      cases capture p layerInp (e :: entries) <;> rfl

/-! ### Gathering -/

theorem gatherFrom_eq_some {feats : Feats} : ∀ {pos n : ℕ} {tokens : List TokenFeatures},
    gatherFrom feats pos n = some tokens ↔ tokens.map some = (List.range' pos n).map feats
  | pos, 0, tokens => by
    rw [gatherFrom, List.range'_zero, List.map_nil, List.map_eq_nil_iff, Option.some.injEq]
    exact eq_comm
  | pos, n + 1, tokens => by
    rw [gatherFrom, List.range'_succ, List.map_cons]
    cases hpos : feats pos with
    | none => cases tokens <;> simp
    | some tf =>
      cases tokens with
      | nil => simp
      | cons t tokens =>
        simp only [Option.map_eq_some_iff, gatherFrom_eq_some, List.map_cons, List.cons.injEq,
          Option.some.injEq]
        constructor
        · rintro ⟨ts, hts, rfl, rfl⟩
          exact ⟨rfl, hts⟩
        · rintro ⟨rfl, hts⟩
          exact ⟨tokens, hts, rfl, rfl⟩

theorem gatherFrom_isSome {feats : Feats} : ∀ {pos n : ℕ},
    (gatherFrom feats pos n).isSome ↔ ∀ q, pos ≤ q → q < pos + n → (feats q).isSome
  | pos, 0 => by
    simp only [gatherFrom, Option.isSome_some, true_iff]
    intro q hlo hhi; omega
  | pos, n + 1 => by
    rw [gatherFrom]
    cases hpos : feats pos with
    | none =>
      simp only [Option.isSome_none, Bool.false_eq_true, false_iff, not_forall]
      exact ⟨pos, le_rfl, by omega, by simp [hpos]⟩
    | some tf =>
      simp only [Option.isSome_map, gatherFrom_isSome]
      constructor
      · intro h q hlo hhi
        rcases eq_or_lt_of_le hlo with rfl | hlt
        · rw [hpos]; rfl
        · exact h q hlt (by omega)
      · intro h q hlo hhi
        exact h q (by omega) (by omega)

theorem gatherFrom_eq_none {feats : Feats} {pos n : ℕ} :
    gatherFrom feats pos n = none ↔ ∃ q, pos ≤ q ∧ q < pos + n ∧ feats q = none := by
  rw [← Option.not_isSome_iff_eq_none, gatherFrom_isSome]
  push Not
  simp only [Option.not_isSome_iff_eq_none]

/-- Gathered packets sit at consecutive positions. -/
theorem positionsFrom_of_gatherFrom {feats : Feats} (hk : Keyed feats) {n pos : ℕ}
    {tokens : List TokenFeatures} (h : gatherFrom feats pos n = some tokens) :
    PositionsFrom pos tokens := by
  induction n generalizing pos tokens with
  | zero =>
    cases Option.some.inj h
    trivial
  | succ n ih =>
    rw [gatherFrom] at h
    cases hpos : feats pos with
    | none => simp [hpos] at h
    | some tf =>
      rw [hpos] at h
      obtain ⟨ts, hts, rfl⟩ := Option.map_eq_some_iff.mp h
      refine ⟨by rw [hk pos tf hpos], ?_⟩
      have := ih hts
      rwa [Nat.cast_add, Nat.cast_one] at this

/-- Only the positions looked up matter. -/
theorem gatherFrom_congr {f g : Feats} {n pos : ℕ} (h : ∀ q, pos ≤ q → q < pos + n → f q = g q) :
    gatherFrom f pos n = gatherFrom g pos n := by
  induction n generalizing pos with
  | zero => rfl
  | succ n ih =>
    rw [gatherFrom, gatherFrom, h pos le_rfl (by omega),
      ih fun q hlo hhi => h q (by omega) (by omega)]

/-- Packets just stored at consecutive positions are gathered as they are. -/
theorem gatherFrom_store (feats : Feats) {start n : ℕ} {packets : List TokenFeatures}
    (hpos : PositionsFrom start packets) (hn : n ≤ packets.length) :
    gatherFrom (store feats packets) start n = some (packets.take n) := by
  obtain ⟨-, hat⟩ := lastOf_consecutive hpos
  rw [gatherFrom_eq_some]
  refine List.ext_getElem (by simp [hn]) fun i hi hi' => ?_
  have hi'' : i < packets.length := by
    rw [List.length_map, List.length_range'] at hi'
    omega
  simp only [List.getElem_map, List.getElem_take, List.getElem_range', one_mul, store_eq, hat i,
    List.getElem?_eq_getElem hi'', Option.some_or]

theorem gatherFrom_append {feats : Feats} {pos m n : ℕ} {xs ys : List TokenFeatures}
    (hx : gatherFrom feats pos m = some xs) (hy : gatherFrom feats (pos + m) n = some ys) :
    gatherFrom feats pos (m + n) = some (xs ++ ys) := by
  rw [gatherFrom_eq_some] at hx hy ⊢
  rw [List.map_append, hx, hy, ← List.map_append, List.range'_append_1]

/-! ### One draft -/

/-- The packets the next request has to bring along, `none` when one is missing. -/
def Server.toShip (nPast : ℕ) (s : Server δ) : Option (List TokenFeatures) :=
  if s.prefilled then gather s.feats (s.nSent + 1) (nPast - 1) else gather s.feats 0 (nPast - 1)

theorem toShip_first {s : Server δ} (hp : s.prefilled = false) (nPast : ℕ) :
    s.toShip nPast = gatherFrom s.feats 0 nPast := by
  rw [Server.toShip, hp, if_neg Bool.false_ne_true, gather]
  congr 1
  omega

theorem toShip_later {s : Server δ} (hp : s.prefilled = true) (nPast : ℕ) :
    s.toShip nPast = gatherFrom s.feats (s.nSent + 1).toNat (nPast - (s.nSent + 1)).toNat := by
  rw [Server.toShip, hp, if_pos rfl, gather]
  congr 2
  omega

/-- A packet to ship is the stored one of its position. -/
theorem mem_gatherFrom {feats : Feats} (hk : Keyed feats) {pos n : ℕ} {tokens : List TokenFeatures}
    (h : gatherFrom feats pos n = some tokens) {tf : TokenFeatures} (htf : tf ∈ tokens) :
    pos ≤ tf.position ∧ tf.position < pos + n ∧ feats tf.position = some tf := by
  have hmem : some tf ∈ (List.range' pos n).map feats := by
    rw [← gatherFrom_eq_some.mp h]
    exact List.mem_map_of_mem htf
  obtain ⟨q, hq, hfeats⟩ := List.mem_map.mp hmem
  obtain ⟨hlo, hhi⟩ := List.mem_range'_1.mp hq
  rw [hk q tf hfeats]
  exact ⟨hlo, hhi, hfeats⟩

/-- The request after `base` was sent. -/
def Server.request (p : SpecParams) (dp : DraftParams) (base : ℤ) (tokens : List TokenFeatures)
    (s : Server δ) : StepRequest where
  sessionId := 0
  stepId := s.stepId + 1
  position := base.toNat
  maxDraftTokens := min p.nMax p.blockSize
  greedy := true
  anchorToken := dp.idLast
  acceptedTokens := tokens

/-- The step proper, with everything at hand. -/
def Server.send (D : DsparkDrafter δ) (p : SpecParams) (dp : DraftParams) (base : ℤ)
    (tokens : List TokenFeatures) (d : δ) (s : Server δ) : Server δ × List ℤ :=
  let r := D.draft d (s.request p dp base tokens)
  ({ s.account dp.nPast with
      prefilled := true
      nSent := dp.nPast - 1
      stepId := s.stepId + 1
      drafter := some r.1 }.settle r.2,
    if r.2.ok then r.2.draftTokens else [])

@[simp] theorem account_feats (n : ℕ) (s : Server δ) : (s.account n).feats = s.feats := rfl

@[simp] theorem account_prefilled (n : ℕ) (s : Server δ) : (s.account n).prefilled = s.prefilled := rfl

@[simp] theorem account_nSent (n : ℕ) (s : Server δ) : (s.account n).nSent = s.nSent := rfl

@[simp] theorem account_stepId (n : ℕ) (s : Server δ) : (s.account n).stepId = s.stepId := rfl

theorem nextRequest_some (p : SpecParams) {dp : DraftParams} {s : Server δ}
    {tokens : List TokenFeatures} (h : gather s.feats (s.nSent + 1) (dp.nPast - 1) = some tokens) :
    s.nextRequest p dp = (some (s.request p dp s.nSent tokens),
      { s with stepId := s.stepId + 1, nSent := dp.nPast - 1 }) := by
  rw [Server.nextRequest, h]; rfl

theorem stepId_le_skipped (s : Server δ) :
    s.stepId ≤ if s.prefilled then s.stepId + 1 else s.stepId := by
  split
  · exact Nat.le_succ _
  · exact le_rfl

/-- A missing packet stops the call, after a step id was taken if the prompt is already out. -/
theorem draftFor_missing (D : DsparkDrafter δ) (p : SpecParams) {dp : DraftParams} {d : δ}
    {s : Server δ} (hd : s.drafter = some d) (h : s.toShip dp.nPast = none) :
    s.draftFor D p dp d =
      ({ s.account dp.nPast with stepId := if s.prefilled then s.stepId + 1 else s.stepId }, []) := by
  unfold Server.toShip at h
  unfold Server.draftFor Server.shipPrefill
  rw [account_prefilled, account_feats]
  cases hp : s.prefilled with
  | false =>
    rw [hp, if_neg Bool.false_ne_true] at h
    rw [if_neg Bool.false_ne_true, h]; rfl
  | true =>
    rw [hp, if_pos rfl] at h
    simp only [if_true, Server.nextRequest, account_feats, account_nSent, account_stepId, h, ← hd]
    rfl

/-- The first request of a generation ships the prompt and carries nothing itself. -/
theorem draftFor_first (D : DsparkDrafter δ) (p : SpecParams) {dp : DraftParams} {d : δ}
    {s : Server δ} {tokens : List TokenFeatures} (hp : s.prefilled = false)
    (h : s.toShip dp.nPast = some tokens) :
    s.draftFor D p dp d = s.send D p dp (dp.nPast - 1) [] (D.prefill d tokens true).1 := by
  rw [Server.toShip, hp, if_neg Bool.false_ne_true] at h
  have hnone : gather s.feats ((dp.nPast : ℤ) - 1 + 1) (dp.nPast - 1) = some [] := by
    rw [gather, show ((dp.nPast : ℤ) - 1 + 1 - (dp.nPast - 1 + 1)).toNat = 0 by omega]; rfl
  unfold Server.draftFor Server.shipPrefill
  rw [account_prefilled, account_feats, hp, if_neg Bool.false_ne_true, h]
  simp only
  rw [nextRequest_some p hnone]
  rfl

/-- A later request carries the positions committed since the last one. -/
theorem draftFor_later (D : DsparkDrafter δ) (p : SpecParams) {dp : DraftParams} {d : δ}
    {s : Server δ} {tokens : List TokenFeatures} (hp : s.prefilled = true)
    (h : s.toShip dp.nPast = some tokens) :
    s.draftFor D p dp d = s.send D p dp s.nSent tokens d := by
  rw [Server.toShip, hp, if_pos rfl] at h
  unfold Server.draftFor Server.shipPrefill
  rw [account_prefilled, hp, if_pos rfl]
  simp only
  rw [nextRequest_some (s := s.account dp.nPast) p h, Server.send]
  simp only [Server.account, Server.request, hp]
  rfl

/-- The whole call, for the sequence that drafts. -/
theorem draft_eq_first (D : DsparkDrafter δ) (p : SpecParams) {dparams : List DraftParams}
    {dp : DraftParams} {d : δ} {s : Server δ} {tokens : List TokenFeatures} (hd : s.drafter = some d)
    (hdp : dparams.find? DraftParams.drafting = some dp) (hp : s.prefilled = false)
    (h : s.toShip dp.nPast = some tokens) :
    s.draft D p dparams = s.send D p dp (dp.nPast - 1) [] (D.prefill d tokens true).1 := by
  rw [Server.draft, hdp, hd]
  exact draftFor_first D p hp h

theorem draft_eq_later (D : DsparkDrafter δ) (p : SpecParams) {dparams : List DraftParams}
    {dp : DraftParams} {d : δ} {s : Server δ} {tokens : List TokenFeatures} (hd : s.drafter = some d)
    (hdp : dparams.find? DraftParams.drafting = some dp) (hp : s.prefilled = true)
    (h : s.toShip dp.nPast = some tokens) :
    s.draft D p dparams = s.send D p dp s.nSent tokens d := by
  rw [Server.draft, hdp, hd]
  exact draftFor_later D p hp h

/-- The metrics of one call: the accounting comes first, and every token appended is a draft token. -/
theorem draftFor_stats (D : DsparkDrafter δ) (p : SpecParams) {dp : DraftParams} {d : δ}
    {s : Server δ} (hd : s.drafter = some d) :
    (s.draftFor D p dp d).1.prevNPast = dp.nPast ∧
    (s.draftFor D p dp d).1.stats.acceptedTokens = (s.account dp.nPast).stats.acceptedTokens ∧
    (s.draftFor D p dp d).1.stats.draftTokens =
      s.stats.draftTokens + (s.draftFor D p dp d).2.length := by
  have hacc : (s.account dp.nPast).stats.draftTokens = s.stats.draftTokens := by
    rw [Server.account]
    simp only
    split <;> rfl
  have hsend : ∀ base tokens d, (s.send D p dp base tokens d).1.prevNPast = dp.nPast ∧
      (s.send D p dp base tokens d).1.stats.acceptedTokens =
        (s.account dp.nPast).stats.acceptedTokens ∧
      (s.send D p dp base tokens d).1.stats.draftTokens =
        s.stats.draftTokens + (s.send D p dp base tokens d).2.length := by
    intro base tokens d
    refine ⟨rfl, ?_⟩
    rw [Server.send, Server.settle]
    simp only
    cases (D.draft d (s.request p dp base tokens)).2.ok with
    | true => exact ⟨rfl, congrArg (· + _) hacc⟩
    | false => exact ⟨rfl, hacc⟩
  cases hship : s.toShip dp.nPast with
  | none =>
    rw [draftFor_missing D p hd hship]
    exact ⟨rfl, rfl, hacc⟩
  | some tokens =>
    cases hp : s.prefilled with
    | false => rw [draftFor_first D p hp hship]; exact hsend _ _ _
    | true => rw [draftFor_later D p hp hship]; exact hsend _ _ _

end DsparkEdge
