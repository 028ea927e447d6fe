import DsparkEdge.EngineSpec

/-! The cache invariant of one engine over whole runs, with any call failing anywhere inside a draft.

    A run is `reset`, then successful prefills, then drafts; each call brings packets at consecutive
    positions from `kv_confirmed_max + 1` (possibly none). The confirmed prefix is settled before
    and after every call: a draft first truncates to it, so neither the noise of an earlier block nor
    the leftovers of an earlier failure can reach the next noise decode.

        cells before a draft:  0 … top │ old noise, leftovers of failed decodes
        after seq_rm:          0 … top
        after the injection:   0 … top  top+1 … top+m
        the noise block:                               top+m+1 … -/

namespace DsparkEdge

open SeqCache

/-- The engine's cache is settled at its own confirmed mark. -/
def Engine.Settled (st : Engine) (vals : List CellVal) : Prop :=
  SeqCache.Settled st.cells st.kvConfirmedMax vals

theorem reset_settled (st : Engine) : st.reset.Settled [] := settled_nil

theorem positionsFrom_getLast : ∀ {start : ℤ} {tokens : List TokenFeatures} {tf : TokenFeatures},
    PositionsFrom start tokens → tokens.getLast? = some tf →
      (tf.position : ℤ) = start + tokens.length - 1
  | start, [tf'], tf, ⟨hpos, _⟩, h => by
    simp only [List.getLast?_singleton, Option.some.injEq] at h
    rw [← h, hpos, List.length_singleton, Nat.cast_one]; omega
  | start, _ :: tf' :: rest, tf, ⟨_, hrest⟩, h => by
    rw [List.getLast?_cons_cons] at h
    have := positionsFrom_getLast hrest h
    simp only [List.length_cons, Nat.cast_add, Nat.cast_one] at this ⊢
    omega

theorem positionsFrom_append_right {start : ℤ} {xs ys : List TokenFeatures}
    (h : PositionsFrom start (xs ++ ys)) : PositionsFrom (start + xs.length) ys := by
  induction xs generalizing start with
  | nil => simpa using h
  | cons x xs ih =>
    have := ih h.2
    rwa [List.length_cons, Nat.cast_add, Nat.cast_one, add_comm (xs.length : ℤ), ← add_assoc]

/-- Advancing over consecutive packets moves the mark by their number. -/
theorem advance_kvConfirmedMax (st : Engine) {tokens : List TokenFeatures}
    (h : PositionsFrom (st.kvConfirmedMax + 1) tokens) :
    (st.advance tokens).kvConfirmedMax = st.kvConfirmedMax + tokens.length := by
  unfold Engine.advance
  cases hlast : tokens.getLast? with
  | none => rw [List.getLast?_eq_none_iff.mp hlast]; simp
  | some tf =>
    have := positionsFrom_getLast h hlast
    simp only; omega

/-- The engine after `tokens` were injected behind the settled values `vals`. -/
def Engine.extended (cfg : ModelConfig) (gen : ℕ) (vals : List CellVal)
    (tokens : List TokenFeatures) (st : Engine) : Engine :=
  { st with cells := consec 0 (vals ++ tokens.map (cellVal cfg gen)) }.advance tokens

theorem extended_settled (cfg : ModelConfig) (gen : ℕ) {vals : List CellVal}
    {tokens : List TokenFeatures} {st : Engine} (h : st.kvConfirmedMax = vals.length - 1)
    (hpos : PositionsFrom (st.kvConfirmedMax + 1) tokens) :
    (st.extended cfg gen vals tokens).cells = consec 0 (vals ++ tokens.map (cellVal cfg gen)) ∧
      (st.extended cfg gen vals tokens).Settled (vals ++ tokens.map (cellVal cfg gen)) := by
  have hcells : (st.extended cfg gen vals tokens).cells =
      consec 0 (vals ++ tokens.map (cellVal cfg gen)) := advance_cells _ _
  have hmax : (st.extended cfg gen vals tokens).kvConfirmedMax =
      st.kvConfirmedMax + tokens.length := advance_kvConfirmedMax _ hpos
  refine ⟨hcells, ?_⟩
  rw [Engine.Settled, hcells, hmax, h]
  have := settled_consec (vals ++ tokens.map (cellVal cfg gen))
  simp only [List.length_append, List.length_map, Nat.cast_add] at this
  rwa [show (vals.length : ℤ) - 1 + tokens.length = vals.length + tokens.length - 1 by omega]

theorem positionsFrom_le {start : ℤ} {tokens : List TokenFeatures} (h : PositionsFrom start tokens) :
    ∀ tf ∈ tokens, start ≤ tf.position := by
  induction tokens generalizing start with
  | nil => simp
  | cons t rest ih =>
    obtain ⟨hpos, hrest⟩ := h
    intro tf htf
    rcases List.mem_cons.mp htf with rfl | htf
    · exact hpos.ge
    · have := ih hrest tf htf
      omega

/-- Packets behind a mark sit beyond it, and so does everything their failing injection leaves. -/
theorem junk_beyond {start : ℤ} {gen : ℕ} {junk : Cache} {tokens : List TokenFeatures}
    (hpos : PositionsFrom start tokens) (hjunk : Junk gen tokens junk) : ∀ c ∈ junk, start ≤ c.pos := by
  intro c hc
  obtain ⟨⟨tf, htf, hcpos⟩, -⟩ := hjunk c hc
  rw [hcpos]; exact positionsFrom_le hpos tf htf

/-- The two ways the first half of a draft can end, from a settled cache. -/
theorem accept_cases (cfg : ModelConfig) (calls : LlamaCalls) (tokens : List TokenFeatures)
    {st : Engine} {vals : List CellVal} (h : st.Settled vals) :
    st.accept cfg calls tokens =
        (true, { st with cells := consec 0 vals ++ packetCells cfg calls.gen tokens }.advance tokens) ∨
      ∃ junk, st.accept cfg calls tokens = (false, { st with cells := consec 0 vals ++ junk }) ∧
        Junk calls.gen tokens junk := by
  have hconf : st.confirmed = consec 0 vals := h.seqRm
  rw [← hconf]
  exact accept_ends cfg calls tokens st

/-- For packets behind the mark, success extends the settled values and failure keeps them. -/
theorem accept_settled (cfg : ModelConfig) (calls : LlamaCalls) {tokens : List TokenFeatures}
    {st : Engine} {vals : List CellVal} (h : st.Settled vals)
    (hpos : PositionsFrom (st.kvConfirmedMax + 1) tokens) :
    st.accept cfg calls tokens = (true, st.extended cfg calls.gen vals tokens) ∨
      ∃ junk, st.accept cfg calls tokens = (false, { st with cells := consec 0 vals ++ junk }) ∧
        Engine.Settled { st with cells := consec 0 vals ++ junk } vals := by
  rcases accept_cases cfg calls tokens h with heq | ⟨junk, heq, hjunk⟩
  · left
    have hstart : st.kvConfirmedMax + 1 = 0 + (vals.length : ℤ) := by rw [h.top_eq]; omega
    rw [heq, packetCells_consec cfg calls.gen hpos, hstart, ← consec_append]
    rfl
  · right
    refine ⟨junk, heq, ?_⟩
    refine SeqCache.Settled.append_beyond ⟨h.top_eq, [], by simp, by simp⟩ fun c hc => ?_
    have := junk_beyond hpos hjunk c hc
    omega

/-- The noise block is decoded beyond the injected packets, so they stay settled. -/
theorem runDraft_settled (cfg : ModelConfig) (M : DraftModel) (calls : LlamaCalls) (anchor n : ℤ)
    {tokens : List TokenFeatures} {st : Engine} {vals : List CellVal}
    (h : st.kvConfirmedMax = vals.length - 1) (hpos : PositionsFrom (st.kvConfirmedMax + 1) tokens) :
    ((st.extended cfg calls.gen vals tokens).runDraft cfg M calls anchor n).2.Settled
      (vals ++ tokens.map (cellVal cfg calls.gen)) := by
  obtain ⟨hcells, hset⟩ := extended_settled cfg calls.gen h hpos
  obtain ⟨xs, hrun, hxs⟩ := runDraft_cells cfg M calls anchor n (st.extended cfg calls.gen vals tokens)
  rw [hrun]
  refine SeqCache.Settled.append_beyond hset fun c hc => ?_
  have hlast := (hxs c hc).1
  rw [hcells, seqPosMax_consec] at hlast
  rw [hset.top_eq]; exact hlast

/-- A whole draft keeps the cache settled, however it ends. -/
theorem draft_settled (cfg : ModelConfig) (M : DraftModel) (calls : LlamaCalls) {req : StepRequest}
    {st : Engine} {vals : List CellVal} (h : st.Settled vals)
    (hpos : PositionsFrom (st.kvConfirmedMax + 1) req.acceptedTokens) :
    ∃ ws, (st.draft cfg M calls req).2.Settled ws ∧
      ∀ v ∈ ws, v ∈ vals ∨ v ∈ req.acceptedTokens.map (cellVal cfg calls.gen) := by
  unfold Engine.draft
  rcases accept_settled cfg calls h hpos with heq | ⟨junk, heq, hjunk⟩
  · rw [heq]
    exact ⟨_, runDraft_settled cfg M calls _ _ h.top_eq hpos, fun v hv => List.mem_append.mp hv⟩
  · rw [heq]
    exact ⟨vals, hjunk, fun v hv => Or.inl hv⟩

/-- A successful prefill behind the mark extends a cache without transient cells. -/
theorem prefill_extended (cfg : ModelConfig) (calls : LlamaCalls) {tokens : List TokenFeatures}
    {st : Engine} {vals : List CellVal} (hcells : st.cells = consec 0 vals)
    (htop : st.kvConfirmedMax = vals.length - 1)
    (hpos : PositionsFrom (st.kvConfirmedMax + 1) tokens)
    (hok : (st.prefill cfg calls tokens).1 = true) :
    (st.prefill cfg calls tokens).2.2 = st.extended cfg calls.gen vals tokens := by
  have hstart : st.kvConfirmedMax + 1 = 0 + (vals.length : ℤ) := by omega
  unfold Engine.prefill at hok ⊢
  rcases injectFeatures_cases cfg calls tokens st.cells with heq | ⟨junk, heq, -⟩
  · rw [heq, packetCells_consec cfg calls.gen hpos, hcells, hstart, ← consec_append]
    rfl
  · rw [heq] at hok; cases hok

/-! ### With nothing failing -/

/-- Packets of the right size behind the mark are accepted. -/
theorem accept_succeed (cfg : ModelConfig) (gen : ℕ) {tokens : List TokenFeatures} {st : Engine}
    {vals : List CellVal} (h : st.Settled vals) (hpos : PositionsFrom (st.kvConfirmedMax + 1) tokens)
    (hsize : ∀ tf ∈ tokens, SizeOk cfg tf) :
    st.accept cfg (.succeed gen) tokens = (true, st.extended cfg gen vals tokens) := by
  have hok : (st.accept cfg (.succeed gen) tokens).1 = true := by
    unfold Engine.accept
    rw [injectFeatures_succeed cfg (fun _ => rfl) hsize]
    rfl
  rcases accept_settled cfg (.succeed gen) h hpos with heq | ⟨junk, heq, -⟩
  · exact heq
  · rw [heq] at hok; cases hok

theorem prefill_ok (cfg : ModelConfig) (gen : ℕ) {tokens : List TokenFeatures}
    (hsize : ∀ tf ∈ tokens, SizeOk cfg tf) (st : Engine) :
    (st.prefill cfg (.succeed gen) tokens).1 = true := by
  unfold Engine.prefill
  rw [injectFeatures_succeed cfg (fun _ => rfl) hsize]
  rfl

/-- Packets of the right size prefill an empty engine. -/
theorem prefill_succeed (cfg : ModelConfig) (gen : ℕ) {tokens : List TokenFeatures} {st : Engine}
    (hcells : st.cells = []) (htop : st.kvConfirmedMax = -1) (hpos : PositionsFrom 0 tokens)
    (hsize : ∀ tf ∈ tokens, SizeOk cfg tf) :
    (st.prefill cfg (.succeed gen) tokens).2.2 = st.extended cfg gen [] tokens := by
  have hcells' : st.cells = consec 0 ([] : List CellVal) := hcells
  exact prefill_extended cfg (.succeed gen) hcells' htop (by rw [htop]; exact hpos)
    (prefill_ok cfg gen hsize st)

/-- A draft in which nothing fails settles the accepted packets behind the confirmed ones. -/
theorem draft_succeed (cfg : ModelConfig) (M : DraftModel) (gen : ℕ) {req : StepRequest}
    {st : Engine} {vals : List CellVal} (h : st.Settled vals)
    (hpos : PositionsFrom (st.kvConfirmedMax + 1) req.acceptedTokens)
    (hsize : ∀ tf ∈ req.acceptedTokens, SizeOk cfg tf) :
    (st.draft cfg M (.succeed gen) req).2.Settled
      (vals ++ req.acceptedTokens.map (cellVal cfg gen)) := by
  unfold Engine.draft
  rw [accept_succeed cfg gen h hpos hsize]
  exact runDraft_settled cfg M (.succeed gen) _ _ h.top_eq hpos

/-! ### Runs -/

/-- The engine states of a run; the flag says whether drafting has begun. -/
inductive Reached (cfg : ModelConfig) (M : DraftModel) : Bool → Engine → Prop
  | reset (st : Engine) : Reached cfg M false st.reset
  | prefill {st : Engine} (calls : LlamaCalls) (tokens : List TokenFeatures)
      (h : Reached cfg M false st) (hpos : PositionsFrom (st.kvConfirmedMax + 1) tokens)
      (hok : (st.prefill cfg calls tokens).1 = true) :
      Reached cfg M false (st.prefill cfg calls tokens).2.2
  | draft {b : Bool} {st : Engine} (calls : LlamaCalls) (req : StepRequest)
      (h : Reached cfg M b st) (hpos : PositionsFrom (st.kvConfirmedMax + 1) req.acceptedTokens) :
      Reached cfg M true (st.draft cfg M calls req).2

/-- Every state of a run is settled on injected values, and before the first draft the cache holds
    nothing else. -/
theorem reached_settled {cfg : ModelConfig} {M : DraftModel} {b : Bool} {st : Engine}
    (h : Reached cfg M b st) : ∃ vals, st.Settled vals ∧ (∀ v ∈ vals, v.isInjected) ∧
      (b = false → st.cells = consec 0 vals) := by
  have hinj : ∀ gen (tokens : List TokenFeatures), ∀ v ∈ tokens.map (cellVal cfg gen),
      v.isInjected := by
    intro gen tokens v hv
    obtain ⟨tf, -, rfl⟩ := List.mem_map.mp hv
    rfl
  induction h with
  | reset st => exact ⟨[], reset_settled st, by simp, fun _ => rfl⟩
  | prefill calls tokens _ hpos hok ih =>
    obtain ⟨vals, hset, hvals, hcells⟩ := ih
    rw [prefill_extended cfg calls (hcells rfl) hset.top_eq hpos hok]
    obtain ⟨hcells', hset'⟩ := extended_settled cfg calls.gen hset.top_eq hpos
    refine ⟨_, hset', fun v hv => ?_, fun _ => hcells'⟩
    rcases List.mem_append.mp hv with hv | hv
    · exact hvals v hv
    · exact hinj _ _ v hv
  | draft calls req _ hpos ih =>
    obtain ⟨vals, hset, hvals, -⟩ := ih
    obtain ⟨ws, hws, hmem⟩ := draft_settled cfg M calls hset hpos
    refine ⟨ws, hws, fun v hv => ?_, fun hb => by cases hb⟩
    rcases hmem v hv with hv | hv
    · exact hvals v hv
    · exact hinj _ _ v hv

/-- What the noise block meets when it is decoded: one injected cell per position `0 .. top`, nothing
    else, and its own cells at `top + 1` onwards. -/
structure NoiseReady (st : Engine) (noise : Cache) : Prop where
  confirmed : ∃ vals, st.cells = consec 0 vals ∧ st.kvConfirmedMax = vals.length - 1 ∧
    ∀ v ∈ vals, v.isInjected
  block : ∃ toks, noise = consec (st.kvConfirmedMax + 1) toks

/-- Dropping the transient cells undoes a failed injection. -/
theorem draft_after_failed (cfg : ModelConfig) (M : DraftModel) {calls : LlamaCalls}
    {req : StepRequest} {st : Engine} {vals : List CellVal} (h : st.Settled vals)
    (hpos : PositionsFrom (st.kvConfirmedMax + 1) req.acceptedTokens)
    (hfail : (st.accept cfg calls req.acceptedTokens).1 = false) (calls' : LlamaCalls)
    (req' : StepRequest) :
    (st.draft cfg M calls req).2.draft cfg M calls' req' = st.draft cfg M calls' req' := by
  rcases accept_settled cfg calls h hpos with heq | ⟨junk, heq, hjunk⟩
  · rw [heq] at hfail; cases hfail
  · have hst : (st.draft cfg M calls req).2 = { st with cells := consec 0 vals ++ junk } := by
      unfold Engine.draft
      rw [heq]; rfl
    have hacc : Engine.accept cfg calls' req'.acceptedTokens
        { st with cells := consec 0 vals ++ junk } =
          st.accept cfg calls' req'.acceptedTokens := by
      unfold Engine.accept
      have hrm := hjunk.seqRm
      simp only at hrm
      simp only [hrm, h.seqRm]
    rw [hst]
    unfold Engine.draft
    rw [hacc]

/-- CACHE INVARIANT: in every run, whatever fails inside the drafts, the noise block is decoded behind
    exactly the confirmed prefix, where it is what a draft adds to the cache (`draft_decodes_block` says so
    of a whole session); and a draft that failed during injection leaves no trace on any later draft. -/
theorem noise_behind_confirmed (cfg : ModelConfig) (M : DraftModel) {b : Bool} {st : Engine}
    (h : Reached cfg M b st) (calls : LlamaCalls) (req : StepRequest)
    (hpos : PositionsFrom (st.kvConfirmedMax + 1) req.acceptedTokens) :
    ((st.accept cfg calls req.acceptedTokens).1 = true →
      let st1 := (st.accept cfg calls req.acceptedTokens).2
      let noise := noiseBatch cfg calls.gen (st1.anchor req) req.maxDraftTokens st1.cells
      NoiseReady st1 noise ∧
        (calls.noise = .ok → (st.draft cfg M calls req).2.cells = st1.cells ++ noise)) ∧
    ((st.accept cfg calls req.acceptedTokens).1 = false →
      ∀ (calls' : LlamaCalls) (req' : StepRequest),
        (st.draft cfg M calls req).2.draft cfg M calls' req' = st.draft cfg M calls' req') := by
  obtain ⟨vals, hset, hvals, -⟩ := reached_settled h
  refine ⟨fun hok => ⟨?_, fun hnoise => by simp [Engine.draft, Engine.runDraft, hok, hnoise]⟩,
    draft_after_failed cfg M hset hpos⟩
  rcases accept_settled cfg calls hset hpos with heq | ⟨junk, heq, -⟩
  · obtain ⟨hcells, hset'⟩ := extended_settled cfg calls.gen hset.top_eq hpos
    rw [heq]
    have hmax : seqPosMax (st.extended cfg calls.gen vals req.acceptedTokens).cells =
        (st.extended cfg calls.gen vals req.acceptedTokens).kvConfirmedMax := by
      rw [hcells, seqPosMax_consec, hset'.top_eq]
    refine ⟨⟨_, hcells, hset'.top_eq, fun v hv => ?_⟩, _, congrArg (fun p => consec (p + 1) _) hmax⟩
    rcases List.mem_append.mp hv with hv | hv
    · exact hvals v hv
    · obtain ⟨tf, -, rfl⟩ := List.mem_map.mp hv; rfl
  · rw [heq] at hok; cases hok

/-- A run of one reset, with a draft whose second chunk fails to decode: before it the noise block of
    the same request that succeeds is settled, and after it nothing is left of the failure. -/
theorem noise_behind_confirmed_small :
    let req : StepRequest := ⟨1, 1, 0, 4, true, 9, [⟨7, 0, [1, 2]⟩, ⟨8, 1, [3, 4]⟩, ⟨9, 2, [5, 6]⟩]⟩
    let fails : LlamaCalls := ⟨1, fun j => if j = 1 then .decodeFails [⟨2, .noise 1 0⟩] else .ok, .ok⟩
    NoiseReady (Engine.fresh.reset.accept smallConfig (.succeed 1) req.acceptedTokens).2
      (noiseBatch smallConfig 1 9 4
        (Engine.fresh.reset.accept smallConfig (.succeed 1) req.acceptedTokens).2.cells) ∧
    ∀ (calls : LlamaCalls) (req' : StepRequest),
      (Engine.fresh.reset.draft smallConfig (constModel [5]) fails req).2.draft smallConfig
          (constModel [5]) calls req' =
        Engine.fresh.reset.draft smallConfig (constModel [5]) calls req' := by
  intro req fails
  have hpos : PositionsFrom (Engine.fresh.reset.kvConfirmedMax + 1) req.acceptedTokens :=
    ⟨rfl, rfl, rfl, trivial⟩
  exact ⟨(noise_behind_confirmed smallConfig (constModel [5]) (.reset .fresh) (.succeed 1) req
      hpos).1 (by decide) |>.1,
    (noise_behind_confirmed smallConfig (constModel [5]) (.reset .fresh) fails req hpos).2
      (by decide)⟩

end DsparkEdge
