import DsparkEdge.EngineSpec
import DsparkEdge.Service
import DsparkEdge.Lib.Runs

/-! Prefill in pieces. A prompt reaches the cache cut twice: into `Prefill` requests on the wire, and
    every request into micro-batches of at most `n_ubatch` tokens. Once all of it is in, neither cut can
    be told from the cache or the marks.

        prompt    │  request  │  request  │ … │           any split, empty requests too
        request   │ n_ubatch │ n_ubatch │ rest │          one encode and one decode each
        marks     from the last token of a request that has one

    `llama_encode` maps every row on its own, so what a cell holds is a function `enc` of its row. -/

namespace DsparkEdge

open Blocks Runs SeqCache

/-! ### The micro-batch loop -/

/-- The turns of `for (offset = 0; offset < N; offset += n_ubatch)` from `offset` on: the offset, and
    `n_chunk = min(n_ubatch, N - offset)`. -/
def ubatchTurns (nUbatch : ℕ) (hpos : 0 < nUbatch) (N offset : ℕ) : List (ℕ × ℕ) :=
  if offset < N then
    (offset, min nUbatch (N - offset)) :: ubatchTurns nUbatch hpos N (offset + nUbatch)
  else []
termination_by N - offset
decreasing_by omega

/-- A turn handles at least one token and at most `n_ubatch`, all of them there. -/
theorem ubatchTurns_bounds {nUbatch N offset : ℕ} (hpos : 0 < nUbatch) {t : ℕ × ℕ}
    (ht : t ∈ ubatchTurns nUbatch hpos N offset) : 1 ≤ t.2 ∧ t.2 ≤ nUbatch ∧ t.1 + t.2 ≤ N := by
  fun_induction ubatchTurns nUbatch hpos N offset with
  | case1 offset hlt ih =>
    rcases List.mem_cons.mp ht with rfl | ht
    · simp only; omega
    · exact ih ht
  | case2 offset hge => cases ht

/-- The chunks that the engine injects are the slices the loop cuts out. -/
theorem chunks_drop_eq_turns {α : Type*} {nUbatch : ℕ} (hpos : 0 < nUbatch) (xs : List α)
    (offset : ℕ) : chunks nUbatch (xs.drop offset) =
      (ubatchTurns nUbatch hpos xs.length offset).map fun t => (xs.drop t.1).take t.2 := by
  fun_induction ubatchTurns nUbatch hpos xs.length offset with
  | case1 offset hlt ih =>
    have hne : xs.drop offset ≠ [] := by
      rw [← List.length_pos_iff, List.length_drop]; omega
    have htake : (xs.drop offset).take (min nUbatch (xs.length - offset)) =
        (xs.drop offset).take nUbatch := by
      rw [← List.length_drop, List.take_eq_take_iff]
      omega
    rw [chunks_eq_cons hpos hne, List.drop_drop, ih, List.map_cons, htake]
  | case2 offset hge => rw [List.drop_eq_nil_of_le (by omega), chunks_nil hpos]; rfl

theorem chunk_bounds (cfg : ModelConfig) {tokens chunk : List TokenFeatures}
    (hchunk : chunk ∈ chunks cfg.nUbatch tokens) : 1 ≤ chunk.length ∧ chunk.length ≤ cfg.nUbatch := by
  have hturns := chunks_drop_eq_turns cfg.ubatch_pos tokens 0
  rw [List.drop_zero] at hturns
  rw [hturns] at hchunk
  obtain ⟨t, ht, rfl⟩ := List.mem_map.mp hchunk
  obtain ⟨hlo, hhi, hend⟩ := ubatchTurns_bounds cfg.ubatch_pos ht
  simp only [List.length_take, List.length_drop]
  omega

/-! ### The batches that llama.cpp is handed -/

/-- `enc_batch`, with its `n_tokens` and rows, or `batch_inject_`, as the cells it is decoded to. -/
inductive HandedBatch where
  | encode (nTokens : ℕ) (embd : List F32)
  | inject (cells : Cache)

def HandedBatch.nTokens : HandedBatch → ℕ
  | .encode n _ => n
  | .inject cells => cells.length

/-- The injection loop with a record of every batch it hands over, up to the turn that stops it. -/
def recordedLoop (cfg : ModelConfig) (calls : LlamaCalls) :
    ℕ → List (List TokenFeatures) → Cache → List HandedBatch × Bool × Cache
  | _, [], cells => ([], true, cells)
  | j, chunk :: rest, cells =>
    match packChunk cfg chunk with
    | .error _ => ([], false, cells)
    | .ok buf =>
      let enc := HandedBatch.encode chunk.length buf
      let batch := injectBatch cfg calls.gen chunk buf
      match calls.chunk j with
      | .encodeFails => ([enc], false, cells)
      | .noOutput => ([enc], false, cells)
      | .decodeFails left => ([enc, .inject batch], false, cells ++ leftOver calls.gen batch left)
      | .ok =>
        let r := recordedLoop cfg calls (j + 1) rest (cells ++ batch)
        (enc :: .inject batch :: r.1, r.2)

def recordedInject (cfg : ModelConfig) (calls : LlamaCalls) (tokens : List TokenFeatures) (cells : Cache) :
    List HandedBatch × Bool × Cache :=
  recordedLoop cfg calls 0 (chunks cfg.nUbatch tokens) cells

/-- Recording changes nothing. -/
theorem recordedLoop_result (cfg : ModelConfig) (calls : LlamaCalls) (cs : List (List TokenFeatures)) (j : ℕ)
    (cells : Cache) : (recordedLoop cfg calls j cs cells).2 = injectLoop cfg calls j cs cells := by
  induction cs generalizing j cells with
  | nil => rfl
  | cons chunk rest ih =>
    rw [recordedLoop, injectLoop]
    cases packChunk cfg chunk with
    | error => rfl
    | ok buf =>
      cases calls.chunk j with
      | ok => exact ih (j + 1) _
      | encodeFails => rfl
      | noOutput => rfl
      | decodeFails left => rfl

/-- Every batch is one of a chunk's. -/
theorem recordedLoop_nTokens {cfg : ModelConfig} {calls : LlamaCalls} {cs : List (List TokenFeatures)} {j : ℕ}
    {cells : Cache} {b : HandedBatch} (hb : b ∈ (recordedLoop cfg calls j cs cells).1) :
    ∃ chunk ∈ cs, b.nTokens = chunk.length := by
  induction cs generalizing j cells with
  | nil => cases hb
  | cons chunk rest ih =>
    have henc (buf : List F32) : (HandedBatch.encode chunk.length buf).nTokens = chunk.length := rfl
    have hinj (buf : List F32) :
        (HandedBatch.inject (injectBatch cfg calls.gen chunk buf)).nTokens = chunk.length := by
      simp [HandedBatch.nTokens, injectBatch]
    rw [recordedLoop] at hb
    cases hpack : packChunk cfg chunk with
    | error => simp [hpack] at hb
    | ok buf =>
      cases hchunk : calls.chunk j with
      | encodeFails =>
        simp only [hpack, hchunk, List.mem_singleton] at hb
        exact ⟨chunk, List.mem_cons_self, by rw [hb, henc]⟩
      | noOutput =>
        simp only [hpack, hchunk, List.mem_singleton] at hb
        exact ⟨chunk, List.mem_cons_self, by rw [hb, henc]⟩
      | decodeFails left =>
        simp only [hpack, hchunk, List.mem_cons, List.not_mem_nil, or_false] at hb
        rcases hb with rfl | rfl
        · exact ⟨chunk, List.mem_cons_self, henc buf⟩
        · exact ⟨chunk, List.mem_cons_self, hinj buf⟩
      | ok =>
        simp only [hpack, hchunk, List.mem_cons] at hb
        rcases hb with rfl | rfl | hb
        · exact ⟨chunk, List.mem_cons_self, henc buf⟩
        · exact ⟨chunk, List.mem_cons_self, hinj buf⟩
        · obtain ⟨chunk', hmem, hlen⟩ := ih hb
          exact ⟨chunk', List.mem_cons_of_mem _ hmem, hlen⟩

/-- Whatever llama.cpp does: injecting the packets is injecting them with the batches recorded, and every batch
    has a token, and no more than `n_ubatch`. -/
def BatchesFit (cfg : ModelConfig) (tokens : List TokenFeatures) : Prop :=
  ∀ (calls : LlamaCalls) (cells : Cache),
    (recordedInject cfg calls tokens cells).2 = injectFeatures cfg calls tokens cells ∧
    ∀ b ∈ (recordedInject cfg calls tokens cells).1, 1 ≤ b.nTokens ∧ b.nTokens ≤ cfg.nUbatch

theorem batches_fit (cfg : ModelConfig) (tokens : List TokenFeatures) : BatchesFit cfg tokens := by
  intro calls cells
  refine ⟨recordedLoop_result cfg calls _ 0 cells, fun b hb => ?_⟩
  obtain ⟨chunk, hchunk, hlen⟩ := recordedLoop_nTokens hb
  rw [hlen]
  exact chunk_bounds cfg hchunk

/-! ### Several requests -/

/-- A Prefill request, with what llama.cpp does while it is served. -/
abbrev PrefillCall := LlamaCalls × PrefillRequest

def Session.servePrefill (cfg : ModelConfig) (s : Session) (c : PrefillCall) :
    PrefillResponse × Session :=
  ((s.prefill cfg c.1 c.2).1, (s.prefill cfg c.1 c.2).2.2)

/-- All packets of the requests, in order. -/
def requestTokens (reqs : List PrefillCall) : List TokenFeatures :=
  reqs.flatMap fun c => c.2.tokens

/-- A new session answers every request with success. -/
def AllOk (cfg : ModelConfig) (reqs : List PrefillCall) : Prop :=
  ∀ resp ∈ answers (Session.servePrefill cfg) .fresh reqs, resp.ok = true

instance (cfg : ModelConfig) (reqs : List PrefillCall) : Decidable (AllOk cfg reqs) :=
  inferInstanceAs (Decidable (∀ _ ∈ _, _))

/-- The engine of a new session after the requests. -/
def prefilled (cfg : ModelConfig) (reqs : List PrefillCall) : Engine :=
  (final (Session.servePrefill cfg) .fresh reqs).engine

/-- The encoder row of a cell, none for a noise cell. -/
def CellVal.row : CellVal → Option (List F32)
  | .injected _ _ row => some row
  | .noise .. => none

/-- Position and injected features of every cell. -/
def contents {κ : Type*} (enc : List F32 → κ) (cells : Cache) : List (Cell (Option κ)) :=
  cells.map fun c => ⟨c.pos, c.val.row.map enc⟩

variable {κ : Type*}

theorem contents_append (enc : List F32 → κ) (xs ys : Cache) :
    contents enc (xs ++ ys) = contents enc xs ++ contents enc ys := List.map_append

/-- A packet leaves the same features behind whichever call injects it. -/
theorem contents_packetCells (enc : List F32 → κ) (cfg : ModelConfig) (gen : ℕ)
    (tokens : List TokenFeatures) : contents enc (packetCells cfg gen tokens) =
      tokens.map fun tf => ⟨tf.position, some (enc (unpackFeatures cfg tf))⟩ := by
  rw [contents, packetCells, List.map_map]
  rfl

@[simp] theorem advance_nil (st : Engine) : st.advance [] = st := rfl

/-- The marks after two lists are those after their concatenation. -/
theorem advance_advance (st : Engine) (xs ys : List TokenFeatures) :
    (st.advance xs).advance ys = st.advance (xs ++ ys) := by
  cases hys : ys.getLast? with
  | none =>
    rw [List.getLast?_eq_none_iff.mp hys, List.append_nil, advance_nil]
  | some tf =>
    have hxy : (xs ++ ys).getLast? = some tf := by
      rw [List.getLast?_append, hys, Option.some_or]
    simp only [Engine.advance, hys, hxy]
    cases xs.getLast? <;> rfl

theorem advance_withCells (st : Engine) (cells : Cache) (tokens : List TokenFeatures) :
    ({ st with cells := cells } : Engine).advance tokens =
      { st.advance tokens with cells := cells } := by
  unfold Engine.advance
  split <;> rfl

/-- One request served with success. -/
theorem servePrefill_ok {cfg : ModelConfig} {s : Session} {c : PrefillCall}
    (hok : (s.servePrefill cfg c).1.ok = true) :
    (s.servePrefill cfg c).2.engine =
      { s.engine.advance c.2.tokens with
        cells := s.engine.cells ++ packetCells cfg c.1.gen c.2.tokens } :=
  (prefill_of_ok hok).trans (advance_withCells s.engine _ _)

/-- Requests served with success add their packets' cells and leave the marks of their last token. -/
theorem prefill_run (cfg : ModelConfig) (enc : List F32 → κ) {s : Session} {reqs : List PrefillCall}
    (hok : ∀ resp ∈ answers (Session.servePrefill cfg) s reqs, resp.ok = true) :
    ∃ cells, (final (Session.servePrefill cfg) s reqs).engine =
        { s.engine.advance (requestTokens reqs) with cells := cells } ∧
      contents enc cells = contents enc s.engine.cells ++
        (requestTokens reqs).map fun tf => ⟨tf.position, some (enc (unpackFeatures cfg tf))⟩ := by
  induction reqs generalizing s with
  | nil => exact ⟨s.engine.cells, rfl, by simp [requestTokens]⟩
  | cons c reqs ih =>
    obtain ⟨hc, hreqs⟩ := List.forall_mem_cons.mp hok
    obtain ⟨cells, heq, hcells⟩ := ih hreqs
    have hone := servePrefill_ok hc
    have htokens : requestTokens (c :: reqs) = c.2.tokens ++ requestTokens reqs := rfl
    refine ⟨cells, ?_, ?_⟩
    · have hfinal : final (Session.servePrefill cfg) s (c :: reqs) =
          final (Session.servePrefill cfg) (s.servePrefill cfg c).2 reqs := rfl
      rw [hfinal, heq, hone, advance_withCells, advance_advance, htokens]
    · rw [hcells, hone, contents_append, contents_packetCells, htokens, List.map_append,
        List.append_assoc]

/-- The same engine with micro-batches of another size. -/
def ModelConfig.withUbatch (cfg : ModelConfig) (n : ℕ) (hn : 0 < n) : ModelConfig :=
  { cfg with nUbatch := n, ubatch_pos := hn }

theorem contents_of_positions (enc : List F32 → κ) (cfg : ModelConfig) {start : ℤ}
    {tokens : List TokenFeatures} (h : PositionsFrom start tokens) :
    (tokens.map fun tf => (⟨tf.position, some (enc (unpackFeatures cfg tf))⟩ : Cell (Option κ))) =
      consec start (tokens.map fun tf => some (enc (unpackFeatures cfg tf))) := by
  induction tokens generalizing start with
  | nil => rfl
  | cons tf rest ih =>
    obtain ⟨hpos, hrest⟩ := h
    simp only [List.map_cons, consec, ih hrest, hpos]

/-- What a prompt leaves behind, whichever way it was cut. -/
theorem prefilled_spec (cfg : ModelConfig) {n : ℕ} (hn : 0 < n) (enc : List F32 → κ)
    {prompt : List TokenFeatures} (hpos : PositionsFrom 0 prompt) {reqs : List PrefillCall}
    (hsplit : requestTokens reqs = prompt) (hok : AllOk (cfg.withUbatch n hn) reqs) :
    contents enc (prefilled (cfg.withUbatch n hn) reqs).cells =
        consec 0 (prompt.map fun tf => some (enc (unpackFeatures cfg tf))) ∧
      (prefilled (cfg.withUbatch n hn) reqs).kvConfirmedMax =
        (Engine.fresh.advance prompt).kvConfirmedMax ∧
      (prefilled (cfg.withUbatch n hn) reqs).lastTokenId =
        (Engine.fresh.advance prompt).lastTokenId := by
  obtain ⟨cells, heq, hcells⟩ := prefill_run (cfg.withUbatch n hn) enc hok
  rw [hsplit] at heq hcells
  rw [prefilled, heq]
  refine ⟨?_, rfl, rfl⟩
  rw [hcells, contents_of_positions enc _ hpos]
  rfl

/-- CHUNKED PREFILL: two ways of cutting one prompt, each served with success, leave the same cells (one
    per position, in order), the same marks, and no request hands llama.cpp a batch that is empty or above
    `n_ubatch`. -/
theorem prefill_chunking (cfg : ModelConfig) {n₁ n₂ : ℕ} (h₁ : 0 < n₁) (h₂ : 0 < n₂)
    {prompt : List TokenFeatures} (hpos : PositionsFrom 0 prompt) {reqs₁ reqs₂ : List PrefillCall}
    (hsplit₁ : requestTokens reqs₁ = prompt) (hsplit₂ : requestTokens reqs₂ = prompt)
    (hok₁ : AllOk (cfg.withUbatch n₁ h₁) reqs₁) (hok₂ : AllOk (cfg.withUbatch n₂ h₂) reqs₂)
    (enc : List F32 → κ) :
    let st₁ := prefilled (cfg.withUbatch n₁ h₁) reqs₁
    let st₂ := prefilled (cfg.withUbatch n₂ h₂) reqs₂
    contents enc st₁.cells = contents enc st₂.cells ∧
    contents enc st₁.cells =
      consec 0 (prompt.map fun tf => some (enc (unpackFeatures cfg tf))) ∧
    st₁.kvConfirmedMax = st₂.kvConfirmedMax ∧
    st₁.lastTokenId = st₂.lastTokenId ∧
    (∀ c ∈ reqs₁, BatchesFit (cfg.withUbatch n₁ h₁) c.2.tokens) ∧
    (∀ c ∈ reqs₂, BatchesFit (cfg.withUbatch n₂ h₂) c.2.tokens) := by
  intro st₁ st₂
  obtain ⟨hcells₁, hmax₁, hlast₁⟩ := prefilled_spec cfg h₁ enc hpos hsplit₁ hok₁
  obtain ⟨hcells₂, hmax₂, hlast₂⟩ := prefilled_spec cfg h₂ enc hpos hsplit₂ hok₂
  exact ⟨hcells₁.trans hcells₂.symm, hcells₁, hmax₁.trans hmax₂.symm, hlast₁.trans hlast₂.symm,
    fun c _ => batches_fit (cfg.withUbatch n₁ h₁) c.2.tokens,
    fun c _ => batches_fit (cfg.withUbatch n₂ h₂) c.2.tokens⟩

/-- A prompt of three in one request at micro-batches of two, and in three requests, one of them empty,
    at micro-batches of one. -/
theorem prefill_chunking_three :
    let prompt : List TokenFeatures := [⟨7, 0, [0, 0]⟩, ⟨8, 1, [0, 1]⟩, ⟨9, 2, [0, 2]⟩]
    let reqs₁ : List PrefillCall := [(.succeed 0, ⟨1, prompt, true⟩)]
    let reqs₂ : List PrefillCall := [(.succeed 0, ⟨1, prompt.take 2, false⟩), (.succeed 1, ⟨1, [], false⟩),
      (.succeed 2, ⟨1, prompt.drop 2, true⟩)]
    (prefilled (smallConfig.withUbatch 2 (by decide)) reqs₁).kvConfirmedMax =
      (prefilled (smallConfig.withUbatch 1 (by decide)) reqs₂).kvConfirmedMax := by
  intro prompt reqs₁ reqs₂
  have hpos : PositionsFrom 0 prompt := ⟨rfl, rfl, rfl, trivial⟩
  have hsplit₁ : requestTokens reqs₁ = prompt := rfl
  have hsplit₂ : requestTokens reqs₂ = prompt := rfl
  have hok₁ : AllOk (smallConfig.withUbatch 2 (by decide)) reqs₁ := by decide
  have hok₂ : AllOk (smallConfig.withUbatch 1 (by decide)) reqs₂ := by decide
  exact (prefill_chunking smallConfig _ _ hpos hsplit₁ hsplit₂ hok₁ hok₂ id).2.2.1

end DsparkEdge
