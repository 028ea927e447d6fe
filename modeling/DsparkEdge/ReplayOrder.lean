import DsparkEdge.Lib.Runs
import DsparkEdge.Remote
import DsparkEdge.Replay

/-! The order of a replay against the order of the recording. A generation leaves a file for each of its
    prefill chunks, numbered on from the client's counter, and two for each of its steps, whose ids
    increase; the replay goes by the text order of the names.

        recording   … step_9999_request.pb    step_10000_request.pb
        sorted      … step_10000_request.pb … step_9999_request.pb        '1' < '9'

    Up to the padded width the two orders agree, and past it as long as the number of digits stays. The
    response beside a request is that of the same step in any case. -/

namespace DsparkEdge

open Decimal Runs

/-! ### A generation -/

/-- A call of the client that leaves files. -/
inductive RecordedCall where
  | prefill (tokens : List TokenFeatures) (lastChunk : Bool)
  | draft (req : StepRequest)

def RecordedCall.isChunk : RecordedCall → Bool
  | .prefill .. => true
  | .draft _ => false

def RecordedCall.stepId? : RecordedCall → Option ℕ
  | .prefill .. => none
  | .draft req => some req.stepId

variable {δ : Type*}

def Client.call (S : Stub δ) (c : Client δ) : RecordedCall → Client δ
  | .prefill tokens lastChunk => (c.prefill S tokens lastChunk).1
  | .draft req => (c.draft S req).1

def chunkCount (calls : List RecordedCall) : ℕ := (calls.filter RecordedCall.isChunk).length

def stepIds (calls : List RecordedCall) : List ℕ := calls.filterMap RecordedCall.stepId?

/-- The requests that were sent, each with the response it got. -/
def exchanges (S : Stub δ) : Client δ → List RecordedCall → List (DraftRequest × DraftResponse)
  | _, [] => []
  | c, .prefill tokens lastChunk :: calls => exchanges S (c.prefill S tokens lastChunk).1 calls
  | c, .draft req :: calls =>
    (req.toWire c.sessionId, (S.draft c.net (req.toWire c.sessionId)).2.2) ::
      exchanges S (c.draft S req).1 calls

theorem exchanges_stepIds (S : Stub δ) (c : Client δ) (calls : List RecordedCall) :
    (exchanges S c calls).map (fun x => x.1.stepId) = stepIds calls := by
  induction calls generalizing c with
  | nil => rfl
  | cons call calls ih =>
    cases call with
    | prefill tokens lastChunk => exact ih _
    | draft req => exact congrArg (req.stepId :: ·) (ih _)

/-! ### The calls of the server -/

inductive GenerationEvent where
  | process (layerInp : LayerInp) (batch : LlamaBatch)
  | draft (dparams : List DraftParams)

/-- The server between two calls of `begin`. -/
def Server.generate (S : Stub δ) (p : SpecParams) (s : Server (Client δ)) :
    GenerationEvent → Server (Client δ)
  | .process layerInp batch => (s.process p layerInp batch).2
  | .draft dparams => (s.draft (grpcDrafter S) p dparams).1

/-- From `s` to `s'` the client `c` went through `calls`, whose step ids increase. -/
structure CallsBetween (S : Stub δ) (c : Client δ) (calls : List RecordedCall)
    (s s' : Server (Client δ)) : Prop where
  drafter : s'.drafter = some (exec (Client.call S) c calls)
  stepId_le : s.stepId ≤ s'.stepId
  fresh : ∀ id ∈ stepIds calls, s.stepId < id ∧ id ≤ s'.stepId
  increasing : (stepIds calls).Pairwise (· < ·)

section Generation

variable {S : Stub δ} {p : SpecParams} {c : Client δ} {s : Server (Client δ)}

theorem callsBetween_refl (hd : s.drafter = some c) : CallsBetween S c [] s s :=
  ⟨hd, le_rfl, fun _ hid => absurd hid List.not_mem_nil, .nil⟩

theorem callsBetween_trans {s' s'' : Server (Client δ)} {calls more : List RecordedCall}
    (h : CallsBetween S c calls s s')
    (h' : CallsBetween S (exec (Client.call S) c calls) more s' s'') :
    CallsBetween S c (calls ++ more) s s'' where
  drafter := by rw [exec_append]; exact h'.drafter
  stepId_le := h.stepId_le.trans h'.stepId_le
  fresh := by
    intro id hid
    rw [stepIds, List.filterMap_append] at hid
    rcases List.mem_append.mp hid with hid | hid
    · exact ⟨(h.fresh id hid).1, (h.fresh id hid).2.trans h'.stepId_le⟩
    · exact ⟨h.stepId_le.trans_lt (h'.fresh id hid).1, (h'.fresh id hid).2⟩
  increasing := by
    rw [stepIds, List.filterMap_append]
    refine List.pairwise_append.mpr ⟨h.increasing, h'.increasing, fun i hi k hk => ?_⟩
    exact (h.fresh i hi).2.trans_lt (h'.fresh k hk).1

/-- A step that is sent is one call, under the next id. -/
theorem send_calls (dp : DraftParams) (base : ℤ) (tokens : List TokenFeatures) (c : Client δ) :
    CallsBetween S c [.draft (s.request p dp base tokens)] s
      (s.send (grpcDrafter S) p dp base tokens c).1 where
  drafter := rfl
  stepId_le := Nat.le_succ _
  fresh := by
    intro id hid
    rw [List.mem_singleton.mp hid]
    exact ⟨Nat.lt_succ_self _, le_rfl⟩
  increasing := List.pairwise_singleton _ _

theorem draft_calls (hd : s.drafter = some c) (dparams : List DraftParams) :
    ∃ calls, CallsBetween S c calls s (s.draft (grpcDrafter S) p dparams).1 := by
  cases hdp : dparams.find? DraftParams.drafting with
  | none => exact ⟨[], by rw [draft_none _ p hdp]; exact callsBetween_refl hd⟩
  | some dp =>
    cases hship : s.toShip dp.nPast with
    | none =>
      refine ⟨[], ?_⟩
      rw [Server.draft, hdp, hd]
      simp only [draftFor_missing _ p hd hship]
      exact ⟨hd, stepId_le_skipped s, fun _ hid => absurd hid List.not_mem_nil, .nil⟩
    | some tokens =>
      cases hp : s.prefilled with
      | false =>
        rw [draft_eq_first _ p hd hdp hp hship]
        have hsend := send_calls (S := S) (p := p) (s := s) dp (dp.nPast - 1) [] (c.prefill S tokens true).1
        exact ⟨[.prefill tokens true, .draft (s.request p dp (dp.nPast - 1) [])], hsend.drafter,
          hsend.stepId_le, hsend.fresh, hsend.increasing⟩
      | true =>
        rw [draft_eq_later _ p hd hdp hp hship]
        exact ⟨_, send_calls dp s.nSent tokens c⟩

theorem generate_calls (hd : s.drafter = some c) (e : GenerationEvent) :
    ∃ calls, CallsBetween S c calls s (s.generate S p e) := by
  cases e with
  | process layerInp batch =>
    refine ⟨[], ?_⟩
    rw [Server.generate, process_eq p layerInp batch hd]
    exact ⟨hd, le_rfl, fun _ hid => absurd hid List.not_mem_nil, .nil⟩
  | draft dparams => exact draft_calls hd dparams

/-- Whatever happens in a generation of the server, its client goes through calls with increasing ids. -/
theorem generation_calls (hd : s.drafter = some c) (es : List GenerationEvent) :
    ∃ calls, CallsBetween S c calls s (exec (Server.generate S p) s es) := by
  induction es generalizing s c with
  | nil => exact ⟨[], callsBetween_refl hd⟩
  | cons e es ih =>
    obtain ⟨calls, hcalls⟩ := generate_calls (S := S) (p := p) hd e
    obtain ⟨more, hmore⟩ := ih hcalls.drafter
    exact ⟨calls ++ more, callsBetween_trans hcalls hmore⟩

end Generation

/-! ### What it leaves -/

/-- The directory holds `k` chunks, numbered from `first`, and the two files of every exchange. -/
structure Recorded (dir : GoldenDir) (first k : ℕ) (exs : List (DraftRequest × DraftResponse)) :
    Prop where
  names : dir.names.Perm ((List.range' first k).map prefillName ++ stepFiles (exs.map fun x => x.1.stepId))
  request : ∀ x ∈ exs, dir.read (requestName x.1.stepId) = some (.request x.1)
  response : ∀ x ∈ exs, dir.read (responseName x.1.stepId) = some (.response x.2)

section Recorded

variable {dir : GoldenDir} {first k : ℕ} {exs : List (DraftRequest × DraftResponse)}

theorem Recorded.mem_names (h : Recorded dir first k exs) {name : FileName} (hname : name ∈ dir.names) :
    (∃ n < first + k, name = prefillName n) ∨
      ∃ x ∈ exs, name = responseName x.1.stepId ∨ name = requestName x.1.stepId := by
  rcases List.mem_append.mp (h.names.mem_iff.mp hname) with hchunk | hstep
  · obtain ⟨n, hn, rfl⟩ := List.mem_map.mp hchunk
    exact Or.inl ⟨n, (List.mem_range'_1.mp hn).2, rfl⟩
  · obtain ⟨id, hid, hname⟩ := mem_stepFiles.mp hstep
    obtain ⟨x, hx, rfl⟩ := List.mem_map.mp hid
    exact Or.inr ⟨x, hx, hname⟩

theorem recorded_prefill (h : Recorded dir first k exs) (m : Message) :
    Recorded (dir.write (prefillName (first + k)) m) first (k + 1) exs where
  names := by
    have hnew : prefillName (first + k) ∉ dir.names := by
      intro hmem
      rcases h.mem_names hmem with ⟨n, hn, heq⟩ | ⟨x, -, heq | heq⟩
      · rw [prefillName_injective heq] at hn
        exact Nat.lt_irrefl n hn
      · exact prefill_ne_response _ _ heq
      · exact prefill_ne_request _ _ heq
    rw [names_write hnew, List.range'_1_concat, List.map_append, List.append_assoc]
    exact (h.names.cons _).trans List.perm_middle.symm
  request := by
    intro x hx
    rw [read_write_ne (prefill_ne_request _ _).symm, h.request x hx]
  response := by
    intro x hx
    rw [read_write_ne (prefill_ne_response _ _).symm, h.response x hx]

theorem recorded_draft (h : Recorded dir first k exs) {x : DraftRequest × DraftResponse}
    (hnew : x.1.stepId ∉ exs.map fun y => y.1.stepId) :
    Recorded ((dir.write (requestName x.1.stepId) (.request x.1)).write (responseName x.1.stepId)
      (.response x.2)) first k (exs ++ [x]) := by
  have hne : ∀ y ∈ exs, x.1.stepId ≠ y.1.stepId := by
    intro y hy heq
    exact hnew (heq ▸ List.mem_map_of_mem (f := fun y => y.1.stepId) hy)
  have hreq : requestName x.1.stepId ∉ dir.names := by
    intro hmem
    rcases h.mem_names hmem with ⟨n, -, heq⟩ | ⟨y, hy, heq | heq⟩
    · exact prefill_ne_request _ _ heq.symm
    · exact request_ne_response _ _ heq
    · exact hne y hy (requestName_injective heq)
  have hresp : responseName x.1.stepId ∉ (dir.write (requestName x.1.stepId) (.request x.1)).names := by
    rw [names_write hreq]
    refine List.not_mem_cons_of_ne_of_not_mem (request_ne_response _ _).symm fun hmem => ?_
    rcases h.mem_names hmem with ⟨n, -, heq⟩ | ⟨y, hy, heq | heq⟩
    · exact prefill_ne_response _ _ heq.symm
    · exact hne y hy (responseName_injective heq)
    · exact request_ne_response _ _ heq.symm
  refine ⟨?_, fun y hy => ?_, fun y hy => ?_⟩
  · rw [names_write hresp, names_write hreq, List.map_append, stepFiles, List.flatMap_append,
      List.map_singleton, List.flatMap_singleton, ← List.append_assoc]
    exact (h.names.append_left [responseName x.1.stepId, requestName x.1.stepId]).trans
      List.perm_append_comm
  · rw [read_write_ne (request_ne_response _ _)]
    rcases List.mem_append.mp hy with hold | hy
    · rw [read_write_ne fun heq => hne y hold (requestName_injective heq).symm, h.request y hold]
    · rw [List.mem_singleton.mp hy, read_write_self]
  · rcases List.mem_append.mp hy with hold | hy
    · rw [read_write_ne fun heq => hne y hold (responseName_injective heq).symm,
        read_write_ne (request_ne_response _ _).symm, h.response y hold]
    · rw [List.mem_singleton.mp hy, read_write_self]

end Recorded

/-- Calls whose step ids are new add their chunks and their exchanges. -/
theorem recorded_exec (S : Stub δ) {c : Client δ} {session : ℕ} (hready : c.Ready session)
    {dir : GoldenDir} {first k : ℕ} {exs : List (DraftRequest × DraftResponse)} (hdir : c.golden = some dir)
    (hcount : c.prefillChunk = first + k) (h : Recorded dir first k exs) {calls : List RecordedCall}
    (hids : (exs.map (fun x => x.1.stepId) ++ stepIds calls).Nodup) :
    ∃ dir', (exec (Client.call S) c calls).golden = some dir' ∧
      Recorded dir' first (k + chunkCount calls) (exs ++ exchanges S c calls) := by
  induction calls generalizing c dir k exs with
  | nil => exact ⟨dir, hdir, by simpa [exchanges, chunkCount] using h⟩
  | cons call calls ih =>
    cases call with
    | prefill tokens lastChunk =>
      obtain ⟨hgolden, hchunk⟩ := client_prefill_golden S hready tokens lastChunk
      rw [hdir, hcount] at hgolden
      rw [hcount] at hchunk
      obtain ⟨dir', hdir', hrec⟩ := ih (client_prefill S hready tokens lastChunk).1 hgolden hchunk
        (recorded_prefill h _) hids
      have hlen : chunkCount (.prefill tokens lastChunk :: calls) = chunkCount calls + 1 := rfl
      refine ⟨dir', hdir', ?_⟩
      rw [hlen, Nat.add_comm (chunkCount calls), ← Nat.add_assoc]
      exact hrec
    | draft req =>
      obtain ⟨hgolden, hchunk⟩ := client_draft_golden S hready req
      obtain ⟨x, hx⟩ : ∃ x, x = (req.toWire c.sessionId, (S.draft c.net (req.toWire c.sessionId)).2.2) :=
        ⟨_, rfl⟩
      have hstep : req.stepId = x.1.stepId := by rw [hx]; rfl
      have hgolden' : (c.draft S req).1.golden = some ((dir.write (requestName x.1.stepId)
          (.request x.1)).write (responseName x.1.stepId) (.response x.2)) := by
        rw [hgolden, hdir, ← hready.sessionId, hstep, hx]
        rfl
      have hsplit : exs.map (fun x => x.1.stepId) ++ stepIds (.draft req :: calls) =
          (exs ++ [x]).map (fun x => x.1.stepId) ++ stepIds calls := by
        rw [List.map_append, List.append_assoc, List.map_singleton, List.singleton_append, ← hstep]
        rfl
      rw [hsplit] at hids
      have hnew : x.1.stepId ∉ exs.map fun x => x.1.stepId := by
        intro hmem
        rw [List.map_append] at hids
        exact List.disjoint_of_nodup_append (List.Nodup.of_append_left hids) hmem List.mem_cons_self
      obtain ⟨dir', hdir', hrec⟩ := ih (client_draft S hready req).1 hgolden' (hchunk.trans hcount)
        (recorded_draft h hnew) hids
      refine ⟨dir', hdir', ?_⟩
      rw [List.append_assoc, hx] at hrec
      exact hrec

/-! ### How it is listed -/

section Listed

variable {dir : GoldenDir} {first k : ℕ} {exs : List (DraftRequest × DraftResponse)}

theorem Recorded.prefills_perm (h : Recorded dir first k exs) :
    (dir.names.filter isPrefillFile).Perm ((List.range' first k).map prefillName) := by
  refine (h.names.filter _).trans (.of_eq ?_)
  rw [List.filter_append, stepFiles_prefills, List.append_nil, List.filter_eq_self]
  intro name hname
  obtain ⟨n, -, rfl⟩ := List.mem_map.mp hname
  exact isPrefillFile_prefillName n

theorem Recorded.requests_perm (h : Recorded dir first k exs) :
    (dir.names.filter fun name => !isPrefillFile name && isRequestFile name).Perm
      ((exs.map fun x => x.1.stepId).map requestName) := by
  refine (h.names.filter _).trans (.of_eq ?_)
  rw [List.filter_append, stepFiles_requests, List.filter_eq_nil_iff.mpr, List.nil_append]
  intro name hname
  obtain ⟨n, -, rfl⟩ := List.mem_map.mp hname
  simp

/-- The chunks are listed by number exactly if their numbers pass no power of ten past the width. -/
theorem Recorded.prefills_iff (h : Recorded dir first k exs) :
    prefillFiles dir = (List.range' first k).map prefillName ↔ SameWidth 3 first k := by
  rw [prefillFiles, insertionSort_eq_iff h.prefills_perm]
  rw [funext prefillName_eq]
  exact pairwise_named_iff (by decide) _ _

/-- The requests are listed by step id exactly if every step precedes the later ones. -/
theorem Recorded.requests_iff (h : Recorded dir first k exs)
    (hids : (exs.map fun x => x.1.stepId).Pairwise (· < ·)) :
    requestFiles dir = (exs.map fun x => x.1.stepId).map requestName ↔
      (exs.map fun x => x.1.stepId).Pairwise (Precedes 4) := by
  rw [requestFiles, insertionSort_eq_iff h.requests_perm, List.pairwise_map]
  have hiff {i k : ℕ} (hlt : i < k) : requestName i ≤ requestName k ↔ Precedes 4 i k := by
    rw [requestName_eq, requestName_eq]
    exact padded_le_iff_precedes hlt _ _ _
  constructor
  · exact fun hle => List.Pairwise.imp₂ (fun _ _ hlt => (hiff hlt).mp) hids hle
  · exact fun hpre => List.Pairwise.imp₂ (fun _ _ hlt => (hiff hlt).mpr) hids hpre

end Listed

/-! ### Recording order -/

/-- The chunks are listed as they were numbered and the requests as their steps were, and beside the
    request of every exchange lies its response. -/
structure InRecordingOrder (dir : GoldenDir) (first : ℕ) (calls : List RecordedCall)
    (exs : List (DraftRequest × DraftResponse)) : Prop where
  prefills : prefillFiles dir = (List.range' first (chunkCount calls)).map prefillName
  requests : requestFiles dir = (stepIds calls).map requestName
  paired : ∀ x ∈ exs, dir.read (requestName x.1.stepId) = some (.request x.1) ∧
    goldenResponse dir (requestName x.1.stepId) = some x.2

theorem Recorded.inRecordingOrder_iff {dir : GoldenDir} {first : ℕ} {calls : List RecordedCall}
    {exs : List (DraftRequest × DraftResponse)} (h : Recorded dir first (chunkCount calls) exs)
    (hexs : exs.map (fun x => x.1.stepId) = stepIds calls) (hids : (stepIds calls).Pairwise (· < ·)) :
    InRecordingOrder dir first calls exs ↔
      SameWidth 3 first (chunkCount calls) ∧ (stepIds calls).Pairwise (Precedes 4) := by
  have hrequests := h.requests_iff (by rwa [hexs])
  rw [hexs] at hrequests
  constructor
  · exact fun horder => ⟨h.prefills_iff.mp horder.prefills, hrequests.mp horder.requests⟩
  · rintro ⟨hchunks, hsteps⟩
    refine ⟨h.prefills_iff.mpr hchunks, hrequests.mpr hsteps, fun x hx => ⟨h.request x hx, ?_⟩⟩
    rw [goldenResponse, responseFile_requestName, h.response x hx]

/-- What a generation leaves in an empty directory. -/
theorem recorded_generation (S : Stub δ) {c : Client δ} {session : ℕ} (hready : c.Ready session)
    (hdir : c.golden = some []) {calls : List RecordedCall} (hids : (stepIds calls).Pairwise (· < ·)) :
    ∃ dir, (exec (Client.call S) c calls).golden = some dir ∧
      Recorded dir c.prefillChunk (chunkCount calls) (exchanges S c calls) := by
  have hempty : Recorded [] c.prefillChunk 0 [] := ⟨.refl _, by simp, by simp⟩
  have hnodup : (([] : List (DraftRequest × DraftResponse)).map (fun x => x.1.stepId) ++ stepIds calls).Nodup :=
    hids.imp Nat.ne_of_lt
  obtain ⟨dir, hdir', hrec⟩ := recorded_exec S hready hdir (Nat.add_zero _).symm hempty hnodup
  rw [Nat.zero_add, List.nil_append] at hrec
  exact ⟨dir, hdir', hrec⟩

/-- RECORD AND SORT: whatever a generation consists of and whatever the edge answers, the replay goes
    through its files in the order they were recorded, each response beside its request, exactly when
    its chunk numbers pass no power of ten from 1000 on and each step id precedes the later ones. -/
theorem replay_order_iff (S : Stub δ) {c : Client δ} {session : ℕ} (hready : c.Ready session)
    (hdir : c.golden = some []) {calls : List RecordedCall} (hids : (stepIds calls).Pairwise (· < ·)) :
    ∃ dir, (exec (Client.call S) c calls).golden = some dir ∧
      (InRecordingOrder dir c.prefillChunk calls (exchanges S c calls) ↔
        SameWidth 3 c.prefillChunk (chunkCount calls) ∧ (stepIds calls).Pairwise (Precedes 4)) := by
  obtain ⟨dir, hdir', hrec⟩ := recorded_generation S hready hdir hids
  exact ⟨dir, hdir', hrec.inRecordingOrder_iff (exchanges_stepIds S c calls) hids⟩

/-- A generation of one chunk and `n` steps. -/
def stepsFromOne (n : ℕ) : List RecordedCall :=
  .prefill [] true :: (List.range' 1 n).map fun id => .draft ⟨1, id, id, 4, true, 0, []⟩

/-- A client whose edge answers everything. -/
def freshClient : Client (List Sent) := ⟨1, true, 0, some [], []⟩

theorem stepIds_stepsFromOne (n : ℕ) : stepIds (stepsFromOne n) = List.range' 1 n := by
  rw [stepIds, stepsFromOne, List.filterMap_cons_none rfl, List.filterMap_map]
  exact List.filterMap_some

/-- The request of step 10000 is replayed before the one of step 1001. -/
theorem ten_thousand_steps_not_in_order : ¬∃ dir,
    (exec (Client.call (scriptedStub (draftReplies [5]))) freshClient (stepsFromOne 10000)).golden =
      some dir ∧
    InRecordingOrder dir 0 (stepsFromOne 10000)
      (exchanges (scriptedStub (draftReplies [5])) freshClient (stepsFromOne 10000)) := by
  have hids : (stepIds (stepsFromOne 10000)).Pairwise (· < ·) := by
    rw [stepIds_stepsFromOne]
    exact List.pairwise_lt_range'
  obtain ⟨dir, hdir, hrec⟩ := recorded_generation (scriptedStub (draftReplies [5])) (c := freshClient)
    ⟨rfl, rfl⟩ rfl hids
  rintro ⟨dir', hdir', horder⟩
  rw [hdir] at hdir'
  cases Option.some.inj hdir'
  have hsteps := ((hrec.inRecordingOrder_iff (exchanges_stepIds _ _ _) hids).mp horder).2
  rw [stepIds_stepsFromOne] at hsteps
  have hpre := List.pairwise_iff_getElem.mp hsteps 1000 9999 (by rw [List.length_range']; decide)
    (by rw [List.length_range']; decide) (by decide)
  simp only [List.getElem_range'] at hpre
  revert hpre
  decide

/-- A generation of two steps is replayed in order. -/
theorem replay_order_iff_two : ∃ dir,
    (exec (Client.call (scriptedStub (draftReplies [5]))) freshClient (stepsFromOne 2)).golden = some dir ∧
      (InRecordingOrder dir 0 (stepsFromOne 2)
          (exchanges (scriptedStub (draftReplies [5])) freshClient (stepsFromOne 2)) ↔
        SameWidth 3 0 (chunkCount (stepsFromOne 2)) ∧
          (stepIds (stepsFromOne 2)).Pairwise (Precedes 4)) :=
  replay_order_iff (scriptedStub (draftReplies [5])) (c := freshClient) ⟨rfl, rfl⟩ rfl (by decide)

end DsparkEdge
