import DsparkEdge.Codec
import DsparkEdge.Lib.Loops
import DsparkEdge.Recording
import DsparkEdge.Retry

/-! `replay_golden` on the files themselves (`replay_mode.cpp`, called by `main.cpp` with `--replay`): what it
    reads, what it prints, what it exits with. A file that cannot be opened or parsed ends the replay, and so
    does a prefill that fails; a draft that fails or differs does not, and neither does a response that is not
    there.

        prefill files ─read─parse─▶ engine.prefill     n_positions
        request files ─read─parse─▶ engine.draft       ═ response file?   matched prefix, EXACT or DIVERGES
                                                        total match / total expected

    `compared` is a ghost: the recorded and the replayed tokens of every response that was there. The parser `pb`
    is a parameter. -/

namespace DsparkEdge

open Runs Loops

/-- A directory; a file that cannot be opened has no contents. -/
abbrev FileDir := List (FileName × Option (List Byte))

def FileDir.names (dir : FileDir) : List FileName := dir.map Prod.fst

def FileDir.read (name : FileName) (dir : FileDir) : Option (List Byte) :=
  (dir.find? fun f => f.1 = name).bind Prod.snd

def FileDir.prefillFiles (dir : FileDir) : List FileName :=
  (dir.names.filter isPrefillFile).insertionSort (· ≤ ·)

def FileDir.requestFiles (dir : FileDir) : List FileName :=
  (dir.names.filter fun name => !isPrefillFile name && isRequestFile name).insertionSort (· ≤ ·)

/-- A line of the report. -/
inductive ReplayLine where
  | prefill (name : FileName) (nPositions : ℕ)
  | compared (name : FileName) (got expected matched : ℕ) (exact : Bool)
  | uncompared (name : FileName) (got : ℕ)
  deriving DecidableEq, Repr

def ReplayLine.diverges : ReplayLine → Bool
  | .compared _ _ _ _ exact => !exact
  | _ => false

structure ReplayRun where
  engine : Engine
  steps : ℕ
  totalExpected : ℕ
  totalMatch : ℕ
  lines : List ReplayLine
  compared : List (List ℤ × List ℤ)

def ReplayRun.start (engine : Engine) : ReplayRun := ⟨engine, 0, 0, 0, [], []⟩

inductive ReplayError where
  | notADirectory
  | unreadable (name : FileName)
  | unparsable (name : FileName)
  | prefillFailed (name : FileName)
  deriving DecidableEq, Repr

/-- The loop over both token lists, up to the first difference. -/
def matchedPrefix : List ℤ → List ℤ → ℕ
  | e :: es, g :: gs => if e = g then matchedPrefix es gs + 1 else 0
  | _, _ => 0

/-- One prefill file; `calls` is what llama.cpp does during the call for a file. -/
def ReplayRun.prefill (pb : Protobuf) (cfg : ModelConfig) (calls : FileName → LlamaCalls) (dir : FileDir)
    (r : ReplayRun) (name : FileName) : Except ReplayError ReplayRun :=
  match dir.read name with
  | none => .error (.unreadable name)
  | some buf =>
    match pb.prefillRequest.parse buf with
    | none => .error (.unparsable name)
    | some req =>
      let out := r.engine.prefill cfg (calls name) req.tokens
      if out.1 then .ok { r with engine := out.2.2, lines := r.lines ++ [.prefill name out.2.1] }
      else .error (.prefillFailed name)

/-- The golden response beside a request file, if it is there and can be parsed. -/
def FileDir.response (pb : Protobuf) (dir : FileDir) (name : FileName) : Option DraftResponse :=
  ((dir.read (responseFile name)).bind pb.draftResponse.parse).map Prod.fst

/-- Compare a draft with the recorded response, if there is one. -/
def ReplayRun.compare (name : FileName) (got : List ℤ) (expected : Option DraftResponse) (r : ReplayRun) :
    ReplayRun :=
  match expected with
  | none => { r with steps := r.steps + 1, lines := r.lines ++ [.uncompared name got.length] }
  | some res =>
    let n := matchedPrefix res.draftTokens got
    let exact := decide (n = res.draftTokens.length) && decide (got.length = res.draftTokens.length)
    { r with
      steps := r.steps + 1
      totalExpected := r.totalExpected + res.draftTokens.length
      totalMatch := r.totalMatch + n
      lines := r.lines ++ [.compared name got.length res.draftTokens.length n exact]
      compared := r.compared ++ [(res.draftTokens, got)] }

/-- One request file. -/
def ReplayRun.request (pb : Protobuf) (cfg : ModelConfig) (M : DraftModel) (calls : FileName → LlamaCalls)
    (dir : FileDir) (r : ReplayRun) (name : FileName) : Except ReplayError ReplayRun :=
  match dir.read name with
  | none => .error (.unreadable name)
  | some buf =>
    match pb.draftRequest.parse buf with
    | none => .error (.unparsable name)
    | some req =>
      let out := r.engine.draft cfg M (calls name) (.ofWire req)
      .ok ({ r with engine := out.2 }.compare name out.1.draftTokens (dir.response pb name))

/-- `none` is a path that is no directory. -/
def replayFiles (pb : Protobuf) (cfg : ModelConfig) (M : DraftModel) (calls : FileName → LlamaCalls)
    (dir : Option FileDir) (engine : Engine) : Except ReplayError ReplayRun :=
  match dir with
  | none => .error .notADirectory
  | some dir =>
    (dir.prefillFiles.foldlM (ReplayRun.prefill pb cfg calls dir) (.start engine)).bind fun r =>
      dir.requestFiles.foldlM (ReplayRun.request pb cfg M calls dir) r

def exitCode : Except ReplayError ReplayRun → ℕ
  | .ok _ => 0
  | .error _ => 1

variable {pb : Protobuf} {cfg : ModelConfig} {M : DraftModel} {calls : FileName → LlamaCalls} {dir : FileDir}

/-! ### What the counters count -/

theorem matchedPrefix_le (es gs : List ℤ) : matchedPrefix es gs ≤ es.length := by
  fun_induction matchedPrefix es gs with
  | case1 e es gs ih => simpa using ih
  | case2 => simp
  | case3 => simp

/-- The whole recorded draft is matched exactly if it is how the replayed one starts. -/
theorem matchedPrefix_eq_iff (es gs : List ℤ) : matchedPrefix es gs = es.length ↔ es <+: gs := by
  fun_induction matchedPrefix es gs with
  | case1 e es gs ih => simp [ih]
  | case2 e es g gs hne => simp [hne]
  | case3 es gs hnot =>
    cases es with
    | nil => simp
    | cons e es =>
      cases gs with
      | nil => simp
      | cons g gs => exact absurd rfl (hnot e es g gs rfl)

/-- The counters are the sums over the responses that were compared. -/
structure Counted (names : List FileName) (r : ReplayRun) : Prop where
  steps : r.steps = names.length
  expected : r.totalExpected = (r.compared.map fun c => c.1.length).sum
  matched : r.totalMatch = (r.compared.map fun c => matchedPrefix c.1 c.2).sum
  diverges : (∃ l ∈ r.lines, l.diverges = true) ↔ ∃ c ∈ r.compared, c.1 ≠ c.2

theorem prefill_counted {r r' : ReplayRun} {name : FileName} (h : Counted [] r)
    (hstep : r.prefill pb cfg calls dir name = .ok r') : Counted [] r' := by
  unfold ReplayRun.prefill at hstep
  split at hstep
  case h_1 => cases hstep
  case h_2 =>
    split at hstep
    case h_1 => cases hstep
    case h_2 =>
      simp only at hstep
      split at hstep
      case isTrue =>
        cases hstep
        refine ⟨h.steps, h.expected, h.matched, ?_⟩
        rw [← h.diverges]
        simp [ReplayLine.diverges]
      case isFalse => cases hstep

/-- A draft is exact if it matches over its whole length. -/
theorem exact_iff_eq (es gs : List ℤ) :
    (decide (matchedPrefix es gs = es.length) && decide (gs.length = es.length)) = true ↔ es = gs := by
  rw [Bool.and_eq_true, decide_eq_true_eq, decide_eq_true_eq, matchedPrefix_eq_iff]
  refine ⟨fun h => h.1.eq_of_length h.2.symm, ?_⟩
  rintro rfl
  exact ⟨List.prefix_rfl, rfl⟩

theorem compare_counted {r : ReplayRun} {names : List FileName} (h : Counted names r) (name : FileName)
    (got : List ℤ) (expected : Option DraftResponse) : Counted (names ++ [name]) (r.compare name got expected) := by
  cases expected with
  | none =>
    refine ⟨by simp [ReplayRun.compare, h.steps], h.expected, h.matched, ?_⟩
    rw [show (r.compare name got none).compared = r.compared from rfl, ← h.diverges]
    simp [ReplayRun.compare, ReplayLine.diverges]
  | some res =>
    refine ⟨by simp [ReplayRun.compare, h.steps], by simp [ReplayRun.compare, h.expected],
      by simp [ReplayRun.compare, h.matched], ?_⟩
    have hline : ReplayLine.diverges (.compared name got.length res.draftTokens.length
        (matchedPrefix res.draftTokens got) (decide (matchedPrefix res.draftTokens got = res.draftTokens.length) &&
          decide (got.length = res.draftTokens.length))) = true ↔ res.draftTokens ≠ got := by
      rw [ReplayLine.diverges, Bool.not_eq_true', ← Bool.not_eq_true, exact_iff_eq]
    simp only [ReplayRun.compare, List.mem_append, List.mem_singleton, or_and_right, exists_or, exists_eq_left, hline,
      h.diverges]

theorem request_counted {r r' : ReplayRun} {names : List FileName} {name : FileName} (h : Counted names r)
    (hstep : r.request pb cfg M calls dir name = .ok r') : Counted (names ++ [name]) r' := by
  unfold ReplayRun.request at hstep
  split at hstep
  case h_1 => cases hstep
  case h_2 =>
    split at hstep
    case h_1 => cases hstep
    case h_2 =>
      cases hstep
      have hengine : ∀ st, Counted names { r with engine := st } :=
        fun _ => ⟨h.steps, h.expected, h.matched, h.diverges⟩
      exact compare_counted (hengine _) name _ (dir.response pb name)

/-- The summed shortfall is nothing exactly if every summand's is. -/
theorem sum_matched (cs : List (List ℤ × List ℤ)) :
    (cs.map fun c => matchedPrefix c.1 c.2).sum ≤ (cs.map fun c => c.1.length).sum ∧
      ((cs.map fun c => matchedPrefix c.1 c.2).sum = (cs.map fun c => c.1.length).sum ↔ ∀ c ∈ cs, c.1 <+: c.2) := by
  induction cs with
  | nil => simp
  | cons c cs ih =>
    have hle := matchedPrefix_le c.1 c.2
    rw [List.map_cons, List.map_cons, List.sum_cons, List.sum_cons, List.forall_mem_cons, ← matchedPrefix_eq_iff,
      ← ih.2]
    exact ⟨by omega, by omega⟩

/-- A replay that goes through goes through both loops. -/
theorem replayFiles_ok {engine : Engine} {r : ReplayRun} : replayFiles pb cfg M calls (some dir) engine = .ok r ↔
    ∃ r₁, dir.prefillFiles.foldlM (ReplayRun.prefill pb cfg calls dir) (.start engine) = .ok r₁ ∧
      dir.requestFiles.foldlM (ReplayRun.request pb cfg M calls dir) r₁ = .ok r := by
  have heq : replayFiles pb cfg M calls (some dir) engine =
      (dir.prefillFiles.foldlM (ReplayRun.prefill pb cfg calls dir) (.start engine)).bind fun r =>
        dir.requestFiles.foldlM (ReplayRun.request pb cfg M calls dir) r := rfl
  rw [heq]
  cases dir.prefillFiles.foldlM (ReplayRun.prefill pb cfg calls dir) (.start engine) with
  | error e => simp [Except.bind]
  | ok r₁ => simp [Except.bind]

theorem replay_counted {engine : Engine} {r : ReplayRun} (h : replayFiles pb cfg M calls (some dir) engine = .ok r) :
    Counted dir.requestFiles r := by
  obtain ⟨r₁, hprefills, hrequests⟩ := replayFiles_ok.mp h
  have hstart : Counted [] (.start engine) := ⟨rfl, rfl, rfl, by simp [ReplayRun.start]⟩
  have h₁ : Counted [] r₁ := foldlM_ok (fun _ r => Counted [] r) (fun _ _ _ _ hr hstep => prefill_counted hr hstep) []
    hstart hprefills
  exact foldlM_ok Counted (fun _ _ _ _ hr hstep => request_counted hr hstep) [] h₁ hrequests

/-- No line says DIVERGES exactly if every two drafts that were compared are equal. -/
theorem Counted.no_divergence {names : List FileName} {r : ReplayRun} (h : Counted names r) :
    (∀ l ∈ r.lines, l.diverges = false) ↔ ∀ c ∈ r.compared, c.1 = c.2 := by
  have hdiv := not_congr h.diverges
  push Not at hdiv
  simpa using hdiv

/-- THE REPORT: whatever the directory holds, a replay that goes through reports one step for every request
    file and matches no more tokens than were recorded; the two totals are equal exactly if every recorded draft
    is how the replayed one starts, and no line says DIVERGES exactly if every two are equal. -/
theorem replay_report (pb : Protobuf) (cfg : ModelConfig) (M : DraftModel) (calls : FileName → LlamaCalls)
    (dir : FileDir) (engine : Engine) {r : ReplayRun} (h : replayFiles pb cfg M calls (some dir) engine = .ok r) :
    r.steps = dir.requestFiles.length ∧ r.totalMatch ≤ r.totalExpected ∧
    (r.totalMatch = r.totalExpected ↔ ∀ c ∈ r.compared, c.1 <+: c.2) ∧
    ((∀ l ∈ r.lines, l.diverges = false) ↔ ∀ c ∈ r.compared, c.1 = c.2) := by
  have hr := replay_counted h
  obtain ⟨hle, heq⟩ := sum_matched r.compared
  rw [hr.expected, hr.matched]
  exact ⟨hr.steps, hle, heq, hr.no_divergence⟩

/-- A prompt of no packets, and a step with its response. -/
def tinyDir : FileDir :=
  [(prefillName 0, some []), (requestName 1, some [16, 1, 40, 4]), (responseName 1, some [26, 1, 5, 56, 1])]

/-- The three messages in it. -/
def tinyProtobuf : Protobuf where
  initSessionResponse := .single {} []
  prefillRequest := .single ⟨0, [], false⟩ []
  draftRequest := .single ⟨0, 1, [], 0, 4, false, 0⟩ [16, 1, 40, 4]
  draftResponse := .single ({ draftTokens := [5], ok := true }, 0) [26, 1, 5, 56, 1]

theorem replay_report_tiny :
    ∃ r, replayFiles tinyProtobuf smallConfig (constModel [5]) (fun _ => .succeed 0) (some tinyDir) .fresh = .ok r ∧
      r.compared = [([5], [5])] ∧ r.steps = 1 ∧ r.totalMatch ≤ r.totalExpected ∧ r.totalMatch = r.totalExpected := by
  refine ⟨_, rfl, rfl, ?_⟩
  obtain ⟨hsteps, hle, hparity, -⟩ :=
    replay_report tinyProtobuf smallConfig (constModel [5]) (fun _ => .succeed 0) tinyDir .fresh rfl
  exact ⟨hsteps, hle, hparity.mpr (by decide)⟩

/-! ### When a replay goes through -/

/-- The packets of a prompt go in. -/
def Injects (cfg : ModelConfig) (calls : LlamaCalls) (tokens : List TokenFeatures) : Prop :=
  (injectFeatures cfg calls tokens []).1 = true

theorem prefill_iff_injects (cfg : ModelConfig) (calls : LlamaCalls) (tokens : List TokenFeatures) (st : Engine) :
    (st.prefill cfg calls tokens).1 = true ↔ Injects cfg calls tokens := by
  have hflag : (injectFeatures cfg calls tokens st.cells).1 = (injectFeatures cfg calls tokens []).1 :=
    injectLoop_flag cfg calls _ 0 _ _
  rw [Injects, ← hflag]
  unfold Engine.prefill
  cases h : (injectFeatures cfg calls tokens st.cells).1 <;> simp [h]

/-- A prefill file that can be replayed. -/
def GoodPrefill (pb : Protobuf) (cfg : ModelConfig) (calls : FileName → LlamaCalls) (dir : FileDir)
    (name : FileName) : Prop :=
  ∃ buf req, dir.read name = some buf ∧ pb.prefillRequest.parse buf = some req ∧ Injects cfg (calls name) req.tokens

/-- A request file that can be replayed. -/
def GoodRequest (pb : Protobuf) (dir : FileDir) (name : FileName) : Prop :=
  ∃ buf req, dir.read name = some buf ∧ pb.draftRequest.parse buf = some req

theorem prefill_isOk (r : ReplayRun) (name : FileName) :
    (∃ r', r.prefill pb cfg calls dir name = .ok r') ↔ GoodPrefill pb cfg calls dir name := by
  unfold ReplayRun.prefill GoodPrefill
  cases hread : dir.read name with
  | none => simp
  | some buf =>
    cases hparse : pb.prefillRequest.parse buf with
    | none => simp [hparse]
    | some req =>
      have hiff := prefill_iff_injects cfg (calls name) req.tokens r.engine
      cases h : (r.engine.prefill cfg (calls name) req.tokens).1 <;> simp [h, hparse, ← hiff]

theorem request_isOk (r : ReplayRun) (name : FileName) :
    (∃ r', r.request pb cfg M calls dir name = .ok r') ↔ GoodRequest pb dir name := by
  unfold ReplayRun.request GoodRequest
  cases hread : dir.read name with
  | none => simp
  | some buf => cases hparse : pb.draftRequest.parse buf <;> simp [hparse]

/-- THE EXIT CODE: a replay exits with 0 exactly if the directory is there, every prefill file can be read,
    parsed and injected and every request file read and parsed; neither the order of the files, nor the state
    of the engine, nor a draft that fails or diverges, nor a missing response matters. -/
theorem exit_zero_iff (pb : Protobuf) (cfg : ModelConfig) (M : DraftModel) (calls : FileName → LlamaCalls)
    (dir : Option FileDir) (engine : Engine) :
    exitCode (replayFiles pb cfg M calls dir engine) = 0 ↔ ∃ d, dir = some d ∧
      (∀ name ∈ d.names, isPrefillFile name = true → GoodPrefill pb cfg calls d name) ∧
      ∀ name ∈ d.names, isPrefillFile name = false → isRequestFile name = true → GoodRequest pb d name := by
  have hok : ∀ e : Except ReplayError ReplayRun, exitCode e = 0 ↔ ∃ r, e = .ok r := by
    intro e
    cases e <;> simp [exitCode]
  rw [hok]
  cases dir with
  | none => simp [replayFiles]
  | some d =>
    have hmem : ∀ names : List FileName, ∀ name, name ∈ names.insertionSort (· ≤ ·) ↔ name ∈ names :=
      fun names name => (List.perm_insertionSort _ _).mem_iff
    have hprefills := foldlM_isOk (@prefill_isOk pb cfg calls d) d.prefillFiles (.start engine)
    have hrequests := foldlM_isOk (@request_isOk pb cfg M calls d) d.requestFiles
    have hp : (∀ name ∈ d.prefillFiles, GoodPrefill pb cfg calls d name) ↔
        ∀ name ∈ d.names, isPrefillFile name = true → GoodPrefill pb cfg calls d name := by
      simp only [FileDir.prefillFiles, hmem, List.mem_filter, and_imp]
    have hr : (∀ name ∈ d.requestFiles, GoodRequest pb d name) ↔
        ∀ name ∈ d.names, isPrefillFile name = false → isRequestFile name = true → GoodRequest pb d name := by
      simp only [FileDir.requestFiles, hmem, List.mem_filter, and_imp, Bool.and_eq_true, Bool.not_eq_true']
    simp only [Option.some.injEq, exists_eq_left', ← hp, ← hr, ← hprefills, replayFiles_ok]
    constructor
    · rintro ⟨r, r₁, hr₁, hr⟩
      exact ⟨⟨r₁, hr₁⟩, (hrequests r₁).mp ⟨r, hr⟩⟩
    · rintro ⟨⟨r₁, hr₁⟩, hgood⟩
      obtain ⟨r, hr⟩ := (hrequests r₁).mpr hgood
      exact ⟨r, r₁, hr₁, hr⟩

end DsparkEdge
