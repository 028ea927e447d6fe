import DsparkEdge.Lib.Runs
import DsparkEdge.Lib.Utf8
import DsparkEdge.Ui.LogStream

/-! What a child writes to stdout or stderr reaches the process manager in chunks, as the operating system
    cuts it. Each chunk is decoded on its own and split into lines on its own; nothing of a chunk waits
    for the next one.

        output   a b CR LF c d LF
        uncut    "ab", "cd"
        cut      a│b…  two lines for one      CR│LF  a line that keeps its CR      LF│c  no difference

    Lines are compared by weight, one for each line and one for each CR in it: a cut that makes a
    difference makes the log heavier, so no other cut makes up for it. -/

namespace DsparkEdge.Ui
open Runs Utf8

/-! ### Lines -/

/-- A line without the CR of its end. -/
def stripCr (line : List Char) : List Char :=
  if line.getLast? = some '\r' then line.dropLast else line

theorem stripCr_cons (c : Char) {line : List Char} (h : line ≠ []) :
    stripCr (c :: line) = c :: stripCr line := by
  obtain ⟨d, line, rfl⟩ := List.exists_cons_of_ne_nil h
  rw [stripCr, stripCr, List.getLast?_cons_cons]
  split <;> rfl

@[simp] theorem stripCr_append_cr (line : List Char) : stripCr (line ++ ['\r']) = line := by
  simp [stripCr]

/-- A character that is neither a line end nor the CR of one goes to the first line. -/
theorem splitLines_cons {c : Char} {rest line : List Char} {lines : List (List Char)} (hc : c ≠ '\n')
    (hcr : c = '\r' → rest.head? ≠ some '\n') (hrest : splitLines rest = line :: lines) :
    splitLines (c :: rest) = (c :: line) :: lines := by
  unfold splitLines
  split
  · simp_all
  · simp_all
  · simp_all
  · rename_i heq
    obtain ⟨rfl, rfl⟩ := List.cons.inj heq
    rw [hrest]

theorem splitLines_line {p : List Char} (hp : '\n' ∉ p) (q : List Char) :
    splitLines (p ++ '\n' :: q) = stripCr p :: splitLines q := by
  induction p with
  | nil => rfl
  | cons c p ih =>
    obtain ⟨hc, hp⟩ := not_or.mp (List.mem_cons.not.mp hp)
    cases p with
    | nil =>
      by_cases hcr : c = '\r'
      · subst hcr
        rfl
      · rw [List.singleton_append, splitLines_cons (Ne.symm hc) (fun h => absurd h hcr) rfl]
        simp [stripCr, hcr]
    | cons d p =>
      obtain ⟨hd, -⟩ := not_or.mp (List.mem_cons.not.mp hp)
      rw [List.cons_append, splitLines_cons (Ne.symm hc) _ (ih hp), stripCr_cons c (List.cons_ne_nil d p)]
      intro _ hhead
      exact hd (Option.some.inj hhead).symm

theorem splitLines_last {p : List Char} (hp : '\n' ∉ p) : splitLines p = [p] := by
  induction p with
  | nil => rfl
  | cons c p ih =>
    obtain ⟨hc, hp⟩ := not_or.mp (List.mem_cons.not.mp hp)
    exact splitLines_cons (Ne.symm hc) (fun _ h => hp (List.mem_of_mem_head? h)) (ih hp)

/-! ### The lines of a chunk -/

def LF : Octet := 0x0A

def CR : Octet := 0x0D

/-- The lines pushed for a chunk. -/
def chunkLines (chunk : List Octet) : List (List Char) :=
  (splitLines (decode chunk)).filter fun raw => !raw.isEmpty

/-- The lines pushed for an output that comes in these chunks. -/
def recorded (chunks : List (List Octet)) : List (List Char) := chunks.flatMap chunkLines

/-- A line, unless it is empty. -/
def keep (line : List Char) : List (List Char) := [line].filter fun raw => !raw.isEmpty

theorem keep_of_ne_nil {line : List Char} (h : line ≠ []) : keep line = [line] := by
  simp [keep, h]

@[simp] theorem keep_nil : keep [] = [] := rfl

theorem newline_notMem_decode {xs : List Octet} (h : LF ∉ xs) : '\n' ∉ decode xs :=
  fun hmem => h ((ascii_mem_decode (b := LF) (by decide) (by decide)).mp hmem)

theorem chunkLines_line {xs : List Octet} (h : LF ∉ xs) (ys : List Octet) :
    chunkLines (xs ++ LF :: ys) = keep (stripCr (decode xs)) ++ chunkLines ys := by
  rw [chunkLines, decode_ascii (by decide), show ascii LF = '\n' from rfl,
    splitLines_line (newline_notMem_decode h), ← List.singleton_append, List.filter_append]
  rfl

theorem chunkLines_last {xs : List Octet} (h : LF ∉ xs) : chunkLines xs = keep (decode xs) := by
  rw [chunkLines, splitLines_last (newline_notMem_decode h)]
  rfl

@[simp] theorem chunkLines_nil : chunkLines [] = [] := rfl

/-- Only whole lines. -/
def WholeLines (a : List Octet) : Prop := a = [] ∨ a.getLast? = some LF

/-- Behind whole lines a chunk may be cut. -/
theorem WholeLines.chunkLines_append {a : List Octet} (ha : WholeLines a) (b : List Octet) :
    chunkLines (a ++ b) = chunkLines a ++ chunkLines b := by
  induction hn : a.length using Nat.strong_induction_on generalizing a with
  | _ n ih =>
    rcases ha with rfl | hlast
    · rfl
    · obtain ⟨p, q, rfl, hp⟩ := List.eq_append_cons_of_mem (List.mem_of_getLast? hlast)
      have hq : WholeLines q := by
        cases q with
        | nil => exact Or.inl rfl
        | cons x q => exact Or.inr (by simpa using hlast)
      have hlen : q.length < n := by
        rw [← hn, List.length_append, List.length_cons]
        omega
      rw [List.append_assoc, List.cons_append, chunkLines_line hp, chunkLines_line hp, ih _ hlen hq rfl,
        List.append_assoc]

/-- Whole lines, and a line that has begun. -/
theorem exists_openLine (a : List Octet) : ∃ a₀ a₁, a = a₀ ++ a₁ ∧ WholeLines a₀ ∧ LF ∉ a₁ := by
  induction a using List.reverseRecOn with
  | nil => exact ⟨[], [], rfl, Or.inl rfl, List.not_mem_nil⟩
  | append_singleton a x ih =>
    by_cases hx : x = LF
    · exact ⟨a ++ [x], [], by simp, Or.inr (by simp [hx]), List.not_mem_nil⟩
    · obtain ⟨a₀, a₁, rfl, h₀, h₁⟩ := ih
      exact ⟨a₀, a₁ ++ [x], by simp, h₀, by simp [h₁, Ne.symm hx]⟩

/-! ### Weight -/

def weight (lines : List (List Char)) : ℕ := (lines.map fun line => 1 + line.count '\r').sum

@[simp] theorem weight_append (xs ys : List (List Char)) : weight (xs ++ ys) = weight xs + weight ys := by
  simp [weight]

@[simp] theorem weight_singleton (line : List Char) : weight [line] = 1 + line.count '\r' := by
  simp [weight]

theorem weight_keep_le (line : List Char) : weight (keep line) ≤ 1 + line.count '\r' := by
  by_cases h : line = []
  · simp [h, weight]
  · rw [keep_of_ne_nil h, weight_singleton]

theorem count_cr_decode (bs : List Octet) : (decode bs).count '\r' = bs.count CR :=
  count_decode bs (b := CR) (by decide) (by decide)

theorem decode_append_cr (xs : List Octet) : decode (xs ++ [CR]) = decode xs ++ ['\r'] :=
  decode_ascii (by decide) xs []

theorem stripCr_decode_append_cr (xs : List Octet) : stripCr (decode (xs ++ [CR])) = decode xs := by
  rw [decode_append_cr, stripCr_append_cr]

theorem stripCr_decode_of_ne {bs : List Octet} (h : bs.getLast? ≠ some CR) :
    stripCr (decode bs) = decode bs :=
  if_neg fun hlast => h ((getLast?_decode (b := CR) (by decide) (by decide)).mp hlast)

/-! ### Cuts -/

/-- A cut that makes no difference: at an end of the output, behind a line feed, or in front of a whole
    line end. -/
def Harmless (a b : List Octet) : Prop :=
  a = [] ∨ b = [] ∨ a.getLast? = some LF ∨ (b.head? = some LF ∧ a.getLast? ≠ some CR) ∨ [CR, LF] <+: b

instance (a b : List Octet) : Decidable (Harmless a b) := by
  unfold Harmless
  infer_instance

/-- What a cut does to the lines: nothing, or they get heavier. -/
structure CutEffect (a b : List Octet) : Prop where
  same : Harmless a b → chunkLines (a ++ b) = chunkLines a ++ chunkLines b
  heavier : ¬Harmless a b → weight (chunkLines (a ++ b)) < weight (chunkLines a ++ chunkLines b)

theorem keep_decode {bs : List Octet} (h : bs ≠ []) : keep (decode bs) = [decode bs] :=
  keep_of_ne_nil fun hnil => h (decode_eq_nil.mp hnil)

/-- Inside a line: the line loses its unity. -/
theorem cutEffect_inside {a b : List Octet} (ha : a ≠ []) (ha' : LF ∉ a) (hb : LF ∉ b) :
    CutEffect a b := by
  by_cases hnil : b = []
  · exact ⟨fun _ => by simp [hnil], fun h => absurd (Or.inr (Or.inl hnil)) h⟩
  · have hab : LF ∉ a ++ b := fun h => (List.mem_append.mp h).elim ha' hb
    refine ⟨?_, fun _ => ?_⟩
    · rintro (h | h | h | ⟨h, -⟩ | h)
      · exact absurd h ha
      · exact absurd h hnil
      · exact absurd (List.mem_of_getLast? h) ha'
      · exact absurd (List.mem_of_mem_head? h) hb
      · exact absurd (h.subset (by simp)) hb
    · rw [chunkLines_last hab, chunkLines_last ha', chunkLines_last hb,
        keep_decode (List.append_ne_nil_of_left_ne_nil ha b), keep_decode ha, keep_decode hnil]
      simp only [weight_append, weight_singleton, count_cr_decode, List.count_append]
      omega

/-- Between the last character of a line and its line feed: a CR there is no part of a line end any more. -/
theorem cutEffect_lineFeed {a : List Octet} (ha : a ≠ []) (ha' : LF ∉ a) (q : List Octet) :
    CutEffect a (LF :: q) := by
  have hq : chunkLines (LF :: q) = chunkLines q := chunkLines_line List.not_mem_nil q
  by_cases hcr : a.getLast? = some CR
  · refine ⟨?_, fun _ => ?_⟩
    · rintro (h | h | h | ⟨-, h⟩ | h)
      · exact absurd h ha
      · exact absurd h (List.cons_ne_nil LF q)
      · exact absurd (List.mem_of_getLast? h) ha'
      · exact absurd hcr h
      · exact absurd (List.cons_prefix_cons.mp h).1 (by decide)
    · obtain ⟨xs, rfl⟩ := List.getLast?_eq_some_iff.mp hcr
      have hkeep := weight_keep_le (decode xs)
      rw [chunkLines_line ha', chunkLines_last ha', keep_decode ha, hq, stripCr_decode_append_cr,
        decode_append_cr]
      simp only [weight_append, weight_singleton, List.count_append, List.count_singleton_self]
      omega
  · refine ⟨fun _ => ?_, fun h => absurd (Or.inr (Or.inr (Or.inr (Or.inl ⟨rfl, hcr⟩)))) h⟩
    rw [chunkLines_line ha', chunkLines_last ha', hq, stripCr_decode_of_ne hcr]

theorem lineEnd_not_ahead {p : List Octet} (hp : p ≠ []) (hp' : LF ∉ p) (hcr : p ≠ [CR])
    (q : List Octet) : ¬[CR, LF] <+: p ++ LF :: q := by
  obtain ⟨x, p, rfl⟩ := List.exists_cons_of_ne_nil hp
  rw [List.cons_append, List.cons_prefix_cons]
  rintro ⟨rfl, h⟩
  cases p with
  | nil => exact hcr rfl
  | cons y p =>
    rw [List.cons_append, List.cons_prefix_cons] at h
    exact hp' (by simp [h.1])

/-- A line that is more than its CR, behind what it was cut from. -/
theorem weight_rest {a p : List Octet} (ha : a ≠ []) (hp : p ≠ []) (hcr : p ≠ [CR]) :
    weight (keep (stripCr (decode (a ++ p)))) <
      weight (keep (decode a)) + weight (keep (stripCr (decode p))) := by
  by_cases hlast : p.getLast? = some CR
  · obtain ⟨xs, rfl⟩ := List.getLast?_eq_some_iff.mp hlast
    have hxs : xs ≠ [] := by
      rintro rfl
      exact hcr rfl
    rw [← List.append_assoc, stripCr_decode_append_cr, stripCr_decode_append_cr,
      keep_decode (List.append_ne_nil_of_left_ne_nil ha xs), keep_decode ha, keep_decode hxs]
    simp only [weight_singleton, count_cr_decode, List.count_append]
    omega
  · have hlast' : (a ++ p).getLast? ≠ some CR := by rwa [List.getLast?_append_of_ne_nil a hp]
    rw [stripCr_decode_of_ne hlast, stripCr_decode_of_ne hlast',
      keep_decode (List.append_ne_nil_of_left_ne_nil ha p), keep_decode ha, keep_decode hp]
    simp only [weight_singleton, count_cr_decode, List.count_append]
    omega

/-- Before the end of the line, with something left of it: two lines, if that is not just its CR. -/
theorem cutEffect_before {a p : List Octet} (ha : a ≠ []) (ha' : LF ∉ a) (hp : p ≠ []) (hp' : LF ∉ p)
    (q : List Octet) : CutEffect a (p ++ LF :: q) := by
  have hap : LF ∉ a ++ p := fun h => (List.mem_append.mp h).elim ha' hp'
  have hlines : chunkLines (a ++ (p ++ LF :: q)) = keep (stripCr (decode (a ++ p))) ++ chunkLines q := by
    rw [← List.append_assoc, chunkLines_line hap]
  by_cases hcr : p = [CR]
  · refine ⟨fun _ => ?_, fun h => absurd (Or.inr (Or.inr (Or.inr (Or.inr ⟨q, by simp [hcr]⟩)))) h⟩
    rw [hlines, chunkLines_line hp', chunkLines_last ha', hcr, stripCr_decode_append_cr]
    rfl
  · refine ⟨?_, fun _ => ?_⟩
    · rintro (h | h | h | ⟨h, -⟩ | h)
      · exact absurd h ha
      · exact absurd h (by simp)
      · exact absurd (List.mem_of_getLast? h) ha'
      · obtain ⟨x, p, rfl⟩ := List.exists_cons_of_ne_nil hp
        exact absurd (List.mem_cons.mpr (Or.inl (Option.some.inj h).symm)) hp'
      · exact absurd h (lineEnd_not_ahead hp hp' hcr q)
    · rw [hlines, chunkLines_line hp', chunkLines_last ha']
      have hrest := weight_rest ha hp hcr
      simp only [weight_append]
      omega

/-- Only the line that has begun in front of the cut matters. -/
theorem cutEffect (a b : List Octet) : CutEffect a b := by
  obtain ⟨a₀, a₁, rfl, h₀, h₁⟩ := exists_openLine a
  by_cases hnil : a₁ = []
  · subst hnil
    rw [List.append_nil]
    refine ⟨fun _ => h₀.chunkLines_append b, fun h => absurd ?_ h⟩
    rcases h₀ with h | h
    · exact Or.inl h
    · exact Or.inr (Or.inr (Or.inl h))
  · have hopen : CutEffect a₁ b := by
      by_cases hb : LF ∈ b
      · obtain ⟨p, q, rfl, hp⟩ := List.eq_append_cons_of_mem hb
        by_cases hpnil : p = []
        · subst hpnil
          exact cutEffect_lineFeed hnil h₁ q
        · exact cutEffect_before hnil h₁ hpnil hp q
      · exact cutEffect_inside hnil h₁ hb
    have hharm : Harmless (a₀ ++ a₁) b ↔ Harmless a₁ b := by
      simp only [Harmless, List.getLast?_append_of_ne_nil a₀ hnil, List.append_eq_nil_iff, hnil, and_false]
    refine ⟨fun h => ?_, fun h => ?_⟩
    · rw [List.append_assoc, h₀.chunkLines_append, h₀.chunkLines_append, hopen.same (hharm.mp h),
        List.append_assoc]
    · have hheavier := hopen.heavier (fun h' => h (hharm.mpr h'))
      rw [List.append_assoc, h₀.chunkLines_append, h₀.chunkLines_append]
      simp only [weight_append] at hheavier ⊢
      omega

/-- Every place where the output is cut is harmless. -/
def HarmlessCuts (chunks : List (List Octet)) : Prop :=
  ∀ before after, chunks = before ++ after → Harmless before.flatten after.flatten

theorem harmlessCuts_nil : HarmlessCuts [] := by
  intro before after h
  obtain ⟨rfl, -⟩ := List.append_eq_nil_iff.mp h.symm
  exact Or.inl rfl

theorem harmlessCuts_cons {c : List Octet} {cs : List (List Octet)} :
    HarmlessCuts (c :: cs) ↔ Harmless c cs.flatten ∧ HarmlessCuts cs := by
  have hmore {x y : List Octet} (hx : x ≠ []) : Harmless (c ++ x) y ↔ Harmless x y := by
    simp only [Harmless, List.getLast?_append_of_ne_nil c hx, List.append_eq_nil_iff, hx, and_false]
  constructor
  · intro h
    refine ⟨by simpa using h [c] cs rfl, fun before after heq => ?_⟩
    by_cases hnil : before.flatten = []
    · exact Or.inl hnil
    · have hcut := h (c :: before) after (by rw [heq, List.cons_append])
      rw [List.flatten_cons] at hcut
      exact (hmore hnil).mp hcut
  · rintro ⟨hc, hcs⟩ before after heq
    cases before with
    | nil => exact Or.inl rfl
    | cons c' before =>
      rw [List.cons_append] at heq
      obtain ⟨rfl, rfl⟩ := List.cons.inj heq
      rw [List.flatten_cons]
      by_cases hnil : before.flatten = []
      · rw [hnil, List.append_nil]
        rwa [List.flatten_append, hnil, List.nil_append] at hc
      · exact (hmore hnil).mpr (hcs before after rfl)

/-- The lines of a cut output are never lighter, and as heavy only if every cut is harmless. -/
theorem recorded_weight (cs : List (List Octet)) :
    (HarmlessCuts cs → recorded cs = chunkLines cs.flatten) ∧
      (¬HarmlessCuts cs → weight (chunkLines cs.flatten) < weight (recorded cs)) := by
  induction cs with
  | nil => exact ⟨fun _ => rfl, fun h => absurd harmlessCuts_nil h⟩
  | cons c cs ih =>
    have hcut := cutEffect c cs.flatten
    have hle : weight (chunkLines cs.flatten) ≤ weight (recorded cs) := by
      by_cases h : HarmlessCuts cs
      · rw [ih.1 h]
      · exact Nat.le_of_lt (ih.2 h)
    rw [harmlessCuts_cons, recorded, List.flatMap_cons, List.flatten_cons, ← recorded]
    refine ⟨fun h => ?_, fun h => ?_⟩
    · rw [hcut.same h.1, ih.1 h.2]
    · by_cases hc : Harmless c cs.flatten
      · have hheavier := ih.2 fun hcs => h ⟨hc, hcs⟩
        rw [hcut.same hc]
        simp only [weight_append]
        omega
      · have hheavier := hcut.heavier hc
        simp only [weight_append] at hheavier ⊢
        omega

/-- The log is that of the uncut output exactly if every cut is harmless. -/
theorem recorded_eq_iff (cs : List (List Octet)) :
    recorded cs = chunkLines cs.flatten ↔ HarmlessCuts cs := by
  refine ⟨fun h => ?_, (recorded_weight cs).1⟩
  by_contra hcuts
  have hheavier := (recorded_weight cs).2 hcuts
  rw [h] at hheavier
  exact Nat.lt_irrefl _ hheavier

/-! ### The manager -/

/-- The texts of all lines ever pushed for one stream of a process. -/
def Manager.texts (id : ProcId) (stream : LogStream) (m : Manager) : List String :=
  ((linesOf m.emitted).filter fun line => line.proc = id ∧ line.stream = stream).map LogLine.text

section Texts

variable (id : ProcId) (stream : LogStream)

theorem texts_pushLine (id' : ProcId) (stream' : LogStream) (m : Manager) (raw : String) :
    (m.pushLine id' stream' raw).texts id stream =
      m.texts id stream ++ if id' = id ∧ stream' = stream then [raw] else [] := by
  simp only [Manager.texts, Manager.pushLine, linesOf_append, linesOf_log, List.filter_append,
    List.map_append]
  by_cases h : id' = id ∧ stream' = stream
  · simp [h]
  · simp [h]

theorem texts_pushLog (id' : ProcId) (stream' : LogStream) (text : List Char) (m : Manager) :
    (m.pushLog id' stream' (String.ofList text)).texts id stream = m.texts id stream ++
      if id' = id ∧ stream' = stream then
        ((splitLines text).filter fun raw => !raw.isEmpty).map String.ofList
      else [] := by
  rw [Manager.pushLog, String.toList_ofList]
  generalize ((splitLines text).filter fun raw => !raw.isEmpty).map String.ofList = raws
  induction raws generalizing m with
  | nil => simp
  | cons raw raws ih =>
    rw [List.foldl_cons, ih, texts_pushLine]
    split <;> simp

/-- Lines of another stream. -/
theorem texts_pushLog_ne {id' : ProcId} {stream' : LogStream} (h : ¬(id' = id ∧ stream' = stream))
    (text : String) (m : Manager) : (m.pushLog id' stream' text).texts id stream = m.texts id stream :=
  pushLog_inv (Manager.texts id stream) (fun m raw => by simp [texts_pushLine, h]) text m

@[simp] theorem texts_updateStatus (id' : ProcId) (patch : StatusPatch) (m : Manager) :
    (m.updateStatus id' patch).texts id stream = m.texts id stream := by
  simp [Manager.texts, Manager.updateStatus]

theorem texts_congr {m m' : Manager} (h : m'.emitted = m.emitted) :
    m'.texts id stream = m.texts id stream := by
  rw [Manager.texts, h]
  rfl

theorem texts_spawned (id' : ProcId) (child : Child) (m : Manager) :
    (m.spawned id' child).texts id stream = m.texts id stream := by
  rw [Manager.spawned, texts_updateStatus]
  exact texts_congr id stream rfl

end Texts

/-- A pipe from a child. -/
inductive Pipe where
  | stdout
  | stderr
  deriving DecidableEq, Repr

def Pipe.stream : Pipe → LogStream
  | .stdout => .stdout
  | .stderr => .stderr

theorem Pipe.stream_ne_system (pipe : Pipe) : pipe.stream ≠ .system := by
  cases pipe <;> decide

/-- Anything but data of this pipe. -/
def Foreign (id : ProcId) (pipe : Pipe) : ManagerEvent → Prop
  | .data id' stream _ => ¬(id' = id ∧ stream = pipe.stream)
  | _ => True

/-- What the manager itself has to say goes to no pipe. -/
theorem texts_system (id id' : ProcId) (pipe : Pipe) (text : String) (m : Manager) :
    (m.pushLog id' .system text).texts id pipe.stream = m.texts id pipe.stream :=
  texts_pushLog_ne id pipe.stream (fun h => pipe.stream_ne_system h.2.symm) text m

theorem texts_start (id id' : ProcId) (pipe : Pipe) (bin : String) (args : List String) (binExists : Bool)
    (spawn : SpawnOutcome) (now : ℕ) (m : Manager) :
    (m.start id' bin args binExists spawn now).2.texts id pipe.stream = m.texts id pipe.stream := by
  have hdrop : (m.dropLogs id').texts id pipe.stream = m.texts id pipe.stream :=
    texts_congr id pipe.stream rfl
  simp only [Manager.start]
  split
  · rfl
  · split
    · rw [texts_updateStatus, texts_system]
    · cases spawn <;>
        simp only [texts_spawned, texts_updateStatus, texts_system, hdrop]

theorem texts_foreign {id : ProcId} {pipe : Pipe} {e : ManagerEvent} (h : Foreign id pipe e)
    (m : Manager) : (m.step e).texts id pipe.stream = m.texts id pipe.stream := by
  cases e with
  | start id' bin args binExists spawn now => exact texts_start id id' pipe bin args binExists spawn now m
  | stop id' =>
    simp only [Manager.step, Manager.stop]
    split
    · exact (texts_congr id pipe.stream rfl).trans (texts_system id id' pipe _ m)
    · exact texts_updateStatus id pipe.stream id' _ m
  | sigterm k =>
    simp only [Manager.step, Manager.sigterm]
    split
    · rfl
    · split <;> rfl
  | sigkill k =>
    simp only [Manager.step, Manager.sigkill]
    split
    · rfl
    · split <;> rfl
  | exit c code signal now =>
    simp only [Manager.step, Manager.exit]
    split
    · rfl
    · split
      · rw [texts_updateStatus, texts_system]
        rfl
      · rfl
  | error c msg =>
    simp only [Manager.step, Manager.error]
    split
    · rfl
    · split
      · rfl
      · rw [texts_updateStatus, texts_system]
        rfl
  | data id' stream text => exact texts_pushLog_ne id pipe.stream h text m

/-! ### Runs -/

/-- In a run seen from a pipe of one child: a chunk arrives (`d.toString()` is pushed), or something
    else happens. -/
inductive PipeEvent (id : ProcId) (pipe : Pipe) where
  | chunk (bytes : List Octet)
  | other (e : ManagerEvent) (h : Foreign id pipe e)

variable {id : ProcId} {pipe : Pipe}

def PipeEvent.step (m : Manager) : PipeEvent id pipe → Manager
  | .chunk bytes => m.step (.data id pipe.stream (String.ofList (decode bytes)))
  | .other e _ => m.step e

def PipeEvent.bytes? : PipeEvent id pipe → Option (List Octet)
  | .chunk bytes => some bytes
  | .other _ _ => none

def chunksOf (es : List (PipeEvent id pipe)) : List (List Octet) := es.filterMap PipeEvent.bytes?

/-- All that the child wrote. -/
def output (es : List (PipeEvent id pipe)) : List Octet := (chunksOf es).flatten

theorem texts_exec (m : Manager) (es : List (PipeEvent id pipe)) :
    (exec PipeEvent.step m es).texts id pipe.stream =
      m.texts id pipe.stream ++ (recorded (chunksOf es)).map String.ofList := by
  induction es generalizing m with
  | nil => simp [chunksOf, recorded]
  | cons e es ih =>
    rw [exec_cons, ih]
    cases e with
    | chunk bytes =>
      have hpush := texts_pushLog id pipe.stream id pipe.stream (decode bytes) m
      rw [if_pos ⟨rfl, rfl⟩, ← chunkLines] at hpush
      rw [PipeEvent.step, Manager.step, hpush, List.append_assoc, ← List.map_append]
      rfl
    | other e h =>
      rw [PipeEvent.step, texts_foreign h]
      rfl

theorem texts_exec_iff (m : Manager) (es ds : List (PipeEvent id pipe)) :
    (exec PipeEvent.step m es).texts id pipe.stream = (exec PipeEvent.step m ds).texts id pipe.stream ↔
      recorded (chunksOf es) = recorded (chunksOf ds) := by
  rw [texts_exec, texts_exec, List.append_cancel_left_eq]
  exact (List.map_injective_iff.mpr fun _ _ h => String.ofList_injective h).eq_iff

/-- LOG CHUNKS: an output is recorded alike however it is cut exactly if it has only harmless places to
    cut; and a run whose cuts are all harmless is recorded like another of the same output exactly if
    the cuts of that one are. -/
theorem log_chunks_iff (id : ProcId) (pipe : Pipe) (m : Manager) :
    (∀ out : List Octet,
      (∀ es ds : List (PipeEvent id pipe), output es = out → output ds = out →
        (exec PipeEvent.step m es).texts id pipe.stream = (exec PipeEvent.step m ds).texts id pipe.stream) ↔
      ∀ a b, out = a ++ b → Harmless a b) ∧
    ∀ es ds : List (PipeEvent id pipe), output es = output ds → HarmlessCuts (chunksOf ds) →
      ((exec PipeEvent.step m es).texts id pipe.stream = (exec PipeEvent.step m ds).texts id pipe.stream ↔
        HarmlessCuts (chunksOf es)) := by
  refine ⟨fun out => ⟨fun h a b hab => ?_, fun h es ds hes hds => ?_⟩, fun es ds hout hds => ?_⟩
  · have hsame := h [.chunk a, .chunk b] [.chunk out] (by simp [output, chunksOf, PipeEvent.bytes?, hab])
      (by simp [output, chunksOf, PipeEvent.bytes?])
    rw [texts_exec_iff] at hsame
    have hcut : recorded [a, b] = chunkLines [a, b].flatten := by
      simpa [recorded, chunksOf, PipeEvent.bytes?, hab] using hsame
    simpa using (recorded_eq_iff [a, b]).mp hcut [a] [b] rfl
  · have huncut (fs : List (PipeEvent id pipe)) (hfs : output fs = out) :
        recorded (chunksOf fs) = chunkLines out := by
      rw [← hfs, output, recorded_eq_iff]
      intro before after heq
      refine h _ _ ?_
      rw [← hfs, output, heq, List.flatten_append]
    rw [texts_exec_iff, huncut es hes, huncut ds hds]
  · rw [texts_exec_iff, (recorded_eq_iff _).mpr hds, show (chunksOf ds).flatten = output ds from rfl,
      ← hout]
    exact recorded_eq_iff (chunksOf es)

/-- "a\n" and "b\r\n", cut behind the first line feed and before the second line end. -/
theorem log_chunks_cut_at_lines :
    (exec PipeEvent.step .fresh
      ([.chunk [0x61, 0x0A], .chunk [0x62], .chunk [0x0D, 0x0A]] :
        List (PipeEvent .daemon .stderr))).texts .daemon .stderr =
      (exec PipeEvent.step .fresh
        ([.chunk [0x61, 0x0A, 0x62, 0x0D, 0x0A]] : List (PipeEvent .daemon .stderr))).texts .daemon .stderr := by
  refine ((log_chunks_iff .daemon .stderr .fresh).2
    [.chunk [0x61, 0x0A], .chunk [0x62], .chunk [0x0D, 0x0A]]
    [.chunk [0x61, 0x0A, 0x62, 0x0D, 0x0A]] rfl (harmlessCuts_cons.mpr ⟨by decide, harmlessCuts_nil⟩)).mpr ?_
  exact harmlessCuts_cons.mpr ⟨by decide, harmlessCuts_cons.mpr ⟨by decide,
    harmlessCuts_cons.mpr ⟨by decide, harmlessCuts_nil⟩⟩⟩

/-- "ab\n" in one chunk is one line, cut behind the "a" it is two. -/
theorem cut_line_recorded_twice :
    ¬∀ es ds : List (PipeEvent .server .stdout), output es = output ds →
      (exec PipeEvent.step .fresh es).texts .server .stdout =
        (exec PipeEvent.step .fresh ds).texts .server .stdout := by
  intro h
  have hsame := h [.chunk [0x61, 0x62, 0x0A]] [.chunk [0x61], .chunk [0x62, 0x0A]] rfl
  have huncut : (exec PipeEvent.step .fresh
      ([.chunk [0x61, 0x62, 0x0A]] : List (PipeEvent .server .stdout))).texts .server .stdout = ["ab"] := by
    decide
  have hcut : (exec PipeEvent.step .fresh
      ([.chunk [0x61], .chunk [0x62, 0x0A]] : List (PipeEvent .server .stdout))).texts .server .stdout =
        ["a", "b"] := by
    decide
  rw [huncut, hcut] at hsame
  exact absurd hsame (by decide)

end DsparkEdge.Ui
