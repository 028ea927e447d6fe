import DsparkEdge.Client
import Mathlib.Data.Char
import Mathlib.Data.List.Sort

/-! The golden directory as the client writes it and as the replay lists it. The replay knows the files by
    their names alone: a prefill file starts with `prefill_chunk_`, a request file is
    `step_<digits>_request.pb`, its response is the file named alike, and each kind is taken in the text
    order of the names.

        prefill_chunk_000.pb  …            sorted ─▶ prefills
        step_0001_request.pb  …            sorted ─▶ requests
        step_0001_response.pb …            read beside each request                                  -/

namespace DsparkEdge

open Decimal

/-! ### Reading and writing -/

def GoldenDir.names (dir : GoldenDir) : List FileName := dir.map Prod.fst

theorem read_write_self (name : FileName) (m : Message) (dir : GoldenDir) :
    (dir.write name m).read name = some m := by
  simp [GoldenDir.write, GoldenDir.read]

theorem read_write_ne {name other : FileName} (h : other ≠ name) (m : Message) (dir : GoldenDir) :
    (dir.write name m).read other = dir.read other := by
  rw [GoldenDir.write, GoldenDir.read, List.find?_cons_of_neg (by simpa using h.symm),
    List.find?_filter, GoldenDir.read]
  congr 2
  funext f
  by_cases hf : f.1 = other
  · simp [hf, h]
  · simp [hf]

/-- A new file adds its name. -/
theorem names_write {name : FileName} {dir : GoldenDir} (h : name ∉ dir.names) (m : Message) :
    (dir.write name m).names = name :: dir.names := by
  have hkeep : dir.filter (fun f => f.1 ≠ name) = dir := by
    rw [List.filter_eq_self]
    intro f hf
    simpa using fun heq : f.1 = name => h (heq ▸ List.mem_map_of_mem hf)
  rw [GoldenDir.write, hkeep]
  rfl

/-! ### Kinds of files -/

def isPrefillFile (name : FileName) : Bool :=
  "prefill_chunk_".toList.isPrefixOf name && decide (3 < name.length) && ".pb".toList.isSuffixOf name

/-- `regex_match(name, "step_\\d+_request\\.pb")`. -/
def isRequestFile (name : FileName) : Bool :=
  let number := (name.take (name.length - 11)).drop 5
  "step_".toList.isPrefixOf name && "_request.pb".toList.isSuffixOf name &&
    !number.isEmpty && number.all Char.isDigit

/-- The name of the response beside a request. -/
def responseFile (name : FileName) : FileName :=
  name.take (name.length - 10) ++ "response.pb".toList

/-- The prefill files of a directory, sorted. -/
def prefillFiles (dir : GoldenDir) : List FileName :=
  (dir.names.filter isPrefillFile).insertionSort (· ≤ ·)

/-- The request files of a directory, sorted. -/
def requestFiles (dir : GoldenDir) : List FileName :=
  (dir.names.filter fun name => !isPrefillFile name && isRequestFile name).insertionSort (· ≤ ·)

theorem prefillName_eq (n : ℕ) :
    prefillName n = "prefill_chunk_".toList ++ (padded 3 n ++ ".pb".toList) := by
  unfold prefillName
  rw [List.append_assoc]

theorem requestName_eq (id : ℕ) :
    requestName id = "step_".toList ++ (padded 4 id ++ "_request.pb".toList) := by
  unfold requestName
  rw [List.append_assoc]

theorem responseName_eq (id : ℕ) :
    responseName id = "step_".toList ++ (padded 4 id ++ "_response.pb".toList) := by
  unfold responseName
  rw [List.append_assoc]

@[simp] theorem isPrefillFile_prefillName (n : ℕ) : isPrefillFile (prefillName n) = true := by
  have hprefix : "prefill_chunk_".toList <+: prefillName n := by
    rw [prefillName_eq]
    exact List.prefix_append _ _
  have hsuffix : ".pb".toList <:+ prefillName n := by
    rw [prefillName_eq, ← List.append_assoc]
    exact List.suffix_append _ _
  have hlen : 3 < (prefillName n).length := by
    rw [prefillName_eq, List.length_append]
    exact Nat.lt_add_right _ (by decide)
  rw [isPrefillFile, List.isPrefixOf_iff_prefix.mpr hprefix, decide_eq_true hlen,
    List.isSuffixOf_iff_suffix.mpr hsuffix]
  rfl

@[simp] theorem isPrefillFile_requestName (id : ℕ) : isPrefillFile (requestName id) = false := by
  rw [requestName_eq]
  rfl

@[simp] theorem isPrefillFile_responseName (id : ℕ) : isPrefillFile (responseName id) = false := by
  rw [responseName_eq]
  rfl

@[simp] theorem isRequestFile_requestName (id : ℕ) : isRequestFile (requestName id) = true := by
  have hprefix : "step_".toList <+: requestName id := by
    rw [requestName_eq]
    exact List.prefix_append _ _
  have hsuffix : "_request.pb".toList <:+ requestName id := by
    rw [requestName_eq, ← List.append_assoc]
    exact List.suffix_append _ _
  have hnumber : ((requestName id).take ((requestName id).length - 11)).drop 5 = padded 4 id := by
    rw [requestName_eq, ← List.append_assoc]
    have hlen : ("step_".toList ++ padded 4 id ++ "_request.pb".toList).length - 11 =
        ("step_".toList ++ padded 4 id).length := by simp
    rw [hlen, List.take_left]
    exact List.drop_left' rfl
  have hdigits : (padded 4 id).all Char.isDigit = true := List.all_eq_true.mpr (isDigit_padded 4 id)
  have hne : (padded 4 id).isEmpty = false := by simp [padded_succ 3 id]
  simp only [isRequestFile, List.isPrefixOf_iff_prefix.mpr hprefix,
    List.isSuffixOf_iff_suffix.mpr hsuffix, hnumber, hdigits, hne]
  rfl

@[simp] theorem isRequestFile_responseName (id : ℕ) : isRequestFile (responseName id) = false := by
  have hsuffix : "_request.pb".toList.isSuffixOf (responseName id) = false := by
    rw [responseName_eq]
    simp [List.isSuffixOf, List.isPrefixOf]
  simp only [isRequestFile, hsuffix, Bool.and_false, Bool.false_and]

@[simp] theorem responseFile_requestName (id : ℕ) : responseFile (requestName id) = responseName id := by
  have hsplit : requestName id = "step_".toList ++ padded 4 id ++ ['_'] ++ "request.pb".toList := by
    rw [requestName_eq]
    simp
  have hlen : (requestName id).length - 10 = ("step_".toList ++ padded 4 id ++ ['_']).length := by
    rw [hsplit]
    simp
  rw [responseFile, hlen, hsplit, List.take_left, responseName_eq]
  simp

/-- The files of some steps, a request and a response each. -/
def stepFiles (ids : List ℕ) : List FileName := ids.flatMap fun id => [responseName id, requestName id]

theorem mem_stepFiles {ids : List ℕ} {name : FileName} :
    name ∈ stepFiles ids ↔ ∃ id ∈ ids, name = responseName id ∨ name = requestName id := by
  rw [stepFiles, List.mem_flatMap]
  exact exists_congr fun id => and_congr_right fun _ => List.mem_pair

theorem stepFiles_prefills (ids : List ℕ) : (stepFiles ids).filter isPrefillFile = [] := by
  rw [List.filter_eq_nil_iff]
  intro name hname
  obtain ⟨id, -, rfl | rfl⟩ := mem_stepFiles.mp hname <;> simp

theorem stepFiles_requests (ids : List ℕ) :
    ((stepFiles ids).filter fun name => !isPrefillFile name && isRequestFile name) = ids.map requestName := by
  induction ids with
  | nil => rfl
  | cons id ids ih =>
    rw [stepFiles, List.flatMap_cons, List.filter_append, ← stepFiles, ih]
    simp

/-! ### The order of the names -/

/-- Within the padded width the request files come in the order of their step ids. -/
theorem requestName_lt {i k : ℕ} (h : i < k) (hk : k < 10 ^ 4) : requestName i < requestName k := by
  rw [requestName_eq, requestName_eq]
  refine List.append_left_lt (append_lt_append ?_ (padded_lt h hk) _ _)
  rw [length_padded hk, length_padded (h.trans hk)]

theorem prefillName_injective {m n : ℕ} (h : prefillName m = prefillName n) : m = n := by
  rw [prefillName_eq, prefillName_eq] at h
  exact padded_injective (List.append_cancel_right (List.append_cancel_left h))

theorem requestName_injective {i k : ℕ} (h : requestName i = requestName k) : i = k := by
  rw [requestName_eq, requestName_eq] at h
  exact padded_injective (List.append_cancel_right (List.append_cancel_left h))

theorem responseName_injective {i k : ℕ} (h : responseName i = responseName k) : i = k := by
  rw [responseName_eq, responseName_eq] at h
  exact padded_injective (List.append_cancel_right (List.append_cancel_left h))

theorem prefill_ne_request (n id : ℕ) : prefillName n ≠ requestName id := by
  intro heq
  have := congrArg isPrefillFile heq
  simp at this

theorem prefill_ne_response (n id : ℕ) : prefillName n ≠ responseName id := by
  intro heq
  have := congrArg isPrefillFile heq
  simp at this

theorem request_ne_response (i k : ℕ) : requestName i ≠ responseName k := by
  intro heq
  have := congrArg isRequestFile heq
  simp at this

/-- Names in some order are the sorted ones exactly if that order is the text order. -/
theorem insertionSort_eq_iff {names sorted : List FileName} (hperm : names.Perm sorted) :
    names.insertionSort (· ≤ ·) = sorted ↔ sorted.Pairwise (· ≤ ·) := by
  have hsort := List.pairwise_insertionSort (· ≤ ·) names
  constructor
  · intro heq
    rwa [heq] at hsort
  · exact fun hle => ((List.perm_insertionSort (· ≤ ·) names).trans hperm).eq_of_pairwise' hsort hle

theorem sorted_names {names sorted : List FileName} (hperm : names.Perm sorted)
    (hsorted : sorted.Pairwise (· < ·)) : names.insertionSort (· ≤ ·) = sorted :=
  (insertionSort_eq_iff hperm).mpr (hsorted.imp le_of_lt)

end DsparkEdge
