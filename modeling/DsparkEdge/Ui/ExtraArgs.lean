import DsparkEdge.Lib.Scan
import Mathlib.Data.List.DropRight
import Mathlib.Data.List.TakeDrop

/-! The extra arguments of a process, as the user types them, and their way into an argument list
    (`tokenizeExtra` in `lib/process-manager.ts`): what the global expression "…"|'…'|bare finds in the
    trimmed text.

        --host "my host"  --watch ''      ↦      ["--host", "my host", "--watch", ""]

    A match starts at the leftmost place where one of the three forms does, tried in this order, and the
    next one is looked for behind it; gaps are where none starts. -/

namespace DsparkEdge.Ui

open Scan

/-! ### Blanks -/

/-- White space and line ends, for `\s` and `trim` alike. -/
def isBlank (c : Char) : Bool :=
  let n := c.toNat
  (0x09 ≤ n && n ≤ 0x0D) || n == 0x20 || n == 0xA0 || n == 0x1680 || (0x2000 ≤ n && n ≤ 0x200A) ||
    n == 0x2028 || n == 0x2029 || n == 0x202F || n == 0x205F || n == 0x3000 || n == 0xFEFF

/-- `s.trim()`. -/
def trimBlank (s : List Char) : List Char := (s.dropWhile isBlank).rdropWhile isBlank

def Blank (s : List Char) : Prop := ∀ c ∈ s, isBlank c = true

instance (s : List Char) : Decidable (Blank s) := inferInstanceAs (Decidable (∀ c ∈ s, isBlank c = true))

theorem blank_singleton {c : Char} (h : isBlank c = true) : Blank [c] := List.forall_mem_singleton.mpr h

/-- Nothing to trim at either end. -/
structure Trimmed (s : List Char) : Prop where
  head : ∀ c, s.head? = some c → isBlank c = false
  last : ∀ c, s.getLast? = some c → isBlank c = false

theorem dropWhile_blank {g : List Char} (hg : Blank g) (s : List Char) :
    (g ++ s).dropWhile isBlank = s.dropWhile isBlank := by
  induction g with
  | nil => rfl
  | cons c g ih =>
    rw [List.cons_append, List.dropWhile_cons_of_pos (hg c List.mem_cons_self)]
    exact ih fun d hd => hg d (List.mem_cons_of_mem c hd)

theorem dropWhile_of_head {s : List Char} (h : ∀ c, s.head? = some c → isBlank c = false) :
    s.dropWhile isBlank = s := by
  cases s with
  | nil => rfl
  | cons c s => rw [List.dropWhile_cons_of_neg (by simp [h c rfl])]

theorem trimBlank_surrounded {before s after : List Char} (hbefore : Blank before) (hafter : Blank after)
    (hs : Trimmed s) : trimBlank (before ++ (s ++ after)) = s := by
  rw [trimBlank, dropWhile_blank hbefore, List.rdropWhile]
  by_cases hnil : s = []
  · subst hnil
    have hdrop : after.dropWhile isBlank = [] := List.dropWhile_eq_nil_iff.mpr hafter
    simp [hdrop]
  · have hhead : ∀ c, (s ++ after).head? = some c → isBlank c = false := by
      intro c hc
      rw [List.head?_append_of_ne_nil s hnil] at hc
      exact hs.head c hc
    have hlast : ∀ c, s.reverse.head? = some c → isBlank c = false := by
      intro c hc
      rw [List.head?_reverse] at hc
      exact hs.last c hc
    have hafter' : Blank after.reverse := fun c hc => hafter c (List.mem_reverse.mp hc)
    rw [dropWhile_of_head hhead, List.reverse_append, dropWhile_blank hafter', dropWhile_of_head hlast,
      List.reverse_reverse]

/-! ### The three forms -/

def doubleQuote : Char := Char.ofNat 0x22

def singleQuote : Char := Char.ofNat 0x27

/-- `q([^q]*)q` at the front of the text. -/
def matchQuoted (q : Char) : List Char → Option (List Char × List Char)
  | [] => none
  | c :: s =>
    if c = q then
      match s.span (· ≠ q) with
      | (body, _ :: rest) => some (body, rest)
      | (_, []) => none
    else none

/-- `(\\S+)`. -/
def matchBare (s : List Char) : Option (List Char × List Char) :=
  match s.span fun c => !isBlank c with
  | ([], _) => none
  | (word, rest) => some (word, rest)

def matchArg (s : List Char) : Option (List Char × List Char) :=
  (matchQuoted doubleQuote s).or ((matchQuoted singleQuote s).or (matchBare s))

/-- The extra arguments. Every match is at least a character long, so there are no more than that. -/
def tokenizeExtra (extra : String) : List String :=
  let s := trimBlank extra.toList
  if s = [] then [] else (scan matchArg s.length s).map String.ofList

example : tokenizeExtra "  --host \"my host\" a\"b '' " = ["--host", "my host", "a\"b", ""] := by decide

theorem matchQuoted_length {q : Char} {s : List Char} {r : List Char × List Char}
    (h : matchQuoted q s = some r) : r.2.length < s.length := by
  cases s with
  | nil => cases h
  | cons c s =>
    rw [matchQuoted, List.span_eq_takeWhile_dropWhile] at h
    split at h
    · split at h
      · rename_i body d rest heq
        obtain ⟨-, hdrop⟩ := Prod.mk.inj heq
        have hlen := (List.dropWhile_sublist (l := s) fun c => decide (c ≠ q)).length_le
        rw [hdrop, List.length_cons] at hlen
        obtain rfl := Option.some.inj h
        exact Nat.lt_succ_of_lt hlen
      · cases h
    · cases h

theorem matchBare_length {s : List Char} {r : List Char × List Char} (h : matchBare s = some r) :
    r.2.length < s.length := by
  rw [matchBare, List.span_eq_takeWhile_dropWhile] at h
  split at h
  · cases h
  · rename_i word rest hne heq
    obtain ⟨hword, hrest⟩ := Prod.mk.inj heq
    have hsplit := congrArg List.length (List.takeWhile_append_dropWhile (p := fun c => !isBlank c) (l := s))
    rw [List.length_append, hword, hrest] at hsplit
    have hpos : 0 < word.length := List.length_pos_iff.mpr hne
    obtain rfl := Option.some.inj h
    show rest.length < s.length
    omega

theorem matchArg_consumes : Consumes matchArg := by
  intro s r h
  rw [matchArg, Option.or_eq_some_iff, Option.or_eq_some_iff] at h
  rcases h with h | ⟨-, h | ⟨-, h⟩⟩
  · exact matchQuoted_length h
  · exact matchQuoted_length h
  · exact matchBare_length h

/-- There is nothing to be found behind the last match: more fuel changes nothing. -/
theorem tokenizeExtra_fuel (extra : String) {n : ℕ} (hn : (trimBlank extra.toList).length ≤ n) :
    (scan matchArg n (trimBlank extra.toList)).map String.ofList = tokenizeExtra extra := by
  rw [tokenizeExtra, matchArg_consumes.scan_fuel hn]
  split
  · rename_i hnil
    rw [hnil]
    rfl
  · rfl

/-! ### Renderings -/

/-- How an argument may be written. -/
inductive WrittenAs : List Char → List Char → Prop
  | double {a : List Char} (h : doubleQuote ∉ a) : WrittenAs a (doubleQuote :: (a ++ [doubleQuote]))
  | single {a : List Char} (h : singleQuote ∉ a) : WrittenAs a (singleQuote :: (a ++ [singleQuote]))
  | bare {a : List Char} (hne : a ≠ []) (hblank : ∀ c ∈ a, isBlank c = false)
      (hdouble : a.head? ≠ some doubleQuote) (hsingle : a.head? ≠ some singleQuote) : WrittenAs a a

/-- A run of blanks between two arguments. -/
def Gap (g : List Char) : Prop := g ≠ [] ∧ Blank g

theorem WrittenAs.ne_nil {a t : List Char} (h : WrittenAs a t) : t ≠ [] := by
  cases h with
  | double h => exact List.cons_ne_nil _ _
  | single h => exact List.cons_ne_nil _ _
  | bare hne hblank hdouble hsingle => exact hne

theorem trimmed_quoted {q : Char} (hq : isBlank q = false) (a : List Char) :
    Trimmed (q :: (a ++ [q])) where
  head := by
    intro c hc
    rwa [← Option.some.inj hc]
  last := by
    intro c hc
    rw [← List.cons_append, List.getLast?_concat] at hc
    rwa [← Option.some.inj hc]

theorem WrittenAs.trimmed {a t : List Char} (h : WrittenAs a t) : Trimmed t := by
  cases h with
  | double h => exact trimmed_quoted (by decide) _
  | single h => exact trimmed_quoted (by decide) _
  | bare hne hblank hdouble hsingle =>
    exact ⟨fun c hc => hblank c (List.mem_of_mem_head? hc), fun c hc => hblank c (List.mem_of_getLast? hc)⟩

theorem matchQuoted_ne {q c : Char} (h : c ≠ q) (s : List Char) : matchQuoted q (c :: s) = none := if_neg h

theorem matchQuoted_quoted {q : Char} {a : List Char} (h : q ∉ a) (rest : List Char) :
    matchQuoted q (q :: (a ++ [q]) ++ rest) = some (a, rest) := by
  have hall : ∀ c ∈ a, decide (c ≠ q) = true := by
    intro c hc
    rw [decide_eq_true_eq]
    rintro rfl
    exact h hc
  have htake : (q :: rest).takeWhile (fun c => decide (c ≠ q)) = [] :=
    List.takeWhile_cons_of_neg (by simp)
  have hdrop : (q :: rest).dropWhile (fun c => decide (c ≠ q)) = q :: rest :=
    List.dropWhile_cons_of_neg (by simp)
  rw [List.cons_append, List.append_assoc, List.singleton_append, matchQuoted, if_pos rfl,
    List.span_eq_takeWhile_dropWhile, List.takeWhile_append_of_pos hall, List.dropWhile_append_of_pos hall,
    htake, hdrop, List.append_nil]

/-- A bare argument ends at the end or at a blank. -/
theorem matchBare_bare {a rest : List Char} (hne : a ≠ []) (hblank : ∀ c ∈ a, isBlank c = false)
    (hrest : rest.dropWhile (fun c => !isBlank c) = rest) : matchBare (a ++ rest) = some (a, rest) := by
  have hall : ∀ c ∈ a, (!isBlank c) = true := fun c hc => by simp [hblank c hc]
  have htake : rest.takeWhile (fun c => !isBlank c) = [] := by
    have hsplit := congrArg List.length (List.takeWhile_append_dropWhile (p := fun c => !isBlank c) (l := rest))
    rw [List.length_append, hrest] at hsplit
    exact List.eq_nil_of_length_eq_zero (by omega)
  rw [matchBare, List.span_eq_takeWhile_dropWhile, List.takeWhile_append_of_pos hall,
    List.dropWhile_append_of_pos hall, hrest, htake, List.append_nil]
  cases a with
  | nil => exact absurd rfl hne
  | cons c a => rfl

theorem matchArg_written {a t rest : List Char} (h : WrittenAs a t)
    (hrest : rest.dropWhile (fun c => !isBlank c) = rest) : matchArg (t ++ rest) = some (a, rest) := by
  cases h with
  | double h => rw [matchArg, matchQuoted_quoted h, Option.some_or]
  | single h =>
    rw [matchArg, matchQuoted_quoted h, Option.some_or, List.cons_append, matchQuoted_ne (by decide),
      Option.none_or]
  | bare hne hblank hdouble hsingle =>
    rw [matchArg, matchBare_bare hne hblank hrest]
    obtain ⟨c, a, rfl⟩ := List.exists_cons_of_ne_nil hne
    rw [List.cons_append, matchQuoted_ne (fun h => hdouble (by rw [h]; rfl)),
      matchQuoted_ne (fun h => hsingle (by rw [h]; rfl)), Option.none_or, Option.none_or]

/-- No argument starts with a blank. -/
theorem matchArg_blank {c : Char} (h : isBlank c = true) (s : List Char) : matchArg (c :: s) = none := by
  have hdouble : c ≠ doubleQuote := by
    rintro rfl
    exact absurd h (by decide)
  have hsingle : c ≠ singleQuote := by
    rintro rfl
    exact absurd h (by decide)
  have hbare : matchBare (c :: s) = none := by
    rw [matchBare, List.span_eq_takeWhile_dropWhile, List.takeWhile_cons_of_neg (by simp [h])]
  rw [matchArg, matchQuoted_ne hdouble, matchQuoted_ne hsingle, hbare]
  rfl

theorem find_gap {g : List Char} (hg : Blank g) (u : List Char) :
    find matchArg (g ++ u) = find matchArg u := by
  induction g with
  | nil => rfl
  | cons c g ih =>
    rw [List.cons_append, find_of_no_match (matchArg_blank (hg c List.mem_cons_self) _)]
    exact ih fun d hd => hg d (List.mem_cons_of_mem c hd)

theorem gap_stops {g : List Char} (hg : Gap g) (u : List Char) :
    (g ++ u).dropWhile (fun c => !isBlank c) = g ++ u := by
  obtain ⟨c, g, rfl⟩ := List.exists_cons_of_ne_nil hg.1
  rw [List.cons_append, List.dropWhile_cons_of_neg (by simp [hg.2 c List.mem_cons_self])]

/-- Arguments, each written in some way, with blanks between them. -/
abbrev Rendering : List (List Char) → List Char → Prop := Joined WrittenAs Gap

theorem Rendering.length_le {args : List (List Char)} {t : List Char} (h : Rendering args t) :
    args.length ≤ t.length := by
  induction h with
  | nil => exact Nat.le_refl 0
  | last h => exact List.length_pos_iff.mpr h.ne_nil
  | cons h _ _ ih =>
    have hpos := List.length_pos_iff.mpr h.ne_nil
    rw [List.length_cons, List.length_append, List.length_append]
    omega

theorem Rendering.ne_nil {args : List (List Char)} {t : List Char} (h : Rendering args t)
    (hargs : args ≠ []) : t ≠ [] := by
  intro hnil
  have hlen := h.length_le
  rw [hnil] at hlen
  exact hargs (List.eq_nil_of_length_eq_zero (Nat.le_zero.mp hlen))

theorem Rendering.trimmed {args : List (List Char)} {t : List Char} (h : Rendering args t) : Trimmed t := by
  induction h with
  | nil => exact ⟨by simp, by simp⟩
  | last h => exact h.trimmed
  | cons h hg hu ih =>
    have hne := Rendering.ne_nil hu (List.cons_ne_nil _ _)
    refine ⟨fun c hc => ?_, fun c hc => ?_⟩
    · rw [List.head?_append_of_ne_nil _ h.ne_nil] at hc
      exact h.trimmed.head c hc
    · rw [← List.append_assoc, List.getLast?_append_of_ne_nil _ hne] at hc
      exact ih.last c hc

theorem scan_rendering {args : List (List Char)} {t : List Char} (h : Rendering args t) :
    scan matchArg t.length t = args := by
  refine scan_joined rfl (fun a t hat => ?_) (fun a t g u hat hg => matchArg_written hat (gap_stops hg u))
    (fun g u hg => find_gap hg.2 u) h h.length_le
  have hend := @matchArg_written a t [] hat rfl
  rwa [List.append_nil] at hend

/-- QUOTING: whatever way each argument is written and however they are spaced, the arguments come out. -/
theorem tokenizeExtra_rendered {args : List String} {t before after : List Char}
    (h : Rendering (args.map String.toList) t) (hbefore : Blank before) (hafter : Blank after) :
    tokenizeExtra (String.ofList (before ++ (t ++ after))) = args := by
  rw [tokenizeExtra, String.toList_ofList, trimBlank_surrounded hbefore hafter h.trimmed]
  split
  · rename_i hnil
    by_contra hargs
    exact h.ne_nil (fun hmap => hargs (List.map_eq_nil_iff.mp hmap).symm) hnil
  · rw [scan_rendering h, List.map_map]
    exact (List.map_congr_left fun s _ => String.ofList_toList).trans (List.map_id args)

/-- `"a "`, `''` and `b"`, after a space and before a line feed. -/
theorem tokenizeExtra_three_forms :
    tokenizeExtra (String.ofList ([' '] ++ (([doubleQuote, 'a', ' ', doubleQuote] ++ (['\t'] ++
      ([singleQuote, singleQuote] ++ ([' '] ++ ['b', doubleQuote])))) ++ ['\n']))) = ["a ", "", "b\""] := by
  have hargs : ["a ", "", "b\""].map String.toList = [['a', ' '], [], ['b', doubleQuote]] := by decide
  have hbare : ∀ c ∈ ['b', doubleQuote], isBlank c = false := by
    intro c hc
    rcases List.mem_pair.mp hc with rfl | rfl
    · rfl
    · rfl
  refine tokenizeExtra_rendered ?_ (blank_singleton rfl) (blank_singleton rfl)
  rw [hargs]
  exact .cons (.double (a := ['a', ' ']) (by decide)) ⟨List.cons_ne_nil _ _, blank_singleton rfl⟩
    (.cons (.single (a := []) (by decide)) ⟨List.cons_ne_nil _ _, blank_singleton rfl⟩
      (.last (.bare (by decide) hbare (by decide) (by decide))))

end DsparkEdge.Ui
