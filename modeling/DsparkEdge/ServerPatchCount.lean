import DsparkEdge.ServerPatchEdits

/-! The count that `speculative.cpp` asserts, the one replacement that takes a regular expression:

        static_assert(COMMON_SPECULATIVE_TYPE_COUNT == <digits>);

    Its digits are a reading of the text. The edits of the file leave the reading alone, setting the count
    leaves their words alone, and sets the digits of the first assertion to 12. -/

namespace DsparkEdge

open Edits Passes Texts

/-- An assertion of the count `ds`. -/
def assertion (ds : Text) : Text := countHead ++ ds ++ countTail

theorem takeWhile_digits {ds : Text} (hds : ∀ c ∈ ds, isDecimal c = true) (r : Text) :
    (ds ++ countTail ++ r).takeWhile isDecimal = ds := by
  rw [List.append_assoc, List.takeWhile_append_of_pos hds]
  have htail : (countTail ++ r).takeWhile isDecimal = [] := rfl
  rw [htail, List.append_nil]

theorem assertedCount_eq_some {t ds : Text} : assertedCount t = some ds ↔
    ds ≠ [] ∧ (∀ c ∈ ds, isDecimal c = true) ∧ assertion ds <+: t := by
  constructor
  · intro h
    rw [assertedCount] at h
    split at h
    case isFalse => cases h
    case isTrue hhead =>
      simp only at h
      split at h
      case isFalse => cases h
      case isTrue htail =>
        cases Option.some.inj h
        rw [Bool.and_eq_true, Bool.not_eq_true', List.isPrefixOf_iff_prefix] at htail
        obtain ⟨rest, rfl⟩ := List.isPrefixOf_iff_prefix.mp hhead
        rw [List.drop_left] at htail ⊢
        obtain ⟨hne, r, hr⟩ := htail
        refine ⟨?_, fun c hc => List.mem_takeWhile_imp hc, r, ?_⟩
        · rintro heq
          rw [heq] at hne
          cases hne
        · obtain ⟨ds, hds⟩ : ∃ ds, ds = rest.takeWhile isDecimal := ⟨_, rfl⟩
          obtain ⟨rest', hrest⟩ := hds ▸ List.takeWhile_prefix (p := isDecimal) (l := rest)
          rw [← hds] at hr ⊢
          rw [← hrest, ← List.append_assoc, List.drop_left] at hr
          rw [assertion, ← hrest, ← hr]
          simp only [List.append_assoc]
  · rintro ⟨hne, hds, r, rfl⟩
    have hhead : countHead.isPrefixOf (assertion ds ++ r) = true := by
      rw [List.isPrefixOf_iff_prefix, assertion, List.append_assoc, List.append_assoc]
      exact List.prefix_append _ _
    have hdigits : ((assertion ds ++ r).drop countHead.length).takeWhile isDecimal = ds := by
      rw [assertion, List.append_assoc, List.append_assoc, List.drop_left, ← List.append_assoc,
        takeWhile_digits hds]
    have htail : countTail.isPrefixOf ((assertion ds ++ r).drop (countHead ++ ds).length) = true := by
      rw [List.isPrefixOf_iff_prefix, assertion, List.append_assoc, List.drop_left]
      exact List.prefix_append _ _
    have hempty : ds.isEmpty = false := List.isEmpty_eq_false_iff.mpr hne
    simp only [assertedCount, hhead, if_true, hdigits, hempty, htail, Bool.not_false, Bool.and_self]

/-! ### What cuts the reading -/

/-- No end of an assertion behind its head begins with `c`. -/
def endsBefore (c : Char) : Bool := !(isDecimal c || countTail.contains c)

/-- No beginning of an assertion that covers its head ends with `c`. -/
def beginsBehind (c : Char) : Bool := !(c = ' ' || isDecimal c || c = ')')

/-- Between `a` and `b` no assertion of a count reaches over the joint. -/
def countCut (a b : Text) : Bool := cut countHead a b && (b.head?.any endsBefore || a.getLast?.any beginsBehind)

theorem assertion_split {ds u v : Text} (h : assertion ds = u ++ v) :
    (∃ x, x ≠ [] ∧ countHead = u ++ x ∧ x <+: v) ∨
      ∃ y, u = countHead ++ y ∧ y ++ v = ds ++ countTail := by
  rw [assertion, List.append_assoc] at h
  rcases List.append_eq_append_iff.mp h with ⟨y, hu, hy⟩ | ⟨x, hx, hv'⟩
  · exact Or.inr ⟨y, hu, hy.symm⟩
  · by_cases hne : x = []
    · rw [hne, List.append_nil] at hx
      rw [hne, List.nil_append] at hv'
      exact Or.inr ⟨[], by rw [hx, List.append_nil], hv'⟩
    · exact Or.inl ⟨x, hne, hx, hv' ▸ List.prefix_append x _⟩

/-- Two ends of a text that are not empty end alike. -/
theorem eq_append_of_suffix {l u a : Text} {c : Char} (hu : u <:+ l) (hne : u ≠ []) (ha : a <:+ l)
    (hc : a.getLast? = some c) : ∃ w, u = w ++ [c] := by
  obtain ⟨a', rfl⟩ := List.getLast?_eq_some_iff.mp hc
  obtain ⟨q, rfl⟩ := ha
  obtain ⟨w, d, rfl⟩ := (List.eq_nil_or_concat u).resolve_left hne
  obtain ⟨p, hp⟩ := hu
  rw [List.concat_eq_append, ← List.append_assoc, ← List.append_assoc] at hp
  exact ⟨w, by rw [List.concat_eq_append, List.singleton_inj.mp (List.append_inj_right' hp rfl)]⟩

/-- The characters behind the head. -/
theorem endsBefore_of_mem {ds : Text} (hds : ∀ c ∈ ds, isDecimal c = true) {c : Char} (hc : c ∈ ds ++ countTail) :
    endsBefore c = false := by
  rw [endsBefore, Bool.not_eq_false', Bool.or_eq_true]
  rcases List.mem_append.mp hc with hc | hc
  · exact Or.inl (hds c hc)
  · exact Or.inr (List.contains_iff_mem.mpr hc)

/-- Before the end of an assertion stands a digit or the parenthesis, or the head ends there. -/
theorem beginsBehind_of_split {ds y v : Text} (hds : ∀ c ∈ ds, isDecimal c = true) (hy : y ++ v = ds ++ countTail)
    (hv : v ≠ []) {w : Text} {c : Char} (hw : countHead ++ y = w ++ [c]) : beginsBehind c = false := by
  rw [beginsBehind, Bool.not_eq_false']
  rcases List.eq_nil_or_concat y with rfl | ⟨y', d, rfl⟩
  · rw [List.append_nil] at hw
    have hlast : w ++ [c] = countHead.dropLast ++ [' '] := hw.symm
    rw [List.singleton_inj.mp (List.append_inj_right' hlast rfl)]
    rfl
  · rw [List.concat_eq_append] at hw hy
    rw [← List.append_assoc] at hw
    rw [← List.singleton_inj.mp (List.append_inj_right' hw rfl)]
    have hsplit : ds ++ [')'] ++ [';'] = y' ++ [d] ++ v := by rw [hy, List.append_assoc]; rfl
    have hpre : y' ++ [d] <+: ds ++ [')'] := by
      rcases List.prefix_concat_iff.mp ⟨v, hsplit.symm⟩ with heq | hpre
      · exact absurd (List.append_right_eq_self.mp (heq ▸ hsplit.symm)) hv
      · exact hpre
    rcases List.mem_append.mp (hpre.subset (List.mem_append_right y' List.mem_cons_self)) with hd | hd
    · simp [hds d hd]
    · simp [List.mem_singleton.mp hd]

theorem cuts_assertedCount {a b : Text} (h : countCut a b = true) : Cuts assertedCount a b := by
  rw [countCut, Bool.and_eq_true] at h
  obtain ⟨hcut, hsides⟩ := h
  intro l r ha hb u hne hu
  refine Option.ext fun ds => ?_
  rw [assertedCount_eq_some, assertedCount_eq_some]
  refine and_congr_right fun _ => and_congr_right fun hds => ?_
  refine ⟨fun hpre => ?_, fun hpre => hpre.trans (List.prefix_append u r)⟩
  rcases prefix_append_cases hpre with hpre | ⟨v, hv, hsplit, hvr⟩
  · exact hpre
  exfalso
  rcases assertion_split hsplit with ⟨x, hx, hhead, hxv⟩ | ⟨y, rfl, hy⟩
  · exact cut_split hcut hhead hne hx ha hb hu (hxv.trans hvr)
  · -- the joint is behind the head: what follows it tells, or what stands before it
    rcases Bool.or_eq_true_iff.mp hsides with hends | hbegins
    · obtain ⟨c, hc, hc'⟩ := (Option.any_eq_true _ _).mp hends
      obtain ⟨b, rfl⟩ := List.head?_eq_some_iff.mp hc
      obtain ⟨d, v, rfl⟩ := List.exists_cons_of_ne_nil hv
      obtain ⟨r, rfl⟩ := hb
      cases (List.cons_prefix_cons.mp hvr).1
      have hmem : c ∈ ds ++ countTail := hy ▸ List.mem_append_right y List.mem_cons_self
      rw [endsBefore_of_mem hds hmem] at hc'
      cases hc'
    · obtain ⟨c, hc, hc'⟩ := (Option.any_eq_true _ _).mp hbegins
      obtain ⟨w, hw⟩ := eq_append_of_suffix hu hne ha hc
      rw [beginsBehind_of_split hds hy hv hw] at hc'
      cases hc'

/-- The reading is cut before every assertion. -/
theorem cuts_head : Cuts assertedCount [] countHead := cuts_assertedCount (by decide)

/-- Where the head does not occur, nothing is read. -/
theorem scan_count_of_not_occurs {m : Text} (h : occurs countHead m = false) : scan assertedCount m = [] := by
  induction m with
  | nil => rfl
  | cons c m ih =>
    rw [occurs, Bool.or_eq_false_iff] at h
    have hhead : assertedCount (c :: m) = none := by rw [assertedCount, h.1]; rfl
    rw [scan, hhead, ih h.2]
    rfl

/-! ### Setting the count -/

theorem newCount_digits : newCount ≠ [] ∧ ∀ c ∈ newCount, isDecimal c = true :=
  ⟨List.cons_ne_nil _ _, List.all_eq_true.mp rfl⟩

/-- The count of the first assertion. -/
def firstCount (s : Text) : Option Text := (scan assertedCount s).head?

theorem firstCount_of_read {t ds : Text} (h : assertedCount t = some ds) : firstCount t = some ds := by
  cases t with
  | nil => cases h
  | cons c t => rw [firstCount, scan, h]; rfl

/-- Nothing is asserted, or the count of the first assertion is set. -/
theorem bumpCount_cases (s : Text) : firstCount s = none ∧ bumpCount s = s ∨
    ∃ ds l r, firstCount s = some ds ∧ ds ≠ [] ∧ (∀ c ∈ ds, isDecimal c = true) ∧
      scan assertedCount l = [] ∧ s = l ++ (assertion ds ++ r) ∧ bumpCount s = l ++ (assertion newCount ++ r) := by
  induction s with
  | nil => exact Or.inl ⟨rfl, rfl⟩
  | cons c s ih =>
    cases hread : assertedCount (c :: s) with
    | some ds =>
      obtain ⟨hne, hds, r, hr⟩ := assertedCount_eq_some.mp hread
      refine Or.inr ⟨ds, [], r, firstCount_of_read hread, hne, hds, rfl, hr.symm, ?_⟩
      have hdrop : (c :: s).drop (countHead ++ ds ++ countTail).length = r := by
        rw [← hr]
        exact List.drop_left
      rw [bumpCount, hread]
      show countHead ++ newCount ++ countTail ++ _ = _
      rw [hdrop]
      rfl
    | none =>
      have hfirst : firstCount (c :: s) = firstCount s := by rw [firstCount, scan, hread]; rfl
      have hbump : bumpCount (c :: s) = c :: bumpCount s := by rw [bumpCount, hread]
      rw [hfirst, hbump]
      rcases ih with ⟨hnone, heq⟩ | ⟨ds, l, r, hds, hne, hdec, hl, hs, heq⟩
      · exact Or.inl ⟨hnone, by rw [heq]⟩
      · refine Or.inr ⟨ds, c :: l, r, hds, hne, hdec, ?_, by rw [hs]; rfl, by rw [heq]; rfl⟩
        -- what is read at `c` is read before the assertion, and that is nothing
        have hsevers : assertedCount (c :: l ++ (assertion ds ++ r)) = assertedCount (c :: l) :=
          cuts_head (c :: l) _ List.nil_suffix ⟨ds ++ countTail ++ r, by simp only [assertion, List.append_assoc]⟩
            (c :: l) (List.cons_ne_nil c l) List.suffix_rfl
        rw [List.cons_append, ← hs, hread] at hsevers
        rw [scan, ← hsevers, hl]
        rfl

/-- Setting the count changes nothing if it is 12, or nothing is asserted. -/
theorem bumpCount_eq_self {s : Text} : bumpCount s = s ↔ ∀ ds ∈ firstCount s, ds = newCount := by
  rcases bumpCount_cases s with ⟨hnone, heq⟩ | ⟨ds, l, r, hds, -, -, -, hs, heq⟩
  · simp [hnone, heq]
  · rw [hds, heq]
    conv_lhs => rw [hs]
    simp only [assertion, List.append_cancel_left_eq, List.append_cancel_right_eq, List.append_assoc,
      Option.mem_some_iff, forall_eq']
    exact eq_comm

theorem firstCount_bumpCount {s : Text} : ∀ ds ∈ firstCount (bumpCount s), ds = newCount := by
  rcases bumpCount_cases s with ⟨hnone, heq⟩ | ⟨ds, l, r, -, -, -, hl, -, heq⟩
  · simp [hnone, heq]
  · have hhead : countHead <+: assertion newCount ++ r :=
      ⟨newCount ++ countTail ++ r, by simp only [assertion, List.append_assoc]⟩
    have hread : assertedCount (assertion newCount ++ r) = some newCount :=
      assertedCount_eq_some.mpr ⟨newCount_digits.1, newCount_digits.2, List.prefix_append _ r⟩
    have hscan : firstCount (bumpCount s) = some newCount := by
      rw [heq, firstCount, scan_append (cuts_head l _ List.nil_suffix hhead), hl, List.nil_append]
      exact firstCount_of_read hread
    rw [hscan]
    exact fun d hd => (Option.mem_some_iff.mp hd).symm

/-! ### What setting the count leaves alone -/

/-- Somewhere in the word a digit is followed by a beginning of the tail. -/
def digitBeforeTail : Text → Bool
  | [] => false
  | c :: p => isDecimal c && !p.isEmpty && compat p countTail || digitBeforeTail p

/-- The word tells from every count: none begins in it, none ends in it, and none holds it. -/
def sparedByCount (p : Text) : Bool :=
  cut p [] countHead && !digitBeforeTail p && p.any fun c => !(countHead.contains c || isDecimal c)

theorem digitBeforeTail_split {p v : Text} {c : Char} (h : digitBeforeTail p = false) {w : Text}
    (hp : p = w ++ [c] ++ v) (hc : isDecimal c = true) (hv : v ≠ []) : compat v countTail = false := by
  induction w generalizing p with
  | nil =>
    subst hp
    rw [List.nil_append, List.cons_append, List.nil_append, digitBeforeTail, Bool.or_eq_false_iff, hc,
      List.isEmpty_eq_false_iff.mpr hv] at h
    exact h.1
  | cons d w ih =>
    subst hp
    rw [List.cons_append, List.cons_append, digitBeforeTail, Bool.or_eq_false_iff] at h
    exact ih h.2 rfl

/-- No such word reaches over the end of the digits. -/
theorem severs_digits {p ds : Text} (h : sparedByCount p = true) (hne : ds ≠ [])
    (hds : ∀ c ∈ ds, isDecimal c = true) (r : Text) : Severs (here p) (countHead ++ ds) (countTail ++ r) := by
  simp only [sparedByCount, Bool.and_eq_true, Bool.not_eq_true'] at h
  refine severs_here fun u v hp hu hv hsuf hvr => ?_
  obtain ⟨ds, d, rfl⟩ := (List.eq_nil_or_concat ds).resolve_left hne
  rw [List.concat_eq_append] at hds hsuf
  obtain ⟨w, rfl⟩ := eq_append_of_suffix (c := d) hsuf hu (List.suffix_append countHead _) (by simp)
  have hd : isDecimal d = true := hds d (List.mem_append_right ds List.mem_cons_self)
  have hno := digitBeforeTail_split h.1.2 hp hd hv
  rw [compat_of_begin hvr (List.prefix_append countTail r)] at hno
  cases hno

theorem scan_assertion {p ds : Text} (h : sparedByCount p = true) (hne : ds ≠ [])
    (hds : ∀ c ∈ ds, isDecimal c = true) (l r : Text) :
    scan (here p) (l ++ (assertion ds ++ r)) = scan (here p) l ++ scan (here p) (countTail ++ r) := by
  have hspared := h
  simp only [sparedByCount, Bool.and_eq_true, List.any_eq_true, Bool.not_eq_true', Bool.or_eq_false_iff] at h
  obtain ⟨⟨hcut, -⟩, c, hc, hhead, hdec⟩ := h
  have hp : p ≠ [] := List.ne_nil_of_mem hc
  have hno : occurs p (countHead ++ ds) = false := by
    rw [occurs_eq_false]
    intro hin
    rcases List.mem_append.mp (hin.subset hc) with hmem | hmem
    · rw [List.contains_iff_mem.mpr hmem] at hhead
      cases hhead
    · rw [hds c hmem] at hdec
      cases hdec
  have hsplit : assertion ds ++ r = (countHead ++ ds) ++ (countTail ++ r) := by
    simp only [assertion, List.append_assoc]
  have hleft : Severs (here p) l ((countHead ++ ds) ++ (countTail ++ r)) :=
    cuts_of_cut hcut l _ List.nil_suffix ⟨ds ++ (countTail ++ r), by simp only [List.append_assoc]⟩
  rw [hsplit, scan_append hleft, scan_append (severs_digits hspared hne hds r), scan_of_not_occurs hp hno,
    List.nil_append]

/-- Such a word occurs as it did. -/
theorem occurs_bumpCount {p : Text} (h : sparedByCount p = true) (s : Text) :
    occurs p (bumpCount s) = occurs p s := by
  rcases bumpCount_cases s with ⟨-, heq⟩ | ⟨ds, l, r, -, hne, hds, -, hs, heq⟩
  · rw [heq]
  · have hp : p ≠ [] := by
      rintro rfl
      simp [sparedByCount] at h
    rw [Bool.eq_iff_iff, occurs_iff_scan hp, occurs_iff_scan hp, heq, hs, scan_assertion h hne hds,
      scan_assertion h newCount_digits.1 newCount_digits.2]

/-! ### The count and the edits -/

/-- The splice brings in no assertion and takes none apart. -/
def sparesCount (σ : Splice Char) : Bool :=
  countCut σ.left (σ.old ++ σ.right) && (σ.old.isEmpty || countCut σ.old σ.right) &&
    countCut σ.left (σ.new ++ σ.right) && (σ.new.isEmpty || countCut σ.new σ.right) &&
    !occurs countHead σ.old && !occurs countHead σ.new

theorem sparesCount_iff {σ : Splice Char} (h : sparesCount σ = true) :
    Clean assertedCount σ ∧ scan assertedCount σ.old = scan assertedCount σ.new := by
  simp only [sparesCount, Bool.and_eq_true, Bool.or_eq_true, Bool.not_eq_true', List.isEmpty_iff] at h
  obtain ⟨⟨⟨⟨⟨hlo, hor⟩, hln⟩, hnr⟩, hold⟩, hnew⟩ := h
  refine ⟨⟨cuts_assertedCount hlo, hor.imp_right cuts_assertedCount, cuts_assertedCount hln,
    hnr.imp_right cuts_assertedCount⟩, ?_⟩
  rw [scan_count_of_not_occurs hold, scan_count_of_not_occurs hnew]

/-- The edits of `speculative.cpp` leave the asserted counts as they are. -/
theorem edits_spare_count : ∀ e ∈ speculativeEdits.edits, ∀ σ ∈ e.splices, sparesCount σ = true := by
  decide

theorem firstCount_edits {es : List (Edit Char)} (h : es ⊆ speculativeEdits.edits) (s : Text) :
    firstCount (runAll (es.map Edit.pass) s) = firstCount s :=
  congrArg List.head? (scan_edits (fun e he σ hσ => sparesCount_iff (edits_spare_count e (h he) σ hσ)) s)

/-- And the count leaves what the edits look for, and a carriage return. -/
theorem count_spares_words : ∀ p ∈ ['\r'] :: speculativeEdits.edits.flatMap Edit.words,
    sparedByCount p = true := by decide +kernel

theorem keeps_bumpCount : ∀ e ∈ speculativeEdits.edits, Keeps bumpCount e.pass := fun e he =>
  keeps_words fun p hp =>
    occurs_bumpCount (count_spares_words p (List.mem_cons_of_mem _ (List.mem_flatMap.mpr ⟨e, he, hp⟩)))

end DsparkEdge
