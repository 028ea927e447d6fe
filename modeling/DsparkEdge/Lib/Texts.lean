import Mathlib.Data.List.Infix

/-! Words in a text, and replacing them as `str.replace` does.

    A *reading* `f` looks at the rest of a text and reads something off its beginning, or nothing; `scan f`
    collects it over all places, `here p` reads the word `p`. A reading is *cut* at a joint when nothing it
    reads before the joint reaches over it: then the two parts scan on their own.

        … a │ b …        scan (l ++ r) = scan l ++ scan r

    For a word that is decided by what is known of the text on both sides, `cut p a b`. -/

namespace DsparkEdge.Texts

variable {α β : Type*}

/-! ### Readings -/

/-- What `f` reads at the places of a text. -/
def scan (f : List α → Option β) : List α → List β
  | [] => []
  | c :: s => (f (c :: s)).toList ++ scan f s

/-- Nothing that `f` reads in `l` reaches into `r`. -/
def Severs (f : List α → Option β) (l r : List α) : Prop := ∀ u, u ≠ [] → u <:+ l → f (u ++ r) = f u

theorem scan_append {f : List α → Option β} {l r : List α} (h : Severs f l r) :
    scan f (l ++ r) = scan f l ++ scan f r := by
  induction l with
  | nil => rfl
  | cons c l ih =>
    have hhead : f (c :: l ++ r) = f (c :: l) := h (c :: l) (List.cons_ne_nil _ _) List.suffix_rfl
    rw [List.cons_append, scan, ← List.cons_append, hhead, scan, List.append_assoc,
      ih fun u hne hu => h u hne (hu.trans (List.suffix_cons c l))]

/-- `f` is cut at every joint between a text that ends in `a` and one that begins with `b`. -/
def Cuts (f : List α → Option β) (a b : List α) : Prop := ∀ l r, a <:+ l → b <+: r → Severs f l r

/-- A joint in the middle of a text, with `m` behind it. -/
theorem scan_joint {f : List α → Option β} {a m b : List α} (hl : Cuts f a (m ++ b)) (hr : m = [] ∨ Cuts f m b)
    (l r : List α) : scan f (l ++ (a ++ m ++ b) ++ r) = scan f (l ++ a) ++ scan f m ++ scan f (b ++ r) := by
  have hassoc : l ++ (a ++ m ++ b) ++ r = (l ++ a) ++ (m ++ (b ++ r)) := by simp only [List.append_assoc]
  have hleft : Severs f (l ++ a) (m ++ (b ++ r)) :=
    hl _ _ (List.suffix_append l a) (by rw [← List.append_assoc]; exact List.prefix_append _ r)
  have hright : Severs f m (b ++ r) := by
    rcases hr with rfl | hr
    · exact fun u hne hu => absurd (List.suffix_nil.mp hu) hne
    · exact hr m _ List.suffix_rfl (List.prefix_append b r)
  rw [hassoc, scan_append hleft, scan_append hright, List.append_assoc]

/-- What stands between `l` and `r` is scanned on its own. -/
theorem scan_between {f : List α → Option β} {m : List α} (hl : Cuts f [] m) (hr : Cuts f m []) (l r : List α) :
    scan f (l ++ m ++ r) = scan f l ++ scan f m ++ scan f r := by
  rw [List.append_assoc, scan_append (hl l _ List.nil_suffix (List.prefix_append m r)),
    scan_append (hr m r List.suffix_rfl List.nil_prefix), List.append_assoc]

/-! ### Words -/

/-- A word that begins in a text begins in its first part, or reaches over the joint. -/
theorem prefix_append_cases {p u r : List α} (h : p <+: u ++ r) :
    p <+: u ∨ ∃ v, v ≠ [] ∧ p = u ++ v ∧ v <+: r := by
  rcases Nat.lt_or_ge u.length p.length with hlt | hle
  · obtain ⟨v, rfl⟩ := List.prefix_of_prefix_length_le (List.prefix_append u r) h hlt.le
    refine Or.inr ⟨v, ?_, rfl, (List.prefix_append_right_inj u).mp h⟩
    rintro rfl
    rw [List.append_nil] at hlt
    exact Nat.lt_irrefl _ hlt
  · exact Or.inl (List.prefix_of_prefix_length_le h (List.prefix_append u r) hle)

variable [DecidableEq α]

/-- `p in s`. -/
def occurs (p : List α) : List α → Bool
  | [] => p.isEmpty
  | c :: s => p.isPrefixOf (c :: s) || occurs p s

theorem occurs_iff {p s : List α} : occurs p s = true ↔ p <:+: s := by
  induction s with
  | nil => rw [occurs, List.isEmpty_iff, List.infix_nil]
  | cons c s ih => rw [occurs, Bool.or_eq_true, ih, List.isPrefixOf_iff_prefix, List.infix_cons_iff]

theorem occurs_eq_false {p s : List α} : occurs p s = false ↔ ¬p <:+: s := by
  rw [← occurs_iff, Bool.not_eq_true]

/-- Whether the word `p` begins a text. -/
def here (p t : List α) : Option Unit := if p.isPrefixOf t then some () else none

/-- At how many places `p` occurs. -/
def count (p s : List α) : ℕ := (scan (here p) s).length

theorem occurs_iff_scan {p s : List α} (hp : p ≠ []) : occurs p s = true ↔ scan (here p) s ≠ [] := by
  induction s with
  | nil => rw [occurs, List.isEmpty_iff]; exact iff_of_false hp fun h => h rfl
  | cons c s ih =>
    rw [occurs, Bool.or_eq_true, ih, scan, here]
    by_cases h : p.isPrefixOf (c :: s)
    · simp [h]
    · simp [h]

theorem scan_of_not_occurs {p s : List α} (hp : p ≠ []) (h : occurs p s = false) : scan (here p) s = [] := by
  by_contra hne
  rw [(occurs_iff_scan hp).mpr hne] at h
  cases h

/-- One of the two begins with the other. -/
def compat : List α → List α → Bool
  | [], _ => true
  | _, [] => true
  | x :: xs, y :: ys => x == y && compat xs ys

theorem compat_of_begin {xs ys zs : List α} (hx : xs <+: zs) (hy : ys <+: zs) : compat xs ys = true := by
  induction zs generalizing xs ys with
  | nil => rw [List.prefix_nil.mp hx]; rfl
  | cons z zs ih =>
    rcases List.prefix_cons_iff.mp hx with rfl | ⟨xs', rfl, hx'⟩
    · rfl
    rcases List.prefix_cons_iff.mp hy with rfl | ⟨ys', rfl, hy'⟩
    · rfl
    rw [compat, beq_self_eq_true, Bool.true_and, ih hx' hy']

/-- No split of the word into `u.reverse ++ v₁` and `v₂` fits the two sides of the joint. -/
def cutFrom (a' b : List α) : List α → List α → Bool
  | _, [] => true
  | u, c :: v => (u.isEmpty || !(compat (c :: v) b && compat u a')) && cutFrom a' b (c :: u) v

/-- Between `a` and `b` no occurrence of the word reaches over the joint. -/
def cut (p a b : List α) : Bool := cutFrom a.reverse b [] p

theorem cutFrom_split {a' b u v w x : List α} (h : cutFrom a' b w (u ++ v) = true) (hv : v ≠ [])
    (hx : x = u.reverse ++ w) (hne : x ≠ []) : ¬(compat v b = true ∧ compat x a' = true) := by
  induction u generalizing w with
  | nil =>
    obtain ⟨c, v, rfl⟩ := List.exists_cons_of_ne_nil hv
    rw [List.nil_append, cutFrom, Bool.and_eq_true, Bool.or_eq_true] at h
    rw [List.reverse_nil, List.nil_append] at hx
    subst hx
    rintro ⟨hvb, hxa⟩
    rcases h.1 with hempty | hno
    · exact hne (List.isEmpty_iff.mp hempty)
    · rw [hvb, hxa] at hno
      cases hno
  | cons d u ih =>
    rw [List.cons_append, cutFrom, Bool.and_eq_true] at h
    exact ih h.2 (by rw [hx, List.reverse_cons, List.append_assoc]; rfl)

theorem cut_split {p a b u v : List α} (h : cut p a b = true) (hp : p = u ++ v) (hu : u ≠ []) (hv : v ≠ [])
    {l r : List α} (ha : a <:+ l) (hb : b <+: r) (hul : u <:+ l) : ¬v <+: r := by
  intro hvr
  subst hp
  refine cutFrom_split (u := u) (x := u.reverse) h hv (List.append_nil _).symm (by simpa using hu) ⟨?_, ?_⟩
  · exact compat_of_begin hvr hb
  · exact compat_of_begin (List.reverse_prefix.mpr hul) (List.reverse_prefix.mpr ha)

/-- A word is cut where none of its splits fits. -/
theorem severs_here {p l r : List α}
    (h : ∀ u v, p = u ++ v → u ≠ [] → v ≠ [] → u <:+ l → ¬v <+: r) : Severs (here p) l r := by
  intro u hne hu
  have hiff : p.isPrefixOf (u ++ r) = p.isPrefixOf u := by
    rw [Bool.eq_iff_iff, List.isPrefixOf_iff_prefix, List.isPrefixOf_iff_prefix]
    refine ⟨fun hpre => ?_, fun hpre => hpre.trans (List.prefix_append u r)⟩
    rcases prefix_append_cases hpre with hpre | ⟨v, hv, hp, hvr⟩
    · exact hpre
    · exact absurd hvr (h u v hp hne hv hu)
  rw [here, here, hiff]

theorem cuts_of_cut {p a b : List α} (h : cut p a b = true) : Cuts (here p) a b := fun _ _ ha hb =>
  severs_here fun _ _ hp hne hv hu => cut_split h hp hne hv ha hb hu

/-! ### Replacing -/

/-- `skip` characters of the last occurrence are still to be dropped. -/
def replaceFrom (p q : List α) : ℕ → List α → List α
  | _, [] => []
  | skip + 1, _ :: s => replaceFrom p q skip s
  | 0, c :: s =>
    if p.isPrefixOf (c :: s) then q ++ replaceFrom p q (p.length - 1) s else c :: replaceFrom p q 0 s

/-- `s.replace(p, q)` for a `p` that is not empty. -/
def replaceAll (p q s : List α) : List α := replaceFrom p q 0 s

/-- `s.replace(p, q, 1)`. -/
def replaceFirst (p q : List α) : List α → List α
  | [] => []
  | c :: s => if p.isPrefixOf (c :: s) then q ++ (c :: s).drop p.length else c :: replaceFirst p q s

theorem replaceFrom_append (p q : List α) : ∀ u s, replaceFrom p q u.length (u ++ s) = replaceAll p q s
  | [], _ => rfl
  | _ :: u, s => replaceFrom_append p q u s

theorem replaceAll_append {p : List α} (hp : p ≠ []) (q r : List α) :
    replaceAll p q (p ++ r) = q ++ replaceAll p q r := by
  obtain ⟨c, u, rfl⟩ := List.exists_cons_of_ne_nil hp
  have hpre : (c :: u).isPrefixOf (c :: (u ++ r)) = true :=
    List.isPrefixOf_iff_prefix.mpr (List.prefix_append (c :: u) r)
  rw [replaceAll, List.cons_append, replaceFrom, if_pos hpre]
  exact congrArg (q ++ ·) (replaceFrom_append (c :: u) q u r)

theorem replaceAll_cons {p : List α} {c : α} {s : List α} (h : ¬p <+: c :: s) (q : List α) :
    replaceAll p q (c :: s) = c :: replaceAll p q s := by
  rw [replaceAll, replaceFrom, if_neg (mt List.isPrefixOf_iff_prefix.mp h)]
  rfl

/-- The recursion of `replaceAll`. -/
theorem replaceAll_induct {p q : List α} (hp : p ≠ []) {motive : List α → List α → Prop} (nil : motive [] [])
    (found : ∀ r, motive r (replaceAll p q r) → motive (p ++ r) (q ++ replaceAll p q r))
    (passed : ∀ c s, ¬p <+: c :: s → motive s (replaceAll p q s) →
      motive (c :: s) (c :: replaceAll p q s)) (s : List α) : motive s (replaceAll p q s) := by
  induction hn : s.length using Nat.strong_induction_on generalizing s with
  | _ n ih =>
    subst hn
    cases s with
    | nil => exact nil
    | cons c s =>
      by_cases hpre : p <+: c :: s
      · obtain ⟨r, hr⟩ := hpre
        have hpos := List.length_pos_iff.mpr hp
        rw [← hr, replaceAll_append hp]
        exact found r (ih r.length (by rw [← hr, List.length_append]; omega) r rfl)
      · rw [replaceAll_cons hpre]
        exact passed c s hpre (ih s.length (Nat.lt_succ_self _) s rfl)

theorem replaceFirst_append {p : List α} (hp : p ≠ []) (q r : List α) :
    replaceFirst p q (p ++ r) = q ++ r := by
  obtain ⟨c, u, rfl⟩ := List.exists_cons_of_ne_nil hp
  have hpre : (c :: u).isPrefixOf (c :: (u ++ r)) = true :=
    List.isPrefixOf_iff_prefix.mpr (List.prefix_append (c :: u) r)
  rw [List.cons_append, replaceFirst, if_pos hpre]
  exact congrArg (q ++ ·) (@List.drop_left _ (c :: u) r)

theorem replaceFirst_cons {p : List α} {c : α} {s : List α} (h : ¬p <+: c :: s) (q : List α) :
    replaceFirst p q (c :: s) = c :: replaceFirst p q s := by
  rw [replaceFirst, if_neg (mt List.isPrefixOf_iff_prefix.mp h)]

/-- One occurrence is replaced, or there is none. -/
theorem replaceFirst_cases {p : List α} (hp : p ≠ []) (q s : List α) :
    occurs p s = false ∧ replaceFirst p q s = s ∨
      occurs p s = true ∧ ∃ l r, s = l ++ p ++ r ∧ replaceFirst p q s = l ++ q ++ r := by
  induction s with
  | nil => exact Or.inl ⟨occurs_eq_false.mpr (mt List.infix_nil.mp hp), rfl⟩
  | cons c s ih =>
    by_cases hpre : p <+: c :: s
    · obtain ⟨r, hr⟩ := hpre
      rw [← hr, replaceFirst_append hp]
      exact Or.inr ⟨occurs_iff.mpr (List.prefix_append p r).isInfix, [], r, rfl, rfl⟩
    · have hocc : occurs p (c :: s) = occurs p s := by
        rw [occurs, Bool.eq_false_iff.mpr (mt List.isPrefixOf_iff_prefix.mp hpre), Bool.false_or]
      rw [hocc, replaceFirst_cons hpre]
      rcases ih with ⟨hno, heq⟩ | ⟨hyes, l, r, hs, heq⟩
      · exact Or.inl ⟨hno, by rw [heq]⟩
      · exact Or.inr ⟨hyes, c :: l, r, by rw [hs]; rfl, by rw [heq]; rfl⟩

/-- With no overlap between the word and its replacement, what the result begins with, if it is an end of
    the word, the text begins with. -/
theorem prefix_of_replaceAll {p q : List α} (hp : p ≠ []) (hleft : cut p [] q = true) (s : List α) :
    ∀ u v, p = u ++ v → u ≠ [] → v <+: replaceAll p q s → v <+: s := by
  refine replaceAll_induct (motive := fun s t => ∀ u v, p = u ++ v → u ≠ [] → v <+: t → v <+: s) hp ?_ ?_ ?_ s
  · exact fun u v _ _ h => h
  · intro r _ u v heq hu h
    by_cases hv : v = []
    · rw [hv]; exact List.nil_prefix
    · exact absurd h
        (cut_split hleft heq hu hv List.nil_suffix (List.prefix_append q _) List.suffix_rfl)
  · intro c s _ ih u v heq hu h
    rcases List.prefix_cons_iff.mp h with rfl | ⟨v', rfl, hv'⟩
    · exact List.nil_prefix
    · exact (List.prefix_cons_inj c).mpr
        (ih (u ++ [c]) v' (by rw [heq, List.append_assoc]; rfl) (by simp) hv')

/-- Then no occurrence is left when all are replaced. -/
theorem replaceAll_clears {p q : List α} (hp : p ≠ []) (hleft : cut p [] q = true) (hright : cut p q [] = true)
    (hq : occurs p q = false) (s : List α) : occurs p (replaceAll p q s) = false := by
  have hscan : scan (here p) (replaceAll p q s) = [] := by
    refine replaceAll_induct (motive := fun _ t => scan (here p) t = []) hp ?_ ?_ ?_ s
    · rfl
    · intro r ih
      rw [scan_append (cuts_of_cut hright q _ List.suffix_rfl List.nil_prefix), scan_of_not_occurs hp hq, ih]
      rfl
    · intro c s hpre ih
      have hnot : ¬p <+: c :: replaceAll p q s := by
        intro h
        rcases List.prefix_cons_iff.mp h with rfl | ⟨v, rfl, hv⟩
        · exact hp rfl
        · exact hpre ((List.prefix_cons_inj c).mpr
            (prefix_of_replaceAll hp hleft s [c] v rfl (List.cons_ne_nil c _) hv))
      rw [scan, here, if_neg (mt List.isPrefixOf_iff_prefix.mp hnot), ih]
      rfl
  rw [← Bool.not_eq_true, occurs_iff_scan hp, hscan]
  exact fun h => h rfl

/-! ### Replacing that uses up the word -/

/-- The word is in itself once and not in its replacement, and neither makes one with what is around it. -/
structure Drop (α : Type*) [DecidableEq α] where
  old : List α
  new : List α
  once : scan (here old) old = [()] ∧ scan (here old) new = []
  apart : cut old [] old = true ∧ cut old old [] = true ∧ cut old [] new = true ∧ cut old new [] = true

theorem drop_old_ne (D : Drop α) : D.old ≠ [] := by
  intro h
  have honce := D.once.1
  rw [h] at honce
  cases honce

/-- Each time the first is replaced there is one less. -/
theorem count_drop (D : Drop α) (s : List α) :
    count D.old (replaceFirst D.old D.new s) = count D.old s - 1 := by
  have hne := drop_old_ne D
  rcases replaceFirst_cases hne D.new s with ⟨hno, heq⟩ | ⟨-, l, r, hs, heq⟩
  · rw [heq, count, scan_of_not_occurs hne hno]
    rfl
  · obtain ⟨hlo, hor, hln, hnr⟩ := D.apart
    have hold := scan_between (cuts_of_cut hlo) (cuts_of_cut hor) l r
    have hnew := scan_between (cuts_of_cut hln) (cuts_of_cut hnr) l r
    rw [heq, count, count, hnew, hs, hold, D.once.1, D.once.2]
    simp only [List.length_append, List.length_cons, List.length_nil]
    omega

theorem count_eq_zero {p s : List α} (hp : p ≠ []) : count p s = 0 ↔ occurs p s = false := by
  rw [count, List.length_eq_zero_iff, Bool.eq_false_iff, Ne, occurs_iff_scan hp, Ne, not_not]

end DsparkEdge.Texts
