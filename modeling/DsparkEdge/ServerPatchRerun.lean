import DsparkEdge.ServerPatchCount

/-! Running the script on what it has already patched. Most files are lists of edits, and settle. Two do not
    in every case: the count of `speculative.cpp` is set only if the text names the remote type before the
    rest of its edits, which may be what names it; and of the blocks of `server-context.cpp` that load a
    draft model every run rewrites the first.

        speculative.cpp       editTypeNames ─▶ editCount ─▶ editInit
        server-context.cpp    contextEdits ─▶ editLoad                                              -/

namespace DsparkEdge

open Edits Passes Texts

/-! ### Line ends -/

theorem readText_return_free (s : List Char) : '\r' ∉ readText s := by
  fun_induction readText s with
  | case1 => exact List.not_mem_nil
  | case2 s ih => simpa using ih
  | case3 s _ ih => simpa using ih
  | case4 c s _ hc ih =>
    rw [List.mem_cons, not_or]
    exact ⟨fun heq => hc heq.symm, ih⟩

theorem readText_fixed {s : List Char} (h : '\r' ∉ s) : readText s = s := by
  fun_induction readText s with
  | case1 => rfl
  | case2 s ih => exact absurd List.mem_cons_self h
  | case3 s _ ih => exact absurd List.mem_cons_self h
  | case4 c s _ _ ih => rw [ih (fun hs => h (List.mem_cons_of_mem c hs))]

theorem mem_iff_occurs {c : Char} {s : Text} : c ∈ s ↔ occurs [c] s = true := by
  rw [occurs_iff, List.singleton_infix_iff]

namespace FileEdits

variable (F : FileEdits)

theorem return_free {es : List (Edit Char)} (h : es ⊆ F.edits) {s : Text} (hs : '\r' ∉ s) :
    '\r' ∉ runAll (es.map Edit.pass) s := by
  rwa [mem_iff_occurs, occurs_edits (ignored_subset F.noReturn h), ← mem_iff_occurs]

theorem run_return_free {s : Text} (hs : '\r' ∉ s) : '\r' ∉ F.run s := F.return_free (List.Subset.refl _) hs

theorem run_idem (s : Text) : F.run (F.run s) = F.run s := runAll_idem (ordered_edits F.ordered) s

/-- A file of edits is patched once. -/
theorem rerun (f : List Char) : F.run (readText (F.run (readText f))) = F.run (readText f) := by
  rw [readText_fixed (F.run_return_free (readText_return_free f)), F.run_idem]

/-- With a step behind the edits that keeps them settled, a second run is that step. -/
theorem rerun_behind_iff {F : FileEdits} {g : Text → Text} (hg : ∀ e ∈ F.edits, Keeps g e.pass) (s : Text) :
    g (F.run (g (F.run s))) = g (F.run s) ↔ g (g (F.run s)) = g (F.run s) :=
  rerun_last_iff (ordered_edits F.ordered) (List.forall_mem_map.mpr hg) s

end FileEdits

theorem commonH_rerun (f : List Char) :
    editCommonH (readText (editCommonH (readText f))) = editCommonH (readText f) := by
  simp only [editCommonH_eq, commonHEdits.rerun]

theorem argCpp_rerun (f : List Char) :
    editArgCpp (readText (editArgCpp (readText f))) = editArgCpp (readText f) := by
  simp only [editArgCpp_eq, argEdits.rerun]

theorem serverSchema_rerun (f : List Char) :
    editServerSchema (readText (editServerSchema (readText f))) = editServerSchema (readText f) := by
  simp only [editServerSchema_eq, schemaEdits.rerun]

theorem serverCMake_rerun (f : List Char) :
    editServerCMake (readText (editServerCMake (readText f))) = editServerCMake (readText f) := by
  simp only [editServerCMake_eq, serverCMakeEdits.rerun]

theorem serverCpp_rerun (f : List Char) :
    editServerCpp (readText (editServerCpp (readText f))) = editServerCpp (readText f) := by
  simp only [editServerCpp_eq, routeEdits.rerun]

/-- What is written of `server-context.h`. -/
def writtenContextH (f : List Char) : List Char :=
  if !occurs getDebugSpec (readText f) then editServerContextH (readText f) else f

theorem contextH_rerun (f : List Char) : writtenContextH (writtenContextH f) = writtenContextH f := by
  cases hocc : occurs getDebugSpec (readText f) with
  | true =>
    have hkept : writtenContextH f = f := by rw [writtenContextH, hocc]; rfl
    rw [hkept, hkept]
  | false =>
    have hwritten : writtenContextH f = contextHEdits.run (readText f) := by
      rw [← editServerContextH_eq, writtenContextH, hocc]
      rfl
    have hfree : '\r' ∉ contextHEdits.run (readText f) :=
      contextHEdits.run_return_free (readText_return_free f)
    rw [hwritten, writtenContextH, readText_fixed hfree, editServerContextH_eq, contextHEdits.run_idem]

/-! ### The link line of `common/CMakeLists.txt` -/

/-- A word without white space. -/
def unstripped (p : Text) : Bool := !p.isEmpty && !p.any isStripped

/-- It does not reach over a joint behind which white space begins. -/
theorem severs_stripped {p : Text} (h : unstripped p = true) (l : Text) {r : Text}
    (hr : ∀ c ∈ r.head?, isStripped c = true) : Severs (here p) l r := by
  rw [unstripped, Bool.and_eq_true, Bool.not_eq_true', Bool.not_eq_true', List.any_eq_false] at h
  refine severs_here ?_
  rintro u v rfl - hv - ⟨w, rfl⟩
  obtain ⟨c, v, rfl⟩ := List.exists_cons_of_ne_nil hv
  exact h.2 c (List.mem_append_right u List.mem_cons_self) (hr c rfl)

theorem scan_rstrip {p : Text} (h : unstripped p = true) (s : Text) :
    scan (here p) (s.rdropWhile isStripped) = scan (here p) s := by
  have hp : p ≠ [] ∧ ∀ c ∈ p, ¬isStripped c = true := by
    simpa only [unstripped, Bool.and_eq_true, Bool.not_eq_true', List.any_eq_false,
      List.isEmpty_eq_false_iff] using h
  obtain ⟨r, hr⟩ : ∃ r, r = s.rtakeWhile isStripped := ⟨_, rfl⟩
  have hstripped : ∀ c ∈ r, isStripped c = true := fun c hc => List.mem_rtakeWhile_imp (hr ▸ hc)
  have hno : occurs p r = false := by
    rw [occurs_eq_false]
    intro hin
    obtain ⟨c, hc⟩ := List.exists_mem_of_ne_nil p hp.1
    exact hp.2 c hc (hstripped c (hin.subset hc))
  have hsevers : Severs (here p) (s.rdropWhile isStripped) r :=
    severs_stripped h _ fun c hc => hstripped c (List.mem_of_mem_head? hc)
  have hsplit : s.rdropWhile isStripped ++ r = s := hr ▸ List.rdropWhile_append_rtakeWhile
  conv_rhs => rw [← hsplit, scan_append hsevers, scan_of_not_occurs hp.1 hno, List.append_nil]

/-- The words of the source list occur as they did. -/
theorem occurs_editCMakeLink {p : Text} (h : unstripped p = true) (hcut : cut p findPackages [] = true)
    (hfind : occurs p findPackages = false) (hlink : occurs p linkGrpc = false) (s : Text) :
    occurs p (editCMakeLink s) = occurs p s := by
  rw [editCMakeLink]
  split
  case isFalse => rfl
  case isTrue =>
    have hp : p ≠ [] := by
      rintro rfl
      cases h
    have hsevers : Severs (here p) ((findPackages ++ s).rdropWhile isStripped) linkGrpc :=
      severs_stripped h _ fun c hc => by rw [← Option.mem_some_iff.mp hc]; rfl
    rw [Bool.eq_iff_iff, occurs_iff_scan hp, occurs_iff_scan hp, scan_append hsevers, scan_rstrip h,
      scan_append (cuts_of_cut hcut _ s List.suffix_rfl List.nil_prefix), scan_of_not_occurs hp hfind,
      scan_of_not_occurs hp hlink, List.nil_append, List.append_nil]

theorem link_spares_sources : ∀ e ∈ sourceEdits.edits, ∀ p ∈ e.words, unstripped p = true ∧
    cut p findPackages [] = true ∧ occurs p findPackages = false ∧ occurs p linkGrpc = false := by
  decide

theorem keeps_editCMakeLink : ∀ e ∈ sourceEdits.edits, Keeps editCMakeLink e.pass := fun e he =>
  keeps_words fun p hp s => by
    obtain ⟨h, hcut, hfind, hlink⟩ := link_spares_sources e he p hp
    exact occurs_editCMakeLink h hcut hfind hlink s

theorem link_brings : occurs grpcLink linkGrpc = true ∧ '\r' ∉ findPackages ++ linkGrpc := by decide

theorem editCMakeLink_linked {s : Text} (h : occurs grpcLink s = true) : editCMakeLink s = s := by
  rw [editCMakeLink, h]
  rfl

theorem editCMakeLink_idem (s : Text) : editCMakeLink (editCMakeLink s) = editCMakeLink s := by
  obtain ⟨t, ht⟩ : ∃ t, t = editCMakeLink s := ⟨_, rfl⟩
  rw [← ht]
  rw [editCMakeLink] at ht
  split at ht
  case isTrue =>
    refine editCMakeLink_linked (occurs_iff.mpr ?_)
    rw [ht]
    exact (occurs_iff.mp link_brings.1).trans (List.suffix_append _ linkGrpc).isInfix
  case isFalse hguard =>
    rw [editCMakeLink, ht, if_neg hguard]

theorem link_return_free {s : Text} (hs : '\r' ∉ s) : '\r' ∉ editCMakeLink s := by
  rw [editCMakeLink]
  split
  case isFalse => exact hs
  case isTrue =>
    obtain ⟨hfind, hlink⟩ := not_or.mp (mt List.mem_append.mpr link_brings.2)
    rw [List.mem_append, not_or]
    refine ⟨fun hmem => ?_, hlink⟩
    rcases List.mem_append.mp ((List.rdropWhile_prefix _ _).subset hmem) with hmem | hmem
    · exact hfind hmem
    · exact hs hmem

theorem commonCMake_rerun (f : List Char) :
    editCommonCMake (readText (editCommonCMake (readText f))) = editCommonCMake (readText f) := by
  have hfree : '\r' ∉ editCommonCMake (readText f) := by
    rw [editCommonCMake, editCMakeSources_eq]
    exact link_return_free (sourceEdits.run_return_free (readText_return_free f))
  have hrerun := FileEdits.rerun_behind_iff keeps_editCMakeLink (readText f)
  simp only [← editCMakeSources_eq] at hrerun
  rw [readText_fixed hfree]
  exact hrerun.mpr (editCMakeLink_idem _)

/-! ### The count of `speculative.cpp` -/

/-- The text names the remote type when the count is looked at: it did, or the type names bring it in. -/
def NamesRemoteType (s : Text) : Prop :=
  occurs remoteType s = true ∨ occurs remoteName s = false ∧
    (occurs mapEntry s = true ∨ occurs nameCase s = true)

/-- The edits behind the count bring it in. -/
def AddsRemoteType (s : Text) : Prop :=
  (occurs hasRemote s = false ∧ (occurs hasLine s = true ∨ occurs pushBlock s = true)) ∨
    occurs nMaxBlock s = true ∨
    (occurs remoteImpl s = false ∧ occurs (indent ++ simpleMarker) s = true)

/-- The first run sets the count, or nothing is left to set in a second. -/
def CountStable (s : Text) : Prop :=
  NamesRemoteType s ∨ ¬AddsRemoteType s ∨ ∀ ds ∈ firstCount s, ds = newCount

theorem speculative_admits : ∀ e ∈ speculativeEdits.edits, e.admits remoteType := by decide

/-- The edits bring in the remote type, but for the includes and the block size. -/
theorem remoteType_brought : (∀ m ∈ [remoteMapEntry, remoteNameCase, hasRemoteLine, remotePushBlock,
      nMaxSplice.new, initCaseSplice.new], occurs remoteType m = true) ∧
    ∀ e ∈ [incDrafterEdit, incImplEdit, blockSizeEdit], ∀ σ ∈ e.splices, occurs remoteType σ.new = false := by
  decide

theorem occurs_typeNames (s : Text) : occurs remoteType (typeNamesEdit.run s) = true ↔ NamesRemoteType s := by
  have hnew := remoteType_brought.1
  simp only [List.forall_mem_cons] at hnew
  rw [occurs_edit (speculative_admits _ List.mem_cons_self)]
  simp [typeNamesEdit, Edit.Brings, guarded, NamesRemoteType, hnew]

theorem occurs_init (s : Text) : occurs remoteType (runAll (initEdits.edits.map Edit.pass) s) = true ↔
    occurs remoteType s = true ∨ AddsRemoteType s := by
  have hnew := remoteType_brought.1
  simp only [List.forall_mem_cons] at hnew
  have hnone : ∀ e ∈ [incDrafterEdit, incImplEdit, blockSizeEdit], ¬e.Brings remoteType s := by
    rintro e he ⟨-, σ, hσ, -, hσnew⟩
    rw [remoteType_brought.2 e he σ hσ] at hσnew
    cases hσnew
  simp only [List.forall_mem_cons] at hnone
  have hhas : hasRemoteEdit.Brings remoteType s ↔ occurs hasRemote s = false ∧
      (occurs hasLine s = true ∨ occurs pushBlock s = true) := by
    simp [hasRemoteEdit, Edit.Brings, guarded, hnew]
  have hnMax : nMaxEdit.Brings remoteType s ↔ occurs nMaxBlock s = true := by
    simp [nMaxEdit, Edit.Brings, guarded, nMaxSplice_spec.1, hnew]
  have hinit : initCaseEdit.Brings remoteType s ↔
      occurs remoteImpl s = false ∧ occurs (indent ++ simpleMarker) s = true := by
    simp [initCaseEdit, Edit.Brings, guarded, initCaseSplice_spec.1, hnew]
  rw [occurs_parallel initEdits fun e he => speculative_admits e (List.mem_cons_of_mem _ he), AddsRemoteType]
  simp [initEdits, hnone, hhas, hnMax, hinit]

/-- If the type names did not bring the type in, they changed nothing. -/
theorem typeNames_fixed {s : Text} (h : ¬NamesRemoteType s) : typeNamesEdit.run s = s := by
  rw [NamesRemoteType, not_or, not_and_or, not_or, Bool.not_eq_false] at h
  refine typeNamesEdit.pass.fixed s (h.2.imp (fun hguard => hguard) fun hno σ hσ => ?_)
  rcases List.mem_pair.mp hσ with rfl | rfl
  · rw [pattern_after]
    exact Bool.eq_false_iff.mpr hno.1
  · rw [pattern_after]
    exact Bool.eq_false_iff.mpr hno.2

theorem editCount_eq_self {s : Text} :
    editCount s = s ↔ (occurs remoteType s = true → ∀ ds ∈ firstCount s, ds = newCount) := by
  rw [editCount]
  split
  case isTrue h => simp [h, bumpCount_eq_self]
  case isFalse h => simp [h]

theorem keeps_editCount : ∀ e ∈ speculativeEdits.edits, Keeps editCount e.pass := by
  intro e he s hs
  rw [editCount]
  split
  · exact keeps_bumpCount e he s hs
  · exact hs

/-- Whether the count is left as it is behind all edits. -/
theorem editCount_behind_iff (s : Text) :
    editCount (editInit (editCount (editTypeNames s))) = editInit (editCount (editTypeNames s)) ↔
      CountStable s := by
  have hcount (t : Text) : firstCount (editInit t) = firstCount t := by
    rw [editInit_eq]
    exact firstCount_edits (List.subset_cons_self _ _) t
  rw [editCount_eq_self, hcount, editInit_eq, occurs_init, editTypeNames_eq]
  by_cases hnames : NamesRemoteType s
  · -- the count is set before the edits
    have hset : editCount (typeNamesEdit.run s) = bumpCount (typeNamesEdit.run s) := by
      rw [editCount, (occurs_typeNames s).mpr hnames, if_pos rfl]
    rw [hset]
    exact iff_of_true (fun _ => firstCount_bumpCount) (Or.inl hnames)
  · -- it is not, and whether the second run does lies with the edits
    have hnot : occurs remoteType s = false := Bool.eq_false_iff.mpr fun h => hnames (Or.inl h)
    have hleft : editCount s = s := by rw [editCount, hnot]; rfl
    rw [typeNames_fixed hnames, hleft, hnot, CountStable]
    simp only [Bool.false_eq_true, false_or, hnames, imp_iff_not_or]

theorem editCount_return_free {s : Text} (hs : '\r' ∉ s) : '\r' ∉ editCount s := by
  have hspared := count_spares_words ['\r'] List.mem_cons_self
  rw [editCount]
  split
  · rwa [mem_iff_occurs, occurs_bumpCount hspared, ← mem_iff_occurs]
  · exact hs

theorem speculative_rerun_iff (f : List Char) :
    editSpeculativeCpp (readText (editSpeculativeCpp (readText f))) = editSpeculativeCpp (readText f) ↔
      CountStable (readText f) := by
  have hfree : '\r' ∉ editSpeculativeCpp (readText f) := by
    have htyped : '\r' ∉ runAll ([typeNamesEdit].map Edit.pass) (readText f) :=
      speculativeEdits.return_free (List.cons_subset_cons _ (List.nil_subset _)) (readText_return_free f)
    rw [editSpeculativeCpp, editInit_eq, editTypeNames_eq]
    exact speculativeEdits.return_free (List.subset_cons_self _ _) (editCount_return_free htyped)
  have hord : Ordered ([typeNamesEdit.pass] ++ initEdits.edits.map Edit.pass) :=
    ordered_edits speculativeEdits.ordered
  have hkeeps : ∀ p ∈ [typeNamesEdit.pass] ++ initEdits.edits.map Edit.pass, Keeps editCount p :=
    List.forall_mem_map.mpr keeps_editCount
  have hrerun := rerun_iff hord hkeeps (readText f)
  simp only [runAll_cons, runAll_nil, pass_run, ← editInit_eq, ← editTypeNames_eq] at hrerun
  rw [readText_fixed hfree, ← editCount_behind_iff]
  exact hrerun

/-! ### The load blocks of `server-context.cpp` -/

def loadDrop : Drop Char where
  old := loadMarker
  new := loadGuarded
  once := by decide +kernel
  apart := by decide +kernel

def loadSplice : Splice Char where
  left := []
  old := loadMarker
  new := loadGuarded
  right := []

def ctxTgtSplice : Splice Char where
  left := []
  old := setCtxTgt
  new := []
  right := setCtxDft

theorem loadSplice_spec : loadSplice.pattern = loadMarker ∧ loadSplice.result = loadGuarded := by
  simp only [Splice.pattern, Splice.result, loadSplice, List.nil_append, List.append_nil, and_self]

theorem ctxTgtSplice_spec :
    ctxTgtSplice.pattern = setCtxTgt ++ setCtxDft ∧ ctxTgtSplice.result = setCtxDft := by
  simp only [Splice.pattern, Splice.result, ctxTgtSplice, List.nil_append, List.append_nil, and_self]

theorem loadSplice_ne : loadSplice.pattern ≠ [] := List.cons_ne_nil _ _

theorem ctxTgtSplice_ne : ctxTgtSplice.pattern ≠ [] := List.cons_ne_nil _ _

/-- The edits of the file tell from the load block, and so does the assignment dropped behind it. -/
theorem loadMarker_ignored :
    ignored contextEdits.edits loadMarker = true ∧ ctxTgtSplice.ignores loadMarker = true := by decide +kernel

/-- And the load block from what the edits look for, and from a carriage return. -/
theorem load_spares_words : ∀ p ∈ ['\r'] :: contextEdits.edits.flatMap Edit.words,
    loadSplice.ignores p = true ∧ ctxTgtSplice.ignores p = true := by decide +kernel

/-- Without a load block, the file stays. -/
theorem editLoad_of_not_occurs {s : Text} (h : occurs loadMarker s = false) : editLoad s = s := by
  rw [editLoad, h]
  rfl

theorem editLoad_cases (s : Text) : occurs loadMarker s = false ∧ editLoad s = s ∨
    occurs loadMarker s = true ∧ editLoad s = ctxTgtSplice.run false (loadSplice.run false s) := by
  cases hocc : occurs loadMarker s with
  | false => exact Or.inl ⟨rfl, editLoad_of_not_occurs hocc⟩
  | true =>
    refine Or.inr ⟨rfl, ?_⟩
    simp only [editLoad, hocc, Splice.run, loadSplice_spec, ctxTgtSplice_spec, Bool.false_eq_true, if_true,
      if_false]

/-- A load block is one less: the first is rewritten, and the assignment dropped from it is none. -/
theorem count_editLoad (s : Text) : count loadMarker (editLoad s) = count loadMarker s - 1 := by
  rcases editLoad_cases s with ⟨hno, heq⟩ | ⟨-, heq⟩
  · have hzero : count loadMarker s = 0 := (count_eq_zero (drop_old_ne loadDrop)).mpr hno
    rw [heq, hzero]
  · have hctx : count loadMarker (editLoad s) = count loadMarker (loadSplice.run false s) := by
      rw [heq]
      exact count_run ctxTgtSplice_ne loadMarker_ignored.2 false _
    have hrun : loadSplice.run false s = replaceFirst loadMarker loadGuarded s := by
      simp only [Splice.run, loadSplice_spec, Bool.false_eq_true, if_false]
    rw [hctx, hrun]
    exact count_drop loadDrop s

theorem editLoad_eq_self {s : Text} : editLoad s = s ↔ count loadMarker s = 0 := by
  constructor
  · intro h
    have hcount := count_editLoad s
    rw [h] at hcount
    omega
  · exact fun h => editLoad_of_not_occurs ((count_eq_zero (drop_old_ne loadDrop)).mp h)

theorem occurs_editLoad {p : Text} (hp : p ∈ ['\r'] :: contextEdits.edits.flatMap Edit.words) (s : Text) :
    occurs p (editLoad s) = occurs p s := by
  obtain ⟨hload, hctx⟩ := load_spares_words p hp
  rcases editLoad_cases s with ⟨-, heq⟩ | ⟨-, heq⟩
  · rw [heq]
  · rw [heq, occurs_run_ignored ctxTgtSplice_ne hctx, occurs_run_ignored loadSplice_ne hload]

theorem keeps_editLoad : ∀ e ∈ contextEdits.edits, Keeps editLoad e.pass := fun e he =>
  keeps_words fun _ hp => occurs_editLoad (List.mem_cons_of_mem _ (List.mem_flatMap.mpr ⟨e, he, hp⟩))

/-- What the two patches of the file write. -/
def writtenContextCpp (f : List Char) : Text := editServerCtxTgt (readText (editDebugSpec (readText f)))

theorem writtenContextCpp_eq (f : List Char) :
    writtenContextCpp f = editLoad (contextEdits.run (readText f)) := by
  have hdebug : editDebugSpec (readText f) = runAll ([incStatsEdit, handlerEdit].map Edit.pass) (readText f) := by
    show _ = handlerEdit.run (incStatsEdit.run (readText f))
    rw [handlerEdit, run_one, incStatsEdit, run_one]
    simp only [editDebugSpec, Splice.run, pattern_after, result_after, pattern_before, result_before,
      Bool.false_eq_true, if_false]
  have hfree : '\r' ∉ editDebugSpec (readText f) := by
    rw [hdebug]
    exact contextEdits.return_free (by simp [contextEdits]) (readText_return_free f)
  rw [writtenContextCpp, readText_fixed hfree, editServerCtxTgt, editContext_eq]

theorem contextCpp_rerun_iff (f : List Char) :
    writtenContextCpp (writtenContextCpp f) = writtenContextCpp f ↔ count loadMarker (readText f) ≤ 1 := by
  have hfree : '\r' ∉ writtenContextCpp f := by
    rw [writtenContextCpp_eq, mem_iff_occurs, occurs_editLoad List.mem_cons_self, ← mem_iff_occurs]
    exact contextEdits.run_return_free (readText_return_free f)
  rw [writtenContextCpp_eq (writtenContextCpp f), readText_fixed hfree, writtenContextCpp_eq,
    FileEdits.rerun_behind_iff keeps_editLoad, editLoad_eq_self, count_editLoad, run_edits,
    count_edits loadMarker_ignored.1]
  omega

/-! ### The script -/

theorem applyRemoteDspark_eq (t : LlamaTree) : applyRemoteDspark t =
    { commonH := editCommonH (readText t.commonH)
      speculativeCpp := editSpeculativeCpp (readText t.speculativeCpp)
      argCpp := editArgCpp (readText t.argCpp)
      commonCMake := editCommonCMake (readText t.commonCMake)
      serverSchema := t.serverSchema.map fun f => editServerSchema (readText f)
      serverCMake := t.serverCMake.map fun f => editServerCMake (readText f)
      serverContextH := writtenContextH t.serverContextH
      serverContextCpp := writtenContextCpp t.serverContextCpp
      serverCpp := editServerCpp (readText t.serverCpp) } := by
  simp only [applyRemoteDspark, LlamaTree.patchCommonH, LlamaTree.patchSpeculativeCpp, LlamaTree.patchArgCpp,
    LlamaTree.patchCommonCMake, LlamaTree.patchServerSchema, LlamaTree.patchServerCMake,
    LlamaTree.patchDebugSpecEndpoint, LlamaTree.patchServerCtxTgt, writtenContextH, writtenContextCpp]
  rfl

/-- A second run leaves every file as the first wrote it if and only if the count of `speculative.cpp` is
    stable and `server-context.cpp` has at most one load block. -/
theorem apply_twice_iff (t : LlamaTree) : applyRemoteDspark (applyRemoteDspark t) = applyRemoteDspark t ↔
    CountStable (readText t.speculativeCpp) ∧ count loadMarker (readText t.serverContextCpp) ≤ 1 := by
  have hschema : ((t.serverSchema.map fun f => editServerSchema (readText f)).map fun f =>
      editServerSchema (readText f)) = t.serverSchema.map fun f => editServerSchema (readText f) := by
    rw [Option.map_map]
    exact congrArg (Option.map · t.serverSchema) (funext serverSchema_rerun)
  have hcmake : ((t.serverCMake.map fun f => editServerCMake (readText f)).map fun f =>
      editServerCMake (readText f)) = t.serverCMake.map fun f => editServerCMake (readText f) := by
    rw [Option.map_map]
    exact congrArg (Option.map · t.serverCMake) (funext serverCMake_rerun)
  rw [applyRemoteDspark_eq (applyRemoteDspark t), applyRemoteDspark_eq t, LlamaTree.mk.injEq]
  simp only [commonH_rerun, argCpp_rerun, commonCMake_rerun, serverCpp_rerun, contextH_rerun, hschema, hcmake,
    speculative_rerun_iff, contextCpp_rerun_iff, true_and, and_true]

/-- A `speculative.cpp` of an upstream without the tables of type names: the first run finds no remote type
    when it looks at the count, and then puts one into the `n_max` switch. -/
def untabledTree : LlamaTree where
  commonH := []
  speculativeCpp := assertion (chars "11" rfl) ++ chars "\n" rfl ++ nMaxBlock
  argCpp := []
  commonCMake := []
  serverSchema := none
  serverCMake := none
  serverContextH := []
  serverContextCpp := []
  serverCpp := []

theorem second_run_sets_count :
    ¬∀ t : LlamaTree, applyRemoteDspark (applyRemoteDspark t) = applyRemoteDspark t := by
  intro h
  exact absurd (h untabledTree) (by decide +kernel)

end DsparkEdge
