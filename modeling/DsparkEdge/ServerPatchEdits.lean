import DsparkEdge.Lib.Edits
import DsparkEdge.ServerPatch

/-! The patches as lists of edits. Each replacement of the script keeps both ends of its pattern, and what
    an edit tests for is what it brings in, so that it settles; no edit of a file disturbs one before it.

        editInit = has_draft… ─▶ dspark_drafter.h ─▶ remote_dspark_impl.h ─▶ n_max ─▶ init ─▶ block_size

    Outside the lists are the count of `speculative.cpp`, the link line of the CMake file and the block
    of `server-context.cpp` that loads a draft model. -/

namespace DsparkEdge

open Edits Passes Texts

/-- The edits of a file: none disturbs one before it, and none brings in a carriage return. -/
structure FileEdits where
  edits : List (Edit Char)
  ordered : edits.Pairwise fun e e' => e'.keeps e = true
  noReturn : ignored edits ['\r'] = true

def FileEdits.run (F : FileEdits) (s : Text) : Text := runAll (F.edits.map Edit.pass) s

theorem run_edits (F : FileEdits) (s : Text) : F.run s = runAll (F.edits.map Edit.pass) s := rfl

/-- A guarded edit of one splice, as the script writes it. -/
theorem run_one {g : Text} {σ : Splice Char} {all : Bool} (h : settles (some g) [σ] all = true) (s : Text) :
    (Edit.mk (some g) [σ] all h).run s = if !occurs g s then σ.run all s else s := by
  cases hg : occurs g s <;> simp [Edit.run, guarded, hg]

theorem run_two {g : Text} {σ τ : Splice Char} {all : Bool} (h : settles (some g) [σ, τ] all = true)
    (s : Text) :
    (Edit.mk (some g) [σ, τ] all h).run s = if !occurs g s then τ.run all (σ.run all s) else s := by
  cases hg : occurs g s <;> simp [Edit.run, guarded, hg]

theorem run_sweep {σ : Splice Char} {all : Bool} (h : settles none [σ] all = true) (s : Text) :
    (Edit.mk none [σ] all h).run s = σ.run all s := rfl

/-- A replacement need not be preceded by a test for its pattern. -/
theorem run_tested (σ : Splice Char) (hne : σ.pattern ≠ []) (all : Bool) (s : Text) :
    (if occurs σ.pattern s then σ.run all s else s) = σ.run all s := by
  cases hocc : occurs σ.pattern s with
  | true => rfl
  | false => rw [run_of_not_occurs hne hocc, ite_self]

/-! ### `common.h` -/

def enumEdit : Edit Char where
  guard := some remoteType
  splices := [.after enumNeedle enumEntry]
  all := true
  sound := by decide +kernel

def fieldEdit : Edit Char where
  guard := some remoteGrpc
  splices := [.after confMin remoteField]
  all := true
  sound := by decide +kernel

def lambdaSplice : Splice Char where
  left := []
  old := oldLambda
  new := newLambda
  right := []

def lambdaEdit : Edit Char where
  guard := none
  splices := [lambdaSplice]
  all := true
  sound := by decide +kernel

def commonHEdits : FileEdits where
  edits := [enumEdit, fieldEdit, lambdaEdit]
  ordered := by decide +kernel
  noReturn := by decide +kernel

theorem lambdaSplice_spec : lambdaSplice.pattern = oldLambda ∧ lambdaSplice.result = newLambda := by
  simp only [Splice.pattern, Splice.result, lambdaSplice, List.nil_append, List.append_nil, and_self]

theorem enumEdit_run (s : Text) : enumEdit.run s =
    if occurs enumNeedle s && !occurs remoteType s then replaceAll enumNeedle (enumNeedle ++ enumEntry) s
    else s := by
  have htested := run_tested (.after enumNeedle enumEntry) (enumEdit.pattern_ne _ List.mem_cons_self) true s
  rw [enumEdit, run_one, ← htested]
  simp only [Splice.run, pattern_after, result_after, if_true]
  cases occurs enumNeedle s <;> simp

theorem editCommonH_eq (s : Text) : editCommonH s = commonHEdits.run s := by
  obtain ⟨hpattern, hresult⟩ := lambdaSplice_spec
  have hlambda := run_tested lambdaSplice (lambdaEdit.pattern_ne _ List.mem_cons_self) true
  simp only [hpattern, Splice.run, hresult, if_true] at hlambda
  show _ = lambdaEdit.run (fieldEdit.run (enumEdit.run s))
  rw [enumEdit_run, fieldEdit, run_one, lambdaEdit, run_sweep]
  simp only [editCommonH, Splice.run, pattern_after, result_after, hpattern, hresult, if_true, hlambda]

/-! ### `speculative.cpp` -/

def typeNamesEdit : Edit Char where
  guard := some remoteName
  splices := [.after mapEntry remoteMapEntry, .after nameCase remoteNameCase]
  all := true
  sound := by decide +kernel

def hasRemoteEdit : Edit Char where
  guard := some hasRemote
  splices := [.after hasLine hasRemoteLine, .after pushBlock remotePushBlock]
  all := true
  sound := by decide +kernel

def incDrafterEdit : Edit Char where
  guard := some incDrafter
  splices := [.after incCommon incDrafter]
  all := false
  sound := by decide +kernel

def incImplEdit : Edit Char where
  guard := some incImpl
  splices := [.before incImpl mtpMarker]
  all := false
  sound := by decide +kernel

def nMaxSplice : Splice Char where
  left := nMaxCases
  old := []
  new := nMaxRemoteCase
  right := nMaxBody

def nMaxEdit : Edit Char where
  guard := none
  splices := [nMaxSplice]
  all := true
  sound := by decide +kernel

def initCaseSplice : Splice Char where
  left := indent
  old := []
  new := remoteInitCase ++ indent
  right := simpleMarker

def initCaseEdit : Edit Char where
  guard := some remoteImpl
  splices := [initCaseSplice]
  all := true
  sound := by decide +kernel

def blockSizeSplice : Splice Char where
  left := blockSizeIf
  old := []
  new := dsparkTest
  right := dflashTest

def blockSizeEdit : Edit Char where
  guard := some dsparkBlockSize
  splices := [blockSizeSplice]
  all := true
  sound := by decide +kernel

def initEdits : Parallel Char where
  edits := [hasRemoteEdit, incDrafterEdit, incImplEdit, nMaxEdit, initCaseEdit, blockSizeEdit]
  apart := by decide +kernel

def speculativeEdits : FileEdits where
  edits := typeNamesEdit :: initEdits.edits
  ordered := by decide +kernel
  noReturn := by decide +kernel

theorem nMaxSplice_spec : nMaxSplice.pattern = nMaxBlock ∧ nMaxSplice.result = nMaxBlockNew := by
  simp only [Splice.pattern, Splice.result, nMaxSplice, nMaxBlock, nMaxBlockNew, List.append_nil, and_self]

theorem initCaseSplice_spec :
    initCaseSplice.pattern = indent ++ simpleMarker ∧ initCaseSplice.result = initCase ++ simpleMarker := by
  simp only [Splice.pattern, Splice.result, initCaseSplice, initCase, List.append_nil, List.append_assoc, and_self]

theorem blockSizeSplice_spec : blockSizeSplice.pattern = oldBs ∧ blockSizeSplice.result = newBs := by
  simp only [Splice.pattern, Splice.result, blockSizeSplice, oldBs, newBs, List.append_nil, and_self]

theorem editTypeNames_eq (s : Text) : editTypeNames s = typeNamesEdit.run s := by
  rw [typeNamesEdit, run_two]
  simp only [editTypeNames, Splice.run, pattern_after, result_after, if_true]

theorem incImplEdit_run (s : Text) : incImplEdit.run s = if !occurs incImpl s then
    if occurs mtpMarker s then replaceFirst mtpMarker (incImpl ++ mtpMarker) s else s else s := by
  have htested := run_tested (.before incImpl mtpMarker) (incImplEdit.pattern_ne _ List.mem_cons_self) false s
  rw [incImplEdit, run_one, ← htested]
  simp only [Splice.run, pattern_before, result_before, Bool.false_eq_true, if_false]

/-- Without the marker, there is none behind an indent. -/
theorem simpleMarker_occurs {s : Text} (h : occurs simpleMarker s = false) :
    occurs (indent ++ simpleMarker) s = false := by
  rw [occurs_eq_false] at h ⊢
  exact fun hin => h ((List.suffix_append indent simpleMarker).isInfix.trans hin)

theorem initCaseEdit_run (s : Text) : initCaseEdit.run s =
    if !occurs remoteImpl s then
      if occurs simpleMarker s then replaceAll (indent ++ simpleMarker) (initCase ++ simpleMarker) s else s
    else s := by
  obtain ⟨hpattern, hresult⟩ := initCaseSplice_spec
  rw [initCaseEdit, run_one]
  simp only [Splice.run, hpattern, hresult, if_true]
  cases hocc : occurs simpleMarker s with
  | true => rfl
  | false =>
    have hne : initCaseSplice.pattern ≠ [] := initCaseEdit.pattern_ne _ List.mem_cons_self
    have hnone := run_of_not_occurs hne (hpattern ▸ simpleMarker_occurs hocc) true
    simp only [Splice.run, hpattern, hresult, if_true] at hnone
    rw [hnone]
    rfl

theorem blockSizeEdit_run (s : Text) : blockSizeEdit.run s =
    if !occurs dsparkBlockSize s && occurs oldBs s then replaceAll oldBs newBs s else s := by
  obtain ⟨hpattern, hresult⟩ := blockSizeSplice_spec
  have htested := run_tested blockSizeSplice (blockSizeEdit.pattern_ne _ List.mem_cons_self) true s
  rw [blockSizeEdit, run_one, ← htested]
  simp only [Splice.run, hpattern, hresult, if_true]
  cases occurs dsparkBlockSize s <;> simp

theorem editInit_eq (s : Text) : editInit s = runAll (initEdits.edits.map Edit.pass) s := by
  obtain ⟨hpattern, hresult⟩ := nMaxSplice_spec
  have hnMax := run_tested nMaxSplice (nMaxEdit.pattern_ne _ List.mem_cons_self) true
  simp only [hpattern, Splice.run, hresult, if_true] at hnMax
  show _ = blockSizeEdit.run (initCaseEdit.run (nMaxEdit.run (incImplEdit.run (incDrafterEdit.run
    (hasRemoteEdit.run s)))))
  rw [blockSizeEdit_run, initCaseEdit_run, incImplEdit_run, nMaxEdit, run_sweep, incDrafterEdit, run_one,
    hasRemoteEdit, run_two]
  simp only [editInit, Splice.run, pattern_after, result_after, hpattern, hresult, if_true,
    Bool.false_eq_true, if_false, hnMax]

/-! ### The files of one edit -/

def argEdit : Edit Char where
  guard := some remoteGrpcFlag
  splices := [.before argInsert confMinArg]
  all := true
  sound := by decide +kernel

def argEdits : FileEdits where
  edits := [argEdit]
  ordered := List.pairwise_singleton _ _
  noReturn := by decide +kernel

def schemaEdit : Edit Char where
  guard := some remoteName
  splices := [.after schemaEntry remoteSchemaEntry]
  all := true
  sound := by decide +kernel

def schemaEdits : FileEdits where
  edits := [schemaEdit]
  ordered := List.pairwise_singleton _ _
  noReturn := by decide +kernel

def serverCMakeEdit : Edit Char where
  guard := some grpcLink
  splices := [.after linkTarget grpcLinkLine]
  all := false
  sound := by decide +kernel

def serverCMakeEdits : FileEdits where
  edits := [serverCMakeEdit]
  ordered := List.pairwise_singleton _ _
  noReturn := by decide +kernel

def contextHEdit : Edit Char where
  guard := some getDebugSpec
  splices := [.after getMetrics debugMember]
  all := false
  sound := by decide +kernel

def contextHEdits : FileEdits where
  edits := [contextHEdit]
  ordered := List.pairwise_singleton _ _
  noReturn := by decide +kernel

def routeEdit : Edit Char where
  guard := some debugPath
  splices := [.after metricsRoute debugRoute]
  all := false
  sound := by decide +kernel

def routeEdits : FileEdits where
  edits := [routeEdit]
  ordered := List.pairwise_singleton _ _
  noReturn := by decide +kernel

theorem editArgCpp_eq (s : Text) : editArgCpp s = argEdits.run s := by
  show _ = argEdit.run s
  rw [argEdit, run_one]
  simp only [editArgCpp, Splice.run, pattern_before, result_before, if_true]

theorem editServerSchema_eq (s : Text) : editServerSchema s = schemaEdits.run s := by
  show _ = schemaEdit.run s
  rw [schemaEdit, run_one]
  simp only [editServerSchema, Splice.run, pattern_after, result_after, if_true]

theorem editServerCMake_eq (s : Text) : editServerCMake s = serverCMakeEdits.run s := by
  show _ = serverCMakeEdit.run s
  rw [serverCMakeEdit, run_one]
  simp only [editServerCMake, Splice.run, pattern_after, result_after, Bool.false_eq_true, if_false]

theorem editServerContextH_eq (s : Text) :
    (if !occurs getDebugSpec s then editServerContextH s else s) = contextHEdits.run s := by
  show _ = contextHEdit.run s
  rw [contextHEdit, run_one]
  simp only [editServerContextH, Splice.run, pattern_after, result_after, Bool.false_eq_true, if_false]

theorem editServerCpp_eq (s : Text) : editServerCpp s = routeEdits.run s := by
  show _ = routeEdit.run s
  rw [routeEdit, run_one]
  simp only [editServerCpp, Splice.run, pattern_after, result_after, Bool.false_eq_true, if_false]

/-! ### `common/CMakeLists.txt` -/

def clientEdit : Edit Char where
  guard := some clientCpp
  splices := [.after speculativeSource clientSource]
  all := false
  sound := by decide +kernel

def protoEdit : Edit Char where
  guard := some dsparkPb
  splices := [.after clientCpp protoSources]
  all := false
  sound := by decide +kernel

def sourceEdits : FileEdits where
  edits := [clientEdit, protoEdit]
  ordered := by decide +kernel
  noReturn := by decide +kernel

theorem editCMakeSources_eq (s : Text) : editCMakeSources s = sourceEdits.run s := by
  show _ = protoEdit.run (clientEdit.run s)
  rw [protoEdit, run_one, clientEdit, run_one]
  simp only [editCMakeSources, Splice.run, pattern_after, result_after, Bool.false_eq_true, if_false]

/-! ### `server-context.cpp` -/

def incStatsEdit : Edit Char where
  guard := some incStats
  splices := [.after incContext incStatsLine]
  all := false
  sound := by decide +kernel

def handlerEdit : Edit Char where
  guard := some thisDebugSpec
  splices := [.before debugHandler metricsHandler]
  all := false
  sound := by decide +kernel

def hasSpecSplice : Splice Char where
  left := []
  old := hasSpec
  new := hasSpecNew
  right := []

def hasSpecEdit : Edit Char where
  guard := some hasRemoteDspark
  splices := [hasSpecSplice]
  all := false
  sound := by decide +kernel

def contextEdits : FileEdits where
  edits := [incStatsEdit, handlerEdit, hasSpecEdit]
  ordered := by decide +kernel
  noReturn := by decide +kernel

theorem hasSpecSplice_spec : hasSpecSplice.pattern = hasSpec ∧ hasSpecSplice.result = hasSpecNew := by
  simp only [Splice.pattern, Splice.result, hasSpecSplice, List.nil_append, List.append_nil, and_self]

theorem editContext_eq (s : Text) : editHasSpec (editDebugSpec s) = contextEdits.run s := by
  obtain ⟨hpattern, hresult⟩ := hasSpecSplice_spec
  show _ = hasSpecEdit.run (handlerEdit.run (incStatsEdit.run s))
  rw [hasSpecEdit, run_one, handlerEdit, run_one, incStatsEdit, run_one]
  simp only [editHasSpec, editDebugSpec, Splice.run, pattern_after, result_after, pattern_before, result_before,
    hpattern, hresult, Bool.false_eq_true, if_false]
  rfl

end DsparkEdge
