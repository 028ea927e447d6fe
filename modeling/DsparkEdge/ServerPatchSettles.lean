import DsparkEdge.ServerPatchRerun
import Mathlib.Logic.Function.Iterate

/-! Running `apply_remote_dspark.py` again and again. From the second run on only the load blocks of
    `server-context.cpp` are left to a further run, one of them a run; the count of `speculative.cpp` is set by
    the second run if the first did not set it.

        run        1   2   3   4                load blocks 4
        blocks     3   2   1   0                the fifth run changes nothing
        count      ?   12  12  12                                                                    -/

namespace DsparkEdge

open Passes Edits Texts

/-- What is written of `speculative.cpp`. -/
def writtenSpeculativeCpp (f : List Char) : List Char := editSpeculativeCpp (readText f)

theorem speculative_twice_iff (f : List Char) :
    writtenSpeculativeCpp (writtenSpeculativeCpp f) = writtenSpeculativeCpp f ↔ CountStable (readText f) :=
  speculative_rerun_iff f

theorem speculative_return_free (f : List Char) : '\r' ∉ writtenSpeculativeCpp f := by
  have htyped : '\r' ∉ runAll ([typeNamesEdit].map Edit.pass) (readText f) :=
    speculativeEdits.return_free (List.cons_subset_cons _ (List.nil_subset _)) (readText_return_free f)
  rw [writtenSpeculativeCpp, editSpeculativeCpp, editInit_eq, editTypeNames_eq]
  exact speculativeEdits.return_free (List.subset_cons_self _ _) (editCount_return_free htyped)

/-- A run that could not set the count, and brings in the remote type, names it to the next one. -/
theorem names_of_unstable {f : List Char} (h : ¬CountStable (readText f)) :
    NamesRemoteType (readText (writtenSpeculativeCpp f)) := by
  rw [CountStable, not_or, not_or, not_not] at h
  obtain ⟨hnames, hadds, -⟩ := h
  have hnot : occurs remoteType (readText f) = false := Bool.eq_false_iff.mpr fun hocc => hnames (Or.inl hocc)
  have hleft : editCount (readText f) = readText f := by
    rw [editCount, hnot]
    rfl
  rw [readText_fixed (speculative_return_free f), writtenSpeculativeCpp, editSpeculativeCpp, editTypeNames_eq,
    typeNames_fixed hnames, hleft, editInit_eq]
  exact Or.inl ((occurs_init (readText f)).mpr (Or.inr hadds))

/-- From the second run on `speculative.cpp` stays. -/
theorem countStable_written (f : List Char) : CountStable (readText (writtenSpeculativeCpp f)) := by
  by_cases hstable : CountStable (readText f)
  · -- the second run changes nothing, so the third does not either
    have hsecond := (speculative_twice_iff f).mpr hstable
    exact (speculative_twice_iff (writtenSpeculativeCpp f)).mp (congrArg writtenSpeculativeCpp hsecond)
  · exact Or.inl (names_of_unstable hstable)

theorem contextCpp_return_free (f : List Char) : '\r' ∉ writtenContextCpp f := by
  rw [writtenContextCpp_eq, mem_iff_occurs, occurs_editLoad List.mem_cons_self, ← mem_iff_occurs]
  exact contextEdits.run_return_free (readText_return_free f)

/-- One load block a run. -/
theorem count_written (f : List Char) :
    count loadMarker (readText (writtenContextCpp f)) = count loadMarker (readText f) - 1 := by
  rw [readText_fixed (contextCpp_return_free f), writtenContextCpp_eq, count_editLoad, run_edits,
    count_edits loadMarker_ignored.1]

theorem count_iterate (f : List Char) (n : ℕ) :
    count loadMarker (readText (writtenContextCpp^[n] f)) = count loadMarker (readText f) - n := by
  induction n with
  | zero => rfl
  | succ n ih => rw [Function.iterate_succ_apply', count_written, ih, Nat.sub_sub]

/-- A second run writes these two files again, and leaves the others as the first wrote them. -/
theorem apply_again (t : LlamaTree) : applyRemoteDspark (applyRemoteDspark t) =
    { applyRemoteDspark t with
      speculativeCpp := writtenSpeculativeCpp (applyRemoteDspark t).speculativeCpp
      serverContextCpp := writtenContextCpp (applyRemoteDspark t).serverContextCpp } := by
  have hschema : ((t.serverSchema.map fun f => editServerSchema (readText f)).map fun f =>
      editServerSchema (readText f)) = t.serverSchema.map fun f => editServerSchema (readText f) := by
    rw [Option.map_map]
    exact congrArg (Option.map · t.serverSchema) (funext serverSchema_rerun)
  have hcmake : ((t.serverCMake.map fun f => editServerCMake (readText f)).map fun f =>
      editServerCMake (readText f)) = t.serverCMake.map fun f => editServerCMake (readText f) := by
    rw [Option.map_map]
    exact congrArg (Option.map · t.serverCMake) (funext serverCMake_rerun)
  rw [applyRemoteDspark_eq (applyRemoteDspark t), applyRemoteDspark_eq t, LlamaTree.mk.injEq]
  simp only [commonH_rerun, argCpp_rerun, commonCMake_rerun, serverCpp_rerun, contextH_rerun, hschema, hcmake,
    writtenSpeculativeCpp, and_true]

theorem apply_again_iff (t : LlamaTree) : applyRemoteDspark (applyRemoteDspark t) = applyRemoteDspark t ↔
    writtenSpeculativeCpp (writtenSpeculativeCpp t.speculativeCpp) = writtenSpeculativeCpp t.speculativeCpp ∧
      writtenContextCpp (writtenContextCpp t.serverContextCpp) = writtenContextCpp t.serverContextCpp := by
  rw [apply_again, applyRemoteDspark_eq t, LlamaTree.mk.injEq]
  simp only [true_and, and_true, writtenSpeculativeCpp]

/-- The two files of a run of the script are those of runs on the files. -/
theorem files_iterate (t : LlamaTree) (n : ℕ) :
    (applyRemoteDspark^[n] t).speculativeCpp = writtenSpeculativeCpp^[n] t.speculativeCpp ∧
      (applyRemoteDspark^[n] t).serverContextCpp = writtenContextCpp^[n] t.serverContextCpp := by
  have hspec : Function.Semiconj LlamaTree.speculativeCpp applyRemoteDspark writtenSpeculativeCpp := by
    intro t
    rw [applyRemoteDspark_eq, writtenSpeculativeCpp]
  have hctx : Function.Semiconj LlamaTree.serverContextCpp applyRemoteDspark writtenContextCpp := by
    intro t
    rw [applyRemoteDspark_eq]
  exact ⟨hspec.iterate_right n t, hctx.iterate_right n t⟩

/-- THE SCRIPT SETTLES: from the second run on, a further run changes nothing exactly if the tree came with no more
    load blocks than runs were made; so whatever the tree, the runs after that many, and after two, change
    nothing. -/
theorem script_settles (t : LlamaTree) (n : ℕ) : applyRemoteDspark^[n + 3] t = applyRemoteDspark^[n + 2] t ↔
    count loadMarker (readText t.serverContextCpp) ≤ n + 2 := by
  obtain ⟨hspec, hctx⟩ := files_iterate t (n + 1)
  rw [Function.iterate_succ_apply' _ (n + 2), Function.iterate_succ_apply' _ (n + 1), apply_again_iff, hspec, hctx,
    speculative_twice_iff, contextCpp_rerun_iff, Function.iterate_succ_apply' writtenSpeculativeCpp, count_iterate]
  have hset := countStable_written (writtenSpeculativeCpp^[n] t.speculativeCpp)
  rw [and_iff_right hset]
  omega

end DsparkEdge
