import HapDB.Db.VersionBuilder
import HapDB.Lib.Fold

/-!
# What a version adds to the file map

`SaveTo(..., version_num)` changes the shared file map in one way only: it
adds nodes and appends edges (`AddNode`, `AddDerivedNode`).  `AddedBy v fm fm'`
says that `fm'` is `fm` changed so: every node of `fm` is still there, with the
same file and version and only more children, and every node `fm` did not have
was created by version `v`.

The relation is reflexive and transitive, each of the two operations is such a
step for its version (`addedBy_AddNode`, `addedBy_AddDerivedNode`), and so the
whole update of a `SaveTo` is one (`addedBy_updateFileMap`).  Whatever later
happens to the version that made the change, the nodes stay, visible to every
query whose version number is at least `v`.
-/

namespace HapDB

namespace FileMap

/-- `fm'` is `fm` with nodes and edges added by the version numbered `v`. -/
structure AddedBy (v : UInt64) (fm fm' : FileMap) : Prop where
  keep : ∀ fn n, fm.nodes fn = some n →
    ∃ extra, fm'.nodes fn = some { n with children := n.children ++ extra }
  fresh : ∀ fn n, fm'.nodes fn = some n → fm.nodes fn = none → n.versionNum = v

namespace AddedBy

variable {v : UInt64} {fm fm₁ fm₂ fm₃ : FileMap}

theorem refl (v : UInt64) (fm : FileMap) : AddedBy v fm fm where
  keep fn n h := ⟨[], by simp [h]⟩
  fresh fn n h h' := by simp [h] at h'

theorem trans (h₁ : AddedBy v fm₁ fm₂) (h₂ : AddedBy v fm₂ fm₃) : AddedBy v fm₁ fm₃ where
  keep fn n h := by
    obtain ⟨extra₁, h₁'⟩ := h₁.keep fn n h
    obtain ⟨extra₂, h₂'⟩ := h₂.keep fn _ h₁'
    exact ⟨extra₁ ++ extra₂, by simpa using h₂'⟩
  fresh fn n h h' := by
    cases hmid : fm₂.nodes fn with
    | none => exact h₂.fresh fn n h hmid
    | some m =>
        obtain ⟨extra, hkeep⟩ := h₂.keep fn m hmid
        rw [h, Option.some.injEq] at hkeep
        rw [hkeep]
        exact h₁.fresh fn m hmid h'

end AddedBy

/-! ## The two operations -/

theorem addedBy_insertNode (fm : FileMap) (fileNumber : UInt64) (node : MapNode)
    (hnew : node.children = []) (hfree : fm.nodes fileNumber = none) :
    AddedBy node.versionNum fm (fm.insertNode fileNumber node hnew) where
  keep fn n h := by
    have hne : fn ≠ fileNumber := by
      rintro rfl
      simp [hfree] at h
    exact ⟨[], by simp [insertNode, Function.update_of_ne hne, h]⟩
  fresh fn n h h' := by
    by_cases hfn : fn = fileNumber
    · subst hfn
      simp only [insertNode, Function.update_self, Option.some.injEq] at h
      rw [← h]
    · simp [insertNode, Function.update_of_ne hfn, h'] at h

theorem addedBy_appendChild (v : UInt64) (fm : FileMap) (parent child : UInt64)
    (hchild : (fm.nodes child).isSome) : AddedBy v fm (fm.appendChild parent child hchild) where
  keep fn n h := by
    by_cases hfn : fn = parent
    · subst hfn
      exact ⟨[child], by simp [appendChild, h]⟩
    · exact ⟨[], by simp [appendChild, hfn, h]⟩
  fresh fn n h h' := by
    simp only [appendChild] at h
    split at h <;> simp [h'] at h

theorem addedBy_withNode (fm : FileMap) (c : FileMetaPtr) (file : FileMetaData) (v : UInt64) :
    AddedBy v fm (fm.withNode c file v) := by
  unfold withNode
  split
  · exact AddedBy.refl v fm
  · exact addedBy_insertNode fm _ (MapNode.make c file v) rfl
      (Option.not_isSome_iff_eq_none.mp ‹_›)

theorem addedBy_AddNode (fm : FileMap) (f : FileMetaPtr) (file : FileMetaData) (v : UInt64) :
    AddedBy v fm (fm.AddNode f file v).2 := by
  dsimp only [AddNode]
  split
  · exact AddedBy.refl v fm
  · exact addedBy_insertNode fm _ (MapNode.make f file v) rfl
      (Option.not_isSome_iff_eq_none.mp ‹_›)

theorem addedBy_AddDerivedNode (fm : FileMap) (p : UInt64) (c : FileMetaPtr)
    (file : FileMetaData) (v : UInt64) : AddedBy v fm (fm.AddDerivedNode p c file v).2 := by
  unfold AddDerivedNode
  split
  · exact AddedBy.refl v fm
  · exact (addedBy_withNode fm c file v).trans
      (addedBy_appendChild v _ p _ (withNode_isSome fm c file v))

end FileMap

namespace VersionBuilder

open FileMap

/-- The file-map part of `SaveTo` only adds nodes and edges of its version. -/
theorem addedBy_updateFileMap (heap : FileMetaHeap) (newBlobs : List FileMetaPtr)
    (blobDependence : List (UInt64 × FileMetaPtr)) (v : UInt64) (fm : FileMap) :
    AddedBy v fm (updateFileMap heap newBlobs blobDependence v fm) := by
  -- each loop of `SaveTo` is a run of one of the two operations
  unfold updateFileMap
  exact AddedBy.trans
    (Fold.foldl_of_step (AddedBy.refl v) AddedBy.trans (fun fm f => addedBy_AddNode fm f _ v) _ _)
    (Fold.foldl_of_step (AddedBy.refl v) AddedBy.trans
      (fun fm (e : UInt64 × FileMetaPtr) => addedBy_AddDerivedNode fm e.1 e.2 _ v) _ _)

theorem addedBy_SaveTo (b : Builder) (numLevels : ℕ) (ucmp : Comparator)
    (vstorage : VersionStorageInfo) (v : UInt64) (fm : FileMap) :
    AddedBy v fm (SaveTo b numLevels ucmp vstorage v fm).2.2 :=
  addedBy_updateFileMap _ _ _ v fm

theorem addedBy_DoApplyAndSaveTo (heap : FileMetaHeap) (base : VersionStorageInfo)
    (edits : List VersionEdit) (ucmp : Comparator) (vstorage : VersionStorageInfo) (v : UInt64)
    (fm : FileMap) : AddedBy v fm (DoApplyAndSaveTo heap base edits ucmp vstorage v fm).2.2.2 :=
  addedBy_SaveTo _ _ ucmp vstorage v fm

end VersionBuilder

end HapDB
