import Traversals.Zip.All
import Traversals.Zip.Fixed

/-!
# Rows of zips

A zip of fixed width pulls what a zip of a list pulls, in the same order, and
ends where it ends. A row is extended from its left end, so the induction is on
the traversals that have not been asked.
-/

namespace Traversals

variable {ω τ α : Type} {n : Nat}

namespace Zip

/-- A zip with the width forgotten. -/
def toZipAll (zip : Zip n τ) : ZipAll τ := ⟨zip.toList, zip.exhausted⟩

@[simp] theorem toZipAll_ofList (traversals : List τ) (exhausted : Bool) :
    (ofList traversals exhausted).toZipAll = ⟨traversals, exhausted⟩ := rfl

theorem extendRow_eq (pull : Pull ω τ α) (left : Nat) {i : Nat} (complete : i + left = n)
    (row : Vector α i) (traversals : Vector τ n) :
    (fun result => (result.1.map Vector.toList, result.2.toList)) <$>
        extendRow pull left i complete row traversals =
      (fun result => (result.1.map (row.toList ++ ·), traversals.toList.take i ++ result.2)) <$>
        ZipAll.pullRow pull (traversals.toList.drop i) := by
  induction left generalizing i traversals with
  | zero =>
    subst complete
    have hdrop : traversals.toList.drop i = [] := by simp
    have htake : traversals.toList.take i = traversals.toList := List.take_of_length_le (by simp)
    rw [hdrop]
    simp [extendRow, ZipAll.pullRow, htake]
  | succ left ih =>
    have inside : i < traversals.toList.length := by simp; omega
    rw [List.drop_eq_getElem_cons inside]
    funext store
    have hget : traversals.get ⟨i, by omega⟩ = traversals.toList[i] := by
      simp [Vector.get]
    simp only [extendRow, ZipAll.pullRow, Run.map_apply, Run.bind_apply, hget]
    cases pull traversals.toList[i] store with
    | none => rfl
    | some result =>
      obtain ⟨⟨_ | x, traversal⟩, store'⟩ := result
      · have hset : (traversals.set i traversal (by omega)).toList =
            traversals.toList.take i ++ traversal :: traversals.toList.drop (i + 1) := by
          rw [Vector.toList_set, List.set_eq_take_append_cons_drop, if_pos inside]
        simp [hset]
      · have hrest := congrFun (ih (i := i + 1) (by omega) (row.push x)
          (traversals.set i traversal (by omega))) store'
        simp only [Run.map_apply, Vector.toList_set, Vector.toList_push,
          List.drop_set_of_lt (Nat.lt_succ_self i)] at hrest
        simp only [Option.bind_some, hrest, Run.bind_apply]
        cases ZipAll.pullRow pull (traversals.toList.drop (i + 1)) store' with
        | none => rfl
        | some rest =>
          obtain ⟨⟨row', traversals'⟩, store''⟩ := rest
          have htake : (traversals.toList.set i traversal).take (i + 1) =
              traversals.toList.take i ++ [traversal] := by
            rw [List.take_succ_eq_append_getElem (by simpa using inside),
              List.take_set_of_le (Nat.le_refl i), List.getElem_set_self]
          cases row' <;> simp [htake]

theorem pullRow_eq (pull : Pull ω τ α) (traversals : Vector τ n) :
    (fun result => (result.1.map Vector.toList, result.2.toList)) <$> pullRow pull traversals =
      ZipAll.pullRow pull traversals.toList := by
  have h := extendRow_eq pull n (Nat.zero_add n) #v[] traversals
  simpa [pullRow] using h

/-- Widths apart, the two kinds of zips are the same. -/
theorem next_eq (pull : Pull ω τ α) (zip : Zip n τ) :
    (fun result => (result.1.map Vector.toList, result.2.toZipAll)) <$> next pull zip =
      ZipAll.next pull zip.toZipAll := by
  obtain ⟨traversals, exhausted⟩ := zip
  cases exhausted with
  | true => rfl
  | false =>
    have hrow := pullRow_eq pull traversals
    simp only [next, ZipAll.next, toZipAll, toList, ← hrow]
    simp [Functor.map_map]

/-- So are any number of their pulls. -/
theorem pulls_eq (pull : Pull ω τ α) (count : Nat) (zip : Zip n τ) :
    (fun result => (result.1.map (Option.map Vector.toList), result.2.toZipAll)) <$>
        pulls (next pull) count zip =
      pulls (ZipAll.next pull) count zip.toZipAll := by
  induction count generalizing zip with
  | zero => rfl
  | succ count ih =>
    simp only [pulls, ← next_eq, ← ih, map_bind, bind_map_left, map_pure, List.map_cons]

end Zip

end Traversals
