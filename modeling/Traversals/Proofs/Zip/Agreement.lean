import Traversals.Proofs.Hint.Bounds
import Traversals.Proofs.Product.Watched
import Traversals.Proofs.Zip.Rows
import Traversals.Script

/-!
# Zips of fixed width and zips of lists

The two kinds of zips build their rows and their hints in different ways. They
ask the same traversals in the same order all the same, and end together. Their
hints are the same where the traversals hint a lower bound that can be given:
the fold of a list starts from the greatest one, the minima of a fixed width
from none.
-/

namespace Traversals

variable {ω τ α : Type}

namespace Zip

/-- Of at least one traversal, both kinds take the least hint. -/
lemma hint_toZipAll {n : ℕ} {zip : Zip n τ} {hintOf : τ → SizeHint} (n_pos : 0 < n)
    (given : ∀ traversal ∈ zip.toList, (hintOf traversal).lower ≤ countCeiling) :
    zip.toZipAll.hint hintOf = zip.hint hintOf := by
  obtain ⟨traversals, _ | _⟩ := zip
  · have nonempty : traversals.toList.map hintOf ≠ [] := by
      rw [← List.length_pos_iff_ne_nil]
      simpa using n_pos
    exact SizeHint.foldl_uncountable_eq nonempty (List.forall_mem_map.mpr given)
  · rfl

end Zip

/-- Traversals numbered from the left, before anything is asked of them. -/
def Watched.lanes (traversals : List τ) : List (Watched τ) :=
  traversals.zipIdx.map fun (traversal, i) => ⟨i, 0, traversal⟩

/-- A zip of fixed width and the zip of the list of its traversals are the same
after any number of pulls, in what they have answered, in their traversals and
in what these have done to their store, and so are the journals of what was
asked and when. They hint the same as long as the hints of their traversals can
be given. -/
theorem fixed_zip_agrees (pull : Pull ω τ α) (hintOf : τ → SizeHint) (first second : τ)
    (others : List τ) (count : ℕ) (store : ω) :
    let lanes := Watched.lanes (first :: second :: others)
    (pulls (Zip.next (watchPull pull)) count (.ofList lanes false) (store, [])).map
        (fun run => ((run.1.1.map (Option.map Vector.toList), run.1.2.toZipAll), run.2)) =
      pulls (ZipAll.next (watchPull pull)) count (.ofList lanes) (store, []) ∧
    ∀ rows zip last,
      pulls (Zip.next (watchPull pull)) count (.ofList lanes false) (store, []) =
        some ((rows, zip), last) →
      (∀ lane ∈ zip.toList, (hintOf lane.traversal).lower ≤ countCeiling) →
      zip.hint (fun lane => hintOf lane.traversal) =
        zip.toZipAll.hint fun lane => hintOf lane.traversal := by
  intro lanes
  constructor
  · have hrun := congrFun (Zip.pulls_eq (watchPull pull) count (.ofList lanes false)) (store, [])
    rw [Run.map_apply, Zip.toZipAll_ofList] at hrun
    exact hrun
  · intro rows zip last _ given
    have width_pos : 0 < lanes.length := by simp [lanes, Watched.lanes]
    exact (Zip.hint_toZipAll width_pos given).symm

/-- A script that resumes beside one without end: on their first row the hint is
that of the shorter one, and the left one has been asked first. -/
theorem fixed_zip_agrees_resuming :
    let resuming : Script ℕ := .ofAnswers #[some 7, none, some 8] none
    let endless : Script ℕ := .ofFunction id none none
    let lanes := Watched.lanes [resuming, endless]
    ∃ rows zip journal,
      pulls (Zip.next (watchPull fun script => return script.next)) 1 (.ofList lanes false)
          ((), []) = some ((rows, zip), ((), journal)) ∧
      rows.map (Option.map Vector.toList) = [some [7, 0]] ∧
      journal = [.asked 1 0 true, .asked 0 0 true] ∧
      (∀ lane ∈ zip.toList, lane.traversal.currentHint.lower ≤ countCeiling) ∧
      zip.hint (fun lane => lane.traversal.currentHint) =
        zip.toZipAll.hint fun lane => lane.traversal.currentHint := by
  intro resuming endless lanes
  obtain ⟨-, hint_eq⟩ := fixed_zip_agrees (fun script => return script.next)
    Script.currentHint resuming endless [] 1 ()
  refine ⟨_, _, _, rfl, rfl, rfl, ?_, hint_eq _ _ _ rfl ?_⟩ <;> decide

end Traversals
