import Traversals.Product.Nested
import Traversals.Product.Rows
import Traversals.Proofs.Comparison.Stages

/-!
# Products of comparable runs

A product holds traversals in use and sources that it goes on to start. Both
are listed, and a product fits its store if all of them do. What is started in
the course of a row joins the traversals, so the lists change while the row is
filled, but nothing that does not fit ever enters them.
-/

namespace Traversals

open Filter

variable {ω ι σ τ υ α β : Type}

namespace Node

/-- The traversals in use, from the root down. -/
def traversals : Node σ τ α → List τ
  | .leaf traversal => [traversal]
  | .branch head _ none _ _ => [head]
  | .branch head _ (some tail) _ _ => head :: tail.traversals

/-- The sources that may be started again. -/
def sources : Node σ τ α → List σ
  | .leaf _ => []
  | .branch _ _ none below rest => below :: rest
  | .branch _ _ (some tail) below rest => below :: rest ++ tail.sources

end Node

namespace Nested

/-- The traversals in use, from the first source on. -/
def traversals : Nested σ τ α → List τ
  | .last traversal => [traversal]
  | .pair ⟨head, _, _, none, _⟩ => [head]
  | .pair ⟨head, _, _, some tail, _⟩ => head :: tail.traversals

/-- The sources that may be started again. -/
def sources : Nested σ τ α → List σ
  | .last _ => []
  | .pair ⟨_, _, source, none, _⟩ => source.1 :: source.2
  | .pair ⟨_, _, source, some tail, _⟩ => source.1 :: source.2 ++ tail.sources

end Nested

namespace Comparison

variable {comparison : Comparison ω} {budgets : Filter ι} {Fits : τ → ω → Prop}
  {SourceFits : σ → ω → Prop} {start : Start ω σ τ} {pull : Pull ω τ α}
  {pulled : ι → Pull ω τ α} {loops : ι → ℕ}

section Rows

abbrev NodeFits (SourceFits : σ → ω → Prop) (Fits : τ → ω → Prop) (node : Node σ τ α)
    (store : ω) : Prop :=
  AllFit SourceFits node.sources store ∧ AllFit Fits node.traversals store

lemma Lasting.node (lasting : ∀ traversal, comparison.Lasting (Fits traversal))
    (lastingSource : ∀ source, comparison.Lasting (SourceFits source)) (node : Node σ τ α) :
    comparison.Lasting (NodeFits SourceFits Fits node) :=
  (Lasting.forall lastingSource).and (Lasting.forall lasting)

lemma nodeFits_leaf {traversal : τ} {store : ω} :
    NodeFits SourceFits Fits (.leaf traversal : Node σ τ α) store ↔ Fits traversal store := by
  constructor
  · rintro ⟨-, traversals⟩
    exact traversals traversal List.mem_cons_self
  · intro fits
    exact ⟨List.forall_mem_nil _, List.forall_mem_singleton.mpr fits⟩

/-- A branch without a sub-product fits by its own traversal and sources. -/
lemma nodeFits_above {head : τ} {current : Option α} {below : σ} {rest : List σ} {store : ω} :
    NodeFits SourceFits Fits (.branch head current none below rest) store ↔
      Fits head store ∧ AllFit SourceFits (below :: rest) store := by
  constructor
  · rintro ⟨sources, traversals⟩
    exact ⟨traversals head List.mem_cons_self, sources⟩
  · rintro ⟨traversal, sources⟩
    exact ⟨sources, List.forall_mem_singleton.mpr traversal⟩

lemma nodeFits_branch {head : τ} {current : Option α} {tail : Node σ τ α} {below : σ}
    {rest : List σ} {store : ω} :
    NodeFits SourceFits Fits (.branch head current (some tail) below rest) store ↔
      (Fits head store ∧ AllFit SourceFits (below :: rest) store) ∧
        NodeFits SourceFits Fits tail store := by
  constructor
  · rintro ⟨sources, traversals⟩
    obtain ⟨own, inner⟩ := List.forall_mem_append.mp sources
    obtain ⟨head_fits, tail_fits⟩ := List.forall_mem_cons.mp traversals
    exact ⟨⟨head_fits, own⟩, inner, tail_fits⟩
  · rintro ⟨⟨head_fits, own⟩, inner, tail_fits⟩
    exact ⟨List.forall_mem_append.mpr ⟨own, inner⟩, List.forall_mem_cons.mpr ⟨head_fits, tail_fits⟩⟩

lemma Starts.node (starts : Starts comparison budgets SourceFits Fits start)
    (lastingSource : ∀ source, comparison.Lasting (SourceFits source)) (source : σ)
    (others : List σ) :
    comparison.Agrees budgets (AllFit SourceFits (source :: others))
      (Node.start start source others : Run ω (Node σ τ α))
      (fun _ => Node.start start source others) (NodeFits SourceFits Fits) := by
  have hothers : comparison.Lasting (AllFit SourceFits others) := Lasting.forall lastingSource
  refine (((starts source).keeping hothers).mono
    (fun _ fits => List.forall_mem_cons.mp fits) fun _ _ h => h).bind fun head => ?_
  cases others with
  | nil => exact .pure fun _ fits => nodeFits_leaf.mpr fits.1
  | cons below rest => exact .pure fun _ fits => nodeFits_above.mpr fits

/-- A level without a row below it takes its next element and starts over. -/
lemma Alike.fillAbove (alike : comparison.Alike budgets Fits pull pulled)
    (starts : Starts comparison budgets SourceFits Fits start)
    (lasting : ∀ traversal, comparison.Lasting (Fits traversal))
    (lastingSource : ∀ source, comparison.Lasting (SourceFits source))
    {limit : ℕ} {left : ι → ℕ}
    (fill : ∀ (row : List α) (node : Node σ τ α),
      comparison.Agrees budgets (NodeFits SourceFits Fits node)
        (Node.fill start pull limit row node)
        (fun budget => Node.fill start (pulled budget) (left budget) row node)
        fun result => NodeFits SourceFits Fits result.2)
    (row : List α) (head : τ) (below : σ) (rest : List σ) :
    comparison.Agrees budgets
      (fun store => Fits head store ∧ AllFit SourceFits (below :: rest) store)
      (Node.fill start pull (limit + 1) row (.branch head none none below rest))
      (fun budget => Node.fill start (pulled budget) (left budget + 1) row
        (.branch head none none below rest))
      fun result => NodeFits SourceFits Fits result.2 := by
  have hsources : comparison.Lasting (AllFit SourceFits (below :: rest)) :=
    Lasting.forall lastingSource
  refine ((alike head).keeping hsources).bind ?_
  rintro ⟨_ | x, head'⟩
  · exact .pure fun _ fits => nodeFits_above.mpr fits
  · refine (((starts.node lastingSource below rest).keeping ((lasting head').and hsources)).mono
      (fun _ fits => ⟨fits.2, fits⟩) fun _ _ h => h).bind fun tail => ?_
    exact (fill row (.branch head' (some x) (some tail) below rest)).mono
      (fun _ fits => nodeFits_branch.mpr fits.symm) fun _ _ h => h

/-- The levels above a sub-product keep while it is filled; a level that
carries starts its sub-product again. -/
theorem Alike.fill (alike : comparison.Alike budgets Fits pull pulled)
    (starts : Starts comparison budgets SourceFits Fits start)
    (lasting : ∀ traversal, comparison.Lasting (Fits traversal))
    (lastingSource : ∀ source, comparison.Lasting (SourceFits source))
    (large : Tendsto loops budgets atTop) (limit : ℕ) (row : List α) (node : Node σ τ α) :
    comparison.Agrees budgets (NodeFits SourceFits Fits node)
      (Node.fill start pull limit row node)
      (fun budget => Node.fill start (pulled budget) (loops budget) row node)
      fun result => NodeFits SourceFits Fits result.2 := by
  induction limit generalizing loops row node with
  | zero => exact .outOfBudget
  | succ limit ih =>
    have above := alike.fillAbove starts lasting lastingSource
      (fun row node => ih (tendsto_pred large) row node) row
    refine Agrees.eventually (fun budget => Node.fill start (pulled budget)
      (loops budget - 1 + 1) row node) ?_ ?_
    · match node with
      | .leaf traversal =>
        refine ((alike traversal).mono (fun _ fits => nodeFits_leaf.mp fits)
          fun _ _ h => h).bind ?_
        rintro ⟨_ | x, traversal'⟩
        · exact .pure fun _ fits => nodeFits_leaf.mpr fits
        · exact .pure fun _ fits => nodeFits_leaf.mpr fits
      | .branch head (some x) (some tail) below rest =>
        have hsources : comparison.Lasting (AllFit SourceFits (below :: rest)) :=
          Lasting.forall lastingSource
        refine (((ih (tendsto_pred large) (row ++ [x]) tail).keeping
          ((lasting head).and hsources)).mono (fun _ fits => (nodeFits_branch.mp fits).symm)
          fun _ _ h => h).bind ?_
        rintro ⟨⟨_ | _, extended⟩, tail'⟩
        · exact (ih (tendsto_pred large) (extended.take row.length)
            (.branch head none none below rest)).mono
            (fun _ fits => nodeFits_above.mpr fits.2) fun _ _ h => h
        · exact .pure fun _ fits => nodeFits_branch.mpr fits.symm
      | .branch head (some x) none below rest =>
        exact (above head below rest).mono (fun _ fits => nodeFits_above.mp fits) fun _ _ h => h
      | .branch head none none below rest =>
        exact (above head below rest).mono (fun _ fits => nodeFits_above.mp fits) fun _ _ h => h
      | .branch head none (some tail) below rest =>
        exact (above head below rest).mono (fun _ fits => (nodeFits_branch.mp fits).1)
          fun _ _ h => h
    · filter_upwards [eventually_succ large] with budget h
      rw [← h]

lemma Alike.primeOne (alike : comparison.Alike budgets Fits pull pulled)
    (starts : Starts comparison budgets SourceFits Fits start) (source : σ) :
    comparison.Agrees budgets (SourceFits source) (Node.primeOne start pull source)
      (fun budget => Node.primeOne start (pulled budget) source)
      fun result store => ∀ primed, result = some primed → Fits primed.1 store := by
  refine (starts source).bind fun traversal => (alike traversal).bind ?_
  rintro ⟨_ | x, traversal'⟩
  · exact .pure fun _ _ primed h => by cases h
  · refine .pure fun _ fits primed h => ?_
    obtain rfl := Option.some.inj h
    exact fits

lemma Alike.primeAll (alike : comparison.Alike budgets Fits pull pulled)
    (starts : Starts comparison budgets SourceFits Fits start)
    (lasting : ∀ traversal, comparison.Lasting (Fits traversal))
    (lastingSource : ∀ source, comparison.Lasting (SourceFits source)) (components : List σ) :
    comparison.Agrees budgets (AllFit SourceFits components)
      (Node.primeAll start pull components)
      (fun budget => Node.primeAll start (pulled budget) components)
      fun result store => ∀ primed, result = some primed →
        AllFit Fits (primed.map (·.1)) store := by
  induction components with
  | nil =>
    refine .pure fun _ _ primed h => ?_
    obtain rfl := Option.some.inj h
    exact List.forall_mem_nil _
  | cons source rest ih =>
    have hrest : comparison.Lasting (AllFit SourceFits rest) := Lasting.forall lastingSource
    refine (((alike.primeOne starts source).keeping hrest).mono
      (fun _ fits => List.forall_mem_cons.mp fits) fun _ _ h => h).bind ?_
    rintro (_ | first)
    · exact .pure fun _ _ primed h => by cases h
    · refine ((ih.keeping (lasting first.1)).mono
        (fun _ fits => ⟨fits.2, fits.1 first rfl⟩) fun _ _ h => h).bind ?_
      rintro (_ | others)
      · exact .pure fun _ _ primed h => by cases h
      · refine .pure fun _ fits primed h => ?_
        obtain rfl := Option.some.inj h
        exact List.forall_mem_cons.mpr ⟨fits.2, fits.1 others rfl⟩

/-- A tree of traversals that fit, over sources that fit, fits. -/
lemma nodeFits_assemble {head : τ × α} {others : List (σ × τ × α)} {store : ω}
    (head_fits : Fits head.1 store) (fits : AllFit Fits (others.map (·.2.1)) store)
    (sources_fit : AllFit SourceFits (others.map (·.1)) store) :
    NodeFits SourceFits Fits (Node.assemble head others) store := by
  induction others generalizing head with
  | nil => exact nodeFits_leaf.mpr head_fits
  | cons second rest ih =>
    obtain ⟨second_fits, rest_fit⟩ := List.forall_mem_cons.mp fits
    exact nodeFits_branch.mpr ⟨⟨head_fits, sources_fit⟩,
      ih second_fits rest_fit (List.forall_mem_cons.mp sources_fit).2⟩

lemma Alike.prime (alike : comparison.Alike budgets Fits pull pulled)
    (starts : Starts comparison budgets SourceFits Fits start)
    (lasting : ∀ traversal, comparison.Lasting (Fits traversal))
    (lastingSource : ∀ source, comparison.Lasting (SourceFits source)) (source : σ)
    (others : List σ) :
    comparison.Agrees budgets (AllFit SourceFits (source :: others))
      (Node.prime start pull source others)
      (fun budget => Node.prime start (pulled budget) source others)
      fun result store => ∀ primed, result = some primed →
        NodeFits SourceFits Fits primed.1 store := by
  have hothers : comparison.Lasting (AllFit SourceFits others) := Lasting.forall lastingSource
  refine (((alike.primeAll starts lasting lastingSource others).keeping
    (hothers.and (lastingSource source))).mono
    (fun _ fits => ⟨(List.forall_mem_cons.mp fits).2, (List.forall_mem_cons.mp fits).symm⟩)
    fun _ _ h => h).bind ?_
  rintro (_ | primed)
  · exact .pure fun _ _ result h => by cases h
  · have hprimed : comparison.Lasting (AllFit Fits (primed.map (·.1))) := Lasting.forall lasting
    refine (((alike.primeOne starts source).keeping (hprimed.and hothers)).mono
      (fun _ fits => ⟨fits.2.2, fits.1 primed rfl, fits.2.1⟩) fun _ _ h => h).bind ?_
    rintro (_ | head)
    · exact .pure fun _ _ result h => by cases h
    · refine .pure fun store fits result h => ?_
      obtain rfl := Option.some.inj h
      obtain ⟨head_fits, primed_fit, others_fit⟩ := fits
      refine nodeFits_assemble (head_fits head rfl) (fun traversal h => ?_) fun source h => ?_
      · obtain ⟨entry, hentry, rfl⟩ := List.mem_map.mp h
        exact primed_fit _ (List.mem_map_of_mem (List.of_mem_zip hentry).2)
      · obtain ⟨entry, hentry, rfl⟩ := List.mem_map.mp h
        exact others_fit _ (List.of_mem_zip hentry).1

abbrev ProductFits (SourceFits : σ → ω → Prop) (Fits : τ → ω → Prop)
    (product : CartesianProduct σ τ α) (store : ω) : Prop :=
  AllFit SourceFits product.sources store ∧
    ∀ root, product.root = some root → NodeFits SourceFits Fits root store

theorem Alike.product (alike : comparison.Alike budgets Fits pull pulled)
    (starts : Starts comparison budgets SourceFits Fits start)
    (lasting : ∀ traversal, comparison.Lasting (Fits traversal))
    (lastingSource : ∀ source, comparison.Lasting (SourceFits source))
    (large : Tendsto loops budgets atTop) (limit : ℕ) :
    comparison.Alike budgets (ProductFits SourceFits Fits)
      (CartesianProduct.next start pull limit : Pull ω (CartesianProduct σ τ α) (List α))
      fun budget => CartesianProduct.next start (pulled budget) (loops budget) := by
  rintro ⟨sources, root, phase⟩
  have hsources : comparison.Lasting (AllFit SourceFits sources) := Lasting.forall lastingSource
  have rooted : ∀ (root : Node σ τ α) store phase,
      AllFit SourceFits sources store → NodeFits SourceFits Fits root store →
        ProductFits SourceFits Fits ⟨sources, some root, phase⟩ store := by
    intro root store phase sources_fit root_fits
    refine ⟨sources_fit, fun node h => ?_⟩
    obtain rfl := Option.some.inj h
    exact root_fits
  cases phase with
  | exhausted => exact .pure fun _ fits => fits
  | fresh =>
    cases sources with
    | nil => exact .pure fun _ fits => fits
    | cons source others =>
      refine (((alike.prime starts lasting lastingSource source others).keeping
        (hsources.and (Lasting.forall fun root => Lasting.node lasting lastingSource root))).mono
        (fun _ fits => ⟨fits.1, fits⟩) fun _ _ h => h).bind ?_
      rintro (_ | ⟨root', row⟩)
      · exact .pure fun _ fits => fits.2
      · exact .pure fun store fits => rooted root' store _ fits.2.1 (fits.1 _ rfl)
  | running =>
    cases root with
    | none => exact .pure fun _ fits => fits
    | some root =>
      refine (((alike.fill starts lasting lastingSource large limit [] root).keeping
        hsources).mono (fun _ fits => ⟨fits.2 root rfl, fits.1⟩) fun _ _ h => h).bind ?_
      rintro ⟨⟨_ | _, row⟩, root'⟩
      · exact .pure fun _ fits => ⟨fits.2, fun node h => by cases h⟩
      · exact .pure fun store fits => rooted root' store _ fits.2 fits.1

end Rows

section Nested

variable {TailFits : υ → ω → Prop} {startTail : Start ω σ υ} {pullTail : Pull ω υ β}
  {pulledTail : ι → Pull ω υ β}

abbrev PairFits (SourceFits : σ → ω → Prop) (Fits : τ → ω → Prop) (TailFits : υ → ω → Prop)
    (product : PairProduct τ σ υ α) (store : ω) : Prop :=
  (Fits product.head store ∧ SourceFits product.source store) ∧
    ∀ tail, product.tail = some tail → TailFits tail store

lemma pairFits_some {product : PairProduct τ σ υ α} {tail : υ} {store : ω}
    (fits : Fits product.head store ∧ SourceFits product.source store)
    (tail_eq : product.tail = some tail) (tail_fits : TailFits tail store) :
    PairFits SourceFits Fits TailFits product store := by
  refine ⟨fits, fun other h => ?_⟩
  rw [tail_eq] at h
  obtain rfl := Option.some.inj h
  exact tail_fits

lemma Alike.pairFirst (alike : comparison.Alike budgets Fits pull pulled)
    (lasting : ∀ traversal, comparison.Lasting (Fits traversal))
    (starts : Starts comparison budgets SourceFits TailFits startTail)
    (lastingSource : ∀ source, comparison.Lasting (SourceFits source))
    (alikeTail : comparison.Alike budgets TailFits pullTail pulledTail)
    (lastingTail : ∀ tail, comparison.Lasting (TailFits tail)) :
    comparison.Alike budgets (PairFits SourceFits Fits TailFits)
      (PairProduct.first pull startTail pullTail)
      fun budget => PairProduct.first (pulled budget) startTail (pulledTail budget) := by
  rintro ⟨head, current, source, tail, phase⟩
  have htail : comparison.Lasting fun store => ∀ t, tail = some t → TailFits t store :=
    Lasting.forall lastingTail
  refine (((starts source).keeping (((lasting head).and (lastingSource source)).and htail)).mono
    (fun _ fits => ⟨fits.1.2, fits⟩) fun _ _ h => h).bind fun tail' => ?_
  refine ((alikeTail tail').keeping (((lasting head).and (lastingSource source)).and htail)).bind ?_
  rintro ⟨_ | right, tail''⟩
  · exact .pure fun _ fits => fits.2
  · refine (((alike head).keeping ((lastingTail tail'').and
      ((lastingSource source).and htail))).mono
      (fun _ fits => ⟨fits.2.1.1, fits.1, fits.2.1.2, fits.2.2⟩) fun _ _ h => h).bind ?_
    rintro ⟨_ | left, head'⟩
    · exact .pure fun _ fits => ⟨⟨fits.1, fits.2.2.1⟩, fits.2.2.2⟩
    · exact .pure fun _ fits => pairFits_some ⟨fits.1, fits.2.2.1⟩ rfl fits.2.1

lemma Alike.pairCurrent (lasting : ∀ traversal, comparison.Lasting (Fits traversal))
    (lastingSource : ∀ source, comparison.Lasting (SourceFits source))
    (alikeTail : comparison.Alike budgets TailFits pullTail pulledTail) :
    comparison.Alike budgets (PairFits (α := α) SourceFits Fits TailFits)
      (PairProduct.pullCurrent pullTail)
      fun budget => PairProduct.pullCurrent (pulledTail budget) := by
  rintro ⟨head, _ | left, source, _ | tail, phase⟩
  · exact .pure fun _ fits => fits
  · exact .pure fun _ fits => fits
  · exact .pure fun _ fits => fits
  · refine (((alikeTail tail).keeping ((lasting head).and (lastingSource source))).mono
      (fun _ fits => ⟨fits.2 tail rfl, fits.1⟩) fun _ _ h => h).bind ?_
    rintro ⟨right, tail'⟩
    exact .pure fun _ fits => pairFits_some fits.2 rfl fits.1

theorem Alike.pairLater (alike : comparison.Alike budgets Fits pull pulled)
    (lasting : ∀ traversal, comparison.Lasting (Fits traversal))
    (starts : Starts comparison budgets SourceFits TailFits startTail)
    (lastingSource : ∀ source, comparison.Lasting (SourceFits source))
    (alikeTail : comparison.Alike budgets TailFits pullTail pulledTail)
    (large : Tendsto loops budgets atTop) (limit : ℕ) :
    comparison.Alike budgets (PairFits SourceFits Fits TailFits)
      (PairProduct.later pull startTail pullTail limit)
      fun budget =>
        PairProduct.later (pulled budget) startTail (pulledTail budget) (loops budget) := by
  induction limit generalizing loops with
  | zero => exact fun product => .outOfBudget
  | succ limit ih =>
    intro product
    refine Agrees.eventually (fun budget => PairProduct.later (pulled budget) startTail
      (pulledTail budget) (loops budget - 1 + 1) product) ?_ ?_
    · refine (Alike.pairCurrent lasting lastingSource alikeTail product).bind ?_
      rintro ⟨_ | row, head, current, source, tail, phase⟩
      · refine (((alike head).keeping (lastingSource source)).mono
          (fun _ fits => fits.1) fun _ _ h => h).bind ?_
        rintro ⟨_ | left, head'⟩
        · exact .pure fun _ fits => ⟨fits, fun tail h => by cases h⟩
        · refine (((starts source).keeping ((lasting head').and (lastingSource source))).mono
            (fun _ fits => ⟨fits.2, fits⟩) fun _ _ h => h).bind fun tail' => ?_
          exact (ih (tendsto_pred large) ⟨head', some left, source, some tail', phase⟩).mono
            (fun _ fits => pairFits_some fits.2 rfl fits.1) fun _ _ h => h
      · exact .pure fun _ fits => fits
    · filter_upwards [eventually_succ large] with budget h
      rw [← h]

theorem Alike.pair (alike : comparison.Alike budgets Fits pull pulled)
    (lasting : ∀ traversal, comparison.Lasting (Fits traversal))
    (starts : Starts comparison budgets SourceFits TailFits startTail)
    (lastingSource : ∀ source, comparison.Lasting (SourceFits source))
    (alikeTail : comparison.Alike budgets TailFits pullTail pulledTail)
    (lastingTail : ∀ tail, comparison.Lasting (TailFits tail))
    (large : Tendsto loops budgets atTop) (limit : ℕ) :
    comparison.Alike budgets (PairFits SourceFits Fits TailFits)
      (PairProduct.next pull startTail pullTail limit)
      fun budget =>
        PairProduct.next (pulled budget) startTail (pulledTail budget) (loops budget) := by
  rintro ⟨head, current, source, tail, phase⟩
  cases phase with
  | exhausted => exact .pure fun _ fits => fits
  | fresh => exact alike.pairFirst lasting starts lastingSource alikeTail lastingTail _
  | running => exact alike.pairLater lasting starts lastingSource alikeTail large limit _

abbrev NestedFits (SourceFits : σ → ω → Prop) (Fits : τ → ω → Prop) (product : Nested σ τ α)
    (store : ω) : Prop :=
  AllFit SourceFits product.sources store ∧ AllFit Fits product.traversals store

lemma nestedFits_last {traversal : τ} {store : ω} :
    NestedFits SourceFits Fits (.last traversal : Nested σ τ α) store ↔ Fits traversal store := by
  constructor
  · rintro ⟨-, traversals⟩
    exact traversals traversal List.mem_cons_self
  · intro fits
    exact ⟨List.forall_mem_nil _, List.forall_mem_singleton.mpr fits⟩

lemma nestedFits_pair {product : PairProduct τ (σ × List σ) (Nested σ τ α) α} {store : ω} :
    NestedFits SourceFits Fits (.pair product) store ↔
      PairFits (fun source => AllFit SourceFits (source.1 :: source.2)) Fits
        (NestedFits SourceFits Fits) product store := by
  obtain ⟨head, current, source, _ | tail, phase⟩ := product
  · constructor
    · rintro ⟨sources, traversals⟩
      exact ⟨⟨traversals head List.mem_cons_self, sources⟩, fun tail h => by cases h⟩
    · rintro ⟨⟨head_fits, sources⟩, -⟩
      exact ⟨sources, List.forall_mem_singleton.mpr head_fits⟩
  · constructor
    · rintro ⟨sources, traversals⟩
      obtain ⟨own, inner⟩ := List.forall_mem_append.mp sources
      obtain ⟨head_fits, tail_fits⟩ := List.forall_mem_cons.mp traversals
      exact pairFits_some ⟨head_fits, own⟩ rfl ⟨inner, tail_fits⟩
    · rintro ⟨⟨head_fits, own⟩, tail_fits⟩
      obtain ⟨inner, traversals⟩ := tail_fits tail rfl
      exact ⟨List.forall_mem_append.mpr ⟨own, inner⟩,
        List.forall_mem_cons.mpr ⟨head_fits, traversals⟩⟩

lemma Starts.nested (starts : Starts comparison budgets SourceFits Fits start)
    (lastingSource : ∀ source, comparison.Lasting (SourceFits source)) :
    Starts comparison budgets (fun source : σ × List σ => AllFit SourceFits (source.1 :: source.2))
      (NestedFits SourceFits Fits) (Nested.start start : Start ω (σ × List σ) (Nested σ τ α)) := by
  rintro ⟨source, others⟩
  have hothers : comparison.Lasting (AllFit SourceFits others) := Lasting.forall lastingSource
  refine (((starts source).keeping hothers).mono
    (fun _ fits => List.forall_mem_cons.mp fits) fun _ _ h => h).bind fun head => ?_
  cases others with
  | nil => exact .pure fun _ fits => nestedFits_last.mpr fits.1
  | cons second rest =>
    exact .pure fun _ fits => nestedFits_pair.mpr ⟨fits, fun tail h => by cases h⟩

/-- A nested product is a product of two whose tail is nested less deeply. -/
theorem Alike.nested (alike : comparison.Alike budgets Fits pull pulled)
    (starts : Starts comparison budgets SourceFits Fits start)
    (lasting : ∀ traversal, comparison.Lasting (Fits traversal))
    (lastingSource : ∀ source, comparison.Lasting (SourceFits source))
    (large : Tendsto loops budgets atTop) (limit : ℕ) :
    comparison.Alike budgets (NestedFits SourceFits Fits)
      (Nested.next start pull limit : Pull ω (Nested σ τ α) (List α))
      fun budget => Nested.next start (pulled budget) (loops budget) := by
  have lastingTail : ∀ tail : Nested σ τ α,
      comparison.Lasting (NestedFits SourceFits Fits tail) := fun tail =>
    (Lasting.forall lastingSource).and (Lasting.forall lasting)
  induction limit generalizing loops with
  | zero => exact fun product => .outOfBudget
  | succ limit ih =>
    intro product
    refine Agrees.eventually (fun budget => Nested.next start (pulled budget)
      (loops budget - 1 + 1) product) ?_ ?_
    · cases product with
      | last traversal =>
        refine ((alike traversal).mono (fun _ fits => nestedFits_last.mp fits)
          fun _ _ h => h).bind ?_
        rintro ⟨element, traversal'⟩
        exact .pure fun _ fits => nestedFits_last.mpr fits
      | pair product =>
        refine ((alike.pair lasting (starts.nested lastingSource)
          (fun source => Lasting.forall lastingSource) (ih (tendsto_pred large)) lastingTail
          (tendsto_pred large) limit product).mono
          (fun _ fits => nestedFits_pair.mp fits) fun _ _ h => h).bind ?_
        rintro ⟨row, product'⟩
        exact .pure fun _ fits => nestedFits_pair.mpr fits
    · filter_upwards [eventually_succ large] with budget h
      rw [← h]

end Nested

end Comparison

end Traversals
