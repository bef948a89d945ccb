import Traversals.Proofs.Product.Balance
import Traversals.Proofs.Product.Frugal
import Traversals.Proofs.Product.Nested

/-!
# The work of a product

A tree and a nested product pull their sources in different orders, and both do
the least work for every row. Both are balanced and have one traversal of each
component in use, which is all that the counts depend on.
-/

namespace Traversals

open Stream' (Seq)
open RowMajor (rowCount rowTotal period IsAnswer)

variable {ω σ τ α : Type}

section InUse

/-- Behind an element that has been delivered there is less than before it. -/
lemma length'_drop_succ {X : Seq α} {k : ℕ} {x : α} (h : X.get? k = some x) :
    (X.drop (k + 1)).length' + 1 ≤ X.length' := by
  have hlt : ((k + 1 : ℕ) : ℕ∞) ≤ X.length' := by
    exact_mod_cast Order.add_one_le_of_lt (Seq.lt_length'_iff.mpr ⟨x, h⟩)
  calc (X.drop (k + 1)).length' + 1 ≤ X.length' - (k + 1 : ℕ) + (k + 1 : ℕ) := by
        rw [Seq.drop_length']
        gcongr
        exact_mod_cast Nat.le_add_left 1 k
    _ = X.length' := tsub_add_cancel_of_le hlt

variable {elements : σ → Seq α}

/-- On a row, each traversal of a nested product has delivered something. -/
lemma Nested.Standing.left_lt {components : List σ} {r : ℕ} {nested : Nested σ τ α}
    {used : List (τ × Seq α)} (standing : Nested.Standing elements components (r + 1) nested used)
    (inside : (r : ℕ∞) < rowCount (components.map elements)) :
    List.Forall₂ (fun X entry => entry.2.length' + 1 ≤ X.length') (components.map elements)
      used := by
  generalize hn : r + 1 = n at standing
  induction standing generalizing r with
  | last source n traversal =>
    obtain ⟨x, hx⟩ := RowMajor.lt_rowCount_single.mp inside
    rw [← hn]
    exact .cons (length'_drop_succ hx) .nil
  | fresh => cases hn
  | running position current inner ih =>
    obtain ⟨-, hbelow⟩ := RowMajor.ne_zero_of_cons (ne_bot_of_gt inside)
    exact .cons (length'_drop_succ current) (ih (RowMajor.mod_lt hbelow) rfl)

/-- And so has each traversal of a tree. -/
lemma Node.Standing.inUse {start : Start ω σ τ} {pull : Pull ω τ α} {elements : σ × ℕ → Seq α}
    {components : List (σ × ℕ)} {last first r : ℕ} {node : Node (σ × ℕ) (Watched τ) α}
    {ledger : Multiset (Watched τ × Seq α)}
    (standing : Node.Standing elements components r node ledger)
    (inside : (r : ℕ∞) < rowCount (components.map elements))
    (follows : (Tally.watched start pull).Follows last node first) :
    ∃ used : List (Watched τ × Seq α), used = ledger ∧
      InUse (components.map elements) first used := by
  induction standing generalizing first with
  | leaf source r traversal =>
    obtain ⟨x, hx⟩ := RowMajor.lt_rowCount_single.mp inside
    exact ⟨[_], rfl, ⟨follows.1, trivial⟩, .cons (length'_drop_succ hx) .nil⟩
  | branch position current inner ih =>
    obtain ⟨-, hbelow⟩ := RowMajor.ne_zero_of_cons (ne_bot_of_gt inside)
    obtain ⟨used, rfl, hnumbered, hleft⟩ := ih (RowMajor.mod_lt hbelow) follows.2
    exact ⟨_ :: used, rfl, ⟨follows.1.1, hnumbered⟩, .cons (length'_drop_succ current) hleft⟩

end InUse

namespace Replay

variable {start : Start ω σ τ} {pull : Pull ω τ α} {source : σ} {others : List σ}
  {elements : σ → Seq α}

/-- A watched product after `n` calls. It is known where a product stands on a
row and when it is over. -/
inductive Progress {π : Type} (replay : Replay start pull (source :: others) elements)
    (frame : Multiset (τ × Seq α)) (Fresh : π → ω × Journal → Prop)
    (Stands : ℕ → π → List (Watched τ × Seq α) → Prop) (Over : π → Prop) :
    ℕ → π → ω × Journal → Prop
  | fresh {product : π} {store : ω × Journal} (fresh : Fresh product store) :
      Progress replay frame Fresh Stands Over 0 product store
  | standing {r : ℕ} {product : π} {store : ω × Journal} {used : List (Watched τ × Seq α)}
      (inside : (r : ℕ∞) < rowTotal ((source :: others).map elements))
      (stands : Stands r product used)
      (inUse : InUse ((source :: others).map elements) 0 used)
      (holds : (replay.watched frame).Holds store used)
      (balanced : store.2.Balanced others.length (r + 1)) :
      Progress replay frame Fresh Stands Over (r + 1) product store
  | finished {r rows : ℕ} {product : π} {store : ω × Journal}
      (outside : ¬ (r : ℕ∞) < rowTotal ((source :: others).map elements))
      (finished : Over product)
      (holds : (replay.watched frame).Holds store 0)
      (balanced : store.2.Balanced others.length rows) :
      Progress replay frame Fresh Stands Over (r + 1) product store

/-- All the while it does no more than it has to. -/
lemma Progress.frugal {π : Type} {replay : Replay start pull (source :: others) elements}
    {frame : Multiset (τ × Seq α)} {Fresh : π → ω × Journal → Prop}
    {Stands : ℕ → π → List (Watched τ × Seq α) → Prop} {Over : π → Prop} {n : ℕ} {product : π}
    {store : ω × Journal} (progress : replay.Progress frame Fresh Stands Over n product store) :
    Frugal ((source :: others).map elements) n store.2 := by
  have hlast : ((source :: others).map elements).length = others.length + 1 := by simp
  cases progress with
  | fresh => exact ⟨fun r hr => by omega, fun hlt => absurd hlt (by simp)⟩
  | standing inside _ inUse holds balanced =>
    exact balanced.frugal_row hlast inUse holds.2 inside
  | finished outside _ holds balanced => exact balanced.frugal_drained hlast holds.2 outside

/-- Numbering the sources leaves their elements as they are. -/
lemma map_zipIdx_elements (elements : σ → Seq α) (sources : List σ) (i : ℕ) :
    (sources.zipIdx i).map (fun source => elements source.1) = sources.map elements := by
  have hfst := congrArg (List.map elements) (List.zipIdx_map_fst i sources)
  rwa [List.map_map] at hfst

section Nested

/-- The progress of a nested product. -/
abbrev NestedProgress (replay : Replay start pull (source :: others) elements)
    (frame : Multiset (τ × Seq α)) :
    ℕ → Nested (σ × ℕ) (Watched τ) α → ω × Journal → Prop :=
  replay.Progress frame
    (fun nested store => ∃ used : List (Watched τ × Seq α),
      Nested.Standing (fun source => elements source.1) ((source, 0) :: others.zipIdx 1) 0 nested
        used ∧
      (replay.watched frame).Holds store used ∧
      Numbered (fun entry => entry.1.component) 0 used ∧ store.2.Balanced others.length 0)
    (fun r nested used =>
      Nested.Standing (fun source => elements source.1) ((source, 0) :: others.zipIdx 1) (r + 1)
        nested used)
    Nested.Over

/-- A nested product that stands before row `n` gives it and goes on. -/
lemma nested_progress (replay : Replay start pull (source :: others) elements)
    (nonempty : rowCount ((source :: others).map elements) ≠ 0) (several : others ≠ [])
    {frame : Multiset (τ × Seq α)} {budget : ℕ} (enough : others.length + 1 < budget) {n : ℕ}
    {nested : Nested (σ × ℕ) (Watched τ) α} {store : ω × Journal}
    {used : List (Watched τ × Seq α)}
    (standing : Nested.Standing (fun source => elements source.1) ((source, 0) :: others.zipIdx 1) n
      nested used)
    (holds : (replay.watched frame).Holds store used)
    (numbered : Numbered (fun entry => entry.1.component) 0 used)
    (balanced : store.2.Balanced others.length n) :
    ∃ answer nested' store', Nested.next (watchStart start) (watchPull pull) budget nested store =
        some ((answer, nested'), store') ∧
      IsAnswer ((source :: others).map elements) n answer ∧
      replay.NestedProgress frame (n + 1) nested' store' := by
  have hmap : ((source, 0) :: others.zipIdx 1).map (fun source => elements source.1) =
      (source :: others).map elements := map_zipIdx_elements elements (source :: others) 0
  have known : (source, 0) :: others.zipIdx 1 ⊆ (source :: others).zipIdx := List.Subset.refl _
  have htotal : rowTotal ((source :: others).map elements) =
      rowCount ((source :: others).map elements) := RowMajor.rowTotal_cons _ _
  have hnumbered := (numbered_zipIdx (source :: others) 0).2
  have holds' : (replay.watched frame).Holds store (used + 0) := by simpa using holds
  have hgives := (replay.watched frame).steady known (hmap ▸ nonempty)
    (show (others.zipIdx 1).length + 1 < budget by simpa) standing holds'
  generalize hresult : Nested.next (watchStart start) (watchPull pull) budget nested store = result
    at hgives
  cases hgives with
  | @row entries nested' store' used' inside entries_eq standing' holds' tallied =>
    obtain ⟨hused, hadvances⟩ := tallied (Tally.watched start pull) 0 others.length (by simp)
      hnumbered numbered
    rw [hmap] at inside entries_eq
    rw [← htotal] at inside
    refine ⟨some entries, nested', store', rfl, .row inside entries_eq,
      .standing inside standing' ⟨hused, ?_⟩ (by simpa using holds') (balanced.advances hadvances)⟩
    rw [← hmap]
    exact standing'.left_lt (by rwa [hmap, ← htotal])
  | @spent nested' store' outside finished holds' tallied =>
    obtain ⟨-, hadvances⟩ := tallied (Tally.watched start pull) 0 others.length (by simp)
      hnumbered numbered
    rw [hmap, ← htotal] at outside
    exact ⟨none, nested', store', rfl, .none outside,
      .finished outside (finished (by simpa using several)) holds' (balanced.advances hadvances)⟩

lemma NestedProgress.next {replay : Replay start pull (source :: others) elements}
    (nonempty : rowCount ((source :: others).map elements) ≠ 0) (several : others ≠ [])
    {frame : Multiset (τ × Seq α)} {budget : ℕ} (enough : others.length + 1 < budget) {n : ℕ}
    {nested : Nested (σ × ℕ) (Watched τ) α} {store : ω × Journal}
    (progress : replay.NestedProgress frame n nested store) :
    ∃ answer nested' store', Nested.next (watchStart start) (watchPull pull) budget nested store =
        some ((answer, nested'), store') ∧
      IsAnswer ((source :: others).map elements) n answer ∧
      replay.NestedProgress frame (n + 1) nested' store' := by
  cases progress with
  | fresh fresh =>
    obtain ⟨used, standing, holds, numbered, balanced⟩ := fresh
    exact replay.nested_progress nonempty several enough standing holds numbered balanced
  | standing inside standing inUse holds balanced =>
    exact replay.nested_progress nonempty several enough standing holds inUse.1 balanced
  | finished outside finished holds balanced =>
    obtain ⟨budget, rfl⟩ : ∃ b, budget = b + 1 := ⟨budget - 1, by omega⟩
    have outside' := RowMajor.outside_succ outside
    exact ⟨none, nested, store, Nested.next_over finished, .none outside',
      .finished outside' finished holds balanced⟩

/-- Its first source is started with it. -/
lemma nested_start (replay : Replay start pull (source :: others) elements)
    {frame : Multiset (τ × Seq α)} {store : ω × Journal} (hjournal : store.2 = [])
    (holds : (replay.watched frame).Holds store 0) :
    ∃ nested store', Nested.start (watchStart start) ((source, 0), others.zipIdx 1) store =
        some (nested, store') ∧ replay.NestedProgress frame 0 nested store' := by
  have hmem : (source, 0) ∈ (source :: others).zipIdx := List.mem_cons_self
  obtain ⟨head, store', hstart, holds'⟩ := (replay.watched frame).starts hmem holds
  obtain ⟨hcomponent, hstarted⟩ := (Tally.watched start pull).start_eq hstart
  rw [← Seq.drop_zero (s := elements source)] at holds'
  refine ⟨_, store', Nested.start_eq hstart _, .fresh ⟨_, .start _ _ _ head, holds',
    ⟨hcomponent, trivial⟩, ?_⟩⟩
  have hnotes : store'.2 = [.started 0] := hstarted.trans (congrArg _ hjournal)
  rw [hnotes]
  constructor <;> simp [Journal.started, Journal.delivered, Note.delivers]

end Nested

section Tree

/-- The progress of a product of a list. -/
abbrev TreeProgress (replay : Replay start pull (source :: others) elements)
    (frame : Multiset (τ × Seq α)) :
    ℕ → CartesianProduct (σ × ℕ) (Watched τ) α → ω × Journal → Prop :=
  replay.Progress frame
    (fun product store => product = .ofSources ((source, 0) :: others.zipIdx 1) ∧
      (replay.watched frame).Holds store 0 ∧ store.2 = [])
    (fun r product used => ∃ root,
      product = ⟨(source, 0) :: others.zipIdx 1, some root, .running⟩ ∧
      Node.Standing (fun source => elements source.1) ((source, 0) :: others.zipIdx 1) r root used ∧
      (Tally.watched start pull).Follows others.length root 0)
    (fun product => product.phase = .exhausted)

/-- The first row balances an empty journal. -/
lemma balanced_of_opens {before after : Journal} {others : List σ} (hbefore : before = [])
    (opens : Journal.Opens (((source, 0) :: others.zipIdx 1).map Prod.snd) before after) :
    after.Balanced others.length 1 := by
  subst hbefore
  have hcount (c : ℕ) (hc : c ≤ others.length) :
      (((source, 0) :: others.zipIdx 1).map Prod.snd).count c = 1 := by
    have numbered : Numbered Prod.snd 0 ((source, 0) :: others.zipIdx 1) :=
      numbered_zipIdx (source :: others) 0
    rw [numbered.count_map, if_pos]
    simp only [List.length_cons, List.length_zipIdx]
    omega
  have hopens (c : ℕ) (hc : c ≤ others.length) : after.started c = 1 ∧ after.delivered c = 1 := by
    have h := opens c
    rw [hcount c hc] at h
    simpa [Journal.started, Journal.delivered] using h
  refine ⟨(hopens 0 (Nat.zero_le _)).1, fun c hc => ?_, (hopens _ le_rfl).2⟩
  rw [(hopens (c + 1) hc).1, (hopens c (Nat.le_of_lt hc)).2]

lemma TreeProgress.next {replay : Replay start pull (source :: others) elements}
    (nonempty : rowCount ((source :: others).map elements) ≠ 0)
    {frame : Multiset (τ × Seq α)} {budget : ℕ} (enough : 2 * (others.length + 1) ≤ budget) {n : ℕ}
    {product : CartesianProduct (σ × ℕ) (Watched τ) α} {store : ω × Journal}
    (progress : replay.TreeProgress frame n product store) :
    ∃ answer product' store',
      CartesianProduct.next (watchStart start) (watchPull pull) budget product store =
        some ((answer, product'), store') ∧
      IsAnswer ((source :: others).map elements) n answer ∧
      replay.TreeProgress frame (n + 1) product' store' := by
  have hmap : ((source, 0) :: others.zipIdx 1).map (fun source => elements source.1) =
      (source :: others).map elements := map_zipIdx_elements elements (source :: others) 0
  have known : (source, 0) :: others.zipIdx 1 ⊆ (source :: others).zipIdx := List.Subset.refl _
  have htotal : rowTotal ((source :: others).map elements) =
      rowCount ((source :: others).map elements) := RowMajor.rowTotal_cons _ _
  cases progress with
  | fresh fresh =>
    obtain ⟨rfl, holds, hjournal⟩ := fresh
    obtain ⟨result, store', hprime, ⟨-, hzero⟩ | ⟨head, primed, ledger, rfl, hprimed, holds'⟩⟩ :=
      (replay.watched frame).prime_primes known holds
    · rw [hmap] at hzero
      exact absurd hzero nonempty
    · obtain ⟨follows, opens⟩ := (Tally.watched start pull).prime_opens
        (numbered_zipIdx (source :: others) 0) hprime
      have inside := hprimed.inside
      rw [Nat.zero_add, List.length_zipIdx] at follows
      obtain ⟨used, rfl, inUse⟩ := hprimed.standing.inUse inside follows
      have entries_eq := hprimed.row_eq
      rw [hmap] at inside inUse entries_eq
      rw [← htotal] at inside
      refine ⟨some _, ⟨(source, 0) :: others.zipIdx 1, some _, .running⟩, store', ?_,
        .row inside entries_eq, .standing inside ⟨_, rfl, hprimed.standing, follows⟩ inUse
          (by simpa using holds') (balanced_of_opens hjournal opens)⟩
      simp [CartesianProduct.next, CartesianProduct.ofSources, CartesianProduct.first,
        Run.bind_apply, hprime]
  | @standing r _ _ used inside stands inUse holds balanced =>
    obtain ⟨root, rfl, standing, follows⟩ := stands
    have holds' : (replay.watched frame).Holds store (used + 0) := by simpa using holds
    have hfills := (replay.watched frame).fills_succ known (hmap ▸ nonempty)
      (show 2 * ((source, 0) :: others.zipIdx 1).length ≤ budget by simpa) standing [] holds'
    generalize hresult : Node.fill (watchStart start) (watchPull pull) budget [] root store =
      result at hfills
    cases hfills with
    | @row entries root' store' ledger inside' entries_eq standing' holds' =>
      obtain ⟨follows', hadvances⟩ := (Tally.watched start pull).fills follows hresult
      obtain ⟨used', rfl, inUse'⟩ := standing'.inUse inside' follows'
      rw [hmap] at inside' inUse' entries_eq
      rw [← htotal] at inside'
      refine ⟨some entries, ⟨(source, 0) :: others.zipIdx 1, some root', .running⟩, store', ?_,
        .row inside' entries_eq, .standing inside' ⟨root', rfl, standing', follows'⟩ inUse'
          (by simpa using holds') (balanced.advances hadvances)⟩
      simp [CartesianProduct.next, CartesianProduct.later, Run.bind_apply, hresult]
    | @spent root' store' outside holds' =>
      obtain ⟨-, hadvances⟩ := (Tally.watched start pull).fills follows hresult
      rw [hmap, ← htotal] at outside
      refine ⟨none, ⟨(source, 0) :: others.zipIdx 1, none, .exhausted⟩, store', ?_, .none outside,
        .finished outside rfl holds' (balanced.advances hadvances)⟩
      simp [CartesianProduct.next, CartesianProduct.later, Run.bind_apply, hresult]
  | finished outside finished holds balanced =>
    have outside' := RowMajor.outside_succ outside
    refine ⟨none, product, store, ?_, .none outside', .finished outside' finished holds balanced⟩
    simp [CartesianProduct.next, finished]

end Tree

end Replay

/-- Calls from a first one on that are answered by the rows of some components,
and a journal of them that has no more than the rows need. -/
def GivesFrugally {π : Type} (components : List (Seq α)) (calls : ℕ)
    (run : Run (ω × Journal) (List (Option (List α)) × π)) (store : ω) : Prop :=
  ∃ answers product store' journal, run (store, []) = some ((answers, product), (store', journal)) ∧
    answers.length = calls ∧
    (∀ (r : ℕ) answer, answers[r]? = some answer → IsAnswer components r answer) ∧
    Frugal components calls journal

variable {start : Start ω σ τ} {pull : Pull ω τ α} {elements : σ → Seq α}

/-- Without an empty source, a nested product and the product of a list deliver
of each component the elements that their rows so far begin, and no more. Once
drained, they have asked every traversal of a component for its one end. -/
theorem products_pull_once {source second : σ} {others : List σ}
    (replay : Replay start pull (source :: second :: others) elements)
    (nonempty : ∀ s ∈ source :: second :: others, elements s ≠ Seq.nil) {store : ω}
    {ledger : Multiset (τ × Seq α)} (holds : replay.Holds store ledger) {budget : ℕ}
    (enough : 2 * (others.length + 2) ≤ budget) (calls : ℕ) :
    GivesFrugally ((source :: second :: others).map elements) calls
        (do
          let nested ← Nested.start (watchStart start) ((source, 0), (second :: others).zipIdx 1)
          pulls (Nested.next (watchStart start) (watchPull pull) budget) calls nested) store ∧
      GivesFrugally ((source :: second :: others).map elements) calls
        (pulls (CartesianProduct.next (watchStart start) (watchPull pull) budget) calls
          (.ofSources (source :: second :: others).zipIdx)) store := by
  have hrows : rowCount ((source :: second :: others).map elements) ≠ 0 := by
    intro hzero
    obtain ⟨s, hs, hnil⟩ := List.mem_map.mp (RowMajor.rowCount_eq_zero_iff.mp hzero)
    exact nonempty s hs hnil
  have hfresh : (replay.watched ledger).Holds (store, []) 0 :=
    ⟨by simpa using holds, .nil _⟩
  constructor
  · obtain ⟨nested₀, store₀, hstart, progress⟩ := replay.nested_start rfl hfresh
    obtain ⟨answers, nested, ⟨store', journal⟩, hpulls, hlength, hanswers, progress⟩ :=
      pulls_of_step (fun progress => progress.next hrows (List.cons_ne_nil _ _)
        (show others.length + 1 + 1 < budget by omega)) progress calls
    simp only [Nat.zero_add] at hanswers progress
    refine ⟨answers, nested, store', journal, ?_, hlength, hanswers, progress.frugal⟩
    rw [Run.bind_apply, hstart]
    exact hpulls
  · have progress : replay.TreeProgress ledger 0
        (.ofSources (source :: second :: others).zipIdx) (store, []) :=
      .fresh ⟨rfl, hfresh, rfl⟩
    obtain ⟨answers, product, ⟨store', journal⟩, hpulls, hlength, hanswers, progress⟩ :=
      pulls_of_step (fun progress => progress.next hrows enough) progress calls
    simp only [Nat.zero_add] at hanswers progress
    exact ⟨answers, product, store', journal, hpulls, hlength, hanswers, progress.frugal⟩

/-- A source of two elements against itself, drained: the second component has
delivered four elements through two traversals, whatever they resume with. -/
theorem products_pull_once_pair :
    let pair : Script Nat := .ofAnswers #[some 10, some 20, none, some 30] none
    let replay := Replay.ofStep id Script.next [pair, pair]
    (replay.Holds () 0 ∧
        (∀ s ∈ [pair, pair], (History.ofStep Script.next s ()).elements ≠ Seq.nil) ∧
        2 * (([] : List (Script Nat)).length + 2) ≤ 4) ∧
      ∃ answers product journal,
        pulls
          (CartesianProduct.next (watchStart pure) (watchPull fun script => return script.next) 4)
          5 (.ofSources [(pair, 0), (pair, 1)]) ((), []) =
            some ((answers, product), ((), journal)) ∧
        journal.delivered 1 = 4 ∧ (journal.pulled 1).card = 2 := by
  intro pair replay
  have holds : replay.Holds () 0 := fun entry h => by simp at h
  have hpair : (History.ofStep Script.next pair ()).elements = Seq.ofList [10, 20] :=
    History.elements_eq_ofList (by decide)
  have nonempty : ∀ s ∈ [pair, pair], (History.ofStep Script.next s ()).elements ≠ Seq.nil := by
    simp [hpair, Seq.ofList_cons]
  refine ⟨⟨holds, nonempty, le_rfl⟩, ?_⟩
  obtain ⟨-, answers, product, store', journal, hrun, -, -, frugal⟩ :=
    products_pull_once replay nonempty holds (show 2 * (([] : List (Script Nat)).length + 2) ≤ 4
      from le_rfl) 5
  have hlength : (Seq.ofList [10, 20]).length' = 2 := by
    simp [Seq.ofList_cons, Seq.length'_cons, one_add_one_eq_two]
  have hone : rowCount [Seq.ofList [10, 20]] = 2 := by
    rw [RowMajor.rowCount_cons, RowMajor.rowCount_nil, hlength, mul_one]
  have htwo : rowCount [Seq.ofList [10, 20], Seq.ofList [10, 20]] = 4 := by
    rw [RowMajor.rowCount_cons, hone, hlength]
    rfl
  have hmap :
      [pair, pair].map (fun source => (History.ofStep Script.next (id source) ()).elements) =
        [Seq.ofList [10, 20], Seq.ofList [10, 20]] := by
    simp [hpair]
  rw [hmap] at frugal
  have drained : rowTotal [Seq.ofList [10, 20], Seq.ofList [10, 20]] < (5 : ℕ) := by
    rw [RowMajor.rowTotal_cons, htwo]
    decide
  obtain ⟨hdelivered, hpulled, -⟩ := frugal.drained drained 1 (by decide)
  rw [List.take_succ_cons, List.take_succ_cons, List.take_zero, htwo] at hdelivered
  rw [List.take_succ_cons, List.take_zero, hone] at hpulled
  exact ⟨answers, product, journal, hrun, by exact_mod_cast hdelivered, by exact_mod_cast hpulled⟩

end Traversals
