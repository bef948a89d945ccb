import Traversals.Product.Nested
import Traversals.Proofs.Product.Enumeration
import Traversals.Proofs.Product.Journal

/-!
# Enumeration of a nested product

A nested product is described by the row that it is to give next. Unlike a tree
it starts out with nothing but its first source; each level starts the product
below it and pulls it before its own source. Where no source is empty, it gives
the rows that the tree gives, and the journals of both balance.
-/

namespace Traversals

open Stream' (Seq)
open RowMajor (rowCount rowTotal period rowAt IsAnswer)

variable {ω σ τ α : Type}

namespace Nested

section Next

variable {startSource : Start ω σ τ} {pull : Pull ω τ α} {budget : ℕ} {head head' head'' : τ}
  {x x' : α} {entries : List α} {below : σ} {rest : List σ} {tail tail' tail'' : Nested σ τ α}
  {store store₁ store₂ store₃ store₄ : ω}

/-- A product of two on its way. -/
abbrev running (head : τ) (x : α) (below : σ) (rest : List σ) (tail : Nested σ τ α) :
    Nested σ τ α :=
  .pair ⟨head, some x, (below, rest), some tail, .running⟩

lemma ofSources_cons (head : τ) (below : σ) (rest : List σ) :
    (ofSources head (below :: rest) : Nested σ τ α) =
      .pair ⟨head, none, (below, rest), none, .fresh⟩ := rfl

/-- A product that has no more rows. -/
def Over : Nested σ τ α → Prop
  | .last _ => False
  | .pair product => product.phase = .exhausted

lemma start_eq {source : σ} (hstart : startSource source store = some (head, store₁))
    (others : List σ) :
    start startSource (source, others) store =
      some ((ofSources head others : Nested σ τ α), store₁) := by
  simp [start, Run.bind_apply, hstart]

lemma next_last {traversal traversal' : τ} {element : Option α}
    (hpull : pull traversal store = some ((element, traversal'), store₁)) :
    next startSource pull (budget + 1) (.last traversal : Nested σ τ α) store =
      some ((element.map ([·]), .last traversal'), store₁) := by
  simp [next, Run.bind_apply, hpull]

lemma next_over {nested : Nested σ τ α} (finished : nested.Over) :
    next startSource pull (budget + 1) nested store = some ((none, nested), store) := by
  cases nested with
  | last traversal => cases finished
  | pair product =>
    have hphase : product.phase = .exhausted := finished
    simp [next, PairProduct.next, Run.bind_apply, hphase]

/-- The product below gives its first row before the head is pulled. -/
lemma next_first (hstart : startSource below store = some (head', store₁))
    (hbelow : next startSource pull budget (ofSources head' rest) store₁ =
      some ((some entries, tail), store₂))
    (hhead : pull head store₂ = some ((some x, head''), store₃)) :
    next startSource pull (budget + 1) (ofSources head (below :: rest)) store =
      some ((some (x :: entries), running head'' x below rest tail), store₃) := by
  simp [ofSources_cons, next, PairProduct.next, PairProduct.first, Run.bind_apply,
    start_eq hstart, hbelow, hhead]

/-- If it has none, the head is left alone. -/
lemma next_first_none (hstart : startSource below store = some (head', store₁))
    (hbelow : next startSource pull budget (ofSources head' rest) store₁ =
      some ((none, tail), store₂)) :
    ∃ nested : Nested σ τ α, nested.Over ∧
      next startSource pull (budget + 1) (ofSources head (below :: rest)) store =
        some ((none, nested), store₂) := by
  refine ⟨.pair ⟨head, none, (below, rest), none, .exhausted⟩, rfl, ?_⟩
  simp [ofSources_cons, next, PairProduct.next, PairProduct.first, Run.bind_apply,
    start_eq hstart, hbelow]

lemma next_first_end (hstart : startSource below store = some (head', store₁))
    (hbelow : next startSource pull budget (ofSources head' rest) store₁ =
      some ((some entries, tail), store₂))
    (hhead : pull head store₂ = some ((none, head''), store₃)) :
    ∃ nested : Nested σ τ α, nested.Over ∧
      next startSource pull (budget + 1) (ofSources head (below :: rest)) store =
        some ((none, nested), store₃) := by
  refine ⟨.pair ⟨head'', none, (below, rest), none, .exhausted⟩, rfl, ?_⟩
  simp [ofSources_cons, next, PairProduct.next, PairProduct.first, Run.bind_apply,
    start_eq hstart, hbelow, hhead]

lemma next_row
    (hbelow : next startSource pull (budget + 1) tail store =
      some ((some entries, tail'), store₁)) :
    next startSource pull (budget + 2) (running head x below rest tail) store =
      some ((some (x :: entries), running head x below rest tail'), store₁) := by
  rw [next]
  simp [PairProduct.next, PairProduct.later, PairProduct.pullCurrent, Run.bind_apply, hbelow]

lemma next_end
    (hbelow : next startSource pull (budget + 1) tail store = some ((none, tail'), store₁))
    (hhead : pull head store₁ = some ((none, head'), store₂)) :
    ∃ nested : Nested σ τ α, nested.Over ∧
      next startSource pull (budget + 2) (running head x below rest tail) store =
        some ((none, nested), store₂) := by
  refine ⟨.pair ⟨head', none, (below, rest), none, .exhausted⟩, rfl, ?_⟩
  rw [next]
  simp [PairProduct.next, PairProduct.later, PairProduct.pullCurrent, Run.bind_apply, hbelow, hhead]

/-- A new product below the next element. -/
lemma next_carry
    (hbelow : next startSource pull (budget + 2) tail store = some ((none, tail'), store₁))
    (hhead : pull head store₁ = some ((some x', head'), store₂))
    (hstart : startSource below store₂ = some (head'', store₃))
    (hfirst : next startSource pull (budget + 2) (ofSources head'' rest) store₃ =
      some ((some entries, tail''), store₄)) :
    next startSource pull (budget + 3) (running head x below rest tail) store =
      some ((some (x' :: entries), running head' x' below rest tail''), store₄) := by
  rw [next]
  simp [PairProduct.next, PairProduct.later, PairProduct.pullCurrent, Run.bind_apply, hbelow, hhead,
    start_eq hstart, hfirst]

end Next

/-- A product that gives row `r` next, and what its traversals have left. -/
inductive Standing (elements : σ → Seq α) :
    List σ → ℕ → Nested σ τ α → List (τ × Seq α) → Prop
  | last (source : σ) (r : ℕ) (traversal : τ) :
      Standing elements [source] r (.last traversal) [(traversal, (elements source).drop r)]
  | fresh (source below : σ) (rest : List σ) (head : τ) :
      Standing elements (source :: below :: rest) 0 (ofSources head (below :: rest))
        [(head, (elements source).drop 0)]
  | running {source below : σ} {rest : List σ} {r k : ℕ} {head : τ} {x : α}
      {tail : Nested σ τ α} {used : List (τ × Seq α)}
      (position : r / period ((below :: rest).map elements) = k)
      (current : (elements source).get? k = some x)
      (inner : Standing elements (below :: rest) (r % period ((below :: rest).map elements) + 1)
        tail used) :
      Standing elements (source :: below :: rest) (r + 1) (running head x below rest tail)
        ((head, (elements source).drop (k + 1)) :: used)

lemma Standing.start (elements : σ → Seq α) (source : σ) (others : List σ) (head : τ) :
    Standing elements (source :: others) 0 (ofSources head others)
      [(head, (elements source).drop 0)] := by
  cases others with
  | nil => exact .last source 0 head
  | cons below rest => exact .fresh source below rest head

end Nested

/-- Whatever journal the store keeps, it has the notes of some rows of the
components behind a first one, whose traversals are numbered with it. -/
def Tallied (start : Start ω σ τ) (pull : Pull ω τ α) (others : List σ)
    (used used' : List (τ × Seq α)) (rows : ℕ) (store store' : ω) : Prop :=
  ∀ (tally : Tally start pull) (first last : ℕ), first + others.length = last →
    Numbered tally.componentOf (first + 1) others →
    Numbered (fun entry => tally.component entry.1) first used →
    Numbered (fun entry => tally.component entry.1) first used' ∧
      Journal.Advances first last rows (tally.journal store) (tally.journal store')

namespace Replay

variable {start : Start ω σ τ} {pull : Pull ω τ α} {sources : List σ} {elements : σ → Seq α}

/-- What may come of asking for row `r`: the row, and the product stands on the
next one, or the product is over and has let its traversals go. -/
inductive Gives (replay : Replay start pull sources elements) (source : σ) (others : List σ)
    (r : ℕ) (frame : Multiset (τ × Seq α)) (used : List (τ × Seq α)) (store : ω) :
    Option ((Option (List α) × Nested σ τ α) × ω) → Prop
  | row {entries : List α} {nested : Nested σ τ α} {store' : ω} {used' : List (τ × Seq α)}
      (inside : (r : ℕ∞) < rowCount ((source :: others).map elements))
      (entries_eq : entries.map some = rowAt ((source :: others).map elements) r)
      (standing : Nested.Standing elements (source :: others) (r + 1) nested used')
      (holds : replay.Holds store' (used' + frame))
      (tallied : Tallied start pull others used used' 1 store store') :
      Gives replay source others r frame used store (some ((some entries, nested), store'))
  | spent {nested : Nested σ τ α} {store' : ω}
      (outside : ¬ (r : ℕ∞) < rowCount ((source :: others).map elements))
      (finished : others ≠ [] → nested.Over)
      (holds : replay.Holds store' frame)
      (tallied : Tallied start pull others used [] 0 store store') :
      Gives replay source others r frame used store (some ((none, nested), store'))

variable (replay : Replay start pull sources elements)

/-- Every row is given, from wherever the product stands. -/
def Steady (budget : ℕ) (source : σ) (others : List σ) : Prop :=
  ∀ {r : ℕ} {nested : Nested σ τ α} {used : List (τ × Seq α)} {store : ω}
    {frame : Multiset (τ × Seq α)}, Nested.Standing elements (source :: others) r nested used →
    replay.Holds store (used + frame) →
    replay.Gives source others r frame used store (Nested.next start pull budget nested store)

lemma steady_last (budget : ℕ) (source : σ) : replay.Steady (budget + 1) source [] := by
  intro r nested used store frame standing holds
  cases standing with
  | last source r traversal =>
    cases hx : (elements source).get? r with
    | none =>
      obtain ⟨traversal', store', hpull, holds⟩ := replay.pull_none holds hx
      rw [Nested.next_last hpull]
      refine .spent (RowMajor.outside_single hx) (fun h => absurd rfl h) holds ?_
      rintro tally first last (rfl : first = last) _ ⟨(rfl : tally.component traversal = first), -⟩
      refine ⟨trivial, ?_⟩
      rw [(tally.pull_eq hpull).2]
      exact .ended _ _
    | some x =>
      obtain ⟨traversal', store', hpull, holds⟩ := replay.pull_some holds hx
      obtain ⟨inside, entries_eq⟩ := RowMajor.row_single hx
      rw [Nested.next_last hpull]
      refine .row inside entries_eq (.last source (r + 1) traversal') holds ?_
      rintro tally first last (rfl : first = last) _ ⟨(rfl : tally.component traversal = first), -⟩
      obtain ⟨hcomponent, hjournal⟩ := tally.pull_eq hpull
      refine ⟨⟨hcomponent, trivial⟩, ?_⟩
      rw [hjournal]
      exact .row _ _ true

/-- A product that is started anew gives its first row. -/
lemma Steady.anew {replay : Replay start pull sources elements} {budget : ℕ} {below : σ}
    {rest : List σ} (steady : replay.Steady budget below rest) (known : below ∈ sources)
    (nonempty : rowCount ((below :: rest).map elements) ≠ 0) {store : ω}
    {frame : Multiset (τ × Seq α)} (holds : replay.Holds store frame) :
    ∃ head store₁ entries tail store₂ used, start below store = some (head, store₁) ∧
      Nested.next start pull budget (.ofSources head rest) store₁ =
        some ((some entries, tail), store₂) ∧
      entries.map some = rowAt ((below :: rest).map elements) 0 ∧
      Nested.Standing elements (below :: rest) (0 + 1) tail used ∧
      replay.Holds store₂ (used + frame) ∧
      ∀ (tally : Tally start pull) (first last : ℕ), first + rest.length = last →
        Numbered tally.componentOf first (below :: rest) →
        Numbered (fun entry => tally.component entry.1) first used ∧
          Journal.Advances first last 1 (.started first :: tally.journal store)
            (tally.journal store₂) := by
  obtain ⟨head, store₁, hstart, holds⟩ := replay.starts known holds
  rw [← Seq.drop_zero (s := elements below)] at holds
  have hgives := steady (.start elements below rest head) holds
  generalize hresult : Nested.next start pull budget (.ofSources head rest) store₁ = result
    at hgives
  cases hgives with
  | @row entries tail store₂ used inside entries_eq standing holds tallied =>
    refine ⟨head, store₁, entries, tail, store₂, used, hstart, hresult, entries_eq, standing,
      holds, ?_⟩
    intro tally first last hlast hnumbered
    obtain ⟨rfl, hrest⟩ := hnumbered
    obtain ⟨hcomponent, hjournal⟩ := tally.start_eq hstart
    rw [← hjournal]
    exact tallied tally _ _ hlast hrest ⟨hcomponent, trivial⟩
  | spent outside _ _ _ => exact absurd (pos_iff_ne_zero.mpr nonempty) outside

/-- The first row of a product, from the first row of the product below it. -/
lemma Steady.first {replay : Replay start pull sources elements} {budget : ℕ} {source below : σ}
    {rest : List σ} (steady : replay.Steady budget below rest) (known : below ∈ sources)
    (nonempty : rowCount ((source :: below :: rest).map elements) ≠ 0) {head : τ} {store : ω}
    {frame : Multiset (τ × Seq α)}
    (holds : replay.Holds store ((head, (elements source).drop 0) ::ₘ frame)) :
    replay.Gives source (below :: rest) 0 frame [(head, (elements source).drop 0)] store
      (Nested.next start pull (budget + 1) (.ofSources head (below :: rest)) store) := by
  obtain ⟨hsource, hbelow⟩ := RowMajor.ne_zero_of_cons nonempty
  obtain ⟨x, hx⟩ : ∃ x, (elements source).get? 0 = some x :=
    Seq.lt_length'_iff.mp (pos_iff_ne_zero.mpr hsource)
  obtain ⟨head', store₁, entries, tail, store₂, used, hstart, hnext, entries_eq, inner, holds,
    tallied⟩ := steady.anew known hbelow holds
  rw [Multiset.add_cons] at holds
  obtain ⟨head'', store₃, hhead, holds⟩ := replay.pull_some holds hx
  have hposition : 0 / period ((below :: rest).map elements) = 0 := Nat.zero_div _
  have hround : 0 % period ((below :: rest).map elements) = 0 := Nat.zero_mod _
  obtain ⟨inside, row_eq⟩ := RowMajor.row_cons hbelow (by rwa [hposition])
    (by rwa [hround])
  rw [Nested.next_first hstart hnext hhead]
  refine .row inside row_eq (.running hposition hx (by rwa [hround])) ?_ ?_
  · rwa [← Multiset.cons_coe, Multiset.cons_add]
  · rintro tally first last hlast hnumbered ⟨(rfl : tally.component head = first), -⟩
    obtain ⟨hcomponent, hjournal⟩ := tally.pull_eq hhead
    simp only [List.length_cons] at hlast
    obtain ⟨hused, hadvances⟩ := tallied tally _ last (by omega) hnumbered
    refine ⟨⟨hcomponent, hused⟩, ?_⟩
    rw [hjournal]
    exact .opened _ (by omega) hadvances

/-- A later row of a product: the next one below the element at hand, or the
first one below the next element. -/
lemma Steady.later {replay : Replay start pull sources elements} {budget : ℕ} {source below : σ}
    {rest : List σ} (steady : replay.Steady (budget + 2) below rest) (known : below ∈ sources)
    (nonempty : rowCount ((source :: below :: rest).map elements) ≠ 0) {r k : ℕ} {head : τ} {x : α}
    {tail : Nested σ τ α} {used : List (τ × Seq α)}
    (position : r / period ((below :: rest).map elements) = k)
    (current : (elements source).get? k = some x)
    (inner : Nested.Standing elements (below :: rest)
      (r % period ((below :: rest).map elements) + 1) tail used) {store : ω}
    {frame : Multiset (τ × Seq α)}
    (holds : replay.Holds store
      (((head, (elements source).drop (k + 1)) :: used : List _) + frame)) :
    replay.Gives source (below :: rest) (r + 1) frame
      ((head, (elements source).drop (k + 1)) :: used) store
      (Nested.next start pull (budget + 3) (.running head x below rest tail) store) := by
  have hbelow := (RowMajor.ne_zero_of_cons nonempty).2
  rw [← Multiset.cons_coe, Multiset.cons_add, ← Multiset.add_cons] at holds
  have hgives := steady inner holds
  generalize hresult : Nested.next start pull (budget + 2) tail store = result at hgives
  -- The head is asked only where the rows below its element have run out.
  cases hgives with
  | @row entries tail' store₁ used' inside entries_eq inner holds tallied =>
    obtain ⟨hdiv, hmod⟩ := RowMajor.succ_inside inside
    rw [position] at hdiv
    rw [← hmod] at entries_eq inner
    obtain ⟨inside, row_eq⟩ := RowMajor.row_cons hbelow (by rwa [hdiv]) entries_eq
    rw [Nested.next_row hresult]
    refine .row inside row_eq (.running hdiv current inner) ?_ ?_
    · rwa [← Multiset.cons_coe, Multiset.cons_add, ← Multiset.add_cons]
    · rintro tally first last hlast hnumbered ⟨hhead, hused⟩
      simp only [List.length_cons] at hlast
      obtain ⟨hused', hadvances⟩ := tallied tally (first + 1) last (by omega) hnumbered.2 hused
      exact ⟨⟨hhead, hused'⟩, hadvances.above⟩
  | @spent tail' store₁ outside finished holds tallied =>
    obtain ⟨hdiv, hmod⟩ := RowMajor.succ_carry hbelow outside
    rw [position] at hdiv
    cases hx : (elements source).get? (k + 1) with
    | none =>
      obtain ⟨head', store₂, hhead, holds⟩ := replay.pull_none holds hx
      obtain ⟨nested, finished, hnext⟩ := Nested.next_end hresult hhead
      rw [hnext]
      refine .spent (RowMajor.outside_cons hbelow (by rwa [hdiv])) (fun _ => finished) holds ?_
      rintro tally first last hlast hnumbered ⟨(rfl : tally.component head = first), hused⟩
      simp only [List.length_cons] at hlast
      obtain ⟨-, hadvances⟩ := tallied tally _ last (by omega) hnumbered.2 hused
      refine ⟨trivial, hadvances.above.trans ?_⟩
      rw [(tally.pull_eq hhead).2]
      exact .ended _ _
    | some x' =>
      obtain ⟨head', store₂, hhead, holds⟩ := replay.pull_some holds hx
      obtain ⟨head'', store₃, entries, tail'', store₄, used', hstart, hfirst, entries_eq, inner,
        holds, tallied'⟩ := steady.anew known hbelow holds
      rw [← hmod] at entries_eq inner
      obtain ⟨inside, row_eq⟩ := RowMajor.row_cons hbelow (by rwa [hdiv]) entries_eq
      rw [Nested.next_carry hresult hhead hstart hfirst]
      refine .row inside row_eq (.running hdiv hx inner) ?_ ?_
      · rwa [← Multiset.cons_coe, Multiset.cons_add, ← Multiset.add_cons]
      · rintro tally first last hlast hnumbered ⟨(rfl : tally.component head = first), hused⟩
        simp only [List.length_cons] at hlast
        obtain ⟨hcomponent, hjournal⟩ := tally.pull_eq hhead
        obtain ⟨-, hbefore⟩ := tallied tally _ last (by omega) hnumbered.2 hused
        obtain ⟨hused', hafter⟩ := tallied' tally _ last (by omega) hnumbered
        have htaken := Journal.Advances.taken (tally.journal store₁) (tally.number head)
          (show tally.component head < last by omega)
        rw [hjournal] at hafter
        exact ⟨⟨hcomponent, hused'⟩, (hbefore.above.trans htaken).trans hafter.above⟩

/-- No row is left out, whatever the number of sources. -/
lemma steady {source : σ} {others : List σ} (known : source :: others ⊆ sources)
    (nonempty : rowCount ((source :: others).map elements) ≠ 0) {budget : ℕ}
    (enough : others.length + 1 < budget) : replay.Steady budget source others := by
  induction others generalizing source budget with
  | nil =>
    obtain ⟨budget, rfl⟩ : ∃ b, budget = b + 1 := ⟨budget - 1, by omega⟩
    exact replay.steady_last budget source
  | cons below rest ih =>
    simp only [List.length_cons] at enough
    obtain ⟨budget, rfl⟩ : ∃ b, budget = b + 3 := ⟨budget - 3, by omega⟩
    have known' : below :: rest ⊆ sources := fun source h => known (List.mem_cons_of_mem _ h)
    have steady : replay.Steady (budget + 2) below rest :=
      ih known' (RowMajor.ne_zero_of_cons nonempty).2 (by omega)
    intro r nested used store frame standing holds
    cases standing with
    | fresh _ _ _ head =>
      exact steady.first (known' List.mem_cons_self) nonempty (by simpa using holds)
    | running position current inner =>
      exact steady.later (known' List.mem_cons_self) nonempty position current inner holds

end Replay

end Traversals
