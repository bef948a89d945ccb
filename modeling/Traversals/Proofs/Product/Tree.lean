import Traversals.Product.Rows
import Traversals.Proofs.Product.RowMajor
import Traversals.Proofs.Replay

/-!
# Enumeration of a product

A tree on row `r` has on each level the traversal of one source, with the
elements behind it that the row needs, and below it a tree on a row of the
other sources. To fill a row is to move the tree on by one, whether the last
level moves alone or a carry starts several levels again. A tree that is over
has let all its traversals go.
-/

namespace Traversals

open Stream' (Seq)
open RowMajor (rowCount rowTotal period rowAt positionsAt)

variable {ω σ τ α : Type}

namespace Node

/-- A sub-product that waits for the next element of its first source. -/
def awaiting (head : τ) : List σ → Node σ τ α
  | [] => .leaf head
  | below :: rest => .branch head none none below rest

lemma start_eq {startSource : Start ω σ τ} {source : σ} {store store' : ω} {head : τ}
    (hstart : startSource source store = some (head, store')) (others : List σ) :
    start startSource source others store =
      some ((awaiting head others : Node σ τ α), store') := by
  cases others <;> simp [start, awaiting, Run.bind_apply, hstart]

/-- Nothing but the first source is started. -/
lemma exists_start {startSource : Start ω σ τ} {source : σ} {others : List σ}
    {node : Node σ τ α} {store store' : ω}
    (hnode : start startSource source others store = some (node, store')) :
    ∃ head, startSource source store = some (head, store') ∧ node = awaiting head others := by
  obtain ⟨head, store₁, hstart, hrest⟩ := Run.bind_eq_some_iff.mp hnode
  cases others <;> cases hrest <;> exact ⟨head, hstart, rfl⟩

section Fill

variable {startSource : Start ω σ τ} {pull : Pull ω τ α} {budget : ℕ} {row extended : List α}
  {head : τ} {x : α} {tail tail' : Node σ τ α} {below : σ} {rest : List σ} {store store' : ω}

lemma fill_below
    (hresult : fill startSource pull budget (row ++ [x]) tail store =
      some (((true, extended), tail'), store')) :
    fill startSource pull (budget + 1) row (.branch head (some x) (some tail) below rest) store =
      some (((true, extended), .branch head (some x) (some tail') below rest), store') := by
  rw [fill, Run.bind_apply, hresult]
  rfl

/-- The row comes back as it was, so the level goes on from there. -/
lemma fill_carry
    (hresult : fill startSource pull budget (row ++ [x]) tail store =
      some (((false, row ++ [x]), tail'), store')) :
    fill startSource pull (budget + 1) row (.branch head (some x) (some tail) below rest) store =
      fill startSource pull budget row (awaiting head (below :: rest)) store' := by
  rw [fill, Run.bind_apply, hresult]
  simp [awaiting]

/-- What a fill does: it asks the last source, or it goes on below an element,
or it takes the next element and starts the levels below again. -/
inductive Filled (startSource : Start ω σ τ) (pull : Pull ω τ α) :
    List α → Node σ τ α → ω → Bool × List α → Node σ τ α → ω → Prop
  | element {row : List α} {x : α} {traversal traversal' : τ} {store store' : ω}
      (hpull : pull traversal store = some ((some x, traversal'), store')) :
      Filled startSource pull row (.leaf traversal) store (true, row ++ [x]) (.leaf traversal')
        store'
  | ended {row : List α} {traversal traversal' : τ} {store store' : ω}
      (hpull : pull traversal store = some ((none, traversal'), store')) :
      Filled startSource pull row (.leaf traversal) store (false, row) (.leaf traversal') store'
  | held {row extended : List α} {head : τ} {x : α} {tail tail' : Node σ τ α} {below : σ}
      {rest : List σ} {store store' : ω}
      (inner : Filled startSource pull (row ++ [x]) tail store (true, extended) tail' store') :
      Filled startSource pull row (.branch head (some x) (some tail) below rest) store
        (true, extended) (.branch head (some x) (some tail') below rest) store'
  | carry {row extended : List α} {reply : Bool × List α} {head : τ} {x : α}
      {tail tail' node' : Node σ τ α} {below : σ} {rest : List σ} {store store₁ store' : ω}
      (inner : Filled startSource pull (row ++ [x]) tail store (false, extended) tail' store₁)
      (later : Filled startSource pull (extended.take row.length)
        (.branch head none none below rest) store₁ reply node' store') :
      Filled startSource pull row (.branch head (some x) (some tail) below rest) store reply
        node' store'
  | exhausted {row : List α} {head head' : τ} {current : Option α} {tail : Option (Node σ τ α)}
      {below : σ} {rest : List σ} {store store' : ω} (bare : current = none ∨ tail = none)
      (hpull : pull head store = some ((none, head'), store')) :
      Filled startSource pull row (.branch head current tail below rest) store (false, row)
        (.branch head' none none below rest) store'
  | taken {row : List α} {reply : Bool × List α} {head head' : τ} {x : α} {current : Option α}
      {tail : Option (Node σ τ α)} {tail' node' : Node σ τ α} {below : σ} {rest : List σ}
      {store store₁ store₂ store' : ω} (bare : current = none ∨ tail = none)
      (hpull : pull head store = some ((some x, head'), store₁))
      (hstart : start startSource below rest store₁ = some (tail', store₂))
      (later : Filled startSource pull row (.branch head' (some x) (some tail') below rest) store₂
        reply node' store') :
      Filled startSource pull row (.branch head current tail below rest) store reply node' store'

lemma fill_bare {current : Option α} {tail : Option (Node σ τ α)}
    (bare : current = none ∨ tail = none) :
    fill startSource pull (budget + 1) row (.branch head current tail below rest) =
      fill startSource pull (budget + 1) row (.branch head none none below rest) := by
  rcases current with _ | x <;> rcases tail with _ | tail
  · rfl
  · rfl
  · rfl
  · simp at bare

lemma filled_of_fill {reply : Bool × List α} {node node' : Node σ τ α}
    (hfill : fill startSource pull budget row node store = some ((reply, node'), store')) :
    Filled startSource pull row node store reply node' store' := by
  induction budget generalizing row reply node node' store store' with
  | zero => cases hfill
  | succ budget ih =>
    rcases node with traversal | ⟨head, current, tail, below, rest⟩
    · obtain ⟨⟨_ | x, traversal'⟩, store₁, hpull, hfill⟩ := Run.bind_eq_some_iff.mp hfill
      · cases hfill
        exact .ended hpull
      · cases hfill
        exact .element hpull
    · by_cases bare : current = none ∨ tail = none
      · rw [fill_bare bare] at hfill
        obtain ⟨⟨_ | x, head'⟩, store₁, hpull, hfill⟩ := Run.bind_eq_some_iff.mp hfill
        · cases hfill
          exact .exhausted bare hpull
        · obtain ⟨tail', store₂, hstart, hfill⟩ := Run.bind_eq_some_iff.mp hfill
          exact .taken bare hpull hstart (ih hfill)
      · rcases current with _ | x
        · simp at bare
        · rcases tail with _ | tail
          · simp at bare
          · obtain ⟨⟨⟨_ | _, extended⟩, tail'⟩, store₁, htail, hfill⟩ :=
              Run.bind_eq_some_iff.mp hfill
            · exact .carry (ih htail) (ih hfill)
            · cases hfill
              exact .held (ih htail)

end Fill

/-- A tree on a row of some sources, and the ledger of its traversals. -/
inductive Standing (elements : σ → Seq α) :
    List σ → ℕ → Node σ τ α → Multiset (τ × Seq α) → Prop
  | leaf (source : σ) (r : ℕ) (traversal : τ) :
      Standing elements [source] r (.leaf traversal)
        {(traversal, (elements source).drop (r + 1))}
  | branch {source below : σ} {rest : List σ} {r k : ℕ} {head : τ} {x : α}
      {tail : Node σ τ α} {ledger : Multiset (τ × Seq α)}
      (position : r / period ((below :: rest).map elements) = k)
      (current : (elements source).get? k = some x)
      (inner : Standing elements (below :: rest) (r % period ((below :: rest).map elements))
        tail ledger) :
      Standing elements (source :: below :: rest) r
        (.branch head (some x) (some tail) below rest)
        ((head, (elements source).drop (k + 1)) ::ₘ ledger)

end Node

namespace Replay

variable {start : Start ω σ τ} {pull : Pull ω τ α} {sources : List σ}
  {elements : σ → Seq α}

/-- What may come of filling row `r`: the tree stands on that row, which has
been appended, or there is no such row and what was there is handed back. -/
inductive Fills (replay : Replay start pull sources elements) (components : List σ) (r : ℕ)
    (row : List α) (frame : Multiset (τ × Seq α)) :
    Option (((Bool × List α) × Node σ τ α) × ω) → Prop
  | row {entries : List α} {node : Node σ τ α} {store : ω} {ledger : Multiset (τ × Seq α)}
      (inside : (r : ℕ∞) < rowCount (components.map elements))
      (entries_eq : entries.map some = rowAt (components.map elements) r)
      (standing : Node.Standing elements components r node ledger)
      (holds : replay.Holds store (ledger + frame)) :
      Fills replay components r row frame (some (((true, row ++ entries), node), store))
  | spent {node : Node σ τ α} {store : ω}
      (outside : ¬ (r : ℕ∞) < rowCount (components.map elements))
      (holds : replay.Holds store frame) :
      Fills replay components r row frame (some (((false, row), node), store))

variable (replay : Replay start pull sources elements)

/-- A pull of the last source fills its row. -/
lemma fills_leaf {source : σ} {r : ℕ} {traversal : τ} {store : ω}
    {frame : Multiset (τ × Seq α)} (row : List α) (budget : ℕ)
    (holds : replay.Holds store ((traversal, (elements source).drop r) ::ₘ frame)) :
    replay.Fills [source] r row frame
      (Node.fill start pull (budget + 1) row (.leaf traversal) store) := by
  cases hx : (elements source).get? r with
  | none =>
    obtain ⟨traversal', store', hpull, holds⟩ := replay.pull_none holds hx
    have hfill : Node.fill start pull (budget + 1) row (.leaf traversal) store =
        some (((false, row), .leaf traversal'), store') := by
      simp [Node.fill, Run.bind_apply, hpull]
    rw [hfill]
    exact .spent (RowMajor.outside_single hx) holds
  | some x =>
    obtain ⟨traversal', store', hpull, holds⟩ := replay.pull_some holds hx
    have hfill : Node.fill start pull (budget + 1) row (.leaf traversal) store =
        some (((true, row ++ [x]), .leaf traversal'), store') := by
      simp [Node.fill, Run.bind_apply, hpull]
    obtain ⟨inside, row_eq⟩ := RowMajor.row_single hx
    rw [hfill]
    exact .row inside row_eq (.leaf source r traversal') (by simpa using holds)

/-- A row below an element of a source is a row of both. -/
lemma fills_below {source below : σ} {rest : List σ} {r k : ℕ} {head : τ} {x : α}
    {tail : Node σ τ α} {store : ω} {row : List α} {frame : Multiset (τ × Seq α)}
    (nonempty : rowCount ((below :: rest).map elements) ≠ 0)
    (position : r / period ((below :: rest).map elements) = k)
    (current : (elements source).get? k = some x) {entries : List α}
    {ledger : Multiset (τ × Seq α)}
    (entries_eq : entries.map some = rowAt ((below :: rest).map elements)
      (r % period ((below :: rest).map elements)))
    (inner : Node.Standing elements (below :: rest) (r % period ((below :: rest).map elements))
      tail ledger)
    (holds : replay.Holds store (ledger + (head, (elements source).drop (k + 1)) ::ₘ frame)) :
    replay.Fills (source :: below :: rest) r row frame
      (some (((true, row ++ [x] ++ entries),
        .branch head (some x) (some tail) below rest), store)) := by
  obtain ⟨inside, row_eq⟩ := RowMajor.row_cons nonempty (X := elements source)
    (by rw [position, current]) entries_eq
  rw [List.append_assoc]
  refine .row inside row_eq (.branch position current inner) ?_
  rwa [Multiset.cons_add, ← Multiset.add_cons]

/-- At the start of a round of the other sources, the next element is taken
and a new tree of them is started. -/
lemma fills_awaiting {source : σ} {others : List σ} (known : others ⊆ sources)
    (nonempty : rowCount (others.map elements) ≠ 0) {r budget : ℕ}
    (enough : 2 * others.length < budget) (round : r % period (others.map elements) = 0)
    {head : τ} {store : ω} {frame : Multiset (τ × Seq α)} (row : List α)
    (holds : replay.Holds store
      ((head, (elements source).drop (r / period (others.map elements))) ::ₘ frame)) :
    replay.Fills (source :: others) r row frame
      (Node.fill start pull budget row (.awaiting head others) store) := by
  -- Each level below starts at its own row zero, so the row number has to vary.
  induction others generalizing source r budget head store frame row with
  | nil =>
    obtain ⟨budget, rfl⟩ : ∃ b, budget = b + 1 := ⟨budget - 1, by omega⟩
    exact replay.fills_leaf row budget (by simpa using holds)
  | cons below rest ih =>
    obtain ⟨budget, rfl⟩ : ∃ b, budget = b + 2 :=
      ⟨budget - 2, by simp only [List.length_cons] at enough; omega⟩
    simp only [List.length_cons] at enough
    cases hx : (elements source).get? (r / period ((below :: rest).map elements)) with
    | none =>
      obtain ⟨head', store', hpull, holds⟩ := replay.pull_none holds hx
      have hfill : Node.fill start pull (budget + 2) row (.awaiting head (below :: rest)) store =
          some (((false, row), .branch head' none none below rest), store') := by
        simp [Node.fill, Node.awaiting, Run.bind_apply, hpull]
      rw [hfill]
      exact .spent (RowMajor.outside_cons nonempty hx) holds
    | some x =>
      obtain ⟨head', store₁, hpull, holds⟩ := replay.pull_some holds hx
      obtain ⟨below', store₂, hstart, holds⟩ := replay.starts (known List.mem_cons_self) holds
      have hfill : Node.fill start pull (budget + 2) row (.awaiting head (below :: rest)) store =
          Node.fill start pull (budget + 1) row
            (.branch head' (some x) (some (.awaiting below' rest)) below rest) store₂ := by
        simp [Node.fill, Node.awaiting, Run.bind_apply, hpull, Node.start_eq hstart]
      have hrest : rowCount (rest.map elements) ≠ 0 := (RowMajor.ne_zero_of_cons nonempty).2
      have hbelow := ih (fun source h => known (List.mem_cons_of_mem _ h)) hrest
        (show 2 * rest.length < budget by omega) (Nat.zero_mod _) (row ++ [x])
        (by simpa using holds)
      rw [hfill]
      generalize hresult : Node.fill start pull budget (row ++ [x]) (.awaiting below' rest) store₂ =
        result at hbelow
      cases hbelow with
      | row inside entries_eq inner holds =>
        rw [Node.fill_below hresult]
        rw [← round] at entries_eq inner
        exact replay.fills_below nonempty rfl hx entries_eq inner holds
      | spent outside _ => exact absurd (pos_iff_ne_zero.mpr nonempty) outside

/-- A tree on a row moves to the next one. -/
lemma fills_succ {components : List σ} (known : components ⊆ sources)
    (nonempty : rowCount (components.map elements) ≠ 0) {r budget : ℕ}
    (enough : 2 * components.length ≤ budget) {node : Node σ τ α}
    {ledger frame : Multiset (τ × Seq α)}
    (standing : Node.Standing elements components r node ledger) {store : ω} (row : List α)
    (holds : replay.Holds store (ledger + frame)) :
    replay.Fills components (r + 1) row frame
      (Node.fill start pull budget row node store) := by
  induction standing generalizing budget store row frame with
  | leaf source r traversal =>
    obtain ⟨budget, rfl⟩ : ∃ b, budget = b + 1 :=
      ⟨budget - 1, by simp only [List.length_singleton] at enough; omega⟩
    exact replay.fills_leaf row budget (by simpa using holds)
  | @branch source below rest r k head x tail ledger position current inner ih =>
    obtain ⟨budget, rfl⟩ : ∃ b, budget = b + 1 :=
      ⟨budget - 1, by simp only [List.length_cons] at enough; omega⟩
    simp only [List.length_cons] at enough
    have hothers := (RowMajor.ne_zero_of_cons nonempty).2
    have known' : below :: rest ⊆ sources := fun source h => known (List.mem_cons_of_mem _ h)
    rw [Multiset.cons_add, ← Multiset.add_cons] at holds
    have hbelow := ih known' hothers
      (show 2 * (rest.length + 1) ≤ budget by omega) (row ++ [x]) holds
    generalize hresult : Node.fill start pull budget (row ++ [x]) tail store = result at hbelow
    -- This level stays while the levels below have a next row, and else carries.
    cases hbelow with
    | row inside entries_eq inner holds =>
      obtain ⟨hdiv, hmod⟩ := RowMajor.succ_inside inside
      rw [Node.fill_below hresult]
      rw [← hmod] at entries_eq inner
      exact replay.fills_below hothers (hdiv.trans position) current entries_eq inner holds
    | @spent tail' store' outside holds =>
      obtain ⟨hdiv, hmod⟩ := RowMajor.succ_carry hothers outside
      rw [Node.fill_carry hresult]
      refine replay.fills_awaiting known' hothers (by simp only [List.length_cons]; omega) hmod
        row ?_
      rwa [hdiv, position]

/-- Traversals pulled once, and what they have left. -/
inductive Primed (elements : σ → Seq α) :
    List σ → List (τ × α) → Multiset (τ × Seq α) → Prop
  | nil : Primed elements [] [] 0
  | cons {source : σ} {components : List σ} {x : α} {primed : List (τ × α)}
      {ledger : Multiset (τ × Seq α)} (traversal : τ)
      (first : (elements source).get? 0 = some x)
      (others : Primed elements components primed ledger) :
      Primed elements (source :: components) ((traversal, x) :: primed)
        ((traversal, (elements source).drop 1) ::ₘ ledger)

namespace Primed

variable {components : List σ} {primed : List (τ × α)} {ledger : Multiset (τ × Seq α)}

lemma length_eq (h : Primed elements components primed ledger) :
    primed.length = components.length := by
  induction h with
  | nil => rfl
  | cons traversal first others ih => simp [ih]

lemma inside (h : Primed elements components primed ledger) :
    ((0 : ℕ) : ℕ∞) < rowCount (components.map elements) := by
  induction h with
  | nil => simp
  | @cons source components x primed ledger traversal first others ih =>
    refine (RowMajor.lt_rowCount_cons (ne_bot_of_gt ih)).mpr ⟨x, ?_⟩
    rw [Nat.zero_div, first]

lemma row_eq (h : Primed elements components primed ledger) :
    (primed.map (·.2)).map some = rowAt (components.map elements) 0 := by
  induction h with
  | nil => rfl
  | cons traversal first others ih =>
    have inside := (Primed.cons traversal first others).inside
    simp only [List.map_cons] at inside ⊢
    rw [RowMajor.rowAt_cons inside, Nat.zero_div, Nat.zero_mod, first, ih]

/-- They make up a tree on the first row. -/
lemma standing {source : σ} {others : List σ} {head : τ × α}
    (h : Primed elements (source :: others) (head :: primed) ledger) :
    Node.Standing elements (source :: others) 0 (Node.assemble head (others.zip primed))
      ledger := by
  induction others generalizing source head primed ledger with
  | nil =>
    cases h with
    | cons traversal first others =>
      cases others
      exact .leaf source 0 traversal
  | cons below rest ih =>
    cases h with
    | cons traversal first others =>
      cases others with
      | @cons _ _ x primed ledger traversal' second others =>
        have hrest : (rest.zip primed).map (·.1) = rest :=
          List.map_fst_zip others.length_eq.ge
        have inner := ih (.cons traversal' second others)
        simp only [List.zip_cons_cons, Node.assemble, hrest]
        refine .branch (Nat.zero_div _) first ?_
        rwa [Nat.zero_mod]

end Primed

lemma primeOne_primes {source : σ} (known : source ∈ sources) {store : ω}
    {frame : Multiset (τ × Seq α)} (holds : replay.Holds store frame) :
    ∃ result store', Node.primeOne start pull source store = some (result, store') ∧
      ((result = none ∧ elements source = Seq.nil) ∨
        ∃ traversal x, result = some (traversal, x) ∧ (elements source).get? 0 = some x ∧
          replay.Holds store' ((traversal, (elements source).drop 1) ::ₘ frame)) := by
  obtain ⟨traversal, store₁, hstart, holds⟩ := replay.starts known holds
  rw [← Seq.drop_zero (s := elements source)] at holds
  cases hx : (elements source).get? 0 with
  | none =>
    obtain ⟨traversal', store₂, hpull, -⟩ := replay.pull_none holds hx
    refine ⟨none, store₂, ?_, .inl ⟨rfl, Seq.get?_zero_eq_none.mp hx⟩⟩
    simp [Node.primeOne, Run.bind_apply, Run.map_apply, hstart, hpull]
  | some x =>
    obtain ⟨traversal', store₂, hpull, holds⟩ := replay.pull_some holds hx
    refine ⟨some (traversal', x), store₂, ?_, .inr ⟨traversal', x, rfl, rfl, holds⟩⟩
    simp [Node.primeOne, Run.bind_apply, Run.map_apply, hstart, hpull]

lemma primeAll_primes {components : List σ} (known : components ⊆ sources) {store : ω}
    {frame : Multiset (τ × Seq α)} (holds : replay.Holds store frame) :
    ∃ result store', Node.primeAll start pull components store = some (result, store') ∧
      ((result = none ∧ rowCount (components.map elements) = 0) ∨
        ∃ primed ledger, result = some primed ∧ Primed elements components primed ledger ∧
          replay.Holds store' (ledger + frame)) := by
  induction components generalizing store frame with
  | nil => exact ⟨some [], store, rfl, .inr ⟨[], 0, rfl, .nil, by simpa using holds⟩⟩
  | cons source rest ih =>
    obtain ⟨first, store₁, hfirst, ⟨rfl, hnil⟩ | ⟨traversal, x, rfl, hx, holds⟩⟩ :=
      replay.primeOne_primes (known List.mem_cons_self) holds
    · refine ⟨none, store₁, by simp [Node.primeAll, Run.bind_apply, hfirst], .inl ⟨rfl, ?_⟩⟩
      exact RowMajor.rowCount_eq_zero_iff.mpr (by simp [hnil])
    · obtain ⟨others, store₂, hothers, ⟨rfl, hzero⟩ | ⟨primed, ledger, rfl, hprimed, holds⟩⟩ :=
        ih (fun source h => known (List.mem_cons_of_mem _ h)) holds
      · refine ⟨none, store₂, ?_, .inl ⟨rfl, ?_⟩⟩
        · simp [Node.primeAll, Run.bind_apply, Run.map_apply, hfirst, hothers]
        · rw [List.map_cons, RowMajor.rowCount_cons, hzero, mul_zero]
      · refine ⟨some ((traversal, x) :: primed), store₂, ?_,
          .inr ⟨_, _, rfl, .cons traversal hx hprimed, ?_⟩⟩
        · simp [Node.primeAll, Run.bind_apply, Run.map_apply, hfirst, hothers]
        · rwa [Multiset.cons_add, ← Multiset.add_cons]

/-- The first row is pulled by itself and leaves a tree that stands on it. -/
lemma prime_primes {source : σ} {others : List σ} (known : source :: others ⊆ sources)
    {store : ω} {frame : Multiset (τ × Seq α)} (holds : replay.Holds store frame) :
    ∃ result store', Node.prime start pull source others store = some (result, store') ∧
      ((result = none ∧ rowCount ((source :: others).map elements) = 0) ∨
        ∃ head primed ledger,
          result = some (Node.assemble head (others.zip primed), head.2 :: primed.map (·.2)) ∧
          Primed elements (source :: others) (head :: primed) ledger ∧
          replay.Holds store' (ledger + frame)) := by
  obtain ⟨result, store₁, hothers, ⟨rfl, hzero⟩ | ⟨primed, ledger, rfl, hprimed, holds⟩⟩ :=
    replay.primeAll_primes (fun source h => known (List.mem_cons_of_mem _ h)) holds
  · refine ⟨none, store₁, by simp [Node.prime, Run.bind_apply, hothers], .inl ⟨rfl, ?_⟩⟩
    rw [List.map_cons, RowMajor.rowCount_cons, hzero, mul_zero]
  · obtain ⟨first, store₂, hfirst, ⟨rfl, hnil⟩ | ⟨traversal, x, rfl, hx, holds⟩⟩ :=
      replay.primeOne_primes (known List.mem_cons_self) holds
    · refine ⟨none, store₂, ?_, .inl ⟨rfl, ?_⟩⟩
      · simp [Node.prime, Run.bind_apply, hothers, hfirst]
      · exact RowMajor.rowCount_eq_zero_iff.mpr (by simp [hnil])
    · refine ⟨_, store₂, ?_, .inr ⟨(traversal, x), primed, _, rfl, .cons traversal hx hprimed, ?_⟩⟩
      · simp [Node.prime, Run.bind_apply, hothers, hfirst]
      · rwa [Multiset.cons_add]

end Replay

end Traversals
