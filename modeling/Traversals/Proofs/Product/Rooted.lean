import Traversals.Proofs.Product.Tree

/-!
# Rooted trees

A tree that is rooted at a source has one level for each source from there on.
Whatever is delivered, a fill of it appends one element of each of these
sources, in their order, or it hands the row back as it was. What a level has
appended before the levels below it came to an end is taken off again.

Where traversals and elements come from is said by predicates, one for each
source, that starts and pulls keep.
-/

namespace Traversals

variable {ω σ τ α : Type}

/-- Where traversals and elements come from, source by source. -/
structure Origins (start : Start ω σ τ) (pull : Pull ω τ α) where
  source : ℕ → σ → Prop
  traversal : ℕ → τ → Prop
  element : ℕ → α → Prop
  started : ∀ {c source₁ traversal₁ store store'}, source c source₁ →
    start source₁ store = some (traversal₁, store') → traversal c traversal₁
  pulled : ∀ {c traversal₁ traversal₂ answer store store'}, traversal c traversal₁ →
    pull traversal₁ store = some ((answer, traversal₂), store') →
    traversal c traversal₂ ∧ ∀ x ∈ answer, element c x

namespace Origins

variable {start : Start ω σ τ} {pull : Pull ω τ α} (origins : Origins start pull) (last : ℕ)

/-- The sources with these numbers, from `i` on up to the last one. -/
structure Listed (i : ℕ) (others : List σ) : Prop where
  length_eq : i + others.length = last
  source : ∀ k source, others[k]? = some source → origins.source (i + k) source

/-- A tree with one level for each source from `i` on. A level has an element
just when it has a tree below it. -/
inductive Rooted : ℕ → Node σ τ α → Prop
  | leaf {i : ℕ} {traversal : τ} (own : origins.traversal i traversal) (length_eq : i + 1 = last) :
      Rooted i (.leaf traversal)
  | bare {i : ℕ} {head : τ} {below : σ} {rest : List σ} (own : origins.traversal i head)
      (listed : origins.Listed last (i + 1) (below :: rest)) :
      Rooted i (.branch head none none below rest)
  | branch {i : ℕ} {head : τ} {x : α} {tail : Node σ τ α} {below : σ} {rest : List σ}
      (own : origins.traversal i head) (current : origins.element i x)
      (listed : origins.Listed last (i + 1) (below :: rest)) (inner : Rooted (i + 1) tail) :
      Rooted i (.branch head (some x) (some tail) below rest)

/-- A row is extended by an element of each source from `i` on, or by nothing. -/
inductive Appends (i : ℕ) (row : List α) : Bool × List α → Prop
  | whole {entries : List α} (length_eq : i + entries.length = last)
      (element : ∀ k x, entries[k]? = some x → origins.element (i + k) x) :
      Appends i row (true, row ++ entries)
  | nothing : Appends i row (false, row)

variable {origins last} {i : ℕ}

lemma Listed.below {below : σ} {rest : List σ} (listed : origins.Listed last i (below :: rest)) :
    origins.source i below ∧ origins.Listed last (i + 1) rest := by
  refine ⟨listed.source 0 below rfl, ?_, ?_⟩
  · have hlength := listed.length_eq
    rw [List.length_cons] at hlength
    omega
  · intro k source hsource
    have hlisted := listed.source (k + 1) source (by simpa using hsource)
    rwa [Nat.add_assoc, Nat.add_comm 1]

lemma Rooted.level {head : τ} {current : Option α} {tail : Option (Node σ τ α)} {below : σ}
    {rest : List σ} (rooted : origins.Rooted last i (.branch head current tail below rest)) :
    origins.traversal i head ∧ origins.Listed last (i + 1) (below :: rest) := by
  cases rooted with
  | bare own listed => exact ⟨own, listed⟩
  | branch own current listed inner => exact ⟨own, listed⟩

/-- A level without an element, above some sources or none. -/
lemma Listed.awaiting {head : τ} {others : List σ} (own : origins.traversal i head)
    (listed : origins.Listed last (i + 1) others) :
    origins.Rooted last i (Node.awaiting head others : Node σ τ α) := by
  cases others with
  | nil => exact .leaf own listed.length_eq
  | cons below rest => exact .bare own listed

/-- A new sub-product of listed sources. -/
lemma Listed.rooted {source : σ} {others : List σ} {node : Node σ τ α} {store store' : ω}
    (listed : origins.Listed last i (source :: others))
    (hstart : Node.start start source others store = some (node, store')) :
    origins.Rooted last i node := by
  obtain ⟨head, hhead, rfl⟩ := Node.exists_start hstart
  obtain ⟨hsource, hothers⟩ := listed.below
  exact hothers.awaiting (origins.started hsource hhead)

section Appends

variable {row extended : List α}

lemma Appends.exists_entries (appends : origins.Appends last i row (true, extended)) :
    ∃ entries, extended = row ++ entries ∧ i + entries.length = last ∧
      ∀ k x, entries[k]? = some x → origins.element (i + k) x := by
  generalize hreply : (true, extended) = reply at appends
  cases appends with
  | nothing => cases hreply
  | @whole entries length_eq element =>
    cases hreply
    exact ⟨entries, rfl, length_eq, element⟩

lemma Appends.eq_row (appends : origins.Appends last i row (false, extended)) :
    extended = row := by
  generalize hreply : (false, extended) = reply at appends
  cases appends with
  | whole _ _ => cases hreply
  | nothing => cases hreply; rfl

lemma Appends.length_eq (appends : origins.Appends last i row (true, extended)) :
    i + extended.length = row.length + last := by
  obtain ⟨entries, rfl, length_eq, -⟩ := appends.exists_entries
  rw [List.length_append]
  omega

/-- An element in front of the rows of the level below. -/
lemma Appends.cons {x : α} (current : origins.element i x)
    (appends : origins.Appends last (i + 1) (row ++ [x]) (true, extended)) :
    origins.Appends last i row (true, extended) := by
  obtain ⟨entries, rfl, length_eq, element⟩ := appends.exists_entries
  rw [List.append_assoc, List.singleton_append]
  refine .whole (by rw [List.length_cons]; omega) ?_
  rintro (_ | k) y hy
  · obtain rfl : x = y := by simpa using hy
    exact current
  · have helement := element k y (by simpa using hy)
    rwa [Nat.add_assoc, Nat.add_comm 1] at helement

end Appends

variable (origins last)

/-- A fill keeps the tree rooted and appends a whole row or nothing. -/
lemma fill_appends {budget : ℕ} {row : List α} {reply : Bool × List α} {node node' : Node σ τ α}
    {store store' : ω} (rooted : origins.Rooted last i node)
    (hfill : Node.fill start pull budget row node store = some ((reply, node'), store')) :
    origins.Rooted last i node' ∧ origins.Appends last i row reply := by
  have hfilled := Node.filled_of_fill hfill
  clear hfill
  induction hfilled generalizing i with
  | element hpull =>
    cases rooted with
    | leaf own length_eq =>
      obtain ⟨own', helement⟩ := origins.pulled own hpull
      refine ⟨.leaf own' length_eq, .whole length_eq ?_⟩
      rintro (_ | k) y hy
      · exact helement y (by simpa using hy)
      · simp at hy
  | ended hpull =>
    cases rooted with
    | leaf own length_eq => exact ⟨.leaf (origins.pulled own hpull).1 length_eq, .nothing⟩
  | held _ ih =>
    cases rooted with
    | branch own current listed inner =>
      obtain ⟨inner', appends⟩ := ih inner
      exact ⟨.branch own current listed inner', appends.cons current⟩
  | carry _ _ ihbelow ihlevel =>
    cases rooted with
    | branch own current listed inner =>
      -- The row is taken off down to where it was before the element.
      obtain rfl := (ihbelow inner).2.eq_row
      rw [List.take_left] at ihlevel
      exact ihlevel (.bare own listed)
  | exhausted bare hpull =>
    obtain ⟨own, listed⟩ := rooted.level
    exact ⟨.bare (origins.pulled own hpull).1 listed, .nothing⟩
  | taken bare hpull hstart _ ih =>
    obtain ⟨own, listed⟩ := rooted.level
    obtain ⟨own', helement⟩ := origins.pulled own hpull
    exact ih (.branch own' (helement _ rfl) listed (listed.rooted hstart))

/-- Traversals that were pulled once, with the elements, for the sources from `i` on. -/
inductive Primed : ℕ → List σ → List (τ × α) → Prop
  | nil {i : ℕ} (length_eq : i = last) : Primed i [] []
  | cons {i : ℕ} {source : σ} {others : List σ} {first : τ × α} {primed : List (τ × α)}
      (listed : origins.Listed last i (source :: others)) (own : origins.traversal i first.1)
      (current : origins.element i first.2) (later : Primed (i + 1) others primed) :
      Primed i (source :: others) (first :: primed)

section Prime

variable {origins last} {source : σ} {others : List σ} {head : τ × α} {primed : List (τ × α)}
  {store store' : ω}

lemma primeOne_primed {c : ℕ} (hsource : origins.source c source)
    (hprime : Node.primeOne start pull source store = some (some head, store')) :
    origins.traversal c head.1 ∧ origins.element c head.2 := by
  obtain ⟨traversal, store₁, hstart, hprime⟩ := Run.bind_eq_some_iff.mp hprime
  obtain ⟨⟨element, traversal'⟩, store₂, hpull, hprime⟩ := Run.bind_eq_some_iff.mp hprime
  obtain ⟨own, helement⟩ := origins.pulled (origins.started hsource hstart) hpull
  cases element with
  | none => cases hprime
  | some x =>
    cases hprime
    exact ⟨own, helement x rfl⟩

lemma primeAll_primed {components : List σ} (listed : origins.Listed last i components)
    (hprime : Node.primeAll start pull components store = some (some primed, store')) :
    origins.Primed last i components primed := by
  induction components generalizing i primed store with
  | nil =>
    cases hprime
    exact .nil listed.length_eq
  | cons source others ih =>
    obtain ⟨hsource, hothers⟩ := listed.below
    obtain ⟨first, store₁, hfirst, hprime⟩ := Run.bind_eq_some_iff.mp hprime
    cases first with
    | none => cases hprime
    | some first =>
      obtain ⟨later, store₂, hlater, hprime⟩ := Run.bind_eq_some_iff.mp hprime
      cases later with
      | none => cases hprime
      | some later =>
        cases hprime
        obtain ⟨own, current⟩ := primeOne_primed hsource hfirst
        exact .cons listed own current (ih hothers hlater)

lemma Primed.length_eq {components : List σ} (h : origins.Primed last i components primed) :
    primed.length = components.length := by
  induction h with
  | nil _ => rfl
  | cons _ _ _ _ ih => simp [ih]

/-- They make up a rooted tree. -/
lemma Primed.rooted (h : origins.Primed last i (source :: others) (head :: primed)) :
    origins.Rooted last i (Node.assemble head (others.zip primed)) := by
  induction others generalizing i source head primed with
  | nil =>
    cases h with
    | cons listed own current later => cases later; exact .leaf own listed.length_eq
  | cons below rest ih =>
    cases h with
    | cons listed own current later =>
      cases later with
      | @cons _ _ _ second primed listed' own' current' later =>
        have hrest : (rest.zip primed).map (·.1) = rest := List.map_fst_zip later.length_eq.ge
        rw [List.zip_cons_cons, Node.assemble, hrest]
        exact .branch own current listed' (ih (.cons listed' own' current' later))

lemma Primed.appends {components : List σ} (h : origins.Primed last i components primed)
    (row : List α) : origins.Appends last i row (true, row ++ primed.map (·.2)) := by
  induction h generalizing row with
  | nil length_eq => exact .whole length_eq (by simp)
  | @cons _ _ _ first _ _ _ current _ ih =>
    have whole := (ih (row ++ [first.2])).cons current
    rwa [List.append_assoc] at whole

/-- The first tree is rooted at the first source and comes with a whole row. -/
lemma prime_appends {root : Node σ τ α} {row : List α}
    (listed : origins.Listed last i (source :: others))
    (hprime : Node.prime start pull source others store = some (some (root, row), store')) :
    origins.Rooted last i root ∧ origins.Appends last i [] (true, row) := by
  obtain ⟨primed, store₁, hothers, hprime⟩ := Run.bind_eq_some_iff.mp hprime
  cases primed with
  | none => cases hprime
  | some primed =>
    obtain ⟨head, store₂, hhead, hprime⟩ := Run.bind_eq_some_iff.mp hprime
    cases head with
    | none => cases hprime
    | some head =>
      cases hprime
      obtain ⟨own, current⟩ := primeOne_primed listed.below.1 hhead
      have primes : origins.Primed last i (source :: others) (head :: primed) :=
        .cons listed own current (primeAll_primed listed.below.2 hothers)
      exact ⟨primes.rooted, primes.appends []⟩

end Prime

end Origins

namespace Node

/-- The trees that come up over some sources, each with the number of the source
it is rooted at: started ones, the first one, their sub-products, and whatever a
fill has made of them. The store may change in any way in between. -/
inductive Grown (start : Start ω σ τ) (pull : Pull ω τ α) (sources : List σ) :
    ℕ → Node σ τ α → Prop
  | started {i : ℕ} {source : σ} {others : List σ} {node : Node σ τ α} {store store' : ω}
      (here : sources.drop i = source :: others)
      (hstart : Node.start start source others store = some (node, store')) :
      Grown start pull sources i node
  | primed {source : σ} {others : List σ} {root : Node σ τ α} {row : List α} {store store' : ω}
      (here : sources = source :: others)
      (hprime : prime start pull source others store = some (some (root, row), store')) :
      Grown start pull sources 0 root
  | filled {i budget : ℕ} {row : List α} {reply : Bool × List α} {node node' : Node σ τ α}
      {store store' : ω} (grown : Grown start pull sources i node)
      (hfill : fill start pull budget row node store = some ((reply, node'), store')) :
      Grown start pull sources i node'
  | inner {i : ℕ} {head : τ} {current : Option α} {tail : Node σ τ α} {below : σ} {rest : List σ}
      (grown : Grown start pull sources i (.branch head current (some tail) below rest)) :
      Grown start pull sources (i + 1) tail

variable {start : Start ω σ τ} {pull : Pull ω τ α} {sources : List σ} {i : ℕ} {node : Node σ τ α}

lemma listed_drop {origins : Origins start pull} {source : σ} {others : List σ}
    (known : ∀ c source, sources[c]? = some source → origins.source c source)
    (here : sources.drop i = source :: others) :
    origins.Listed sources.length i (source :: others) := by
  rw [← here]
  constructor
  · have hlength := congrArg List.length here
    rw [List.length_drop, List.length_cons] at hlength
    rw [List.length_drop]
    omega
  · intro k source hsource
    rw [List.getElem?_drop] at hsource
    exact known (i + k) source hsource

/-- A tree that has come up over some sources is rooted among them. -/
lemma Grown.rooted {origins : Origins start pull}
    (known : ∀ c source, sources[c]? = some source → origins.source c source)
    (grown : Grown start pull sources i node) : origins.Rooted sources.length i node := by
  induction grown with
  | started here hstart => exact (listed_drop known here).rooted hstart
  | primed here hprime =>
    have listed := listed_drop known (List.drop_zero.trans here)
    exact (Origins.prime_appends listed hprime).1
  | filled _ hfill ih => exact (origins.fill_appends _ ih hfill).1
  | inner _ ih => cases ih; assumption

end Node

end Traversals
