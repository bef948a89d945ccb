import Traversals.Proofs.Exhaustion
import Traversals.Proofs.Product.Rooted

/-!
# Labelled products

What a product does depends on the answers of its traversals, but not on what
sources, traversals and elements are. So labels may be put on the sources and
passed on to the traversals and to the elements: without the labels, the run is
the same. In a row each element bears the label of the source of its place.
-/

namespace Traversals

variable {ω σ τ α σ' τ' α' : Type}

namespace Node

/-- A tree over other sources, traversals and elements. -/
def map (f : σ → σ') (g : τ → τ') (h : α → α') : Node σ τ α → Node σ' τ' α'
  | .leaf traversal => .leaf (g traversal)
  | .branch head current none below rest =>
      .branch (g head) (current.map h) none (f below) (rest.map f)
  | .branch head current (some tail) below rest =>
      .branch (g head) (current.map h) (some (map f g h tail)) (f below) (rest.map f)

/-- Traversals that differ by the names of sources, traversals and elements. -/
structure Renames (start : Start ω σ τ) (pull : Pull ω τ α) (start' : Start ω σ' τ')
    (pull' : Pull ω τ' α') (f : σ → σ') (g : τ → τ') (h : α → α') : Prop where
  start_eq : ∀ source, start' (f source) = g <$> start source
  pull_eq : ∀ traversal, pull' (g traversal) =
    (fun result => (result.1.map h, g result.2)) <$> pull traversal

section Renames

variable {start : Start ω σ τ} {pull : Pull ω τ α} {start' : Start ω σ' τ'}
  {pull' : Pull ω τ' α'} {f : σ → σ'} {g : τ → τ'} {h : α → α'}
  (renames : Renames start pull start' pull' f g h)

include renames

lemma Renames.started (source : σ) (others : List σ) :
    Node.start start' (f source) (others.map f) =
      (Node.map f g h <$> Node.start start source others : Run ω (Node σ' τ' α')) := by
  simp only [Node.start, renames.start_eq, map_bind, bind_map_left]
  refine bind_congr fun head => ?_
  cases others <;> rfl

/-- What a fill of a renamed tree gives. -/
lemma Renames.filled (budget : ℕ) (row : List α) (node : Node σ τ α) :
    Node.fill start' pull' budget (row.map h) (node.map f g h) =
      (fun result => ((result.1.1, result.1.2.map h), result.2.map f g h)) <$>
        Node.fill start pull budget row node := by
  induction budget generalizing row node with
  | zero => rfl
  | succ budget ih =>
    have bare : ∀ head below rest,
        Node.fill start' pull' (budget + 1) (row.map h)
            (Node.branch (g head) none none (f below) (rest.map f)) =
          (fun result => ((result.1.1, result.1.2.map h), result.2.map f g h)) <$>
            Node.fill start pull (budget + 1) row (.branch head none none below rest) := by
      intro head below rest
      simp only [Node.fill, renames.pull_eq, map_bind, bind_map_left]
      refine bind_congr ?_
      rintro ⟨_ | x, head⟩
      · rfl
      · simp only [Option.map_some, renames.started, map_bind, bind_map_left]
        exact bind_congr fun tail => ih row (.branch head (some x) (some tail) below rest)
    cases node with
    | leaf traversal =>
      simp only [Node.map, Node.fill, renames.pull_eq, map_bind, bind_map_left]
      refine bind_congr ?_
      rintro ⟨_ | x, traversal⟩
      · rfl
      · simp
        rfl
    | branch head current tail below rest =>
      -- Only with an element and a tree below it is there a row to go on with.
      rcases current with _ | x
      · rcases tail with _ | tail
        · exact bare head below rest
        · exact bare head below rest
      · rcases tail with _ | tail
        · exact bare head below rest
        · have inner := ih (row ++ [x]) tail
          rw [List.map_append, List.map_singleton] at inner
          simp only [Node.map, Node.fill, Option.map_some, inner, map_bind, bind_map_left,
            List.length_map, ← List.map_take]
          refine bind_congr ?_
          rintro ⟨⟨_ | _, extended⟩, tail'⟩
          · exact ih (extended.take row.length) (.branch head none none below rest)
          · rfl

lemma Renames.primedOne (source : σ) : Node.primeOne start' pull' (f source) =
    Option.map (fun first => (g first.1, h first.2)) <$> Node.primeOne start pull source := by
  simp only [Node.primeOne, renames.start_eq, map_bind, bind_map_left]
  refine bind_congr fun traversal => ?_
  simp only [renames.pull_eq, bind_map_left]
  refine bind_congr ?_
  rintro ⟨_ | x, traversal⟩ <;> rfl

lemma Renames.primedAll (components : List σ) : Node.primeAll start' pull' (components.map f) =
    Option.map (List.map fun first => (g first.1, h first.2)) <$>
      Node.primeAll start pull components := by
  induction components with
  | nil => rfl
  | cons source others ih =>
    simp only [List.map_cons, Node.primeAll, renames.primedOne, map_bind, bind_map_left, ih]
    refine bind_congr ?_
    rintro (_ | first)
    · rfl
    · simp only [Option.map_some, map_bind]
      refine bind_congr ?_
      rintro (_ | later) <;> rfl

omit renames in
lemma map_assemble (head : τ × α) (others : List (σ × τ × α)) :
    assemble (g head.1, h head.2) (others.map fun level => (f level.1, g level.2.1, h level.2.2)) =
      (assemble head others).map f g h := by
  induction others generalizing head with
  | nil => rfl
  | cons level others ih =>
    obtain ⟨below, second⟩ := level
    simp [assemble, Node.map, ih second, Function.comp_def]

lemma Renames.primed (source : σ) (others : List σ) :
    Node.prime start' pull' (f source) (others.map f) =
      Option.map (fun first => (first.1.map f g h, first.2.map h)) <$>
        Node.prime start pull source others := by
  simp only [Node.prime, renames.primedAll, renames.primedOne, map_bind, bind_map_left]
  refine bind_congr ?_
  rintro (_ | primed)
  · rfl
  · simp only [Option.map_some, map_bind]
    refine bind_congr ?_
    rintro (_ | head)
    · rfl
    · have levels : (others.map f).zip (primed.map fun first => (g first.1, h first.2)) =
          (others.zip primed).map fun level => (f level.1, g level.2.1, h level.2.2) := by
        rw [List.zip_map]
        rfl
      simp [levels, map_assemble, Function.comp_def]

/-- A renamed tree has come up just as the tree did. -/
lemma Renames.exists_grown (surjective : Function.Surjective h) {sources : List σ} {i : ℕ}
    {node' : Node σ' τ' α'} (grown : Grown start' pull' (sources.map f) i node') :
    ∃ node : Node σ τ α, Grown start pull sources i node ∧ node.map f g h = node' := by
  induction grown with
  | @started i source' others' node' store store' here hstart =>
    rw [← List.map_drop] at here
    obtain ⟨source, others, there, rfl, rfl⟩ := List.map_eq_cons_iff.mp here
    rw [renames.started, Run.map_apply] at hstart
    obtain ⟨⟨node, store₁⟩, hnode, hresult⟩ := Option.map_eq_some_iff.mp hstart
    cases hresult
    exact ⟨node, .started there hnode, rfl⟩
  | primed here hprime =>
    obtain ⟨source, others, there, rfl, rfl⟩ := List.map_eq_cons_iff.mp here
    rw [renames.primed, Run.map_apply] at hprime
    obtain ⟨⟨first, store₁⟩, hfirst, hresult⟩ := Option.map_eq_some_iff.mp hprime
    cases first with
    | none => cases hresult
    | some first =>
      cases hresult
      exact ⟨first.1, .primed there hfirst, rfl⟩
  | @filled i budget row' reply node₁ node₂ store store' _ hfill ih =>
    obtain ⟨node, grown, rfl⟩ := ih
    obtain ⟨row, rfl⟩ := surjective.list_map row'
    rw [renames.filled, Run.map_apply] at hfill
    obtain ⟨⟨⟨reply, later⟩, store₁⟩, hlater, hresult⟩ := Option.map_eq_some_iff.mp hfill
    cases hresult
    exact ⟨later, .filled grown hlater, rfl⟩
  | inner _ ih =>
    obtain ⟨node, grown, hnode⟩ := ih
    match node with
    | .branch _ _ (some tail) _ _ =>
      cases hnode
      exact ⟨tail, .inner grown, rfl⟩

end Renames

end Node

section Labels

/-- A traversal bears the label of its source. -/
def labelStart (start : Start ω σ τ) : Start ω (σ × ℕ) (τ × ℕ) := fun source =>
  (fun traversal => (traversal, source.2)) <$> start source.1

/-- An element bears the label of the traversal that delivers it. -/
def labelPull (pull : Pull ω τ α) : Pull ω (τ × ℕ) (α × ℕ) := fun traversal =>
  (fun answer => (answer.1.map fun x => (x, traversal.2), (answer.2, traversal.2))) <$>
    pull traversal.1

variable (start : Start ω σ τ) (pull : Pull ω τ α)

lemma renames_labelled : Node.Renames (labelStart start) (labelPull pull) start pull
    Prod.fst Prod.fst Prod.fst where
  start_eq source := by simp [labelStart]
  pull_eq traversal := by simp [labelPull, Function.comp_def]

/-- Labels tell the source. -/
def Origins.ofLabels : Origins (labelStart start) (labelPull pull) where
  source c source := source.2 = c
  traversal c traversal := traversal.2 = c
  element c x := x.2 = c
  started := by
    intro c source traversal store store' hsource hstart
    rw [labelStart, Run.map_apply] at hstart
    obtain ⟨result, -, hresult⟩ := Option.map_eq_some_iff.mp hstart
    cases hresult
    exact hsource
  pulled := by
    intro c traversal later answer store store' htraversal hpull
    rw [labelPull, Run.map_apply] at hpull
    obtain ⟨result, -, hresult⟩ := Option.map_eq_some_iff.mp hpull
    cases hresult
    refine ⟨htraversal, fun x hx => ?_⟩
    obtain ⟨y, -, rfl⟩ := Option.map_eq_some_iff.mp hx
    exact htraversal

/-- The traversals of a source: started ones, and what pulls make of them. -/
inductive TraversalOf (source : σ) : τ → Prop
  | started {traversal : τ} {store store' : ω}
      (hstart : start source store = some (traversal, store')) : TraversalOf source traversal
  | pulled {traversal later : τ} {answer : Option α} {store store' : ω}
      (earlier : TraversalOf source traversal)
      (hpull : pull traversal store = some ((answer, later), store')) : TraversalOf source later

/-- What a traversal of a source delivers. -/
def DeliveredBy (source : σ) (x : α) : Prop :=
  ∃ traversal later store store', TraversalOf start pull source traversal ∧
    pull traversal store = some ((some x, later), store')

/-- Whatever is delivered comes from some source. -/
def Origins.ofSources (sources : List σ) : Origins start pull where
  source c source := sources[c]? = some source
  traversal c traversal := ∃ source, sources[c]? = some source ∧
    TraversalOf start pull source traversal
  element c x := ∃ source, sources[c]? = some source ∧ DeliveredBy start pull source x
  started := fun hsource hstart => ⟨_, hsource, .started hstart⟩
  pulled := by
    rintro c traversal later answer store store' ⟨source, hsource, own⟩ hpull
    refine ⟨⟨source, hsource, .pulled own hpull⟩, ?_⟩
    rintro x rfl
    exact ⟨source, hsource, traversal, later, store, store', own, hpull⟩

variable {start pull} {sources : List σ} {i : ℕ} {node : Node σ τ α}

/-- A tree over some sources is rooted among them. -/
lemma Node.Grown.rooted_ofSources (grown : Node.Grown start pull sources i node) :
    (Origins.ofSources start pull sources).Rooted sources.length i node :=
  grown.rooted fun _ _ hsource => hsource

/-- The labels of a tree over numbered sources are their numbers. -/
lemma Node.Grown.rooted_ofLabels {node : Node (σ × ℕ) (τ × ℕ) (α × ℕ)}
    (grown : Node.Grown (labelStart start) (labelPull pull) sources.zipIdx i node) :
    (Origins.ofLabels start pull).Rooted sources.length i node := by
  rw [← List.length_zipIdx]
  refine grown.rooted fun c source hsource => ?_
  rw [List.getElem?_zipIdx] at hsource
  obtain ⟨_, -, rfl⟩ := Option.map_eq_some_iff.mp hsource
  exact Nat.zero_add c

end Labels

namespace CartesianProduct

/-- The sources stay and the tree is one of theirs. -/
structure Kept (start : Start ω σ τ) (pull : Pull ω τ α) (sources : List σ)
    (product : CartesianProduct σ τ α) : Prop where
  sources_eq : product.sources = sources
  root : ∀ root ∈ product.root, Node.Grown start pull sources 0 root

variable {start : Start ω σ τ} {pull : Pull ω τ α} {sources : List σ}
  {product product' : CartesianProduct σ τ α} {store store' : ω} {answer : Option (List α)}

lemma Kept.first (kept : Kept start pull sources product)
    (hfirst : CartesianProduct.first start pull product store =
      some ((answer, product'), store')) :
    Kept start pull sources product' ∧ ∀ row ∈ answer, row.length = sources.length := by
  obtain rfl := kept.sources_eq
  unfold CartesianProduct.first at hfirst
  cases hsources : product.sources with
  | nil =>
    simp only [hsources] at hfirst
    cases hfirst
    exact ⟨⟨rfl, hsources ▸ kept.root⟩, by simp⟩
  | cons source others =>
    simp only [hsources] at hfirst
    obtain ⟨primed, store₁, hprime, hfirst⟩ := Run.bind_eq_some_iff.mp hfirst
    rcases primed with _ | ⟨root, row⟩
    · cases hfirst
      exact ⟨⟨rfl, hsources ▸ kept.root⟩, by simp⟩
    · cases hfirst
      have listed : (Origins.ofSources start pull (source :: others)).Listed _ 0 _ :=
        Node.listed_drop (fun _ _ hsource => hsource) List.drop_zero
      have whole := (Origins.prime_appends listed hprime).2.length_eq
      refine ⟨⟨rfl, ?_⟩, ?_⟩
      · rintro _ ⟨⟩
        exact .primed rfl hprime
      · rintro _ ⟨⟩
        simpa using whole

lemma Kept.later {budget : ℕ} (kept : Kept start pull sources product)
    (hlater : CartesianProduct.later start pull budget product store =
      some ((answer, product'), store')) :
    Kept start pull sources product' ∧ ∀ row ∈ answer, row.length = sources.length := by
  cases hroot : product.root with
  | none =>
    simp only [CartesianProduct.later, hroot] at hlater
    cases hlater
    exact ⟨kept, by simp⟩
  | some root =>
    simp only [CartesianProduct.later, hroot] at hlater
    obtain ⟨⟨⟨filled, row⟩, root'⟩, store₁, hfill, hlater⟩ := Run.bind_eq_some_iff.mp hlater
    have grown := kept.root root hroot
    cases filled with
    | false =>
      cases hlater
      exact ⟨⟨kept.sources_eq, by simp⟩, by simp⟩
    | true =>
      cases hlater
      have whole := ((Origins.ofSources start pull sources).fill_appends _ grown.rooted_ofSources
        hfill).2.length_eq
      refine ⟨⟨kept.sources_eq, ?_⟩, ?_⟩
      · rintro _ ⟨⟩
        exact .filled grown hfill
      · rintro _ ⟨⟩
        simpa using whole

/-- A row has an element of every source. -/
lemma Kept.next {budget : ℕ} (kept : Kept start pull sources product)
    (hnext : CartesianProduct.next start pull budget product store =
      some ((answer, product'), store')) :
    Kept start pull sources product' ∧ ∀ row ∈ answer, row.length = sources.length := by
  cases hphase : product.phase with
  | exhausted =>
    simp only [CartesianProduct.next, hphase] at hnext
    cases hnext
    exact ⟨kept, by simp⟩
  | fresh =>
    simp only [CartesianProduct.next, hphase] at hnext
    exact kept.first hnext
  | running =>
    simp only [CartesianProduct.next, hphase] at hnext
    exact kept.later hnext

lemma Kept.rows {log : List (ℕ × Option (List α))}
    (replies : Replies (CartesianProduct.next start pull) product log product')
    (kept : Kept start pull sources product) :
    Kept start pull sources product' ∧
      ∀ budget row, (budget, some row) ∈ log → row.length = sources.length := by
  induction replies with
  | done _ => exact ⟨kept, by simp⟩
  | step performed _ ih =>
    obtain ⟨kept₁, hrow⟩ := kept.next performed
    obtain ⟨kept', hrows⟩ := ih kept₁
    refine ⟨kept', fun budget row hmem => ?_⟩
    rcases List.mem_cons.mp hmem with hfirst | hlater
    · cases hfirst
      exact hrow row rfl
    · exact hrows budget row hlater

end CartesianProduct

/-- A fill of a tree that has come up over some sources, whatever these deliver,
appends one element of each source from the root of the tree on, and the one at
each place is delivered by a traversal of the source of that number, or it hands
the row back as it was. The labels say the same of equal sources and equal
elements: without them the run is the same. So the rows of a product are as
long as the list of its sources. -/
theorem fill_whole_or_nothing (start : Start ω σ τ) (pull : Pull ω τ α) (sources : List σ) :
    (∀ i node, Node.Grown start pull sources i node →
      (∀ budget row store filled extended node' store',
        Node.fill start pull budget row node store =
            some (((filled, extended), node'), store') →
          (filled = true → ∃ entries, extended = row ++ entries ∧
            entries.length = sources.length - i ∧
            ∀ k x, entries[k]? = some x → ∃ source, sources[i + k]? = some source ∧
              DeliveredBy start pull source x) ∧
          (filled = false → extended = row)) ∧
      ∃ labelled : Node (σ × ℕ) (τ × ℕ) (α × ℕ),
        Node.Grown (labelStart start) (labelPull pull) sources.zipIdx i labelled ∧
        labelled.map Prod.fst Prod.fst Prod.fst = node ∧
        ∀ budget row,
          Node.fill start pull budget (row.map Prod.fst) node =
            (fun result => ((result.1.1, result.1.2.map Prod.fst),
              result.2.map Prod.fst Prod.fst Prod.fst)) <$>
              Node.fill (labelStart start) (labelPull pull) budget row labelled ∧
          ∀ store extended labelled' store',
            Node.fill (labelStart start) (labelPull pull) budget row labelled store =
                some (((true, extended), labelled'), store') →
              extended.map Prod.snd =
                row.map Prod.snd ++ List.range' i (sources.length - i)) ∧
    ∀ log product,
      Replies (CartesianProduct.next start pull) (.ofSources sources) log product →
      ∀ budget row, (budget, some row) ∈ log → row.length = product.width := by
  constructor
  · intro i node grown
    constructor
    · intro budget row store filled extended node' store' hfill
      have appends := (Origins.fill_appends _ _ grown.rooted_ofSources hfill).2
      constructor
      · rintro rfl
        obtain ⟨entries, hextended, length_eq, element⟩ := appends.exists_entries
        exact ⟨entries, hextended, by omega, element⟩
      · rintro rfl
        exact appends.eq_row
    · have unlabelled := renames_labelled start pull
      rw [← List.zipIdx_map_fst 0 sources] at grown
      obtain ⟨labelled, hlabelled, hnode⟩ :=
        unlabelled.exists_grown Prod.fst_surjective grown
      refine ⟨labelled, hlabelled, hnode, fun budget row => ⟨?_, ?_⟩⟩
      · rw [← hnode]
        exact unlabelled.filled budget row labelled
      · intro store extended labelled' store' hfill
        obtain ⟨entries, rfl, length_eq, label⟩ :=
          (Origins.fill_appends _ _ hlabelled.rooted_ofLabels hfill).2.exists_entries
        have hlabels : entries.map Prod.snd = List.range' i (sources.length - i) := by
          refine List.ext_getElem (by simp; omega) fun k hk _ => ?_
          rw [List.length_map] at hk
          rw [List.getElem_map, List.getElem_range', Nat.one_mul]
          exact label k _ (List.getElem?_eq_getElem hk)
        rw [List.map_append, hlabels]
  · intro log product replies budget row hmem
    have kept : CartesianProduct.Kept start pull sources (.ofSources sources) :=
      ⟨rfl, by rintro _ ⟨⟩⟩
    obtain ⟨kept', hrows⟩ := kept.rows replies
    rw [CartesianProduct.width, kept'.sources_eq]
    exact hrows budget row hmem

end Traversals
