import Mathlib.Data.List.Forall2
import Traversals.Product.Rows
import Traversals.Proofs.Product.Journal
import Traversals.Proofs.Product.Tree

/-!
# Trees in balance

The tree of a product keeps the balance of its journal, whatever its sources
deliver and wherever it stands: a level starts the one below it once for each
element that it takes. The first row is the exception. It starts the components
out of order, but asks each of them once.
-/

namespace Traversals

variable {ω σ τ α : Type} {start : Start ω σ τ} {pull : Pull ω τ α}

namespace Tally

variable (tally : Tally start pull)

/-- A level of a tree with its number and those of the sources below it. -/
def Level (last i : ℕ) (head : τ) (others : List σ) : Prop :=
  tally.component head = i ∧ Numbered tally.componentOf (i + 1) others ∧ i + others.length = last

/-- The levels of a tree are numbered on. -/
def Follows (last : ℕ) : Node σ τ α → ℕ → Prop
  | .leaf traversal, i => tally.Level last i traversal []
  | .branch head _ none below rest, i => tally.Level last i head (below :: rest)
  | .branch head _ (some tail) below rest, i =>
      tally.Level last i head (below :: rest) ∧ Follows last tail (i + 1)

variable {tally} {last i : ℕ}

lemma Level.awaiting {head : τ} {others : List σ} (level : tally.Level last i head others) :
    tally.Follows last (Node.awaiting head others : Node σ τ α) i := by
  cases others <;> exact level

lemma Level.lt {head : τ} {below : σ} {rest : List σ}
    (level : tally.Level last i head (below :: rest)) : i < last := by
  have hlast := level.2.2
  rw [List.length_cons] at hlast
  omega

/-- The level below one, with a traversal of its own source. -/
lemma Level.below {head head' : τ} {below : σ} {rest : List σ}
    (level : tally.Level last i head (below :: rest))
    (hcomponent : tally.component head' = tally.componentOf below) :
    tally.Level last (i + 1) head' rest := by
  obtain ⟨-, ⟨hbelow, hrest⟩, hlast⟩ := level
  refine ⟨hcomponent.trans hbelow, hrest, ?_⟩
  rw [← hlast, List.length_cons]
  omega

lemma Follows.level {head : τ} {current : Option α} {tail : Option (Node σ τ α)} {below : σ}
    {rest : List σ} (follows : tally.Follows last (.branch head current tail below rest) i) :
    tally.Level last i head (below :: rest) := by
  cases tail with
  | none => exact follows
  | some tail => exact follows.1

/-- Filling a row, or finding none, keeps a tree's numbers and its balance. -/
lemma fills (tally : Tally start pull) {last i budget : ℕ} {row extended : List α} {filled : Bool}
    {node node' : Node σ τ α} {store store' : ω} (follows : tally.Follows last node i)
    (hfill : Node.fill start pull budget row node store =
      some (((filled, extended), node'), store')) :
    tally.Follows last node' i ∧
      Journal.Advances i last filled.toNat (tally.journal store) (tally.journal store') := by
  have hfilled := Node.filled_of_fill hfill
  generalize hreply : (filled, extended) = reply at hfilled
  clear hfill
  induction hfilled generalizing i filled extended with
  | element hpull =>
    cases hreply
    obtain ⟨hcomponent, hasked⟩ := tally.pull_eq hpull
    obtain ⟨hown, -, (rfl : i = last)⟩ := follows
    rw [hown] at hasked hcomponent
    refine ⟨⟨hcomponent, trivial, rfl⟩, ?_⟩
    rw [hasked]
    exact .row _ _ true
  | ended hpull =>
    cases hreply
    obtain ⟨hcomponent, hasked⟩ := tally.pull_eq hpull
    obtain ⟨hown, -, (rfl : i = last)⟩ := follows
    rw [hown] at hasked hcomponent
    refine ⟨⟨hcomponent, trivial, rfl⟩, ?_⟩
    rw [hasked]
    exact .ended _ _
  | held _ ih =>
    cases hreply
    obtain ⟨level, follows⟩ := follows
    obtain ⟨follows', hbelow⟩ := ih follows rfl
    exact ⟨⟨level, follows'⟩, hbelow.above⟩
  | carry _ _ ihbelow ihlevel =>
    obtain ⟨level, follows⟩ := follows
    obtain ⟨-, hbelow⟩ := ihbelow follows rfl
    obtain ⟨hnode, hlevel⟩ := ihlevel level hreply
    exact ⟨hnode, hbelow.above.trans hlevel⟩
  | exhausted _ hpull =>
    cases hreply
    have level := follows.level
    obtain ⟨hcomponent, hasked⟩ := tally.pull_eq hpull
    rw [level.1] at hasked
    refine ⟨⟨hcomponent.trans level.1, level.2⟩, ?_⟩
    rw [hasked]
    exact .ended _ _
  | taken _ hpull htail _ ih =>
    have level := follows.level
    obtain ⟨hcomponent, hasked⟩ := tally.pull_eq hpull
    obtain ⟨head, hstart, rfl⟩ := Node.exists_start htail
    obtain ⟨hbelow, hstarted⟩ := tally.start_eq hstart
    rw [level.1] at hasked
    have level' : tally.Level last i _ _ := ⟨hcomponent.trans level.1, level.2⟩
    obtain ⟨hfollows, hadvances⟩ := ih ⟨level', (level.below hbelow).awaiting⟩ hreply
    refine ⟨hfollows, .trans ?_ hadvances⟩
    rw [hstarted, hasked, level.2.1.1]
    exact .taken _ _ level.lt

end Tally

/-- Each of some components has been started once and has delivered once. -/
def Journal.Opens (components : List ℕ) (before after : Journal) : Prop :=
  ∀ c, after.started c = before.started c + components.count c ∧
    after.delivered c = before.delivered c + components.count c

namespace Tally

variable (tally : Tally start pull)

lemma primeOne_opens {source : σ} {traversal : τ} {x : α} {store store' : ω}
    (hprime : Node.primeOne start pull source store = some (some (traversal, x), store')) :
    tally.component traversal = tally.componentOf source ∧
      Journal.Opens [tally.componentOf source] (tally.journal store) (tally.journal store') := by
  obtain ⟨traversal₁, store₁, hstart, hprime⟩ := Run.bind_eq_some_iff.mp hprime
  obtain ⟨⟨element, traversal₂⟩, store₂, hpull, hprime⟩ := Run.bind_eq_some_iff.mp hprime
  obtain ⟨hcomponent, hstarted⟩ := tally.start_eq hstart
  obtain ⟨hcomponent', hasked⟩ := tally.pull_eq hpull
  cases element <;> cases hprime
  refine ⟨hcomponent'.trans hcomponent, fun c => ?_⟩
  rw [hasked, hstarted, hcomponent]
  simp [List.count_cons]

lemma primeAll_opens {components : List σ} {primed : List (τ × α)} {store store' : ω}
    (hprime : Node.primeAll start pull components store = some (some primed, store')) :
    List.Forall₂ (fun source first => tally.component first.1 = tally.componentOf source)
        components primed ∧
      Journal.Opens (components.map tally.componentOf) (tally.journal store)
        (tally.journal store') := by
  induction components generalizing primed store with
  | nil =>
    cases hprime
    exact ⟨.nil, fun c => by simp⟩
  | cons source rest ih =>
    obtain ⟨first, store₁, hfirst, hprime⟩ := Run.bind_eq_some_iff.mp hprime
    cases first with
    | none => cases hprime
    | some first =>
      obtain ⟨others, store₂, hothers, hprime⟩ := Run.bind_eq_some_iff.mp hprime
      cases others with
      | none => cases hprime
      | some others =>
        cases hprime
        obtain ⟨hcomponent, hopens⟩ := tally.primeOne_opens hfirst
        obtain ⟨hcomponents, hopens'⟩ := ih hothers
        refine ⟨.cons hcomponent hcomponents, fun c => ?_⟩
        obtain ⟨hstarted, hdelivered⟩ := hopens c
        obtain ⟨hstarted', hdelivered'⟩ := hopens' c
        simp only [List.map_cons, List.count_cons, List.count_nil] at *
        omega

lemma follows_assemble {last i : ℕ} {others : List σ} {head : τ × α} {primed : List (τ × α)}
    (level : tally.Level last i head.1 others)
    (hprimed : List.Forall₂
      (fun source first => tally.component first.1 = tally.componentOf source) others primed) :
    tally.Follows last (Node.assemble head (others.zip primed)) i := by
  induction hprimed generalizing i head with
  | nil => exact level
  | @cons below second rest others hcomponent hprimed ih =>
    have hrest : (rest.zip others).map (·.1) = rest :=
      List.map_fst_zip hprimed.length_eq.le
    rw [List.zip_cons_cons, Node.assemble, hrest]
    exact ⟨level, ih (level.below hcomponent)⟩

/-- The first row asks every component once, and its tree is numbered on. -/
lemma prime_opens {i : ℕ} {source : σ} {others : List σ} {root : Node σ τ α} {row : List α}
    {store store' : ω} (numbered : Numbered tally.componentOf i (source :: others))
    (hprime : Node.prime start pull source others store = some (some (root, row), store')) :
    tally.Follows (i + others.length) root i ∧
      Journal.Opens ((source :: others).map tally.componentOf) (tally.journal store)
        (tally.journal store') := by
  obtain ⟨primed, store₁, hothers, hprime⟩ := Run.bind_eq_some_iff.mp hprime
  cases primed with
  | none => cases hprime
  | some primed =>
    obtain ⟨head, store₂, hhead, hprime⟩ := Run.bind_eq_some_iff.mp hprime
    cases head with
    | none => cases hprime
    | some head =>
      cases hprime
      obtain ⟨hcomponents, hopens⟩ := tally.primeAll_opens hothers
      obtain ⟨hcomponent, hopens'⟩ := tally.primeOne_opens hhead
      obtain ⟨hsource, hrest⟩ := numbered
      refine ⟨tally.follows_assemble ⟨hcomponent.trans hsource, hrest, rfl⟩ hcomponents,
        fun c => ?_⟩
      obtain ⟨hstarted, hdelivered⟩ := hopens c
      obtain ⟨hstarted', hdelivered'⟩ := hopens' c
      simp only [List.map_cons, List.count_cons, List.count_nil] at *
      omega

end Tally

end Traversals
