import Traversals.Product.Rows
import Traversals.Proofs.Product.Nested
import Traversals.Proofs.Product.Watched

/-!
# Products with an empty source

Before its first row a product asks a traversal of every source once, the first
source last, and it stops at the first end. So one empty source is enough to
end it, however long the others are and whatever they would deliver, and a
first source with an empty one behind it is left alone. Nothing has to be known
of a traversal beyond its first answer.
-/

namespace Traversals

open Stream' (Seq)

variable {ω σ τ α : Type} {start : Start ω σ τ} {pull : Pull ω τ α} {sources : List σ}
  {Empty : σ → Prop}

/-- Sources whose traversals answer their first pull, an empty source's with an
end. The traversals that still wait for it may be asked in any order. -/
structure Openings (start : Start ω σ τ) (pull : Pull ω τ α) (sources : List σ)
    (Empty : σ → Prop) where
  Holds : ω → Multiset (σ × τ) → Prop
  starts : ∀ {source store waiting}, source ∈ sources → Holds store waiting →
    ∃ traversal store', start source store = some (traversal, store') ∧
      Holds store' ((source, traversal) ::ₘ waiting)
  answers : ∀ {source traversal store waiting}, Holds store ((source, traversal) ::ₘ waiting) →
    ∃ answer traversal' store', pull traversal store = some ((answer, traversal'), store') ∧
      (Empty source → answer = none) ∧ Holds store' waiting

/-- Traversals that are plain values wait as they were started. -/
def Openings.ofStep (traverse : σ → τ) (step : τ → Option α × τ) (sources : List σ) :
    Openings (fun source => return traverse source) (fun t => return step t : Pull Unit τ α) sources
      fun source => (step (traverse source)).1 = none where
  Holds _ waiting := ∀ entry ∈ waiting, entry.2 = traverse entry.1
  starts {source store _} _ holds :=
    ⟨traverse source, store, rfl, Multiset.forall_mem_cons.mpr ⟨rfl, holds⟩⟩
  answers {source traversal store _} holds := by
    obtain ⟨(rfl : traversal = traverse source), rest⟩ := Multiset.forall_mem_cons.mp holds
    exact ⟨_, _, store, rfl, id, rest⟩

/-- Sources that can be traversed again answer more than the first pull. -/
def Replay.openings {elements : σ → Seq α} (replay : Replay start pull sources elements) :
    Openings start pull sources fun source => elements source = Seq.nil where
  Holds store waiting := ∃ frame,
    replay.Holds store (waiting.map (fun entry => (entry.2, (elements entry.1).drop 0)) + frame)
  starts known := by
    rintro ⟨frame, holds⟩
    obtain ⟨traversal, store', hstart, holds⟩ := replay.starts known holds
    exact ⟨traversal, store', hstart, frame, by simpa using holds⟩
  answers {source traversal store waiting} := by
    rintro ⟨frame, holds⟩
    rw [Multiset.map_cons, Multiset.cons_add] at holds
    cases hx : (elements source).get? 0 with
    | none =>
      obtain ⟨traversal', store', hpull, holds⟩ := replay.pull_none holds hx
      exact ⟨none, traversal', store', hpull, fun _ => rfl, frame, holds⟩
    | some x =>
      obtain ⟨traversal', store', hpull, holds⟩ := replay.pull_some holds hx
      rw [← Multiset.add_cons] at holds
      refine ⟨some x, traversal', store', hpull, fun hnil => ?_, _, holds⟩
      rw [hnil] at hx
      cases hx

namespace Journal

/-- How often a component has been asked for an answer. -/
def asked (journal : Journal) (component : ℕ) : ℕ :=
  journal.delivered component + journal.ended component

@[simp] lemma asked_nil (c : ℕ) : asked [] c = 0 := rfl

@[simp] lemma asked_started (journal : Journal) (component c : ℕ) :
    asked (.started component :: journal) c = asked journal c := by
  simp [asked]

@[simp] lemma asked_asked (journal : Journal) (component number c : ℕ) (answer : Bool) :
    asked (.asked component number answer :: journal) c =
      asked journal c + if component = c then 1 else 0 := by
  cases answer <;> simp [asked]
  · omega
  · omega

/-- Each of some components has been asked once at most since, and no other. -/
def AsksOnce (components : List ℕ) (before after : Journal) : Prop :=
  ∀ c, after.asked c ≤ before.asked c + components.count c

namespace AsksOnce

variable {components components' : List ℕ} {before middle after : Journal}

lemma trans (h : AsksOnce components before middle) (h' : AsksOnce components' middle after) :
    AsksOnce (components ++ components') before after := by
  intro c
  have hmiddle := h c
  have hafter := h' c
  rw [List.count_append]
  omega

lemma perm (h : AsksOnce components before after) (perm : components.Perm components') :
    AsksOnce components' before after := fun c => perm.count_eq c ▸ h c

lemma cons (h : AsksOnce components before after) (component : ℕ) :
    AsksOnce (component :: components) before after := by
  intro c
  have hafter := h c
  rw [List.count_cons]
  omega

/-- What is started has not been asked yet. -/
lemma of_started {component : ℕ} (h : AsksOnce components (.started component :: before) after) :
    AsksOnce components before after := fun c => by simpa using h c

lemma asked (journal : Journal) (component number : ℕ) (answer : Bool) :
    AsksOnce [component] journal (.asked component number answer :: journal) := by
  intro c
  simp [List.count_singleton]

end AsksOnce

end Journal

namespace Openings

variable (openings : Openings start pull sources Empty) {store : ω} {waiting : Multiset (σ × τ)}

section Tree

lemma primeOne_opens {source : σ} (known : source ∈ sources)
    (holds : openings.Holds store waiting) :
    ∃ result store', Node.primeOne start pull source store = some (result, store') ∧
      (Empty source → result = none) ∧ openings.Holds store' waiting ∧
      ∀ tally : Tally start pull, Journal.AsksOnce [tally.componentOf source]
        (tally.journal store) (tally.journal store') := by
  obtain ⟨traversal, store₁, hstart, holds₁⟩ := openings.starts known holds
  obtain ⟨answer, traversal', store₂, hpull, hempty, holds₂⟩ := openings.answers holds₁
  refine ⟨answer.map (traversal', ·), store₂, ?_, ?_, holds₂, fun tally => ?_⟩
  · simp [Node.primeOne, Run.bind_apply, Run.map_apply, hstart, hpull]
  · intro h
    rw [hempty h, Option.map_none]
  · obtain ⟨hcomponent, hstarted⟩ := tally.start_eq hstart
    have hasked := Journal.AsksOnce.asked (tally.journal store₁) (tally.component traversal)
      (tally.number traversal) answer.isSome
    rw [← (tally.pull_eq hpull).2, hstarted, hcomponent] at hasked
    exact hasked.of_started

lemma primeAll_opens {components : List σ} (known : components ⊆ sources)
    (holds : openings.Holds store waiting) :
    ∃ result store', Node.primeAll start pull components store = some (result, store') ∧
      ((∃ source ∈ components, Empty source) → result = none) ∧ openings.Holds store' waiting ∧
      ∀ tally : Tally start pull, Journal.AsksOnce (components.map tally.componentOf)
        (tally.journal store) (tally.journal store') := by
  induction components generalizing store with
  | nil => exact ⟨some [], store, rfl, by simp, holds, fun tally c => by simp⟩
  | cons source rest ih =>
    obtain ⟨hsource, hrest⟩ := List.cons_subset.mp known
    obtain ⟨first, store₁, hfirst, hempty, holds₁, asks⟩ := openings.primeOne_opens hsource holds
    obtain ⟨others, store₂, hothers, hempties, holds₂, asks'⟩ := ih hrest holds₁
    cases first with
    | none =>
      refine ⟨none, store₁, ?_, fun _ => rfl, holds₁, fun tally => ?_⟩
      · simp [Node.primeAll, Run.bind_apply, hfirst]
      · exact (asks tally).trans fun c => Nat.le_add_right _ _
    | some first =>
      refine ⟨others.map (first :: ·), store₂, ?_, ?_, holds₂, fun tally => ?_⟩
      · simp [Node.primeAll, Run.bind_apply, Run.map_apply, hfirst, hothers]
      · rw [List.exists_mem_cons_iff]
        rintro (h | h)
        · cases hempty h
        · rw [hempties h, Option.map_none]
      · exact (asks tally).trans (asks' tally)

/-- The first call of a product of a list. It asks the first source last. -/
lemma product_barren {source : σ} {others : List σ} (known : source :: others ⊆ sources)
    (barren : ∃ s ∈ source :: others, Empty s) (holds : openings.Holds store waiting) :
    ∃ product store', (∀ budget, CartesianProduct.next start pull budget
          (.ofSources (source :: others)) store = some ((none, product), store')) ∧
      product.phase = .exhausted ∧
      ∀ tally : Tally start pull,
        Journal.AsksOnce ((source :: others).map tally.componentOf)
          (tally.journal store) (tally.journal store') ∧
        ((∃ s ∈ others, Empty s) → Journal.AsksOnce (others.map tally.componentOf)
          (tally.journal store) (tally.journal store')) := by
  obtain ⟨hsource, hothers⟩ := List.cons_subset.mp known
  obtain ⟨primed, store₁, hprimed, hempties, holds₁, asks⟩ := openings.primeAll_opens hothers holds
  cases primed with
  | none =>
    refine ⟨⟨source :: others, none, .exhausted⟩, store₁, fun budget => ?_, rfl,
      fun tally => ⟨(asks tally).cons _, fun _ => asks tally⟩⟩
    simp [CartesianProduct.next, CartesianProduct.ofSources, CartesianProduct.first, Node.prime,
      Run.bind_apply, hprimed]
  | some primed =>
    obtain ⟨head, store₂, hhead, hempty, -, asks'⟩ := openings.primeOne_opens hsource holds₁
    have hfull : ¬ ∃ s ∈ others, Empty s := fun h => by cases hempties h
    obtain rfl : head = none :=
      hempty (((List.exists_mem_cons_iff ..).mp barren).resolve_right hfull)
    refine ⟨⟨source :: others, none, .exhausted⟩, store₂, fun budget => ?_, rfl,
      fun tally => ⟨?_, fun h => absurd h hfull⟩⟩
    · simp [CartesianProduct.next, CartesianProduct.ofSources, CartesianProduct.first, Node.prime,
        Run.bind_apply, hprimed, hhead]
    · exact ((asks tally).trans (asks' tally)).perm List.perm_append_comm

end Tree

section Nested

/-- The first call of a nested product whose first source has been started. It
asks the last source first. -/
lemma nested_first {source : σ} {others : List σ} (known : source :: others ⊆ sources)
    {budget : ℕ} (enough : others.length < budget) {head : τ}
    (holds : openings.Holds store ((source, head) ::ₘ waiting)) :
    ∃ answer nested store', Nested.next start pull budget (.ofSources head others) store =
        some ((answer, nested), store') ∧
      ((∃ s ∈ source :: others, Empty s) → answer = none) ∧
      (answer = none → others ≠ [] → nested.Over) ∧
      (answer.isSome → openings.Holds store' waiting) ∧
      ∀ tally : Tally start pull, tally.component head = tally.componentOf source →
        Journal.AsksOnce ((source :: others).map tally.componentOf)
          (tally.journal store) (tally.journal store') ∧
        ((∃ s ∈ others, Empty s) → Journal.AsksOnce (others.map tally.componentOf)
          (tally.journal store) (tally.journal store')) := by
  induction others generalizing source head store waiting budget with
  | nil =>
    obtain ⟨budget, rfl⟩ : ∃ b, budget = b + 1 := ⟨budget - 1, by omega⟩
    obtain ⟨answer, head', store', hpull, hempty, holds'⟩ := openings.answers holds
    refine ⟨_, _, store', Nested.next_last hpull, ?_, fun _ h => absurd rfl h, fun _ => holds',
      fun tally hcomponent => ⟨?_, by simp⟩⟩
    · rintro ⟨s, hs, h⟩
      obtain rfl := List.mem_singleton.mp hs
      rw [hempty h, Option.map_none]
    · rw [(tally.pull_eq hpull).2, hcomponent]
      exact .asked _ _ _ _
  | cons below rest ih =>
    obtain ⟨budget, rfl⟩ : ∃ b, budget = b + 1 := ⟨budget - 1, by omega⟩
    simp only [List.length_cons] at enough
    obtain ⟨-, hothers⟩ := List.cons_subset.mp known
    obtain ⟨head', store₁, hstart, holds₁⟩ := openings.starts (hothers List.mem_cons_self) holds
    obtain ⟨answer, tail, store₂, hbelow, hempties, -, hholds, asks⟩ :=
      ih hothers (show rest.length < budget by omega) holds₁
    have asksBelow : ∀ tally : Tally start pull,
        Journal.AsksOnce ((below :: rest).map tally.componentOf)
          (tally.journal store) (tally.journal store₂) := by
      intro tally
      obtain ⟨hcomponent, hstarted⟩ := tally.start_eq hstart
      have hasked := (asks tally hcomponent).1
      rw [hstarted] at hasked
      exact hasked.of_started
    cases answer with
    | none =>
      obtain ⟨nested, finished, hnext⟩ := Nested.next_first_none hstart hbelow
      exact ⟨none, nested, store₂, hnext, fun _ => rfl, fun _ _ => finished, nofun,
        fun tally _ => ⟨(asksBelow tally).cons _, fun _ => asksBelow tally⟩⟩
    | some entries =>
      have hfull : ¬ ∃ s ∈ below :: rest, Empty s := fun h => by cases hempties h
      obtain ⟨left, head'', store₃, hhead, hempty, holds₃⟩ := openings.answers (hholds rfl)
      have asksAll : ∀ tally : Tally start pull, tally.component head = tally.componentOf source →
          Journal.AsksOnce ((source :: below :: rest).map tally.componentOf)
            (tally.journal store) (tally.journal store₃) := by
        intro tally hcomponent
        rw [(tally.pull_eq hhead).2, hcomponent]
        exact ((asksBelow tally).trans (.asked _ _ _ _)).perm List.perm_append_comm
      cases left with
      | none =>
        obtain ⟨nested, finished, hnext⟩ := Nested.next_first_end hstart hbelow hhead
        exact ⟨none, nested, store₃, hnext, fun _ => rfl, fun _ _ => finished, nofun,
          fun tally hcomponent => ⟨asksAll tally hcomponent, fun h => absurd h hfull⟩⟩
      | some x =>
        refine ⟨_, _, store₃, Nested.next_first hstart hbelow hhead, ?_, nofun, fun _ => holds₃,
          fun tally hcomponent => ⟨asksAll tally hcomponent, fun h => absurd h hfull⟩⟩
        rw [List.exists_mem_cons_iff]
        rintro (h | h)
        · cases hempty h
        · exact absurd h hfull

end Nested

/-- Watched sources answer as they do unwatched. -/
def watched (frame : Multiset (σ × τ)) :
    Openings (watchStart start) (watchPull pull) sources.zipIdx fun source => Empty source.1 where
  Holds store waiting :=
    openings.Holds store.1 (waiting.map (fun entry => (entry.1.1, entry.2.traversal)) + frame)
  starts := by
    rintro ⟨source, component⟩ ⟨store, journal⟩ waiting known holds
    obtain ⟨traversal, store', hstart, holds'⟩ :=
      openings.starts (List.mem_of_getElem? (List.mem_zipIdx_iff_getElem?.mp known)) holds
    exact ⟨_, _, by rw [watchStart, hstart]; rfl, by simpa using holds'⟩
  answers := by
    rintro ⟨source, component⟩ watched ⟨store, journal⟩ waiting holds
    rw [Multiset.map_cons, Multiset.cons_add] at holds
    obtain ⟨answer, traversal, store', hpull, hempty, holds'⟩ := openings.answers holds
    exact ⟨_, _, _, by rw [watchPull, hpull]; rfl, hempty, holds'⟩

end Openings

/-- A product without rows. Its first call has asked each component once at
most, and not the first one if that was spared, and no later call does anything. -/
def EndsAtOnce {π β : Type} (spared : Prop)
    (run : ℕ → Run (ω × Journal) (List (Option β) × π)) (store : ω) : Prop :=
  ∃ product store' journal,
    (∀ later, run (later + 1) (store, []) =
      some ((List.replicate (later + 1) none, product), (store', journal))) ∧
    (∀ c, journal.asked c ≤ 1) ∧ (spared → journal.asked 0 = 0)

/-- Of numbered sources each is asked once, and one without its number is not. -/
lemma asked_numbered {list : List σ} {i : ℕ} {journal : Journal}
    (asks : Journal.AsksOnce ((list.zipIdx i).map Prod.snd) [] journal) :
    (∀ c, journal.asked c ≤ 1) ∧ ∀ c < i, journal.asked c = 0 := by
  rw [List.zipIdx_map_snd] at asks
  constructor
  · intro c
    have hcount := List.nodup_iff_count_le_one.mp (List.nodup_range' (s := i) (n := list.length)) c
    have hasked := asks c
    rw [Journal.asked_nil] at hasked
    omega
  · intro c hc
    have hcount : (List.range' i list.length).count c = 0 :=
      List.count_eq_zero_of_not_mem fun hmem => by have := List.mem_range'_1.mp hmem; omega
    have hasked := asks c
    rw [Journal.asked_nil, hcount] at hasked
    omega

lemma endsAtOnce_of_asks {π β : Type} {spared : Prop}
    {run : ℕ → Run (ω × Journal) (List (Option β) × π)} {source : σ} {others : List σ}
    {product : π} {store store' : ω} {journal : Journal}
    (ends : ∀ later, run (later + 1) (store, []) =
      some ((List.replicate (later + 1) none, product), (store', journal)))
    (asks : Journal.AsksOnce ((source :: others).zipIdx.map Prod.snd) [] journal)
    (asksOthers : spared → Journal.AsksOnce ((others.zipIdx 1).map Prod.snd) [] journal) :
    EndsAtOnce spared run store :=
  ⟨product, store', journal, ends, (asked_numbered asks).1,
    fun h => (asked_numbered (asksOthers h)).2 0 Nat.one_pos⟩

lemma exists_mem_zipIdx (list : List σ) (i : ℕ) :
    (∃ s ∈ list.zipIdx i, Empty s.1) ↔ ∃ s ∈ list, Empty s := by
  conv_rhs => rw [← List.zipIdx_map_fst i list]
  simp only [List.mem_map, exists_exists_and_eq_and]

namespace Openings

variable {source : σ} {others : List σ} (openings : Openings start pull (source :: others) Empty)
  {store : ω} {waiting : Multiset (σ × τ)}

lemma watched_start (holds : openings.Holds store waiting) :
    (openings.watched waiting).Holds (store, []) 0 := by
  simpa [watched] using holds

lemma product_ends (barren : ∃ s ∈ source :: others, Empty s)
    (holds : openings.Holds store waiting) (budget : ℕ) :
    EndsAtOnce (∃ s ∈ others, Empty s)
      (pulls (CartesianProduct.next (watchStart start) (watchPull pull) budget) ·
        (.ofSources (source :: others).zipIdx)) store := by
  obtain ⟨product, ⟨store', journal⟩, hnext, hphase, asks⟩ :=
    (openings.watched waiting).product_barren (List.Subset.refl ((source, 0) :: others.zipIdx 1))
      ((exists_mem_zipIdx (source :: others) 0).mpr barren) (openings.watched_start holds)
  obtain ⟨asksAll, asksOthers⟩ := asks (Tally.watched start pull)
  refine endsAtOnce_of_asks (fun later => pulls_end (hnext budget) ?_ later) asksAll
    fun h => asksOthers ((exists_mem_zipIdx others 1).mpr h)
  simp [CartesianProduct.next, hphase]

lemma nested_ends (several : others ≠ []) (barren : ∃ s ∈ source :: others, Empty s)
    (holds : openings.Holds store waiting) {budget : ℕ} (enough : others.length < budget) :
    EndsAtOnce (∃ s ∈ others, Empty s)
      (fun calls => do
        let nested ← Nested.start (watchStart start) ((source, 0), others.zipIdx 1)
        pulls (Nested.next (watchStart start) (watchPull pull) budget) calls nested) store := by
  have known : (source, 0) :: others.zipIdx 1 ⊆ (source :: others).zipIdx := List.Subset.refl _
  obtain ⟨head, store₁, hstart, holds₁⟩ := (openings.watched waiting).starts
    (known List.mem_cons_self) (openings.watched_start holds)
  obtain ⟨hcomponent, hstarted⟩ := (Tally.watched start pull).start_eq hstart
  obtain ⟨answer, nested, ⟨store', journal⟩, hnext, hempty, hover, -, asks⟩ :=
    (openings.watched waiting).nested_first known (by simpa) holds₁
  obtain rfl := hempty ((exists_mem_zipIdx (source :: others) 0).mpr barren)
  obtain ⟨asksAll, asksOthers⟩ := asks (Tally.watched start pull) hcomponent
  rw [hstarted] at asksAll asksOthers
  obtain ⟨budget, rfl⟩ : ∃ b, budget = b + 1 := ⟨budget - 1, by omega⟩
  have finished : nested.Over := hover rfl (by simpa using several)
  have ends (later : ℕ) := Run.bind_eq_some_iff.mpr
    ⟨_, _, Nested.start_eq hstart _, pulls_end hnext (Nested.next_over finished) later⟩
  exact endsAtOnce_of_asks ends asksAll.of_started
    fun h => (asksOthers ((exists_mem_zipIdx others 1).mpr h)).of_started

end Openings

/-- With an empty source among them, a nested product and the product of a list
have no rows, whatever the other sources deliver and however long they are.
Each is asked once at most, and the first is spared if an empty one is behind it. -/
theorem empty_source_ends {source second : σ} {others : List σ}
    (openings : Openings start pull (source :: second :: others) Empty)
    (barren : ∃ s ∈ source :: second :: others, Empty s) {store : ω}
    {waiting : Multiset (σ × τ)} (holds : openings.Holds store waiting) {budget : ℕ}
    (enough : others.length + 2 ≤ budget) :
    EndsAtOnce (∃ s ∈ second :: others, Empty s)
        (fun calls => do
          let nested ← Nested.start (watchStart start) ((source, 0), (second :: others).zipIdx 1)
          pulls (Nested.next (watchStart start) (watchPull pull) budget) calls nested) store ∧
      ∀ budget, EndsAtOnce (∃ s ∈ second :: others, Empty s)
        (pulls (CartesianProduct.next (watchStart start) (watchPull pull) budget) ·
          (.ofSources (source :: second :: others).zipIdx)) store :=
  ⟨openings.nested_ends (List.cons_ne_nil _ _) barren holds enough,
    openings.product_ends barren holds⟩

/-- Between two endless sources, one that delivers only after its first end: the
first source is never asked, however often the product is. -/
theorem empty_source_ends_between :
    let endless : Script ℕ := .ofFunction id none none
    let late : Script ℕ := .ofAnswers #[none, some 5] none
    let openings := Openings.ofStep id Script.next [endless, late, endless]
    ((∃ s ∈ [endless, late, endless], (Script.next (id s)).1 = none) ∧ openings.Holds () 0 ∧
        [endless].length + 2 ≤ 3) ∧
      ∃ nested journal,
        pulls (Nested.next (watchStart pure) (watchPull fun script => return script.next) 3) 4
            (.ofSources ⟨0, 0, endless⟩ [(late, 1), (endless, 2)]) ((), [.started 0]) =
          some (([none, none, none, none], nested), ((), journal)) ∧
        journal.asked 0 = 0 ∧ journal.asked 1 ≤ 1 ∧ journal.asked 2 ≤ 1 := by
  intro endless late openings
  have barren : ∃ s ∈ [endless, late, endless], (Script.next (id s)).1 = none :=
    ⟨late, by simp, rfl⟩
  have holds : openings.Holds () 0 := fun entry h => by simp at h
  refine ⟨⟨barren, holds, le_rfl⟩, ?_⟩
  obtain ⟨⟨nested, ⟨⟩, journal, ends, once, spared⟩, -⟩ := empty_source_ends openings barren holds
    (show [endless].length + 2 ≤ 3 from le_rfl)
  exact ⟨nested, journal, ends 3, spared ⟨late, by simp, rfl⟩, once 1, once 2⟩

end Traversals
