import Traversals.Proofs.Copies.Stores

/-!
# Memos hide who has pulled them

A traversal of a memo gets the same elements whether they are in the cache
already or have to be pulled from the source, and a pull of the source changes
nothing that can be told of a memo. The source has traversals of earlier memos
in it, so this is shown for one memo after the other: what is known of the
earlier ones is enough to compare two pulls of the source.
-/

namespace Traversals

open Filter
open Comparison (FusedFits PipelineFits)

section Pulls

variable (pull : Pull Store Pipeline Value) {store store' : Store} {memo : Memo Pipeline Value}

/-- The title of a traversal has no part in its pulls. -/
lemma pullMemo_title (store : Store) (place position : ℕ) (title title' : String) :
    (pullMemo pull ⟨place, position, title⟩ store).map (fun result => (result.1.1, result.2)) =
      (pullMemo pull ⟨place, position, title'⟩ store).map
        fun result => (result.1.1, result.2) := by
  cases hmemo : store.memos[place]? with
  | none => simp [pullMemo, Run.bind_apply, Run.get_apply, hmemo]
  | some memo =>
    cases hfetch : memo.fetch .nothing pull position store with
    | none => simp [pullMemo, Run.bind_apply, Run.get_apply, hmemo, hfetch]
    | some result =>
      simp [pullMemo, Run.bind_apply, Run.map_apply, Run.get_apply, Run.modify_apply, hmemo, hfetch]

variable {pull}

/-- A traversal advances by the elements it is given. -/
lemma pullMemo_position {traversal : MemoTraversal} {result : Option Value × MemoTraversal}
    (held : store.memos[traversal.memo]? = some memo)
    (h : pullMemo pull traversal store = some (result, store')) :
    result.2 = { traversal with position := advanced result.1 traversal.position } := by
  cases hx : memo.cache[traversal.position]? with
  | some x =>
    rw [pullMemo_hit pull held hx] at h
    obtain ⟨rfl, -⟩ := Prod.mk.inj (Option.some.inj h)
    rfl
  | none =>
    rw [pullMemo_miss pull held (Array.getElem?_eq_none_iff.mp hx)] at h
    obtain ⟨⟨⟨answer, source⟩, store₁⟩, -, hresult⟩ := Option.map_eq_some_iff.mp h
    obtain ⟨rfl, -⟩ := Prod.mk.inj hresult
    rfl

section Edge

variable {place : ℕ} {source : Fused Pipeline}

/-- Skipping the whole cache leads to its edge. -/
lemma nth_edge (pull : Pull Store Pipeline Value) (held : store.memos[place]? = some memo)
    {edge : ℕ} (inside : edge ≤ memo.cache.size) (k : ℕ) :
    nth (pullMemo pull) (edge + k) ⟨place, 0, ""⟩ store =
      nth (pullMemo pull) k ⟨place, edge, ""⟩ store := by
  have hskip : nth (pullMemo pull) (edge + k) ⟨place, 0, ""⟩ store = _ :=
    nth_pullMemo_skip pull held edge k (by rwa [Nat.zero_add])
  rwa [Nat.zero_add] at hskip

/-- Behind the last element of the source there is only its end. -/
lemma nth_edge_none (pull : Pull Store Pipeline Value)
    (held : store.memos[place]? = some memo)
    (pulled : Fused.next .nothing pull memo.source store = some ((none, source), store')) (k : ℕ) :
    (nth (pullMemo pull) k ⟨place, memo.cache.size, ""⟩ store).map (·.1.1) = some none := by
  have hpull : pullMemo pull ⟨place, memo.cache.size, ""⟩ store = _ :=
    pullMemo_miss pull held le_rfl
  rw [pulled, Option.map_some] at hpull
  cases k with
  | zero => rw [nth, hpull]; rfl
  | succ k => rw [nth, Run.bind_apply, hpull]; rfl

/-- Once the source has delivered, its element is the last one of the cache. -/
lemma nth_edge_some (held : store.memos[place]? = some memo) {x : Value}
    (pulled : Fused.next .nothing pull memo.source store = some ((some x, source), store'))
    (held' : store'.memos[place]? = some memo) (k : ℕ) :
    (nth (pullMemo pull) k ⟨place, memo.cache.size, ""⟩ store).map (·.1.1) =
      (nth (pullMemo pull) k ⟨place, memo.cache.size, ""⟩
        (store'.setMemo place (memo.resumed source (some x)))).map (·.1.1) := by
  have hpull : pullMemo pull ⟨place, memo.cache.size, ""⟩ store = _ :=
    pullMemo_miss pull held le_rfl
  rw [pulled, Option.map_some] at hpull
  have hx : (memo.resumed source (some x)).cache[memo.cache.size]? = some x := by
    simp [Memo.resumed]
  have hpull' : pullMemo pull ⟨place, memo.cache.size, ""⟩
      (store'.setMemo place (memo.resumed source (some x))) = _ :=
    pullMemo_hit pull (Store.setMemo_held held' _) hx
  cases k with
  | zero => simp only [nth, hpull, hpull', Option.map_some]
  | succ k => simp only [nth, Run.bind_apply, hpull, hpull', Option.bind_some]; rfl

end Edge

end Pulls

namespace Store

variable {store other : Store} {place n : ℕ} {memo : Memo Pipeline Value} {answer : Option Value}

section Tells

/-- What is in the cache is told from there. -/
lemma tells_cached (held : store.memos[place]? = some memo) {x : Value}
    (hx : memo.cache[n]? = some x) : store.Tells place n answer ↔ answer = some x := by
  obtain ⟨inside, -⟩ := Array.getElem?_eq_some_iff.mp hx
  have hnth : ∀ budget, nth (pullMemo (Pipeline.next budget)) n ⟨place, 0, ""⟩ store =
      some ((some x, ⟨place, n + 1, ""⟩), store) := by
    intro budget
    have hedge := nth_edge (Pipeline.next budget) held inside.le 0
    rw [Nat.add_zero] at hedge
    rw [hedge]
    exact pullMemo_hit (Pipeline.next budget) held hx
  simp only [Tells, hnth, Option.map_some, Option.some.injEq, eventually_const]
  exact eq_comm

/-- At the edge of the cache, what a traversal is answered by is told. -/
lemma tells_edge (held : store.memos[place]? = some memo) {traversal : MemoTraversal}
    (memo_eq : traversal.memo = place) (position_le : traversal.position ≤ memo.cache.size) :
    store.Tells place traversal.position answer ↔ ∀ᶠ budget in atTop,
      (pullMemo (Pipeline.next budget) traversal store).map (·.1.1) = some answer := by
  refine eventually_congr (Eventually.of_forall fun budget => ?_)
  subst memo_eq
  have hedge := nth_edge (Pipeline.next budget) held position_le 0
  have htitle := congrArg (Option.map Prod.fst) (pullMemo_title (Pipeline.next budget) store
    traversal.memo traversal.position "" traversal.title)
  simp only [Option.map_map, Function.comp_def] at htitle
  rw [Nat.add_zero] at hedge
  rw [hedge, nth, htitle]

/-- A pull of the source changes nothing that is told of its memo. -/
lemma tells_resumed (held : store.memos[place]? = some memo) {element : Option Value}
    {source : Fused Pipeline} {later : Store}
    (pulled : ∀ᶠ budget in atTop, Fused.next .nothing (Pipeline.next budget) memo.source store =
      some ((element, source), later))
    (held' : later.memos[place]? = some memo) :
    store.Tells place n answer ↔
      (later.setMemo place (memo.resumed source element)).Tells place n answer := by
  have hset := setMemo_held held' (memo.resumed source element)
  by_cases inside : n < memo.cache.size
  · have hx : memo.cache[n]? = some memo.cache[n] := Array.getElem?_eq_getElem inside
    have hx' : (memo.resumed source element).cache[n]? = some memo.cache[n] := by
      cases element with
      | none => exact hx
      | some x => simp [Memo.resumed, Array.getElem?_push, hx, Nat.ne_of_lt inside]
    rw [tells_cached held hx, tells_cached hset hx']
  · obtain ⟨k, rfl⟩ := Nat.exists_eq_add_of_le (Nat.le_of_not_lt inside)
    refine eventually_congr ?_
    filter_upwards [pulled] with budget hpulled
    rw [nth_edge (Pipeline.next budget) held le_rfl,
      nth_edge (Pipeline.next budget) hset (memo.le_resumed source element)]
    cases element with
    | none =>
      -- The source has ended, so it is not asked again.
      obtain rfl := Fused.ended_of_next hpulled
      have hset_end := nth_edge_none (Pipeline.next budget) hset rfl k
      rw [nth_edge_none (Pipeline.next budget) held hpulled]
      exact iff_of_eq (congrArg (· = some answer) hset_end.symm)
    | some x => rw [nth_edge_some held hpulled held']

end Tells

/-- No pull of a pipeline over the memos below a level tells similar stores apart. -/
abbrev Hides (level : ℕ) : Prop :=
  ∀ limit, (comparison level).Alike atTop (PipelineFits (Fits level)) (Pipeline.next limit)
    Pipeline.next

section Levels

variable {level : ℕ}

/-- Similar stores that hold the very same memo at a place. -/
def keptComparison (place : ℕ) : Comparison Store where
  Same store other :=
    (comparison place).Same store other ∧ store.memos[place]? = other.memos[place]?
  Later _ _ := True
  later_refl _ := trivial
  later_trans _ _ := trivial

/-- The same memo over similar stores is pulled alike, if what is written into
it leaves the stores similar. -/
lemma Hides.pullMemo (hides : Hides place)
    (written : ∀ {store : Store} {memo : Memo Pipeline Value}, store.Sound →
      (store.setMemo place memo).Sound → Similar place store (store.setMemo place memo))
    (limit : ℕ) :
    (keptComparison place).Alike atTop (fun traversal _ => traversal.memo = place)
      (pullMemo (Pipeline.next limit)) fun budget => pullMemo (Pipeline.next budget) := by
  rintro traversal store other ⟨same, memo_eq⟩ rfl - result store' hrun
  obtain ⟨⟨sound, sound'⟩, similar⟩ := same
  cases held : store.memos[traversal.memo]? with
  | none =>
    have held' : other.memos[traversal.memo]? = none := memo_eq.symm.trans held
    have habsent : ∀ (pull : Pull Store Pipeline Value) (store : Store),
        store.memos[traversal.memo]? = none →
          Traversals.pullMemo pull traversal store = some ((none, traversal), store) := by
      intro pull store h
      simp [Traversals.pullMemo, Run.bind_apply, Run.get_apply, h]
    rw [habsent _ _ held] at hrun
    obtain ⟨rfl, rfl⟩ := Prod.mk.inj (Option.some.inj hrun)
    exact ⟨other, Eventually.of_forall fun _ => habsent _ _ held',
      ⟨⟨⟨sound, sound'⟩, similar⟩, memo_eq⟩, ⟨trivial, rfl⟩, trivial, rfl⟩
  | some memo =>
    have held' : other.memos[traversal.memo]? = some memo := memo_eq.symm.trans held
    cases hx : memo.cache[traversal.position]? with
    | some x =>
      rw [pullMemo_hit _ held hx] at hrun
      obtain ⟨rfl, rfl⟩ := Prod.mk.inj (Option.some.inj hrun)
      exact ⟨other, Eventually.of_forall fun _ => pullMemo_hit _ held' hx,
        ⟨⟨⟨sound, sound'⟩, similar⟩, memo_eq⟩, ⟨trivial, rfl⟩, trivial, rfl⟩
    | none =>
      have edge := Array.getElem?_eq_none_iff.mp hx
      rw [pullMemo_miss _ held edge] at hrun
      obtain ⟨⟨⟨element, source⟩, store₁⟩, hnext, hresult⟩ := Option.map_eq_some_iff.mp hrun
      obtain ⟨rfl, rfl⟩ := Prod.mk.inj hresult
      obtain ⟨other₁, hnexts, same₁, ⟨later, fits⟩, later', fits'⟩ :=
        (hides limit).fused .nothing memo.source store other ⟨⟨sound, sound'⟩, similar⟩
          (sound.sources _ memo held) (sound'.sources _ memo held') _ store₁ hnext
      have held₁ := (later.above _ le_rfl).trans held
      have held₁' := (later'.above _ le_rfl).trans held'
      have hsize := memo.le_resumed source element
      rw [← memo.resumed_source source element] at fits fits'
      have sound₁ := same₁.1.1.setMemo held₁ hsize fits
      have sound₁' := same₁.1.2.setMemo held₁' hsize fits'
      have similar₁ := ((written same₁.1.1 sound₁).symm.trans same₁.2).trans
        (written same₁.1.2 sound₁')
      refine ⟨other₁.setMemo traversal.memo (memo.resumed source element), ?_,
        ⟨⟨⟨sound₁, sound₁'⟩, similar₁⟩, ?_⟩, ⟨trivial, rfl⟩, trivial, rfl⟩
      · filter_upwards [hnexts] with budget h
        rw [pullMemo_miss _ held' edge, h]
        rfl
      · exact (setMemo_held held₁ _).trans (setMemo_held held₁' _).symm

/-- So the same is told of it. -/
lemma tells_of_kept
    (alike : ∀ limit, (keptComparison place).Alike atTop (fun traversal _ => traversal.memo = place)
      (Traversals.pullMemo (Pipeline.next limit)) fun budget =>
        Traversals.pullMemo (Pipeline.next budget))
    (same : (comparison place).Same store other)
    (memo_eq : store.memos[place]? = other.memos[place]?) (tells : store.Tells place n answer) :
    other.Tells place n answer := by
  obtain ⟨limit, htells⟩ := Eventually.exists tells
  obtain ⟨⟨result, store'⟩, hrun, rfl⟩ := Option.map_eq_some_iff.mp htells
  obtain ⟨other', hruns, -⟩ :=
    (alike limit).nth n ⟨place, 0, ""⟩ store other ⟨same, memo_eq⟩ rfl rfl result store' hrun
  filter_upwards [hruns] with budget h
  rw [h]
  rfl

/-- Stores that are similar up to some memo and hold the same memos from there
on are similar. -/
theorem similar_raise {lower : ℕ} (hides : ∀ place < level, Hides place) (sound : store.Sound)
    (sound' : other.Sound) (similar : Similar lower store other)
    (memos : ∀ place, lower ≤ place → place < level → store.memos[place]? = other.memos[place]?) :
    Similar level store other := by
  induction level generalizing lower store other with
  | zero => exact similar.below (Nat.zero_le _)
  | succ level ih =>
    have hides' : ∀ place < level, Hides place := fun place h => hides place (by omega)
    have hlevel : Similar level store other :=
      ih hides' sound sound' similar fun place hplace h => memos place hplace (by omega)
    refine ⟨fun place hplace n answer => ?_, similar.judges⟩
    by_cases h : place < level
    · exact hlevel.tells place h n answer
    · obtain rfl : place = level := by omega
      by_cases hlower : place < lower
      · exact similar.tells place hlower n answer
      · have memo_eq := memos place (by omega) (by omega)
        -- What is written at this place lies above the memos that are compared.
        have written : ∀ {store : Store} {memo : Memo Pipeline Value}, store.Sound →
            (store.setMemo place memo).Sound →
              Similar place store (store.setMemo place memo) := fun sound sound' =>
          ih hides' sound sound' (.zero fun _ _ => Iff.rfl) fun place' _ hplace' =>
            (setMemo_apart hplace'.ne' _).symm
        have alike := (hides place (by omega)).pullMemo written
        exact ⟨tells_of_kept alike ⟨⟨sound, sound'⟩, hlevel⟩ memo_eq,
          tells_of_kept alike ⟨⟨sound', sound⟩, hlevel.symm⟩ memo_eq.symm⟩

/-- What is written at a place does not show below it. -/
lemma similar_setMemo (hides : ∀ earlier < place, Hides earlier) (sound : store.Sound)
    {memo : Memo Pipeline Value} (sound' : (store.setMemo place memo).Sound) :
    Similar place store (store.setMemo place memo) :=
  similar_raise hides sound sound' (.zero fun _ _ => Iff.rfl) fun _ _ h =>
    (setMemo_apart h.ne' _).symm

variable {traversal : MemoTraversal}

/-- What a pull of a memo leaves behind: an answer that is told of the memo, and
a store that tells what it told before. -/
structure Pulled (level : ℕ) (traversal : MemoTraversal) (store : Store)
    (result : Option Value × MemoTraversal) (later : Store) : Prop where
  tells : store.Tells traversal.memo traversal.position result.1
  result_eq : result.2 = { traversal with position := advanced result.1 traversal.position }
  fits : Fits level result.2 later
  sound : later.Sound
  continues : Continues level store later

/-- A traversal inside the cache stays inside; one at its edge moves with it. -/
lemma advanced_le_resumed {memo : Memo Pipeline Value} {source : Fused Pipeline}
    {element : Option Value} {position : ℕ} (h : position ≤ memo.cache.size) :
    advanced element position ≤ (memo.resumed source element).cache.size := by
  cases element with
  | none => exact h
  | some x => simpa [advanced, Memo.resumed] using h

theorem pulled_of_pullMemo (hides : ∀ place < level, Hides place) (sound : store.Sound)
    (fits : Fits level traversal store) {limit : ℕ} {result : Option Value × MemoTraversal}
    {later : Store}
    (hrun : Traversals.pullMemo (Pipeline.next limit) traversal store = some (result, later)) :
    Pulled level traversal store result later := by
  obtain ⟨below, memo, held, position_le⟩ := fits
  have result_eq := pullMemo_position held hrun
  cases hx : memo.cache[traversal.position]? with
  | some x =>
    rw [pullMemo_hit _ held hx] at hrun
    obtain ⟨rfl, rfl⟩ := Prod.mk.inj (Option.some.inj hrun)
    obtain ⟨inside, -⟩ := Array.getElem?_eq_some_iff.mp hx
    exact ⟨(tells_cached held hx).mpr rfl, rfl, ⟨below, memo, held, inside⟩, sound, .refl level _⟩
  | none =>
    have edge := Array.getElem?_eq_none_iff.mp hx
    rw [pullMemo_miss _ held edge] at hrun
    obtain ⟨⟨⟨element, source⟩, store₁⟩, hnext, hresult⟩ := Option.map_eq_some_iff.mp hrun
    obtain ⟨rfl, rfl⟩ := Prod.mk.inj hresult
    -- The pull has one result for all large budgets, in a store of its own.
    obtain ⟨store₁', hnexts, same₁, ⟨later₁, fits₁⟩, later₁', fits₁'⟩ :=
      (hides traversal.memo below limit).fused .nothing memo.source store store
        ⟨⟨sound, sound⟩, .refl _ store⟩ (sound.sources _ memo held) (sound.sources _ memo held)
        _ store₁ hnext
    have held₁ := (later₁.above _ le_rfl).trans held
    have held₁' := (later₁'.above _ le_rfl).trans held
    have hsize := memo.le_resumed source element
    rw [← memo.resumed_source source element] at fits₁ fits₁'
    have sound₁ := same₁.1.1.setMemo held₁ hsize fits₁
    have sound₁' := same₁.1.2.setMemo held₁' hsize fits₁'
    have hplace : ∀ place < traversal.memo, Hides place := fun place h => hides place (by omega)
    have written := similar_setMemo hplace same₁.1.1 sound₁
    have written' := similar_setMemo hplace same₁.1.2 sound₁'
    have settled : Similar (traversal.memo + 1) store
        (store₁'.setMemo traversal.memo (memo.resumed source element)) := by
      refine ⟨fun place h n answer => ?_, later₁'.similar.judges⟩
      by_cases hlower : place < traversal.memo
      · exact (later₁'.similar.trans written').tells place hlower n answer
      · obtain rfl : place = traversal.memo := by omega
        exact tells_resumed held hnexts held₁'
    have agreed : Similar (traversal.memo + 1)
        (store₁'.setMemo traversal.memo (memo.resumed source element))
        (store₁.setMemo traversal.memo (memo.resumed source element)) := by
      refine similar_raise (fun place h => hides place (by omega)) sound₁' sound₁
        ((written'.symm.trans same₁.2.symm).trans written) fun place hle h => ?_
      obtain rfl : place = traversal.memo := by omega
      exact (setMemo_held held₁' _).trans (setMemo_held held₁ _).symm
    have above : ∀ place, traversal.memo < place →
        (store₁.setMemo traversal.memo (memo.resumed source element)).memos[place]? =
          store.memos[place]? := fun place h =>
      (setMemo_apart h.ne _).trans (later₁.above place h.le)
    refine ⟨(tells_edge held rfl position_le).mpr ?_, result_eq,
      ⟨below, _, setMemo_held held₁ _, advanced_le_resumed position_le⟩, sound₁,
      similar_raise hides sound sound₁ (settled.trans agreed)
        fun place hle _ => (above place hle).symm,
      later₁.grows.trans (grows_setMemo held₁ hsize), fun place h => above place (by omega)⟩
    filter_upwards [hnexts] with budget h
    rw [pullMemo_miss _ held edge, h]
    rfl

/-- A traversal of a memo is answered by what is told of it. -/
lemma pullMemo_of_tells (fits : Fits level traversal store) {answer : Option Value}
    (tells : store.Tells traversal.memo traversal.position answer) :
    ∃ budget result later, Traversals.pullMemo (Pipeline.next budget) traversal store =
      some (result, later) ∧ result.1 = answer := by
  obtain ⟨-, memo, held, position_le⟩ := fits
  obtain ⟨budget, h⟩ := Eventually.exists ((tells_edge held rfl position_le).mp tells)
  obtain ⟨⟨result, later⟩, hrun, hanswer⟩ := Option.map_eq_some_iff.mp h
  exact ⟨budget, result, later, hrun, hanswer⟩

/-- The pull has the same result for all large budgets. -/
lemma pullMemo_settles (hides : Hides traversal.memo) (sound : store.Sound)
    (fits : Fits level traversal store) {limit : ℕ} {result : Option Value × MemoTraversal}
    {later : Store}
    (hrun : Traversals.pullMemo (Pipeline.next limit) traversal store = some (result, later)) :
    ∃ settled, ∀ᶠ budget in atTop,
      Traversals.pullMemo (Pipeline.next budget) traversal store = some (result, settled) := by
  obtain ⟨-, memo, held, -⟩ := fits
  cases hx : memo.cache[traversal.position]? with
  | some x =>
    rw [pullMemo_hit _ held hx] at hrun
    exact ⟨later, Eventually.of_forall fun budget => (pullMemo_hit _ held hx).trans hrun⟩
  | none =>
    have edge := Array.getElem?_eq_none_iff.mp hx
    rw [pullMemo_miss _ held edge] at hrun
    obtain ⟨⟨⟨element, source⟩, store₁⟩, hnext, hresult⟩ := Option.map_eq_some_iff.mp hrun
    obtain ⟨rfl, -⟩ := Prod.mk.inj hresult
    obtain ⟨store₁', hnexts, -⟩ := (hides limit).fused .nothing memo.source store store
      ⟨⟨sound, sound⟩, .refl _ store⟩ (sound.sources _ memo held) (sound.sources _ memo held)
      _ store₁ hnext
    refine ⟨store₁'.setMemo traversal.memo (memo.resumed source element), ?_⟩
    filter_upwards [hnexts] with budget h
    rw [pullMemo_miss _ held edge, h]
    rfl

/-- What is in the cache of one store may have to be pulled in the other, and
the other way round. -/
lemma alike_pullMemo (hides : ∀ place < level, Hides place) (limit : ℕ) :
    (comparison level).Alike atTop (Fits level) (Traversals.pullMemo (Pipeline.next limit))
      fun budget => Traversals.pullMemo (Pipeline.next budget) := by
  rintro traversal store other ⟨⟨sound, sound'⟩, similar⟩ fits fits' result later hrun
  have pulled := pulled_of_pullMemo hides sound fits hrun
  have tells := (similar.tells _ fits.1 _ _).mp pulled.tells
  obtain ⟨limit', result', later', hrun', hanswer⟩ := pullMemo_of_tells fits' tells
  have hresult : result' = result := by
    refine Prod.ext hanswer ?_
    rw [(pulled_of_pullMemo hides sound' fits' hrun').result_eq, pulled.result_eq, hanswer]
  obtain ⟨settled, hruns⟩ := pullMemo_settles (hides _ fits.1) sound' fits' hrun'
  rw [hresult] at hruns
  obtain ⟨budget, hsettled⟩ := hruns.exists
  have pulled' := pulled_of_pullMemo hides sound' fits' hsettled
  exact ⟨settled, hruns, ⟨⟨pulled.sound, pulled'.sound⟩,
    (pulled.continues.similar.symm.trans similar).trans pulled'.continues.similar⟩,
    ⟨pulled.continues, pulled.fits⟩, pulled'.continues, pulled'.fits⟩

section Neutral

lemma Unchanged.continues (hides : ∀ place < level, Hides place) (sound : store.Sound)
    (unchanged : Unchanged store other) : Continues level store other := by
  refine ⟨similar_raise hides sound unchanged.sound (.zero unchanged.judges) ?_, ?_, ?_⟩
  · exact fun place _ _ => by rw [unchanged.memos]
  · exact fun place memo held => ⟨memo, by rw [unchanged.memos, held], le_rfl⟩
  · exact fun place _ => by rw [unchanged.memos]

/-- A run that leaves the memos and verdicts as they are is neutral. -/
lemma neutral_of_unchanged {β : Type} (hides : ∀ place < level, Hides place) {run : Run Store β}
    (unchanged : ∀ store other, (comparison level).Same store other →
      ∃ result later later', run store = some (result, later) ∧ Unchanged store later ∧
        run other = some (result, later') ∧ Unchanged other later') :
    (comparison level).Neutral (atTop : Filter ℕ) run := by
  intro store other same _ _ result later hrun
  obtain ⟨result', later', other', hrun', unchanged, hother, unchanged'⟩ :=
    unchanged store other same
  obtain ⟨rfl, rfl⟩ := Prod.mk.inj (Option.some.inj (hrun.symm.trans hrun'))
  have continues := unchanged.continues hides same.1.1
  have continues' := unchanged'.continues hides same.1.2
  exact ⟨other', Eventually.of_forall fun _ => hother, ⟨⟨unchanged.sound, unchanged'.sound⟩,
    (continues.similar.symm.trans same.2).trans continues'.similar⟩, ⟨continues, trivial⟩,
    continues', trivial⟩

lemma neutral_report (hides : ∀ place < level, Hides place) (tag : Option String)
    (event : String → Event) :
    (comparison level).Neutral (atTop : Filter ℕ) (Traversals.report tag event) :=
  neutral_of_unchanged hides fun store other same =>
    ⟨(), store.report tag event, other.report tag event, rfl, same.1.1.report tag event, rfl,
      same.1.2.report tag event⟩

/-- A predicate is asked in stores where it has the same verdict. -/
lemma neutral_ask (hides : ∀ place < level, Hides place) (place : ℕ) (argument : Value) :
    (comparison level).Neutral (atTop : Filter ℕ) (Store.ask place argument) := by
  refine neutral_of_unchanged hides fun store other ⟨⟨sound, sound'⟩, similar⟩ => ?_
  cases held : store.predicates[place]? with
  | none =>
    have held' : other.predicates[place]? = none := by
      by_contra present
      obtain ⟨predicate, held'⟩ := Option.ne_none_iff_exists'.mp present
      obtain ⟨verdict, answers⟩ := sound'.predicates place predicate held'
      obtain ⟨_, h, -⟩ := (similar.judges place verdict).mpr ⟨predicate, held', answers⟩
      rw [held] at h
      cases h
    exact ⟨false, store, other, ask_absent held, sound.unchanged, ask_absent held',
      sound'.unchanged⟩
  | some predicate =>
    obtain ⟨verdict, answers⟩ := sound.predicates place predicate held
    obtain ⟨predicate', held', answers'⟩ :=
      (similar.judges place verdict).mp ⟨predicate, held, answers⟩
    obtain ⟨log, hask⟩ := ask_held held argument
    obtain ⟨log', hask'⟩ := ask_held held' argument
    rw [answers.answer_eq] at hask
    rw [answers'.answer_eq] at hask'
    exact ⟨verdict argument, _, _, hask, sound.asked held argument log, hask',
      sound'.asked held' argument log'⟩

end Neutral

/-- The memos of a store hide who has pulled them, whatever is made of them. -/
theorem hides (level : ℕ) : Hides level := by
  induction level using Nat.strong_induction_on with
  | _ level ih =>
    exact Comparison.Alike.pipeline (fun traversal => Fits.lasting level traversal)
      (neutral_report ih) (neutral_ask ih) (alike_pullMemo ih)

end Levels

end Store

end Traversals
