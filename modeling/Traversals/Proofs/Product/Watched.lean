import Mathlib.Algebra.BigOperators.Ring.Multiset
import Mathlib.Data.ENat.Basic
import Traversals.Proofs.Product.Journal
import Traversals.Proofs.Replay

/-!
# Watched sources

The sources of a product are numbered, and whatever is started and asked of
them is noted in a journal beside the store. The elements are those of the
sources themselves. The journal accounts for the ledger: a traversal that was
started is still in use or has been asked for one end, and what has been
delivered of a component and what is left make up its sequence as often as it
was started.
-/

namespace Traversals

open Stream' (Seq)

variable {ω σ τ α : Type}

/-- A traversal with its component and its number among those of the component. -/
structure Watched (τ : Type) where
  component : ℕ
  number : ℕ
  traversal : τ

/-- A start that notes and numbers what it starts. -/
def watchStart (start : Start ω σ τ) : Start (ω × Journal) (σ × ℕ) (Watched τ) :=
  fun (source, component) (store, journal) =>
    (start source store).map fun (traversal, store) =>
      (⟨component, journal.started component, traversal⟩, (store, .started component :: journal))

/-- A pull that notes whether it was given an element. -/
def watchPull (pull : Pull ω τ α) : Pull (ω × Journal) (Watched τ) α :=
  fun watched (store, journal) =>
    (pull watched.traversal store).map fun ((answer, traversal), store) =>
      ((answer, { watched with traversal }),
        (store, .asked watched.component watched.number answer.isSome :: journal))

def Tally.watched (start : Start ω σ τ) (pull : Pull ω τ α) :
    Tally (watchStart start) (watchPull pull) where
  journal := Prod.snd
  componentOf := Prod.snd
  component := Watched.component
  number := Watched.number
  start_eq := by
    rintro ⟨source, component⟩ ⟨store, journal⟩ traversal store' h
    obtain ⟨result, -, hresult⟩ := Option.map_eq_some_iff.mp h
    cases hresult
    exact ⟨rfl, rfl⟩
  pull_eq := by
    rintro traversal ⟨store, journal⟩ answer traversal' store' h
    obtain ⟨result, -, hresult⟩ := Option.map_eq_some_iff.mp h
    cases hresult
    exact ⟨rfl, rfl⟩

namespace Watched

/-- What a traversal has left, if it is one of the component. -/
noncomputable def left (component : ℕ) (entry : Watched τ × Seq α) : ℕ∞ :=
  if entry.1.component = component then entry.2.length' else 0

end Watched

/-- A journal agrees with a ledger of what has been started and not ended. -/
structure Accounts (lengths : ℕ → ℕ∞) (ledger : Multiset (Watched τ × Seq α))
    (journal : Journal) : Prop where
  numbered : ∀ c k, journal.endsOf c k +
      (ledger.map fun entry => (entry.1.component, entry.1.number)).count (c, k) =
    if k < journal.started c then 1 else 0
  asked : ∀ {c k answer}, .asked c k answer ∈ journal → k < journal.started c
  ended : ∀ c, journal.ended c + (ledger.map fun entry => entry.1.component).count c =
    journal.started c
  delivered : ∀ c, (journal.delivered c : ℕ∞) + (ledger.map (Watched.left c)).sum =
    journal.started c * lengths c
  endless : ∀ c, lengths c = ⊤ → journal.ended c = 0 ∧
    ∀ entry ∈ ledger, entry.1.component = c → entry.2.length' = ⊤

namespace Accounts

variable {lengths : ℕ → ℕ∞} {ledger : Multiset (Watched τ × Seq α)} {journal : Journal}

lemma nil (lengths : ℕ → ℕ∞) : Accounts lengths (0 : Multiset (Watched τ × Seq α)) [] := by
  constructor <;> simp [Journal.started, Journal.delivered, Journal.ended, Journal.endsOf]

lemma start (accounts : Accounts lengths ledger journal) {component : ℕ} {X : Seq α}
    (hlength : X.length' = lengths component) (traversal : τ) :
    Accounts lengths ((⟨component, journal.started component, traversal⟩, X) ::ₘ ledger)
      (.started component :: journal) := by
  constructor
  · intro c k
    have h := accounts.numbered c k
    simp only [Journal.endsOf_started, Journal.started_started, Multiset.map_cons,
      Multiset.count_cons, Prod.mk.injEq]
    by_cases hc : component = c
    · subst hc
      split_ifs at h ⊢ <;> omega
    · simpa [hc, Ne.symm hc] using h
  · intro c k answer hmem
    have h := accounts.asked ((List.mem_cons.mp hmem).resolve_left (by simp))
    rw [Journal.started_started]
    omega
  · intro c
    have h := accounts.ended c
    simp only [Journal.ended_started, Journal.started_started, Multiset.map_cons,
      Multiset.count_cons]
    split_ifs <;> omega
  · intro c
    have h := accounts.delivered c
    simp only [Journal.delivered_started, Journal.started_started, Multiset.map_cons,
      Multiset.sum_cons, Watched.left]
    by_cases hc : component = c
    · subst hc
      simp only [if_true, Nat.cast_add, Nat.cast_one, add_mul, one_mul, hlength]
      rw [add_left_comm, h, add_comm]
    · simpa [hc] using h
  · intro c htop
    obtain ⟨hended, hledger⟩ := accounts.endless c htop
    refine ⟨by simpa using hended, Multiset.forall_mem_cons.mpr ⟨?_, hledger⟩⟩
    rintro rfl
    rw [hlength, htop]

/-- What is in use has been started. -/
lemma started_of_mem (accounts : Accounts lengths ledger journal)
    {entry : Watched τ × Seq α} (hmem : entry ∈ ledger) :
    entry.1.number < journal.started entry.1.component := by
  have h := accounts.numbered entry.1.component entry.1.number
  have hcount := Multiset.count_pos.mpr
    (Multiset.mem_map_of_mem (fun entry => (entry.1.component, entry.1.number)) hmem)
  by_contra hlt
  rw [if_neg hlt] at h
  omega

lemma deliver {watched : Watched τ} {x : α} {rest : Seq α}
    (accounts : Accounts lengths ((watched, Seq.cons x rest) ::ₘ ledger) journal) (traversal : τ) :
    Accounts lengths (({ watched with traversal }, rest) ::ₘ ledger)
      (.asked watched.component watched.number true :: journal) := by
  constructor
  · intro c k
    simpa using accounts.numbered c k
  · intro c k answer hmem
    rw [Journal.started_asked]
    rcases List.mem_cons.mp hmem with hnote | hmem
    · obtain ⟨rfl, rfl, -⟩ := Note.asked.inj hnote
      exact accounts.started_of_mem (Multiset.mem_cons_self _ _)
    · exact accounts.asked hmem
  · intro c
    simpa using accounts.ended c
  · intro c
    have h := accounts.delivered c
    simp only [Journal.delivered_asked, Journal.started_asked, Multiset.map_cons,
      Multiset.sum_cons, Watched.left, true_and] at h ⊢
    by_cases hc : watched.component = c
    · subst hc
      simp only [if_true, Seq.length'_cons, Nat.cast_add, Nat.cast_one] at h ⊢
      rw [← h, add_assoc, ← add_assoc 1, add_comm 1]
    · simpa [hc] using h
  · intro c htop
    obtain ⟨hended, hledger⟩ := accounts.endless c htop
    obtain ⟨hfirst, hledger⟩ := Multiset.forall_mem_cons.mp hledger
    refine ⟨by simpa using hended, Multiset.forall_mem_cons.mpr ⟨fun hc => ?_, hledger⟩⟩
    have hcons := hfirst hc
    rw [Seq.length'_cons] at hcons
    simpa using hcons

lemma finish {watched : Watched τ}
    (accounts : Accounts lengths ((watched, Seq.nil) ::ₘ ledger) journal) :
    Accounts lengths ledger (.asked watched.component watched.number false :: journal) := by
  constructor
  · intro c k
    have h := accounts.numbered c k
    simp only [Journal.endsOf_asked, Journal.started_asked, Multiset.map_cons,
      Multiset.count_cons, Prod.mk.injEq, true_and] at h ⊢
    rw [← h]
    by_cases hc : watched.component = c ∧ watched.number = k
    · simp [hc]
      omega
    · have hc' : ¬ (c = watched.component ∧ k = watched.number) := fun h => hc ⟨h.1.symm, h.2.symm⟩
      simp [hc, hc']
  · intro c k answer hmem
    rw [Journal.started_asked]
    rcases List.mem_cons.mp hmem with hnote | hmem
    · obtain ⟨rfl, rfl, -⟩ := Note.asked.inj hnote
      exact accounts.started_of_mem (Multiset.mem_cons_self _ _)
    · exact accounts.asked hmem
  · intro c
    have h := accounts.ended c
    simp only [Journal.ended_asked, Journal.started_asked, Multiset.map_cons,
      Multiset.count_cons, true_and, eq_comm (a := c)] at h ⊢
    split_ifs at h ⊢ <;> omega
  · intro c
    have h := accounts.delivered c
    simpa [Watched.left] using h
  · intro c htop
    obtain ⟨hended, hledger⟩ := accounts.endless c htop
    obtain ⟨hfirst, hledger⟩ := Multiset.forall_mem_cons.mp hledger
    have hc : watched.component ≠ c := by
      intro hc
      have hnil := hfirst hc
      rw [Seq.length'_nil] at hnil
      cases hnil
    exact ⟨by simpa [hc] using hended, hledger⟩

end Accounts

section Replay

variable {start : Start ω σ τ} {pull : Pull ω τ α} {sources : List σ} {elements : σ → Seq α}

/-- The number of elements of a component, none where there is no component. -/
noncomputable def lengthAt (components : List (Seq α)) (component : ℕ) : ℕ∞ :=
  (components[component]?.map Seq.length').getD 0

/-- Watched sources replay the same elements, and their journal accounts for it. -/
def Replay.watched (replay : Replay start pull sources elements) (frame : Multiset (τ × Seq α)) :
    Replay (watchStart start) (watchPull pull) sources.zipIdx fun source => elements source.1 where
  Holds store ledger :=
    replay.Holds store.1 (ledger.map (fun entry => (entry.1.traversal, entry.2)) + frame) ∧
      Accounts (lengthAt (sources.map elements)) ledger store.2
  starts := by
    rintro ⟨source, component⟩ ⟨store, journal⟩ ledger known ⟨holds, accounts⟩
    have hsource := List.mem_zipIdx_iff_getElem?.mp known
    obtain ⟨traversal, store', hstart, holds'⟩ :=
      replay.starts (List.mem_of_getElem? hsource) holds
    refine ⟨_, _, by rw [watchStart, hstart]; rfl, ?_, accounts.start ?_ traversal⟩
    · simpa using holds'
    · simp [lengthAt, hsource]
  delivers := by
    rintro watched x rest ⟨store, journal⟩ ledger ⟨holds, accounts⟩
    rw [Multiset.map_cons, Multiset.cons_add] at holds
    obtain ⟨traversal, store', hpull, holds'⟩ := replay.delivers holds
    refine ⟨_, _, by rw [watchPull, hpull]; rfl, ?_, accounts.deliver traversal⟩
    simpa using holds'
  ends := by
    rintro watched ⟨store, journal⟩ ledger ⟨holds, accounts⟩
    rw [Multiset.map_cons, Multiset.cons_add] at holds
    obtain ⟨traversal, store', hpull, holds'⟩ := replay.ends holds
    exact ⟨_, _, by rw [watchPull, hpull]; rfl, holds', accounts.finish⟩

end Replay

end Traversals
