import Mathlib.Data.Finset.Dedup
import Mathlib.Data.Nat.Notation
import Traversals.Run

/-!
# Journals of pulls

A journal lists what has been asked of the traversals of several sources, each
known by the number of its component. A product keeps a balance in it. A
component after the first is started once for every element that the one
before it delivers, and the last component delivers one element a row. The
balance holds between the rows and not in the middle of one, so it is said of
what a journal has become since.
-/

namespace Traversals

variable {ω σ τ α : Type}

inductive Note where
  | started (component : ℕ)
  | asked (component number : ℕ) (delivered : Bool)
  deriving DecidableEq

namespace Note

/-- The answer is an element of the component. -/
def delivers (component : ℕ) : Note → Bool
  | .asked i _ true => i = component
  | _ => false

/-- The answer is an end of the component. -/
def ends (component : ℕ) : Note → Bool
  | .asked i _ false => i = component
  | _ => false

/-- The number of the traversal, if it is one of the component that was asked. -/
def number (component : ℕ) : Note → Option ℕ
  | .asked i k _ => if i = component then some k else none
  | .started _ => none

end Note

/-- The newest note comes first. -/
abbrev Journal := List Note

namespace Journal

def started (journal : Journal) (component : ℕ) : ℕ :=
  journal.count (.started component)

def delivered (journal : Journal) (component : ℕ) : ℕ :=
  journal.countP (Note.delivers component)

def ended (journal : Journal) (component : ℕ) : ℕ :=
  journal.countP (Note.ends component)

/-- The ends that one traversal has been asked for. -/
def endsOf (journal : Journal) (component number : ℕ) : ℕ :=
  journal.count (.asked component number false)

/-- The traversals of a component that have ever been asked. -/
def pulled (journal : Journal) (component : ℕ) : Finset ℕ :=
  (journal.filterMap (Note.number component)).toFinset

section Notes

variable (journal : Journal) (component number c k : ℕ) (answer : Bool)

@[simp] lemma started_started :
    started (.started component :: journal) c =
      started journal c + if component = c then 1 else 0 := by
  simp [started, List.count_cons]

@[simp] lemma started_asked :
    started (.asked component number answer :: journal) c = started journal c := by
  simp [started]

@[simp] lemma delivered_started :
    delivered (.started component :: journal) c = delivered journal c := by
  simp [delivered, Note.delivers]

@[simp] lemma delivered_asked :
    delivered (.asked component number answer :: journal) c =
      delivered journal c + if answer ∧ component = c then 1 else 0 := by
  cases answer <;> simp [delivered, List.countP_cons, Note.delivers]

@[simp] lemma ended_started : ended (.started component :: journal) c = ended journal c := by
  simp [ended, Note.ends]

@[simp] lemma ended_asked :
    ended (.asked component number answer :: journal) c =
      ended journal c + if answer = false ∧ component = c then 1 else 0 := by
  cases answer <;> simp [ended, List.countP_cons, Note.ends]

@[simp] lemma endsOf_started :
    endsOf (.started component :: journal) c k = endsOf journal c k := by
  simp [endsOf]

@[simp] lemma endsOf_asked :
    endsOf (.asked component number answer :: journal) c k =
      endsOf journal c k + if answer = false ∧ component = c ∧ number = k then 1 else 0 := by
  cases answer <;> simp [endsOf, List.count_cons]

variable {journal c k}

lemma mem_pulled : k ∈ pulled journal c ↔ ∃ answer, .asked c k answer ∈ journal := by
  rw [pulled, List.mem_toFinset, List.mem_filterMap]
  constructor
  · rintro ⟨⟨i⟩ | ⟨i, k', answer⟩, hmem, hnumber⟩
    · cases hnumber
    · obtain ⟨rfl, rfl⟩ : i = c ∧ k' = k := by simpa [Note.number] using hnumber
      exact ⟨answer, hmem⟩
  · rintro ⟨answer, hmem⟩
    exact ⟨_, hmem, if_pos rfl⟩

end Notes

/-- From one journal to another, a product of the components from `first` to
`last` has given some rows. Its first component had been started before. -/
structure Advances (first last rows : ℕ) (before after : Journal) : Prop where
  started_eq : ∀ c ≤ first, started after c = started before c
  delivered_eq : ∀ c < first, delivered after c = delivered before c
  balanced : ∀ c, first ≤ c → c < last →
    started after (c + 1) + delivered before c = started before (c + 1) + delivered after c
  rows_eq : delivered after last = delivered before last + rows

namespace Advances

variable {first last rows : ℕ} {before middle after : Journal}

lemma trans (h : Advances first last 0 before middle)
    (h' : Advances first last rows middle after) : Advances first last rows before after := by
  constructor
  · intro c hc
    rw [h'.started_eq c hc, h.started_eq c hc]
  · intro c hc
    rw [h'.delivered_eq c hc, h.delivered_eq c hc]
  · intro c hfirst hlast
    have hbefore := h.balanced c hfirst hlast
    have hafter := h'.balanced c hfirst hlast
    omega
  · rw [h'.rows_eq, h.rows_eq, Nat.add_zero]

/-- The component above is neither started nor asked meanwhile. -/
lemma above (h : Advances (first + 1) last rows before after) :
    Advances first last rows before after := by
  refine ⟨fun c hc => h.started_eq c (by omega), fun c hc => h.delivered_eq c (by omega), ?_,
    h.rows_eq⟩
  intro c hfirst hlast
  rcases Nat.eq_or_lt_of_le hfirst with rfl | hlt
  · rw [h.started_eq _ le_rfl, h.delivered_eq _ (Nat.lt_succ_self _)]
  · exact h.balanced c hlt hlast

/-- An answer of the last component is a row or none. -/
lemma row (before : Journal) (number : ℕ) (answer : Bool) :
    Advances last last answer.toNat before (.asked last number answer :: before) := by
  refine ⟨by simp, fun c hc => ?_, fun c hfirst hlast => by omega, by cases answer <;> simp⟩
  simp [show last ≠ c by omega]

/-- So is an end of any of them. -/
lemma ended (before : Journal) (number : ℕ) :
    Advances first last 0 before (.asked first number false :: before) := by
  constructor <;> simp

/-- An element is taken before the component below is started for it. -/
lemma taken (before : Journal) (number : ℕ) (hlast : first < last) :
    Advances first last 0 before (.started (first + 1) :: .asked first number true :: before) := by
  constructor
  · intro c hc
    simp [show first + 1 ≠ c by omega]
  · intro c hc
    simp [show first ≠ c by omega]
  · intro c _ _
    by_cases hc : first = c
    · simp [hc, Nat.add_assoc, Nat.add_comm 1]
    · simp [hc]
  · simp [show first ≠ last by omega]

/-- Or the component below is started, and gives its rows, before the element
is taken. -/
lemma opened (number : ℕ) (hlast : first < last)
    (h : Advances (first + 1) last rows (.started (first + 1) :: before) after) :
    Advances first last rows before (.asked first number true :: after) := by
  constructor
  · intro c hc
    have hstarted := h.started_eq c (by omega)
    simpa [show first + 1 ≠ c by omega] using hstarted
  · intro c hc
    have hdelivered := h.delivered_eq c (by omega)
    simpa [show first ≠ c by omega] using hdelivered
  · intro c hfirst hc
    rcases Nat.eq_or_lt_of_le hfirst with rfl | hlt
    · have hstarted := h.started_eq (first + 1) le_rfl
      have hdelivered := h.delivered_eq first (Nat.lt_succ_self _)
      rw [started_started, if_pos rfl] at hstarted
      rw [delivered_started] at hdelivered
      rw [started_asked, delivered_asked, if_pos ⟨rfl, rfl⟩, hstarted, hdelivered]
      omega
    · have hbalanced := h.balanced c hlt hc
      simpa [show first ≠ c by omega] using hbalanced
  · have hrows := h.rows_eq
    simpa [show first ≠ last by omega] using hrows

end Advances

/-- The journal of a product of the components up to `last` that has given some
rows. -/
structure Balanced (last rows : ℕ) (journal : Journal) : Prop where
  first_eq : started journal 0 = 1
  next_eq : ∀ c < last, started journal (c + 1) = delivered journal c
  rows_eq : delivered journal last = rows

lemma Balanced.advances {last rows more : ℕ} {before after : Journal}
    (balanced : Balanced last rows before) (h : Advances 0 last more before after) :
    Balanced last (rows + more) after := by
  constructor
  · rw [h.started_eq 0 le_rfl, balanced.first_eq]
  · intro c hc
    have hafter := h.balanced c (Nat.zero_le c) hc
    have hbefore := balanced.next_eq c hc
    omega
  · rw [h.rows_eq, balanced.rows_eq]

end Journal

/-- Numbers in order, from `i` on. -/
def Numbered {β : Type} (number : β → ℕ) : ℕ → List β → Prop
  | _, [] => True
  | i, x :: rest => number x = i ∧ Numbered number (i + 1) rest

/-- A store that keeps a journal, and the components of what is started and asked. -/
structure Tally (start : Start ω σ τ) (pull : Pull ω τ α) where
  journal : ω → Journal
  componentOf : σ → ℕ
  component : τ → ℕ
  number : τ → ℕ
  start_eq : ∀ {source store traversal store'}, start source store = some (traversal, store') →
    component traversal = componentOf source ∧
      journal store' = .started (componentOf source) :: journal store
  pull_eq : ∀ {traversal store answer traversal' store'},
    pull traversal store = some ((answer, traversal'), store') →
      component traversal' = component traversal ∧
        journal store' =
          .asked (component traversal) (number traversal) answer.isSome :: journal store

end Traversals
