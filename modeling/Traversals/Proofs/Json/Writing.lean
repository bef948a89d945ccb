import Mathlib.Data.List.Forall2
import Mathlib.Data.Option.Basic
import Traversals.Json.Record
import Traversals.Proofs.Json.Grammar

/-!
# Written records

What is written for a record is a spelling of the object with its fields: no
blanks, no escapes, and words in base ten.
-/

namespace Traversals.Json

/-- A text that is a spelling of a value, without blanks around it. -/
def Spelled (text : String) (json : Json) : Prop :=
  ∃ spelling : Spelling, spelling.json = json ∧ spelling.chars = text.toList

lemma Spelled.spells {text : String} {json : Json} (spelled : Spelled text json) :
    Spells text json := by
  obtain ⟨spelling, hjson, hchars⟩ := spelled
  exact ⟨.none, spelling, .none, hjson, by simp [Blanks.none, hchars]⟩

section Words

lemma spelled_null : Spelled "null" .null := ⟨.null, rfl, rfl⟩

lemma spelled_nat (n : ℕ) : Spelled (toString n) (.integer n) := by
  refine ⟨.numeral ⟨false, n, none, none⟩, rfl, ?_⟩
  have hrepr : toString n = n.repr := rfl
  rw [hrepr, Nat.toList_repr]
  simp [Spelling.chars, Numeral.chars, Numeral.magnitudeChars, Numeral.fractionChars,
    Numeral.exponentChars]

lemma spelled_int (n : ℤ) : Spelled (toString n) (.integer n) := by
  rw [Int.toString_eq_repr, Int.repr_eq_if]
  by_cases hsign : 0 ≤ n
  · have spelled := spelled_nat n.toNat
    rw [Int.toNat_of_nonneg hsign] at spelled
    rw [if_pos hsign]
    exact spelled
  · have hwhole : (-n).toNat ≠ 0 := by omega
    have hvalue : -((-n).toNat : ℤ) = n := by omega
    rw [if_neg hsign]
    refine ⟨.numeral ⟨true, (-n).toNat, none, none⟩, ?_, ?_⟩
    · rw [Spelling.json, Numeral.json, Numeral.integer, if_pos rfl, hvalue]
      simp [Numeral.isReal, hwhole]
    · rw [String.toList_append, Nat.toList_repr]
      simp [Spelling.chars, Numeral.chars, Numeral.magnitudeChars, Numeral.fractionChars,
        Numeral.exponentChars]

end Words

section Record

/-- A text of characters that need no escape. -/
def Plain (text : String) : Prop :=
  ∀ c ∈ text.toList, 32 ≤ c.toNat ∧ c ≠ '\x22' ∧ c ≠ '\\'

lemma exists_quoted {text : String} (plain : Plain text) :
    ∃ quoted : Quoted, quoted.chars = '\x22' :: (text.toList ++ ['\x22']) ∧
      quoted.content = some text := by
  have written : ∀ cs : List Char, (∀ c ∈ cs, 32 ≤ c.toNat ∧ c ≠ '\x22' ∧ c ≠ '\\') →
      ∃ quoted : Quoted, quoted.flatMap Written.chars = cs ∧
        Token.characters (quoted.map Written.piece) = some cs := by
    intro cs hcs
    induction cs with
    | nil => exact ⟨[], rfl, rfl⟩
    | cons c cs ih =>
      obtain ⟨printable, unmarked⟩ := hcs c List.mem_cons_self
      obtain ⟨quoted, hchars, hcontent⟩ := ih fun d hd => hcs d (List.mem_cons_of_mem _ hd)
      refine ⟨.plain c printable unmarked :: quoted, ?_, ?_⟩
      · rw [List.flatMap_cons, hchars]
        rfl
      · simp [Written.piece, Token.characters, hcontent]
  obtain ⟨quoted, hchars, hcontent⟩ := written text.toList plain
  refine ⟨quoted, by rw [Quoted.chars, hchars], ?_⟩
  rw [Quoted.content, hcontent, Option.map_some, String.ofList_toList]

/-- An entry is written with the name and the spelling of a field. -/
structure Entry (entry : String × String) (field : String × Json) : Prop where
  name_eq : entry.1 = field.1
  plain : Plain entry.1
  spelled : Spelled entry.2 field.2

/-- The fields and the closing brace are written. -/
lemma exists_members {entries : List (String × String)} {fields : List (String × Json)}
    (written : List.Forall₂ Entry entries fields) (nonempty : entries ≠ []) :
    ∃ members : Members,
      members.json = (fields.map fun field => (some field.1, field.2)) ∧
      members.chars = [','].intercalate (entries.map fun entry =>
        '\x22' :: (entry.1.toList ++ '\x22' :: ':' :: entry.2.toList)) ++ ['}'] := by
  induction written with
  | nil => exact absurd rfl nonempty
  | @cons entry field entries fields first others ih =>
    obtain ⟨quoted, hquoted, hcontent⟩ := exists_quoted first.plain
    obtain ⟨item, hitem, hchars⟩ := first.spelled
    rcases others with _ | ⟨second, others⟩
    · refine ⟨.last ⟨.none, quoted, .none⟩ .none item .none, ?_, ?_⟩
      · simp [Members.json, hcontent, hitem, first.name_eq]
      · simp [Members.chars, Blanks.none, hquoted, hchars]
    · obtain ⟨members, hjson, hmembers⟩ := ih (by simp)
      refine ⟨.more ⟨.none, quoted, .none⟩ .none item .none members, ?_, ?_⟩
      · simp [Members.json, hcontent, hitem, hjson, first.name_eq]
      · simp [Members.chars, Blanks.none, hquoted, hchars, hmembers]

lemma spelled_record {entries : List (String × String)} {fields : List (String × Json)}
    (written : List.Forall₂ Entry entries fields) (nonempty : entries ≠ []) :
    Spelled (record entries) (.object (fields.map fun field => (some field.1, field.2))) := by
  obtain ⟨members, hjson, hchars⟩ := exists_members written nonempty
  refine ⟨.object members, by rw [Spelling.json, hjson], ?_⟩
  rw [Spelling.chars, hchars, record, String.toList_append, String.toList_append,
    String.toList_intercalate, List.map_map]
  have hentry : (String.toList ∘ fun entry : String × String =>
      "\x22" ++ entry.1 ++ "\x22:" ++ entry.2) =
      fun entry => '\x22' :: (entry.1.toList ++ '\x22' :: ':' :: entry.2.toList) := by
    funext entry
    simp
  rw [hentry]
  rfl

end Record

end Traversals.Json
