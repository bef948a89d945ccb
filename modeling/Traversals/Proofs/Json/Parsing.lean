import Traversals.Json.Reading
import Traversals.Proofs.Json.Lexing

/-!
# Reading a spelling

The tokens of a spelling are read back as the value that is spelled. The bound
on the depth of the reader is never met, for each value, item and member has a
token of its own. So every text of a value is read, blanks and escapes included.
-/

namespace Traversals.Json

/-- No value begins with a closing bracket. -/
lemma Spelling.exists_tokens (spelling : Spelling) :
    ∃ token others, spelling.tokens = token :: others ∧ token ≠ .closeBracket := by
  cases spelling with
  | numeral numeral =>
    refine ⟨_, _, rfl, ?_⟩
    rw [Numeral.token]
    split <;> simp
  | _ => exact ⟨_, _, rfl, by simp⟩

lemma Items.exists_tokens (items : Items) :
    ∃ token others, items.tokens = token :: others ∧ token ≠ .closeBracket := by
  cases items with
  | last before item after =>
    obtain ⟨token, others, htokens, hopen⟩ := item.exists_tokens
    exact ⟨token, _, by rw [Items.tokens, htokens]; rfl, hopen⟩
  | more before item after rest =>
    obtain ⟨token, others, htokens, hopen⟩ := item.exists_tokens
    exact ⟨token, _, by rw [Items.tokens, htokens]; rfl, hopen⟩

lemma Members.exists_tokens (members : Members) :
    ∃ content others, members.tokens = .text content :: others := by
  cases members <;> exact ⟨_, _, rfl⟩

section Value

variable {bound : ℕ} {tokens rest : List Token}

lemma value_openBracket {token : Token} (hopen : token ≠ .closeBracket) :
    value (bound + 1) (.openBracket :: token :: tokens) =
      (items bound (token :: tokens)).map fun result => (array result.1, result.2) := by
  rw [value]
  · cases items bound (token :: tokens) <;> rfl
  · rintro others ⟨⟩
    exact hopen rfl

lemma value_openBrace {content : Option String} :
    value (bound + 1) (.openBrace :: .text content :: tokens) =
      (members bound (.text content :: tokens)).map fun result => (object result.1, result.2) := by
  simp only [value]
  cases members bound (.text content :: tokens) <;> rfl

end Value

mutual

/-- The tokens of a spelling are read as its value, up to what comes behind it. -/
theorem Spelling.value_tokens (spelling : Spelling) (bound : ℕ) (rest : List Token)
    (enough : 2 * spelling.tokens.length ≤ bound) :
    value bound (spelling.tokens ++ rest) = some (spelling.json, rest) := by
  obtain ⟨token, others, htokens, -⟩ := spelling.exists_tokens
  have inside : 0 < spelling.tokens.length := by simp [htokens]
  obtain ⟨bound, rfl⟩ : ∃ b, bound = b + 1 := ⟨bound - 1, by omega⟩
  match spelling with
  | .null => rfl
  | .bool b => rfl
  | .numeral numeral =>
    rw [Spelling.tokens, Spelling.json, Numeral.token, Numeral.json]
    cases numeral.isReal <;> rfl
  | .text quoted => rfl
  | .emptyArray _ => rfl
  | .array items =>
    rw [Spelling.tokens, List.length_cons] at enough
    have listed := items.items_tokens bound rest (by omega)
    obtain ⟨token, others, htokens, hopen⟩ := items.exists_tokens
    rw [htokens, List.cons_append] at listed
    rw [Spelling.tokens, Spelling.json, htokens, List.cons_append, List.cons_append,
      value_openBracket hopen, listed]
    rfl
  | .emptyObject _ => rfl
  | .object members =>
    rw [Spelling.tokens, List.length_cons] at enough
    have listed := members.members_tokens bound rest (by omega)
    obtain ⟨content, others, htokens⟩ := members.exists_tokens
    rw [htokens, List.cons_append] at listed
    rw [Spelling.tokens, Spelling.json, htokens, List.cons_append, List.cons_append,
      value_openBrace, listed]
    rfl

theorem Items.items_tokens (items : Items) (bound : ℕ) (rest : List Token)
    (enough : 2 * items.tokens.length ≤ bound) :
    Json.items bound (items.tokens ++ rest) = some (items.json, rest) := by
  match items with
  | .last _ item _ =>
    rw [Items.tokens, List.length_append, List.length_singleton] at enough
    obtain ⟨bound, rfl⟩ : ∃ b, bound = b + 1 := ⟨bound - 1, by omega⟩
    have hitem := item.value_tokens bound (.closeBracket :: rest) (by omega)
    rw [Items.tokens, Items.json, List.append_assoc, Json.items, List.singleton_append, hitem]
    rfl
  | .more _ item _ others =>
    rw [Items.tokens, List.length_append, List.length_cons] at enough
    obtain ⟨bound, rfl⟩ : ∃ b, bound = b + 1 := ⟨bound - 1, by omega⟩
    have hitem := item.value_tokens bound (.comma :: (others.tokens ++ rest)) (by omega)
    have hothers := others.items_tokens bound rest (by omega)
    rw [Items.tokens, Items.json, List.append_assoc, Json.items, List.cons_append, hitem]
    simp [hothers]

theorem Members.members_tokens (members : Members) (bound : ℕ) (rest : List Token)
    (enough : 2 * members.tokens.length ≤ bound) :
    Json.members bound (members.tokens ++ rest) = some (members.json, rest) := by
  match members with
  | .last key _ item _ =>
    rw [Members.tokens, List.length_cons, List.length_cons, List.length_append,
      List.length_singleton] at enough
    obtain ⟨bound, rfl⟩ : ∃ b, bound = b + 1 := ⟨bound - 1, by omega⟩
    have hitem := item.value_tokens bound (.closeBrace :: rest) (by omega)
    rw [Members.tokens, Members.json, List.cons_append, List.cons_append, List.append_assoc,
      Json.members, List.singleton_append, hitem]
    rfl
  | .more key _ item _ others =>
    rw [Members.tokens, List.length_cons, List.length_cons, List.length_append,
      List.length_cons] at enough
    obtain ⟨bound, rfl⟩ : ∃ b, bound = b + 1 := ⟨bound - 1, by omega⟩
    have hitem := item.value_tokens bound (.comma :: (others.tokens ++ rest)) (by omega)
    have hothers := others.members_tokens bound rest (by omega)
    rw [Members.tokens, Members.json, List.cons_append, List.cons_append, List.append_assoc,
      Json.members, List.cons_append, hitem]
    simp [hothers]

end

/-- Whatever spells a value is read as this value. -/
lemma Spells.ofString_eq {text : String} {json : Json} (spells : Spells text json) :
    ofString text = some json := by
  obtain ⟨before, spelling, after, rfl, hchars⟩ := spells
  have cuts : Cuts (before.chars ++ (spelling.chars ++ after.chars)) spelling.tokens := by
    have spelled := spelling.cuts after.cuts_nil (by simpa using after.stops stops_nil)
    rw [List.append_nil] at spelled
    exact before.cuts spelled
  have htokens : Token.ofString text = some spelling.tokens := by
    rw [Token.ofString, hchars]
    refine cuts _ ?_
    rw [← hchars, String.length_toList]
    exact Nat.lt_succ_self _
  have hvalue := spelling.value_tokens (2 * spelling.tokens.length + 1) []
    (Nat.le_succ _)
  rw [List.append_nil] at hvalue
  simp [ofString, htokens, ofTokens, hvalue]

end Traversals.Json
