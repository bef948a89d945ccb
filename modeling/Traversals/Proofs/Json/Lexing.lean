import Mathlib.Data.List.TakeWhile
import Mathlib.Data.Fintype.Basic
import Mathlib.Tactic.FinCases
import Traversals.Proofs.Json.Grammar

/-!
# Cutting a spelling

The tokens of a text are found one after the other. What stands in front of a
number does not matter, but what stands behind it does: a digit, a point or an
exponent would belong to the number.
-/

namespace Traversals.Json

open Token (isBlank isDigit digits natural isWhole fraction exponent magnitude number pieces
  hexUnit shortEscape quotedText first scan)

/-- The tokens of these characters, with any bound above their number. -/
def Cuts (cs : List Char) (tokens : List Token) : Prop :=
  ∀ bound, cs.length < bound → scan bound cs = some tokens

/-- A number may end here. -/
def Stops (cs : List Char) : Prop :=
  ∀ c ∈ cs.head?, isDigit c = false ∧ c ≠ '.' ∧ c ≠ 'e' ∧ c ≠ 'E'

section Cuts

variable {cs rest : List Char} {tokens : List Token} {token : Token} {c : Char}

lemma Blanks.cuts_nil (blanks : Blanks) : Cuts blanks.chars [] := by
  intro bound hbound
  obtain ⟨bound, rfl⟩ := Nat.exists_eq_succ_of_ne_zero (Nat.ne_zero_of_lt hbound)
  have hdrop : blanks.chars.dropWhile isBlank = [] := List.dropWhile_eq_nil_iff.mpr blanks.blank
  simp only [scan, hdrop]

lemma Blanks.cuts (blanks : Blanks) (cuts : Cuts cs tokens) :
    Cuts (blanks.chars ++ cs) tokens := by
  intro bound hbound
  rw [List.length_append] at hbound
  have hscan := cuts bound (by omega)
  obtain ⟨bound, rfl⟩ := Nat.exists_eq_succ_of_ne_zero (Nat.ne_zero_of_lt hbound)
  have hdrop : (blanks.chars ++ cs).dropWhile isBlank = cs.dropWhile isBlank :=
    List.dropWhile_append_of_pos blanks.blank
  rw [scan, hdrop]
  rwa [scan] at hscan

/-- A token in front. -/
lemma Cuts.cons (cuts : Cuts rest tokens) (visible : isBlank c = false)
    (hfirst : first (c :: cs) = some (token, rest)) (shorter : rest.length ≤ cs.length) :
    Cuts (c :: cs) (token :: tokens) := by
  intro bound hbound
  obtain ⟨bound, rfl⟩ := Nat.exists_eq_succ_of_ne_zero (Nat.ne_zero_of_lt hbound)
  rw [List.length_cons] at hbound
  have hrest := cuts bound (by omega)
  have hdrop : (c :: cs).dropWhile isBlank = c :: cs := by simp [visible]
  simp [scan, hdrop, hfirst, hrest]

lemma stops_nil : Stops [] := by
  simp [Stops]

lemma Blanks.stops (blanks : Blanks) (stops : Stops cs) : Stops (blanks.chars ++ cs) := by
  rcases hchars : blanks.chars with _ | ⟨c, chars⟩
  · exact stops
  · have hblank := blanks.blank c (by simp [hchars])
    have hblanks : c = ' ' ∨ c = '\t' ∨ c = '\n' ∨ c = '\r' := by
      simpa [isBlank, or_assoc] using hblank
    rintro _ ⟨⟩
    rcases hblanks with rfl | rfl | rfl | rfl <;> decide

end Cuts

section Digits

variable {ds rest : List Char}

lemma digits_append (all : ∀ c ∈ ds, isDigit c = true)
    (stops : ∀ c ∈ rest.head?, isDigit c = false) : digits (ds ++ rest) = (ds, rest) := by
  have htake : rest.takeWhile isDigit = [] := by
    rcases rest with _ | ⟨c, rest⟩
    · rfl
    · simp [stops c rfl]
  have hdrop : rest.dropWhile isDigit = rest := by
    rcases rest with _ | ⟨c, rest⟩
    · rfl
    · simp [stops c rfl]
  rw [digits, List.takeWhile_append_of_pos all, List.dropWhile_append_of_pos all, htake, hdrop,
    List.append_nil]

lemma isDigit_digitChar (digit : Fin 10) : isDigit (Nat.digitChar digit) = true := by
  revert digit
  decide

lemma isDigit_of_mem_toDigits {n : ℕ} : ∀ c ∈ Nat.toDigits 10 n, isDigit c = true := by
  intro c hc
  have hdigit := Nat.isDigit_of_mem_toDigits (by decide) (by decide) hc
  rw [Char.isDigit_iff_toNat] at hdigit
  simpa [isDigit] using hdigit

lemma natural_toDigits (n : ℕ) : natural (Nat.toDigits 10 n) = n := by
  have hfold := @Nat.ofDigitChars_ten_toDigits n
  rw [Nat.ofDigitChars_eq_foldl] at hfold
  have hzero : '0'.toNat = 48 := rfl
  simpa only [natural, Nat.mul_comm, hzero] using hfold

/-- The digits of a number begin with a zero only if it is zero. -/
lemma exists_toDigits (n : ℕ) : ∃ (digit : Fin 10) (others : List Char),
    Nat.toDigits 10 n = Nat.digitChar digit :: others ∧ (digit = 0 → n = 0) := by
  induction n using Nat.strong_induction_on with
  | _ n ih =>
    by_cases hsmall : n < 10
    · refine ⟨⟨n, hsmall⟩, [], Nat.toDigits_of_lt_base hsmall, ?_⟩
      intro hzero
      exact congrArg Fin.val hzero
    · obtain ⟨digit, others, hdigits, hdigit⟩ := ih (n / 10) (by omega)
      refine ⟨digit, others ++ [Nat.digitChar (n % 10)], ?_, ?_⟩
      · rw [Nat.toDigits_of_base_le (by decide) (by omega), hdigits, List.cons_append]
      · intro hzero
        have hnone := hdigit hzero
        omega

lemma isWhole_toDigits (n : ℕ) : isWhole (Nat.toDigits 10 n) = true := by
  obtain ⟨digit, others, hdigits, hdigit⟩ := exists_toDigits n
  by_cases hzero : digit = 0
  · obtain rfl := hdigit hzero
    rfl
  · have hchar : ∀ digit : Fin 10, digit ≠ 0 → Nat.digitChar digit ≠ '0' := by decide
    rw [hdigits]
    simp [isWhole, hchar digit hzero]

lemma dropSign_digit (digit : Fin 10) (cs : List Char) :
    Token.dropSign (Nat.digitChar digit :: cs) = Nat.digitChar digit :: cs := by
  fin_cases digit <;> rfl

end Digits

section Numbers

variable {rest : List Char}

lemma Digits.isDigit_chars (ds : Digits) : ∀ c ∈ ds.chars, isDigit c = true := by
  intro c hc
  obtain ⟨digit, -, rfl⟩ := List.mem_map.mp hc
  exact isDigit_digitChar digit

lemma Digits.digits_append (ds : Digits) (stops : ∀ c ∈ rest.head?, isDigit c = false) :
    Token.digits (ds.chars ++ rest) = (ds.chars, rest) :=
  Json.digits_append ds.isDigit_chars stops

lemma Exponent.exponent_append (e : Exponent) (stops : Stops rest) :
    Token.exponent (e.chars ++ rest) = some (true, rest) := by
  have unsigned : ∀ sign : Option Bool, Token.dropSign
      ((sign.toList.map fun negative => if negative then '-' else '+') ++
        (e.digits.chars ++ rest)) = e.digits.chars ++ rest := by
    rintro (_ | _ | _)
    · exact dropSign_digit e.digits.first _
    · rfl
    · rfl
  have hdigits := e.digits.digits_append fun c hc => (stops c hc).1
  rw [chars, List.cons_append, List.append_assoc, Token.exponent, unsigned, hdigits]
  cases e.capital <;> rfl

lemma Numeral.exponent_append (numeral : Numeral) (stops : Stops rest) :
    Token.exponent (numeral.exponentChars ++ rest) = some (numeral.exponent.isSome, rest) := by
  rw [exponentChars]
  rcases numeral.exponent with _ | e
  · rcases rest with _ | ⟨c, rest⟩
    · rfl
    · obtain ⟨-, -, he, hE⟩ := stops c rfl
      simp [Token.exponent, he, hE]
  · exact e.exponent_append stops

/-- Behind the whole part of a number and behind its fraction there is no digit. -/
lemma Numeral.stops_exponent (numeral : Numeral) (stops : Stops rest) :
    ∀ c ∈ (numeral.exponentChars ++ rest).head?, isDigit c = false ∧ c ≠ '.' := by
  rw [exponentChars]
  rcases numeral.exponent with _ | e
  · exact fun c hc => ⟨(stops c hc).1, (stops c hc).2.1⟩
  · rintro _ ⟨⟩
    cases e.capital <;> decide

lemma Numeral.fraction_append (numeral : Numeral) (stops : Stops rest) :
    Token.fraction (numeral.fractionChars ++ (numeral.exponentChars ++ rest)) =
      some (numeral.fraction.isSome, numeral.exponentChars ++ rest) := by
  have hstops := numeral.stops_exponent stops
  rw [fractionChars]
  rcases numeral.fraction with _ | ds
  · rcases hrest : numeral.exponentChars ++ rest with _ | ⟨c, others⟩
    · rfl
    · obtain ⟨-, hpoint⟩ := hstops c (by rw [hrest]; rfl)
      simp [Token.fraction, hpoint]
  · have hdigits := ds.digits_append fun c hc => (hstops c hc).1
    simp only [Option.elim_some, List.cons_append, Token.fraction, hdigits]
    rfl

lemma Numeral.magnitude_append (numeral : Numeral) (stops : Stops rest) :
    magnitude numeral.negative (numeral.magnitudeChars ++ rest) = some (numeral.token, rest) := by
  have hstops : ∀ c ∈ (numeral.fractionChars ++ (numeral.exponentChars ++ rest)).head?,
      isDigit c = false := by
    rw [fractionChars]
    rcases numeral.fraction with _ | ds
    · exact fun c hc => (numeral.stops_exponent stops c hc).1
    · rintro _ ⟨⟩
      decide
  have hguard : (guard (isWhole (Nat.toDigits 10 numeral.whole)) : Option Unit) = some () :=
    if_pos (isWhole_toDigits numeral.whole)
  rw [magnitudeChars, List.append_assoc, List.append_assoc, magnitude,
    digits_append isDigit_of_mem_toDigits hstops]
  dsimp only
  rw [hguard]
  simp only [Option.bind_eq_bind, Option.bind_some, numeral.fraction_append stops,
    numeral.exponent_append stops, natural_toDigits]
  change (if numeral.isReal then some (Token.real, rest)
    else some (Token.integer numeral.integer, rest)) = some (numeral.token, rest)
  rw [token]
  cases numeral.isReal <;> rfl

lemma Numeral.exists_magnitudeChars (numeral : Numeral) :
    ∃ (digit : Fin 10) (others : List Char),
      numeral.magnitudeChars = Nat.digitChar digit :: others := by
  obtain ⟨digit, others, hdigits, -⟩ := exists_toDigits numeral.whole
  exact ⟨digit, _, by rw [magnitudeChars, hdigits]; rfl⟩

/-- A number is found by its first character. -/
lemma Numeral.first_append (numeral : Numeral) (stops : Stops rest) :
    ∃ c cs, numeral.chars = c :: cs ∧ isBlank c = false ∧
      first (c :: (cs ++ rest)) = some (numeral.token, rest) := by
  have hmagnitude := numeral.magnitude_append stops
  rw [chars]
  cases hnegative : numeral.negative with
  | true =>
    rw [hnegative] at hmagnitude
    exact ⟨'-', _, rfl, rfl, hmagnitude⟩
  | false =>
    obtain ⟨digit, others, hchars⟩ := numeral.exists_magnitudeChars
    have digit_first : ∀ digit : Fin 10, isBlank (Nat.digitChar digit) = false ∧
        first (Nat.digitChar digit :: (others ++ rest)) =
          magnitude false (Nat.digitChar digit :: (others ++ rest)) := by
      intro digit
      fin_cases digit <;> exact ⟨rfl, rfl⟩
    obtain ⟨hblank, hfirst⟩ := digit_first digit
    rw [hnegative, hchars] at hmagnitude
    exact ⟨Nat.digitChar digit, others, hchars, hblank, hfirst.trans hmagnitude⟩

end Numbers

section Texts

variable {rest : List Char}

/-- A quoted text ends at its own closing quote. -/
lemma pieces_append (quoted : Quoted) (rest : List Char) :
    pieces (quoted.flatMap Written.chars ++ '\x22' :: rest) =
      some (quoted.map Written.piece, rest) := by
  induction quoted with
  | nil => rfl
  | cons written quoted ih =>
    rw [List.flatMap_cons, List.append_assoc]
    cases written with
    | plain c printable unmarked =>
      obtain ⟨hquote, hescape⟩ := unmarked
      have hguard : (guard (32 ≤ c.toNat && c ≠ '\\') : Option Unit) = some () :=
        if_pos (by simp [printable, hescape])
      rw [Written.chars, List.singleton_append, pieces, hguard, ih]
      · rfl
      · exact hquote
      · intro _ _ _ _ _ h
        exact absurd h hescape
      · intro _ _ h
        exact absurd h hescape
    | short escape character short_eq =>
      have hunit : escape ≠ 'u' := by
        rintro rfl
        cases short_eq
      simp [Written.chars, Written.piece, pieces, ih, hunit, short_eq]
    | unit a b c d n unit_eq =>
      simp [Written.chars, Written.piece, pieces, ih, unit_eq]

lemma Quoted.first_append (quoted : Quoted) (rest : List Char) :
    first (quoted.chars ++ rest) = some (.text quoted.content, rest) := by
  have hpieces := pieces_append quoted rest
  rw [chars, List.cons_append, List.append_assoc]
  simp [first, quotedText, hpieces, content]

end Texts

section Spellings

variable {rest : List Char} {tokens : List Token}

lemma Quoted.cuts (quoted : Quoted) (cuts : Cuts rest tokens) :
    Cuts (quoted.chars ++ rest) (.text quoted.content :: tokens) := by
  refine cuts.cons rfl (quoted.first_append rest) ?_
  simp
  omega

lemma Numeral.cuts (numeral : Numeral) (cuts : Cuts rest tokens) (stops : Stops rest) :
    Cuts (numeral.chars ++ rest) (numeral.token :: tokens) := by
  obtain ⟨c, cs, hchars, hblank, hfirst⟩ := numeral.first_append stops
  rw [hchars]
  exact cuts.cons hblank hfirst (by simp)

/-- A mark stands for itself. -/
lemma Cuts.mark {c : Char} {token : Token} (cuts : Cuts rest tokens)
    (hfirst : first (c :: rest) = some (token, rest)) (visible : isBlank c = false) :
    Cuts (c :: rest) (token :: tokens) :=
  cuts.cons visible hfirst le_rfl

lemma stops_closeBracket : Stops (']' :: rest) := by
  rintro _ ⟨⟩
  decide

lemma stops_closeBrace : Stops ('}' :: rest) := by
  rintro _ ⟨⟩
  decide

lemma stops_comma : Stops (',' :: rest) := by
  rintro _ ⟨⟩
  decide

mutual

/-- A spelling is cut into its tokens, whatever comes behind it. -/
theorem Spelling.cuts (spelling : Spelling) {rest : List Char} {tokens : List Token}
    (cuts : Cuts rest tokens) (stops : Stops rest) :
    Cuts (spelling.chars ++ rest) (spelling.tokens ++ tokens) := by
  match spelling with
  | .null => exact cuts.cons rfl rfl (by simp; omega)
  | .bool true => exact cuts.cons rfl rfl (by simp; omega)
  | .bool false => exact cuts.cons rfl rfl (by simp; omega)
  | .numeral numeral => exact numeral.cuts cuts stops
  | .text quoted => exact quoted.cuts cuts
  | .emptyArray blanks =>
    have closed : Cuts (']' :: rest) (.closeBracket :: tokens) := cuts.mark rfl rfl
    have opened := (blanks.cuts closed).mark (c := '[') rfl rfl
    simpa [Spelling.chars, Spelling.tokens] using opened
  | .array items => exact (items.cuts cuts).mark rfl rfl
  | .emptyObject blanks =>
    have closed : Cuts ('}' :: rest) (.closeBrace :: tokens) := cuts.mark rfl rfl
    have opened := (blanks.cuts closed).mark (c := '{') rfl rfl
    simpa [Spelling.chars, Spelling.tokens] using opened
  | .object members => exact (members.cuts cuts).mark rfl rfl

theorem Items.cuts (items : Items) {rest : List Char} {tokens : List Token}
    (cuts : Cuts rest tokens) : Cuts (items.chars ++ rest) (items.tokens ++ tokens) := by
  match items with
  | .last before item after =>
    have closed : Cuts (']' :: rest) (.closeBracket :: tokens) := cuts.mark rfl rfl
    have spelled := item.cuts (after.cuts closed) (after.stops stops_closeBracket)
    have padded := before.cuts spelled
    simpa [Items.chars, Items.tokens] using padded
  | .more before item after others =>
    have listed : Cuts (',' :: (others.chars ++ rest)) (.comma :: (others.tokens ++ tokens)) :=
      (others.cuts cuts).mark rfl rfl
    have spelled := item.cuts (after.cuts listed) (after.stops stops_comma)
    have padded := before.cuts spelled
    simpa [Items.chars, Items.tokens] using padded

theorem Members.cuts (members : Members) {rest : List Char} {tokens : List Token}
    (cuts : Cuts rest tokens) : Cuts (members.chars ++ rest) (members.tokens ++ tokens) := by
  match members with
  | .last key before item after =>
    have closed : Cuts ('}' :: rest) (.closeBrace :: tokens) := cuts.mark rfl rfl
    have spelled := item.cuts (after.cuts closed) (after.stops stops_closeBrace)
    have named := key.after.cuts ((before.cuts spelled).mark (c := ':') rfl rfl)
    have padded := key.before.cuts (key.quoted.cuts named)
    simpa [Members.chars, Members.tokens] using padded
  | .more key before item after others =>
    have listed : Cuts (',' :: (others.chars ++ rest)) (.comma :: (others.tokens ++ tokens)) :=
      (others.cuts cuts).mark rfl rfl
    have spelled := item.cuts (after.cuts listed) (after.stops stops_comma)
    have named := key.after.cuts ((before.cuts spelled).mark (c := ':') rfl rfl)
    have padded := key.before.cuts (key.quoted.cuts named)
    simpa [Members.chars, Members.tokens] using padded

end

end Spellings

end Traversals.Json
