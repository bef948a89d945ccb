import Mathlib.Data.List.Forall2
import Mathlib.Data.List.Nodup
import Traversals.Json.Exchange
import Traversals.Proofs.Json.Parsing
import Traversals.Proofs.Json.Writing

/-!
# Records read back

A record that is written is read back as it was. Its reader takes more than
what is written: any text of an object with the fields in any order and other
members in between, and any text of an array of the fields in order. Of the readers
of texts and of fields only the rules that are granted of them are used.
-/

namespace Traversals

namespace Json

section Given

variable {fields : List (String × Json)} {names : List String} {name : String}
  {members : List (Option String × Json)}

/-- Among the members with known names there are just these fields, in any
order. The others are any members that have a name. -/
structure Holds (names : List String) (fields : List (String × Json))
    (members : List (Option String × Json)) : Prop where
  readable : ∀ member ∈ members, member.1.isSome
  known : (members.filter fun member => member.1 ∈ names.map some).Perm
    (fields.map fun field => (some field.1, field.2))

/-- A name that is there once is what it is looked up as. -/
lemma filter_eq_lookup (nodup : (fields.map Prod.fst).Nodup) :
    (fields.filter (·.1 == name)).map Prod.snd = (List.lookup name fields).toList := by
  induction fields with
  | nil => rfl
  | cons field fields ih =>
    obtain ⟨key, json⟩ := field
    obtain ⟨hkey, nodup⟩ := List.nodup_cons.mp nodup
    by_cases hname : name = key
    · subst hname
      have none_left : fields.filter (·.1 == name) = [] := by
        refine List.filter_eq_nil_iff.mpr fun field hfield hsame => hkey ?_
        obtain rfl := beq_iff_eq.mp hsame
        exact List.mem_map.mpr ⟨field, hfield, rfl⟩
      simp [none_left]
    · have hother : ¬ key = name := fun h => hname h.symm
      rw [List.lookup_cons, beq_false_of_ne hname, ← ih nodup]
      simp [hother]

/-- A name is given as it stands among the fields. -/
lemma Holds.given_eq (holds : Holds names fields members) (nodup : (fields.map Prod.fst).Nodup)
    (hname : name ∈ names) : given name members = (List.lookup name fields).toList := by
  have named : members.filter (fun member => member.1 == some name) =
      (members.filter fun member => member.1 ∈ names.map some).filter
        fun member => member.1 == some name := by
    rw [List.filter_filter]
    refine List.filter_congr fun member _ => ?_
    by_cases h : member.1 = some name <;> simp [h, hname]
  have same : (given name members).Perm (List.lookup name fields).toList := by
    rw [given, named, ← filter_eq_lookup nodup]
    have perm := (holds.known.filter fun member => member.1 == some name).map (·.2)
    refine perm.trans (List.Perm.of_eq ?_)
    rw [List.filter_map, List.map_map]
    rfl
  generalize List.lookup name fields = entry at same ⊢
  cases entry with
  | none => exact List.perm_nil.mp same
  | some json => exact List.perm_singleton.mp same

lemma single_toList (json : Option Json) : single json.toList = some json := by
  cases json <;> rfl

lemma mapM_eq_some_iff {β γ : Type} {f : β → Option γ} {xs : List β} {ys : List γ} :
    xs.mapM f = some ys ↔ List.Forall₂ (fun x y => f x = some y) xs ys := by
  induction xs generalizing ys with
  | nil => cases ys <;> simp
  | cons x xs ih =>
    cases ys with
    | nil => simp [Option.bind_eq_some_iff]
    | cons y ys => simp [Option.bind_eq_some_iff, ih]

/-- The fields of an object are read name by name. -/
lemma fields_object_iff {entries : List (Option Json)}
    (readable : ∀ member ∈ members, member.1.isSome) :
    Json.fields names (.object members) = some entries ↔
      List.Forall₂ (fun name entry => single (given name members) = some entry) names entries := by
  rw [← mapM_eq_some_iff, Json.fields, if_pos (List.all_eq_true.mpr readable)]

lemma readable_of_fields {entries : List (Option Json)}
    (h : Json.fields names (.object members) = some entries) :
    ∀ member ∈ members, member.1.isSome := by
  rw [Json.fields] at h
  split at h
  · next readable => exact List.all_eq_true.mp readable
  · cases h

/-- Where the fields of an object can be read, each of them is there at most once. -/
lemma exists_entry {entries : List (Option Json)}
    (h : Json.fields names (.object members) = some entries) (hname : name ∈ names) :
    ∃ entry ∈ entries, single (given name members) = some entry := by
  have all := (fields_object_iff (readable_of_fields h)).mp h
  clear h
  induction all with
  | nil => cases hname
  | @cons first entry names entries hfirst _ ih =>
    rcases List.mem_cons.mp hname with rfl | hname
    · exact ⟨entry, List.mem_cons_self, hfirst⟩
    · obtain ⟨later, hmem, hlater⟩ := ih hname
      exact ⟨later, List.mem_cons_of_mem _ hmem, hlater⟩

lemma none_mem_of_missing (hname : name ∈ names)
    (absent : ∀ member ∈ members, member.1 ≠ some name) {entries : List (Option Json)}
    (h : Json.fields names (.object members) = some entries) : none ∈ entries := by
  obtain ⟨entry, hentry, hsingle⟩ := exists_entry h hname
  have hgiven : given name members = [] := by
    rw [given, List.map_eq_nil_iff, List.filter_eq_nil_iff]
    intro member hmember hsame
    exact absent member hmember (beq_iff_eq.mp hsame)
  rw [hgiven] at hsingle
  cases hsingle
  exact hentry

lemma fields_repeated (hname : name ∈ names)
    (twice : 2 ≤ members.countP fun member => member.1 == some name) :
    Json.fields names (.object members) = none := by
  cases hentries : Json.fields names (.object members) with
  | none => rfl
  | some entries =>
    obtain ⟨entry, hentry, hsingle⟩ := exists_entry hentries hname
    have hlength : 2 ≤ (given name members).length := by
      rwa [given, List.length_map, ← List.countP_eq_length_filter]
    match hgiven : given name members with
    | [] => simp [hgiven] at hlength
    | [_] => simp [hgiven] at hlength
    | _ :: _ :: _ =>
      rw [hgiven] at hsingle
      cases hsingle

lemma Holds.fields_eq (holds : Holds names fields members)
    (nodup : (fields.map Prod.fst).Nodup) :
    Json.fields names (.object members) =
      some (names.map fun name => List.lookup name fields) := by
  rw [fields_object_iff holds.readable, List.forall₂_map_right_iff, List.forall₂_same]
  intro name hname
  rw [holds.given_eq nodup hname, single_toList]

/-- What is looked up in a part of some fields is as it was there. -/
lemma lookup_sublist {all : List (String × Json)} (nodup : (all.map Prod.fst).Nodup)
    (sublist : fields.Sublist all) {field : String × Json} (hfield : field ∈ all) :
    List.lookup field.1 fields = some field.2 ∨
      List.lookup field.1 fields = none ∧ field ∉ fields := by
  cases hlookup : List.lookup field.1 fields with
  | none =>
    refine .inr ⟨rfl, fun hmem => ?_⟩
    simpa using List.lookup_eq_none_iff.mp hlookup field hmem
  | some json =>
    obtain ⟨before, after, hfields, -⟩ := List.lookup_eq_some_iff.mp hlookup
    have hmem : (field.1, json) ∈ all := sublist.subset (by simp [hfields])
    have same : field = (field.1, json) := List.inj_on_of_nodup_map nodup hfield hmem rfl
    exact .inl (congrArg some (congrArg Prod.snd same).symm)

end Given

/-- What is granted of a reader of texts and of a reader of fields: the grammar of
texts, and how the fields of a record are found in a value. -/
structure Granted (read : String → Option Json)
    (lookUp : List String → Json → Option (List (Option Json))) : Prop where
  /-- Any text of a value is read as that value. -/
  spelled : ∀ {text json}, Spells text json → read text = some json
  /-- Fields are found by name, in any order and among other members. -/
  object : ∀ {names fields members}, (fields.map Prod.fst).Nodup → Holds names fields members →
    lookUp names (.object members) = some (names.map fun name => List.lookup name fields)
  /-- The items of an array are the fields in order. -/
  array : ∀ {names items}, items.length = names.length →
    lookUp names (.array items) = some (items.map some)
  other_length : ∀ {names items}, items.length ≠ names.length →
    lookUp names (.array items) = none
  /-- A field that is missing has no entry. -/
  missing : ∀ {names members entries}, ∀ name ∈ names,
    (∀ member ∈ members, member.1 ≠ some name) →
    lookUp names (.object members) = some entries → none ∈ entries
  repeated : ∀ {names members}, ∀ name ∈ names,
    2 ≤ members.countP (fun member => member.1 == some name) →
    lookUp names (.object members) = none

/-- The rules are met. -/
lemma granted : Granted ofString fields where
  spelled := Spells.ofString_eq
  object nodup holds := holds.fields_eq nodup
  array {names items} hlength := by rw [fields, if_pos hlength]
  other_length {names items} hlength := by rw [fields, if_neg hlength]
  missing _ hname absent hfields := none_mem_of_missing hname absent hfields
  repeated _ hname twice := fields_repeated hname twice

/-- Fields as members of an object. -/
def named (fields : List (String × Json)) : List (Option String × Json) :=
  fields.map fun field => (some field.1, field.2)

/-- A record may be all there is in an object. -/
lemma holds_named {names : List String} {fields : List (String × Json)}
    (names_eq : fields.map Prod.fst = names) : Holds names fields (named fields) := by
  constructor
  · intro member hmember
    obtain ⟨field, -, rfl⟩ := List.mem_map.mp hmember
    rfl
  · refine List.Perm.of_eq (List.filter_eq_self.mpr fun member hmember => ?_)
    obtain ⟨field, hfield, rfl⟩ := List.mem_map.mp hmember
    rw [← names_eq]
    simpa using ⟨field.2, hfield⟩

/-- A record is read back from what is written for it, from any text of an
object that holds its fields, and from any text of an array of them in order. A
missing field stands for a null, or it is refused. A repeated field is refused,
and so is an array with an item too few or too many. -/
structure ReadsBack {ρ : Type} (names : List String) (lenient : Bool) (Valid : ρ → Prop)
    (fields : ρ → List (String × Json)) (read : String → Option ρ) (write : ρ → String) :
    Prop where
  read_write : ∀ value, Valid value → read (write value) = some value
  spells_write : ∀ value, Spells (write value) (.object (named (fields value)))
  read_object : ∀ value given members text, Valid value → given.Sublist (fields value) →
    (∀ field ∈ fields value, field ∉ given → lenient = true ∧ field.2 = .null) →
    Holds names given members → Spells text (.object members) → read text = some value
  read_array : ∀ value text, Valid value →
    Spells text (.array ((fields value).map Prod.snd)) → read text = some value
  other_length : ∀ items text, items.length ≠ names.length → Spells text (.array items) →
    read text = none
  missing : ∀ members text, ∀ name ∈ names, lenient = false →
    (∀ member ∈ members, member.1 ≠ some name) → Spells text (.object members) →
    read text = none
  repeated : ∀ members text, ∀ name ∈ names,
    2 ≤ members.countP (fun member => member.1 == some name) → Spells text (.object members) →
    read text = none

/-- A field is there, or it is a null that may be missing. -/
def Present (lenient : Bool) (json : Json) (entry : Option Json) : Prop :=
  entry = some json ∨ lenient = true ∧ json = .null ∧ entry = none

/-- A reader of the entries that are given for the names. -/
structure Decodes {ρ : Type} (names : List String) (lenient : Bool) (Valid : ρ → Prop)
    (fields : ρ → List (String × Json)) (decode : List (Option Json) → Option ρ) : Prop where
  nodup : names.Nodup
  names_eq : ∀ value, (fields value).map Prod.fst = names
  present : ∀ value entries, Valid value →
    List.Forall₂ (fun field => Present lenient field.2) (fields value) entries →
    decode entries = some value
  missing : lenient = false → ∀ entries, none ∈ entries → decode entries = none

namespace Decodes

variable {ρ : Type} {names : List String} {lenient : Bool} {Valid : ρ → Prop}
  {fields : ρ → List (String × Json)} {decode : List (Option Json) → Option ρ}
  (decodes : Decodes names lenient Valid fields decode) {value : ρ}

include decodes

lemma nodup_fields : ((fields value).map Prod.fst).Nodup := by
  rw [decodes.names_eq]
  exact decodes.nodup

lemma decode_object {given : List (String × Json)} {members : List (Option String × Json)}
    (valid : Valid value) (sublist : given.Sublist (fields value))
    (absent : ∀ field ∈ fields value, field ∉ given → lenient = true ∧ field.2 = .null)
    (holds : Holds names given members) :
    (Json.fields names (.object members)).bind decode = some value := by
  have nodup : (given.map Prod.fst).Nodup :=
    decodes.nodup_fields.sublist (sublist.map Prod.fst)
  rw [granted.object nodup holds, Option.bind_some]
  refine decodes.present value _ valid ?_
  rw [← decodes.names_eq value, List.map_map, List.forall₂_map_right_iff, List.forall₂_same]
  intro field hfield
  rcases lookup_sublist decodes.nodup_fields sublist hfield with hlookup | ⟨hlookup, hmem⟩
  · exact .inl hlookup
  · obtain ⟨hlenient, hnull⟩ := absent field hfield hmem
    exact .inr ⟨hlenient, hnull, hlookup⟩

lemma decode_array (valid : Valid value) :
    (Json.fields names (.array ((fields value).map Prod.snd))).bind decode = some value := by
  have hlength : ((fields value).map Prod.snd).length = names.length := by
    rw [← decodes.names_eq value, List.length_map, List.length_map]
  rw [granted.array hlength, Option.bind_some]
  refine decodes.present value _ valid ?_
  rw [List.map_map, List.forall₂_map_right_iff, List.forall₂_same]
  exact fun field _ => .inl rfl

lemma decode_missing {members : List (Option String × Json)} {name : String}
    (strict : lenient = false) (hname : name ∈ names)
    (absent : ∀ member ∈ members, member.1 ≠ some name) :
    (Json.fields names (.object members)).bind decode = none := by
  cases hentries : Json.fields names (.object members) with
  | none => rfl
  | some entries =>
    exact decodes.missing strict entries (granted.missing name hname absent hentries)

/-- So a reader by such entries reads its records back. -/
lemma readsBack {read : String → Option ρ} {write : ρ → String}
    (read_eq : ∀ text, read text =
      (ofString text).bind fun json => (json.fields names).bind decode)
    (written : ∀ value, Spells (write value) (.object (named (fields value)))) :
    ReadsBack names lenient Valid fields read write := by
  have read_spelled : ∀ {text json}, Spells text json →
      read text = (json.fields names).bind decode := by
    intro text json spells
    rw [read_eq, granted.spelled spells, Option.bind_some]
  have read_object : ∀ value given members text, Valid value → given.Sublist (fields value) →
      (∀ field ∈ fields value, field ∉ given → lenient = true ∧ field.2 = .null) →
      Holds names given members → Spells text (.object members) → read text = some value := by
    intro value given members text valid sublist absent holds spells
    rw [read_spelled spells]
    exact decodes.decode_object valid sublist absent holds
  constructor
  · intro value valid
    exact read_object value (fields value) _ _ valid (List.Sublist.refl _)
      (fun field hfield habsent => absurd hfield habsent)
      (holds_named (decodes.names_eq value)) (written value)
  · exact written
  · exact read_object
  · intro value text valid spells
    rw [read_spelled spells]
    exact decodes.decode_array valid
  · intro items text hlength spells
    rw [read_spelled spells, granted.other_length hlength, Option.bind_none]
  · intro members text name hname strict absent spells
    rw [read_spelled spells]
    exact decodes.decode_missing strict hname absent
  · intro members text name hname twice spells
    rw [read_spelled spells, granted.repeated name hname twice, Option.bind_none]

end Decodes

/-- A word as it is written in a record. -/
def ofWord (word : Int64) : Json := .integer word.toInt

def ofOptionalWord : Option Int64 → Json
  | none => .null
  | some word => ofWord word

section Words

variable (w : Int64) (field : Option Int64) {entry : Option Json}

lemma word_ofWord : word (ofWord w) = some w := by
  have range := And.intro w.minValue_le_toInt w.toInt_le
  rw [ofWord, word, if_pos range, Int64.ofInt_toInt]

lemma requiredWord_eq (present : Present false (ofWord w) entry) :
    requiredWord entry = some w := by
  rcases present with rfl | ⟨hlenient, -, -⟩
  · exact word_ofWord w
  · cases hlenient

lemma requiredCount_eq {n : ℕ} (hn : n ≤ 0xFFFFFFFFFFFFFFFF)
    (present : Present false (.integer n) entry) : requiredCount entry = some n := by
  rcases present with rfl | ⟨hlenient, -, -⟩
  · have range : (0 : ℤ) ≤ n ∧ (n : ℤ) ≤ 0xFFFFFFFFFFFFFFFF := by omega
    rw [requiredCount, if_pos range, Int.toNat_natCast]
  · cases hlenient

/-- A null may be left out. -/
lemma optionalWord_eq (present : Present true (ofOptionalWord field) entry) :
    optionalWord entry = some field := by
  rcases present with rfl | ⟨-, hnull, rfl⟩
  · cases field with
    | none => rfl
    | some w => exact congrArg (Option.map some) (word_ofWord w)
  · cases field with
    | none => rfl
    | some w => cases hnull

lemma spelled_word : Spelled (writeWord w) (ofWord w) := spelled_int w.toInt

lemma spelled_optionalWord : Spelled (writeOptionalWord field) (ofOptionalWord field) := by
  cases field with
  | none => exact spelled_null
  | some w => exact spelled_word w

end Words

end Json

open Json (ofWord ofOptionalWord Decodes Entry Plain ReadsBack)

namespace SliceBounds

def fields (bounds : SliceBounds) : List (String × Json) :=
  [("start", ofOptionalWord bounds.start), ("stop", ofOptionalWord bounds.stop),
    ("step", ofOptionalWord bounds.step)]

lemma decodes : Decodes ["start", "stop", "step"] true (fun _ => True) fields decode := by
  constructor
  · decide
  · intro value
    rfl
  · intro bounds entries _ present
    rcases present with _ | ⟨hstart, _ | ⟨hstop, _ | ⟨hstep, _ | _⟩⟩⟩
    simp [decode, Json.optionalWord_eq _ hstart, Json.optionalWord_eq _ hstop,
      Json.optionalWord_eq _ hstep]
  · intro strict
    cases strict

lemma spells_write (bounds : SliceBounds) :
    Json.Spells bounds.write (.object (Json.named bounds.fields)) := by
  refine (Json.spelled_record (.cons ?_ (.cons ?_ (.cons ?_ .nil))) (List.cons_ne_nil _ _)).spells
  · exact ⟨rfl, by simp [Plain], Json.spelled_optionalWord bounds.start⟩
  · exact ⟨rfl, by simp [Plain], Json.spelled_optionalWord bounds.stop⟩
  · exact ⟨rfl, by simp [Plain], Json.spelled_optionalWord bounds.step⟩

lemma readsBack : ReadsBack ["start", "stop", "step"] true (fun _ => True) fields read write :=
  decodes.readsBack (fun _ => rfl) spells_write

end SliceBounds

namespace ResolvedSlice

def fields (slice : ResolvedSlice) : List (String × Json) :=
  [("start", ofWord slice.start), ("stop", ofWord slice.stop), ("step", ofWord slice.step),
    ("length", ofWord slice.length)]

lemma decodes : Decodes ["start", "stop", "step", "length"] false (fun _ => True) fields
    decode := by
  constructor
  · decide
  · intro value
    rfl
  · intro slice entries _ present
    rcases present with _ | ⟨hstart, _ | ⟨hstop, _ | ⟨hstep, _ | ⟨hlength, _ | _⟩⟩⟩⟩
    simp [decode, Json.requiredWord_eq _ hstart, Json.requiredWord_eq _ hstop,
      Json.requiredWord_eq _ hstep, Json.requiredWord_eq _ hlength]
  · intro _ entries hmem
    match entries with
    | [start, stop, step, length] =>
      have refused : Json.requiredWord none = none := rfl
      simp only [List.mem_cons, List.not_mem_nil, or_false] at hmem
      rcases hmem with rfl | rfl | rfl | rfl <;> simp [decode, refused]
    | [] | [_] | [_, _] | [_, _, _] | _ :: _ :: _ :: _ :: _ :: _ => rfl

lemma spells_write (slice : ResolvedSlice) :
    Json.Spells slice.write (.object (Json.named slice.fields)) := by
  refine (Json.spelled_record (.cons ?_ (.cons ?_ (.cons ?_ (.cons ?_ .nil))))
    (List.cons_ne_nil _ _)).spells
  · exact ⟨rfl, by simp [Plain], Json.spelled_word slice.start⟩
  · exact ⟨rfl, by simp [Plain], Json.spelled_word slice.stop⟩
  · exact ⟨rfl, by simp [Plain], Json.spelled_word slice.step⟩
  · exact ⟨rfl, by simp [Plain], Json.spelled_word slice.length⟩

lemma readsBack : ReadsBack ["start", "stop", "step", "length"] false (fun _ => True) fields
    read write :=
  decodes.readsBack (fun _ => rfl) spells_write

end ResolvedSlice

namespace Indexed

def fields (element : Indexed Int64) : List (String × Json) :=
  [("index", .integer element.index), ("value", ofWord element.value)]

lemma decodes : Decodes ["index", "value"] false (fun element => element.index ≤ 0xFFFFFFFFFFFFFFFF)
    fields decode := by
  constructor
  · decide
  · intro value
    rfl
  · intro element entries counted present
    rcases present with _ | ⟨hindex, _ | ⟨hvalue, _ | _⟩⟩
    simp [decode, Json.requiredCount_eq counted hindex, Json.requiredWord_eq _ hvalue]
  · intro _ entries hmem
    match entries with
    | [index, value] =>
      have no_count : Json.requiredCount none = none := rfl
      have no_word : Json.requiredWord none = none := rfl
      simp only [List.mem_cons, List.not_mem_nil, or_false] at hmem
      rcases hmem with rfl | rfl <;> simp [decode, no_count, no_word]
    | [] | [_] | _ :: _ :: _ :: _ => rfl

lemma spells_write (element : Indexed Int64) :
    Json.Spells element.write (.object (Json.named element.fields)) := by
  refine (Json.spelled_record (.cons ?_ (.cons ?_ .nil)) (List.cons_ne_nil _ _)).spells
  · exact ⟨rfl, by simp [Plain], Json.spelled_nat element.index⟩
  · exact ⟨rfl, by simp [Plain], Json.spelled_word element.value⟩

lemma readsBack : ReadsBack ["index", "value"] false
    (fun element => element.index ≤ 0xFFFFFFFFFFFFFFFF) fields read write :=
  decodes.readsBack (fun _ => rfl) spells_write

end Indexed

/-- Slice bounds, resolved slices and numbered words are read back from what is
written for them, from objects that hold their fields in any order, with others
in between, and from arrays. Of these only the bounds of an unresolved slice may
be missing. A count is one that fits 64 bits. -/
theorem records_read_back :
    ReadsBack ["start", "stop", "step"] true (fun _ => True)
      SliceBounds.fields SliceBounds.read SliceBounds.write ∧
    ReadsBack ["start", "stop", "step", "length"] false (fun _ => True)
      ResolvedSlice.fields ResolvedSlice.read ResolvedSlice.write ∧
    ReadsBack ["index", "value"] false (fun element => element.index ≤ 0xFFFFFFFFFFFFFFFF)
      Indexed.fields Indexed.read Indexed.write :=
  ⟨SliceBounds.readsBack, ResolvedSlice.readsBack, Indexed.readsBack⟩

end Traversals
