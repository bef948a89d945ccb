import Traversals.Json.Basic

/-!
# Records in JSON

A record with named fields is read from an object, in any order and with
unknown members in between, or from an array of exactly its fields in order.
A field given twice is an error. Whether a missing field is one is decided by
the kind of the field: a word that is optional may be missing or null, and all
others have to be there. The rules are granted as they are. `Json.Granted` lists
them, and `Json.granted` shows that they are met here.
-/

namespace Traversals.Json

/-- The members that give the named field. -/
def given (name : String) (members : List (Option String × Json)) : List Json :=
  (members.filter fun member => member.1 == some name).map (·.2)

/-- A field is given once or is missing. -/
def single : List Json → Option (Option Json)
  | [] => some none
  | [item] => some (some item)
  | _ => none

/-- What a value gives for each of the named fields. -/
def fields (names : List String) : Json → Option (List (Option Json))
  | array items =>
      if items.length = names.length then some (items.map some) else none
  | object members =>
      if members.all (fun member => member.1.isSome) then
        names.mapM fun name => single (given name members)
      else none
  | _ => none

/-- A word has to lie in its range. -/
def word : Json → Option Int64
  | integer n =>
      if Int64.minValue.toInt ≤ n ∧ n ≤ Int64.maxValue.toInt then some (Int64.ofInt n) else none
  | _ => none

/-- An optional word may be missing or null. -/
def optionalWord : Option Json → Option (Option Int64)
  | none => some none
  | some null => some none
  | some json => (word json).map some

def requiredWord (field : Option Json) : Option Int64 :=
  field.bind word

/-- A count is not negative and fits 64 bits. -/
def requiredCount : Option Json → Option Nat
  | some (integer n) => if 0 ≤ n ∧ n ≤ 0xFFFFFFFFFFFFFFFF then some n.toNat else none
  | _ => none

/-- A record is written as an object with its fields in order and no blanks. -/
def record (fields : List (String × String)) : String :=
  "\x7b" ++ String.intercalate "," (fields.map fun entry =>
    "\x22" ++ entry.1 ++ "\x22:" ++ entry.2) ++ "\x7d"

def writeWord (word : Int64) : String := toString word.toInt

def writeOptionalWord : Option Int64 → String
  | none => "null"
  | some word => writeWord word

end Traversals.Json
