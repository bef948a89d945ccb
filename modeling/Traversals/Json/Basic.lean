/-!
# JSON values

The tree a JSON text stands for. Only what the readers ask about is kept:
integers keep their value, other numbers only that they were there, and a text
whose escapes pair up to no characters has no content.
-/

namespace Traversals

inductive Json where
  | null
  | bool (b : Bool)
  | integer (n : Int)
  | real
  | text (content : Option String)
  | array (items : List Json)
  | object (members : List (Option String × Json))

end Traversals
