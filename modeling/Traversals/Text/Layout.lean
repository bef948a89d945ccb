/-!
# Textual layout of states

States and values are shown as records with named fields, as optional values,
as tuples and as bracketed lists. Each layout is one function on texts that
are already laid out, so a nested state is shown from the inside out.
-/

namespace Traversals.Text

/-- The parts of a layout, set apart by a comma and a blank. -/
def commaSeparated (parts : List String) : String :=
  String.intercalate ", " parts

/-- A list stands in square brackets. -/
def list (parts : List String) : String :=
  "[" ++ commaSeparated parts ++ "]"

/-- A tuple stands in round brackets. -/
def tuple (parts : List String) : String :=
  "(" ++ commaSeparated parts ++ ")"

def option : Option String → String
  | none => "None"
  | some text => "Some(" ++ text ++ ")"

def bool (b : Bool) : String :=
  if b then "true" else "false"

def field (entry : String × String) : String :=
  entry.1 ++ ": " ++ entry.2

/-- A record all of whose fields are shown. -/
def record (name : String) (fields : List (String × String)) : String :=
  name ++ " \x7b " ++ commaSeparated (fields.map field) ++ " \x7d"

/-- A record that keeps some of its fields to itself ends in two dots. -/
def openRecord (name : String) (fields : List (String × String)) : String :=
  name ++ " \x7b " ++ commaSeparated (fields.map field ++ [".."]) ++ " \x7d"

end Traversals.Text
