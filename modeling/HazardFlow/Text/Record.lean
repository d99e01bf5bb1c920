/-!
# Records as text

The values of this library are shown as records: a name, then named fields in braces, or unnamed
ones in parentheses. A record that hides some of its fields ends in two dots.
-/

namespace HazardFlow.Text

/-- The texts between braces, set off by blanks. -/
def inBraces (parts : List String) : String :=
  " \x7b " ++ ", ".intercalate parts ++ " \x7d"

/-- A named field. -/
def namedField (entry : String × String) : String := entry.1 ++ ": " ++ entry.2

/-- A record that shows all of its fields. -/
def record (name : String) (fields : List (String × String)) : String :=
  name ++ inBraces (fields.map namedField)

/-- A record that hides fields besides those shown. -/
def openRecord (name : String) (fields : List (String × String)) : String :=
  name ++ inBraces (fields.map namedField ++ [".."])

/-- A value wrapped in a name. -/
def wrapped (name value : String) : String := name ++ "(" ++ value ++ ")"

/-- A list of values. -/
def list (values : List String) : String := "[" ++ ", ".intercalate values ++ "]"

/-- A value that may be missing. -/
def optional : Option String → String
  | none => "None"
  | some value => wrapped "Some" value

/-- A truth value. -/
def flag (b : Bool) : String := if b then "true" else "false"

end HazardFlow.Text
