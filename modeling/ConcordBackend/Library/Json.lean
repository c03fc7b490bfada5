import Mathlib.Data.List.Basic

/-!
# JSON values

Values as a reader of JSON text finds them: the members of an object are in the order of the
text, and a name may occur twice. Whole numbers are integers; any other number is kept as its
text.
-/

/-- JSON values. -/
inductive Json where
  | null
  | bool (b : Bool)
  | num (n : Int)
  | float (text : String)
  | str (s : String)
  | arr (values : List Json)
  | obj (members : List (String × Json))

namespace Json

/-- An optional value, `null` where there is none. -/
def ofOption {α : Type} (f : α → Json) : Option α → Json
  | some a => f a
  | none => .null

end Json
