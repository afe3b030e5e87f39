/-!
# Data from outside

Configuration files and stored reports arrive as plain data. Nothing is known of its shape until it is
checked (`LoggerLint.Data.Checked`).
-/

namespace LoggerLint

/-- A piece of plain data. -/
inductive Value where
  /-- nothing -/
  | null
  /-- a truth value -/
  | bool (value : Bool)
  /-- an integer of any size -/
  | int (value : Int)
  /-- a floating-point number -/
  | float (value : Float)
  /-- a text -/
  | string (value : String)
  /-- a date, a time, or both -/
  | moment
  /-- a list -/
  | array (items : List Value)
  /-- values under names, in the order in which they were given -/
  | table (entries : List (String × Value))
  deriving Inhabited

end LoggerLint
