/-!
JSON values. An object keeps its fields in the order in which their names first appeared. Whole numbers are exact; a number
that was written with a point or an exponent is a double.
-/

namespace FileCensus.Json

inductive Value where
  | null
  | bool (b : Bool)
  | int (n : Int)
  | float (x : Float)
  | str (s : String)
  | arr (items : List Value)
  | obj (fields : List (String × Value))
  deriving Inhabited

abbrev Fields := List (String × Value)

/-- A repeated name keeps its place and takes the later value. -/
def Fields.put (name : String) (v : Value) : Fields → Fields
  | [] => [(name, v)]
  | (n, w) :: rest => if n == name then (n, v) :: rest else (n, w) :: Fields.put name v rest

def Fields.ofPairs (pairs : List (String × Value)) : Fields :=
    pairs.foldl (fun fs p => Fields.put p.1 p.2 fs) []

def Fields.get? (fields : Fields) (name : String) : Option Value :=
    (fields.find? (·.1 == name)).map (·.2)

theorem Fields.get?_put_self (fs : Fields) (name : String) (v : Value) :
    Fields.get? (Fields.put name v fs) name = some v := by
  induction fs with
  | nil => simp [put, get?]
  | cons p rest ih =>
      by_cases h : p.1 = name
      · simp [put, get?, h]
      · simpa [put, get?, h] using ih

end FileCensus.Json
