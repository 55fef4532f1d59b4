import ShellLisp.Number

/-!
# JSON data

Trees of plain data. The entries of an object are in the order in which their keys were first
written, and a key written again takes the later value.
-/

namespace ShellLisp

inductive Json
  | null
  | bool (value : Bool)
  | number (value : Number)
  | string (text : String)
  | array (items : List Json)
  | object (entries : List (String × Json))
  deriving Inhabited

namespace Json

/-- The entries with a key bound to a value: in its place if it is there, else at the end. -/
def put (key : String) (value : Json) : List (String × Json) → List (String × Json)
  | [] => [(key, value)]
  | (k, v) :: rest => if k = key then (k, value) :: rest else (k, v) :: put key value rest

/-- The object with the given entries, of which a later one with the same key counts. -/
def ofEntries (entries : List (String × Json)) : Json :=
  .object (entries.foldl (fun found entry => put entry.1 entry.2 found) [])

/-- Whether data counts as true: all but null, false, zero and what is empty. -/
def truthy : Json → Bool
  | .null => false
  | .bool value => value
  | .number value => !value.isZero
  | .string text => !text.isEmpty
  | .array items => !items.isEmpty
  | .object entries => !entries.isEmpty

def typeName : Json → String
  | .null => "NoneType"
  | .bool _ => "bool"
  | .number (.int _) => "int"
  | .number (.float _) => "float"
  | .string _ => "str"
  | .array _ => "list"
  | .object _ => "dict"

theorem lookup_put_self (key : String) (value : Json) (entries : List (String × Json)) :
    (put key value entries).lookup key = some value := by
  induction entries with
  | nil => simp [put]
  | cons entry rest ih =>
      obtain ⟨k, v⟩ := entry
      unfold put
      split
      · rename_i same
        simp [same]
      · rename_i different
        have unequal : (key == k) = false := by simpa using Ne.symm different
        simp [List.lookup_cons, unequal, ih]

end Json

end ShellLisp
