import Mathlib.Data.String.Basic
import Norman.Lib.SortedMap

/-!
# Values of the API

What an `interface{}` of the API code can hold: a JSON document, as the decoders of the source give
it, together with the `[]string` of form data, and the nil slice and nil map that the builder makes
and that are no nil `interface{}`. A map is the list of its entries by key.
-/

namespace Norman

/-- An `interface{}`; a `float64` is its bits. -/
inductive Value where
  | nil
  | bool (b : Bool)
  | int (n : Int)
  | float (bits : UInt64)
  | number (s : String)
  | str (s : String)
  | arr (xs : List Value)
  | nilArr
  | strs (xs : List String)
  | map (m : List (String × Value))
  | nilMap

/-- A `map[string]interface{}`. -/
abbrev Doc := List (String × Value)

/-- A `map[string]string`. -/
abbrev StrMap := List (String × String)

namespace Value

mutual

def beq : Value → Value → Bool
  | .nil, .nil => true
  | .bool a, .bool b => a == b
  | .int a, .int b => a == b
  | .float a, .float b => a == b
  | .number a, .number b => a == b
  | .str a, .str b => a == b
  | .arr xs, .arr ys => beqList xs ys
  | .nilArr, .nilArr => true
  | .strs xs, .strs ys => xs == ys
  | .map m, .map n => beqDoc m n
  | .nilMap, .nilMap => true
  | _, _ => false

def beqList : List Value → List Value → Bool
  | [], [] => true
  | x :: xs, y :: ys => x.beq y && beqList xs ys
  | _, _ => false

def beqDoc : Doc → Doc → Bool
  | [], [] => true
  | (k, x) :: xs, (l, y) :: ys => k == l && x.beq y && beqDoc xs ys
  | _, _ => false

end

mutual

theorem beq_iff : ∀ a b : Value, a.beq b = true ↔ a = b
  | .arr xs, b => by
    cases b <;> simp [beq, beqList_iff xs]
  | .map m, b => by
    cases b <;> simp [beq, beqDoc_iff m]
  | .nil, b => by cases b <;> simp [beq]
  | .bool _, b => by cases b <;> simp [beq]
  | .int _, b => by cases b <;> simp [beq]
  | .float _, b => by cases b <;> simp [beq]
  | .number _, b => by cases b <;> simp [beq]
  | .str _, b => by cases b <;> simp [beq]
  | .nilArr, b => by cases b <;> simp [beq]
  | .strs _, b => by cases b <;> simp [beq]
  | .nilMap, b => by cases b <;> simp [beq]

theorem beqList_iff : ∀ xs ys : List Value, beqList xs ys = true ↔ xs = ys
  | [], ys => by cases ys <;> simp [beqList]
  | x :: xs, [] => by simp [beqList]
  | x :: xs, y :: ys => by simp [beqList, beq_iff x y, beqList_iff xs ys]

theorem beqDoc_iff : ∀ m n : Doc, beqDoc m n = true ↔ m = n
  | [], n => by cases n <;> simp [beqDoc]
  | _ :: _, [] => by simp [beqDoc]
  | (k, x) :: m, (l, y) :: n => by
    simp [beqDoc, beq_iff x y, beqDoc_iff m n]

end

instance : DecidableEq Value := fun a b => decidable_of_iff _ (beq_iff a b)

/-- `convert.ToMapInterface`: anything but a map gives the empty map. -/
def toMapInterface : Value → Doc
  | .map m => m
  | _ => []

end Value

end Norman
