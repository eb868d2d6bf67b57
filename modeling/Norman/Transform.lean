import Norman.Value

/-!
# Transforming the values at a path

`types/convert/transform.go`: a path of keys leads to the values that a function is applied to. A
marker behind a key stands for the elements of an array or the entries of an object, but not at the
end of the path.

Objects are changed in place; here the object that is changed is put back where it was.
-/

namespace Norman.Convert

def ArrayKey : String := "\x7bARRAY\x7d"

def MapKey : String := "\x7bMAP\x7d"

/-- The value is a `map[string]interface{}`. -/
def isMap : Value → Bool
  | .map _ => true
  | .nilMap => true
  | _ => false

/-- A change of `ToMapInterface(value)`; there is nothing to change in a nil map. -/
def inMap (change : Doc → Doc) : Value → Value
  | .map m => .map (change m)
  | value => value

/-- A change of each map in `ToMapSlice(value)`, which is nil if one of the elements is no map. -/
def inMapSlice (change : Doc → Doc) : Value → Value
  | .arr items => .arr (if items.all isMap then items.map (inMap change) else items)
  | value => value

/-- A change of each map among the entries of `ToMapInterface(value)`. -/
def inEntries (change : Doc → Doc) : Value → Value
  | .map m => .map (m.map fun e => (e.1, inMap change e.2))
  | value => value

/-- `Transform`; an empty object has no value at the key. -/
def Transform (transformer : Value → Value) : List String → Doc → Doc
  | [], data => data
  | [key], data =>
    match Assoc.get key data with
    | none => data
    | some .nil => data
    | some value => Assoc.set key (transformer value) data
  | key :: next :: path, data =>
    match Assoc.get key data with
    | none => data
    | some .nil => data
    | some value =>
      if path ≠ [] ∧ next = ArrayKey then
        Assoc.set key (inMapSlice (Transform transformer path) value) data
      else if path ≠ [] ∧ next = MapKey then
        Assoc.set key (inEntries (Transform transformer path) value) data
      else Assoc.set key (inMap (Transform transformer (next :: path)) value) data

end Norman.Convert
