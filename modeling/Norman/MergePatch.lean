import Norman.Mappers
import Norman.Objectset

/-!
# Merge patches

A JSON merge patch is an object that is put over another one: null deletes a key, an object is put
over what is there (over nothing, if that is no object), and any other value is put in.

`sanitizePatch` is to leave out of a patch what does not count: the kind and the version, which are
those of the object anyway, the time of creation, and the annotation with the id of the input. Two
objects are alike if they are the same but for these fields. An object on the way to such a field
may be there in one of them and not in the other.
-/

namespace Norman.Objectset

open Nested

section Merge

mutual

/-- A value of a patch is put over what is there. -/
def mergeValue : Value → Option Value → Value
  | .map patch, some (.map m) => .map (mergeDoc patch m)
  | .map patch, _ => .map (mergeDoc patch [])
  | v, _ => v

/-- A patch is put over an object. -/
def mergeDoc : Doc → Doc → Doc
  | [], m => m
  | (key, .nil) :: patch, m => Assoc.erase key (mergeDoc patch m)
  | (key, v) :: patch, m => Assoc.set key (mergeValue v (Assoc.get key m)) (mergeDoc patch m)

end

end Merge

section Alike

/-- The fields that do not count. -/
def exempt : List (List String) :=
  [["kind"], ["apiVersion"], ["metadata", "creationTimestamp"],
    ["metadata", "annotations", LabelInputID]]

/-- A path that leads to one of the fields, or into it. -/
def Exempt (p : List String) : Prop := ∃ f ∈ exempt, f <+: p

/-- A path on which one of the fields is, further on. -/
def OnTheWay (p : List String) : Prop := ∃ f ∈ exempt, p <+: f ∧ p ≠ f

/-- There is no value at the path, but nothing or an object. -/
def NoLeaf (p : List String) (x : Doc) : Prop := ∀ v, heldAt p (Value.map x) ≠ .leaf v

/-- The objects are the same but for the fields that do not count, and for objects on the way to
them. -/
def Alike (x y : Doc) : Prop :=
  ∀ p, ¬ Exempt p → heldAt p (Value.map x) = heldAt p (Value.map y)
    ∨ (OnTheWay p ∧ NoLeaf p x ∧ NoLeaf p y)

end Alike

end Norman.Objectset
