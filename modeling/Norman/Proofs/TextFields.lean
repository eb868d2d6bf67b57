import Mathlib.Data.List.TakeWhile
import Norman.Proofs.Moves

/-!
# Fields that are kept in labels and annotations

`FromInternal` moves the text of a label or an annotation to a field, and `ToInternal` puts the
field back. `AnnotationField` then deletes the field, and `LabelField` does not; and
`AnnotationField` converts the text with `ToString`, which takes off the white space at its ends. So
the object is the same after both only with an annotation that has no white space at its ends
(`textField_restored_iff`).
-/

namespace Norman.FieldMapper

open Norman.Types Norman.Convert Nested

section Trim

/-- There is no white space at the ends of a text. -/
def NoSpaceAtEnds (s : String) : Prop :=
  (∀ c ∈ s.toList.head?, isSpace c = false) ∧ ∀ c ∈ s.toList.getLast?, isSpace c = false

theorem dropWhile_isSpace_iff {l : List Char} :
    l.dropWhile isSpace = l ↔ ∀ c ∈ l.head?, isSpace c = false := by
  cases l with
  | nil => simp
  | cons c l =>
    rw [List.dropWhile_eq_self_iff]
    simp

theorem trimSpace_eq_self_iff {s : String} : trimSpace s = s ↔ NoSpaceAtEnds s := by
  have hlast : ∀ l : List Char, (l.reverse.dropWhile isSpace).reverse = l
      ↔ ∀ c ∈ l.getLast?, isSpace c = false := by
    intro l
    rw [List.reverse_eq_iff, dropWhile_isSpace_iff, List.head?_reverse]
  have hchars : trimSpace s = s
      ↔ ((s.toList.dropWhile isSpace).reverse.dropWhile isSpace).reverse = s.toList := by
    rw [trimSpace, ← String.toList_inj, String.toList_ofList]
  rw [hchars, NoSpaceAtEnds, ← dropWhile_isSpace_iff, ← hlast]
  constructor
  · intro h
    -- what is shortened twice is as long as before, so it was not shortened at all
    have hlen := congrArg List.length h
    rw [List.length_reverse] at hlen
    have hsecond : ((s.toList.dropWhile isSpace).reverse.dropWhile isSpace).length
        ≤ (s.toList.dropWhile isSpace).length := by
      simpa using (List.dropWhile_suffix isSpace
        (l := (s.toList.dropWhile isSpace).reverse)).length_le
    have hfirst : s.toList.dropWhile isSpace = s.toList :=
      (List.dropWhile_suffix isSpace).eq_of_length_le (by omega)
    rw [hfirst] at h
    exact ⟨hfirst, h⟩
  · rintro ⟨hfirst, hback⟩
    rw [hfirst, hback]

end Trim

section Restored

variable {data sub : Doc} {place key field text : String} {v : Value}

theorem sub_of_look (h : look [place, key] (Value.map data) = some v) :
    ∃ sub, Assoc.get place data = some (.map sub) ∧ Assoc.get key sub = some v := by
  rw [← GetValue_eq_look (by simp)] at h
  rcases hp : Assoc.get place data with _ | y
  · simp [GetValue, hp] at h
  · cases y with
    | map sub =>
      refine ⟨sub, rfl, ?_⟩
      simpa [GetValue, hp] using h
    | _ => simp [GetValue, hp] at h

theorem removeValue_pair (h : Assoc.get place data = some (.map sub)) :
    RemoveValue data [place, key]
      = (Assoc.get key sub, Assoc.set place (.map (Assoc.erase key sub)) data) := by
  simp only [RemoveValue, remove, h, Option.map_some]
  rfl

theorem putValue_pair (h : Assoc.get place data = some (.map sub)) :
    PutValue v [place, key] data = some (Assoc.set place (.map (Assoc.set key v sub)) data) := by
  simp only [PutValue, h, Option.map_some]

theorem heldAt_map_cons (k : String) (p : List String) (m : Doc) :
    heldAt (k :: p) (Value.map m) = ((Assoc.get k m).map (heldAt p)).getD .nothing :=
  heldAt_cons_node

/-- The value of a key was taken out and is put in again. -/
theorem heldAt_put_back (h : Assoc.get key sub = some v) :
    ∀ p : List String, heldAt p (Value.map (Assoc.set key v (Assoc.erase key sub)))
      = heldAt p (Value.map sub)
  | [] => rfl
  | k :: p => by
    have hget : Assoc.get k (Assoc.set key v (Assoc.erase key sub)) = Assoc.get k sub := by
      rw [Assoc.get_set, Assoc.get_erase]
      split_ifs with hk
      · rw [hk, h]
      · rfl
    rw [heldAt_map_cons, heldAt_map_cons, hget]

/-- An object that differs from another one only in what it has below one key. -/
theorem heldAt_eq_of_get {data' sub' : Doc} (hplace : Assoc.get place data = some (.map sub))
    (hplace' : Assoc.get place data' = some (.map sub'))
    (hsub : ∀ p, heldAt p (Value.map sub') = heldAt p (Value.map sub))
    (helse : ∀ k, k ≠ place → Assoc.get k data' = Assoc.get k data) :
    ∀ p : List String, heldAt p (Value.map data') = heldAt p (Value.map data)
  | [] => rfl
  | k :: p => by
    rw [heldAt_map_cons, heldAt_map_cons]
    by_cases hk : k = place
    · rw [hk, hplace, hplace', Option.map_some, Option.map_some, hsub]
    · rw [helse k hk]

end Restored

section Kinds

/-- The mappers that keep the text of a field somewhere else. -/
inductive TextField where
  | labelled
  | annotated
  deriving DecidableEq

namespace TextField

/-- Where the text is. -/
def place : TextField → String
  | .labelled => "labels"
  | .annotated => "annotations"

def FromInternal (kind : TextField) (field : String) (env : Convert.Env) (json : Json)
    (data : Doc) : Doc :=
  match kind with
  | .labelled => LabelField.FromInternal ⟨field⟩ data
  | .annotated => AnnotationField.FromInternal { Field := field } env json data

def ToInternal (kind : TextField) (field : String) (env : Convert.Env) (json : Json)
    (data : Doc) : Option Doc :=
  match kind with
  | .labelled => LabelField.ToInternal ⟨field⟩ data
  | .annotated => AnnotationField.ToInternal { Field := field } env json data

variable {data sub : Doc} {field text : String} {env : Convert.Env} {json : Json}

/-- The data with the text in the field. -/
def moved (kind : TextField) (field text : String) (sub data : Doc) : Doc :=
  Assoc.set field (.str text)
    (Assoc.set kind.place (.map (Assoc.erase (fieldKey field) sub)) data)

theorem FromInternal_eq (kind : TextField) (hplace : Assoc.get kind.place data = some (.map sub))
    (htext : Assoc.get (fieldKey field) sub = some (.str text)) :
    kind.FromInternal field env json data = kind.moved field text sub data := by
  cases kind with
  | labelled =>
    have hremove : RemoveValue data ["labels", fieldKey field] = (some (.str text), _) :=
      (removeValue_pair hplace).trans (by rw [htext])
    simp only [FromInternal, LabelField.FromInternal, hremove]
    rfl
  | annotated =>
    have hremove : RemoveValue data ["annotations", fieldKey field] = (some (.str text), _) :=
      (removeValue_pair hplace).trans (by rw [htext])
    simp only [FromInternal, AnnotationField.FromInternal, hremove]
    rfl

variable (env json field text sub data)

theorem get_moved (kind : TextField) (k : String) : Assoc.get k (kind.moved field text sub data)
    = if k = field then some (.str text)
      else if k = kind.place then some (.map (Assoc.erase (fieldKey field) sub))
      else Assoc.get k data := by
  rw [moved, Assoc.get_set, Assoc.get_set]

theorem get_moved_place {kind : TextField} (hne : kind.place ≠ field) :
    Assoc.get kind.place (kind.moved field text sub data)
      = some (.map (Assoc.erase (fieldKey field) sub)) := by
  rw [get_moved, if_neg hne, if_pos rfl]

theorem get_moved_field (kind : TextField) :
    Assoc.get field (kind.moved field text sub data) = some (.str text) := by
  rw [get_moved, if_pos rfl]

/-- The label is there again, and so is the field. -/
theorem label_ToInternal (hne : TextField.labelled.place ≠ field) :
    ∃ data', TextField.labelled.ToInternal field env json
        (TextField.labelled.moved field text sub data) = some data'
      ∧ Assoc.get field data' = some (.str text) := by
  have hput : PutValue (.str text) ["labels", fieldKey field]
      (TextField.labelled.moved field text sub data) = some (Assoc.set "labels" _ _) :=
    putValue_pair (get_moved_place data sub field text hne)
  have hto : TextField.labelled.ToInternal field env json
      (TextField.labelled.moved field text sub data)
      = PutValue (.str text) ["labels", fieldKey field]
        (TextField.labelled.moved field text sub data) := by
    simp only [ToInternal, LabelField.ToInternal, get_moved_field]
  refine ⟨_, hto.trans hput, ?_⟩
  rw [Assoc.get_set, if_neg fun h => hne h.symm, get_moved_field]

/-- The annotation is there again, without white space at its ends, and the field is not. -/
theorem annotation_ToInternal (hne : TextField.annotated.place ≠ field) :
    ∃ data', TextField.annotated.ToInternal field env json
        (TextField.annotated.moved field text sub data) = some data'
      ∧ ∀ k, Assoc.get k data' = if k = field then none
          else if k = TextField.annotated.place then
            some (.map (Assoc.set (fieldKey field) (.str (trimSpace text))
              (Assoc.erase (fieldKey field) sub)))
          else Assoc.get k data := by
  have hput : PutValue (.str (trimSpace text)) ["annotations", fieldKey field]
      (TextField.annotated.moved field text sub data) = some (Assoc.set "annotations" _ _) :=
    putValue_pair (get_moved_place data sub field text hne)
  have hwrite : AnnotationField.write { Field := field } env json (.str text)
      = .str (trimSpace text) := by
    simp [AnnotationField.write, toString_str]
  have hto : TextField.annotated.ToInternal field env json
      (TextField.annotated.moved field text sub data)
      = (PutValue (.str (trimSpace text)) ["annotations", fieldKey field]
        (TextField.annotated.moved field text sub data)).map fun data =>
          Assoc.erase field data := by
    simp only [ToInternal, AnnotationField.ToInternal, get_moved_field, hwrite]
    rfl
  rw [hput, Option.map_some] at hto
  refine ⟨_, hto, fun k => ?_⟩
  have hname : TextField.annotated.place = "annotations" := rfl
  rw [Assoc.get_erase, Assoc.get_set, get_moved, hname]
  by_cases hk : k = field
  · rw [if_pos hk, if_pos hk]
  · rw [if_neg hk, if_neg hk, if_neg hk]
    split_ifs <;> rfl

variable {env json field text sub data}

/-- The object is the same after both directions if and only if its text is in an annotation, and
has no white space at its ends. -/
theorem textField_restored_iff (kind : TextField)
    (htext : look [kind.place, fieldKey field] (Value.map data) = some (.str text))
    (hfield : Assoc.get field data = none) :
    (∃ data', kind.ToInternal field env json (kind.FromInternal field env json data) = some data'
        ∧ ∀ p, heldAt p (Value.map data') = heldAt p (Value.map data))
      ↔ kind = .annotated ∧ NoSpaceAtEnds text := by
  obtain ⟨sub, hplace, hkey⟩ := sub_of_look htext
  have hne : kind.place ≠ field := by
    rintro rfl
    rw [hplace] at hfield
    cases hfield
  rw [FromInternal_eq kind hplace hkey]
  cases kind with
  | labelled =>
    obtain ⟨data', hto, hleft⟩ := label_ToInternal data sub field text env json hne
    refine iff_of_false ?_ fun h => absurd h.1 (by decide)
    rintro ⟨data₁, hto₁, hheld⟩
    obtain rfl : data' = data₁ := Option.some.inj (hto.symm.trans hto₁)
    -- the field is left behind
    have hno := hheld [field]
    rw [heldAt_map_cons, heldAt_map_cons, hleft, hfield] at hno
    cases hno
  | annotated =>
    obtain ⟨data', hto, hget⟩ := annotation_ToInternal data sub field text env json hne
    have hplace' := hget TextField.annotated.place
    rw [if_neg hne, if_pos rfl] at hplace'
    rw [← trimSpace_eq_self_iff]
    constructor
    · rintro ⟨data₁, hto₁, hheld⟩
      obtain rfl : data' = data₁ := Option.some.inj (hto.symm.trans hto₁)
      have hsame := hheld [TextField.annotated.place, fieldKey field]
      simp only [heldAt_map_cons, hplace', hplace, hkey, Option.map_some, Option.getD_some,
        Assoc.get_set, if_true] at hsame
      exact ⟨rfl, Value.str.inj (Held.leaf.inj hsame)⟩
    · rintro ⟨-, htrim⟩
      rw [htrim] at hplace'
      refine ⟨data', hto, heldAt_eq_of_get hplace hplace' (heldAt_put_back hkey) fun k hk => ?_⟩
      rw [hget, if_neg hk]
      split_ifs with hkf
      · rw [hkf, hfield]
      · rfl

section Instances

/-- Go's conversions, of strings only; what is no string is empty. -/
def stringsOnly : Convert.Env where
  sprint
    | .str s => s
    | _ => ""
  sprint_str _ := rfl
  toLower := id
  parseInt _ := .error ""
  parseFloat _ := .error ""
  truncate _ := 0
  ofInt _ := 0
  parseTime _ := .error ""

def noJson : Json := ⟨fun _ => none, fun _ => none, fun _ => none⟩

/-- An object with a description among its labels or annotations. -/
def described (kind : TextField) (text : String) : Doc :=
  [(kind.place, .map [("field.cattle.io/description", .str text)])]

theorem annotation_restored :
    ∃ data', TextField.annotated.ToInternal "description" stringsOnly noJson
        (TextField.annotated.FromInternal "description" stringsOnly noJson
          (described .annotated "a node")) = some data'
      ∧ ∀ p, heldAt p (Value.map data')
        = heldAt p (Value.map (described .annotated "a node")) := by
  have htext : look [TextField.annotated.place, fieldKey "description"]
      (Value.map (described .annotated "a node")) = some (.str "a node") := by decide +kernel
  have hends : NoSpaceAtEnds "a node" := trimSpace_eq_self_iff.1 (by decide +kernel)
  exact (textField_restored_iff .annotated htext (by decide +kernel)).2 ⟨rfl, hends⟩

/-- The field of a label is left behind; an annotation loses the white space at its end. -/
theorem label_left_behind :
    TextField.labelled.ToInternal "description" stringsOnly noJson
        (TextField.labelled.FromInternal "description" stringsOnly noJson
          (described .labelled "a node"))
        = some [("description", .str "a node"),
          ("labels", .map [("field.cattle.io/description", .str "a node")])]
      ∧ TextField.annotated.ToInternal "description" stringsOnly noJson
        (TextField.annotated.FromInternal "description" stringsOnly noJson
          (described .annotated "a node ")) = some (described .annotated "a node") := by
  decide +kernel

end Instances

end TextField

end Kinds

end Norman.FieldMapper
