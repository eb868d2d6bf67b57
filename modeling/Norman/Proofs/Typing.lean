import Norman.Proofs.WriteProtect

/-!
# The types of a written object

When an object is created or updated, every value that is converted is well typed, with two
exceptions: a list of strings, which form data give, is taken for an array as it is, whatever the
type of the elements; and a null is kept where it is the value of a map or an element of an inner
array. So the object is well typed if and only if the input has neither.
-/

namespace Norman.Parse

open Norman.Types Gather

section Typing

variable (b : Builder)

/-- The simple types whose values are strings. -/
def textTypes : List String :=
  ["date", "enum", "password", "string", "dnsLabel", "dnsLabelRestricted", "hostname", "intOrString",
    "base64", "reference"]

/-- A value of the place, at every level. The nil slice is an empty list, the nil map an empty
object. A field may be null if it is nullable. -/
inductive WellTyped : Place → Value → Prop where
  | json {v : Value} : WellTyped (.type "json") v
  | boolean {x : Bool} : WellTyped (.type "boolean") (.bool x)
  | int {n : Int} : WellTyped (.type "int") (.int n)
  | float {x : UInt64} : WellTyped (.type "float") (.float x)
  | text {t s : String} : t ∈ textTypes → WellTyped (.type t) (.str s)
  | intOrString {n : Int} : WellTyped (.type "intOrString") (.int n)
  | reference {t s : String} : IsReferenceType t = true →
    (∀ validate ∈ b.RefValidator, validate (SubType t) s = true) → WellTyped (.type t) (.str s)
  | array {t : String} {xs : List Value} : IsArrayType t = true → (∀ x ∈ xs, x ≠ .nil) →
    (∀ x ∈ xs, WellTyped (.type (SubType t)) x) → WellTyped (.type t) (.arr xs)
  | nilArr {t : String} : IsArrayType t = true → WellTyped (.type t) .nilArr
  | map {t : String} {m : Doc} : IsMapType t = true →
    (∀ e ∈ m, WellTyped (.type (SubType t)) e.2) → WellTyped (.type t) (.map m)
  | nilMap {t : String} : IsMapType t = true → WellTyped (.type t) .nilMap
  | named {t : String} {schema : Schema} {m : Doc} : IsNamed t → b.schema t = some schema →
    WellTyped (.object schema) (.map m) → WellTyped (.type t) (.map m)
  | object {schema : Schema} {m : Doc} : (∀ e ∈ m, schema.resourceFields.get e.1 ≠ none) →
    (∀ e ∈ m, ∀ field, schema.resourceFields.get e.1 = some field → e.2 = .nil →
      field.nullable = true) →
    (∀ e ∈ m, ∀ field, schema.resourceFields.get e.1 = some field → e.2 ≠ .nil →
      WellTyped (.type field.type) e.2) → WellTyped (.object schema) (.map m)

/-- The defaults of the schema are values of their fields. -/
def DefaultsTyped (schema : Schema) : Prop :=
  ∀ k field, schema.resourceFields.get k = some field → field.default ≠ .nil →
    WellTyped b (.type field.type) field.default

/-- It is converted to null: a null, or a date without text. -/
def Blank (t : String) (v : Value) : Prop :=
  v = .nil ∨ t = "date" ∧ Convert.ToString b.env.toEnv v = ""

/-- It has no form that the conversion looks for, and is taken for an empty list, map or object. -/
def Shapeless (t : String) (v : Value) : Prop :=
  (IsArrayType t = true ∧ (∀ xs, v ≠ .arr xs) ∧ ∀ xs, v ≠ .strs xs)
    ∨ (IsMapType t = true ∧ ∀ m, v ≠ .map m) ∨ (IsNamed t ∧ v = .nilMap)

/-- No null is the value of a map or an element of an array, at any level, and the strings of a list
of form data are values of the element type; at the fields that are permitted. -/
inductive Clean (op : Operation) : Place → Value → Prop where
  | scalar {t : String} {v : Value} : t ∈ simpleTypes ∨ IsReferenceType t = true →
    Clean op (.type t) v
  | array {t : String} {xs : List Value} : IsArrayType t = true →
    (∀ x ∈ xs, ¬ Blank b (SubType t) x) → (∀ x ∈ xs, Clean op (.type (SubType t)) x) →
    Clean op (.type t) (.arr xs)
  | strings {t : String} {xs : List String} : IsArrayType t = true →
    (∀ x ∈ xs, WellTyped b (.type (SubType t)) (.str x)) → Clean op (.type t) (.strs xs)
  | map {t : String} {m : Doc} : IsMapType t = true →
    (∀ e ∈ m, Blank b (SubType t) e.2 → SubType t = "json") →
    (∀ e ∈ m, Clean op (.type (SubType t)) e.2) → Clean op (.type t) (.map m)
  | shapeless {t : String} {v : Value} : Shapeless t v → Clean op (.type t) v
  | named {t : String} {schema : Schema} {m : Doc} : IsNamed t → b.schema t = some schema →
    Clean op (.object schema) (.map m) → Clean op (.type t) (.map m)
  | object {schema : Schema} {m : Doc} :
    (∀ e ∈ m, ∀ field, schema.resourceFields.get e.1 = some field →
      fieldMatchesOp field op = true → e.2 ≠ .nil → Clean op (.type field.type) e.2) →
    Clean op (.object schema) (.map m)

end Typing

/-- Each map in the value has each of its keys once. -/
inductive Tidy : Value → Prop where
  | arr {xs : List Value} : (∀ x ∈ xs, Tidy x) → Tidy (.arr xs)
  | map {m : Doc} : Keyed m → (∀ e ∈ m, Tidy e.2) → Tidy (.map m)
  | leaf {v : Value} : (∀ xs, v ≠ .arr xs) → (∀ m, v ≠ .map m) → Tidy v

theorem Tidy.of_map {m : Doc} (h : Tidy (.map m)) : Keyed m ∧ ∀ e ∈ m, Tidy e.2 := by
  cases h with
  | map hm hxs => exact ⟨hm, hxs⟩
  | leaf _ hmap => exact absurd rfl (hmap m)

variable {b : Builder} {op : Operation} {t : String}

section Kinds

theorem kinds_of_simple (h : t ∈ simpleTypes) :
    IsMapType t = false ∧ IsArrayType t = false ∧ IsReferenceType t = false := by
  revert t
  decide

theorem kinds_of_array (h : IsArrayType t = true) :
    IsMapType t = false ∧ IsReferenceType t = false ∧ t ∉ simpleTypes := by
  refine ⟨isMapType_of_isArrayType h, isReferenceType_of_isArrayType h, fun hs => ?_⟩
  simp [(kinds_of_simple hs).2.1] at h

theorem kinds_of_map (h : IsMapType t = true) :
    IsArrayType t = false ∧ IsReferenceType t = false ∧ t ∉ simpleTypes := by
  refine ⟨?_, isReferenceType_of_isMapType h, fun hs => ?_⟩
  · by_contra harray
    rw [isMapType_of_isArrayType (by simpa using harray)] at h
    cases h
  · simp [(kinds_of_simple hs).1] at h

theorem textTypes_subset (h : t ∈ textTypes) : t ∈ simpleTypes := by
  revert t
  decide

end Kinds

section Inversion

theorem wellTyped_array_iff (ht : IsArrayType t = true) {xs : List Value} :
    WellTyped b (.type t) (.arr xs)
      ↔ (∀ x ∈ xs, x ≠ .nil) ∧ ∀ x ∈ xs, WellTyped b (.type (SubType t)) x := by
  refine ⟨fun h => ?_, fun h => .array ht h.1 h.2⟩
  cases h with
  | json => exact absurd ht (by decide)
  | array _ hne h => exact ⟨hne, h⟩

theorem wellTyped_map_iff (ht : IsMapType t = true) {m : Doc} :
    WellTyped b (.type t) (.map m) ↔ ∀ e ∈ m, WellTyped b (.type (SubType t)) e.2 := by
  refine ⟨fun h => ?_, .map ht⟩
  cases h with
  | json => exact absurd ht (by decide)
  | map _ h => exact h
  | named hn _ _ => simp [hn.1] at ht

theorem wellTyped_named_iff (ht : IsNamed t) {schema : Schema} (hfind : b.schema t = some schema)
    {m : Doc} : WellTyped b (.type t) (.map m) ↔ WellTyped b (.object schema) (.map m) := by
  refine ⟨fun h => ?_, .named ht hfind⟩
  cases h with
  | json => exact absurd ht.2.2.2 (by decide)
  | map hm _ => simp [ht.1] at hm
  | named _ hfind' h =>
    cases hfind.symm.trans hfind'
    exact h

theorem clean_array_iff (ht : IsArrayType t = true) {xs : List Value} :
    Clean b op (.type t) (.arr xs)
      ↔ (∀ x ∈ xs, ¬ Blank b (SubType t) x) ∧ ∀ x ∈ xs, Clean b op (.type (SubType t)) x := by
  refine ⟨fun h => ?_, fun h => .array ht h.1 h.2⟩
  obtain ⟨hmap, href, hsimple⟩ := kinds_of_array ht
  cases h with
  | scalar hs => simp [hsimple, href] at hs
  | array _ hne h => exact ⟨hne, h⟩
  | shapeless hs => simp [Shapeless, hmap] at hs

theorem clean_strs_iff (ht : IsArrayType t = true) {xs : List String} :
    Clean b op (.type t) (.strs xs) ↔ ∀ x ∈ xs, WellTyped b (.type (SubType t)) (.str x) := by
  refine ⟨fun h => ?_, .strings ht⟩
  obtain ⟨hmap, href, hsimple⟩ := kinds_of_array ht
  cases h with
  | scalar hs => simp [hsimple, href] at hs
  | strings _ h => exact h
  | shapeless hs => simp [Shapeless, hmap] at hs

theorem clean_map_iff (ht : IsMapType t = true) {m : Doc} :
    Clean b op (.type t) (.map m) ↔ (∀ e ∈ m, Blank b (SubType t) e.2 → SubType t = "json")
      ∧ ∀ e ∈ m, Clean b op (.type (SubType t)) e.2 := by
  refine ⟨fun h => ?_, fun h => .map ht h.1 h.2⟩
  obtain ⟨harray, href, hsimple⟩ := kinds_of_map ht
  cases h with
  | scalar hs => simp [hsimple, href] at hs
  | map _ hne h => exact ⟨hne, h⟩
  | shapeless hs => simp [Shapeless, harray] at hs
  | named hn _ _ => simp [hn.1] at ht

theorem clean_named_iff (ht : IsNamed t) {schema : Schema} (hfind : b.schema t = some schema)
    {m : Doc} : Clean b op (.type t) (.map m) ↔ Clean b op (.object schema) (.map m) := by
  refine ⟨fun h => ?_, .named ht hfind⟩
  obtain ⟨hmap, harray, href, hsimple⟩ := ht
  cases h with
  | scalar hs => simp [hsimple, href] at hs
  | map hm _ _ => simp [hmap] at hm
  | shapeless hs => simp [Shapeless, hmap, harray] at hs
  | named _ hfind' h =>
    cases hfind.symm.trans hfind'
    exact h

theorem text_of_wellTyped {s : String} (h : WellTyped b (.type t) (.str s)) :
    t = "json" ∨ t ∈ textTypes ∨ IsReferenceType t = true := by
  cases h with
  | json => exact .inl rfl
  | text ht => exact .inr (.inl ht)
  | reference ht _ => exact .inr (.inr ht)

theorem not_wellTyped_nil (ht : t ≠ "json") : ¬ WellTyped b (.type t) .nil := by
  intro h
  cases h
  exact ht rfl

end Inversion

section Converted

/-- What is known of a value that was converted. -/
structure Converted (b : Builder) (op : Operation) (t : String) (v w : Value) : Prop where
  nil_iff : w = .nil ↔ Blank b t v
  str : ∀ s, w = .str s → t ∈ simpleTypes ∨ IsReferenceType t = true
  typed_iff : w ≠ .nil → (WellTyped b (.type t) w ↔ Clean b op (.type t) v)

variable {v w : Value}

/-- As an element of an array. -/
theorem Converted.element_iff (h : Converted b op t v w) :
    w ≠ .nil ∧ WellTyped b (.type t) w ↔ ¬ Blank b t v ∧ Clean b op (.type t) v := by
  constructor
  · rintro ⟨hw, htyped⟩
    exact ⟨fun hb => hw (h.nil_iff.2 hb), (h.typed_iff hw).1 htyped⟩
  · rintro ⟨hb, hclean⟩
    have hw : w ≠ .nil := fun hw => hb (h.nil_iff.1 hw)
    exact ⟨hw, (h.typed_iff hw).2 hclean⟩

/-- As the value of a map. -/
theorem Converted.value_iff (h : Converted b op t v w) :
    WellTyped b (.type t) w ↔ (Blank b t v → t = "json") ∧ Clean b op (.type t) v := by
  by_cases hjson : t = "json"
  · subst hjson
    exact ⟨fun _ => ⟨fun _ => rfl, .scalar (.inl (by decide))⟩, fun _ => .json⟩
  · by_cases hw : w = .nil
    · subst hw
      have hb := h.nil_iff.1 rfl
      exact ⟨fun hn => absurd hn (not_wellTyped_nil hjson), fun hc => absurd (hc.1 hb) hjson⟩
    · rw [h.typed_iff hw]
      exact ⟨fun hc => ⟨fun hb => absurd (h.nil_iff.2 hb) hw, hc⟩, fun hc => hc.2⟩

theorem blank_of_ne_date (ht : t ≠ "date") : Blank b t v ↔ v = .nil := by
  simp [Blank, ht]

/-- A simple type or a reference: the value is well typed, whatever it was made of. -/
theorem Converted.of_scalar (ht : t ∈ simpleTypes ∨ IsReferenceType t = true)
    (hnil : w = .nil ↔ Blank b t v) (hw : w ≠ .nil → WellTyped b (.type t) w) :
    Converted b op t v w where
  nil_iff := hnil
  str _ _ := ht
  typed_iff hne := ⟨fun _ => .scalar ht, fun _ => hw hne⟩

theorem Converted.of_str {s : String} (ht : t ∈ textTypes) (hdate : t ≠ "date") (hv : v ≠ .nil) :
    Converted b op t v (.str s) := by
  refine .of_scalar (.inl (textTypes_subset ht)) ?_ fun _ => .text ht
  simp [blank_of_ne_date hdate, hv]

theorem convertName_eq_ok {validate : String → List String}
    (h : convertName b.env validate v op = .ok w) : ∃ s, w = .str s := by
  unfold convertName at h
  dsimp only at h
  split at h
  · cases h
    exact ⟨_, rfl⟩
  · split at h
    · cases h
    · cases h
      exact ⟨_, rfl⟩

theorem convertSimple_typed (hv : v ≠ .nil) (h : ConvertSimple b.env t v op = .ok w) :
    Converted b op t v w := by
  unfold ConvertSimple at h
  rw [if_neg hv] at h
  split at h
  case h_1 => -- json
    cases h
    exact .of_scalar (.inl (by decide)) (by simp [Blank, hv]) fun _ => .json
  case h_2 => -- date
    dsimp only at h
    split at h
    · rename_i hblank
      cases h
      exact .of_scalar (.inl (by decide)) (by simp [Blank, hblank]) fun hne => absurd rfl hne
    · rename_i hblank
      cases h
      exact .of_scalar (.inl (by decide)) (by simp [Blank, hv, hblank]) fun _ => .text (by decide)
  case h_3 => -- boolean
    cases h
    exact .of_scalar (.inl (by decide)) (by simp [Blank, hv]) fun _ => .boolean
  case h_5 => -- int
    obtain ⟨n, -, rfl⟩ := map_eq_ok.1 h
    exact .of_scalar (.inl (by decide)) (by simp [Blank, hv]) fun _ => .int
  case h_6 => -- float
    obtain ⟨x, -, rfl⟩ := map_eq_ok.1 h
    exact .of_scalar (.inl (by decide)) (by simp [Blank, hv]) fun _ => .float
  case h_8 => -- string
    split at h <;> cases h <;> exact .of_str (by decide) (by decide) hv
  case h_12 => -- intOrString
    split at h
    · cases h
      exact .of_scalar (.inl (by decide)) (by simp [Blank, hv]) fun _ => .intOrString
    · cases h
      exact .of_str (by decide) (by decide) hv
  case h_9 | h_10 | h_11 => -- dnsLabel, dnsLabelRestricted, hostname
    obtain ⟨s, rfl⟩ := convertName_eq_ok h
    exact .of_str (by decide) (by decide) hv
  case h_4 | h_7 | h_13 | h_14 => -- enum, password, base64, reference
    cases h
    exact .of_str (by decide) (by decide) hv
  case h_15 => cases h

end Converted

section Elements

variable {convert : Conversion} {v : Value} {ws : List Value}

/-- The level below. -/
def ConvertsTyped (b : Builder) (op : Operation)
    (convert : Conversion) : Prop :=
  ∀ t v w, Tidy v → convert t v op = .ok w → Converted b op t v w

theorem blank_of_not_simple (ht : t ∉ simpleTypes) : Blank b t v ↔ v = .nil := by
  refine blank_of_ne_date ?_
  rintro rfl
  exact ht (by decide)

theorem wellTyped_ofSlice_iff (ht : IsArrayType t = true) :
    WellTyped b (.type t) (Builder.ofSlice ws)
      ↔ ∀ w ∈ ws, w ≠ .nil ∧ WellTyped b (.type (SubType t)) w := by
  unfold Builder.ofSlice
  split
  · rename_i hnil
    subst hnil
    exact ⟨fun _ => by simp, fun _ => .nilArr ht⟩
  · rw [wellTyped_array_iff ht]
    exact ⟨fun h w hw => ⟨h.1 w hw, h.2 w hw⟩, fun h => ⟨fun w hw => (h w hw).1, fun w hw => (h w hw).2⟩⟩

theorem Converted.ofSlice (ht : IsArrayType t = true) (hv : v ≠ .nil)
    (h : WellTyped b (.type t) (Builder.ofSlice ws) ↔ Clean b op (.type t) v) :
    Converted b op t v (Builder.ofSlice ws) where
  nil_iff := by
    rw [blank_of_not_simple (kinds_of_array ht).2.2]
    unfold Builder.ofSlice
    split <;> simp [hv]
  str s := by
    unfold Builder.ofSlice
    split <;> simp
  typed_iff _ := h

theorem convertArray_typed (hc : ConvertsTyped b op convert) (ht : IsArrayType t = true)
    (hv : v ≠ .nil) (htidy : Tidy v)
    (h : Builder.convertArray convert t v op = .ok ws) :
    Converted b op t v (Builder.ofSlice ws) := by
  refine .ofSlice ht hv ?_
  rw [wellTyped_ofSlice_iff ht]
  cases v with
  | strs xs =>
    cases h
    rw [clean_strs_iff ht]
    simp
  | arr xs =>
    have hxs : ∀ x ∈ xs, Tidy x := by
      cases htidy with
      | arr hxs => exact hxs
      | leaf harr _ => exact absurd rfl (harr xs)
    have hall := forall_mem_iff (mapM_eq_ok h) fun x hx w hw =>
      (hc _ x w (hxs x hx) hw).element_iff.symm
    rw [clean_array_iff ht, ← hall]
    exact ⟨fun h => ⟨fun x hx => (h x hx).1, fun x hx => (h x hx).2⟩, fun h x hx => ⟨h.1 x hx, h.2 x hx⟩⟩
  | _ =>
    cases h
    exact ⟨fun _ => .shapeless (.inl ⟨ht, by simp, by simp⟩), fun _ => by simp⟩

theorem convertMap_typed (hc : ConvertsTyped b op convert) (ht : IsMapType t = true)
    (hv : v ≠ .nil) (htidy : Tidy v) {r : Option Doc}
    (h : Builder.convertMap convert t v op = .ok r) :
    Converted b op t v (Builder.ofMap r) := by
  have hblank : Builder.ofMap r = .nil ↔ Blank b t v := by
    rw [blank_of_not_simple (kinds_of_map ht).2.2]
    cases r <;> simp [Builder.ofMap, hv]
  refine ⟨hblank, fun s hs => (by cases r <;> cases hs), fun _ => ?_⟩
  cases v with
  | map m =>
    obtain ⟨hm, hxs⟩ := htidy.of_map
    obtain ⟨m', rfl, hs, hget⟩ := convertMap_eq_ok hm h
    -- the two maps have the same keys, with a value and what it is converted to
    have hkeys : (∀ k w, Assoc.get k m' = some w → WellTyped b (.type (SubType t)) w)
        ↔ ∀ k v, Assoc.get k m = some v → (Blank b (SubType t) v → SubType t = "json")
          ∧ Clean b op (.type (SubType t)) v := by
      refine forall_congr' fun k => ?_
      rcases hget k with ⟨hnone, hnone'⟩ | ⟨v, w, hv, hw, hconv⟩
      · simp [hnone, hnone']
      · have htidy := hxs (k, v) (Assoc.mem_of_get hv)
        simp [hv, hw, (hc _ v w htidy hconv).value_iff]
    rw [Builder.ofMap, wellTyped_map_iff ht, clean_map_iff ht,
      Assoc.forall_mem_iff_get (P := fun _ w => WellTyped b (.type (SubType t)) w) hs.nodup, hkeys,
      ← Assoc.forall_mem_iff_get (P := fun _ v => _ ∧ _) hm]
    exact ⟨fun h => ⟨fun e he => (h e he).1, fun e he => (h e he).2⟩, fun h e he => ⟨h.1 e he, h.2 e he⟩⟩
  | nilMap =>
    cases h
    exact ⟨fun _ => .shapeless (.inr (.inl ⟨ht, by simp⟩)), fun _ => .map ht (by simp)⟩
  | _ =>
    cases h
    exact ⟨fun _ => .shapeless (.inr (.inl ⟨ht, by simp⟩)), fun _ => .nilMap ht⟩

end Elements

section Objects

variable {convert : Conversion} {v : Value} {field : Field}
  {schema : Schema} {w : Option Value}

theorem nullable_of_criteria {env : Env} {k : String}
    (h : CheckFieldCriteria env k field .nil = none) :
    field.nullable = true ∨ field.default ≠ .nil := by
  by_contra hno
  rw [not_or, not_not] at hno
  simp [CheckFieldCriteria, hno.1, hno.2] at h

/-- A value that is written was converted, and is null only if the field is nullable; one that is
not written was converted to null. -/
theorem copyValue_eq_ok (hop : op.IsList = false) {k : String}
    (h : b.copyValue convert op k field v = .ok w) :
    convert field.type v op = .ok (w.getD .nil) ∧ (w = some .nil → field.nullable = true) := by
  obtain ⟨u, hu, rfl, hcheck⟩ := copyValue_ok h
  split_ifs at hcheck ⊢ with hcopy
  · refine ⟨hu, fun hnil => ?_⟩
    cases hnil
    rcases hcopy with hne | ⟨-, hnullable | hdefault⟩
    · exact absurd rfl hne
    · exact hnullable
    · exact (nullable_of_criteria (hcheck hop rfl)).resolve_right fun h => h hdefault
  · rw [not_or, not_not] at hcopy
    rw [hcopy.1] at hu
    exact ⟨hu, by simp⟩

/-- A value that a field may have. -/
def FieldTyped (b : Builder) (field : Field) (x : Value) : Prop :=
  (x = .nil → field.nullable = true) ∧ (x ≠ .nil → WellTyped b (.type field.type) x)

theorem wellTyped_object_iff {r : Doc} (hs : Assoc.Sorted r) :
    WellTyped b (.object schema) (.map r) ↔ ∀ k, (schema.resourceFields.get k).elim
      (Assoc.get k r = none) fun field => ∀ x, Assoc.get k r = some x → FieldTyped b field x := by
  constructor
  · intro h k
    cases h with
    | object hknown hnull htyped =>
      rcases hfield : schema.resourceFields.get k with _ | field
      · rcases hx : Assoc.get k r with _ | x
        · rfl
        · exact absurd hfield (hknown (k, x) (Assoc.mem_of_get hx))
      · intro x hx
        exact ⟨hnull (k, x) (Assoc.mem_of_get hx) field hfield,
          htyped (k, x) (Assoc.mem_of_get hx) field hfield⟩
  · intro h
    have hkey : ∀ e ∈ r, ∀ field, schema.resourceFields.get e.1 = some field →
        FieldTyped b field e.2 := by
      intro e he field hfield
      have hk := h e.1
      rw [hfield] at hk
      exact hk e.2 (Assoc.get_of_mem_nodup hs.nodup he)
    refine .object (fun e he hnone => ?_) (fun e he field hfield => (hkey e he field hfield).1)
      fun e he field hfield => (hkey e he field hfield).2
    have hk := h e.1
    rw [hnone, Option.elim_none, Assoc.get_of_mem_nodup hs.nodup he] at hk
    cases hk

theorem clean_object_iff {m : Doc} (hm : Keyed m) :
    Clean b op (.object schema) (.map m) ↔ ∀ k field, schema.resourceFields.get k = some field →
      fieldMatchesOp field op = true → ∀ v, Assoc.get k m = some v → v ≠ .nil →
      Clean b op (.type field.type) v := by
  constructor
  · intro h k field hfield hmatch v hv
    cases h with
    | object h => exact h (k, v) (Assoc.mem_of_get hv) field hfield hmatch
  · intro h
    exact .object fun e he field hfield hmatch =>
      h e.1 field hfield hmatch e.2 (Assoc.get_of_mem_nodup hm he)

theorem clean_of_blank (h : Blank b t v) (hv : v ≠ .nil) : Clean b op (.type t) v := by
  rcases h with rfl | ⟨rfl, -⟩
  · exact absurd rfl hv
  · exact .scalar (.inl (by decide))

/-- A default is a value of the field, so only what was copied matters. -/
theorem defaulted_typed (hd : field.default ≠ .nil → WellTyped b (.type field.type) field.default)
    (h : ∀ x, w = some x → FieldTyped b field x) :
    ∀ x, defaulted op field w = some x → FieldTyped b field x := by
  intro x hx
  unfold defaulted at hx
  split_ifs at hx with hdef
  · cases hx
    exact ⟨fun hnil => absurd hnil hdef.2.2, fun _ => hd hdef.2.2⟩
  · exact h x hx

theorem defaulted_of_ne {u : Value} (hu : u ≠ .str "") : defaulted op field (some u) = some u := by
  refine if_neg fun h => ?_
  rcases h.2.1 with h | h
  · cases h
  · cases h
    exact hu rfl

/-- What a field has been given is a value of it if and only if the input for it was clean. -/
theorem field_typed_iff (hop : op.IsList = false) (hc : ConvertsTyped b op convert)
    (hd : field.default ≠ .nil → WellTyped b (.type field.type) field.default) {k : String}
    (htidy : Tidy v) (h : b.copyValue convert op k field v = .ok w) :
    (∀ x, defaulted op field w = some x → FieldTyped b field x)
      ↔ (v ≠ .nil → Clean b op (.type field.type) v) := by
  obtain ⟨hconv, hnull⟩ := copyValue_eq_ok hop h
  have hv := hc _ _ _ htidy hconv
  by_cases hnil : w.getD .nil = .nil
  · -- it was converted to null, and written only if the field is nullable
    refine ⟨fun _ => clean_of_blank (hv.nil_iff.1 hnil), fun _ => defaulted_typed hd fun x hx => ?_⟩
    subst hx
    cases hnil
    exact ⟨fun _ => hnull rfl, fun hne => absurd rfl hne⟩
  · obtain ⟨u, rfl⟩ : ∃ u, w = some u := by
      cases w with
      | none => exact absurd rfl hnil
      | some u => exact ⟨u, rfl⟩
    have hne : v ≠ .nil := fun hvnil => hnil (hv.nil_iff.2 (.inl hvnil))
    have htyped := hv.typed_iff hnil
    refine ⟨fun hall _ => ?_, fun hclean => defaulted_typed hd fun x hx => ?_⟩
    · by_cases hstr : u = .str ""
      · exact .scalar (hv.str "" hstr)
      · exact htyped.1 ((hall u (defaulted_of_ne hstr)).2 hnil)
    · cases hx
      exact ⟨fun hx => absurd hx hnil, fun _ => htyped.2 (hclean hne)⟩

theorem constructWith_typed (hop : op.IsList = false) (hc : ConvertsTyped b op convert)
    (hd : DefaultsTyped b schema) {m r : Doc} (hm : Keyed m) (htidy : ∀ e ∈ m, Tidy e.2)
    (h : b.constructWith convert schema m op = .ok r) :
    WellTyped b (.object schema) (.map r) ↔ Clean b op (.object schema) (.map m) := by
  obtain ⟨hs, hget⟩ := constructWith_write hop hm h
  rw [wellTyped_object_iff hs, clean_object_iff hm]
  refine forall_congr' fun k => ?_
  obtain ⟨w, hw, hr⟩ := hget k
  rcases hfield : schema.resourceFields.get k with _ | field <;> rw [hfield] at hr
  · simp [hr]
  · rw [Option.elim_some] at hr
    have hdk := hd k field hfield
    by_cases hcopied : fieldMatchesOp field op = true ∧ ∃ v, Assoc.get k m = some v
    · obtain ⟨hmatch, v, hv⟩ := hcopied
      have hcopy : b.copyValue convert op k field v = .ok w := by
        simpa [hv, given, copied, hfield, hmatch] using hw
      have hiff := field_typed_iff hop hc hdk (htidy _ (Assoc.mem_of_get hv)) hcopy
      simpa [hr, hmatch, hv] using hiff
    · -- nothing was copied
      have hnone : w = none := by
        rcases hv : Assoc.get k m with _ | v
        · simpa [hv, given] using hw.symm
        · have hmatch : fieldMatchesOp field op = false := by simpa [hv] using hcopied
          simpa [hv, given, copied, hfield, hmatch] using hw.symm
      subst hnone
      refine ⟨fun _ field' hfield' hmatch v hv => ?_, fun _ => ?_⟩
      · cases hfield'
        exact absurd ⟨hmatch, v, hv⟩ hcopied
      · rw [Option.elim_some, hr]
        exact defaulted_typed hdk fun x hx => absurd hx.symm (Option.some_ne_none x)

end Objects

section Knot

variable {v : Value}

theorem avoids_ofStd {α : Type} (x : Except String α) : Avoids .complexType (Convert.ofStd x) := by
  cases x <;> exact fun h => nomatch h

theorem avoids_toNumber (env : Convert.Env) (v : Value) :
    Avoids .complexType (Convert.ToNumber env v) := by
  unfold Convert.ToNumber
  split
  · exact .ok _
  · exact .ok _
  · split
    · exact .ok _
    · exact (avoids_ofStd _).map _
  · exact avoids_ofStd _

theorem avoids_toFloat (env : Convert.Env) (v : Value) :
    Avoids .complexType (Convert.ToFloat env v) := by
  unfold Convert.ToFloat
  split
  · exact .ok _
  · split
    · exact .ok _
    · exact avoids_ofStd _
  · exact avoids_ofStd _

theorem avoids_convertName {env : Env} {validate : String → List String} :
    Avoids .complexType (convertName env validate v op) := by
  unfold convertName
  dsimp only
  split
  · exact .ok _
  · split
    · exact fun h => nomatch h
    · exact .ok _

/-- Only a type that is not simple is looked up. -/
theorem avoids_convertSimple {env : Env} (ht : t ∈ simpleTypes) :
    Avoids .complexType (ConvertSimple env t v op) := by
  unfold ConvertSimple
  split
  · exact .ok _
  split
  case h_2 => dsimp only; split <;> exact .ok _
  case h_5 => exact (avoids_toNumber _ _).map _
  case h_6 => exact (avoids_toFloat _ _).map _
  case h_8 => split <;> exact .ok _
  case h_9 | h_10 | h_11 => exact avoids_convertName
  case h_12 => split <;> exact .ok _
  case h_15 =>
    simp only [simpleTypes, List.mem_cons, List.not_mem_nil, or_false] at ht
    tauto
  all_goals exact .ok _

/-- How a value is converted, by the kind of its type. -/
theorem convertWith_cases {convert : Conversion} {w : Value}
    (h : b.convertWith convert t v op = .ok w) : v = .nil ∧ w = .nil ∨ v ≠ .nil
      ∧ (IsMapType t = true ∧ (∃ r, Builder.convertMap convert t v op = .ok r ∧ w = Builder.ofMap r)
        ∨ IsArrayType t = true
          ∧ (∃ ws, Builder.convertArray convert t v op = .ok ws ∧ w = Builder.ofSlice ws)
        ∨ IsReferenceType t = true ∧ (∃ s, b.convertReferenceType t v = .ok s ∧ w = .str s)
        ∨ ConvertSimple b.env t v op = .ok w
        ∨ IsNamed t ∧ b.convertType convert t v op = .ok w) := by
  unfold Builder.convertWith at h
  split_ifs at h with hv hmap harray href
  · cases h
    exact .inl ⟨hv, rfl⟩
  · obtain ⟨r, hr, rfl⟩ := map_eq_ok.1 h
    exact .inr ⟨hv, .inl ⟨hmap, r, hr, rfl⟩⟩
  · obtain ⟨ws, hws, rfl⟩ := map_eq_ok.1 h
    exact .inr ⟨hv, .inr (.inl ⟨harray, ws, hws, rfl⟩)⟩
  · obtain ⟨s, hs, rfl⟩ := map_eq_ok.1 h
    exact .inr ⟨hv, .inr (.inr (.inl ⟨href, s, hs, rfl⟩))⟩
  · split at h
    · rename_i hcomplex
      exact .inr ⟨hv, .inr (.inr (.inr (.inr ⟨⟨by simpa using hmap, by simpa using harray,
        by simpa using href, fun hs => avoids_convertSimple hs hcomplex⟩, h⟩)))⟩
    · refine .inr ⟨hv, .inr (.inr (.inr (.inl ?_)))⟩
      rcases hsimple : ConvertSimple b.env t v op with e | u <;> rw [hsimple] at h <;> cases h
      rfl

/-- A reference is a text, and every validator knows it. -/
theorem convertReferenceType_ok {s : String} (h : b.convertReferenceType t v = .ok s) :
    s = Convert.ToString b.env.toEnv v
      ∧ ∀ validate ∈ b.RefValidator, validate (SubType t) s = true := by
  unfold Builder.convertReferenceType at h
  by_cases hvalid : ∃ validate ∈ b.RefValidator,
      validate (SubType t) (Convert.ToString b.env.toEnv v) = false
  · rw [if_pos hvalid] at h
    exact absurd h (by simp)
  · rw [if_neg hvalid] at h
    obtain rfl := Except.ok.inj h
    refine ⟨rfl, fun validate hvalidate => ?_⟩
    by_contra hfalse
    exact hvalid ⟨validate, hvalidate, by simpa using hfalse⟩

theorem convertReferenceType_typed {s : String} (ht : IsReferenceType t = true)
    (hv : v ≠ .nil) (h : b.convertReferenceType t v = .ok s) : Converted b op t v (.str s) := by
  have hsimple : t ∉ simpleTypes := fun hs => by simp [(kinds_of_simple hs).2.2] at ht
  exact .of_scalar (.inr ht) (by simp [blank_of_not_simple hsimple, hv])
    fun _ => .reference ht (convertReferenceType_ok h).2

theorem convertType_typed {convert : Conversion}
    (hop : op.IsList = false) (hc : ConvertsTyped b op convert)
    (hd : ∀ t schema, b.schema t = some schema → DefaultsTyped b schema) (ht : IsNamed t)
    {w : Value} (htidy : Tidy v) (h : b.convertType convert t v op = .ok w) :
    Converted b op t v w := by
  unfold Builder.convertType at h
  rcases hfind : b.schema t with _ | schema <;> rw [hfind] at h
  · cases h
  · cases v with
    | map m =>
      obtain ⟨hm, hxs⟩ := htidy.of_map
      obtain ⟨r, hr, rfl⟩ := map_eq_ok.1 h
      refine ⟨by simp [blank_of_not_simple ht.2.2.2], by simp, fun _ => ?_⟩
      rw [wellTyped_named_iff ht hfind, clean_named_iff ht hfind]
      exact constructWith_typed hop hc (hd t schema hfind) hm hxs hr
    | nilMap =>
      obtain ⟨r, hr, rfl⟩ := map_eq_ok.1 h
      refine ⟨by simp [blank_of_not_simple ht.2.2.2], by simp, fun _ => ?_⟩
      have hempty := constructWith_typed hop hc (hd t schema hfind) (m := []) List.nodup_nil (by simp) hr
      rw [wellTyped_named_iff ht hfind]
      exact ⟨fun _ => .shapeless (.inr (.inr ⟨ht, rfl⟩)), fun _ => hempty.2 (.object (by simp))⟩
    | _ => cases h

theorem convertsTyped (hop : op.IsList = false)
    (hd : ∀ t schema, b.schema t = some schema → DefaultsTyped b schema) :
    ∀ fuel : ℕ, ConvertsTyped b op (b.convert fuel)
  | 0 => fun _ _ _ _ h => nomatch h
  | fuel + 1 => by
    intro t v w htidy h
    have hc := convertsTyped hop hd fuel
    rcases convertWith_cases h with ⟨rfl, rfl⟩ | ⟨hv, ⟨ht, r, hr, rfl⟩ | ⟨ht, ws, hws, rfl⟩
      | ⟨ht, s, hs, rfl⟩ | hsimple | ⟨ht, h⟩⟩
    · exact ⟨by simp [Blank], by simp, fun hne => absurd rfl hne⟩
    · exact convertMap_typed hc ht hv htidy hr
    · exact convertArray_typed hc ht hv htidy hws
    · exact convertReferenceType_typed ht hv hs
    · exact convertSimple_typed hv hsimple
    · exact convertType_typed hop hc hd ht htidy h

end Knot

/-- A written object is well typed if and only if the input was clean where it may be written. -/
theorem Builder.construct_typed_iff (hop : op = .Create ∨ op = .Update)
    (hd : ∀ t schema, b.schema t = some schema → DefaultsTyped b schema) {schema : Schema}
    (hds : DefaultsTyped b schema) {input : Doc} (htidy : Tidy (.map input)) {fuel : ℕ} {result : Doc}
    (h : b.Construct fuel schema input op = .ok result) :
    WellTyped b (.object schema) (.map result) ↔ Clean b op (.object schema) (.map input) := by
  have hlist : op.IsList = false := by
    rcases hop with rfl | rfl <;> rfl
  obtain ⟨hm, hxs⟩ := htidy.of_map
  exact constructWith_typed hlist (convertsTyped hlist hd fuel) hds hm hxs h

section Service

/-- A service has tags, and ports. -/
def serviceSchema : Schema :=
  plainSchema "service" [("tags", { type := "array[string]", create := true }),
    ("ports", { type := "array[int]", create := true })]

theorem serviceSchema_fields : ∀ e ∈ serviceSchema.resourceFields.entries,
    e = ("ports", { type := "array[int]", create := true })
      ∨ e = ("tags", { type := "array[string]", create := true }) := by
  decide +kernel

theorem serviceSchema_defaults : DefaultsTyped (plainBuilder []) serviceSchema := by
  intro k field hfield hne
  rcases serviceSchema_fields _ (SortedMap.mem_entries.2 hfield) with heq | heq <;> cases heq <;>
    exact absurd rfl hne

theorem plainBuilder_nil_schema (t : String) : (plainBuilder []).schema t = none := by
  simp only [Builder.schema, plainBuilder, List.foldl_nil, Schemas.doSchema]
  split
  · rfl
  · rename_i hpath
    cases hpath

/-- Tags that form data give. -/
theorem tags_typed :
    (plainBuilder []).Construct 2 serviceSchema (valuesToBody [("tags", ["a", "b"])]) .Create
        = .ok [("tags", .arr [.str "a", .str "b"])]
      ∧ WellTyped (plainBuilder []) (.object serviceSchema)
          (.map [("tags", .arr [.str "a", .str "b"])]) := by
  have hok : (plainBuilder []).Construct 2 serviceSchema (valuesToBody [("tags", ["a", "b"])]) .Create
      = .ok [("tags", .arr [.str "a", .str "b"])] := by
    decide +kernel
  have htidy : Tidy (.map (valuesToBody [("tags", ["a", "b"])])) :=
    .map (by unfold Keyed; decide) fun e he => by
      cases List.mem_singleton.1 he
      exact .leaf (by simp) (by simp)
  refine ⟨hok, (Builder.construct_typed_iff (.inl rfl) (fun t schema h => ?_) serviceSchema_defaults
    htidy hok).2 (.object fun e he field hfield _ _ => ?_)⟩
  · rw [plainBuilder_nil_schema] at h
    cases h
  · cases List.mem_singleton.1 he
    obtain heq | heq := serviceSchema_fields _ (SortedMap.mem_entries.2 hfield)
    · have hname : "tags" = "ports" := congrArg Prod.fst heq
      exact absurd hname (by decide)
    cases heq
    refine .strings (by decide) fun x _ => ?_
    rw [show SubType "array[string]" = "string" by decide]
    exact .text (by decide)

/-- Ports that form data give are strings. -/
theorem ports_untyped :
    (plainBuilder []).Construct 2 serviceSchema (valuesToBody [("ports", ["80"])]) .Create
        = .ok [("ports", .arr [.str "80"])]
      ∧ ¬ WellTyped (plainBuilder []) (.object serviceSchema) (.map [("ports", .arr [.str "80"])]) := by
  refine ⟨by decide +kernel, fun h => ?_⟩
  cases h with
  | object _ _ htyped =>
    have hports := htyped ("ports", .arr [.str "80"]) List.mem_cons_self
      { type := "array[int]", create := true } (by decide +kernel) (by simp)
    have hport := ((wellTyped_array_iff (by decide)).1 hports).2 (.str "80") List.mem_cons_self
    rw [show SubType "array[int]" = "int" by decide] at hport
    exact absurd (text_of_wellTyped hport) (by decide)

end Service

end Norman.Parse
