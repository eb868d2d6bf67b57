import Norman.Proofs.Exported

/-!
# Creating what was exported

A stored object is exported, and created again from that. What was not exported is given the default
of its field then, or is missing; so it comes back if it is the default, or if it is null or empty
and the field has no default. What was exported is converted once more, and comes back if it has the
form in which it is written.
-/

namespace Norman.Parse

open Norman.Types Norman.Convert Gather

section Restored

/-- The elements of a list. -/
def elementsOf : Value → Option (List Value)
  | .arr xs => some xs
  | .nilArr => some []
  | _ => none

/-- The entries of a map. -/
def entriesOf : Value → Option Doc
  | .map m => some m
  | .nilMap => some []
  | _ => none

/-- Null, or empty: no text, zero, false, a list without elements or an object without entries. -/
def Vacant (x : Value) : Prop :=
  IsAPIObjectEmpty x = true ∨ x = .int 0 ∨ ∃ bits, x = .float bits ∧ floatEq bits 0 = true

/-- The value that was stored has been given, at every level: the two are the same or `==`, or have
restored elements, entries or fields. A field may be missing if the stored value is null or empty
and there is no default. -/
inductive Restored (b : Builder) : Place → Value → Value → Prop where
  | same {p : Place} {x y : Value} : x = y ∨ equal x y = .ok true → Restored b p x y
  | array {t : String} {x y : Value} {xs ys : List Value} : IsArrayType t = true →
    elementsOf x = some xs → elementsOf y = some ys → xs.length = ys.length →
    (∀ u v, (u, v) ∈ xs.zip ys → Restored b (.type (SubType t)) u v) → Restored b (.type t) x y
  | map {t : String} {x y : Value} {m n : Doc} : IsMapType t = true → entriesOf x = some m →
    entriesOf y = some n → (∀ k, Assoc.get k m = none ↔ Assoc.get k n = none) →
    (∀ k u v, Assoc.get k m = some u → Assoc.get k n = some v →
      Restored b (.type (SubType t)) u v) → Restored b (.type t) x y
  | named {t : String} {schema : Schema} {m n : Doc} : IsNamed t → b.schema t = some schema →
    Restored b (.object schema) (.map m) (.map n) → Restored b (.type t) (.map m) (.map n)
  | object {schema : Schema} {m n : Doc} :
    (∀ k field u v, schema.resourceFields.get k = some field → Assoc.get k m = some u →
      Assoc.get k n = some v → Restored b (.type field.type) u v) →
    (∀ k field u, schema.resourceFields.get k = some field → Assoc.get k m = some u →
      Assoc.get k n = none → field.default = .nil ∧ Vacant u) →
    Restored b (.object schema) (.map m) (.map n)

/-- Lists and maps are not compared. -/
theorem Shaped.same {x y : Value} (hx : Shaped x) (h : x = y ∨ equal x y = .ok true) : x = y := by
  refine h.resolve_right ?_
  cases x with
  | arr | nilArr | map | nilMap => cases y <;> simp [equal.eq_def]
  | _ => exact hx.elim

/-- The stored value has been given to the field, or may be missing. -/
def Recovers (b : Builder) (field : Field) (x : Value) : Option Value → Prop
  | some y => Restored b (.type field.type) x y
  | none => field.default = .nil ∧ Vacant x

variable {b : Builder} {t : String}

theorem restored_object_iff {schema : Schema} {m n : Doc} :
    Restored b (.object schema) (.map m) (.map n) ↔ ∀ k field u,
      schema.resourceFields.get k = some field → Assoc.get k m = some u →
      Recovers b field u (Assoc.get k n) := by
  constructor
  · intro h k field u hfield hu
    cases h with
    | same hsame =>
      have heq : m = n := by simpa [equal.eq_def] using hsame
      rw [← heq, hu]
      exact .same (.inl rfl)
    | object hgiven hmissing =>
      rcases hv : Assoc.get k n with _ | v
      · exact hmissing k field u hfield hu hv
      · exact hgiven k field u v hfield hu hv
  · intro h
    refine .object (fun k field u v hfield hu hv => ?_) fun k field u hfield hu hv => ?_
    · have hk := h k field u hfield hu
      rwa [hv] at hk
    · have hk := h k field u hfield hu
      rwa [hv] at hk

/-- A value that is no list, map or object is the same, or `==`. -/
theorem restored_scalar_iff (ht : IsScalar t) {x y : Value} :
    Restored b (.type t) x y ↔ x = y ∨ equal x y = .ok true := by
  refine ⟨fun h => ?_, .same⟩
  cases h with
  | same h => exact h
  | array harray => exact absurd ht (not_scalar_of_array harray)
  | map hmap => exact absurd ht (not_scalar_of_map hmap)
  | named hn => exact absurd ht (not_scalar_of_named hn)

theorem restored_str_iff (ht : IsScalar t) {s : String} {y : Value} :
    Restored b (.type t) (.str s) y ↔ y = .str s := by
  rw [restored_scalar_iff ht]
  constructor
  · rintro (rfl | h)
    · rfl
    · cases y with
      | str s' =>
        simp only [equal.eq_def, Except.ok.injEq, beq_iff_eq] at h
        exact h.symm
      | _ => simp [equal.eq_def] at h
  · exact fun h => .inl h.symm

theorem shaped_of_elementsOf {x : Value} {xs : List Value} (h : elementsOf x = some xs) :
    Shaped x := by
  cases x with
  | arr | nilArr => trivial
  | _ => cases h

theorem shaped_of_entriesOf {x : Value} {m : Doc} (h : entriesOf x = some m) : Shaped x := by
  cases x with
  | map | nilMap => trivial
  | _ => cases h

theorem eq_of_mem_zip_self {α : Type} {u v : α} : ∀ {xs : List α}, (u, v) ∈ xs.zip xs → u = v
  | x :: xs, h => by
    rw [List.zip_cons_cons] at h
    rcases List.mem_cons.1 h with heq | h
    · cases heq
      rfl
    · exact eq_of_mem_zip_self h

theorem restored_array_iff (ht : IsArrayType t = true) {x y : Value} {xs ys : List Value}
    (hx : elementsOf x = some xs) (hy : elementsOf y = some ys) (hlen : xs.length = ys.length) :
    Restored b (.type t) x y ↔ ∀ u v, (u, v) ∈ xs.zip ys → Restored b (.type (SubType t)) u v := by
  refine ⟨fun h => ?_, .array ht hx hy hlen⟩
  cases h with
  | same hsame =>
    cases (shaped_of_elementsOf hx).same hsame
    cases hx.symm.trans hy
    exact fun u v huv => .same (.inl (eq_of_mem_zip_self huv))
  | array _ hx' hy' _ h =>
    cases hx.symm.trans hx'
    cases hy.symm.trans hy'
    exact h
  | map hmap => simp [(kinds_of_map hmap).1] at ht
  | named hn => simp [hn.2.1] at ht

theorem restored_map_iff (ht : IsMapType t = true) {x y : Value} {m n : Doc}
    (hx : entriesOf x = some m) (hy : entriesOf y = some n)
    (hkeys : ∀ k, Assoc.get k m = none ↔ Assoc.get k n = none) :
    Restored b (.type t) x y ↔ ∀ k u v, Assoc.get k m = some u → Assoc.get k n = some v →
      Restored b (.type (SubType t)) u v := by
  refine ⟨fun h => ?_, .map ht hx hy hkeys⟩
  cases h with
  | same hsame =>
    cases (shaped_of_entriesOf hx).same hsame
    cases hx.symm.trans hy
    intro k u v hu hv
    cases hu.symm.trans hv
    exact .same (.inl rfl)
  | array harray => simp [(kinds_of_map ht).1] at harray
  | map _ hx' hy' _ h =>
    cases hx.symm.trans hx'
    cases hy.symm.trans hy'
    exact h
  | named hn => simp [hn.1] at ht

theorem restored_named_iff (ht : IsNamed t) {schema : Schema} (hfind : b.schema t = some schema)
    {m n : Doc} : Restored b (.type t) (.map m) (.map n)
      ↔ Restored b (.object schema) (.map m) (.map n) := by
  refine ⟨fun h => ?_, .named ht hfind⟩
  cases h with
  | same hsame => exact .same hsame
  | array harray => simp [ht.2.1] at harray
  | map hmap => simp [ht.1] at hmap
  | named _ hfind' h =>
    cases hfind.symm.trans hfind'
    exact h

end Restored

section Comes

variable (b : Builder)

/-- What creation makes of the time stamp in the place of a stored value is that value. -/
def Stamps (field : Field) (ts : Int) (x : Value) : Prop :=
  ∀ y, b.convert 1 field.type (.int ts) .Create = .ok y →
    Recovers b field x (defaulted .Create field (if y = .nil then none else some y))

/-- What creation makes of a time stamp, by the type of the field. A field of an object does not
take one. -/
def stampAs (t : String) (ts : Int) : Option Value :=
  if IsMapType t then some .nilMap
  else if IsArrayType t then some .nilArr
  else if IsReferenceType t then (b.convertReferenceType t (.int ts)).toOption.map .str
  else (ConvertSimple b.env t (.int ts) .Create).toOption

theorem stamps_iff {field : Field} {ts : Int} : Stamps b field ts x ↔ ∀ y ∈ stampAs b field.type ts,
      Recovers b field x (defaulted .Create field (if y = .nil then none else some y)) := by
  have hiff : ∀ y, b.convert 1 field.type (.int ts) .Create = .ok y
      ↔ stampAs b field.type ts = some y := by
    intro y
    simp only [Builder.convert, Builder.convertWith, reduceCtorEq, if_false, stampAs]
    split_ifs
    · simp [Builder.convertMap, Builder.ofMap, Except.map]
    · simp [Builder.convertArray, Builder.ofSlice, Except.map]
    · cases b.convertReferenceType field.type (.int ts) <;> simp [Except.map, Except.toOption]
    · split
      · rename_i hsimple
        rw [hsimple]
        unfold Builder.convertType
        split <;> simp [Except.toOption]
      · cases ConvertSimple b.env field.type (.int ts) .Create <;>
          simp [ofErr, Except.mapError, Except.toOption]
  simp only [Stamps, hiff, Option.mem_def]

/-- The value comes back: a scalar has the form in which it is written. For a field of an object, if
it is not exported the default, or nothing, has to do for the stored value; if it is, the value
comes back, or a time stamp that is exported in its place does for it. -/
inductive Comes : Place → Value → Prop where
  | scalar {t : String} {x : Value} : IsScalar t → written b .Create t x = x → Comes (.type t) x
  | array {t : String} {x : Value} {xs : List Value} : IsArrayType t = true →
    elementsOf x = some xs → (∀ u ∈ xs, Comes (.type (SubType t)) u) → Comes (.type t) x
  | map {t : String} {x : Value} {m : Doc} : IsMapType t = true → entriesOf x = some m →
    (∀ e ∈ m, Comes (.type (SubType t)) e.2) → Comes (.type t) x
  | named {t : String} {schema : Schema} {m : Doc} : IsNamed t → b.schema t = some schema →
    Comes (.object schema) (.map m) → Comes (.type t) (.map m)
  | object {schema : Schema} {m : Doc} :
    (∀ e ∈ m, ∀ field, schema.resourceFields.get e.1 = some field →
      Unexported b field (source b schema m e.1 field) →
      Recovers b field e.2 (defaulted .Create field none)) →
    (∀ e ∈ m, ∀ field x, schema.resourceFields.get e.1 = some field →
      source b schema m e.1 field = .own x → ¬ Unexported b field (.own x) →
      Comes (.type field.type) x) →
    (∀ e ∈ m, ∀ field ts, schema.resourceFields.get e.1 = some field →
      source b schema m e.1 field = .stamp ts → ¬ Unexported b field (.stamp ts) →
      Stamps b field ts e.2) →
    (∀ e ∈ m, ∀ field, schema.resourceFields.get e.1 = some field →
      source b schema m e.1 field = .unset → Unexported b field .unset) →
    Comes (.object schema) (.map m)

/-- A stored value comes back as the value of its field. -/
def ComesBack (field : Field) (x : Value) (src : Source) : Prop :=
  (Unexported b field src → Recovers b field x (defaulted .Create field none))
    ∧ (¬ Unexported b field src → match src with
      | .own x => Comes b (.type field.type) x
      | .stamp ts => Stamps b field ts x
      | .unset => False)

variable {b} {t : String} {x : Value}

theorem comes_object_iff {schema : Schema} {m : Doc} :
    Comes b (.object schema) (.map m) ↔ ∀ e ∈ m, ∀ field,
      schema.resourceFields.get e.1 = some field →
      ComesBack b field e.2 (source b schema m e.1 field) := by
  constructor
  · intro h e he field hfield
    cases h with
    | object hleft hown hstamp hunset =>
      refine ⟨hleft e he field hfield, fun hexported => ?_⟩
      rcases hsource : source b schema m e.1 field with x | ts | _
      · exact hown e he field x hfield hsource (hsource ▸ hexported)
      · exact hstamp e he field ts hfield hsource (hsource ▸ hexported)
      · exact absurd (hunset e he field hfield hsource) (hsource ▸ hexported)
  · intro h
    refine .object (fun e he field hfield => (h e he field hfield).1) ?_ ?_ ?_
    · intro e he field x hfield hsource hexported
      have hk := (h e he field hfield).2
      rw [hsource] at hk
      exact hk hexported
    · intro e he field ts hfield hsource hexported
      have hk := (h e he field hfield).2
      rw [hsource] at hk
      exact hk hexported
    · intro e he field hfield hsource
      by_contra hexported
      have hk := (h e he field hfield).2
      rw [hsource] at hk
      exact hk hexported

theorem comes_scalar_iff (ht : IsScalar t) : Comes b (.type t) x ↔ written b .Create t x = x := by
  refine ⟨fun h => ?_, .scalar ht⟩
  cases h with
  | scalar _ h => exact h
  | array harray => exact absurd ht (not_scalar_of_array harray)
  | map hmap => exact absurd ht (not_scalar_of_map hmap)
  | named hn => exact absurd ht (not_scalar_of_named hn)

theorem comes_array_iff (ht : IsArrayType t = true) {xs : List Value} (hx : elementsOf x = some xs) :
    Comes b (.type t) x ↔ ∀ u ∈ xs, Comes b (.type (SubType t)) u := by
  refine ⟨fun h => ?_, .array ht hx⟩
  cases h with
  | scalar hscalar => exact absurd hscalar (not_scalar_of_array ht)
  | array _ hx' h =>
    cases hx.symm.trans hx'
    exact h
  | map hmap => simp [(kinds_of_map hmap).1] at ht
  | named hn => simp [hn.2.1] at ht

theorem comes_map_iff (ht : IsMapType t = true) {m : Doc} (hx : entriesOf x = some m) :
    Comes b (.type t) x ↔ ∀ e ∈ m, Comes b (.type (SubType t)) e.2 := by
  refine ⟨fun h => ?_, .map ht hx⟩
  cases h with
  | scalar hscalar => exact absurd hscalar (not_scalar_of_map ht)
  | array harray => simp [(kinds_of_map ht).1] at harray
  | map _ hx' h =>
    cases hx.symm.trans hx'
    exact h
  | named hn => simp [hn.1] at ht

theorem comes_named_iff (ht : IsNamed t) {schema : Schema} (hfind : b.schema t = some schema)
    {m : Doc} : Comes b (.type t) (.map m) ↔ Comes b (.object schema) (.map m) := by
  refine ⟨fun h => ?_, .named ht hfind⟩
  cases h with
  | scalar hscalar => exact absurd hscalar (not_scalar_of_named ht)
  | array harray => simp [ht.2.1] at harray
  | map hmap => simp [ht.1] at hmap
  | named _ hfind' h =>
    cases hfind.symm.trans hfind'
    exact h

end Comes

section Fields

variable {b : Builder} {listing creating : Conversion} {t : String}
  {field : Field} {x w y : Value} {schema : Schema}

/-- What is known of a value that was listed as `w`, from which `y` was created. -/
structure Recreates (b : Builder) (t : String) (x w y : Value) : Prop where
  iff : Restored b (.type t) x y ↔ Comes b (.type t) x
  nil : y = .nil → w = .nil
  text : y = .str "" → IsScalar t ∧ w = written b .List t x ∧ y = written b .Create t x

/-- The level below. -/
def RecreatesBelow (b : Builder) (listing creating : Conversion) :
    Prop :=
  ∀ t x w y, Tidy x → WellTyped b (.type t) x → listing t x .List = .ok w →
    creating t w .Create = .ok y → Recreates b t x w y

/-- If the created text is empty, but what was exported is not, it was a text of white space, and it
does not come back. -/
theorem Recreates.blank (h : Recreates b t x w y) (hy : y = .str "") (hw : IsAPIObjectEmpty w = false)
    {d : Value} (hd : equal d w ≠ .ok true) :
    ¬ Restored b (.type t) x d ∧ ¬ Comes b (.type t) x := by
  obtain ⟨hscalar, hlisted, hcreated⟩ := h.text hy
  rw [comes_scalar_iff hscalar, ← hcreated, hy]
  cases x with
  | str s =>
    by_cases hstring : t = "string"
    · have hws : w = .str s := by simpa [written, writtenText, hstring, Operation.IsList] using hlisted
      rw [restored_str_iff hscalar]
      refine ⟨?_, ?_⟩
      · rintro rfl
        exact hd (by simp [hws, equal.eq_def])
      · intro h
        rw [hws, ← h] at hw
        cases hw
    · have hwy : w = y := by
        rw [hlisted, hcreated]
        exact writtenText_list hstring
      rw [hwy, hy] at hw
      cases hw
  | _ => simp [hy, written] at hcreated

theorem defaulted_none : defaulted .Create field none
    = if field.default = .nil then none else some field.default := by
  unfold defaulted
  by_cases h : field.default = .nil
  · rw [if_pos h, if_neg fun h' => h'.2.2 h]
  · rw [if_neg h, if_pos ⟨rfl, .inl rfl, h⟩]

/-- What was exported of a field comes back if and only if the value does. -/
theorem recovers_own_iff (h : Recreates b field.type x w y) (hw : IsAPIObjectEmpty w = false)
    (hd : equal field.default w ≠ .ok true) :
    Recovers b field x (defaulted .Create field (some y)) ↔ Comes b (.type field.type) x := by
  by_cases hy : y = .str "" ∧ field.default ≠ .nil
  · obtain ⟨hrestored, hcomes⟩ := h.blank hy.1 hw hd
    have hdefaulted : defaulted .Create field (some y) = some field.default :=
      if_pos ⟨rfl, .inr (by rw [hy.1]), hy.2⟩
    rw [hdefaulted]
    exact ⟨fun hr => absurd hr hrestored, fun hc => absurd hc hcomes⟩
  · have hdefaulted : defaulted .Create field (some y) = some y := by
      refine if_neg fun h => hy ⟨?_, h.2.2⟩
      rcases h.2.1 with h | h
      · cases h
      · exact Option.some.inj h
    rw [hdefaulted]
    exact h.iff

/-- What creation does to a value that is there. -/
theorem copyValue_create {k : String} {p : Value} {o : Option Value} (hp : p ≠ .nil)
    (h : b.copyValue creating .Create k field p = .ok o) :
    ∃ y, creating field.type p .Create = .ok y ∧ o = if y = .nil then none else some y := by
  obtain ⟨y, hy, rfl, -⟩ := copyValue_ok h
  refine ⟨y, hy, ?_⟩
  by_cases hnil : y = .nil <;> simp [hnil, hp]

/-- A time stamp is converted as it is at the top, and a date is a text without space around it, or
null. -/
structure Creates (b : Builder) (creating : Conversion) : Prop where
  int : ∀ t n y, creating t (.int n) .Create = .ok y → b.convert 1 t (.int n) .Create = .ok y
  date : ∀ v y, creating "date" v .Create = .ok y →
    y = .nil ∨ ∃ s, y = .str s ∧ trimSpace s = s ∧ s ≠ ""

/-- Only a date without text is listed as null. -/
theorem blank_of_written (hx : x ≠ .nil) (h : written b .List t x = .nil) :
    t = "date" ∧ ∃ s, x = .str s ∧ trimSpace s = "" := by
  cases x with
  | str s =>
    simp only [written, writtenText] at h
    split_ifs at h with hstring hblank hint
    · exact ⟨hblank.1, s, rfl, hblank.2⟩
    · rcases hparse : b.env.parseInt (trimSpace s) with e | n <;> simp [hparse] at h
  | nil => exact absurd rfl hx
  | _ => cases h

theorem source_unset {k : String} : ∀ {l : Doc} {src : Source},
    l.foldl (sourceStep b schema k field) src = .unset →
      src = .unset ∧ ∀ x, (k, x) ∈ l → ¬ IsListed b field x
  | [], _, h => ⟨h, by simp⟩
  | e :: l, src, hl => by
    obtain ⟨h, hrest⟩ := source_unset (l := l) hl
    unfold sourceStep at h
    have hhere : src = .unset ∧ (e.1 = k → ¬ IsListed b field e.2) := by
      split_ifs at h with hk hlisted hts
      · exact ⟨h, fun _ => hlisted⟩
      · cases hstamp : stampOf b schema e with
        | none =>
          rw [hstamp] at h
          exact ⟨h, fun h' => absurd h' hk⟩
        | some ts =>
          rw [hstamp] at h
          cases h
      · exact ⟨h, fun h' => absurd h' hk⟩
    refine ⟨hhere.1, fun x hx => ?_⟩
    rcases List.mem_cons.1 hx with heq | hx
    · subst heq
      exact hhere.2 rfl
    · exact hrest x hx

/-- The default does not come back in the place of a date without text, unless it is that text. -/
theorem not_recovers_blank {s : String} (hdate : field.type = "date") (hs : trimSpace s = "")
    (hd : equal field.default field.default ≠ .ok true)
    (hy : y = .nil ∨ ∃ s, y = .str s ∧ trimSpace s = s ∧ s ≠ "") :
    ¬ Recovers b field (.str s) (defaulted .Create field (if y = .nil then none else some y)) := by
  have hscalar : IsScalar field.type := .inl (by rw [hdate]; decide)
  have hdefault : field.default ≠ .nil := fun h => hd (by rw [h]; rfl)
  rcases hy with rfl | ⟨v, rfl, htrim, hv⟩
  · rw [if_pos rfl, defaulted_none, if_neg hdefault]
    intro h
    rw [(restored_str_iff hscalar).1 h] at hd
    exact hd (by simp [equal.eq_def])
  · rw [if_neg (by simp), defaulted_of_ne (by simpa using hv)]
    intro h
    cases (restored_str_iff hscalar).1 h
    exact hv (htrim.symm.trans hs)

theorem field_recovers_iff (hnil : ConvertsNil listing) (hL : ListsBelow b listing)
    (hR : RecreatesBelow b listing creating) (hC : Creates b creating) {m e : Doc}
    (hkeyed : Keyed m) (hm : Stored b schema m)
    (he : b.forExport.constructWith listing schema m .List = .ok e) {k : String} {u : Value}
    (hfield : schema.resourceFields.get k = some field) (hu : Assoc.get k m = some u)
    {o : Option Value} (ho : given (copied b creating schema .Create) k (Assoc.get k e) = .ok o) :
    Recovers b field u (defaulted .Create field o)
      ↔ ComesBack b field u (source b schema m k field) := by
  have hexports := export_get hnil hL hm he hfield
  by_cases hun : Unexported b field (source b schema m k field)
  · rw [hexports.unexported hun] at ho
    cases ho
    exact ⟨fun h => ⟨fun _ => h, fun hno => absurd hun hno⟩, fun h => h.1 hun⟩
  · obtain ⟨p, hp, hcreate, hempty, hdefault, hoffers⟩ := hexports.exported hun
    have hpnil : p ≠ .nil := by
      rintro rfl
      cases hempty
    rw [hp] at ho
    simp only [given, copied, hfield, fieldMatchesOp, hcreate, Bool.not_true, Bool.false_eq_true,
      if_false] at ho
    obtain ⟨y, hy, rfl⟩ := copyValue_create hpnil ho
    refine Iff.trans ?_ (show _ ↔ _ from ⟨fun h => ⟨fun h' => absurd h' hun, fun _ => h⟩,
      fun h => h.2 hun⟩)
    rcases hsource : source b schema m k field with x | ts | _ <;> rw [hsource] at hoffers
    · obtain ⟨htidy, htyped⟩ := hm.of_source hfield hsource
      have hmem : (k, x) ∈ m := (source_own hsource).resolve_left (by simp)
      cases hu.symm.trans (Assoc.get_of_mem_nodup hkeyed hmem)
      have hunil : u ≠ .nil := by
        rintro rfl
        exact hpnil (hnil _ _ _ hoffers)
      have hrecreates := hR _ _ _ _ htidy (htyped.2 hunil) hoffers hy
      rw [if_neg fun h => hpnil (hrecreates.nil h)]
      exact recovers_own_iff hrecreates hempty hdefault
    · obtain rfl : p = .int ts := hoffers
      have hone := hC.int _ _ _ hy
      constructor
      · intro h y' hy'
        cases hone.symm.trans hy'
        exact h
      · exact fun h => h y hone
    · -- the default was filled in, which is not equal to itself
      obtain ⟨rfl, hvisible⟩ := hoffers
      obtain ⟨-, hunlisted⟩ := source_unset hsource
      have hno := hunlisted u (Assoc.mem_of_get hu)
      simp only [IsListed, hvisible, true_and, not_or, ne_eq, not_not] at hno
      obtain ⟨hdate, s, rfl, hs⟩ := blank_of_written hno.1 hno.2
      rw [hdate] at hy
      exact iff_false_intro (not_recovers_blank hdate hs hdefault (hC.date _ _ hy))

/-- A created object restores the stored one if and only if every field comes back. -/
theorem constructWith_recreates (hnil : ConvertsNil listing) (hL : ListsBelow b listing)
    (hR : RecreatesBelow b listing creating) (hC : Creates b creating)
    {m e r : Doc} (htidy : Tidy (.map m)) (htyped : WellTyped b (.object schema) (.map m))
    (he : b.forExport.constructWith listing schema m .List = .ok e)
    (hr : b.constructWith creating schema e .Create = .ok r) :
    Restored b (.object schema) (.map m) (.map r) ↔ Comes b (.object schema) (.map m) := by
  have hkeyed := htidy.of_map.1
  have hm := htyped.stored htidy
  have hs : Assoc.Sorted e := by
    obtain ⟨r₁, r₂, hcopy, hfill, hdrop⟩ := export_loops he
    exact (drop_get (get_filled (sorted_copyInputs .nil hcopy) hfill).1 hdrop).1
  obtain ⟨-, hget⟩ := constructWith_write rfl hs.nodup hr
  rw [restored_object_iff, comes_object_iff]
  have hiff : ∀ k field u, schema.resourceFields.get k = some field → Assoc.get k m = some u →
      (Recovers b field u (Assoc.get k r) ↔ ComesBack b field u (source b schema m k field)) := by
    intro k field u hfield hu
    obtain ⟨o, ho, hk⟩ := hget k
    rw [hk, hfield, Option.elim_some]
    exact field_recovers_iff hnil hL hR hC hkeyed hm he hfield hu ho
  constructor
  · intro h x hx field hfield
    have hu : Assoc.get x.1 m = some x.2 := Assoc.get_of_mem_nodup hkeyed hx
    exact (hiff _ _ _ hfield hu).1 (h _ _ _ hfield hu)
  · intro h k field u hfield hu
    exact (hiff _ _ _ hfield hu).2 (h (k, u) (Assoc.mem_of_get hu) field hfield)

end Fields

section Knot

variable {b : Builder}

theorem convertWith_int {n : Int} {op : Operation} (convert convert' : Conversion) :
    b.convertWith convert t (.int n) op = b.convertWith convert' t (.int n) op := by
  simp only [Builder.convertWith, Builder.convertMap, Builder.convertArray, Builder.convertType]

theorem creates : ∀ fuel : ℕ, Creates b (b.convert fuel)
  | 0 => ⟨fun _ _ _ h => (by cases h), fun _ _ h => (by cases h)⟩
  | fuel + 1 => by
    refine ⟨fun t n y h => ?_, fun v y h => ?_⟩
    · exact (convertWith_int _ _).trans h
    · simp only [Builder.convert] at h
      by_cases hv : v = .nil
      · subst hv
        cases h
        exact .inl rfl
      · have hsimple := convertWith_simple hv (by decide) h
        rw [ConvertSimple, if_neg hv] at hsimple
        dsimp only at hsimple
        split at hsimple
        · cases hsimple
          exact .inl rfl
        · rename_i htext
          cases hsimple
          exact .inr ⟨_, rfl, trimSpace_idem _, htext⟩

variable {t : String} {x w y : Value}

theorem Recreates.of_scalar (hscalar : IsScalar t) (hw : w = written b .List t x)
    (hy : y = written b .Create t x) : Recreates b t x w y where
  iff := by
    rw [comes_scalar_iff hscalar]
    cases x with
    | str s => rw [restored_str_iff hscalar, hy]
    | _ => exact ⟨fun _ => rfl, fun _ => .same (.inl hy.symm)⟩
  nil hnil := by
    cases x with
    | str s =>
      by_cases hstring : t = "string"
      · rw [hstring] at hy
        simp [hy, written, writtenText, Operation.IsList] at hnil
      · rw [hw, ← hnil, hy]
        exact writtenText_list hstring
    | _ => exact hw.trans (hy.symm.trans hnil)
  text _ := ⟨hscalar, hw, hy⟩

theorem Recreates.of_shaped (hy : Shaped y)
    (h : Restored b (.type t) x y ↔ Comes b (.type t) x) : Recreates b t x w y where
  iff := h
  nil hnil := absurd hnil hy.ne_nil
  text htext := absurd htext (hy.ne_str "")

theorem elementsOf_ofSlice (ws : List Value) : elementsOf (Builder.ofSlice ws) = some ws := by
  unfold Builder.ofSlice
  split
  · rename_i hnil
    rw [hnil]
    rfl
  · rfl

theorem convertWith_ofSlice {convert : Conversion} {op : Operation}
    (ht : IsArrayType t = true) (ws : List Value) : b.convertWith convert t (Builder.ofSlice ws) op
      = (Builder.convertArray convert t (.arr ws) op).map Builder.ofSlice := by
  unfold Builder.ofSlice
  split
  · rename_i hnil
    rw [hnil, convertWith_nilArr ht]
    rfl
  · exact convertWith_array ht ws

/-- The entries of a map come back one by one. -/
theorem restored_map_recreated {listing creating : Conversion}
    (hR : RecreatesBelow b listing creating) (ht : IsMapType t = true) {m n n' : Doc}
    (hkeyed : Keyed m) (htidy : ∀ e ∈ m, Tidy e.2)
    (hxs : ∀ e ∈ m, WellTyped b (.type (SubType t)) e.2)
    (hget : ∀ k, (Assoc.get k m = none ∧ Assoc.get k n = none) ∨ ∃ u w, Assoc.get k m = some u
      ∧ Assoc.get k n = some w ∧ listing (SubType t) u .List = .ok w)
    (hget' : ∀ k, (Assoc.get k n = none ∧ Assoc.get k n' = none) ∨ ∃ w v, Assoc.get k n = some w
      ∧ Assoc.get k n' = some v ∧ creating (SubType t) w .Create = .ok v) :
    Restored b (.type t) (.map m) (.map n') ↔ Comes b (.type t) (.map m) := by
  have hkeys : ∀ k, (Assoc.get k m = none ∧ Assoc.get k n' = none) ∨ ∃ u w v,
      Assoc.get k m = some u ∧ Assoc.get k n' = some v
        ∧ listing (SubType t) u .List = .ok w ∧ creating (SubType t) w .Create = .ok v := by
    intro k
    rcases hget k with ⟨hu, hw⟩ | ⟨u, w, hu, hw, hlist⟩ <;>
      rcases hget' k with ⟨hw', hv⟩ | ⟨w', v, hw', hv, hcreate⟩ <;>
      cases hw.symm.trans hw'
    · exact .inl ⟨hu, hv⟩
    · exact .inr ⟨u, w, v, hu, hv, hlist, hcreate⟩
  have hsame : ∀ k, Assoc.get k m = none ↔ Assoc.get k n' = none := by
    intro k
    rcases hkeys k with ⟨hu, hv⟩ | ⟨_, _, _, hu, hv, -, -⟩
    · simp [hu, hv]
    · simp [hu, hv]
  rw [restored_map_iff ht rfl rfl hsame, comes_map_iff ht rfl,
    Assoc.forall_mem_iff_get (P := fun _ u => Comes b (.type (SubType t)) u) hkeyed]
  refine forall_congr' fun k => ?_
  rcases hkeys k with ⟨hu, -⟩ | ⟨u, w, v, hu, hv, hlist, hcreate⟩
  · simp [hu]
  · have hmem := Assoc.mem_of_get hu
    have hiff := (hR _ _ _ _ (htidy _ hmem) (hxs _ hmem) hlist hcreate).iff
    simp [hu, hv, hiff]

/-- What is known of every value that is exported and created again. -/
theorem recreatesBelow : ∀ fuel fuel' : ℕ,
    RecreatesBelow b (b.forExport.convert fuel) (b.convert fuel')
  | 0, _ => fun _ _ _ _ _ _ h _ => (by cases h)
  | _ + 1, 0 => fun _ _ _ _ _ _ _ h => (by cases h)
  | fuel + 1, fuel' + 1 => by
    intro t x w y htidy hx hw hy
    have hL := listsBelow (fuel + 1) t x w htidy hx hw
    have hR := recreatesBelow fuel fuel'
    simp only [Builder.convert] at hw hy
    by_cases hscalar : IsScalar t
    · rw [hL.scalar hscalar] at hy
      exact .of_scalar hscalar (hL.scalar hscalar) (convertWith_listed hx hscalar hy)
    · cases hx with
      | json | boolean | int | float | intOrString => exact absurd (.inl (by decide)) hscalar
      | text ht => exact absurd (.inl (textTypes_subset ht)) hscalar
      | reference ht _ => exact absurd (.inr ht) hscalar
      | array ht _ hxs =>
        rw [convertWith_array ht] at hw
        obtain ⟨ws, hws, rfl⟩ := map_eq_ok.1 hw
        rw [convertWith_ofSlice ht] at hy
        obtain ⟨ys, hys, rfl⟩ := map_eq_ok.1 hy
        have hall := forall₂_comp (mapM_eq_ok hws) (mapM_eq_ok hys)
        refine .of_shaped (shaped_ofSlice ys) ?_
        rw [restored_array_iff ht rfl (elementsOf_ofSlice ys) hall.length_eq, comes_array_iff ht rfl]
        refine forall_zip_iff hall fun u hu v huv => ?_
        obtain ⟨w', hw', hv⟩ := huv
        have htidy : Tidy u := by
          cases htidy with
          | arr h => exact h u hu
          | leaf harr _ => exact absurd rfl (harr _)
        exact (hR _ _ _ _ htidy (hxs u hu) hw' hv).iff
      | nilArr ht =>
        rw [convertWith_nilArr ht] at hw
        cases hw
        rw [convertWith_nilArr ht] at hy
        cases hy
        refine .of_shaped trivial ?_
        rw [comes_array_iff ht rfl]
        exact ⟨fun _ => by simp, fun _ => .same (.inl rfl)⟩
      | map ht hxs =>
        obtain ⟨hkeyed, htidy⟩ := htidy.of_map
        rw [convertWith_map ht] at hw
        obtain ⟨_, hn, rfl⟩ := map_eq_ok.1 hw
        obtain ⟨n, rfl, hs, hget⟩ := convertMap_eq_ok hkeyed hn
        rw [Builder.ofMap, convertWith_map ht] at hy
        obtain ⟨_, hn', rfl⟩ := map_eq_ok.1 hy
        obtain ⟨n', rfl, -, hget'⟩ := convertMap_eq_ok hs.nodup hn'
        exact .of_shaped trivial (restored_map_recreated hR ht hkeyed htidy hxs hget hget')
      | nilMap ht =>
        rw [convertWith_nilMap ht] at hw
        cases hw
        rw [convertWith_map ht] at hy
        cases hy
        refine .of_shaped trivial ?_
        rw [restored_map_iff ht rfl rfl fun _ => Iff.rfl, comes_map_iff ht rfl]
        simp
      | named ht hfind hobj =>
        rw [convertWith_named (b := b.forExport) ht hfind] at hw
        obtain ⟨e, he, rfl⟩ := map_eq_ok.1 hw
        rw [convertWith_named ht hfind] at hy
        obtain ⟨r, hr, rfl⟩ := map_eq_ok.1 hy
        refine .of_shaped trivial ?_
        rw [restored_named_iff ht hfind, comes_named_iff ht hfind]
        exact constructWith_recreates (convertsNil fuel) (listsBelow fuel) hR (creates fuel') htidy
          hobj he hr

end Knot

/-- A stored object that was exported is restored by creating it again if and only if every field
comes back, at every level. -/
theorem Builder.recreate_iff {b : Builder} {schema : Schema} {stored e r : Doc} {fuel fuel' : ℕ}
    (htidy : Tidy (.map stored)) (htyped : WellTyped b (.object schema) (.map stored))
    (he : b.forExport.Construct fuel schema stored .List = .ok e)
    (hr : b.Construct fuel' schema e .Create = .ok r) :
    Restored b (.object schema) (.map stored) (.map r)
      ↔ Comes b (.object schema) (.map stored) :=
  constructWith_recreates (convertsNil fuel) (listsBelow fuel) (recreatesBelow fuel fuel')
    (creates fuel') htidy htyped he hr

section Job

def enabledField : Field := { type := "boolean", create := true, default := .bool true }

def jobNameField : Field := { type := "string", create := true }

/-- A job that is enabled unless this is changed. -/
def jobSchema : Schema := plainSchema "job" [("enabled", enabledField), ("name", jobNameField)]

def storedJob (enabled : Bool) : Doc := [("enabled", .bool enabled), ("name", .str "a b")]

theorem jobSchema_get : jobSchema.resourceFields.get "enabled" = some enabledField
    ∧ jobSchema.resourceFields.get "name" = some jobNameField := by
  decide +kernel

theorem mem_storedJob {enabled : Bool} {e : String × Value} {field : Field}
    (he : e ∈ storedJob enabled) (hfield : jobSchema.resourceFields.get e.1 = some field) :
    (e = ("enabled", .bool enabled) ∧ field = enabledField)
      ∨ e = ("name", .str "a b") ∧ field = jobNameField := by
  have hmem : e = ("enabled", .bool enabled) ∨ e = ("name", .str "a b") := by
    simpa [storedJob] using he
  rcases hmem with rfl | rfl
  · exact .inl ⟨rfl, Option.some.inj (hfield.symm.trans jobSchema_get.1)⟩
  · exact .inr ⟨rfl, Option.some.inj (hfield.symm.trans jobSchema_get.2)⟩

theorem storedJob_tidy (enabled : Bool) : Tidy (.map (storedJob enabled)) := by
  refine .map ?_ ?_
  · show ["enabled", "name"].Nodup
    decide
  · simp only [storedJob, List.forall_mem_cons]
    exact ⟨.leaf (by simp) (by simp), .leaf (by simp) (by simp), by simp⟩

theorem storedJob_typed (enabled : Bool) :
    WellTyped (plainBuilder []) (.object jobSchema) (.map (storedJob enabled)) := by
  refine .object ?_ (fun e he field hfield hnil => ?_) fun e he field hfield _ => ?_
  · simp only [storedJob, List.forall_mem_cons, jobSchema_get]
    simp
  · rcases mem_storedJob he hfield with ⟨rfl, -⟩ | ⟨rfl, -⟩ <;> cases hnil
  · rcases mem_storedJob he hfield with ⟨rfl, rfl⟩ | ⟨rfl, rfl⟩
    · exact .boolean
    · exact .text (by decide)

theorem storedJob_exported (enabled : Bool) :
    (plainBuilder []).forExport.Construct 3 jobSchema (storedJob enabled) .List
      = .ok [("name", .str "a b")] := by
  cases enabled <;> decide +kernel

theorem job_created : (plainBuilder []).Construct 3 jobSchema [("name", .str "a b")] .Create
    = .ok (storedJob true) := by
  decide +kernel

/-- A job that is not enabled is exported without this, and is enabled when it is created again. -/
theorem disabled_job_enabled :
    (∀ k field, jobSchema.resourceFields.get k = some field → field.create = true)
      ∧ Tidy (.map (storedJob false))
      ∧ WellTyped (plainBuilder []) (.object jobSchema) (.map (storedJob false))
      ∧ (plainBuilder []).forExport.Construct 3 jobSchema (storedJob false) .List
        = .ok [("name", .str "a b")]
      ∧ (plainBuilder []).Construct 3 jobSchema [("name", .str "a b")] .Create = .ok (storedJob true)
      ∧ ¬ Restored (plainBuilder []) (.object jobSchema) (.map (storedJob false))
        (.map (storedJob true)) := by
  have hcreatable : ∀ f ∈ jobSchema.resourceFields.entries, f.2.create = true := by decide +kernel
  refine ⟨fun k field h => hcreatable (k, field) (SortedMap.mem_entries.2 h), storedJob_tidy _,
    storedJob_typed _, storedJob_exported _, job_created, fun h => ?_⟩
  have henabled := restored_object_iff.1 h "enabled" _ (.bool false) jobSchema_get.1 rfl
  exact absurd ((restored_scalar_iff (.inl (by decide))).1 henabled) (by decide)

/-- One that is enabled is restored. -/
theorem enabled_job_restored :
    Restored (plainBuilder []) (.object jobSchema) (.map (storedJob true))
      (.map (storedJob true)) := by
  refine (Builder.recreate_iff (storedJob_tidy true) (storedJob_typed true) (storedJob_exported true)
    job_created).2 (comes_object_iff.2 fun e he field hfield => ?_)
  rcases mem_storedJob he hfield with ⟨rfl, rfl⟩ | ⟨rfl, rfl⟩
  · have hsource : source (plainBuilder []) jobSchema (storedJob true) "enabled" enabledField
        = .own (.bool true) := by decide +kernel
    rw [hsource]
    exact ⟨fun _ => .same (.inl rfl), fun h => absurd (.inr (.inl (by decide))) h⟩
  · have hsource : source (plainBuilder []) jobSchema (storedJob true) "name" jobNameField
        = .own (.str "a b") := by decide +kernel
    have hform : written (plainBuilder []) .Create "string" (.str "a b") = .str "a b" := by
      decide +kernel
    rw [hsource]
    refine ⟨fun h => ?_, fun _ => .scalar (.inl (by decide)) hform⟩
    rcases h with h | h | h
    · cases h
    · exact absurd h (by decide +kernel)
    · exact absurd ((hollow_scalar_iff (.inl (by decide))).1 h) (by decide +kernel)

end Job

end Norman.Parse
