import Mathlib.Data.List.DropRight
import Norman.Proofs.ReadBack

/-!
# What is exported of an object

An object is exported by listing it and dropping what need not be there: what cannot be set, what is
the default, and what is null or empty. For every field it is said here where its value comes from
when the object is listed (`source`), and whether it is dropped then (`Unexported`), in terms of the
stored object: at every level, since an object of which nothing is left is empty itself.
-/

namespace Norman.Convert

theorem trimSpace_idem (s : String) : trimSpace (trimSpace s) = trimSpace s := by
  have hright : ∀ l : List Char, (l.reverse.dropWhile isSpace).reverse = l.rdropWhile isSpace :=
    fun _ => rfl
  unfold trimSpace
  rw [String.toList_ofList, hright, hright]
  -- what is left does not begin with a space, being a part of the front of what does not
  have hfront : ((s.toList.dropWhile isSpace).rdropWhile isSpace).dropWhile isSpace
      = (s.toList.dropWhile isSpace).rdropWhile isSpace := by
    refine List.dropWhile_eq_self_iff.2 fun hpos => ?_
    have hpre := List.rdropWhile_prefix isSpace (s.toList.dropWhile isSpace)
    rw [hpre.getElem hpos]
    exact List.dropWhile_get_zero_not isSpace s.toList (hpos.trans_le hpre.length_le)
  rw [hfront, List.rdropWhile_idempotent]

end Norman.Convert

namespace Norman.Parse

open Norman.Types Norman.Convert Gather

/-- The builder of a request with the option `export`. -/
def Builder.forExport (b : Builder) : Builder := { b with edit := false, exporting := true }

variable (b : Builder)

section Scalars

/-- A simple type, or a reference. -/
def IsScalar (t : String) : Prop := t ∈ simpleTypes ∨ IsReferenceType t = true

/-- A well typed value of a scalar type as it is converted. -/
def written (op : Operation) (t : String) : Value → Value
  | .str s => writtenText b op t s
  | v => v

end Scalars

section Source

/-- Where the listed value of a field comes from: from the stored value, from the time stamp of a
date, or there is none, and a default may take its place. -/
inductive Source where
  | own (x : Value)
  | stamp (ts : Int)
  | unset
  deriving DecidableEq

/-- The time stamp that is added for an entry. -/
def stampOf (schema : Schema) (e : String × Value) : Option Int :=
  match schema.resourceFields.get e.1 with
  | none => none
  | some field =>
    if field.type = "date" ∧ fieldMatchesOp field .List = true then
      (ToTimestamp b.env.toEnv e.2).toOption
    else none

/-- The value is listed: the field is visible, and the value is no date without text. -/
def IsListed (field : Field) (x : Value) : Prop :=
  fieldMatchesOp field .List = true ∧ (x = .nil ∨ written b .List field.type x ≠ .nil)

instance (field : Field) (x : Value) : Decidable (IsListed b field x) :=
  inferInstanceAs (Decidable (_ ∧ _))

/-- What an entry of the stored object does to the listed value of the field. -/
def sourceStep (schema : Schema) (k : String) (field : Field) (source : Source)
    (e : String × Value) : Source :=
  if e.1 = k then if IsListed b field e.2 then .own e.2 else source
  else if e.1 ++ "TS" = k then (stampOf b schema e).elim source .stamp
  else source

/-- The entries are taken in their order, and the last one counts. -/
def source (schema : Schema) (m : Doc) (k : String) (field : Field) : Source :=
  m.foldl (sourceStep b schema k field) .unset

end Source

section Hollow

/-- Nothing of the value is exported: it is null or empty when it is listed, or an object of which
every field is dropped. -/
inductive Hollow : Place → Value → Prop where
  | nil {t : String} : Hollow (.type t) .nil
  | scalar {t : String} {x : Value} : IsScalar t → IsAPIObjectEmpty (written b .List t x) = true →
    Hollow (.type t) x
  | collection {t : String} {x : Value} : IsArrayType t = true ∨ IsMapType t = true →
    IsAPIObjectEmpty x = true → Hollow (.type t) x
  | named {t : String} {schema : Schema} {m : Doc} : IsNamed t → b.schema t = some schema →
    Hollow (.object schema) (.map m) → Hollow (.type t) (.map m)
  | object {schema : Schema} {m : Doc} :
    (∀ k field x, schema.resourceFields.get k = some field → field.create = true →
      source b schema m k field = .own x →
      equal field.default (written b .List field.type x) ≠ .ok true →
      Hollow (.type field.type) x) →
    (∀ k field ts, schema.resourceFields.get k = some field → field.create = true →
      source b schema m k field = .stamp ts → equal field.default (.int ts) = .ok true) →
    (∀ k field, schema.resourceFields.get k = some field → field.create = true →
      source b schema m k field = .unset → fieldMatchesOp field .List = true →
      IsReferenceType field.type = false → equal field.default field.default = .ok true) →
    Hollow (.object schema) (.map m)

/-- The field is not exported: it cannot be set, its listed value is the default, or nothing of it
is exported. -/
def Unexported (field : Field) : Source → Prop
  | .own x => field.create = false
      ∨ equal field.default (written b .List field.type x) = .ok true
      ∨ Hollow b (.type field.type) x
  | .stamp ts => field.create = false ∨ equal field.default (.int ts) = .ok true
  | .unset => field.create = false ∨ fieldMatchesOp field .List = false
      ∨ IsReferenceType field.type = true ∨ equal field.default field.default = .ok true

variable {b}

theorem hollow_object_iff {schema : Schema} {m : Doc} :
    Hollow b (.object schema) (.map m) ↔ ∀ k field, schema.resourceFields.get k = some field →
      Unexported b field (source b schema m k field) := by
  constructor
  · intro h k field hfield
    by_cases hcreate : field.create = true
    · cases h with
      | object hown hstamp hunset =>
        rcases hsource : source b schema m k field with x | ts | _
        · by_cases hequal : equal field.default (written b .List field.type x) = .ok true
          · exact .inr (.inl hequal)
          · exact .inr (.inr (hown k field x hfield hcreate hsource hequal))
        · exact .inr (hstamp k field ts hfield hcreate hsource)
        · by_cases hvisible : fieldMatchesOp field .List = true
          · by_cases href : IsReferenceType field.type = true
            · exact .inr (.inr (.inl href))
            · exact .inr (.inr (.inr (hunset k field hfield hcreate hsource hvisible
                (by simpa using href))))
          · exact .inr (.inl (by simpa using hvisible))
    · have hcreate : field.create = false := by simpa using hcreate
      rcases source b schema m k field with x | ts | _ <;> exact .inl hcreate
  · intro h
    refine .object ?_ ?_ ?_
    · intro k field x hfield hcreate hsource hequal
      have hk := h k field hfield
      rw [hsource] at hk
      simpa [Unexported, hcreate, hequal] using hk
    · intro k field ts hfield hcreate hsource
      have hk := h k field hfield
      rw [hsource] at hk
      simpa [Unexported, hcreate] using hk
    · intro k field hfield hcreate hsource hvisible href
      have hk := h k field hfield
      rw [hsource] at hk
      simpa [Unexported, hcreate, hvisible, href] using hk

end Hollow

variable {b}

section Scalars

variable {op : Operation} {convert : Conversion} {t : String}
  {w x : Value} {s : String}

theorem not_scalar_of_array (ht : IsArrayType t = true) : ¬ IsScalar t := by
  obtain ⟨-, href, hsimple⟩ := kinds_of_array ht
  simp [IsScalar, href, hsimple]

theorem not_scalar_of_map (ht : IsMapType t = true) : ¬ IsScalar t := by
  obtain ⟨-, href, hsimple⟩ := kinds_of_map ht
  simp [IsScalar, href, hsimple]

theorem not_scalar_of_named (ht : IsNamed t) : ¬ IsScalar t := by
  simp [IsScalar, ht.2.2.1, ht.2.2.2]

theorem writtenText_reference (ht : IsReferenceType t = true) :
    writtenText b op t s = .str (trimSpace s) := by
  have hother : t ∉ ["json", "string", "date", "intOrString"] := by
    intro hmem
    have hno : ∀ t ∈ ["json", "string", "date", "intOrString"], IsReferenceType t = false := by
      decide
    rw [hno t hmem] at ht
    cases ht
  simp only [List.mem_cons, List.not_mem_nil, or_false, not_or] at hother
  simp [writtenText, hother]

theorem written_json (x : Value) : written b op "json" x = x := by
  cases x <;> simp [written, writtenText]

/-- A text of a scalar type is converted as it is written. -/
theorem convertWith_text (ht : t ∈ textTypes ∨ IsReferenceType t = true)
    (h : b.convertWith convert t (.str s) op = .ok w) : w = writtenText b op t s := by
  rcases ht with ht | ht
  · exact convertSimple_written ht (convertWith_simple (by simp) (textTypes_subset ht) h)
  · rw [writtenText_reference ht]
    exact convertWith_reference_text ht h

theorem written_of_ne (hx : ∀ s, x ≠ .str s) : written b op t x = x := by
  cases x with
  | str s => exact absurd rfl (hx s)
  | _ => rfl

/-- A value of a scalar type: it may be anything, a text, or a value that every conversion keeps. -/
theorem WellTyped.scalar_cases (hx : WellTyped b (.type t) x) (ht : IsScalar t) :
    t = "json" ∨ (∃ s, x = .str s ∧ (t ∈ textTypes ∨ IsReferenceType t = true))
      ∨ Fixed b t x ∧ ∀ s, x ≠ .str s := by
  cases hx with
  | json => exact .inl rfl
  | boolean => exact .inr (.inr ⟨.boolean, by simp⟩)
  | int => exact .inr (.inr ⟨.int, by simp⟩)
  | float => exact .inr (.inr ⟨.float, by simp⟩)
  | intOrString => exact .inr (.inr ⟨.intOrString, by simp⟩)
  | text ht => exact .inr (.inl ⟨_, rfl, .inl ht⟩)
  | reference ht _ => exact .inr (.inl ⟨_, rfl, .inr ht⟩)
  | array harray _ _ => exact absurd ht (not_scalar_of_array harray)
  | nilArr harray => exact absurd ht (not_scalar_of_array harray)
  | map hmap _ => exact absurd ht (not_scalar_of_map hmap)
  | nilMap hmap => exact absurd ht (not_scalar_of_map hmap)
  | named hn _ _ => exact absurd ht (not_scalar_of_named hn)

theorem convertWith_written (hx : WellTyped b (.type t) x) (ht : IsScalar t)
    (h : b.convertWith convert t x op = .ok w) : w = written b op t x := by
  rcases hx.scalar_cases ht with rfl | ⟨s, rfl, htext⟩ | ⟨hfixed, hne⟩
  · rw [written_json]
    exact convertWith_fixed .json h
  · exact convertWith_text htext h
  · rw [written_of_ne hne]
    exact convertWith_fixed hfixed h

theorem writtenText_trim (ht : t ≠ "json") :
    writtenText b .Create t (trimSpace s) = writtenText b .Create t s := by
  simp [writtenText, ht, Operation.IsList, trimSpace_idem]

/-- Unless it is a `string`, a text is listed as it is written. -/
theorem writtenText_list (ht : t ≠ "string") :
    writtenText b .List t s = writtenText b .Create t s := by
  simp [writtenText, ht]

/-- What is written is null, a number, or a text without space around it. -/
theorem writtenText_cases (ht : t ≠ "json") : writtenText b .Create t s = .nil
      ∨ (∃ n, t = "intOrString" ∧ writtenText b .Create t s = .int n)
      ∨ writtenText b .Create t s = .str (trimSpace s) := by
  unfold writtenText
  rw [if_neg (by simp [ht, Operation.IsList])]
  split
  · exact .inl rfl
  · split
    · rename_i hint
      rcases b.env.parseInt (trimSpace s) with e | n
      · exact .inr (.inr rfl)
      · exact .inr (.inl ⟨n, hint, rfl⟩)
    · exact .inr (.inr rfl)

theorem ne_json_of_text (ht : t ∈ textTypes ∨ IsReferenceType t = true) : t ≠ "json" := by
  rintro rfl
  exact absurd ht (by decide)

/-- What was listed is written as the value itself would be. -/
theorem convertWith_listed (hx : WellTyped b (.type t) x) (ht : IsScalar t)
    (h : b.convertWith convert t (written b .List t x) .Create = .ok w) :
    w = written b .Create t x := by
  rcases hx.scalar_cases ht with rfl | ⟨s, rfl, htext⟩ | ⟨hfixed, hne⟩
  · rw [written_json] at h ⊢
    exact convertWith_fixed .json h
  · have hjson := ne_json_of_text htext
    simp only [written] at h ⊢
    by_cases hstring : t = "string"
    · subst hstring
      exact convertWith_text htext h
    · rw [writtenText_list hstring] at h
      rcases writtenText_cases (b := b) (s := s) hjson with hw | ⟨n, rfl, hw⟩ | hw
      · rw [hw] at h ⊢
        cases h
        rfl
      · rw [hw] at h ⊢
        exact convertWith_fixed .intOrString h
      · rw [hw] at h
        rw [← writtenText_trim hjson]
        exact convertWith_text htext h
  · rw [written_of_ne hne] at h ⊢
    exact convertWith_fixed hfixed h

end Scalars

section Lists

/-- A list, a map or an object. -/
def Shaped : Value → Prop
  | .arr _ | .nilArr | .map _ | .nilMap => True
  | _ => False

/-- What is known of a value that was listed for an export. -/
structure Lists (b : Builder) (t : String) (x w : Value) : Prop where
  scalar : IsScalar t → w = written b .List t x
  shaped : ¬ IsScalar t → Shaped x ∧ Shaped w
  hollow : IsAPIObjectEmpty w = true ↔ Hollow b (.type t) x

/-- The level below. -/
def ListsBelow (b : Builder) (convert : Conversion) : Prop :=
  ∀ t x w, Tidy x → WellTyped b (.type t) x → convert t x .List = .ok w → Lists b t x w

theorem Shaped.ne_nil (h : Shaped x) : x ≠ .nil := by
  rintro rfl
  exact h

theorem Shaped.ne_str (h : Shaped x) (s : String) : x ≠ .str s := by
  rintro rfl
  exact h

/-- Two lists, or two maps, are not compared, and nothing else is equal to one. -/
theorem Shaped.not_equal {d : Value} (h : Shaped x) : equal d x ≠ .ok true := by
  cases x with
  | arr | nilArr | map | nilMap => cases d <;> simp [equal.eq_def]
  | _ => exact h.elim

variable {t : String} {x w : Value}

theorem Lists.nil_iff (h : Lists b t x w) : w = .nil ↔ written b .List t x = .nil := by
  by_cases ht : IsScalar t
  · rw [h.scalar ht]
  · obtain ⟨hx, hw⟩ := h.shaped ht
    rw [written_of_ne hx.ne_str]
    exact ⟨fun h => absurd h hw.ne_nil, fun h => absurd h hx.ne_nil⟩

theorem Lists.equal_iff (h : Lists b t x w) (d : Value) :
    equal d w = .ok true ↔ equal d (written b .List t x) = .ok true := by
  by_cases ht : IsScalar t
  · rw [h.scalar ht]
  · obtain ⟨hx, hw⟩ := h.shaped ht
    rw [written_of_ne hx.ne_str]
    exact ⟨fun h => absurd h hw.not_equal, fun h => absurd h hx.not_equal⟩

end Lists

section CopyInputs

variable {convert : Conversion} {schema : Schema} {field : Field}
  {x : Value} {o : Option Value} {k : String}

/-- A value of a field is copied if and only if it is listed. -/
theorem copyValue_listed (hc : ListsBelow b convert)
    (htidy : Tidy x) (htyped : FieldTyped b field x) (hvisible : fieldMatchesOp field .List = true)
    (h : b.forExport.copyValue convert .List k field x = .ok o) :
    ∃ w, convert field.type x .List = .ok w ∧ o = if IsListed b field x then some w else none := by
  obtain ⟨w, hw, rfl, -⟩ := copyValue_ok h
  refine ⟨w, hw, ?_⟩
  by_cases hx : x = .nil
  · subst hx
    rw [if_pos (.inr ⟨rfl, .inl (htyped.1 rfl)⟩), if_pos ⟨hvisible, .inl rfl⟩]
  · have hlists := hc _ _ _ htidy (htyped.2 hx) hw
    simp only [IsListed, hvisible, hx, false_and, false_or, or_false, true_and, ne_eq, hlists.nil_iff]

theorem date_text (hdate : field.type = "date") (h : WellTyped b (.type field.type) x) :
    ∃ s, x = .str s := by
  rcases h.scalar_cases (.inl (by rw [hdate]; decide)) with hjson | ⟨s, rfl, -⟩ | ⟨hfixed, hne⟩
  · simp [hdate] at hjson
  · exact ⟨s, rfl⟩
  · generalize field.type = t at hdate hfixed
    cases hfixed with
    | text => exact absurd rfl (hne _)
    | reference => exact absurd rfl (hne _)
    | _ => exact absurd hdate (by decide)

theorem toTimestamp_congr {env : Convert.Env} {y : Value}
    (h : Convert.ToString env x = Convert.ToString env y) :
    ToTimestamp env x = ToTimestamp env y := by
  unfold ToTimestamp
  rw [h]

theorem toTimestamp_blank {env : Convert.Env} (h : Convert.ToString env x = "") :
    (ToTimestamp env x).toOption = none := by
  unfold ToTimestamp
  rw [if_pos h]
  rfl

/-- The time stamp is that of the stored date. -/
theorem stamped_copied (hnil : ConvertsNil convert) (hc : ListsBelow b convert)
    (htidy : Tidy x) (htyped : FieldTyped b field x)
    (h : b.forExport.copyValue convert .List k field x = .ok o) :
    stamped b field o = if field.type = "date" then
      (ToTimestamp b.env.toEnv x).toOption.map .int else none := by
  by_cases hdate : field.type = "date"
  · rw [if_pos hdate]
    obtain ⟨w, hw, rfl, -⟩ := copyValue_ok h
    by_cases hx : x = .nil
    · subst hx
      have hblank : (ToTimestamp b.env.toEnv .nil).toOption = none := toTimestamp_blank rfl
      cases hnil _ _ _ hw
      rw [hblank]
      split <;> simp [stamped, hblank]
    · have hlists := hc _ _ _ htidy (htyped.2 hx) hw
      obtain ⟨s, rfl⟩ := date_text hdate (htyped.2 hx)
      have hwritten := hlists.scalar (.inl (by rw [hdate]; decide))
      by_cases hblank : trimSpace s = ""
      · obtain rfl : w = .nil := by simpa [written, writtenText, hdate, hblank] using hwritten
        rw [if_neg (by simp), toTimestamp_blank ((toString_str _).trans hblank)]
        rfl
      · obtain rfl : w = .str (trimSpace s) := by
          simpa [written, writtenText, hdate, hblank] using hwritten
        have hts : ToTimestamp b.env.toEnv (.str (trimSpace s)) = ToTimestamp b.env.toEnv (.str s) :=
          toTimestamp_congr (by rw [toString_str, toString_str, trimSpace_idem])
        rw [if_pos (.inl (by simp)), stamped, Option.bind_some, if_pos ⟨hdate, by simpa using hblank⟩,
          hts]
  · rw [if_neg hdate]
    unfold stamped
    cases o with
    | none => rfl
    | some w => exact if_neg fun h => hdate h.1

/-- The copied value of a field is what its source gives. -/
def Reflects (convert : Conversion) (field : Field)
    (o : Option Value) : Source → Prop
  | .own x => ∃ w, convert field.type x .List = .ok w ∧ o = some w
  | .stamp ts => o = some (.int ts)
  | .unset => o = none

theorem reflects_step (hnil : ConvertsNil convert) (hc : ListsBelow b convert)
    (hfield : schema.resourceFields.get k = some field) {e : String × Value} {fe : Field}
    (hfe : schema.resourceFields.get e.1 = some fe) (htidy : Tidy e.2)
    (htyped : FieldTyped b fe e.2) {result r : Doc} {src : Source}
    (hr : Reflects convert field (Assoc.get k result) src)
    (h : b.forExport.copyInput convert schema .List e.1 e.2 result = .ok r) :
    Reflects convert field (Assoc.get k r) (sourceStep b schema k field src e) := by
  have hstamp : stampOf b schema e
      = if fe.type = "date" ∧ fieldMatchesOp fe .List = true then
        (ToTimestamp b.env.toEnv e.2).toOption else none := by
    simp only [stampOf, hfe]
  rcases copyInput_list h with ⟨rfl, hhidden⟩ | ⟨fe', o, hfe', hvisible, ho, hr'⟩
  · -- the field of the entry is not visible
    have hhidden := hhidden fe hfe
    rw [hhidden] at hstamp
    simp only [Bool.false_eq_true, and_false, if_false] at hstamp
    unfold sourceStep
    by_cases hk : e.1 = k
    · subst hk
      cases hfield.symm.trans hfe
      rw [if_pos rfl, if_neg fun h => absurd h.1 (by simp [hhidden])]
      exact hr
    · rw [if_neg hk, hstamp]
      simpa using hr
  · cases hfe.symm.trans hfe'
    have hget : Assoc.get k r
        = if e.1 = k then o.or (Assoc.get k result)
          else if e.1 ++ "TS" = k then (stamped b fe o).or (Assoc.get k result)
          else Assoc.get k result := by
      have hr' : r = put (e.1 ++ "TS") (stamped b fe o) (put e.1 o result) := hr'
      rw [hr', get_put, get_put]
      by_cases hk : e.1 = k
      · subst hk
        rw [if_neg (ne_append_TS _), if_pos rfl, if_pos rfl]
      · rw [if_neg (Ne.symm hk), if_neg hk]
        simp only [eq_comm]
    rw [hget]
    unfold sourceStep
    by_cases hk : e.1 = k
    · subst hk
      cases hfield.symm.trans hfe
      obtain ⟨w, hw, rfl⟩ := copyValue_listed hc htidy htyped hvisible ho
      rw [if_pos rfl, if_pos rfl]
      by_cases hlisted : IsListed b field e.2
      · rw [if_pos hlisted, if_pos hlisted]
        exact ⟨w, hw, rfl⟩
      · rw [if_neg hlisted, if_neg hlisted]
        exact hr
    · rw [if_neg hk, if_neg hk]
      by_cases hts : e.1 ++ "TS" = k
      · rw [if_pos hts, if_pos hts, stamped_copied hnil hc htidy htyped ho, hstamp, hvisible]
        by_cases hdate : fe.type = "date"
        · rw [if_pos hdate, if_pos ⟨hdate, rfl⟩]
          rcases ToTimestamp b.env.toEnv e.2 with err | ts
          · exact hr
          · rfl
        · rw [if_neg hdate, if_neg fun h => hdate h.1]
          exact hr
      · rw [if_neg hts, if_neg hts]
        exact hr

theorem reflects_copyInputs (hnil : ConvertsNil convert) (hc : ListsBelow b convert)
    (hfield : schema.resourceFields.get k = some field) : ∀ {l : Doc} {result r : Doc}
      {src : Source}, (∀ e ∈ l, ∃ fe, schema.resourceFields.get e.1 = some fe ∧ Tidy e.2
        ∧ FieldTyped b fe e.2) →
      Reflects convert field (Assoc.get k result) src →
      l.foldlM (fun result e => b.forExport.copyInput convert schema .List e.1 e.2 result) result
        = .ok r →
      Reflects convert field (Assoc.get k r) (l.foldl (sourceStep b schema k field) src)
  | [], result, r, src, _, hr, h => by
    cases h
    exact hr
  | e :: l, result, r, src, hl, hr, h => by
    obtain ⟨result', he, h⟩ := bind_eq_ok.1 h
    obtain ⟨fe, hfe, htidy, htyped⟩ := hl e List.mem_cons_self
    exact reflects_copyInputs (l := l) hnil hc hfield
      (fun e' he' => hl e' (List.mem_cons_of_mem e he'))
      (reflects_step hnil hc hfield hfe htidy htyped hr he) h

end CopyInputs

section Drop

variable {convert : Conversion} {schema : Schema} {field : Field}

theorem checkField_fill {k : String} {result r : Doc} (hs : Assoc.Sorted result)
    (h : Builder.checkField convert .List k field result = .ok r) :
    Assoc.Sorted r ∧ ∀ j, Assoc.get j r
      = if j = k then (Assoc.get k result).or (filling field) else Assoc.get j result := by
  rw [checkField_list rfl] at h
  cases h
  split
  · rename_i hnone
    exact ⟨sorted_put hs, fun j => by rw [get_put, hnone, Option.none_or]; split <;> simp_all⟩
  · rename_i hsome
    obtain ⟨v, hv⟩ := Option.ne_none_iff_exists'.1 hsome
    refine ⟨hs, fun j => ?_⟩
    split
    · simp_all
    · rfl

/-- Whether a listed value is dropped. -/
theorem drops_iff (hnil : ConvertsNil convert) {v : Value} {d : Bool}
    (h : Builder.drops convert field v = .ok d) :
    d = true ↔ field.create = false ∨ equal field.default v = .ok true
      ∨ IsAPIObjectEmpty v = true := by
  unfold Builder.drops at h
  rcases hcreate : field.create with _ | _
  · rw [hcreate] at h
    cases h
    simp
  · rw [hcreate] at h
    obtain ⟨same, hsame, h⟩ := bind_eq_ok.1 h
    cases same with
    | true =>
      cases h
      simp [hsame]
    | false =>
      obtain ⟨null, hnull, h⟩ := bind_eq_ok.1 h
      cases h
      have hnull : null = true → IsAPIObjectEmpty v = true := by
        rintro rfl
        unfold Builder.isNull at hnull
        split at hnull
        · rename_i val hval
          cases hnil _ _ _ hval
          cases v <;> simp [equal.eq_def] at hnull
          rfl
        · cases hnull
        · cases hnull
      simp only [hsame, Bool.or_eq_true]
      simpa using hnull

/-- What is left of the listed value of a field. -/
def left (convert : Conversion) (schema : Schema) (k : String)
    (v : Value) (o : Option Value) : Option Value :=
  match schema.resourceFields.get k with
  | none => none
  | some field => if Builder.drops convert field v = .ok true then none else o

theorem drop_get {result r : Doc} (hs : Assoc.Sorted result)
    (h : Builder.dropDefaultsAndReadOnly convert schema result = .ok r) :
    Assoc.Sorted r ∧ ∀ j, Assoc.get j r
      = (Assoc.get j result).elim (Assoc.get j result) fun v =>
        left convert schema j v (Assoc.get j result) := by
  refine foldlM_pointwise (g := left convert schema) ?_ hs.nodup hs h
  intro k v acc r hs h
  unfold left
  rcases hfield : schema.resourceFields.get k with _ | field
  · simp only [hfield] at h
    cases h
    exact ⟨hs.erase, fun j => Assoc.get_erase k j acc⟩
  · simp only [hfield] at h
    obtain ⟨d, hd, h⟩ := bind_eq_ok.1 h
    dsimp only
    rw [hd]
    cases d with
    | true =>
      cases h
      exact ⟨hs.erase, fun j => Assoc.get_erase k j acc⟩
    | false =>
      cases h
      refine ⟨hs, fun j => ?_⟩
      by_cases hj : j = k
      · rw [if_pos hj, hj]
        rfl
      · rw [if_neg hj]

end Drop

section Object

variable {convert : Conversion} {schema : Schema} {field : Field}
  {m e : Doc} {k : String}

/-- The entries are values of fields of the schema. -/
def Stored (b : Builder) (schema : Schema) (m : Doc) : Prop :=
  ∀ e ∈ m, ∃ fe, schema.resourceFields.get e.1 = some fe ∧ Tidy e.2 ∧ FieldTyped b fe e.2

theorem WellTyped.stored (htidy : Tidy (.map m)) (h : WellTyped b (.object schema) (.map m)) :
    Stored b schema m := by
  cases h with
  | object hknown hnull htyped =>
    intro e he
    obtain ⟨fe, hfe⟩ := Option.ne_none_iff_exists'.1 (hknown e he)
    exact ⟨fe, hfe, htidy.of_map.2 e he, hnull e he fe hfe, htyped e he fe hfe⟩

theorem source_own : ∀ {l : Doc} {src : Source} {x : Value},
    l.foldl (sourceStep b schema k field) src = .own x → src = .own x ∨ (k, x) ∈ l
  | [], _, _, h => .inl h
  | e :: l, src, x, hl => by
    rcases source_own (l := l) hl with h | h
    · clear hl
      unfold sourceStep at h
      split_ifs at h with hk hlisted hts
      · subst hk
        cases h
        exact .inr List.mem_cons_self
      · exact .inl h
      · cases hstamp : stampOf b schema e with
        | none =>
          rw [hstamp] at h
          exact .inl h
        | some ts =>
          rw [hstamp] at h
          cases h
      · exact .inl h
    · exact .inr (List.mem_cons_of_mem _ h)

theorem Stored.of_source (hm : Stored b schema m) (hfield : schema.resourceFields.get k = some field)
    {x : Value} (h : source b schema m k field = .own x) : Tidy x ∧ FieldTyped b field x := by
  rcases source_own h with h | hmem
  · cases h
  · obtain ⟨fe, hfe, htidy, htyped⟩ := hm _ hmem
    cases hfield.symm.trans hfe
    exact ⟨htidy, htyped⟩

/-- The three loops of an export. -/
theorem export_loops (h : b.forExport.constructWith convert schema m .List = .ok e) :
    ∃ r₁ r₂, m.foldlM (fun result e => b.forExport.copyInput convert schema .List e.1 e.2 result) []
        = .ok r₁
      ∧ schema.resourceFields.entries.foldlM
        (fun result e => Builder.checkField convert .List e.1 e.2 result) r₁ = .ok r₂
      ∧ Builder.dropDefaultsAndReadOnly convert schema r₂ = .ok e := by
  rw [constructWith_list_eq rfl] at h
  obtain ⟨r₁, hloop, h⟩ := bind_eq_ok.1 h
  obtain ⟨r₂, hdefault, h⟩ := bind_eq_ok.1 h
  exact ⟨r₁, r₂, hloop, hdefault, h⟩

theorem sorted_copyInputs {l result r : Doc} (hs : Assoc.Sorted result)
    (h : l.foldlM (fun result e => b.copyInput convert schema .List e.1 e.2 result) result = .ok r) :
    Assoc.Sorted r := by
  refine foldlM_invariant (fun e _ result r hs hr => ?_) hs h
  rcases copyInput_list hr with ⟨rfl, -⟩ | ⟨_, _, -, -, -, rfl⟩
  · exact hs
  · exact sorted_put (sorted_put hs)

/-- A value that is exported for a field with this source. -/
def Offers (convert : Conversion) (field : Field) (p : Value) :
    Source → Prop
  | .own x => convert field.type x .List = .ok p
  | .stamp ts => p = .int ts
  | .unset => p = field.default ∧ fieldMatchesOp field .List = true

/-- A value that is there before the last loop is dropped, or exported. -/
theorem drop_field (hnil : ConvertsNil convert) {result : Doc} (hs : Assoc.Sorted result)
    (h : Builder.dropDefaultsAndReadOnly convert schema result = .ok e)
    (hfield : schema.resourceFields.get k = some field) {p : Value}
    (hp : Assoc.get k result = some p) :
    (∃ same, field.create = true → equal field.default p = .ok same)
      ∧ Assoc.get k e = if field.create = false ∨ equal field.default p = .ok true
        ∨ IsAPIObjectEmpty p = true then none else some p := by
  obtain ⟨_, _, hround⟩ := foldlM_round h (Assoc.mem_of_get hp)
  simp only [hfield] at hround
  obtain ⟨d, hd, -⟩ := bind_eq_ok.1 hround
  constructor
  · rcases hcreate : field.create with _ | _
    · exact ⟨true, by simp⟩
    · unfold Builder.drops at hd
      rw [hcreate] at hd
      obtain ⟨same, hsame, -⟩ := bind_eq_ok.1 hd
      exact ⟨same, fun _ => hsame⟩
  · rw [(drop_get hs h).2 k, hp, Option.elim_some]
    unfold left
    simp only [hfield, hd, Except.ok.injEq, drops_iff hnil hd]

theorem get_filled (hs : Assoc.Sorted m)
    (h : schema.resourceFields.entries.foldlM
      (fun result e => Builder.checkField convert .List e.1 e.2 result) m = .ok e) :
    Assoc.Sorted e ∧ ∀ k, Assoc.get k e = (schema.resourceFields.get k).elim (Assoc.get k m)
      fun field => (Assoc.get k m).or (filling field) :=
  foldlM_pointwise (g := fun _ field o => o.or (filling field))
    (fun _ _ _ _ hs h => checkField_fill hs h) schema.resourceFields.nodup_keys hs h

/-- What is exported of a field with this source: nothing, or a value that is neither empty nor the
default. -/
structure Exports (b : Builder) (convert : Conversion) (field : Field)
    (o : Option Value) (src : Source) : Prop where
  unexported : Unexported b field src → o = none
  exported : ¬ Unexported b field src → ∃ p, o = some p ∧ field.create = true
    ∧ IsAPIObjectEmpty p = false ∧ equal field.default p ≠ .ok true ∧ Offers convert field p src

theorem Exports.of_drop {p : Value} {o : Option Value} {src : Source}
    (ho : o = if field.create = false ∨ equal field.default p = .ok true
      ∨ IsAPIObjectEmpty p = true then none else some p)
    (hiff : Unexported b field src ↔ field.create = false ∨ equal field.default p = .ok true
      ∨ IsAPIObjectEmpty p = true) (hoffers : Offers convert field p src) :
    Exports b convert field o src where
  unexported h := by rw [ho, if_pos (hiff.1 h)]
  exported h := by
    have hno := mt hiff.2 h
    rw [ho, if_neg hno]
    rw [not_or, not_or] at hno
    exact ⟨p, rfl, by simpa using hno.1, by simpa using hno.2.2, hno.2.1, hoffers⟩

theorem Exports.of_none {src : Source} (h : Unexported b field src) :
    Exports b convert field none src where
  unexported _ := rfl
  exported hno := absurd h hno

/-- An empty value that can be compared is equal to itself. -/
theorem equal_self_of_empty {d : Value} {same : Bool} (h : equal d d = .ok same)
    (hempty : IsAPIObjectEmpty d = true) : equal d d = .ok true := by
  cases d with
  | nil | bool | str => simp [equal.eq_def]
  | int | float | number | strs => cases hempty
  | arr | nilArr | map | nilMap => cases h

/-- What is exported of a field. -/
theorem export_get (hnil : ConvertsNil convert) (hc : ListsBelow b convert) (hm : Stored b schema m)
    (h : b.forExport.constructWith convert schema m .List = .ok e)
    (hfield : schema.resourceFields.get k = some field) :
    Exports b convert field (Assoc.get k e) (source b schema m k field) := by
  obtain ⟨r₁, r₂, hcopy, hfill, hdrop⟩ := export_loops h
  have hreflects : Reflects convert field (Assoc.get k r₁) (source b schema m k field) :=
    reflects_copyInputs hnil hc hfield hm (show Reflects convert field (Assoc.get k []) .unset from rfl)
      hcopy
  obtain ⟨hs₂, hget₂⟩ := get_filled (sorted_copyInputs .nil hcopy) hfill
  have hk := hget₂ k
  rw [hfield, Option.elim_some] at hk
  rcases hsource : source b schema m k field with x | ts | _
  · rw [hsource] at hreflects
    obtain ⟨w, hw, hget₁⟩ := hreflects
    rw [hget₁, Option.some_or] at hk
    refine .of_drop (drop_field hnil hs₂ hdrop hfield hk).2 ?_ hw
    obtain ⟨htidy, htyped⟩ := hm.of_source hfield hsource
    by_cases hx : x = .nil
    · subst hx
      cases hnil _ _ _ hw
      simp [Unexported, IsAPIObjectEmpty, Hollow.nil]
    · have hlists := hc _ _ _ htidy (htyped.2 hx) hw
      simp only [Unexported, hlists.equal_iff, hlists.hollow]
  · rw [hsource] at hreflects
    rw [show Assoc.get k r₁ = some (.int ts) from hreflects, Option.some_or] at hk
    refine .of_drop (drop_field hnil hs₂ hdrop hfield hk).2 ?_ rfl
    simp [Unexported, IsAPIObjectEmpty]
  · rw [hsource] at hreflects
    rw [show Assoc.get k r₁ = none from hreflects, Option.none_or] at hk
    have hnone : Assoc.get k r₂ = none → Assoc.get k e = none := by
      intro hnone
      rw [(drop_get hs₂ hdrop).2 k, hnone, Option.elim_none]
    unfold filling at hk
    split_ifs at hk with hhidden href hdefault
    · rw [hnone hk]
      exact .of_none (.inr (.inl hhidden))
    · rw [(drop_field hnil hs₂ hdrop hfield hk).2, if_pos (.inr (.inr rfl))]
      exact .of_none (.inr (.inr (.inl href)))
    · rw [hnone hk]
      exact .of_none (.inr (.inr (.inr (by rw [hdefault]; rfl))))
    · obtain ⟨⟨same, hsame⟩, hget⟩ := drop_field hnil hs₂ hdrop hfield hk
      refine .of_drop hget ?_ ⟨rfl, by simpa using hhidden⟩
      simp only [Unexported, hhidden, href, Bool.true_eq_false, Bool.false_eq_true, false_or]
      refine or_congr_right' fun hcreate => ⟨.inl, fun h => h.elim id fun hempty => ?_⟩
      exact equal_self_of_empty (hsame (by simpa using hcreate)) hempty

/-- Nothing is exported of an object if and only if no field is. -/
theorem export_empty_iff (hnil : ConvertsNil convert) (hc : ListsBelow b convert)
    (hm : Stored b schema m) (h : b.forExport.constructWith convert schema m .List = .ok e) :
    e = [] ↔ Hollow b (.object schema) (.map m) := by
  rw [hollow_object_iff]
  constructor
  · rintro rfl k field hfield
    by_contra hexported
    obtain ⟨p, hp, -⟩ := (export_get hnil hc hm h hfield).exported hexported
    cases hp
  · intro hall
    obtain ⟨r₁, r₂, hcopy, hfill, hdrop⟩ := export_loops h
    obtain ⟨hs₂, -⟩ := get_filled (sorted_copyInputs .nil hcopy) hfill
    obtain ⟨hs, hget⟩ := drop_get hs₂ hdrop
    refine Assoc.ext hs .nil fun k => ?_
    rcases hfield : schema.resourceFields.get k with _ | field
    · -- a key without a field is dropped
      rw [hget k]
      rcases Assoc.get k r₂ with _ | v
      · rfl
      · simp only [Option.elim_some, left, hfield]
        rfl
    · exact (export_get hnil hc hm h hfield).unexported (hall k field hfield)

end Object

section Knot

variable {t : String} {x : Value} {op : Operation}

theorem WellTyped.forExport {p : Place} {v : Value} (h : WellTyped b p v) :
    WellTyped b.forExport p v := by
  induction h with
  | json => exact .json
  | boolean => exact .boolean
  | int => exact .int
  | float => exact .float
  | text ht => exact .text ht
  | intOrString => exact .intOrString
  | reference ht hvalid => exact .reference ht hvalid
  | array ht hne _ ih => exact .array ht hne ih
  | nilArr ht => exact .nilArr ht
  | map ht _ ih => exact .map ht ih
  | nilMap ht => exact .nilMap ht
  | named ht hfind _ ih => exact .named ht hfind ih
  | object hknown hnull _ ih => exact .object hknown hnull ih

theorem written_forExport : written b.forExport op t x = written b op t x := by
  cases x <;> rfl

theorem hollow_scalar_iff (ht : IsScalar t) :
    Hollow b (.type t) x ↔ IsAPIObjectEmpty (written b .List t x) = true := by
  refine ⟨fun h => ?_, .scalar ht⟩
  cases h with
  | nil => rfl
  | scalar _ h => exact h
  | collection hcoll _ =>
    rcases hcoll with harray | hmap
    · exact absurd ht (not_scalar_of_array harray)
    · exact absurd ht (not_scalar_of_map hmap)
  | named hn _ _ => exact absurd ht (not_scalar_of_named hn)

theorem hollow_collection_iff (ht : IsArrayType t = true ∨ IsMapType t = true) :
    Hollow b (.type t) x ↔ IsAPIObjectEmpty x = true := by
  refine ⟨fun h => ?_, .collection ht⟩
  cases h with
  | nil => rfl
  | scalar hscalar _ =>
    rcases ht with harray | hmap
    · exact absurd hscalar (not_scalar_of_array harray)
    · exact absurd hscalar (not_scalar_of_map hmap)
  | collection _ h => exact h
  | named hn _ _ => simp [hn.1, hn.2.1] at ht

theorem hollow_named_iff (ht : IsNamed t) {schema : Schema} (hfind : b.schema t = some schema)
    {m : Doc} : Hollow b (.type t) (.map m) ↔ Hollow b (.object schema) (.map m) := by
  refine ⟨fun h => ?_, .named ht hfind⟩
  cases h with
  | scalar hscalar _ => exact absurd hscalar (not_scalar_of_named ht)
  | collection hcoll _ => simp [ht.1, ht.2.1] at hcoll
  | named _ hfind' h =>
    cases hfind.symm.trans hfind'
    exact h

theorem shaped_ofSlice (ws : List Value) : Shaped (Builder.ofSlice ws) := by
  unfold Builder.ofSlice
  split <;> trivial

theorem empty_ofSlice_iff {ws : List Value} :
    IsAPIObjectEmpty (Builder.ofSlice ws) = true ↔ ws = [] := by
  unfold Builder.ofSlice
  split <;> simp_all [IsAPIObjectEmpty]

theorem convertWith_nilArr {convert : Conversion}
    (ht : IsArrayType t = true) : b.convertWith convert t .nilArr op = .ok .nilArr := by
  simp only [Builder.convertWith, reduceCtorEq, if_false, isMapType_of_isArrayType ht, ht,
    Bool.false_eq_true, if_true]
  rfl

theorem convertWith_nilMap {convert : Conversion}
    (ht : IsMapType t = true) : b.convertWith convert t .nilMap op = .ok (.map []) := by
  simp only [Builder.convertWith, reduceCtorEq, if_false, ht, if_true]
  rfl

/-- What is known of every value that is listed for an export. -/
theorem listsBelow : ∀ fuel : ℕ, ListsBelow b (b.forExport.convert fuel)
  | 0 => fun _ _ _ _ _ h => by cases h
  | fuel + 1 => by
    intro t x w htidy hx h
    have hc := listsBelow fuel
    simp only [Builder.convert] at h
    by_cases hscalar : IsScalar t
    · have hw : w = written b .List t x := by
        rw [← written_forExport]
        exact convertWith_written hx.forExport hscalar h
      exact ⟨fun _ => hw, fun hno => absurd hscalar hno, by rw [hollow_scalar_iff hscalar, hw]⟩
    · have hlists : Shaped x → Shaped w → (IsAPIObjectEmpty w = true ↔ Hollow b (.type t) x) →
          Lists b t x w := fun hx hw hhollow => ⟨fun h => absurd h hscalar, fun _ => ⟨hx, hw⟩, hhollow⟩
      cases hx with
      | json | boolean | int | float | intOrString => exact absurd (.inl (by decide)) hscalar
      | text ht => exact absurd (.inl (textTypes_subset ht)) hscalar
      | reference ht _ => exact absurd (.inr ht) hscalar
      | array ht _ _ =>
        rw [convertWith_array ht] at h
        obtain ⟨ws, hws, rfl⟩ := map_eq_ok.1 h
        have hlen := (mapM_eq_ok hws).length_eq
        refine hlists trivial (shaped_ofSlice ws) ?_
        rw [hollow_collection_iff (.inl ht), empty_ofSlice_iff]
        simp [IsAPIObjectEmpty, ← List.length_eq_zero_iff, hlen]
      | nilArr ht =>
        rw [convertWith_nilArr ht] at h
        cases h
        exact hlists trivial trivial (by rw [hollow_collection_iff (.inl ht)])
      | map ht _ =>
        rw [convertWith_map ht] at h
        obtain ⟨r, hr, rfl⟩ := map_eq_ok.1 h
        obtain ⟨n, rfl, hs, hget⟩ := convertMap_eq_ok htidy.of_map.1 hr
        refine hlists trivial trivial ?_
        rw [hollow_collection_iff (.inr ht)]
        simp only [Builder.ofMap, IsAPIObjectEmpty, List.isEmpty_iff, ← Assoc.forall_get_eq_none_iff]
        refine forall_congr' fun k => ?_
        rcases hget k with ⟨hnone, hnone'⟩ | ⟨_, _, hv, hw, -⟩
        · simp [hnone, hnone']
        · simp [hv, hw]
      | nilMap ht =>
        rw [convertWith_nilMap ht] at h
        cases h
        exact hlists trivial trivial (by rw [hollow_collection_iff (.inr ht)]; rfl)
      | named ht hfind hobj =>
        rw [convertWith_named (b := b.forExport) ht hfind] at h
        obtain ⟨e, he, rfl⟩ := map_eq_ok.1 h
        refine hlists trivial trivial ?_
        rw [hollow_named_iff ht hfind, ← export_empty_iff (convertsNil fuel) hc (hobj.stored htidy) he]
        simp [IsAPIObjectEmpty]

end Knot

end Norman.Parse
