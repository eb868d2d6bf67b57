import Norman.Proofs.Kept
import Norman.Proofs.Listed
import Norman.Proofs.Typing

/-!
# Writing back what was read

An object is read, and what was shown is sent back as an update and merged into the stored object.
The stored values that were shown stay as they are, if they have the form in which they would be
written: a text loses the white space around it when it is written, though not when it is read.
-/

namespace Norman.Parse

open Norman.Types Gather Value

/-- A value of a simple type or a reference in the form in which it would be written: a text has no
white space around it, is not taken for a number, and is not empty in a date. -/
inductive Fixed (b : Builder) : String → Value → Prop where
  | json {v : Value} : Fixed b "json" v
  | boolean {x : Bool} : Fixed b "boolean" (.bool x)
  | int {n : Int} : Fixed b "int" (.int n)
  | float {x : UInt64} : Fixed b "float" (.float x)
  | intOrString {n : Int} : Fixed b "intOrString" (.int n)
  | text {t s : String} : t ∈ textTypes → Convert.trimSpace s = s → (t = "date" → s ≠ "") →
    (t = "intOrString" → ∀ n, b.env.parseInt s ≠ .ok n) → Fixed b t (.str s)
  | reference {t s : String} : IsReferenceType t = true → Convert.trimSpace s = s →
    Fixed b t (.str s)

/-- A well typed value that has this form at every level. A list is not empty; the fields that are
there may be updated, and have no key that the builder makes. -/
inductive Normal (b : Builder) : Place → Value → Prop where
  | fixed {t : String} {v : Value} : Fixed b t v → Normal b (.type t) v
  | array {t : String} {xs : List Value} : IsArrayType t = true → xs ≠ [] →
    (∀ x ∈ xs, Normal b (.type (SubType t)) x) → Normal b (.type t) (.arr xs)
  | map {t : String} {m : Doc} : IsMapType t = true →
    (∀ e ∈ m, Normal b (.type (SubType t)) e.2) → Normal b (.type t) (.map m)
  | named {t : String} {schema : Schema} {m : Doc} : IsNamed t → b.schema t = some schema →
    Normal b (.object schema) (.map m) → Normal b (.type t) (.map m)
  | object {schema : Schema} {m : Doc} : (∀ e ∈ m, ¬ Made schema e.1) →
    (∀ e ∈ m, ∃ field, schema.resourceFields.get e.1 = some field ∧ field.update = true
      ∧ (e.2 = .nil → field.nullable = true)) →
    (∀ e ∈ m, ∀ field, schema.resourceFields.get e.1 = some field → e.2 ≠ .nil →
      Normal b (.type field.type) e.2) → Normal b (.object schema) (.map m)

/-- What was read of a value: where both hold something, it is the same. -/
inductive Reads : Value → Value → Prop where
  | same {v : Value} : Reads v v
  | arr {xs ys : List Value} : ys.length = xs.length →
    (∀ (i : ℕ) x y, xs[i]? = some x → ys[i]? = some y → Reads x y) → Reads (.arr xs) (.arr ys)
  | map {m n : Doc} : Keyed n →
    (∀ k x y, Assoc.get k m = some x → Assoc.get k n = some y → Reads x y) →
    Reads (.map m) (.map n)

namespace Reads

theorem of_arr {xs : List Value} {y : Value} (h : Reads (.arr xs) y) :
    ∃ ys, y = .arr ys ∧ ys.length = xs.length
      ∧ ∀ (i : ℕ) x y, xs[i]? = some x → ys[i]? = some y → Reads x y := by
  cases h with
  | same =>
    refine ⟨xs, rfl, rfl, fun i x y hx hy => ?_⟩
    cases hx.symm.trans hy
    exact .same
  | arr hlen h => exact ⟨_, rfl, hlen, h⟩

theorem of_map {m : Doc} {y : Value} (hm : Keyed m) (h : Reads (.map m) y) :
    ∃ n, y = .map n ∧ Keyed n
      ∧ ∀ k x y, Assoc.get k m = some x → Assoc.get k n = some y → Reads x y := by
  cases h with
  | same =>
    refine ⟨m, rfl, hm, fun k x y hx hy => ?_⟩
    cases hx.symm.trans hy
    exact .same
  | map hn h => exact ⟨_, rfl, hn, h⟩

theorem kept {v y : Value} (h : Reads v y) : Kept v y y := by
  induction h with
  | same => exact .refl _ _
  | arr hlen _ ih =>
    refine .arr hlen fun i x y z hx hy hz => ?_
    cases hy.symm.trans hz
    exact ih i x y hx hy
  | map _ _ ih => exact .map fun k x y hx hy => ⟨y, hy, ih k x y hx hy⟩

end Reads

variable {b : Builder} {op : Operation} {t : String}

section Simple

variable {convert : Conversion}

/-- A text as it is converted: the space around it is lost, but for a `string` that is listed; a
date without text is null, and a number may be read. -/
def writtenText (b : Builder) (op : Operation) (t s : String) : Value :=
  if t = "json" ∨ t = "string" ∧ op.IsList = true then .str s
  else if t = "date" ∧ Convert.trimSpace s = "" then .nil
  else if t = "intOrString" then
    match b.env.parseInt (Convert.trimSpace s) with
    | .ok n => .int n
    | .error _ => .str (Convert.trimSpace s)
  else .str (Convert.trimSpace s)

theorem convertSimple_written {s : String} {w : Value} (ht : t ∈ textTypes)
    (h : ConvertSimple b.env t (.str s) op = .ok w) : w = writtenText b op t s := by
  have hname : ∀ validate, convertName b.env validate (.str s) op = .ok w →
      w = .str (Convert.trimSpace s) := by
    intro validate h
    unfold convertName at h
    rw [Convert.toString_str] at h
    dsimp only at h
    split at h
    · rename_i hempty
      cases h
      rw [hempty]
    · split at h <;> cases h
      rfl
  unfold ConvertSimple at h
  rw [if_neg (by simp)] at h
  split at h
  case h_1 | h_3 | h_5 | h_6 => exact absurd ht (by decide)
  case h_2 => -- date
    dsimp only at h
    rw [Convert.toString_str] at h
    simp only [writtenText]
    split at h <;> cases h <;> simp_all
  case h_8 => -- string
    rw [Convert.toString_str, Convert.toStringNoTrim_str] at h
    split at h <;> cases h <;> simp_all [writtenText]
  case h_9 | h_10 | h_11 =>
    rw [hname _ h]
    simp [writtenText]
  case h_12 => -- intOrString
    rw [Convert.toNumber_str, Convert.toString_str] at h
    simp only [writtenText]
    rcases hparse : b.env.parseInt (Convert.trimSpace s) with e | n
    · rw [hparse] at h
      cases h
      simp
    · rw [hparse] at h
      cases h
      simp
  case h_4 | h_7 | h_13 | h_14 => -- enum, password, base64, reference
    rw [Convert.toString_str] at h
    cases h
    simp [writtenText]
  case h_15 => cases h

/-- A text in its form is read, and written, as it is. -/
theorem convertSimple_text {s : String} {w : Value} (ht : t ∈ textTypes)
    (hs : Convert.trimSpace s = s) (hdate : t = "date" → s ≠ "")
    (hint : t = "intOrString" → ∀ n, b.env.parseInt s ≠ .ok n)
    (h : ConvertSimple b.env t (.str s) op = .ok w) : w = .str s := by
  rw [convertSimple_written ht h, writtenText, hs]
  split_ifs with _ hempty hnumber
  · rfl
  · exact absurd hempty.2 (hdate hempty.1)
  · rcases hparse : b.env.parseInt s with e | n
    · rfl
    · exact absurd hparse (hint hnumber n)
  · rfl

theorem convertWith_simple {v w : Value}
    (hv : v ≠ .nil) (ht : t ∈ simpleTypes) (h : b.convertWith convert t v op = .ok w) :
    ConvertSimple b.env t v op = .ok w := by
  obtain ⟨hmap, harray, href⟩ := kinds_of_simple ht
  rcases convertWith_cases h with ⟨hnil, -⟩ | ⟨-, h | h | h | h | h⟩
  · exact absurd hnil hv
  · simp [hmap] at h
  · simp [harray] at h
  · simp [href] at h
  · exact h
  · exact absurd ht h.1.2.2.2

theorem convertWith_reference_text {s : String} {w : Value} (ht : IsReferenceType t = true)
    (h : b.convertWith convert t (.str s) op = .ok w) : w = .str (Convert.trimSpace s) := by
  rcases convertWith_cases h with ⟨hnil, -⟩ | ⟨-, h | h | h | h | h⟩
  · cases hnil
  · simp [(kinds_of_map h.1).2.1] at ht
  · simp [(kinds_of_array h.1).2.1] at ht
  · obtain ⟨-, s', href, rfl⟩ := h
    rw [(convertReferenceType_ok href).1, Convert.toString_str]
  · have hsimple : t ∉ simpleTypes := fun hs => by simp [(kinds_of_simple hs).2.2] at ht
    simp [convertSimple_of_not_mem hsimple] at h
  · simp [h.1.2.2.1] at ht

/-- Such a value is read, and written, as it is. -/
theorem convertWith_fixed {v w : Value}
    (hf : Fixed b t v) (h : b.convertWith convert t v op = .ok w) : w = v := by
  by_cases hv : v = .nil
  · subst hv
    cases h
    rfl
  cases hf with
  | json =>
    have hsimple := convertWith_simple hv (by decide) h
    rw [ConvertSimple, if_neg hv] at hsimple
    cases hsimple
    rfl
  | boolean | int | float | intOrString =>
    have hsimple := convertWith_simple hv (by decide) h
    cases hsimple
    rfl
  | text ht hs hdate hint =>
    exact convertSimple_text ht hs hdate hint (convertWith_simple hv (textTypes_subset ht) h)
  | reference ht hs => rw [convertWith_reference_text ht h, hs]

theorem Fixed.reads {v y : Value} (hf : Fixed b t v) (h : Reads v y) : Fixed b t y := by
  cases h with
  | same => exact hf
  | arr _ _ =>
    cases hf
    exact .json
  | map _ _ =>
    cases hf
    exact .json

end Simple

section Levels

variable {convert : Conversion} {schema : Schema} {m : Doc}

/-- A null is nothing else when it is converted. -/
def ConvertsNil (convert : Conversion) : Prop :=
  ∀ t op w, convert t .nil op = .ok w → w = .nil

/-- What is read at the level below. -/
def ConvertsRead (b : Builder) (convert : Conversion) : Prop :=
  ∀ t x y, Json x → Normal b (.type t) x → convert t x .List = .ok y → (y = .nil → x = .nil) ∧ Reads x y

/-- What is written back at the level below. -/
def ConvertsBack (b : Builder) (convert : Conversion) : Prop :=
  ∀ t x y w, Json x → Normal b (.type t) x → Reads x y → convert t y .Update = .ok w →
    (w = .nil → x = .nil) ∧ Kept x y w

theorem copyValue_cases {k : String} {field : Field} {v : Value} {r : Option Value}
    (h : b.copyValue convert op k field v = .ok r) : ∃ w, convert field.type v op = .ok w
      ∧ (r = some w ∨ r = none ∧ w = .nil ∧ (v = .nil → field.nullable = false)) := by
  obtain ⟨w, hw, rfl, -⟩ := copyValue_ok h
  refine ⟨w, hw, ?_⟩
  split
  · exact .inl rfl
  · rename_i hnull
    push Not at hnull
    refine .inr ⟨rfl, hnull.1, fun hv => ?_⟩
    simpa using (hnull.2 hv).1

theorem copyValue_reads (hnil : ConvertsNil convert) (hc : ConvertsRead b convert) {k : String}
    {field : Field} {x : Value} (hx : Json x) (hnull : x = .nil → field.nullable = true)
    (hn : x ≠ .nil → Normal b (.type field.type) x) {r : Option Value}
    (h : b.copyValue convert .List k field x = .ok r) : ∃ y, r = some y ∧ Reads x y := by
  obtain ⟨w, hw, hr⟩ := copyValue_cases h
  by_cases hxnil : x = .nil
  · subst hxnil
    cases hnil _ _ _ hw
    rcases hr with rfl | ⟨-, -, hno⟩
    · exact ⟨.nil, rfl, .same⟩
    · simp [hnull rfl] at hno
  · obtain ⟨hback, hreads⟩ := hc _ _ _ hx (hn hxnil) hw
    rcases hr with rfl | ⟨-, hwnil, -⟩
    · exact ⟨w, rfl, hreads⟩
    · exact absurd (hback hwnil) hxnil

theorem constructWith_reads (hnil : ConvertsNil convert) (hc : ConvertsRead b convert)
    (hm : Json (.map m)) (hn : Normal b (.object schema) (.map m)) {r : Doc}
    (h : b.constructWith convert schema m .List = .ok r) : Reads (.map m) (.map r) := by
  cases hm with
  | map hkeyed hjson =>
  cases hn with
  | object hmade hfields hxs =>
  have hcopy : ∀ e ∈ m, ∀ field, schema.resourceFields.get e.1 = some field → ∀ w,
      b.copyValue convert .List e.1 field e.2 = .ok w → ∃ y, w = some y ∧ Reads e.2 y := by
    intro e he field hfield w hw
    obtain ⟨_, hfield', -, hnull⟩ := hfields e he
    cases hfield.symm.trans hfield'
    exact copyValue_reads hnil hc (hjson e he) hnull (hxs e he field hfield) hw
  have hread := constructWith_list hkeyed hmade (fun e he field hfield hnone => by
    obtain ⟨_, hy, -⟩ := hcopy e he field hfield none hnone
    cases hy) h
  refine .map hread.sorted.nodup fun k x y hx hy => ?_
  rcases hread.shown k x y hx hy with rfl | ⟨field, hfield, hw⟩
  · exact .same
  · obtain ⟨_, heq, hreads⟩ := hcopy _ (Assoc.mem_of_get hx) field hfield _ hw
    cases heq
    exact hreads

theorem constructWith_back (hnil : ConvertsNil convert) (hc : ConvertsBack b convert)
    (hm : Json (.map m)) (hn : Normal b (.object schema) (.map m)) {n w : Doc}
    (hreads : Reads (.map m) (.map n)) (h : b.constructWith convert schema n .Update = .ok w) :
    Kept (.map m) (.map n) (.map w) := by
  cases hm with
  | map hkeyed hjson =>
  cases hn with
  | object hmade hfields hxs =>
  obtain ⟨_, hn, hkeyed', hshared⟩ := hreads.of_map hkeyed
  cases hn
  obtain ⟨-, hget⟩ := constructWith_write rfl hkeyed' h
  refine .map fun k x y hx hy => ?_
  have hreads := hshared k x y hx hy
  obtain ⟨field, hfield, hupdate, hnull⟩ := hfields _ (Assoc.mem_of_get hx)
  obtain ⟨z, hz, hw⟩ := hget k
  have hcopy : b.copyValue convert .Update k field y = .ok z := by
    simpa [hy, given, copied, hfield, fieldMatchesOp, hupdate] using hz
  have hkey : Assoc.get k w = z := by
    simpa [hfield, defaulted] using hw
  obtain ⟨c, hc', hcases⟩ := copyValue_cases hcopy
  rw [hkey]
  by_cases hxnil : x = .nil
  · subst hxnil
    cases hreads
    cases hnil _ _ _ hc'
    rcases hcases with rfl | ⟨-, -, hno⟩
    · exact ⟨.nil, rfl, .refl _ _⟩
    · rw [hnull rfl] at hno
      cases hno rfl
  · obtain ⟨hback, hkept⟩ :=
      hc _ _ _ _ (hjson _ (Assoc.mem_of_get hx)) (hxs _ (Assoc.mem_of_get hx) field hfield hxnil) hreads hc'
    rcases hcases with rfl | ⟨-, hcnil, -⟩
    · exact ⟨c, rfl, hkept⟩
    · exact absurd (hback hcnil) hxnil

end Levels

section Knot

theorem convertsNil : ∀ fuel : ℕ, ConvertsNil (b.convert fuel)
  | 0 => fun _ _ _ h => by cases h
  | _ + 1 => fun _ _ _ h => by
    cases h
    rfl

theorem convertsRead : ∀ fuel : ℕ, ConvertsRead b (b.convert fuel)
  | 0 => fun _ _ _ _ _ h => by cases h
  | fuel + 1 => by
    intro t x y hx hn h
    have hc := convertsRead fuel
    simp only [Builder.convert] at h
    cases hn with
    | fixed hf =>
      obtain rfl := convertWith_fixed hf h
      exact ⟨id, .same⟩
    | array ht hne hxs =>
      rw [convertWith_array ht] at h
      obtain ⟨ys, hys, rfl⟩ := map_eq_ok.1 h
      have hall := mapM_eq_ok hys
      have hys : ys ≠ [] := by
        rintro rfl
        cases hall
        exact hne rfl
      rw [Builder.ofSlice, if_neg hys]
      refine ⟨by simp, .arr hall.length_eq.symm fun i x y hix hiy => ?_⟩
      cases hx with
      | arr hjson =>
        have hmem := List.mem_of_getElem? hix
        exact (hc _ _ _ (hjson x hmem) (hxs x hmem) (forall₂_getElem? hall hix hiy)).2
    | map ht hxs =>
      cases hx with
      | map hkeyed hjson =>
      rw [convertWith_map ht] at h
      obtain ⟨r, hr, rfl⟩ := map_eq_ok.1 h
      obtain ⟨n, rfl, hs, hget⟩ := convertMap_eq_ok hkeyed hr
      refine ⟨(fun hnil => by cases hnil), .map hs.nodup fun k x y hkx hky => ?_⟩
      rcases hget k with ⟨hnone, -⟩ | ⟨v, w, hv, hw, hconv⟩
      · simp [hnone] at hkx
      · cases hkx.symm.trans hv
        cases hky.symm.trans hw
        have hmem := Assoc.mem_of_get hv
        exact (hc _ _ _ (hjson _ hmem) (hxs _ hmem) hconv).2
    | named ht hfind hobj =>
      rw [convertWith_named ht hfind] at h
      obtain ⟨r, hr, rfl⟩ := map_eq_ok.1 h
      exact ⟨by simp, constructWith_reads (convertsNil fuel) hc hx hobj hr⟩

theorem convertsBack : ∀ fuel : ℕ, ConvertsBack b (b.convert fuel)
  | 0 => fun _ _ _ _ _ _ _ h => by cases h
  | fuel + 1 => by
    intro t x y w hx hn hreads h
    have hc := convertsBack fuel
    simp only [Builder.convert] at h
    cases hn with
    | fixed hf =>
      obtain rfl := convertWith_fixed (hf.reads hreads) h
      refine ⟨fun hy => ?_, hreads.kept⟩
      subst hy
      cases hreads
      rfl
    | array ht hne hxs =>
      obtain ⟨ys, rfl, hlen, hshared⟩ := hreads.of_arr
      rw [convertWith_array ht] at h
      obtain ⟨zs, hzs, rfl⟩ := map_eq_ok.1 h
      have hall := mapM_eq_ok hzs
      have hzs : zs ≠ [] := by
        rintro rfl
        cases hall
        exact hne (List.eq_nil_of_length_eq_zero hlen.symm)
      rw [Builder.ofSlice, if_neg hzs]
      refine ⟨by simp, .arr (hall.length_eq.symm.trans hlen) fun i x y z hix hiy hiz => ?_⟩
      cases hx with
      | arr hjson =>
        have hmem := List.mem_of_getElem? hix
        exact (hc _ _ _ _ (hjson x hmem) (hxs x hmem) (hshared i x y hix hiy)
          (forall₂_getElem? hall hiy hiz)).2
    | map ht hxs =>
      cases hx with
      | map hkeyed hjson =>
      obtain ⟨n, rfl, hkeyed', hshared⟩ := hreads.of_map hkeyed
      rw [convertWith_map ht] at h
      obtain ⟨r, hr, rfl⟩ := map_eq_ok.1 h
      obtain ⟨n', rfl, -, hget⟩ := convertMap_eq_ok hkeyed' hr
      refine ⟨(fun hnil => by cases hnil), .map fun k x y hkx hky => ?_⟩
      rcases hget k with ⟨hnone, -⟩ | ⟨v, z, hv, hz, hconv⟩
      · simp [hnone] at hky
      · cases hky.symm.trans hv
        have hmem := Assoc.mem_of_get hkx
        exact ⟨z, hz, (hc _ _ _ _ (hjson _ hmem) (hxs _ hmem) (hshared k x _ hkx hv) hconv).2⟩
    | named ht hfind hobj =>
      cases hx with
      | map hkeyed hjson =>
      obtain ⟨n, rfl, -, -⟩ := hreads.of_map hkeyed
      rw [convertWith_named ht hfind] at h
      obtain ⟨r, hr, rfl⟩ := map_eq_ok.1 h
      exact ⟨by simp, constructWith_back (convertsNil fuel) hc (.map hkeyed hjson) hobj hreads hr⟩

end Knot

/-- What was read of a stored object is written back: at every path at which the object holds a
value and that was shown, the merged object holds that value. -/
theorem Builder.read_back_kept {schema : Schema} {d r u : Doc} {fuel fuel' : ℕ} (hd : Json (.map d))
    (hn : Normal b (.object schema) (.map d)) (hr : b.Construct fuel schema d .List = .ok r)
    (hu : b.Construct fuel' schema r .Update = .ok u) (internal : Schema → Option Schema) :
    Kept (.map d) (.map r)
      (.map (Merge.UpdateMerge b.names internal b.Schemas false (some schema) d u)) := by
  have hreads := constructWith_reads (convertsNil fuel) (convertsRead fuel) hd hn hr
  exact Merge.kept_updateMerge hd (constructWith_back (convertsNil fuel') (convertsBack fuel') hd hn hreads hu)

section Note

/-- An object with a note and a list of numbers. -/
def noteSchema : Schema :=
  plainSchema "note" [("ports", { type := "array[int]", update := true }),
    ("text", { type := "string", update := true })]

theorem noteSchema_fields {k : String} {field : Field}
    (h : noteSchema.resourceFields.get k = some field) :
    field.update = true
      ∧ (k = "ports" ∧ field.type = "array[int]" ∨ k = "text" ∧ field.type = "string") := by
  have hall : ∀ f ∈ noteSchema.resourceFields.entries, f.2.update = true
      ∧ (f.1 = "ports" ∧ f.2.type = "array[int]" ∨ f.1 = "text" ∧ f.2.type = "string") := by
    decide +kernel
  exact hall (k, field) (SortedMap.mem_entries.2 h)

def storedNote (text : String) : Doc := [("ports", .arr [.int 80]), ("text", .str text)]

theorem mem_storedNote {text : String} {e : String × Value} (he : e ∈ storedNote text) :
    e = ("ports", .arr [.int 80]) ∨ e = ("text", .str text) := by
  simpa [storedNote] using he

theorem storedNote_json (text : String) : Json (.map (storedNote text)) := by
  refine .map ?_ fun e he => ?_
  · show ["ports", "text"].Nodup
    decide
  · rcases mem_storedNote he with rfl | rfl
    · exact .arr (by simp [Json.int])
    · exact .str

theorem storedNote_normal : Normal (plainBuilder []) (.object noteSchema) (.map (storedNote "a b")) := by
  have hfield : ∀ k, k = "ports" ∨ k = "text" →
      ∃ field, noteSchema.resourceFields.get k = some field := by
    rintro k (rfl | rfl) <;> exact Option.isSome_iff_exists.1 (by decide +kernel)
  refine .object (fun e he => ?_) (fun e he => ?_) fun e he field hget _ => ?_
  · rintro (⟨g, field, hg, hdate, -⟩ | hedit)
    · rcases (noteSchema_fields hg).2 with ⟨-, ht⟩ | ⟨-, ht⟩ <;> simp [ht] at hdate
    · rcases mem_storedNote he with rfl | rfl <;> exact absurd hedit (by decide)
  · rcases mem_storedNote he with rfl | rfl
    · obtain ⟨field, hget⟩ := hfield "ports" (.inl rfl)
      exact ⟨field, hget, (noteSchema_fields hget).1, nofun⟩
    · obtain ⟨field, hget⟩ := hfield "text" (.inr rfl)
      exact ⟨field, hget, (noteSchema_fields hget).1, nofun⟩
  · rcases mem_storedNote he with rfl | rfl
    · have ht : field.type = "array[int]" := by simpa using (noteSchema_fields hget).2
      rw [ht]
      refine .array (by decide) (by simp) fun x hx => .fixed ?_
      cases List.mem_singleton.1 hx
      exact .int
    · have ht : field.type = "string" := by simpa using (noteSchema_fields hget).2
      rw [ht]
      exact .fixed (.text (by decide) (by decide +kernel) (by decide) (by simp))

theorem note_kept :
    ∃ r u, (plainBuilder []).Construct 3 noteSchema (storedNote "a b") .List = .ok r
      ∧ (plainBuilder []).Construct 3 noteSchema r .Update = .ok u
      ∧ Kept (.map (storedNote "a b")) (.map r)
        (.map (Merge.UpdateMerge Schemas.plainEnv (fun _ => none) (plainBuilder []).Schemas false
          (some noteSchema) (storedNote "a b") u)) := by
  have hr : (plainBuilder []).Construct 3 noteSchema (storedNote "a b") .List
      = .ok (storedNote "a b") := by
    decide +kernel
  have hu : (plainBuilder []).Construct 3 noteSchema (storedNote "a b") .Update
      = .ok (storedNote "a b") := by
    decide +kernel
  exact ⟨_, _, hr, hu, Builder.read_back_kept (storedNote_json _) storedNote_normal hr hu _⟩

theorem storedNote_typed (text : String) :
    WellTyped (plainBuilder []) (.object noteSchema) (.map (storedNote text)) := by
  refine .object (fun e he => ?_) (fun e he field _ hnil => ?_) fun e he field hget _ => ?_
  · have hfields : noteSchema.resourceFields.get "ports" ≠ none
        ∧ noteSchema.resourceFields.get "text" ≠ none := by
      decide +kernel
    rcases mem_storedNote he with rfl | rfl
    · exact hfields.1
    · exact hfields.2
  · rcases mem_storedNote he with rfl | rfl <;> cases hnil
  · rcases mem_storedNote he with rfl | rfl
    · have ht : field.type = "array[int]" := by simpa using (noteSchema_fields hget).2
      rw [ht]
      refine .array (by decide) (by simp) fun x hx => ?_
      cases List.mem_singleton.1 hx
      exact .int
    · have ht : field.type = "string" := by simpa using (noteSchema_fields hget).2
      rw [ht]
      exact .text (by decide)

/-- The space at the end of the text is shown, and is lost when the object is written back. -/
theorem note_trimmed :
    Json (.map (storedNote "a "))
      ∧ WellTyped (plainBuilder []) (.object noteSchema) (.map (storedNote "a "))
      ∧ (∀ k field, noteSchema.resourceFields.get k = some field → field.update = true)
      ∧ ∃ r u, (plainBuilder []).Construct 3 noteSchema (storedNote "a ") .List = .ok r
        ∧ (plainBuilder []).Construct 3 noteSchema r .Update = .ok u
        ∧ ¬ Kept (.map (storedNote "a ")) (.map r)
          (.map (Merge.UpdateMerge Schemas.plainEnv (fun _ => none) (plainBuilder []).Schemas false
            (some noteSchema) (storedNote "a ") u)) := by
  have hr : (plainBuilder []).Construct 3 noteSchema (storedNote "a ") .List
      = .ok (storedNote "a ") := by
    decide +kernel
  have hu : (plainBuilder []).Construct 3 noteSchema (storedNote "a ") .Update
      = .ok (storedNote "a") := by
    decide +kernel
  have htext : Assoc.get "text" (Merge.UpdateMerge Schemas.plainEnv (fun _ => none)
      (plainBuilder []).Schemas false (some noteSchema) (storedNote "a ") (storedNote "a"))
      = some (.str "a") := by
    decide +kernel
  refine ⟨storedNote_json _, storedNote_typed _, fun k field h => (noteSchema_fields h).1,
    _, _, hr, hu, fun hkept => ?_⟩
  obtain ⟨c, hc, hold⟩ := hkept.child (s := .key "text") (a := .str "a ") rfl (y := .str "a ") rfl
  cases htext.symm.trans hc
  exact absurd hold.holds (by simp [Holds])

end Note

end Norman.Parse
