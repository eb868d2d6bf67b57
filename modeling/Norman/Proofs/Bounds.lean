import Norman.Proofs.Numbers

/-!
# Bounds of numbers

When an object is written, `CheckFieldCriteria` compares a number with the bounds of its field. It
knows a number by its being an `int64`, and it is called for the value of a field and for the
elements of an array that is the value of a field. So a `float64` is not compared with anything, nor
is a number in a map, or in an array within an array or a map.
-/

namespace Norman.Parse

open Norman.Types Norman.Convert Gather

section Numbers

/-- An `int64`, or the bits of a `float64`. -/
inductive Number where
  | int (n : Int)
  | float (bits : UInt64)
  deriving DecidableEq

/-- The magnitude of a `float64`, as a multiple of `2 ^ -1074`; that of an infinity is larger than
that of every `int64`. -/
def magnitude (bits : UInt64) : ℕ :=
  let exponent := (bits >>> 52 &&& 0x7ff).toNat
  let fraction := (bits &&& 0xfffffffffffff).toNat
  if exponent = 0 then fraction else (0x10000000000000 + fraction) <<< (exponent - 1)

/-- The value of a `float64`, as a multiple of `2 ^ -1074`. -/
def scaled (bits : UInt64) : Int :=
  if bits >>> 63 = 0 then magnitude bits else -(magnitude bits : Int)

/-- The number lies between the bounds that the field has. -/
def Number.Within (field : Field) : Number → Prop
  | .int n => (∀ min ∈ field.min, min ≤ n) ∧ ∀ max ∈ field.max, n ≤ max
  | .float bits => (∀ min ∈ field.min, isNaN bits = false ∧ min * (1 <<< 1074 : ℕ) ≤ scaled bits)
      ∧ ∀ max ∈ field.max, isNaN bits = false ∧ scaled bits ≤ max * (1 <<< 1074 : ℕ)

/-- Where a number is in the value of its field: it is the value, it is an element of the array that
the value is, or it is further down. -/
inductive Depth where
  | value
  | element
  | deeper
  deriving DecidableEq

/-- The depth of an element of an array. -/
def Depth.inArray : Depth → Depth
  | .value => .element
  | _ => .deeper

/-- A number taken from the input, for this field. -/
structure Taken where
  field : Field
  depth : Depth
  number : Number

def Taken.Within (p : Taken) : Prop := p.number.Within p.field

/-- The builder compares it with the bounds. -/
def Taken.Compared (p : Taken) : Prop := (∃ n, p.number = .int n) ∧ p.depth ≠ .deeper

/-- What a simple conversion gives, if it is a number. -/
def numberOf : Value → Option Number
  | .int n => some (.int n)
  | .float bits => some (.float bits)
  | _ => none

theorem numberOf_eq_int {w : Value} {n : Int} : numberOf w = some (.int n) ↔ w = .int n := by
  cases w <;> simp [numberOf]

/-- The number is taken from a value that is converted to this type, for this field. -/
inductive Takes (b : Builder) (op : Operation) : Field → Depth → String → Value → Taken → Prop where
  | number {field : Field} {depth : Depth} {t : String} {v w : Value} {number : Number} :
    t ∈ ["int", "float", "intOrString"] → ConvertSimple b.env t v op = .ok w →
    numberOf w = some number → Takes b op field depth t v ⟨field, depth, number⟩
  | array {field : Field} {depth : Depth} {t : String} {xs : List Value} {x : Value} {p : Taken} :
    IsArrayType t = true → x ∈ xs → Takes b op field depth.inArray (SubType t) x p →
    Takes b op field depth t (.arr xs) p
  | map {field : Field} {depth : Depth} {t k : String} {m : Doc} {x : Value} {p : Taken} :
    IsMapType t = true → (k, x) ∈ m → Takes b op field .deeper (SubType t) x p →
    Takes b op field depth t (.map m) p
  | named {field field' : Field} {depth : Depth} {t k : String} {schema : Schema} {m : Doc}
    {x : Value} {p : Taken} : IsNamed t → b.schema t = some schema → (k, x) ∈ m →
    schema.resourceFields.get k = some field' → fieldMatchesOp field' op = true →
    Takes b op field' .value field'.type x p → Takes b op field depth t (.map m) p

/-- The number is taken from an input for an object of the schema. -/
def TakesFrom (b : Builder) (op : Operation) (schema : Schema) (input : Doc) (p : Taken) : Prop :=
  ∃ k x field, (k, x) ∈ input ∧ schema.resourceFields.get k = some field
    ∧ fieldMatchesOp field op = true ∧ Takes b op field .value field.type x p

end Numbers

variable {b : Builder} {op : Operation} {convert : Conversion}

section Checks

variable {fieldName : String} {field : Field} {n : Int}

/-- A check that found nothing did not fail, nor did the checks after it. -/
theorem check_eq_none {c : Prop} [Decidable c] {err : Httperror.Err} {rest : Option Httperror.Err}
    (h : (if c then some err else rest) = none) : ¬ c ∧ rest = none := by
  by_cases hc : c
  · rw [if_pos hc] at h
    cases h
  · exact ⟨hc, by rwa [if_neg hc] at h⟩

theorem within_of_checkFieldCriteria {env : Env}
    (h : CheckFieldCriteria env fieldName field (.int n) = none) :
    (Number.int n).Within field := by
  unfold CheckFieldCriteria at h
  dsimp only at h
  obtain ⟨-, h⟩ := check_eq_none h
  obtain ⟨hmin, h⟩ := check_eq_none h
  obtain ⟨hmax, -⟩ := check_eq_none h
  constructor
  · intro min hm
    by_contra hlt
    exact hmin ⟨n, rfl, min, hm, not_le.1 hlt⟩
  · intro max hm
    by_contra hlt
    exact hmax ⟨n, rfl, max, hm, not_le.1 hlt⟩

theorem within_of_checkSlice : ∀ {slice : List Value}, b.checkSlice fieldName field slice = none →
    .int n ∈ slice → (Number.int n).Within field
  | v :: slice, h, hmem => by
    unfold Builder.checkSlice at h
    split at h
    · cases h
    · rcases hv : CheckFieldCriteria b.env fieldName field v with _ | err
      · rw [hv] at h
        rcases List.mem_cons.1 hmem with rfl | hmem
        · exact within_of_checkFieldCriteria hv
        · exact within_of_checkSlice h hmem
      · rw [hv] at h
        cases h

/-- A value shows the integer to the check of the field that it is of, at this depth. -/
def Showing (n : Int) (w : Value) : Depth → Prop
  | .value => w = .int n ∨ ∃ xs, w = .arr xs ∧ .int n ∈ xs
  | .element => w = .int n
  | .deeper => False

theorem within_of_checkValue {w : Value} (h : b.checkValue fieldName field w = none)
    (hw : Showing n w .value) : (Number.int n).Within field := by
  rcases hw with rfl | ⟨xs, rfl, hmem⟩
  · exact within_of_checkFieldCriteria h
  · exact within_of_checkSlice h hmem

theorem Showing.ne_nil {w : Value} {depth : Depth} (h : Showing n w depth) : w ≠ .nil := by
  rintro rfl
  cases depth with
  | value => simp [Showing] at h
  | element => simp [Showing] at h
  | deeper => exact h

theorem within_of_copyValue (hop : op.IsList = false) {v : Value} {r : Option Value}
    (h : b.copyValue convert op fieldName field v = .ok r) :
    ∃ w, convert field.type v op = .ok w
      ∧ ∀ n, Showing n w .value → (Number.int n).Within field := by
  obtain ⟨w, hw, rfl, hcheck⟩ := copyValue_ok h
  exact ⟨w, hw, fun n hn => within_of_checkValue (hcheck hop (if_pos (.inl hn.ne_nil))) hn⟩

end Checks

section Levels

theorem constructWith_entry (hop : op.IsList = false) {schema : Schema} {m r : Doc}
    (h : b.constructWith convert schema m op = .ok r) {k : String} {x : Value} {field : Field}
    (hmem : (k, x) ∈ m) (hget : schema.resourceFields.get k = some field)
    (hmatch : fieldMatchesOp field op = true) :
    ∃ w, convert field.type x op = .ok w
      ∧ ∀ n, Showing n w .value → (Number.int n).Within field := by
  obtain ⟨r', hfields, -⟩ := bind_eq_ok.1 h
  obtain ⟨r₀, hcopy, -⟩ := bind_eq_ok.1 hfields
  rw [copyInputs_eq hop] at hcopy
  obtain ⟨w, hw⟩ := gather_entry hcopy hmem
  simp only [copied, hget, hmatch, Bool.not_true, Bool.false_eq_true, if_false] at hw
  exact within_of_copyValue hop hw

theorem convertMap_entry {t : String} {m : Doc} {r : Option Doc}
    (h : Builder.convertMap convert t (.map m) op = .ok r) {k : String} {x : Value}
    (hmem : (k, x) ∈ m) : ∃ w, convert (SubType t) x op = .ok w := by
  rw [convertMap_map] at h
  obtain ⟨m', hm', -⟩ := map_eq_ok.1 h
  obtain ⟨w, hw⟩ := gather_entry hm' hmem
  obtain ⟨w', hw', -⟩ := map_eq_ok.1 hw
  exact ⟨w', wrap_eq_ok.1 hw'⟩

theorem numberTypes_subset : ∀ t ∈ ["int", "float", "intOrString"], t ∈ simpleTypes := by decide

/-- An integer that is compared lies between the bounds, or is still to be compared. -/
theorem Takes.within (hop : op.IsList = false) {field : Field} {depth : Depth} {t : String}
    {v : Value} {p : Taken} {n : Int} (hn : p.number = .int n) (hdepth : p.depth ≠ .deeper)
    (h : Takes b op field depth t v p) : ∀ {fuel : ℕ} {w : Value}, b.convert fuel t v op = .ok w →
      p.Within ∨ p.field = field ∧ Showing n w depth
  | 0, w, hw => by cases hw
  | fuel + 1, w, hw => by
    rw [Builder.convert] at hw
    cases h with
    | number ht hsimple hnumber =>
      rename_i w' number
      obtain rfl : w' = .int n := numberOf_eq_int.1 (hnumber.trans (congrArg some hn))
      have hv : v ≠ .nil := by
        rintro rfl
        cases hsimple
      have hw := convertWith_simple hv (numberTypes_subset t ht) hw
      obtain rfl : .int n = w := Except.ok.inj (hsimple.symm.trans hw)
      refine .inr ⟨rfl, ?_⟩
      cases depth with
      | value => exact .inl rfl
      | element => rfl
      | deeper => exact hdepth rfl
    | array ht hx h =>
      rw [convertWith_array ht] at hw
      obtain ⟨ys, hys, rfl⟩ := map_eq_ok.1 hw
      obtain ⟨y, hy, hconvert⟩ := forall₂_mem (mapM_eq_ok hys) hx
      rcases h.within hop hn hdepth hconvert with hin | ⟨hfield, hshow⟩
      · exact .inl hin
      · refine .inr ⟨hfield, ?_⟩
        cases depth with
        | value =>
          cases hshow
          exact .inr ⟨ys, if_neg (List.ne_nil_of_mem hy), hy⟩
        | element => exact hshow.elim
        | deeper => exact hshow.elim
    | map ht hmem h =>
      rw [convertWith_map ht] at hw
      obtain ⟨m', hm', -⟩ := map_eq_ok.1 hw
      obtain ⟨y, hconvert⟩ := convertMap_entry hm' hmem
      rcases h.within hop hn hdepth hconvert with hin | ⟨-, hshow⟩
      · exact .inl hin
      · exact hshow.elim
    | named ht hschema hmem hget hmatch h =>
      rw [convertWith_named ht hschema] at hw
      obtain ⟨m', hm', -⟩ := map_eq_ok.1 hw
      obtain ⟨y, hconvert, hcheck⟩ := constructWith_entry hop hm' hmem hget hmatch
      rcases h.within hop hn hdepth hconvert with hin | ⟨hfield, hshow⟩
      · exact .inl hin
      · left
        rw [Taken.Within, hn, hfield]
        exact hcheck n hshow

end Levels

/-- The integers that are values of fields, or elements of arrays that are, lie between the bounds
of their fields. -/
theorem TakesFrom.within (hop : op.IsList = false) {fuel : ℕ} {schema : Schema} {input result : Doc}
    (h : b.Construct fuel schema input op = .ok result) {p : Taken}
    (hp : TakesFrom b op schema input p) (hcompared : p.Compared) : p.Within := by
  obtain ⟨k, x, field, hmem, hget, hmatch, htakes⟩ := hp
  obtain ⟨⟨n, hn⟩, hdepth⟩ := hcompared
  obtain ⟨w, hconvert, hcheck⟩ := constructWith_entry hop h hmem hget hmatch
  rcases htakes.within hop hn hdepth hconvert with hin | ⟨hfield, hshow⟩
  · exact hin
  · rw [Taken.Within, hn, hfield]
    exact hcheck n hshow

/-- All numbers of an object that was written lie between their bounds if and only if those do
that are not compared with them: `float64`s, and what is in maps or deeper than in the array of a
field. -/
theorem Builder.Construct_within_iff (hop : op = .Create ∨ op = .Update) {fuel : ℕ} {schema : Schema}
    {input result : Doc} (h : b.Construct fuel schema input op = .ok result) :
    (∀ p, TakesFrom b op schema input p → p.Within)
      ↔ ∀ p, TakesFrom b op schema input p → ¬ p.Compared → p.Within := by
  have hlist : op.IsList = false := by
    rcases hop with rfl | rfl <;> rfl
  constructor
  · intro hall p hp _
    exact hall p hp
  · intro hrest p hp
    by_cases hcompared : p.Compared
    · exact hp.within hlist h hcompared
    · exact hrest p hp hcompared

section Quota

def quotaBuilder : Builder :=
  { plainBuilder [] with env := { (plainBuilder []).env with toEnv := Convert.roughConvert } }

def coresField : Field := { type := "int", create := true, max := some 10 }

def limitsField : Field := { type := "map[int]", create := true, max := some 10 }

def ratioField : Field := { type := "float", create := true, max := some 1 }

def rowsField : Field := { type := "array[array[int]]", create := true, max := some 10 }

def quotaSchema : Schema :=
  plainSchema "quota" [("cores", coresField), ("limits", limitsField), ("ratio", ratioField),
    ("rows", rowsField)]

theorem Takes.of_int {field : Field} {depth : Depth} {v : Value} {p : Taken}
    (h : Takes b op field depth "int" v p) :
    ∃ n, ToNumber b.env.toEnv v = .ok n ∧ p = ⟨field, depth, .int n⟩ := by
  cases h with
  | number _ hsimple hnumber =>
    unfold ConvertSimple at hsimple
    split at hsimple
    · cases hsimple
      cases hnumber
    · obtain ⟨n, hn, rfl⟩ := map_eq_ok.1 hsimple
      cases hnumber
      exact ⟨n, hn, rfl⟩
  | array ht => exact absurd ht (by decide +kernel)
  | map ht => exact absurd ht (by decide +kernel)
  | named ht => exact absurd ht.2.2.2 (by decide)

/-- A hundred in a map and in the rows, and 1.5 for the ratio. -/
def excessive : Doc :=
  [("limits", .map [("cpu", .number "100")]), ("ratio", .float 0x3ff8000000000000),
    ("rows", .arr [.arr [.number "100"]])]

theorem excessive_accepted :
    quotaBuilder.Construct 3 quotaSchema excessive .Create
        = .ok [("limits", .map [("cpu", .int 100)]), ("ratio", .float 0x3ff8000000000000),
          ("rows", .arr [.arr [.int 100]])]
      ∧ ∀ p ∈ [⟨limitsField, .deeper, .int 100⟩, ⟨ratioField, .value, .float 0x3ff8000000000000⟩,
          ⟨rowsField, .deeper, .int 100⟩],
        TakesFrom quotaBuilder .Create quotaSchema excessive p ∧ ¬ p.Within := by
  have hget : ∀ e ∈ [("limits", limitsField), ("ratio", ratioField), ("rows", rowsField)],
      quotaSchema.resourceFields.get e.1 = some e.2 ∧ fieldMatchesOp e.2 .Create = true := by
    decide +kernel
  refine ⟨by decide +kernel, ?_⟩
  have hint : ∀ field depth, Takes quotaBuilder .Create field depth "int" (.number "100")
      ⟨field, depth, .int 100⟩ :=
    fun _ _ => .number (by decide) (w := .int 100) (by decide +kernel) rfl
  simp only [List.forall_mem_cons, List.not_mem_nil, false_imp_iff, implies_true, and_true]
  refine ⟨⟨?_, ?_⟩, ⟨?_, ?_⟩, ?_, ?_⟩
  · refine ⟨"limits", _, limitsField, .head _, (hget _ (.head _)).1, rfl, ?_⟩
    exact .map (by decide +kernel) (.head _) (hint _ _)
  · intro h
    exact absurd (h.2 10 rfl) (by decide)
  · refine ⟨"ratio", _, ratioField, .tail _ (.head _), (hget _ (.tail _ (.head _))).1, rfl, ?_⟩
    exact .number (by decide) (w := .float 0x3ff8000000000000) (by decide +kernel) rfl
  · intro h
    exact absurd (h.2 1 rfl) (by decide +kernel)
  · refine ⟨"rows", _, rowsField, .tail _ (.tail _ (.head _)),
      (hget _ (.tail _ (.tail _ (.head _)))).1, rfl, ?_⟩
    exact .array (by decide +kernel) (.head _) (.array (by decide +kernel) (.head _) (hint _ _))
  · intro h
    exact absurd (h.2 10 rfl) (by decide)

/-- Four cores, and five in the map. -/
def moderate : Doc := [("cores", .number "4"), ("limits", .map [("cpu", .number "5")])]

theorem moderate_within :
    quotaBuilder.Construct 3 quotaSchema moderate .Create
        = .ok [("cores", .int 4), ("limits", .map [("cpu", .int 5)])]
      ∧ ∀ p, TakesFrom quotaBuilder .Create quotaSchema moderate p → p.Within := by
  have hok : quotaBuilder.Construct 3 quotaSchema moderate .Create
      = .ok [("cores", .int 4), ("limits", .map [("cpu", .int 5)])] := by decide +kernel
  refine ⟨hok, (Builder.Construct_within_iff (.inl rfl) hok).2 ?_⟩
  rintro p ⟨k, x, field, hmem, hget, -, htakes⟩ -
  rcases List.mem_cons.1 hmem with heq | hmem
  · cases heq
    obtain rfl : coresField = field := Option.some.inj (.trans (by decide +kernel) hget)
    obtain ⟨n, hn, rfl⟩ := htakes.of_int
    obtain rfl : 4 = n := Except.ok.inj (.trans (by decide +kernel) hn)
    exact ⟨by decide, by decide⟩
  · cases List.mem_singleton.1 hmem
    obtain rfl : limitsField = field := Option.some.inj (.trans (by decide +kernel) hget)
    cases htakes with
    | number ht => exact absurd ht (by decide)
    | map _ hmem h =>
      cases List.mem_singleton.1 hmem
      rw [show SubType limitsField.type = "int" by decide +kernel] at h
      obtain ⟨n, hn, rfl⟩ := h.of_int
      obtain rfl : 5 = n := Except.ok.inj (.trans (by decide +kernel) hn)
      exact ⟨by decide, by decide⟩
    | named ht => exact absurd ht.1 (by decide +kernel)

end Quota

end Norman.Parse
