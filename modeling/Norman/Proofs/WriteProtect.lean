import Norman.Proofs.Levels

/-!
# What a written object depends on

When an object is created or updated, the builder reads the input only at the fields of the schema
that are permitted, and likewise at every level below. So two inputs that agree there are both
refused, or give the same object; in whatever order their entries are taken.
-/

namespace Norman.Parse

open Norman.Types Gather

/-- Each key is there once. -/
def Keyed (m : Doc) : Prop := (m.map Prod.fst).Nodup

variable {b : Builder} {op : Operation}

/-- The values agree at every position whose field is in the schema and permitted, at each level. -/
inductive Agree (b : Builder) (op : Operation) : Place → Value → Value → Prop where
  | same {p : Place} {v : Value} : Agree b op p v v
  | array {t : String} {xs ys : List Value} : IsArrayType t = true → xs.length = ys.length →
    (∀ x y, (x, y) ∈ xs.zip ys → Agree b op (.type (SubType t)) x y) →
    Agree b op (.type t) (.arr xs) (.arr ys)
  | map {t : String} {m m' : Doc} : IsMapType t = true → Keyed m → Keyed m' →
    (∀ k, Assoc.get k m = none ↔ Assoc.get k m' = none) →
    (∀ k x y, Assoc.get k m = some x → Assoc.get k m' = some y →
      Agree b op (.type (SubType t)) x y) →
    Agree b op (.type t) (.map m) (.map m')
  | named {t : String} {schema : Schema} {m m' : Doc} : IsNamed t → b.schema t = some schema →
    Agree b op (.object schema) (.map m) (.map m') → Agree b op (.type t) (.map m) (.map m')
  | object {schema : Schema} {m m' : Doc} : Keyed m → Keyed m' →
    (∀ k field, schema.resourceFields.get k = some field → fieldMatchesOp field op = true →
      (Assoc.get k m = none ↔ Assoc.get k m' = none)) →
    (∀ k field x y, schema.resourceFields.get k = some field → fieldMatchesOp field op = true →
      Assoc.get k m = some x → Assoc.get k m' = some y → Agree b op (.type field.type) x y) →
    Agree b op (.object schema) (.map m) (.map m')

theorem Agree.nil_iff {p : Place} {v v' : Value} (h : Agree b op p v v') :
    v = .nil ↔ v' = .nil := by
  cases h <;> simp

section Conversions

theorem wrap_eq_ok {α : Type} {x : Result α} {r : α} : wrap f x = .ok r ↔ x = .ok r := by
  rcases x with (_ | _ | _) | _ <;> simp [wrap]

theorem sameOk_wrap {α : Type} {x y : Result α}
    (h : SameOk x y) : SameOk (wrap f x) (wrap f y) := fun r => by
  rw [wrap_eq_ok, wrap_eq_ok]
  exact h r

variable {convert : Conversion} {f : Httperror.Err → Httperror.Err}

theorem convertMap_map (t : String) (m : Doc) :
    Builder.convertMap convert t (.map m) op = (gather (fun _ v =>
      (wrap (fun err => Httperror.WrapAPIError err Httperror.InvalidFormat err.Error)
        (convert (SubType t) v op)).map some) m []).map some := by
  simp only [Builder.convertMap]
  rw [foldlM_eq_gather]
  intro acc k v
  rcases wrap _ (convert (SubType t) v op) with e | w <;> rfl

theorem convertMap_eq_ok {t : String} {m : Doc} {r : Option Doc} (hm : Keyed m)
    (h : Builder.convertMap convert t (.map m) op = .ok r) :
    ∃ m', r = some m' ∧ Assoc.Sorted m' ∧ ∀ k, (Assoc.get k m = none ∧ Assoc.get k m' = none)
      ∨ ∃ v w, Assoc.get k m = some v ∧ Assoc.get k m' = some w
        ∧ convert (SubType t) v op = .ok w := by
  rw [convertMap_map] at h
  obtain ⟨m', hm', rfl⟩ := map_eq_ok.1 h
  obtain ⟨hs, hget⟩ := gather_map_spec hm hm'
  refine ⟨m', rfl, hs, fun k => (hget k).imp_right ?_⟩
  rintro ⟨v, w, hv, hw, hconv⟩
  exact ⟨v, w, hv, hw, wrap_eq_ok.1 hconv⟩

/-- Conversions agree at a place, for the fields and elements below it. -/
def ConvertsAlike (b : Builder) (op : Operation)
    (convert : Conversion) : Prop :=
  ∀ t v v', Agree b op (.type t) v v' → SameOk (convert t v op) (convert t v' op)

theorem sameOk_convertArray (hc : ConvertsAlike b op convert) {t : String} {xs ys : List Value}
    (hlen : xs.length = ys.length)
    (h : ∀ x y, (x, y) ∈ xs.zip ys → Agree b op (.type (SubType t)) x y) :
    SameOk (Builder.convertArray convert t (.arr xs) op)
      (Builder.convertArray convert t (.arr ys) op) :=
  SameOk.mapM (List.forall₂_iff_zip.2 ⟨hlen, fun hxy => hc _ _ _ (h _ _ hxy)⟩)

theorem sameOk_convertMap (hc : ConvertsAlike b op convert) {t : String} {m m' : Doc}
    (hm : Keyed m) (hm' : Keyed m') (hkeys : ∀ k, Assoc.get k m = none ↔ Assoc.get k m' = none)
    (h : ∀ k x y, Assoc.get k m = some x → Assoc.get k m' = some y →
      Agree b op (.type (SubType t)) x y) :
    SameOk (Builder.convertMap convert t (.map m) op)
      (Builder.convertMap convert t (.map m') op) := by
  rw [convertMap_map, convertMap_map]
  refine (SameOk.gather hm hm' .nil fun k => ?_).map some
  refine Assoc.both_cases (P := fun x y => SameOk (given _ k x) (given _ k y)) (hkeys k)
    (SameOk.refl _) fun x y hx hy => ?_
  exact (sameOk_wrap (hc _ _ _ (h k x y hx hy))).map some

end Conversions

section Construct

variable {convert : Conversion}

theorem sameOk_copyValue (hc : ConvertsAlike b op convert) {fieldName : String} {field : Field}
    {v v' : Value} (h : Agree b op (.type field.type) v v') :
    SameOk (b.copyValue convert op fieldName field v) (b.copyValue convert op fieldName field v') := by
  unfold Builder.copyValue
  refine (sameOk_wrap (hc _ _ _ h)).bind fun w => ?_
  simp only [h.nil_iff]
  exact .refl _

/-- A value is copied unless it is converted to null, and was no null that may be there. -/
theorem copyValue_ok {k : String} {field : Field} {v : Value} {r : Option Value}
    (h : b.copyValue convert op k field v = .ok r) : ∃ w, convert field.type v op = .ok w
      ∧ (r = if w ≠ .nil ∨ v = .nil ∧ (field.nullable = true ∨ field.default = .nil) then some w
        else none)
      ∧ (op.IsList = false → r = some w → b.checkValue k field w = none) := by
  obtain ⟨w, hw, h⟩ := bind_eq_ok.1 h
  refine ⟨w, wrap_eq_ok.1 hw, ?_⟩
  split at h <;> rename_i hcopy
  · rw [if_pos hcopy]
    split at h <;> cases h
    rename_i hcheck
    exact ⟨rfl, fun hop _ => by simpa [hop] using hcheck⟩
  · rw [if_neg hcopy]
    cases h
    exact ⟨rfl, fun _ hr => by cases hr⟩

/-- What `copyInputs` writes at a key. -/
def copied (b : Builder) (convert : Conversion) (schema : Schema)
    (op : Operation) (fieldName : String) (value : Value) : Result (Option Value) :=
  match schema.resourceFields.get fieldName with
  | none => .ok none
  | some field =>
    if !fieldMatchesOp field op then .ok none else b.copyValue convert op fieldName field value

theorem copyInputs_eq (hop : op.IsList = false) (schema : Schema) (m result : Doc) :
    b.copyInputs convert schema m op result = gather (copied b convert schema op) m result := by
  unfold Builder.copyInputs
  rw [foldlM_eq_gather]
  · simp only [hop, Bool.false_eq_true, false_and, if_false]
    exact bind_pure _
  · intro acc k v
    simp only [Builder.copyInput, copied]
    rcases schema.resourceFields.get k with _ | field
    · rfl
    · dsimp only
      split
      · rfl
      · refine bind_congr fun w => ?_
        rcases w with _ | w
        · rfl
        · simp only [hop, Bool.false_eq_true, false_and, if_false]
          rfl

theorem sameOk_copied (hc : ConvertsAlike b op convert) {schema : Schema} {m m' : Doc}
    (hkeys : ∀ k field, schema.resourceFields.get k = some field → fieldMatchesOp field op = true →
      (Assoc.get k m = none ↔ Assoc.get k m' = none))
    (h : ∀ k field x y, schema.resourceFields.get k = some field → fieldMatchesOp field op = true →
      Assoc.get k m = some x → Assoc.get k m' = some y → Agree b op (.type field.type) x y)
    (k : String) :
    SameOk (given (copied b convert schema op) k (Assoc.get k m))
      (given (copied b convert schema op) k (Assoc.get k m')) := by
  -- a key without a permitted field gives nothing, whether it is there or not
  by_cases hf : ∃ field, schema.resourceFields.get k = some field ∧ fieldMatchesOp field op = true
  · obtain ⟨field, hget, hmatch⟩ := hf
    refine Assoc.both_cases (P := fun x y => SameOk (given _ k x) (given _ k y))
      (hkeys k field hget hmatch) (SameOk.refl _) fun x y hx hy => ?_
    simp only [given, copied, hget, hmatch]
    exact sameOk_copyValue hc (h k field x y hget hmatch hx hy)
  · have hnone : ∀ v, given (copied b convert schema op) k v = .ok none := by
      rintro (_ | v)
      · rfl
      · simp only [given, copied]
        rcases hget : schema.resourceFields.get k with _ | field
        · rfl
        · have hmatch : fieldMatchesOp field op = false := by
            simpa [hget] using hf
          simp [hmatch]
    rw [hnone, hnone]
    exact .refl _

theorem sameOk_constructWith (hop : op.IsList = false) (hc : ConvertsAlike b op convert)
    {schema : Schema} {m m' : Doc} (h : Agree b op (.object schema) (.map m) (.map m')) :
    SameOk (b.constructWith convert schema m op) (b.constructWith convert schema m' op) := by
  cases h with
  | same => exact .refl _
  | object hm hm' hkeys h =>
    unfold Builder.constructWith Builder.copyFields
    refine SameOk.bind (SameOk.bind ?_ fun _ => .refl _) fun _ => .refl _
    rw [copyInputs_eq hop, copyInputs_eq hop]
    exact SameOk.gather hm hm' .nil (sameOk_copied hc hkeys h)

end Construct

section Written

variable {convert : Conversion}

/-- What `checkDefaultAndRequired` leaves of a field when an object is written. -/
def defaulted (op : Operation) (field : Field) (val : Option Value) : Option Value :=
  if op = .Create ∧ (val = none ∨ val = some (.str "")) ∧ field.default ≠ .nil then
    some field.default
  else val

theorem checkField_write (hop : op.IsList = false) {k : String} {field : Field} {result r : Doc}
    (hs : Assoc.Sorted result) (h : Builder.checkField convert op k field result = .ok r) :
    Assoc.Sorted r ∧ ∀ j, Assoc.get j r
      = if j = k then defaulted op field (Assoc.get k result) else Assoc.get j result := by
  obtain ⟨_, -, h⟩ := bind_eq_ok.1 h
  simp only [hop, Bool.false_eq_true, false_and, if_false] at h
  cases h
  by_cases hd : op = .Create
      ∧ (Assoc.get k result = none ∨ Assoc.get k result = some (.str "")) ∧ field.default ≠ .nil
  · rw [if_pos hd]
    refine ⟨hs.set, fun j => ?_⟩
    rw [Assoc.get_set, defaulted, if_pos hd]
  · rw [if_neg hd]
    refine ⟨hs, fun j => ?_⟩
    rw [defaulted, if_neg hd]
    split
    · rename_i hj
      rw [hj]
    · rfl

theorem checkFields_write (hop : op.IsList = false) {fields : List (String × Field)}
    {result r : Doc} (hn : (fields.map Prod.fst).Nodup) (hs : Assoc.Sorted result)
    (h : fields.foldlM (fun result e => Builder.checkField convert op e.1 e.2 result) result = .ok r) :
    Assoc.Sorted r ∧ ∀ j, Assoc.get j r
      = (Assoc.get j fields).elim (Assoc.get j result) fun field =>
        defaulted op field (Assoc.get j result) :=
  foldlM_pointwise (g := fun _ field => defaulted op field)
    (fun _ _ _ _ hs h => checkField_write hop hs h) hn hs h

/-- What is written at a key: what was copied there, or the default. -/
theorem constructWith_write (hop : op.IsList = false) {schema : Schema} {m r : Doc} (hm : Keyed m)
    (h : b.constructWith convert schema m op = .ok r) :
    Assoc.Sorted r ∧ ∀ k, ∃ w, given (copied b convert schema op) k (Assoc.get k m) = .ok w
      ∧ Assoc.get k r = (schema.resourceFields.get k).elim none fun field => defaulted op field w := by
  obtain ⟨r', hfields, hvalid⟩ := bind_eq_ok.1 h
  obtain rfl : r' = r := by
    split at hvalid
    · cases hvalid
      rfl
    · split at hvalid
      · cases hvalid
      · cases hvalid
        rfl
  obtain ⟨r₀, hcopy, hcheck⟩ := bind_eq_ok.1 hfields
  rw [copyInputs_eq hop] at hcopy
  obtain ⟨hs₀, hget₀⟩ := gather_spec hm .nil hcopy
  obtain ⟨r₁, hloop, hlist⟩ := bind_eq_ok.1 hcheck
  simp only [hop, Bool.false_eq_true, false_and, if_false] at hlist
  cases hlist
  obtain ⟨hs, hget⟩ := checkFields_write hop schema.resourceFields.nodup_keys hs₀ hloop
  refine ⟨hs, fun k => ?_⟩
  obtain ⟨w, hw, hk⟩ := hget₀ k
  refine ⟨w, hw, ?_⟩
  rw [hget k, hk, Assoc.get_nil, Option.or_none]
  rcases hfield : schema.resourceFields.get k with _ | field
  · -- a key without a field is not copied
    have hnone : w = none := by
      rcases hv : Assoc.get k m with _ | v <;> simp [hv, given, copied, hfield] at hw <;> exact hw.symm
    rw [show Assoc.get k schema.resourceFields.entries = none from hfield, hnone, Option.elim_none]
  · rw [show Assoc.get k schema.resourceFields.entries = some field from hfield, Option.elim_some,
      Option.elim_some]

end Written

section Convert

theorem convertsAlike (hop : op.IsList = false) :
    ∀ fuel : ℕ, ConvertsAlike b op (b.convert fuel)
  | 0 => fun _ _ _ _ => .refl _
  | fuel + 1 => by
    intro t v v' h
    have hc := convertsAlike hop fuel
    simp only [Builder.convert]
    cases h with
    | same => exact .refl _
    | array ht hlen h =>
      rw [convertWith_array ht, convertWith_array ht]
      exact (sameOk_convertArray hc hlen h).map _
    | map ht hm hm' hkeys h =>
      rw [convertWith_map ht, convertWith_map ht]
      exact (sameOk_convertMap hc hm hm' hkeys h).map _
    | named ht hschema h =>
      rw [convertWith_named ht hschema, convertWith_named ht hschema]
      exact (sameOk_constructWith hop hc h).map _

end Convert

/-- Inputs that agree where the operation may write are both refused, or give the same object. The
lookups of both runs are those of `b`: a name that stands for several schemas is looked up alike,
which in the source holds of a registry whose map is gone through in the same order. -/
theorem Builder.construct_write_protected (hop : op = .Create ∨ op = .Update) {schema : Schema}
    {input input' : Doc} (h : Agree b op (.object schema) (.map input) (.map input'))
    (fuel : ℕ) (result : Doc) :
    b.Construct fuel schema input op = .ok result
      ↔ b.Construct fuel schema input' op = .ok result := by
  have hlist : op.IsList = false := by
    rcases hop with rfl | rfl <;> rfl
  exact sameOk_constructWith hlist (convertsAlike hlist fuel) h result

section Server

def diskSchema : Schema :=
  plainSchema "disk" [("size", { type := "string", create := true }), ("node", { type := "string" })]

def serverSchema : Schema :=
  plainSchema "server" [("name", { type := "string", create := true }),
    ("disks", { type := "array[disk]", create := true }), ("state", { type := "string" })]

/-- The fields that may be set are two. -/
theorem serverSchema_permitted : ∀ e ∈ serverSchema.resourceFields.entries,
    fieldMatchesOp e.2 .Create = true →
    e = ("disks", { type := "array[disk]", create := true })
      ∨ e = ("name", { type := "string", create := true }) := by
  decide +kernel

theorem diskSchema_permitted : ∀ e ∈ diskSchema.resourceFields.entries,
    fieldMatchesOp e.2 .Create = true → e = ("size", { type := "string", create := true }) := by
  decide +kernel

theorem disks_agree : Agree (plainBuilder [diskSchema]) .Create (.object diskSchema)
    (.map [("size", .str "1")]) (.map [("node", .str "n"), ("size", .str "1")]) := by
  refine .object (by unfold Keyed; decide) (by unfold Keyed; decide) ?_ ?_
  · intro k field hget hmatch
    cases diskSchema_permitted (k, field) (SortedMap.mem_entries.2 hget) hmatch
    decide
  · intro k field x y hget hmatch hx hy
    cases diskSchema_permitted (k, field) (SortedMap.mem_entries.2 hget) hmatch
    cases hx
    cases hy
    exact .same

/-- The state of the server and the nodes of its disks are not for writing. -/
theorem server_write_protected :
    Agree (plainBuilder [diskSchema]) .Create (.object serverSchema)
        (.map [("name", .str "a"), ("disks", .arr [.map [("size", .str "1")]])])
        (.map [("disks", .arr [.map [("node", .str "n"), ("size", .str "1")]]), ("name", .str "a"),
          ("state", .str "up")])
      ∧ (plainBuilder [diskSchema]).Construct 3 serverSchema
          [("disks", .arr [.map [("node", .str "n"), ("size", .str "1")]]), ("name", .str "a"),
            ("state", .str "up")] .Create
        = .ok [("disks", .arr [.map [("size", .str "1")]]), ("name", .str "a")] := by
  have hserver : Agree (plainBuilder [diskSchema]) .Create (.object serverSchema)
      (.map [("name", .str "a"), ("disks", .arr [.map [("size", .str "1")]])])
      (.map [("disks", .arr [.map [("node", .str "n"), ("size", .str "1")]]), ("name", .str "a"),
        ("state", .str "up")]) := by
    refine .object (by unfold Keyed; decide) (by unfold Keyed; decide) ?_ ?_
    · intro k field hget hmatch
      rcases serverSchema_permitted (k, field) (SortedMap.mem_entries.2 hget) hmatch with h | h <;>
        cases h <;> decide
    · intro k field x y hget hmatch hx hy
      rcases serverSchema_permitted (k, field) (SortedMap.mem_entries.2 hget) hmatch with h | h <;>
        cases h <;> cases hx <;> cases hy
      · refine .array (by decide +kernel) rfl ?_
        intro x y hxy
        obtain ⟨rfl, rfl⟩ : x = _ ∧ y = _ := by simpa using hxy
        exact .named (by unfold IsNamed; decide +kernel) (by decide +kernel) disks_agree
      · exact .same
  exact ⟨hserver, (Builder.construct_write_protected (.inl rfl) hserver 3 _).1 (by decide +kernel)⟩

end Server

end Norman.Parse
