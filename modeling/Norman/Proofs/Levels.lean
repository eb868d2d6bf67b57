import Norman.Builder
import Norman.Lib.Gather
import Norman.Proofs.SchemaViews
import Norman.Proofs.TypeNames

/-!
# The levels of a conversion

What a value is converted by, level by level, and what the fuel does: more of it changes only what
ran out of it, and a response does not run out of it, since a listing only goes down the value.
-/

namespace Norman.Parse

open Norman.Types Gather

section Places

/-- The types that `ConvertSimple` knows. -/
def simpleTypes : List String :=
  ["json", "date", "boolean", "enum", "int", "float", "password", "string", "dnsLabel",
    "dnsLabelRestricted", "hostname", "intOrString", "base64", "reference"]

/-- A type that is looked up among the schemas. -/
def IsNamed (t : String) : Prop :=
  IsMapType t = false ∧ IsArrayType t = false ∧ IsReferenceType t = false ∧ t ∉ simpleTypes

/-- What a value is converted by: a type, or the schema of an object. -/
inductive Place where
  | type (fieldType : String)
  | object (schema : Schema)

variable {b : Builder} {op : Operation} {convert : Conversion}
  {t : String} {v : Value}

theorem convertSimple_of_not_mem {env : Env} (ht : t ∉ simpleTypes) (hv : v ≠ .nil) :
    ConvertSimple env t v op = .error .complexType := by
  unfold ConvertSimple
  rw [if_neg hv]
  split
  case h_15 => rfl
  all_goals exact absurd (by decide) ht

theorem convertWith_array (ht : IsArrayType t = true) (xs : List Value) :
    b.convertWith convert t (.arr xs) op
      = (Builder.convertArray convert t (.arr xs) op).map Builder.ofSlice := by
  simp only [Builder.convertWith, reduceCtorEq, if_false, isMapType_of_isArrayType ht, ht,
    Bool.false_eq_true, if_true]

theorem convertWith_map (ht : IsMapType t = true) (m : Doc) :
    b.convertWith convert t (.map m) op
      = (Builder.convertMap convert t (.map m) op).map Builder.ofMap := by
  simp only [Builder.convertWith, reduceCtorEq, if_false, ht, if_true]

theorem convertWith_named {schema : Schema} (ht : IsNamed t) (hschema : b.schema t = some schema)
    (m : Doc) :
    b.convertWith convert t (.map m) op = (b.constructWith convert schema m op).map .map := by
  unfold Builder.convertWith
  rw [if_neg (by simp), ht.1, ht.2.1, ht.2.2.1, convertSimple_of_not_mem ht.2.2.2 (by simp)]
  simp only [Bool.false_eq_true, if_false, Builder.convertType, hschema]

end Places

section Fuel

variable {b : Builder} {op : Operation}

theorem avoids_ofErr {α : Type} (x : Except Httperror.Err α) : Avoids .noFuel (ofErr x) := by
  cases x <;> nofun

theorem avoids_equal (x y : Value) : Avoids .noFuel (equal x y) := by
  cases x <;> cases y <;> first | exact .ok _ | exact fun h => nomatch h

theorem sizeOf_lt_of_mem_doc {m : Doc} {e : String × Value} (he : e ∈ m) :
    sizeOf e.2 < sizeOf m := by
  have hlt := List.sizeOf_lt_of_mem he
  obtain ⟨k, v⟩ := e
  simp only [Prod.mk.sizeOf_spec] at hlt ⊢
  omega

section Level

variable {p : Prop} {convert convert' : Conversion}

theorem below_wrap {α : Type} (f : Httperror.Err → Httperror.Err) {x y : Result α}
    (h : Below p .noFuel x y) : Below p .noFuel (wrap f x) (wrap f y) := by
  rcases h with ⟨hp, rfl⟩ | ⟨rfl, h⟩
  · exact .inl ⟨hp, rfl⟩
  · rcases x with (err | _ | _) | a
    · exact .of_avoids nofun
    all_goals exact .of_avoids h

theorem below_copyInputs {m : Doc}
    (h : ∀ e ∈ m, ∀ t, Below p .noFuel (convert t e.2 op) (convert' t e.2 op)) (schema : Schema)
    (result : Doc) :
    Below p .noFuel (b.copyInputs convert schema m op result)
      (b.copyInputs convert' schema m op result) := by
  refine Below.bind (.foldlM result fun e he result => ?_) fun result => .of_avoids ?_
  · unfold Builder.copyInput
    rcases schema.resourceFields.get e.1 with _ | field
    · exact .ok _
    · dsimp only
      split
      · exact .ok _
      · refine ((below_wrap _ (h e he _)).bind fun w => .of_avoids ?_).bind fun w => .of_avoids ?_
        · split
          · split <;> nofun
          · exact .ok _
        · rcases w with _ | w
          · exact .ok _
          · dsimp only
            split
            · split <;> exact .ok _
            · exact .ok _
  · split <;> exact .ok _

section Deeper

variable {v : Value}
  (h : ∀ t x, sizeOf x < sizeOf v → Below p .noFuel (convert t x op) (convert' t x op))

include h

theorem below_convertArray (t : String) : Below p .noFuel
    (Builder.convertArray convert t v op) (Builder.convertArray convert' t v op) := by
  cases v with
  | arr xs =>
    refine .mapM fun x hx => h _ x ?_
    have hlt := List.sizeOf_lt_of_mem hx
    simp only [Value.arr.sizeOf_spec]
    omega
  | _ => exact .ok _

theorem below_convertMap (t : String) : Below p .noFuel
    (Builder.convertMap convert t v op) (Builder.convertMap convert' t v op) := by
  cases v with
  | map m =>
    refine Below.map some (.foldlM [] fun e he _ => (below_wrap _ (h _ e.2 ?_)).bind fun _ => .ok _)
    have hlt := sizeOf_lt_of_mem_doc he
    simp only [Value.map.sizeOf_spec]
    omega
  | _ => exact .ok _

end Deeper

theorem below_checkField
    (hreq : op = .Create → ∀ t x, Below p .noFuel (convert t x op) (convert' t x op))
    (fieldName : String) (field : Field) (result : Doc) :
    Below p .noFuel (Builder.checkField convert op fieldName field result)
      (Builder.checkField convert' op fieldName field result) := by
  refine Below.bind ?_ fun _ => .of_avoids ?_
  · unfold Builder.checkRequired
    split
    · rename_i hcreate
      split
      · exact .of_avoids nofun
      · split
        · refine (below_convertArray (fun t x _ => hreq hcreate.1 t x) _).bind
            fun slice => .of_avoids ?_
          split <;> nofun
        · exact .ok _
    · exact .ok _
  · dsimp only
    split_ifs <;> exact .ok _

section Nil

variable (hnil : ∀ t, Below p .noFuel (convert t .nil .List) (convert' t .nil .List))

include hnil

theorem below_populateMissingFieldsForEdit (schema : Schema) (result : Doc) :
    Below p .noFuel (Builder.populateMissingFieldsForEdit convert schema result)
      (Builder.populateMissingFieldsForEdit convert' schema result) := by
  refine .foldlM result fun e _ result => ?_
  unfold Builder.populateField
  split
  · exact .ok _
  · dsimp only
    rcases Assoc.get e.1 result with _ | value <;> dsimp only
    · split
      · exact .ok _
      · rcases hnil e.2.type with ⟨hp, hn⟩ | ⟨hn, hends⟩
        · exact .inl ⟨hp, by rw [hn]⟩
        · rw [← hn]
          rcases hval : convert e.2.type .nil .List with (_ | _ | _) | val
          · exact .ok _
          · exact .of_avoids nofun
          · exact absurd hval hends
          · exact .ok _
    · split
      · exact .ok _
      · refine (Below.of_avoids (avoids_equal _ _)).bind fun same => .of_avoids ?_
        split <;> exact .ok _

theorem below_dropDefaultsAndReadOnly (schema : Schema) (result : Doc) :
    Below p .noFuel (Builder.dropDefaultsAndReadOnly convert schema result)
      (Builder.dropDefaultsAndReadOnly convert' schema result) := by
  refine .foldlM result fun e _ rest => ?_
  rcases schema.resourceFields.get e.1 with _ | field
  · exact .ok _
  · refine Below.bind ?_ fun drop => .of_avoids (by split <;> exact .ok _)
    unfold Builder.drops
    split
    · exact .ok _
    · refine (Below.of_avoids (avoids_equal _ _)).bind fun same => ?_
      split
      · exact .ok _
      · refine Below.bind ?_ fun _ => .ok _
        unfold Builder.isNull
        rcases hnil field.type with ⟨hp, hn⟩ | ⟨hn, hends⟩
        · exact .inl ⟨hp, by rw [hn]⟩
        · rw [← hn]
          rcases hval : convert field.type .nil .List with (_ | _ | _) | val
          · exact .ok _
          · exact .of_avoids nofun
          · exact absurd hval hends
          · exact .of_avoids (avoids_equal _ _)

variable (hreq : op = .Create → ∀ t x, Below p .noFuel (convert t x op) (convert' t x op))

include hreq

theorem below_constructWith {m : Doc}
    (h : ∀ e ∈ m, ∀ t, Below p .noFuel (convert t e.2 op) (convert' t e.2 op)) (schema : Schema) :
    Below p .noFuel (b.constructWith convert schema m op)
      (b.constructWith convert' schema m op) := by
  refine Below.bind ((below_copyInputs h schema []).bind fun result => ?_) fun _ => .of_avoids ?_
  · refine (Below.foldlM result fun (e : String × Field) _ result =>
      below_checkField hreq e.1 e.2 result).bind fun result => ?_
    dsimp only
    split_ifs
    · exact (below_populateMissingFieldsForEdit hnil schema result).bind
        (below_dropDefaultsAndReadOnly hnil schema)
    · exact (below_populateMissingFieldsForEdit hnil schema result).bind .ok
    · exact below_dropDefaultsAndReadOnly hnil schema result
    · exact .ok _
  · split
    · exact .ok _
    · split <;> nofun

/-- What is converted goes down the value, but for nil and for the defaults of a new object. -/
theorem below_convertWith {v : Value}
    (h : ∀ t x, sizeOf x < sizeOf v → Below p .noFuel (convert t x op) (convert' t x op))
    (t : String) : Below p .noFuel (b.convertWith convert t v op) (b.convertWith convert' t v op) := by
  unfold Builder.convertWith
  split
  · exact .ok _
  split
  · exact (below_convertMap h t).map _
  split
  · exact (below_convertArray h t).map _
  split
  · refine .of_avoids (Avoids.map _ ?_)
    unfold Builder.convertReferenceType
    dsimp only
    split <;> nofun
  split
  · unfold Builder.convertType
    rcases b.schema t with _ | schema
    · exact .of_avoids nofun
    · cases v with
      | map m =>
        refine (below_constructWith hnil hreq (fun e he t => h t e.2 ?_) schema).map _
        have hlt := sizeOf_lt_of_mem_doc he
        simp only [Value.map.sizeOf_spec]
        omega
      | nilMap => exact (below_constructWith hnil hreq (by simp) schema).map _
      | _ => exact .of_avoids nofun
  · exact .of_avoids (avoids_ofErr _)

end Nil

end Level

theorem below_convert_succ :
    ∀ (fuel : ℕ) (t : String) (v : Value) (op : Operation),
      Below True .noFuel (b.convert fuel t v op) (b.convert (fuel + 1) t v op)
  | 0, _, _, _ => .inl ⟨trivial, rfl⟩
  | fuel + 1, t, _, op => below_convertWith (below_convert_succ fuel · .nil .List)
    (fun _ t x => below_convert_succ fuel t x op) (fun t x _ => below_convert_succ fuel t x op) t

/-- A result stays as it is with more fuel. -/
theorem Builder.construct_more_fuel {schema : Schema} {input : Doc} {fuel : ℕ}
    (hends : b.Construct fuel schema input op ≠ .error .noFuel) :
    ∀ more : ℕ, b.Construct (fuel + more) schema input op = b.Construct fuel schema input op
  | 0 => rfl
  | more + 1 => by
    have ih := Builder.construct_more_fuel hends more
    have hbelow : Below True .noFuel (b.Construct (fuel + more) schema input op)
        (b.Construct (fuel + more + 1) schema input op) :=
      below_constructWith (below_convert_succ _ · .nil .List)
        (fun _ t x => below_convert_succ _ t x op) (fun e _ t => below_convert_succ _ t e.2 op) schema
    rcases hbelow with ⟨-, hn⟩ | ⟨hn, -⟩
    · exact absurd (ih.symm.trans hn) hends
    · exact hn.symm.trans ih

end Fuel

section Listing

variable {b : Builder} {op : Operation} {convert : Conversion} {schema : Schema} {m : Doc}

theorem ne_append_TS (k : String) : k ≠ k ++ "TS" := by
  intro h
  have := congrArg String.length h
  simp at this

/-- What takes the place of a value that is missing when an object is listed. -/
def filling (field : Field) : Option Value :=
  if fieldMatchesOp field .List = false then none
  else if IsReferenceType field.type = true then some .nil
  else if field.default = .nil then none
  else some field.default

theorem checkField_list (hop : op.IsList = true) (k : String) (field : Field) (result : Doc) :
    Builder.checkField convert op k field result
      = .ok (if Assoc.get k result = none then put k (filling field) result else result) := by
  have hcreate : op ≠ .Create := by
    rintro rfl
    cases hop
  simp only [Builder.checkField, Builder.checkRequired, hcreate, false_and, if_false, hop, true_and]
  rcases Assoc.get k result with _ | v
  · rcases hvisible : fieldMatchesOp field .List with _ | _
    · simp [filling, hvisible, put, bind, Except.bind, pure, Except.pure]
    · rcases href : IsReferenceType field.type with _ | _
      · by_cases hdefault : field.default = .nil <;>
          simp [filling, hvisible, href, hdefault, put, bind, Except.bind, pure, Except.pure]
      · simp [filling, hvisible, href, put, bind, Except.bind, pure, Except.pure]
  · simp [bind, Except.bind, pure, Except.pure]

/-- In a listing, the defaults are added to what is there. -/
theorem checkFields_list (convert : Conversion) (hop : op.IsList = true) :
    ∀ (fields : List (String × Field)) (result : Doc),
    ∃ r, fields.foldlM (fun result e => Builder.checkField convert op e.1 e.2 result) result = .ok r
      ∧ ∀ k v, Assoc.get k result = some v → Assoc.get k r = some v
  | [], result => ⟨result, rfl, fun _ _ hv => hv⟩
  | e :: fields, result => by
    obtain ⟨r, hr, hkeep⟩ := checkFields_list convert hop fields
      (if Assoc.get e.1 result = none then put e.1 (filling e.2) result else result)
    refine ⟨r, bind_eq_ok.2 ⟨_, checkField_list hop e.1 e.2 result, hr⟩, fun k v hv => hkeep k v ?_⟩
    split
    · rename_i hnone
      rw [get_put, if_neg, hv]
      rintro rfl
      simp [hnone] at hv
    · exact hv

/-- The loops of a listing. -/
theorem constructWith_list_eq (hop : op.IsList = true) :
    b.constructWith convert schema m op = (do
      let r ← m.foldlM (fun result e => b.copyInput convert schema op e.1 e.2 result) []
      let r ← schema.resourceFields.entries.foldlM
        (fun result e => Builder.checkField convert op e.1 e.2 result)
        (if b.edit = false ∧ b.exporting = false then
          Builder.copyRaw "id" m (Builder.copyRaw "type" m r) else r)
      let r ← (if b.edit then Builder.populateMissingFieldsForEdit convert schema r else pure r)
      if b.exporting then Builder.dropDefaultsAndReadOnly convert schema r else pure r) := by
  have hwrite : ¬ (op = .Create ∨ op = .Update) := by
    rintro (rfl | rfl) <;> cases hop
  simp only [Builder.constructWith, Builder.copyFields, Builder.copyInputs,
    Builder.checkDefaultAndRequired, hop, true_and, if_neg hwrite, bind_pure, bind_assoc]
  refine bind_congr fun r => ?_
  cases b.edit <;> cases b.exporting <;> simp

theorem below_convert_nil {fuel : ℕ} (hfuel : 0 < fuel) (t : String) :
    Below False .noFuel (b.convert fuel t .nil .List) (b.convert fuel t .nil .List) := by
  cases fuel with
  | zero => cases hfuel
  | succ fuel => exact .ok _

/-- A conversion for a response goes no deeper than the value. -/
theorem below_convert_self (hop : op.IsList = true) : ∀ (fuel : ℕ) (t : String) (v : Value),
    sizeOf v < fuel → Below False .noFuel (b.convert fuel t v op) (b.convert fuel t v op)
  | 0, _, _, hlt => absurd hlt (Nat.not_lt_zero _)
  | fuel + 1, t, v, hlt => by
    have hpos : 0 < sizeOf v := by
      cases v <;> simp
    refine below_convertWith (below_convert_nil (by omega)) (fun hcreate => ?_)
      (fun t x hx => below_convert_self hop fuel t x (by omega)) t
    rw [hcreate] at hop
    cases hop

/-- A response is built, or refused, with fuel for the depth of the stored object. -/
theorem Builder.construct_list_ends (hop : op.IsList = true) (schema : Schema) (input : Doc) :
    ∃ fuel, b.Construct fuel schema input op ≠ .error .noFuel := by
  refine ⟨sizeOf input + 1, (below_constructWith (below_convert_nil (Nat.succ_pos _))
    (fun hcreate => ?_) (fun e he t => below_convert_self hop _ t e.2 ?_) schema).avoids⟩
  · rw [hcreate] at hop
    cases hop
  · have hlt := sizeOf_lt_of_mem_doc he
    omega

end Listing

section Plain

/-- `fmt.Sprint`, of a string, a number or a boolean. -/
def plainSprint : Value → String
  | .str s => s
  | .number s => s
  | .int n => toString n
  | .bool b => toString b
  | _ => ""

def plainConvert : Convert.Env where
  sprint := plainSprint
  sprint_str _ := rfl
  toLower := String.toLower
  parseInt s := match s.toInt? with
    | some i => .ok i
    | none => .error "invalid syntax"
  parseFloat _ := .error "invalid syntax"
  truncate _ := 0
  ofInt _ := 0
  parseTime _ := .error "cannot parse"

def plainBuilder (registered : List Schema) : Builder where
  env :=
    { toEnv := plainConvert
      sprintS := plainSprint
      IsDNS1123Label := fun _ => []
      IsDNS1035Label := fun _ => []
      IsDNS1123Subdomain := fun _ => []
      Validator := fun _ => none }
  names := Schemas.plainEnv
  Version := some { version := "v1", path := "/v1" }
  Schemas := registered.foldl (fun schemas schema => schemas.store schema false) NewSchemas
  RefValidator := none
  edit := false
  exporting := false

/-- A schema with the given fields. -/
def plainSchema (id : String) (fields : List (String × Field)) : Schema where
  id := id
  version := { version := "v1", path := "/v1" }
  resourceFields := fields.foldl (fun fields e => fields.set e.1 e.2) ∅

end Plain

end Norman.Parse
