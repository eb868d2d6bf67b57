import Norman.Proofs.Levels

/-!
# What a response shows

A response leaves out the fields of type `password` and, unless it answers a create, those that are
write-only. Nothing else hides a password: not the elements of an `array[password]`, nor the values
of a `map[password]`, nor the `id` and the `type` of an object, which are copied as they are.
`Shows` is how a secret comes out in one of these ways; a response depends on a secret if and only
if there is one.
-/

namespace Norman.Parse

open Norman.Types Gather

section Places

variable (find : String → Option Schema) (op : Operation)

/-- The values differ only at positions whose type is `password` or whose field is not for the
response. -/
inductive Alike : Place → Value → Value → Prop where
  | same {p : Place} {v : Value} : Alike p v v
  | password {v v' : Value} : Alike (.type "password") v v'
  | array {t : String} {xs ys : List Value} : IsArrayType t = true → xs.length = ys.length →
    (∀ x y, (x, y) ∈ xs.zip ys → Alike (.type (SubType t)) x y) →
    Alike (.type t) (.arr xs) (.arr ys)
  | map {t : String} {m m' : Doc} : IsMapType t = true → Assoc.Sorted m → Assoc.Sorted m' →
    (∀ k, Assoc.get k m = none ↔ Assoc.get k m' = none) →
    (∀ k x y, Assoc.get k m = some x → Assoc.get k m' = some y → Alike (.type (SubType t)) x y) →
    Alike (.type t) (.map m) (.map m')
  | named {t : String} {schema : Schema} {m m' : Doc} : IsNamed t → find t = some schema →
    Alike (.object schema) (.map m) (.map m') → Alike (.type t) (.map m) (.map m')
  | object {schema : Schema} {m m' : Doc} : Assoc.Sorted m → Assoc.Sorted m' →
    (∀ k, schema.resourceFields.get k = none → Assoc.get k m = Assoc.get k m') →
    (∀ k field, schema.resourceFields.get k = some field → fieldMatchesOp field op = true →
      (Assoc.get k m = none ↔ Assoc.get k m' = none)) →
    (∀ k field x y, schema.resourceFields.get k = some field → fieldMatchesOp field op = true →
      Assoc.get k m = some x → Assoc.get k m' = some y → Alike (.type field.type) x y) →
    Alike (.object schema) (.map m) (.map m')

/-- There is a secret in the place. -/
inductive Hides : Place → Prop where
  | password : Hides (.type "password")
  | array {t : String} : IsArrayType t = true → Hides (.type (SubType t)) → Hides (.type t)
  | map {t : String} : IsMapType t = true → Hides (.type (SubType t)) → Hides (.type t)
  | named {t : String} {schema : Schema} : IsNamed t → find t = some schema →
    Hides (.object schema) → Hides (.type t)
  | field {schema : Schema} {k : String} {field : Field} :
    schema.resourceFields.get k = some field →
    (fieldMatchesOp field op = true → Hides (.type field.type)) → Hides (.object schema)

/-- A secret of the place comes out: a password that is not a field of its own, or what is in the
`id` or the `type` of an object. -/
inductive Shows : Place → Prop where
  | password : Shows (.type "password")
  | array {t : String} : IsArrayType t = true → Shows (.type (SubType t)) → Shows (.type t)
  | map {t : String} : IsMapType t = true → Shows (.type (SubType t)) → Shows (.type t)
  | named {t : String} {schema : Schema} : IsNamed t → find t = some schema →
    Shows (.object schema) → Shows (.type t)
  | field {schema : Schema} {k : String} {field : Field} :
    schema.resourceFields.get k = some field → fieldMatchesOp field op = true →
    Shows (.type field.type) → Shows (.object schema)
  | raw {schema : Schema} {k : String} {field : Field} : k = "id" ∨ k = "type" →
    schema.resourceFields.get k = some field →
    (fieldMatchesOp field op = true → Hides find op (.type field.type)) → Shows (.object schema)

end Places

variable {find : String → Option Schema} {op : Operation}

/-- Where there is no secret, there is no difference. -/
theorem Alike.eq {p : Place} {v v' : Value} (h : Alike find op p v v') :
    ¬ Hides find op p → v = v' := by
  induction h with
  | same => exact fun _ => rfl
  | password => exact fun hp => absurd .password hp
  | array ht hlen _ ih =>
    intro hp
    have hzip := List.forall₂_iff_zip.2 ⟨hlen, fun {x y} hxy => ih x y hxy fun hx => hp (.array ht hx)⟩
    rw [List.forall₂_eq_eq_eq] at hzip
    rw [hzip]
  | @map t m m' ht hm hm' hkeys _ ih =>
    intro hp
    refine congrArg Value.map (Assoc.ext hm hm' fun k => ?_)
    refine Assoc.both_cases (hkeys k) rfl fun x y hx hy => ?_
    rw [ih k x y hx hy fun hs => hp (.map ht hs)]
  | named ht hfind _ ih => exact fun hp => ih fun hs => hp (.named ht hfind hs)
  | @object schema m m' hm hm' hfree hkeys _ ih =>
    intro hp
    refine congrArg Value.map (Assoc.ext hm hm' fun k => ?_)
    rcases hget : schema.resourceFields.get k with _ | field
    · exact hfree k hget
    · have hmatch : fieldMatchesOp field op = true := by
        by_contra hmatch
        exact hp (.field hget fun h => absurd h hmatch)
      refine Assoc.both_cases (hkeys k field hget hmatch) rfl fun x y hx hy => ?_
      rw [ih k field x y hget hmatch hx hy fun hs => hp (.field hget fun _ => hs)]

theorem Alike.nil_iff {t : String} {v v' : Value} (h : Alike find op (.type t) v v')
    (ht : t ≠ "password") : v = .nil ↔ v' = .nil := by
  cases h <;> simp at ht ⊢

section Covered

variable {b : Builder} {convert : Conversion} {schema : Schema}

/-- Conversions for places that show no secret. -/
def ConvertsBlind (find : String → Option Schema) (op : Operation)
    (convert : Conversion) : Prop :=
  ∀ t v v', ¬ Shows find op (.type t) → Alike find op (.type t) v v' →
    convert t v op = convert t v' op

theorem convertArray_blind (hc : ConvertsBlind find op convert) {t : String} {xs ys : List Value}
    (hp : ¬ Shows find op (.type (SubType t))) (hlen : xs.length = ys.length)
    (h : ∀ x y, (x, y) ∈ xs.zip ys → Alike find op (.type (SubType t)) x y) :
    Builder.convertArray convert t (.arr xs) op = Builder.convertArray convert t (.arr ys) op :=
  mapM_congr (List.forall₂_iff_zip.2 ⟨hlen, fun hxy => hc _ _ _ hp (h _ _ hxy)⟩)

theorem convertMap_blind (hc : ConvertsBlind find op convert) {t : String} {m m' : Doc}
    (hp : ¬ Shows find op (.type (SubType t))) (hm : Assoc.Sorted m) (hm' : Assoc.Sorted m')
    (hkeys : ∀ k, Assoc.get k m = none ↔ Assoc.get k m' = none)
    (h : ∀ k x y, Assoc.get k m = some x → Assoc.get k m' = some y →
      Alike find op (.type (SubType t)) x y) :
    Builder.convertMap convert t (.map m) op = Builder.convertMap convert t (.map m') op := by
  have hentries := Assoc.forall₂_of_get
    (fun _ x y => convert (SubType t) x op = convert (SubType t) y op) hm hm' hkeys
    fun k x y hx hy => hc _ _ _ hp (h k x y hx hy)
  simp only [Builder.convertMap]
  rw [foldlM_congr (hentries.imp fun e e' he result => ?_)]
  rw [he.1, he.2]

theorem copyInput_blind (hop : op.IsList = true) (hc : ConvertsBlind find op convert) {k : String}
    {field : Field} (hget : schema.resourceFields.get k = some field)
    (hmatch : fieldMatchesOp field op = true) (hp : ¬ Shows find op (.type field.type)) {v v' : Value}
    (h : Alike find op (.type field.type) v v') (result : Doc) :
    b.copyInput convert schema op k v result = b.copyInput convert schema op k v' result := by
  have hpassword : field.type ≠ "password" := by
    intro ht
    cases op <;> simp [fieldMatchesOp, Operation.IsList, ht] at hmatch hop
  have hnil := h.nil_iff hpassword
  simp only [Builder.copyInput, hget, Builder.copyValue, hc _ _ _ hp h, hnil]

theorem copyRaw_blind {m m' : Doc} {k : String} (hk : k = "id" ∨ k = "type")
    (hp : ¬ Shows find op (.object schema))
    (h : Alike find op (.object schema) (.map m) (.map m')) (result : Doc) :
    Builder.copyRaw k m result = Builder.copyRaw k m' result := by
  suffices hsame : Assoc.get k m = Assoc.get k m' by
    simp only [Builder.copyRaw, hsame]
  cases h with
  | same => rfl
  | object hm hm' hfree hkeys h =>
    rcases hget : schema.resourceFields.get k with _ | field
    · exact hfree k hget
    · have hmatch : fieldMatchesOp field op = true := by
        by_contra hmatch
        exact hp (.raw hk hget fun h => absurd h hmatch)
      refine Assoc.both_cases (hkeys k field hget hmatch) rfl fun x y hx hy => ?_
      rw [(h k field x y hget hmatch hx hy).eq fun hs => hp (.raw hk hget fun _ => hs)]

/-- A field that is for the response. -/
def visible (schema : Schema) (op : Operation) (k : String) : Bool :=
  (schema.resourceFields.get k).any fun field => fieldMatchesOp field op

theorem visible_iff {k : String} : visible schema op k = true ↔
    ∃ field, schema.resourceFields.get k = some field ∧ fieldMatchesOp field op = true := by
  simp [visible, Option.any_eq_true]

theorem copyInputs_blind (hop : op.IsList = true) (hc : ConvertsBlind find op convert) {m m' : Doc}
    (hp : ¬ Shows find op (.object schema))
    (h : Alike find op (.object schema) (.map m) (.map m')) (result : Doc) :
    b.copyInputs convert schema m op result = b.copyInputs convert schema m' op result := by
  have hskip : ∀ result (e : String × Value), visible schema op e.1 = false →
      b.copyInput convert schema op e.1 e.2 result = .ok result := by
    intro result e he
    rcases hget : schema.resourceFields.get e.1 with _ | field
    · simp only [Builder.copyInput, hget]
    · have hmatch : fieldMatchesOp field op = false := by
        simpa [visible, hget] using he
      simp [Builder.copyInput, hget, hmatch]
  have hloop : m.foldlM (fun result e => b.copyInput convert schema op e.1 e.2 result) result
      = m'.foldlM (fun result e => b.copyInput convert schema op e.1 e.2 result) result := by
    cases h with
    | same => rfl
    | object hm hm' _ hkeys h =>
      -- the loops run over the visible entries, which have the same keys
      rw [← foldlM_filter hskip m, ← foldlM_filter hskip m']
      refine foldlM_congr ((Assoc.forall₂_of_get (fun k x y => ∀ result,
        b.copyInput convert schema op k x result = b.copyInput convert schema op k y result)
        (hm.filter _) (hm'.filter _) (fun k => ?_) fun k x y hx hy => ?_).imp fun e e' he result => ?_)
        result
      · rw [Assoc.get_filter, Assoc.get_filter]
        split_ifs with hk
        · obtain ⟨field, hget, hmatch⟩ := visible_iff.1 hk
          exact hkeys k field hget hmatch
        · rfl
      · rw [Assoc.get_filter] at hx hy
        split_ifs at hx hy with hk
        obtain ⟨field, hget, hmatch⟩ := visible_iff.1 hk
        exact copyInput_blind hop hc hget hmatch (fun hs => hp (.field hget hmatch hs))
          (h k field x y hget hmatch hx hy)
      · rw [he.2 result, he.1]
  simp only [Builder.copyInputs, hloop, copyRaw_blind (.inl rfl) hp h, copyRaw_blind (.inr rfl) hp h]

theorem constructWith_blind (hop : op.IsList = true) (hc : ConvertsBlind find op convert)
    {m m' : Doc} (hp : ¬ Shows find op (.object schema))
    (h : Alike find op (.object schema) (.map m) (.map m')) :
    b.constructWith convert schema m op = b.constructWith convert schema m' op := by
  simp only [Builder.constructWith, Builder.copyFields, copyInputs_blind hop hc hp h]

theorem convertsBlind (hop : op.IsList = true) :
    ∀ fuel : ℕ, ConvertsBlind b.schema op (b.convert fuel)
  | 0 => fun _ _ _ _ _ => rfl
  | fuel + 1 => by
    intro t v v' hp h
    have hc := convertsBlind hop fuel
    simp only [Builder.convert]
    cases h with
    | same => rfl
    | password => exact absurd .password hp
    | array ht hlen h =>
      rw [convertWith_array ht, convertWith_array ht,
        convertArray_blind hc (fun hs => hp (.array ht hs)) hlen h]
    | map ht hm hm' hkeys h =>
      rw [convertWith_map ht, convertWith_map ht,
        convertMap_blind hc (fun hs => hp (.map ht hs)) hm hm' hkeys h]
    | named ht hfind h =>
      rw [convertWith_named ht hfind, convertWith_named ht hfind,
        constructWith_blind hop hc (fun hs => hp (.named ht hfind hs)) h]

end Covered

section Leaks

variable {b : Builder}

/-- The conversion of a place. -/
def convertAt (b : Builder) (fuel : ℕ) (op : Operation) : Place → Value → Result Value
  | .type t, v => b.convert fuel t v op
  | .object schema, .map m => (b.Construct fuel schema m op).map .map
  | .object _, _ => .error .noFuel

/-- The value is there, and is converted. -/
structure Fine (b : Builder) (op : Operation) (fuel : ℕ) (p : Place) (v w : Value) : Prop where
  solid : Convert.IsAPIObjectEmpty v = false
  ok : convertAt b fuel op p v = .ok w
  ne_nil : w ≠ .nil

/-- Two values that differ at secrets only, and are both converted. -/
structure Apart (b : Builder) (op : Operation) (fuel : ℕ) (p : Place) (v v' w w' : Value) :
    Prop where
  alike : Alike b.schema op p v v'
  ne : v ≠ v'
  fine : Fine b op fuel p v w
  fine' : Fine b op fuel p v' w'

variable {fuel : ℕ} {v v' w w' : Value} {t k : String} {schema : Schema}

theorem Fine.password (s : String) (hs : Convert.trimSpace s = s) (hne : s ≠ "") :
    Fine b op 1 (.type "password") (.str s) (.str s) where
  solid := by simpa [Convert.IsAPIObjectEmpty] using hne
  ok := by
    have htext : Convert.ToString b.env.toEnv (.str s) = s := by
      simp [Convert.ToString, Convert.ToStringNoTrim, Convert.Singular, b.env.sprint_str, hs]
    simp only [convertAt, Builder.convert, Builder.convertWith, reduceCtorEq, if_false]
    rw [show IsMapType "password" = false by decide, show IsArrayType "password" = false by decide,
      show IsReferenceType "password" = false by decide]
    simp [ConvertSimple, htext, ofErr, Except.mapError]
  ne_nil := by simp

theorem Fine.array (ht : IsArrayType t = true) (h : Fine b op fuel (.type (SubType t)) v w) :
    Fine b op (fuel + 1) (.type t) (.arr [v]) (.arr [w]) where
  solid := rfl
  ok := by
    have hok : b.convert fuel (SubType t) v op = .ok w := h.ok
    simp only [convertAt, Builder.convert, convertWith_array ht, Builder.convertArray,
      List.mapM_cons, List.mapM_nil, hok]
    rfl
  ne_nil := by simp

theorem Fine.map (ht : IsMapType t = true) (h : Fine b op fuel (.type (SubType t)) v w) :
    Fine b op (fuel + 1) (.type t) (.map [("", v)]) (.map [("", w)]) where
  solid := rfl
  ok := by
    have hok : b.convert fuel (SubType t) v op = .ok w := h.ok
    simp only [convertAt, Builder.convert, convertWith_map ht, Builder.convertMap,
      List.foldlM_cons, List.foldlM_nil, hok]
    rfl
  ne_nil := by simp

theorem Fine.named (ht : IsNamed t) (hfind : b.schema t = some schema)
    (h : Fine b op fuel (.object schema) v w) : Fine b op (fuel + 1) (.type t) v w where
  solid := h.solid
  ok := by
    have hok := h.ok
    cases v with
    | map m => exact (convertWith_named ht hfind m).trans hok
    | _ => cases hok
  ne_nil := h.ne_nil

/-- A response copies a visible field that is converted. -/
theorem copyInput_fine (hop : op.IsList = true) {field : Field}
    (hget : schema.resourceFields.get k = some field) (hmatch : fieldMatchesOp field op = true)
    (h : Fine b op fuel (.type field.type) v w) (result : Doc) :
    ∃ r, b.copyInput (b.convert fuel) schema op k v result = .ok r ∧ Assoc.get k r = some w := by
  have hok : b.convert fuel field.type v op = .ok w := h.ok
  have hvalue : b.copyValue (b.convert fuel) op k field v = .ok (some w) := by
    simp only [Builder.copyValue, hok, wrap, hop, if_true]
    exact if_pos (.inl h.ne_nil)
  have hset : Assoc.get k (Assoc.set k w result) = some w := by simp [Assoc.get_set]
  simp only [Builder.copyInput, hget, hmatch, hvalue]
  rw [if_neg (by simp)]
  dsimp only [bind, Except.bind, pure, Except.pure]
  split_ifs
  · split
    · exact ⟨_, rfl, by rw [Assoc.get_set, if_neg (ne_append_TS k), hset]⟩
    · exact ⟨_, rfl, hset⟩
  · exact ⟨_, rfl, hset⟩

theorem get_copyRaw_single (hsolid : Convert.IsAPIObjectEmpty v = false) (key : String)
    (result : Doc) :
    Assoc.get k (Builder.copyRaw key [(k, v)] result)
      = if k = key then some v else Assoc.get k result := by
  unfold Builder.copyRaw
  by_cases hk : key = k
  · subst hk
    simp [Assoc.get, hsolid, Assoc.get_set]
  · simp [Assoc.get, hk, Ne.symm hk, Convert.IsAPIObjectEmpty]

/-- What a response has for the one entry of an object: the entry itself, if it is the `id` or the
`type`, and otherwise what it is converted to. -/
theorem construct_single (hop : op.IsList = true) (hedit : b.edit = false)
    (hexport : b.exporting = false) {field : Field}
    (hget : schema.resourceFields.get k = some field)
    (hsolid : Convert.IsAPIObjectEmpty v = false)
    (hfine : fieldMatchesOp field op = true → Fine b op fuel (.type field.type) v w) :
    ∃ r, b.Construct fuel schema [(k, v)] op = .ok r
      ∧ (k = "id" ∨ k = "type" → Assoc.get k r = some v)
      ∧ (fieldMatchesOp field op = true → ¬ (k = "id" ∨ k = "type") → Assoc.get k r = some w) := by
  have hloop : ∃ r, b.copyInput (b.convert fuel) schema op k v [] = .ok r
      ∧ (fieldMatchesOp field op = true → Assoc.get k r = some w) := by
    by_cases hmatch : fieldMatchesOp field op = true
    · obtain ⟨r, hr, hw⟩ := copyInput_fine hop hget hmatch (hfine hmatch) []
      exact ⟨r, hr, fun _ => hw⟩
    · exact ⟨[], by simp [Builder.copyInput, hget, hmatch], fun h => absurd h hmatch⟩
  obtain ⟨r₀, hr₀, hw⟩ := hloop
  obtain ⟨r, hr, hkeep⟩ := checkFields_list (b.convert fuel) hop schema.resourceFields.entries
    (Builder.copyRaw "id" [(k, v)] (Builder.copyRaw "type" [(k, v)] r₀))
  refine ⟨r, ?_, fun hk => hkeep k v ?_, fun hmatch hk => hkeep k w ?_⟩
  · rw [Builder.Construct, constructWith_list_eq hop, List.foldlM_cons, hr₀]
    refine bind_eq_ok.2 ⟨r₀, rfl, bind_eq_ok.2 ⟨r, ?_, ?_⟩⟩
    · rw [if_pos ⟨hedit, hexport⟩, hr]
    · simp only [hedit, hexport]
      rfl
  · rw [get_copyRaw_single hsolid, get_copyRaw_single hsolid]
    rcases hk with rfl | rfl
    · rfl
    · rfl
  · rw [get_copyRaw_single hsolid, get_copyRaw_single hsolid, if_neg fun h => hk (.inl h),
      if_neg fun h => hk (.inr h)]
    exact hw hmatch

theorem Alike.single {field : Field} (hget : schema.resourceFields.get k = some field)
    (h : fieldMatchesOp field op = true → Alike find op (.type field.type) v v') :
    Alike find op (.object schema) (.map [(k, v)]) (.map [(k, v')]) := by
  refine .object (by simp [Assoc.Sorted]) (by simp [Assoc.Sorted]) (fun j hj => ?_)
    (fun j _ _ _ => ?_) (fun j field' x y hget' hmatch hx hy => ?_)
  · have hjk : j ≠ k := by
      rintro rfl
      simp [hj] at hget
    simp [Assoc.get, hjk]
  · simp only [Assoc.get]
    split <;> simp
  · simp only [Assoc.get] at hx hy
    split at hx
    · rename_i hjk
      subst hjk
      rw [if_pos rfl] at hy
      cases hx
      cases hy
      cases hget.symm.trans hget'
      exact h hmatch
    · cases hx

namespace Apart

theorem array (ht : IsArrayType t = true) (h : Apart b op fuel (.type (SubType t)) v v' w w') :
    Apart b op (fuel + 1) (.type t) (.arr [v]) (.arr [v']) (.arr [w]) (.arr [w']) where
  alike := by
    refine .array ht rfl fun x y hxy => ?_
    obtain ⟨rfl, rfl⟩ : x = v ∧ y = v' := by simpa using hxy
    exact h.alike
  ne := by simpa using h.ne
  fine := h.fine.array ht
  fine' := h.fine'.array ht

theorem map (ht : IsMapType t = true) (h : Apart b op fuel (.type (SubType t)) v v' w w') :
    Apart b op (fuel + 1) (.type t) (.map [("", v)]) (.map [("", v')]) (.map [("", w)])
      (.map [("", w')]) where
  alike := by
    refine .map ht (by simp [Assoc.Sorted]) (by simp [Assoc.Sorted]) (fun k => ?_)
      fun k x y hx hy => ?_
    · simp only [Assoc.get]
      split <;> simp
    · simp only [Assoc.get] at hx hy
      split at hx
      · rw [if_pos ‹_›] at hy
        cases hx
        cases hy
        exact h.alike
      · cases hx
  ne := by simpa using h.ne
  fine := h.fine.map ht
  fine' := h.fine'.map ht

theorem named (ht : IsNamed t) (hfind : b.schema t = some schema)
    (h : Apart b op fuel (.object schema) v v' w w') :
    Apart b op (fuel + 1) (.type t) v v' w w' where
  alike := by
    have hok := h.fine.ok
    have hok' := h.fine'.ok
    have halike := h.alike
    cases v with
    | map m =>
      cases v' with
      | map m' => exact .named ht hfind halike
      | _ => cases hok'
    | _ => cases hok
  ne := h.ne
  fine := h.fine.named ht hfind
  fine' := h.fine'.named ht hfind

/-- A difference at a field is one between objects; and it is one between the responses if the field
is copied as it is, or if what it is converted to differs. -/
theorem single (hop : op.IsList = true) (hedit : b.edit = false) (hexport : b.exporting = false)
    {k : String} {field : Field} (hget : schema.resourceFields.get k = some field) (hne : v ≠ v')
    (hsolid : Convert.IsAPIObjectEmpty v = false) (hsolid' : Convert.IsAPIObjectEmpty v' = false)
    (h : fieldMatchesOp field op = true → Apart b op fuel (.type field.type) v v' w w') :
    ∃ r r', Apart b op fuel (.object schema) (.map [(k, v)]) (.map [(k, v')]) (.map r) (.map r')
      ∧ (k = "id" ∨ k = "type" → r ≠ r')
      ∧ (fieldMatchesOp field op = true → w ≠ w' → r ≠ r') := by
  obtain ⟨r, hr, hraw, hw⟩ := construct_single hop hedit hexport hget hsolid fun hm => (h hm).fine
  obtain ⟨r', hr', hraw', hw'⟩ := construct_single hop hedit hexport hget hsolid' fun hm => (h hm).fine'
  have hids : k = "id" ∨ k = "type" → r ≠ r' := by
    rintro hk rfl
    exact hne (Option.some.inj ((hraw hk).symm.trans (hraw' hk)))
  refine ⟨r, r', ⟨.single hget fun hm => (h hm).alike, by simpa using hne, ⟨rfl, ?_, by simp⟩,
    ⟨rfl, ?_, by simp⟩⟩, hids, fun hm hww => ?_⟩
  · simp only [convertAt, hr]
    rfl
  · simp only [convertAt, hr']
    rfl
  · by_cases hk : k = "id" ∨ k = "type"
    · exact hids hk
    · rintro rfl
      exact hww (Option.some.inj ((hw hm hk).symm.trans (hw' hm hk)))

end Apart

/-- Two texts that a secret may be. -/
theorem apart_password : Apart b op 1 (.type "password") (.str "a") (.str "b") (.str "a") (.str "b") where
  alike := .password
  ne := by decide
  fine := .password "a" (by decide) (by decide)
  fine' := .password "b" (by decide) (by decide)

section Induction

variable (hop : op.IsList = true) (hedit : b.edit = false) (hexport : b.exporting = false)

include hop hedit hexport

/-- What is in a field that is not for the response is a secret. -/
theorem Apart.field {k : String} {field : Field} (hget : schema.resourceFields.get k = some field)
    (h : fieldMatchesOp field op = true →
      ∃ fuel v v' w w', Apart b op fuel (.type field.type) v v' w w') :
    ∃ fuel v v' w w', Apart b op fuel (.object schema) v v' w w'
      ∧ (k = "id" ∨ k = "type" → w ≠ w') := by
  by_cases hmatch : fieldMatchesOp field op = true
  · obtain ⟨fuel, v, v', w, w', h⟩ := h hmatch
    obtain ⟨r, r', hr, hne, -⟩ := Apart.single hop hedit hexport hget h.ne h.fine.solid h.fine'.solid
      fun _ => h
    exact ⟨_, _, _, _, _, hr, by simpa using hne⟩
  · have h : fieldMatchesOp field op = true →
        Apart b op 0 (.type field.type) (.str "a") (.str "b") .nil .nil := fun hm => absurd hm hmatch
    obtain ⟨r, r', hr, hne, -⟩ := Apart.single hop hedit hexport hget (by decide) rfl rfl h
    exact ⟨_, _, _, _, _, hr, by simpa using hne⟩

/-- A secret in a place makes a difference between two values that are converted. -/
theorem Hides.apart {p : Place} (h : Hides b.schema op p) :
    ∃ fuel v v' w w', Apart b op fuel p v v' w w' := by
  induction h with
  | password => exact ⟨_, _, _, _, _, apart_password⟩
  | array ht _ ih =>
    obtain ⟨fuel, v, v', w, w', h⟩ := ih
    exact ⟨_, _, _, _, _, h.array ht⟩
  | map ht _ ih =>
    obtain ⟨fuel, v, v', w, w', h⟩ := ih
    exact ⟨_, _, _, _, _, h.map ht⟩
  | named ht hfind _ ih =>
    obtain ⟨fuel, v, v', w, w', h⟩ := ih
    exact ⟨_, _, _, _, _, h.named ht hfind⟩
  | field hget _ ih =>
    obtain ⟨_, _, _, _, _, h, -⟩ := Apart.field hop hedit hexport hget ih
    exact ⟨_, _, _, _, _, h⟩

/-- A secret that comes out makes a difference between two responses. -/
theorem Shows.apart {p : Place} (h : Shows b.schema op p) :
    ∃ fuel v v' w w', Apart b op fuel p v v' w w' ∧ w ≠ w' := by
  induction h with
  | password => exact ⟨_, _, _, _, _, apart_password, by decide⟩
  | array ht _ ih =>
    obtain ⟨fuel, v, v', w, w', h, hw⟩ := ih
    exact ⟨_, _, _, _, _, h.array ht, by simpa using hw⟩
  | map ht _ ih =>
    obtain ⟨fuel, v, v', w, w', h, hw⟩ := ih
    exact ⟨_, _, _, _, _, h.map ht, by simpa using hw⟩
  | named ht hfind _ ih =>
    obtain ⟨fuel, v, v', w, w', h, hw⟩ := ih
    exact ⟨_, _, _, _, _, h.named ht hfind, hw⟩
  | field hget hmatch _ ih =>
    obtain ⟨fuel, v, v', w, w', h, hw⟩ := ih
    obtain ⟨r, r', hr, -, hne⟩ := Apart.single hop hedit hexport hget h.ne h.fine.solid h.fine'.solid
      fun _ => h
    exact ⟨_, _, _, _, _, hr, by simpa using hne hmatch hw⟩
  | raw hk hget hhides =>
    obtain ⟨_, _, _, _, _, h, hne⟩ := Apart.field hop hedit hexport hget fun hmatch =>
      (hhides hmatch).apart hop hedit hexport
    exact ⟨_, _, _, _, _, h, hne hk⟩

end Induction

end Leaks

/-- A response depends on no secret if and only if none comes out. -/
theorem Builder.construct_blind_iff (b : Builder) (hop : op.IsList = true) (schema : Schema) :
    (∀ (edit exporting : Bool) (fuel : ℕ) (input input' : Doc),
      Alike b.schema op (.object schema) (.map input) (.map input') →
      Builder.Construct { b with edit, exporting } fuel schema input op
        = Builder.Construct { b with edit, exporting } fuel schema input' op)
      ↔ ¬ Shows b.schema op (.object schema) := by
  constructor
  · intro h hshows
    obtain ⟨fuel, v, v', w, w', hapart, hne⟩ :=
      Shows.apart (b := { b with edit := false, exporting := false }) hop rfl rfl hshows
    have hok := hapart.fine.ok
    have hok' := hapart.fine'.ok
    have halike := hapart.alike
    cases v with
    | map m =>
      cases v' with
      | map m' =>
        simp only [convertAt] at hok hok'
        rw [h false false fuel m m' halike, hok'] at hok
        exact hne (Except.ok.inj hok).symm
      | _ => cases hok'
    | _ => cases hok
  · intro hp edit exporting fuel input input' h
    exact constructWith_blind hop (convertsBlind (b := { b with edit, exporting }) hop fuel) hp h

section User

/-- A user has a name, and a password. -/
def userSchema : Schema :=
  plainSchema "user" [("name", { type := "string" }), ("password", { type := "password" })]

theorem userSchema_fields : ∀ e ∈ userSchema.resourceFields.entries,
    e = ("name", { type := "string" }) ∨ e = ("password", { type := "password" }) := by
  decide +kernel

theorem not_shows_simple {t : String} (hmap : IsMapType t = false) (harray : IsArrayType t = false)
    (ht : t ∈ simpleTypes) (hp : t ≠ "password") : ¬ Shows find op (.type t) := by
  intro h
  cases h with
  | password => exact hp rfl
  | array h _ => simp [h] at harray
  | map h _ => simp [h] at hmap
  | named h _ _ => exact h.2.2.2 ht

theorem userSchema_shows_nothing :
    ¬ Shows (plainBuilder []).schema .List (.object userSchema) := by
  intro h
  cases h with
  | field hget hmatch h =>
    rcases userSchema_fields _ (SortedMap.mem_entries.2 hget) with heq | heq <;> cases heq
    · exact not_shows_simple (by decide) (by decide) (by decide) (by decide) h
    · cases hmatch
  | raw hk hget _ =>
    rcases userSchema_fields _ (SortedMap.mem_entries.2 hget) with heq | heq <;> cases heq <;>
      exact absurd hk (by decide)

/-- The password does not show, nor whether there is one. -/
theorem user_blind :
    (plainBuilder []).Construct 2 userSchema [("name", .str "ann"), ("password", .str "x")] .List
      = (plainBuilder []).Construct 2 userSchema [("name", .str "ann")] .List := by
  refine (Builder.construct_blind_iff (plainBuilder []) rfl userSchema).2 userSchema_shows_nothing
    false false 2 _ _ ?_
  refine .object (by decide) (by decide) (fun k hk => ?_) (fun k field hget hmatch => ?_)
    fun k field x y hget hmatch hx hy => ?_
  · have hname : k ≠ "password" := by
      rintro rfl
      revert hk
      decide +kernel
    simp [Assoc.get, hname]
  · rcases userSchema_fields _ (SortedMap.mem_entries.2 hget) with heq | heq <;> cases heq
    · decide
    · cases hmatch
  · rcases userSchema_fields _ (SortedMap.mem_entries.2 hget) with heq | heq <;> cases heq
    · cases hx
      cases hy
      exact .same
    · cases hmatch

/-- A user may have several keys. -/
def keysSchema : Schema := plainSchema "user" [("keys", { type := "array[password]" })]

/-- The elements of an `array[password]` are listed. -/
theorem keys_shown :
    Alike (plainBuilder []).schema .List (.object keysSchema) (.map [("keys", .arr [.str "x"])])
        (.map [("keys", .arr [.str "y"])])
      ∧ (plainBuilder []).Construct 2 keysSchema [("keys", .arr [.str "x"])] .List
          = .ok [("keys", .arr [.str "x"])]
      ∧ (plainBuilder []).Construct 2 keysSchema [("keys", .arr [.str "y"])] .List
          = .ok [("keys", .arr [.str "y"])] := by
  refine ⟨?_, by decide +kernel, by decide +kernel⟩
  have hkeys : keysSchema.resourceFields.get "keys" = some { type := "array[password]" } := by
    decide +kernel
  refine .single hkeys fun _ => .array (by decide) rfl fun x y _ => ?_
  rw [show SubType "array[password]" = "password" by decide]
  exact .password

end User

end Norman.Parse
