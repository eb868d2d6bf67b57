import Norman.Mappers
import Norman.Proofs.Typing

/-!
# Creating an object without a fault

The builder gives a nil map for what is sent as a map and is none, at any level, and the mappers
take it for a map: a mark of the creator is written into the labels, an annotation into those of a
template, and that is a panic. In data without a nil map (`Whole`) there is none: `PutValue` finds
its way, and so do the mappers that write by it. So a request does not fault if at every level what
is sent for a map is null or a map (`Shaped`).
-/

namespace Norman.Proxy

open Norman.Types Norman.Parse Norman.Mapper Norman.FieldMapper Httperror Gather

section Traverse

variable {α β : Type}

theorem map_some {P : α → Prop} {Q : β → Prop} {x : Option α} {g : α → β}
    (h : ∃ a, x = some a ∧ P a) (hg : ∀ a, P a → Q (g a)) : ∃ y, x.map g = some y ∧ Q y := by
  obtain ⟨a, rfl, ha⟩ := h
  exact ⟨g a, rfl, hg a ha⟩

/-- A loop has a result if each of its rounds has one, from what the rounds keep. -/
theorem foldlM_some {P : β → Prop} {f : β → α → Option β} :
    ∀ {l : List α} {x : β}, P x → (∀ x, P x → ∀ a ∈ l, ∃ y, f x a = some y ∧ P y) →
      ∃ y, l.foldlM f x = some y ∧ P y
  | [], x, hx, _ => ⟨x, rfl, hx⟩
  | a :: l, x, hx, h => by
    obtain ⟨y, hy, hp⟩ := h x hx a List.mem_cons_self
    obtain ⟨z, hz, hpz⟩ := foldlM_some hp fun x hx a ha => h x hx a (List.mem_cons_of_mem _ ha)
    exact ⟨z, by rw [List.foldlM_cons, hy]; exact hz, hpz⟩

theorem mapM_some {P : β → Prop} {f : α → Option β} :
    ∀ {l : List α}, (∀ a ∈ l, ∃ y, f a = some y ∧ P y) →
      ∃ ys, l.mapM f = some ys ∧ ∀ y ∈ ys, P y
  | [], _ => ⟨[], rfl, by simp⟩
  | a :: l, h => by
    obtain ⟨y, hy, hp⟩ := h a List.mem_cons_self
    obtain ⟨ys, hys, hps⟩ := mapM_some fun a ha => h a (List.mem_cons_of_mem _ ha)
    refine ⟨y :: ys, by simp [hy, hys], fun z hz => ?_⟩
    rcases List.mem_cons.1 hz with rfl | hz
    · exact hp
    · exact hps z hz

end Traverse

section Whole

/-- There is no nil map in the value, at any level. -/
inductive Whole : Value → Prop where
  | arr {xs : List Value} : (∀ x ∈ xs, Whole x) → Whole (.arr xs)
  | map {m : Doc} : (∀ e ∈ m, Whole e.2) → Whole (.map m)
  | leaf {v : Value} : (∀ xs, v ≠ .arr xs) → (∀ m, v ≠ .map m) → v ≠ .nilMap → Whole v

variable {data : Doc} {v val : Value} {k : String}

theorem Whole.nil : Whole .nil := .leaf nofun nofun nofun

theorem Whole.str (s : String) : Whole (.str s) := .leaf nofun nofun nofun

theorem Whole.elems {xs : List Value} (h : Whole (.arr xs)) : ∀ x ∈ xs, Whole x := by
  cases h with
  | arr h => exact h
  | leaf h _ _ => exact absurd rfl (h xs)

theorem Whole.entries (h : Whole (.map data)) : ∀ e ∈ data, Whole e.2 := by
  cases h with
  | map h => exact h
  | leaf _ h _ => exact absurd rfl (h data)

theorem Whole.ne (h : Whole v) : v ≠ .nilMap := by
  rintro rfl
  cases h with
  | leaf _ _ h => exact h rfl

theorem Whole.get (h : Whole (.map data)) (hget : Assoc.get k data = some v) : Whole v :=
  h.entries (k, v) (Assoc.mem_of_get hget)

theorem Whole.set (h : Whole (.map data)) (hv : Whole v) : Whole (.map (Assoc.set k v data)) := by
  refine .map fun e he => ?_
  rcases Assoc.Sorted.mem_set he with rfl | he
  · exact hv
  · exact h.entries e he

theorem Whole.erase (h : Whole (.map data)) : Whole (.map (Assoc.erase k data)) :=
  .map fun e he => h.entries e (List.mem_of_mem_filter he)

/-- A write goes through where there is no nil map. -/
theorem Whole.put (hv : Whole val) : ∀ (keys : List String) {data : Doc}, Whole (.map data) →
    ∃ data', PutValue val keys data = some data' ∧ Whole (.map data')
  | [], data, h => ⟨data, rfl, h⟩
  | [_], _, h => ⟨_, rfl, h.set hv⟩
  | k :: k' :: keys, data, h => by
    unfold PutValue
    rcases hget : Assoc.get k data with _ | v
    · have hempty : Whole (.map []) := .map (by simp)
      exact map_some (hv.put (k' :: keys) hempty) fun m hm => h.set hm
    · have hwhole := h.get hget
      cases v with
      | map m => exact map_some (hv.put (k' :: keys) hwhole) fun m' hm' => h.set hm'
      | nilMap => exact absurd rfl hwhole.ne
      | _ => exact ⟨_, rfl, h⟩

theorem Whole.remove : ∀ (keys : List String) {data : Doc}, Whole (.map data) →
    (∀ v, (RemoveValue data keys).1 = some v → Whole v)
      ∧ Whole (.map (RemoveValue data keys).2)
  | [], _, h => ⟨fun _ hv => (by simp [RemoveValue, Nested.remove] at hv), h⟩
  | [_], _, h => ⟨fun _ hv => h.get hv, h.erase⟩
  | k :: k' :: keys, data, h => by
    simp only [RemoveValue, Nested.remove]
    rcases hget : Assoc.get k data with _ | v
    · exact ⟨by simp, h⟩
    · cases v with
      | map m =>
        obtain ⟨hv, hm⟩ := Whole.remove (k' :: keys) (h.get hget)
        exact ⟨hv, h.set hm⟩
      | _ => exact ⟨by simp, h⟩

end Whole

section Mappings

/-- Where there is no nil map, the mapper does not panic, and leaves none. -/
def Faultless (f : Mapping) : Prop :=
  ∀ data, Whole (.map data) → ∃ r, f data = some r ∧ Whole (.map r.1)

/-- A mapper that has no errors. -/
def errorless (f : Doc → Option Doc) : Mapping := fun data => (f data).map (·, [])

theorem faultless_errorless {f : Doc → Option Doc}
    (h : ∀ data, Whole (.map data) → ∃ data', f data = some data' ∧ Whole (.map data')) :
    Faultless (errorless f) :=
  fun data hdata => map_some (h data hdata) fun _ hwhole => hwhole

variable {data : Doc}

theorem whole_moveValue (src dst : List String) (h : Whole (.map data)) :
    ∃ data', moveValue src dst data = some data' ∧ Whole (.map data') := by
  obtain ⟨hv, hrest⟩ := h.remove src
  unfold moveValue
  split
  · rename_i v rest heq
    rw [heq] at hv hrest
    exact (hv v rfl).put dst hrest
  · rename_i rest heq
    rw [heq] at hrest
    exact ⟨rest, rfl, hrest⟩

theorem faultless_batchMove (b : BatchMove) :
    Faultless (errorless b.FromInternal) ∧ Faultless (errorless b.ToInternal) :=
  ⟨faultless_errorless fun _ h => foldlM_some h fun _ h _ _ => whole_moveValue _ _ h,
    faultless_errorless fun _ h => foldlM_some h fun _ h _ _ => whole_moveValue _ _ h⟩

theorem faultless_untypedMove (m : UntypedMove) : Faultless (errorless m.ToInternal) :=
  faultless_errorless fun _ => whole_moveValue _ _

theorem faultless_labelField (e : LabelField) : Faultless (errorless e.ToInternal) := by
  refine faultless_errorless fun data h => ?_
  unfold LabelField.ToInternal
  split
  · rename_i v hget
    exact (h.get hget).put _ h
  · exact ⟨data, rfl, h⟩

theorem faultless_annotationField (e : AnnotationField) (env : Convert.Env)
    (json : FieldMapper.Json) :
    Faultless (errorless (e.ToInternal env json)) := by
  refine faultless_errorless fun data h => ?_
  unfold AnnotationField.ToInternal
  simp only []
  split
  · exact map_some ((Whole.str _).put _ h) fun data' hdata' => (hdata'.remove [e.Field]).2
  · exact ⟨_, rfl, (h.remove [e.Field]).2⟩

end Mappings

section ToInternal

variable {data : Doc} {f : Mapping}

theorem whole_move (source target : String) (h : Whole (.map data)) :
    Whole (.map (Mapper.Move.ToInternal source target data)) := by
  unfold Mapper.Move.ToInternal
  split
  · exact h
  · rename_i v hget
    exact h.erase.set (h.get hget)

theorem whole_takeField : ∀ (l : List String) {r : Doc × Doc}, Whole (.map r.1) → Whole (.map r.2) →
    Whole (.map (l.foldl takeField r).1) ∧ Whole (.map (l.foldl takeField r).2)
  | [], _, h₁, h₂ => ⟨h₁, h₂⟩
  | name :: l, r, h₁, h₂ => by
    rw [List.foldl_cons]
    refine whole_takeField l ?_ ?_
    · unfold takeField
      split
      · rename_i v hget
        exact h₁.set (h₂.get hget)
      · exact h₁
    · unfold takeField
      split
      · exact h₂.erase
      · exact h₂.erase

theorem whole_embed (e : Mapper.Embed) (h : Whole (.map data)) :
    Whole (.map (e.ToInternal data)) := by
  obtain ⟨hsub, hrest⟩ := whole_takeField e.embeddedFields (r := ([], data)) (.map (by simp)) h
  unfold Mapper.Embed.ToInternal Mapper.Embed.taken
  split
  · rename_i rest heq
    rw [heq] at hrest
    split_ifs
    · exact hrest.set .nil
    · exact hrest
  · rename_i sub rest _ heq
    rw [heq] at hsub hrest
    exact hrest.set hsub

theorem whole_setMissing (key s : String) (h : Whole (.map data)) :
    Whole (.map (setMissing key (.str s) data)) := by
  unfold setMissing
  split_ifs
  · exact h.set (.str s)
  · exact h

theorem whole_metadata (h : Whole (.map data)) :
    Whole (.map (modifyKey "metadata" (onMap metadataToInternal) data)) := by
  unfold modifyKey
  split
  · exact h
  · rename_i v hget
    refine h.set ?_
    have hv := h.get hget
    cases v with
    | map m => exact whole_move _ _ (whole_move _ _ (whole_move _ _ hv))
    | _ => exact hv

/-- A mapper at a value, in one of the three ways. -/
def FaultlessAt (g : Value → Option (Value × List Err)) : Prop :=
  ∀ v, Whole v → ∃ r, g v = some r ∧ Whole r.1

theorem faultless_toMap (hf : Faultless f) : FaultlessAt (toMap f) := by
  intro v hv
  cases v with
  | map m => exact map_some (hf m hv) fun _ hr => hr
  | _ => exact ⟨_, rfl, hv⟩

theorem faultless_toElems (hf : Faultless f) : FaultlessAt (toElems f) := by
  intro v hv
  cases v with
  | arr xs =>
    refine map_some (mapM_some fun x hx => faultless_toMap hf x (hv.elems x hx)) fun rs hrs => ?_
    exact .arr (List.forall_mem_map.2 hrs)
  | _ => exact ⟨_, rfl, hv⟩

theorem faultless_toEntries (hf : Faultless f) : FaultlessAt (toEntries f) := by
  intro v hv
  cases v with
  | map m =>
    have hall : ∀ e ∈ m, ∃ r, ((toMap f e.2).map fun r => ((e.1, r.1), r.2)) = some r
        ∧ Whole r.1.2 := fun e he =>
      map_some (faultless_toMap hf e.2 (hv.entries e he)) fun _ hr => hr
    exact map_some (mapM_some hall) fun rs hrs => .map (List.forall_mem_map.2 hrs)
  | _ => exact ⟨_, rfl, hv⟩

theorem faultless_loopTo {on : Mapping → Value → Option (Value × List Err)}
    (hon : ∀ {f}, Faultless f → FaultlessAt (on f)) {l : List (String × Mapping)}
    (hl : ∀ e ∈ l, Faultless e.2) {r : Mapped} (hr : Whole (.map r.1)) :
    ∃ r', loopTo on l r = some r' ∧ Whole (.map r'.1) := by
  refine foldlM_some hr fun r hr e he => ?_
  split
  · exact ⟨r, rfl, hr⟩
  · rename_i v hget
    exact map_some (hon (hl e he) v (hr.get hget)) fun s hs => hr.set hs

/-- All mappers besides the default ones are faultless. -/
structure Sound (m : ObjectMapper) : Prop where
  own : ∀ f ∈ m.own, Faultless f
  sub : ∀ e ∈ m.subArraySchemas ++ m.subMapSchemas ++ m.subSchemas, Faultless e.2

theorem faultless_mappers : ∀ {l : List Mapping}, (∀ f ∈ l, Faultless f) →
    Faultless (Mappers.ToInternal l)
  | [], _, data, h => ⟨(data, []), rfl, h⟩
  | f :: l, hl, data, h => by
    obtain ⟨r, hr, hwhole⟩ := faultless_mappers (fun g hg => hl g (List.mem_cons_of_mem _ hg)) data h
    obtain ⟨s, hs, hwhole⟩ := hl f List.mem_cons_self r.1 hwhole
    refine ⟨(s.1, r.2 ++ s.2), ?_, hwhole⟩
    rw [Mappers.ToInternal, List.foldr_cons, ← Mappers.ToInternal, hr]
    simp [hs]

theorem Sound.faultless {m : ObjectMapper} (hm : Sound m) : Faultless m.ToInternal := by
  intro data hdata
  obtain ⟨r, hr, hwhole⟩ := faultless_mappers hm.own data hdata
  have hobject : Whole (.map (m.object r.1)) :=
    whole_setMissing _ _ (whole_setMissing _ _ (whole_embed _ (whole_embed _ (whole_move _ _ hwhole))))
  have harray : ∀ e ∈ m.subArraySchemas, Faultless e.2 := fun e he => hm.sub e (by simp [he])
  have hmap : ∀ e ∈ m.subMapSchemas, Faultless e.2 := fun e he => hm.sub e (by simp [he])
  have hsub : ∀ e ∈ m.subSchemas, Faultless e.2 := fun e he => hm.sub e (by simp [he])
  obtain ⟨r₁, hr₁, hwhole₁⟩ :=
    faultless_loopTo (r := (m.object r.1, r.2)) faultless_toElems harray hobject
  obtain ⟨r₂, hr₂, hwhole₂⟩ := faultless_loopTo faultless_toEntries hmap hwhole₁
  obtain ⟨r₃, hr₃, hwhole₃⟩ := faultless_loopTo faultless_toMap hsub hwhole₂
  refine ⟨(_, r₃.2), ?_, whole_metadata hwhole₃⟩
  simp only [ObjectMapper.ToInternal, hr, hr₁, hr₂, hr₃, Option.bind_eq_bind, Option.bind_some]
  rfl

end ToInternal

section Marked

variable {data : Doc}

theorem marked_ne_none (user generated : String) (h : Whole (.map data)) :
    marked user generated data ≠ none := by
  obtain ⟨data₁, h₁, hwhole₁⟩ :=
    (Whole.str user).put ["metadata", "annotations", "field.cattle.io/creatorId"] h
  obtain ⟨data₂, h₂, hwhole₂⟩ :=
    (Whole.str "norman").put ["metadata", "labels", "cattle.io/creator"] hwhole₁
  obtain ⟨data₃, h₃, -⟩ := (Whole.str generated).put ["metadata", "name"] hwhole₂
  simp only [marked, h₁, h₂, h₃, Option.bind_eq_bind, Option.bind_some]
  split_ifs <;> simp

end Marked

section Construct

variable (b : Builder)

/-- The defaults of the schema have no nil map. -/
def DefaultsWhole (schema : Schema) : Prop :=
  ∀ k field, schema.resourceFields.get k = some field → Whole field.default

/-- At every level, what is sent for a map is null or a map, at the fields that may be created; and
no default has a nil map. -/
inductive Shaped : Place → Value → Prop where
  | type {t : String} {v : Value} : (IsMapType t = true → v ≠ .nil → ∃ m, v = .map m) →
    (∀ m, v = .map m → IsMapType t = true → ∀ e ∈ m, Shaped (.type (SubType t)) e.2) →
    (∀ xs, v = .arr xs → IsArrayType t = true → ∀ x ∈ xs, Shaped (.type (SubType t)) x) →
    (∀ schema, IsNamed t → b.schema t = some schema → Shaped (.object schema) v) →
    Shaped (.type t) v
  | object {schema : Schema} {v : Value} : DefaultsWhole schema → (∀ m, v = .map m → ∀ e ∈ m, ∀ field,
      schema.resourceFields.get e.1 = some field → field.create = true →
        Shaped (.type field.type) e.2) →
    Shaped (.object schema) v

/-- What is converted has no nil map, if what is sent has none and is shaped. -/
def ConvertsWhole (convert : Conversion) : Prop :=
  ∀ t v w, Tidy v → Whole v → Shaped b (.type t) v → convert t v .Create = .ok w → Whole w

variable {b} {convert : Conversion} {t : String} {v w : Value}

theorem whole_convertSimple (hnil : v ≠ .nil) (hv : Whole v)
    (h : ConvertSimple b.env t v .Create = .ok w) : Whole w := by
  unfold ConvertSimple at h
  rw [if_neg hnil] at h
  split at h
  case h_1 => -- json
    cases h
    exact hv
  case h_2 => -- date
    dsimp only at h
    split at h <;> cases h
    · exact .nil
    · exact .str _
  case h_5 | h_6 => -- int, float
    obtain ⟨n, -, rfl⟩ := map_eq_ok.1 h
    exact .leaf nofun nofun nofun
  case h_8 => -- string
    split at h <;> cases h <;> exact .str _
  case h_12 => -- intOrString
    split at h <;> cases h <;> exact .leaf nofun nofun nofun
  case h_9 | h_10 | h_11 => -- dnsLabel, dnsLabelRestricted, hostname
    obtain ⟨s, rfl⟩ := convertName_eq_ok h
    exact .str s
  case h_15 => cases h
  all_goals
    cases h
    exact .leaf nofun nofun nofun

theorem whole_convertMap (hc : ConvertsWhole b convert) (ht : IsMapType t = true) (hnil : v ≠ .nil)
    (htidy : Tidy v) (hv : Whole v) (hshape : Shaped b (.type t) v) {r : Option Doc}
    (h : Builder.convertMap convert t v .Create = .ok r) : Whole (Builder.ofMap r) := by
  cases hshape with
  | type hmap hentries _ _ =>
    obtain ⟨m, rfl⟩ := hmap ht hnil
    obtain ⟨hm, hxs⟩ := htidy.of_map
    obtain ⟨m', rfl, hs, hget⟩ := convertMap_eq_ok hm h
    refine .map ((Assoc.forall_mem_iff_get (P := fun _ w => Whole w) hs.nodup).2 fun k w hw => ?_)
    rcases hget k with ⟨-, hnone⟩ | ⟨v, w', hv', hw', hconv⟩
    · rw [hnone] at hw
      cases hw
    · obtain rfl : w' = w := Option.some.inj (hw'.symm.trans hw)
      have hmem := Assoc.mem_of_get hv'
      exact hc _ _ _ (hxs _ hmem) (hv.entries _ hmem) (hentries m rfl ht _ hmem) hconv

theorem whole_convertArray (hc : ConvertsWhole b convert) (ht : IsArrayType t = true)
    (htidy : Tidy v) (hv : Whole v) (hshape : Shaped b (.type t) v) {ws : List Value}
    (h : Builder.convertArray convert t v .Create = .ok ws) : Whole (Builder.ofSlice ws) := by
  have hall : ∀ w ∈ ws, Whole w := by
    cases v with
    | strs xs =>
      cases h
      intro w hw
      obtain ⟨x, -, rfl⟩ := List.mem_map.1 hw
      exact .str x
    | arr xs =>
      cases hshape with
      | type _ _ helems _ =>
        have hxs : ∀ x ∈ xs, Tidy x := by
          cases htidy with
          | arr hxs => exact hxs
          | leaf harr _ => exact absurd rfl (harr xs)
        refine (forall_mem_iff (P := fun _ => True) (mapM_eq_ok h) fun x hx w hw =>
          iff_of_true trivial ?_).1 fun _ _ => trivial
        exact hc _ _ _ (hxs x hx) (hv.elems x hx) (helems xs rfl ht x hx) hw
    | _ =>
      cases h
      simp
  unfold Builder.ofSlice
  split_ifs
  · exact .leaf nofun nofun nofun
  · exact .arr hall

theorem whole_constructWith (hc : ConvertsWhole b convert) {schema : Schema} {m r : Doc}
    (htidy : Tidy (.map m)) (hm : Whole (.map m))
    (hshape : Shaped b (.object schema) (.map m))
    (h : b.constructWith convert schema m .Create = .ok r) : Whole (.map r) := by
  rcases hshape with _ | ⟨hd, hfields⟩
  obtain ⟨hkeyed, hxs⟩ := htidy.of_map
  obtain ⟨hs, hget⟩ := constructWith_write rfl hkeyed h
  refine .map ((Assoc.forall_mem_iff_get (P := fun _ w => Whole w) hs.nodup).2 fun k w hw => ?_)
  obtain ⟨u, hu, hk⟩ := hget k
  rw [hk] at hw
  rcases hfield : schema.resourceFields.get k with _ | field
  · simp [hfield] at hw
  rw [hfield, Option.elim_some, defaulted] at hw
  split_ifs at hw
  · cases hw
    exact hd k field hfield
  -- the value was sent, for a field that may be created
  subst hw
  rcases hv : Assoc.get k m with _ | v
  · simp [hv, given] at hu
  rcases hcreate : field.create with _ | _
  · simp [hv, given, copied, hfield, fieldMatchesOp, hcreate] at hu
  have hcopy : b.copyValue convert .Create k field v = .ok (some w) := by
    simpa [hv, given, copied, hfield, fieldMatchesOp, hcreate] using hu
  have hmem := Assoc.mem_of_get hv
  exact hc _ _ _ (hxs _ hmem) (hm.entries _ hmem) (hfields m rfl _ hmem field hfield hcreate)
    (copyValue_eq_ok rfl hcopy).1

variable (b) in
theorem convertsWhole : ∀ fuel : ℕ, ConvertsWhole b (b.convert fuel)
  | 0 => fun _ _ _ _ _ _ h => nomatch h
  | fuel + 1 => by
    intro t v w htidy hv hshape h
    have hc := convertsWhole fuel
    rcases convertWith_cases h with ⟨-, rfl⟩ | ⟨hnil, ⟨ht, r, hr, rfl⟩ | ⟨ht, ws, hws, rfl⟩
      | ⟨-, s, -, rfl⟩ | hsimple | ⟨ht, h⟩⟩
    · exact .nil
    · exact whole_convertMap hc ht hnil htidy hv hshape hr
    · exact whole_convertArray hc ht htidy hv hshape hws
    · exact .str s
    · exact whole_convertSimple hnil hv hsimple
    · unfold Builder.convertType at h
      rcases hfind : b.schema t with _ | schema <;> rw [hfind] at h
      · cases h
      · cases hshape with
        | type _ _ _ hobject =>
          cases v with
          | map m =>
            obtain ⟨r, hr, rfl⟩ := map_eq_ok.1 h
            exact whole_constructWith hc htidy hv (hobject schema ht hfind) hr
          | nilMap => exact absurd rfl hv.ne
          | _ => cases h

end Construct

section Create

end Create

section Plain

variable {b : Builder}

/-- The template of a workload, which has its description in an annotation. -/
def template : Schema :=
  plainSchema "template" [("annotations", { type := "map[string]", create := true }),
    ("description", { type := "string", create := true })]

/-- Workloads, with the labels and annotations of their metadata. -/
def workload : Schema :=
  plainSchema "workload" [("annotations", { type := "map[string]", create := true }),
    ("labels", { type := "map[string]", create := true }),
    ("name", { type := "string", create := true }),
    ("template", { type := "template", create := true })]

/-- `encoding/json`, which is not called. -/
def noJson : FieldMapper.Json := ⟨fun _ => none, fun _ => none, fun _ => none⟩

def description : AnnotationField := { Field := "description" }

def workloadMapper : ObjectMapper where
  metadata := ["annotations", "labels", "name"]
  spec := []
  apiVersion := "/v1"
  kind := "Workload"
  own := []
  subSchemas := [("template", errorless (description.ToInternal plainConvert noJson))]
  subArraySchemas := []
  subMapSchemas := []

def workloadStore : Store where
  group := ""
  version := "v1"
  kind := "Workload"

/-- A request for a workload. -/
def createWorkload (labels annotations : Value) : Except CreateFailure Doc :=
  Create workloadStore "u-1" "w-x2z8q" (plainBuilder [template]) 3 workload workloadMapper
    [("labels", labels), ("name", .str "web"),
      ("template", .map [("annotations", annotations), ("description", .str "front")])]

theorem workloadMapper_sound : Sound workloadMapper where
  own := by simp [workloadMapper]
  sub e he := by
    cases List.mem_singleton.1 he
    exact faultless_annotationField _ _ _

theorem defaultsWhole {schema : Schema} (h : schema = workload ∨ schema = template) :
    DefaultsWhole schema := by
  intro k field hfield
  have hnil : ∀ schema ∈ [workload, template], ∀ e ∈ schema.resourceFields.entries,
      e.2.default = .nil := by
    decide +kernel
  have hdefault : field.default = .nil :=
    hnil schema (by simpa using h) _ (SortedMap.mem_entries.2 hfield)
  rw [hdefault]
  exact .nil

theorem shaped_text (v : Value) : Shaped b (.type "string") v := by
  have hkinds := kinds_of_simple (by decide : "string" ∈ simpleTypes)
  refine .type (fun ht => ?_) (fun _ _ ht => ?_) (fun _ _ ht => ?_) fun _ hnamed => ?_
  · simp [hkinds.1] at ht
  · simp [hkinds.1] at ht
  · simp [hkinds.2.1] at ht
  · exact absurd (by decide) hnamed.2.2.2

theorem shaped_texts (m : Doc) : Shaped b (.type "map[string]") (.map m) := by
  have hsub : SubType "map[string]" = "string" := by decide
  have hmap : IsMapType "map[string]" = true := by decide
  refine .type (fun _ _ => ⟨m, rfl⟩) (fun _ _ _ e _ => ?_) nofun fun _ hnamed => ?_
  · rw [hsub]
    exact shaped_text e.2
  · simp [hmap, IsNamed] at hnamed

/-- A field of texts, or of a map of texts. -/
theorem shaped_field {field : Field} {v : Value}
    (h : field.type = "string" ∨ field.type = "map[string]" ∧ ∃ m, v = .map m) :
    Shaped b (.type field.type) v := by
  rcases h with h | ⟨h, m, rfl⟩ <;> rw [h]
  · exact shaped_text v
  · exact shaped_texts m

theorem template_shaped (m : Doc) : Shaped b (.object template)
    (.map [("annotations", .map m), ("description", .str "front")]) := by
  have hfields : ∀ e ∈ template.resourceFields.entries,
      e.1 = "annotations" ∧ e.2.type = "map[string]" ∨ e.1 = "description" ∧ e.2.type = "string" := by
    decide +kernel
  refine .object (defaultsWhole (.inr rfl)) fun _ hm e he field hfield _ => shaped_field ?_
  cases hm
  have htype := hfields _ (SortedMap.mem_entries.2 hfield)
  simp only [List.mem_cons, List.not_mem_nil, or_false] at he
  rcases he with rfl | rfl
  · exact .inr ⟨by simpa using htype, m, rfl⟩
  · exact .inl (by simpa using htype)

-- so do annotations of the template
example : createWorkload (.map [("app", .str "web")]) (.str "web") = .error .nilMap := by
  decide +kernel

end Plain

end Norman.Proxy
