import Norman.Lib.Gather
import Norman.TypeMappers

/-!
# Type mappers are inverse when their parts are

The loops over the fields change each field on its own, whatever the order (`Loop.pointwise`). The
own mappers of a type are undone first on the way back, as they do not see the type and the id that
were put in; what is left is the data with the fields mapped, and these are undone by the mappers of
the fields. So all that is left in the end are the types and the ids.
-/

namespace Norman.Types

open Norman.Mapper Httperror

section Conditions

/-- The mapper neither reads nor writes the key. -/
structure LeafMapper.Ignores (m : LeafMapper) (key : String) : Prop where
  from_set : ∀ {data} v, Assoc.Sorted data →
    m.FromInternal (Assoc.set key v data) = Assoc.set key v (m.FromInternal data)
  from_erase : ∀ {data}, Assoc.Sorted data →
    m.FromInternal (Assoc.erase key data) = Assoc.erase key (m.FromInternal data)
  to_set : ∀ {data} v, Assoc.Sorted data →
    (m.ToInternal (Assoc.set key v data)).1 = Assoc.set key v (m.ToInternal data).1
  to_erase : ∀ {data}, Assoc.Sorted data →
    (m.ToInternal (Assoc.erase key data)).1 = Assoc.erase key (m.ToInternal data).1

/-- What is asked of a mapper in the list of a type. -/
structure LeafMapper.Invertible (m : LeafMapper) : Prop where
  undoes : ∀ {data}, Assoc.Sorted data → (m.ToInternal (m.FromInternal data)).1 = data
  type : m.Ignores "type"
  id : m.Ignores "id"

mutual

/-- All mappers in the lists can be inverted, and no field is there twice. -/
def MapperTree.Invertible : MapperTree → Prop
  | .node mappers _ _ fields =>
    (∀ m ∈ mappers, m.Invertible) ∧ (fields.map Prod.fst).Nodup ∧ MapperTree.AllInvertible fields

def MapperTree.AllInvertible : List (String × Table × MapperTree) → Prop
  | [] => True
  | (_, _, t) :: fields => t.Invertible ∧ MapperTree.AllInvertible fields

end

/-- A condition on the maps in the value of a field. -/
def Every (P : Doc → Prop) : Table → Value → Prop
  | .subSchemas, .map m => P m
  | .subMapSchemas, .map m => ∀ e ∈ m, ∀ m', e.2 = .map m' → P m'
  | .subArraySchemas, .arr xs => ∀ x ∈ xs, ∀ m', x = .map m' → P m'
  | _, _ => True

mutual

/-- There is no type and no id where a schema has a mapper. -/
def MapperTree.Untyped : MapperTree → Doc → Prop
  | .node _ _ _ fields, data => Assoc.Sorted data ∧ Assoc.get "type" data = none
    ∧ Assoc.get "id" data = none ∧ MapperTree.AllUntyped fields data

def MapperTree.AllUntyped : List (String × Table × MapperTree) → Doc → Prop
  | [], _ => True
  | (key, table, t) :: fields, data =>
    (∀ v, Assoc.get key data = some v → Every t.Untyped table v) ∧ MapperTree.AllUntyped fields data

end

/-- What is asked of the value of a key, by the field that has it. -/
def AtField : Option (Table × (Doc → Doc → Prop)) → Option Value → Option Value → Prop
  | none, x, y => y = x
  | some _, none, y => y = none
  | some (table, R), some v, y => ∃ w, y = some w ∧ AtValue R table v w

mutual

/-- The data are the same but for a type where a schema has a mapper, and an id where it is a
root. -/
def MapperTree.Plus : MapperTree → Doc → Doc → Prop
  | .node _ root typeName fields, data, data' =>
    (Assoc.get "type" data' = none ∨ Assoc.get "type" data' = some (.str typeName))
      ∧ (Assoc.get "id" data' = none ∨ root = true ∧ ∃ id, Assoc.get "id" data' = some (.str id))
      ∧ ∀ key, key ≠ "type" → key ≠ "id" → AtField (Assoc.get key (MapperTree.pluses fields))
          (Assoc.get key data) (Assoc.get key data')

def MapperTree.pluses : List (String × Table × MapperTree) →
    List (String × Table × (Doc → Doc → Prop))
  | [] => []
  | (key, table, t) :: fields => (key, table, t.Plus) :: MapperTree.pluses fields

end

end Conditions

section Loops

variable {table : Table} {R : Doc → Doc → Prop}

theorem AtKey.pointwise {key : String} {data data' : Doc}
    (h : AtKey key table R data data') (j : String) :
    (j ≠ key → Assoc.get j data' = Assoc.get j data)
      ∧ AtField (some (table, R)) (Assoc.get key data) (Assoc.get key data') := by
  rcases h with ⟨hnone, rfl⟩ | ⟨v, w, hv, hw, rfl⟩
  · refine ⟨fun _ => rfl, ?_⟩
    rw [hnone]
    rfl
  · refine ⟨fun hj => by rw [Assoc.get_set, if_neg hj], ?_⟩
    rw [hv, Assoc.get_set, if_pos rfl]
    exact ⟨w, rfl, hw⟩

theorem AtKey.sorted {key : String} {data data' : Doc}
    (h : AtKey key table R data data') (hs : Assoc.Sorted data) : Assoc.Sorted data' := by
  rcases h with ⟨-, rfl⟩ | ⟨v, w, -, -, rfl⟩
  · exact hs
  · exact hs.set

/-- The loop changes each field on its own. -/
theorem Loop.pointwise : ∀ {l : List (String × Table × (Doc → Doc → Prop))} {data data' : Doc},
    Loop l data data' → (l.map Prod.fst).Nodup → ∀ j,
      AtField (Assoc.get j l) (Assoc.get j data) (Assoc.get j data')
  | [], data, data', h, _, j => by
    cases h
    rfl
  | (key, table, R) :: l, data, data', ⟨data₁, hkey, hloop⟩, hnd, j => by
    rw [List.map_cons, List.nodup_cons] at hnd
    have ih := Loop.pointwise hloop hnd.2 j
    obtain ⟨hother, hat⟩ := hkey.pointwise j
    rw [Assoc.get]
    split_ifs with hj
    · subst hj
      have hnone : Assoc.get j l = none :=
        Assoc.get_eq_none.2 fun e he heq => hnd.1 (List.mem_map.2 ⟨e, he, heq⟩)
      rw [hnone] at ih
      rw [ih]
      exact hat
    · rwa [hother hj] at ih

theorem Loop.sorted : ∀ {l : List (String × Table × (Doc → Doc → Prop))} {data data' : Doc},
    Loop l data data' → Assoc.Sorted data → Assoc.Sorted data'
  | [], _, _, h, hs => by
    cases h
    exact hs
  | _ :: _, _, _, ⟨_, hkey, hloop⟩, hs => Loop.sorted hloop (hkey.sorted hs)

/-- The data that a mapper may make, whatever its errors. -/
def DataOf (R : Doc → Mapped → Prop) (data data' : Doc) : Prop := ∃ errs, R data (data', errs)

theorem ToMap.data {R : Doc → Mapped → Prop} {v : Value} {r : Value × List Err} (h : ToMap R v r) :
    AtMap (DataOf R) v r.1 := by
  cases v with
  | map m =>
    obtain ⟨m', hm, rfl⟩ := h
    exact ⟨m'.1, ⟨m'.2, hm⟩, rfl⟩
  | _ =>
    cases h
    rfl

theorem ToValue.data {R : Doc → Mapped → Prop} {v : Value} {r : Value × List Err}
    (h : ToValue R table v r) : AtValue (DataOf R) table v r.1 := by
  cases table with
  | subSchemas => exact ToMap.data h
  | subMapSchemas =>
    cases v with
    | map m =>
      obtain ⟨rs, hrs, hr, -⟩ := h
      refine ⟨rs.map fun e => (e.1, e.2.1), ?_, hr⟩
      rw [List.forall₂_map_right_iff]
      exact hrs.imp fun e e' he => ⟨he.1, he.2.data⟩
    | _ =>
      cases h
      rfl
  | subArraySchemas =>
    cases v with
    | arr xs =>
      obtain ⟨rs, hrs, rfl⟩ := h
      refine ⟨rs.map Prod.fst, ?_, rfl⟩
      rw [List.forall₂_map_right_iff]
      exact hrs.imp fun x r hx => hx.data
    | _ =>
      cases h
      rfl

/-- The loop on the way back, as far as the data go. -/
theorem ToLoop.data : ∀ {l : List (String × Table × (Doc → Mapped → Prop))} {r r' : Mapped},
    ToLoop l r r' → Loop (l.map fun f => (f.1, f.2.1, DataOf f.2.2)) r.1 r'.1
  | [], r, r', h => by
    cases h
    rfl
  | (key, table, R) :: l, r, r', ⟨r₁, hkey, hloop⟩ => by
    refine ⟨r₁.1, ?_, ToLoop.data hloop⟩
    rcases hkey with ⟨hnone, rfl⟩ | ⟨v, w, hv, hw, rfl⟩
    · exact .inl ⟨hnone, rfl⟩
    · exact .inr ⟨v, w.1, hv, hw.data, rfl⟩

section Tables

variable {β : Type} {fields order : List (String × Table × β)}

/-- One field more is in one table more. -/
theorem flatMap_tables_cons (f : String × Table × β) : ∀ tables : List Table,
    (tables.flatMap fun t => (f :: fields).filter fun g => g.2.1 = t).Perm
      (List.replicate (tables.count f.2.1) f
        ++ tables.flatMap fun t => fields.filter fun g => g.2.1 = t)
  | [] => by simp
  | t :: tables => by
    have ih := flatMap_tables_cons f tables
    rw [List.flatMap_cons, List.flatMap_cons]
    by_cases ht : f.2.1 = t
    · rw [List.filter_cons_of_pos (by simpa using ht), ← ht, List.count_cons_self,
        List.replicate_succ, List.cons_append, List.cons_append]
      refine .cons f ((List.Perm.append_left _ ih).trans ?_)
      rw [← List.append_assoc, ← List.append_assoc]
      exact List.perm_append_comm.append_right _
    · rw [List.filter_cons_of_neg (by simpa using ht), List.count_cons_of_ne (Ne.symm ht)]
      refine (List.Perm.append_left _ ih).trans ?_
      rw [← List.append_assoc, ← List.append_assoc]
      exact List.perm_append_comm.append_right _

/-- The tables together have all fields. -/
theorem flatMap_tables {tables : List Table} (hall : ∀ t, tables.count t = 1) :
    ∀ fields : List (String × Table × β),
      (tables.flatMap fun t => fields.filter fun g => g.2.1 = t).Perm fields
  | [] => by simp
  | f :: fields => by
    refine (flatMap_tables_cons f tables).trans ?_
    rw [hall, List.replicate_one, List.singleton_append]
    exact .cons f (flatMap_tables hall fields)

theorem InTables.flatMap : ∀ {tables : List Table} {order : List (String × Table × β)},
    InTables fields tables order →
    order.Perm (tables.flatMap fun t => fields.filter fun g => g.2.1 = t)
  | [], _, h => by
    cases h
    simp
  | t :: tables, _, ⟨first, rest, hfirst, hrest, rfl⟩ => by
    rw [List.flatMap_cons]
    exact hfirst.append (InTables.flatMap hrest)

theorem InTables.perm {tables : List Table} (h : InTables fields tables order)
    (hall : ∀ t, tables.count t = 1) : order.Perm fields :=
  h.flatMap.trans (flatMap_tables hall fields)

theorem InTables.exists (fields : List (String × Table × β)) :
    ∀ tables : List Table, ∃ order, InTables fields tables order
  | [] => ⟨[], rfl⟩
  | t :: tables => by
    obtain ⟨rest, hrest⟩ := InTables.exists fields tables
    exact ⟨_, _, rest, .refl _, hrest, rfl⟩

end Tables

theorem get_eq_of_perm {β : Type*} {l l' : List (String × β)} (h : l.Perm l')
    (hnd : (l'.map Prod.fst).Nodup) (j : String) : Assoc.get j l = Assoc.get j l' := by
  refine Option.ext fun v => ?_
  have hnd' : (l.map Prod.fst).Nodup := (h.map Prod.fst).nodup_iff.2 hnd
  exact ⟨fun hv => Assoc.get_of_mem_nodup hnd (h.mem_iff.1 (Assoc.mem_of_get hv)),
    fun hv => Assoc.get_of_mem_nodup hnd' (h.mem_iff.2 (Assoc.mem_of_get hv))⟩

/-- A string is no map and no slice. -/
theorem AtValue.str {x : String} {w : Value} (h : AtValue R table (.str x) w) : w = .str x := by
  cases table <;> exact h

section Compose

variable {F T P : Doc → Doc → Prop} {U : Doc → Prop}

theorem AtMap.trans (hP : ∀ m m' m'', U m → F m m' → T m' m'' → P m m'') {v w z : Value}
    (hU : ∀ m, v = .map m → U m) (hF : AtMap F v w) (hT : AtMap T w z) : AtMap P v z := by
  cases v with
  | map m =>
    obtain ⟨m', hm', rfl⟩ := hF
    obtain ⟨m'', hm'', rfl⟩ := hT
    exact ⟨m'', hP m m' m'' (hU m rfl) hm' hm'', rfl⟩
  | _ =>
    cases hF
    exact hT

/-- Both directions at the value of a field. -/
theorem AtValue.trans (hP : ∀ m m' m'', U m → F m m' → T m' m'' → P m m'') {table : Table}
    {v w z : Value} (hU : Every U table v) (hF : AtValue F table v w) (hT : AtValue T table w z) :
    AtValue P table v z := by
  cases table with
  | subSchemas =>
    refine AtMap.trans hP (fun m hm => ?_) hF hT
    subst hm
    exact hU
  | subMapSchemas =>
    cases v with
    | map m =>
      obtain ⟨m', hm', rfl⟩ := hF
      obtain ⟨m'', hm'', rfl⟩ := hT
      refine ⟨m'', Gather.forall₂_trans (fun e he e' e'' h h' => ?_) hm' hm'', rfl⟩
      exact ⟨h.1.trans h'.1, AtMap.trans hP (hU e he) h.2 h'.2⟩
    | _ =>
      cases hF
      exact hT
  | subArraySchemas =>
    cases v with
    | arr xs =>
      obtain ⟨ys, hys, rfl⟩ := hF
      obtain ⟨zs, hzs, rfl⟩ := hT
      refine ⟨zs, Gather.forall₂_trans (fun x hx y z h h' => ?_) hys hzs, rfl⟩
      exact AtMap.trans hP (hU x hx) h h'
    | _ =>
      cases hF
      exact hT

end Compose

end Loops

section Own

variable {mappers : List LeafMapper} {data : Doc} {key : String}

theorem sorted_fromMappers : ∀ {mappers : List LeafMapper} {data : Doc}, Assoc.Sorted data →
    Assoc.Sorted (fromMappers mappers data)
  | [], _, h => h
  | m :: mappers, _, h => by
    rw [fromMappers, List.foldl_cons]
    exact sorted_fromMappers (m.sorted_from h)

/-- What can be done before or after each of the mappers can be done before or after all of them. -/
theorem fromMappers_comm {g : Doc → Doc} : ∀ {mappers : List LeafMapper} {data : Doc},
    (∀ m ∈ mappers, ∀ {data}, Assoc.Sorted data →
      m.FromInternal (g data) = g (m.FromInternal data)) → Assoc.Sorted data →
    fromMappers mappers (g data) = g (fromMappers mappers data)
  | [], _, _, _ => rfl
  | m :: mappers, data, hm, hs => by
    have ih := fromMappers_comm (fun m' h => hm m' (List.mem_cons_of_mem m h)) (m.sorted_from hs)
    simp only [fromMappers, List.foldl_cons] at ih ⊢
    rw [hm m List.mem_cons_self hs, ih]

/-- The data that come back from the own mappers. -/
def toMappers (mappers : List LeafMapper) (data : Doc) : Doc :=
  (Mappers.ToInternal (M := Id) (mappers.map LeafMapper.ToInternal) data).1

theorem toMappers_cons (m : LeafMapper) (mappers : List LeafMapper) (data : Doc) :
    toMappers (m :: mappers) data = (m.ToInternal (toMappers mappers data)).1 := rfl

theorem sorted_toMappers : ∀ {mappers : List LeafMapper} {data : Doc}, Assoc.Sorted data →
    Assoc.Sorted (toMappers mappers data)
  | [], _, h => h
  | m :: mappers, _, h => by
    rw [toMappers_cons]
    exact m.sorted_to (sorted_toMappers h)

theorem toMappers_set (v : Value) : ∀ {mappers : List LeafMapper} {data : Doc},
    (∀ m ∈ mappers, m.Ignores key) → Assoc.Sorted data →
    toMappers mappers (Assoc.set key v data) = Assoc.set key v (toMappers mappers data)
  | [], _, _, _ => rfl
  | m :: mappers, data, hm, hs => by
    rw [toMappers_cons, toMappers_cons, toMappers_set v
      (fun m' hm' => hm m' (List.mem_cons_of_mem m hm')) hs,
      (hm m List.mem_cons_self).to_set v (sorted_toMappers hs)]

/-- The last one first undoes the first one first. -/
theorem toMappers_fromMappers : ∀ {mappers : List LeafMapper} {data : Doc},
    (∀ m ∈ mappers, m.Invertible) → Assoc.Sorted data →
    toMappers mappers (fromMappers mappers data) = data
  | [], _, _, _ => rfl
  | m :: mappers, data, hm, hs => by
    have ih := toMappers_fromMappers (fun m' hm' => hm m' (List.mem_cons_of_mem m hm'))
      (m.sorted_from hs)
    rw [toMappers_cons, fromMappers, List.foldl_cons]
    rw [fromMappers] at ih
    rw [ih, (hm m List.mem_cons_self).undoes hs]

theorem putID_cases (name ns : String) (hid : Assoc.get "id" data = none) :
    TypeMapper.putID name ns data = data
      ∨ ∃ id, TypeMapper.putID name ns data = Assoc.set "id" (.str id) data := by
  simp only [TypeMapper.putID, hid]
  split_ifs
  · exact .inl rfl
  · exact .inr ⟨_, rfl⟩
  · exact .inr ⟨_, rfl⟩

/-- The id, if there is one, is put in after the own mappers. -/
theorem finish_cases {own : Doc → Doc} (root : Bool) {typeName : String} (data : Doc) {nested : Doc}
    {t : Value}
    (htype : Assoc.get "type" (own (putType typeName nested)) = some t)
    (hid : Assoc.get "id" (own (putType typeName nested)) = none) :
    finish own root typeName data nested = own (putType typeName nested)
      ∨ root = true ∧ ∃ id, finish own root typeName data nested
        = Assoc.set "id" (.str id) (own (putType typeName nested)) := by
  simp only [finish]
  generalize own (putType typeName nested) = own at *
  cases root with
  | false =>
    left
    simp [hid]
  | true =>
    simp only [if_true]
    rcases putID_cases (stringOf (GetValue ["metadata", "name"] data))
      (stringOf (GetValue ["metadata", "namespace"] data)) hid with heq | ⟨id, heq⟩
    · left
      rw [heq, if_neg (by simp [hid])]
    · refine .inr ⟨trivial, id, ?_⟩
      rw [heq, if_pos (by simp [Assoc.get_set])]
      refine if_neg ?_
      rw [Assoc.get_set, if_neg (by decide), htype]
      simp

/-- What the own mappers find on the way back, after `finish`: the type, perhaps an id, and the data
that the loops left. -/
theorem toMappers_finish (root : Bool) (typeName : String) (data : Doc) {nested : Doc}
    (hm : ∀ m ∈ mappers, m.Invertible) (hs : Assoc.Sorted nested)
    (htype : Assoc.get "type" nested = none) (hid : Assoc.get "id" nested = none) :
    let back := toMappers mappers (finish (fromMappers mappers) root typeName data nested)
    Assoc.get "type" back = some (.str typeName)
      ∧ (Assoc.get "id" back = none ∨ root = true ∧ ∃ id, Assoc.get "id" back = some (.str id))
      ∧ ∀ j, j ≠ "type" → j ≠ "id" → Assoc.get j back = Assoc.get j nested := by
  have htypes : ∀ m ∈ mappers, m.Ignores "type" := fun m h => (hm m h).type
  have hids : ∀ m ∈ mappers, m.Ignores "id" := fun m h => (hm m h).id
  -- the data with the type, which is all the own mappers have to do with
  have hput : putType typeName nested = Assoc.set "type" (.str typeName) nested := if_pos htype
  have hs1 : Assoc.Sorted (putType typeName nested) := by
    rw [hput]
    exact hs.set
  have htype2 : Assoc.get "type" (fromMappers mappers (putType typeName nested))
      = some (.str typeName) := by
    rw [hput, fromMappers_comm (fun m h => (htypes m h).from_set _) hs, Assoc.get_set, if_pos rfl]
  have hid2 : Assoc.get "id" (fromMappers mappers (putType typeName nested)) = none := by
    have herase : Assoc.erase "id" (putType typeName nested) = putType typeName nested := by
      refine Assoc.ext hs1.erase hs1 fun j => ?_
      rw [Assoc.get_erase]
      split_ifs with hj
      · rw [hj, hput, Assoc.get_set, if_neg (by decide), hid]
      · rfl
    rw [← herase, fromMappers_comm (fun m h => (hids m h).from_erase) hs1, Assoc.get_erase,
      if_pos rfl]
  have hback := toMappers_fromMappers hm hs1
  have hget : ∀ j, j ≠ "type" → Assoc.get j (putType typeName nested) = Assoc.get j nested :=
    fun j hj => by rw [hput, Assoc.get_set, if_neg hj]
  have hgettype : Assoc.get "type" (putType typeName nested) = some (.str typeName) := by
    rw [hput, Assoc.get_set, if_pos rfl]
  intro back
  rcases finish_cases root data htype2 hid2 with heq | ⟨hroot, id, heq⟩
  · have hb : back = putType typeName nested := by
      simp only [back, heq, hback]
    rw [hb]
    exact ⟨hgettype, .inl (by rw [hget _ (by decide), hid]), fun j hj _ => hget j hj⟩
  · have hb : back = Assoc.set "id" (.str id) (putType typeName nested) := by
      simp only [back, heq]
      rw [toMappers_set _ hids (sorted_fromMappers hs1), hback]
    rw [hb]
    refine ⟨?_, .inr ⟨hroot, id, ?_⟩, fun j hj hj' => ?_⟩
    · rw [Assoc.get_set, if_neg (by decide), hgettype]
    · rw [Assoc.get_set, if_pos rfl]
    · rw [Assoc.get_set, if_neg hj', hget j hj]

end Own

section Tree

variable {fields : List (String × Table × MapperTree)} {data : Doc}

namespace MapperTree

theorem froms_eq : ∀ fields : List (String × Table × MapperTree),
    froms fields = fields.map fun f => (f.1, f.2.1, f.2.2.From)
  | [] => rfl
  | (_, _, _) :: fields => by rw [froms, froms_eq fields, List.map_cons]

theorem tos_eq : ∀ fields : List (String × Table × MapperTree),
    tos fields = fields.map fun f => (f.1, f.2.1, f.2.2.To)
  | [] => rfl
  | (_, _, _) :: fields => by rw [tos, tos_eq fields, List.map_cons]

theorem pluses_eq : ∀ fields : List (String × Table × MapperTree),
    pluses fields = fields.map fun f => (f.1, f.2.1, f.2.2.Plus)
  | [] => rfl
  | (_, _, _) :: fields => by rw [pluses, pluses_eq fields, List.map_cons]

theorem allInvertible_iff : ∀ fields : List (String × Table × MapperTree),
    AllInvertible fields ↔ ∀ f ∈ fields, f.2.2.Invertible
  | [] => by simp [AllInvertible]
  | (_, _, _) :: fields => by
    rw [AllInvertible, allInvertible_iff fields, List.forall_mem_cons]

theorem allUntyped_iff : ∀ fields : List (String × Table × MapperTree),
    AllUntyped fields data
      ↔ ∀ f ∈ fields, ∀ v, Assoc.get f.1 data = some v → Every f.2.2.Untyped f.2.1 v
  | [] => by simp [AllUntyped]
  | (_, _, _) :: fields => by
    rw [AllUntyped, allUntyped_iff fields, List.forall_mem_cons]

theorem get_map_fields {β : Type} (g : MapperTree → β) (j : String) :
    ∀ fields : List (String × Table × MapperTree),
      Assoc.get j (fields.map fun f => (f.1, f.2.1, g f.2.2))
        = (Assoc.get j fields).map fun p => (p.1, g p.2)
  | [] => rfl
  | (k, table, t) :: fields => by
    rw [List.map_cons, Assoc.get, Assoc.get, get_map_fields g j fields]
    split_ifs <;> rfl

mutual

/-- What holds of a mapper if it does of those of the fields holds of all of them. -/
theorem induct {P : MapperTree → Prop} (h : ∀ {mappers root typeName fields},
    (∀ f ∈ fields, P f.2.2) → P (node mappers root typeName fields)) : ∀ t, P t
  | .node _ _ _ fields => h (induct_fields h fields)

theorem induct_fields {P : MapperTree → Prop} (h : ∀ {mappers root typeName fields},
    (∀ f ∈ fields, P f.2.2) → P (node mappers root typeName fields)) :
    ∀ fields : List (String × Table × MapperTree), ∀ f ∈ fields, P f.2.2
  | [], _, hf => by simp at hf
  | (_, _, t) :: fields, f, hf => by
    rcases List.mem_cons.1 hf with rfl | hf
    · exact induct h t
    · exact induct_fields h fields f hf

end

/-- What the mapper makes on the way back of what it made. -/
def Restores (t : MapperTree) : Prop :=
  t.Invertible → ∀ data data' r, t.Untyped data → t.From data data' → t.To data' r → t.Plus data r.1

/-- What a loop over the fields does to one key. -/
theorem loop_at {g : MapperTree → Doc → Doc → Prop}
    {order : List (String × Table × (Doc → Doc → Prop))}
    {data' : Doc} (hnd : (fields.map Prod.fst).Nodup)
    (horder : order.Perm (fields.map fun f => (f.1, f.2.1, g f.2.2))) (h : Loop order data data')
    (j : String) : AtField ((Assoc.get j fields).map fun p => (p.1, g p.2)) (Assoc.get j data)
      (Assoc.get j data') := by
  have hnames : (fields.map fun f => (f.1, f.2.1, g f.2.2)).map Prod.fst = fields.map Prod.fst := by
    rw [List.map_map]
    rfl
  have hnd' : (order.map Prod.fst).Nodup := by
    rwa [(horder.map Prod.fst).nodup_iff, hnames]
  have hpoint := h.pointwise hnd' j
  rwa [get_eq_of_perm horder (by rwa [hnames]), get_map_fields] at hpoint

theorem restores_node {mappers : List LeafMapper} {root : Bool} {typeName : String}
    (hfields : ∀ f ∈ fields, f.2.2.Restores) : (node mappers root typeName fields).Restores := by
  rintro hinv data data' r huntyped hfrom hto
  rw [Invertible] at hinv
  obtain ⟨hmappers, hnd, hall⟩ := hinv
  rw [Untyped] at huntyped
  obtain ⟨hs, htype, hid, huntyped⟩ := huntyped
  rw [From] at hfrom
  obtain ⟨order, nested, htables, hloop, rfl⟩ := hfrom
  rw [To] at hto
  obtain ⟨order', htables', hloop'⟩ := hto
  have horder := htables.perm (by rintro (_ | _ | _) <;> rfl)
  rw [froms_eq] at horder
  have horder' := (htables'.perm (by rintro (_ | _ | _) <;> rfl)).map
    fun f => (f.1, f.2.1, DataOf f.2.2)
  rw [tos_eq, List.map_map] at horder'
  have hthere := loop_at hnd horder hloop
  have hback := loop_at (g := fun t => DataOf t.To) hnd horder' hloop'.data
  -- the loops leave no type and no id where there was none
  have hnone : ∀ {o : Option (Table × (Doc → Doc → Prop))} {y}, AtField o none y → y = none := by
    intro o y h
    rcases o with _ | _
    · exact h
    · exact h
  have hstr : ∀ {o : Option (Table × (Doc → Doc → Prop))} {x y},
      AtField o (some (.str x)) y → y = some (.str x) := by
    intro o x y h
    rcases o with _ | ⟨table, R⟩
    · exact h
    · obtain ⟨w, rfl, hw⟩ := h
      rw [hw.str]
  have htype' : Assoc.get "type" nested = none := hnone (htype ▸ hthere "type")
  have hid' : Assoc.get "id" nested = none := hnone (hid ▸ hthere "id")
  obtain ⟨hbtype, hbid, hbother⟩ := toMappers_finish root typeName data hmappers
    (hloop.sorted hs) htype' hid'
  rw [Plus]
  refine ⟨.inr (hstr (hbtype ▸ hback "type")), ?_, fun j hj hj' => ?_⟩
  · rcases hbid with hbid | ⟨hroot, id, hbid⟩
    · exact .inl (hnone (hbid ▸ hback "id"))
    · exact .inr ⟨hroot, id, hstr (hbid ▸ hback "id")⟩
  · have hthere := hthere j
    have hback := hback j
    have hsame : Assoc.get j (Mappers.ToInternal (M := Id) (mappers.map LeafMapper.ToInternal)
        (finish (fromMappers mappers) root typeName data nested)).1 = Assoc.get j nested :=
      hbother j hj hj'
    rw [hsame] at hback
    rw [pluses_eq, get_map_fields]
    rcases hfield : Assoc.get j fields with _ | ⟨table, t⟩
    · rw [hfield] at hthere hback
      exact hback.trans hthere
    · have hmem := Assoc.mem_of_get hfield
      rw [hfield] at hthere hback
      rcases hv : Assoc.get j data with _ | v
      · rw [hv] at hthere
        rw [hnone hthere] at hback
        exact hback
      · rw [hv] at hthere
        obtain ⟨w, hw, hF⟩ := hthere
        rw [hw] at hback
        obtain ⟨z, hz, hT⟩ := hback
        refine ⟨z, hz, AtValue.trans (U := t.Untyped) (fun m m' m'' hU hm hm' => ?_)
          ((allUntyped_iff _).1 huntyped _ hmem v hv) hF hT⟩
        obtain ⟨errs, hm'⟩ := hm'
        exact hfields _ hmem ((allInvertible_iff _).1 hall _ hmem) m m' (m'', errs) hU hm hm'

section Total

variable {T : Doc → Mapped → Prop}

theorem exists_forall₂ {α β : Type*} {R : α → β → Prop} (h : ∀ a, ∃ b, R a b) (l : List α) :
    ∃ l', List.Forall₂ R l l' := by
  choose f hf using h
  exact ⟨l.map f, List.forall₂_map_right_iff.2 (List.forall₂_same.2 fun a _ => hf a)⟩

theorem ToMap.total (h : ∀ m, ∃ r, T m r) (v : Value) : ∃ r, ToMap T v r := by
  cases v with
  | map m =>
    obtain ⟨r, hr⟩ := h m
    exact ⟨(.map r.1, r.2), r, hr, rfl⟩
  | _ => exact ⟨_, rfl⟩

theorem ToValue.total (h : ∀ m, ∃ r, T m r) (table : Table) (v : Value) :
    ∃ r, ToValue T table v r := by
  cases table with
  | subSchemas => exact ToMap.total h v
  | subMapSchemas =>
    cases v with
    | map m =>
      have hentry : ∀ e : String × Value, ∃ e' : String × Value × List Err,
          e.1 = e'.1 ∧ ToMap T e.2 e'.2 := by
        intro e
        obtain ⟨r, hr⟩ := ToMap.total h e.2
        exact ⟨(e.1, r), rfl, hr⟩
      obtain ⟨rs, hrs⟩ := exists_forall₂ hentry m
      exact ⟨(.map (rs.map fun e => (e.1, e.2.1)), rs.flatMap fun e => e.2.2), rs, hrs, rfl,
        .refl _⟩
    | _ => exact ⟨_, rfl⟩
  | subArraySchemas =>
    cases v with
    | arr xs =>
      obtain ⟨rs, hrs⟩ := exists_forall₂ (ToMap.total h) xs
      exact ⟨_, rs, hrs, rfl⟩
    | _ => exact ⟨_, rfl⟩

theorem ToLoop.total : ∀ {l : List (String × Table × (Doc → Mapped → Prop))},
    (∀ f ∈ l, ∀ m, ∃ r, f.2.2 m r) → ∀ r, ∃ r', ToLoop l r r'
  | [], _, r => ⟨r, rfl⟩
  | (key, table, T) :: l, h, r => by
    have hkey : ∃ r₁, ToKey key table T r r₁ := by
      rcases hv : Assoc.get key r.1 with _ | v
      · exact ⟨r, .inl ⟨hv, rfl⟩⟩
      · obtain ⟨w, hw⟩ := ToValue.total (h _ List.mem_cons_self) table v
        exact ⟨_, .inr ⟨v, w, hv, hw, rfl⟩⟩
    obtain ⟨r₁, hkey⟩ := hkey
    obtain ⟨r', hloop⟩ := ToLoop.total (fun f hf => h f (List.mem_cons_of_mem _ hf)) r₁
    exact ⟨r', r₁, hkey, hloop⟩

/-- The way there is a way back without errors. -/
theorem Loop.total {l : List (String × Table × (Doc → Doc → Prop))}
    (h : ∀ f ∈ l, ∀ m, ∃ m', f.2.2 m m') (data : Doc) : ∃ data', Loop l data data' := by
  have hsame : ∀ R : Doc → Doc → Prop,
      DataOf (fun m (r : Mapped) => R m r.1 ∧ r.2 = []) = R := by
    intro R
    funext m m'
    simp [DataOf]
  obtain ⟨r, hr⟩ := ToLoop.total
    (l := l.map fun f => (f.1, f.2.1, fun m r => f.2.2 m r.1 ∧ r.2 = [])) (fun f hf m => by
      obtain ⟨g, hg, rfl⟩ := List.mem_map.1 hf
      obtain ⟨m', hm⟩ := h g hg m
      exact ⟨(m', []), hm, rfl⟩) (data, [])
  have hloop := hr.data
  simp only [List.map_map, Function.comp_def, hsame, Prod.mk.eta, List.map_id'] at hloop
  exact ⟨r.1, hloop⟩

/-- Both directions always come to an end. -/
def Total (t : MapperTree) : Prop :=
  (∀ data, ∃ data', t.From data data') ∧ ∀ data, ∃ r, t.To data r

theorem total_node {mappers : List LeafMapper} {root : Bool} {typeName : String}
    (hfields : ∀ f ∈ fields, f.2.2.Total) : (node mappers root typeName fields).Total := by
  refine ⟨fun data => ?_, fun data => ?_⟩
  · obtain ⟨order, horder⟩ := InTables.exists (froms fields)
      [.subSchemas, .subMapSchemas, .subArraySchemas]
    have hperm := horder.perm (by rintro (_ | _ | _) <;> rfl)
    have hrounds : ∀ f ∈ order, ∀ m, ∃ m', f.2.2 m m' := by
      intro f hf
      rw [froms_eq] at hperm
      obtain ⟨g, hg, rfl⟩ := List.mem_map.1 (hperm.mem_iff.1 hf)
      exact (hfields g hg).1
    obtain ⟨nested, hloop⟩ := Loop.total hrounds data
    exact ⟨_, order, nested, horder, hloop, rfl⟩
  · obtain ⟨order, horder⟩ := InTables.exists (tos fields)
      [.subArraySchemas, .subMapSchemas, .subSchemas]
    have hperm := horder.perm (by rintro (_ | _ | _) <;> rfl)
    have hrounds : ∀ f ∈ order, ∀ m, ∃ r, f.2.2 m r := by
      intro f hf
      rw [tos_eq] at hperm
      obtain ⟨g, hg, rfl⟩ := List.mem_map.1 (hperm.mem_iff.1 hf)
      exact (hfields g hg).2
    obtain ⟨r, hloop⟩ := ToLoop.total hrounds
      (Mappers.ToInternal (M := Id) (mappers.map LeafMapper.ToInternal) data)
    exact ⟨r, order, horder, hloop⟩

end Total

/-- The mapper of a type, on the way there and back, in whatever order the tables and maps are gone
through: the data are the same but for types and ids that were put in. -/
theorem inverse (t : MapperTree) (ht : t.Invertible) (hdata : t.Untyped data) :
    (∃ data', t.From data data') ∧ ∀ data', t.From data data' →
      (∃ r, t.To data' r) ∧ ∀ r, t.To data' r → t.Plus data r.1 :=
  have htotal : t.Total := t.induct total_node
  have hrestores : t.Restores := t.induct restores_node
  ⟨htotal.1 data, fun data' hfrom => ⟨htotal.2 data', fun r hto =>
    hrestores ht data data' r hdata hfrom hto⟩⟩

section Flags

/-- A flag is turned round. -/
def negated : Value → Value
  | .bool b => .bool (!b)
  | v => v

theorem negated_negated : ∀ v, negated (negated v) = v
  | .bool b => by simp [negated]
  | .nil | .int _ | .float _ | .number _ | .str _ | .arr _ | .nilArr | .strs _ | .map _
  | .nilMap => rfl

theorem get_modifyKey (key : String) (g : Value → Value) (data : Doc) (j : String) :
    Assoc.get j (modifyKey key g data)
      = if j = key then (Assoc.get key data).map g else Assoc.get j data := by
  unfold modifyKey
  rcases hv : Assoc.get key data with _ | v
  · split_ifs with hj
    · rw [hj, hv, Option.map_none]
    · rfl
  · exact Assoc.get_set _ _ _ _

theorem sorted_modifyKey (key : String) (g : Value → Value) (hs : Assoc.Sorted data) :
    Assoc.Sorted (modifyKey key g data) := by
  unfold modifyKey
  split
  · exact hs
  · exact hs.set

/-- A mapper that turns the flag of a key round, both ways. -/
def flag (key : String) : LeafMapper where
  FromInternal := modifyKey key negated
  ToInternal data := (modifyKey key negated data, [])
  sorted_from := sorted_modifyKey key negated
  sorted_to := sorted_modifyKey key negated

theorem flag_ignores {key other : String} (h : other ≠ key) : (flag key).Ignores other := by
  have hset : ∀ {data : Doc} (v : Value), Assoc.Sorted data →
      modifyKey key negated (Assoc.set other v data)
        = Assoc.set other v (modifyKey key negated data) := fun v hs =>
    Assoc.ext (sorted_modifyKey _ _ hs.set) (sorted_modifyKey _ _ hs).set fun j => by
      simp only [get_modifyKey, Assoc.get_set]
      grind
  have herase : ∀ {data : Doc}, Assoc.Sorted data →
      modifyKey key negated (Assoc.erase other data)
        = Assoc.erase other (modifyKey key negated data) := fun hs =>
    Assoc.ext (sorted_modifyKey _ _ hs.erase) (sorted_modifyKey _ _ hs).erase fun j => by
      simp only [get_modifyKey, Assoc.get_erase]
      grind
  exact ⟨hset, herase, hset, herase⟩

theorem flag_invertible {key : String} (htype : "type" ≠ key) (hid : "id" ≠ key) :
    (flag key).Invertible where
  undoes hs := Assoc.ext (sorted_modifyKey _ _ (sorted_modifyKey _ _ hs)) hs fun j => by
    show Assoc.get j (modifyKey key negated (modifyKey key negated _)) = _
    rw [get_modifyKey, get_modifyKey, if_pos rfl, get_modifyKey]
    split_ifs with hj
    · rw [hj, Option.map_map, (funext negated_negated : negated ∘ negated = id), Option.map_id]
      rfl
    · rfl
  type := flag_ignores htype
  id := flag_ignores hid

/-- A pod has containers, and each of them a flag. -/
def pod : MapperTree :=
  .node [flag "paused"] true "pod"
    [("containers", .subArraySchemas, .node [flag "tty", flag "stdin"] false "container" [])]

def podData : Doc :=
  [("containers", .arr [.map [("stdin", .bool true)], .map [("tty", .bool false)]]),
    ("metadata", .map [("name", .str "web")]), ("paused", .bool true)]

theorem pod_inverse : pod.Invertible ∧ pod.Untyped podData
    ∧ (∃ data', pod.From podData data') ∧ ∀ data', pod.From podData data' →
      (∃ r, pod.To data' r) ∧ ∀ r, pod.To data' r → pod.Plus podData r.1 := by
  have hpod : pod.Invertible := by
    have hflag := fun key => @flag_invertible key
    simp only [pod, Invertible, AllInvertible, List.forall_mem_cons]
    refine ⟨⟨hflag _ (by decide) (by decide), by simp⟩, by simp, ⟨⟨hflag _ (by decide) (by decide),
      hflag _ (by decide) (by decide), by simp⟩, by simp, trivial⟩, trivial⟩
  have hdata : pod.Untyped podData := by
    simp only [pod, podData, Untyped, AllUntyped, Assoc.Sorted]
    refine ⟨by decide, by decide, by decide, fun v hv => ?_, trivial⟩
    obtain rfl : v = _ := (Option.some.inj hv).symm
    simp [Every, Assoc.get]
  exact ⟨hpod, hdata, inverse pod hpod hdata⟩

end Flags

end MapperTree

end Tree

end Norman.Types
