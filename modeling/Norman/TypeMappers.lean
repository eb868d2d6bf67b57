import Norman.Creation

/-!
# Type mappers in both directions

`types/mapper.go`: the mapper of a type has a list of mappers of its own, and for each field whose
schema has a mapper a table says how it is applied: to the value of the field, to each value of a
map, or to each element of a slice. `ModifySchema` puts a field into one of the three tables, by its
type. On the way from the API server the fields come first and the own mappers after them; on the
way back it is the other way round, and the own mappers are gone through from the last to the first.

The tables, and the maps of a field, are gone through in any order, so that both directions are
relations: `From` and `To` say what may come of the data. A field whose schema has no mapper is left
out, and so is a call with a nil map, which changes nothing.
-/

namespace Norman.Types

open Norman.Mapper Httperror

/-- A mapper in the list of a type. It makes a map of a map. -/
structure LeafMapper where
  FromInternal : Doc → Doc
  ToInternal : Doc → Mapped
  sorted_from : ∀ {data}, Assoc.Sorted data → Assoc.Sorted (FromInternal data)
  sorted_to : ∀ {data}, Assoc.Sorted data → Assoc.Sorted (ToInternal data).1

/-- In which of the tables a field is. -/
inductive Table where
  | subSchemas
  | subMapSchemas
  | subArraySchemas
  deriving DecidableEq

/-- A `typeMapper`, with those of the schemas of its fields. -/
inductive MapperTree where
  | node (mappers : List LeafMapper) (root : Bool) (typeName : String)
      (fields : List (String × Table × MapperTree))

section FromInternal

/-- What may come of a value to which a mapper is applied: it is at work on a map. -/
def AtMap (R : Doc → Doc → Prop) : Value → Value → Prop
  | .map m, w => ∃ m', R m m' ∧ w = .map m'
  | v, w => w = v

/-- What may come of the value of a field. -/
def AtValue (R : Doc → Doc → Prop) : Table → Value → Value → Prop
  | .subSchemas, v, w => AtMap R v w
  | .subMapSchemas, .map m, w =>
    ∃ m', List.Forall₂ (fun e e' => e.1 = e'.1 ∧ AtMap R e.2 e'.2) m m' ∧ w = .map m'
  | .subArraySchemas, .arr xs, w => ∃ ys, List.Forall₂ (AtMap R) xs ys ∧ w = .arr ys
  | _, v, w => w = v

/-- One round of a loop over a table. -/
def AtKey (key : String) (table : Table) (R : Doc → Doc → Prop) (data data' : Doc) : Prop :=
  (Assoc.get key data = none ∧ data' = data)
    ∨ ∃ v w, Assoc.get key data = some v ∧ AtValue R table v w ∧ data' = Assoc.set key w data

/-- The rounds one after another. -/
def Loop : List (String × Table × (Doc → Doc → Prop)) → Doc → Doc → Prop
  | [], data, data' => data' = data
  | (key, table, R) :: fields, data, data' =>
    ∃ data₁, AtKey key table R data data₁ ∧ Loop fields data₁ data'

/-- The fields of one table after those of another, and those of each in any order. -/
def InTables {β : Type} (fields : List (String × Table × β)) :
    List Table → List (String × Table × β) → Prop
  | [], order => order = []
  | table :: tables, order =>
    ∃ first rest, first.Perm (fields.filter fun f => f.2.1 = table)
      ∧ InTables fields tables rest ∧ order = first ++ rest

/-- The type is put in, if there is none. -/
def putType (typeName : String) (data : Doc) : Doc :=
  if Assoc.get "type" data = none then Assoc.set "type" (.str typeName) data else data

/-- The end of `typeMapper.FromInternal`: what comes after the loops, with the data as they were
before them and as they are. -/
def finish (mappers : Doc → Doc) (root : Bool) (typeName : String) (data nested : Doc) : Doc :=
  let name := stringOf (GetValue ["metadata", "name"] data)
  let ns := stringOf (GetValue ["metadata", "namespace"] data)
  let data := mappers (putType typeName nested)
  let data := if root then TypeMapper.putID name ns data else data
  if Assoc.get "id" data ≠ none then putType typeName data else data

/-- It is the end of the run in one order, too. -/
theorem TypeMapper.FromInternal_eq_finish (t : TypeMapper) (data : Doc) :
    t.FromInternal data = finish t.mappers t.root t.typeName data (t.nested data) :=
  rfl

/-- `Mappers.FromInternal`. -/
def fromMappers (mappers : List LeafMapper) (data : Doc) : Doc :=
  mappers.foldl (fun data mapper => mapper.FromInternal data) data

mutual

/-- `typeMapper.FromInternal`: what may come of the data. -/
def MapperTree.From : MapperTree → Doc → Doc → Prop
  | .node mappers root typeName fields, data, data' =>
    ∃ order nested, InTables (MapperTree.froms fields)
        [.subSchemas, .subMapSchemas, .subArraySchemas] order
      ∧ Loop order data nested ∧ data' = finish (fromMappers mappers) root typeName data nested

def MapperTree.froms : List (String × Table × MapperTree) →
    List (String × Table × (Doc → Doc → Prop))
  | [] => []
  | (key, table, t) :: fields => (key, table, t.From) :: MapperTree.froms fields

end

end FromInternal

section ToInternal

/-- What may come of a value, and which errors. -/
def ToMap (R : Doc → Mapped → Prop) : Value → Value × List Err → Prop
  | .map m, r => ∃ m', R m m' ∧ r = (.map m'.1, m'.2)
  | v, r => r = (v, [])

/-- What may come of the value of a field; the errors of a map come in any order. -/
def ToValue (R : Doc → Mapped → Prop) : Table → Value → Value × List Err → Prop
  | .subSchemas, v, r => ToMap R v r
  | .subMapSchemas, .map m, r =>
    ∃ rs : List (String × Value × List Err),
      List.Forall₂ (fun e e' => e.1 = e'.1 ∧ ToMap R e.2 e'.2) m rs
      ∧ r.1 = .map (rs.map fun e => (e.1, e.2.1)) ∧ r.2.Perm (rs.flatMap fun e => e.2.2)
  | .subArraySchemas, .arr xs, r =>
    ∃ rs, List.Forall₂ (ToMap R) xs rs ∧ r = (.arr (rs.map Prod.fst), rs.flatMap Prod.snd)
  | _, v, r => r = (v, [])

/-- One round of a loop over a table. -/
def ToKey (key : String) (table : Table) (R : Doc → Mapped → Prop) (r r' : Mapped) : Prop :=
  (Assoc.get key r.1 = none ∧ r' = r)
    ∨ ∃ v w, Assoc.get key r.1 = some v ∧ ToValue R table v w
      ∧ r' = (Assoc.set key w.1 r.1, r.2 ++ w.2)

/-- The rounds one after another. -/
def ToLoop : List (String × Table × (Doc → Mapped → Prop)) → Mapped → Mapped → Prop
  | [], r, r' => r' = r
  | (key, table, R) :: fields, r, r' => ∃ r₁, ToKey key table R r r₁ ∧ ToLoop fields r₁ r'

mutual

/-- `typeMapper.ToInternal`: what may come of the data, and which errors. -/
def MapperTree.To : MapperTree → Doc → Mapped → Prop
  | .node mappers _ _ fields, data, r =>
    ∃ order, InTables (MapperTree.tos fields) [.subArraySchemas, .subMapSchemas, .subSchemas] order
      ∧ ToLoop order (Mappers.ToInternal (M := Id) (mappers.map LeafMapper.ToInternal) data) r

def MapperTree.tos : List (String × Table × MapperTree) →
    List (String × Table × (Doc → Mapped → Prop))
  | [] => []
  | (key, table, t) :: fields => (key, table, t.To) :: MapperTree.tos fields

end

end ToInternal

end Norman.Types
