import Mathlib.Data.List.DropRight
import Norman.Mapper
import Norman.Proxy

/-!
# Ids and what they address

An object of a root type gets an id out of its namespace and its name. `byID` takes an id apart at
every colon to see if it is valid, and at the first one to find the object; `Update` and `Delete`
only do the latter. The two agree if and only if there is no colon in the name.
-/

namespace Norman.Proxy

open Norman.Types Norman.Convert

section Split

theorem cut_of_not_mem {c : Char} : ∀ {l : List Char}, c ∉ l → cut [c] l = none
  | [], _ => rfl
  | d :: l, h => by
    simp only [List.mem_cons, not_or] at h
    simp [cut, cut_of_not_mem h.2, h.1]

theorem cut_append {c : Char} (r : List Char) :
    ∀ {l : List Char}, c ∉ l → cut [c] (l ++ c :: r) = some (l, r)
  | [], _ => by simp [cut]
  | d :: l, h => by
    simp only [List.mem_cons, not_or] at h
    simp [cut, cut_append r h.2, h.1]

theorem splitID_plain {id : String} (h : ':' ∉ id.toList) : splitID id = ("", id) := by
  simp [splitID, cut_of_not_mem h]

theorem splitID_colon {ns : String} (h : ':' ∉ ns.toList) (name : String) :
    splitID (ns ++ ":" ++ name) = (ns, name) := by
  have hlist : (ns ++ ":" ++ name).toList = ns.toList ++ ':' :: name.toList := by simp
  simp [splitID, hlist, cut_append _ h]

theorem length_splitOn_eq_one {c : Char} {l : List Char} :
    (l.splitOn c).length = 1 ↔ c ∉ l := by
  constructor
  · intro h hmem
    obtain ⟨a, b, rfl⟩ := List.append_of_mem hmem
    rw [List.splitOn_append_cons_self, List.length_append] at h
    have ha := List.length_pos_iff.2 (List.splitOn_ne_nil c a)
    have hb := List.length_pos_iff.2 (List.splitOn_ne_nil c b)
    omega
  · intro h
    rw [List.splitOn_eq_singleton h]
    rfl

end Split

section Trim

theorem mem_dropWhile_isSpace {c : Char} (h : isSpace c = false) {l : List Char} :
    c ∈ l.dropWhile isSpace ↔ c ∈ l := by
  induction l with
  | nil => simp
  | cons d l ih =>
    rw [List.dropWhile_cons]
    split_ifs with hd
    · have hne : c ≠ d := by
        rintro rfl
        simp [h] at hd
      simp [ih, hne]
    · rfl

theorem mem_trimSpace {c : Char} (h : isSpace c = false) {s : String} :
    c ∈ (trimSpace s).toList ↔ c ∈ s.toList := by
  simp [trimSpace, mem_dropWhile_isSpace h]

theorem forall_dropWhile_isSpace {l : List Char} :
    (∀ c ∈ l.dropWhile isSpace, isSpace c = true) ↔ ∀ c ∈ l, isSpace c = true := by
  constructor
  · intro h c hc
    by_contra hs
    have hs := Bool.eq_false_iff.2 hs
    rw [h c ((mem_dropWhile_isSpace hs).2 hc)] at hs
    cases hs
  · exact fun h c hc => h c (List.dropWhile_suffix _ |>.subset hc)

theorem trimSpace_eq_empty {s : String} : trimSpace s = "" ↔ ∀ c ∈ s.toList, isSpace c = true := by
  simp only [trimSpace, String.ofList_eq_empty_iff, List.reverse_eq_nil_iff,
    List.dropWhile_eq_nil_iff, List.mem_reverse]
  exact forall_dropWhile_isSpace

theorem dropWhile_colon (a b : List Char) :
    (a ++ ':' :: b).dropWhile isSpace = a.dropWhile isSpace ++ ':' :: b := by
  have hcolon : isSpace ':' = false := by decide
  rw [List.dropWhile_append]
  split_ifs with h
  · simp [List.isEmpty_iff.1 h, hcolon]
  · rfl

/-- The blanks around an id with a colon are those before the namespace and after the name. -/
theorem trimSpace_colon (ns name : String) :
    (trimSpace (ns ++ ":" ++ name)).toList
      = ns.toList.dropWhile isSpace ++ ':' :: (name.toList.reverse.dropWhile isSpace).reverse := by
  have hlist : (ns ++ ":" ++ name).toList = ns.toList ++ ':' :: name.toList := by simp
  simp only [trimSpace, hlist, dropWhile_colon, String.toList_ofList]
  rw [List.reverse_append, List.reverse_cons, List.append_assoc, List.singleton_append,
    dropWhile_colon]
  simp

theorem validID_true_iff {ns : String} (hns : ':' ∉ ns.toList) (name : String) :
    validID true (ns ++ ":" ++ name) = true
      ↔ ':' ∉ name.toList ∧ trimSpace ns ≠ "" ∧ trimSpace name ≠ "" := by
  have hfront : ':' ∉ ns.toList.dropWhile isSpace :=
    fun h => hns (List.dropWhile_suffix _ |>.subset h)
  have hback : ':' ∈ (name.toList.reverse.dropWhile isSpace).reverse ↔ ':' ∈ name.toList := by
    simp [mem_dropWhile_isSpace (show isSpace ':' = false by decide)]
  have hsplit : split ':' (trimSpace (ns ++ ":" ++ name))
      = String.ofList (ns.toList.dropWhile isSpace)
        :: ((name.toList.reverse.dropWhile isSpace).reverse.splitOn ':').map String.ofList := by
    rw [split, trimSpace_colon, List.splitOn_append_cons_self_of_not_mem hfront, List.map_cons]
  simp only [validID, if_pos, hsplit, List.length_cons, List.length_map, Bool.and_eq_true,
    decide_eq_true_eq]
  rw [show ∀ n : ℕ, n + 1 = 2 ↔ n = 1 by omega, length_splitOn_eq_one, hback]
  refine and_congr_right fun hname => ?_
  rw [List.splitOn_eq_singleton (fun h => hname (hback.1 h))]
  simp only [List.map_cons, List.map_nil, List.all_cons, List.all_nil, Bool.and_true,
    Bool.and_eq_true, decide_eq_true_eq, ne_eq, trimSpace_eq_empty, String.toList_ofList,
    List.mem_reverse, forall_dropWhile_isSpace]

theorem validID_false_iff (id : String) :
    validID false id = true ↔ ':' ∉ id.toList ∧ trimSpace id ≠ "" := by
  have hmem := mem_trimSpace (show isSpace ':' = false by decide) (s := id)
  simp only [validID, Bool.false_eq_true, if_false, split, List.length_map, Bool.and_eq_true,
    decide_eq_true_eq, length_splitOn_eq_one, hmem]
  refine and_congr_right fun hid => ?_
  rw [List.splitOn_eq_singleton (fun h => hid (hmem.1 h))]
  simp only [List.map_cons, List.map_nil, List.all_cons, List.all_nil, Bool.and_true,
    decide_eq_true_eq, ne_eq, trimSpace_eq_empty, String.ofList_toList]
  simp only [trimSpace, String.toList_ofList, List.mem_reverse, forall_dropWhile_isSpace]

end Trim

section FromInternal

variable (t : TypeMapper)

/-- The id is there, or is a given text, before if and only if it is after. -/
def KeepsID (data data' : Doc) : Prop :=
  (Assoc.get "id" data' = none ↔ Assoc.get "id" data = none)
    ∧ ∀ s, Assoc.get "id" data' = some (.str s) ↔ Assoc.get "id" data = some (.str s)

theorem KeepsID.refl (data : Doc) : KeepsID data data := ⟨.rfl, fun _ => .rfl⟩

theorem KeepsID.trans {a b c : Doc} (h : KeepsID a b) (h' : KeepsID b c) : KeepsID a c :=
  ⟨h'.1.trans h.1, fun s => (h'.2 s).trans (h.2 s)⟩

theorem keepsID_of_get {data data' : Doc} (h : Assoc.get "id" data' = Assoc.get "id" data) :
    KeepsID data data' := by
  simp [KeepsID, h]

/-- A sub-schema is at work on maps and slices, and makes no text of them. -/
def KeepsText (g : Value → Value) : Prop := ∀ v s, g v = .str s ↔ v = .str s

theorem keepsText_onMap (f : Doc → Doc) : KeepsText (onMap f) := by
  intro v s
  cases v <;> simp [onMap]

theorem keepsText_onEntries (f : Doc → Doc) : KeepsText (onEntries f) := by
  intro v s
  cases v <;> simp [onEntries]

theorem keepsText_onElems (f : Doc → Doc) : KeepsText (onElems f) := by
  intro v s
  cases v <;> simp [onElems]

theorem keepsID_modifyKey {g : Value → Value} (hg : KeepsText g) (key : String) (data : Doc) :
    KeepsID data (modifyKey key g data) := by
  unfold modifyKey
  rcases hget : Assoc.get key data with _ | v
  · exact .refl data
  · by_cases hkey : key = "id"
    · subst hkey
      simp [KeepsID, Assoc.get_set, hget, hg v]
    · exact keepsID_of_get (by simp [Assoc.get_set, Ne.symm hkey])

theorem keepsID_loop {on : (Doc → Doc) → Value → Value} (hon : ∀ f, KeepsText (on f))
    (schemas : SortedMap String (Option (Doc → Doc))) (data : Doc) :
    KeepsID data (TypeMapper.loop on schemas data) := by
  unfold TypeMapper.loop
  generalize schemas.entries = l
  induction l generalizing data with
  | nil => exact .refl data
  | cons e l ih =>
    refine KeepsID.trans ?_ (ih _)
    obtain ⟨key, _ | mapper⟩ := e
    · exact .refl data
    · exact keepsID_modifyKey (hon mapper) key data

theorem get_id_withType (data : Doc) : Assoc.get "id" (t.withType data) = Assoc.get "id" data := by
  unfold TypeMapper.withType
  split_ifs
  · simp [Assoc.get_set]
  · rfl

/-- When the id is put in, the data have the one of the object, if it has one of its own. -/
theorem keepsID_mappers (hm : ∀ d, Assoc.get "id" (t.mappers d) = Assoc.get "id" d) (data : Doc) :
    KeepsID data (t.mappers (t.withType (t.nested data))) := by
  have hnested := (keepsID_loop keepsText_onMap t.subSchemas data).trans
    ((keepsID_loop keepsText_onEntries t.subMapSchemas _).trans
      (keepsID_loop keepsText_onElems t.subArraySchemas _))
  refine hnested.trans (keepsID_of_get ?_)
  rw [hm, get_id_withType]
  rfl

theorem get_id_FromInternal (hroot : t.root = true) (data : Doc) :
    Assoc.get "id" (t.FromInternal data)
      = Assoc.get "id" (TypeMapper.putID (stringOf (GetValue ["metadata", "name"] data))
          (stringOf (GetValue ["metadata", "namespace"] data))
          (t.mappers (t.withType (t.nested data)))) := by
  simp only [TypeMapper.FromInternal, hroot, if_true]
  split_ifs
  · exact get_id_withType t _
  · rfl

end FromInternal

section Resolve

/-- An object of the API server: one with a namespace in a namespaced schema, or one without. -/
structure K8sObject (namespaced : Bool) where
  data : Doc
  name : String
  ns : String
  name_eq : stringOf (GetValue ["metadata", "name"] data) = name
  ns_eq : stringOf (GetValue ["metadata", "namespace"] data) = ns
  name_ne : name ≠ ""
  name_trim : trimSpace name = name
  ns_ne : namespaced = true → ns ≠ "" ∧ ':' ∉ ns.toList
  ns_none : namespaced = false → ns = ""

namespace K8sObject

variable {namespaced : Bool} (obj : K8sObject namespaced)

def address : Address := ⟨if namespaced then some obj.ns else none, obj.name⟩

/-- The id leads each of the requests to the object. -/
def LeadsTo (i : String) : Prop :=
  byIDAddress namespaced i = some obj.address ∧ updateAddress i = obj.address
    ∧ deleteAddress i = obj.address

/-- There is no colon in the name, and the namespace is not blank. -/
def Plain : Prop := ':' ∉ obj.name.toList ∧ (namespaced = true → trimSpace obj.ns ≠ "")

/-- An object that has an id of its own has its name there; where it is no text there is no id. -/
def Resolvable : Prop :=
  match Assoc.get "id" obj.data with
  | none => obj.Plain
  | some (.str own) => own = obj.name ∧ obj.Plain
  | some _ => namespaced = false

theorem trimSpace_name_ne : trimSpace obj.name ≠ "" := by
  rw [obj.name_trim]
  exact obj.name_ne

theorem leadsTo_namespaced {obj : K8sObject true} (own : String) :
    obj.LeadsTo (obj.ns ++ ":" ++ own) ↔ own = obj.name ∧ obj.Plain := by
  have hns := obj.ns_ne rfl
  have hsplit : common (splitID (obj.ns ++ ":" ++ own)).1 (splitID (obj.ns ++ ":" ++ own)).2
      = ⟨some obj.ns, own⟩ := by
    simp [splitID_colon hns.2, common, hns.1]
  simp only [LeadsTo, byIDAddress, updateAddress, deleteAddress, hsplit, address, if_true, Plain,
    Option.ite_none_right_eq_some, validID_true_iff hns.2, Option.some.injEq, Address.mk.injEq,
    true_and, true_implies]
  constructor
  · rintro ⟨⟨⟨hcolon, hblank, -⟩, rfl⟩, -⟩
    exact ⟨rfl, hcolon, hblank⟩
  · rintro ⟨rfl, hcolon, hblank⟩
    exact ⟨⟨⟨hcolon, hblank, obj.trimSpace_name_ne⟩, rfl⟩, rfl, rfl⟩

theorem leadsTo_cluster {obj : K8sObject false} (own : String) :
    obj.LeadsTo own ↔ own = obj.name ∧ obj.Plain := by
  simp only [LeadsTo, byIDAddress, updateAddress, deleteAddress, address, Bool.false_eq_true,
    if_false, Plain, Option.ite_none_right_eq_some, validID_false_iff, Option.some.injEq,
    false_implies, and_true]
  constructor
  · rintro ⟨⟨⟨hcolon, -⟩, hcommon⟩, -⟩
    rw [splitID_plain hcolon] at hcommon
    simp only [common, Address.mk.injEq] at hcommon
    exact ⟨hcommon.2, hcommon.2 ▸ hcolon⟩
  · rintro ⟨rfl, hcolon⟩
    have hcommon : common (splitID obj.name).1 (splitID obj.name).2 = ⟨none, obj.name⟩ := by
      simp [splitID_plain hcolon, common]
    exact ⟨⟨⟨hcolon, obj.trimSpace_name_ne⟩, hcommon⟩, hcommon, hcommon⟩

end K8sObject

/-- The id that an object gets leads to it if and only if its name has no colon and its namespace is
not blank; an id of its own, if it has one, has to be its name. -/
theorem id_resolves_iff (t : TypeMapper) (hroot : t.root = true)
    (hm : ∀ d, Assoc.get "id" (t.mappers d) = Assoc.get "id" d) {namespaced : Bool}
    (obj : K8sObject namespaced) :
    (∀ i, Assoc.get "id" (t.FromInternal obj.data) = some (.str i) → obj.LeadsTo i)
      ↔ obj.Resolvable := by
  obtain ⟨hnone, hstr⟩ := keepsID_mappers t hm obj.data
  rw [get_id_FromInternal t hroot, obj.name_eq, obj.ns_eq]
  generalize t.mappers (t.withType (t.nested obj.data)) = data at hnone hstr
  rcases hget : Assoc.get "id" obj.data with _ | v
  · have hd := hnone.2 hget
    simp only [K8sObject.Resolvable, hget, TypeMapper.putID, hd, if_neg obj.name_ne]
    cases namespaced with
    | true => simp [(obj.ns_ne rfl).1, Assoc.get_set, K8sObject.leadsTo_namespaced]
    | false => simp [obj.ns_none rfl, Assoc.get_set, K8sObject.leadsTo_cluster]
  by_cases hown : ∃ own, v = .str own
  · obtain ⟨own, rfl⟩ := hown
    have hd := (hstr own).2 hget
    simp only [K8sObject.Resolvable, hget, TypeMapper.putID, hd, stringOf]
    cases namespaced with
    | true => simp [(obj.ns_ne rfl).1, Assoc.get_set, K8sObject.leadsTo_namespaced]
    | false => simp [obj.ns_none rfl, hd, K8sObject.leadsTo_cluster]
  · push Not at hown
    have hres : obj.Resolvable ↔ namespaced = false := by
      cases v with
      | str own => exact absurd rfl (hown own)
      | _ => simp [K8sObject.Resolvable, hget]
    rcases hd : Assoc.get "id" data with _ | w
    · rw [hnone.1 hd] at hget
      cases hget
    have hw : ∀ s, w ≠ .str s := by
      rintro s rfl
      exact hown s (Option.some.inj (hget.symm.trans ((hstr s).1 hd)))
    simp only [hres, TypeMapper.putID, hd]
    cases namespaced with
    | true =>
      have htext : stringOf (some w) = "" := by
        cases w with
        | str s => exact absurd rfl (hw s)
        | _ => rfl
      simp only [htext, ne_eq, (obj.ns_ne rfl).1, not_false_eq_true, if_true, Assoc.get_set,
        Option.some.injEq, Value.str.injEq, forall_eq', K8sObject.leadsTo_namespaced]
      simp [obj.name_ne.symm]
    | false => simp [obj.ns_none rfl, hd, hw]

/-- The mapper of a root type without any mappers of its own. -/
def plainRoot : TypeMapper where
  mappers := id
  root := true
  typeName := "/v1/schemas/role"
  subSchemas := ∅
  subArraySchemas := ∅
  subMapSchemas := ∅

def webPod : K8sObject true where
  data := [("metadata", .map [("name", .str "web"), ("namespace", .str "default")])]
  name := "web"
  ns := "default"
  name_eq := by decide +kernel
  ns_eq := by decide +kernel
  name_ne := by decide
  name_trim := by decide +kernel
  ns_ne := by decide +kernel
  ns_none := by decide

theorem webPod_resolves : webPod.LeadsTo "default:web" := by
  have hplain : webPod.Resolvable := by
    change ':' ∉ webPod.name.toList ∧ (true = true → trimSpace webPod.ns ≠ "")
    decide +kernel
  exact (id_resolves_iff plainRoot rfl (fun _ => rfl) webPod).2 hplain "default:web"
    (by decide +kernel)

/-- A cluster role, whose name has a colon. -/
def nodeRole : K8sObject false where
  data := [("metadata", .map [("name", .str "system:node")])]
  name := "system:node"
  ns := ""
  name_eq := by decide +kernel
  ns_eq := by decide +kernel
  name_ne := by decide
  name_trim := by decide +kernel
  ns_ne := by decide
  ns_none := by decide

/-- The role gets its name as its id, which `byID` does not take. -/
theorem nodeRole_not_found :
    ¬ ∀ i, Assoc.get "id" (plainRoot.FromInternal nodeRole.data) = some (.str i) →
      nodeRole.LeadsTo i := by
  intro h
  have hfound := (h "system:node" (by decide +kernel)).1
  revert hfound
  decide +kernel

end Resolve

end Norman.Proxy
