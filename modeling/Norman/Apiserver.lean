import Mathlib.Data.Prod.Lex
import Norman.Value

/-!
# Objects and the API server

An object is its document, read and written as `unstructured.Unstructured` does; a typed object is
the document it is marshalled to. The API server keeps, for each kind, one object for a name (and
namespace, if the kind has one). Every call to it may fail instead: before it has any effect, or
after it.
-/

namespace Norman.Objectset

/-- `schema.GroupVersionKind`. -/
structure GroupVersionKind where
  group : String
  version : String
  kind : String

namespace GroupVersionKind

instance : LinearOrder GroupVersionKind :=
  LinearOrder.lift' (fun g => toLex (g.group, toLex (g.version, g.kind))) <| by
    rintro ⟨_, _, _⟩ ⟨_, _, _⟩ h
    simpa using h

def toString (g : GroupVersionKind) : String :=
  g.group ++ "/" ++ g.version ++ ", Kind=" ++ g.kind

def empty : GroupVersionKind := ⟨"", "", ""⟩

end GroupVersionKind

/-- `objectset.go`, `objectKey`. -/
structure ObjectKey where
  name : String
  ns : String

namespace ObjectKey

instance : LinearOrder ObjectKey :=
  LinearOrder.lift' (fun k => toLex (k.name, k.ns)) <| by
    rintro ⟨_, _⟩ ⟨_, _⟩ h
    simpa using h

def toString (k : ObjectKey) : String :=
  if k.ns = "" then k.name else k.ns ++ "/" ++ k.name

end ObjectKey

section Object

/-- The object's `metadata`, where it is a map. -/
def metadata (o : Doc) : Doc := ((Assoc.get "metadata" o).map Value.toMapInterface).getD []

def getMetaString (field : String) (o : Doc) : String :=
  match Assoc.get field (metadata o) with
  | some (.str s) => s
  | _ => ""

def getName (o : Doc) : String := getMetaString "name" o

def getNamespace (o : Doc) : String := getMetaString "namespace" o

def getResourceVersion (o : Doc) : String := getMetaString "resourceVersion" o

/-- The strings of a map, if it has nothing else. -/
def strMap (m : Doc) : Option StrMap :=
  m.mapM fun e => match e.2 with
    | .str s => some (e.1, s)
    | _ => none

def getMetaMap (field : String) (o : Doc) : StrMap :=
  match Assoc.get field (metadata o) with
  | some (.map m) => (strMap m).getD []
  | _ => []

def getLabels (o : Doc) : StrMap := getMetaMap "labels" o

def getAnnotations (o : Doc) : StrMap := getMetaMap "annotations" o

/-- `SetNestedField` at a field of `metadata`; with `metadata` no map, nothing is set. -/
def setMeta (field : String) (v : Value) (o : Doc) : Doc :=
  match Assoc.get "metadata" o with
  | some (.map m) => Assoc.set "metadata" (.map (Assoc.set field v m)) o
  | none => Assoc.set "metadata" (.map [(field, v)]) o
  | some _ => o

def setMetaMap (field : String) (m : StrMap) (o : Doc) : Doc :=
  setMeta field (.map (m.map fun e => (e.1, .str e.2))) o

def setLabels (labels : StrMap) (o : Doc) : Doc := setMetaMap "labels" labels o

def setAnnotations (annotations : StrMap) (o : Doc) : Doc :=
  setMetaMap "annotations" annotations o

/-- `SetNamespace`: the empty namespace is no field. -/
def setNamespace (ns : String) (o : Doc) : Doc :=
  if ns = "" then
    match Assoc.get "metadata" o with
    | some (.map m) => Assoc.set "metadata" (.map (Assoc.erase "namespace" m)) o
    | _ => o
  else setMeta "namespace" (.str ns) o

def getString (field : String) (o : Doc) : String :=
  match Assoc.get field o with
  | some (.str s) => s
  | _ => ""

/-- `schema.ParseGroupVersion`. -/
def parseGroupVersion (s : String) : Option (String × String) :=
  if s = "" ∨ s = "/" then some ("", "")
  else
    match s.toList.splitOn '/' with
    | [v] => some ("", String.ofList v)
    | [g, v] => some (String.ofList g, String.ofList v)
    | _ => none

/-- `GetObjectKind().GroupVersionKind()`. -/
def groupVersionKind (o : Doc) : GroupVersionKind :=
  match parseGroupVersion (getString "apiVersion" o) with
  | some (g, v) => ⟨g, v, getString "kind" o⟩
  | none => .empty

def newObjectKey (o : Doc) : ObjectKey := ⟨getName o, getNamespace o⟩

end Object

section Cluster

/-- What the API server has: its objects by kind and key, an object's key being the one in its
metadata. -/
structure Cluster where
  objs : GroupVersionKind → SortedMap ObjectKey Doc
  keyed : ∀ {g k o}, (objs g).get k = some o → newObjectKey o = k

namespace Cluster

instance : EmptyCollection Cluster := ⟨⟨fun _ => ∅, by simp⟩⟩

variable (c : Cluster)

def get (g : GroupVersionKind) (k : ObjectKey) : Option Doc := (c.objs g).get k

/-- The object goes to its own key. -/
def put (g : GroupVersionKind) (o : Doc) : Cluster where
  objs := Function.update c.objs g ((c.objs g).set (newObjectKey o) o)
  keyed {g' k o'} h := by
    by_cases hg : g' = g
    · subst hg
      simp only [Function.update_self, SortedMap.get_set] at h
      split_ifs at h with hk
      · simp only [Option.some.injEq] at h
        rw [← h, hk]
      · exact c.keyed h
    · rw [Function.update_of_ne hg] at h
      exact c.keyed h

def remove (g : GroupVersionKind) (k : ObjectKey) : Cluster where
  objs := Function.update c.objs g ((c.objs g).erase k)
  keyed {g' k' o'} h := by
    by_cases hg : g' = g
    · subst hg
      simp only [Function.update_self, SortedMap.get_erase] at h
      split_ifs at h with hk
      exact c.keyed h
    · rw [Function.update_of_ne hg] at h
      exact c.keyed h

end Cluster

end Cluster

section Api

/-- Why a call failed, as far as the code asks, and the text of the error. -/
structure Err where
  alreadyExists : Bool := false
  text : String
  deriving DecidableEq

/-- `errors.Wrapf`. -/
def Err.wrap (e : Err) (text : String) : Err := { e with text := text ++ ": " ++ e.text }

inductive Verb where
  | create
  | get
  | patch
  | delete
  | list
  deriving DecidableEq

/-- One call, with the error it returned. -/
structure Call where
  verb : Verb
  gvk : GroupVersionKind
  key : ObjectKey
  err : Option Err

/-- A call that fails on its own account, after it took effect or before. -/
structure Fault where
  text : String
  applied : Bool

inductive PatchType where
  | merge
  | strategic
  deriving DecidableEq

/-- The API server: its objects, which call is to fail, the calls so far, and how it applies a
patch. -/
structure Api where
  cluster : Cluster
  faults : ℕ → Option Fault
  calls : List Call
  merge : PatchType → Doc → Value → Doc

/-- `object_client.go`, `ObjectClient`. -/
structure ObjectClient where
  gvk : GroupVersionKind
  namespaced : Bool
  ns : String

namespace Api

variable (a : Api)

/-- A call: what the server does and answers, unless the call fails. -/
def call {α : Type} (verb : Verb) (gvk : GroupVersionKind) (key : ObjectKey)
    (answer : Except Err (Cluster × α)) : Api × Except Err α :=
  match a.faults a.calls.length, answer with
  | some f, .ok (c, _) =>
    ({ a with cluster := if f.applied then c else a.cluster
              calls := a.calls ++ [⟨verb, gvk, key, some ⟨false, f.text⟩⟩] },
      .error ⟨false, f.text⟩)
  | some f, .error _ =>
    ({ a with calls := a.calls ++ [⟨verb, gvk, key, some ⟨false, f.text⟩⟩] },
      .error ⟨false, f.text⟩)
  | none, .ok (c, x) =>
    ({ a with cluster := c, calls := a.calls ++ [⟨verb, gvk, key, none⟩] }, .ok x)
  | none, .error e =>
    ({ a with calls := a.calls ++ [⟨verb, gvk, key, some e⟩] }, .error e)

def notFound (k : ObjectKey) : Err := ⟨false, k.toString ++ " not found"⟩

end Api

namespace ObjectClient

variable (p : ObjectClient)

/-- What `Create` puts into the object: the creator's label, and the type if it has none. -/
def prepareCreate (o : Doc) : Doc :=
  let o := setLabels (Assoc.set "cattle.io/creator" "norman" (getLabels o)) o
  let o := if getString "kind" o = "" then Assoc.set "kind" (.str p.gvk.kind) o else o
  if getString "apiVersion" o = "" then
    Assoc.set "apiVersion"
      (.str (if p.gvk.group = "" then p.gvk.version else p.gvk.group ++ "/" ++ p.gvk.version)) o
  else o

/-- The namespace of the path: the object's own, or the client's. -/
def pathNamespace (o : Doc) : String := if getNamespace o ≠ "" then getNamespace o else p.ns

/-- `Create`. The server gives an object without a namespace that of the path, and drops the
namespace of an object whose kind has none. -/
def create (a : Api) (o : Doc) : Api × Except Err Doc :=
  let body := p.prepareCreate o
  let path := if p.namespaced then p.pathNamespace o else ""
  let body := setNamespace path body
  a.call .create p.gvk (newObjectKey o) <|
    if p.namespaced ∧ path = "" then
      .error ⟨false, "an empty namespace may not be set during creation"⟩
    else if getName o = "" then .error ⟨false, "name or generateName is required"⟩
    else if a.cluster.get p.gvk (newObjectKey body) ≠ none then
      .error ⟨true, (newObjectKey body).toString ++ " already exists"⟩
    else .ok (a.cluster.put p.gvk body, body)

/-- `GetNamespaced`. -/
def getNamespaced (a : Api) (k : ObjectKey) : Api × Except Err Doc :=
  a.call .get p.gvk k <|
    match a.cluster.get p.gvk k with
    | none => .error (Api.notFound k)
    | some o => .ok (a.cluster, o)

/-- `DeleteNamespaced`. -/
def deleteNamespaced (a : Api) (k : ObjectKey) : Api × Except Err Unit :=
  a.call .delete p.gvk k <|
    match a.cluster.get p.gvk k with
    | none => .error (Api.notFound k)
    | some _ => .ok (a.cluster.remove p.gvk k, ())

/-- `Patch` of the object `o`; a patch may not move the object. -/
def patch (a : Api) (o : Doc) (t : PatchType) (data : Value) : Api × Except Err Doc :=
  if getName o = "" then (a, .error ⟨false, "object missing name"⟩)
  else
    let k : ObjectKey := ⟨getName o, if p.namespaced then p.pathNamespace o else ""⟩
    a.call .patch p.gvk k <|
      match a.cluster.get p.gvk k with
      | none => .error (Api.notFound k)
      | some old =>
        if newObjectKey (a.merge t old data) = k then
          .ok (a.cluster.put p.gvk (a.merge t old data), a.merge t old data)
        else .error ⟨false, "the name of the object does not match the name on the URL"⟩

/-- `List` with a label selector, given by the labels it takes. -/
def list (a : Api) (selector : StrMap → Bool) : Api × Except Err (List Doc) :=
  a.call .list p.gvk ⟨"", ""⟩ <|
    .ok (a.cluster, ((a.cluster.objs p.gvk).entries.map Prod.snd).filter
      fun o => selector (getLabels o))

end ObjectClient

end Api

end Norman.Objectset
