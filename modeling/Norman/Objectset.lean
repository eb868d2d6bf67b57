import Mathlib.Data.List.Sort
import Norman.Apiserver
import Norman.Lib.Strconv

/-!
# Object sets

`pkg/objectset`: a set of objects is applied to the cluster. The objects of the set carry its label,
a hash over the set's id and its owner; what is in the cluster with that label and is no longer
desired is deleted, and the rest is created or patched.

What the code takes from outside is in `Env`: the hash, the JSON encoding, the compression of the
annotation that keeps what was applied last, and the three-way merge. JSON in memory is the document
it encodes. The value of the hash is forty hexadecimal digits and so a valid label, which is why
`labels.NewRequirement` has no error here.
-/

namespace Norman.Objectset

def LabelID : String := "objectset.rio.cattle.io/id"

def LabelGVK : String := "objectset.rio.cattle.io/owner-gvk"

def LabelName : String := "objectset.rio.cattle.io/owner-name"

def LabelNamespace : String := "objectset.rio.cattle.io/owner-namespace"

def LabelHash : String := "objectset.rio.cattle.io/hash"

def LabelApplied : String := "objectset.rio.cattle.io/applied"

def LabelInputID : String := "objectset.rio.cattle.io/inputid"

def hashOrder : List String := [LabelID, LabelGVK, LabelName, LabelNamespace]

/-- The code the package calls: `sha1` gives the digest in hexadecimal, `float` reads a number as a
`float64` and writes it as JSON again, `pack` and `unpack` are gzip under base64, `threeWay` makes
the patch of `doPatch`. -/
structure Env where
  sha1 : List UInt8 → String
  float : String → Except String String
  marshal : Doc → String
  unmarshal : String → Except String Doc
  pack : String → String
  unpack : String → Option String
  threeWay : GroupVersionKind → Doc → Doc → Doc → Except String (PatchType × Value)

section Item

/-- What `meta.Accessor` is given: a pointer to an object, an `unstructured.Unstructured` itself, or
a pointer to something without metadata. -/
inductive Item where
  | object (o : Doc)
  | unstructured (o : Doc)
  | other (gvk : GroupVersionKind)

def Item.groupVersionKind : Item → GroupVersionKind
  | .object o => Objectset.groupVersionKind o
  | .unstructured o => Objectset.groupVersionKind o
  | .other gvk => gvk

/-- `meta.Accessor`: only the pointer type of `Unstructured` has the methods of an object. -/
def accessor : Item → Except Err Doc
  | .object o => .ok o
  | _ => .error ⟨false, "object does not implement the Object interfaces"⟩

end Item

section ObjectSet

/-- `objectCollection`. -/
abbrev ObjectCollection := SortedMap GroupVersionKind (SortedMap ObjectKey Doc)

/-- `objectCollection.add`, of an object that has metadata. -/
def ObjectCollection.add (c : ObjectCollection) (o : Doc) : ObjectCollection :=
  c.set (groupVersionKind o) (((c.get (groupVersionKind o)).getD ∅).set (newObjectKey o) o)

/-- Every object is where its kind and key say, has a name, and its kind is among those of
`order`. -/
def Filed (objects : ObjectCollection) (order : List Doc) : Prop :=
  ∀ g m k o, objects.get g = some m → m.get k = some o →
    groupVersionKind o = g ∧ newObjectKey o = k ∧ k.name ≠ ""
      ∧ ∃ o' ∈ order, groupVersionKind o' = g

/-- `objectset.go`, `ObjectSet`. -/
structure ObjectSet where
  errs : List Err
  objects : ObjectCollection
  nsed : SortedMap GroupVersionKind Bool
  inputs : List Item
  order : List Doc
  filed : Filed objects order

theorem Filed.add {objects : ObjectCollection} {order : List Doc} (h : Filed objects order)
    {o : Doc} (hn : getName o ≠ "") : Filed (objects.add o) (order ++ [o]) := by
  intro g m k o' hg hk
  simp only [ObjectCollection.add, SortedMap.get_set] at hg
  split_ifs at hg with hgo
  · simp only [Option.some.injEq] at hg
    subst hg
    rw [SortedMap.get_set] at hk
    split_ifs at hk with hko
    · simp only [Option.some.injEq] at hk
      subst hk
      exact ⟨hgo.symm, hko.symm, by rw [hko]; exact hn, o, by simp, hgo.symm⟩
    · rcases hm : objects.get (groupVersionKind o) with _ | m
      · simp [hm] at hk
      · rw [hm, Option.getD_some] at hk
        obtain ⟨h1, h2, h3, o'', ho, h4⟩ := h _ m k o' hm hk
        exact ⟨h1.trans hgo.symm, h2, h3, o'', by simp [ho], h4.trans hgo.symm⟩
  · obtain ⟨h1, h2, h3, o'', ho, h4⟩ := h g m k o' hg hk
    exact ⟨h1, h2, h3, o'', by simp [ho], h4⟩

def NewObjectSet : ObjectSet where
  errs := []
  objects := ∅
  nsed := ∅
  inputs := []
  order := []
  filed := by
    intro g m k o hg
    simp at hg

namespace ObjectSet

variable (s : ObjectSet)

def AddErr (e : Err) : ObjectSet := { s with errs := s.errs ++ [e] }

/-- `add`; `none` is the nil object. -/
def add : Option Item → ObjectSet
  | none => s
  | some item =>
    let gvk := item.groupVersionKind
    match accessor item with
    | .error _ => s.AddErr ⟨false, "failed to get metadata for " ++ gvk.toString⟩
    | .ok o =>
      if hn : getName o = "" then s.AddErr ⟨false, gvk.toString ++ " is missing name"⟩
      else if s.nsed.get gvk = some (decide (getNamespace o = "")) then
        s.AddErr ⟨false, "got " ++ gvk.toString
          ++ " objects that are both namespaced and not namespaced"⟩
      else
        { s with
          nsed := s.nsed.set gvk (getNamespace o ≠ "")
          objects := s.objects.add o
          order := s.order ++ [o]
          filed := s.filed.add hn }

def Add (objs : List (Option Item)) : ObjectSet := objs.foldl add s

end ObjectSet

end ObjectSet

section Compare

variable (env : Env)

/-- `appliedToAnnotation`. -/
def appliedToAnnotation (b : String) : String :=
  if b.utf8ByteSize < 1024 then b else env.pack b

/-- `appliedFromAnnotation`; what does not unpack counts as empty. -/
def appliedFromAnnotation (str : String) : String :=
  if str = "" ∨ str.toList.head? = some '\x7b' then str else (env.unpack str).getD ""

/-- `prepareObjectForCreate`; a document can always be marshalled. -/
def prepareObjectForCreate (inputID : String) (o : Doc) : Doc :=
  let applied := appliedToAnnotation env (env.marshal o)
  setAnnotations
    (Assoc.set LabelApplied applied (Assoc.set LabelInputID inputID (getAnnotations o))) o

/-- `removeCreationTimestamp`, and whether there was one. -/
def removeCreationTimestamp (data : Doc) : Doc × Bool :=
  match Assoc.get "metadata" data with
  | some (.map m) =>
    if Assoc.get "creationTimestamp" m = none then (data, false)
    else (Assoc.set "metadata" (.map (Assoc.erase "creationTimestamp" m)) data, true)
  | _ => (data, false)

/-- `getOriginal`: what was applied last, as it would be prepared now. -/
def getOriginal (inputID : String) (old : Doc) : Except Err Doc :=
  let original :=
    appliedFromAnnotation env ((Assoc.get LabelApplied (getAnnotations old)).getD "")
  if original = "" then .ok []
  else
    match env.unmarshal original with
    | .error e => .error ⟨false, e⟩
    | .ok mapObj => .ok (prepareObjectForCreate env inputID (removeCreationTimestamp mapObj).1)

/-- `onlyKeys`: nothing but the entry at the path, or nothing at all from some point of it on. -/
def onlyKeys : Doc → List String → Bool
  | _, [] => false
  | data, key :: keys =>
    if 1 < data.length then false
    else if data.length = 0 then true
    else
      match Assoc.get key data with
      | none => false
      | some value => if keys = [] then true else onlyKeys value.toMapInterface keys

/-- `convertNumber` of `util/json`, and what `json.Marshal` then writes: an `int64`, if it is one, or
else a `float64`. -/
def convertNumber (n : String) : Except Err String :=
  match Strconv.ParseInt n, env.float n with
  | .ok i, _ => .ok (toString i)
  | .error _, .ok f => .ok f
  | .error _, .error e => .error ⟨false, e⟩

mutual

/-- The numbers of a value that is decoded and encoded again. -/
def convertNumbers : Value → Except Err Value
  | .number n => (convertNumber env n).map .number
  | .map m => (convertMapNumbers m).map .map
  | .arr xs => (convertSliceNumbers xs).map .arr
  | v => .ok v

def convertMapNumbers : Doc → Except Err Doc
  | [] => .ok []
  | (k, v) :: m => do return (k, ← convertNumbers v) :: (← convertMapNumbers m)

def convertSliceNumbers : List Value → Except Err (List Value)
  | [] => .ok []
  | v :: xs => do return (← convertNumbers v) :: (← convertSliceNumbers xs)

end

/-- `sanitizePatch`; what it gives is encoded anew if something was dropped. -/
def sanitizePatch (patch : Value) : Except Err Value :=
  match patch with
  | .map data =>
    match convertMapNumbers env data with
    | .error e => .error e
    | .ok data =>
      let mod := decide (Assoc.get "kind" data ≠ none ∨ Assoc.get "apiVersion" data ≠ none)
      let r := removeCreationTimestamp (Assoc.erase "apiVersion" (Assoc.erase "kind" data))
      if onlyKeys r.1 ["metadata", "annotations", LabelInputID] then .ok (.map [])
      else if mod || r.2 then .ok (.map r.1) else .ok patch
  | .nil => .ok (.map [])
  | _ => .error ⟨false, "json: cannot unmarshal into a map"⟩

/-- `applyPatch`, and whether it sent a patch. -/
def applyPatch (p : ObjectClient) (a : Api) (inputID : String) (old new : Doc) :
    Api × Except Err Bool :=
  match getOriginal env inputID old with
  | .error e => (a, .error e)
  | .ok original =>
    let modified := prepareObjectForCreate env inputID new
    match env.threeWay p.gvk original modified old with
    | .error e => (a, .error ⟨false, "patch generation: " ++ e⟩)
    | .ok (patchType, patch) =>
      if patch = .map [] then (a, .ok false)
      else
        match sanitizePatch env patch with
        | .error e => (a, .error e)
        | .ok patch =>
          if patch = .map [] then (a, .ok false)
          else
            let r := p.patch a old patchType patch
            (r.1, r.2.map fun _ => true)

/-- `compareObjects`. -/
def compareObjects (p : ObjectClient) (a : Api) (inputID : String) (old new : Doc) :
    Api × Option Err :=
  match applyPatch env p a inputID old new with
  | (a, .error e) => (a, some e)
  | (a, .ok _) => (a, none)

end Compare

section DesiredSet

/-- `metav1.APIResource`. -/
structure APIResource where
  kind : String
  namespaced : Bool

/-- `desiredset.go`, `DesiredSet`. A registered client is filed under its own kind, and comes with
a controller; `restErr` is the error of making a client from `restConfig`. -/
structure DesiredSet where
  discoveredClients : SortedMap GroupVersionKind ObjectClient
  discoveredFiled : ∀ {g p}, discoveredClients.get g = some p → p.gvk = g
  discovery : Option (String → Except Err (List APIResource))
  restErr : Option Err
  remove : Bool
  setID : String
  objs : ObjectSet
  codeVersion : String
  clients : SortedMap GroupVersionKind ObjectClient
  clientsFiled : ∀ {g p}, clients.get g = some p → p.gvk = g
  owner : Option Item
  injectors : List (Option (List Doc → Except Err (List Doc)))
  errs : List Err

/-- The bytes of a string. -/
def bytes (s : String) : List UInt8 := s.toUTF8.data.toList

/-- `objectSetHash`: what it writes to the hash. -/
def hashInput (labels : StrMap) : List UInt8 :=
  hashOrder.flatMap fun key => bytes ((Assoc.get key labels).getD "")

def objectSetHash (env : Env) (labels : StrMap) : String := env.sha1 (hashInput labels)

/-- `setLabels` of `desiredset_apply.go`. -/
def addLabels (labels : StrMap) (o : Doc) : Doc :=
  setLabels (labels.foldl (fun m e => Assoc.set e.1 e.2 m) (getLabels o)) o

/-- `setAnnotations` of `desiredset_apply.go`. -/
def addAnnotations (annotations : StrMap) (o : Doc) : Doc :=
  setAnnotations
    (annotations.foldl (fun m e => Assoc.set e.1 e.2 m)
      (Assoc.erase LabelApplied (Assoc.erase LabelInputID (getAnnotations o)))) o

/-- The selector of one label. -/
def requirement (key value : String) (labels : StrMap) : Bool := Assoc.get key labels = some value

namespace DesiredSet

variable (o : DesiredSet)

def err (e : Err) : DesiredSet := { o with errs := o.errs ++ [e] }

/-- `Err`, by the errors it is made of: none is the nil error. -/
def Err : List Objectset.Err := o.objs.errs ++ o.errs

/-- The annotations of `getLabelsAndAnnotations`. -/
def ownerAnnotations : Except Objectset.Err StrMap :=
  match o.owner with
  | none => .ok [(LabelID, o.setID)]
  | some owner =>
    match accessor owner with
    | .error _ =>
      .error ⟨false, "failed to get metadata for " ++ owner.groupVersionKind.toString⟩
    | .ok metadata =>
      .ok (Assoc.set LabelNamespace (getNamespace metadata)
        (Assoc.set LabelName (getName metadata)
          (Assoc.set LabelGVK owner.groupVersionKind.toString [(LabelID, o.setID)])))

def getLabelsAndAnnotations (env : Env) : Except Objectset.Err (StrMap × StrMap) :=
  o.ownerAnnotations.map fun annotations =>
    ([(LabelHash, objectSetHash env annotations)], annotations)

/-- `gvkOrder`: the kinds of the set as they were added, then those of the other clients. -/
def gvkOrder : List GroupVersionKind :=
  let gvkOrder := (o.objs.order.map groupVersionKind).foldl
    (fun seen g => if g ∈ seen then seen else seen ++ [g]) []
  gvkOrder ++ (o.clients.keys.filter (· ∉ gvkOrder)).insertionSort
    fun g h => g.toString ≤ h.toString

/-- The order `inputID` sorts the inputs by; with an input that has no metadata, anything goes. -/
def inputLe (x y : Item) : Bool :=
  match accessor x, accessor y with
  | .ok l, .ok r =>
    x.groupVersionKind.toString ++ "/" ++ (newObjectKey l).toString
      ≤ y.groupVersionKind.toString ++ "/" ++ (newObjectKey r).toString
  | _, _ => true

/-- `inputID`. -/
def inputID (env : Env) (labelHash : String) : String :=
  env.sha1 <| bytes o.codeVersion ++ bytes labelHash ++
    (o.owner.toList ++ o.objs.inputs.insertionSort fun x y => inputLe x y).flatMap fun item =>
      match accessor item with
      | .error _ => bytes item.groupVersionKind.toString
      | .ok metadata =>
        bytes (newObjectKey metadata).toString ++ bytes (getResourceVersion metadata)

def debugID : String :=
  match o.owner.map accessor with
  | some (.ok metadata) => o.setID ++ " " ++ (newObjectKey metadata).toString
  | _ => o.setID

/-- `injectLabelsAndAnnotations`; the objects of the set have metadata. -/
def injectLabelsAndAnnotations (labels annotations : StrMap) : List Doc :=
  o.objs.objects.entries.flatMap fun e =>
    e.2.entries.map fun e => addAnnotations annotations (addLabels labels e.2)

/-- `runInjectors`. -/
def runInjectors (objList : List Doc) : Except Objectset.Err (List Doc) :=
  o.injectors.foldlM (fun objs inj => match inj with
    | none => .ok objs
    | some inj => inj objs) objList

/-- `collect`. -/
def collect (objList : List Doc) : ObjectCollection := objList.foldl ObjectCollection.add ∅

/-- `getControllerAndObjectClient`: the client, whether there is a controller for it, and the set
with the client it may have discovered. -/
def getControllerAndObjectClient (gvk : GroupVersionKind) :
    DesiredSet × Except Objectset.Err (Bool × ObjectClient) :=
  match o.clients.get gvk, o.discovery with
  | some client, _ => (o, .ok (true, client))
  | none, none =>
    (o, .error ⟨false, "failed to find client for " ++ gvk.toString ++ " for " ++ o.debugID⟩)
  | none, some discovery =>
    match o.discoveredClients.get gvk with
    | some client => (o, .ok (false, client))
    | none =>
      match discovery (if gvk.group = "" then gvk.version else gvk.group ++ "/" ++ gvk.version) with
      | .error e => (o, .error e)
      | .ok resources =>
        match resources.find? fun resource => resource.kind = gvk.kind, o.restErr with
        | none, _ =>
          (o, .error ⟨false,
            "failed to discover client for " ++ gvk.toString ++ " for " ++ o.debugID⟩)
        | some _, some e => (o, .error e)
        | some resource, none =>
          let client : ObjectClient := { gvk, namespaced := resource.namespaced, ns := "" }
          ({ o with
              discoveredClients := o.discoveredClients.set gvk client
              discoveredFiled := fun {g p} h => by
                rw [SortedMap.get_set] at h
                split_ifs at h with hg
                · rw [← Option.some.inj h, hg]
                · exact o.discoveredFiled h }, .ok (false, client))

end DesiredSet

end DesiredSet

section Process

/-- `addObjectToMap`. -/
def addObjectToMap (objs : SortedMap ObjectKey Doc) (item : Item) :
    Except Err (SortedMap ObjectKey Doc) :=
  (accessor item).map fun o => objs.set (newObjectKey o) o

/-- The objects of a list one after another, with the errors of those that did not go in. -/
def addAll (items : List Item) : SortedMap ObjectKey Doc × List Err :=
  items.foldl (fun r item => match addObjectToMap r.1 item with
    | .ok objs => (objs, r.2)
    | .error e => (r.1, r.2 ++ [e])) (∅, [])

/-- `cache.ListAllByNamespace`, over all namespaces: the objects the selector takes, up to the
first without metadata. -/
def listAll (selector : StrMap → Bool) : List Item → List Item × Option Err
  | [] => ([], none)
  | item :: items =>
    match accessor item with
    | .error e => ([], some e)
    | .ok o =>
      let r := listAll selector items
      (if selector (getLabels o) then item :: r.1 else r.1, r.2)

/-- What the informer of a controller has, if it is current. -/
def indexer (a : Api) (p : ObjectClient) : List Item :=
  (a.cluster.objs p.gvk).entries.map fun e => .object e.2

/-- `list`: with a controller from its informer, without one from the server, whose list has the
objects themselves and not pointers to them. -/
def list (a : Api) (controller : Option (List Item)) (p : ObjectClient)
    (selector : StrMap → Bool) : Api × Except (List Err) (SortedMap ObjectKey Doc) :=
  match controller with
  | none =>
    match p.list a selector with
    | (a, .error e) => (a, .error [e])
    | (a, .ok items) => (a, .ok (addAll (items.map .unstructured)).1)
  | some items =>
    let r := listAll selector items
    let m := addAll r.1
    (a, if m.2 ++ r.2.toList = [] then .ok m.1 else .error (m.2 ++ r.2.toList))

def sortObjectKeys (keys : List ObjectKey) : List ObjectKey :=
  keys.insertionSort fun i j => i.toString ≤ j.toString

/-- `compareSets`: what to create, what to delete and what to update. -/
def compareSets (existingSet newSet : SortedMap ObjectKey Doc) :
    List ObjectKey × List ObjectKey × List ObjectKey :=
  (sortObjectKeys (newSet.keys.filter fun k => existingSet.get k = none),
    sortObjectKeys (existingSet.keys.filter fun k => newSet.get k = none),
    sortObjectKeys (newSet.keys.filter fun k => existingSet.get k ≠ none))

/-- The state of `process`: the server, the set's errors, and what is left to update. -/
structure Progress where
  api : Api
  errs : List Err
  toUpdate : List ObjectKey
  existing : SortedMap ObjectKey Doc

/-- What `process` works with. -/
structure Job where
  env : Env
  client : ObjectClient
  inputID : String
  debugID : String
  objs : SortedMap ObjectKey Doc

namespace Job

variable (j : Job)

/-- The text of an error at an object. -/
def failed (what : String) (k : ObjectKey) : String :=
  "failed to " ++ what ++ " " ++ k.toString ++ " " ++ j.client.gvk.toString ++ " for " ++ j.debugID

/-- One turn of the loop over `toCreate`. -/
def create (s : Progress) (k : ObjectKey) : Progress :=
  let r := j.client.create s.api (prepareObjectForCreate j.env j.inputID ((j.objs.get k).getD []))
  match r.2 with
  | .ok _ => { s with api := r.1 }
  | .error e =>
    if e.alreadyExists then
      let r := j.client.getNamespaced r.1 k
      match r.2 with
      | .ok old =>
        { s with api := r.1, toUpdate := s.toUpdate ++ [k], existing := s.existing.set k old }
      | .error _ => { s with api := r.1, errs := s.errs ++ [e.wrap (j.failed "create" k)] }
    else { s with api := r.1, errs := s.errs ++ [e.wrap (j.failed "create" k)] }

/-- One turn of the loop over `toUpdate`. -/
def update (s : Progress) (k : ObjectKey) : Progress :=
  let r := compareObjects j.env j.client s.api j.inputID ((s.existing.get k).getD [])
    ((j.objs.get k).getD [])
  { s with api := r.1, errs := s.errs ++ r.2.toList.map fun e => e.wrap (j.failed "update" k) }

/-- One turn of the loop over `toDelete`. -/
def delete (s : Progress) (k : ObjectKey) : Progress :=
  let r := j.client.deleteNamespaced s.api k
  match r.2 with
  | .ok _ => { s with api := r.1 }
  | .error e => { s with api := r.1, errs := s.errs ++ [e.wrap (j.failed "delete" k)] }

/-- The three loops of `process`. -/
def run (a : Api) (existing : SortedMap ObjectKey Doc) : Progress :=
  let sets := compareSets existing j.objs
  let created := sets.1.foldl j.create
    { api := a, errs := [], toUpdate := sets.2.2, existing }
  sets.2.1.foldl j.delete (created.toUpdate.foldl j.update created)

end Job

/-- `process`. -/
def process (env : Env) (inputID : String) (selector : StrMap → Bool) (objs : ObjectCollection)
    (s : DesiredSet × Api) (gvk : GroupVersionKind) : DesiredSet × Api :=
  let debugID := s.1.debugID
  match s.1.getControllerAndObjectClient gvk with
  | (o, .error e) => (o.err e, s.2)
  | (o, .ok (controller, client)) =>
    let listed := list s.2 (if controller then some (indexer s.2 client) else none) client selector
    match listed.2 with
    | .error _ =>
      (o.err ⟨false, "failed to list " ++ gvk.toString ++ " for " ++ debugID⟩, listed.1)
    | .ok existing =>
      let r := Job.run { env, client, inputID, debugID, objs := (objs.get gvk).getD ∅ }
        listed.1 existing
      ({ o with errs := o.errs ++ r.errs }, r.api)

namespace DesiredSet

variable (o : DesiredSet)

/-- `Apply`, given what the rate limiter answers: the set and the server after it, and the errors
that make up what it returns. -/
def Apply (env : Env) (accept : Bool) (a : Api) : (DesiredSet × Api) × List Objectset.Err :=
  if o.Err ≠ [] then ((o, a), o.Err)
  else
    match o.getLabelsAndAnnotations env with
    | .error e => ((o.err e, a), (o.err e).Err)
    | .ok (labelSet, annotationSet) =>
      let hash := (Assoc.get LabelHash labelSet).getD ""
      if ¬ o.remove ∧ ¬ accept then
        ((o, a), [⟨false, "Operation cannot be fulfilled on  \"" ++ o.setID
          ++ "\": delaying object set"⟩])
      else
        match o.runInjectors (o.injectLabelsAndAnnotations labelSet annotationSet) with
        | .error e => ((o.err e, a), (o.err e).Err)
        | .ok objList =>
          let s := o.gvkOrder.foldl
            (process env (o.inputID env hash) (requirement LabelHash hash) (collect objList))
            (o, a)
          (s, s.1.Err)

end DesiredSet

end Process

end Norman.Objectset
