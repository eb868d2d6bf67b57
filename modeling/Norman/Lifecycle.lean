import Norman.Lib.SortedMap
import Mathlib.Data.String.Basic

/-!
# The lifecycle of an object

`lifecycle/object.go`: `sync` is given an object as the API server has it, and brings it on its way:
it puts the lifecycle's finalizer on it, calls `Create` once and notes in an annotation that it did,
calls `Updated`, and for an object that is being deleted calls `Finalize` and takes the finalizer
off again. Each of these is an update of its own at the API server.

The API server keeps the object with a version, takes an object that has this version or none, and
keeps what is its own (the version and the time of deletion); an object that is being deleted is
gone when its last finalizer is. Any request may fail, also one that the API server has carried out.
What the lifecycle's functions do is part of a run, for they may do anything: they get a copy of the
object, which they may change, and return an object or not, and an error or not.
-/

namespace Norman.Lifecycle

section Object

/-- An object: its metadata as far as `sync` and the API server look at it, and the rest of it. -/
structure Object (β : Type) where
  name : String
  ns : String
  resourceVersion : Option ℕ
  deletionTimestamp : Option String
  finalizers : Option (List String)
  annotations : Option (SortedMap String String)
  rest : β
  deriving DecidableEq

/-- What `ObjectFactory.Object` makes, and a request that fails leaves. -/
instance {β : Type} [Inhabited β] : Inhabited (Object β) :=
  ⟨{ name := "", ns := "", resourceVersion := none, deletionTimestamp := none, finalizers := none,
     annotations := none, rest := default }⟩

variable {β : Type} (obj : Object β)

def Object.GetFinalizers : List String := obj.finalizers.getD []

/-- An annotation; a key that is not there reads as the empty string. -/
def Object.annotationAt (key : String) : String := ((obj.annotations.getD ∅).get key).getD ""

end Object

section Adapter

def created : String := "lifecycle.cattle.io/create"

def finalizerKey : String := "controller.cattle.io/"

def ScopedFinalizerKey : String := "clusterscoped.controller.cattle.io/"

/-- `ObjectLifecycleCondition`. -/
structure Condition where
  HasCreate : Bool
  HasFinalize : Bool
  deriving DecidableEq

/-- `objectLifecycleAdapter`, with the namespace of its client, whether its resource has one, and
whether `GetAnnotations` of its objects gives their own map, as that of `ObjectMeta` does, or a copy
of it, as that of an `Unstructured`. A lifecycle need not have a `Condition`. -/
structure Adapter where
  name : String
  clusterScoped : Bool
  condition : Option Condition
  ns : String
  namespaced : Bool
  ownAnnotations : Bool
  deriving DecidableEq

namespace Adapter

variable (o : Adapter)

def createKey : String := created ++ "." ++ o.name

def constructFinalizerKey : String :=
  if o.clusterScoped then ScopedFinalizerKey ++ o.name else finalizerKey ++ o.name

def hasFinalize : Bool := o.condition.elim true Condition.HasFinalize

def hasCreate : Bool := o.condition.elim true Condition.HasCreate

end Adapter

end Adapter

section World

variable {β : Type}

/-- The functions of an `ObjectLifecycle`. -/
inductive Function where
  | Create
  | Finalize
  | Updated
  deriving DecidableEq

/-- What a call of a lifecycle's function comes to: its argument afterwards, and what it returns. -/
structure Outcome (β : Type) where
  arg : Object β
  obj : Option (Object β)
  err : Option String

/-- What the lifecycle's functions do during one `sync`. -/
abbrev Functions (β : Type) := Function → Object β → Outcome β

/-- What an observer sees: a call of one of the lifecycle's functions, with its argument, what the
API server has at the time, and its error; an update that the API server takes, with the object
before and after it; and that this was the one of `setInitialized`. -/
inductive Event (β : Type) where
  | called (f : Function) (arg : Object β) (stored : Option (Object β)) (err : Option String)
  | wrote (old new : Object β)
  | initialized
  deriving DecidableEq

/-- What becomes of a request: it goes through, it never reaches the API server, or its answer never
comes back. -/
inductive Fate where
  | through
  | unsent
  | unanswered
  deriving DecidableEq

/-- What the API server has, what becomes of the coming requests, and what has been seen. -/
structure World (β : Type) where
  stored : Option (Object β)
  fates : List Fate
  log : List (Event β)

/-- What becomes of the next request. -/
def fate : StateM (World β) Fate :=
  modifyGet fun w => (w.fates.headD .through, { w with fates := w.fates.tail })

def emit (e : Event β) : StateM (World β) Unit := modify fun w => { w with log := w.log ++ [e] }

end World

section Client

variable {β : Type} [Inhabited β] (o : Adapter)

/-- The object as the API server takes it. -/
def taken (old obj : Object β) : Object β :=
  { obj with
    ns := old.ns
    resourceVersion := old.resourceVersion.map (· + 1)
    deletionTimestamp := old.deletionTimestamp }

/-- What the API server has of an object it has taken. -/
def kept (new : Object β) : Option (Object β) :=
  if new.deletionTimestamp.isSome ∧ new.GetFinalizers = [] then none else some new

/-- Why the API server does not take an object, if it does not. -/
def refusal (name : String) (obj old : Object β) : Option String :=
  if name ≠ old.name ∨ (o.namespaced ∧ (if obj.ns = "" then o.ns else obj.ns) ≠ old.ns) then
    some "not found"
  else if obj.name ≠ name then some "the name of the object does not match the name on the URL"
  else if obj.resourceVersion ≠ none ∧ obj.resourceVersion ≠ old.resourceVersion then
    some "the object has been modified"
  else none

/-- `ObjectClient.Update`, with the API server behind it. -/
def clientUpdate (name : String) (obj : Object β) :
    StateM (World β) (Object β × Option String) := do
  if name = "" then
    return (default, some "object missing name")
  let fate ← fate
  if fate = .unsent then
    return (default, some "request failed")
  match (← get).stored with
  | none => return (default, some "not found")
  | some old =>
    match refusal o name obj old with
    | some err => return (default, some err)
    | none =>
      modify fun w => { w with stored := kept (taken old obj) }
      emit (.wrote old (taken old obj))
      if fate = .unanswered then
        return (default, some "request failed")
      return (taken old obj, none)

/-- `ObjectClient.GetNamespaced`. -/
def clientGet (ns name : String) : StateM (World β) (Object β × Option String) := do
  if (← fate) ≠ .through then
    return (default, some "request failed")
  match (← get).stored with
  | none => return (default, some "not found")
  | some obj =>
    if name ≠ obj.name ∨ ns ≠ obj.ns then return (default, some "not found")
    else return (obj, none)

end Client

section Sync

variable {β : Type} [Inhabited β] [DecidableEq β] (o : Adapter) (fs : Functions β)

def update (name : String) (orig : Object β) (obj : Option (Object β)) :
    StateM (World β) (Object β × Option String) :=
  match obj with
  | some obj => if orig ≠ obj then clientUpdate o name obj else pure (obj, none)
  | none => pure (orig, none)

/-- `record`, with `checkNil`. The function gets a copy of the object. -/
def record (obj : Object β) (f : Function) : StateM (World β) (Object β × Option String) := do
  let out := fs f obj
  emit (.called f obj (← get).stored out.err)
  match out.err, out.obj with
  | some err, newObj => do
    let (newObj, _) ← update o obj.name obj newObj
    return (newObj, some err)
  | none, some newObj => update o obj.name obj (some newObj)
  | none, none => return (out.arg, none)

/-- `removeFinalizer`, with so many attempts left. -/
def removeFinalizer (name : String) :
    ℕ → Object β → StateM (World β) (Option (Object β) × Option String)
  | 0, _ => return (none, some ("failed to remove finalizer on " ++ name))
  | n + 1, obj => do
    let finalizers := obj.GetFinalizers.filter (· ≠ name)
    let obj := { obj with finalizers := if finalizers = [] then none else some finalizers }
    let (newObj, err) ← clientUpdate o obj.name obj
    if err.isNone then
      return (some newObj, none)
    let (obj, err) ← clientGet obj.ns obj.name
    if err.isSome then
      return (none, err)
    removeFinalizer name n obj

/-- `finalize`: the object, whether to go on, and the error. -/
def finalize (obj : Object β) : StateM (World β) (Option (Object β) × Bool × Option String) := do
  if ¬ o.hasFinalize then
    return (some obj, true, none)
  if obj.deletionTimestamp = none then
    return (none, true, none)
  if o.constructFinalizerKey ∉ obj.GetFinalizers then
    return (none, false, none)
  let (newObj, err) ← record o fs obj .Finalize
  if err.isSome then
    return (some obj, false, err)
  let (obj, err) ← removeFinalizer o o.constructFinalizerKey 3 newObj
  return (obj, false, err)

def isInitialized (obj : Object β) : Bool := obj.annotationAt o.createKey = "true"

/-- The mark is written into the map that `GetAnnotations` gives, which is lost if it is a copy. -/
def mark (obj : Object β) : Object β :=
  let annotations := obj.annotations.getD ∅
  { obj with
    annotations := some (if o.ownAnnotations then annotations.set o.createKey "true"
      else annotations) }

def setInitialized (obj : Object β) : StateM (World β) (Object β × Option String) := do
  let obj := mark o obj
  let (obj, err) ← clientUpdate o obj.name obj
  if err.isNone then
    emit .initialized
  return (obj, err)

def addFinalizer (obj : Object β) : StateM (World β) (Object β × Option String) :=
  if o.constructFinalizerKey ∈ obj.GetFinalizers then pure (obj, none)
  else
    clientUpdate o obj.name
      { obj with finalizers := some (obj.GetFinalizers ++ [o.constructFinalizerKey]) }

/-- The part of `create` before the lifecycle is looked at for a `Create`. -/
def ensureFinalizer (obj : Object β) : StateM (World β) (Object β × Option String) :=
  if o.hasFinalize then addFinalizer o obj else pure (obj, none)

/-- `create`: the object, whether to go on, and the error. -/
def create (obj : Object β) : StateM (World β) (Option (Object β) × Bool × Option String) := do
  if isInitialized o obj then
    return (none, true, none)
  let (obj, err) ← ensureFinalizer o obj
  if err.isSome then
    return (some obj, false, err)
  if ¬ o.hasCreate then
    return (some obj, true, none)
  let (obj, err) ← record o fs obj .Create
  if err.isSome then
    return (some obj, false, err)
  let (obj, err) ← setInitialized o obj
  return (some obj, false, err)

def sync (obj : Option (Object β)) : StateM (World β) (Option (Object β) × Option String) :=
  match obj with
  | none => return (none, none)
  | some obj => do
    let (newObj, cont, err) ← finalize o fs obj
    if err.isSome ∨ ¬ cont then
      return (none, err)
    let obj := newObj.getD obj
    let (newObj, cont, err) ← create o fs obj
    if err.isSome ∨ ¬ cont then
      return (none, err)
    let obj := newObj.getD obj
    let (obj, err) ← record o fs obj .Updated
    return (some obj, err)

end Sync

section Run

variable {β : Type} [Inhabited β] [DecidableEq β] (o : Adapter)

/-- The lifecycle's finalizer and its annotation are as they were. -/
def Untouched (old obj : Object β) : Prop :=
  (o.constructFinalizerKey ∈ obj.GetFinalizers ↔ o.constructFinalizerKey ∈ old.GetFinalizers)
    ∧ obj.annotationAt o.createKey = old.annotationAt o.createKey

instance (old obj : Object β) : Decidable (Untouched o old obj) := inferInstanceAs (Decidable (_ ∧ _))

/-- A `sync` of the object as the API server has it, with what the lifecycle's functions do and what
becomes of its requests; a change of the object by another party; and its deletion, which waits for
the finalizer. -/
inductive Action (β : Type) where
  | sync (fs : Functions β) (fates : List Fate)
  | change (obj : Object β)
  | delete

/-- A `sync` of what the API server has. -/
def synced (fs : Functions β) (fates : List Fate) (stored : Option (Object β)) : World β :=
  ((sync o fs stored).run { stored, fates, log := [] }).2

/-- One step for the object that the API server has. What a `sync` did is observed as one. -/
def step (stored : Option (Object β)) :
    Action β → Option (Option (Object β) × List (List (Event β)))
  | .sync fs fates =>
    let w := synced o fs fates stored
    some (w.stored, [w.log])
  | .change obj => stored.bind fun old => if Untouched o old obj then some (some obj, []) else none
  | .delete => stored.bind fun old =>
      if o.constructFinalizerKey ∈ old.GetFinalizers then none else some (none, [])

end Run

end Norman.Lifecycle
