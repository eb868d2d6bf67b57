import Mathlib.Algebra.Group.Int.Defs
import Mathlib.Data.Finset.Insert
import Mathlib.Data.String.Basic
import Norman.Lib.SortedMap
import Norman.Lib.Workqueue

/-!
# The generic controller

`controller/generic_controller.go`: an informer, `Enqueue` and `Start` put keys of objects into a
queue, and workers take them out and call the handlers. The controller is taken one step at a time,
a step being what a goroutine does between two points where another one may come in; `AddHandler`,
its removal of the handler and `Start` hold the lock, so that the first two are one step each, and
`Start` and `Sync` are two, with the informer at work in between.

A handler is any code: what it returns is part of the step that calls it. So is the order in which
the store lists its keys, and when the rate limiter lets an item go. An item that waits for the rate
limiter twice is kept twice, although the queue may put the two together.
-/

namespace Norman.Controller

/-- A context, by number. -/
abbrev Ctx := ℕ

/-- `handlerDef`, with the address of the definition, by which handlers are compared. -/
structure HandlerDef (H : Type) where
  ptr : ℕ
  name : String
  generation : Int
  handler : H

section Item

/-- What is put into the queue: the key of an object, or a `generationKey`. -/
inductive Item where
  | key (s : String)
  | generationKey (generation : Int) (s : String)
  deriving DecidableEq

/-- The key of the object, as `syncHandler` has it. -/
def Item.objectKey : Item → String
  | .key s => s
  | .generationKey _ s => s

/-- The generation of the handlers to call, where `-1` stands for all. -/
def Item.generation : Item → Int
  | .key _ => -1
  | .generationKey generation _ => generation

/-- What the informer hands to `queueObject`. -/
inductive Notice where
  | object (ns name : String)
  | deletedFinalStateUnknown (s : String)
  | noMeta

/-- `cache.DeletionHandlingMetaNamespaceKeyFunc`. -/
def Notice.key : Notice → Option String
  | .object ns name => some (if ns = "" then name else ns ++ "/" ++ name)
  | .deletedFinalStateUnknown s => some s
  | .noMeta => none

end Item

section Errors

/-- An error of a handler. -/
inductive HandlerErr where
  | forgetError (text : String)
  | other (text : String)

/-- What `syncHandler` returns: the error of one handler, those of several, or a panic. -/
inductive SyncErr where
  | handlerError (name : String) (err : HandlerErr)
  | multiErrors (errs : List (String × HandlerErr))
  | recovered

/-- `types.NewErrors`, of errors of handlers. -/
def newErrors : List (String × HandlerErr) → Option SyncErr
  | [] => none
  | [(name, err)] => some (.handlerError name err)
  | errs => some (.multiErrors errs)

/-- Whether `processNextWorkItem` forgets the item: no error, or a single `ForgetError`. -/
def forgets : Option SyncErr → Bool
  | none => true
  | some (.handlerError _ (.forgetError _)) => true
  | _ => false

end Errors

section State

variable (H Obj : Type)

/-- What a handler does: it returns an object or none, fails, or panics. -/
inductive Outcome where
  | returned (newObj : Option Obj)
  | failed (err : HandlerErr)
  | panicked

/-- Where a worker is in `processNextWorkItem`; in `syncHandler` it has the handlers that are left,
the object and the errors so far. -/
inductive Worker where
  | idle
  | got (item : Item)
  | syncing (item : Item) (handlers : List (HandlerDef H)) (obj : Option Obj)
      (errs : List (String × HandlerErr))
  | returned (item : Item) (err : Option SyncErr)
  | finishing (item : Item)

/-- A call that holds the lock while the informer syncs. -/
inductive Call where
  | sync (ctx : Ctx)
  | start (ctx : Ctx) (threadiness : Int)

def Call.ctx : Call → Ctx
  | .sync ctx => ctx
  | .start ctx _ => ctx

/-- `genericController`, with what its goroutines have: the informer's store and whether it has the
event handlers, the items that wait for the rate limiter, the workers and the context they run
under, who waits to remove which handler, and the contexts that are cancelled. -/
structure GenericController where
  threadinessOverride : Int
  generation : Int
  handlers : List (HandlerDef H)
  queue : Workqueue Item
  running : Bool
  synced : Bool
  holder : Option Call
  listening : Bool
  store : SortedMap String Obj
  waiting : List Item
  workers : List (Worker H Obj)
  runCtx : Option Ctx
  watchers : List (Ctx × HandlerDef H)
  cancelled : Finset Ctx
  nextPtr : ℕ

/-- `NewGenericController`. -/
def NewGenericController : GenericController H Obj where
  threadinessOverride := 0
  generation := 0
  handlers := []
  queue := .new
  running := false
  synced := false
  holder := none
  listening := false
  store := ∅
  waiting := []
  workers := []
  runCtx := none
  watchers := []
  cancelled := ∅
  nextPtr := 0

/-- What can be seen of a step: the handlers that are added. -/
inductive Event where
  | added (ctx : Ctx) (h : HandlerDef H)

inductive Action where
  | setThreadinessOverride (count : Int)
  | enqueue (ns name : String)
  | addHandler (ctx : Ctx) (name : String) (handler : H)
  | cancel (ctx : Ctx)
  | removeHandler (ptr : ℕ)
  | lock (call : Call)
  | unlock (hasSynced : Bool) (keys : List String)
  | store (store : SortedMap String Obj)
  | notify (obj : Notice)
  | work (i : ℕ) (outcome : Outcome Obj)
  | ready (i : ℕ)
  | shutDown

end State

variable {H Obj : Type}

namespace Worker

/-- The item a worker is to report done. -/
def item : Worker H Obj → Option Item
  | idle => none
  | got item => some item
  | syncing item _ _ _ => some item
  | returned item _ => some item
  | finishing item => some item

/-- The key of the object for which a worker is in `syncHandler`. -/
def inside : Worker H Obj → Option String
  | syncing item _ _ _ => some item.objectKey
  | _ => none

end Worker

/-- One turn of the loop of `syncHandler`. -/
def callHandler (item : Item) (h : HandlerDef H) (handlers : List (HandlerDef H))
    (obj : Option Obj) (errs : List (String × HandlerErr)) (outcome : Outcome Obj) :
    Worker H Obj :=
  if -1 < item.generation ∧ h.generation ≠ item.generation then .syncing item handlers obj errs
  else
    match outcome with
    | .panicked => .returned item (some .recovered)
    | .failed err => .syncing item handlers obj (errs ++ [(h.name, err)])
    | .returned none => .syncing item handlers obj errs
    | .returned (some newObj) => .syncing item handlers (some newObj) errs

namespace GenericController

variable (g : GenericController H Obj)

/-- `queueObject`, of what the informer hands over. -/
def queueObject (obj : Notice) : GenericController H Obj :=
  match obj.key with
  | some key => { g with queue := g.queue.add (.key key) }
  | none => g

def Enqueue (ns name : String) : GenericController H Obj :=
  { g with queue := g.queue.add (.key (if ns = "" then name else ns ++ "/" ++ name)) }

/-- `AddHandler`, up to where it waits for the context. -/
def AddHandler (ctx : Ctx) (name : String) (handler : H) :
    GenericController H Obj × List (Event H) :=
  let h : HandlerDef H := { ptr := g.nextPtr, name, generation := g.generation, handler }
  ({ g with
      handlers := g.handlers ++ [h]
      watchers := g.watchers ++ [(ctx, h)]
      nextPtr := g.nextPtr + 1 },
    [.added ctx h])

/-- The rest of `AddHandler`, once the context is done. -/
def removeHandler (h : HandlerDef H) : GenericController H Obj :=
  { g with
    handlers := g.handlers.foldl (fun handlers handler =>
      if handler.ptr ≠ h.ptr then handlers ++ [h] else handlers) []
    watchers := g.watchers.filter fun w => w.2.ptr ≠ h.ptr }

/-- `Start`, once the informer has synced; `keys` is what the store lists. -/
def Start (ctx : Ctx) (threadiness : Int) (keys : List String) : GenericController H Obj :=
  let threadiness := if 0 < g.threadinessOverride then g.threadinessOverride else threadiness
  { g with
    generation := g.generation + 1
    running := true
    workers := if g.running then g.workers else List.replicate threadiness.toNat .idle
    runCtx := if g.running then g.runCtx else some ctx
    queue :=
      if g.running ∧ ∃ h ∈ g.handlers, h.generation = g.generation then
        keys.foldl (fun q key => q.add (.generationKey g.generation key)) g.queue
      else g.queue }

/-- What `Sync` and `Start` do when the informer has synced or the context is done. -/
def unlock (hasSynced : Bool) (keys : List String) : Option (GenericController H Obj) :=
  match g.holder with
  | none => none
  | some call =>
    if ¬ g.synced ∧ ¬ hasSynced then
      if call.ctx ∈ g.cancelled then some { g with holder := none } else none
    else
      match call with
      | .sync _ => some { g with synced := true, holder := none }
      | .start ctx threadiness =>
        if keys.isPerm g.store.keys then
          some ({ g with synced := true, holder := none }.Start ctx threadiness keys)
        else none

/-- What a worker does next in `processNextWorkItem`. -/
def work (outcome : Outcome Obj) : Worker H Obj → Option (GenericController H Obj × Worker H Obj)
  | .idle => g.queue.get.map fun r => ({ g with queue := r.2 }, .got r.1)
  | .got item => some (g, .syncing item g.handlers (g.store.get item.objectKey) [])
  | .syncing item [] _ errs => some (g, .returned item (newErrors errs))
  | .syncing item (h :: handlers) obj errs =>
    some (g, callHandler item h handlers obj errs outcome)
  | .returned item err =>
    if forgets err ∨ g.queue.shuttingDown then some (g, .finishing item)
    else some ({ g with waiting := g.waiting ++ [.key item.objectKey] }, .finishing item)
  | .finishing item => some ({ g with queue := g.queue.done item }, .idle)

/-- The keys of the objects for which workers are in `syncHandler`. -/
def inside : List String := g.workers.filterMap Worker.inside

/-- One step of the controller, with what can be seen of it. -/
def step : Action H Obj → Option (GenericController H Obj × List (Event H))
  | .setThreadinessOverride count => some ({ g with threadinessOverride := count }, [])
  | .enqueue ns name => some (g.Enqueue ns name, [])
  | .addHandler ctx name handler =>
    if g.holder.isNone then some (g.AddHandler ctx name handler) else none
  | .cancel ctx => some ({ g with cancelled := insert ctx g.cancelled }, [])
  | .removeHandler ptr =>
    match g.watchers.find? fun w => w.2.ptr = ptr with
    | none => none
    | some w =>
      if g.holder.isNone ∧ w.1 ∈ g.cancelled then some (g.removeHandler w.2, []) else none
  | .lock call =>
    if g.holder.isNone then some ({ g with holder := some call, listening := true }, []) else none
  | .unlock hasSynced keys => (g.unlock hasSynced keys).map fun g => (g, [])
  | .store store => if g.listening then some ({ g with store }, []) else none
  | .notify obj => if g.listening then some (g.queueObject obj, []) else none
  | .work i outcome =>
    match g.workers[i]? with
    | none => none
    | some w =>
      (g.work outcome w).map fun r => ({ r.1 with workers := r.1.workers.set i r.2 }, [])
  | .ready i =>
    match g.waiting[i]? with
    | none => none
    | some item =>
      some ({ g with waiting := g.waiting.eraseIdx i, queue := g.queue.add item }, [])
  | .shutDown =>
    match g.runCtx with
    | none => none
    | some ctx => if ctx ∈ g.cancelled then some ({ g with queue := g.queue.shutDown }, []) else none

end GenericController

end Norman.Controller
