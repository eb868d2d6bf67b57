import Norman.Controller
import Norman.Lib.Run

/-!
# The steps of a controller

What a step does and what it takes for it, said once: of a worker (`Works`), of the call that has
the lock (`Unlocks`) and of the controller (`Steps`). The invariants are proved by cases of these.
-/

namespace Norman.Controller

variable {H Obj : Type}

namespace GenericController

variable {g g' : GenericController H Obj}

section Work

/-- What a worker does next, by where it is. -/
inductive Works (g : GenericController H Obj) (outcome : Outcome Obj) :
    Worker H Obj → GenericController H Obj → Worker H Obj → Prop
  | takes {item : Item} {q : Workqueue Item} (hget : g.queue.get = some (item, q)) :
    Works g outcome .idle { g with queue := q } (.got item)
  | enters (item : Item) :
    Works g outcome (.got item) g (.syncing item g.handlers (g.store.get item.objectKey) [])
  | calls (item : Item) (h : HandlerDef H) (handlers : List (HandlerDef H)) (obj : Option Obj)
      (errs : List (String × HandlerErr)) :
    Works g outcome (.syncing item (h :: handlers) obj errs) g
      (callHandler item h handlers obj errs outcome)
  | leaves (item : Item) (obj : Option Obj) (errs : List (String × HandlerErr)) :
    Works g outcome (.syncing item [] obj errs) g (.returned item (newErrors errs))
  | forgets {item : Item} {err : Option SyncErr} (h : forgets err ∨ g.queue.shuttingDown) :
    Works g outcome (.returned item err) g (.finishing item)
  | retries (item : Item) (err : Option SyncErr) :
    Works g outcome (.returned item err)
      { g with waiting := g.waiting ++ [.key item.objectKey] } (.finishing item)
  | finishes (item : Item) :
    Works g outcome (.finishing item) { g with queue := g.queue.done item } .idle

theorem works_of_work {outcome : Outcome Obj} {w w' : Worker H Obj}
    (hw : g.work outcome w = some (g', w')) : Works g outcome w g' w' := by
  unfold GenericController.work at hw
  split at hw
  · simp only [Option.map_eq_some_iff, Prod.mk.injEq] at hw
    obtain ⟨⟨item, q⟩, hget, rfl, rfl⟩ := hw
    exact .takes hget
  · cases hw
    exact .enters _
  · cases hw
    exact .leaves _ _ _
  · cases hw
    exact .calls _ _ _ _ _
  · split_ifs at hw with hforget
    · cases hw
      exact .forgets hforget
    · cases hw
      exact .retries _ _
  · cases hw
    exact .finishes _

end Work

section Unlock

/-- What becomes of the call that has the lock. -/
inductive Unlocks (g : GenericController H Obj) (hasSynced : Bool) (keys : List String) :
    GenericController H Obj → Prop
  | fails {call : Call} (holder : g.holder = some call) (unsynced : ¬ g.synced ∧ ¬ hasSynced) :
    Unlocks g hasSynced keys { g with holder := none }
  | syncs {ctx : Ctx} (holder : g.holder = some (.sync ctx)) :
    Unlocks g hasSynced keys { g with synced := true, holder := none }
  | starts {ctx : Ctx} {threadiness : Int} (holder : g.holder = some (.start ctx threadiness))
      (synced : ¬ (¬ g.synced ∧ ¬ hasSynced)) (listed : keys.Perm g.store.keys) :
    Unlocks g hasSynced keys
      ({ g with synced := true, holder := none }.Start ctx threadiness keys)

theorem unlocks_of_unlock {hasSynced : Bool} {keys : List String}
    (h : g.unlock hasSynced keys = some g') : Unlocks g hasSynced keys g' := by
  unfold unlock at h
  split at h
  · cases h
  · rename_i call hholder
    by_cases hsynced : ¬ g.synced ∧ ¬ hasSynced
    · rw [if_pos hsynced] at h
      split_ifs at h
      cases h
      exact .fails hholder hsynced
    · rw [if_neg hsynced] at h
      cases call with
      | sync ctx =>
        cases h
        exact .syncs hholder
      | start ctx threadiness =>
        simp only at h
        split_ifs at h with hlisted
        cases h
        exact .starts hholder hsynced (List.isPerm_iff.1 hlisted)

end Unlock

section Step

/-- What the controller does next, by the action. -/
inductive Steps (g : GenericController H Obj) :
    Action H Obj → GenericController H Obj → List (Event H) → Prop
  | setThreadinessOverride (count : Int) :
    Steps g (.setThreadinessOverride count) { g with threadinessOverride := count } []
  | enqueue (ns name : String) : Steps g (.enqueue ns name) (g.Enqueue ns name) []
  | addHandler (ctx : Ctx) (name : String) (handler : H) :
    Steps g (.addHandler ctx name handler) (g.AddHandler ctx name handler).1
      (g.AddHandler ctx name handler).2
  | cancel (ctx : Ctx) : Steps g (.cancel ctx) { g with cancelled := insert ctx g.cancelled } []
  | removeHandler {w : Ctx × HandlerDef H} (waits : w ∈ g.watchers) (done : w.1 ∈ g.cancelled) :
    Steps g (.removeHandler w.2.ptr) (g.removeHandler w.2) []
  | lock (call : Call) : Steps g (.lock call) { g with holder := some call, listening := true } []
  | unlock {hasSynced : Bool} {keys : List String} {g' : GenericController H Obj}
      (unlocks : Unlocks g hasSynced keys g') : Steps g (.unlock hasSynced keys) g' []
  | store (store : SortedMap String Obj) : Steps g (.store store) { g with store } []
  | queues {obj : Notice} {key : String} (keyed : obj.key = some key) :
    Steps g (.notify obj) { g with queue := g.queue.add (.key key) } []
  | ignores {obj : Notice} (unkeyed : obj.key = none) : Steps g (.notify obj) g []
  | work {i : ℕ} {outcome : Outcome Obj} {w w' : Worker H Obj} {g' : GenericController H Obj}
      (who : g.workers[i]? = some w) (works : Works g outcome w g' w') :
    Steps g (.work i outcome) { g' with workers := g'.workers.set i w' } []
  | ready {i : ℕ} {item : Item} (waits : g.waiting[i]? = some item) :
    Steps g (.ready i)
      { g with waiting := g.waiting.eraseIdx i, queue := g.queue.add item } []
  | shutDown : Steps g .shutDown { g with queue := g.queue.shutDown } []

theorem steps_of_step {a : Action H Obj} {o : List (Event H)} (h : g.step a = some (g', o)) :
    Steps g a g' o := by
  cases a with
  | setThreadinessOverride count =>
    cases h
    exact .setThreadinessOverride count
  | enqueue ns name =>
    cases h
    exact .enqueue ns name
  | addHandler ctx name handler =>
    simp only [step] at h
    split_ifs at h
    cases h
    exact .addHandler ctx name handler
  | cancel ctx =>
    cases h
    exact .cancel ctx
  | removeHandler ptr =>
    simp only [step] at h
    split at h
    · cases h
    · rename_i w hw
      split_ifs at h with hdone
      cases h
      obtain rfl : w.2.ptr = ptr := by simpa using List.find?_some hw
      exact .removeHandler (List.mem_of_find?_eq_some hw) hdone.2
  | lock call =>
    simp only [step] at h
    split_ifs at h
    cases h
    exact .lock call
  | unlock hasSynced keys =>
    simp only [step, Option.map_eq_some_iff, Prod.mk.injEq] at h
    obtain ⟨g₁, hunlock, rfl, rfl⟩ := h
    exact .unlock (unlocks_of_unlock hunlock)
  | store store =>
    simp only [step] at h
    split_ifs at h
    cases h
    exact .store store
  | notify obj =>
    simp only [step] at h
    split_ifs at h
    cases h
    unfold queueObject
    split
    · rename_i key hkey
      exact .queues hkey
    · rename_i hkey
      exact .ignores hkey
  | work i outcome =>
    simp only [step] at h
    split at h
    · cases h
    · rename_i w hi
      simp only [Option.map_eq_some_iff, Prod.mk.injEq] at h
      obtain ⟨⟨g₁, w'⟩, hwork, rfl, rfl⟩ := h
      exact .work hi (works_of_work hwork)
  | ready i =>
    simp only [step] at h
    split at h
    · cases h
    · rename_i item hi
      cases h
      exact .ready hi
  | shutDown =>
    simp only [step] at h
    split at h
    · cases h
    · split_ifs at h
      cases h
      exact .shutDown

/-- The generations of a run of fewer than `2 ^ 63` steps have room in the 64 bits of the source. -/
theorem generation_le {as : List (Action H Obj)} {o : List (Event H)}
    (hrun : Run.exec step (NewGenericController H Obj) as = some (g, o)) :
    g.generation ≤ as.length := by
  have hle := Run.exec_le_length (P := fun _ _ => True) (w := []) generation ?_ as trivial hrun
  · simpa [NewGenericController] using hle
  · intro g w a g' o _ hs
    refine ⟨trivial, ?_⟩
    cases steps_of_step hs with
    | unlock hu => cases hu <;> simp [Start]
    | work hi hw => cases hw <;> simp
    | _ => simp [Enqueue, AddHandler, removeHandler]

end Step

end GenericController

end Norman.Controller
