import Norman.Lib.Run
import Norman.Proofs.Transitions

/-!
# One worker at a time for an object

The queue hands an item to one worker at a time, and so the items of the workers are different
(`Inv.once`). The objects are different as well if every item is the key of its object, that is, if
`Start` never queued what is in the store under a `generationKey`, or if there is one worker only.
-/

namespace Norman.Controller

variable {H Obj : Type}

namespace GenericController

variable {g g' : GenericController H Obj}

/-- At no object there are two workers in `syncHandler`. -/
def Exclusive (g : GenericController H Obj) : Prop := g.inside.Nodup

instance : Decidable g.Exclusive := inferInstanceAs (Decidable (List.Nodup _))

/-- `Start` queues nothing on its own account: the controller was not running, or has one worker at
most, or no handler was added since the last `Start`, or there is nothing in the store. -/
def StartsQuietly (g : GenericController H Obj) : Action H Obj → Prop
  | .unlock _ _ =>
    match g.holder with
    | some (.start _ _) => g.running = false ∨ g.workers.length ≤ 1
      ∨ (∀ h ∈ g.handlers, h.generation ≠ g.generation) ∨ g.store.keys = []
    | _ => True
  | _ => True

instance : ∀ a : Action H Obj, Decidable (g.StartsQuietly a)
  | .unlock _ _ =>
    match h : g.holder with
    | some (.start _ _) => decidable_of_iff (g.running = false ∨ g.workers.length ≤ 1
        ∨ (∀ h ∈ g.handlers, h.generation ≠ g.generation) ∨ g.store.keys = [])
        (by simp only [StartsQuietly, h])
    | some (.sync _) => isTrue (by simp only [StartsQuietly, h])
    | none => isTrue (by simp only [StartsQuietly, h])
  | .setThreadinessOverride _ | .enqueue _ _ | .addHandler _ _ _ | .cancel _ | .removeHandler _
  | .lock _ | .store _ | .notify _ | .work _ _ | .ready _ | .shutDown => isTrue trivial

section Work

theorem item_callHandler (item : Item) (h : HandlerDef H) (handlers : List (HandlerDef H))
    (obj : Option Obj) (errs : List (String × HandlerErr)) (outcome : Outcome Obj) :
    (callHandler item h handlers obj errs outcome).item = some item := by
  unfold callHandler
  split_ifs
  · rfl
  · split <;> rfl

theorem getElem?_set_cases {α : Type*} {l : List α} {i j : ℕ} {x y : α}
    (h : (l.set i x)[j]? = some y) : (j = i ∧ y = x) ∨ (j ≠ i ∧ l[j]? = some y) := by
  rw [List.getElem?_set] at h
  split_ifs at h with h1 h2
  · simp only [Option.some.injEq] at h
    exact .inl ⟨h1.symm, h.symm⟩
  · exact .inr ⟨fun hji => h1 hji.symm, h⟩

end Work

section Held

/-- Every worker's item is being worked on according to the queue, by that worker alone. -/
structure Held (q : Workqueue Item) (workers : List (Worker H Obj)) : Prop where
  ok : q.Ok
  held : ∀ {i : ℕ} {item} {w : Worker H Obj}, workers[i]? = some w → w.item = some item →
    item ∈ q.processing
  once : ∀ {i j : ℕ} {item} {w w' : Worker H Obj}, workers[i]? = some w → workers[j]? = some w' →
    w.item = some item → w'.item = some item → i = j

variable {q : Workqueue Item} {workers : List (Worker H Obj)} {i : ℕ} {item : Item}

theorem Held.add (h : Held q workers) (item : Item) : Held (q.add item) workers where
  ok := h.ok.add item
  held hi hw := by
    rw [Workqueue.processing_add]
    exact h.held hi hw
  once := h.once

theorem Held.addGenerationKeys (generation : Int) : ∀ (keys : List String) {q : Workqueue Item},
    Held q workers →
      Held (keys.foldl (fun q key => q.add (.generationKey generation key)) q) workers
  | [], _, h => h
  | k :: keys, _, h => addGenerationKeys generation keys (h.add (.generationKey generation k))

/-- A worker goes on with its item. -/
theorem Held.move (h : Held q workers) {w w' : Worker H Obj} (hi : workers[i]? = some w)
    (hw : w'.item = w.item) : Held q (workers.set i w') where
  ok := h.ok
  held {j item v} hj hv := by
    rcases getElem?_set_cases hj with ⟨rfl, rfl⟩ | ⟨-, hj⟩
    · exact h.held hi (hw ▸ hv)
    · exact h.held hj hv
  once {j k item v v'} hj hk hv hv' := by
    rcases getElem?_set_cases hj with ⟨rfl, rfl⟩ | ⟨-, hj'⟩ <;>
      rcases getElem?_set_cases hk with ⟨rfl, rfl⟩ | ⟨-, hk'⟩
    · rfl
    · exact h.once hi hk' (hw ▸ hv) hv'
    · exact h.once hj' hi hv (hw ▸ hv')
    · exact h.once hj' hk' hv hv'

/-- An idle worker takes an item, which nobody has. -/
theorem Held.get (h : Held q workers) {q' : Workqueue Item} (hget : q.get = some (item, q')) :
    Held q' (workers.set i (.got item)) := by
  obtain ⟨-, hfree, hprocessing, -, hok⟩ := Workqueue.get_spec h.ok hget
  have hnew : ∀ {j : ℕ} {v : Worker H Obj}, workers[j]? = some v → v.item ≠ some item :=
    fun hj hv => hfree (h.held hj hv)
  refine ⟨hok, fun {j x v} hj hv => ?_, fun {j k x v v'} hj hk hv hv' => ?_⟩
  · rw [hprocessing, Finset.mem_insert]
    rcases getElem?_set_cases hj with ⟨rfl, rfl⟩ | ⟨-, hj⟩
    · exact .inl (Option.some.inj hv).symm
    · exact .inr (h.held hj hv)
  · rcases getElem?_set_cases hj with ⟨rfl, rfl⟩ | ⟨-, hj'⟩ <;>
      rcases getElem?_set_cases hk with ⟨rfl, rfl⟩ | ⟨-, hk'⟩
    · rfl
    · exact absurd (hv'.trans hv.symm) (hnew hk')
    · exact absurd (hv.trans hv'.symm) (hnew hj')
    · exact h.once hj' hk' hv hv'

/-- A worker reports its item done. -/
theorem Held.done (h : Held q workers) (hi : workers[i]? = some (.finishing item)) :
    Held (q.done item) (workers.set i .idle) where
  ok := h.ok.done (h.held hi rfl)
  held {j x v} hj hv := by
    rcases getElem?_set_cases hj with ⟨rfl, rfl⟩ | ⟨hji, hj'⟩
    · cases hv
    · refine Finset.mem_erase.2 ⟨?_, h.held hj' hv⟩
      rintro rfl
      exact hji (h.once hj' hi hv rfl)
  once {j k x v v'} hj hk hv hv' := by
    rcases getElem?_set_cases hj with ⟨rfl, rfl⟩ | ⟨-, hj⟩
    · cases hv
    · rcases getElem?_set_cases hk with ⟨rfl, rfl⟩ | ⟨-, hk⟩
      · cases hv'
      · exact h.once hj hk hv hv'

theorem Held.idle (h : q.Ok) (n : ℕ) : Held q (List.replicate n (.idle : Worker H Obj)) := by
  have hidle : ∀ {i : ℕ} {item} {w : Worker H Obj},
      (List.replicate n (.idle : Worker H Obj))[i]? = some w → w.item ≠ some item := by
    intro i item w hi
    rw [List.eq_of_mem_replicate (List.mem_of_getElem? hi)]
    simp [Worker.item]
  exact ⟨h, fun hi hw => absurd hw (hidle hi), fun hi _ hw _ => absurd hw (hidle hi)⟩

/-- Whatever a worker does next. -/
theorem Held.work (h : Held g.queue g.workers) {w w' : Worker H Obj} {outcome : Outcome Obj}
    (hi : g.workers[i]? = some w) (hw : Works g outcome w g' w') :
    Held g'.queue (g'.workers.set i w') := by
  cases hw with
  | takes hget => exact h.get hget
  | enters item => exact h.move hi rfl
  | calls item d handlers obj errs => exact h.move hi (item_callHandler _ _ _ _ _ _)
  | leaves item obj errs => exact h.move hi rfl
  | forgets _ => exact h.move hi rfl
  | retries item err => exact h.move hi rfl
  | finishes item => exact h.done hi

theorem Held.Start (h : Held g.queue g.workers) (ctx : Ctx) (threadiness : Int)
    (keys : List String) :
    Held (g.Start ctx threadiness keys).queue (g.Start ctx threadiness keys).workers := by
  rcases hrun : g.running with _ | _
  · simp only [GenericController.Start, hrun, Bool.false_eq_true, false_and, if_false]
    exact .idle h.ok _
  · simp only [GenericController.Start, hrun, true_and, if_true]
    split_ifs
    · exact .addGenerationKeys _ _ h
    · exact h

theorem Held.unlock (h : Held g.queue g.workers) {hasSynced : Bool} {keys : List String}
    (hu : Unlocks g hasSynced keys g') : Held g'.queue g'.workers := by
  cases hu with
  | fails => exact h
  | syncs => exact h
  | starts => exact Held.Start (g := { g with synced := true, holder := none }) h _ _ _

/-- Every step keeps the items apart. -/
theorem Held.step (h : Held g.queue g.workers) {a : Action H Obj} {o : List (Event H)}
    (hstep : g.step a = some (g', o)) : Held g'.queue g'.workers := by
  cases steps_of_step hstep with
  | enqueue => exact h.add _
  | queues => exact h.add _
  | ready => exact h.add _
  | unlock hu => exact h.unlock hu
  | work hi hw => exact h.work hi hw
  | shutDown => exact ⟨h.ok.shutDown, h.held, h.once⟩
  | setThreadinessOverride | addHandler | cancel | removeHandler | lock | store | ignores =>
    exact h

end Held

section Inv

/-- The items are apart, and before the controller runs, or with more than one worker, all of them
are keys. -/
structure Inv (g : GenericController H Obj) : Prop extends Held g.queue g.workers where
  plain : g.running = false ∨ 2 ≤ g.workers.length → ∀ {item : Item},
    item ∈ g.queue.dirty ∨ item ∈ g.queue.processing ∨ item ∈ g.waiting → item = .key item.objectKey

theorem inv_new : Inv (NewGenericController H Obj) where
  ok := Workqueue.ok_new
  held := by simp [NewGenericController]
  once := by simp [NewGenericController]
  plain := by simp [NewGenericController, Workqueue.new]

theorem Inv.add (h : g.Inv) {item : Item} (hitem : g.running = false ∨ 2 ≤ g.workers.length →
    item = .key item.objectKey) : Inv { g with queue := g.queue.add item } where
  toHeld := h.toHeld.add item
  plain hg := by
    rintro x (hx | hx | hx)
    · rcases Workqueue.mem_dirty_add hx with rfl | hx
      · exact hitem hg
      · exact h.plain hg (.inl hx)
    · rw [Workqueue.processing_add] at hx
      exact h.plain hg (.inr (.inl hx))
    · exact h.plain hg (.inr (.inr hx))

/-- Whatever a worker does next. -/
theorem Inv.work (h : g.Inv) {i : ℕ} {w w' : Worker H Obj} {outcome : Outcome Obj}
    (hi : g.workers[i]? = some w) (hw : Works g outcome w g' w') :
    Inv { g' with workers := g'.workers.set i w' } where
  toHeld := h.toHeld.work hi hw
  plain hg x hx := by
    have hplain : ∀ {item : Item}, item ∈ g.queue.dirty ∨ item ∈ g.queue.processing
        ∨ item ∈ g.waiting → item = .key item.objectKey := by
      refine h.plain ?_
      cases hw <;> simpa using hg
    cases hw with
    | takes hget =>
      obtain ⟨hdirty, -, hprocessing, hdirty', -⟩ := Workqueue.get_spec h.ok hget
      simp only [hprocessing, hdirty', Finset.mem_erase, Finset.mem_insert] at hx
      rcases hx with hx | (rfl | hx) | hx
      · exact hplain (.inl hx.2)
      · exact hplain (.inl hdirty)
      · exact hplain (.inr (.inl hx))
      · exact hplain (.inr (.inr hx))
    | enters item => exact hplain hx
    | calls item d handlers obj errs => exact hplain hx
    | leaves item obj errs => exact hplain hx
    | forgets _ => exact hplain hx
    | retries item err =>
      rcases hx with hx | hx | hx
      · exact hplain (.inl hx)
      · exact hplain (.inr (.inl hx))
      · rcases List.mem_append.1 hx with hx | hx
        · exact hplain (.inr (.inr hx))
        · rw [List.mem_singleton.1 hx]
          rfl
    | finishes item =>
      rcases hx with hx | hx | hx
      · exact hplain (.inl hx)
      · exact hplain (.inr (.inl (Finset.mem_of_mem_erase hx)))
      · exact hplain (.inr (.inr hx))

theorem Inv.addGenerationKeys (hrun : g.running = true) (generation : Int) :
    ∀ (keys : List String) (q : Workqueue Item), (2 ≤ g.workers.length → keys = []) →
      Inv { g with queue := q } → Inv { g with
        queue := keys.foldl (fun q key => q.add (.generationKey generation key)) q }
  | [], _, _, h => h
  | k :: keys, q, hkeys, h => by
    refine addGenerationKeys hrun generation keys _ (fun hw => ?_) (h.add ?_)
    · exact absurd (hkeys hw) (by simp)
    · rintro (hr | hw)
      · exact absurd (hr.symm.trans hrun) (by simp)
      · exact absurd (hkeys hw) (by simp)

/-- `Start` queues items that are no keys only where they do no harm. -/
theorem Inv.Start (h : g.Inv) {ctx : Ctx} {threadiness : Int} {keys : List String}
    (hkeys : keys.Perm g.store.keys)
    (hquiet : g.running = false ∨ g.workers.length ≤ 1
      ∨ (∀ h ∈ g.handlers, h.generation ≠ g.generation) ∨ g.store.keys = []) :
    Inv (g.Start ctx threadiness keys) where
  toHeld := h.toHeld.Start ctx threadiness keys
  plain hg item hitem := by
    rcases hrun : g.running with _ | _
    · simp only [GenericController.Start, hrun, Bool.false_eq_true, false_and, if_false] at hitem
      exact h.plain (.inl hrun) hitem
    · simp only [GenericController.Start, hrun, true_and, if_true] at hg hitem
      split_ifs at hitem with hgen
      · refine (Inv.addGenerationKeys hrun _ keys g.queue (fun hw => ?_) h).plain
          (hg.imp_left fun hr => absurd hr (by simp)) hitem
        rcases hquiet with hr | hone | hnone | hempty
        · exact absurd (hr.symm.trans hrun) (by simp)
        · omega
        · obtain ⟨d, hd, heq⟩ := hgen
          exact absurd heq (hnone d hd)
        · rw [hempty] at hkeys
          exact hkeys.eq_nil
      · exact h.plain (hg.imp_left fun hr => absurd hr (by simp)) hitem

theorem Inv.unlock (h : g.Inv) {hasSynced : Bool} {keys : List String}
    (hquiet : g.StartsQuietly (.unlock hasSynced keys)) (hu : Unlocks g hasSynced keys g') :
    g'.Inv := by
  cases hu with
  | fails => exact ⟨h.toHeld, h.plain⟩
  | syncs => exact ⟨h.toHeld, h.plain⟩
  | starts hholder _ hlisted =>
    simp only [StartsQuietly, hholder] at hquiet
    have h' : Inv { g with synced := true, holder := none } := ⟨h.toHeld, h.plain⟩
    exact h'.Start hlisted hquiet

/-- Every step keeps the invariant, if `Start` queues nothing on its own account. -/
theorem Inv.step (h : g.Inv) {a : Action H Obj} {o : List (Event H)} (hquiet : g.StartsQuietly a)
    (hstep : g.step a = some (g', o)) : g'.Inv := by
  have hheld : Held g'.queue g'.workers := h.toHeld.step hstep
  cases steps_of_step hstep with
  | enqueue => exact h.add fun _ => rfl
  | queues => exact h.add fun _ => rfl
  | unlock hu => exact h.unlock hquiet hu
  | work hi hw => exact h.work hi hw
  | @ready i item hi =>
    have hmem : item ∈ g.waiting := List.mem_of_getElem? hi
    have hadd := h.add fun hg => h.plain hg (.inr (.inr hmem))
    refine ⟨hheld, fun hg x hx => hadd.plain hg ?_⟩
    exact hx.imp_right (.imp_right fun hx => List.mem_of_mem_eraseIdx hx)
  | setThreadinessOverride | addHandler | cancel | removeHandler | lock | store | ignores
  | shutDown => exact ⟨hheld, h.plain⟩

theorem nodup_filterMap {α β : Type*} (f : α → Option β) : ∀ l : List α,
    (∀ {i j : ℕ} {x y : α} {b : β}, l[i]? = some x → l[j]? = some y → f x = some b → f y = some b →
      i = j) → (l.filterMap f).Nodup
  | [], _ => by simp
  | x :: l, h => by
    have ih : (l.filterMap f).Nodup := nodup_filterMap f l fun hi hj hx hy =>
      Nat.succ.inj (h (by simpa using hi) (by simpa using hj) hx hy)
    rcases hx : f x with _ | b
    · rwa [List.filterMap_cons_none hx]
    · rw [List.filterMap_cons_some hx, List.nodup_cons]
      refine ⟨fun hb => ?_, ih⟩
      obtain ⟨y, hy, hyb⟩ := List.mem_filterMap.1 hb
      obtain ⟨j, hj⟩ := List.mem_iff_getElem?.1 hy
      have h0 : 0 = j + 1 := h rfl (by simpa using hj) hx hyb
      omega

/-- Workers at one object have one item, and so are one worker. -/
theorem Inv.exclusive (h : g.Inv) : g.Exclusive := by
  refine nodup_filterMap _ _ fun {i j w w' key} hi hj hw hw' => ?_
  have hinside : ∀ {v : Worker H Obj}, v.inside = some key →
      ∃ item, v.item = some item ∧ item.objectKey = key := by
    intro v hv
    cases v with
    | syncing item handlers obj errs => exact ⟨item, rfl, Option.some.inj hv⟩
    | _ => cases hv
  obtain ⟨item, hitem, hkey⟩ := hinside hw
  obtain ⟨item', hitem', hkey'⟩ := hinside hw'
  by_cases htwo : 2 ≤ g.workers.length
  · have hplain : item = item' := by
      rw [h.plain (.inr htwo) (.inr (.inl (h.held hi hitem))),
        h.plain (.inr htwo) (.inr (.inl (h.held hj hitem'))), hkey, hkey']
    exact h.once hi hj hitem (hplain ▸ hitem')
  · have h1 := (List.getElem?_eq_some_iff.1 hi).1
    have h2 := (List.getElem?_eq_some_iff.1 hj).1
    omega

end Inv

section Run

/-- In every run in which `Start` queues nothing on its own account, at no object there are ever two
workers in `syncHandler`. -/
theorem syncHandler_exclusive {as : List (Action H Obj)} {o : List (Event H)}
    (hrun : Run.exec step (NewGenericController H Obj) as = some (g, o))
    (hquiet : Run.Along step StartsQuietly (NewGenericController H Obj) as) : g.Exclusive := by
  have hinv : g.Inv := Run.exec_invariant_along (fun g _ => GenericController.Inv g) inv_new
    (fun _ _ _ _ _ h hq hs => h.step hq hs) hrun hquiet
  exact hinv.exclusive

/-- A controller with two workers and one handler; a worker is at an object that changes meanwhile,
the other at another one, and `Start` is called again. -/
def quietRun : List (Action Unit Unit) :=
  [.addHandler 0 "first" (), .lock (.start 1 2), .store ((∅ : SortedMap String Unit).set "prod/web" ()),
    .notify (.object "prod" "web"), .unlock true ["prod/web"], .work 0 (.returned none), .work 0 (.returned none),
    .notify (.object "prod" "web"), .lock (.start 1 2), .unlock true ["prod/web"],
    .enqueue "prod" "db", .work 1 (.returned none), .work 1 (.returned none)]

theorem quietRun_exclusive :
    ∃ g o, Run.exec step (NewGenericController Unit Unit) quietRun = some (g, o)
      ∧ g.inside = ["prod/web", "prod/db"] ∧ g.Exclusive := by
  have hinside : (Run.exec step (NewGenericController Unit Unit) quietRun).map
      (fun r => r.1.inside) = some ["prod/web", "prod/db"] := by
    decide +kernel
  obtain ⟨⟨g, o⟩, hrun, hg⟩ := Option.map_eq_some_iff.1 hinside
  exact ⟨g, o, hrun, hg, syncHandler_exclusive hrun (by decide +kernel)⟩

/-- A handler is added while a worker is at the object, and `Start` is called again. -/
def overlapRun : List (Action Unit Unit) :=
  [.addHandler 0 "first" (), .lock (.start 1 2), .store ((∅ : SortedMap String Unit).set "prod/web" ()),
    .notify (.object "prod" "web"), .unlock true ["prod/web"], .work 0 (.returned none), .work 0 (.returned none),
    .addHandler 0 "second" (), .lock (.start 1 2), .unlock true ["prod/web"],
    .work 1 (.returned none), .work 1 (.returned none)]

/-- Two workers are in `syncHandler` for one object: for its key, and for its `generationKey`. -/
theorem overlapRun_not_exclusive :
    ∃ g o, Run.exec step (NewGenericController Unit Unit) overlapRun = some (g, o)
      ∧ g.inside = ["prod/web", "prod/web"] ∧ ¬ g.Exclusive := by
  have hinside : (Run.exec step (NewGenericController Unit Unit) overlapRun).map
      (fun r => r.1.inside) = some ["prod/web", "prod/web"] := by
    decide +kernel
  obtain ⟨⟨g, o⟩, hrun, hg⟩ := Option.map_eq_some_iff.1 hinside
  refine ⟨g, o, hrun, hg, ?_⟩
  rw [Exclusive, hg]
  decide

end Run

end GenericController

end Norman.Controller
