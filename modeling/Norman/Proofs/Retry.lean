import Norman.Proofs.Exclusion

/-!
# Which items are tried again

`syncHandler` goes through the handlers with the errors so far, while other goroutines change the
controller, and returns them as one error (`workers_exec`). `processNextWorkItem` looks into the
error of a single handler for a `ForgetError`, and not into those of several: an item is tried again
if two handlers ask for it to be forgotten.
-/

namespace Norman.Controller

variable {H Obj : Type}

section Errors

def HandlerErr.isForget : HandlerErr → Bool
  | .forgetError _ => true
  | .other _ => false

/-- A handler that returns, be it an error. -/
def Outcome.ofResult : Except HandlerErr (Option Obj) → Outcome Obj
  | .ok newObj => .returned newObj
  | .error err => .failed err

/-- The errors of the handlers that are called for an item, each with the name of its handler. -/
def errors (item : Item) :
    List (HandlerDef H × Except HandlerErr (Option Obj)) → List (String × HandlerErr)
  | [] => []
  | (h, result) :: l =>
    if -1 < item.generation ∧ h.generation ≠ item.generation then errors item l
    else
      match result with
      | .ok _ => errors item l
      | .error err => (h.name, err) :: errors item l

/-- What `processNextWorkItem` calls after `syncHandler`: `Forget` or `AddRateLimited`. -/
inductive Fate where
  | forget (item : Item)
  | addRateLimited (item : Item)
  deriving DecidableEq

def fate (item : Item) (err : Option SyncErr) : Fate :=
  if forgets err then .forget item else .addRateLimited (.key item.objectKey)

theorem forgets_newErrors (errs : List (String × HandlerErr)) :
    forgets (newErrors errs) = true ↔ errs.length ≤ 1 ∧ ∀ e ∈ errs, e.2.isForget = true := by
  rcases errs with _ | ⟨⟨name, err⟩, _ | ⟨e, l⟩⟩
  · simp [newErrors, forgets]
  · cases err <;> simp [newErrors, forgets, HandlerErr.isForget]
  · simp [newErrors, forgets]

end Errors

namespace GenericController

variable {g g' : GenericController H Obj} {i : ℕ} {item : Item}

section Fate

/-- `AddRateLimited`, which a queue that shuts down ignores. -/
def addRateLimited (g : GenericController H Obj) (item : Item) : GenericController H Obj :=
  if g.queue.shuttingDown then g else { g with waiting := g.waiting ++ [item] }

/-- What a worker does next that is back from `syncHandler`. -/
theorem work_returned (outcome : Outcome Obj) (item : Item) (err : Option SyncErr) :
    g.work outcome (.returned item err) = some (match fate item err with
      | .forget _ => g
      | .addRateLimited item => g.addRateLimited item, .finishing item) := by
  rcases hf : forgets err with _ | _ <;> rcases hs : g.queue.shuttingDown with _ | _ <;>
    simp [work, fate, addRateLimited, hf, hs]

/-- What a worker is about to do with its item. -/
def fateOf (g : GenericController H Obj) (i : ℕ) : Option Fate :=
  match g.workers[i]? with
  | some (.returned item err) => some (fate item err)
  | _ => none

/-- A worker has its item tried again if and only if one of the errors is not a `ForgetError`, and
forgets it if all of them are. -/
structure Decides (g : GenericController H Obj) (i : ℕ) (item : Item)
    (errs : List (String × HandlerErr)) : Prop where
  retries : g.fateOf i = some (.addRateLimited (.key item.objectKey))
    ↔ ∃ e ∈ errs, e.2.isForget = false
  forgets : (∀ e ∈ errs, e.2.isForget = true) → g.fateOf i = some (.forget item)

theorem decides_iff {errs : List (String × HandlerErr)}
    (hw : g.workers[i]? = some (.returned item (newErrors errs))) :
    g.Decides i item errs ↔ errs.length ≤ 1 ∨ ∃ e ∈ errs, e.2.isForget = false := by
  have hfate : g.fateOf i = some (fate item (newErrors errs)) := by
    unfold fateOf
    rw [hw]
  constructor
  · intro h
    by_contra hn
    rw [not_or] at hn
    have hall : ∀ e ∈ errs, e.2.isForget = true := by
      simpa using hn.2
    have hforget := h.forgets hall
    rw [hfate, fate] at hforget
    split_ifs at hforget with hf
    · exact hn.1 ((forgets_newErrors errs).1 hf).1
    · cases hforget
  · intro h
    rcases hf : Controller.forgets (newErrors errs) with _ | _
    · have hfate' : g.fateOf i = some (.addRateLimited (.key item.objectKey)) := by
        rw [hfate, fate, if_neg (by simp [hf])]
      have hex : ∃ e ∈ errs, e.2.isForget = false := by
        rcases h with h | h
        · by_contra hn
          have := (forgets_newErrors errs).2 ⟨h, by simpa using hn⟩
          simp [hf] at this
        · exact h
      obtain ⟨e, he, hne⟩ := hex
      exact ⟨iff_of_true hfate' ⟨e, he, hne⟩, fun hall => by simp [hall e he] at hne⟩
    · have hall := ((forgets_newErrors errs).1 hf).2
      have hfate' : g.fateOf i = some (.forget item) := by
        rw [hfate, fate, if_pos hf]
      refine ⟨iff_of_false (by simp [hfate']) ?_, fun _ => hfate'⟩
      rintro ⟨e, he, hne⟩
      simp [hall e he] at hne

end Fate

section Frame

variable {a : Action H Obj} {o : List (Event H)} {outcome : Outcome Obj}

/-- What a step does to the workers: nothing, or it starts them, or one of them goes on. -/
theorem workers_cases (h : g.step a = some (g', o)) :
    (g'.workers = g.workers ∧ g'.running = g.running)
      ∨ (g.running = false ∧ g'.running = true)
      ∨ ∃ j outcome w g₁ w', a = .work j outcome ∧ g.workers[j]? = some w
        ∧ Works g outcome w g₁ w' ∧ g' = { g₁ with workers := g₁.workers.set j w' } := by
  cases steps_of_step h with
  | work hj hw => exact .inr (.inr ⟨_, _, _, _, _, rfl, hj, hw, rfl⟩)
  | unlock hu =>
    cases hu with
    | fails => exact .inl ⟨rfl, rfl⟩
    | syncs => exact .inl ⟨rfl, rfl⟩
    | starts =>
      rcases hr : g.running with _ | _
      · exact .inr (.inl ⟨rfl, rfl⟩)
      · exact .inl ⟨by simp [GenericController.Start], rfl⟩
  | setThreadinessOverride | enqueue | addHandler | cancel | removeHandler | lock | store | queues
  | ignores | ready | shutDown => exact .inl ⟨rfl, rfl⟩

theorem Works.frame {w w' : Worker H Obj} (h : Works g outcome w g' w') :
    g'.workers = g.workers ∧ g'.running = g.running := by
  cases h <;> exact ⟨rfl, rfl⟩

theorem resting {as : List (Action H Obj)}
    (h : Run.exec step (NewGenericController H Obj) as = some (g, o)) :
    g.running = false → g.workers = [] := by
  refine Run.exec_invariant (P := fun g _ => g.running = false → g.workers = [])
    (fun _ => rfl) (fun g _ a g' o hg hs hr => ?_) h
  obtain ⟨hw, hr'⟩ | ⟨-, hr'⟩ | ⟨j, outcome, w, g₁, w', -, hj, hw, rfl⟩ := workers_cases hs
  · rw [hw]
    exact hg (hr'.symm.trans hr)
  · rw [hr] at hr'
    cases hr'
  · rw [hg (hw.frame.2.symm.trans hr)] at hj
    cases hj

/-- The outcome of a step of this worker. -/
def outcomeOf (i : ℕ) : Action H Obj → Option (Outcome Obj)
  | .work j outcome => if j = i then some outcome else none
  | _ => none

/-- The steps of others leave a worker where it is. -/
theorem step_other (h : g.step a = some (g', o))
    (hr : g.running = true) (ha : outcomeOf i a = none) :
    g'.workers[i]? = g.workers[i]? ∧ g'.running = true := by
  obtain ⟨hw, hr'⟩ | ⟨hr', -⟩ | ⟨j, outcome, w, g₁, w', rfl, hj, hw, rfl⟩ := workers_cases h
  · exact ⟨by rw [hw], hr'.trans hr⟩
  · rw [hr] at hr'
    cases hr'
  · have hji : j ≠ i := by
      intro hji
      simp [outcomeOf, hji] at ha
    refine ⟨?_, hw.frame.2.trans hr⟩
    rw [hw.frame.1, List.getElem?_set_ne hji]

theorem outcomeOf_eq_some (h : outcomeOf i a = some outcome) : a = .work i outcome := by
  unfold outcomeOf at h
  split at h
  · split_ifs at h with hji
    cases h
    rw [hji]
  · cases h

/-- A step of the worker. -/
theorem step_own
    (h : g.step (.work i outcome) = some (g', o)) (hr : g.running = true) {w : Worker H Obj}
    (hi : g.workers[i]? = some w) :
    ∃ g₁ w', Works g outcome w g₁ w' ∧ g'.workers[i]? = some w' ∧ g'.running = true := by
  cases steps_of_step h with
  | work hj hw =>
    cases hi.symm.trans hj
    refine ⟨_, _, hw, ?_, hw.frame.2.trans hr⟩
    rw [List.getElem?_set_self]
    rw [hw.frame.1]
    exact (List.getElem?_eq_some_iff.1 hi).1

end Frame

section Sync

theorem workers_exec_other : ∀ {as : List (Action H Obj)} {g : GenericController H Obj}
    {o : List (Event H)}, Run.exec step g as = some (g', o) → g.running = true →
    as.filterMap (outcomeOf i) = [] → g'.workers[i]? = g.workers[i]?
  | [], g, o, h, _, _ => by
    cases h
    rfl
  | a :: as, g, o, h, hr, has => by
    obtain ⟨g₁, o₁, o₂, hstep, hrun, -⟩ := Run.exec_cons h
    rw [List.filterMap_cons] at has
    split at has
    · rename_i ha
      obtain ⟨hw, hr₁⟩ := step_other hstep hr ha
      exact (workers_exec_other hrun hr₁ has).trans hw
    · cases has

/-- The loop of `syncHandler`, whatever the other goroutines do. -/
theorem workers_exec : ∀ {as : List (Action H Obj)} {g : GenericController H Obj}
    {o : List (Event H)} {handlers : List (HandlerDef H)} {obj : Option Obj}
    {errs : List (String × HandlerErr)} {results : List (Except HandlerErr (Option Obj))}
    {last : Outcome Obj}, Run.exec step g as = some (g', o) → g.running = true →
    g.workers[i]? = some (.syncing item handlers obj errs) → results.length = handlers.length →
    as.filterMap (outcomeOf i) = results.map .ofResult ++ [last] →
    g'.workers[i]? = some (.returned item (newErrors (errs ++ errors item (handlers.zip results))))
  | [], g, o, handlers, obj, errs, results, last, h, _, _, _, has => by
    simp at has
  | a :: as, g, o, handlers, obj, errs, results, last, h, hr, hw, hlen, has => by
    obtain ⟨g₁, o₁, o₂, hstep, hrun, -⟩ := Run.exec_cons h
    rw [List.filterMap_cons] at has
    split at has
    · rename_i ha
      obtain ⟨hw₁, hr₁⟩ := step_other hstep hr ha
      exact workers_exec hrun hr₁ (hw₁.trans hw) hlen has
    · rename_i outcome ha
      obtain rfl := outcomeOf_eq_some ha
      obtain ⟨g₂, w', hworks, hw₁, hr₁⟩ := step_own hstep hr hw
      rcases results with _ | ⟨result, results⟩
      · obtain rfl := List.length_eq_zero_iff.1 hlen.symm
        cases hworks
        simp only [List.map_nil, List.nil_append, List.cons.injEq] at has
        rw [workers_exec_other hrun hr₁ has.2, hw₁]
        simp [errors]
      · rcases handlers with _ | ⟨d, handlers⟩
        · cases hlen
        · cases hworks
          simp only [List.map_cons, List.cons_append, List.cons.injEq] at has
          obtain ⟨rfl, has⟩ := has
          have hlen' : results.length = handlers.length := by simpa using hlen
          unfold callHandler at hw₁
          simp only [List.zip_cons_cons, errors]
          split_ifs at hw₁ ⊢ with hskip
          · exact workers_exec hrun hr₁ hw₁ hlen' has
          · rcases result with err | _ | newObj <;> simp only [Outcome.ofResult] at hw₁
            · rw [workers_exec hrun hr₁ hw₁ hlen' has]
              simp
            · exact workers_exec hrun hr₁ hw₁ hlen' has
            · exact workers_exec hrun hr₁ hw₁ hlen' has

/-- A worker that has an item goes through `syncHandler`, while the other goroutines do what they
want: it has the item tried again if there is an error that is not a `ForgetError`, and forgets it
otherwise, if and only if there are not several errors that are all `ForgetError`s. -/
theorem syncHandler_decides_iff (results : List (Except HandlerErr (Option Obj)))
    {before as : List (Action H Obj)} {o o' : List (Event H)}
    (hreach : Run.exec step (NewGenericController H Obj) before = some (g, o))
    (hgot : g.workers[i]? = some (.got item))
    {first last : Outcome Obj} (hlen : results.length = g.handlers.length)
    (has : as.filterMap (outcomeOf i) = results.map .ofResult ++ [last])
    (hrun : Run.exec step g (.work i first :: as) = some (g', o')) :
    g'.Decides i item (errors item (g.handlers.zip results))
      ↔ (errors item (g.handlers.zip results)).length ≤ 1
        ∨ ∃ e ∈ errors item (g.handlers.zip results), e.2.isForget = false := by
  have hr : g.running = true := by
    rcases hr : g.running with _ | _
    · rw [resting hreach hr] at hgot
      cases hgot
    · rfl
  obtain ⟨g₁, o₁, o₂, hstep, hrun', -⟩ := Run.exec_cons hrun
  obtain ⟨g₂, w', hworks, hw₁, hr₁⟩ := step_own hstep hr hgot
  cases hworks
  refine decides_iff ?_
  simpa using workers_exec hrun' hr₁ hw₁ hlen has

/-- A worker of a controller with three handlers has got an object. -/
def taken : List (Action Unit Unit) :=
  [.addHandler 0 "first" (), .addHandler 0 "second" (), .addHandler 0 "third" (),
    .enqueue "prod" "web", .lock (.start 1 1), .unlock true [], .work 0 .panicked]

/-- The first handler asks for the object to be forgotten, and meanwhile a handler is added. -/
theorem taken_forgotten :
    ∃ g g' o o', Run.exec step (NewGenericController Unit Unit) taken = some (g, o)
      ∧ Run.exec step g [.work 0 .panicked, .work 0 (.failed (.forgetError "gone")),
          .addHandler 0 "fourth" (), .work 0 (.returned none), .work 0 (.returned none),
          .work 0 .panicked] = some (g', o')
      ∧ g'.Decides 0 (.key "prod/web") [("first", .forgetError "gone")] := by
  obtain ⟨g, g', o, o', hreach, hgot, hhandlers, hrun⟩ : ∃ g g' o o',
      Run.exec step (NewGenericController Unit Unit) taken = some (g, o)
        ∧ g.workers[0]? = some (.got (.key "prod/web"))
        ∧ g.handlers = [⟨0, "first", 0, ()⟩, ⟨1, "second", 0, ()⟩, ⟨2, "third", 0, ()⟩]
        ∧ Run.exec step g [.work 0 .panicked, .work 0 (.failed (.forgetError "gone")),
          .addHandler 0 "fourth" (), .work 0 (.returned none), .work 0 (.returned none),
          .work 0 .panicked] = some (g', o') := ⟨_, _, _, _, rfl, rfl, rfl, rfl⟩
  have hdecides := syncHandler_decides_iff [.error (.forgetError "gone"), .ok none, .ok none]
    hreach hgot (by rw [hhandlers]; rfl) rfl hrun
  rw [hhandlers] at hdecides
  exact ⟨g, g', o, o', hreach, hrun, hdecides.2 (.inl (by decide))⟩

/-- The first and the last handler ask for the object to be forgotten, and it is tried again. -/
theorem taken_retried :
    ∃ g g' o o', Run.exec step (NewGenericController Unit Unit) taken = some (g, o)
      ∧ Run.exec step g [.work 0 .panicked, .work 0 (.failed (.forgetError "gone")),
          .work 0 (.returned none), .work 0 (.failed (.forgetError "gone")),
          .work 0 .panicked] = some (g', o')
      ∧ g'.fateOf 0 = some (.addRateLimited (.key "prod/web"))
      ∧ ¬ g'.Decides 0 (.key "prod/web")
        [("first", .forgetError "gone"), ("third", .forgetError "gone")] := by
  refine ⟨_, _, _, _, rfl, rfl, rfl, fun h => ?_⟩
  obtain ⟨e, he, hne⟩ := h.retries.1 rfl
  revert e
  decide

end Sync

end GenericController

end Norman.Controller
