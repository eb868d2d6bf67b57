import Norman.Lib.Run
import Norman.Proofs.Transitions

/-!
# The handlers of a controller

When a context is cancelled, its handler is to go. What `AddHandler` does then is to put the handler
that goes in the place of every other one, so the handlers are right afterwards only if there was no
other. If there was, one that is gone stays among the handlers for good: each later removal leaves
its own handler in the place of that one.
-/

namespace Norman.Controller

variable {H Obj : Type}

/-- The handlers added, with their contexts. -/
def added (o : List (Event H)) : List (Ctx × HandlerDef H) := o.map fun
  | .added ctx h => (ctx, h)

namespace GenericController

variable {g g' : GenericController H Obj} {o o' : List (Event H)}

/-- The handlers that were added and whose context is not cancelled. -/
def uncancelled (g : GenericController H Obj) (o : List (Event H)) : List (HandlerDef H) :=
  ((added o).filter fun w => w.1 ∉ g.cancelled).map Prod.snd

/-- No handler waits to be removed. -/
def Settled (g : GenericController H Obj) : Prop := ∀ w ∈ g.watchers, w.1 ∉ g.cancelled

/-- A handler that is removed is the only one. -/
def RemovesAlone (g : GenericController H Obj) : Action H Obj → Prop
  | .removeHandler ptr => ∀ h ∈ g.handlers, h.ptr = ptr
  | _ => True

instance : ∀ a : Action H Obj, Decidable (g.RemovesAlone a)
  | .removeHandler ptr => inferInstanceAs (Decidable (∀ h ∈ g.handlers, h.ptr = ptr))
  | .setThreadinessOverride _ | .enqueue _ _ | .addHandler _ _ _ | .cancel _ | .lock _
  | .unlock _ _ | .store _ | .notify _ | .work _ _ | .ready _ | .shutDown => isTrue trivial

section Step

/-- The handlers are as they were. -/
structure Same (g g' : GenericController H Obj) : Prop where
  handlers : g'.handlers = g.handlers
  watchers : g'.watchers = g.watchers
  nextPtr : g'.nextPtr = g.nextPtr
  cancelled : g.cancelled ⊆ g'.cancelled

theorem Same.refl (g : GenericController H Obj) : Same g g := ⟨rfl, rfl, rfl, fun _ h => h⟩

theorem Unlocks.same {hasSynced : Bool} {keys : List String} (h : Unlocks g hasSynced keys g') :
    Same g g' := by
  cases h <;> exact ⟨rfl, rfl, rfl, fun _ h => h⟩

theorem Works.same {outcome : Outcome Obj} {w w' : Worker H Obj} (h : Works g outcome w g' w') :
    Same g g' := by
  cases h <;> exact ⟨rfl, rfl, rfl, fun _ h => h⟩

/-- What a step does to the handlers: nothing, or it adds one, or it removes one. -/
theorem step_cases {a : Action H Obj} (h : g.step a = some (g', o)) :
    (Same g g' ∧ o = [] ∧ g.RemovesAlone a)
      ∨ (∃ ctx name handler, (g', o) = g.AddHandler ctx name handler ∧ g.RemovesAlone a)
      ∨ ∃ w ∈ g.watchers, w.1 ∈ g.cancelled ∧ a = .removeHandler w.2.ptr
        ∧ g' = g.removeHandler w.2 ∧ o = [] := by
  cases steps_of_step h with
  | addHandler ctx name handler => exact .inr (.inl ⟨ctx, name, handler, rfl, trivial⟩)
  | @removeHandler w hw hdone => exact .inr (.inr ⟨w, hw, hdone, rfl, rfl, rfl⟩)
  | cancel ctx => exact .inl ⟨⟨rfl, rfl, rfl, Finset.subset_insert _ _⟩, rfl, trivial⟩
  | unlock hu => exact .inl ⟨hu.same, rfl, trivial⟩
  | work _ hw => exact .inl ⟨{ hw.same with }, rfl, trivial⟩
  | setThreadinessOverride | enqueue | lock | store | queues | ignores | ready | shutDown =>
    exact .inl ⟨⟨rfl, rfl, rfl, fun _ h => h⟩, rfl, trivial⟩

theorem foldl_remove (h : HandlerDef H) : ∀ l acc : List (HandlerDef H),
    l.foldl (fun handlers handler => if handler.ptr ≠ h.ptr then handlers ++ [h] else handlers) acc
      = acc ++ (l.filter fun handler => handler.ptr ≠ h.ptr).map fun _ => h
  | [], acc => by simp
  | x :: l, acc => by
    rw [List.foldl_cons, foldl_remove h l]
    by_cases hx : x.ptr = h.ptr <;> simp [hx]

theorem handlers_removeHandler (g : GenericController H Obj) (h : HandlerDef H) :
    (g.removeHandler h).handlers
      = (g.handlers.filter fun handler => handler.ptr ≠ h.ptr).map fun _ => h := by
  rw [removeHandler, foldl_remove, List.nil_append]

end Step

section Registry

/-- The handlers that still wait for their context are those added but the ones that are gone, by
address, whose contexts are cancelled. -/
structure Registry (g : GenericController H Obj) (o : List (Event H)) (gone : Finset ℕ) : Prop where
  watchers : g.watchers = (added o).filter fun w => w.2.ptr ∉ gone
  cancelled : ∀ w ∈ added o, w.2.ptr ∈ gone → w.1 ∈ g.cancelled
  old : ∀ w ∈ added o, w.2.ptr < g.nextPtr
  goneOld : ∀ ptr ∈ gone, ptr < g.nextPtr
  unique : ∀ w ∈ added o, ∀ w' ∈ added o, w.2.ptr = w'.2.ptr → w = w'

variable {gone : Finset ℕ} {w : Ctx × HandlerDef H}

theorem Registry.same (h : Registry g o gone) (hs : Same g g') : Registry g' o gone where
  watchers := hs.watchers.trans h.watchers
  cancelled w hw hg := hs.cancelled (h.cancelled w hw hg)
  old := hs.nextPtr ▸ h.old
  goneOld := hs.nextPtr ▸ h.goneOld
  unique := h.unique

theorem Registry.addHandler (h : Registry g o gone) (ctx : Ctx) (name : String) (handler : H) :
    Registry (g.AddHandler ctx name handler).1 (o ++ (g.AddHandler ctx name handler).2) gone := by
  set d : HandlerDef H := { ptr := g.nextPtr, name, generation := g.generation, handler } with hd
  have hadded : added (o ++ (g.AddHandler ctx name handler).2) = added o ++ [(ctx, d)] := by
    simp [added, AddHandler, hd]
  have hnew : d.ptr ∉ gone := fun hg => lt_irrefl _ (h.goneOld _ hg)
  have hne : ∀ w ∈ added o, w.2.ptr ≠ d.ptr := fun w hw heq => by
    have hlt := h.old w hw
    rw [heq] at hlt
    exact lt_irrefl _ hlt
  refine ⟨?_, fun w hw hg => ?_, fun w hw => ?_, fun ptr hp => ?_, fun w hw w' hw' heq => ?_⟩
  · rw [hadded, List.filter_append, ← h.watchers, List.filter_singleton, decide_eq_true hnew]
    rfl
  · rw [hadded, List.mem_append, List.mem_singleton] at hw
    rcases hw with hw | rfl
    · exact h.cancelled w hw hg
    · exact absurd hg hnew
  · rw [hadded, List.mem_append, List.mem_singleton] at hw
    rcases hw with hw | rfl
    · exact Nat.lt_succ_of_lt (h.old w hw)
    · exact Nat.lt_succ_self _
  · exact Nat.lt_succ_of_lt (h.goneOld ptr hp)
  · rw [hadded, List.mem_append, List.mem_singleton] at hw hw'
    rcases hw with hw | rfl <;> rcases hw' with hw' | rfl
    · exact h.unique w hw w' hw' heq
    · exact absurd heq (hne w hw)
    · exact absurd heq.symm (hne w' hw')
    · rfl

theorem Registry.removeHandler (h : Registry g o gone)
    (hw : w ∈ g.watchers) (hc : w.1 ∈ g.cancelled) :
    Registry (g.removeHandler w.2) o (insert w.2.ptr gone) := by
  have hadded : w ∈ added o := by
    rw [h.watchers] at hw
    exact (List.mem_filter.1 hw).1
  refine ⟨?_, fun v hv hg => ?_, h.old, fun ptr hp => ?_, h.unique⟩
  · rw [GenericController.removeHandler, h.watchers, List.filter_filter]
    refine List.filter_congr fun v _ => ?_
    simp [Finset.mem_insert, not_or]
  · rcases Finset.mem_insert.1 hg with hg | hg
    · rw [h.unique v hv w hadded hg]
      exact hc
    · exact h.cancelled v hv hg
  · rcases Finset.mem_insert.1 hp with rfl | hp
    · exact h.old w hadded
    · exact h.goneOld ptr hp

/-- The handlers are those that wait for their context. -/
def Good (g : GenericController H Obj) (o : List (Event H)) : Prop :=
  ∃ gone, Registry g o gone ∧ g.handlers = g.watchers.map Prod.snd

/-- A handler that is gone is still there. -/
def Bad (g : GenericController H Obj) (o : List (Event H)) : Prop :=
  ∃ gone, Registry g o gone ∧ ∃ h ∈ g.handlers, h.ptr ∈ gone

theorem Registry.bad (h : Registry g o gone) (hw : w ∈ g.watchers)
    (hc : w.1 ∈ g.cancelled) (hother : ∃ d ∈ g.handlers, d.ptr ≠ w.2.ptr) :
    Bad (g.removeHandler w.2) o := by
  obtain ⟨d, hd, hne⟩ := hother
  refine ⟨_, h.removeHandler hw hc, w.2, ?_, Finset.mem_insert_self _ _⟩
  rw [handlers_removeHandler]
  exact List.mem_map.2 ⟨d, List.mem_filter.2 ⟨hd, by simpa using hne⟩, rfl⟩

theorem Good.step (h : g.Good o) {a : Action H Obj} (hs : g.step a = some (g', o')) :
    (g.RemovesAlone a → g'.Good (o ++ o')) ∧ (¬ g.RemovesAlone a → g'.Bad (o ++ o')) := by
  obtain ⟨gone, hreg, hh⟩ := h
  obtain ⟨hsame, rfl, halone⟩ | ⟨ctx, name, handler, heq, halone⟩ | ⟨w, hw, hc, rfl, rfl, rfl⟩ :=
    step_cases hs
  · refine ⟨fun _ => ⟨gone, ?_, ?_⟩, fun hn => absurd halone hn⟩
    · rw [List.append_nil]
      exact hreg.same hsame
    · rw [hsame.handlers, hsame.watchers, hh]
  · obtain ⟨rfl, rfl⟩ := Prod.mk.inj heq
    refine ⟨fun _ => ⟨gone, hreg.addHandler ctx name handler, ?_⟩, fun hn => absurd halone hn⟩
    simp [hh]
  · rw [List.append_nil]
    refine ⟨fun halone => ⟨_, hreg.removeHandler hw hc, ?_⟩, fun hn => ?_⟩
    · have hnone : ∀ d ∈ g.handlers, ¬ d.ptr ≠ w.2.ptr := fun d hd hne => hne (halone d hd)
      have hnone' : ∀ v ∈ g.watchers, ¬ v.2.ptr ≠ w.2.ptr := fun v hv =>
        hnone v.2 (by rw [hh]; exact List.mem_map_of_mem hv)
      rw [handlers_removeHandler, List.filter_eq_nil_iff.2 (by simpa using hnone),
        GenericController.removeHandler, List.filter_eq_nil_iff.2 (by simpa using hnone')]
      rfl
    · simp only [RemovesAlone, not_forall] at hn
      obtain ⟨d, hd, hne⟩ := hn
      exact hreg.bad hw hc ⟨d, hd, hne⟩

theorem Bad.step (h : g.Bad o) {a : Action H Obj} (hs : g.step a = some (g', o')) :
    g'.Bad (o ++ o') := by
  obtain ⟨gone, hreg, d, hd, hg⟩ := h
  obtain ⟨hsame, rfl, -⟩ | ⟨ctx, name, handler, heq, -⟩ | ⟨w, hw, hc, -, rfl, rfl⟩ := step_cases hs
  · rw [List.append_nil]
    exact ⟨gone, hreg.same hsame, d, by rwa [hsame.handlers], hg⟩
  · obtain ⟨rfl, rfl⟩ := Prod.mk.inj heq
    exact ⟨gone, hreg.addHandler ctx name handler, d, List.mem_append_left _ hd, hg⟩
  · rw [List.append_nil]
    refine hreg.bad hw hc ⟨d, hd, fun heq => ?_⟩
    rw [hreg.watchers, List.mem_filter] at hw
    exact absurd (heq ▸ hg) (by simpa using hw.2)

theorem good_new : (NewGenericController H Obj).Good [] :=
  ⟨∅, ⟨by simp [NewGenericController, added], by simp [added], by simp [added], by simp,
    by simp [added]⟩, by simp [NewGenericController]⟩

/-- With nothing waiting to be removed, what is gone is what is cancelled. -/
theorem Registry.settled (h : Registry g o gone) (hs : g.Settled)
    (hw : w ∈ added o) : w.2.ptr ∈ gone ↔ w.1 ∈ g.cancelled := by
  refine ⟨h.cancelled w hw, fun hc => ?_⟩
  by_contra hg
  refine hs w ?_ hc
  rw [h.watchers]
  exact List.mem_filter.2 ⟨hw, by simpa using hg⟩

end Registry

section Run

/-- Once nothing waits to be removed, the handlers are those that were added and whose context is
not cancelled, in order, exactly if each handler that was removed was the only one then. -/
theorem handlers_exact_iff {as : List (Action H Obj)}
    (hrun : Run.exec step (NewGenericController H Obj) as = some (g, o)) (hs : g.Settled) :
    g.handlers = g.uncancelled o
      ↔ Run.Along step RemovesAlone (NewGenericController H Obj) as := by
  rcases Run.exec_split (P := RemovesAlone) Bad (fun _ _ _ _ _ h hs => h.step hs)
      (fun _ _ _ _ _ h hs => h.step hs) as good_new hrun with ⟨halong, hgood⟩ | ⟨halong, hbad⟩
  · refine iff_of_true ?_ halong
    obtain ⟨gone, hreg, hh⟩ := hgood
    rw [List.nil_append] at hreg
    rw [hh, hreg.watchers, uncancelled]
    refine congrArg _ (List.filter_congr fun w hw => ?_)
    rw [decide_eq_decide, hreg.settled hs hw]
  · refine iff_of_false (fun heq => ?_) halong
    obtain ⟨gone, hreg, d, hd, hg⟩ := hbad
    rw [List.nil_append] at hreg
    rw [heq, uncancelled] at hd
    obtain ⟨w, hw, rfl⟩ := List.mem_map.1 hd
    obtain ⟨hw, hc⟩ := List.mem_filter.1 hw
    exact absurd ((hreg.settled hs hw).1 hg) (by simpa using hc)

/-- A handler is added and removed again before the next one comes. -/
def oneByOne : List (Action Unit Unit) :=
  [.addHandler 0 "first" (), .cancel 0, .removeHandler 0, .addHandler 1 "second" ()]

theorem oneByOne_exact :
    ∃ g o, Run.exec step (NewGenericController Unit Unit) oneByOne = some (g, o) ∧ g.Settled
      ∧ g.handlers.map HandlerDef.name = ["second"] ∧ g.handlers = g.uncancelled o := by
  have hdone : (Run.exec step (NewGenericController Unit Unit) oneByOne).map
      (fun r => (r.1.handlers.map HandlerDef.name, decide (∀ w ∈ r.1.watchers, w.1 ∉ r.1.cancelled)))
      = some (["second"], true) := by
    decide +kernel
  obtain ⟨⟨g, o⟩, hrun, hg⟩ := Option.map_eq_some_iff.1 hdone
  simp only [Prod.mk.injEq, decide_eq_true_eq] at hg
  exact ⟨g, o, hrun, hg.2, hg.1, (handlers_exact_iff hrun hg.2).2 (by decide +kernel)⟩

/-- The context of the first of two handlers is cancelled. -/
def firstGoes : List (Action Unit Unit) :=
  [.addHandler 0 "first" (), .addHandler 1 "second" (), .cancel 0, .removeHandler 0]

/-- The second handler is gone, and the first is there. -/
theorem firstGoes_wrong :
    ∃ g o, Run.exec step (NewGenericController Unit Unit) firstGoes = some (g, o) ∧ g.Settled
      ∧ g.handlers.map HandlerDef.name = ["first"]
      ∧ (g.uncancelled o).map HandlerDef.name = ["second"] := by
  have hdone : (Run.exec step (NewGenericController Unit Unit) firstGoes).map
      (fun r => (r.1.handlers.map HandlerDef.name, (r.1.uncancelled r.2).map HandlerDef.name,
        decide (∀ w ∈ r.1.watchers, w.1 ∉ r.1.cancelled)))
      = some (["first"], ["second"], true) := by
    decide +kernel
  obtain ⟨⟨g, o⟩, hrun, hg⟩ := Option.map_eq_some_iff.1 hdone
  simp only [Prod.mk.injEq, decide_eq_true_eq] at hg
  exact ⟨g, o, hrun, hg.2.2, hg.1, hg.2.1⟩

end Run

end GenericController

end Norman.Controller
