import Mathlib.Data.Finset.Erase
import Mathlib.Data.Finset.Insert

/-!
# A work queue

A queue that hands an item to one worker at a time (`k8s.io/client-go/util/workqueue`). An item that
is added while it is being worked on waits in `dirty` until the work is done. In a queue in order
(`Ok`), what `get` hands out is being worked on by nobody, and this is kept as long as only what is
being worked on is reported done.
-/

/-- The items in line, those that need work, and those being worked on. -/
structure Workqueue (α : Type*) where
  queue : List α
  dirty : Finset α
  processing : Finset α
  shuttingDown : Bool

namespace Workqueue

variable {α : Type*}

/-- `New`. -/
def new : Workqueue α where
  queue := []
  dirty := ∅
  processing := ∅
  shuttingDown := false

section Operations

variable [DecidableEq α] (q : Workqueue α)

/-- `Add`. -/
def add (item : α) : Workqueue α :=
  if q.shuttingDown then q
  else if item ∈ q.dirty then q
  else if item ∈ q.processing then { q with dirty := insert item q.dirty }
  else { q with dirty := insert item q.dirty, queue := q.queue ++ [item] }

/-- `Get`, which waits while the queue is empty. -/
def get : Option (α × Workqueue α) :=
  match q.queue with
  | [] => none
  | item :: queue =>
    some (item, { q with
      queue
      processing := insert item q.processing
      dirty := q.dirty.erase item })

/-- `Done`. -/
def done (item : α) : Workqueue α :=
  { q with
    processing := q.processing.erase item
    queue := if item ∈ q.dirty then q.queue ++ [item] else q.queue }

end Operations

/-- `ShutDown`. -/
def shutDown (q : Workqueue α) : Workqueue α := { q with shuttingDown := true }

/-- What is in line needs work, is worked on by nobody, and is in line once. -/
structure Ok (q : Workqueue α) : Prop where
  dirty : ∀ x ∈ q.queue, x ∈ q.dirty
  free : ∀ x ∈ q.queue, x ∉ q.processing
  nodup : q.queue.Nodup

/-- What needs work is in line or is being worked on. -/
def Lined (q : Workqueue α) : Prop := ∀ x ∈ q.dirty, x ∈ q.queue ∨ x ∈ q.processing

variable {q q' : Workqueue α} {item x : α}

theorem ok_new : (new : Workqueue α).Ok := ⟨by simp [new], by simp [new], by simp [new]⟩

theorem Ok.shutDown (h : q.Ok) : q.shutDown.Ok := ⟨h.dirty, h.free, h.nodup⟩

variable [DecidableEq α]

@[simp] theorem processing_add : (q.add item).processing = q.processing := by
  unfold add
  split_ifs <;> rfl

theorem mem_dirty_add (h : x ∈ (q.add item).dirty) : x = item ∨ x ∈ q.dirty := by
  unfold add at h
  split_ifs at h
  · exact .inr h
  · exact .inr h
  · exact Finset.mem_insert.1 h
  · exact Finset.mem_insert.1 h

theorem dirty_subset_add (q : Workqueue α) (item : α) : q.dirty ⊆ (q.add item).dirty := by
  unfold add
  split_ifs
  · exact Finset.Subset.refl _
  · exact Finset.Subset.refl _
  · exact Finset.subset_insert _ _
  · exact Finset.subset_insert _ _

theorem mem_dirty_add_self (h : q.shuttingDown = false) : item ∈ (q.add item).dirty := by
  unfold add
  split_ifs with h1 h2
  · simp [h] at h1
  · exact h2
  · exact Finset.mem_insert_self _ _
  · exact Finset.mem_insert_self _ _

@[simp] theorem shuttingDown_add : (q.add item).shuttingDown = q.shuttingDown := by
  unfold add
  split_ifs <;> rfl

theorem Lined.add (h : q.Lined) (item : α) : (q.add item).Lined := by
  unfold Workqueue.add
  split_ifs with h1 h2 h3
  · exact h
  · exact h
  · intro x hx
    rcases Finset.mem_insert.1 hx with rfl | hx
    · exact .inr h3
    · exact h x hx
  · intro x hx
    rw [List.mem_append, List.mem_singleton]
    rcases Finset.mem_insert.1 hx with rfl | hx
    · exact .inl (.inr rfl)
    · exact (h x hx).imp_left .inl

/-- Items that are added one after another all need work afterwards. -/
theorem foldl_add_spec {β : Type*} (f : β → α) : ∀ (l : List β) {q : Workqueue α},
    q.Lined → q.shuttingDown = false → ∃ q' : Workqueue α,
      l.foldl (fun q b => q.add (f b)) q = q' ∧ q'.Lined ∧ q'.shuttingDown = false
        ∧ q.dirty ⊆ q'.dirty ∧ ∀ b ∈ l, f b ∈ q'.dirty
  | [], q, hlined, hopen => ⟨q, rfl, hlined, hopen, Finset.Subset.refl _, by simp⟩
  | b :: l, q, hlined, hopen => by
    obtain ⟨q', heq, hlined', hopen', hsub, hmem⟩ := foldl_add_spec f l (hlined.add (f b))
      (shuttingDown_add.trans hopen)
    refine ⟨q', heq, hlined', hopen', (dirty_subset_add q (f b)).trans hsub, fun c hc => ?_⟩
    rcases List.mem_cons.1 hc with rfl | hc
    · exact hsub (mem_dirty_add_self hopen)
    · exact hmem c hc

theorem Ok.add (h : q.Ok) (item : α) : (q.add item).Ok := by
  unfold Workqueue.add
  split_ifs with h1 h2 h3
  · exact h
  · exact h
  · exact ⟨fun x hx => Finset.mem_insert_of_mem (h.dirty x hx), h.free, h.nodup⟩
  · have hnew : item ∉ q.queue := fun hq => h2 (h.dirty item hq)
    refine ⟨fun x hx => ?_, fun x hx => ?_, ?_⟩
    · rcases List.mem_append.1 hx with hx | hx
      · exact Finset.mem_insert_of_mem (h.dirty x hx)
      · rw [List.mem_singleton.1 hx]
        exact Finset.mem_insert_self _ _
    · rcases List.mem_append.1 hx with hx | hx
      · exact h.free x hx
      · rw [List.mem_singleton.1 hx]
        exact h3
    · exact List.nodup_append.2 ⟨h.nodup, by simp, fun a ha b hb hab => by
        rw [List.mem_singleton.1 hb] at hab
        exact hnew (hab ▸ ha)⟩

theorem get_eq_some (h : q.get = some (item, q')) : ∃ queue, q.queue = item :: queue
    ∧ q' = { q with
        queue
        processing := insert item q.processing
        dirty := q.dirty.erase item } := by
  unfold Workqueue.get at h
  split at h
  · cases h
  · rename_i x queue hqueue
    simp only [Option.some.injEq, Prod.mk.injEq] at h
    obtain ⟨rfl, rfl⟩ := h
    exact ⟨queue, hqueue, rfl⟩

/-- What is handed out is from `dirty`, and is being worked on from then on. -/
theorem get_spec (hq : q.Ok) (h : q.get = some (item, q')) :
    item ∈ q.dirty ∧ item ∉ q.processing ∧ q'.processing = insert item q.processing
      ∧ q'.dirty = q.dirty.erase item ∧ q'.Ok := by
  obtain ⟨queue, hqueue, rfl⟩ := get_eq_some h
  have hitem : item ∈ q.queue := by simp [hqueue]
  have hnd := hq.nodup
  rw [hqueue, List.nodup_cons] at hnd
  have hne : ∀ y ∈ queue, y ≠ item := fun y hy hyx => hnd.1 (hyx ▸ hy)
  have hmem : ∀ y ∈ queue, y ∈ q.queue := fun y hy => by simp [hqueue, hy]
  refine ⟨hq.dirty item hitem, hq.free item hitem, rfl, rfl, fun y hy => ?_, fun y hy => ?_, hnd.2⟩
  · exact Finset.mem_erase.2 ⟨hne y hy, hq.dirty y (hmem y hy)⟩
  · rw [Finset.mem_insert, not_or]
    exact ⟨hne y hy, hq.free y (hmem y hy)⟩

theorem Lined.get (hq : q.Lined) (h : q.get = some (item, q')) :
    q'.Lined ∧ q'.shuttingDown = q.shuttingDown := by
  obtain ⟨queue, hqueue, rfl⟩ := get_eq_some h
  refine ⟨fun y hy => ?_, rfl⟩
  have hyx := Finset.mem_erase.1 hy
  rcases hq y hyx.2 with hy' | hy'
  · rw [hqueue, List.mem_cons] at hy'
    exact .inl (hy'.resolve_left hyx.1)
  · exact .inr (Finset.mem_insert_of_mem hy')

@[simp] theorem processing_done : (q.done item).processing = q.processing.erase item := rfl

@[simp] theorem dirty_done : (q.done item).dirty = q.dirty := rfl

theorem Lined.done (h : q.Lined) (item : α) : (q.done item).Lined := by
  intro x hx
  rw [dirty_done] at hx
  by_cases hxi : x = item
  · subst hxi
    simp [Workqueue.done, hx]
  · rcases h x hx with hx' | hx'
    · left
      simp only [Workqueue.done]
      split_ifs
      · exact List.mem_append_left _ hx'
      · exact hx'
    · exact .inr (Finset.mem_erase.2 ⟨hxi, hx'⟩)

theorem Ok.done (h : q.Ok) (hitem : item ∈ q.processing) : (q.done item).Ok := by
  have hnew : item ∉ q.queue := fun hq => h.free item hq hitem
  have hfree : ∀ x ∈ q.queue, x ∉ q.processing.erase item := fun x hx hp =>
    h.free x hx (Finset.mem_of_mem_erase hp)
  by_cases hd : item ∈ q.dirty
  · simp only [Workqueue.done, if_pos hd]
    refine ⟨fun x hx => ?_, fun x hx => ?_, ?_⟩
    · rcases List.mem_append.1 hx with hx | hx
      · exact h.dirty x hx
      · rw [List.mem_singleton.1 hx]
        exact hd
    · rcases List.mem_append.1 hx with hx | hx
      · exact hfree x hx
      · rw [List.mem_singleton.1 hx]
        exact Finset.notMem_erase _ _
    · exact List.nodup_append.2 ⟨h.nodup, by simp, fun a ha b hb hab => by
        rw [List.mem_singleton.1 hb] at hab
        exact hnew (hab ▸ ha)⟩
  · simp only [Workqueue.done, if_neg hd]
    exact ⟨h.dirty, hfree, h.nodup⟩

end Workqueue
