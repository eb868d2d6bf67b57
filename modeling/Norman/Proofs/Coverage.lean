import Norman.Proofs.Exclusion

/-!
# Every handler sees every object

What is in the queue when the controller starts for the first time is for all handlers, and a later
`Start` queues what is in the store for the handlers that were added since the last one. A handler
that was there for a `Start` therefore has seen an object since the object's last event, or is about
to (`Pending`): the object is in the queue under an item that is for the handler, waits to be tried
again, or is at a worker that has not got to the handler yet. Once nothing is left to do, it has
seen all of them, but for those whose last event the controller was not notified of yet: the
informer changes its store first and hands the notice over later, and it may count as synced in
between.
-/

namespace Norman.Controller

variable {H Obj : Type}

/-- An item makes a worker call a handler for a key. -/
def Item.For (item : Item) (h : HandlerDef H) (key : String) : Prop :=
  item.objectKey = key ∧ ¬ (-1 < item.generation ∧ h.generation ≠ item.generation)

/-- A worker is going to call a handler for a key, or to have the key tried again. -/
def Worker.Owes (h : HandlerDef H) (key : String) : Worker H Obj → Prop
  | .got item => item.For h key
  | .syncing item handlers _ _ => item.For h key ∧ h ∈ handlers
  | .returned item err => item.objectKey = key ∧ forgets err = false
  | .idle | .finishing _ => False

namespace GenericController

section Moves

/-- A controller, and the notices of its informer that are on their way to it. -/
structure Informed (H Obj : Type) where
  controller : GenericController H Obj
  notices : List Notice

/-- What happens to a controller none of whose contexts is cancelled. With an event of the informer
an object is added or updated in its store, or deleted if there is none, and a notice of it goes on
its way; `notify` hands over the first of these. -/
inductive Move (H Obj : Type) where
  | setThreadinessOverride (count : Int)
  | enqueue (ns name : String)
  | addHandler (ctx : Ctx) (name : String) (handler : H)
  | lock (call : Call)
  | unlock (hasSynced : Bool) (keys : List String)
  | event (notice : Notice) (obj : Option Obj)
  | notify
  | work (i : ℕ) (outcome : Outcome Obj)
  | ready (i : ℕ)

variable (g : GenericController H Obj)

/-- The informer's store after an event. -/
def stored (notice : Notice) (obj : Option Obj) : SortedMap String Obj :=
  match notice.key, obj with
  | some key, some obj => g.store.set key obj
  | some key, none => g.store.erase key
  | none, _ => g.store

/-- The steps of the controller: with an event the store changes, and with a notice `queueObject` is
called. -/
def actions (notices : List Notice) : Move H Obj → List (Action H Obj)
  | .setThreadinessOverride count => [.setThreadinessOverride count]
  | .enqueue ns name => [.enqueue ns name]
  | .addHandler ctx name handler => [.addHandler ctx name handler]
  | .lock call => [.lock call]
  | .unlock hasSynced keys => [.unlock hasSynced keys]
  | .event notice obj => [.store (g.stored notice obj)]
  | .notify => notices.head?.toList.map .notify
  | .work i outcome => [.work i outcome]
  | .ready i => [.ready i]

/-- What is seen of a run: `AddHandler` is called, `Start` completes, the informer has an event for
a key, and a handler is invoked for a key. -/
inductive Seen where
  | added (ptr : ℕ)
  | started
  | event (key : String)
  | invoked (ptr : ℕ) (key : String)
  deriving DecidableEq

/-- What is seen of a move. -/
def sees : Move H Obj → List Seen
  | .addHandler _ _ _ => [.added g.nextPtr]
  | .unlock hasSynced _ =>
    match g.holder with
    | some (.start _ _) => if ¬ g.synced ∧ ¬ hasSynced then [] else [.started]
    | _ => []
  | .event notice _ => notice.key.toList.map .event
  | .work i _ =>
    match g.workers[i]? with
    | some (.syncing item (h :: _) _ _) =>
      if -1 < item.generation ∧ h.generation ≠ item.generation then []
      else [.invoked h.ptr item.objectKey]
    | _ => []
  | _ => []

/-- What is on its way after a move. -/
def onTheWay (notices : List Notice) : Move H Obj → List Notice
  | .event notice _ => notices ++ [notice]
  | .notify => notices.tail
  | _ => notices

def Informed.move (s : Informed H Obj) (m : Move H Obj) : Option (Informed H Obj × List Seen) :=
  (Run.exec step s.controller (s.controller.actions s.notices m)).map fun r =>
    (⟨r.1, onTheWay s.notices m⟩, s.controller.sees m)

/-- The keys in the store of whose last event the controller was notified. -/
def told (notices : List Notice) : List String :=
  g.store.keys.filter fun key => some key ∉ notices.map Notice.key

/-- Nothing is in the queue, waits to be tried again or is being worked on. -/
structure Quiet : Prop where
  queue : g.queue.queue = []
  waiting : g.waiting = []
  processing : g.queue.processing = ∅

/-- A handler was last invoked for a key after the last event of the key. -/
def UpToDate (seen : List Seen) (ptr : ℕ) (key : String) : Prop :=
  ∃ before after, seen = before ++ .invoked ptr key :: after
    ∧ .invoked ptr key ∉ after ∧ .event key ∉ after

end Moves

variable {g g' : GenericController H Obj} {notices notices' : List Notice} {seen : List Seen}
  {ptr : ℕ} {key : String}

section Seen

theorem upToDate_invoked (seen : List Seen) (ptr : ℕ) (key : String) :
    UpToDate (seen ++ [.invoked ptr key]) ptr key :=
  ⟨seen, [], by simp⟩

/-- A handler stays up to date unless the key has an event. -/
theorem UpToDate.append (h : UpToDate seen ptr key) {o : List Seen} (ho : o.length ≤ 1)
    (hevent : .event key ∉ o) : UpToDate (seen ++ o) ptr key := by
  by_cases hinvoked : .invoked ptr key ∈ o
  · have hone : o = [.invoked ptr key] := by
      rcases o with _ | ⟨x, _ | ⟨y, l⟩⟩
      · simp at hinvoked
      · rw [List.mem_singleton.1 hinvoked]
      · simp at ho
    rw [hone]
    exact upToDate_invoked seen ptr key
  · obtain ⟨before, after, rfl, h1, h2⟩ := h
    refine ⟨before, after ++ o, by simp, ?_, ?_⟩
    · rw [List.mem_append, not_or]
      exact ⟨h1, hinvoked⟩
    · rw [List.mem_append, not_or]
      exact ⟨h2, hevent⟩

/-- `Start` completed after `AddHandler`, in a history that goes on. -/
theorem started_append {o : List Seen} (h : [.added ptr, .started].Sublist (seen ++ o))
    (ho : o.length ≤ 1) :
    [.added ptr, .started].Sublist seen ∨ (.added ptr ∈ seen ∧ o = [.started]) := by
  obtain ⟨l, l', hl, h1, h2⟩ := List.sublist_append_iff.1 h
  rcases l with _ | ⟨x, _ | ⟨y, l⟩⟩
  · have := h2.length_le
    simp only [List.nil_append] at hl
    rw [← hl] at this
    simp only [List.length_cons, List.length_nil] at this
    omega
  · simp only [List.cons_append, List.nil_append, List.cons.injEq] at hl
    obtain ⟨rfl, rfl⟩ := hl
    refine .inr ⟨List.singleton_sublist.1 h1, ?_⟩
    exact (h2.eq_of_length_le (by simpa using ho)).symm
  · simp only [List.cons_append, List.cons.injEq] at hl
    obtain ⟨rfl, rfl, hl⟩ := hl
    obtain ⟨rfl, -⟩ := List.append_eq_nil_iff.1 hl.symm
    exact .inl h1

end Seen

section Pending

variable {d : HandlerDef H} {item : Item} {i : ℕ} {w w' : Worker H Obj} {outcome : Outcome Obj}

/-- An item is in the queue or waits to be tried again. -/
def Due (g : GenericController H Obj) (item : Item) : Prop :=
  item ∈ g.queue.dirty ∨ item ∈ g.waiting

/-- A handler is about to be called for a key. -/
def Pending (g : GenericController H Obj) (h : HandlerDef H) (key : String) : Prop :=
  (∃ item : Item, g.Due item ∧ item.For h key)
    ∨ ∃ (i : ℕ) (w : Worker H Obj), g.workers[i]? = some w ∧ w.Owes h key

theorem for_key (d : HandlerDef H) (key : String) : (Item.key key).For d key :=
  ⟨rfl, fun h => by simp [Item.generation] at h⟩

theorem pending_of_key (h : g.Due (.key key)) (d : HandlerDef H) : g.Pending d key :=
  .inl ⟨_, h, for_key d key⟩

theorem Pending.mono (h : g.Pending d key) (hdue : ∀ item, g.Due item → g'.Due item)
    (hworkers : g'.workers = g.workers) : g'.Pending d key := by
  rcases h with ⟨item, hitem, hfor⟩ | ⟨i, w, hi, hw⟩
  · exact .inl ⟨item, hdue item hitem, hfor⟩
  · exact .inr ⟨i, w, by rw [hworkers, hi], hw⟩

/-- With nothing left to do, nothing is about to happen. -/
theorem Quiet.not_pending (h : g.Quiet) (hheld : Held g.queue g.workers)
    (hlined : g.queue.Lined) : ¬ g.Pending d key := by
  rintro (⟨item, hdirty | hwaiting, -⟩ | ⟨i, w, hi, hw⟩)
  · rcases hlined item hdirty with hq | hp
    · simp [h.queue] at hq
    · simp [h.processing] at hp
  · simp [h.waiting] at hwaiting
  · have hitem : w.item = none := by
      rcases hit : w.item with _ | item
      · rfl
      · have := hheld.held hi hit
        simp [h.processing] at this
    cases w with
    | idle => exact hw
    | got _ | syncing _ _ _ _ | returned _ _ | finishing _ => cases hitem

/-- An item stays due until a worker takes it. -/
theorem Due.work (h : g.Due item) (hok : g.queue.Ok) (hw : Works g outcome w g' w') :
    g'.Due item ∨ w' = .got item := by
  cases hw with
  | takes hget =>
    obtain ⟨-, -, -, hdirty, -⟩ := Workqueue.get_spec hok hget
    rename_i item' q
    by_cases heq : item = item'
    · exact .inr (by rw [heq])
    · refine .inl (h.imp_left fun hd => ?_)
      rw [hdirty]
      exact Finset.mem_erase.2 ⟨heq, hd⟩
  | retries item' err => exact .inl (h.imp_right fun hw => List.mem_append_left _ hw)
  | enters _ | calls _ _ _ _ _ | leaves _ _ _ | forgets _ | finishes _ => exact .inl h

/-- What a worker owes it still owes when it goes on, unless it calls the handler now. -/
theorem owes_work (hopen : g.queue.shuttingDown = false) (hd : d ∈ g.handlers)
    (hw : Works g outcome w g' w') (h : w.Owes d key) :
    w'.Owes d key ∨ g'.Due (.key key)
      ∨ ∃ item handlers obj errs, w = .syncing item (d :: handlers) obj errs ∧ item.For d key := by
  cases hw with
  | takes _ => exact h.elim
  | enters item => exact .inl ⟨h, hd⟩
  | calls item d' handlers obj errs =>
    obtain ⟨hfor, hmem⟩ := h
    rcases List.mem_cons.1 hmem with rfl | hmem
    · exact .inr (.inr ⟨item, handlers, obj, errs, rfl, hfor⟩)
    · left
      unfold callHandler
      split_ifs
      · exact ⟨hfor, hmem⟩
      · split
        · exact ⟨hfor.1, rfl⟩
        · exact ⟨hfor, hmem⟩
        · exact ⟨hfor, hmem⟩
        · exact ⟨hfor, hmem⟩
  | leaves item obj errs => exact absurd h.2 (by simp)
  | forgets hf => simp [h.2, hopen] at hf
  | retries item err =>
    right; left; right
    rw [h.1]
    exact List.mem_append_right _ (List.mem_singleton_self _)
  | finishes _ => exact h.elim

/-- A handler that is about to be called still is when a worker goes on, or is called now. -/
theorem Pending.work (h : g.Pending d key) (hok : g.queue.Ok)
    (hopen : g.queue.shuttingDown = false) (hd : d ∈ g.handlers) (hi : g.workers[i]? = some w)
    (hw : Works g outcome w g' w') :
    Pending { g' with workers := g'.workers.set i w' } d key
      ∨ g.sees (.work i outcome) = [.invoked d.ptr key] := by
  have hworkers : g'.workers = g.workers := by cases hw <;> rfl
  have hlt : i < g.workers.length := (List.getElem?_eq_some_iff.1 hi).1
  have hnext : ∀ {v : Worker H Obj}, (g'.workers.set i v)[i]? = some v := fun {v} => by
    rw [hworkers, List.getElem?_set_self hlt]
  rcases h with ⟨item, hitem, hfor⟩ | ⟨j, v, hj, hv⟩
  · rcases hitem.work hok hw with hdue | rfl
    · exact .inl (.inl ⟨item, hdue, hfor⟩)
    · exact .inl (.inr ⟨i, .got item, hnext, hfor⟩)
  · by_cases hji : j = i
    · subst hji
      obtain rfl : w = v := Option.some.inj (hi.symm.trans hj)
      rcases owes_work hopen hd hw hv with how | hdue | ⟨item, handlers, obj, errs, rfl, hfor⟩
      · exact .inl (.inr ⟨j, w', hnext, how⟩)
      · exact .inl (.inl ⟨_, hdue, for_key d key⟩)
      · right
        simp only [sees, hi, if_neg hfor.2, hfor.1]
    · refine .inl (.inr ⟨j, v, ?_, hv⟩)
      rw [hworkers, List.getElem?_set_ne (Ne.symm hji), hj]

end Pending

section Covers

variable {o : List Seen}

/-- Every handler that was there for a `Start` has seen every object since its last event, or is
about to, if the controller was notified of the event; before the first `Start`, everything it was
notified of is in the queue. -/
structure Covers (g : GenericController H Obj) (notices : List Notice) (seen : List Seen) : Prop
    extends Held g.queue g.workers where
  lined : g.queue.Lined
  opened : g.queue.shuttingDown = false
  known : ∀ {ptr}, .added ptr ∈ seen → ∃ h ∈ g.handlers, h.ptr = ptr
  started : ∀ {ptr}, [.added ptr, .started].Sublist seen →
    ∃ h ∈ g.handlers, h.ptr = ptr ∧ h.generation < g.generation
  generation : ∀ h ∈ g.handlers, h.generation ≤ g.generation
  resting : g.running = false → g.workers = []
  before : g.running = false → ∀ key ∈ g.told notices, .key key ∈ g.queue.dirty
  covers : ∀ h ∈ g.handlers, h.generation < g.generation → ∀ key ∈ g.told notices,
    UpToDate seen h.ptr key ∨ g.Pending h key

theorem covers_new : Covers (NewGenericController H Obj) [] [] where
  ok := Workqueue.ok_new
  held := by simp [NewGenericController]
  once := by simp [NewGenericController]
  lined := by simp [NewGenericController, Workqueue.new, Workqueue.Lined]
  opened := rfl
  known := by simp
  started := by simp
  generation := by simp [NewGenericController]
  resting := by simp [NewGenericController]
  before := by simp [NewGenericController, told, SortedMap.mem_keys]
  covers := by simp [NewGenericController]

/-- What is seen of a move that neither adds a handler nor starts the controller. -/
def Plain (o : List Seen) : Prop :=
  o = [] ∨ (∃ key, o = [.event key]) ∨ ∃ ptr key, o = [.invoked ptr key]

/-- A move that leaves the handlers alone keeps the invariant if it keeps what the handlers have
seen or are about to see. -/
theorem Covers.keep (h : Covers g notices seen) (ho : Plain o) (hhandlers : g'.handlers = g.handlers)
    (hgeneration : g'.generation = g.generation) (hheld : Held g'.queue g'.workers)
    (hlined : g'.queue.Lined) (hopened : g'.queue.shuttingDown = false)
    (hresting : g'.running = false → g'.workers = [])
    (hbefore : g'.running = false → ∀ key ∈ g'.told notices', .key key ∈ g'.queue.dirty)
    (hcovers : ∀ d ∈ g.handlers, d.generation < g.generation → ∀ key ∈ g'.told notices',
      UpToDate (seen ++ o) d.ptr key ∨ g'.Pending d key) : Covers g' notices' (seen ++ o) where
  toHeld := hheld
  lined := hlined
  opened := hopened
  known hadded := by
    rw [hhandlers]
    refine h.known ((List.mem_append.1 hadded).resolve_right ?_)
    rcases ho with rfl | ⟨_, rfl⟩ | ⟨_, _, rfl⟩ <;> simp
  started hstarted := by
    rw [hhandlers, hgeneration]
    rcases started_append hstarted (by rcases ho with rfl | ⟨_, rfl⟩ | ⟨_, _, rfl⟩ <;> simp) with
      hs | ⟨-, hs⟩
    · exact h.started hs
    · rcases ho with rfl | ⟨_, rfl⟩ | ⟨_, _, rfl⟩ <;> simp at hs
  generation := by
    rw [hhandlers, hgeneration]
    exact h.generation
  resting := hresting
  before := hbefore
  covers := by
    rw [hhandlers, hgeneration]
    exact hcovers

/-- An item is added to the queue, perhaps one that waited. -/
theorem Covers.add (h : Covers g notices seen) (item : Item) {waiting : List Item}
    (hwaiting : ∀ x ∈ g.waiting, x = item ∨ x ∈ waiting) :
    Covers { g with queue := g.queue.add item, waiting := waiting } notices (seen ++ []) := by
  have hsub := Workqueue.dirty_subset_add g.queue item
  refine h.keep (.inl rfl) rfl rfl (h.toHeld.add item) (h.lined.add item) ?_ h.resting ?_ ?_
  · rw [Workqueue.shuttingDown_add]
    exact h.opened
  · exact fun hr key hkey => hsub (h.before hr key hkey)
  · rw [List.append_nil]
    refine fun d hd hgen key hkey => (h.covers d hd hgen key hkey).imp_right fun hp =>
      hp.mono (fun x hx => ?_) rfl
    rcases hx with hx | hx
    · exact .inl (hsub hx)
    · rcases hwaiting x hx with rfl | hx
      · exact .inl (Workqueue.mem_dirty_add_self h.opened)
      · exact .inr hx

theorem keys_stored {notice : Notice} {obj : Option Obj} (h : key ∈ (g.stored notice obj).keys) :
    notice.key = some key ∨ key ∈ g.store.keys := by
  unfold stored at h
  split at h
  · rename_i k obj hk
    rw [hk, Option.some.injEq]
    rw [SortedMap.mem_keys] at h ⊢
    rw [SortedMap.get_set] at h
    split_ifs at h with heq
    · exact .inl heq.symm
    · exact .inr h
  · rw [SortedMap.mem_keys] at h ⊢
    rw [SortedMap.get_erase] at h
    split_ifs at h
    · simp at h
    · exact .inr h
  · exact .inr h

/-- An event is seen by no handler until the controller is notified of it. -/
theorem Covers.event (h : Covers g notices seen) (notice : Notice) (obj : Option Obj) :
    Covers { g with store := g.stored notice obj } (notices ++ [notice])
      (seen ++ g.sees (.event notice obj)) := by
  have htold : ∀ {key}, key ∈ told { g with store := g.stored notice obj } (notices ++ [notice]) →
      key ∈ g.told notices ∧ notice.key ≠ some key := by
    intro key hkey
    simp only [told, List.mem_filter, decide_eq_true_eq, List.map_append, List.mem_append, not_or,
      List.map_cons, List.map_nil, List.mem_singleton] at hkey ⊢
    obtain ⟨hkey, hold, hnew⟩ := hkey
    exact ⟨⟨(keys_stored hkey).resolve_left fun heq => hnew heq.symm, hold⟩, fun heq => hnew heq.symm⟩
  have hplain : Plain (g.sees (.event notice obj)) := by
    rcases hk : notice.key with _ | k
    · exact .inl (by simp [sees, hk])
    · exact .inr (.inl ⟨k, by simp [sees, hk]⟩)
  refine h.keep hplain rfl rfl h.toHeld h.lined h.opened h.resting
    (fun hr key hkey => h.before hr key (htold hkey).1) (fun d hd hgen key hkey => ?_)
  obtain ⟨hold, hne⟩ := htold hkey
  refine (h.covers d hd hgen key hold).imp_left fun hu => hu.append ?_ ?_
  · rcases hplain with ho | ⟨_, ho⟩ | ⟨_, _, ho⟩ <;> simp [ho]
  · simpa [sees] using hne

/-- A notice need not be on its way any more once its key is in the queue. -/
theorem Covers.arrive {notice : Notice} (h : Covers g (notice :: notices) seen)
    (hq : ∀ k, notice.key = some k → .key k ∈ g.queue.dirty) : Covers g notices seen := by
  have htold : ∀ {key}, key ∈ g.told notices →
      notice.key = some key ∨ key ∈ g.told (notice :: notices) := by
    intro key hkey
    by_cases heq : notice.key = some key
    · exact .inl heq
    · simp only [told, List.mem_filter, decide_eq_true_eq, List.map_cons, List.mem_cons,
        not_or] at hkey ⊢
      exact .inr ⟨hkey.1, Ne.symm heq, hkey.2⟩
  refine { h with before := fun hr key hkey => ?_, covers := fun d hd hgen key hkey => ?_ }
  · rcases htold hkey with heq | hkey
    · exact hq key heq
    · exact h.before hr key hkey
  · rcases htold hkey with heq | hkey
    · exact .inr (pending_of_key (.inl (hq key heq)) d)
    · exact h.covers d hd hgen key hkey

/-- A notice puts its key into the queue, and so it is about to be seen by all handlers. -/
theorem Covers.notify {notice : Notice} (h : Covers g (notice :: notices) seen) :
    Covers (g.queueObject notice) notices (seen ++ []) := by
  unfold queueObject
  split
  · rename_i k hk
    refine (h.add (.key k) fun x hx => .inr hx).arrive fun k' hk' => ?_
    rw [← Option.some.inj (hk.symm.trans hk')]
    exact Workqueue.mem_dirty_add_self h.opened
  · rename_i hk
    rw [List.append_nil]
    exact h.arrive fun k hk' => by simp [hk] at hk'

theorem Covers.addHandler (h : Covers g notices seen) (ctx : Ctx) (name : String) (handler : H) :
    Covers (g.AddHandler ctx name handler).1 notices (seen ++ [.added g.nextPtr]) where
  toHeld := h.toHeld
  lined := h.lined
  opened := h.opened
  known hadded := by
    simp only [AddHandler, List.mem_append, List.mem_singleton, exists_or, or_and_right]
    rcases List.mem_append.1 hadded with hadded | hadded
    · exact .inl (h.known hadded)
    · simp only [List.mem_singleton, Seen.added.injEq] at hadded
      exact .inr ⟨_, rfl, hadded.symm⟩
  started hstarted := by
    rcases started_append hstarted (by simp) with hs | ⟨-, hs⟩
    · obtain ⟨d, hd, hptr, hgen⟩ := h.started hs
      exact ⟨d, List.mem_append_left _ hd, hptr, hgen⟩
    · simp at hs
  generation d hd := by
    rcases List.mem_append.1 hd with hd | hd
    · exact h.generation d hd
    · rw [List.mem_singleton.1 hd]
      exact le_refl _
  resting := h.resting
  before := h.before
  covers d hd hgen key hkey := by
    rcases List.mem_append.1 hd with hd | hd
    · exact (h.covers d hd hgen key hkey).imp_left fun hu => hu.append (by simp) (by simp)
    · -- the new handler was there for no `Start` yet
      rw [List.mem_singleton.1 hd] at hgen
      exact absurd hgen (lt_irrefl _)

theorem sees_work (g : GenericController H Obj) (i : ℕ) (outcome : Outcome Obj) :
    g.sees (.work i outcome) = [] ∨ ∃ ptr key, g.sees (.work i outcome) = [.invoked ptr key] := by
  simp only [sees]
  split
  · split_ifs
    · exact .inl rfl
    · exact .inr ⟨_, _, rfl⟩
  · exact .inl rfl

theorem Covers.work (h : Covers g notices seen) {i : ℕ} {w w' : Worker H Obj} {outcome : Outcome Obj}
    (hi : g.workers[i]? = some w) (hw : Works g outcome w g' w') :
    Covers { g' with workers := g'.workers.set i w' } notices
      (seen ++ g.sees (.work i outcome)) := by
  have hrunning : g.running = true := by
    rcases hr : g.running with _ | _
    · simp [h.resting hr] at hi
    · rfl
  have hrunning' : g'.running = true := by cases hw <;> exact hrunning
  have hstore : g'.store = g.store := by cases hw <;> rfl
  have hlined : g'.queue.Lined ∧ g'.queue.shuttingDown = false := by
    cases hw with
    | takes hget => exact ⟨(h.lined.get hget).1, (h.lined.get hget).2.trans h.opened⟩
    | finishes item => exact ⟨h.lined.done item, h.opened⟩
    | enters _ | calls _ _ _ _ _ | leaves _ _ _ | forgets _ | retries _ _ =>
      exact ⟨h.lined, h.opened⟩
  have hseen := sees_work g i outcome
  refine h.keep (hseen.imp_right .inr) (by cases hw <;> rfl) (by cases hw <;> rfl)
    (h.toHeld.work hi hw) hlined.1 hlined.2 (by simp [hrunning']) (by simp [hrunning']) ?_
  intro d hd hgen key hkey
  replace hkey : key ∈ g.told notices := by rwa [told, ← hstore]
  rcases h.covers d hd hgen key hkey with hu | hp
  · left
    rcases hseen with ho | ⟨ptr, k, ho⟩ <;> rw [ho]
    · exact hu.append (by simp) (by simp)
    · exact hu.append (by simp) (by simp)
  · rcases hp.work h.ok h.opened hd hi hw with hp' | hinvoked
    · exact .inr hp'
    · rw [hinvoked]
      exact .inl (upToDate_invoked _ _ _)

/-- The first `Start` finds everything in the queue for all handlers, a later one queues it for
those that were added since. -/
theorem Covers.Start (h : Covers g notices seen) (ctx : Ctx) (threadiness : Int) {keys : List String}
    (hkeys : keys.Perm g.store.keys) :
    Covers (g.Start ctx threadiness keys) notices (seen ++ [.started]) := by
  obtain ⟨q, hq, hlined, hopened, hsub, hdirty⟩ :=
    Workqueue.foldl_add_spec (.generationKey g.generation) keys h.lined h.opened
  have hqueue : (g.Start ctx threadiness keys).queue =
      if g.running ∧ ∃ d ∈ g.handlers, d.generation = g.generation then q else g.queue := by
    simp only [GenericController.Start, hq]
  have hgrows : g.queue.dirty ⊆ (g.Start ctx threadiness keys).queue.dirty := by
    rw [hqueue]
    split_ifs
    · exact hsub
    · exact Finset.Subset.refl _
  refine ⟨h.toHeld.Start ctx threadiness keys, ?_, ?_, ?_, ?_, ?_, ?_, ?_, ?_⟩
  · rw [hqueue]
    split_ifs
    · exact hlined
    · exact h.lined
  · rw [hqueue]
    split_ifs
    · exact hopened
    · exact h.opened
  · exact fun hadded => h.known (by simpa using hadded)
  · intro ptr hstarted
    have hadded : .added ptr ∈ seen := by
      rcases started_append hstarted (by simp) with hs | ⟨ha, -⟩
      · exact hs.subset (by simp)
      · exact ha
    obtain ⟨d, hd, hptr⟩ := h.known hadded
    exact ⟨d, hd, hptr, Int.lt_add_one_of_le (h.generation d hd)⟩
  · exact fun d hd => (h.generation d hd).trans (Int.le_add_one (le_refl _))
  · intro hr
    simp [GenericController.Start] at hr
  · intro hr
    simp [GenericController.Start] at hr
  · intro d hd hgen key hkey
    rcases hrun : g.running with _ | _
    · exact .inr (pending_of_key (.inl (hgrows (h.before hrun key hkey))) d)
    · rcases (h.generation d hd).lt_or_eq with hlt | heq
      · have hworkers : (g.Start ctx threadiness keys).workers = g.workers := by
          simp only [GenericController.Start, hrun, if_true]
        refine (h.covers d hd hlt key hkey).imp (fun hu => ?_) (fun hp => ?_)
        · exact hu.append (by simp) (by simp)
        · exact hp.mono (fun x hx => hx.imp_left fun hx => hgrows hx) hworkers
      · refine .inr (.inl ⟨.generationKey g.generation key, .inl ?_, rfl, ?_⟩)
        · rw [hqueue, if_pos ⟨hrun, d, hd, heq⟩]
          exact hdirty key (hkeys.mem_iff.2 (List.mem_of_mem_filter hkey))
        · exact fun hne => hne.2 heq

theorem Covers.unlock (h : Covers g notices seen) {hasSynced : Bool} {keys : List String}
    (hu : Unlocks g hasSynced keys g') :
    Covers g' notices (seen ++ g.sees (.unlock hasSynced keys)) := by
  have hsame : ∀ {b : Bool}, Covers { g with synced := b, holder := none } notices (seen ++ []) := by
    intro b
    rw [List.append_nil]
    exact { h with }
  cases hu with
  | @fails call hholder hunsynced =>
    cases call with
    | sync ctx =>
      simp only [sees, hholder]
      exact hsame
    | start ctx threadiness =>
      simp only [sees, hholder, if_pos hunsynced]
      exact hsame
  | syncs hholder =>
    simp only [sees, hholder]
    exact hsame
  | starts hholder hsynced hlisted =>
    simp only [sees, hholder, if_neg hsynced]
    have h' := hsame (b := true)
    rw [List.append_nil] at h'
    exact h'.Start _ _ hlisted

/-- Every move keeps the invariant. -/
theorem Covers.move {s s' : Informed H Obj} (h : Covers s.controller s.notices seen)
    {m : Move H Obj} (hm : s.move m = some (s', o)) :
    Covers s'.controller s'.notices (seen ++ o) := by
  obtain ⟨g, notices⟩ := s
  simp only [Informed.move, Option.map_eq_some_iff, Prod.mk.injEq] at hm
  obtain ⟨⟨g₁, o₁⟩, hexec, rfl, rfl⟩ := hm
  have hsame : ∀ {count : Int} {holder : Option Call} {listening : Bool},
      Covers { g with
        threadinessOverride := count, holder := holder, listening := listening } notices
        (seen ++ []) := by
    intro count holder listening
    rw [List.append_nil]
    exact { h with }
  cases m
  case notify =>
    cases notices with
    | nil =>
      cases hexec
      simpa [sees, onTheWay] using h
    | cons notice notices =>
      rw [actions, List.head?_cons, Option.toList_some, List.map_singleton,
        Run.exec_singleton] at hexec
      have hnotify := h.notify
      cases steps_of_step hexec with
      | queues keyed => rwa [queueObject, keyed] at hnotify
      | ignores unkeyed => rwa [queueObject, unkeyed] at hnotify
  -- every other move is one action
  all_goals
    rw [actions, Run.exec_singleton] at hexec
    cases steps_of_step hexec
  case setThreadinessOverride => exact hsame
  case enqueue => exact h.add _ fun x hx => .inr hx
  case addHandler ctx name handler => exact h.addHandler ctx name handler
  case lock => exact hsame
  case unlock hu => exact h.unlock hu
  case event notice obj => exact h.event notice obj
  case work hi hw => exact h.work hi hw
  case ready i item hi =>
    refine h.add item fun x hx => ?_
    obtain ⟨j, hj⟩ := List.mem_iff_getElem?.1 hx
    by_cases hji : j = i
    · subst hji
      exact .inl (Option.some.inj (hj.symm.trans hi))
    · exact .inr (List.mem_eraseIdx_iff_getElem?.2 ⟨j, hji, hj⟩)

end Covers

section Run

/-- The controller and its informer, before anything happened. -/
def fresh (H Obj : Type) : Informed H Obj := ⟨NewGenericController H Obj, []⟩

/-- In every run, whenever nothing is left to do and no notice is on its way, every handler whose
`AddHandler` came before some `Start` completed was invoked for every key in the store, after the
key's last event. -/
theorem handlers_upToDate {ms : List (Move H Obj)} {s : Informed H Obj}
    (hrun : Run.exec Informed.move (fresh H Obj) ms = some (s, seen))
    (hquiet : s.controller.Quiet) (hnone : s.notices = [])
    (hadded : [.added ptr, .started].Sublist seen) (hkey : key ∈ s.controller.store.keys) :
    UpToDate seen ptr key := by
  have h : Covers s.controller s.notices seen :=
    Run.exec_invariant (P := fun s seen => Covers s.controller s.notices seen) covers_new
      (fun _ _ _ _ _ h hs => h.move hs) hrun
  obtain ⟨d, hd, rfl, hgen⟩ := h.started hadded
  have htold : key ∈ s.controller.told s.notices := by simpa [told, hnone] using hkey
  exact (h.covers d hd hgen key htold).resolve_right (hquiet.not_pending h.toHeld h.lined)

/-- A worker fails at an object and has it tried again; meanwhile a second handler is added and
`Start` is called again. -/
def retriedRun : List (Move Unit Unit) :=
  [.addHandler 0 "first" (), .lock (.start 1 1), .event (.object "prod" "web") (some ()),
    .unlock true ["prod/web"], .notify]
  ++ List.replicate 6 (.work 0 (.failed (.other "conflict")))
  ++ [.ready 0, .addHandler 0 "second" (), .lock (.start 1 1), .unlock true ["prod/web"]]
  ++ List.replicate 14 (.work 0 (.returned none))

theorem retriedRun_upToDate :
    ∃ s seen, Run.exec Informed.move (fresh Unit Unit) retriedRun = some (s, seen)
      ∧ s.controller.Quiet ∧ s.controller.store.keys = ["prod/web"]
      ∧ UpToDate seen 1 "prod/web" := by
  have hend : (Run.exec Informed.move (fresh Unit Unit) retriedRun).map
      (fun r => ((r.1.controller.queue.queue, r.1.controller.waiting,
        r.1.controller.queue.processing), r.1.notices.map Notice.key, r.1.controller.store.keys, r.2))
      = some (([], [], ∅), [], ["prod/web"], [.added 0, .event "prod/web", .started,
          .invoked 0 "prod/web", .added 1, .started, .invoked 0 "prod/web",
          .invoked 1 "prod/web", .invoked 1 "prod/web"]) := by
    decide +kernel
  obtain ⟨⟨s, seen⟩, hrun, hs⟩ := Option.map_eq_some_iff.1 hend
  simp only [Prod.mk.injEq] at hs
  obtain ⟨⟨hqueue, hwaiting, hprocessing⟩, hnone, hkeys, rfl⟩ := hs
  have hquiet : s.controller.Quiet := ⟨hqueue, hwaiting, hprocessing⟩
  exact ⟨s, _, hrun, hquiet, hkeys, handlers_upToDate hrun hquiet (List.map_eq_nil_iff.1 hnone)
    (by decide) (by rw [hkeys]; decide)⟩

/-- The informer has synced with an object in its store that the controller was not notified of. -/
def unnotifiedRun : List (Move Unit Unit) :=
  [.addHandler 0 "first" (), .lock (.start 1 1), .event (.object "prod" "web") (some ()),
    .unlock true ["prod/web"]]

/-- `Start` has completed, nothing is left to do, and no handler was invoked for the object. -/
theorem unnotified_not_upToDate :
    ∃ s seen, Run.exec Informed.move (fresh Unit Unit) unnotifiedRun = some (s, seen)
      ∧ s.controller.Quiet ∧ [.added 0, .started].Sublist seen
      ∧ s.controller.store.keys = ["prod/web"] ∧ ¬ UpToDate seen 0 "prod/web" := by
  have hend : (Run.exec Informed.move (fresh Unit Unit) unnotifiedRun).map
      (fun r => ((r.1.controller.queue.queue, r.1.controller.waiting,
        r.1.controller.queue.processing), r.1.controller.store.keys, r.2))
      = some (([], [], ∅), ["prod/web"], [.added 0, .event "prod/web", .started]) := by
    decide +kernel
  obtain ⟨⟨s, seen⟩, hrun, hs⟩ := Option.map_eq_some_iff.1 hend
  simp only [Prod.mk.injEq] at hs
  obtain ⟨⟨hqueue, hwaiting, hprocessing⟩, hkeys, rfl⟩ := hs
  refine ⟨s, _, hrun, ⟨hqueue, hwaiting, hprocessing⟩, by decide, hkeys, ?_⟩
  rintro ⟨before, after, heq, -⟩
  have hmem : Seen.invoked 0 "prod/web" ∈ [.added 0, .event "prod/web", .started] := by
    rw [heq]
    simp
  simp at hmem

end Run

end GenericController

end Norman.Controller
