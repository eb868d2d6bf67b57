import Mathlib
import Norman.Lib.Run
import Norman.Lifecycle

/-!
# The lifecycle keeps its protocol

During a `sync` nobody else writes, so the object in its hands agrees with the one the API server
has about the finalizers and the lifecycle's annotation (`Agrees`): the lifecycle's functions leave
these alone, and each update gives back what was stored. So an update changes no other finalizer,
and takes the lifecycle's own off only where `removeFinalizer` does, which comes after a `Finalize`
without an error. The mark that `Create` is done stays once it is set; where `GetAnnotations` gives
a copy, it is never set.
-/

namespace Norman.Lifecycle

open Std.Do

set_option mvcgen.warning false

variable {β : Type} {o : Adapter}

section Law

variable {log : List (Event β)}

/-- The finalizers other than the lifecycle's own. -/
def otherFinalizers (o : Adapter) (obj : Object β) : List String :=
  obj.GetFinalizers.filter (· ≠ o.constructFinalizerKey)

/-- The object carries the lifecycle's finalizer. -/
def Carries (o : Adapter) (obj : Object β) : Prop := o.constructFinalizerKey ∈ obj.GetFinalizers

/-- The object that the API server has carries the lifecycle's finalizer. -/
def Held (o : Adapter) (stored : Option (Object β)) : Prop := ∃ obj, stored = some obj ∧ Carries o obj

/-- The lifecycle's function has returned without an error. -/
def Returned (f : Function) (log : List (Event β)) : Prop :=
  ∃ arg stored, .called f arg stored none ∈ log

def NoCreate (log : List (Event β)) : Prop := ∀ arg stored err, .called .Create arg stored err ∉ log

theorem NoCreate.append (h : NoCreate log) {e : Event β}
    (he : ∀ arg stored err, e ≠ .called .Create arg stored err) : NoCreate (log ++ [e]) := by
  intro arg stored err hmem
  rcases List.mem_append.1 hmem with hmem | hmem
  · exact h _ _ _ hmem
  · exact he _ _ _ (List.mem_singleton.1 hmem).symm

theorem Returned.mono {f : Function} {log' : List (Event β)} (h : Returned f log)
    (hlog : log ⊆ log') : Returned f log' := by
  obtain ⟨arg, stored, hmem⟩ := h
  exact ⟨arg, stored, hlog hmem⟩

theorem returned_called {f : Function} {arg : Object β}
    {stored : Option (Object β)} {err : Option String} (h : err = none) :
    Returned f (log ++ [.called f arg stored err]) :=
  ⟨arg, stored, by simp [h]⟩

/-- What is seen of one `sync` follows the protocol. -/
structure Lawful (o : Adapter) (log : List (Event β)) : Prop where
  create : ∀ {arg stored err}, .called .Create arg stored err ∈ log → o.hasFinalize = true →
    Held o stored
  finalize : ∀ {arg stored err}, .called .Finalize arg stored err ∈ log →
    arg.deletionTimestamp.isSome ∧ Carries o arg
  live : ∀ {f arg stored err}, .called f arg stored err ∈ log → f ≠ .Finalize →
    o.hasFinalize = true → arg.deletionTimestamp = none
  removed : ∀ {pre old new post}, log = pre ++ .wrote old new :: post → Carries o old →
    ¬ Carries o new → Returned .Finalize pre
  others : ∀ {old new}, .wrote old new ∈ log → otherFinalizers o new = otherFinalizers o old

/-- An event that the protocol allows after what has been seen. -/
def Allowed (o : Adapter) (log : List (Event β)) : Event β → Prop
  | .called .Create arg stored _ => (o.hasFinalize = true → Held o stored)
      ∧ (o.hasFinalize = true → arg.deletionTimestamp = none)
  | .called .Finalize arg _ _ => arg.deletionTimestamp.isSome ∧ Carries o arg
  | .called .Updated arg _ _ => o.hasFinalize = true → arg.deletionTimestamp = none
  | .wrote old new => (Carries o old → ¬ Carries o new → Returned .Finalize log)
      ∧ otherFinalizers o new = otherFinalizers o old
  | .initialized => True

theorem lawful_nil : Lawful (β := β) o [] :=
  ⟨by simp, by simp, by simp, by simp, by simp⟩

theorem Lawful.append (h : Lawful o log) {e : Event β}
    (he : Allowed o log e) : Lawful o (log ++ [e]) := by
  refine ⟨fun {arg stored err} hmem hf => ?_, fun {arg stored err} hmem => ?_,
    fun {f arg stored err} hmem hne hf => ?_, fun {pre old new post} heq hold hnew => ?_,
    fun {old new} hmem => ?_⟩
  · rcases List.mem_append.1 hmem with hmem | hmem
    · exact h.create hmem hf
    · cases List.mem_singleton.1 hmem
      exact he.1 hf
  · rcases List.mem_append.1 hmem with hmem | hmem
    · exact h.finalize hmem
    · cases List.mem_singleton.1 hmem
      exact he
  · rcases List.mem_append.1 hmem with hmem | hmem
    · exact h.live hmem hne hf
    · cases List.mem_singleton.1 hmem
      cases f with
      | Create => exact he.2 hf
      | Finalize => exact absurd rfl hne
      | Updated => exact he hf
  · rcases List.eq_nil_or_concat post with rfl | ⟨post, e', rfl⟩
    · obtain ⟨rfl, hlast⟩ := List.append_inj' heq rfl
      cases hlast
      exact he.1 hold hnew
    · rw [List.concat_eq_append, ← List.cons_append, ← List.append_assoc] at heq
      exact h.removed (List.append_inj' heq rfl).1 hold hnew
  · rcases List.mem_append.1 hmem with hmem | hmem
    · exact h.others hmem
    · cases List.mem_singleton.1 hmem
      exact he.2

end Law

section Requests

variable [Inhabited β]

/-- Nothing that is seen or stored has changed. -/
def Same (w₀ w : World β) : Prop := w.stored = w₀.stored ∧ w.log = w₀.log

/-- The API server has taken the object. -/
def Took (obj old : Object β) (w₀ w : World β) : Prop :=
  w₀.stored = some old ∧ w.stored = kept (taken old obj)
    ∧ w.log = w₀.log ++ [.wrote old (taken old obj)]

/-- What an update comes to: one that fails may still have been carried out. -/
def Attempted (obj : Object β) (w₀ : World β) (r : Object β × Option String) (w : World β) : Prop :=
  (r.2.isSome ∧ Same w₀ w) ∨ ∃ old, Took obj old w₀ w ∧ (r.2 = none → r.1 = taken old obj)

theorem clientUpdate_spec (name : String) (obj : Object β) (w₀ : World β) :
    ⦃fun w => ⌜w = w₀⌝⦄ clientUpdate o name obj ⦃⇓ r => fun w => ⌜Attempted obj w₀ r w⌝⦄ := by
  mvcgen [clientUpdate, fate, emit]
  case vc5 | vc6 =>
    rename_i w hw _ _ old hstored _ _ _ _
    subst hw
    exact .inr ⟨old, ⟨hstored, rfl, rfl⟩, by simp⟩
  all_goals
    subst_vars
    exact .inl ⟨rfl, rfl, rfl⟩

/-- What is got is what is stored. -/
theorem clientGet_spec (ns name : String) (w₀ : World β) :
    ⦃fun w => ⌜w = w₀⌝⦄ (clientGet ns name : StateM (World β) (Object β × Option String))
    ⦃⇓ r => fun w => ⌜Same w₀ w ∧ (r.2 = none → w₀.stored = some r.1)⌝⦄ := by
  mvcgen [clientGet, fate]
  case vc4 =>
    rename_i w hw _ _ old hstored _
    subst hw
    exact ⟨⟨rfl, rfl⟩, hstored⟩
  all_goals
    subst_vars
    exact ⟨⟨rfl, rfl⟩, by simp⟩

end Requests

section Good

variable {obj obj' : Object β} {s₀ stored : Option (Object β)} {w w' : World β}
  {r : Object β × Option String}

/-- The object has the same finalizers and the same annotation of the lifecycle. -/
def Modest (o : Adapter) (obj obj' : Object β) : Prop :=
  obj'.GetFinalizers = obj.GetFinalizers
    ∧ obj'.annotationAt o.createKey = obj.annotationAt o.createKey

/-- The object agrees with what is stored, if anything is. -/
def Agrees (o : Adapter) (stored : Option (Object β)) (obj : Object β) : Prop :=
  ∀ old, stored = some old → Modest o old obj

theorem Modest.trans {obj'' : Object β} (h : Modest o obj obj') (h' : Modest o obj' obj'') :
    Modest o obj obj'' :=
  ⟨h'.1.trans h.1, h'.2.trans h.2⟩

theorem Agrees.trans (h : Agrees o stored obj) (h' : Modest o obj obj') : Agrees o stored obj' :=
  fun old hold => (h old hold).trans h'

theorem agrees_of_stored (h : stored = some obj) : Agrees o stored obj := by
  intro old hold
  cases h.symm.trans hold
  exact ⟨rfl, rfl⟩

/-- The annotation says that `Create` is done. -/
def Marked (o : Adapter) (stored : Option (Object β)) : Prop :=
  ∀ obj, stored = some obj → obj.annotationAt o.createKey = "true"

/-- So far a `sync` that found `s₀` has kept to the protocol. -/
structure Good (o : Adapter) (s₀ : Option (Object β)) (w : World β) : Prop where
  lawful : Lawful o w.log
  mark : Marked o s₀ → Marked o w.stored ∧ NoCreate w.log
  done : o.ownAnnotations = true → .initialized ∈ w.log → Marked o w.stored
  held : Held o s₀ → Held o w.stored ∨ Returned .Finalize w.log
  others : ∀ old new, s₀ = some old → w.stored = some new → otherFinalizers o new = otherFinalizers o old

theorem Good.called (h : Good o s₀ w) {f : Function} {arg : Object β} {err : Option String}
    (hallowed : Allowed o w.log (.called f arg w.stored err))
    (hcreate : f = .Create → ¬ Marked o s₀) :
    Good o s₀ { w with log := w.log ++ [.called f arg w.stored err] } := by
  refine ⟨h.lawful.append hallowed, fun hm => ⟨(h.mark hm).1, (h.mark hm).2.append ?_⟩, ?_, ?_,
    h.others⟩
  · intro arg' stored' err' heq
    cases heq
    exact hcreate rfl hm
  · simpa using h.done
  · exact fun hs => (h.held hs).imp id fun hr => hr.mono (List.subset_append_left _ _)

theorem Good.initialized (h : Good o s₀ w) (hm : o.ownAnnotations = true → Marked o w.stored) :
    Good o s₀ { w with log := w.log ++ [.initialized] } :=
  ⟨h.lawful.append trivial, fun hm => ⟨(h.mark hm).1, (h.mark hm).2.append (by simp)⟩,
    fun hown _ => hm hown,
    fun hs => (h.held hs).imp id fun hr => hr.mono (List.subset_append_left _ _), h.others⟩

theorem kept_eq_some {new : Object β} (h : kept new = some obj) : obj = new := by
  unfold kept at h
  split_ifs at h
  cases h
  rfl

/-- What is stored after an update of an object agrees with what the update gives back. -/
theorem agrees_kept (new : Object β) : Agrees o (kept new) new := by
  intro obj hobj
  rw [kept_eq_some hobj]
  exact ⟨rfl, rfl⟩

/-- An object that carries a finalizer is not gone. -/
theorem kept_of_carries {new : Object β} (h : Carries o new) : kept new = some new := by
  have hne : new.GetFinalizers ≠ [] := List.ne_nil_of_mem h
  simp [kept, hne]

/-- An update that keeps the other finalizers, and the mark if there is one. -/
theorem Good.wrote (h : Good o s₀ w) {old : Object β} (ht : Took obj old w w')
    (hallowed : Allowed o w.log (.wrote old (taken old obj)))
    (hmark : old.annotationAt o.createKey = "true" → obj.annotationAt o.createKey = "true") :
    Good o s₀ w' := by
  obtain ⟨hstored, hstored', hlog⟩ := ht
  have hmarked : Marked o w.stored → Marked o w'.stored := by
    intro hm new hnew
    rw [kept_eq_some (hstored'.symm.trans hnew)]
    exact hmark (hm old hstored)
  refine ⟨hlog ▸ h.lawful.append hallowed, fun hm => ⟨hmarked (h.mark hm).1, ?_⟩, fun hown hd => ?_,
    fun hs => ?_, fun first new hfirst hnew => ?_⟩
  · rw [hlog]
    exact (h.mark hm).2.append (by simp)
  · exact hmarked (h.done hown (by simpa [hlog] using hd))
  · rw [hlog, hstored']
    rcases h.held hs with ⟨old', hold', hc⟩ | hr
    · cases hstored.symm.trans hold'
      by_cases hnew : Carries o (taken old obj)
      · exact .inl ⟨_, kept_of_carries hnew, hnew⟩
      · exact .inr ((hallowed.1 hc hnew).mono (List.subset_append_left _ _))
    · exact .inr (hr.mono (List.subset_append_left _ _))
  · rw [kept_eq_some (hstored'.symm.trans hnew), hallowed.2]
    exact h.others _ _ hfirst hstored

theorem Good.same (h : Good o s₀ w) (hsame : Same w w') : Good o s₀ w' := by
  obtain ⟨hstored, hlog⟩ := hsame
  exact ⟨hlog ▸ h.lawful, hlog ▸ hstored ▸ h.mark, hlog ▸ hstored ▸ h.done, hlog ▸ hstored ▸ h.held,
    hstored ▸ h.others⟩

/-- The protocol allows an update by the object, whatever is stored. -/
def Writable (o : Adapter) (w : World β) (obj : Object β) : Prop :=
  ∀ old, w.stored = some old → Allowed o w.log (.wrote old (taken old obj))
    ∧ (old.annotationAt o.createKey = "true" → obj.annotationAt o.createKey = "true")

theorem Good.attempted (h : Good o s₀ w) (hw : Writable o w obj) (ha : Attempted obj w r w')
    : Good o s₀ w' := by
  rcases ha with ⟨-, hsame⟩ | ⟨old, ht, -⟩
  · exact h.same hsame
  · exact h.wrote ht (hw old ht.1).1 (hw old ht.1).2

theorem Attempted.subset (h : Attempted obj w r w') : w.log ⊆ w'.log := by
  rcases h with ⟨-, -, hlog⟩ | ⟨old, ⟨-, -, hlog⟩, -⟩ <;> simp [hlog]

theorem Attempted.agrees (h : Attempted obj w r w') (hr : r.2 = none) : Agrees o w'.stored r.1 := by
  rcases h with ⟨herr, -⟩ | ⟨old, ⟨-, hstored, -⟩, hobj⟩
  · simp [hr] at herr
  · rw [hstored, hobj hr]
    exact agrees_kept _

/-- An update by an object that differs from one that agrees with what is stored. -/
theorem Agrees.writable_of (h : Agrees o w.stored obj)
    (hothers : otherFinalizers o obj' = otherFinalizers o obj)
    (hcarries : Carries o obj → Carries o obj' ∨ Returned .Finalize w.log)
    (hmark : obj.annotationAt o.createKey = "true" → obj'.annotationAt o.createKey = "true") :
    Writable o w obj' := by
  intro old hold
  obtain ⟨hfin, hann⟩ := h old hold
  refine ⟨⟨fun hc hn => ?_, ?_⟩, fun ht => hmark (hann.trans ht)⟩
  · exact (hcarries (by rwa [Carries, hfin])).resolve_left hn
  · exact hothers.trans (by rw [otherFinalizers, hfin]; rfl)

theorem Agrees.writable (h : Agrees o w.stored obj) : Writable o w obj :=
  h.writable_of rfl .inl id

/-- Taking the lifecycle's finalizer off, after a `Finalize` without an error. -/
theorem Agrees.writable_without (h : Agrees o w.stored obj) (hr : Returned .Finalize w.log)
    {finalizers : Option (List String)} (hf : finalizers.getD [] = otherFinalizers o obj) :
    Writable o w { obj with finalizers } := by
  refine h.writable_of ?_ (fun _ => .inr hr) id
  have hnew : Object.GetFinalizers { obj with finalizers } = otherFinalizers o obj := hf
  rw [otherFinalizers, hnew, otherFinalizers, List.filter_filter]
  simp

theorem Agrees.writable_with (h : Agrees o w.stored obj) :
    Writable o w { obj with
      finalizers := some (obj.GetFinalizers ++ [o.constructFinalizerKey]) } := by
  refine h.writable_of ?_ (fun hc => .inl (List.mem_append_left _ hc)) id
  simp [otherFinalizers, Object.GetFinalizers]

theorem annotation_mark (hown : o.ownAnnotations = true) (obj : Object β) :
    (mark o obj).annotationAt o.createKey = "true" := by
  simp [mark, hown, Object.annotationAt]

theorem Agrees.writable_mark (h : Agrees o w.stored obj) : Writable o w (mark o obj) := by
  refine h.writable_of rfl .inl fun hmark => ?_
  by_cases hown : o.ownAnnotations = true
  · exact annotation_mark hown obj
  · simpa [mark, hown, Object.annotationAt] using hmark

theorem good_first (stored : Option (Object β)) (fates : List Fate) :
    Good o stored { stored, fates, log := [] } := by
  refine ⟨lawful_nil, fun hm => ⟨hm, fun _ _ _ h => by cases h⟩, by simp, .inl,
    fun old new hold hnew => ?_⟩
  cases hold.symm.trans hnew
  rfl

end Good

section Finalizer

variable [Inhabited β]

theorem removeFinalizer_spec (o : Adapter) (s₀ : Option (Object β)) : ∀ (n : ℕ) (obj : Object β),
    ⦃fun w => ⌜Good o s₀ w ∧ Agrees o w.stored obj ∧ Returned .Finalize w.log⌝⦄
    removeFinalizer o o.constructFinalizerKey n obj
    ⦃⇓ _ => fun w => ⌜Good o s₀ w⌝⦄
  | 0, obj => by
    mvcgen [removeFinalizer]
    rename_i w hw
    exact hw.1
  | n + 1, obj => by
    have ih := removeFinalizer_spec o s₀ n
    have hwithout : ∀ {w : World β}, Agrees o w.stored obj → Returned .Finalize w.log →
        Writable o w { obj with
          finalizers := if obj.GetFinalizers.filter (· ≠ o.constructFinalizerKey) = [] then none
            else some (obj.GetFinalizers.filter (· ≠ o.constructFinalizerKey)) } := by
      intro w ha hr
      refine ha.writable_without hr ?_
      split_ifs with h
      · exact h.symm
      · rfl
    mvcgen [removeFinalizer, clientUpdate_spec, clientGet_spec, ih]
    case vc1 =>
      rename_i w hw r _ w' hat
      exact hw.1.attempted (hwithout hw.2.1 hw.2.2) hat
    case vc2 =>
      rename_i w hw _ _ w' hat _ _ w'' hget
      exact (hw.1.attempted (hwithout hw.2.1 hw.2.2) hat).same hget.1
    case vc3 =>
      -- the object that was got is the one to try again with
      rename_i w hw _ _ w' hat r hr w'' hget
      have hstored := hget.2 (by simpa using hr)
      refine ⟨(hw.1.attempted (hwithout hw.2.1 hw.2.2) hat).same hget.1, ?_, ?_⟩
      · exact agrees_of_stored (hget.1.1.trans hstored)
      · exact hget.1.2 ▸ hw.2.2.mono hat.subset

theorem addFinalizer_spec (o : Adapter) (s₀ : Option (Object β)) (obj : Object β) :
    ⦃fun w => ⌜Good o s₀ w ∧ w.stored = some obj⌝⦄
    addFinalizer o obj
    ⦃⇓ r => fun w => ⌜Good o s₀ w ∧ (r.2 = none → w.stored = some r.1 ∧ Carries o r.1
      ∧ r.1.deletionTimestamp = obj.deletionTimestamp)⌝⦄ := by
  mvcgen [addFinalizer, clientUpdate_spec]
  case vc1 =>
    rename_i hkey w hw
    exact ⟨hw.1, hw.2, hkey⟩
  case vc2 =>
    rename_i w hw r w'
    intro hat
    refine ⟨hw.1.attempted (agrees_of_stored hw.2).writable_with hat, fun hr => ?_⟩
    rcases hat with ⟨herr, -⟩ | ⟨old, ⟨hold, hstored, -⟩, hobj⟩
    · simp [hr] at herr
    · cases hw.2.symm.trans hold
      have hc : Carries o r.1 := by
        rw [hobj hr]
        exact List.mem_append_right _ List.mem_cons_self
      refine ⟨?_, hc, by rw [hobj hr]; rfl⟩
      rw [hstored, ← hobj hr, kept_of_carries hc]

theorem ensureFinalizer_spec (o : Adapter) (s₀ : Option (Object β)) (obj : Object β) :
    ⦃fun w => ⌜Good o s₀ w ∧ w.stored = some obj⌝⦄
    ensureFinalizer o obj
    ⦃⇓ r => fun w => ⌜Good o s₀ w ∧ (r.2 = none → w.stored = some r.1
      ∧ (o.hasFinalize = true → Carries o r.1 ∧ r.1.deletionTimestamp = obj.deletionTimestamp))⌝⦄ := by
  have hadd := addFinalizer_spec o s₀
  mvcgen [ensureFinalizer, hadd]
  case vc2 =>
    intro hg h
    exact ⟨hg, fun hr => ⟨(h hr).1, fun _ => (h hr).2⟩⟩
  case vc3 =>
    rename_i hfin w hw
    exact ⟨hw.1, hw.2, fun h => absurd h hfin⟩

theorem setInitialized_spec (o : Adapter) (s₀ : Option (Object β)) (obj : Object β) :
    ⦃fun w => ⌜Good o s₀ w ∧ Agrees o w.stored obj⌝⦄
    setInitialized o obj
    ⦃⇓ _ => fun w => ⌜Good o s₀ w⌝⦄ := by
  mvcgen [setInitialized, clientUpdate_spec, emit]
  case vc1 =>
    rename_i w hw r _ hr w' hat _
    have hr : r.2 = none := by simpa using hr
    refine (hw.1.attempted hw.2.writable_mark hat).initialized fun hown new hnew => ?_
    rcases hat with ⟨herr, -⟩ | ⟨old, ⟨-, hstored, -⟩, -⟩
    · simp [hr] at herr
    · rw [kept_eq_some (hstored.symm.trans hnew)]
      exact annotation_mark hown obj
  case vc2 =>
    rename_i w hw _ _ _ w' hat
    exact hw.1.attempted hw.2.writable_mark hat

end Finalizer

section Sync

variable [Inhabited β] [DecidableEq β] {fs : Functions β}

/-- The lifecycle's functions leave the finalizers and the lifecycle's annotation alone. -/
def Functions.Modest (o : Adapter) (fs : Functions β) : Prop :=
  ∀ f obj, Lifecycle.Modest o obj (fs f obj).arg
    ∧ ∀ obj', (fs f obj).obj = some obj' → Lifecycle.Modest o obj obj'

theorem update_spec (o : Adapter) (s₀ : Option (Object β)) (name : String) (orig : Object β)
    (obj : Option (Object β)) (hm : ∀ obj', obj = some obj' → Modest o orig obj') (w₀ : World β) :
    ⦃fun w => ⌜w = w₀⌝⦄ update o name orig obj
    ⦃⇓ r => fun w => ⌜Good o s₀ w₀ → Agrees o w₀.stored orig →
      Good o s₀ w ∧ w₀.log ⊆ w.log ∧ (r.2 = none → Agrees o w.stored r.1)⌝⦄ := by
  mvcgen [update, clientUpdate_spec]
  case vc1 =>
    rename_i obj hobj _ w hw r w'
    subst hw
    intro hat hg ha
    exact ⟨hg.attempted (ha.trans (hm obj hobj)).writable hat, hat.subset, hat.agrees⟩
  case vc2 =>
    rename_i hobj _ w hw
    subst hw
    exact fun hg ha => ⟨hg, fun _ h => h, ha.trans (hm _ hobj)⟩
  case vc3 =>
    rename_i w hw
    subst hw
    exact fun hg ha => ⟨hg, fun _ h => h, ha⟩

theorem record_spec (s₀ : Option (Object β)) (hfs : fs.Modest o) (obj : Object β) (f : Function)
    (hcreate : f = .Create → ¬ Marked o s₀) :
    ⦃fun w => ⌜Good o s₀ w ∧ Agrees o w.stored obj
      ∧ Allowed o w.log (.called f obj w.stored (fs f obj).err)⌝⦄
    record o fs obj f
    ⦃⇓ r => fun w => ⌜Good o s₀ w ∧ (r.2 = none → Agrees o w.stored r.1 ∧ Returned f w.log)⌝⦄ := by
  have hupdate := update_spec o s₀
  mvcgen [record, emit, hupdate]
  case vc1 =>
    rename_i hobj _
    exact hobj ▸ (hfs f obj).2
  case vc2 =>
    rename_i w hw _ _ _ _ _ r w' h
    exact ⟨(h (hw.1.called hw.2.2 hcreate) hw.2.1).1, by simp⟩
  case vc3 =>
    rename_i hobj _
    exact hobj ▸ (hfs f obj).2
  case vc4 =>
    rename_i w hw _ _ _ herr r w'
    intro h
    obtain ⟨hg, hlog, ha⟩ := h (hw.1.called hw.2.2 hcreate) hw.2.1
    exact ⟨hg, fun hr => ⟨ha hr, (returned_called herr).mono hlog⟩⟩
  case vc5 =>
    rename_i w hw _ _ herr
    exact ⟨hw.1.called hw.2.2 hcreate, hw.2.1.trans (hfs f obj).1, returned_called herr⟩

theorem finalize_spec (s₀ : Option (Object β)) (hfs : fs.Modest o) (obj : Object β) :
    ⦃fun w => ⌜Good o s₀ w ∧ w.stored = some obj⌝⦄
    finalize o fs obj
    ⦃⇓ r => fun w => ⌜Good o s₀ w ∧ (r.2.1 = true → w.stored = some obj ∧ r.1.getD obj = obj
      ∧ (o.hasFinalize = true → obj.deletionTimestamp = none))⌝⦄ := by
  have hrecord := record_spec s₀ hfs
  have hremove := removeFinalizer_spec o s₀
  mvcgen [finalize, hrecord, hremove]
  case vc1 | vc2 | vc3 => simp_all
  case vc4 => simp
  case vc5 =>
    rename_i hdel hkey w hw
    exact ⟨hw.1, agrees_of_stored hw.2, Option.isSome_iff_ne_none.2 hdel, not_not.1 hkey⟩
  case vc6 =>
    rename_i w h
    exact ⟨h.1, by simp⟩
  case vc7 =>
    rename_i r hr w h
    exact ⟨h.1, h.2 (by simpa using hr)⟩
  case vc8 =>
    rename_i w h
    exact ⟨h, by simp⟩

theorem create_spec (s₀ : Option (Object β)) (hfs : fs.Modest o) (obj : Object β) :
    ⦃fun w => ⌜Good o s₀ w ∧ w.stored = some obj
      ∧ (o.hasFinalize = true → obj.deletionTimestamp = none)⌝⦄
    create o fs obj
    ⦃⇓ r => fun w => ⌜Good o s₀ w ∧ (r.2.1 = true → Agrees o w.stored (r.1.getD obj)
      ∧ (o.hasFinalize = true → (r.1.getD obj).deletionTimestamp = none))⌝⦄ := by
  have hensure := ensureFinalizer_spec o s₀
  have hrecord := record_spec s₀ hfs
  have hset := setInitialized_spec o s₀
  mvcgen [create, hensure, hrecord, hset]
  case vc1 =>
    rename_i w hw
    exact ⟨hw.1, agrees_of_stored hw.2.1, hw.2.2⟩
  case vc2 =>
    rename_i w hw
    exact ⟨hw.1, hw.2.1⟩
  case vc3 | vc7 =>
    rename_i w h
    exact ⟨h.1, by simp⟩
  case vc4 =>
    rename_i w hw r hr _ w' h
    obtain ⟨hstored, hfin⟩ := h.2 (by simpa using hr)
    exact ⟨h.1, agrees_of_stored hstored, fun hf => (hfin hf).2.trans (hw.2.2 hf)⟩
  case vc5 =>
    rename_i hinit w hw _ _ _ _ _
    intro hm
    exact hinit (by simpa [isInitialized] using (hw.1.mark hm).1 obj hw.2.1)
  case vc6 =>
    rename_i w hw r hr _ w' h
    obtain ⟨hstored, hfin⟩ := h.2 (by simpa using hr)
    exact ⟨h.1, agrees_of_stored hstored, fun hf => ⟨r.1, hstored, (hfin hf).1⟩,
      fun hf => (hfin hf).2.trans (hw.2.2 hf)⟩
  case vc8 =>
    rename_i r hr w h
    exact ⟨h.1, (h.2 (by simpa using hr)).1⟩
  case vc9 =>
    rename_i w h
    exact ⟨h, by simp⟩

theorem sync_spec (s₀ : Option (Object β)) (hfs : fs.Modest o) (obj : Option (Object β)) :
    ⦃fun w => ⌜Good o s₀ w ∧ w.stored = obj⌝⦄
    sync o fs obj
    ⦃⇓ _ => fun w => ⌜Good o s₀ w⌝⦄ := by
  have hfinalize := finalize_spec s₀ hfs
  have hcreate := create_spec s₀ hfs
  have hrecord := record_spec s₀ hfs
  mvcgen [sync, hfinalize, hcreate, hrecord]
  case vc1 | vc3 | vc5 | vc8 =>
    rename_i w h
    exact h.1
  case vc4 =>
    rename_i r hr _ w h
    obtain ⟨hstored, hsame, hlive⟩ := h.2 (by simpa using (not_or.1 hr).2)
    rw [← hsame] at hstored hlive
    exact ⟨h.1, hstored, hlive⟩
  case vc6 => simp
  case vc7 =>
    rename_i r hr _ w h
    exact ⟨h.1, h.2 (by simpa using (not_or.1 hr).2)⟩

end Sync

section Inv

variable {stored : Option (Object β)} {logs : List (List (Event β))}

/-- What holds after each step of a run. -/
structure Inv (o : Adapter) (stored : Option (Object β)) (logs : List (List (Event β))) : Prop where
  lawful : ∀ log ∈ logs, Lawful o log
  marked : o.ownAnnotations = true → ∀ log ∈ logs, .initialized ∈ log → Marked o stored
  once : o.ownAnnotations = true → logs.Pairwise fun log later => .initialized ∈ log → NoCreate later

theorem Inv.sync (h : Inv o stored logs) {w : World β} (hw : Good o stored w) :
    Inv o w.stored (logs ++ [w.log]) := by
  refine ⟨?_, ?_, ?_⟩
  · intro log hlog
    rcases List.mem_append.1 hlog with hlog | hlog
    · exact h.lawful log hlog
    · cases List.mem_singleton.1 hlog
      exact hw.lawful
  · intro hown log hlog hinit
    rcases List.mem_append.1 hlog with hlog | hlog
    · exact (hw.mark (h.marked hown log hlog hinit)).1
    · cases List.mem_singleton.1 hlog
      exact hw.done hown hinit
  · intro hown
    refine List.pairwise_append.2 ⟨h.once hown, List.pairwise_singleton _ _, ?_⟩
    intro log hlog later hlater hinit
    cases List.mem_singleton.1 hlater
    exact (hw.mark (h.marked hown log hlog hinit)).2

theorem Untouched.marked {old new : Object β} (h : Untouched o old new) (hm : Marked o (some old)) :
    Marked o (some new) := by
  intro obj hobj
  cases hobj
  exact h.2.trans (hm old rfl)

end Inv

section Run

variable [Inhabited β] [DecidableEq β] {first stored : Option (Object β)}
  {logs : List (List (Event β))}

theorem synced_good {fs : Functions β} (hfs : fs.Modest o) (fates : List Fate)
    (stored : Option (Object β)) : Good o stored (synced o fs fates stored) :=
  sync_spec stored hfs stored _ ⟨good_first stored fates, rfl⟩

/-- The lifecycle's functions are modest in what an action does. -/
def Action.Modest (o : Adapter) : Action β → Prop
  | .sync fs _ => fs.Modest o
  | .change _ => True
  | .delete => True

theorem step_inv {a : Action β} {stored' : Option (Object β)} {logs' : List (List (Event β))}
    (h : Inv o stored logs) (ha : a.Modest o) (hs : step o stored a = some (stored', logs')) :
    Inv o stored' (logs ++ logs') := by
  cases a with
  | sync fs fates =>
    cases hs
    exact h.sync (synced_good ha fates stored)
  | change obj =>
    obtain ⟨old, rfl, hs'⟩ := Option.bind_eq_some_iff.1 hs
    split_ifs at hs' with hu
    cases hs'
    rw [List.append_nil]
    exact ⟨h.lawful, fun hown log hlog hinit => hu.marked (h.marked hown log hlog hinit), h.once⟩
  | delete =>
    obtain ⟨old, rfl, hs'⟩ := Option.bind_eq_some_iff.1 hs
    split_ifs at hs'
    cases hs'
    rw [List.append_nil]
    exact ⟨h.lawful, (fun _ _ _ _ obj hobj => by cases hobj), h.once⟩

theorem run_inv {as : List (Action β)} (hfs : ∀ a ∈ as, a.Modest o)
    (h : Run.exec (step o) first as = some (stored, logs)) : Inv o stored logs :=
  Run.exec_invariant_along (Inv o) ⟨by simp, by simp, fun _ => List.Pairwise.nil⟩
    (fun _ _ _ _ _ hi ha hs => step_inv hi ha hs) h (Run.along_of_forall hfs)

/-- Every run follows the protocol: each `sync` calls the lifecycle's functions and writes the
object as it may, no `Create` is called in a `sync` after one whose `setInitialized` succeeded, if
the objects give their own annotations away, and a `sync` of what is stored then lets the
lifecycle's finalizer go only where `Finalize` has returned without an error, and leaves all
others. -/
theorem lifecycle_protocol {as : List (Action β)} (hfs : ∀ a ∈ as, a.Modest o)
    (h : Run.exec (step o) first as = some (stored, logs)) :
    (∀ log ∈ logs, Lawful o log)
      ∧ (o.ownAnnotations = true →
        logs.Pairwise fun log later => .initialized ∈ log → NoCreate later)
      ∧ ∀ (fs : Functions β) (fates : List Fate), fs.Modest o →
        (Held o stored → Held o (synced o fs fates stored).stored
          ∨ Returned .Finalize (synced o fs fates stored).log)
        ∧ ∀ old new, stored = some old → (synced o fs fates stored).stored = some new →
          otherFinalizers o new = otherFinalizers o old := by
  have hinv := run_inv hfs h
  refine ⟨hinv.lawful, hinv.once, fun fs fates hfs => ?_⟩
  have hgood := synced_good hfs fates stored
  exact ⟨hgood.held, hgood.others⟩

/-- A lifecycle whose functions set the rest of the object. -/
def setsRest : Functions Bool := fun _ obj =>
  { arg := obj, obj := some { obj with rest := true }, err := none }

theorem setsRest_modest (o : Adapter) : setsRest.Modest o := by
  intro f obj
  refine ⟨⟨rfl, rfl⟩, fun obj' h => ?_⟩
  cases h
  exact ⟨rfl, rfl⟩

def life : Adapter where
  name := "life"
  clusterScoped := false
  condition := none
  ns := ""
  namespaced := true
  ownAnnotations := true

def newborn : Object Bool :=
  { name := "a", ns := "n", resourceVersion := some 1, deletionTimestamp := none,
    finalizers := some ["other"], annotations := none, rest := false }

/-- The finalizer is not put on at first; then the object is created and marked, another party marks
it for deletion, and the finalizer comes off, though no answer says so. -/
def wholeLife : List (Action Bool) :=
  [.sync setsRest [.unsent], .sync setsRest [], .sync setsRest [],
   .change { newborn with
      resourceVersion := some 5
      deletionTimestamp := some "now"
      finalizers := some ["other", life.constructFinalizerKey]
      annotations := some ((∅ : SortedMap String String).set life.createKey "true") },
   .sync setsRest [.through, .unanswered]]

theorem wholeLife_protocol : (∀ a ∈ wholeLife, a.Modest life) ∧ ∃ stored logs,
    Run.exec (step life) (some newborn) wholeLife = some (stored, logs)
      ∧ stored.map Object.GetFinalizers = some ["other"] ∧ logs.length = 4
      ∧ (∀ log ∈ logs, Lawful life log)
      ∧ logs.Pairwise fun log later => .initialized ∈ log → NoCreate later := by
  have hfs : ∀ a ∈ wholeLife, a.Modest life := by
    intro a ha
    simp only [wholeLife, List.mem_cons, List.not_mem_nil, or_false] at ha
    rcases ha with rfl | rfl | rfl | rfl | rfl
    case inr.inr.inr.inl => trivial
    all_goals exact setsRest_modest life
  have hrun : (Run.exec (step life) (some newborn) wholeLife).isSome := by decide +kernel
  have hend : ∀ r ∈ Run.exec (step life) (some newborn) wholeLife,
      r.1.map Object.GetFinalizers = some ["other"] ∧ r.2.length = 4 := by
    decide +kernel
  obtain ⟨⟨stored, logs⟩, h⟩ := Option.isSome_iff_exists.1 hrun
  obtain ⟨hstored, hlogs⟩ := hend _ h
  have hlaw := lifecycle_protocol hfs h
  exact ⟨hfs, stored, logs, h, hstored, hlogs, hlaw.1, hlaw.2.1 rfl⟩

/-- The lifecycle of objects whose annotations are read as a copy. -/
def copied : Adapter := { life with ownAnnotations := false }

/-- The object as the first `sync` leaves it. -/
def unmarked : Object Bool :=
  { newborn with
    resourceVersion := some 4
    finalizers := some ["other", copied.constructFinalizerKey]
    annotations := some ∅
    rest := true }

/-- The first `sync` puts the finalizer on, calls `Create` and marks the object; the mark is not in
what is stored, and the second one calls `Create` again. -/
theorem create_after_initialized : setsRest.Modest copied ∧ ∃ stored logs log later,
    Run.exec (step copied) (some newborn) [.sync setsRest [], .sync setsRest []]
        = some (stored, logs)
      ∧ logs = [log, later] ∧ .initialized ∈ log ∧ ¬ NoCreate later := by
  have hrun : (Run.exec (step copied) (some newborn)
      [.sync setsRest [], .sync setsRest []]).isSome := by
    decide +kernel
  have hend : ∀ r ∈ Run.exec (step copied) (some newborn) [.sync setsRest [], .sync setsRest []],
      r.2.length = 2 ∧ (∀ log ∈ r.2.head?, .initialized ∈ log)
        ∧ ∀ later ∈ r.2.getLast?, .called .Create unmarked (some unmarked) none ∈ later := by
    decide +kernel
  obtain ⟨⟨stored, logs⟩, h⟩ := Option.isSome_iff_exists.1 hrun
  obtain ⟨hlen, hlog, hlater⟩ := hend _ h
  obtain ⟨log, later, rfl⟩ := List.length_eq_two.1 hlen
  exact ⟨setsRest_modest copied, stored, _, log, later, h, rfl, hlog log rfl,
    fun hno => hno _ _ _ (hlater later rfl)⟩

end Run

end Norman.Lifecycle
