import Mathlib.Data.List.Basic

/-!
# Computations over a state that may fail

A computation of `Fallible σ ε α` reads and changes a state of type `σ` and ends with a value or an
error; it may also never end, which is `none`. What it did to the state before an error stays. A
specification (`Spec`) says that from a state in which `pre` holds the computation ends, that the
state before and the one after are related by `R` in any case, and that `post` holds of a value.
-/

/-- State, errors, and computations that do not end. -/
def Fallible (σ ε α : Type*) := σ → Option (Except ε α × σ)

namespace Fallible

universe u

variable {σ α β : Type u} {ε : Type*}

instance : Monad (Fallible σ ε) where
  pure a := fun s => some (.ok a, s)
  bind m f := fun s =>
    match m s with
    | none => none
    | some (.error e, s') => some (.error e, s')
    | some (.ok a, s') => f a s'

/-- A computation that does not end. -/
def diverge : Fallible σ ε α := fun _ => none

/-- A computation that fails. -/
def fail (e : ε) : Fallible σ ε α := fun s => some (.error e, s)

/-- The state. -/
def read : Fallible σ ε σ := fun s => some (.ok s, s)

def ofExcept : Except ε α → Fallible σ ε α := fun r s => some (r, s)

/-- The error is wrapped. -/
def wrap (g : ε → ε) (m : Fallible σ ε α) : Fallible σ ε α := fun s =>
  (m s).map fun r => (r.1.mapError g, r.2)

/-- A computation that ends, as a function. -/
def ofStep (f : σ → Except ε α × σ) : Fallible σ ε α := fun s => some (f s)

/-- The computation ends, and does so well. -/
def Spec (R : σ → σ → Prop) (pre : σ → Prop) (m : Fallible σ ε α) (post : α → σ → Prop) : Prop :=
  ∀ s, pre s → ∃ r s', m s = some (r, s') ∧ R s s' ∧ ∀ a, r = .ok a → post a s'

variable {R : σ → σ → Prop} {pre pre' : σ → Prop} {m : Fallible σ ε α} {f : α → Fallible σ ε β}
  {post post' mid : α → σ → Prop} {post₂ : β → σ → Prop}

theorem Spec.weaken (h : Spec R pre m post) (hpre : ∀ s, pre' s → pre s)
    (hpost : ∀ a s, post a s → post' a s) : Spec R pre' m post' := by
  intro s hs
  obtain ⟨r, s', hm, hr, ha⟩ := h s (hpre s hs)
  exact ⟨r, s', hm, hr, fun a har => hpost a s' (ha a har)⟩

/-- What the relation keeps is kept. -/
theorem Spec.frame (h : Spec R pre m post) {F : σ → Prop} (hF : ∀ s s', R s s' → F s → F s') :
    Spec R (fun s => pre s ∧ F s) m fun a s => post a s ∧ F s := by
  intro s hs
  obtain ⟨r, s', hm, hr, ha⟩ := h s hs.1
  exact ⟨r, s', hm, hr, fun a har => ⟨ha a har, hF s s' hr hs.2⟩⟩

theorem spec_pure (hrefl : ∀ s, R s s) {a : α} (h : ∀ s, pre s → post a s) :
    Spec (ε := ε) R pre (pure a) post := by
  intro s hs
  refine ⟨.ok a, s, rfl, hrefl s, fun b hb => ?_⟩
  cases hb
  exact h s hs

theorem spec_fail (hrefl : ∀ s, R s s) (e : ε) : Spec R pre (fail e) post := by
  intro s _
  exact ⟨.error e, s, rfl, hrefl s, fun b hb => by cases hb⟩

theorem spec_read_bind {f : σ → Fallible σ ε β}
    (h : ∀ a, pre a → Spec R (fun s => s = a ∧ pre s) (f a) post₂) :
    Spec R pre (read >>= f) post₂ := fun s hs => h s hs s ⟨rfl, hs⟩

theorem spec_ofExcept_bind (hrefl : ∀ s, R s s) {r : Except ε α}
    (h : ∀ a, r = .ok a → Spec R pre (f a) post₂) : Spec R pre (ofExcept r >>= f) post₂ := by
  rcases r with e | a
  · exact spec_fail hrefl e
  · exact h a rfl

theorem Spec.wrap (h : Spec R pre m post) (g : ε → ε) : Spec R pre (m.wrap g) post := by
  intro s hs
  obtain ⟨r, s', hm, hr, ha⟩ := h s hs
  refine ⟨r.mapError g, s', by simp only [Fallible.wrap, hm, Option.map_some], hr, fun a har => ?_⟩
  rcases r with e | b
  · cases har
  · exact ha a har

theorem Spec.bind (htrans : ∀ {s s' s''}, R s s' → R s' s'' → R s s'') (h : Spec R pre m mid)
    (hf : ∀ a, Spec R (mid a) (f a) post₂) : Spec R pre (m >>= f) post₂ := by
  intro s hs
  obtain ⟨r, s', hm, hr, ha⟩ := h s hs
  rcases r with e | a
  · refine ⟨.error e, s', ?_, hr, fun b hb => by cases hb⟩
    simp only [Bind.bind, hm]
  · obtain ⟨r', s'', hm', hr', hb⟩ := hf a s' (ha a rfl)
    refine ⟨r', s'', ?_, htrans hr hr', hb⟩
    simp only [Bind.bind, hm]
    exact hm'

/-- A loop keeps what each round keeps. -/
theorem spec_foldlM (hrefl : ∀ s, R s s) (htrans : ∀ {s s' s''}, R s s' → R s' s'' → R s s'')
    {γ : Type*} {step : α → γ → Fallible σ ε α} : ∀ (l : List γ) (a : α),
      (∀ a, ∀ x ∈ l, Spec R (post a) (step a x) post) → Spec R (post a) (l.foldlM step a) post
  | [], a, _ => spec_pure hrefl fun _ hs => hs
  | x :: l, a, h => by
    rw [List.foldlM_cons]
    refine Spec.bind htrans (h a x List.mem_cons_self) fun b => ?_
    exact spec_foldlM hrefl htrans l b fun c y hy => h c y (List.mem_cons_of_mem x hy)

end Fallible
