import Mathlib.Data.List.Basic

/-!
# Runs of a partial step function

A system is a step function `step : σ → α → Option (σ × List ω)`: an action either is not enabled,
or leads to a next state and emits what can be observed of it. `exec` takes a list of actions one
after another, and a property of the state and of all that was emitted so far holds of every run
if it holds at the start and one step keeps it (`exec_invariant`). A run whose steps all meet a
condition (`Along`) keeps what such steps keep; where a step that does not meet it spoils the state
for good, the end of a run tells which of the two it was (`exec_split`). A loop over different keys
can be looked at one key at a time (`foldl_at`).
-/

namespace Run

variable {σ α ω : Type*}

/-- Take the actions one after another, from `s`. -/
def exec (step : σ → α → Option (σ × List ω)) : σ → List α → Option (σ × List ω)
  | s, [] => some (s, [])
  | s, a :: as =>
    match step s a with
    | none => none
    | some (s', o) => (exec step s' as).map fun r => (r.1, o ++ r.2)

variable {step : σ → α → Option (σ × List ω)} {P : σ → List ω → Prop}

theorem exec_cons {s t : σ} {a : α} {as : List α} {w : List ω}
    (h : exec step s (a :: as) = some (t, w)) :
    ∃ s' o w', step s a = some (s', o) ∧ exec step s' as = some (t, w') ∧ w = o ++ w' := by
  simp only [exec] at h
  split at h
  · cases h
  · rename_i s' o hs
    simp only [Option.map_eq_some_iff, Prod.mk.injEq] at h
    obtain ⟨⟨t', w'⟩, hr, rfl, rfl⟩ := h
    exact ⟨s', o, w', hs, hr, rfl⟩

theorem exec_singleton (s : σ) (a : α) : exec step s [a] = step s a := by
  simp only [exec]
  split <;> simp [*]

theorem exec_invariant_from
    (hstep : ∀ s w a s' o, P s w → step s a = some (s', o) → P s' (w ++ o)) :
    ∀ (as : List α) {s t : σ} {w v : List ω}, P s w → exec step s as = some (t, v) →
      P t (w ++ v)
  | [], s, t, w, v, hs, h => by
    simp only [exec, Option.some.injEq, Prod.mk.injEq] at h
    obtain ⟨rfl, rfl⟩ := h
    simpa using hs
  | a :: as, s, t, w, v, hs, h => by
    obtain ⟨s', o, w', h1, h2, rfl⟩ := exec_cons h
    have := exec_invariant_from hstep as (hstep s w a s' o hs h1) h2
    rwa [List.append_assoc] at this

/-- What holds at the start and is kept by every step holds at the end of every run. -/
theorem exec_invariant {s₀ : σ} (hinit : P s₀ [])
    (hstep : ∀ s w a s' o, P s w → step s a = some (s', o) → P s' (w ++ o))
    {as : List α} {s : σ} {w : List ω} (h : exec step s₀ as = some (s, w)) : P s w := by
  simpa using exec_invariant_from hstep as hinit h

/-- A counter that a step raises by at most one is raised by at most the length of the run. -/
theorem exec_le_length (f : σ → Int)
    (hstep : ∀ s w a s' o, P s w → step s a = some (s', o) → P s' (w ++ o) ∧ f s' ≤ f s + 1) :
    ∀ (as : List α) {s t : σ} {w v : List ω}, P s w → exec step s as = some (t, v) →
      f t ≤ f s + as.length
  | [], _, _, _, _, _, h => by
    cases h
    simp
  | a :: as, s, t, w, v, hs, h => by
    obtain ⟨s', o, w', h1, h2, -⟩ := exec_cons h
    obtain ⟨hs', hle⟩ := hstep s w a s' o hs h1
    have hrest := exec_le_length f hstep as hs' h2
    simp only [List.length_cons, Int.natCast_succ]
    omega

/-- If a step can always be taken, so can a run. -/
theorem exec_isSome {I : σ → Prop} {Q : α → Prop}
    (hstep : ∀ s a, I s → Q a → ∃ s' o, step s a = some (s', o) ∧ I s') :
    ∀ {as : List α} {s : σ}, I s → (∀ a ∈ as, Q a) → (exec step s as).isSome
  | [], _, _, _ => rfl
  | a :: as, s, hs, hq => by
    obtain ⟨s', o, h1, hs'⟩ := hstep s a hs (hq a List.mem_cons_self)
    have hrest := exec_isSome hstep hs' fun b hb => hq b (List.mem_cons_of_mem a hb)
    simp only [exec, h1, Option.isSome_map]
    exact hrest

section Along

variable {P : σ → α → Prop}

/-- Every step that is taken meets the condition, which is about the state before it. -/
def Along (step : σ → α → Option (σ × List ω)) (P : σ → α → Prop) : σ → List α → Prop
  | _, [] => True
  | s, a :: as => P s a ∧
    match step s a with
    | none => True
    | some (s', _) => Along step P s' as

instance decidableAlong [∀ s a, Decidable (P s a)] :
    ∀ (as : List α) (s : σ), Decidable (Along step P s as)
  | [], _ => isTrue trivial
  | a :: as, s =>
    have : Decidable (match step s a with
        | none => True
        | some (s', _) => Along step P s' as) :=
      match step s a with
      | none => isTrue trivial
      | some (s', _) => decidableAlong as s'
    inferInstanceAs (Decidable (_ ∧ _))

/-- A state is good up to the first step that does not meet the condition, and bad from there on. -/
theorem exec_split {good : σ → List ω → Prop} (bad : σ → List ω → Prop)
    (hgood : ∀ s w a s' o, good s w → step s a = some (s', o) →
      (P s a → good s' (w ++ o)) ∧ (¬ P s a → bad s' (w ++ o)))
    (hbad : ∀ s w a s' o, bad s w → step s a = some (s', o) → bad s' (w ++ o)) :
    ∀ (as : List α) {s t : σ} {w v : List ω}, good s w → exec step s as = some (t, v) →
      (Along step P s as ∧ good t (w ++ v)) ∨ (¬ Along step P s as ∧ bad t (w ++ v))
  | [], s, t, w, v, hs, h => by
    simp only [exec, Option.some.injEq, Prod.mk.injEq] at h
    obtain ⟨rfl, rfl⟩ := h
    exact .inl ⟨trivial, by simpa using hs⟩
  | a :: as, s, t, w, v, hs, h => by
    obtain ⟨s', o, w', h1, h2, rfl⟩ := exec_cons h
    obtain ⟨hmeet, hmiss⟩ := hgood s w a s' o hs h1
    rw [← List.append_assoc]
    simp only [Along, h1]
    by_cases hp : P s a
    · rcases exec_split bad hgood hbad as (hmeet hp) h2 with ⟨ha, ht⟩ | ⟨ha, ht⟩
      · exact .inl ⟨⟨hp, ha⟩, ht⟩
      · exact .inr ⟨fun h => ha h.2, ht⟩
    · exact .inr ⟨fun h => hp h.1, exec_invariant_from hbad as (hmiss hp) h2⟩

/-- What steps that meet the condition keep holds at the end of a run of such steps. -/
theorem exec_invariant_along (good : σ → List ω → Prop) {s₀ : σ} (hinit : good s₀ [])
    (hstep : ∀ s w a s' o, good s w → P s a → step s a = some (s', o) → good s' (w ++ o))
    {as : List α} {s : σ} {w : List ω} (h : exec step s₀ as = some (s, w))
    (ha : Along step P s₀ as) : good s w := by
  rcases exec_split (P := P) (fun _ _ => True)
      (fun s w a s' o hs h => ⟨fun hp => hstep s w a s' o hs hp h, fun _ => trivial⟩)
      (fun _ _ _ _ _ _ _ => trivial) as hinit h with ⟨-, ht⟩ | ⟨hna, -⟩
  · simpa using ht
  · exact absurd ha hna

/-- Where a step from a good state leads to a good one iff it meets the condition, all states of a
run are good iff all its steps meet it. -/
theorem forall_take_iff_along {I good : σ → Prop} {Q : α → Prop}
    (hstep : ∀ s a, I s → Q a →
      ∃ s' o, step s a = some (s', o) ∧ I s' ∧ (good s → (good s' ↔ P s a))) :
    ∀ {as : List α} {s : σ}, I s → good s → (∀ a ∈ as, Q a) →
      ((∀ n t w, exec step s (as.take n) = some (t, w) → good t) ↔ Along step P s as)
  | [], s, _, hs, _ => by
    refine ⟨fun _ => trivial, fun _ n t w h => ?_⟩
    rw [List.take_nil] at h
    cases h
    exact hs
  | a :: as, s, hi, hs, hq => by
    obtain ⟨s', o, h1, hi', hiff⟩ := hstep s a hi (hq a List.mem_cons_self)
    have hcons : ∀ {n t w}, exec step s' (as.take n) = some (t, w) →
        exec step s ((a :: as).take (n + 1)) = some (t, o ++ w) := by
      intro n t w h
      simp only [List.take_succ_cons, exec, h1, h, Option.map_some]
    have hq' : ∀ b ∈ as, Q b := fun b hb => hq b (List.mem_cons_of_mem a hb)
    simp only [Along, h1]
    constructor
    · intro hall
      have hs' : good s' := hall 1 s' (o ++ []) (hcons (n := 0) rfl)
      refine ⟨(hiff hs).1 hs', (forall_take_iff_along hstep hi' hs' hq').1 fun n t w h => ?_⟩
      exact hall (n + 1) t _ (hcons h)
    · rintro ⟨hp, halong⟩ n t w h
      cases n with
      | zero =>
        cases h
        exact hs
      | succ n =>
        obtain ⟨s'', o', w', h1', h2, -⟩ := exec_cons h
        obtain ⟨rfl, -⟩ := Prod.mk.inj (Option.some.inj (h1.symm.trans h1'))
        exact (forall_take_iff_along hstep hi' ((hiff hs).2 hp) hq').2 halong n t w' h2

/-- A condition on the actions alone. -/
theorem along_of_forall {Q : α → Prop} : ∀ {as : List α} {s : σ}, (∀ a ∈ as, Q a) →
    Along step (fun _ => Q) s as
  | [], _, _ => trivial
  | a :: as, s, h => by
    refine ⟨h a List.mem_cons_self, ?_⟩
    split
    · trivial
    · exact along_of_forall fun b hb => h b (List.mem_cons_of_mem a hb)

end Along

section Foldl

variable {κ : Type*} {f : σ → κ → σ}

/-- A loop over different keys whose turns keep `P`, and what the other keys see of the state
(`R`): in its turn a key finds what it saw at the start, and what it then sees stays to the end. -/
theorem foldl_at {R : κ → σ → σ → Prop} (hrefl : ∀ k s, R k s s)
    (htrans : ∀ {k s s' s''}, R k s s' → R k s' s'' → R k s s'') {P : σ → Prop} :
    ∀ {ks : List κ} {s : σ}, ks.Nodup → P s →
      (∀ k ∈ ks, ∀ s', R k s s' → P s' → P (f s' k) ∧ ∀ k', k' ≠ k → R k' s' (f s' k)) →
      P (ks.foldl f s) ∧ (∀ k ∈ ks, ∃ s', R k s s' ∧ P s' ∧ R k (f s' k) (ks.foldl f s))
        ∧ ∀ k, k ∉ ks → R k s (ks.foldl f s)
  | [], s, _, hs, _ => ⟨hs, by simp, fun k _ => hrefl k s⟩
  | k :: ks, s, hnd, hs, h => by
    obtain ⟨hk, hnd⟩ := List.nodup_cons.1 hnd
    obtain ⟨hP, hothers⟩ := h k List.mem_cons_self s (hrefl k s) hs
    have hne : ∀ {k'}, k' ∈ ks → k' ≠ k := fun hk' heq => hk (heq ▸ hk')
    obtain ⟨h1, h2, h3⟩ := foldl_at hrefl htrans hnd hP fun k' hk' s' hR =>
      h k' (List.mem_cons_of_mem _ hk') s' (htrans (hothers k' (hne hk')) hR)
    refine ⟨h1, fun k' hk' => ?_, fun k' hk' => ?_⟩
    · rcases List.mem_cons.1 hk' with rfl | hk'
      · exact ⟨s, hrefl _ s, hs, h3 _ hk⟩
      · obtain ⟨s', hR, hP', hend⟩ := h2 k' hk'
        exact ⟨s', htrans (hothers k' (hne hk')) hR, hP', hend⟩
    · rw [List.mem_cons, not_or] at hk'
      exact htrans (hothers k' hk'.1) (h3 k' hk'.2)

end Foldl

end Run
