import Norman.Lib.Run
import Norman.Proofs.Reach

/-!
# The loops of `process`

Each turn of a loop is about one object: another key finds what it found before (`SameAt`), and an
error is reported exactly if a call failed or no patch could be worked out (`Reports`). The keys of
a loop being different, what a turn comes to for its object is still there at the end
(`Run.foldl_at`).
-/

namespace Norman.Objectset

section Reports

/-- From `a` with the errors `es` to `a'` with the errors `es'`: errors stay, and there are new ones
if a call failed, and only if one did or `bad`. -/
structure Reports (bad : Prop) (a : Api) (es : List Err) (a' : Api) (es' : List Err) : Prop where
  merge : a'.merge = a.merge
  grows : a.calls <+: a'.calls
  keeps : es ≠ [] → es' ≠ []
  told : Fails a a' → es' ≠ []
  cause : es' ≠ [] → es ≠ [] ∨ Fails a a' ∨ bad

variable {bad : Prop} {a a' a'' : Api} {es es' es'' : List Err}

theorem Reports.refl : Reports bad a es a es :=
  ⟨rfl, List.prefix_rfl, id, by simp [Fails], .inl⟩

theorem Reports.trans (h : Reports bad a es a' es') (h' : Reports bad a' es' a'' es'') :
    Reports bad a es a'' es'' where
  merge := h'.merge.trans h.merge
  grows := h.grows.trans h'.grows
  keeps he := h'.keeps (h.keeps he)
  told hf := ((fails_trans h.grows h'.grows).1 hf).elim (fun hf => h'.keeps (h.told hf)) h'.told
  cause he := by
    rw [fails_trans h.grows h'.grows]
    rcases h'.cause he with he | hf | hb
    · rcases h.cause he with he | hf | hb
      · exact .inl he
      · exact .inr (.inl (.inl hf))
      · exact .inr (.inr hb)
    · exact .inr (.inl (.inr hf))
    · exact .inr (.inr hb)

theorem Reports.mono {bad' : Prop} (h : Reports bad a es a' es') (hb : bad → bad') :
    Reports bad' a es a' es' :=
  { h with cause := fun he => (h.cause he).imp_right (Or.imp_right hb) }

end Reports

section Turn

/-- A key finds in `s'` what it found in `s`. -/
structure SameAt (g : GroupVersionKind) (k : ObjectKey) (s s' : Progress) : Prop where
  grows : s.api.calls <+: s'.api.calls
  keeps : s.errs ≠ [] → s'.errs ≠ []
  cluster : s'.api.cluster.get g k = s.api.cluster.get g k
  existing : s'.existing.get k = s.existing.get k
  toUpdate : k ∈ s'.toUpdate ↔ k ∈ s.toUpdate

/-- A turn of a loop for `k`. -/
structure Turn (bad : Prop) (g : GroupVersionKind) (k : ObjectKey) (s s' : Progress) : Prop where
  reports : Reports bad s.api s.errs s'.api s'.errs
  others : ∀ {k'}, k' ≠ k → SameAt g k' s s'
  nodup : s.toUpdate.Nodup → s'.toUpdate.Nodup

variable {bad : Prop} {g : GroupVersionKind} {k : ObjectKey} {s s' s'' : Progress}

theorem SameAt.refl : SameAt g k s s := ⟨List.prefix_rfl, id, rfl, rfl, .rfl⟩

theorem SameAt.trans (h : SameAt g k s s') (h' : SameAt g k s' s'') : SameAt g k s s'' :=
  ⟨h.grows.trans h'.grows, fun he => h'.keeps (h.keeps he), h'.cluster.trans h.cluster,
    h'.existing.trans h.existing, h'.toUpdate.trans h.toUpdate⟩

/-- A turn that stays at its object and reports with the errors `es`. -/
theorem Turn.of_within {P : Call → Prop} {outcome : Prop}
    (h : Within P (fun g' k' => ¬ (g' = g ∧ k' = k)) s.api s'.api)
    (hup : (s'.toUpdate = s.toUpdate ∧ s'.existing = s.existing)
      ∨ (k ∉ s.toUpdate ∧ ∃ old, s'.toUpdate = s.toUpdate ++ [k]
        ∧ s'.existing = s.existing.set k old))
    (hes : ∃ es, s'.errs = s.errs ++ es ∧ (Fails s.api s'.api → es ≠ [])
      ∧ (es ≠ [] → Fails s.api s'.api ∨ bad) ∧ outcome) : Turn bad g k s s' ∧ outcome := by
  obtain ⟨es, herrs, htold, hcause, hout⟩ := hes
  have hr : Reports bad s.api s.errs s'.api s'.errs := by
    refine ⟨h.merge, h.grows, fun he => by simp [herrs, he], fun hf => by simp [herrs, htold hf],
      fun he => ?_⟩
    by_cases hnil : s.errs = []
    · exact .inr (hcause (by simpa [herrs, hnil] using he))
    · exact .inl hnil
  refine ⟨⟨hr, fun {k'} hne => ⟨hr.grows, hr.keeps, h.frame fun hk => hne hk.2, ?_, ?_⟩, ?_⟩, hout⟩
    <;> rcases hup with ⟨h1, h2⟩ | ⟨hk, old, h1, h2⟩
  · rw [h2]
  · rw [h2, SortedMap.get_set, if_neg hne]
  · rw [h1]
  · simp [h1, hne]
  · exact fun hnd => h1 ▸ hnd
  · intro hnd
    rw [h1]
    exact List.nodup_append.2 ⟨hnd, by simp, fun x hx y hy hxy => by simp_all⟩

/-- A loop over different keys, with what a turn comes to for its key. -/
theorem loop_spec {f : Progress → ObjectKey → Progress} {outcome : ObjectKey → Progress → Prop}
    {ks : List ObjectKey} (hnd : ks.Nodup) (hs : s.toUpdate.Nodup)
    (hturn : ∀ k ∈ ks, ∀ s', SameAt g k s s' → s'.api.merge = s.api.merge →
      Turn bad g k s' (f s' k) ∧ outcome k s') :
    (Reports bad s.api s.errs (ks.foldl f s).api (ks.foldl f s).errs
        ∧ (ks.foldl f s).toUpdate.Nodup)
      ∧ (∀ k ∈ ks, ∃ s', SameAt g k s s' ∧ s'.api.calls <+: (f s' k).api.calls ∧ outcome k s'
        ∧ SameAt g k (f s' k) (ks.foldl f s))
      ∧ ∀ k, k ∉ ks → SameAt g k s (ks.foldl f s) := by
  obtain ⟨h1, h2, h3⟩ := Run.foldl_at (f := f) (R := SameAt g)
    (P := fun s' => Reports bad s.api s.errs s'.api s'.errs ∧ s'.toUpdate.Nodup)
    (fun _ _ => .refl) SameAt.trans hnd ⟨.refl, hs⟩ fun k hk s' hR hP => by
      have ht := (hturn k hk s' hR hP.1.merge).1
      exact ⟨⟨hP.1.trans ht.reports, ht.nodup hP.2⟩, fun k' => ht.others⟩
  refine ⟨h1, fun k hk => ?_, h3⟩
  obtain ⟨s', hR, hP, hend⟩ := h2 k hk
  obtain ⟨ht, hout⟩ := hturn k hk s' hR hP.1.merge
  exact ⟨s', hR, ht.reports.grows, hout, hend⟩

end Turn

section Outcome

/-- The wanted objects are under their keys, have names, namespaces where their kind has them, and
the set's label. -/
def Ready (hash : String) (p : ObjectClient) (want : ObjectKey → Option Doc) : Prop :=
  ∀ {k new}, want k = some new → p.namespaced = decide (k.ns ≠ "") ∧ newObjectKey new = k
    ∧ k.name ≠ "" ∧ Carries hash new

/-- No patch can be worked out for a wanted object that is in the cluster. -/
def BadAt (env : Env) (inputID : String) (c : Cluster) (g : GroupVersionKind)
    (want : ObjectKey → Option Doc) (k : ObjectKey) : Prop :=
  ∃ old new e, c.get g k = some old ∧ want k = some new
    ∧ sentFor env g inputID old new = .error e

/-- What comes of a wanted object: a patch can be worked out for it if it needs one, and it is there
with the label, or a call at it failed, or no patch can be worked out, which is an error. -/
def Settled (env : Env) (inputID hash : String) (c : Cluster) (g : GroupVersionKind)
    (want : ObjectKey → Option Doc) (a a' : Api) (es : List Err) (k : ObjectKey) : Prop :=
  (¬ BadAt env inputID c g want k ∧ ∃ y, a'.cluster.get g k = some y ∧ Carries hash y)
    ∨ FailsAt g k a a' ∨ (es ≠ [] ∧ BadAt env inputID c g want k)

/-- What comes of an object that is not wanted: it is gone, or its deletion failed. -/
def Pruned (g : GroupVersionKind) (a a' : Api) (k : ObjectKey) : Prop :=
  a'.cluster.get g k = none
    ∨ ∃ c ∈ made a a', c.verb = .delete ∧ c.gvk = g ∧ c.key = k ∧ c.failed

variable {env : Env} {inputID hash : String} {c c' : Cluster} {g : GroupVersionKind}
  {want : ObjectKey → Option Doc} {a a₁ a₂ a' : Api} {es es' : List Err} {k : ObjectKey}

theorem badAt_congr (h : c'.get g k = c.get g k) :
    BadAt env inputID c' g want k ↔ BadAt env inputID c g want k := by
  simp only [BadAt, h]

theorem settled_congr (h : c'.get g k = c.get g k) :
    Settled env inputID hash c' g want a a' es k ↔ Settled env inputID hash c g want a a' es k := by
  simp only [Settled, badAt_congr h]

theorem Settled.mono (h : Settled env inputID hash c g want a₁ a₂ es k)
    (h₁ : a.calls <+: a₁.calls) (h₂ : a₁.calls <+: a₂.calls) (h₃ : a₂.calls <+: a'.calls)
    (hes : es ≠ [] → es' ≠ []) (hc : a'.cluster.get g k = a₂.cluster.get g k) :
    Settled env inputID hash c g want a a' es' k := by
  rw [Settled, hc]
  exact h.imp_right (Or.imp (fun hf => hf.mono h₁ h₂ h₃) (And.imp_left hes))

theorem Pruned.mono (h : Pruned g a₁ a₂ k) (h₁ : a.calls <+: a₁.calls)
    (h₂ : a₁.calls <+: a₂.calls) (h₃ : a₂.calls <+: a'.calls)
    (hc : a'.cluster.get g k = a₂.cluster.get g k) : Pruned g a a' k := by
  rw [Pruned, hc]
  exact h.imp_right fun ⟨c, hmem, hat⟩ => ⟨c, made_mono h₁ h₂ h₃ hmem, hat⟩

end Outcome

section Turns

variable {j : Job} {hash : String} {k : ObjectKey} {new old : Doc} {s : Progress}

/-- A turn of the first loop: the object is created, or a call failed, or the object is there and
goes on to the updates. -/
theorem create_turn (bad : Prop) (hr : Ready hash j.client j.objs.get)
    (hk : j.objs.get k = some new) (hnot : k ∉ s.toUpdate) :
    Turn bad j.client.gvk k s (j.create s k)
      ∧ ((k ∉ (j.create s k).toUpdate ∧ ((s.api.cluster.get j.client.gvk k = none
            ∧ ∃ y, (j.create s k).api.cluster.get j.client.gvk k = some y ∧ Carries hash y)
          ∨ FailsAt j.client.gvk k s.api (j.create s k).api))
        ∨ ∃ old, s.api.cluster.get j.client.gvk k = some old
          ∧ (j.create s k).api.cluster.get j.client.gvk k = some old
          ∧ k ∈ (j.create s k).toUpdate ∧ (j.create s k).existing.get k = some old) := by
  obtain ⟨hscope, hkey, hname, hlabel⟩ := hr hk
  obtain ⟨hw, hup⟩ := create_reach (P := fun _ => True)
    (S := fun g' k' => ¬ (g' = j.client.gvk ∧ k' = k)) hk hkey (fun _ _ => trivial)
    (by simp [path_of_scope hscope]) s
  refine Turn.of_within hw (hup.imp_right fun ⟨old, _, h⟩ => ⟨hnot, old, h⟩) ?_
  clear hw hup
  have hkey' : newObjectKey (prepareObjectForCreate j.env j.inputID new) = k :=
    newObjectKey_prepare.trans hkey
  have hgrows : s.api.calls <+: (j.client.create s.api
      (prepareObjectForCreate j.env j.inputID new)).1.calls :=
    (create_within (P := fun _ => True) (S := fun _ _ => False) (fun _ => trivial) id).grows
  simp only [Job.create, hk, Option.getD_some]
  rcases hc : j.client.create s.api (prepareObjectForCreate j.env j.inputID new) with ⟨a₁, out⟩
  rw [hc] at hgrows
  rcases create_spec hkey' hname hscope hc with
    ⟨x, y, h1, h2, hnone, h3, h4⟩ | ⟨e, old, h1, hae, h2, h3, h4⟩ | ⟨e, h1, hae, hfail⟩
  · obtain rfl : out = .ok x := h1
    refine ⟨[], by simp, fun hf => absurd hf h2, by simp, .inl ⟨hnot, .inl ⟨hnone, y, h3, ?_⟩⟩⟩
    rw [Carries, h4, getLabels_prepare, Assoc.get_set, if_neg (by decide)]
    exact hlabel
  · obtain rfl : out = .error e := h1
    simp only [hae, if_true]
    have hgrows' : a₁.calls <+: (j.client.getNamespaced a₁ k).1.calls :=
      (getNamespaced_within (P := fun _ => True) (S := fun _ _ => False) fun _ => trivial).grows
    have hsame : (j.client.getNamespaced a₁ k).1.cluster.get j.client.gvk k
        = a₁.cluster.get j.client.gvk k :=
      (getNamespaced_within (P := fun _ => True) (S := fun _ _ => True) fun _ => trivial).frame
        trivial
    have hthere : a₁.cluster.get j.client.gvk k = some old := h4 ▸ h3
    rcases hg : j.client.getNamespaced a₁ k with ⟨a₂, out⟩
    rw [hg] at hgrows' hsame
    rcases get_spec hthere hg with ⟨h5, h6⟩ | ⟨e', h5, hfail⟩
    · obtain rfl : out = .ok old := h5
      refine ⟨[], by simp, fun hf => ?_, by simp, .inr ⟨old, h3, hsame.trans hthere, by simp,
        SortedMap.get_set_self _ _ _⟩⟩
      exact absurd ((fails_trans hgrows hgrows').1 hf) (not_or.2 ⟨h2, h6⟩)
    · obtain rfl : out = .error e' := h5
      have hfail' := hfail.mono hgrows hgrows' List.prefix_rfl
      exact ⟨[_], rfl, by simp, fun _ => .inl hfail'.fails, .inl ⟨hnot, .inr hfail'⟩⟩
  · obtain rfl : out = .error e := h1
    simp only [hae, Bool.false_eq_true, if_false]
    exact ⟨[_], rfl, by simp, fun _ => .inl hfail.fails, .inl ⟨hnot, .inr hfail⟩⟩

/-- A turn of the second loop, for an object that is in the cluster as `existing` has it. -/
theorem update_turn {c₀ : Cluster} (hr : Ready hash j.client j.objs.get)
    (hmc : MergeCorrect j.env j.inputID s.api.merge c₀ j.client.gvk j.objs.get)
    (hk : j.objs.get k = some new) (h₀ : c₀.get j.client.gvk k = some old)
    (hs : s.api.cluster.get j.client.gvk k = some old) (hex : s.existing.get k = some old) :
    Turn (∃ k, BadAt j.env j.inputID c₀ j.client.gvk j.objs.get k) j.client.gvk k s (j.update s k)
      ∧ Settled j.env j.inputID hash c₀ j.client.gvk j.objs.get s.api (j.update s k).api
          (j.update s k).errs k := by
  obtain ⟨hscope, -, hname, hlabel⟩ := hr hk
  have hw := update_reach (j := j) (P := fun _ => True)
    (S := fun g' k' => ¬ (g' = j.client.gvk ∧ k' = k)) (s := s)
    (fun hx => s.api.cluster.keyed (hs.trans (hex.symm.trans hx))) (fun _ => trivial)
    (by simp [path_of_scope hscope])
  refine Turn.of_within hw (.inl ⟨rfl, rfl⟩) ?_
  clear hw
  have heq : j.update s k = { s with
      api := (compareObjects j.env j.client s.api j.inputID old new).1
      errs := s.errs ++ (compareObjects j.env j.client s.api j.inputID old new).2.toList.map
        fun e => e.wrap (j.failed "update" k) } := by
    simp only [Job.update, hk, hex, Option.getD_some]
  rw [heq]
  rcases hc : compareObjects j.env j.client s.api j.inputID old new with ⟨a₁, out⟩
  rcases compareObjects_spec (hmc h₀ hk) hs hname hscope hc with
    ⟨e, e', hp, h1⟩ | ⟨sent, hp, hout⟩
  · cases h1
    have hb : BadAt j.env j.inputID c₀ j.client.gvk j.objs.get k := ⟨old, new, e, h₀, hk, hp⟩
    exact ⟨[_], rfl, by simp, fun _ => .inr ⟨k, hb⟩, .inr (.inr ⟨by simp, hb⟩)⟩
  · have hbad : ¬ BadAt j.env j.inputID c₀ j.client.gvk j.objs.get k := by
      rintro ⟨old', new', e, h1, h2, h3⟩
      rw [h₀] at h1
      rw [hk] at h2
      cases h1
      cases h2
      rw [hp] at h3
      cases h3
    rcases hout with ⟨h1, h2, y, h3, h4⟩ | ⟨e, h1, hfail⟩
    · obtain rfl : out = none := h1
      exact ⟨[], rfl, fun hf => absurd hf h2, by simp, .inl ⟨hbad, y, h3, h4 _ _ hlabel⟩⟩
    · obtain rfl : out = some e := h1
      exact ⟨[_], rfl, by simp, fun _ => .inl hfail.fails, .inr (.inl hfail)⟩

/-- A turn of the third loop: the object is gone, or the call failed. -/
theorem delete_turn (bad : Prop) (s : Progress) (k : ObjectKey) :
    Turn bad j.client.gvk k s (j.delete s k)
      ∧ Pruned j.client.gvk s.api (j.delete s k).api k := by
  have hw := delete_reach (j := j) (k := k) (P := fun _ => True)
    (S := fun g' k' => ¬ (g' = j.client.gvk ∧ k' = k)) (fun _ => trivial) (by simp) s
  refine Turn.of_within hw (.inl ?_) ?_ <;> clear hw <;> simp only [Job.delete]
  · split <;> exact ⟨rfl, rfl⟩
  rcases hd : j.client.deleteNamespaced s.api k with ⟨a₁, out⟩
  rcases delete_spec hd with ⟨h1, h2, h3⟩ | ⟨e, h1, c, hc, hat⟩
  · obtain rfl : out = .ok () := h1
    exact ⟨[], by simp, fun hf => absurd hf h2, by simp, .inl h3⟩
  · obtain rfl : out = .error e := h1
    exact ⟨[_], rfl, by simp, fun _ => .inl ⟨c, hc, hat.2.2.2⟩, .inr ⟨c, hc, hat⟩⟩

end Turns

section Run

variable {j : Job} {hash : String} {a : Api} {existing : SortedMap ObjectKey Doc}

/-- The three loops, for every wanted object and every object that was found and is not wanted. -/
theorem run_spec (hr : Ready hash j.client j.objs.get)
    (hmc : MergeCorrect j.env j.inputID a.merge a.cluster j.client.gvk j.objs.get)
    (hex : ∀ {k o}, existing.get k = some o → a.cluster.get j.client.gvk k = some o) :
    Reports (∃ k, BadAt j.env j.inputID a.cluster j.client.gvk j.objs.get k) a []
        (j.run a existing).api (j.run a existing).errs
      ∧ (∀ {k new}, j.objs.get k = some new →
        Settled j.env j.inputID hash a.cluster j.client.gvk j.objs.get a (j.run a existing).api
          (j.run a existing).errs k)
      ∧ ∀ {k o}, existing.get k = some o → j.objs.get k = none →
        Pruned j.client.gvk a (j.run a existing).api k := by
  obtain ⟨hnd1, hnd2, hnd3⟩ := nodup_compareSets existing j.objs
  set s₀ : Progress :=
    { api := a, errs := [], toUpdate := (compareSets existing j.objs).2.2, existing } with hs₀
  -- what is to be created is not listed
  have hnot : ∀ {k}, k ∈ (compareSets existing j.objs).1 → k ∉ s₀.toUpdate := by
    intro k hk hk'
    obtain ⟨-, o, ho⟩ := mem_toUpdate.1 hk'
    rw [(mem_toCreate.1 hk).2] at ho
    cases ho
  obtain ⟨⟨hrep₁, hup₁⟩, hin₁, hout₁⟩ := loop_spec (g := j.client.gvk) (f := j.create) (s := s₀)
    hnd1 hnd3 fun k hk s' hs' _ =>
      create_turn (∃ k, BadAt j.env j.inputID a.cluster j.client.gvk j.objs.get k) hr
        (Option.get_mem (Option.isSome_iff_exists.2 (mem_toCreate.1 hk).1))
        fun h => hnot hk (hs'.toUpdate.1 h)
  set s₁ := (compareSets existing j.objs).1.foldl j.create s₀ with hs₁
  have hthere : ∀ k ∈ s₁.toUpdate, ∃ old new, j.objs.get k = some new
      ∧ a.cluster.get j.client.gvk k = some old ∧ s₁.api.cluster.get j.client.gvk k = some old
      ∧ s₁.existing.get k = some old := by
    intro k hk
    by_cases hkc : k ∈ (compareSets existing j.objs).1
    · obtain ⟨new, hnew⟩ := (mem_toCreate.1 hkc).1
      obtain ⟨s', hs', -, ⟨hno, -⟩ | ⟨old, h1, h2, -, h3⟩, hend⟩ := hin₁ k hkc
      · exact absurd (hend.toUpdate.1 hk) hno
      · exact ⟨old, new, hnew, hs'.cluster ▸ h1, hend.cluster.trans h2, hend.existing.trans h3⟩
    · have hsame := hout₁ k hkc
      obtain ⟨⟨new, hnew⟩, o, ho⟩ := mem_toUpdate.1 (hsame.toUpdate.1 hk)
      exact ⟨o, new, hnew, hex ho, hsame.cluster.trans (hex ho), hsame.existing.trans ho⟩
  obtain ⟨⟨hrep₂, hup₂⟩, hin₂, hout₂⟩ := loop_spec (g := j.client.gvk) (f := j.update) (s := s₁)
    hup₁ hup₁ fun k hk s' hs' hm => by
      obtain ⟨old, new, hnew, h₀, h₁, h₂⟩ := hthere k hk
      exact update_turn hr (hm.trans hrep₁.merge ▸ hmc) hnew h₀ (hs'.cluster.trans h₁)
        (hs'.existing.trans h₂)
  set s₂ := s₁.toUpdate.foldl j.update s₁ with hs₂
  obtain ⟨⟨hrep₃, -⟩, hin₃, hout₃⟩ := loop_spec (g := j.client.gvk) (f := j.delete) (s := s₂)
    hnd2 hup₂ fun k _ s' _ _ =>
      delete_turn (∃ k, BadAt j.env j.inputID a.cluster j.client.gvk j.objs.get k) s' k
  have hrun : j.run a existing = (compareSets existing j.objs).2.1.foldl j.delete s₂ := rfl
  rw [hrun]
  refine ⟨(hrep₁.trans hrep₂).trans hrep₃, fun {k new} hnew => ?_, fun {k o} ho hnone => ?_⟩
  · have hkeep := hout₃ k fun hd => by
      rw [(mem_toDelete.1 hd).2] at hnew
      cases hnew
    by_cases hku : k ∈ s₁.toUpdate
    · obtain ⟨s', hs', hgrow, hout, hend⟩ := hin₂ k hku
      have hend := hend.trans hkeep
      exact hout.mono (hrep₁.grows.trans hs'.grows) hgrow hend.grows hend.keeps hend.cluster
    · have hkc : k ∈ (compareSets existing j.objs).1 := by
        by_contra hkc
        refine hku ((hout₁ k hkc).toUpdate.2 (mem_toUpdate.2 ⟨⟨new, hnew⟩, ?_⟩))
        exact Option.ne_none_iff_exists'.1 fun hnone => hkc (mem_toCreate.2 ⟨⟨new, hnew⟩, hnone⟩)
      obtain ⟨s', hs', hgrow, ⟨-, hout⟩ | ⟨old, -, -, h3, -⟩, hend⟩ := hin₁ k hkc
      · have hend := (hend.trans (hout₂ k hku)).trans hkeep
        rcases hout with ⟨hnone, y, hy, hc⟩ | hf
        · refine .inl ⟨?_, y, hend.cluster.trans hy, hc⟩
          rintro ⟨old, _, _, hold, -⟩
          rw [hs'.cluster.trans hold] at hnone
          cases hnone
        · exact .inr (.inl (hf.mono hs'.grows hgrow hend.grows))
      · exact absurd (hend.toUpdate.2 h3) hku
  · obtain ⟨s', hs', hgrow, hout, hend⟩ := hin₃ k (mem_toDelete.2 ⟨⟨o, ho⟩, hnone⟩)
    exact hout.mono ((hrep₁.grows.trans hrep₂.grows).trans hs'.grows) hgrow hend.grows hend.cluster

end Run

end Norman.Objectset
