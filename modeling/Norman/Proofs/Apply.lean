import Norman.Proofs.Turns

/-!
# Applying a set, kind by kind

What `process` finds for a kind with a registered client is what carries the set's label, so what
comes of the kind (`Processed`) is what comes of its loops. The kinds are different and a kind's
turn leaves the objects of the others alone, so what comes of all of them (`Applied`) is what comes
of each. A kind for which the objects with the label are those that are wanted is at rest: nothing
is created or deleted for it (`Steady`).
-/

namespace Norman.Objectset

variable {env : Env} {inputID hash : String} {objs : ObjectCollection} {g : GroupVersionKind}
  {p : ObjectClient} {s s' : DesiredSet × Api}

/-- `process`, of a kind with a registered client: what it finds is what carries the label. -/
theorem process_registered (env : Env) (inputID hash : String) (objs : ObjectCollection)
    (hp : s.1.clients.get g = some p) :
    ∃ (j : Job) (existing : SortedMap ObjectKey Doc), j.env = env ∧ j.inputID = inputID
      ∧ j.client = p ∧ j.objs.get = objs.want g
      ∧ (∀ {k x}, existing.get k = some x ↔ s.2.cluster.get g k = some x ∧ Carries hash x)
      ∧ process env inputID (requirement LabelHash hash) objs s g
        = ({ s.1 with errs := s.1.errs ++ (j.run s.2 existing).errs }, (j.run s.2 existing).api) := by
  obtain rfl : p.gvk = g := s.1.clientsFiled hp
  obtain ⟨existing, hlist, hget⟩ := list_current s.2 p (requirement LabelHash hash)
  refine ⟨{ env, client := p, inputID, debugID := s.1.debugID, objs := (objs.get p.gvk).getD ∅ },
    existing, rfl, rfl, rfl, rfl, fun {k x} => ?_, ?_⟩
  · rw [hget, Option.filter_eq_some_iff]
    simp [requirement, Carries]
  · simp only [process, DesiredSet.getControllerAndObjectClient, hp, if_true, hlist]

/-- A kind finds in `s'` what it found in `s`. -/
structure SameFor (g : GroupVersionKind) (s s' : DesiredSet × Api) : Prop where
  grows : s.2.calls <+: s'.2.calls
  keeps : s.1.errs ≠ [] → s'.1.errs ≠ []
  cluster : ∀ k, s'.2.cluster.get g k = s.2.cluster.get g k

theorem SameFor.refl : SameFor g s s := ⟨List.prefix_rfl, id, fun _ => rfl⟩

theorem SameFor.trans {s'' : DesiredSet × Api} (h : SameFor g s s') (h' : SameFor g s' s'') :
    SameFor g s s'' :=
  ⟨h.grows.trans h'.grows, fun he => h'.keeps (h.keeps he),
    fun k => (h'.cluster k).trans (h.cluster k)⟩

section Applied

/-- An object that is not wanted and does not carry the label. -/
def Foreign (hash : String) (want : Wanted) (c : Cluster) (g : GroupVersionKind) (k : ObjectKey) :
    Prop :=
  want g k = none ∧ ∀ x, c.get g k = some x → ¬ Carries hash x

/-- What came of the kinds `gs`. -/
structure Applied (env : Env) (inputID hash : String) (want : Wanted) (gs : List GroupVersionKind)
    (s s' : DesiredSet × Api) : Prop where
  set : s'.1 = { s.1 with errs := s'.1.errs }
  within : Within (fun _ => True) (fun g k => g ∈ gs → Foreign hash want s.2.cluster g k) s.2 s'.2
  reports : Reports (∃ g ∈ gs, ∃ k, BadAt env inputID s.2.cluster g (want g) k) s.2 s.1.errs s'.2
    s'.1.errs
  desired : ∀ {g k new}, g ∈ gs → want g k = some new →
    Settled env inputID hash s.2.cluster g (want g) s.2 s'.2 s'.1.errs k
  pruned : ∀ {g k x}, g ∈ gs → s.2.cluster.get g k = some x → Carries hash x → want g k = none →
    Pruned g s.2 s'.2 k

theorem process_applied (hp : s.1.clients.get g = some p) (hr : Ready hash p (objs.want g))
    (hmc : MergeCorrect env inputID s.2.merge s.2.cluster g (objs.want g)) :
    Applied env inputID hash objs.want [g] s
      (process env inputID (requirement LabelHash hash) objs s g) := by
  obtain ⟨j, existing, rfl, rfl, rfl, hobjs, hex, heq⟩ :=
    process_registered env inputID hash objs hp
  obtain rfl : j.client.gvk = g := s.1.clientsFiled hp
  rw [← hobjs] at hr hmc
  obtain ⟨hrep, hdesired, hpruned⟩ := run_spec hr hmc fun hx => (hex.1 hx).1
  have hwithin : Within (fun _ => True)
      (fun g k => g ∈ [j.client.gvk] → Foreign hash objs.want s.2.cluster g k) s.2
      (j.run s.2 existing).api := by
    refine Job.Allows.run ⟨fun hk => (hr hk).2.1, fun hx => s.2.cluster.keyed (hex.1 hx).1,
      fun _ _ _ _ => trivial, fun {k new} hk => ⟨fun _ => trivial, fun hS => ?_⟩,
      fun {k} hk => ⟨fun _ => trivial, fun hS => ?_⟩⟩ s.2
    · rw [path_of_scope (hr hk).1] at hS
      have hnone := (hS (List.mem_singleton_self _)).1
      rw [← hobjs, hk] at hnone
      cases hnone
    · obtain ⟨⟨x, hx⟩, -⟩ := mem_toDelete.1 hk
      exact (hS (List.mem_singleton_self _)).2 x (hex.1 hx).1 (hex.1 hx).2
  rw [heq]
  refine ⟨rfl, hwithin, ⟨hrep.merge, hrep.grows, fun he => by simp [he], fun hf => ?_, fun he => ?_⟩,
    fun {g k new} hg hk => ?_, fun {g k x} hg hx hc hk => ?_⟩
  · simp [hrep.told hf]
  · by_cases hnil : s.1.errs = []
    · rw [hobjs] at hrep
      exact .inr ((hrep.cause (by simpa [hnil] using he)).resolve_left (by simp) |>.imp_right
        fun hb => ⟨_, List.mem_singleton_self _, hb⟩)
    · exact .inl hnil
  · obtain rfl := List.mem_singleton.1 hg
    rw [← hobjs] at hk ⊢
    exact (hdesired hk).mono List.prefix_rfl hwithin.grows List.prefix_rfl (by simp +contextual) rfl
  · obtain rfl := List.mem_singleton.1 hg
    exact hpruned (hex.2 ⟨hx, hc⟩) (hobjs ▸ hk)

/-- The loop of `Apply` over the kinds. -/
theorem processes_applied {gs : List GroupVersionKind} (hnd : gs.Nodup)
    (hgs : ∀ g ∈ gs, (∃ p, s.1.clients.get g = some p ∧ Ready hash p (objs.want g))
      ∧ MergeCorrect env inputID s.2.merge s.2.cluster g (objs.want g)) :
    Applied env inputID hash objs.want gs s
      (gs.foldl (process env inputID (requirement LabelHash hash) objs) s) := by
  have hturn : ∀ g ∈ gs, ∀ s', SameFor g s s' → s'.1 = { s.1 with errs := s'.1.errs } →
      s'.2.merge = s.2.merge → Applied env inputID hash objs.want [g] s'
        (process env inputID (requirement LabelHash hash) objs s' g) := by
    intro g hg s' hsame hset hmerge
    obtain ⟨⟨p, hp, hr⟩, hmc⟩ := hgs g hg
    exact process_applied (by rw [hset]; exact hp) hr (hmerge ▸ hmc.congr hsame.cluster)
  obtain ⟨⟨hset, hwithin, hrep⟩, hin, -⟩ := Run.foldl_at (R := SameFor)
    (P := fun s' => s'.1 = { s.1 with errs := s'.1.errs }
      ∧ Within (fun _ => True) (fun g k => g ∈ gs → Foreign hash objs.want s.2.cluster g k) s.2 s'.2
      ∧ Reports (∃ g ∈ gs, ∃ k, BadAt env inputID s.2.cluster g (objs.want g) k) s.2 s.1.errs s'.2
        s'.1.errs)
    (fun _ _ => .refl) SameFor.trans hnd ⟨rfl, .refl, .refl⟩ fun g hg s' hsame hP => by
      have h := hturn g hg s' hsame hP.1 hP.2.1.merge
      refine ⟨⟨by rw [h.set, hP.1], hP.2.1.trans (h.within.mono (fun _ => id) ?_),
        hP.2.2.trans (h.reports.mono ?_)⟩, fun g' hne => ⟨h.reports.grows, h.reports.keeps, fun k =>
          h.within.frame fun hmem => absurd (List.mem_singleton.1 hmem) hne⟩⟩
      · intro g' k hS hg'
        obtain rfl := List.mem_singleton.1 hg'
        obtain ⟨hnone, hno⟩ := hS hg
        exact ⟨hnone, by rwa [hsame.cluster]⟩
      · rintro ⟨g', hg', k, hb⟩
        obtain rfl := List.mem_singleton.1 hg'
        exact ⟨g', hg, k, (badAt_congr (hsame.cluster k)).1 hb⟩
  refine ⟨hset, hwithin, hrep, fun {g k new} hg hk => ?_, fun {g k x} hg hx hc hk => ?_⟩ <;>
    obtain ⟨s', hsame, hP, hend⟩ := hin g hg <;>
    have h := hturn g hg s' hsame hP.1 hP.2.1.merge
  · exact ((settled_congr (hsame.cluster k)).1 (h.desired (List.mem_singleton_self g) hk)).mono
      hsame.grows h.reports.grows hend.grows hend.keeps (hend.cluster k)
  · exact (h.pruned (List.mem_singleton_self g) ((hsame.cluster k).trans hx) hc hk).mono hsame.grows
      h.reports.grows hend.grows (hend.cluster k)

end Applied

section Steady

/-- A kind for which the objects with the label are those that are wanted. -/
def Steady (hash : String) (objs : ObjectCollection) (c : Cluster) (g : GroupVersionKind) : Prop :=
  ∀ k, (∃ new, objs.want g k = some new) ↔ ∃ x, c.get g k = some x ∧ Carries hash x

/-- Nothing is created or deleted for such a kind. -/
theorem process_steady (hp : s.1.clients.get g = some p)
    (hkeyed : ∀ {k new}, objs.want g k = some new → newObjectKey new = k)
    (hsteady : Steady hash objs s.2.cluster g) :
    (process env inputID (requirement LabelHash hash) objs s g).1.clients = s.1.clients
      ∧ Within (fun c => c.verb = .patch) (fun g' _ => g' ≠ g) s.2
        (process env inputID (requirement LabelHash hash) objs s g).2 := by
  obtain ⟨j, existing, -, -, rfl, hobjs, hex, heq⟩ := process_registered env inputID hash objs hp
  obtain rfl : j.client.gvk = g := s.1.clientsFiled hp
  rw [heq]
  refine ⟨rfl, Job.Allows.run ⟨fun hk => hkeyed (hobjs ▸ hk),
    fun hx => s.2.cluster.keyed (hex.1 hx).1, fun {k} hk => ?_, fun _ => ⟨fun _ => rfl, by simp⟩,
    fun {k} hk => ?_⟩ s.2⟩
  · obtain ⟨hnew, hnone⟩ := mem_toCreate.1 hk
    rw [hobjs] at hnew
    obtain ⟨x, hx⟩ := (hsteady k).1 hnew
    rw [hex.2 hx] at hnone
    cases hnone
  · obtain ⟨⟨x, hx⟩, hnone⟩ := mem_toDelete.1 hk
    obtain ⟨new, hnew⟩ := (hsteady k).2 ⟨x, hex.1 hx⟩
    rw [hobjs, hnew] at hnone
    cases hnone

theorem processes_steady (hkeyed : ∀ {g k new}, objs.want g k = some new → newObjectKey new = k)
    {gs : List GroupVersionKind} (hnd : gs.Nodup)
    (hgs : ∀ g ∈ gs, (∃ p, s.1.clients.get g = some p) ∧ Steady hash objs s.2.cluster g) :
    Within (fun c => c.verb = .patch) (fun _ _ => False) s.2
      (gs.foldl (process env inputID (requirement LabelHash hash) objs) s).2 := by
  refine (Run.foldl_at (R := fun g (s s' : DesiredSet × Api) =>
      ∀ k, s'.2.cluster.get g k = s.2.cluster.get g k)
    (P := fun s' => s'.1.clients = s.1.clients
      ∧ Within (fun c => c.verb = .patch) (fun _ _ => False) s.2 s'.2)
    (fun _ _ _ => rfl) (fun h h' k => (h' k).trans (h k)) hnd ⟨rfl, .refl⟩
    fun g hg s' hsame hP => ?_).1.2
  obtain ⟨⟨p, hp⟩, hsteady⟩ := hgs g hg
  obtain ⟨hclients, hwithin⟩ := process_steady (p := p) (s := s') (by rw [hP.1]; exact hp) hkeyed
    (fun k => by rw [hsame]; exact hsteady k)
  exact ⟨⟨hclients.trans hP.1, hP.2.trans (hwithin.mono (fun _ => id) False.elim)⟩,
    fun g' hne k => hwithin.frame hne⟩

end Steady

end Norman.Objectset
