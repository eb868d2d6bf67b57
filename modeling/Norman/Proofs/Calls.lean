import Norman.Proofs.Documents

/-!
# What one call does

A call goes to the list of the calls, with what the server answers or with an error of its own, in
which case it may have had its effect or not (`Called`). From one state of the server to a later one
it is then known which calls were made, and which objects stayed as they were (`Within`).
-/

namespace Norman.Objectset

/-- The call returned an error, other than that the object to create exists. -/
def Call.failed (c : Call) : Prop := ∃ e, c.err = some e ∧ e.alreadyExists = false

section Within

/-- The calls from one state of the server to a later one. -/
def made (a a' : Api) : List Call := a'.calls.drop a.calls.length

/-- One of them failed. -/
def Fails (a a' : Api) : Prop := ∃ c ∈ made a a', c.failed

/-- One of them failed at this object. -/
def FailsAt (g : GroupVersionKind) (k : ObjectKey) (a a' : Api) : Prop :=
  ∃ c ∈ made a a', c.gvk = g ∧ c.key = k ∧ c.failed

/-- From `a` to `a'` only such calls were made, and the objects of `S` stayed as they were. -/
structure Within (P : Call → Prop) (S : GroupVersionKind → ObjectKey → Prop) (a a' : Api) :
    Prop where
  merge : a'.merge = a.merge
  grows : a.calls <+: a'.calls
  calls : ∀ c ∈ made a a', P c
  frame : ∀ {g k}, S g k → a'.cluster.get g k = a.cluster.get g k

variable {P P' : Call → Prop} {S S' : GroupVersionKind → ObjectKey → Prop} {a a' a'' : Api}

@[simp] theorem made_self : made a a = [] := by simp [made]

theorem mem_made_trans (h : a.calls <+: a'.calls) (h' : a'.calls <+: a''.calls) {c : Call} :
    c ∈ made a a'' ↔ c ∈ made a a' ∨ c ∈ made a' a'' := by
  obtain ⟨l, hl⟩ := h
  obtain ⟨l', hl'⟩ := h'
  simp [made, ← hl', ← hl, List.append_assoc]

theorem calls_eq (h : a.calls <+: a'.calls) : a'.calls = a.calls ++ made a a' := by
  obtain ⟨l, hl⟩ := h
  simp [made, ← hl]

theorem fails_trans (h : a.calls <+: a'.calls) (h' : a'.calls <+: a''.calls) :
    Fails a a'' ↔ Fails a a' ∨ Fails a' a'' := by
  simp only [Fails, mem_made_trans h h', or_and_right, exists_or]

theorem FailsAt.fails {g : GroupVersionKind} {k : ObjectKey} (h : FailsAt g k a a') : Fails a a' :=
  let ⟨c, hc, _, _, hf⟩ := h
  ⟨c, hc, hf⟩

theorem made_mono {a₁ a₂ : Api} (h₁ : a.calls <+: a₁.calls) (h₂ : a₁.calls <+: a₂.calls)
    (h₃ : a₂.calls <+: a'.calls) {c : Call} (hc : c ∈ made a₁ a₂) : c ∈ made a a' :=
  (mem_made_trans (h₁.trans h₂) h₃).2 (.inl ((mem_made_trans h₁ h₂).2 (.inr hc)))

theorem FailsAt.mono {g : GroupVersionKind} {k : ObjectKey} {a₁ a₂ : Api} (h : FailsAt g k a₁ a₂)
    (h₁ : a.calls <+: a₁.calls) (h₂ : a₁.calls <+: a₂.calls) (h₃ : a₂.calls <+: a'.calls) :
    FailsAt g k a a' := by
  obtain ⟨c, hc, hat⟩ := h
  exact ⟨c, made_mono h₁ h₂ h₃ hc, hat⟩

theorem Within.refl : Within P S a a := ⟨rfl, List.prefix_rfl, by simp, fun _ => rfl⟩

theorem Within.trans (h : Within P S a a') (h' : Within P S a' a'') : Within P S a a'' where
  merge := h'.merge.trans h.merge
  grows := h.grows.trans h'.grows
  calls c hc := ((mem_made_trans h.grows h'.grows).1 hc).elim (h.calls c) (h'.calls c)
  frame hk := (h'.frame hk).trans (h.frame hk)

theorem Within.mono (h : Within P S a a') (hok : ∀ c, P c → P' c)
    (hS : ∀ {g k}, S' g k → S g k) : Within P' S' a a' :=
  ⟨h.merge, h.grows, fun c hc => hok c (h.calls c hc), fun hk => h.frame (hS hk)⟩

end Within

section Cluster

variable {g g' : GroupVersionKind} {k k' : ObjectKey}

@[simp] theorem Cluster.get_empty : (∅ : Cluster).get g k = none := SortedMap.get_empty k

theorem Cluster.get_put (c : Cluster) (o : Doc) :
    (c.put g o).get g' k' = if g' = g ∧ k' = newObjectKey o then some o else c.get g' k' := by
  by_cases hg : g' = g
  · subst hg
    simp only [Cluster.get, Cluster.put, Function.update_self, SortedMap.get_set, true_and]
  · simp [Cluster.get, Cluster.put, hg]

theorem Cluster.get_remove (c : Cluster) :
    (c.remove g k).get g' k' = if g' = g ∧ k' = k then none else c.get g' k' := by
  by_cases hg : g' = g
  · subst hg
    simp only [Cluster.get, Cluster.remove, Function.update_self, SortedMap.get_erase, true_and]
  · simp [Cluster.get, Cluster.remove, hg]

end Cluster

section Called

variable {α : Type} {verb : Verb} {g : GroupVersionKind} {k : ObjectKey} {a : Api}
  {answer : Except Err (Cluster × α)} {r : Api × Except Err α}

/-- The server after a call. -/
def Api.after (a : Api) (c : Cluster) (call : Call) : Api :=
  { a with cluster := c, calls := a.calls ++ [call] }

@[simp] theorem made_after {c : Cluster} {call : Call} : made a (a.after c call) = [call] := by
  simp [made, Api.after]

/-- What a call can come to. -/
inductive Called (a : Api) (verb : Verb) (g : GroupVersionKind) (k : ObjectKey)
    (answer : Except Err (Cluster × α)) : Api × Except Err α → Prop
  | granted {c : Cluster} {x : α} (h : answer = .ok (c, x)) :
    Called a verb g k answer (a.after c ⟨verb, g, k, none⟩, .ok x)
  | refused {e : Err} (h : answer = .error e) :
    Called a verb g k answer (a.after a.cluster ⟨verb, g, k, some e⟩, .error e)
  | fault {c : Cluster} {e : Err} (he : e.alreadyExists = false)
    (h : c = a.cluster ∨ ∃ x, answer = .ok (c, x)) :
    Called a verb g k answer (a.after c ⟨verb, g, k, some e⟩, .error e)

theorem call_called (h : a.call verb g k answer = r) : Called a verb g k answer r := by
  subst h
  unfold Api.call
  rcases answer with e | ⟨c, x⟩ <;> rcases a.faults a.calls.length with _ | f
  · exact .refused rfl
  · exact .fault rfl (.inl rfl)
  · exact .granted rfl
  · refine .fault rfl ?_
    split_ifs
    · exact .inr ⟨x, rfl⟩
    · exact .inl rfl

theorem Called.within {P : Call → Prop} {S : GroupVersionKind → ObjectKey → Prop}
    (h : Called a verb g k answer r) (hok : ∀ e, P ⟨verb, g, k, e⟩)
    (hS : ∀ {c x}, answer = .ok (c, x) → ∀ {g' k'}, S g' k' →
      c.get g' k' = a.cluster.get g' k') : Within P S a r.1 := by
  cases h with
  | granted h => exact ⟨rfl, List.prefix_append _ _, by simpa using hok _, hS h⟩
  | refused h => exact ⟨rfl, List.prefix_append _ _, by simpa using hok _, fun _ => rfl⟩
  | fault he h =>
    refine ⟨rfl, List.prefix_append _ _, by simpa using hok _, fun hk => ?_⟩
    rcases h with rfl | ⟨x, h⟩
    · rfl
    · exact hS h hk

/-- A call without an error has had its effect, and one with an error failed, unless the object to
create exists. -/
theorem Called.cases (h : Called a verb g k answer r) :
    (∃ x, r.2 = .ok x ∧ answer = .ok (r.1.cluster, x) ∧ ¬ Fails a r.1)
      ∨ (∃ e, r.2 = .error e ∧ e.alreadyExists = true ∧ answer = .error e
        ∧ r.1.cluster = a.cluster ∧ ¬ Fails a r.1)
      ∨ ∃ e, r.2 = .error e ∧ e.alreadyExists = false
        ∧ ∃ c ∈ made a r.1, c.verb = verb ∧ c.gvk = g ∧ c.key = k ∧ c.failed := by
  cases h with
  | granted h => exact .inl ⟨_, rfl, h, by simp [Fails, Call.failed]⟩
  | @refused e h =>
    rcases he : e.alreadyExists with _ | _
    · exact .inr (.inr ⟨e, rfl, he, ⟨verb, g, k, some e⟩, by simp, rfl, rfl, rfl, e, rfl, he⟩)
    · exact .inr (.inl ⟨e, rfl, he, h, rfl, by simp [Fails, Call.failed, he]⟩)
  | @fault c e he h =>
    exact .inr (.inr ⟨e, rfl, he, ⟨verb, g, k, some e⟩, by simp, rfl, rfl, rfl, e, rfl, he⟩)

end Called

section Client

variable {P : Call → Prop} {S : GroupVersionKind → ObjectKey → Prop} {a : Api} {p : ObjectClient}
  {o : Doc} {k : ObjectKey} {r : Api × Except Err Doc}

/-- The key that the path of a call has for an object. -/
def ObjectClient.path (p : ObjectClient) (k : ObjectKey) : ObjectKey :=
  ⟨k.name, if p.namespaced then if k.ns ≠ "" then k.ns else p.ns else ""⟩

theorem path_newObjectKey : p.path (newObjectKey o)
    = ⟨getName o, if p.namespaced then p.pathNamespace o else ""⟩ := rfl

/-- It is the object's own if the object has a namespace exactly where its kind has one. -/
theorem path_of_scope (hscope : p.namespaced = decide (k.ns ≠ "")) : p.path k = k := by
  obtain ⟨name, ns⟩ := k
  by_cases hns : ns = "" <;> simp [ObjectClient.path, hscope, hns]

theorem create_within (hok : ∀ e, P ⟨.create, p.gvk, newObjectKey o, e⟩)
    (hS : ¬ S p.gvk (p.path (newObjectKey o))) : Within P S a (p.create a o).1 := by
  unfold ObjectClient.create
  rw [path_newObjectKey] at hS
  generalize (if p.namespaced then p.pathNamespace o else "") = ns at hS ⊢
  refine (call_called rfl).within hok fun {c x} hanswer g' k' hk => ?_
  split_ifs at hanswer with h1 hname h2
  cases hanswer
  obtain ⟨hm, hname', -⟩ := (hasMeta_of_name hname).prepareCreate (p := p)
  rw [Cluster.get_put, if_neg]
  rintro ⟨rfl, rfl⟩
  rw [hm.newObjectKey_setNamespace, hname'] at hk
  exact hS hk

theorem getNamespaced_within (hok : ∀ e, P ⟨.get, p.gvk, k, e⟩) :
    Within P S a (p.getNamespaced a k).1 := by
  refine (call_called rfl).within hok fun {c x} hanswer g' k' _ => ?_
  split at hanswer <;> cases hanswer
  rfl

theorem patch_within {t : PatchType} {data : Value}
    (h : getName o ≠ "" → (∀ e, P ⟨.patch, p.gvk, p.path (newObjectKey o), e⟩)
      ∧ ¬ S p.gvk (p.path (newObjectKey o))) : Within P S a (p.patch a o t data).1 := by
  unfold ObjectClient.patch
  rw [path_newObjectKey] at h
  generalize (if p.namespaced then p.pathNamespace o else "") = ns at h ⊢
  split_ifs with hname
  · exact .refl
  · obtain ⟨hok, hS⟩ := h hname
    refine (call_called rfl).within hok fun {c x} hanswer g' k' hk => ?_
    split at hanswer
    · cases hanswer
    · split_ifs at hanswer with hmove
      cases hanswer
      rw [Cluster.get_put, if_neg]
      rintro ⟨rfl, rfl⟩
      rw [hmove] at hk
      exact hS hk

theorem deleteNamespaced_within (hok : ∀ e, P ⟨.delete, p.gvk, k, e⟩) (hS : ¬ S p.gvk k) :
    Within P S a (p.deleteNamespaced a k).1 := by
  refine (call_called rfl).within hok fun {c x} hanswer g' k' hk => ?_
  split at hanswer <;> cases hanswer
  rw [Cluster.get_remove, if_neg]
  rintro ⟨rfl, rfl⟩
  exact hS hk

/-- `Create`, of an object with a namespace exactly where its kind has one: the object is there with
its labels, or it was there already, or the call failed. -/
theorem create_spec (hk : newObjectKey o = k) (hname : k.name ≠ "")
    (hscope : p.namespaced = decide (k.ns ≠ ""))
    (hr : p.create a o = r) :
    (∃ x y, r.2 = .ok x ∧ ¬ Fails a r.1 ∧ a.cluster.get p.gvk k = none
        ∧ r.1.cluster.get p.gvk k = some y
        ∧ getLabels y = Assoc.set "cattle.io/creator" "norman" (getLabels o))
      ∨ (∃ e old, r.2 = .error e ∧ e.alreadyExists = true ∧ ¬ Fails a r.1
        ∧ a.cluster.get p.gvk k = some old ∧ r.1.cluster = a.cluster)
      ∨ ∃ e, r.2 = .error e ∧ e.alreadyExists = false ∧ FailsAt p.gvk k a r.1 := by
  subst hk
  have hcalled := call_called (show a.call .create p.gvk (newObjectKey o) _ = r from hr)
  have hname' : getName o ≠ "" := hname
  obtain ⟨hm, hmname, hmlabels⟩ := (hasMeta_of_name hname).prepareCreate (p := p)
  have hns : (if p.namespaced then p.pathNamespace o else "") = getNamespace o :=
    congrArg ObjectKey.ns (path_of_scope (p := p) (k := newObjectKey o) hscope)
  have hkey : newObjectKey (setNamespace (getNamespace o) (p.prepareCreate o)) = newObjectKey o := by
    rw [hm.newObjectKey_setNamespace, hmname]
    rfl
  have hpath : ¬ (p.namespaced = true ∧ getNamespace o = "") := by
    rintro ⟨h1, h2⟩
    simp [hscope, newObjectKey, h2] at h1
  rcases hcalled.cases with
    ⟨x, h1, hanswer, h2⟩ | ⟨e, h1, hae, hanswer, h2, h3⟩ | ⟨e, h1, hae, c, hc, -, hat⟩
  · rw [hns, if_neg hpath, if_neg hname', hkey] at hanswer
    split_ifs at hanswer with hnone
    rw [Except.ok.injEq, Prod.mk.injEq] at hanswer
    refine .inl ⟨x, _, h1, h2, not_not.1 hnone, ?_,
      (hm.getLabels_setNamespace (getNamespace o)).trans hmlabels⟩
    rw [← hanswer.1, Cluster.get_put, if_pos ⟨rfl, hkey.symm⟩]
  · rw [hns, if_neg hpath, if_neg hname', hkey] at hanswer
    split_ifs at hanswer with hsome
    obtain ⟨old, hold⟩ := Option.ne_none_iff_exists'.1 hsome
    exact .inr (.inl ⟨e, old, h1, hae, h3, hold, h2⟩)
  · exact .inr (.inr ⟨e, h1, hae, c, hc, hat⟩)

/-- `GetNamespaced` of an object that is there. -/
theorem get_spec (ho : a.cluster.get p.gvk k = some o) (hr : p.getNamespaced a k = r) :
    (r.2 = .ok o ∧ ¬ Fails a r.1) ∨ ∃ e, r.2 = .error e ∧ FailsAt p.gvk k a r.1 := by
  rcases (call_called (show a.call .get p.gvk k _ = r from hr)).cases with
    ⟨x, h1, hanswer, h2⟩ | ⟨e, -, -, hanswer, -⟩ | ⟨e, h1, -, c, hc, -, hat⟩
  · rw [ho, Except.ok.injEq, Prod.mk.injEq] at hanswer
    exact .inl ⟨hanswer.2 ▸ h1, h2⟩
  · rw [ho] at hanswer
    cases hanswer
  · exact .inr ⟨e, h1, c, hc, hat⟩

/-- `DeleteNamespaced`: the object is gone, or the call failed. -/
theorem delete_spec {r : Api × Except Err Unit} (hr : p.deleteNamespaced a k = r) :
    (r.2 = .ok () ∧ ¬ Fails a r.1 ∧ r.1.cluster.get p.gvk k = none)
      ∨ ∃ e, r.2 = .error e ∧ ∃ c ∈ made a r.1, c.verb = .delete ∧ c.gvk = p.gvk ∧ c.key = k
        ∧ c.failed := by
  rcases (call_called (show a.call .delete p.gvk k _ = r from hr)).cases with
    ⟨x, h1, hanswer, h2⟩ | ⟨e, -, hae, hanswer, -⟩ | ⟨e, h1, -, hc⟩
  · refine .inl ⟨h1, h2, ?_⟩
    split at hanswer
    · cases hanswer
    · rw [Except.ok.injEq, Prod.mk.injEq] at hanswer
      rw [← hanswer.1, Cluster.get_remove, if_pos ⟨rfl, rfl⟩]
  · split at hanswer <;> cases hanswer
    cases hae
  · exact .inr ⟨e, h1, hc⟩

/-- `Patch` of an object that is there: it is the patched one, or the call failed. -/
theorem patch_spec (ho : a.cluster.get p.gvk k = some o) (hname : k.name ≠ "")
    (hscope : p.namespaced = decide (k.ns ≠ "")) {t : PatchType} {data : Value}
    (hr : p.patch a o t data = r) :
    (∃ x, r.2 = .ok x ∧ ¬ Fails a r.1 ∧ r.1.cluster.get p.gvk k = some (a.merge t o data))
      ∨ ∃ e, r.2 = .error e ∧ FailsAt p.gvk k a r.1 := by
  obtain rfl : newObjectKey o = k := a.cluster.keyed ho
  have hname' : getName o ≠ "" := hname
  rw [ObjectClient.patch, if_neg hname', ← path_newObjectKey, path_of_scope hscope] at hr
  rcases (call_called (show a.call .patch p.gvk (newObjectKey o) _ = r from hr)).cases with
    ⟨x, h1, hanswer, h2⟩ | ⟨e, -, hae, hanswer, -⟩ | ⟨e, h1, -, c, hc, -, hat⟩
  · refine .inl ⟨x, h1, h2, ?_⟩
    rw [ho] at hanswer
    simp only at hanswer
    split_ifs at hanswer with hmove
    rw [Except.ok.injEq, Prod.mk.injEq] at hanswer
    rw [← hanswer.1, Cluster.get_put, if_pos ⟨rfl, hmove.symm⟩]
  · rw [ho] at hanswer
    simp only at hanswer
    split_ifs at hanswer
    cases hanswer
    cases hae
  · exact .inr ⟨e, h1, c, hc, hat⟩

end Client

end Norman.Objectset
