import Mathlib.Data.List.Infix
import Norman.MergePatch
import Norman.Proofs.Patching

/-!
# What a sanitised patch leaves out

What a merge patch makes of an object is known path by path (`mergeDoc_overlaid`). A patch with only
the fields that do not count, and what is on the way to them, is left out as a whole. That changes
nothing that counts as long as there are objects on the way; but null or another value there is
taken for an empty object, and then what it deletes or replaces is not deleted or replaced.
-/

namespace Norman.Objectset

open Nested

variable {patch cur m : Doc} {p q : List String} {k : String} {v x : Value}

section Overlay

theorem heldAt_nil_map : heldAt [] (Value.map m) = .object := heldAt_nil_node

theorem heldAt_cons_map :
    heldAt (k :: p) (Value.map m) = ((Assoc.get k m).map (heldAt p)).getD .nothing :=
  heldAt_cons_node

theorem heldAt_cons_of_get (h : Assoc.get k m = some x) :
    heldAt (k :: p) (Value.map m) = heldAt p x := by
  rw [heldAt_cons_map, h, Option.map_some, Option.getD_some]

theorem heldAt_cons_of_none (h : Assoc.get k m = none) :
    heldAt (k :: p) (Value.map m) = .nothing := by
  rw [heldAt_cons_map, h, Option.map_none, Option.getD_none]

/-- A value that is no map is all there is. -/
theorem heldAt_of_no_map (hx : ∀ m, x ≠ .map m) :
    ∀ p, heldAt p x = if p = [] then .leaf x else .nothing
  | [] => by
    cases x with
    | map m => exact absurd rfl (hx m)
    | _ => rfl
  | k :: p => by
    cases x with
    | map m => exact absurd rfl (hx m)
    | _ => rfl

/-- What becomes of one key. -/
def merged : Option Value → Option Value → Option Value
  | none, c => c
  | some .nil, _ => none
  | some v, c => some (mergeValue v c)

theorem get_mergeDoc (j : String) : ∀ (patch m : Doc),
    Assoc.get j (mergeDoc patch m) = merged (Assoc.get j patch) (Assoc.get j m)
  | [], m => by rw [mergeDoc]; rfl
  | (key, v) :: patch, m => by
    have hrest := get_mergeDoc j patch m
    by_cases hv : v = .nil
    · subst hv
      rw [mergeDoc, Assoc.get_erase, Assoc.get]
      split_ifs with hj
      · rfl
      · exact hrest
    · rw [mergeDoc, Assoc.get_set, Assoc.get]
      · split_ifs with hj
        · subst hj
          simp [merged]
        · exact hrest
      · exact hv

/-- What is at a path after a patch. -/
inductive Overlaid (patch cur : Doc) (p : List String) : Held Value → Prop
  | object (h : heldAt p (Value.map patch) = .object) : Overlaid patch cur p .object
  | deleted (h : heldAt p (Value.map patch) = .leaf .nil) : Overlaid patch cur p .nothing
  | replaced (v : Value) (hv : v ≠ .nil) (h : heldAt p (Value.map patch) = .leaf v) :
    Overlaid patch cur p (.leaf v)
  | below (q : List String) (v : Value) (hq : q <+: p) (hne : q ≠ p)
    (h : heldAt q (Value.map patch) = .leaf v) : Overlaid patch cur p .nothing
  | kept (h : heldAt p (Value.map patch) = .nothing) (hq : ∀ q, q <+: p → NoLeaf q patch) :
    Overlaid patch cur p (heldAt p (Value.map cur))

/-- A key of the patch with a value that is no object: there is nothing of the object below. -/
theorem overlaid_of_leaf (h : Assoc.get k patch = some v) (hv : ∀ m, v ≠ .map m)
    (p : List String) :
    Overlaid patch cur (k :: p) (heldAt (k :: p) (Value.map (mergeDoc patch cur))) := by
  have hpatch : heldAt [k] (Value.map patch) = .leaf v := by
    rw [heldAt_cons_of_get h, heldAt_of_no_map hv, if_pos rfl]
  have hmerge : Assoc.get k (mergeDoc patch cur) = if v = .nil then none else some v := by
    rw [get_mergeDoc, h]
    cases v with
    | map m => exact absurd rfl (hv m)
    | _ => simp [merged, mergeValue]
  by_cases hnil : v = .nil
  · rw [heldAt_cons_of_none (by rw [hmerge, if_pos hnil])]
    cases p with
    | nil => exact .deleted (hnil ▸ hpatch)
    | cons j p => exact .below [k] v (by simp) (by simp) hpatch
  · rw [heldAt_cons_of_get (hmerge.trans (if_neg hnil)), heldAt_of_no_map hv]
    cases p with
    | nil => exact .replaced v hnil hpatch
    | cons j p => exact .below [k] v (by simp) (by simp) hpatch

theorem noLeaf_nil : NoLeaf [] patch := by
  intro v
  rw [heldAt_nil_map]
  simp

/-- Below a key that has an object in the patch. -/
theorem Overlaid.cons {sub sub' : Doc} {h : Held Value} (hp : Overlaid sub sub' p h)
    (hget : Assoc.get k patch = some (.map sub))
    (hcur : p ≠ [] → heldAt (k :: p) (Value.map cur) = heldAt p (Value.map sub')) :
    Overlaid patch cur (k :: p) h := by
  cases hp with
  | object h => exact .object (by rwa [heldAt_cons_of_get hget])
  | deleted h => exact .deleted (by rwa [heldAt_cons_of_get hget])
  | replaced v hv h => exact .replaced v hv (by rwa [heldAt_cons_of_get hget])
  | below q v hq hne h =>
    exact .below (k :: q) v (List.cons_prefix_cons.2 ⟨rfl, hq⟩) (by simpa using hne)
      (by rwa [heldAt_cons_of_get hget])
  | kept h hq =>
    have hne : p ≠ [] := by
      rintro rfl
      rw [heldAt_nil_map] at h
      cases h
    rw [← hcur hne]
    refine .kept (by rwa [heldAt_cons_of_get hget]) fun q hpre v => ?_
    cases q with
    | nil => exact noLeaf_nil v
    | cons j q =>
      obtain ⟨rfl, hpre'⟩ := List.cons_prefix_cons.1 hpre
      rw [heldAt_cons_of_get hget]
      exact hq q hpre' v

theorem mergeDoc_overlaid : ∀ (p : List String) (patch cur : Doc),
    Overlaid patch cur p (heldAt p (Value.map (mergeDoc patch cur)))
  | [], patch, cur => by
    rw [heldAt_nil_map]
    exact .object heldAt_nil_map
  | k :: p, patch, cur => by
    rcases hget : Assoc.get k patch with _ | v
    · have hcur : heldAt (k :: p) (Value.map (mergeDoc patch cur))
          = heldAt (k :: p) (Value.map cur) := by
        rw [heldAt_cons_map, heldAt_cons_map, get_mergeDoc, hget]
        rfl
      rw [hcur]
      refine .kept (heldAt_cons_of_none hget) fun q hpre v => ?_
      cases q with
      | nil => exact noLeaf_nil v
      | cons j q =>
        obtain ⟨rfl, -⟩ := List.cons_prefix_cons.1 hpre
        rw [heldAt_cons_of_none hget]
        simp
    · by_cases hv : ∃ sub, v = .map sub
      · obtain ⟨sub, rfl⟩ := hv
        -- the object the patch is put over, which may have to be made
        have hsub : ∃ sub', Assoc.get k (mergeDoc patch cur) = some (.map (mergeDoc sub sub'))
            ∧ (p ≠ [] → heldAt (k :: p) (Value.map cur) = heldAt p (Value.map sub')) := by
          rw [get_mergeDoc, hget]
          by_cases hc : ∃ sub', Assoc.get k cur = some (.map sub')
          · obtain ⟨sub', hc⟩ := hc
            exact ⟨sub', by rw [hc]; simp [merged, mergeValue], fun _ => heldAt_cons_of_get hc⟩
          · refine ⟨[], ?_, fun hp => ?_⟩
            · rw [merged, mergeValue]
              · intro m hm
                exact hc ⟨m, hm⟩
              · simp
            · obtain ⟨j, p, rfl⟩ := List.exists_cons_of_ne_nil hp
              rw [heldAt_cons_of_none (k := j) (m := []) rfl]
              rcases hx : Assoc.get k cur with _ | x
              · exact heldAt_cons_of_none hx
              · rw [heldAt_cons_of_get hx, heldAt_of_no_map (by rintro m rfl; exact hc ⟨m, hx⟩),
                  if_neg (by simp)]
        obtain ⟨sub', hmerge, hcur⟩ := hsub
        rw [heldAt_cons_of_get hmerge]
        exact (mergeDoc_overlaid p sub sub').cons hget hcur
      · exact overlaid_of_leaf hget (not_exists.1 hv) p

/-- Nothing is below a value that is no object. -/
theorem heldAt_below_leaf (h : heldAt q x = .leaf v) (hq : q <+: p) (hne : q ≠ p) :
    heldAt p x = .nothing := by
  obtain ⟨r, rfl⟩ := hq
  exact heldAt_append_of_not_object (by simpa using hne) (by simp [h])

/-- What is at a path is known from what the patch has on it. -/
theorem Overlaid.unique {h h' : Held Value} (ho : Overlaid patch cur p h)
    (ho' : Overlaid patch cur p h') : h = h' := by
  cases ho <;> cases ho' <;> grind [heldAt_below_leaf, NoLeaf]

theorem Overlaid.congr {patch' : Doc} {h : Held Value} (ho : Overlaid patch cur p h)
    (heq : ∀ q, q <+: p → heldAt q (Value.map patch') = heldAt q (Value.map patch)) :
    Overlaid patch' cur p h := by
  have hp := heq p List.prefix_rfl
  cases ho with
  | object h => exact .object (hp.trans h)
  | deleted h => exact .deleted (hp.trans h)
  | replaced v hv h => exact .replaced v hv (hp.trans h)
  | below q v hq hne h => exact .below q v hq hne ((heq q hq).trans h)
  | kept h hq => exact .kept (hp.trans h) fun q hpre v => by rw [heq q hpre]; exact hq q hpre v

theorem heldAt_merge_object (h : heldAt p (Value.map patch) = .object) :
    heldAt p (Value.map (mergeDoc patch cur)) = .object :=
  (mergeDoc_overlaid p patch cur).unique (.object h)

theorem heldAt_merge_leaf (h : heldAt p (Value.map patch) = .leaf v) (hv : v ≠ .nil) :
    heldAt p (Value.map (mergeDoc patch cur)) = .leaf v :=
  (mergeDoc_overlaid p patch cur).unique (.replaced v hv h)

theorem heldAt_merge_null (h : heldAt q (Value.map patch) = .leaf .nil) (hq : q <+: p) :
    heldAt p (Value.map (mergeDoc patch cur)) = .nothing := by
  refine (mergeDoc_overlaid p patch cur).unique ?_
  by_cases hne : q = p
  · exact .deleted (hne ▸ h)
  · exact .below q .nil hq hne h

end Overlay

section Narrow

/-- There is nothing in the patch but the fields that do not count, and what is on the way to
them. -/
def Narrow (patch : Doc) : Prop :=
  ∀ p, heldAt p (Value.map patch) ≠ .nothing → Exempt p ∨ OnTheWay p

/-- What the patch has at a path on the way makes no difference: an object, where the object has no
other value; null, where it has nothing that counts; or the value that is there. -/
def Idle (patch cur : Doc) (q : List String) : Prop :=
  match heldAt q (Value.map patch) with
  | .nothing => True
  | .object => NoLeaf q cur
  | .leaf .nil => ∀ p, q <+: p → ¬ Exempt p → heldAt p (Value.map cur) = .nothing
    ∨ (OnTheWay p ∧ NoLeaf p cur)
  | .leaf v => heldAt q (Value.map cur) = .leaf v

theorem Exempt.below (h : Exempt q) (hq : q <+: p) : Exempt p := by
  obtain ⟨f, hf, hpre⟩ := h
  exact ⟨f, hf, hpre.trans hq⟩

theorem exempt_prefix_free : ∀ f ∈ exempt, ∀ g ∈ exempt, f <+: g → f = g := by decide

theorem OnTheWay.not_exempt (h : OnTheWay p) : ¬ Exempt p := by
  rintro ⟨g, hg, hgp⟩
  obtain ⟨f, hf, hpf, hne⟩ := h
  obtain rfl := exempt_prefix_free g hg f hf (hgp.trans hpf)
  exact hne (hpf.eq_of_length (le_antisymm hpf.length_le hgp.length_le))

/-- A patch with only such fields changes nothing that counts iff it makes no difference on the way
to them. -/
theorem alike_iff_idle (hnarrow : Narrow patch) :
    Alike (mergeDoc patch cur) cur ↔ ∀ q, OnTheWay q → Idle patch cur q := by
  constructor
  · intro halike q hq
    unfold Idle
    split
    · trivial
    · rename_i h
      rcases halike q hq.not_exempt with heq | ⟨-, -, hcur⟩
      · intro v
        rw [← heq, heldAt_merge_object h]
        simp
      · exact hcur
    · rename_i h
      intro p hp hexempt
      rcases halike p hexempt with heq | ⟨hway, -, hcur⟩
      · exact .inl (by rw [← heq, heldAt_merge_null h hp])
      · exact .inr ⟨hway, hcur⟩
    · rename_i v hv h
      have hmerge : heldAt q (Value.map (mergeDoc patch cur)) = .leaf v := heldAt_merge_leaf h hv
      rcases halike q hq.not_exempt with heq | ⟨-, hpatch, -⟩
      · rw [← heq, hmerge]
      · exact absurd hmerge (hpatch v)
  · intro hidle p hp
    -- what the patch has at a path is on the way, as it does not count otherwise
    have hway : ∀ q, q <+: p → heldAt q (Value.map patch) ≠ .nothing → OnTheWay q :=
      fun q hq h => (hnarrow q h).resolve_left fun he => hp (he.below hq)
    have hidle' : ∀ q, q <+: p → heldAt q (Value.map patch) ≠ .nothing → Idle patch cur q :=
      fun q hq h => hidle q (hway q hq h)
    unfold NoLeaf
    generalize hR : heldAt p (Value.map (mergeDoc patch cur)) = R
    have hover := hR ▸ mergeDoc_overlaid p patch cur
    cases hover with
    | object h =>
      have hi := hidle' p List.prefix_rfl (by simp [h])
      simp only [Idle, h] at hi
      exact .inr ⟨hway p List.prefix_rfl (by simp [h]), by simp, hi⟩
    | deleted h =>
      have hi := hidle' p List.prefix_rfl (by simp [h])
      simp only [Idle, h] at hi
      rcases hi p List.prefix_rfl hp with hi | ⟨hi, hcur⟩
      · exact .inl hi.symm
      · exact .inr ⟨hi, by simp, hcur⟩
    | replaced v hv h =>
      have hi := hidle' p List.prefix_rfl (by simp [h])
      simp only [Idle, h] at hi
      exact .inl hi.symm
    | below q v hq hne h =>
      have hi := hidle' q hq (by simp [h])
      by_cases hv : v = .nil
      · subst hv
        simp only [Idle, h] at hi
        rcases hi p hq hp with hi | ⟨hi, hcur⟩
        · exact .inl hi.symm
        · exact .inr ⟨hi, by simp, hcur⟩
      · simp only [Idle, h] at hi
        exact .inl (heldAt_below_leaf hi hq hne).symm
    | kept _ _ => exact .inl rfl

end Narrow

section Trimmed

/-- The fields that are taken out one by one. -/
def dropped : List (List String) := [["kind"], ["apiVersion"], ["metadata", "creationTimestamp"]]

/-- The patch without them. -/
def trimmed (data : Doc) : Doc :=
  (removeCreationTimestamp (Assoc.erase "apiVersion" (Assoc.erase "kind" data))).1

theorem heldAt_erase (key : String) (data : Doc) (p : List String) :
    heldAt p (Value.map (Assoc.erase key data))
      = if [key] <+: p then .nothing else heldAt p (Value.map data) :=
  heldAt_remove (p := [key]) (m := data) p (by simp)

theorem removeCreationTimestamp_cases (data : Doc) :
    ((removeCreationTimestamp data).1 = data
        ∧ look ["metadata", "creationTimestamp"] (Value.map data) = none)
      ∨ (removeCreationTimestamp data).1 = (remove ["metadata", "creationTimestamp"] data).2 := by
  by_cases hleads : ∃ m, Assoc.get "metadata" data = some (.map m)
  · obtain ⟨m, hm⟩ := hleads
    have hl : Leads "metadata" data m := ⟨.map m, hm, rfl⟩
    by_cases hct : Assoc.get "creationTimestamp" m = none
    · refine .inl ⟨by simp only [removeCreationTimestamp, hm, hct, if_true], ?_⟩
      have hlook : look ["creationTimestamp"] (Value.map m) = none := by
        rw [show (Value.map m) = Maps.node m from rfl, look_node, hct]
        rfl
      exact (hl.look (by simp)).trans hlook
    · refine .inr ?_
      rw [remove_of_leads hl]
      simp only [removeCreationTimestamp, hm, hct, if_false]
      rfl
  · refine .inl ⟨?_, ?_⟩
    · unfold removeCreationTimestamp
      split
      · rename_i m hm
        exact absurd ⟨m, hm⟩ hleads
      · rfl
    · refine look_of_not_leads (fun sub hl => ?_) (by simp)
      obtain ⟨y, hget, hy⟩ := hl
      cases y with
      | map m => exact hleads ⟨m, hget⟩
      | _ => cases hy

theorem heldAt_removeCreationTimestamp (data : Doc) (p : List String) :
    heldAt p (Value.map (removeCreationTimestamp data).1)
      = if ["metadata", "creationTimestamp"] <+: p then .nothing
        else heldAt p (Value.map data) := by
  rcases removeCreationTimestamp_cases data with ⟨heq, hnone⟩ | heq
  · rw [heq]
    split_ifs with hp
    · exact heldAt_of_none hnone hp
    · rfl
  · rw [heq]
    exact heldAt_remove p (by simp)

/-- Nothing but the fields is taken out. -/
theorem heldAt_trimmed (data : Doc) (p : List String) :
    (¬ (∃ f ∈ dropped, f <+: p) ∧ heldAt p (Value.map (trimmed data)) = heldAt p (Value.map data))
      ∨ ((∃ f ∈ dropped, f <+: p) ∧ heldAt p (Value.map (trimmed data)) = .nothing) := by
  simp only [trimmed, heldAt_removeCreationTimestamp, heldAt_erase, dropped, List.mem_cons,
    List.not_mem_nil, or_false, exists_eq_or_imp, exists_eq_left]
  split_ifs <;> simp_all

theorem dropped_exempt (h : ∃ f ∈ dropped, f <+: p) : Exempt p := by
  obtain ⟨f, hf, hp⟩ := h
  refine ⟨f, ?_, hp⟩
  simp only [dropped, List.mem_cons, List.not_mem_nil, or_false] at hf
  rcases hf with rfl | rfl | rfl <;> simp [exempt]

/-- The patch without the fields does the same to all that counts. -/
theorem alike_trimmed (data cur : Doc) :
    Alike (mergeDoc data cur) (mergeDoc (trimmed data) cur) := by
  intro p hp
  refine .inl ((mergeDoc_overlaid p data cur).unique
    ((mergeDoc_overlaid p (trimmed data) cur).congr fun q hq => ?_))
  rcases heldAt_trimmed data q with ⟨-, heq⟩ | ⟨hdrop, -⟩
  · exact heq.symm
  · exact absurd ((dropped_exempt hdrop).below hq) hp

/-- The path of the annotation. -/
def inputIDPath : List String := ["metadata", "annotations", LabelInputID]

/-- What `onlyKeys` finds has nothing beside the path. -/
theorem onlyKeys_held : ∀ {keys : List String} {data : Doc}, onlyKeys data keys = true →
    ∀ p, heldAt p (Value.map data) ≠ .nothing → p <+: keys ∨ keys <+: p
  | [], data, h, p, _ => .inr (List.nil_prefix)
  | key :: keys, data, h, [], _ => .inl (List.nil_prefix)
  | key :: keys, data, h, k :: p, hp => by
    rcases onlyKeys_cons h with rfl | ⟨v, rfl, hv⟩
    · exact absurd (heldAt_cons_of_none rfl) hp
    · by_cases hk : k = key
      · subst hk
        rw [heldAt_cons_of_get (x := v) (by simp [Assoc.get])] at hp
        simp only [List.cons_prefix_cons, true_and]
        rcases hv with rfl | hv
        · exact .inr List.nil_prefix
        · cases v with
          | map m => exact onlyKeys_held hv p hp
          | _ =>
            rw [heldAt_of_no_map (by simp)] at hp
            obtain rfl : p = [] := by
              by_contra hne
              exact hp (if_neg hne)
            exact .inl List.nil_prefix
      · exact absurd (heldAt_cons_of_none (by simp [Assoc.get, hk])) hp

/-- The entries of each object are in order. -/
def InOrder (x : Value) : Prop := ∀ p m, look p x = some (.map m) → Assoc.Sorted m

theorem inOrder_map :
    InOrder (.map m) ↔ Assoc.Sorted m ∧ ∀ k x, Assoc.get k m = some x → InOrder x := by
  constructor
  · intro h
    refine ⟨h [] m rfl, fun k x hx p sub hp => h (k :: p) sub ?_⟩
    rw [show (Value.map m) = Maps.node m from rfl, look_node, hx, Option.bind_some, hp]
  · rintro ⟨hs, h⟩ p sub hp
    cases p with
    | nil =>
      cases hp
      exact hs
    | cons k p =>
      rw [show (Value.map m) = Maps.node m from rfl, look_node, Option.bind_eq_some_iff] at hp
      obtain ⟨x, hx, hp⟩ := hp
      exact h k x hx p sub hp

theorem InOrder.erase (h : InOrder (.map m)) (key : String) :
    InOrder (.map (Assoc.erase key m)) := by
  obtain ⟨hs, h⟩ := inOrder_map.1 h
  refine inOrder_map.2 ⟨hs.erase, fun k x hx => h k x ?_⟩
  rw [Assoc.get_erase] at hx
  split_ifs at hx
  exact hx

theorem InOrder.set (h : InOrder (.map m)) (hx : InOrder x) (key : String) :
    InOrder (.map (Assoc.set key x m)) := by
  obtain ⟨hs, h⟩ := inOrder_map.1 h
  refine inOrder_map.2 ⟨hs.set, fun k y hy => ?_⟩
  rw [Assoc.get_set] at hy
  split_ifs at hy
  · cases hy
    exact hx
  · exact h k y hy

theorem inOrder_of_no_map (hx : ∀ m, x ≠ .map m) : InOrder x := by
  intro p m hp
  have hheld := heldAt_of_no_map hx p
  rw [heldAt, hp] at hheld
  split_ifs at hheld with hnil
  · subst hnil
    exact absurd (Option.some.inj hp) (hx m)
  · cases hheld

theorem InOrder.single (h : InOrder x) : InOrder (.map [(k, x)]) :=
  (inOrder_map.2 ⟨Assoc.Sorted.nil, by simp [Assoc.get]⟩ : InOrder (.map [])).set h k

theorem InOrder.trimmed (h : InOrder (.map patch)) : InOrder (.map (trimmed patch)) := by
  have he := (h.erase "kind").erase "apiVersion"
  unfold Objectset.trimmed removeCreationTimestamp
  split
  · rename_i m hm
    split_ifs
    · exact he
    · exact he.set (((inOrder_map.1 he).2 _ _ hm).erase _) _
  · exact he

/-- The only key there can be is the first of the path. -/
theorem only_key {key : String} {keys : List String} {data : Doc}
    (h : ∀ p, heldAt p (Value.map data) ≠ .nothing → p <+: key :: keys ∨ key :: keys <+: p)
    (hget : Assoc.get k data = some x) : k = key := by
  have hheld : heldAt [k] (Value.map data) ≠ .nothing := by
    rw [heldAt_cons_of_get hget, Ne, heldAt_eq_nothing]
    simp [look]
  rcases h [k] hheld with hpre | hpre
  · exact (List.cons_prefix_cons.1 hpre).1
  · exact (List.cons_prefix_cons.1 hpre).1.symm

theorem onlyKeys_of_held : ∀ {keys : List String} {data : Doc}, keys ≠ [] → InOrder (.map data) →
    (∀ p, heldAt p (Value.map data) ≠ .nothing → p <+: keys ∨ keys <+: p) →
    onlyKeys data keys = true
  | [], _, hne, _, _ => absurd rfl hne
  | key :: keys, [], _, _, _ => rfl
  | key :: keys, [(k, v)], _, ho, h => by
    have hget : Assoc.get k [(k, v)] = some v := by simp [Assoc.get]
    obtain rfl : k = key := only_key h hget
    by_cases hkeys : keys = []
    · simp [onlyKeys, Assoc.get, hkeys]
    · simp only [onlyKeys, List.length_singleton, lt_irrefl, if_false, one_ne_zero, hget, hkeys]
      cases v with
      | map m =>
        refine onlyKeys_of_held hkeys ((inOrder_map.1 ho).2 _ _ hget) fun p hp => ?_
        replace hp : heldAt (k :: p) (Value.map [(k, .map m)]) ≠ .nothing := by
          rwa [heldAt_cons_of_get hget]
        simpa only [List.cons_prefix_cons, true_and] using h (k :: p) hp
      | _ =>
        obtain ⟨key, keys, rfl⟩ := List.exists_cons_of_ne_nil hkeys
        rfl
  | key :: keys, (k, v) :: (k', v') :: data, _, ho, h => by
    have hlt : k < k' := by
      have hs := (inOrder_map.1 ho).1
      simp only [Assoc.Sorted, List.pairwise_cons, List.mem_cons] at hs
      exact hs.1 (k', v') (.inl rfl)
    have hk : k = key := only_key (x := v) h (by simp [Assoc.get])
    have hk' : k' = key := only_key (x := v') h (by simp [Assoc.get, hlt.ne'])
    exact absurd (hk.trans hk'.symm) hlt.ne

theorem exempt_of_not_dropped : ∀ f ∈ exempt, f ∉ dropped → f = inputIDPath := by decide

/-- On the way to any of the fields is on the way to the annotation. -/
theorem OnTheWay.inputID (h : OnTheWay p) : p <+: inputIDPath := by
  obtain ⟨f, hf, hpre, hne⟩ := h
  have hall : ∀ f ∈ exempt, ∀ p ∈ f.inits, p ≠ f → p <+: inputIDPath := by decide
  exact hall f hf p ((List.mem_inits p f).2 hpre) hne

theorem narrow_iff (ho : InOrder (.map patch)) :
    Narrow patch ↔ onlyKeys (trimmed patch) inputIDPath = true := by
  constructor
  · intro hnarrow
    refine onlyKeys_of_held (by simp [inputIDPath]) ho.trimmed fun p hp => ?_
    rcases heldAt_trimmed patch p with ⟨hdrop, heq⟩ | ⟨-, hnone⟩
    · rw [heq] at hp
      rcases hnarrow p hp with ⟨f, hf, hpre⟩ | ⟨f, hf, hpre, hne⟩
      · by_cases hmem : f ∈ dropped
        · exact absurd ⟨f, hmem, hpre⟩ hdrop
        · obtain rfl := exempt_of_not_dropped f hf hmem
          exact .inr hpre
      · exact .inl (OnTheWay.inputID ⟨f, hf, hpre, hne⟩)
    · exact absurd hnone hp
  · intro honly p hp
    rcases heldAt_trimmed patch p with ⟨-, heq⟩ | ⟨hdrop, -⟩
    · rw [← heq] at hp
      have hmem : inputIDPath ∈ exempt := by simp [inputIDPath, exempt]
      rcases onlyKeys_held honly p hp with hpre | hpre
      · by_cases hne : p = inputIDPath
        · exact .inl ⟨p, hne ▸ hmem, List.prefix_rfl⟩
        · exact .inr ⟨inputIDPath, hmem, hpre, hne⟩
      · exact .inl ⟨_, hmem, hpre⟩
    · exact .inl (dropped_exempt hdrop)

end Trimmed

section Sanitized

variable {env : Env}

/-- What `sanitizePatch` gives for an object whose numbers come back as they were written. -/
theorem sanitizePatch_map (hnum : convertMapNumbers env patch = .ok patch) :
    (onlyKeys (trimmed patch) inputIDPath = true ∧ sanitizePatch env (.map patch) = .ok (.map []))
      ∨ (onlyKeys (trimmed patch) inputIDPath ≠ true
        ∧ ∃ s, (s = trimmed patch ∨ s = patch) ∧ sanitizePatch env (.map patch) = .ok (.map s)) := by
  simp only [sanitizePatch, hnum]
  split_ifs with honly
  · exact .inl ⟨honly, rfl⟩
  · exact .inr ⟨honly, _, .inl rfl, rfl⟩
  · exact .inr ⟨honly, _, .inr rfl, rfl⟩

/-- The sanitised patch does the same to all that counts. -/
def KeepsChanges (env : Env) (patch cur : Doc) : Prop :=
  ∃ s, sanitizePatch env (.map patch) = .ok (.map s)
    ∧ Alike (mergeDoc patch cur) (mergeDoc s cur)

theorem keepsChanges_iff_alike {s : Doc} (hs : sanitizePatch env (.map patch) = .ok (.map s)) :
    KeepsChanges env patch cur ↔ Alike (mergeDoc patch cur) (mergeDoc s cur) := by
  constructor
  · rintro ⟨s', hs', halike⟩
    rw [hs] at hs'
    cases hs'
    exact halike
  · exact fun halike => ⟨s, hs, halike⟩

/-- A patch of the id of the input. -/
def idPatch : Doc :=
  [("metadata", .map [("annotations", .map [(LabelInputID, .str "b")])])]

def idObject : Doc :=
  [("metadata", .map [("annotations", .map [(LabelInputID, .str "a")])])]

/-- `float64` at the one number that is asked for. -/
def roundingEnv : Env where
  sha1 _ := ""
  float _ := .ok "9223372036854775808"
  marshal _ := ""
  unmarshal _ := .error ""
  pack s := s
  unpack _ := none
  threeWay _ _ _ _ := .error ""

end Sanitized

end Norman.Objectset
