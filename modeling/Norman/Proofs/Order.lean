import Mathlib.Data.List.Sort
import Norman.Proofs.Levels
import Norman.Query

/-!
# The order of a collection

All that is known of `sort.Slice` is that it gives some permutation in the order of the comparison.
`ApplySort` compares the texts of one field and nothing else, so that resources which have the same
text there come out in an order that depends on how they went in.
-/

namespace Norman.Handler

open Norman.Types Norman.Convert

section Sorting

/-- A comparison by which a list can be sorted: a strict weak order. -/
structure Compares (less : Doc → Doc → Bool) : Prop where
  asymm : ∀ {a b}, less a b = true → less b a = false
  trans : ∀ {a b c}, less b a = false → less c b = false → less c a = false

/-- No later element is less than an earlier one. -/
def InOrder (less : Doc → Doc → Bool) (l : List Doc) : Prop :=
  l.Pairwise fun a b => less b a = false

/-- What is known of `sort.Slice`, besides that it permutes. -/
def Sorts (env : Env) : Prop := ∀ less l, Compares less → InOrder less (env.sortSlice less l)

variable (conv : Convert.Env) (sortOpts : SortBy)

/-- What the resources are compared by. -/
def sortText (item : Doc) : String :=
  ToString conv ((Assoc.get (if sortOpts.name = "" then "id" else sortOpts.name) item).getD .nil)

/-- However the resources of a list are arranged, and whatever `sort.Slice` does with equal ones,
they are sorted into the same list. -/
def OrderFixed (l : List Doc) : Prop :=
  ∀ env : Env, env.toEnv = conv → Sorts env →
    ∀ l₁ l₂, l₁.Perm l → l₂.Perm l → ApplySort env sortOpts l₁ = ApplySort env sortOpts l₂

variable {conv sortOpts}

theorem less_eq_false_iff {env : Env} (henv : env.toEnv = conv) {a b : Doc} :
    less env sortOpts b a = false ↔ match sortOpts.order with
      | .asc => sortText conv sortOpts a ≤ sortText conv sortOpts b
      | .desc => sortText conv sortOpts b ≤ sortText conv sortOpts a := by
  subst henv
  unfold less sortText
  rcases sortOpts.order with _ | _
  · simp only [decide_eq_false_iff_not, not_lt]
  · simp only [decide_eq_false_iff_not, not_lt]

theorem compares_less (env : Env) : Compares (less env sortOpts) where
  asymm {a b} h := by
    rw [less_eq_false_iff rfl]
    have hn : ¬ less env sortOpts a b = false := by simp [h]
    rw [less_eq_false_iff rfl] at hn
    rcases ho : sortOpts.order with _ | _ <;> simp only [ho] at hn ⊢
    · exact (not_le.1 hn).le
    · exact (not_le.1 hn).le
  trans {a b c} hab hbc := by
    rw [less_eq_false_iff rfl] at hab hbc ⊢
    rcases ho : sortOpts.order with _ | _ <;> simp only [ho] at hab hbc ⊢
    · exact hab.trans hbc
    · exact hbc.trans hab

theorem sortText_eq_of_less {env : Env} (henv : env.toEnv = conv) {a b : Doc}
    (hab : less env sortOpts b a = false) (hba : less env sortOpts a b = false) :
    sortText conv sortOpts a = sortText conv sortOpts b := by
  rw [less_eq_false_iff henv] at hab hba
  rcases ho : sortOpts.order with _ | _ <;> simp only [ho] at hab hba
  · exact le_antisymm hab hba
  · exact le_antisymm hba hab

theorem less_of_sortText_eq {env : Env} (henv : env.toEnv = conv) {a b : Doc}
    (h : sortText conv sortOpts a = sortText conv sortOpts b) : less env sortOpts b a = false := by
  rw [less_eq_false_iff henv, h]
  split <;> exact le_rfl

/-- Where no two resources compare equal, there is one order only. -/
theorem orderFixed_of_nodup {l : List Doc} (h : (l.map (sortText conv sortOpts)).Nodup) :
    OrderFixed conv sortOpts l := by
  intro env henv hsorts l₁ l₂ h₁ h₂
  have hp₁ := (env.sortSlice_perm (less env sortOpts) l₁).trans h₁
  have hp₂ := (env.sortSlice_perm (less env sortOpts) l₂).trans h₂
  refine List.Perm.eq_of_pairwise (fun a b ha hb hab hba => ?_)
    (hsorts _ l₁ (compares_less env)) (hsorts _ l₂ (compares_less env)) (hp₁.trans hp₂.symm)
  exact List.inj_on_of_nodup_map h (hp₁.mem_iff.1 ha) (hp₂.mem_iff.1 hb)
    (sortText_eq_of_less henv hab hba)

end Sorting

section Ties

/-- `sort.Slice` as an insertion sort, which leaves equal elements as they come. -/
def insertionEnv (conv : Convert.Env) : Env where
  toEnv := conv
  sortSlice less l := l.insertionSort fun a b => less b a = false
  sortSlice_perm _ l := l.perm_insertionSort _

def plainHandler : Env := insertionEnv Parse.plainConvert

variable {conv : Convert.Env} {sortOpts : SortBy} {less : Doc → Doc → Bool}

theorem Compares.total (h : Compares less) : Std.Total fun a b => less b a = false where
  total a b := by
    rcases hba : less b a with _ | _
    · exact .inl rfl
    · exact .inr (h.asymm hba)

theorem Compares.isTrans (h : Compares less) : IsTrans Doc fun a b => less b a = false where
  trans _ _ _ hab hbc := h.trans hab hbc

theorem sorts_insertionEnv (conv : Convert.Env) : Sorts (insertionEnv conv) := by
  intro less l h
  have := h.total
  have := h.isTrans
  exact List.pairwise_insertionSort _ l

/-- Two resources that compare equal stay in the order in which they come. -/
theorem pair_sublist_ApplySort {a b : Doc} {l : List Doc}
    (h : sortText conv sortOpts a = sortText conv sortOpts b) (hl : [a, b].Sublist l) :
    [a, b].Sublist (ApplySort (insertionEnv conv) sortOpts l) := by
  have hcompares : Compares (less (insertionEnv conv) sortOpts) := compares_less _
  have := hcompares.total
  have := hcompares.isTrans
  exact List.pair_sublist_insertionSort (less_of_sortText_eq rfl h) hl

theorem not_pair_sublist_both {α : Type*} {a b : α} {l : List α} (hl : l.Nodup)
    (hab : [a, b].Sublist l) : ¬ [b, a].Sublist l := by
  intro hba
  obtain ⟨l₁, l₂, rfl, ha, hb⟩ := List.cons_sublist_iff.1 hab
  have hdisjoint := (List.nodup_append.1 hl).2.2
  obtain ⟨x, y, hxy, hx, hy⟩ := List.sublist_append_iff.1 hba
  rcases x with _ | ⟨c, x⟩
  · rw [List.nil_append] at hxy
    subst hxy
    exact hdisjoint a ha a (hy.subset (by simp)) rfl
  · rw [List.cons_append, List.cons.injEq] at hxy
    obtain ⟨rfl, -⟩ := hxy
    exact hdisjoint b (hx.subset List.mem_cons_self) b (List.singleton_sublist.1 hb) rfl

/-- The order of a list of resources with different ids depends on its members only, if and only if
no two of them have the same text in the field by which they are sorted. -/
theorem orderFixed_iff (conv : Convert.Env) (sortOpts : SortBy) {l : List Doc}
    (hids : (l.map itemID).Nodup) :
    OrderFixed conv sortOpts l ↔ (l.map (sortText conv sortOpts)).Nodup := by
  refine ⟨fun h => ?_, orderFixed_of_nodup⟩
  have hl : l.Nodup := hids.of_map
  refine List.Nodup.map_on (fun a ha b hb htext => ?_) hl
  by_contra hne
  have hb' : b ∈ l.erase a := (List.mem_erase_of_ne (Ne.symm hne)).2 hb
  have hperm : (a :: b :: (l.erase a).erase b).Perm l :=
    ((List.perm_cons_erase hb').symm.cons a).trans (List.perm_cons_erase ha).symm
  have hsame := h (insertionEnv conv) rfl (sorts_insertionEnv conv) _ _ hperm
    ((List.Perm.swap _ _ _).trans hperm)
  have hab := pair_sublist_ApplySort htext
    ((List.nil_sublist ((l.erase a).erase b)).cons_cons b |>.cons_cons a)
  have hba := pair_sublist_ApplySort htext.symm
    ((List.nil_sublist ((l.erase a).erase b)).cons_cons a |>.cons_cons b)
  rw [← hsame] at hba
  have hsorted := ((insertionEnv conv).sortSlice_perm (less (insertionEnv conv) sortOpts) _).trans
    hperm
  exact not_pair_sublist_both (hsorted.nodup_iff.2 hl) hab hba

/-- Two resources with the same name. -/
def namesakes : List Doc :=
  [[("id", .str "a"), ("name", .str "web")], [("id", .str "b"), ("name", .str "web")]]

theorem namesakes_fixed_by_id :
    (namesakes.map itemID).Nodup ∧ OrderFixed Parse.plainConvert ⟨"", .desc⟩ namesakes :=
  ⟨by decide, (orderFixed_iff _ _ (by decide)).2 (by decide +kernel)⟩

/-- By their name they are sorted into two different lists. -/
theorem namesakes_unfixed_by_name :
    (namesakes.map itemID).Nodup
      ∧ ApplySort (insertionEnv Parse.plainConvert) ⟨"name", .asc⟩ namesakes
        ≠ ApplySort (insertionEnv Parse.plainConvert) ⟨"name", .asc⟩ namesakes.reverse
      ∧ ¬ OrderFixed Parse.plainConvert ⟨"name", .asc⟩ namesakes := by
  have hne : ApplySort (insertionEnv Parse.plainConvert) ⟨"name", .asc⟩ namesakes
      ≠ ApplySort (insertionEnv Parse.plainConvert) ⟨"name", .asc⟩ namesakes.reverse := by
    decide +kernel
  refine ⟨by decide, hne, fun h => hne ?_⟩
  exact h _ rfl (sorts_insertionEnv _) _ _ (List.Perm.refl _) (List.reverse_perm _)

end Ties

end Norman.Handler
