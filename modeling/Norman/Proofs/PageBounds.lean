import Norman.Proofs.Paging

/-!
# The bounds of a page

All the indexes of a page are in range, with sums and differences of 64 bits, if the sum of the
index it starts at and the limit has 64 bits. Otherwise the sum is negative, and so is no index
(`paginate_iff`). The limit is cut off at the end of the list only after it was added.
-/

namespace Norman.Handler

open Norman.Types

section Indexes

variable {data : List Doc} {p : Pagination} {limit : Int}

/-- A sum that is too large is negative. -/
theorem bmod_overflow {a : Int} (hlow : 9223372036854775808 ≤ a)
    (hhigh : a < 18446744073709551616) : a.bmod (2 ^ 64) = a - 18446744073709551616 := by
  rw [← Int.sub_bmod_right, bmod_int64] <;> omega

theorem startIndex_lt (hne : data ≠ []) (marker : String) :
    startIndex marker data < data.length := by
  have hpos : 0 < data.length := List.length_pos_iff.2 hne
  unfold startIndex
  split
  · exact hpos
  · rcases h : data.findIdx? fun item => itemID item = marker with _ | i
    · exact hpos
    · exact (List.findIdx?_eq_some_iff_getElem.1 h).1

theorem idWhere_eq (data : List Doc) (c : Prop) [Decidable c] (i : Int) (otherwise : String)
    (h : c → 0 ≤ i ∧ i < data.length) : idWhere c data i otherwise
      = some (if c then (data[i.toNat]?.map itemID).getD "" else otherwise) := by
  unfold idWhere
  by_cases hc : c
  · obtain ⟨hlow, hhigh⟩ := h hc
    have hlt : i.toNat < data.length := by omega
    rw [if_pos hc, if_pos (decide_eq_true hc), idAtIndex, if_pos hlow,
      List.getElem?_eq_getElem hlt]
    rfl
  · rw [if_neg hc, if_neg (by simpa using hc)]

/-- Every item that is read is there; only the end of the page may be no index. -/
theorem pageOf_eq (hne : data ≠ []) (hlen : data.length ≤ 2 ^ 61) (hlow : 0 ≤ limit)
    (hhigh : limit < 9223372036854775808) :
    pageOf p limit data
      = if nextIndex limit (startIndex p.marker data) data < startIndex p.marker data then none
        else some ((data.take (nextIndex limit (startIndex p.marker data) data).toNat).drop
            (startIndex p.marker data), describe p limit (startIndex p.marker data) data) := by
  have hstart := startIndex_lt hne p.marker
  generalize hs : startIndex p.marker data = start at hstart ⊢
  have hprevious : subInt64 start limit = start - limit := bmod_int64 (by omega) (by omega)
  have hlast : subInt64 data.length limit = data.length - limit :=
    bmod_int64 (by omega) (by omega)
  have hmax : (if (start : Int) - limit ≤ 0 then 0 else (start : Int) - limit)
      = max ((start : Int) - limit) 0 := by
    split <;> omega
  have hmin : (if addInt64 start limit > data.length then (data.length : Int)
      else addInt64 start limit) = nextIndex limit start data := by
    unfold nextIndex
    split <;> omega
  have hnext : nextIndex limit start data ≤ data.length := by
    unfold nextIndex
    omega
  generalize hn : nextIndex limit start data = next at hmin hnext ⊢
  -- each of the four items is read only where it is there
  have hreadPrevious := idWhere_eq data (max ((start : Int) - limit) 0 < start)
    (max ((start : Int) - limit) 0) "" (by omega)
  have hreadNext := idWhere_eq data (next > start ∧ next < data.length) next "" (by omega)
  have hreadFirst := idWhere_eq data ((start : Int) > 0 ∨ next < data.length) 0 "" (by omega)
  have hreadLast := idWhere_eq data (((start : Int) > 0 ∨ next < data.length)
      ∧ (data.length : Int) - limit > 0 ∧ (data.length : Int) - limit < data.length)
    ((data.length : Int) - limit) p.last (by omega)
  have hslice : sliceOf data start next
      = if next < start then none else some ((data.take next.toNat).drop start) := by
    unfold sliceOf
    split
    · rw [if_neg (by omega), Int.toNat_natCast]
    · rw [if_pos (by omega)]
  unfold pageOf
  simp only [hs, hprevious, hlast, hmax, hmin, decide_eq_true_eq, hreadPrevious, hreadNext,
    hreadFirst, hreadLast, hslice, Option.bind_eq_bind, Option.bind_some]
  split
  · rfl
  · simp only [Option.bind_some, describe, hn, gt_iff_lt, Int.natCast_pos, decide_eq_true_eq]

theorem clamp_eq (limit : Int) : (if limit < 0 then 0 else limit) = max limit 0 := by
  split <;> omega

/-- `ApplyPagination` is what is done index by index. -/
theorem applyPagination_eq (hl : p.limit = some limit) (hlen : data.length ≤ 2 ^ 61)
    (hhigh : limit < 9223372036854775808) :
    ApplyPagination (some p) data = (paginate p limit data).map fun r => (r.1, some r.2) := by
  simp only [ApplyPagination, paginate, hl, clamp_eq]
  split
  · rfl
  · rename_i hne
    rw [pageOf_eq hne hlen (by omega) (by omega)]
    split <;> rfl

end Indexes

section Bounds

variable {data : List Doc} {p : Pagination} {limit : Int} {marker : String} {s : ℕ}

/-- A page starts at the first item that has the marker as its id, or at the beginning. -/
def StartsAt (marker : String) (data : List Doc) (s : ℕ) : Prop :=
  (marker ≠ "" ∧ (data[s]?.map itemID) = some marker
      ∧ ∀ j < s, (data[j]?.map itemID) ≠ some marker)
    ∨ ((marker = "" ∨ ∀ item ∈ data, itemID item ≠ marker) ∧ s = 0)

theorem startsAt_startIndex (marker : String) (data : List Doc) :
    StartsAt marker data (startIndex marker data) := by
  unfold startIndex
  split
  · rename_i hempty
    exact .inr ⟨.inl hempty, rfl⟩
  · rename_i hne
    rcases h : data.findIdx? fun item => itemID item = marker with _ | i
    · refine .inr ⟨.inr fun item hitem => ?_, rfl⟩
      simpa using List.findIdx?_eq_none_iff.1 h item hitem
    · obtain ⟨hlt, hid, hbefore⟩ := List.findIdx?_eq_some_iff_getElem.1 h
      rw [Option.getD_some]
      refine .inl ⟨hne, ?_, fun j hj => ?_⟩
      · simpa [List.getElem?_eq_getElem hlt] using hid
      · have hlt' : j < data.length := by omega
        simpa [List.getElem?_eq_getElem hlt'] using hbefore j hj

theorem StartsAt.unique (h : StartsAt marker data s) : s = startIndex marker data := by
  have hother := startsAt_startIndex marker data
  generalize startIndex marker data = s' at hother ⊢
  have hmem : ∀ {i : ℕ}, (data[i]?.map itemID) = some marker →
      ¬ (∀ item ∈ data, itemID item ≠ marker) := by
    intro i hi hall
    obtain ⟨item, hitem, hid⟩ := Option.map_eq_some_iff.1 hi
    exact hall item (List.mem_of_getElem? hitem) hid
  rcases h with ⟨hne, hid, hfirst⟩ | ⟨hnone, rfl⟩ <;>
    rcases hother with ⟨hne', hid', hfirst'⟩ | ⟨hnone', rfl⟩
  · rcases Nat.lt_trichotomy s s' with hlt | heq | hgt
    · exact absurd hid (hfirst' s hlt)
    · exact heq
    · exact absurd hid' (hfirst s' hgt)
  · exact absurd (hnone'.resolve_left hne) (hmem hid)
  · exact absurd (hnone.resolve_left hne') (hmem hid')
  · rfl

/-- The end of a page is an index, or the sum is too large. -/
theorem nextIndex_cases (hlt : s < data.length) (hlen : data.length ≤ 2 ^ 61) (hlow : 0 ≤ limit)
    (hhigh : limit < 9223372036854775808) :
    (s + limit < 9223372036854775808 ∧ nextIndex limit s data = min (s + limit) data.length)
      ∨ (¬ s + limit < 9223372036854775808 ∧ nextIndex limit s data < 0) := by
  unfold nextIndex addInt64
  by_cases hsum : s + limit < 9223372036854775808
  · rw [bmod_int64 (by omega) hsum]
    exact .inl ⟨hsum, rfl⟩
  · rw [bmod_overflow (by omega) (by omega)]
    exact .inr ⟨hsum, by omega⟩

/-- A page is a part of the list that starts at the marker and is not longer than the limit, and no
index of it is out of range, if and only if the sum of its start and the limit has 64 bits. -/
theorem paginate_iff (data : Slice) (p : Pagination)
    (hlimit : -9223372036854775808 ≤ limit ∧ limit < 9223372036854775808) :
    (∃ page p', paginate p limit data.items = some (page, p')
        ∧ ∃ s n : ℕ, StartsAt p.marker data.items s ∧ page = (data.items.drop s).take n
          ∧ (n : Int) ≤ max limit 0)
      ↔ ∀ s, StartsAt p.marker data.items s → s + max limit 0 < 9223372036854775808 := by
  have hstart := startsAt_startIndex p.marker data.items
  have hall : (∀ s, StartsAt p.marker data.items s → s + max limit 0 < 9223372036854775808)
      ↔ startIndex p.marker data.items + max limit 0 < 9223372036854775808 :=
    ⟨fun h => h _ hstart, fun h s hs => hs.unique ▸ h⟩
  rw [hall, paginate, clamp_eq]
  split
  · rename_i hempty
    have hzero : startIndex p.marker data.items = 0 := by
      simp [startIndex, hempty]
    refine iff_of_true ⟨_, _, rfl, 0, 0, hzero ▸ hstart, ?_, by omega⟩ (by omega)
    simp [hempty]
  · rename_i hne
    have hlt := startIndex_lt hne p.marker
    rw [pageOf_eq hne data.length_le (by omega) (by omega)]
    rcases nextIndex_cases hlt data.length_le (by omega : 0 ≤ max limit 0) (by omega) with
      ⟨hsum, hnext⟩ | ⟨hsum, hnext⟩
    · refine iff_of_true ?_ hsum
      rw [if_neg (by omega)]
      refine ⟨_, _, rfl, _, (nextIndex (max limit 0) (startIndex p.marker data.items)
        data.items).toNat - startIndex p.marker data.items, hstart, List.drop_take, by omega⟩
    · refine iff_of_false ?_ hsum
      rw [if_pos (by omega)]
      rintro ⟨page, p', hno, -⟩
      cases hno

end Bounds

section Instances

def twoPods : Slice where
  items := [[("id", .str "a")], [("id", .str "b")]]
  length_le := by decide

/-- The page behind the marker, with a limit that is not too large. -/
theorem last_page_in_bounds :
    ∃ page p', paginate { marker := "b" } 1000 twoPods.items = some (page, p')
      ∧ ∃ s n : ℕ, StartsAt "b" twoPods.items s ∧ page = (twoPods.items.drop s).take n
        ∧ (n : Int) ≤ max 1000 0 := by
  refine (paginate_iff twoPods { marker := "b" } (by decide : _ ∧ (1000 : Int) < _)).2 ?_
  intro s hs
  have hone : startIndex "b" twoPods.items = 1 := by decide +kernel
  rw [hs.unique, hone]
  decide

/-- With the largest limit, the second item of two is no start of a page. -/
theorem largest_limit_panics :
    paginate { marker := "b" } 9223372036854775807 twoPods.items = none
      ∧ ApplyPagination (some { marker := "b", limit := some 9223372036854775807 }) twoPods.items
        = none := by
  decide +kernel

end Instances

end Norman.Handler
