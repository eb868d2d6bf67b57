import Norman.Proofs.WriteProtect

/-!
# What is shown of an object

When an object is listed, its fields are copied, the time stamps of dates are added, `id` and `type`
are taken as they are stored, and what is missing is filled in; in a text to edit, keys of their own
stand for what is not set, and in one to export, what is not needed is left out. At a key of the
stored object there is nothing, or what was copied or stored; unless the key is one that the builder
makes.
-/

namespace Norman.Parse

open Norman.Types Gather

variable {b : Builder}

/-- A key that the builder may make of its own when it reads: the time stamp of a date, and what
stands in for a value in a text to edit. -/
def Made (schema : Schema) (k : String) : Prop :=
  (∃ g field, schema.resourceFields.get g = some field ∧ field.type = "date" ∧ k = g ++ "TS")
    ∨ hasPrefix k "zzz#(" = true

variable {convert : Conversion} {schema : Schema} {m result r : Doc}

/-- The time stamp that is added for what was copied. -/
def stamped (b : Builder) (field : Field) (o : Option Value) : Option Value :=
  o.bind fun w => if field.type = "date" ∧ w ≠ .str "" then
    (Convert.ToTimestamp b.env.toEnv w).toOption.map .int else none

theorem date_of_stamped {field : Field} {o : Option Value} {ts : Value}
    (h : stamped b field o = some ts) : field.type = "date" := by
  obtain ⟨w, -, hw⟩ := Option.bind_eq_some_iff.1 h
  split at hw
  · rename_i hdate
    exact hdate.1
  · cases hw

theorem copyInput_list {k : String} {v : Value}
    (h : b.copyInput convert schema .List k v result = .ok r) :
    (r = result ∧ ∀ field, schema.resourceFields.get k = some field →
        fieldMatchesOp field .List = false)
      ∨ ∃ field o, schema.resourceFields.get k = some field ∧ fieldMatchesOp field .List = true
        ∧ b.copyValue convert .List k field v = .ok o
        ∧ r = put (k ++ "TS") (if b.edit then none else stamped b field o) (put k o result) := by
  unfold Builder.copyInput at h
  rcases hfield : schema.resourceFields.get k with _ | field <;> simp only [hfield] at h
  · cases h
    exact .inl ⟨rfl, fun _ hf => by cases hf⟩
  · rcases hvisible : fieldMatchesOp field .List with _ | _ <;> rw [hvisible] at h
    · cases h
      refine .inl ⟨rfl, fun _ hf => ?_⟩
      cases hf
      exact hvisible
    · obtain ⟨o, ho, h⟩ := bind_eq_ok.1 h
      refine .inr ⟨field, o, rfl, hvisible, ho, ?_⟩
      cases o with
      | none =>
        cases h
        simp [stamped, put]
      | some w =>
        simp only [stamped, Option.bind_some]
        rcases hedit : b.edit with _ | _ <;> simp only [hedit, Operation.IsList] at h
        · by_cases hdate : field.type = "date" ∧ w ≠ .str ""
          · rw [if_pos ⟨trivial, hdate.1, hdate.2, rfl⟩] at h
            rw [if_pos hdate]
            rcases hts : Convert.ToTimestamp b.env.toEnv w with err | ts <;> rw [hts] at h <;> cases h
            · rfl
            · rfl
          · rw [if_neg fun h => hdate ⟨h.2.1, h.2.2.1⟩] at h
            cases h
            rw [if_neg hdate]
            rfl
        · rw [if_neg fun h => absurd h.2.2.2 (by decide)] at h
          cases h
          rfl

/-- At the keys of the stored object, what is shown is what was copied, or what is stored. -/
structure ReadOf (b : Builder) (convert : Conversion) (schema : Schema)
    (m result : Doc) : Prop where
  sorted : Assoc.Sorted result
  shown : ∀ k x y, Assoc.get k m = some x → Assoc.get k result = some y → y = x
    ∨ ∃ field, schema.resourceFields.get k = some field
      ∧ b.copyValue convert .List k field x = .ok (some y)

namespace ReadOf

variable {result : Doc}

theorem set_copied {j : String} {v : Value}
    (hv : ∀ x, Assoc.get j m = some x → v = x ∨ ∃ field, schema.resourceFields.get j = some field
      ∧ b.copyValue convert .List j field x = .ok (some v))
    (h : ReadOf b convert schema m result) : ReadOf b convert schema m (Assoc.set j v result) where
  sorted := h.sorted.set
  shown k x y hx hy := by
    rw [Assoc.get_set] at hy
    split at hy
    · rename_i hk
      cases hy
      rw [hk] at hx ⊢
      exact hv x hx
    · exact h.shown k x y hx hy

theorem set_other {j : String} {v : Value} (hj : Assoc.get j m = none)
    (h : ReadOf b convert schema m result) : ReadOf b convert schema m (Assoc.set j v result) := by
  refine h.set_copied fun x hx => ?_
  rw [hj] at hx
  cases hx

theorem erase {j : String} (h : ReadOf b convert schema m result) :
    ReadOf b convert schema m (Assoc.erase j result) where
  sorted := h.sorted.erase
  shown k x y hx hy := by
    rw [Assoc.get_erase] at hy
    split at hy
    · cases hy
    · exact h.shown k x y hx hy

end ReadOf

theorem get_eq_none_of_made (hmade : ∀ e ∈ m, ¬ Made schema e.1) {j : String} (hj : Made schema j) :
    Assoc.get j m = none := by
  rcases hget : Assoc.get j m with _ | x
  · rfl
  · exact absurd hj (hmade _ (Assoc.mem_of_get hget))

theorem readOf_copyInput (hm : Keyed m) (hmade : ∀ e ∈ m, ¬ Made schema e.1) {e : String × Value}
    (he : e ∈ m) (hread : ReadOf b convert schema m result)
    (h : b.copyInput convert schema .List e.1 e.2 result = .ok r) : ReadOf b convert schema m r := by
  have hget : Assoc.get e.1 m = some e.2 := Assoc.get_of_mem_nodup hm he
  rcases copyInput_list h with ⟨rfl, -⟩ | ⟨field, o, hfield, -, hcopy, rfl⟩
  · exact hread
  · have hput : ReadOf b convert schema m (put e.1 o result) := by
      cases o with
      | none => exact hread
      | some y =>
        refine hread.set_copied fun x hx => .inr ⟨field, hfield, ?_⟩
        cases hget.symm.trans hx
        exact hcopy
    split
    · exact hput
    · rcases hts : stamped b field o with _ | ts
      · exact hput
      · exact hput.set_other
          (get_eq_none_of_made hmade (.inl ⟨e.1, field, hfield, date_of_stamped hts, rfl⟩))

theorem readOf_copyRaw (key : String) (hread : ReadOf b convert schema m result) :
    ReadOf b convert schema m (Builder.copyRaw key m result) := by
  unfold Builder.copyRaw
  dsimp only
  split
  · exact hread
  · refine hread.set_copied fun x hx => .inl ?_
    rw [hx, Option.getD_some]

theorem get_copyRaw_ne_none {key k : String} {input : Doc} (h : Assoc.get k result ≠ none) :
    Assoc.get k (Builder.copyRaw key input result) ≠ none := by
  unfold Builder.copyRaw
  dsimp only
  split
  · exact h
  · rw [Assoc.get_set]
    split
    · simp
    · exact h

/-- Every visible field of the input whose value is copied is there. -/
theorem copyInputs_full : ∀ {l : Doc} {result r : Doc},
    l.foldlM (fun result e => b.copyInput convert schema .List e.1 e.2 result) result = .ok r →
    (∀ k, Assoc.get k result ≠ none → Assoc.get k r ≠ none)
      ∧ ∀ e ∈ l, ∀ field, schema.resourceFields.get e.1 = some field →
        fieldMatchesOp field .List = true → b.copyValue convert .List e.1 field e.2 ≠ .ok none →
        Assoc.get e.1 r ≠ none
  | [], result, r, h => by
    cases h
    exact ⟨fun _ hk => hk, by simp⟩
  | e :: l, result, r, h => by
    obtain ⟨result', he, h⟩ := bind_eq_ok.1 h
    obtain ⟨hkeep, hfull⟩ := copyInputs_full h
    have hput : ∀ k j o (doc : Doc), Assoc.get k doc ≠ none → Assoc.get k (put j o doc) ≠ none := by
      intro k j o doc hk
      rw [get_put]
      split
      · simp [hk]
      · exact hk
    rcases copyInput_list he with ⟨rfl, hhidden⟩ | ⟨field, o, hfield, -, hcopy, rfl⟩
    · refine ⟨hkeep, List.forall_mem_cons.2 ⟨fun field hfield hmatch => ?_, hfull⟩⟩
      simp [hhidden field hfield] at hmatch
    · refine ⟨fun k hk => hkeep k (hput _ _ _ _ (hput _ _ _ _ hk)),
        List.forall_mem_cons.2 ⟨fun field' hfield' _ hne => hkeep _ (hput _ _ _ _ ?_), hfull⟩⟩
      cases hfield.symm.trans hfield'
      cases o with
      | none => exact absurd hcopy hne
      | some y => simp [get_put]

theorem visible_of_filling {field : Field} {v : Value} (h : filling field = some v) :
    fieldMatchesOp field .List = true := by
  unfold filling at h
  split at h
  · cases h
  · simp_all

theorem readOf_checkFields (hread : ReadOf b convert schema m result)
    (hfull : ∀ k x field, Assoc.get k m = some x → schema.resourceFields.get k = some field →
      fieldMatchesOp field .List = true → Assoc.get k result ≠ none)
    (h : schema.resourceFields.entries.foldlM
      (fun result e => Builder.checkField convert .List e.1 e.2 result) result = .ok r) :
    ReadOf b convert schema m r := by
  refine (foldlM_invariant (P := fun result => ReadOf b convert schema m result
    ∧ ∀ k x field, Assoc.get k m = some x → schema.resourceFields.get k = some field →
      fieldMatchesOp field .List = true → Assoc.get k result ≠ none) ?_ ⟨hread, hfull⟩ h).1
  rintro e he result r ⟨hread, hfull⟩ hr
  have hfield : schema.resourceFields.get e.1 = some e.2 := SortedMap.mem_entries.1 he
  rw [checkField_list rfl] at hr
  cases hr
  split
  · rename_i hnone
    rcases hfill : filling e.2 with _ | v
    · exact ⟨hread, hfull⟩
    · have hm : Assoc.get e.1 m = none := by
        rcases hget : Assoc.get e.1 m with _ | x
        · rfl
        · exact absurd hnone (hfull e.1 x e.2 hget hfield (visible_of_filling hfill))
      refine ⟨hread.set_other hm, fun k x field hx hk hvisible => ?_⟩
      rw [get_put]
      split
      · simp
      · exact hfull k x field hx hk hvisible
  · exact ⟨hread, hfull⟩

theorem made_edit (schema : Schema) (desc : String) :
    Made schema ("zzz#(" ++ desc) := by
  right
  simp [hasPrefix]

theorem readOf_populate (hmade : ∀ e ∈ m, ¬ Made schema e.1)
    (hread : ReadOf b convert schema m result)
    (h : Builder.populateMissingFieldsForEdit convert schema result = .ok r) :
    ReadOf b convert schema m r := by
  refine foldlM_invariant (fun e _ result r hread hr => ?_) hread h
  have hkey : ∀ desc fieldType name v (doc : Doc), ReadOf b convert schema m doc →
      ReadOf b convert schema m
        (Assoc.set ("zzz#(" ++ desc ++ ")(" ++ fieldType ++ ")" ++ name) v doc) := by
    intro desc fieldType name v doc hdoc
    refine hdoc.set_other (get_eq_none_of_made hmade ?_)
    simp only [String.append_assoc]
    exact made_edit schema _
  unfold Builder.populateField at hr
  split at hr
  · cases hr
    split
    · exact hread.erase
    · exact hread
  · dsimp only at hr
    split at hr
    · split at hr
      · cases hr
        exact hread
      · obtain ⟨same, -, hr⟩ := bind_eq_ok.1 hr
        split at hr <;> cases hr
        · exact hkey _ _ _ _ _ hread.erase
        · exact hread
    · split at hr
      · cases hr
        exact hkey _ _ _ _ _ hread
      · split at hr <;> cases hr
        · exact hkey _ _ _ _ _ hread
        · exact hread

theorem readOf_drop (hread : ReadOf b convert schema m result)
    (h : Builder.dropDefaultsAndReadOnly convert schema result = .ok r) :
    ReadOf b convert schema m r := by
  refine foldlM_invariant (fun e _ rest r hread hr => ?_) hread h
  split at hr
  · cases hr
    exact hread.erase
  · obtain ⟨drop, -, hr⟩ := bind_eq_ok.1 hr
    split at hr <;> cases hr
    · exact hread.erase
    · exact hread

/-- What is shown of an object. -/
theorem constructWith_list (hm : Keyed m) (hmade : ∀ e ∈ m, ¬ Made schema e.1)
    (hcopy : ∀ e ∈ m, ∀ field, schema.resourceFields.get e.1 = some field →
      b.copyValue convert .List e.1 field e.2 ≠ .ok none)
    (h : b.constructWith convert schema m .List = .ok r) : ReadOf b convert schema m r := by
  rw [constructWith_list_eq rfl] at h
  obtain ⟨r₁, hloop, h⟩ := bind_eq_ok.1 h
  obtain ⟨r₂, hdefault, h⟩ := bind_eq_ok.1 h
  obtain ⟨r₃, hedit, h⟩ := bind_eq_ok.1 h
  have hnil : ReadOf b convert schema m [] := ⟨.nil, fun _ _ _ _ hy => by cases hy⟩
  have hread₁ : ReadOf b convert schema m r₁ :=
    foldlM_invariant (fun e he result r hread hr => readOf_copyInput hm hmade he hread hr) hnil hloop
  have hfull₁ : ∀ k x field, Assoc.get k m = some x → schema.resourceFields.get k = some field →
      fieldMatchesOp field .List = true → Assoc.get k r₁ ≠ none := by
    intro k x field hx hfield hmatch
    have he := Assoc.mem_of_get hx
    exact (copyInputs_full hloop).2 _ he field hfield hmatch (hcopy _ he field hfield)
  have hread₂ : ReadOf b convert schema m r₂ := by
    split at hdefault
    · exact readOf_checkFields (readOf_copyRaw "id" (readOf_copyRaw "type" hread₁))
        (fun k x field hx hfield hmatch =>
          get_copyRaw_ne_none (get_copyRaw_ne_none (hfull₁ k x field hx hfield hmatch))) hdefault
    · exact readOf_checkFields hread₁ hfull₁ hdefault
  have hread₃ : ReadOf b convert schema m r₃ := by
    split at hedit
    · exact readOf_populate hmade hread₂ hedit
    · cases hedit
      exact hread₂
  split at h
  · exact readOf_drop hread₃ h
  · cases h
    exact hread₃

end Norman.Parse
