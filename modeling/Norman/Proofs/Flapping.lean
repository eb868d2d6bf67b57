import Norman.Condition
import Norman.Lib.Descent

/-!
# Conditions do not flap

A run of `Do` on an object changes one condition, and what it makes of it depends on the condition
and on the error alone (`next`). Runs that all succeed, or all fail in the same way, come to a
condition that the next run finds again and leaves as it is, after one or two of them.
-/

namespace Norman.Condition

section Edit

variable {c d : String} {g g' : GenericCondition → GenericCondition} {l : List GenericCondition}

/-- A change that leaves a condition its name. -/
def KeepsType (g : GenericCondition → GenericCondition) : Prop := ∀ cond, (g cond).type = cond.type

theorem KeepsType.comp (hg' : KeepsType g') (hg : KeepsType g) : KeepsType (g' ∘ g) :=
  fun cond => (hg' _).trans (hg cond)

theorem findCond_editCond (hg : KeepsType g) : ∀ l : List GenericCondition,
    findCond (editCond c g l) c = some (g ((findCond l c).getD (newCond c)))
  | [] => by
    have hc : (g (newCond c)).type = c := hg _
    simp [findCond, editCond, hc]
  | cond :: l => by
    have ih := findCond_editCond hg l
    unfold findCond at ih ⊢
    rw [editCond]
    by_cases hc : cond.type = c
    · simp [hc, hg cond]
    · simp [hc, ih]

theorem editCond_editCond (hg : KeepsType g) : ∀ l : List GenericCondition,
    editCond c g' (editCond c g l) = editCond c (g' ∘ g) l
  | [] => by
    have hc : (g (newCond c)).type = c := hg _
    simp [editCond, hc]
  | cond :: l => by
    by_cases hc : cond.type = c
    · simp [editCond, hc, hg cond]
    · simp [editCond, hc, editCond_editCond hg l]

/-- All conditions but the one that is changed stay where they are. -/
theorem eraseP_editCond (hg : KeepsType g) : ∀ l : List GenericCondition,
    (editCond c g l).eraseP (fun cond => cond.type = c) = l.eraseP fun cond => cond.type = c
  | [] => by
    have hc : (g (newCond c)).type = c := hg _
    simp [editCond, hc]
  | cond :: l => by
    by_cases hc : cond.type = c
    · simp [editCond, hc, hg cond]
    · simp [editCond, hc, eraseP_editCond hg l]

/-- A change is known by what it makes of the condition. -/
theorem editCond_congr : ∀ {l : List GenericCondition},
    g ((findCond l c).getD (newCond c)) = g' ((findCond l c).getD (newCond c)) →
    editCond c g l = editCond c g' l
  | [], h => by simpa [findCond, editCond] using h
  | x :: l, h => by
    unfold findCond at h
    rw [List.find?_cons] at h
    by_cases hx : x.type = c
    · simp only [hx, decide_true, Option.getD_some] at h
      simp [editCond, hx, h]
    · simp only [hx, decide_false] at h
      rw [editCond, if_neg hx, editCond, if_neg hx, editCond_congr h]

theorem editCond_id : ∀ {l : List GenericCondition} {cond : GenericCondition},
    findCond l c = some cond → editCond c id l = l
  | [], _, h => by cases h
  | x :: l, cond, h => by
    unfold findCond at h
    rw [List.find?_cons] at h
    by_cases hx : x.type = c
    · simp [editCond, hx]
    · simp only [hx, decide_false] at h
      rw [editCond, if_neg hx, editCond_id h]

end Edit

section Values

variable (now value : String) (part : Part) (cond : GenericCondition)

@[simp] theorem type_setValue : (setValue now part value cond).type = cond.type := by
  unfold setValue
  split_ifs
  · cases part <;> rfl
  · rfl

@[simp] theorem lastTransitionTime_setValue :
    (setValue now part value cond).lastTransitionTime = cond.lastTransitionTime := by
  unfold setValue
  split_ifs
  · cases part <;> rfl
  · rfl

theorem get_setValue (part' : Part) : part'.get (setValue now part value cond)
    = if part' = part then value else part'.get cond := by
  unfold setValue
  split_ifs with hne heq heq
  · subst heq
    cases part' <;> rfl
  · cases part' <;> cases part <;> first | rfl | exact absurd rfl heq
  · subst heq
    exact not_not.1 hne
  · rfl

@[simp] theorem status_setValue : (setValue now part value cond).status
    = if Part.status = part then value else cond.status := get_setValue now value part cond .status

@[simp] theorem reason_setValue : (setValue now part value cond).reason
    = if Part.reason = part then value else cond.reason := get_setValue now value part cond .reason

@[simp] theorem message_setValue : (setValue now part value cond).message
    = if Part.message = part then value else cond.message :=
  get_setValue now value part cond .message

variable {now value part cond} in
theorem setValue_eq_self (h : part.get cond = value) : setValue now part value cond = cond := by
  simp [setValue, h]

end Values

section Next

variable (clock : Clock) (err : Option Err) (before : Option GenericCondition)
  (cond : GenericCondition)

/-- What `doInternal` first makes of a condition. -/
def unknownCond : GenericCondition :=
  if cond.status = "False" then cond else setValue (clock .unknown) .status "Unknown" cond

/-- What `ReasonAndMessageFromError` makes of it. -/
def errorCond (err : Err) : GenericCondition :=
  if err.isConflict then cond
  else setValue (clock .reason) .reason err.reason
    (setValue (clock .message) .message err.text cond)

/-- What `report` makes of it. -/
def reportCond : GenericCondition :=
  match err with
  | none => setValue (clock .message) .message ""
      (Part.reason.set "" (setValue (clock .status) .status "True" cond))
  | some (.forgetError reason text) =>
    if cond.message = "" then errorCond clock cond (.forgetError reason text) else cond
  | some err => errorCond clock (setValue (clock .status) .status "False" cond) err

/-- What `settle` does to the message of a condition that had another one before. -/
def redactCond (message : String) : GenericCondition :=
  if message ≠ cond.message then setValue (clock .redacted) .message (redact cond.message) cond
  else cond

/-- The time is as it was before if the message is. -/
def restoreCond (message ts : String) : GenericCondition :=
  if message = cond.message then touchTS ts cond else cond

/-- What `settle` makes of a condition that was as `before`. -/
def settleCond : GenericCondition :=
  if (before.map GenericCondition.status).getD "" = cond.status
      ∧ (before.map GenericCondition.reason).getD "" = cond.reason then
    restoreCond (redactCond clock cond ((before.map GenericCondition.message).getD ""))
      ((before.map GenericCondition.message).getD "")
      ((before.map GenericCondition.lastUpdateTime).getD "")
  else cond

/-- What a run makes of a condition. -/
def next : GenericCondition :=
  settleCond clock before (reportCond clock err (unknownCond clock cond))

theorem keepsType_unknownCond : KeepsType (unknownCond clock) := by
  intro cond
  unfold unknownCond
  split_ifs
  · rfl
  · simp

theorem keepsType_errorCond (err : Err) : KeepsType fun cond => errorCond clock cond err := by
  intro cond
  unfold errorCond
  split_ifs
  · rfl
  · simp

theorem keepsType_reportCond : KeepsType (reportCond clock err) := by
  intro cond
  unfold reportCond
  split
  · simp [Part.set]
  · split_ifs
    · exact keepsType_errorCond clock _ cond
    · rfl
  · rw [keepsType_errorCond clock _ _, type_setValue]

theorem type_redactCond (message : String) : (redactCond clock cond message).type = cond.type := by
  unfold redactCond
  split_ifs
  · simp
  · rfl

theorem type_restoreCond (message ts : String) :
    (restoreCond cond message ts).type = cond.type := by
  unfold restoreCond
  split_ifs <;> rfl

theorem keepsType_settleCond : KeepsType (settleCond clock before) := by
  intro cond
  unfold settleCond
  split_ifs
  · rw [type_restoreCond, type_redactCond]
  · rfl

theorem keepsType_next : KeepsType (next clock err before) := fun cond => by
  rw [next, keepsType_settleCond, keepsType_reportCond, keepsType_unknownCond]

end Next

section Do

variable {ρ : Type} {c : String} {clock : Clock} {err : Option Err} {obj : Object ρ}
  {cond : GenericCondition}

/-- A function that leaves the object alone and returns none. -/
def leaves (err : Option Err) (obj : Object ρ) : Ran ρ := { obj, newObj := none, err }

theorem valueOf_eq (h : findCond obj.conditions c = some cond)
    (get : GenericCondition → String) : valueOf c obj get = get cond := by
  simp [valueOf, h]

theorem edit_edit {g g' : GenericCondition → GenericCondition} (hg : KeepsType g) :
    (obj.edit c g).edit c g' = obj.edit c (g' ∘ g) := by
  simp only [Object.edit, editCond_editCond hg]

/-- What leaves the condition as it is leaves the object as it is. -/
theorem edit_eq_self {g : GenericCondition → GenericCondition}
    (h : findCond obj.conditions c = some cond) (hg : g cond = cond) : obj.edit c g = obj := by
  have hcongr : editCond c g obj.conditions = editCond c id obj.conditions :=
    editCond_congr (by simpa [h] using hg)
  rw [Object.edit, hcongr, editCond_id h]

theorem edit_congr {g g' : GenericCondition → GenericCondition}
    (h : findCond obj.conditions c = some cond) (hg : g cond = g' cond) :
    obj.edit c g = obj.edit c g' := by
  rw [Object.edit, Object.edit, editCond_congr (by simpa [h] using hg)]

theorem unknown_eq (obj : Object ρ) :
    (if IsFalse c obj then obj else Cond.Unknown c (clock .unknown) obj)
      = obj.edit c (unknownCond clock) := by
  rcases hfind : findCond obj.conditions c with _ | cond
  · rw [if_neg (by simp [IsFalse, GetStatus, valueOf, hfind]), Cond.Unknown, SetStatus, Object.edit,
      Object.edit, editCond_congr]
    rw [hfind]
    rfl
  · have hstatus : IsFalse c obj = decide (cond.status = "False") := by
      simp [IsFalse, GetStatus, valueOf_eq hfind]
    by_cases hfalse : cond.status = "False"
    · rw [if_pos (by simp [hstatus, hfalse]), edit_eq_self hfind]
      simp [unknownCond, hfalse]
    · rw [if_neg (by simp [hstatus, hfalse])]
      exact edit_congr hfind (by simp [unknownCond, hfalse])

variable (c obj) in
theorem present_edit {g : GenericCondition → GenericCondition} (hg : KeepsType g) :
    findCond (obj.edit c g).conditions c
      = some (g ((findCond obj.conditions c).getD (newCond c))) :=
  findCond_editCond hg obj.conditions

theorem error_eq (h : findCond obj.conditions c = some cond) (err : Err) :
    ReasonAndMessageFromError c obj clock err
      = obj.edit c fun cond => errorCond clock cond err := by
  unfold ReasonAndMessageFromError
  split_ifs with hc
  · rw [edit_eq_self h]
    simp [errorCond, hc]
  · exact edit_congr h (by simp [errorCond, hc])

theorem report_eq (h : findCond obj.conditions c = some cond) :
    report c clock err obj = obj.edit c (reportCond clock err) := by
  have hstatus : ∀ value, KeepsType (setValue (clock .status) .status value) := fun value cond => by
    simp
  unfold report
  split
  · rw [Cond.True, SetStatus, Reason, Message, edit_edit (hstatus _), edit_edit]
    · rfl
    · exact KeepsType.comp (fun _ => rfl) (hstatus _)
  · rw [GetMessage, valueOf_eq h]
    split_ifs with hblank
    · rw [error_eq h]
      exact edit_congr h (by simp [reportCond, hblank])
    · rw [edit_eq_self h]
      simp [reportCond, hblank]
  · rename_i err hforget
    rw [Cond.False, SetStatus, error_eq (present_edit c obj (hstatus "False")),
      edit_edit (hstatus _)]
    refine edit_congr h ?_
    rcases err with _ | ⟨reason, text⟩ | _ | _
    · rfl
    · exact absurd rfl (hforget reason text)
    · rfl
    · rfl

theorem settle_eq {before : Object ρ} (h : findCond obj.conditions c = some cond) :
    settle c clock before obj
      = obj.edit c (settleCond clock (findCond before.conditions c)) := by
  have hredact : ∀ message : String,
      (if message ≠ cond.message then Message c (clock .redacted) obj (redact cond.message)
          else obj)
        = obj.edit c fun cond => redactCond clock cond message := by
    intro message
    split_ifs with hne
    · exact edit_congr h (by simp [redactCond, hne])
    · rw [edit_eq_self h]
      simp [redactCond, hne]
  have hkeeps : ∀ message, KeepsType fun cond => redactCond clock cond message :=
    fun message cond => type_redactCond clock cond message
  unfold settle
  simp only [GetStatus, GetReason, GetMessage, GetLastUpdated, valueOf_eq h, hredact,
    valueOf_eq (present_edit c obj (hkeeps _))]
  rw [h, Option.getD_some]
  by_cases hsame : valueOf c before GenericCondition.status = cond.status
      ∧ valueOf c before GenericCondition.reason = cond.reason
  · rw [if_pos hsame]
    by_cases hmessage : valueOf c before GenericCondition.message
        = (redactCond clock cond (valueOf c before GenericCondition.message)).message
    · rw [if_pos hmessage, LastUpdated, edit_edit (hkeeps _)]
      refine edit_congr h ?_
      simp only [valueOf] at hsame hmessage
      rw [settleCond, if_pos hsame, restoreCond, if_pos hmessage]
      rfl
    · rw [if_neg hmessage]
      refine edit_congr h ?_
      simp only [valueOf] at hsame hmessage ⊢
      rw [settleCond, if_pos hsame, restoreCond, if_neg hmessage]
  · rw [if_neg hsame, edit_eq_self h]
    simp only [valueOf] at hsame
    rw [settleCond, if_neg hsame]

/-- A run does one thing, and to the condition alone. -/
theorem Do_leaves (obj : Object ρ) :
    Do c clock obj (leaves err)
      = leaves err (obj.edit c (next clock err (findCond obj.conditions c))) := by
  have hcomp := (keepsType_reportCond clock err).comp (keepsType_unknownCond clock)
  have hinternal : doInternal c clock true obj (leaves err)
      = leaves err (obj.edit c (reportCond clock err ∘ unknownCond clock)) := by
    unfold doInternal
    simp only [unknown_eq, leaves, Ran.onSet]
    rw [report_eq (present_edit c obj (keepsType_unknownCond clock)),
      edit_edit (keepsType_unknownCond clock)]
  unfold Do do2
  simp only [hinternal, leaves, Ran.onSet]
  rw [settle_eq (present_edit c obj hcomp), edit_edit hcomp]
  rfl

end Do

section Settled

variable (clock : Clock) {x cond : GenericCondition} {err : Option Err}
  {before : Option GenericCondition}

theorem eq_of_alike (htype : cond.type = x.type)
    (htransition : cond.lastTransitionTime = x.lastTransitionTime)
    (hstatus : cond.status = x.status)
    (hreason : cond.reason = x.reason) (hmessage : cond.message = x.message) :
    touchTS x.lastUpdateTime cond = x := by
  cases cond
  cases x
  simp_all [touchTS]

/-- A run that finds a condition as it was, but for temporary files in the message, leaves it. -/
theorem settleCond_eq_self (htype : cond.type = x.type)
    (htransition : cond.lastTransitionTime = x.lastTransitionTime)
    (hstatus : cond.status = x.status)
    (hreason : cond.reason = x.reason)
    (hmessage : cond.message = x.message ∨ redact cond.message = x.message) :
    settleCond clock (some x) cond = x := by
  simp only [settleCond, Option.map_some, Option.getD_some]
  rw [if_pos ⟨hstatus.symm, hreason.symm⟩]
  by_cases heq : x.message = cond.message
  · rw [redactCond, if_neg (not_not.2 heq), restoreCond, if_pos heq]
    exact eq_of_alike htype htransition hstatus hreason heq.symm
  · have hredact := hmessage.resolve_left (Ne.symm heq)
    rw [redactCond, if_pos heq, restoreCond, if_pos (by simp [hredact])]
    exact eq_of_alike (by simpa using htype) (by simpa using htransition) (by simpa using hstatus)
      (by simpa using hreason) (by simpa using hredact)

theorem status_settleCond : (settleCond clock before cond).status = cond.status := by
  unfold settleCond restoreCond redactCond
  split_ifs <;> simp [touchTS]

theorem reason_settleCond : (settleCond clock before cond).reason = cond.reason := by
  unfold settleCond restoreCond redactCond
  split_ifs <;> simp [touchTS]

/-- The message is redacted if it is new, and nothing else is. -/
theorem message_settleCond : (settleCond clock before cond).message
    = if (before.map GenericCondition.status).getD "" = cond.status
        ∧ (before.map GenericCondition.reason).getD "" = cond.reason
        ∧ (before.map GenericCondition.message).getD "" ≠ cond.message
      then redact cond.message else cond.message := by
  have hrestore : ∀ (cond : GenericCondition) message ts,
      (restoreCond cond message ts).message = cond.message := by
    intro cond message ts
    unfold restoreCond
    split_ifs <;> rfl
  have hredact : ∀ message, (redactCond clock cond message).message
      = if message ≠ cond.message then redact cond.message else cond.message := by
    intro message
    unfold redactCond
    split_ifs <;> simp
  unfold settleCond
  by_cases hsame : (before.map GenericCondition.status).getD "" = cond.status
      ∧ (before.map GenericCondition.reason).getD "" = cond.reason
  · rw [if_pos hsame, hrestore, hredact]
    simp only [hsame, true_and]
  · rw [if_neg hsame, if_neg fun h => hsame ⟨h.1, h.2.1⟩]

end Settled

section Kinds

variable (clock : Clock) {before : Option GenericCondition} {x : GenericCondition}

section Any

variable (err : Option Err) (cond : GenericCondition)

theorem status_unknownCond : (unknownCond clock cond).status = "False" ∨
    (unknownCond clock cond).status = "Unknown" := by
  unfold unknownCond
  split_ifs with h
  · exact .inl h
  · exact .inr (by simp)

theorem unknownCond_keeps : (unknownCond clock cond).lastTransitionTime = cond.lastTransitionTime
    ∧ (unknownCond clock cond).message = cond.message := by
  unfold unknownCond
  split_ifs <;> simp

theorem reportCond_keeps :
    (reportCond clock err cond).lastTransitionTime = cond.lastTransitionTime := by
  unfold reportCond errorCond
  split
  · simp [Part.set]
  · split_ifs <;> simp
  · split_ifs <;> simp

end Any

/-- A run that finds a condition as it was, but for temporary files in the message, leaves it. -/
theorem next_eq_self {err : Option Err}
    (hstatus : (reportCond clock err (unknownCond clock x)).status = x.status)
    (hreason : (reportCond clock err (unknownCond clock x)).reason = x.reason)
    (hmessage : (reportCond clock err (unknownCond clock x)).message = x.message
      ∨ redact (reportCond clock err (unknownCond clock x)).message = x.message) :
    next clock err (some x) x = x := by
  refine settleCond_eq_self clock ?_ ?_ hstatus hreason hmessage
  · rw [keepsType_reportCond, keepsType_unknownCond]
  · rw [reportCond_keeps, (unknownCond_keeps clock x).1]

section Success

/-- What a run that succeeds leaves behind. -/
def Succeeded (cond : GenericCondition) : Prop :=
  cond.status = "True" ∧ cond.reason = "" ∧ cond.message = ""

theorem succeeded_reportCond (cond : GenericCondition) :
    Succeeded (reportCond clock none cond) := by
  simp [Succeeded, reportCond, Part.set]

theorem succeeded_next (cond : GenericCondition) : Succeeded (next clock none before cond) := by
  obtain ⟨h1, h2, h3⟩ := succeeded_reportCond clock (unknownCond clock cond)
  have hempty : redact "" = "" := rfl
  refine ⟨?_, ?_, ?_⟩
  · rw [next, status_settleCond, h1]
  · rw [next, reason_settleCond, h2]
  · rw [next, message_settleCond, h3, hempty, ite_self]

theorem next_succeeded (h : Succeeded x) : next clock none (some x) x = x := by
  obtain ⟨h1, h2, h3⟩ := succeeded_reportCond clock (unknownCond clock x)
  exact next_eq_self clock (h1.trans h.1.symm) (h2.trans h.2.1.symm) (.inl (h3.trans h.2.2.symm))

end Success

section Forget

variable (reason text : String) {cond : GenericCondition}

/-- What a run with a `ForgetError` leaves behind: a message that was there before, or that of the
error; if that is empty, it is found to be so again. -/
def Forgotten (cond : GenericCondition) : Prop :=
  (cond.status = "False" ∨ cond.status = "Unknown")
    ∧ (cond.message ≠ "" ∨ cond.reason = (Err.forgetError reason text).reason
      ∧ (text = "" ∨ redact text = ""))

theorem reportCond_forget (hblank : cond.message = "") :
    (reportCond clock (some (.forgetError reason text)) cond).status = cond.status
      ∧ (reportCond clock (some (.forgetError reason text)) cond).reason
        = (Err.forgetError reason text).reason
      ∧ (reportCond clock (some (.forgetError reason text)) cond).message = text := by
  simp [reportCond, hblank, errorCond, Err.isConflict, Err.text]

theorem reportCond_forget_eq_self (hmessage : cond.message ≠ "") :
    reportCond clock (some (.forgetError reason text)) cond = cond := by
  simp [reportCond, hmessage]

theorem forgotten_next (hbefore : before = some cond ∨ cond.message = "") :
    Forgotten reason text (next clock (some (.forgetError reason text)) before cond) := by
  have hunknown := (unknownCond_keeps clock cond).2
  unfold next Forgotten
  rw [status_settleCond, reason_settleCond, message_settleCond]
  by_cases hblank : cond.message = ""
  · obtain ⟨h1, h2, h3⟩ := reportCond_forget clock reason text (hunknown.trans hblank)
    rw [h1, h2, h3]
    refine ⟨status_unknownCond clock cond, ?_⟩
    split_ifs
    · exact (em (redact text = "")).symm.imp_right fun h => ⟨rfl, .inr h⟩
    · exact (em (text = "")).symm.imp_right fun h => ⟨rfl, .inl h⟩
  · obtain rfl := hbefore.resolve_right hblank
    rw [reportCond_forget_eq_self clock reason text (by rwa [hunknown])]
    refine ⟨status_unknownCond clock cond, .inl ?_⟩
    rw [if_neg fun h => h.2.2 hunknown.symm, hunknown]
    exact hblank

theorem next_forgotten {reason text : String} (h : Forgotten reason text x) :
    next clock (some (.forgetError reason text)) (some x) x = x := by
  have hunknown : unknownCond clock x = x := by
    rcases h.1 with hstatus | hstatus
    · simp [unknownCond, hstatus]
    · have hget : Part.status.get x = "Unknown" := hstatus
      rw [unknownCond, if_neg (by simp [hstatus]), setValue_eq_self hget]
  by_cases hblank : x.message = ""
  · obtain ⟨h1, h2, h3⟩ := reportCond_forget clock reason text hblank
    obtain ⟨hreason, htext⟩ := h.2.resolve_left (not_not.2 hblank)
    rw [← hunknown] at h1 h2 h3
    refine next_eq_self clock ?_ (h2.trans hreason.symm) ?_
    · rw [h1, hunknown]
    · rw [h3, hblank]
      exact htext
  · have hreport := reportCond_forget_eq_self clock reason text hblank
    refine next_eq_self clock ?_ ?_ (.inl ?_) <;> rw [hunknown, hreport]

end Forget

section Failure

variable {err : Err} {reason message : String}

/-- Any error but a `ForgetError` or a conflict. -/
def Err.Plain : Err → Prop
  | .conditionError _ _ | .other _ => True
  | .forgetError _ _ | .conflict _ => False

/-- What a run that fails leaves behind. -/
def Failed (reason : String) (cond : GenericCondition) : Prop :=
  cond.status = "False" ∧ cond.reason = reason

theorem reportCond_failed (herr : err.Plain) (cond : GenericCondition) :
    (reportCond clock (some err) cond).status = "False"
      ∧ (reportCond clock (some err) cond).reason = err.reason
      ∧ (reportCond clock (some err) cond).message = err.text := by
  cases err with
  | conditionError _ _ => simp [reportCond, errorCond, Err.isConflict]
  | other _ => simp [reportCond, errorCond, Err.isConflict]
  | forgetError _ _ => cases herr
  | conflict _ => cases herr

theorem failed_next (herr : err.Plain) (hreason : err.reason = reason) (cond : GenericCondition) :
    Failed reason (next clock (some err) before cond) := by
  obtain ⟨h1, h2, -⟩ := reportCond_failed clock herr (unknownCond clock cond)
  refine ⟨?_, ?_⟩
  · rw [next, status_settleCond, h1]
  · rw [next, reason_settleCond, h2, hreason]

/-- The next run that fails in the same way leaves the condition, or redacts the message. -/
theorem next_failed (herr : err.Plain) (hreason : err.reason = reason)
    (hmessage : redact err.text = message) (h : Failed reason x) :
    next clock (some err) (some x) x = x
      ∨ (next clock (some err) (some x) x).message = message := by
  obtain ⟨h1, h2, h3⟩ := reportCond_failed clock herr (unknownCond clock x)
  have hstatus := h1.trans h.1.symm
  have hreason' := h2.trans (hreason.trans h.2.symm)
  by_cases heq : x.message = err.text
  · exact .inl (next_eq_self clock hstatus hreason' (.inl (h3.trans heq.symm)))
  · right
    rw [next, message_settleCond, if_pos ⟨hstatus.symm, hreason'.symm, by rw [h3]; exact heq⟩, h3,
      hmessage]

theorem next_redacted (herr : err.Plain) (hreason : err.reason = reason)
    (hmessage : redact err.text = message) (h : Failed reason x) (hx : x.message = message) :
    next clock (some err) (some x) x = x := by
  obtain ⟨h1, h2, h3⟩ := reportCond_failed clock herr (unknownCond clock x)
  refine next_eq_self clock (h1.trans h.1.symm) (h2.trans (hreason.trans h.2.symm)) (.inr ?_)
  rw [h3, hmessage, hx]

end Failure

end Kinds

section Runs

variable {ρ : Type} (c : String) (clock : ℕ → Clock) (errs : ℕ → Option Err) (obj : Object ρ)

/-- The object after so many runs of functions that leave it alone and have these errors. -/
def after : ℕ → Object ρ
  | 0 => obj
  | n + 1 => (Do c (clock n) (after n) (leaves (errs n))).retObj

/-- The condition after so many runs. -/
def condAfter (n : ℕ) : Option GenericCondition := findCond (after c clock errs obj n).conditions c

/-- The runs all succeed, or all fail with one `ForgetError`, or all fail with other errors that
have one reason and, but for temporary files, one message. -/
inductive Alike : (ℕ → Option Err) → Prop where
  | succeed {errs : ℕ → Option Err} (h : ∀ n, errs n = none) : Alike errs
  | forget {errs : ℕ → Option Err} (reason text : String)
      (h : ∀ n, errs n = some (.forgetError reason text)) : Alike errs
  | fail {errs : ℕ → Option Err} (reason message : String)
      (h : ∀ n, ∃ err, errs n = some err ∧ err.Plain ∧ err.reason = reason
        ∧ redact err.text = message) : Alike errs

theorem after_succ (n : ℕ) : after c clock errs obj (n + 1)
    = (after c clock errs obj n).edit c
      (next (clock n) (errs n) (condAfter c clock errs obj n)) := by
  rw [after, Do_leaves]
  rfl

theorem condAfter_succ (n : ℕ) : condAfter c clock errs obj (n + 1)
    = some (next (clock n) (errs n) (condAfter c clock errs obj n)
        ((condAfter c clock errs obj n).getD (newCond c))) := by
  rw [condAfter, after_succ, present_edit c _ (keepsType_next _ _ _)]
  rfl

variable {c clock errs obj}

/-- Where one run gets to a condition that the later ones leave, or change for the last time, there
are two changes at most. -/
theorem encard_changes_le (early last : GenericCondition → Prop)
    (hnext : ∀ n, early (next (clock n) (errs n) (condAfter c clock errs obj n)
      ((condAfter c clock errs obj n).getD (newCond c))))
    (hstep : ∀ n x, early x → next (clock n) (errs n) (some x) x = x
      ∨ last (next (clock n) (errs n) (some x) x))
    (hlast : ∀ n x, early x → last x → next (clock n) (errs n) (some x) x = x) :
    {n | condAfter c clock errs obj (n + 1) ≠ condAfter c clock errs obj n}.encard ≤ 2 := by
  classical
  have hrank := Descent.encard_changes_le (s := condAfter c clock errs obj)
    (fun cond => if ∃ x, cond = some x ∧ early x ∧ last x then 0
      else if ∃ x, cond = some x ∧ early x then 1 else 2) fun n hn => by
      have hsucc := condAfter_succ c clock errs obj n
      have hmoves : ∀ x, condAfter c clock errs obj n = some x →
          next (clock n) (errs n) (some x) x ≠ x := by
        intro x hx heq
        exact hn (by rw [hsucc, hx, Option.getD_some, heq])
      have hbefore : ¬ ∃ x, condAfter c clock errs obj n = some x ∧ early x ∧ last x :=
        fun ⟨x, hx, hearly, hx'⟩ => hmoves x hx (hlast n x hearly hx')
      rw [if_neg hbefore]
      by_cases hearly : ∃ x, condAfter c clock errs obj n = some x ∧ early x
      · obtain ⟨x, hx, hx'⟩ := hearly
        have hchanged := (hstep n x hx').resolve_left (hmoves x hx)
        rw [if_pos ⟨_, hsucc, hnext n, by rwa [hx]⟩, if_pos ⟨x, hx, hx'⟩]
        exact Nat.zero_lt_one
      · rw [if_neg hearly, if_pos (⟨_, hsucc, hnext n⟩ : ∃ x, _ = some x ∧ early x)]
        split_ifs <;> omega
  refine hrank.trans ?_
  split_ifs <;> simp

theorem encard_changes_le_two (h : Alike errs) :
    {n | condAfter c clock errs obj (n + 1) ≠ condAfter c clock errs obj n}.encard ≤ 2 := by
  cases h with
  | succeed h =>
    refine encard_changes_le Succeeded (fun _ => False) (fun n => ?_)
      (fun n x hx => .inl ?_) fun n x _ hno => hno.elim
    · rw [h n]
      exact succeeded_next _ _
    · rw [h n]
      exact next_succeeded _ hx
  | forget reason text h =>
    refine encard_changes_le (Forgotten reason text) (fun _ => False) (fun n => ?_)
      (fun n x hx => .inl ?_) fun n x _ hno => hno.elim
    · rw [h n]
      refine forgotten_next _ reason text ?_
      rcases condAfter c clock errs obj n with _ | x
      · exact .inr rfl
      · exact .inl rfl
    · rw [h n]
      exact next_forgotten _ hx
  | fail reason message h =>
    refine encard_changes_le (Failed reason) (fun x => x.message = message)
      (fun n => ?_) (fun n x hx => ?_) fun n x hx hx' => ?_ <;>
      obtain ⟨err, herr, hplain, hreason, hmessage⟩ := h n <;> rw [herr]
    · exact failed_next _ hplain hreason _
    · exact next_failed _ hplain hreason hmessage hx
    · exact next_redacted _ hplain hreason hmessage hx hx'

/-- However long runs go on that all succeed, or all fail in the same way, two of them at most
change anything in the condition. The others leave the object as it was, and none of them changes
any other condition, or the rest of the object. -/
theorem Do_settles (c : String) (clock : ℕ → Clock) {errs : ℕ → Option Err} (h : Alike errs)
    (obj : Object ρ) :
    {n | condAfter c clock errs obj (n + 1) ≠ condAfter c clock errs obj n}.encard ≤ 2
      ∧ (∀ n, condAfter c clock errs obj (n + 1) = condAfter c clock errs obj n →
        after c clock errs obj (n + 1) = after c clock errs obj n)
      ∧ ∀ n, (after c clock errs obj (n + 1)).rest = (after c clock errs obj n).rest
        ∧ (after c clock errs obj (n + 1)).conditions.eraseP (fun cond => cond.type = c)
          = (after c clock errs obj n).conditions.eraseP fun cond => cond.type = c := by
  refine ⟨encard_changes_le_two h, fun n hn => ?_, fun n => ?_⟩
  · rcases hx : condAfter c clock errs obj n with _ | x
    · rw [condAfter_succ, hx] at hn
      cases hn
    · rw [condAfter_succ, hx, Option.getD_some, Option.some.injEq] at hn
      rw [after_succ, edit_eq_self hx]
      rw [hx, hn]
  · rw [after_succ]
    exact ⟨rfl, eraseP_editCond (keepsType_next _ _ _) _⟩

/-- Each run fails with another temporary file, by turns. -/
def tempfiles (n : ℕ) : Option Err :=
  some (.other (if n % 2 = 0 then "cannot write /tmp/f-1 twice" else "cannot write /tmp/f-2 twice"))

theorem alike_tempfiles : Alike tempfiles := by
  refine .fail "Error" "cannot write file_path_redacted twice" fun n => ?_
  refine ⟨_, rfl, trivial, rfl, ?_⟩
  unfold Err.text
  split_ifs <;> decide

theorem tempfiles_settle :
    {n | condAfter "Ready" (fun n _ => toString n) tempfiles (⟨[], ()⟩ : Object Unit) (n + 1)
      ≠ condAfter "Ready" (fun n _ => toString n) tempfiles ⟨[], ()⟩ n}.encard ≤ 2 :=
  (Do_settles "Ready" (fun n _ => toString n) alike_tempfiles ⟨[], ()⟩).1

end Runs

end Norman.Condition
