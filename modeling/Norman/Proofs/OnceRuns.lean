import Norman.Lib.Run
import Norman.Proofs.Flapping

/-!
# What is to be done once

A handler calls `Once` in each of its rounds, with the object as the last round left it. However the
functions it is called with change the object, one of them is called again only if all calls so far
ended with a `ForgetError`: any other end sets the condition to what the later rounds stop at.
-/

namespace Norman.Condition

variable {ρ : Type} {c : String} {clock : Clock} {obj : Object ρ}

/-- The call is not to be forgotten. -/
def Final (err : Option Err) : Prop := ∀ reason text, err ≠ some (.forgetError reason text)

def ending (err : Option Err) : String := if err.isNone then "True" else "False"

variable (c clock) in
theorem status_report {err : Option Err} (h : Final err) (obj : Object ρ) :
    ∃ cond, findCond (report c clock err obj).conditions c = some cond
      ∧ cond.status = ending err := by
  have hkeeps : ∀ now part value, KeepsType (setValue now part value) :=
    fun now part value cond => by simp
  rcases err with _ | err
  · have hreason : KeepsType (Part.reason.set "") := fun _ => rfl
    refine ⟨_, present_edit c _ (hkeeps _ _ _), ?_⟩
    rw [Reason, present_edit c _ hreason, Cond.True, SetStatus, present_edit c _ (hkeeps _ _ _)]
    simp [Part.set, ending]
  · have hfalse := present_edit c obj (hkeeps (clock .status) .status "False")
    have hreport : report c clock (some err) obj
        = ReasonAndMessageFromError c (Cond.False c (clock .status) obj) clock err := by
      cases err with
      | forgetError reason text => exact absurd rfl (h reason text)
      | conditionError _ _ | conflict _ | other _ => rfl
    have herror : KeepsType fun cond => errorCond clock cond err := keepsType_errorCond clock err
    rw [hreport, Cond.False, SetStatus, error_eq hfalse]
    refine ⟨_, present_edit c _ herror, ?_⟩
    rw [hfalse, errorCond]
    split_ifs <;> simp [ending]

theorem retObj_onSet (ran : Ran ρ) (g : Object ρ → Object ρ) :
    (ran.onSet true g).retObj = g ran.retObj ∧ (ran.onSet true g).err = ran.err := by
  rcases ran with ⟨obj, _ | newObj, err⟩ <;> exact ⟨rfl, rfl⟩

theorem status_Do {f : Object ρ → Ran ρ} (h : Final (Do c clock obj f).err) :
    GetStatus c (Do c clock obj f).retObj = ending (Do c clock obj f).err := by
  simp only [Do, do2, doInternal, retObj_onSet] at h ⊢
  obtain ⟨cond, hcond, hstatus⟩ := status_report c clock h (f _).retObj
  rw [settle_eq hcond, GetStatus, valueOf_eq (present_edit c _ (keepsType_settleCond clock _)),
    hcond, Option.getD_some, status_settleCond, hstatus]

/-- One round, with the error of the function if it is called. -/
def onceRound (c : String) (obj : Object ρ) (round : Clock × (Object ρ → Ran ρ)) :
    Option (Object ρ × List (Option Err)) :=
  let ran := Once c round.1 obj round.2
  some (ran.retObj, if IsFalse c obj || IsTrue c obj then [] else [ran.err])

/-- All calls but the last ended with a `ForgetError`, and if the last did not, the condition says
how it ended. -/
theorem once_calls (c : String) {rounds : List (Clock × (Object ρ → Ran ρ))} {obj' : Object ρ}
    {calls : List (Option Err)} (h : Run.exec (onceRound c) obj rounds = some (obj', calls)) :
    (∀ err ∈ calls.dropLast, ¬ Final err)
      ∧ ∀ err, calls.getLast? = some err → Final err → GetStatus c obj' = ending err := by
  refine Run.exec_invariant (P := fun obj calls => (∀ err ∈ calls.dropLast, ¬ Final err)
    ∧ ∀ err, calls.getLast? = some err → Final err → GetStatus c obj = ending err) (by simp)
    (fun obj calls round obj' o hP hstep => ?_) h
  simp only [onceRound, Option.some.injEq, Prod.mk.injEq] at hstep
  obtain ⟨rfl, rfl⟩ := hstep
  by_cases hfalse : IsFalse c obj
  · simpa [Once, hfalse, Ran.retObj] using hP
  by_cases htrue : IsTrue c obj
  · simpa [Once, DoUntilTrue, hfalse, htrue, Ran.retObj] using hP
  -- the condition says of no call that it was the last
  have hforgot : ∀ err ∈ calls, ¬ Final err := by
    intro err herr hfinal
    rcases List.eq_nil_or_concat' calls with rfl | ⟨before, last, rfl⟩
    · cases herr
    · rcases List.mem_append.1 herr with hmem | hmem
      · exact hP.1 err (by simpa using hmem) hfinal
      · have hstatus := hP.2 err (by simpa using (List.mem_singleton.1 hmem).symm) hfinal
        rcases err with _ | err
        · exact htrue (by simpa [IsTrue, ending] using hstatus)
        · exact hfalse (by simpa [IsFalse, ending] using hstatus)
  have honce : Once c round.1 obj round.2 = Do c round.1 obj round.2 := by
    simp [Once, DoUntilTrue, hfalse, htrue]
  simp only [hfalse, htrue, Bool.or_self, Bool.false_eq_true, if_false, honce,
    List.dropLast_concat, List.getLast?_concat, Option.some.injEq]
  refine ⟨hforgot, ?_⟩
  rintro err rfl hfinal
  exact status_Do hfinal

/-- A call that is forgotten, one that succeeds, and none after it. -/
theorem forgotten_once :
    ∃ obj', Run.exec (onceRound "Ready") (⟨[], ()⟩ : Object Unit)
        [(fun _ => "", leaves (some (.forgetError "" "busy"))), (fun _ => "", leaves none),
          (fun _ => "", leaves (some (.other "late")))]
        = some (obj', [some (.forgetError "" "busy"), none])
      ∧ GetStatus "Ready" obj' = "True" := by
  have hrun : Run.exec (onceRound "Ready") (⟨[], ()⟩ : Object Unit)
      [(fun _ => "", leaves (some (.forgetError "" "busy"))), (fun _ => "", leaves none),
        (fun _ => "", leaves (some (.other "late")))]
      = some (_, [some (.forgetError "" "busy"), none]) := rfl
  exact ⟨_, hrun, (once_calls "Ready" hrun).2 none rfl (by simp [Final])⟩

end Norman.Condition
