import Mathlib.Data.String.Basic

/-!
# Conditions

`condition/condition.go`: a condition of an object says how the last run of a function on the object
went. A run sets it to unknown, calls the function, and sets it by the error; what it found is then
compared with what was there, so that a run that finds the same again leaves no trace.

Every call of `time.Now` in a run has a time of its own. A function gets the object and may change
it, and may return another one; to return the object itself is the same as to return none.
-/

namespace Norman.Condition

section Redact

def isWord (c : Char) : Bool := c = '-' || c = '_' || c.isAlphanum

/-- The text starts with a match of `temfileRegexp`. -/
def isTempfile (l : List Char) : Bool :=
  "/tmp/".toList.isPrefixOf l && (l.drop 5).head?.any isWord

/-- Replaces the matches; within one, `skip` is what is left of `/tmp/`. -/
def redactChars : Option ℕ → List Char → List Char
  | _, [] => []
  | some (skip + 1), _ :: l => redactChars (some skip) l
  | some 0, c :: l =>
    if isWord c then redactChars (some 0) l
    else if isTempfile (c :: l) then "file_path_redacted".toList ++ redactChars (some 4) l
    else c :: redactChars none l
  | none, c :: l =>
    if isTempfile (c :: l) then "file_path_redacted".toList ++ redactChars (some 4) l
    else c :: redactChars none l

/-- `temfileRegexp.ReplaceAllString(message, "file_path_redacted")`. -/
def redact (message : String) : String := String.ofList (redactChars none message.toList)

example : redact "create file /tmp/file-uy76324 " = "create file file_path_redacted " := by decide

example : redact "/tmp/file-y6123tsd" = "file_path_redacted" := by decide

end Redact

section Entries

structure GenericCondition where
  type : String
  status : String := ""
  lastUpdateTime : String := ""
  lastTransitionTime : String := ""
  reason : String := ""
  message : String := ""
  deriving DecidableEq

/-- The calls of `time.Now` in a run, by what they are for. -/
inductive Touch where
  | unknown
  | status
  | reason
  | message
  | redacted

abbrev Clock := Touch → String

/-- The fields that `setValue` sets. -/
inductive Part where
  | status
  | reason
  | message
  deriving DecidableEq

def Part.get : Part → GenericCondition → String
  | .status, cond => cond.status
  | .reason, cond => cond.reason
  | .message, cond => cond.message

def Part.set (value : String) : Part → GenericCondition → GenericCondition
  | .status, cond => { cond with status := value }
  | .reason, cond => { cond with reason := value }
  | .message, cond => { cond with message := value }

def touchTS (now : String) (cond : GenericCondition) : GenericCondition :=
  { cond with lastUpdateTime := now }

def setValue (now : String) (part : Part) (newValue : String) (cond : GenericCondition) :
    GenericCondition :=
  if part.get cond ≠ newValue then touchTS now (part.set newValue cond) else cond

def findCond (conditions : List GenericCondition) (name : String) : Option GenericCondition :=
  conditions.find? fun cond => cond.type = name

/-- A condition as `findOrCreateCond` creates it. -/
def newCond (name : String) : GenericCondition := { type := name, status := "Unknown" }

/-- `findOrCreateCond`, and something done to what it gives. -/
def editCond (name : String) (g : GenericCondition → GenericCondition) :
    List GenericCondition → List GenericCondition
  | [] => [g (newCond name)]
  | cond :: l => if cond.type = name then g cond :: l else cond :: editCond name g l

end Entries

section Errors

/-- The errors that are told apart. -/
inductive Err where
  | conditionError (reason message : String)
  | forgetError (reason text : String)
  | conflict (text : String)
  | other (text : String)

/-- `Error()`. -/
def Err.text : Err → String
  | .conditionError _ message => message
  | .forgetError _ text => text
  | .conflict text => text
  | .other text => text

/-- The reason that `ReasonAndMessageFromError` writes down. -/
def Err.reason : Err → String
  | .conditionError reason _ => reason
  | .forgetError reason _ => if reason ≠ "" then reason else "Error"
  | .conflict _ | .other _ => "Error"

def Err.isConflict : Err → Bool
  | .conflict _ => true
  | _ => false

end Errors

section Objects

/-- An object: its conditions and the rest of it. -/
structure Object (ρ : Type) where
  conditions : List GenericCondition
  rest : ρ
  deriving DecidableEq

variable {ρ : Type} (c : String) (now : String) (obj : Object ρ)

def Object.edit (g : GenericCondition → GenericCondition) : Object ρ :=
  { obj with conditions := editCond c g obj.conditions }

/-- A field of the condition, which is empty if the condition is not there. -/
def valueOf (get : GenericCondition → String) : String :=
  ((findCond obj.conditions c).map get).getD ""

def GetStatus : String := valueOf c obj GenericCondition.status
def GetLastUpdated : String := valueOf c obj GenericCondition.lastUpdateTime
def GetReason : String := valueOf c obj GenericCondition.reason
def GetMessage : String := valueOf c obj GenericCondition.message

def IsTrue : Bool := GetStatus c obj = "True"
def IsFalse : Bool := GetStatus c obj = "False"

def SetStatus (status : String) : Object ρ := obj.edit c (setValue now .status status)
def Cond.True : Object ρ := SetStatus c now obj "True"
def Cond.False : Object ρ := SetStatus c now obj "False"
def Cond.Unknown : Object ρ := SetStatus c now obj "Unknown"

def LastUpdated (ts : String) : Object ρ := obj.edit c (touchTS ts)
def Reason (reason : String) : Object ρ := obj.edit c (Part.reason.set reason)
def Message (message : String) : Object ρ := obj.edit c (setValue now .message message)

def ReasonAndMessageFromError (clock : Clock) (err : Err) : Object ρ :=
  if err.isConflict then obj
  else obj.edit c fun cond =>
    setValue (clock .reason) .reason err.reason (setValue (clock .message) .message err.text cond)

end Objects

section Do

variable {ρ : Type} (c : String) (clock : Clock)

/-- What a function on an object has done: the object as it left it, the object it returned, if any,
and its error. -/
structure Ran (ρ : Type) where
  obj : Object ρ
  newObj : Option (Object ρ)
  err : Option Err

/-- What is returned in the end. -/
def Ran.retObj (ran : Ran ρ) : Object ρ := ran.newObj.getD ran.obj

/-- Changes the object that the condition is set on. -/
def Ran.onSet (ran : Ran ρ) (setReturned : Bool) (g : Object ρ → Object ρ) : Ran ρ :=
  match setReturned, ran.newObj with
  | true, some newObj => { ran with newObj := some (g newObj) }
  | _, _ => { ran with obj := g ran.obj }

/-- The object that the condition is set on. -/
def Ran.setObject (ran : Ran ρ) (setReturned : Bool) : Object ρ :=
  if setReturned then ran.retObj else ran.obj

/-- Sets the condition by the error, at the end of `doInternal`. -/
def report (err : Option Err) (setObject : Object ρ) : Object ρ :=
  match err with
  | none => Message c (clock .message) (Reason c (Cond.True c (clock .status) setObject) "") ""
  | some (.forgetError reason text) =>
    if GetMessage c setObject = "" then
      ReasonAndMessageFromError c setObject clock (.forgetError reason text)
    else setObject
  | some err => ReasonAndMessageFromError c (Cond.False c (clock .status) setObject) clock err

def doInternal (setReturned : Bool) (obj : Object ρ) (f : Object ρ → Ran ρ) : Ran ρ :=
  let obj := if IsFalse c obj then obj else Cond.Unknown c (clock .unknown) obj
  let ran := f obj
  ran.onSet setReturned (report c clock ran.err)

/-- The end of `do2`: what the run found is what was there before. -/
def settle (before checkObj : Object ρ) : Object ρ :=
  if GetStatus c before = GetStatus c checkObj ∧ GetReason c before = GetReason c checkObj then
    let checkObj :=
      if GetMessage c before ≠ GetMessage c checkObj then
        Message c (clock .redacted) checkObj (redact (GetMessage c checkObj))
      else checkObj
    if GetMessage c before = GetMessage c checkObj then
      LastUpdated c checkObj (GetLastUpdated c before)
    else checkObj
  else checkObj

def do2 (setReturned : Bool) (obj : Object ρ) (f : Object ρ → Ran ρ) : Ran ρ × Bool :=
  let ran := (doInternal c clock setReturned obj f).onSet setReturned (settle c clock obj)
  let checkObj := ran.setObject setReturned
  (ran, GetStatus c obj ≠ GetStatus c checkObj || GetLastUpdated c obj ≠ GetLastUpdated c checkObj
    || GetReason c obj ≠ GetReason c checkObj || GetMessage c obj ≠ GetMessage c checkObj)

def Do (obj : Object ρ) (f : Object ρ → Ran ρ) : Ran ρ := (do2 c clock true obj f).1

def DoUntilTrue (obj : Object ρ) (f : Object ρ → Ran ρ) : Ran ρ :=
  if IsTrue c obj then { obj, newObj := none, err := none } else Do c clock obj f

def Once (obj : Object ρ) (f : Object ρ → Ran ρ) : Ran ρ :=
  if IsFalse c obj then
    { obj, newObj := none, err := some (.forgetError "" (GetReason c obj)) }
  else DoUntilTrue c clock obj f

end Do

end Norman.Condition
