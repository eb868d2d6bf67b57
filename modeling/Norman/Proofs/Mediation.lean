import Norman.Proofs.Levels
import Norman.Server

/-!
# Which requests are checked

A request for a collection or an object by its method reaches a handler, and through it the store,
only after the access control was asked and did not refuse. A request with a link goes to the list
handler without being checked, and so does one with an action to the store and to the handler of the
action.
-/

namespace Norman.Api

open Norman.Types Norman.Parse Httperror

section Mediated

variable {request : APIContext}

/-- The server takes the request for one with an action. -/
def IsAction (request : APIContext) : Prop :=
  request.action ≠ "" ∧ request.link = "" ∧ request.method = "POST"

/-- Before a handler or a store is reached, the access control has allowed it for the schema of the
request; for a link or an action of an object it has allowed at least to get it. -/
def Mediated (request : APIContext) (events : List Event) : Prop :=
  ∀ before e after, events = before ++ e :: after → e.isAccess = true →
    ∃ schema check, request.schema = some schema ∧ Event.check check schema true ∈ before
      ∧ (request.id ≠ "" → request.link ≠ "" ∨ IsAction request → check = .CanGet)

theorem mediated_nil (request : APIContext) : Mediated request [] := by
  intro before e after h
  simp at h

theorem not_mediated {e : Event} {events : List Event}
    (h : ∃ after, events = e :: after) (he : e.isAccess = true) : ¬ Mediated request events := by
  rintro hm
  obtain ⟨after, rfl⟩ := h
  obtain ⟨_, _, -, hmem, -⟩ := hm [] e after rfl he
  simp at hmem

theorem mediated_check {schema : Schema} {c : Check} {events : List Event}
    (hs : request.schema = some schema)
    (hc : request.id ≠ "" → request.link ≠ "" ∨ IsAction request → c = .CanGet) :
    Mediated request (.check c schema true :: events) := by
  intro before e after h he
  rcases List.cons_eq_append_iff.1 h with ⟨rfl, h⟩ | ⟨before', rfl, -⟩
  · cases (List.cons.inj h).1
    simp [Event.isAccess] at he
  · exact ⟨schema, c, hs, List.mem_cons_self, hc⟩

theorem mediated_refused {schema : Schema} {c : Check} :
    Mediated request [.check c schema false] := by
  intro before e after h he
  rcases List.cons_eq_append_iff.1 h with ⟨rfl, h⟩ | ⟨before', rfl, h⟩
  · cases (List.cons.inj h).1
    simp [Event.isAccess] at he
  · simp at h

end Mediated

section Serve

variable (s : Server) {request : APIContext} {schema : Schema}

@[simp] theorem fail_events (err : Err) : (Trace.fail err).events = [] := rfl

@[simp] theorem panic_events : Trace.panic.events = [] := rfl

@[simp] theorem ofErr_events (err : Option Err) : (Trace.ofErr err).events = [] := rfl

@[simp] theorem fail_andThen (err : Err) (t : Trace) : (Trace.fail err).andThen t = Trace.fail err :=
  rfl

@[simp] theorem panic_andThen (t : Trace) : Trace.panic.andThen t = Trace.panic := rfl

@[simp] theorem one_andThen (e : Event) (t : Trace) :
    ((Trace.one e).andThen t).events = e :: t.events := rfl

@[simp] theorem ofErr_none_andThen (t : Trace) : (Trace.ofErr none).andThen t = t := rfl

theorem check_mediated (hs : request.schema = some schema) {c : Check}
    (hc : request.id ≠ "" → request.link ≠ "" ∨ IsAction request → c = .CanGet) (t : Trace) :
    Mediated request ((check s request schema c).andThen t).events := by
  unfold check
  cases s.AccessControl c request schema with
  | none => exact mediated_check hs hc
  | some err => exact mediated_refused

theorem handleMethod_mediated (hs : request.schema = some schema) (hlink : request.link = "")
    (haction : ¬ IsAction request) : Mediated request (handleMethod s request schema).events := by
  have hc : ∀ {c : Check}, request.id ≠ "" → request.link ≠ "" ∨ IsAction request → c = .CanGet :=
    fun _ h => absurd h (by simp [hlink, haction])
  unfold handleMethod
  split
  all_goals first
    | exact check_mediated s hs hc _
    | exact mediated_nil request

theorem not_isAction_of_none (h : ValidateAction request = some (.ok none)) :
    ¬ IsAction request := by
  rintro ⟨haction, hlink, hmethod⟩
  unfold ValidateAction at h
  rw [if_neg (by simp [haction, hlink, hmethod])] at h
  obtain ⟨schema, -, h⟩ := Option.map_eq_some_iff.1 h
  simp only [] at h
  repeat' split at h
  all_goals simp at h

variable (request schema) in
theorem callHandler_events (kind : HandlerKind) (handler : RequestHandler) :
    ∃ events, (callHandler s request schema kind (some handler)).events
      = .handler kind schema :: events := by
  cases handler with
  | default => exact ⟨_, rfl⟩
  | custom handle => exact ⟨_, rfl⟩

variable (schema) in
theorem callStore_events {α : Type} (call : StoreCall) (answer : Except Err α)
    (next : α → Trace) :
    ∃ events, (callStore schema call answer next).events = .store call schema :: events :=
  ⟨_, rfl⟩

theorem andThen_events (t' : Trace) {t : Trace} {e : Event} (h : ∃ events, t.events = e :: events) :
    ∃ events, (t.andThen t').events = e :: events := by
  obtain ⟨events, h⟩ := h
  unfold Trace.andThen
  split
  · exact ⟨events ++ t'.events, by simp [h]⟩
  · exact ⟨events, h⟩

end Serve

section Handle

variable (s : Server)

/-- The request reaches a handler or a store without a check: it has a link, and the schema a list
handler; or it has an action that the schema has, and the schema a handler for actions or, where the
action is one of an object, the schema of its type a store. -/
def Unchecked (request : APIContext) : Prop :=
  ∃ schema, request.schema = some schema ∧ (CheckCSRF s request).isOk = true
    ∧ ((request.link ≠ "" ∧ request.type ≠ "" ∧ (s.handlers schema).ListHandler.isSome = true)
      ∨ ∃ action, ValidateAction request = some (.ok (some action))
        ∧ (request.id = "" → (s.handlers schema).ActionHandler.isSome = true)
        ∧ (request.id ≠ "" → ∃ typeSchema,
          s.schemas.doSchema s.net.toEnv request.version request.type = some typeSchema
            ∧ (s.handlers typeSchema).Store.isSome = true))

theorem byID_mediated_iff {request : APIContext} {version : Option APIVersion}
    {typeName id : String} (t : Trace) :
    Mediated request ((byID s request version typeName id).andThen t).events
      ↔ ¬ ∃ typeSchema, s.schemas.doSchema s.net.toEnv version typeName = some typeSchema
        ∧ (s.handlers typeSchema).Store.isSome = true := by
  unfold byID
  rcases s.schemas.doSchema s.net.toEnv version typeName with _ | typeSchema
  · simpa using mediated_nil request
  · rcases hst : (s.handlers typeSchema).Store with _ | store
    · simpa [hst] using mediated_nil request
    · simpa [hst] using
        not_mediated (andThen_events t (callStore_events typeSchema .ByID _ _)) rfl

theorem handleAction_mediated_iff {request : APIContext} {schema : Schema} {action : Action} :
    Mediated request (handleAction s request schema action).events
      ↔ ¬ ((request.id = "" → (s.handlers schema).ActionHandler.isSome = true)
        ∧ (request.id ≠ "" → ∃ typeSchema,
          s.schemas.doSchema s.net.toEnv request.version request.type = some typeSchema
            ∧ (s.handlers typeSchema).Store.isSome = true)) := by
  unfold handleAction
  by_cases hid : request.id = ""
  · rw [if_neg (by simp [hid]), ofErr_none_andThen]
    rcases h : (s.handlers schema).ActionHandler with _ | handle
    · simpa [hid] using mediated_nil request
    · simpa [hid] using not_mediated ⟨_, rfl⟩ rfl
  · rw [if_pos hid, byID_mediated_iff]
    simp [hid]

theorem serve_mediated_iff (request : APIContext) :
    Mediated request (s.serve request).events ↔ ¬ Unchecked s request := by
  unfold Server.serve Unchecked
  rcases hcsrf : CheckCSRF s request with err | cookie
  · simpa [Except.isOk, Except.toBool] using mediated_nil request
  have hlink : ValidateAction request ≠ some (.ok none) → request.link = "" := fun h =>
    by_contra fun hl => h (by simp [ValidateAction, hl])
  rcases hval : ValidateAction request with _ | err | _ | action
  · have hl := hlink (by simp [hval])
    simpa [hl] using mediated_nil request
  · have hl := hlink (by simp [hval])
    simpa [hl] using mediated_nil request
  · rcases hs : request.schema with _ | schema
    · simpa using mediated_nil request
    · by_cases ht : request.type = ""
      · simpa [ht] using mediated_nil request
      · by_cases hl : request.link = ""
        · simpa [ht, hl] using handleMethod_mediated s hs hl (not_isAction_of_none hval)
        · rcases hh : (s.handlers schema).ListHandler with _ | handler
          · simpa [ht, hl, hh, callHandler] using mediated_nil request
          · simpa [ht, hl, hh, Except.isOk, Except.toBool] using
              not_mediated (callHandler_events s request schema .ListHandler handler) rfl
  · have hl := hlink (by simp [hval])
    rcases hs : request.schema with _ | schema
    · simpa using mediated_nil request
    · simp only [handleAction_mediated_iff]
      simp [hl, Except.isOk, Except.toBool]

/-- Complete mediation of a request, as the parser hands it to the server. -/
def Server.Mediates (req : Request) : Prop :=
  ∀ request err, s.Parser req = some (request, err) → Mediated request (s.handle req).events

/-- The server mediates a request if and only if it is not accepted as one with a link or an action
that reaches a handler or a store. -/
theorem handle_mediates_iff (s : Server) (req : Request) :
    s.Mediates req ↔ ∀ request, s.Parser req = some (request, none) → ¬ Unchecked s request := by
  unfold Server.Mediates Server.handle
  rcases hp : s.Parser req with _ | ⟨request, _ | err⟩
  · simp
  · simp [serve_mediated_iff]
  · simp only [Option.some.injEq, Prod.mk.injEq, reduceCtorEq, and_false, false_implies,
      implies_true, iff_true]
    intro _ _ _
    exact mediated_nil _

end Handle

section Plain

/-- `net/url` for paths without escapes. -/
def plainNet : Net where
  toEnv := Schemas.plainEnv
  toLower := id
  pathUnescape := some
  pathUnescape_plain _ _ := rfl
  parseURL _ := .error "no URL"

/-- A registry with pods, which may only be listed. -/
def podSchemas : Schemas :=
  NewSchemas.store { plainSchema "pod" [] with pluralName := "pods", collectionMethods := ["GET"] }
    false

/-- A server with the default parser and the default handlers that refuses whatever it is asked. -/
def closedServer : Server where
  net := plainNet
  schemas := podSchemas
  Parser := Parse plainNet podSchemas
  AccessControl _ _ schema := some (NewAPIError PermissionDenied ("can not access " ++ schema.id))
  handlers _ :=
    { ListHandler := some .default
      LinkHandler := some fun _ => none
      Store := some
        { ByID := fun _ _ id => .ok [("id", .str id)]
          List := fun _ _ => .ok []
          Create := fun _ _ data => .ok data
          Update := fun _ _ data _ => .ok data
          Delete := fun _ _ _ => .ok none } }
  body _ _ _ := .ok []
  construct _ _ item := .ok item
  random := .ok "0"

/-- `GET /v1/pods/p1/log`. -/
def logRequest : Request where
  host := "localhost"
  urlPath := "/v1/pods/p1/log"
  escapedPath := "/v1/pods/p1/log"

/-- The link of a pod is served, though the server may not even get it. -/
theorem log_not_mediated : ¬ closedServer.Mediates logRequest := by
  intro h
  have hparse : (closedServer.Parser logRequest).isSome = true := by decide +kernel
  have hhead : ((closedServer.handle logRequest).events.head?).any Event.isAccess = true := by
    decide +kernel
  obtain ⟨⟨request, err⟩, hp⟩ := Option.isSome_iff_exists.1 hparse
  have hm := h request err hp
  rcases hev : (closedServer.handle logRequest).events with _ | ⟨e, after⟩
  · simp [hev] at hhead
  · exact not_mediated ⟨after, hev⟩ (by simpa [hev] using hhead) hm

end Plain

end Norman.Api
