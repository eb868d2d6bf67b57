import Norman.Parse

/-!
# The API server

`Server.handle` of `api/server.go`, with `api/validate.go` and the default handlers of
`api/handler`: a request is parsed, and the handler of its schema for the method, the link or the
action is called.

What counts here is what happens in which order: the answers of the access control, and each time a
handler or the store of a schema is reached. A handler that is not a default one is opaque, and so
is a store; a panic ends the request.
-/

namespace Norman.Api

open Norman.Types Norman.Parse Httperror

section Trace

/-- The checks of `types.AccessControl` that the server makes. -/
inductive Check where
  | CanCreate
  | CanList
  | CanGet
  | CanUpdate
  | CanDelete
  deriving DecidableEq

inductive HandlerKind where
  | ActionHandler
  | LinkHandler
  | ListHandler
  | CreateHandler
  | DeleteHandler
  | UpdateHandler
  deriving DecidableEq

inductive StoreCall where
  | ByID
  | List
  | Create
  | Update
  | Delete
  deriving DecidableEq

/-- What is written as the response. -/
inductive Body where
  | none
  | object (data : Doc)
  | list (data : List Doc)

inductive Event where
  | check (check : Check) (schema : Schema) (allowed : Bool)
  | handler (kind : HandlerKind) (schema : Schema)
  | store (call : StoreCall) (schema : Schema)
  | respond (status : ℕ) (body : Body)

/-- A handler or the store of a schema is reached. -/
def Event.isAccess : Event → Bool
  | .handler _ _ | .store _ _ => true
  | _ => false

inductive Outcome where
  | done
  | failed (err : Err)
  | panicked
  deriving DecidableEq

/-- What happened, and how it ended. -/
structure Trace where
  events : List Event
  outcome : Outcome

namespace Trace

def fail (err : Err) : Trace := ⟨[], .failed err⟩

def panic : Trace := ⟨[], .panicked⟩

def ofErr (err : Option Err) : Trace := ⟨[], err.elim .done .failed⟩

def one (event : Event) : Trace := ⟨[event], .done⟩

/-- The second part is only reached if the first one did not fail. -/
def andThen (t t' : Trace) : Trace :=
  match t.outcome with
  | .done => ⟨t.events ++ t'.events, t'.outcome⟩
  | _ => t

end Trace

end Trace

section Server

/-- A store, as the handlers call it; `List` gets the options of the request with the request. -/
structure Store where
  ByID : APIContext → Schema → String → Except Err Doc
  List : APIContext → Schema → Except Err (List Doc)
  Create : APIContext → Schema → Doc → Except Err Doc
  Update : APIContext → Schema → Doc → String → Except Err Doc
  Delete : APIContext → Schema → String → Except Err (Option Doc)

/-- A handler of a schema: the default one, or another. -/
inductive RequestHandler where
  | default
  | custom (handle : APIContext → Option Err)

/-- What a schema has for the server; nil is `none`. -/
structure Handlers where
  ActionHandler : Option (String → Action → APIContext → Option Err) := none
  LinkHandler : Option (APIContext → Option Err) := none
  ListHandler : Option RequestHandler := none
  CreateHandler : Option RequestHandler := none
  DeleteHandler : Option RequestHandler := none
  UpdateHandler : Option RequestHandler := none
  Store : Option Store := none

/-- The server, with what it calls: the access control, `ParseAndValidateBody`, `Construct` of the
builder for a response, and `rand.Read`, which gives the value of a new cookie. -/
structure Server where
  net : Net
  schemas : Schemas
  Parser : Request → Option (APIContext × Option Err)
  AccessControl : Check → APIContext → Schema → Option Err
  handlers : Schema → Handlers
  body : APIContext → Schema → Bool → Except Err Doc
  construct : APIContext → Schema → Doc → Except Err Doc
  random : Except Err String

variable (s : Server)

/-- `CheckCSRF`: an error, or the cookie that is set. -/
def CheckCSRF (apiContext : APIContext) : Except Err (Option String) :=
  if !IsBrowser s.net apiContext.request false then .ok none
  else match apiContext.request.cookies.get "CSRF" with
    | none =>
      match s.random with
      | .error err => .error (WrapAPIError err ServerError "Failed in CSRF processing")
      | .ok value => .ok (some value)
    | some value =>
      if apiContext.method = "GET" ∨ value = apiContext.request.headerGet "X-API-CSRF"
          ∨ value = queryGet apiContext.request.query "CSRF" then .ok (some value)
      else .error (NewAPIError InvalidCSRFToken "Invalid CSRF token")

/-- `ValidateAction`; without a schema it panics, which is the outer `none`. -/
def ValidateAction (request : APIContext) : Option (Except Err (Option Action)) :=
  if request.action = "" ∨ request.link ≠ "" ∨ request.method ≠ "POST" then some (.ok none)
  else request.schema.map fun schema =>
    let actions := if request.id ≠ "" then schema.resourceActions else schema.collectionActions
    let invalid := .error (NewAPIError InvalidAction ("Invalid action: " ++ request.action))
    match actions.get request.action with
    | none => invalid
    | some action =>
      match request.referenceValidator with
      | none => .ok (some action)
      | some Lookup =>
        if request.id = "" then .ok (some action)
        else match Lookup request.type request.id with
          | none => .error (NewAPIError NotFound
              ("Failed to find type: " ++ request.type ++ " id: " ++ request.id))
          | some allowed => if request.action ∈ allowed then .ok (some action) else invalid

section Handlers

variable (request : APIContext) (schema : Schema)

/-- A call of the store, and what is done with its answer. -/
def callStore {α : Type} (call : StoreCall) (answer : Except Err α) (next : α → Trace) : Trace :=
  (Trace.one (.store call schema)).andThen
    (match answer with
    | .error err => Trace.fail err
    | .ok data => next data)

def noStore : Trace := Trace.fail (NewAPIError NotFound "no store found")

def respond (status : ℕ) (body : Body) : Trace := Trace.one (.respond status body)

def CreateHandler : Trace :=
  match s.body request schema true with
  | .error err => Trace.fail err
  | .ok data =>
    match (s.handlers schema).Store with
    | none => noStore
    | some store =>
      callStore schema .Create (store.Create request schema data)
        fun data => respond 201 (.object data)

def UpdateHandler : Trace :=
  match s.body request schema false with
  | .error err => Trace.fail err
  | .ok data =>
    match (s.handlers schema).Store with
    | none => noStore
    | some store =>
      callStore schema .Update (store.Update request schema data request.id)
        fun data => respond 200 (.object data)

def DeleteHandler : Trace :=
  match (s.handlers schema).Store with
  | none => noStore
  | some store =>
    callStore schema .Delete (store.Delete request schema request.id) fun obj => match obj with
      | none => respond 204 .none
      | some obj => respond 200 (.object obj)

def ListHandler : Trace :=
  match (s.handlers schema).Store with
  | none => noStore
  | some store =>
    if request.id = "" then
      callStore schema .List (store.List request schema) fun data => respond 200 (.list data)
    else if request.link = "" then
      callStore schema .ByID (store.ByID request schema request.id)
        fun data => respond 200 (.object data)
    else
      callStore schema .ByID (store.ByID request schema request.id) fun _ =>
        match (s.handlers schema).LinkHandler with
        | none => Trace.panic
        | some handle =>
          (Trace.one (.handler .LinkHandler schema)).andThen (Trace.ofErr (handle request))

/-- The default handler of a kind; there is none for links and actions. -/
def defaultHandler : HandlerKind → Trace
  | .ListHandler => ListHandler s request schema
  | .CreateHandler => CreateHandler s request schema
  | .DeleteHandler => DeleteHandler s request schema
  | .UpdateHandler => UpdateHandler s request schema
  | .LinkHandler | .ActionHandler => Trace.panic

/-- The handler of the schema is called, if there is one. -/
def callHandler (kind : HandlerKind) (handler : Option RequestHandler) : Trace :=
  match handler with
  | none => Trace.fail (NewAPIError NotFound "")
  | some .default =>
    (Trace.one (.handler kind schema)).andThen (defaultHandler s request schema kind)
  | some (.custom handle) =>
    (Trace.one (.handler kind schema)).andThen (Trace.ofErr (handle request))

def check (check : Check) : Trace :=
  match s.AccessControl check request schema with
  | none => Trace.one (.check check schema true)
  | some err => ⟨[.check check schema false], .failed err⟩

/-- `access.ByID`, whose result is not used. -/
def byID (version : Option APIVersion) (typeName id : String) : Trace :=
  match s.schemas.doSchema s.net.toEnv version typeName with
  | none => Trace.fail (.std ("failed to find schema " ++ typeName))
  | some schema =>
    match (s.handlers schema).Store with
    | none => Trace.panic
    | some store =>
      callStore schema .ByID (store.ByID request schema id) fun item =>
        match s.construct request schema item with
        | .error err => Trace.fail err
        | .ok _ => Trace.ofErr none

def handleAction (action : Action) : Trace :=
  (if request.id ≠ "" then byID s request request.version request.type request.id
    else Trace.ofErr none).andThen
  (match (s.handlers schema).ActionHandler with
  | none => Trace.panic
  | some handle =>
    (Trace.one (.handler .ActionHandler schema)).andThen
      (Trace.ofErr (handle request.action action request)))

/-- The `switch` over the methods. -/
def handleMethod : Trace :=
  match request.method with
  | "GET" =>
    (check s request schema (if request.id = "" then .CanList else .CanGet)).andThen
      (callHandler s request schema .ListHandler (s.handlers schema).ListHandler)
  | "POST" =>
    (check s request schema .CanCreate).andThen
      (callHandler s request schema .CreateHandler (s.handlers schema).CreateHandler)
  | "PUT" =>
    (check s request schema .CanUpdate).andThen
      (callHandler s request schema .UpdateHandler (s.handlers schema).UpdateHandler)
  | "DELETE" =>
    (check s request schema .CanDelete).andThen
      (callHandler s request schema .DeleteHandler (s.handlers schema).DeleteHandler)
  | _ => callHandler s request schema .ListHandler none

end Handlers

/-- `handle`, after the request was parsed. -/
def Server.serve (request : APIContext) : Trace :=
  match CheckCSRF s request with
  | .error err => Trace.fail err
  | .ok _ =>
    match ValidateAction request with
    | none => Trace.panic
    | some (.error err) => Trace.fail err
    | some (.ok action) =>
      match request.schema, action with
      | none, _ => Trace.ofErr none
      | some schema, some action => handleAction s request schema action
      | some schema, none =>
        if request.type = "" then Trace.ofErr none
        else if request.link = "" then handleMethod s request schema
        else callHandler s request schema .ListHandler (s.handlers schema).ListHandler

def Server.handle (req : Request) : Trace :=
  match s.Parser req with
  | none => Trace.panic
  | some (_, some err) => Trace.fail err
  | some (request, none) => s.serve request

end Server

end Norman.Api
