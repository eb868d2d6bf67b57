import Norman.Wire

/-!
# The session manager

`session_manager.go`: a server's sessions, those of its clients and those of its peers, and the
listeners that are told of each session that comes or goes. A listener is the session of this server
at a peer: what it is told it writes to the peer, whose session for this server keeps it in
`remoteClientKeys`.

The manager does everything under its lock, the writing to the listeners too, so each of its calls
is one step.
-/

namespace Norman.Remotedialer

/-- A `*Session` as the manager has it: by the keys it was made with, which stay. -/
structure Handle where
  clientKey : Bytes
  sessionKey : Int
  deriving DecidableEq

/-- A `sessionListener`. -/
abbrev Listener := ℕ

/-- What a listener is told. -/
inductive Notice where
  | sessionAdded (clientKey : Bytes) (sessionKey : Int)
  | sessionRemoved (clientKey : Bytes) (sessionKey : Int)
  deriving DecidableEq

/-- What a `Session` that is told so writes. -/
def Notice.message (id : Int) : Notice → Message
  | .sessionAdded clientKey sessionKey => newAddClient id (sessionAddress clientKey sessionKey)
  | .sessionRemoved clientKey sessionKey => newRemoveClient id (sessionAddress clientKey sessionKey)

/-- A `map[string][]*Session`. -/
abbrev Store := SortedMap Bytes (List Handle)

namespace Store

variable (store : Store)

def sessions (clientKey : Bytes) : List Handle := (store.get clientKey).getD []

def add (s : Handle) : Store := store.set s.clientKey (store.sessions s.clientKey ++ [s])

/-- The sessions with this one's client key but not its session key; without any the entry goes. -/
def remove (s : Handle) : Store :=
  let newSessions := (store.sessions s.clientKey).filter fun v => v.sessionKey ≠ s.sessionKey
  if newSessions = [] then store.erase s.clientKey else store.set s.clientKey newSessions

/-- What a new listener is told of the store, as `range` goes through the keys. -/
def announce (keys : List Bytes) : List Notice :=
  keys.flatMap fun k => (store.sessions k).map fun s => .sessionAdded k s.sessionKey

end Store

/-- What `toDialer` puts into a dialer. -/
structure Dialer where
  session : Handle
  via : Bytes
  deadline : Int
  deriving DecidableEq

/-- The protocol a dialer passes to `serverConnect`. -/
def Dialer.proto (d : Dialer) (proto : Bytes) : Bytes :=
  if d.via = [] then proto else d.via ++ text "::" ++ proto

/-- `session_manager.go`, `sessionManager`. -/
structure SessionManager where
  clients : Store
  peers : Store
  listeners : List Listener
  deriving DecidableEq

def newSessionManager : SessionManager := { clients := ∅, peers := ∅, listeners := [] }

namespace SessionManager

variable (sm : SessionManager)

def removeListener (l : Listener) : SessionManager :=
  { sm with listeners := sm.listeners.filter (· ≠ l) }

def addListener (l : Listener) : SessionManager :=
  { sm with listeners := l :: sm.listeners.filter (· ≠ l) }

/-- What `addListener` tells the listener, as `range` goes through the keys of both maps. -/
def snapshot (clientKeys peerKeys : List Bytes) : List Notice :=
  sm.clients.announce clientKeys ++ sm.peers.announce peerKeys

/-- `getDialer`, with the remote clients of each session, as `range` goes through the peers. -/
def getDialer (remoteClientKeys : Handle → SortedMap Bytes (SortedMap Int Bool))
    (peerKeys : List Bytes) (clientKey : Bytes) (deadline : Int) : Option Dialer :=
  match sm.clients.sessions clientKey with
  | session :: _ => some { session, via := [], deadline }
  | [] =>
    ((peerKeys.flatMap sm.peers.sessions).find? fun session =>
        (((remoteClientKeys session).get clientKey).getD ∅).entries ≠ []).map
      fun session => { session, via := clientKey, deadline }

def add (s : Handle) (peer : Bool) : SessionManager :=
  if peer then { sm with peers := sm.peers.add s } else { sm with clients := sm.clients.add s }

/-- `remove`, up to the call of `Close`. -/
def remove (s : Handle) : SessionManager :=
  { sm with clients := sm.clients.remove s, peers := sm.peers.remove s }

/-- What listener `l` hears when all are told. -/
def tell (l : Listener) (n : Notice) : List Notice := if l ∈ sm.listeners then [n] else []

end SessionManager

section Watch

/-- The manager of one server, the notices on their way from one listener of it, how many of these
are still from the snapshot, and the session they reach. -/
structure Watch where
  manager : SessionManager
  queue : List Notice
  snapshot : ℕ := 0
  peer : Peer

namespace Watch

/-- The calls of the manager and the delivery of a notice. A session is made a listener once, when
it has just connected to the peer (`peer.start`), and stays one here. -/
inductive Action where
  | add (s : Handle) (peer : Bool)
  | remove (s : Handle)
  | addListener (l : Listener) (clientKeys peerKeys : List Bytes)
  | removeListener (l : Listener)
  | deliver (id : Int)

def start (sessionKey : Int) (clientKey : Bytes) : Watch :=
  { manager := newSessionManager, queue := [], peer := newPeer (newSession sessionKey clientKey) }

/-- After a call the manager's state is observed, once the listener is there. -/
def called (l : Listener) (w : Watch) : Watch × List SessionManager :=
  (w, if l ∈ w.manager.listeners then [w.manager] else [])

/-- One step, with the notices that listener `l` is told. -/
def step (l : Listener) (w : Watch) : Action → Option (Watch × List SessionManager)
  | .add s peer =>
    some (called l { w with
      manager := w.manager.add s peer
      queue := w.queue ++ w.manager.tell l (.sessionAdded s.clientKey s.sessionKey) })
  | .remove s =>
    some (called l { w with
      manager := w.manager.remove s
      queue := w.queue ++ w.manager.tell l (.sessionRemoved s.clientKey s.sessionKey) })
  | .addListener l' clientKeys peerKeys =>
    if ¬ (clientKeys.Perm w.manager.clients.keys ∧ peerKeys.Perm w.manager.peers.keys) then none
    else if l' ≠ l then some (called l { w with manager := w.manager.addListener l' })
    else if l ∈ w.manager.listeners then none
    else some (called l { w with
      manager := w.manager.addListener l
      queue := w.queue ++ w.manager.snapshot clientKeys peerKeys
      snapshot := (w.manager.snapshot clientKeys peerKeys).length })
  | .removeListener l' =>
    if l' = l then none else some (called l { w with manager := w.manager.removeListener l' })
  | .deliver id =>
    match w.queue, w.peer.serve with
    | n :: queue, .waiting =>
      some ({ w with
        queue
        snapshot := w.snapshot - 1
        peer := w.peer.serveMessage (n.message id) }, [])
    | _, _ => none

end Watch

end Watch

end Norman.Remotedialer
