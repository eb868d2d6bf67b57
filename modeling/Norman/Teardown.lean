import Norman.Sessions

/-!
# A session and its end

One session of a server from `sessionManager.add` on: dialers for it are given out and used, the
client's messages come in, and the session is removed and closed. A write to the websocket may
succeed or fail at any time. A failed write makes `serverConnect` close its connection again; other
writes are not looked at by those who make them, so what they write is left out here.

`Close` has the session's lock while it goes through the connections, and `remove` the manager's
until `Close` has returned. The manager's lock is not in the model: once `remove` has it, the
session is in neither of the manager's maps, and no dialer for it can be had.
-/

namespace Norman.Remotedialer

/-- The error `Close` closes the connections with. -/
def tunnelDisconnect : Err := ⟨text "tunnel disconnect"⟩

section Lock

/-- The next step of the operation takes the session's lock. -/
def Task.locks : Task → Bool
  | .closeConnection _ _ => true
  | _ => false

/-- The step takes the session's lock. The serving goroutine takes it for every message but a
`Connect`, which a server's session refuses. -/
def Peer.locks (p : Peer) : Action → Bool
  | .task i _ => p.tasks[i]?.any Task.locks
  | .serve _ _ =>
    match p.serve with
    | .waiting => p.inbox.head?.any fun m => m.messageType ≠ .connect
    | .busy t => t.locks
    | _ => false
  | _ => false

end Lock

/-- The session, the manager, the dialers given out for the session, the `serverConnect`s whose
write failed with what is left of them, the connections a `Close` under way has still to close, and
whether a `Close` has returned. -/
structure Teardown where
  manager : SessionManager
  peer : Peer
  dialers : List Dialer
  failing : SortedMap Ref Task
  closing : Option (List Ref)
  closed : Bool

namespace Teardown

/-- The steps. `act` is a step of an operation on the session that is neither a dialer's nor
`Close`; `close`, `sweep` and `swept` are `Close`, which takes the connections in some order. -/
inductive Action where
  | getDialer (clientKey : Bytes) (deadline : Int)
  | serverConnect (i : ℕ) (proto address : Bytes)
  | dial (r : Ref) (id : Int)
  | writeFailed (r : Ref) (err : Err)
  | failed (r : Ref) (id : Int)
  | arrive (m : Message)
  | act (a : Remotedialer.Action)
  | remove
  | close (order : List Ref)
  | sweep
  | swept

variable (t : Teardown)

def handle : Handle := ⟨t.peer.session.clientKey, t.peer.session.sessionKey⟩

def start (sessionKey : Int) (clientKey : Bytes) (peer : Bool) : Teardown :=
  { manager := newSessionManager.add ⟨clientKey, sessionKey⟩ peer
    peer := newPeer (newSession sessionKey clientKey)
    dialers := [], failing := ∅, closing := none, closed := false }

/-- `getDialer`, if it gives a dialer for this session. -/
def getDialer (clientKey : Bytes) (deadline : Int) : Option Teardown :=
  match t.manager.getDialer (fun _ => t.peer.session.remoteClientKeys.getD ∅) t.manager.peers.keys
      clientKey deadline with
  | some d => if d.session = t.handle then some { t with dialers := t.dialers ++ [d] } else none
  | none => none

/-- The next step of a `serverConnect`: its connection goes into the table, under the lock, or its
message is written. -/
def dial (r : Ref) (id : Int) : Option Teardown :=
  match t.peer.dialing.get r, t.closing with
  | some (.insert _), some _ => none
  | _, _ => (t.peer.dialStep r id).map fun e => { t with peer := e.peer }

/-- The message of a `serverConnect` is not written. -/
def writeFailed (r : Ref) (err : Err) : Option Teardown :=
  match t.peer.dialing.get r, t.peer.conn r with
  | some (.send _), some c =>
    some { t with
      peer := { t.peer with dialing := t.peer.dialing.erase r }
      failing := t.failing.set r (.closeConnection c.connID (some err)) }
  | _, _ => none

/-- What is left of a `serverConnect` whose write failed; with nothing left it returns. -/
def leave (r : Ref) : Option Task → SortedMap Ref Task
  | some x => t.failing.set r x
  | none => t.failing.erase r

/-- The next step of a `serverConnect` that closes its connection again. -/
def failed (r : Ref) (id : Int) : Option Teardown :=
  match t.failing.get r with
  | none => none
  | some x =>
    if x.locks ∧ t.closing.isSome then none
    else (t.peer.taskStep id x).map fun e =>
      { t with peer := e.1.peer, failing := t.leave r e.2 }

def act (a : Remotedialer.Action) : Option Teardown :=
  match a with
  | .serverConnect _ _ _ => none
  | .dial _ _ => none
  | a =>
    if t.peer.locks a ∧ t.closing.isSome then none
    else (t.peer.step a).map fun e => { t with peer := e.peer }

/-- `Close` closes its next connection. -/
def sweep : Option Teardown :=
  match t.closing with
  | some (r :: rest) =>
    if t.peer.locked r then none
    else (t.peer.conn r).map fun c =>
      { t with
        peer := t.peer.setConn r (c.doTunnelClose (some tunnelDisconnect)), closing := some rest }
  | _ => none

def next : Action → Option Teardown
  | .getDialer clientKey deadline => t.getDialer clientKey deadline
  | .serverConnect i proto address =>
    t.dialers[i]?.map fun d =>
      { t with peer := t.peer.serverConnect d.deadline (d.proto proto) address }
  | .dial r id => t.dial r id
  | .writeFailed r err => t.writeFailed r err
  | .failed r id => t.failed r id
  | .arrive m => some { t with peer := { t.peer with inbox := t.peer.inbox ++ [m] } }
  | .act a => t.act a
  | .remove => some { t with manager := t.manager.remove t.handle }
  | .close order =>
    if t.closing.isNone ∧ order.Perm (t.peer.session.conns.entries.map Prod.snd) then
      some { t with closing := some order }
    else none
  | .sweep => t.sweep
  | .swept =>
    if t.closing = some [] then
      some { t with peer := t.peer.setConns ∅, closing := none, closed := true }
    else none

/-- A step, of which nothing is observed but the state it leads to. -/
def step (a : Action) : Option (Teardown × List Empty) := (t.next a).map fun t' => (t', [])

end Teardown

end Norman.Remotedialer
