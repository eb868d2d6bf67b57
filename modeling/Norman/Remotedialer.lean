import Mathlib.Data.List.Lex
import Mathlib.Order.Fin.Basic
import Norman.Lib.SortedMap

/-!
# The tunnel

A server session and a client session (`pkg/remotedialer`) talk over one websocket: everything a
connection carries goes through the two message queues. Each side runs many goroutines, so an
operation that takes a lock more than once, or that locks and then writes to the websocket, is cut
into its steps here, and any other step may come between two of them. What one goroutine does
under a lock, and one message written to the websocket, is one step.

The queues lose nothing and writing to them does not fail, so `serverConnect` has no error to
handle. The connection counter is an integer, where the source has 64 bits of it.
-/

namespace Norman.Remotedialer

/-- A byte. -/
abbrev Byte := Fin 256

/-- A `[]byte`, or a `string` of the source. -/
abbrev Bytes := List Byte

/-- The bytes of a string constant. -/
def text (s : String) : Bytes := s.toUTF8.data.toList.map fun b => Fin.ofNat 256 b.toNat

/-- An `error`, by what its `Error` method gives. -/
structure Err where
  text : Bytes
  deriving DecidableEq

def EOF : Err := ⟨text "EOF"⟩

def ErrClosedPipe : Err := ⟨text "io: read/write on closed pipe"⟩

/-- `message.go`, `messageType`. -/
inductive MessageType where
  | data
  | connect
  | error
  | addClient
  | removeClient
  deriving DecidableEq

/-- `message.go`, `message`: what one side writes and the other decodes from the websocket. -/
structure Message where
  id : Int
  connID : Int
  deadline : Int
  messageType : MessageType
  bytes : Bytes
  proto : Bytes
  address : Bytes
  deriving DecidableEq

def newMessage (id connID deadline : Int) (bytes : Bytes) : Message :=
  { id, connID, deadline, messageType := .data, bytes, proto := [], address := [] }

def newConnect (id connID deadline : Int) (proto address : Bytes) : Message :=
  { id, connID, deadline, messageType := .connect, bytes := proto ++ text "/" ++ address,
    proto, address }

def newErrorMessage (id connID : Int) (err : Err) : Message :=
  { id, connID, deadline := 0, messageType := .error, bytes := err.text, proto := [],
    address := [] }

def newAddClient (id : Int) (client : Bytes) : Message :=
  { id, connID := 0, deadline := 0, messageType := .addClient, bytes := client, proto := [],
    address := client }

def newRemoveClient (id : Int) (client : Bytes) : Message :=
  { id, connID := 0, deadline := 0, messageType := .removeClient, bytes := client, proto := [],
    address := client }

/-- `message.Err`: at most 100 bytes of the text come over. -/
def Message.err (m : Message) : Err := ⟨m.bytes.take 100⟩

section Connection

/-- `connection.go`, `connection`. The channel `buf` is the chunks in it, and `closed` tells that
it is closed. -/
structure Connection where
  connID : Int
  proto : Bytes
  address : Bytes
  err : Option Err
  buf : List Bytes
  closed : Bool
  readBuf : Bytes
  deriving DecidableEq

/-- The capacity of `connection.buf`. -/
def bufCap : ℕ := 1024

def newConnection (connID : Int) (proto address : Bytes) : Connection :=
  { connID, proto, address, err := none, buf := [], closed := false, readBuf := [] }

namespace Connection

variable (c : Connection)

/-- `doTunnelClose`: the first error stays, and closes the channel. -/
def doTunnelClose (err : Option Err) : Connection :=
  if c.err.isSome then c
  else { c with err := some (err.getD ErrClosedPipe), closed := true }

/-- `copyData` into a buffer of length `n`. -/
def copyData (n : ℕ) : Bytes × Connection :=
  (c.readBuf.take n, { c with readBuf := c.readBuf.drop n })

/-- `Read` with a buffer of length `n`; `none` while it waits for the channel. -/
def read (n : ℕ) : Option (Connection × Except Err Bytes) :=
  if n = 0 then some (c, .ok [])
  else if (c.copyData n).1 ≠ [] then some ((c.copyData n).2, .ok (c.copyData n).1)
  else match c.buf with
    | next :: rest =>
      some (({ c with buf := rest, readBuf := next }.copyData n).2,
        .ok ({ c with buf := rest, readBuf := next }.copyData n).1)
    | [] => if c.closed then some (c, .error (c.err.getD EOF)) else none

variable {c}

/-- `Read` touches the buffers and nothing else. -/
theorem read_frame {c' : Connection} {n : ℕ} {res : Except Err Bytes}
    (h : c.read n = some (c', res)) : c' = { c with buf := c'.buf, readBuf := c'.readBuf } := by
  unfold read at h
  split at h
  · cases h
    rfl
  split at h
  · cases h
    rfl
  split at h
  · cases h
    rfl
  · split at h <;> cases h
    rfl

end Connection

/-- What `chanWriter.Write` comes to under the lock, before it waits for room. -/
inductive Push where
  | failed (err : Err)
  | queued (c : Connection)
  | full

/-- `chanWriter.Write`, the first `select`. -/
def chanWriterWrite (c : Connection) (b : Bytes) : Push :=
  match c.err with
  | some e => .failed e
  | none => if c.buf.length < bufCap then .queued { c with buf := c.buf ++ [b] } else .full

end Connection

section Session

/-- A connection's place on the heap. -/
abbrev Ref := ℕ

/-- `session.go`, `Session`. -/
structure Session where
  nextConnID : Int
  clientKey : Bytes
  sessionKey : Int
  conns : SortedMap Int Ref
  remoteClientKeys : Option (SortedMap Bytes (SortedMap Int Bool))
  auth : Option (Bytes → Bytes → Bool)

def NewClientSession (auth : Option (Bytes → Bytes → Bool)) : Session :=
  { nextConnID := 0, clientKey := text "client", sessionKey := 0, conns := ∅,
    remoteClientKeys := none, auth }

def newSession (sessionKey : Int) (clientKey : Bytes) : Session :=
  { nextConnID := 1, clientKey, sessionKey, conns := ∅, remoteClientKeys := some ∅, auth := none }

/-- The value of a decimal digit. -/
def digit (b : Byte) : Option ℕ :=
  if 48 ≤ b.val ∧ b.val ≤ 57 then some (b.val - 48) else none

/-- The value of a string of digits, most significant first. -/
def digits (b : Bytes) : Option ℕ :=
  if b = [] then none else b.foldlM (fun n d => (digit d).map (n * 10 + ·)) 0

/-- `strconv.Atoi`: an optional sign and digits, within 64 bits. -/
def atoi : Bytes → Option Int
  | [] => none
  | s :: b =>
    let v : Option Int :=
      if s = 45 then (digits b).map fun n => -(n : Int)
      else if s = 43 then (digits b).map fun n => (n : Int)
      else (digits (s :: b)).map fun n => (n : Int)
    v.filter fun i => -9223372036854775808 ≤ i ∧ i < 9223372036854775808

/-- `parseAddress`: what stands before the first slash, and the number after it. -/
def parseAddress (address : Bytes) : Option (Bytes × Int) :=
  match address.dropWhile (· ≠ 47) with
  | [] => none
  | _ :: rest => (atoi rest).map fun v => (address.takeWhile (· ≠ 47), v)

namespace Session

variable (s : Session)

/-- `addRemoteClient`, on a session that keeps remote clients. -/
def addRemoteClient (keys : SortedMap Bytes (SortedMap Int Bool)) (address : Bytes) :
    Option Session :=
  (parseAddress address).map fun a =>
    { s with
      remoteClientKeys := some (keys.set a.1 (((keys.get a.1).getD ∅).set a.2 true)) }

/-- `removeRemoteClient`; a session that keeps no remote clients has none to lose. -/
def removeRemoteClient (address : Bytes) : Option Session :=
  (parseAddress address).map fun a =>
    { s with
      remoteClientKeys := s.remoteClientKeys.map fun keys =>
        if (((keys.get a.1).getD ∅).erase a.2).entries = [] then keys.erase a.1
        else keys.set a.1 (((keys.get a.1).getD ∅).erase a.2) }

/-- The error for data that finds no connection. -/
def connectionNotFound (connID : Int) : Err :=
  ⟨text "connection not found " ++ s.clientKey ++ text "/" ++ text (toString s.sessionKey)
    ++ text "/" ++ text (toString connID)⟩

end Session

end Session

section Peer

/-- What is left of a `serverConnect` that has made its connection. -/
inductive Dial where
  | insert (deadline : Int)
  | send (deadline : Int)
  deriving DecidableEq

/-- What is left of an operation: the next thing its goroutine does. -/
inductive Task where
  | write (r : Ref) (deadline : Int) (b : Bytes)
  | closeConnection (connID : Int) (err : Option Err)
  | tunnelClose (r : Ref) (err : Option Err)
  | doTunnelClose (r : Ref) (err : Option Err)
  | writeErr (r : Ref) (err : Option Err)
  | notFound (connID : Int)
  deriving DecidableEq

/-- Where the goroutine in `Serve` is: at the next message, copying data into a connection's
channel, waiting with the connection's lock for room in it, in some other operation, or back
from an error. -/
inductive Serve where
  | waiting
  | copying (connID : Int) (r : Ref) (rest : Bytes)
  | sending (connID : Int) (r : Ref) (chunk rest : Bytes)
  | busy (t : Task)
  | stopped
  deriving DecidableEq

/-- One side of the tunnel: its session, its connections, those of them its application has, the
`serverConnect`s and the other operations under way, the serving goroutine, and the messages on
their way to it. -/
structure Peer where
  session : Session
  heap : List Connection
  handed : List Ref
  dialing : SortedMap Ref Dial
  tasks : List Task
  serve : Serve
  inbox : List Message

/-- What an observer of one side sees: a `Write` that succeeded or failed, what a `Read` returned,
and what went into a connection's channel. -/
inductive Event where
  | wrote (connID : Int) (b : Bytes)
  | writeFailed (connID : Int) (err : Err)
  | read (connID : Int) (b : Bytes)
  | readFailed (connID : Int) (err : Err)
  | queued (connID : Int) (b : Bytes)
  deriving DecidableEq

/-- A step's outcome on its own side: what it writes to the websocket, and its events. -/
structure Effect where
  peer : Peer
  out : List Message := []
  events : List Event := []

/-- The steps of one side. The numbers a step takes are the choices the code does not make: the
message's id, the index of a task, the size of the next chunk `io.Copy` reads. -/
inductive Action where
  | serverConnect (deadline : Int) (proto address : Bytes)
  | dial (r : Ref) (id : Int)
  | write (r : Ref) (deadline : Int) (b : Bytes)
  | read (r : Ref) (n : ℕ)
  | close (r : Ref)
  | tunnelClose (r : Ref) (err : Option Err)
  | doTunnelClose (r : Ref) (err : Option Err)
  | writeErr (r : Ref) (err : Option Err)
  | task (i : ℕ) (id : Int)
  | serve (id : Int) (n : ℕ)
  | timeout

namespace Peer

variable (p : Peer)

def conn (r : Ref) : Option Connection := p.heap[r]?

def setConn (r : Ref) (c : Connection) : Peer := { p with heap := p.heap.set r c }

/-- The serving goroutine waits for room in the channel, with the connection's lock. -/
def locked (r : Ref) : Bool :=
  match p.serve with
  | .sending _ r' _ _ => r' = r
  | _ => false

def setConns (conns : SortedMap Int Ref) : Peer :=
  { p with session := { p.session with conns } }

/-- `writeErr` writes nothing without an error. -/
def errorMessages (id connID : Int) (err : Option Err) : List Message :=
  (err.map (newErrorMessage id connID)).toList

/-- One step of an operation, and what is left of it. -/
def taskStep (id : Int) : Task → Option (Effect × Option Task)
  | .write r deadline b => (p.conn r).map fun c =>
      ({ peer := p, out := [newMessage id c.connID deadline b], events := [.wrote c.connID b] },
        none)
  | .closeConnection connID err =>
      some ({ peer := p.setConns (p.session.conns.erase connID) },
        (p.session.conns.get connID).map fun r => .tunnelClose r err)
  | .tunnelClose r err => (p.conn r).map fun c =>
      ({ peer := p, out := errorMessages id c.connID err }, some (.doTunnelClose r err))
  | .doTunnelClose r err => if p.locked r then none else (p.conn r).map fun c =>
      ({ peer := p.setConn r (c.doTunnelClose err) }, none)
  | .writeErr r err => (p.conn r).map fun c =>
      ({ peer := p, out := errorMessages id c.connID err }, none)
  | .notFound connID =>
      some ({ peer := p,
              out := [newErrorMessage id connID (p.session.connectionNotFound connID)] }, none)

/-- The head of `serverConnect`: the next id, and a connection for it. -/
def serverConnect (deadline : Int) (proto address : Bytes) : Peer :=
  { p with
    session := { p.session with nextConnID := p.session.nextConnID + 1 }
    heap := p.heap ++ [newConnection (p.session.nextConnID + 1) proto address]
    dialing := p.dialing.set p.heap.length (.insert deadline) }

/-- The rest of `serverConnect`: the connection goes into `conns`, then `Connect` is written and
the connection returned. -/
def dialStep (r : Ref) (id : Int) : Option Effect :=
  match p.dialing.get r, p.conn r with
  | some (.insert deadline), some c =>
    some { peer := { p.setConns (p.session.conns.set c.connID r) with
                     dialing := p.dialing.set r (.send deadline) } }
  | some (.send deadline), some c =>
    some { peer := { p with dialing := p.dialing.erase r, handed := r :: p.handed }
           out := [newConnect id c.connID deadline c.proto c.address] }
  | _, _ => none

/-- `clientConnect`; `clientDial` gets the connection. -/
def clientConnect (m : Message) : Peer :=
  { p.setConns (p.session.conns.set m.connID p.heap.length) with
    heap := p.heap ++ [newConnection m.connID m.proto m.address]
    handed := p.heap.length :: p.handed }

/-- `serveMessage`, up to its first write to a channel or to the websocket. An error ends
`Serve`. -/
def serveMessage (m : Message) : Peer :=
  if m.messageType = .connect then
    match p.session.auth with
    | none => { p with serve := .stopped }
    | some auth =>
      if auth m.proto m.address then p.clientConnect m else { p with serve := .stopped }
  else
    match m.messageType, p.session.remoteClientKeys with
    | .addClient, some keys =>
      match p.session.addRemoteClient keys m.address with
      | some session => { p with session }
      | none => { p with serve := .stopped }
    | .removeClient, _ =>
      match p.session.removeRemoteClient m.address with
      | some session => { p with session }
      | none => { p with serve := .stopped }
    | _, _ =>
      match p.session.conns.get m.connID with
      | none =>
        if m.messageType = .data then { p with serve := .busy (.notFound m.connID) } else p
      | some r =>
        match m.messageType with
        | .data => { p with serve := .copying m.connID r m.bytes }
        | .error => { p with serve := .busy (.closeConnection m.connID (some m.err)) }
        | _ => p

/-- `io.Copy` reads `n` bytes of the message and writes them to the connection's channel. -/
def copyStep (connID : Int) (r : Ref) (rest : Bytes) (n : ℕ) : Option Effect :=
  if rest = [] then some { peer := { p with serve := .waiting } }
  else if n = 0 ∨ rest.length < n then none
  else match p.conn r with
    | none => none
    | some c =>
      match chanWriterWrite c (rest.take n) with
      | .failed e => some { peer := { p with serve := .busy (.closeConnection connID (some e)) } }
      | .queued c' =>
        some { peer := { p.setConn r c' with serve := .copying connID r (rest.drop n) }
               events := [.queued connID (rest.take n)] }
      | .full => some { peer := { p with serve := .sending connID r (rest.take n) (rest.drop n) } }

/-- `chanWriter.Write`, the second `select`, when there is room. -/
def sendStep (connID : Int) (r : Ref) (chunk rest : Bytes) : Option Effect :=
  match p.conn r with
  | none => none
  | some c =>
    if c.buf.length < bufCap then
      some { peer := { p.setConn r { c with buf := c.buf ++ [chunk] } with
                       serve := .copying connID r rest }
             events := [.queued connID chunk] }
    else none

/-- The next step of the serving goroutine. -/
def serveStep (id : Int) (n : ℕ) : Option Effect :=
  match p.serve with
  | .waiting =>
    match p.inbox with
    | [] => none
    | m :: inbox => some { peer := { p with inbox }.serveMessage m }
  | .copying connID r rest => p.copyStep connID r rest n
  | .sending connID r chunk rest => p.sendStep connID r chunk rest
  | .busy t =>
    (p.taskStep id t).map fun e =>
      { e.1 with peer := { e.1.peer with serve := e.2.elim .waiting .busy } }
  | .stopped => none

/-- `Write` up to its check for an error. -/
def write (r : Ref) (deadline : Int) (b : Bytes) : Option Effect :=
  if p.locked r then none else (p.conn r).map fun c =>
    match c.err with
    | some e => { peer := p, events := [.writeFailed c.connID e] }
    | none => { peer := { p with tasks := .write r deadline b :: p.tasks } }

/-- `Read`, by a goroutine that is alone in reading the connection. -/
def read (r : Ref) (n : ℕ) : Option Effect :=
  match p.conn r with
  | none => none
  | some c =>
    match c.read n with
    | none => none
    | some (c', .ok b) => some { peer := p.setConn r c', events := [.read c.connID b] }
    | some (c', .error e) => some { peer := p.setConn r c', events := [.readFailed c.connID e] }

/-- An operation of the application starts, on a connection it has. -/
def begin (r : Ref) (t : Connection → Task) : Option Effect :=
  if r ∈ p.handed then
    (p.conn r).map fun c => { peer := { p with tasks := t c :: p.tasks } }
  else none

/-- One step of a side. -/
def step : Action → Option Effect
  | .serverConnect deadline proto address =>
    some { peer := p.serverConnect deadline proto address }
  | .dial r id => p.dialStep r id
  | .write r deadline b => if r ∈ p.handed then p.write r deadline b else none
  | .read r n => if r ∈ p.handed then p.read r n else none
  | .close r => p.begin r fun c => .closeConnection c.connID (some EOF)
  | .tunnelClose r err => p.begin r fun _ => .tunnelClose r err
  | .doTunnelClose r err => p.begin r fun _ => .doTunnelClose r err
  | .writeErr r err => p.begin r fun _ => .writeErr r err
  | .task i id =>
    match p.tasks[i]? with
    | none => none
    | some t => (p.taskStep id t).map fun e =>
        { e.1 with peer := { e.1.peer with tasks := e.2.toList ++ e.1.peer.tasks.eraseIdx i } }
  | .serve id n => p.serveStep id n
  | .timeout =>
    match p.serve with
    | .sending connID _ _ _ =>
      some { peer := { p with
        serve := .busy (.closeConnection connID (some ⟨text "backed up reader"⟩)) } }
    | _ => none

end Peer

end Peer

section World

inductive Side where
  | server
  | client
  deriving DecidableEq

def Side.other : Side → Side
  | .server => .client
  | .client => .server

/-- Both sides of the tunnel. -/
abbrev World := Side → Peer

def newPeer (session : Session) : Peer :=
  { session, heap := [], handed := [], dialing := ∅, tasks := [], serve := .waiting, inbox := [] }

/-- A server session and a client session just joined. -/
def start (sessionKey : Int) (clientKey : Bytes) (auth : Option (Bytes → Bytes → Bool)) : World
  | .server => newPeer (newSession sessionKey clientKey)
  | .client => newPeer (NewClientSession auth)

/-- Messages reach the other side's queue in the order they are written. -/
def World.send (w : World) (s : Side) (ms : List Message) : World :=
  Function.update w s { w s with inbox := (w s).inbox ++ ms }

/-- One step of the tunnel: a step of one side. Only the server dials. -/
def step (w : World) (a : Side × Action) : Option (World × List (Side × Event)) :=
  match a with
  | (.client, .serverConnect _ _ _) => none
  | (s, a) => ((w s).step a).map fun e =>
      (World.send (Function.update w s e.peer) s.other e.out, e.events.map fun v => (s, v))

/-- What an event returns from a `Read` on connection `k`. -/
def Event.readOn (k : Int) : Event → Bytes
  | .read k' b => if k' = k then b else []
  | _ => []

/-- What an event writes on connection `k`. -/
def Event.wroteOn (k : Int) : Event → Bytes
  | .wrote k' b => if k' = k then b else []
  | _ => []

/-- What an event puts into the channel of connection `k`. -/
def Event.queuedOn (k : Int) : Event → Bytes
  | .queued k' b => if k' = k then b else []
  | _ => []

/-- What `f` gives at the events of side `s`, one after another. -/
def onSide (s : Side) (f : Event → Bytes) (log : List (Side × Event)) : Bytes :=
  log.flatMap fun e => if e.1 = s then f e.2 else []

/-- The bytes the `Read`s on side `s` of connection `k` returned. -/
def received (s : Side) (k : Int) : List (Side × Event) → Bytes := onSide s (Event.readOn k)

/-- The bytes of the `Write`s on side `s` of connection `k` that succeeded. -/
def sent (s : Side) (k : Int) : List (Side × Event) → Bytes := onSide s (Event.wroteOn k)

/-- The bytes that went into the channel of connection `k` on side `s`. -/
def queued (s : Side) (k : Int) : List (Side × Event) → Bytes := onSide s (Event.queuedOn k)

end World

end Norman.Remotedialer
