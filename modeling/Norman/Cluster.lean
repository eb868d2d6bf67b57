import Norman.Sessions
import Norman.Wire

/-!
# Servers that are peers

`server.go`, `peer.go` and `dialer.go`: a server keeps a connection to each of its peers, over which
it tells them of its sessions. A client that is connected to another server is dialed through that
one: the peer's session is asked for `clientKey::proto`, and at the other end the request is taken
apart again and dialed from there, as if it had been made on that server.

On each way the request is one `Connect` message, of which a hundred bytes are read and split at the
first slash. The keys of the maps are gone through in an order of their own on each server.
-/

namespace Norman.Remotedialer

/-- A server, as far as it dials: its sessions, what each of them has been told of the clients at
the other end, and the order of the keys of `peers`. -/
structure Node where
  manager : SessionManager
  remoteClientKeys : Handle → SortedMap Bytes (SortedMap Int Bool)
  peerKeys : List Bytes

/-- The servers by their `PeerID`. The session of a peer has the id of the server at its other end
for a client key. -/
abbrev Cluster := Bytes → Node

/-- `strings.SplitN(s, "::", 2)`, if there are two parts. -/
def splitColons : Bytes → Option (Bytes × Bytes)
  | a :: b :: s =>
    if a = Varint.byte 58 ∧ b = Varint.byte 58 then some ([], s)
    else (splitColons (b :: s)).map fun r => (a :: r.1, r.2)
  | _ => none

/-- The protocol and the address of a `Connect` as they are read at the other end. -/
def onWire (proto address : Bytes) : Option (Bytes × Bytes) :=
  splitSlash ((proto ++ text "/" ++ address).take 100)

/-- What comes of a dial: a request that a client is sent, an error, or a session that is given up,
as the other end cannot read the request. -/
inductive Dialed where
  | connected (server : Bytes) (session : Handle) (proto address : Bytes)
  | failed (err : Err)
  | broken (server : Bytes) (session : Handle)
  deriving DecidableEq

def Node.getDialer (n : Node) (clientKey : Bytes) (deadline : Int) : Option Dialer :=
  n.manager.getDialer n.remoteClientKeys n.peerKeys clientKey deadline

/-- `Server.Dial`, with the `dialer` of `peer.start` at the other end of each hop. There is no
outcome if it takes more hops than are left. -/
def Cluster.Dial (c : Cluster) : ℕ → Bytes → Bytes → Int → Bytes → Bytes → Option Dialed
  | 0, _, _, _, _, _ => none
  | hops + 1, server, clientKey, deadline, proto, address =>
    match (c server).getDialer clientKey deadline with
    | none => some (.failed ⟨text "failed to find Session for client " ++ clientKey⟩)
    | some d =>
      match onWire (d.proto proto) address with
      | none => some (.broken server d.session)
      | some (proto, address) =>
        if (c server).manager.clients.sessions clientKey ≠ [] then
          some (.connected server d.session proto address)
        else
          match splitColons proto with
          | none => some (.failed ⟨text "invalid clientKey/proto: " ++ proto⟩)
          | some (key, rest) => c.Dial hops d.session.clientKey key 15000 rest address

end Norman.Remotedialer
