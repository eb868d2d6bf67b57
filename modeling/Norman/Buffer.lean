import Norman.Lib.Channel
import Norman.Remotedialer

/-!
# The buffer of a connection

`connection.go`, and `closeConnection` of `session.go`: the channel of one connection is written by
`chanWriter.Write`, read by `Read`, and closed by whoever comes first of those that call
`doTunnelClose`: the pipe of a client, `tunnelClose` after the error was sent, and through it
`Close` and everything else that takes the connection out of the session.

A step is what happens under the lock of the connection. A writer that finds the channel full waits
for room with the lock, and gives up after a while; `Read` receives without the lock. What is done
to the channel is in the log.
-/

namespace Norman.Remotedialer

/-- What was done to the channel of a connection. -/
abbrev Log := List (Channel.Event Unit Bytes)

/-- One connection, with those who use it: the chunk of a writer that waits for room, the errors of
those in `tunnelClose` who are about to close, and whether the session still has the connection. -/
structure Shared where
  conn : Connection
  writer : Option Bytes := none
  closing : List (Option Err) := []
  filed : Bool := true
  deriving DecidableEq

namespace Shared

/-- `Close` is `closeConnection` with `io.EOF`. -/
inductive Action where
  | tunnelClose (err : Option Err)
  | closeConnection (err : Option Err)
  | closes (i : ℕ)
  | doTunnelClose (err : Option Err)
  | write (b : Bytes)
  | send
  | timeout
  | read (n : ℕ)

variable (s : Shared)

/-- `doTunnelClose`, under the lock. -/
def close (err : Option Err) : Shared × Log :=
  ({ s with conn := s.conn.doTunnelClose err },
    if s.conn.err.isSome then [] else [Channel.close s.conn.closed ()])

/-- `chanWriter.Write`, up to where it waits for room. -/
def write (b : Bytes) : Shared × Log :=
  match chanWriterWrite s.conn b with
  | .failed _ => (s, [])
  | .queued c => ({ s with conn := c }, [Channel.send s.conn.closed () b])
  | .full => if s.conn.closed then (s, [.panic]) else ({ s with writer := some b }, [])

def step : Action → Option (Shared × Log)
  | .tunnelClose err => some ({ s with closing := s.closing ++ [err] }, [])
  | .closeConnection err =>
    if s.filed then some ({ s with filed := false, closing := s.closing ++ [err] }, [])
    else some (s, [])
  | .closes i =>
    match s.closing[i]?, s.writer with
    | some err, none => some ({ s with closing := s.closing.eraseIdx i }.close err)
    | _, _ => none
  | .doTunnelClose err => if s.writer.isSome then none else some (s.close err)
  | .write b => if s.writer.isSome then none else some (s.write b)
  | .send =>
    match s.writer with
    | none => none
    | some b =>
      if s.conn.closed then some ({ s with writer := none }, [.panic])
      else if s.conn.buf.length < bufCap then
        some ({ s with conn := { s.conn with buf := s.conn.buf ++ [b] }, writer := none },
          [.sent () b])
      else none
  | .timeout => if s.writer.isSome then some ({ s with writer := none }, []) else none
  | .read n => (s.conn.read n).map fun r => ({ s with conn := r.1 }, [])

end Shared

end Norman.Remotedialer
