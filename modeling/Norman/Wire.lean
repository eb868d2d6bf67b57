import Norman.Lib.Varint
import Norman.Remotedialer

/-!
# Messages on the wire

`message.go`: a message is written as a header of varints, in a buffer of 24 bytes, and its bytes;
and is read again, of which a control message has at most a hundred bytes.
-/

namespace Norman.Remotedialer

/-- The number of a `messageType`. -/
def MessageType.number : MessageType → Int
  | .data => 1
  | .connect => 2
  | .error => 3
  | .addClient => 4
  | .removeClient => 5

section Encode

variable (m : Message)

def Message.header : Bytes :=
  Varint.put m.id ++ Varint.put m.connID ++ Varint.put m.messageType.number
    ++ if m.messageType = .data ∨ m.messageType = .connect then Varint.put m.deadline else []

/-- `message.Bytes`; it panics if the header does not fit into its buffer. -/
def Message.encode : Option Bytes :=
  if m.header.length ≤ 24 then some (m.header ++ m.bytes) else none

/-- Bytes are written into a buffer one by one; this panics where the buffer ends. -/
def store (buf : Bytes) (offset : ℕ) : Bytes → Option (Bytes × ℕ)
  | [] => some (buf, offset)
  | b :: bytes => if offset < buf.length then store (buf.set offset b) (offset + 1) bytes else none

/-- `offset += binary.PutVarint(buf[offset:], x)`. -/
def putVarint (buf : Bytes) (offset : ℕ) (x : Int) : Option (Bytes × ℕ) :=
  store buf offset (Varint.put x)

/-- `message.header`, as it is written into its buffer. -/
def Message.writeHeader : Option Bytes := do
  let buf := List.replicate 24 (Varint.byte 0)
  let (buf, offset) ← putVarint buf 0 m.id
  let (buf, offset) ← putVarint buf offset m.connID
  let (buf, offset) ← putVarint buf offset m.messageType.number
  let (buf, offset) ←
    if m.messageType = .data ∨ m.messageType = .connect then putVarint buf offset m.deadline
    else some (buf, offset)
  some (buf.take offset)

end Encode

section Decode

/-- A message that was read; `body` is what has not been read of it. -/
structure ServerMessage where
  id : Int
  connID : Int
  messageType : Int
  deadline : Int
  bytes : Bytes
  proto : Bytes
  address : Bytes
  body : Bytes
  deriving DecidableEq

/-- `strings.SplitN(s, "/", 2)`, if there are two parts. -/
def splitSlash (s : Bytes) : Option (Bytes × Bytes) :=
  match s.dropWhile (· ≠ Varint.byte 47) with
  | [] => none
  | _ :: rest => some (s.takeWhile (· ≠ Varint.byte 47), rest)

/-- The rest of a `Connect`. -/
def readConnect (m : ServerMessage) (buf : Bytes) : Option ServerMessage :=
  (splitSlash (buf.take 100)).map fun parts =>
    { m with bytes := buf.take 100, proto := parts.1, address := parts.2, body := buf.drop 100 }

/-- `newServerMessage`; there is none if the message is malformed. -/
def newServerMessage (buf : Bytes) : Option ServerMessage := do
  let (id, buf) ← Varint.read buf
  let (connID, buf) ← Varint.read buf
  let (mType, buf) ← Varint.read buf
  let (deadline, buf) ←
    if mType = MessageType.data.number ∨ mType = MessageType.connect.number then Varint.read buf
    else some (0, buf)
  let m : ServerMessage :=
    { id, connID, messageType := mType, deadline, bytes := [], proto := [], address := [],
      body := buf }
  if mType = MessageType.connect.number then readConnect m buf
  else if mType = MessageType.addClient.number ∨ mType = MessageType.removeClient.number then
    some { m with bytes := buf.take 100, address := buf.take 100, body := buf.drop 100 }
  else some m

/-- `message.Read`, when the reader hands out `n` bytes. -/
def ServerMessage.Read (m : ServerMessage) (n : ℕ) : Bytes × ServerMessage :=
  (m.body.take n, { m with body := m.body.drop n })

/-- What is read one time after another, and what is left. -/
def ServerMessage.reads (m : ServerMessage) : List ℕ → Bytes × ServerMessage
  | [] => ([], m)
  | n :: ns => ((m.Read n).1 ++ ((m.Read n).2.reads ns).1, ((m.Read n).2.reads ns).2)

end Decode

section Listener

/-- The decimal digits of a number of at most `n + 1` digits. -/
def formatNat : ℕ → ℕ → Bytes
  | 0, v => [Varint.byte (48 + v % 10)]
  | n + 1, v =>
    if v < 10 then [Varint.byte (48 + v)]
    else formatNat n (v / 10) ++ [Varint.byte (48 + v % 10)]

/-- `%d`, of an integer of 64 bits. -/
def formatInt : Int → Bytes
  | .ofNat n => formatNat 18 n
  | .negSucc n => Varint.byte 45 :: formatNat 18 (n + 1)

/-- What `sessionAdded` and `sessionRemoved` write of a session. -/
def sessionAddress (clientKey : Bytes) (sessionKey : Int) : Bytes :=
  clientKey ++ text "/" ++ formatInt sessionKey

end Listener

end Norman.Remotedialer
