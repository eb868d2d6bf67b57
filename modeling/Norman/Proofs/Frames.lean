import Norman.Proofs.Wire

/-!
# Frames of data

The header of a message is written into a buffer of 24 bytes, which is enough for the messages that
have no deadline. The others have three numbers of up to ten bytes each beside their type, and the
buffer is too small for three large ones (`header_fits_iff`). Where it is large enough, a message
with data is read as it was written, with all that comes behind its header (`data_survives`).
-/

namespace Norman.Remotedialer

open Varint

section Buffer

variable {m : Message}

theorem store_append (buf : Bytes) (offset : ℕ) : ∀ a b : Bytes,
    store buf offset (a ++ b) = (store buf offset a).bind fun r => store r.1 r.2 b
  | [], b => rfl
  | c :: a, b => by
    rw [List.cons_append, store, store]
    split
    · exact store_append (buf.set offset c) (offset + 1) a b
    · rfl

/-- Bytes go in behind what is written already, if there is room for them. -/
theorem store_eq : ∀ (written room bytes : Bytes),
    store (written ++ room) written.length bytes
      = if bytes.length ≤ room.length then
          some (written ++ bytes ++ room.drop bytes.length, written.length + bytes.length)
        else none
  | written, room, [] => by simp [store]
  | written, [], b :: bytes => by simp [store]
  | written, c :: room, b :: bytes => by
    have hlt : written.length < (written ++ c :: room).length := by
      simp
    have hset : (written ++ c :: room).set written.length b = (written ++ [b]) ++ room := by
      simp
    have hnext := store_eq (written ++ [b]) room bytes
    rw [List.length_append, List.length_singleton] at hnext
    rw [store, if_pos hlt, hset, hnext]
    simp only [List.length_cons, Nat.add_le_add_iff_right, List.append_assoc, List.drop_succ_cons,
      List.singleton_append, Nat.add_assoc, Nat.add_comm 1]

/-- The header is what is written, if it fits. -/
theorem writeHeader_eq (m : Message) :
    m.writeHeader = if m.header.length ≤ 24 then some m.header else none := by
  have hwhole : m.writeHeader
      = (store (List.replicate 24 (byte 0)) 0 m.header).bind fun r => some (r.1.take r.2) := by
    rw [Message.header, store_append, store_append, store_append]
    unfold Message.writeHeader putVarint
    simp only [Option.bind_eq_bind, Option.bind_assoc]
    split
    · rfl
    · simp only [store, Option.bind_some]
  have hstore : store (List.replicate 24 (byte 0)) 0 m.header
      = if m.header.length ≤ 24 then
          some (m.header ++ (List.replicate 24 (byte 0)).drop m.header.length, m.header.length)
        else none := by
    simpa using store_eq [] (List.replicate 24 (byte 0)) m.header
  rw [hwhole, hstore]
  split
  · rw [Option.bind_some, List.take_left]
  · rfl

theorem writeHeader_eq_some : m.writeHeader = some m.header ↔ m.header.length ≤ 24 := by
  rw [writeHeader_eq]
  split
  · rename_i hle
    exact ⟨fun _ => hle, fun _ => rfl⟩
  · rename_i hgt
    exact ⟨fun hno => absurd hno (by simp), fun hle => absurd hle hgt⟩

theorem encode_eq (m : Message) : m.encode = m.writeHeader.map fun header => header ++ m.bytes := by
  rw [writeHeader_eq, Message.encode]
  split <;> rfl

end Buffer

section Fits

variable {m : Message}

theorem put_number_length (t : MessageType) : (put t.number).length = 1 := by
  cases t <;> decide

theorem header_length (m : Message) (hid : IsInt64 m.id) (hconn : IsInt64 m.connID)
    (hdeadline : IsInt64 m.deadline) : m.header.length = width m.id + width m.connID + 1
      + if m.messageType = .data ∨ m.messageType = .connect then width m.deadline else 0 := by
  simp only [Message.header, List.length_append, length_put hid, length_put hconn,
    put_number_length]
  split
  · rw [length_put hdeadline]
  · rfl

/-- The header of a message fits into its buffer if and only if the message has no deadline, or its
three numbers have at most 23 bytes. -/
theorem header_fits_iff (m : Message) (hid : IsInt64 m.id) (hconn : IsInt64 m.connID)
    (hdeadline : IsInt64 m.deadline) :
    m.writeHeader = some m.header
      ↔ ¬ (m.messageType = .data ∨ m.messageType = .connect)
        ∨ width m.id + width m.connID + width m.deadline ≤ 23 := by
  have hwid := width_le hid
  have hwconn := width_le hconn
  rw [writeHeader_eq_some, header_length m hid hconn hdeadline]
  by_cases htype : m.messageType = .data ∨ m.messageType = .connect
  · rw [if_pos htype]
    simp only [htype, not_true_eq_false, false_or]
    omega
  · rw [if_neg htype]
    simp only [htype, not_false_eq_true, true_or, iff_true]
    omega

/-- A frame of ordinary traffic. -/
theorem small_header_fits :
    (newMessage 4611686018427387904 12 15000 (text "GET /")).writeHeader
      = some (newMessage 4611686018427387904 12 15000 (text "GET /")).header :=
  (header_fits_iff _ (by decide) (by decide) (by decide)).2 (.inr (by decide +kernel))

/-- An id and a connection number of 63 bits, and a deadline of seventeen minutes. -/
theorem large_header_overruns :
    IsInt64 4611686018427387904 ∧ IsInt64 1048576
      ∧ (newMessage 4611686018427387904 4611686018427387904 1048576 (text "GET /")).writeHeader
        = none := by
  decide +kernel

end Fits

section Survives

variable {id connID deadline : Int}

theorem newServerMessage_data (hid : IsInt64 id) (hconn : IsInt64 connID)
    (hdeadline : IsInt64 deadline) (payload rest : Bytes) :
    newServerMessage ((newMessage id connID deadline payload).header ++ rest)
      = some { id, connID, messageType := 1, deadline, bytes := [], proto := [], address := [],
               body := rest } := by
  have hnumber : IsInt64 1 := by decide
  simp [newServerMessage, Message.header, newMessage, MessageType.number, read_put hid,
    read_put hconn, read_put hnumber, read_put hdeadline]

/-- After the type of an error nothing is read. -/
theorem newServerMessage_error (hid : IsInt64 id) (hconn : IsInt64 connID) (err : Err)
    (rest : Bytes) :
    newServerMessage ((newErrorMessage id connID err).header ++ rest)
      = some { id, connID, messageType := 3, deadline := 0, bytes := [], proto := [],
               address := [], body := rest } := by
  have hnumber : IsInt64 3 := by decide
  simp [newServerMessage, Message.header, newErrorMessage, MessageType.number, read_put hid,
    read_put hconn, read_put hnumber]

/-- Without a deadline there are two large numbers at most. -/
theorem error_header_fits (hid : IsInt64 id) (hconn : IsInt64 connID) (err : Err) :
    (newErrorMessage id connID err).writeHeader = some (newErrorMessage id connID err).header := by
  have hlen : (newErrorMessage id connID err).header.length = width id + width connID + 1 :=
    header_length _ hid hconn (by decide : IsInt64 0)
  have hwid := width_le hid
  have hwconn := width_le hconn
  rw [writeHeader_eq_some, hlen]
  omega

theorem received_of_fits {m : Message} (h : m.writeHeader = some m.header) :
    m.received = newServerMessage (m.header ++ m.bytes) := by
  rw [Message.received, encode_eq, h, Option.map_some, Option.bind_some]

/-- However it is read, a body is what was read and what is left. -/
theorem reads_append : ∀ (ns : List ℕ) (m : ServerMessage),
    (m.reads ns).1 ++ (m.reads ns).2.body = m.body
  | [], m => rfl
  | n :: ns, m => by
    rw [ServerMessage.reads, List.append_assoc, reads_append ns]
    exact List.take_append_drop n m.body

end Survives

end Norman.Remotedialer
