import Norman.Wire

/-!
# Control messages over the wire

A control message is read as it was written if and only if its header fits into the buffer it is
written to and its text is at most a hundred bytes long. Of a longer text the first hundred bytes
are taken, which may be another address, or another session of the client.
-/

namespace Norman.Remotedialer

open Varint

section Slash

variable {p a : Bytes}

theorem dropWhile_append_slash (hp : (47 : Byte) ∉ p) :
    (p ++ 47 :: a).dropWhile (· ≠ 47) = 47 :: a := by
  rw [List.dropWhile_append_of_pos fun c hc => by
    simpa using fun heq : c = 47 => hp (heq ▸ hc)]
  simp

theorem takeWhile_append_slash (hp : (47 : Byte) ∉ p) :
    (p ++ 47 :: a).takeWhile (· ≠ 47) = p := by
  rw [List.takeWhile_append_of_pos fun c hc => by
    simpa using fun heq : c = 47 => hp (heq ▸ hc)]
  simp

theorem splitSlash_eq (s : Bytes) : splitSlash s = match s.dropWhile (· ≠ 47) with
    | [] => none
    | _ :: rest => some (s.takeWhile (· ≠ 47), rest) :=
  rfl

theorem splitSlash_append (hp : (47 : Byte) ∉ p) : splitSlash (p ++ 47 :: a) = some (p, a) := by
  rw [splitSlash_eq, dropWhile_append_slash hp, takeWhile_append_slash hp]

theorem splitSlash_eq_none (hp : (47 : Byte) ∉ p) : splitSlash p = none := by
  have hdrop : p.dropWhile (· ≠ 47) = [] := by
    have happend : (p ++ []).dropWhile (· ≠ 47) = ([] : Bytes).dropWhile (· ≠ 47) :=
      List.dropWhile_append_of_pos fun c hc => by
        simpa using fun heq : c = 47 => hp (heq ▸ hc)
    simpa using happend
  rw [splitSlash_eq, hdrop]

/-- The first hundred bytes, split at the slash. -/
theorem splitSlash_take (hp : (47 : Byte) ∉ p) : splitSlash ((p ++ 47 :: a).take 100)
    = if p.length < 100 then some (p, a.take (99 - p.length)) else none := by
  rw [List.take_append]
  split
  · rename_i hlt
    rw [List.take_of_length_le (by omega), show 100 - p.length = (99 - p.length) + 1 by omega,
      List.take_succ_cons, splitSlash_append hp]
  · rename_i hge
    rw [show 100 - p.length = 0 by omega, List.take_zero, List.append_nil,
      splitSlash_eq_none fun hmem => hp (List.mem_of_mem_take hmem)]

theorem parseAddress_eq (address : Bytes) : parseAddress address
    = (splitSlash address).bind fun parts => (atoi parts.2).map fun v => (parts.1, v) := by
  rw [parseAddress, splitSlash_eq]
  cases address.dropWhile (· ≠ 47) <;> rfl

end Slash

section Decimal

theorem digit_byte {k : ℕ} (hk : k < 10) : digit (byte (48 + k)) = some k := by
  have hval : (byte (48 + k)).val = 48 + k := by
    rw [byte_val]
    omega
  rw [digit, hval, if_pos (by omega), Nat.add_sub_cancel_left]

/-- One more digit. -/
def digitStep (n : ℕ) (d : Byte) : Option ℕ := (digit d).map (n * 10 + ·)

theorem digits_eq {b : Bytes} (hb : b ≠ []) : digits b = b.foldlM digitStep 0 := by
  rw [digits, if_neg hb]
  rfl

theorem foldlM_formatNat : ∀ n v : ℕ, v < 10 ^ (n + 1) → (formatNat n v).foldlM digitStep 0 = some v
  | 0, v, hv => by
    have hlt : v < 10 := by simpa using hv
    rw [formatNat, Nat.mod_eq_of_lt hlt, List.foldlM_cons, digitStep, digit_byte hlt]
    simp
  | n + 1, v, hv => by
    rw [formatNat]
    split
    · rename_i hlt
      rw [List.foldlM_cons, digitStep, digit_byte hlt]
      simp
    · have hlt : v / 10 < 10 ^ (n + 1) := by
        rw [Nat.div_lt_iff_lt_mul (by omega)]
        calc v < 10 ^ (n + 1 + 1) := hv
          _ = 10 ^ (n + 1) * 10 := by ring
      have hdigit : digit (byte (48 + v % 10)) = some (v % 10) :=
        digit_byte (Nat.mod_lt v (by omega))
      rw [List.foldlM_append, foldlM_formatNat n (v / 10) hlt]
      simp only [Option.bind_eq_bind, Option.bind_some, List.foldlM_cons, List.foldlM_nil, digitStep,
        hdigit, Option.map_some, Option.pure_def, Option.some.injEq]
      omega

theorem formatNat_ne_nil : ∀ n v : ℕ, formatNat n v ≠ []
  | 0, v => by simp [formatNat]
  | n + 1, v => by
    rw [formatNat]
    split <;> simp

theorem digits_formatNat {v : ℕ} (hv : v < 10 ^ 19) : digits (formatNat 18 v) = some v := by
  rw [digits_eq (formatNat_ne_nil 18 v), foldlM_formatNat 18 v hv]

/-- Every byte is a digit. -/
theorem mem_formatNat : ∀ {n v : ℕ} {d : Byte}, d ∈ formatNat n v → 48 ≤ d.val
  | 0, v, d, h => by
    cases List.mem_singleton.1 h
    rw [byte_val]
    omega
  | n + 1, v, d, h => by
    rw [formatNat] at h
    split at h
    · cases List.mem_singleton.1 h
      rw [byte_val]
      omega
    · rcases List.mem_append.1 h with h | h
      · exact mem_formatNat h
      · cases List.mem_singleton.1 h
        rw [byte_val]
        omega

theorem ne_sign {s : Byte} (hs : 48 ≤ s.val) : s ≠ 45 ∧ s ≠ 43 := by
  constructor <;> rintro rfl <;> exact absurd hs (by decide)

theorem atoi_cons {s : Byte} (hs : 48 ≤ s.val) (b : Bytes) : atoi (s :: b)
    = ((digits (s :: b)).map Int.ofNat).filter fun i => IsInt64 i := by
  rw [atoi, if_neg (ne_sign hs).1, if_neg (ne_sign hs).2]
  cases digits (s :: b) <;> rfl

theorem atoi_minus (b : Bytes) : atoi (byte 45 :: b)
    = ((digits b).map fun n => -Int.ofNat n).filter fun i => IsInt64 i := by
  rw [atoi, if_pos (by decide)]
  cases digits b <;> rfl

theorem formatNat_cons (v : ℕ) : ∃ s b, formatNat 18 v = s :: b ∧ 48 ≤ s.val := by
  obtain ⟨s, b, hsb⟩ := List.exists_cons_of_ne_nil (formatNat_ne_nil 18 v)
  have hmem : s ∈ formatNat 18 v := by
    rw [hsb]
    exact List.mem_cons_self
  exact ⟨s, b, hsb, mem_formatNat hmem⟩

theorem atoi_formatInt {x : Int} (hx : IsInt64 x) : atoi (formatInt x) = some x := by
  cases x with
  | ofNat n =>
    have hlt : n < 10 ^ 19 := by
      have := hx.2
      simp only [Int.ofNat_eq_natCast] at this
      omega
    obtain ⟨s, b, hsb, hs⟩ := formatNat_cons n
    rw [formatInt, hsb, atoi_cons hs, ← hsb, digits_formatNat hlt, Option.map_some,
      Option.filter_some, if_pos (by simpa using hx)]
  | negSucc n =>
    have hlt : n + 1 < 10 ^ 19 := by
      have := hx.1
      omega
    have hneg : -Int.ofNat (n + 1) = .negSucc n := rfl
    rw [formatInt, atoi_minus, digits_formatNat hlt, Option.map_some, hneg, Option.filter_some,
      if_pos (by simpa using hx)]

/-- More digits make a number at least ten times as large. -/
theorem foldlM_digitStep_le : ∀ {q : Bytes} {a v : ℕ}, q.foldlM digitStep a = some v →
    a * 10 ^ q.length ≤ v
  | [], a, v, h => by
    cases h
    simp
  | d :: q, a, v, h => by
    rw [List.foldlM_cons] at h
    obtain ⟨a', ha', h⟩ := Option.bind_eq_some_iff.1 h
    obtain ⟨k, -, rfl⟩ := Option.map_eq_some_iff.1 ha'
    have hle := foldlM_digitStep_le h
    calc a * 10 ^ (q.length + 1) = a * 10 * 10 ^ q.length := by ring
      _ ≤ (a * 10 + k) * 10 ^ q.length := Nat.mul_le_mul_right _ (Nat.le_add_right _ _)
      _ ≤ v := hle

/-- A number has not the digits of another one and more. -/
theorem digits_prefix {p q : Bytes} {v : ℕ} (hq : q ≠ []) (hp : digits p = some v)
    (hpq : digits (p ++ q) = some v) : v = 0 := by
  have hpne : p ≠ [] := by
    rintro rfl
    cases hp
  rw [digits_eq hpne] at hp
  rw [digits_eq (by simp [hpne]), List.foldlM_append, hp] at hpq
  have hle := foldlM_digitStep_le hpq
  have hten : 10 ≤ 10 ^ q.length := Nat.le_self_pow (List.length_pos_iff.2 hq).ne' 10
  have := Nat.mul_le_mul_left v hten
  omega

/-- A part of the text of a number is not its text. -/
theorem atoi_prefix_ne {x : Int} (hx : IsInt64 x) {p q : Bytes} (hq : q ≠ [])
    (hpq : formatInt x = p ++ q) : atoi p ≠ some x := by
  intro hp
  cases x with
  | ofNat n =>
    have hlt : n < 10 ^ 19 := by
      have := hx.2
      simp only [Int.ofNat_eq_natCast] at this
      omega
    rw [formatInt] at hpq
    cases p with
    | nil => cases hp
    | cons s b =>
      have hs : 48 ≤ s.val := mem_formatNat (by rw [hpq]; exact List.mem_cons_self)
      rw [atoi_cons hs, Option.filter_eq_some_iff, Option.map_eq_some_iff] at hp
      obtain ⟨⟨v, hv, heq⟩, -⟩ := hp
      cases Int.ofNat.inj heq
      obtain rfl := digits_prefix hq hv (hpq ▸ digits_formatNat hlt)
      have hlen : 1 = (s :: b ++ q).length := by
        rw [← hpq]
        rfl
      have := List.length_pos_iff.2 hq
      simp only [List.length_append, List.length_cons] at hlen
      omega
  | negSucc n =>
    have hlt : n + 1 < 10 ^ 19 := by
      have := hx.1
      omega
    rw [formatInt] at hpq
    cases p with
    | nil => cases hp
    | cons s b =>
      obtain ⟨rfl, htail⟩ := List.cons.inj hpq
      rw [atoi_minus, Option.filter_eq_some_iff, Option.map_eq_some_iff] at hp
      obtain ⟨⟨v, hv, heq⟩, -⟩ := hp
      have hv' : v = n + 1 := by
        simp only [Int.ofNat_eq_natCast] at heq
        omega
      subst hv'
      have hwhole : digits (b ++ q) = some (n + 1) := by
        rw [← digits_formatNat hlt, htail]
        rfl
      have := digits_prefix hq hv hwhole
      omega

end Decimal

section Header

variable {id connID deadline : Int} {proto address rest : Bytes}

theorem text_slash : text "/" = [47] := by decide +kernel

theorem newServerMessage_connect (hid : IsInt64 id) (hconn : IsInt64 connID)
    (hdeadline : IsInt64 deadline) :
    newServerMessage ((newConnect id connID deadline proto address).header ++ rest)
      = readConnect { id, connID, messageType := 2, deadline, bytes := [], proto := [], address := [],
                      body := rest } rest := by
  have hnumber : IsInt64 2 := by decide
  simp only [newServerMessage, Message.header, newConnect, MessageType.number, List.append_assoc,
    read_put hid, read_put hconn, read_put hnumber, read_put hdeadline, Option.bind_eq_bind,
    Option.bind_some, if_true, or_true, reduceCtorEq]

theorem newServerMessage_client (hid : IsInt64 id) (client rest : Bytes) {m : Message}
    (hm : m = newAddClient id client ∨ m = newRemoveClient id client) :
    newServerMessage (m.header ++ rest)
      = some { id, connID := 0, messageType := m.messageType.number, deadline := 0,
               bytes := rest.take 100, proto := [], address := rest.take 100,
               body := rest.drop 100 } := by
  have hzero : IsInt64 0 := by decide
  have hadd : IsInt64 4 := by decide
  have hremove : IsInt64 5 := by decide
  rcases hm with rfl | rfl <;>
    simp [newServerMessage, Message.header, newAddClient, newRemoveClient, MessageType.number,
      read_put hid, read_put hzero, read_put hadd, read_put hremove]

theorem header_client_length (client : Bytes) {m : Message}
    (hm : m = newAddClient id client ∨ m = newRemoveClient id client) : m.header.length ≤ 24 := by
  have hid := put_length_le id
  have hzero : (put 0).length = 1 := by decide
  have hadd : (put 4).length = 1 := by decide
  have hremove : (put 5).length = 1 := by decide
  rcases hm with rfl | rfl <;>
    simp [Message.header, newAddClient, newRemoveClient, MessageType.number] <;> omega

end Header

section Received

/-- What comes out at the other end of the wire. -/
def Message.received (m : Message) : Option ServerMessage := m.encode.bind newServerMessage

theorem received_connect {id connID deadline : Int} {proto address : Bytes} (hid : IsInt64 id)
    (hconn : IsInt64 connID) (hdeadline : IsInt64 deadline) (hproto : (47 : Byte) ∉ proto) :
    (newConnect id connID deadline proto address).received
      = if (put id).length + (put connID).length + 1 + (put deadline).length ≤ 24
          ∧ proto.length < 100 then
        some { id, connID, messageType := 2, deadline,
               bytes := (proto ++ 47 :: address).take 100, proto,
               address := address.take (99 - proto.length),
               body := (proto ++ 47 :: address).drop 100 }
      else none := by
  have hlen : (newConnect id connID deadline proto address).header.length
      = (put id).length + (put connID).length + 1 + (put deadline).length := by
    have htwo : (put 2).length = 1 := by decide
    simp [Message.header, newConnect, MessageType.number, htwo]
    omega
  have hbytes : (newConnect id connID deadline proto address).bytes = proto ++ 47 :: address := by
    simp [newConnect, text_slash]
  rw [Message.received, Message.encode, hlen, hbytes]
  split
  · rename_i hfit
    rw [Option.bind_some, newServerMessage_connect hid hconn hdeadline, readConnect,
      splitSlash_take hproto]
    split <;> simp_all
  · rename_i hfit
    rw [if_neg fun h => hfit h.1]
    rfl

theorem received_client {id sessionKey : Int} {clientKey : Bytes} {m : Message} (hid : IsInt64 id)
    (hm : m = newAddClient id (sessionAddress clientKey sessionKey)
      ∨ m = newRemoveClient id (sessionAddress clientKey sessionKey)) :
    ∃ r, m.received = some r ∧ r.id = id ∧ r.messageType = m.messageType.number
      ∧ r.address = (clientKey ++ 47 :: formatInt sessionKey).take 100 := by
  have hbytes : m.bytes = clientKey ++ 47 :: formatInt sessionKey := by
    rcases hm with rfl | rfl <;> simp [newAddClient, newRemoveClient, sessionAddress, text_slash]
  have hreceived : m.received = newServerMessage (m.header ++ m.bytes) := by
    rw [Message.received, Message.encode, if_pos (header_client_length _ hm), Option.bind_some]
  exact ⟨_, hreceived.trans (newServerMessage_client hid _ m.bytes hm), rfl, rfl,
    congrArg (List.take 100) hbytes⟩

theorem parseAddress_take {clientKey : Bytes} (hkey : (47 : Byte) ∉ clientKey) (sessionKey : Int) :
    parseAddress ((clientKey ++ 47 :: formatInt sessionKey).take 100)
      = if clientKey.length < 100 then
        (atoi ((formatInt sessionKey).take (99 - clientKey.length))).map fun v => (clientKey, v)
      else none := by
  rw [parseAddress_eq, splitSlash_take hkey]
  split <;> rfl

end Received

/-- A message to connect is read as it was written if and only if its header and its text fit; and
from a message about a session the session is read if and only if its text fits. -/
theorem control_received_iff {id connID nanoseconds sessionKey : Int}
    {proto clientKey : Bytes} (address : Bytes) (hid : IsInt64 id) (hconn : IsInt64 connID)
    (hnano : IsInt64 nanoseconds) (hpos : 0 ≤ nanoseconds) (hsession : IsInt64 sessionKey)
    (hproto : 47 ∉ proto) (hkey : 47 ∉ clientKey) :
    ((∃ m, (newConnect id connID (nanoseconds / 1000000) proto address).received = some m
        ∧ m.id = id ∧ m.connID = connID ∧ m.messageType = MessageType.connect.number
        ∧ m.deadline = nanoseconds / 1000000 ∧ m.proto = proto ∧ m.address = address)
      ↔ (put id).length + (put connID).length + 1 + (put (nanoseconds / 1000000)).length ≤ 24
        ∧ proto.length + 1 + address.length ≤ 100)
    ∧ ∀ m : Message,
      (m = newAddClient id (sessionAddress clientKey sessionKey)
        ∨ m = newRemoveClient id (sessionAddress clientKey sessionKey)) →
      ((∃ r, m.received = some r ∧ r.id = id ∧ r.messageType = m.messageType.number
          ∧ parseAddress r.address = some (clientKey, sessionKey))
        ↔ clientKey.length + 1 + (formatInt sessionKey).length ≤ 100) := by
  refine ⟨?_, fun m hm => ?_⟩
  · have hdeadline : IsInt64 (nanoseconds / 1000000) := by
      obtain ⟨-, hhigh⟩ := hnano
      constructor <;> omega
    rw [received_connect hid hconn hdeadline hproto]
    constructor
    · rintro ⟨m, hm, -, -, -, -, -, haddress⟩
      split at hm
      · rename_i hfit
        cases hm
        have hlen := congrArg List.length haddress
        rw [List.length_take] at hlen
        exact ⟨hfit.1, by omega⟩
      · cases hm
    · rintro ⟨hheader, htext⟩
      rw [if_pos ⟨hheader, by omega⟩]
      exact ⟨_, rfl, rfl, rfl, rfl, rfl, rfl, List.take_of_length_le (by omega)⟩
  · obtain ⟨r, hr, hrid, hrtype, hraddress⟩ := received_client hid hm
    have hparse := parseAddress_take hkey sessionKey
    rw [← hraddress] at hparse
    constructor
    · rintro ⟨r', hr', -, -, hback⟩
      cases hr.symm.trans hr'
      rw [hparse] at hback
      split at hback
      · rename_i hlt
        by_contra hlong
        obtain ⟨v, hv, heq⟩ := Option.map_eq_some_iff.1 hback
        cases heq
        refine atoi_prefix_ne hsession (q := (formatInt sessionKey).drop (99 - clientKey.length)) ?_
          (List.take_append_drop _ _).symm hv
        intro hnil
        have := List.drop_eq_nil_iff.1 hnil
        omega
      · cases hback
    · intro htext
      refine ⟨r, hr, hrid, hrtype, ?_⟩
      rw [hparse, if_pos (by omega), List.take_of_length_le (by omega), atoi_formatInt hsession,
        Option.map_some]

section Cut

theorem short_controls_received :
    (∃ m, (newConnect 7 2 15000 (text "tcp") (text "10.0.0.1:443")).received = some m
      ∧ m.id = 7 ∧ m.connID = 2 ∧ m.messageType = MessageType.connect.number ∧ m.deadline = 15000
      ∧ m.proto = text "tcp" ∧ m.address = text "10.0.0.1:443")
    ∧ ∃ r, (newAddClient 7 (sessionAddress (text "c-1") 4711)).received = some r ∧ r.id = 7
      ∧ r.messageType = MessageType.addClient.number
      ∧ parseAddress r.address = some (text "c-1", 4711) := by
  obtain ⟨hconnect, hclient⟩ := control_received_iff (text "10.0.0.1:443") (by decide : IsInt64 7)
    (by decide : IsInt64 2) (by decide : IsInt64 15000000000) (by decide)
    (by decide : IsInt64 4711) (by decide +kernel : 47 ∉ text "tcp")
    (by decide +kernel : 47 ∉ text "c-1")
  exact ⟨hconnect.2 (by decide +kernel), (hclient _ (.inl rfl)).2 (by decide +kernel)⟩

/-- A host name of a hundred bytes loses its end; a session of a client with a long key is taken for
another one; and a header with two large numbers does not fit. -/
theorem long_controls_cut :
    ((newConnect 7 2 15000 (text "tcp") (List.replicate 100 97)).received.map
        ServerMessage.address = some (List.replicate 96 97))
    ∧ ((newAddClient 8 (sessionAddress (List.replicate 96 97) 4711)).received.map
        fun r => parseAddress r.address) = some (some (List.replicate 96 97, 471))
    ∧ (newConnect 4611686018427387904 4611686018427387904 3600000 (text "tcp")
        (text "10.0.0.1:443")).encode = none := by
  decide +kernel

end Cut

end Norman.Remotedialer
