import Norman.Lib.Run
import Norman.Lib.Weight
import Norman.Proofs.TunnelSteps

/-!
# Errors answer errors only so often

Both sides answer data for a connection they do not have, and an error for one they have, with an
error. Each answer is paid for: a connection in `conns` weighs more than the error that is written
when it goes, and data more than the error that answers it. So with no new operation of the
applications, every step of the tunnel makes it lighter, whatever it carries.
-/

namespace Norman.Remotedialer

section Weight

/-- What the delivery of a message can still cause, in steps. -/
def Message.weight (m : Message) : ℕ :=
  match m.messageType with
  | .data => 2 * m.bytes.length + 4
  | .connect => 5
  | .error => 2
  | .addClient => 1
  | .removeClient => 1

def mass (ms : List Message) : ℕ := Weight.sum Message.weight ms

def Task.weight : Task → ℕ
  | .write _ _ b => 2 * b.length + 5
  | .closeConnection _ _ => 1
  | .tunnelClose _ _ => 4
  | .doTunnelClose _ _ => 1
  | .writeErr _ _ => 3
  | .notFound _ => 3

def Dial.weight : Dial → ℕ
  | .insert _ => 11
  | .send _ => 6

def Serve.weight : Serve → ℕ
  | .waiting => 0
  | .copying _ _ rest => 2 * rest.length + 2
  | .sending _ _ _ rest => 2 * rest.length + 3
  | .busy t => t.weight
  | .stopped => 0

namespace Peer

variable (p : Peer)

/-- The weight of the connections in the table and of the messages on their way. -/
def load : ℕ := Weight.total (fun _ => 4) p.session.conns + mass p.inbox

/-- The weight of the operations that have begun. -/
def underWay : ℕ :=
  Weight.total Dial.weight p.dialing + Weight.sum Task.weight p.tasks + p.serve.weight

/-- No operation is under way, and the serving goroutine is at the next message. -/
def AtRest : Prop := p.dialing = ∅ ∧ p.tasks = [] ∧ p.serve = .waiting

end Peer

namespace World

variable (w : World)

/-- The measure of the two tables and of the messages in flight. -/
def load : ℕ := (w .server).load + (w .client).load

def weight : ℕ := w.load + ((w .server).underWay + (w .client).underWay)

def AtRest : Prop := ∀ s, (w s).AtRest

end World

/-- The steps that go on with what has begun: a message is served, or an operation under way takes
its next step. The others are the applications' operations. -/
def Action.goesOn : Action → Bool
  | .dial _ _ => true
  | .task _ _ => true
  | .serve _ _ => true
  | .timeout => true
  | _ => false

@[simp] theorem mass_nil : mass [] = 0 := rfl

@[simp] theorem mass_cons (m : Message) (ms : List Message) :
    mass (m :: ms) = m.weight + mass ms := rfl

theorem mass_append (ms ms' : List Message) : mass (ms ++ ms') = mass ms + mass ms' :=
  Weight.sum_append Message.weight ms ms'

theorem mass_errorMessages (id k : Int) (err : Option Err) :
    mass (Peer.errorMessages id k err) ≤ 2 := by
  cases err <;> simp [Peer.errorMessages, newErrorMessage, Message.weight]

theorem Peer.AtRest.underWay {p : Peer} (h : p.AtRest) : p.underWay = 0 := by
  obtain ⟨hdialing, htasks, hserve⟩ := h
  rw [Peer.underWay, hdialing, htasks, hserve]
  rfl

theorem World.AtRest.weight {w : World} (h : w.AtRest) : w.weight = w.load := by
  rw [World.weight, (h .server).underWay, (h .client).underWay, Nat.add_zero]

end Weight

section Step

variable {p : Peer} {e : Effect} {t' : Option Task}

/-- A step of a side that makes it lighter by more than it writes. -/
def Lighter (p : Peer) (e : Effect) : Prop :=
  e.peer.load + e.peer.underWay + mass e.out < p.load + p.underWay

/-- One step of an operation costs more than what is left of it and what it writes. -/
theorem Peer.Tasks.lighter {id : Int} {t : Task} (h : p.Tasks id t e t') :
    e.peer.load + mass e.out + t'.elim 0 Task.weight < p.load + t.weight
      ∧ e.peer.dialing = p.dialing ∧ e.peer.tasks = p.tasks ∧ e.peer.serve = p.serve := by
  cases h <;> refine ⟨?_, rfl, rfl, rfl⟩
  case write =>
    simp only [mass_cons, mass_nil, newMessage, Message.weight, Task.weight, Option.elim_none]
    omega
  case closeConnection k err =>
    have herase := Weight.total_erase (fun _ => 4) p.session.conns k
    simp only [Peer.load, Peer.setConns, mass_nil, Task.weight]
    cases hr : p.session.conns.get k with
    | none =>
      simp only [hr, Option.elim_none, Option.map_none] at herase ⊢
      omega
    | some r =>
      -- the connection that goes pays for the error that tells of it
      simp only [hr, Option.elim_some, Option.map_some, Task.weight] at herase ⊢
      omega
  case tunnelClose r c hc err =>
    have := mass_errorMessages id c.connID err
    simp only [Task.weight, Option.elim_some]
    omega
  case doTunnelClose =>
    simp only [Peer.load, Peer.setConn, mass_nil, Task.weight, Option.elim_none]
    omega
  case writeErr r c hc err =>
    have := mass_errorMessages id c.connID err
    simp only [Task.weight, Option.elim_none]
    omega
  case notFound =>
    simp only [mass_cons, mass_nil, newErrorMessage, Message.weight, Task.weight, Option.elim_none]
    omega

theorem inserts_lighter {r : Ref} {deadline : Int} {c : Connection}
    (hdial : p.dialing.get r = some (.insert deadline)) :
    Lighter p { peer := { p.setConns (p.session.conns.set c.connID r) with
      dialing := p.dialing.set r (.send deadline) } } := by
  have hconns := Weight.total_set (fun _ => 4) p.session.conns c.connID r
  have hdialing := Weight.total_set Dial.weight p.dialing r (.send deadline)
  simp only [hdial, Option.elim_some, Dial.weight] at hdialing
  simp only [Lighter, Peer.load, Peer.underWay, Peer.setConns, mass_nil]
  omega

theorem announces_lighter {r : Ref} {id deadline : Int} {c : Connection}
    (hdial : p.dialing.get r = some (.send deadline)) :
    Lighter p
      { peer := { p with dialing := p.dialing.erase r, handed := r :: p.handed }
        out := [newConnect id c.connID deadline c.proto c.address] } := by
  have hdialing := Weight.total_erase Dial.weight p.dialing r
  simp only [hdial, Option.elim_some, Dial.weight] at hdialing
  simp only [Lighter, Peer.load, Peer.underWay, mass_cons, mass_nil, newConnect, Message.weight]
  omega

/-- What `serveMessage` does with a message weighs less than the message. -/
theorem serveMessage_lighter {m : Message} (hw : p.serve = .waiting) :
    (p.serveMessage m).load + (p.serveMessage m).underWay
      < p.load + p.underWay + m.weight := by
  have hrest : p.serve.weight = 0 := by rw [hw]; rfl
  have hset := Weight.total_set (fun _ => 4) p.session.conns m.connID p.heap.length
  unfold Peer.serveMessage
  rcases hm : m.messageType with _ | _ | _ | _ | _ <;>
    simp only [reduceCtorEq, if_true, if_false, Message.weight, hm]
  · rcases hr : p.session.conns.get m.connID with _ | r <;>
      simp only [Peer.load, Peer.underWay, Serve.weight, Task.weight] <;> omega
  · rcases ha : p.session.auth with _ | auth <;> simp only []
    · simp only [Peer.load, Peer.underWay, Serve.weight]
      omega
    · split_ifs
      · simp only [Peer.load, Peer.underWay, Peer.clientConnect, Peer.setConns]
        omega
      · simp only [Peer.load, Peer.underWay, Serve.weight]
        omega
  · rcases hr : p.session.conns.get m.connID with _ | r <;>
      simp only [Peer.load, Peer.underWay, Serve.weight, Task.weight] <;> omega
  · rcases hk : p.session.remoteClientKeys with _ | keys <;> simp only []
    · rcases hr : p.session.conns.get m.connID with _ | r <;> simp only [] <;> omega
    · rcases hs : p.session.addRemoteClient keys m.address with _ | s <;>
        simp only [Peer.load, Peer.underWay, Serve.weight]
      · omega
      · obtain ⟨a, -, rfl⟩ := Option.map_eq_some_iff.1 hs
        simp only []
        omega
  · rcases hs : p.session.removeRemoteClient m.address with _ | s <;>
      simp only [Peer.load, Peer.underWay, Serve.weight]
    · omega
    · obtain ⟨a, -, rfl⟩ := Option.map_eq_some_iff.1 hs
      simp only []
      omega

/-- Only the serving goroutine moves, and to something lighter. -/
theorem lighter_of_serve {q : Peer} {events : List Event} (hsession : q.session = p.session)
    (hinbox : q.inbox = p.inbox) (hdialing : q.dialing = p.dialing) (htasks : q.tasks = p.tasks)
    (hserve : q.serve.weight < p.serve.weight) : Lighter p { peer := q, events } := by
  simp only [Lighter, Peer.load, Peer.underWay, hsession, hinbox, hdialing, htasks, mass_nil]
  omega

theorem busy_lighter {id : Int} {t : Task} (hw : p.serve = .busy t) (h : p.Tasks id t e t') :
    Lighter p { e with peer := { e.peer with serve := t'.elim .waiting .busy } } := by
  obtain ⟨hlt, hdialing, htasks, hserve⟩ := h.lighter
  have hnext : (t'.elim .waiting .busy : Serve).weight = t'.elim 0 Task.weight := by
    cases t' <;> rfl
  show e.peer.load + (Weight.total Dial.weight e.peer.dialing
    + Weight.sum Task.weight e.peer.tasks + (t'.elim .waiting .busy : Serve).weight)
    + mass e.out < p.load + p.underWay
  rw [hdialing, htasks, hnext]
  simp only [Peer.underWay, hw, Serve.weight]
  omega

theorem taskAt_lighter {i : ℕ} {id : Int} {t : Task}
    (hi : p.tasks[i]? = some t) (h : p.Tasks id t e t') :
    Lighter p { e with peer := { e.peer with tasks := t'.toList ++ e.peer.tasks.eraseIdx i } } := by
  obtain ⟨hlt, hdialing, htasks, hserve⟩ := h.lighter
  have hnext : Weight.sum Task.weight t'.toList = t'.elim 0 Task.weight := by
    cases t' <;> simp
  have hsum := Weight.sum_eraseIdx Task.weight hi
  show e.peer.load + (Weight.total Dial.weight e.peer.dialing
    + Weight.sum Task.weight (t'.toList ++ e.peer.tasks.eraseIdx i) + e.peer.serve.weight)
    + mass e.out < p.load + p.underWay
  rw [hdialing, htasks, hserve, Weight.sum_append, hnext]
  simp only [Peer.underWay]
  omega

theorem serves_lighter {m : Message} {inbox : List Message} (hw : p.serve = .waiting)
    (hinbox : p.inbox = m :: inbox) : Lighter p { peer := { p with inbox }.serveMessage m } := by
  have hserved := serveMessage_lighter (p := { p with inbox }) (m := m) hw
  simp only [Lighter, Peer.load, Peer.underWay, hinbox, mass_cons, mass_nil] at hserved ⊢
  omega

theorem step_lighter {a : Action} (ha : a.goesOn) (h : p.step a = some e) : Lighter p e := by
  cases Peer.steps_of_step h with
  | inserts hd => exact inserts_lighter hd
  | announces hd => exact announces_lighter hd
  | task hi ht => exact taskAt_lighter hi ht
  | serves hw hin => exact serves_lighter hw hin
  | copied hw => exact lighter_of_serve rfl rfl rfl rfl (by simp [hw, Serve.weight])
  | copies hw hn | fills hw hn =>
    refine lighter_of_serve rfl rfl rfl rfl ?_
    simp only [hw, Serve.weight, List.length_drop]
    omega
  | sends hw => exact lighter_of_serve rfl rfl rfl rfl (by simp [hw, Serve.weight])
  | busy hw ht => exact busy_lighter hw ht
  | copyFails hw | timeout hw =>
    exact lighter_of_serve rfl rfl rfl rfl (by simp [hw, Serve.weight, Task.weight])
  | serverConnect | writeFails | writes | reads | readFails | close | tunnelClose
  | doTunnelClose | writeErr => cases ha

end Step

section Run

variable {w w' : World} {o : List (Side × Event)}

theorem send_weight (s : Side) (q : Peer) (ms : List Message) :
    (World.send (Function.update w s q) s.other ms).weight
      = q.load + q.underWay + mass ms + ((w s.other).load + (w s.other).underWay) := by
  cases s <;>
    simp [World.weight, World.load, World.send, Side.other, Peer.load, Peer.underWay,
      mass_append] <;> omega

theorem weight_eq (s : Side) :
    w.weight = (w s).load + (w s).underWay + ((w s.other).load + (w s.other).underWay) := by
  cases s <;> simp only [World.weight, World.load, Side.other] <;> omega

/-- A step that goes on with what has begun makes the tunnel lighter. -/
theorem weight_step {a : Side × Action} (ha : a.2.goesOn) (h : step w a = some (w', o)) :
    w'.weight < w.weight := by
  unfold step at h
  split at h
  · cases h
  · rename_i s a hside
    obtain ⟨e, he, heq⟩ := Option.map_eq_some_iff.1 h
    cases heq
    have hlt := step_lighter ha he
    rw [send_weight, weight_eq s]
    simp only [Lighter] at hlt
    omega

theorem weight_run : ∀ {as : List (Side × Action)} {w w' : World} {o : List (Side × Event)},
    (∀ a ∈ as, a.2.goesOn) → Run.exec step w as = some (w', o) →
      as.length + w'.weight ≤ w.weight
  | [], w, w', o, _, h => by
    cases h
    simp
  | a :: as, w, w', o, has, h => by
    obtain ⟨w₁, o₁, o', hstep, hrest, -⟩ := Run.exec_cons h
    have hlt := weight_step (has a List.mem_cons_self) hstep
    have hle := weight_run (fun b hb => has b (List.mem_cons_of_mem a hb)) hrest
    rw [List.length_cons]
    omega

end Run

/-- Without new operations of the applications the tunnel takes at most as many steps as it weighs,
and what is delivered from rest to rest makes the tables and the messages in flight weigh less. -/
theorem deliveries_end {w w' : World} {as : List (Side × Action)} {o : List (Side × Event)}
    (has : ∀ a ∈ as, a.2.goesOn) (h : Run.exec step w as = some (w', o)) :
    as.length ≤ w.weight
      ∧ (w.AtRest → as.length ≤ w.load)
      ∧ (w.AtRest → w'.AtRest → as ≠ [] → w'.load < w.load) := by
  have hrun := weight_run has h
  refine ⟨by omega, fun hw => ?_, fun hw hw' hne => ?_⟩
  · rw [hw.weight] at hrun
    omega
  · rw [hw.weight, hw'.weight] at hrun
    have := List.length_pos_iff.2 hne
    omega

section Closing

/-- Connection 2 is open on both sides, and the client has closed it: its error is on its way. -/
def closedByClient : World
  | .server =>
    { newPeer (newSession 7 (text "c-1")) with
      heap := [newConnection 2 (text "tcp") (text "db:5432")]
      inbox := [newErrorMessage 5 2 EOF] }.setConns ((∅ : SortedMap Int Ref).set 2 0)
  | .client => newPeer (NewClientSession none)

/-- The server closes its end and answers with the error, which the client drops. -/
def answeredOnce : List (Side × Action) :=
  [(.server, .serve 6 0), (.server, .serve 6 0), (.server, .serve 6 0), (.server, .serve 7 0),
    (.client, .serve 8 0)]

theorem answeredOnce_ends : ∃ w' o,
    Run.exec step closedByClient answeredOnce = some (w', o) ∧ w'.load < closedByClient.load := by
  have hrun : (Run.exec step closedByClient answeredOnce).isSome := by decide +kernel
  have hrest : ∀ r ∈ Run.exec step closedByClient answeredOnce, ∀ s : Side,
      (r.1 s).dialing = ∅ ∧ (r.1 s).tasks = [] ∧ (r.1 s).serve = .waiting := by
    rintro r hr (_ | _) <;> revert r <;> decide +kernel
  obtain ⟨⟨w', o⟩, h⟩ := Option.isSome_iff_exists.1 hrun
  have hstart : closedByClient.AtRest := by
    rintro (_ | _) <;> exact ⟨rfl, rfl, rfl⟩
  exact ⟨w', o, h, (deliveries_end (by decide) h).2.2 hstart (hrest _ h) (by decide)⟩

end Closing

end Norman.Remotedialer
