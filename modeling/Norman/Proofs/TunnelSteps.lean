import Norman.Remotedialer

/-!
# The steps of one side of the tunnel

What one step of an operation (`Tasks`) and one step of a side (`Steps`) do and what it takes for
them, said once. The invariants of a side are proved by cases of these.
-/

namespace Norman.Remotedialer

theorem chanWriterWrite_queued {c c' : Connection} {b : Bytes}
    (h : chanWriterWrite c b = .queued c') : c' = { c with buf := c.buf ++ [b] } := by
  unfold chanWriterWrite at h
  split at h
  · cases h
  · split_ifs at h
    cases h
    rfl

theorem Connection.connID_doTunnelClose (c : Connection) (err : Option Err) :
    (c.doTunnelClose err).connID = c.connID := by
  unfold Connection.doTunnelClose
  split_ifs <;> rfl

namespace Peer

variable {p : Peer} {e : Effect}

/-- What an operation does next, and what is left of it. -/
inductive Tasks (p : Peer) (id : Int) : Task → Effect → Option Task → Prop
  | write {r : Ref} {c : Connection} (who : p.conn r = some c) (deadline : Int) (b : Bytes) :
    Tasks p id (.write r deadline b)
      { peer := p, out := [newMessage id c.connID deadline b], events := [.wrote c.connID b] } none
  | closeConnection (connID : Int) (err : Option Err) :
    Tasks p id (.closeConnection connID err)
      { peer := p.setConns (p.session.conns.erase connID) }
      ((p.session.conns.get connID).map fun r => .tunnelClose r err)
  | tunnelClose {r : Ref} {c : Connection} (who : p.conn r = some c) (err : Option Err) :
    Tasks p id (.tunnelClose r err) { peer := p, out := errorMessages id c.connID err }
      (some (.doTunnelClose r err))
  | doTunnelClose {r : Ref} {c : Connection} (who : p.conn r = some c) (err : Option Err) :
    Tasks p id (.doTunnelClose r err) { peer := p.setConn r (c.doTunnelClose err) } none
  | writeErr {r : Ref} {c : Connection} (who : p.conn r = some c) (err : Option Err) :
    Tasks p id (.writeErr r err) { peer := p, out := errorMessages id c.connID err } none
  | notFound (connID : Int) :
    Tasks p id (.notFound connID)
      { peer := p, out := [newErrorMessage id connID (p.session.connectionNotFound connID)] } none

theorem tasks_of_taskStep {id : Int} {t : Task} {t' : Option Task}
    (h : p.taskStep id t = some (e, t')) : Tasks p id t e t' := by
  cases t with
  | write r deadline b =>
    obtain ⟨c, hc, heq⟩ := Option.map_eq_some_iff.1 h
    cases heq
    exact .write hc deadline b
  | closeConnection connID err =>
    cases h
    exact .closeConnection connID err
  | tunnelClose r err =>
    obtain ⟨c, hc, heq⟩ := Option.map_eq_some_iff.1 h
    cases heq
    exact .tunnelClose hc err
  | doTunnelClose r err =>
    simp only [taskStep] at h
    split_ifs at h
    obtain ⟨c, hc, heq⟩ := Option.map_eq_some_iff.1 h
    cases heq
    exact .doTunnelClose hc err
  | writeErr r err =>
    obtain ⟨c, hc, heq⟩ := Option.map_eq_some_iff.1 h
    cases heq
    exact .writeErr hc err
  | notFound connID =>
    cases h
    exact .notFound connID

/-- What a side does next, by the action. -/
inductive Steps (p : Peer) : Action → Effect → Prop
  | serverConnect (deadline : Int) (proto address : Bytes) :
    Steps p (.serverConnect deadline proto address)
      { peer := p.serverConnect deadline proto address }
  | inserts {r : Ref} {id deadline : Int} {c : Connection}
      (dials : p.dialing.get r = some (.insert deadline)) (who : p.conn r = some c) :
    Steps p (.dial r id)
      { peer := { p.setConns (p.session.conns.set c.connID r) with
                  dialing := p.dialing.set r (.send deadline) } }
  | announces {r : Ref} {id deadline : Int} {c : Connection}
      (dials : p.dialing.get r = some (.send deadline)) (who : p.conn r = some c) :
    Steps p (.dial r id)
      { peer := { p with dialing := p.dialing.erase r, handed := r :: p.handed }
        out := [newConnect id c.connID deadline c.proto c.address] }
  | writeFails (r : Ref) (deadline : Int) (b : Bytes) (connID : Int) (err : Err) :
    Steps p (.write r deadline b) { peer := p, events := [.writeFailed connID err] }
  | writes {r : Ref} (handed : r ∈ p.handed) (deadline : Int) (b : Bytes) :
    Steps p (.write r deadline b) { peer := { p with tasks := .write r deadline b :: p.tasks } }
  | reads {r : Ref} {n : ℕ} {c c' : Connection} {b : Bytes} (who : p.conn r = some c)
      (reads : c.read n = some (c', .ok b)) :
    Steps p (.read r n) { peer := p.setConn r c', events := [.read c.connID b] }
  | readFails {r : Ref} {n : ℕ} {c c' : Connection} {err : Err} (who : p.conn r = some c)
      (reads : c.read n = some (c', .error err)) :
    Steps p (.read r n) { peer := p.setConn r c', events := [.readFailed c.connID err] }
  | close (r : Ref) (connID : Int) :
    Steps p (.close r)
      { peer := { p with tasks := .closeConnection connID (some EOF) :: p.tasks } }
  | tunnelClose (r : Ref) (err : Option Err) :
    Steps p (.tunnelClose r err) { peer := { p with tasks := .tunnelClose r err :: p.tasks } }
  | doTunnelClose (r : Ref) (err : Option Err) :
    Steps p (.doTunnelClose r err) { peer := { p with tasks := .doTunnelClose r err :: p.tasks } }
  | writeErr (r : Ref) (err : Option Err) :
    Steps p (.writeErr r err) { peer := { p with tasks := .writeErr r err :: p.tasks } }
  | task {i : ℕ} {id : Int} {t : Task} {e : Effect} {t' : Option Task}
      (who : p.tasks[i]? = some t) (tasks : Tasks p id t e t') :
    Steps p (.task i id)
      { e with peer := { e.peer with tasks := t'.toList ++ e.peer.tasks.eraseIdx i } }
  | serves {id : Int} {n : ℕ} {m : Message} {inbox : List Message} (waits : p.serve = .waiting)
      (next : p.inbox = m :: inbox) :
    Steps p (.serve id n) { peer := { p with inbox }.serveMessage m }
  | copied {id : Int} {n : ℕ} {connID : Int} {r : Ref} (copies : p.serve = .copying connID r []) :
    Steps p (.serve id n) { peer := { p with serve := .waiting } }
  | copyFails {id : Int} {n : ℕ} {connID : Int} {r : Ref} {rest : Bytes}
      (copies : p.serve = .copying connID r rest) (err : Err) :
    Steps p (.serve id n)
      { peer := { p with serve := .busy (.closeConnection connID (some err)) } }
  | copies {id : Int} {n : ℕ} {connID : Int} {r : Ref} {rest : Bytes} {c : Connection}
      (copies : p.serve = .copying connID r rest) (size : 0 < n ∧ n ≤ rest.length)
      (who : p.conn r = some c) :
    Steps p (.serve id n)
      { peer := { p.setConn r { c with buf := c.buf ++ [rest.take n] } with
                  serve := .copying connID r (rest.drop n) }
        events := [.queued connID (rest.take n)] }
  | fills {id : Int} {n : ℕ} {connID : Int} {r : Ref} {rest : Bytes}
      (copies : p.serve = .copying connID r rest) (size : 0 < n ∧ n ≤ rest.length) :
    Steps p (.serve id n)
      { peer := { p with serve := .sending connID r (rest.take n) (rest.drop n) } }
  | sends {id : Int} {n : ℕ} {connID : Int} {r : Ref} {chunk rest : Bytes} {c : Connection}
      (sends : p.serve = .sending connID r chunk rest) (who : p.conn r = some c) :
    Steps p (.serve id n)
      { peer := { p.setConn r { c with buf := c.buf ++ [chunk] } with
                  serve := .copying connID r rest }
        events := [.queued connID chunk] }
  | busy {id : Int} {n : ℕ} {t : Task} {e : Effect} {t' : Option Task} (busy : p.serve = .busy t)
      (tasks : Tasks p id t e t') :
    Steps p (.serve id n) { e with peer := { e.peer with serve := t'.elim .waiting .busy } }
  | timeout {connID : Int} {r : Ref} {chunk rest : Bytes}
      (sends : p.serve = .sending connID r chunk rest) :
    Steps p .timeout
      { peer := { p with
          serve := .busy (.closeConnection connID (some ⟨text "backed up reader"⟩)) } }

theorem steps_of_copyStep {id : Int} {n : ℕ} {connID : Int} {r : Ref} {rest : Bytes}
    (hserve : p.serve = .copying connID r rest) (h : p.copyStep connID r rest n = some e) :
    Steps p (.serve id n) e := by
  unfold copyStep at h
  split_ifs at h with hrest hsize
  · cases h
    subst hrest
    exact .copied hserve
  · have hsize : 0 < n ∧ n ≤ rest.length := by omega
    split at h
    · cases h
    · rename_i c hc
      split at h
      · cases h
        exact .copyFails hserve _
      · rename_i c' hqueued
        cases h
        rw [chanWriterWrite_queued hqueued]
        exact .copies hserve hsize hc
      · cases h
        exact .fills hserve hsize

theorem steps_of_serveStep {id : Int} {n : ℕ} (h : p.serveStep id n = some e) :
    Steps p (.serve id n) e := by
  unfold serveStep at h
  split at h
  · rename_i hserve
    split at h
    · cases h
    · rename_i m inbox hinbox
      cases h
      exact .serves hserve hinbox
  · rename_i hserve
    exact steps_of_copyStep hserve h
  · rename_i hserve
    unfold sendStep at h
    split at h
    · cases h
    · rename_i c hc
      split_ifs at h
      cases h
      exact .sends hserve hc
  · rename_i hserve
    obtain ⟨⟨e', t'⟩, ht, rfl⟩ := Option.map_eq_some_iff.1 h
    exact .busy hserve (tasks_of_taskStep ht)
  · cases h

theorem steps_of_dialStep {r : Ref} {id : Int} (h : p.dialStep r id = some e) :
    Steps p (.dial r id) e := by
  unfold dialStep at h
  split at h
  · rename_i hdial hc
    cases h
    exact .inserts hdial hc
  · rename_i hdial hc
    cases h
    exact .announces hdial hc
  · cases h

theorem begin_eq_some {r : Ref} {t : Connection → Task} (h : p.begin r t = some e) :
    ∃ c, e = { peer := { p with tasks := t c :: p.tasks } } := by
  unfold begin at h
  split_ifs at h
  obtain ⟨c, -, rfl⟩ := Option.map_eq_some_iff.1 h
  exact ⟨c, rfl⟩

theorem steps_of_step {a : Action} (h : p.step a = some e) : Steps p a e := by
  cases a with
  | serverConnect deadline proto address =>
    cases h
    exact .serverConnect deadline proto address
  | dial r id => exact steps_of_dialStep h
  | write r deadline b =>
    simp only [step, write] at h
    split_ifs at h with hhanded
    obtain ⟨c, -, rfl⟩ := Option.map_eq_some_iff.1 h
    split
    · exact .writeFails r deadline b _ _
    · exact .writes hhanded deadline b
  | read r n =>
    simp only [step, read] at h
    split_ifs at h
    split at h
    · cases h
    · rename_i c hc
      split at h
      · cases h
      · rename_i hread
        cases h
        exact .reads hc hread
      · rename_i hread
        cases h
        exact .readFails hc hread
  | close r =>
    obtain ⟨c, rfl⟩ := begin_eq_some h
    exact .close r c.connID
  | tunnelClose r err =>
    obtain ⟨-, rfl⟩ := begin_eq_some h
    exact .tunnelClose r err
  | doTunnelClose r err =>
    obtain ⟨-, rfl⟩ := begin_eq_some h
    exact .doTunnelClose r err
  | writeErr r err =>
    obtain ⟨-, rfl⟩ := begin_eq_some h
    exact .writeErr r err
  | task i id =>
    simp only [step] at h
    split at h
    · cases h
    · rename_i t hi
      obtain ⟨⟨e', t'⟩, ht, rfl⟩ := Option.map_eq_some_iff.1 h
      exact .task hi (tasks_of_taskStep ht)
  | serve id n => exact steps_of_serveStep h
  | timeout =>
    simp only [step] at h
    split at h
    · rename_i hserve
      cases h
      exact .timeout hserve
    · cases h

end Peer

end Norman.Remotedialer
