import Mathlib.Data.List.Perm.Basic
import Norman.Proofs.TunnelSide

/-!
# Where a connection goes

A connection leaves the table by the hand of an operation that closes it afterwards, in steps of its
own. So what a step of the session takes out of the table it owes to close, and what is owed is
closed or still owed after the step (`Moves`). Nothing opens a connection again.
-/

namespace Norman.Remotedialer

section Shut

variable {p q : Peer} {r : Ref}

/-- The connection has its error. -/
def Peer.Shut (p : Peer) (r : Ref) : Prop := ∃ c, p.conn r = some c ∧ c.err.isSome

/-- The connection is in the table. -/
def Peer.Filed (p : Peer) (r : Ref) : Prop := ∃ k, p.session.conns.get k = some r

/-- The connection that the operation has taken out of the table and is about to close. -/
def Task.closes : Task → Option Ref
  | .tunnelClose r _ => some r
  | .doTunnelClose r _ => some r
  | _ => none

/-- An operation of an application or the serving goroutine owes the closing of the connection. -/
def Peer.Owed (p : Peer) (r : Ref) : Prop :=
  (∃ x ∈ p.tasks, x.closes = some r) ∨ ∃ x, p.serve = .busy x ∧ x.closes = some r

/-- A connection with an error has its channel closed. -/
def Connection.Sane (c : Connection) : Prop := c.err.isSome → c.closed = true

/-- A connection that is replaced keeps its id, and its error if it has one. -/
structure Connection.Follows (c c' : Connection) : Prop where
  id : c'.connID = c.connID
  err : c.err.isSome → c'.err.isSome
  sane : c.Sane → c'.Sane

theorem Connection.Follows.of_eq {c c' : Connection} (hid : c'.connID = c.connID)
    (herr : c'.err = c.err) (hclosed : c'.closed = c.closed) : c.Follows c' :=
  ⟨hid, by rw [herr]; exact fun h => h, by unfold Sane; rw [herr, hclosed]; exact fun h => h⟩

theorem Connection.follows_doTunnelClose (c : Connection) (err : Option Err) :
    c.Follows (c.doTunnelClose err) ∧ (c.doTunnelClose err).err.isSome := by
  unfold Connection.doTunnelClose
  split_ifs with h
  · exact ⟨.of_eq rfl rfl rfl, h⟩
  · exact ⟨⟨rfl, fun _ => rfl, fun _ _ => rfl⟩, rfl⟩

/-- A step that makes no connection and files none. -/
structure Keeps (p q : Peer) : Prop where
  auth : q.session.auth = p.session.auth
  next : q.session.nextConnID = p.session.nextConnID
  dialing : q.dialing = p.dialing
  conns : ∀ {k r}, q.session.conns.get k = some r → p.session.conns.get k = some r
  size : q.heap.length = p.heap.length
  conn : ∀ {r c}, p.conn r = some c → ∃ c', q.conn r = some c' ∧ c.Follows c'

theorem Keeps.of_heap (hheap : q.heap = p.heap) (hsession : q.session = p.session)
    (hdialing : q.dialing = p.dialing) : Keeps p q where
  auth := by rw [hsession]
  next := by rw [hsession]
  dialing := hdialing
  conns := by rw [hsession]; exact fun h => h
  size := by rw [hheap]
  conn := by
    intro r c hc
    exact ⟨c, by rw [Peer.conn, hheap]; exact hc, .of_eq rfl rfl rfl⟩

theorem Keeps.setConn {c c' : Connection} (hc : p.conn r = some c) (hcc' : c.Follows c')
    (hheap : q.heap = (p.setConn r c').heap) (hsession : q.session = p.session)
    (hdialing : q.dialing = p.dialing) : Keeps p q where
  auth := by rw [hsession]
  next := by rw [hsession]
  dialing := hdialing
  conns := by rw [hsession]; exact fun h => h
  size := by rw [hheap, Peer.setConn, List.length_set]
  conn := by
    intro r' d hd
    have hq : q.conn r' = (p.setConn r c').conn r' := by rw [Peer.conn, hheap]; rfl
    by_cases hr : r' = r
    · subst hr
      rw [hc] at hd
      cases hd
      exact ⟨c', by rw [hq, Peer.conn_setConn_self hc], hcc'⟩
    · exact ⟨d, by rw [hq, Peer.conn_setConn_ne hr]; exact hd, .of_eq rfl rfl rfl⟩

theorem Keeps.shut (h : Keeps p q) (hr : p.Shut r) : q.Shut r := by
  obtain ⟨c, hc, herr⟩ := hr
  obtain ⟨c', hc', hcc'⟩ := h.conn hc
  exact ⟨c', hc', hcc'.err herr⟩

theorem Keeps.conn_back (h : Keeps p q) {c' : Connection} (hc' : q.conn r = some c') :
    ∃ c, p.conn r = some c ∧ c.Follows c' := by
  have hlt : r < p.heap.length := h.size ▸ Peer.lt_of_conn hc'
  have hc : p.conn r = some p.heap[r] := List.getElem?_eq_getElem hlt
  obtain ⟨c'', hc'', hcc''⟩ := h.conn hc
  rw [hc'] at hc''
  cases hc''
  exact ⟨_, hc, hcc''⟩

end Shut

section Step

variable {p : Peer} {e : Effect} {r : Ref} {x' : Option Task}

/-- What one step of an operation does with the connections. -/
structure Worked (p : Peer) (x : Task) (q : Peer) (x' : Option Task) : Prop where
  keeps : Keeps p q
  tasks : q.tasks = p.tasks
  serve : q.serve = p.serve
  taken : ∀ {r}, p.Filed r → q.Filed r ∨ ∃ y, x' = some y ∧ y.closes = some r
  owed : ∀ {r}, x.closes = some r → q.Shut r ∨ ∃ y, x' = some y ∧ y.closes = some r

theorem Peer.Tasks.worked {id : Int} {x : Task} (h : p.Tasks id x e x') : Worked p x e.peer x' := by
  cases h with
  | closeConnection k err =>
    refine ⟨⟨rfl, rfl, rfl, fun {k' r} hr => ?_, rfl, fun hc => ⟨_, hc, .of_eq rfl rfl rfl⟩⟩, rfl,
      rfl, fun {r} ⟨k', hr⟩ => ?_, by simp [Task.closes]⟩
    · rw [Peer.setConns, SortedMap.get_erase] at hr
      split_ifs at hr
      exact hr
    · by_cases hk : k' = k
      · subst hk
        exact .inr ⟨.tunnelClose r err, by rw [hr]; rfl, rfl⟩
      · exact .inl ⟨k', by rw [Peer.setConns, SortedMap.get_erase, if_neg hk]; exact hr⟩
  | tunnelClose => exact ⟨.of_heap rfl rfl rfl, rfl, rfl, .inl, fun h => .inr ⟨_, rfl, h⟩⟩
  | @doTunnelClose r c hc err =>
    obtain ⟨hfollows, herr⟩ := c.follows_doTunnelClose err
    refine ⟨.setConn hc hfollows rfl rfl rfl, rfl, rfl, .inl, fun {r'} h => ?_⟩
    obtain rfl : r = r' := by simpa [Task.closes] using h
    exact .inl ⟨_, Peer.conn_setConn_self hc, herr⟩
  | write | writeErr | notFound =>
    exact ⟨.of_heap rfl rfl rfl, rfl, rfl, .inl, by simp [Task.closes]⟩

/-- What a step of the session does with its connections, dialing apart: it keeps them, and one that
it takes out of the table, or that was out of it and open, is owed or closed. -/
structure Moves (p q : Peer) : Prop where
  keeps : Keeps p q
  taken : ∀ {r}, p.Filed r → q.Filed r ∨ q.Owed r
  owed : ∀ {r}, p.Owed r → q.Shut r ∨ q.Owed r

theorem Moves.of_owed {q : Peer} (hkeeps : Keeps p q)
    (hconns : q.session.conns = p.session.conns) (howed : ∀ r, p.Owed r → q.Owed r) :
    Moves p q :=
  ⟨hkeeps, fun ⟨k, hk⟩ => .inl ⟨k, by rw [hconns]; exact hk⟩,
    fun h => .inr (howed _ h)⟩

/-- Where the serving goroutine owes nothing, it can go on to anything. -/
theorem owed_of_idle {q : Peer} (hserve : ∀ x, p.serve ≠ .busy x) (htasks : q.tasks = p.tasks)
    (r : Ref) (h : p.Owed r) : q.Owed r := by
  rcases h with ⟨x, hx, hr⟩ | ⟨x, hx, -⟩
  · exact .inl ⟨x, htasks ▸ hx, hr⟩
  · exact absurd hx (hserve x)

theorem serveMessage_moves {m : Message} {inbox : List Message}
    (hauth : p.session.auth = none) (hw : p.serve = .waiting) :
    Moves p (Peer.serveMessage { p with inbox } m) := by
  have hserved := Peer.serveMessage_served (p := { p with inbox }) (m := m) hw
  have hidle : ∀ x, p.serve ≠ .busy x := by simp [hw]
  generalize Peer.serveMessage { p with inbox } m = q at hserved
  cases hserved with
  | connect _ ha => exact absurd hauth ha
  | copy => exact .of_owed (.of_heap rfl rfl rfl) rfl (owed_of_idle hidle rfl)
  | other hc hn ha =>
    refine .of_owed ⟨ha, hn, rfl, ?_, rfl, fun h => ⟨_, h, .of_eq rfl rfl rfl⟩⟩ hc
      (owed_of_idle hidle rfl)
    rw [hc]
    exact fun h => h

/-- Where the serving goroutine owes nothing, a chunk goes into a channel. -/
theorem queue_moves {k : Int} {c : Connection} {chunk rest : Bytes}
    (hidle : ∀ x, p.serve ≠ .busy x) (hc : p.conn r = some c) :
    Moves p { p.setConn r { c with buf := c.buf ++ [chunk] } with serve := .copying k r rest } := by
  have hfollows : c.Follows { c with buf := c.buf ++ [chunk] } := .of_eq rfl rfl rfl
  exact .of_owed (.setConn hc hfollows rfl rfl rfl) rfl (owed_of_idle hidle rfl)

theorem busy_moves {id : Int} {x : Task} (hw : p.serve = .busy x)
    (h : p.Tasks id x e x') : Moves p { e.peer with serve := x'.elim .waiting .busy } := by
  have hworked := h.worked
  refine ⟨{ hworked.keeps with }, fun {r} hr => ?_, fun {r} hr => ?_⟩
  · rcases hworked.taken hr with hr | ⟨y, rfl, hy⟩
    · exact .inl hr
    · exact .inr (.inr ⟨y, rfl, hy⟩)
  · rcases hr with ⟨z, hz, hr⟩ | ⟨z, hz, hr⟩
    · exact .inr (.inl ⟨z, hworked.tasks.symm ▸ hz, hr⟩)
    · rw [hw] at hz
      cases hz
      rcases hworked.owed hr with hr | ⟨y, rfl, hy⟩
      · exact .inl hr
      · exact .inr (.inr ⟨y, rfl, hy⟩)

theorem taskAt_moves {i : ℕ} {id : Int} {x : Task} (hi : p.tasks[i]? = some x)
    (h : p.Tasks id x e x') :
    Moves p { e.peer with tasks := x'.toList ++ e.peer.tasks.eraseIdx i } := by
  have hworked := h.worked
  have hnew : ∀ {r}, (∃ y, x' = some y ∧ y.closes = some r) →
      Peer.Owed { e.peer with tasks := x'.toList ++ e.peer.tasks.eraseIdx i } r := by
    rintro r ⟨y, rfl, hy⟩
    exact .inl ⟨y, List.mem_cons_self, hy⟩
  refine ⟨{ hworked.keeps with }, fun {r} hr => ?_, fun {r} hr => ?_⟩
  · rcases hworked.taken hr with hr | hr
    · exact .inl hr
    · exact .inr (hnew hr)
  · rcases hr with ⟨z, hz, hr⟩ | ⟨z, hz, hr⟩
    · obtain ⟨hlt, rfl⟩ := List.getElem?_eq_some_iff.1 hi
      rcases List.mem_cons.1 ((List.getElem_cons_eraseIdx_perm hlt).mem_iff.2 hz) with rfl | hz
      · rcases hworked.owed hr with hr | hr
        · exact .inl hr
        · exact .inr (hnew hr)
      · refine .inr (.inl ⟨z, List.mem_append_right _ ?_, hr⟩)
        rw [hworked.tasks]
        exact hz
    · exact .inr (.inr ⟨z, hworked.serve.trans hz, hr⟩)

theorem read_follows {c c' : Connection} {n : ℕ} {res : Except Err Bytes}
    (h : c.read n = some (c', res)) : c.Follows c' := by
  rw [Connection.read_frame h]
  exact .of_eq rfl rfl rfl

theorem read_isSome {c : Connection} (h : c.closed = true) (n : ℕ) : (c.read n).isSome := by
  unfold Connection.read
  split
  · rfl
  split
  · rfl
  rcases c.buf with _ | ⟨chunk, rest⟩ <;> simp [h]

theorem begin_moves (x : Task) : Moves p { p with tasks := x :: p.tasks } := by
  refine .of_owed (.of_heap rfl rfl rfl) rfl fun r hr => ?_
  rcases hr with ⟨y, hy, hr⟩ | hr
  · exact .inl ⟨y, List.mem_cons_of_mem _ hy, hr⟩
  · exact .inr hr

theorem step_moves {a : Action} (hauth : p.session.auth = none)
    (hdials : ∀ deadline proto address, a ≠ .serverConnect deadline proto address)
    (hdial : ∀ r id, a ≠ .dial r id) (h : p.step a = some e) : Moves p e.peer := by
  cases Peer.steps_of_step h with
  | serverConnect deadline proto address => exact absurd rfl (hdials deadline proto address)
  | inserts | announces => exact absurd rfl (hdial _ _)
  | writeFails => exact .of_owed (.of_heap rfl rfl rfl) rfl fun _ hr => hr
  | writes | close | tunnelClose | doTunnelClose | writeErr => exact begin_moves _
  | reads hc hread | readFails hc hread =>
    exact .of_owed (.setConn hc (read_follows hread) rfl rfl rfl) rfl fun _ hr => hr
  | task hi hx => exact taskAt_moves hi hx
  | serves hw => exact serveMessage_moves hauth hw
  | copies hw _ hc => exact queue_moves (by simp [hw]) hc
  | sends hw hc => exact queue_moves (by simp [hw]) hc
  | busy hw hx => exact busy_moves hw hx
  | copied hw | copyFails hw | fills hw | timeout hw =>
    exact .of_owed (.of_heap rfl rfl rfl) rfl (owed_of_idle (by simp [hw]) rfl)

end Step

end Norman.Remotedialer
