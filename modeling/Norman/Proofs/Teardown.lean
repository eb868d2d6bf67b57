import Norman.Lib.Run
import Norman.Proofs.Closing
import Norman.Teardown

/-!
# What becomes of the connections when a session is closed

A connection is in the table, or not yet, or closed, or some operation has taken it out of the table
and owes its closing (`Inv.tracked`). `Close` closes what is in the table and nothing else. So two
kinds of connection are open when it has returned: those that another operation has yet to close,
and those that a dialer puts into the table afterwards. Of the latter a failed write closes one
again, and a write that succeeds leaves it open for good.
-/

namespace Norman.Remotedialer

namespace Teardown

section Orderly

/-- Some operation has taken a connection out of the table and has yet to close it. -/
def owes (p : Peer) : Bool :=
  p.tasks.any (fun x => x.closes.isSome) || match p.serve with
    | .busy x => x.closes.isSome
    | _ => false

/-- The connection is in the table. -/
def filed (p : Peer) (r : Ref) : Bool := p.session.conns.entries.any fun e => e.2 = r

/-- The `serverConnect` that made the connection writes its message next. -/
def writesNext (t : Teardown) (r : Ref) : Bool :=
  match t.peer.dialing.get r with
  | some (.send _) => true
  | _ => false

/-- The `serverConnect` that made the connection is to close it again, and it is not there. -/
def findsNothing (t : Teardown) (r : Ref) : Bool :=
  match t.failing.get r with
  | some (.closeConnection k _) => (t.peer.session.conns.get k).isNone
  | _ => false

/-- `Close` starts, and after it a `serverConnect` returns, only while no other operation is about
to close a connection; and after `Close` no message is written for a connection in the table, which
has come there since. -/
def Orderly (t : Teardown) : Action → Prop
  | .close _ => owes t.peer = false
  | .dial r _ => t.closed = true → t.writesNext r = true →
      filed t.peer r = false ∧ owes t.peer = false
  | .failed r _ => t.closed = true → t.findsNothing r = true → owes t.peer = false
  | _ => True

instance (t : Teardown) : ∀ a, Decidable (Orderly t a)
  | .close _ => inferInstanceAs (Decidable (owes t.peer = false))
  | .dial r _ => inferInstanceAs (Decidable (t.closed = true → t.writesNext r = true →
      filed t.peer r = false ∧ owes t.peer = false))
  | .failed r _ =>
    inferInstanceAs (Decidable (t.closed = true → t.findsNothing r = true → owes t.peer = false))
  | .getDialer _ _ => isTrue trivial
  | .serverConnect _ _ _ => isTrue trivial
  | .writeFailed _ _ => isTrue trivial
  | .arrive _ => isTrue trivial
  | .act _ => isTrue trivial
  | .remove => isTrue trivial
  | .sweep => isTrue trivial
  | .swept => isTrue trivial

theorem not_owed {p : Peer} (h : owes p = false) (r : Ref) : ¬ p.Owed r := by
  simp only [owes, Bool.or_eq_false_iff, List.any_eq_false] at h
  rintro (⟨x, hx, hr⟩ | ⟨x, hx, hr⟩)
  · exact h.1 x hx (by rw [hr]; rfl)
  · simp [hx, hr] at h

theorem not_filed {p : Peer} (h : filed p r = false) : ¬ p.Filed r := by
  rintro ⟨k, hk⟩
  rw [filed, List.any_eq_false] at h
  exact h (k, r) (SortedMap.mem_entries.2 hk) (by simp)

end Orderly

variable {t : Teardown} {q : Peer} {r : Ref}

/-- The connection is still to go into the table. -/
def Inserting (t : Teardown) (r : Ref) : Prop := ∃ d, t.peer.dialing.get r = some (.insert d)

/-- The `serverConnect` that made the connection owes its closing. -/
def FailOwed (t : Teardown) (r : Ref) : Prop :=
  ∃ x, t.failing.get r = some x ∧ x.closes = some r

/-- A server's session has one connection to an id, and files it under its id. -/
structure Base (p : Peer) : Prop where
  auth : p.session.auth = none
  ids : ∀ {r c}, p.conn r = some c → c.connID ≤ p.session.nextConnID
  inj : ∀ {r r' c c'}, p.conn r = some c → p.conn r' = some c' → c.connID = c'.connID → r = r'
  sane : ∀ {r c}, p.conn r = some c → c.Sane
  table : ∀ {k r}, p.session.conns.get k = some r → ∃ c, p.conn r = some c ∧ c.connID = k

/-- What is known of one connection: where it is, also while `Close` is at work, and that it is
closed after `Close`, if its `serverConnect` has returned. -/
structure Known (t : Teardown) (r : Ref) : Prop where
  tracked : t.Inserting r ∨ t.peer.Filed r ∨ t.peer.Shut r ∨ t.peer.Owed r ∨ t.FailOwed r
  sweeping : ∀ {todo}, t.closing = some todo →
    t.Inserting r ∨ t.peer.Shut r ∨ r ∈ todo ∨ t.FailOwed r
  shut : t.closed = true → t.peer.dialing.get r = none → t.failing.get r = none → t.peer.Shut r

/-- What every orderly run keeps. -/
structure Inv (t : Teardown) : Prop extends Base t.peer where
  dialing : ∀ {r d}, t.peer.dialing.get r = some d → r < t.peer.heap.length ∧ t.failing.get r = none
  failing : ∀ {r x}, t.failing.get r = some x → ∃ c, t.peer.conn r = some c
    ∧ ((∃ err, x = .closeConnection c.connID err) ∨ x.closes = some r)
  known : ∀ r < t.peer.heap.length, t.Known r

/-- A step that is neither at the start nor at the end of `Close` changes what is known of a
connection in these ways only. -/
theorem Known.step {t' : Teardown} (h : t.Known r) (hclosing : t'.closing = t.closing)
    (hclosed : t'.closed = t.closed) (hins : t.Inserting r → t'.Inserting r)
    (hfiled : t.peer.Filed r → t'.peer.Filed r ∨ t'.peer.Owed r ∨ t'.FailOwed r)
    (hshut : t.peer.Shut r → t'.peer.Shut r)
    (howed : t.peer.Owed r → t'.peer.Shut r ∨ t'.peer.Owed r)
    (hfail : t.FailOwed r → t'.peer.Shut r ∨ t'.FailOwed r)
    (hdone : t'.closed = true → t'.peer.dialing.get r = none → t'.failing.get r = none →
      t'.peer.Shut r ∨ t.peer.dialing.get r = none ∧ t.failing.get r = none) : t'.Known r where
  tracked := by
    rcases h.tracked with hr | hr | hr | hr | hr
    · exact .inl (hins hr)
    · exact .inr ((hfiled hr).imp_right .inr)
    · exact .inr (.inr (.inl (hshut hr)))
    · exact .inr (.inr ((howed hr).imp_right .inl))
    · exact .inr (.inr ((hfail hr).imp_right .inr))
  sweeping htodo := by
    rcases h.sweeping (hclosing.symm.trans htodo) with hr | hr | hr | hr
    · exact .inl (hins hr)
    · exact .inr (.inl (hshut hr))
    · exact .inr (.inr (.inl hr))
    · exact .inr ((hfail hr).imp_right .inr)
  shut hc hd hf :=
    (hdone hc hd hf).elim id fun ⟨hd', hf'⟩ => hshut (h.shut (hclosed.symm.trans hc) hd' hf')

theorem inv_start (sessionKey : Int) (clientKey : Bytes) (peer : Bool) :
    Inv (start sessionKey clientKey peer) := by
  have hconn : ∀ r, (start sessionKey clientKey peer).peer.conn r = none := by
    intro r
    simp [start, newPeer, Peer.conn]
  have hsize : (start sessionKey clientKey peer).peer.heap.length = 0 := rfl
  exact
    { auth := rfl
      ids := by simp [hconn]
      inj := by simp [hconn]
      sane := by simp [hconn]
      table := by simp [start, newPeer, newSession]
      dialing := by simp [start, newPeer]
      failing := by simp [start]
      known := by simp [hsize] }

theorem Base.keeps {p : Peer} (h : Base p) (hq : Keeps p q) : Base q where
  auth := hq.auth.trans h.auth
  ids := by
    intro r c' hc'
    obtain ⟨c, hc, hfollows⟩ := hq.conn_back hc'
    rw [hfollows.id, hq.next]
    exact h.ids hc
  inj := by
    intro r r' c₁ c₂ h₁ h₂ heq
    obtain ⟨d₁, hd₁, hf₁⟩ := hq.conn_back h₁
    obtain ⟨d₂, hd₂, hf₂⟩ := hq.conn_back h₂
    exact h.inj hd₁ hd₂ (by rw [← hf₁.id, ← hf₂.id, heq])
  sane := by
    intro r c' hc'
    obtain ⟨c, hc, hfollows⟩ := hq.conn_back hc'
    exact hfollows.sane (h.sane hc)
  table := by
    intro k r hr
    obtain ⟨c, hc, hk⟩ := h.table (hq.conns hr)
    obtain ⟨c', hc', hfollows⟩ := hq.conn hc
    exact ⟨c', hc', hfollows.id.trans hk⟩

namespace Inv

variable {c : Connection}

/-- The step of an operation that is neither a dialer's nor `Close`. -/
theorem moved (h : Inv t) (hq : Moves t.peer q) : Inv { t with peer := q } where
  toBase := h.toBase.keeps hq.keeps
  dialing := by
    intro r d hd
    rw [hq.keeps.dialing] at hd
    rw [hq.keeps.size]
    exact h.dialing hd
  failing := by
    intro r x hx
    obtain ⟨c, hc, hcases⟩ := h.failing hx
    obtain ⟨c', hc', hfollows⟩ := hq.keeps.conn hc
    exact ⟨c', hc', by rw [hfollows.id]; exact hcases⟩
  known := by
    intro r hr
    rw [hq.keeps.size] at hr
    refine (h.known r hr).step rfl rfl ?_ (fun hr => (hq.taken hr).imp_right .inl) hq.keeps.shut
      hq.owed .inr ?_
    · simp only [Inserting, hq.keeps.dialing, imp_self]
    · simp only [hq.keeps.dialing]
      exact fun _ hd hf => .inr ⟨hd, hf⟩

/-- A dialer makes a connection. -/
theorem serverConnect (h : Inv t) (deadline : Int) (proto address : Bytes) :
    Inv { t with peer := t.peer.serverConnect deadline proto address } := by
  have hheap : (t.peer.serverConnect deadline proto address).heap = t.peer.heap
      ++ [newConnection (t.peer.session.nextConnID + 1) proto address] := rfl
  have hnext : (t.peer.serverConnect deadline proto address).session.nextConnID
      = t.peer.session.nextConnID + 1 := rfl
  have hold : ∀ {r c}, t.peer.conn r = some c →
      (t.peer.serverConnect deadline proto address).conn r = some c := Peer.conn_append_old hheap
  have hdialing : ∀ r, r < t.peer.heap.length →
      (t.peer.serverConnect deadline proto address).dialing.get r = t.peer.dialing.get r := by
    intro r hr
    simp only [Peer.serverConnect, SortedMap.get_set, if_neg hr.ne]
  have hshut : ∀ {r}, t.peer.Shut r → (t.peer.serverConnect deadline proto address).Shut r := by
    rintro r ⟨c, hc, herr⟩
    exact ⟨c, hold hc, herr⟩
  have hnew : Inserting { t with peer := t.peer.serverConnect deadline proto address }
      t.peer.heap.length := ⟨deadline, SortedMap.get_set_self _ _ _⟩
  have hcases : ∀ {r}, r < (t.peer.serverConnect deadline proto address).heap.length →
      r < t.peer.heap.length ∨ r = t.peer.heap.length := by
    intro r hr
    rw [hheap, List.length_append, List.length_singleton] at hr
    omega
  refine ⟨⟨h.auth, fun {r c} hc => ?_, fun {r r' c c'} hc hc' heq => ?_, fun {r c} hc => ?_,
    fun {k r} hr => ?_⟩, fun {r d} hd => ?_, fun {r x} hx => ?_, fun r hr => ?_⟩
  · rw [hnext]
    rcases Peer.conn_append_cases hheap hc with hc | ⟨-, rfl⟩
    · exact (h.ids hc).trans (by omega)
    · exact le_rfl
  · rcases Peer.conn_append_cases hheap hc with hc | ⟨rfl, rfl⟩ <;>
      rcases Peer.conn_append_cases hheap hc' with hc' | ⟨rfl, rfl⟩
    · exact h.inj hc hc' heq
    · have := h.ids hc
      simp only [newConnection] at heq
      omega
    · have := h.ids hc'
      simp only [newConnection] at heq
      omega
    · rfl
  · rcases Peer.conn_append_cases hheap hc with hc | ⟨-, rfl⟩
    · exact h.sane hc
    · exact fun herr => by cases herr
  · obtain ⟨c, hc, hk⟩ := h.table hr
    exact ⟨c, hold hc, hk⟩
  · by_cases hr : r = t.peer.heap.length
    · subst hr
      refine ⟨by simp [hheap], ?_⟩
      rcases hx : t.failing.get t.peer.heap.length with _ | x
      · rfl
      · obtain ⟨c, hc, -⟩ := h.failing hx
        exact absurd (Peer.lt_of_conn hc) (lt_irrefl _)
    · simp only [Peer.serverConnect, SortedMap.get_set, if_neg hr] at hd
      obtain ⟨hlt, hfailing⟩ := h.dialing hd
      refine ⟨hlt.trans_le ?_, hfailing⟩
      rw [hheap, List.length_append]
      exact Nat.le_add_right _ _
  · obtain ⟨c, hc, hx⟩ := h.failing hx
    exact ⟨c, hold hc, hx⟩
  · rcases hcases hr with hr | rfl
    · refine (h.known r hr).step rfl rfl ?_ .inl hshut .inr .inr fun _ hd hf => .inr ⟨?_, hf⟩
      · rintro ⟨d, hd⟩
        exact ⟨d, (hdialing r hr).trans hd⟩
      · exact (hdialing r hr).symm.trans hd
    · refine ⟨.inl hnew, fun _ => .inl hnew, fun _ hd => ?_⟩
      obtain ⟨d, hd'⟩ := hnew
      rw [hd'] at hd
      cases hd

/-- The connection goes into the table, while `Close` is not at work. -/
theorem inserted (h : Inv t) {d : Int}
    (hd : t.peer.dialing.get r = some (.insert d)) (hc : t.peer.conn r = some c)
    (hclosing : t.closing = none) :
    Inv { t with
      peer := { t.peer.setConns (t.peer.session.conns.set c.connID r) with
                dialing := t.peer.dialing.set r (.send d) } } := by
  have hdialing : ∀ {r'}, r' ≠ r → (t.peer.dialing.set r (.send d)).get r' = t.peer.dialing.get r' :=
    fun hr' => by rw [SortedMap.get_set, if_neg hr']
  refine ⟨⟨h.auth, h.ids, h.inj, h.sane, fun {k r'} hr' => ?_⟩, fun {r' d'} hd' => ?_, h.failing,
    fun r' hr' => ?_⟩
  · rw [Peer.setConns, SortedMap.get_set] at hr'
    split_ifs at hr' with hk
    · cases hr'
      exact ⟨c, hc, hk.symm⟩
    · exact h.table hr'
  · by_cases hrr : r' = r
    · subst hrr
      exact h.dialing hd
    · exact h.dialing ((hdialing hrr).symm.trans hd')
  · by_cases hrr : r' = r
    · subst hrr
      refine ⟨.inr (.inl ⟨c.connID, SortedMap.get_set_self _ _ _⟩), fun htodo => ?_,
        fun _ hd' => ?_⟩
      · rw [hclosing] at htodo
        cases htodo
      · rw [SortedMap.get_set_self] at hd'
        cases hd'
    · refine (h.known r' hr').step rfl rfl ?_ ?_ id .inr .inr
        fun _ hd' hf' => .inr ⟨(hdialing hrr).symm.trans hd', hf'⟩
      · rintro ⟨d', hd'⟩
        exact ⟨d', (hdialing hrr).trans hd'⟩
      · rintro ⟨k, hk⟩
        have hne : k ≠ c.connID := by
          rintro rfl
          obtain ⟨c', hc', heq⟩ := h.table hk
          exact hrr (h.inj hc' hc heq)
        refine .inl ⟨k, ?_⟩
        rw [Peer.setConns, SortedMap.get_set, if_neg hne]
        exact hk

/-- The message is written and the connection returned; after a `Close` only if the connection is
neither in the table nor about to be closed. -/
theorem connected (h : Inv t) {d : Int} {handed : List Ref}
    (hd : t.peer.dialing.get r = some (.send d))
    (horderly : t.closed = true → ¬ t.peer.Filed r ∧ ¬ t.peer.Owed r) :
    Inv { t with peer := { t.peer with dialing := t.peer.dialing.erase r, handed } } := by
  obtain ⟨hlt, hfailing⟩ := h.dialing hd
  have hdialing : ∀ {r'}, r' ≠ r → (t.peer.dialing.erase r).get r' = t.peer.dialing.get r' :=
    fun hr' => by rw [SortedMap.get_erase, if_neg hr']
  refine ⟨⟨h.auth, h.ids, h.inj, h.sane, h.table⟩, fun {r' d'} hd' => ?_, h.failing,
    fun r' hr' => (h.known r' hr').step rfl rfl ?_ .inl id .inr .inr fun hclosed hd' hf' => ?_⟩
  · rw [SortedMap.get_erase] at hd'
    split_ifs at hd'
    exact h.dialing hd'
  · rintro ⟨d', hd'⟩
    refine ⟨d', (hdialing ?_).trans hd'⟩
    rintro rfl
    rw [hd] at hd'
    cases hd'
  · by_cases hrr : r' = r
    · subst hrr
      obtain ⟨hfiled, howed⟩ := horderly hclosed
      rcases (h.known r' hlt).tracked with ⟨d', hd''⟩ | hr | hr | hr | ⟨x, hx, -⟩
      · rw [hd] at hd''
        cases hd''
      · exact absurd hr hfiled
      · exact .inl hr
      · exact absurd hr howed
      · rw [hfailing] at hx
        cases hx
    · exact .inr ⟨(hdialing hrr).symm.trans hd', hf'⟩

/-- The message is not written, and the connection is to be closed again. -/
theorem writeFailed (h : Inv t) {d : Int} {err : Err}
    (hd : t.peer.dialing.get r = some (.send d)) (hc : t.peer.conn r = some c) :
    Inv { t with
      peer := { t.peer with dialing := t.peer.dialing.erase r }
      failing := t.failing.set r (.closeConnection c.connID (some err)) } := by
  have hdialing : ∀ {r'}, r' ≠ r → (t.peer.dialing.erase r).get r' = t.peer.dialing.get r' :=
    fun hr' => by rw [SortedMap.get_erase, if_neg hr']
  have hfailing : ∀ {r'}, r' ≠ r →
      (t.failing.set r (.closeConnection c.connID (some err))).get r' = t.failing.get r' :=
    fun hr' => by rw [SortedMap.get_set, if_neg hr']
  refine ⟨⟨h.auth, h.ids, h.inj, h.sane, h.table⟩, fun {r' d'} hd' => ?_, fun {r' x} hx => ?_,
    fun r' hr' => (h.known r' hr').step rfl rfl ?_ .inl id .inr ?_ fun _ hd' hf' => ?_⟩
  · rw [SortedMap.get_erase] at hd'
    split_ifs at hd' with hrr
    exact ⟨(h.dialing hd').1, (hfailing hrr).trans (h.dialing hd').2⟩
  · rw [SortedMap.get_set] at hx
    split_ifs at hx with hrr
    · subst hrr
      cases hx
      exact ⟨c, hc, .inl ⟨_, rfl⟩⟩
    · exact h.failing hx
  · rintro ⟨d', hd'⟩
    refine ⟨d', (hdialing ?_).trans hd'⟩
    rintro rfl
    rw [hd] at hd'
    cases hd'
  · rintro ⟨x, hx, hr⟩
    refine .inr ⟨x, (hfailing ?_).trans hx, hr⟩
    rintro rfl
    rw [(h.dialing hd).2] at hx
    cases hx
  · have hrr : r' ≠ r := by
      rintro rfl
      rw [SortedMap.get_set_self] at hf'
      cases hf'
    exact .inr ⟨(hdialing hrr).symm.trans hd', (hfailing hrr).symm.trans hf'⟩

theorem get_leave (x' : Option Task) (r' : Ref) :
    (t.leave r x').get r' = if r' = r then x' else t.failing.get r' := by
  cases x' with
  | none => exact SortedMap.get_erase _ _ _
  | some y => exact SortedMap.get_set _ _ _ _

/-- What a `serverConnect` has left to do is about its own connection. -/
theorem closes_own (h : Inv t) {x y : Task} {id : Int} {e : Effect}
    (hx : t.failing.get r = some x) (hstep : t.peer.taskStep id x = some (e, some y)) :
    y.closes = some r := by
  obtain ⟨c, hc, ⟨err, rfl⟩ | hcloses⟩ := h.failing hx
  · simp only [Peer.taskStep, Option.some.injEq, Prod.mk.injEq] at hstep
    obtain ⟨r', hr', rfl⟩ := Option.map_eq_some_iff.1 hstep.2
    obtain ⟨c', hc', heq⟩ := h.table hr'
    rw [h.inj hc' hc heq]
    rfl
  · generalize hleft : some y = left at hstep
    cases Peer.tasks_of_taskStep hstep with
    | tunnelClose =>
      cases hleft
      exact hcloses
    | doTunnelClose => cases hleft
    | write | closeConnection | writeErr | notFound => cases hcloses

/-- A failed `serverConnect` that returns has closed its connection, or has found it gone. -/
theorem returns_shut (h : Inv t) {x : Task} {id : Int} {e : Effect}
    (hx : t.failing.get r = some x) (hstep : t.peer.taskStep id x = some (e, none))
    (horderly : t.findsNothing r = true → ¬ t.peer.Owed r) : e.peer.Shut r := by
  have hworked := (Peer.tasks_of_taskStep hstep).worked
  obtain ⟨c, hc, ⟨err, rfl⟩ | hcloses⟩ := h.failing hx
  · have hnone : t.peer.session.conns.get c.connID = none := by
      simp only [Peer.taskStep, Option.some.injEq, Prod.mk.injEq, Option.map_eq_none_iff] at hstep
      exact hstep.2
    have howed := horderly (by simp [findsNothing, hx, hnone])
    rcases (h.known r (Peer.lt_of_conn hc)).tracked with ⟨d, hd⟩ | ⟨k, hk⟩ | hr | hr | ⟨y, hy, hr⟩
    · rw [(h.dialing hd).2] at hx
      cases hx
    · obtain ⟨c', hc', rfl⟩ := h.table hk
      rw [hc] at hc'
      cases hc'
      rw [hnone] at hk
      cases hk
    · exact hworked.keeps.shut hr
    · exact absurd hr howed
    · rw [hx] at hy
      cases hy
      cases hr
  · rcases hworked.owed hcloses with hr | ⟨y, hy, -⟩
    · exact hr
    · cases hy

/-- A step of a `serverConnect` that closes its connection again. -/
theorem failed (h : Inv t) {x : Task} {x' : Option Task} {id : Int} {e : Effect}
    (hx : t.failing.get r = some x) (hstep : t.peer.taskStep id x = some (e, x'))
    (horderly : t.closed = true → t.findsNothing r = true → ¬ t.peer.Owed r) :
    Inv { t with peer := e.peer, failing := t.leave r x' } := by
  have hworked := (Peer.tasks_of_taskStep hstep).worked
  have hkeeps := hworked.keeps
  have hown : ∀ {y}, x' = some y → y.closes = some r := by
    rintro y rfl
    exact h.closes_own hx hstep
  -- what is left of it owes the closing of its own connection
  have hleft : ∀ {r'}, (∃ y, x' = some y ∧ y.closes = some r') →
      ∃ y, (t.leave r x').get r' = some y ∧ y.closes = some r' := by
    rintro r' ⟨y, rfl, hy⟩
    obtain rfl : r = r' := by simpa [hown rfl] using hy
    exact ⟨y, by rw [get_leave, if_pos rfl], hy⟩
  have howed : ∀ {r'}, t.FailOwed r' →
      e.peer.Shut r' ∨ ∃ y, (t.leave r x').get r' = some y ∧ y.closes = some r' := by
    rintro r' ⟨z, hz, hr'⟩
    by_cases hrr : r' = r
    · subst hrr
      rw [hx] at hz
      cases hz
      exact (hworked.owed hr').imp_right hleft
    · exact .inr ⟨z, by rw [get_leave, if_neg hrr]; exact hz, hr'⟩
  refine ⟨h.toBase.keeps hkeeps, fun {r' d} hd => ?_, fun {r' y} hy => ?_, fun r' hr' => ?_⟩
  · rw [hkeeps.dialing] at hd
    obtain ⟨hlt, hnone⟩ := h.dialing hd
    rw [hkeeps.size]
    refine ⟨hlt, ?_⟩
    have hrr : r' ≠ r := by
      rintro rfl
      rw [hx] at hnone
      cases hnone
    rw [get_leave, if_neg hrr]
    exact hnone
  · rw [get_leave] at hy
    split_ifs at hy with hrr
    · subst hrr
      obtain ⟨c, hc, -⟩ := h.failing hx
      obtain ⟨c', hc', -⟩ := hkeeps.conn hc
      exact ⟨c', hc', .inr (hown hy)⟩
    · obtain ⟨c, hc, hcases⟩ := h.failing hy
      obtain ⟨c', hc', hfollows⟩ := hkeeps.conn hc
      exact ⟨c', hc', by rw [hfollows.id]; exact hcases⟩
  · rw [hkeeps.size] at hr'
    refine (h.known r' hr').step rfl rfl ?_ ?_ hkeeps.shut ?_ howed fun hclosed hd hf => ?_
    · simp only [Inserting, hkeeps.dialing, imp_self]
    · exact fun hr => (hworked.taken hr).imp_right fun hr => .inr (hleft hr)
    · intro hr
      right
      rw [Peer.Owed, hworked.tasks, hworked.serve]
      exact hr
    · rw [hkeeps.dialing] at hd
      rw [get_leave] at hf
      split_ifs at hf with hrr
      · subst hrr hf
        exact .inl (h.returns_shut hx hstep (horderly hclosed))
      · exact .inr ⟨hd, hf⟩

/-- `Close` starts, with all that is in the table to close. -/
theorem close (h : Inv t) {order : List Ref}
    (horder : order.Perm (t.peer.session.conns.entries.map Prod.snd))
    (horderly : ∀ r, ¬ t.peer.Owed r) : Inv { t with closing := some order } := by
  refine ⟨h.toBase, h.dialing, h.failing, fun r hr =>
    ⟨(h.known r hr).tracked, fun {todo} htodo => ?_, (h.known r hr).shut⟩⟩
  cases htodo
  rcases (h.known r hr).tracked with hr | ⟨k, hk⟩ | hr | hr | hr
  · exact .inl hr
  · exact .inr (.inr (.inl (horder.mem_iff.2 (List.mem_map.2 ⟨(k, r), SortedMap.mem_entries.2 hk, rfl⟩))))
  · exact .inr (.inl hr)
  · exact absurd hr (horderly r)
  · exact .inr (.inr (.inr hr))

/-- `Close` closes its next connection. -/
theorem sweep (h : Inv t) {rest : List Ref} {err : Option Err}
    (hclosing : t.closing = some (r :: rest)) (hc : t.peer.conn r = some c) :
    Inv { t with peer := t.peer.setConn r (c.doTunnelClose err), closing := some rest } := by
  obtain ⟨hfollows, herr⟩ := c.follows_doTunnelClose err
  have hkeeps : Keeps t.peer (t.peer.setConn r (c.doTunnelClose err)) :=
    .setConn hc hfollows rfl rfl rfl
  have hmoved := h.moved (.of_owed hkeeps rfl fun _ hr => hr)
  refine ⟨hmoved.toBase, hmoved.dialing, hmoved.failing, fun r' hr' =>
    ⟨(hmoved.known r' hr').tracked, fun {todo} htodo => ?_, (hmoved.known r' hr').shut⟩⟩
  cases htodo
  rcases (hmoved.known r' hr').sweeping hclosing with hr | hr | hr | hr
  · exact .inl hr
  · exact .inr (.inl hr)
  · rcases List.mem_cons.1 hr with rfl | hr
    · exact .inr (.inl ⟨_, Peer.conn_setConn_self hc, herr⟩)
    · exact .inr (.inr (.inl hr))
  · exact .inr (.inr (.inr hr))

/-- `Close` empties the table and returns. -/
theorem swept (h : Inv t) (hclosing : t.closing = some []) :
    Inv { t with peer := t.peer.setConns ∅, closing := none, closed := true } := by
  refine ⟨⟨h.auth, h.ids, h.inj, h.sane, fun hr => ?_⟩, h.dialing, h.failing, fun r hr =>
    ⟨?_, fun htodo => ?_, fun _ hd hf => ?_⟩⟩
  · cases hr
  · rcases (h.known r hr).sweeping hclosing with hr | hr | hr | hr
    · exact .inl hr
    · exact .inr (.inr (.inl hr))
    · cases hr
    · exact .inr (.inr (.inr (.inr hr)))
  · cases htodo
  · have hd' : t.peer.dialing.get r = none := hd
    have hf' : t.failing.get r = none := hf
    rcases (h.known r hr).sweeping hclosing with ⟨d, hr⟩ | hr | hr | ⟨x, hr, -⟩
    · rw [hd'] at hr
      cases hr
    · exact hr
    · cases hr
    · rw [hf'] at hr
      cases hr

theorem dial (h : Inv t) {id : Int} {t' : Teardown} (ha : Orderly t (.dial r id))
    (ht : t.dial r id = some t') : Inv t' := by
  unfold Teardown.dial at ht
  split at ht
  · cases ht
  · rename_i hcases
    obtain ⟨e, he, rfl⟩ := Option.map_eq_some_iff.1 ht
    cases Peer.steps_of_dialStep he with
    | @inserts _ _ d c hd hc =>
      refine h.inserted hd hc ?_
      rcases hclosing : t.closing with _ | todo
      · rfl
      · exact (hcases d todo hd hclosing).elim
    | announces hd =>
      refine h.connected hd fun hclosed => ?_
      obtain ⟨hfiled, howes⟩ := ha hclosed (by simp [writesNext, hd])
      exact ⟨not_filed hfiled, not_owed howes r⟩

theorem act (h : Inv t) {a : Remotedialer.Action} {t' : Teardown} (ht : t.act a = some t') :
    Inv t' := by
  unfold Teardown.act at ht
  split at ht
  · cases ht
  · cases ht
  · rename_i hdials hdial
    split_ifs at ht
    obtain ⟨e, he, rfl⟩ := Option.map_eq_some_iff.1 ht
    exact h.moved (step_moves h.auth hdials hdial he)

theorem next (h : Inv t) {a : Action} {t' : Teardown} (ha : Orderly t a)
    (ht : t.next a = some t') : Inv t' := by
  cases a with
  | getDialer clientKey deadline =>
    simp only [Teardown.next, Teardown.getDialer] at ht
    split at ht
    · split_ifs at ht
      cases ht
      exact { h with known := fun r hr => { h.known r hr with } }
    · cases ht
  | serverConnect i proto address =>
    obtain ⟨d, -, rfl⟩ := Option.map_eq_some_iff.1 ht
    exact h.serverConnect d.deadline (d.proto proto) address
  | dial r id => exact h.dial ha ht
  | writeFailed r err =>
    simp only [Teardown.next, Teardown.writeFailed] at ht
    split at ht
    · rename_i d c hd hc
      cases ht
      exact h.writeFailed hd hc
    · cases ht
  | failed r id =>
    simp only [Teardown.next, Teardown.failed] at ht
    split at ht
    · cases ht
    · rename_i x hx
      split_ifs at ht
      obtain ⟨⟨e, x'⟩, hstep, rfl⟩ := Option.map_eq_some_iff.1 ht
      exact h.failed hx hstep fun hclosed hfinds => not_owed (ha hclosed hfinds) r
  | arrive m =>
    cases ht
    exact h.moved (.of_owed (.of_heap rfl rfl rfl) rfl fun _ hr => hr)
  | act a => exact h.act ht
  | remove =>
    cases ht
    exact { h with known := fun r hr => { h.known r hr with } }
  | close order =>
    simp only [Teardown.next] at ht
    split_ifs at ht with hclose
    cases ht
    exact h.close hclose.2 (not_owed ha)
  | sweep =>
    simp only [Teardown.next, Teardown.sweep] at ht
    split at ht
    · rename_i hclosing
      split_ifs at ht
      obtain ⟨c, hc, rfl⟩ := Option.map_eq_some_iff.1 ht
      exact h.sweep hclosing hc
    · cases ht
  | swept =>
    simp only [Teardown.next] at ht
    split_ifs at ht with hclosing
    cases ht
    exact h.swept hclosing

end Inv

/-- In an orderly run, once `Close` has returned, a connection whose `serverConnect` has returned
has its error and its channel closed, and no `Read` on it waits. -/
theorem closed_connections {sessionKey : Int} {clientKey : Bytes} {peer : Bool} {as : List Action}
    {o : List Empty}
    (h : Run.exec step (start sessionKey clientKey peer) as = some (t, o))
    (horderly : Run.Along step Orderly (start sessionKey clientKey peer) as)
    (hclosed : t.closed = true) {c : Connection} (hc : t.peer.conn r = some c)
    (hdialing : t.peer.dialing.get r = none) (hfailing : t.failing.get r = none) :
    c.err.isSome ∧ c.closed = true ∧ ∀ n, (c.read n).isSome := by
  have hinv : Inv t := by
    refine Run.exec_invariant_along (fun t _ => Inv t) (inv_start sessionKey clientKey peer)
      (fun t w a t' o hinv ha ht => ?_) h horderly
    obtain ⟨t'', hnext, heq⟩ := Option.map_eq_some_iff.1 ht
    cases heq
    exact hinv.next ha hnext
  obtain ⟨c', hc', herr⟩ := (hinv.known r (Peer.lt_of_conn hc)).shut hclosed hdialing hfailing
  rw [hc] at hc'
  cases hc'
  have hchan := hinv.sane hc herr
  exact ⟨herr, hchan, read_isSome hchan⟩

section Runs

/-- One connection is there when the session is closed; another is put into the table afterwards,
and its message is not written. -/
def orderlyEnd : List Action :=
  [.getDialer (text "c-1") 15000, .serverConnect 0 (text "tcp") (text "db:5432"), .dial 0 1,
    .dial 0 1, .serverConnect 0 (text "tcp") (text "web:80"), .remove, .close [0], .sweep, .swept,
    .dial 1 2, .writeFailed 1 EOF, .failed 1 3, .failed 1 3, .failed 1 3]

theorem orderlyEnd_closed : ∃ t o c,
    Run.exec step (start 7 (text "c-1") false) orderlyEnd = some (t, o) ∧ t.closed = true
      ∧ t.peer.conn 1 = some c ∧ c.err.isSome ∧ c.closed = true ∧ ∀ n, (c.read n).isSome := by
  have hrun : (Run.exec step (start 7 (text "c-1") false) orderlyEnd).isSome := by decide +kernel
  have hend : ∀ x ∈ Run.exec step (start 7 (text "c-1") false) orderlyEnd, x.1.closed = true
      ∧ (x.1.peer.conn 1).isSome ∧ x.1.peer.dialing.get 1 = none ∧ x.1.failing.get 1 = none := by
    decide +kernel
  obtain ⟨⟨t, o⟩, h⟩ := Option.isSome_iff_exists.1 hrun
  obtain ⟨hclosed, hconn, hdialing, hfailing⟩ := hend _ h
  obtain ⟨c, hc⟩ := Option.isSome_iff_exists.1 hconn
  exact ⟨t, o, c, h, hclosed, hc,
    closed_connections h (by decide +kernel) hclosed hc hdialing hfailing⟩

/-- A dialer from before the session was removed puts its connection into the table after `Close`,
and its message is written. -/
def lateDial : List Action :=
  [.getDialer (text "c-1") 15000, .remove, .close [], .swept,
    .serverConnect 0 (text "tcp") (text "db:5432"), .dial 0 1, .dial 0 1]

/-- The application's `Close` has taken the connection out of the table when the session's goes
through it. -/
def crossedClose : List Action :=
  [.getDialer (text "c-1") 15000, .serverConnect 0 (text "tcp") (text "db:5432"), .dial 0 1,
    .dial 0 1, .act (.close 0), .act (.task 0 2), .remove, .close [], .swept]

/-- Whether `Close` has returned, the first connection, and what is left of its `serverConnect`. -/
def firstAfter (run : List Action) :
    Option (Bool × Option Connection × Option Dial × Option Task) :=
  (Run.exec step (start 7 (text "c-1") false) run).map fun x =>
    (x.1.closed, x.1.peer.conn 0, x.1.peer.dialing.get 0, x.1.failing.get 0)

/-- Both leave a connection open that a dialer has returned, and on which a `Read` waits. -/
theorem connection_outlives_session :
    firstAfter lateDial
      = some (true, some (newConnection 2 (text "tcp") (text "db:5432")), none, none)
    ∧ firstAfter crossedClose
      = some (true, some (newConnection 2 (text "tcp") (text "db:5432")), none, none)
    ∧ (newConnection 2 (text "tcp") (text "db:5432")).read 1 = none :=
  ⟨by decide +kernel, by decide +kernel, rfl⟩

end Runs

end Teardown

end Norman.Remotedialer
