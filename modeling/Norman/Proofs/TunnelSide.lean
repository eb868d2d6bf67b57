import Norman.Proofs.TunnelSteps

/-!
# One side of the tunnel

What one side keeps on its own: a connection id has at most one connection (`Local.inj`), and what
went into a connection's channel is what its `Read`s returned, what `readBuf` still holds, and what
is still in the channel (`Local.flow`). Each change a step makes to a side keeps this.
-/

namespace Norman.Remotedialer

namespace Serve

/-- The connection the serving goroutine copies to. -/
def target : Serve → Option (Int × Ref)
  | .copying k r _ => some (k, r)
  | .sending k r _ _ => some (k, r)
  | _ => none

end Serve

namespace Peer

variable {p : Peer} {r r' : Ref} {c c' d : Connection}

/-- The side has a connection with this id. -/
def Has (p : Peer) (k : Int) : Prop := ∃ r c, p.conn r = some c ∧ c.connID = k

theorem lt_of_conn (h : p.conn r = some c) : r < p.heap.length :=
  (List.getElem?_eq_some_iff.1 h).1

theorem conn_setConn_self (h : p.conn r = some c) : (p.setConn r c').conn r = some c' := by
  simp [conn, setConn, lt_of_conn h]

theorem conn_setConn_ne (h : r' ≠ r) : (p.setConn r c').conn r' = p.conn r' := by
  simp [conn, setConn, List.getElem?_set_ne (Ne.symm h)]

/-- After a connection is replaced, every connection is an old one or the new value. -/
theorem conn_setConn_cases (h : p.conn r = some c)
    (hd : (p.setConn r c').conn r' = some d) : (r' = r ∧ d = c') ∨ (r' ≠ r ∧ p.conn r' = some d) := by
  by_cases hr : r' = r
  · subst hr
    rw [conn_setConn_self h] at hd
    exact .inl ⟨rfl, by simpa using hd.symm⟩
  · rw [conn_setConn_ne hr] at hd
    exact .inr ⟨hr, hd⟩

/-- A connection that is replaced by one with the same id is still found under it. -/
theorem conn_setConn_id (h : p.conn r = some c) (hid : c'.connID = c.connID)
    (hd : p.conn r' = some d) :
    ∃ d', (p.setConn r c').conn r' = some d' ∧ d'.connID = d.connID := by
  by_cases hr : r' = r
  · subst hr
    cases h.symm.trans hd
    exact ⟨c', conn_setConn_self h, hid⟩
  · exact ⟨d, (conn_setConn_ne hr).trans hd, rfl⟩

/-- With one more connection on the heap, every connection is an old one or the new one. -/
theorem conn_append_cases {q : Peer} (hq : q.heap = p.heap ++ [c']) (hd : q.conn r = some d) :
    p.conn r = some d ∨ (r = p.heap.length ∧ d = c') := by
  rw [conn, hq, List.getElem?_append] at hd
  split_ifs at hd with h
  · exact .inl hd
  · have hr := (List.getElem?_eq_some_iff.1 hd).1
    simp only [List.length_singleton, Nat.lt_one_iff] at hr
    obtain rfl : r = p.heap.length := Nat.le_antisymm (Nat.sub_eq_zero_iff_le.1 hr) (not_lt.1 h)
    simp only [Nat.sub_self, List.getElem?_cons_zero, Option.some.injEq] at hd
    exact .inr ⟨rfl, hd.symm⟩

theorem conn_append_old {q : Peer} (hq : q.heap = p.heap ++ [c']) (h : p.conn r = some c) :
    q.conn r = some c := by
  rw [conn, hq, List.getElem?_append_left (lt_of_conn h)]
  exact h

theorem conn_append_new {q : Peer} (hq : q.heap = p.heap ++ [c']) :
    q.conn p.heap.length = some c' := by
  simp [conn, hq]

/-- What `serveMessage` can come to: a new connection, data to copy to a connection in `conns`, or
something that copies nothing, which for data means that `conns` does not have its connection. -/
inductive Served (p : Peer) (m : Message) : Peer → Prop where
  | connect (hm : m.messageType = .connect) (ha : p.session.auth ≠ none) :
      Served p m (p.clientConnect m)
  | copy {r : Ref} (hm : m.messageType = .data) (hr : p.session.conns.get m.connID = some r) :
      Served p m { p with serve := .copying m.connID r m.bytes }
  | other {session : Session} {serve : Serve} (hc : session.conns = p.session.conns)
      (hn : session.nextConnID = p.session.nextConnID) (ha : session.auth = p.session.auth)
      (ht : serve.target = none) (hb : ∀ {r d b}, serve ≠ .busy (.write r d b))
      (hd : m.messageType = .data → p.session.conns.get m.connID = none) :
      Served p m { p with session, serve }

theorem Served.stop {m : Message} (hm : m.messageType ≠ .data) :
    Served p m { p with serve := .stopped } :=
  .other rfl rfl rfl rfl (by simp) fun h => absurd h hm

theorem Served.skip {m : Message} {session : Session} (hw : p.serve = .waiting)
    (hc : session.conns = p.session.conns) (hn : session.nextConnID = p.session.nextConnID)
    (ha : session.auth = p.session.auth) (hm : m.messageType ≠ .data) :
    Served p m { p with session } :=
  .other hc hn ha (by rw [hw]; rfl) (by simp [hw]) fun h => absurd h hm

theorem serveMessage_served {m : Message} (hw : p.serve = .waiting) :
    Served p m (p.serveMessage m) := by
  unfold serveMessage
  rcases hm : m.messageType with _ | _ | _ | _ | _ <;> simp only [reduceCtorEq, if_true, if_false]
  · rcases hr : p.session.conns.get m.connID with _ | r <;> simp only []
    · exact .other rfl rfl rfl rfl (by simp) fun _ => hr
    · exact .copy hm hr
  · rcases ha : p.session.auth with _ | auth <;> simp only []
    · exact .stop (by simp [hm])
    · split_ifs
      · exact .connect hm (by simp [ha])
      · exact .stop (by simp [hm])
  · rcases hr : p.session.conns.get m.connID with _ | r <;> simp only []
    · exact .skip hw rfl rfl rfl (by simp [hm])
    · exact .other rfl rfl rfl rfl (by simp) (by simp [hm])
  · rcases hk : p.session.remoteClientKeys with _ | keys <;> simp only []
    · rcases hr : p.session.conns.get m.connID with _ | r <;> simp only [] <;>
        exact .skip hw rfl rfl rfl (by simp [hm])
    · rcases hs : p.session.addRemoteClient keys m.address with _ | s <;> simp only []
      · exact .stop (by simp [hm])
      · obtain ⟨a, -, rfl⟩ := Option.map_eq_some_iff.1 hs
        exact .skip hw rfl rfl rfl (by simp [hm])
  · rcases hs : p.session.removeRemoteClient m.address with _ | s <;> simp only []
    · exact .stop (by simp [hm])
    · obtain ⟨a, -, rfl⟩ := Option.map_eq_some_iff.1 hs
      exact .skip hw rfl rfl rfl (by simp [hm])

end Peer

section Local

/-- What a side keeps on its own, given what its `Read`s returned, what went into its channels and
what its `Write`s wrote, for each connection id. -/
structure Local (p : Peer) (rec que snt : Int → Bytes) : Prop where
  inj : ∀ {r r' c c'}, p.conn r = some c → p.conn r' = some c' → c.connID = c'.connID → r = r'
  conns : ∀ {k r}, p.session.conns.get k = some r → ∃ c, p.conn r = some c ∧ c.connID = k
  serving : ∀ {k r}, p.serve.target = some (k, r) → ∃ c, p.conn r = some c ∧ c.connID = k
  flow : ∀ {r c}, p.conn r = some c →
    rec c.connID ++ c.readBuf ++ c.buf.flatten = que c.connID
  absent : ∀ {k}, ¬ p.Has k → rec k = [] ∧ que k = [] ∧ snt k = []
  writes : ∀ {r d b}, .write r d b ∈ p.tasks → r ∈ p.handed
  busy : ∀ {r d b}, p.serve ≠ .busy (.write r d b)
  handed : ∀ {r}, r ∈ p.handed → r < p.heap.length
  dials : ∀ {r d}, p.dialing.get r = some d → r < p.heap.length ∧ r ∉ p.handed

variable {p : Peer} {rec que snt : Int → Bytes}

namespace Local

/-- The operations under way and the serving goroutine move on. -/
theorem retask (h : Local p rec que snt) {tasks : List Task} {serve : Serve}
    (ht : ∀ {r d b}, .write r d b ∈ tasks → .write r d b ∈ p.tasks ∨ r ∈ p.handed)
    (hs : ∀ {k r}, serve.target = some (k, r) → ∃ c, p.conn r = some c ∧ c.connID = k)
    (hb : ∀ {r d b}, serve ≠ .busy (.write r d b)) :
    Local { p with tasks, serve } rec que snt :=
  { h with
    serving := hs
    busy := hb
    writes := fun hm => (ht hm).elim h.writes id }

theorem setConns (h : Local p rec que snt) {conns : SortedMap Int Ref}
    (hc : ∀ {k r}, conns.get k = some r →
      p.session.conns.get k = some r ∨ ∃ c, p.conn r = some c ∧ c.connID = k) :
    Local (p.setConns conns) rec que snt :=
  { h with
    conns := fun hk => (hc hk).elim h.conns id }

/-- A connection changes, and gives and takes the bytes that its `Read`s and its channel do. -/
theorem setConn (h : Local p rec que snt) {r : Ref} {c c' : Connection} (hr : p.conn r = some c)
    (hid : c'.connID = c.connID) {rec' que' : Int → Bytes}
    (hrec : ∀ k, k ≠ c.connID → rec' k = rec k) (hque : ∀ k, k ≠ c.connID → que' k = que k)
    (hflow : rec' c.connID ++ c'.readBuf ++ c'.buf.flatten = que' c.connID) :
    Local (p.setConn r c') rec' que' snt where
  inj := by
    intro r₁ r₂ c₁ c₂ h₁ h₂ he
    rcases Peer.conn_setConn_cases hr h₁ with ⟨rfl, rfl⟩ | ⟨-, h₁'⟩ <;>
      rcases Peer.conn_setConn_cases hr h₂ with ⟨rfl, rfl⟩ | ⟨-, h₂'⟩
    · rfl
    · exact h.inj hr h₂' (hid.symm.trans he)
    · exact h.inj h₁' hr (he.trans hid)
    · exact h.inj h₁' h₂' he
  conns := by
    intro k r' hk
    obtain ⟨d, hd, rfl⟩ := h.conns hk
    exact Peer.conn_setConn_id hr hid hd
  serving := by
    intro k r' hk
    obtain ⟨d, hd, rfl⟩ := h.serving hk
    exact Peer.conn_setConn_id hr hid hd
  flow := by
    intro r' d hd
    rcases Peer.conn_setConn_cases hr hd with ⟨rfl, rfl⟩ | ⟨hne, hd'⟩
    · rw [hid]
      exact hflow
    · have hk : d.connID ≠ c.connID := fun he => hne (h.inj hd' hr he)
      rw [hrec _ hk, hque _ hk]
      exact h.flow hd'
  absent := by
    intro k hk
    have hk' : ¬ p.Has k := by
      rintro ⟨r', d, hd, rfl⟩
      by_cases hrr : r' = r
      · subst hrr
        rw [hd, Option.some.injEq] at hr
        subst hr
        exact hk ⟨r', c', Peer.conn_setConn_self hd, hid⟩
      · exact hk ⟨r', d, (Peer.conn_setConn_ne hrr).trans hd, rfl⟩
    have hne : k ≠ c.connID := fun he => hk' ⟨r, c, hr, he.symm⟩
    rw [hrec _ hne, hque _ hne]
    exact h.absent hk'
  writes := h.writes
  busy := h.busy
  handed := fun hr => by simpa [Peer.setConn] using h.handed hr
  dials := fun hd => by simpa [Peer.setConn] using h.dials hd

/-- A connection with an id of its own comes to the heap. -/
theorem append (h : Local p rec que snt) {q : Peer} {k : Int} {proto address : Bytes}
    (hk : ¬ p.Has k) (hq : q.heap = p.heap ++ [newConnection k proto address])
    (hconns : ∀ {k' r}, q.session.conns.get k' = some r →
      p.session.conns.get k' = some r ∨ (k' = k ∧ r = p.heap.length))
    (hserve : q.serve = p.serve) (htasks : q.tasks = p.tasks)
    (hhanded : ∀ {r}, r ∈ q.handed ↔ r ∈ p.handed ∨ (r = p.heap.length ∧ q.dialing = p.dialing))
    (hdial : ∀ {r d}, q.dialing.get r = some d → p.dialing.get r = some d ∨
      (r = p.heap.length ∧ q.handed = p.handed)) :
    Local q rec que snt where
  inj := by
    intro r₁ r₂ c₁ c₂ h₁ h₂ he
    rcases Peer.conn_append_cases hq h₁ with h₁' | ⟨rfl, rfl⟩ <;>
      rcases Peer.conn_append_cases hq h₂ with h₂' | ⟨rfl, rfl⟩
    · exact h.inj h₁' h₂' he
    · exact absurd ⟨r₁, c₁, h₁', he⟩ hk
    · exact absurd ⟨r₂, c₂, h₂', he.symm⟩ hk
    · rfl
  conns := by
    intro k' r hr
    rcases hconns hr with hr | ⟨rfl, rfl⟩
    · obtain ⟨c, hc, rfl⟩ := h.conns hr
      exact ⟨c, Peer.conn_append_old hq hc, rfl⟩
    · exact ⟨_, Peer.conn_append_new hq, rfl⟩
  serving := by
    intro k' r hr
    rw [hserve] at hr
    obtain ⟨c, hc, rfl⟩ := h.serving hr
    exact ⟨c, Peer.conn_append_old hq hc, rfl⟩
  flow := by
    intro r c hc
    rcases Peer.conn_append_cases hq hc with hc' | ⟨rfl, rfl⟩
    · exact h.flow hc'
    · obtain ⟨h1, h2, -⟩ := h.absent hk
      simp only [newConnection] at h1 h2 ⊢
      rw [h1, h2]
      rfl
  absent := by
    intro k' hk'
    refine h.absent ?_
    rintro ⟨r, c, hc, rfl⟩
    exact hk' ⟨r, c, Peer.conn_append_old hq hc, rfl⟩
  writes := by
    intro r d b hm
    rw [htasks] at hm
    exact hhanded.2 (.inl (h.writes hm))
  busy := by
    rw [hserve]
    exact h.busy
  handed := by
    intro r hr
    rw [hq, List.length_append, List.length_singleton]
    rcases hhanded.1 hr with hr | ⟨rfl, -⟩
    · exact Nat.lt_succ_of_lt (h.handed hr)
    · exact Nat.lt_succ_self _
  dials := by
    intro r d hr
    rw [hq, List.length_append, List.length_singleton]
    rcases hdial hr with hd | ⟨rfl, hsame⟩
    · obtain ⟨hlt, hn⟩ := h.dials hd
      refine ⟨Nat.lt_succ_of_lt hlt, fun hm => ?_⟩
      rcases hhanded.1 hm with hm | ⟨rfl, -⟩
      · exact hn hm
      · exact absurd hlt (lt_irrefl _)
    · refine ⟨Nat.lt_succ_self _, fun hm => ?_⟩
      rw [hsame] at hm
      exact absurd (h.handed hm) (lt_irrefl _)

theorem wrote (h : Local p rec que snt) {r : Ref} {c : Connection} (hr : p.conn r = some c)
    (b : Bytes) : Local p rec que fun k => snt k ++ Event.wroteOn k (.wrote c.connID b) :=
  { h with
    absent := by
      intro k hk
      have hne : c.connID ≠ k := fun he => hk ⟨r, c, hr, he⟩
      simpa [Event.wroteOn, hne] using h.absent hk }

end Local

/-- What the events of a step add to what `f` gives for each connection id. -/
def extend (g : Int → Bytes) (f : Int → Event → Bytes) (events : List Event) : Int → Bytes :=
  fun k => g k ++ events.flatMap (f k)

@[simp] theorem extend_nil (g : Int → Bytes) (f : Int → Event → Bytes) : extend g f [] = g := by
  funext k
  simp [extend]

theorem extend_of_silent {f : Int → Event → Bytes} {v : Event} (h : ∀ k, f k v = [])
    (g : Int → Bytes) : extend g f [v] = g := by
  funext k
  simp [extend, h]

/-- A side with its events: what its `Read`s returned, its channels took and its `Write`s wrote. -/
def LocalAfter (rec que snt : Int → Bytes) (e : Effect) : Prop :=
  Local e.peer (extend rec Event.readOn e.events) (extend que Event.queuedOn e.events)
    (extend snt Event.wroteOn e.events)

theorem localAfter_silent {q : Peer} {out : List Message} :
    LocalAfter rec que snt { peer := q, out } ↔ Local q rec que snt := by
  simp [LocalAfter]

namespace Local

variable {c : Connection} {r : Ref}

/-- One step of an operation keeps a side's invariant, and leaves the rest to do that is no
`Write`. -/
theorem taskStep (h : Local p rec que snt) {id : Int} {t : Task} {e : Effect} {t' : Option Task}
    (he : p.Tasks id t e t') :
    LocalAfter rec que snt e ∧ e.peer.tasks = p.tasks ∧ e.peer.serve = p.serve
      ∧ ∀ {r d b}, t' ≠ some (.write r d b) := by
  cases he with
  | @write r c hc deadline b =>
    refine ⟨?_, rfl, rfl, by simp⟩
    have hsnt : (fun k => snt k ++ Event.wroteOn k (.wrote c.connID b))
        = extend snt Event.wroteOn [.wrote c.connID b] := by
      funext k
      simp [extend]
    have := h.wrote hc b
    rw [hsnt] at this
    simp only [LocalAfter]
    rwa [extend_of_silent fun _ => rfl, extend_of_silent fun _ => rfl]
  | closeConnection k err =>
    refine ⟨localAfter_silent.2 (h.setConns fun {k' r} hk => .inl ?_), rfl, rfl, by simp⟩
    rw [SortedMap.get_erase] at hk
    split_ifs at hk
    exact hk
  | @doTunnelClose r c hc err =>
    refine ⟨localAfter_silent.2 (h.setConn hc (c.connID_doTunnelClose err) (fun _ _ => rfl)
      (fun _ _ => rfl) ?_), rfl, rfl, by simp⟩
    have hflow := h.flow hc
    unfold Connection.doTunnelClose
    split_ifs <;> exact hflow
  | tunnelClose | writeErr | notFound => exact ⟨localAfter_silent.2 h, rfl, rfl, by simp⟩

/-- What `Read` returns comes off the front of what the connection holds, and an error only when
it holds nothing. -/
theorem read_spec {c' : Connection} {n : ℕ} {res : Except Err Bytes}
    (h : c.read n = some (c', res)) :
    c'.connID = c.connID ∧ (∀ b, res = .ok b →
        b ++ c'.readBuf ++ c'.buf.flatten = c.readBuf ++ c.buf.flatten)
      ∧ ∀ e, res = .error e → c' = c ∧ c.readBuf = [] ∧ c.buf = [] := by
  unfold Connection.read at h
  by_cases h0 : n = 0
  · simp only [h0, if_true, Option.some.injEq, Prod.mk.injEq] at h
    obtain ⟨rfl, rfl⟩ := h
    simp
  rw [if_neg h0] at h
  by_cases h1 : (c.copyData n).1 ≠ []
  · rw [if_pos h1] at h
    simp only [Option.some.injEq, Prod.mk.injEq] at h
    obtain ⟨rfl, rfl⟩ := h
    refine ⟨rfl, fun b hb => ?_, fun e he => by simp at he⟩
    simp only [Except.ok.injEq] at hb
    subst hb
    simp [Connection.copyData]
  · rw [if_neg h1] at h
    have hempty : c.readBuf = [] := by
      simpa [Connection.copyData, List.take_eq_nil_iff, h0] using h1
    split at h
    · rename_i next rest hbuf
      simp only [Option.some.injEq, Prod.mk.injEq] at h
      obtain ⟨rfl, rfl⟩ := h
      refine ⟨rfl, fun b hb => ?_, fun e he => by simp at he⟩
      simp only [Except.ok.injEq] at hb
      subst hb
      simp [Connection.copyData, hempty, hbuf]
    · rename_i hbuf
      split_ifs at h
      simp only [Option.some.injEq, Prod.mk.injEq] at h
      obtain ⟨rfl, rfl⟩ := h
      exact ⟨rfl, fun b hb => by simp at hb, fun e _ => ⟨rfl, hempty, hbuf⟩⟩

theorem read (h : Local p rec que snt) {n : ℕ} {c' : Connection} {b : Bytes}
    (hc : p.conn r = some c) (hread : c.read n = some (c', .ok b)) :
    LocalAfter rec que snt { peer := p.setConn r c', events := [.read c.connID b] } := by
  have hflow := h.flow hc
  obtain ⟨hid, hb, -⟩ := read_spec hread
  have hb := hb b rfl
  simp only [LocalAfter]
  rw [extend_of_silent (f := Event.queuedOn) fun _ => rfl,
    extend_of_silent (f := Event.wroteOn) fun _ => rfl]
  refine h.setConn hc hid (fun k hk => ?_) (fun _ _ => rfl) ?_
  · simp [extend, Event.readOn, Ne.symm hk]
  · simp only [extend, List.flatMap_cons, List.flatMap_nil, List.append_nil, Event.readOn,
      if_true]
    rw [List.append_assoc, List.append_assoc, ← List.append_assoc b, hb, ← List.append_assoc]
    exact hflow

theorem readFailed (h : Local p rec que snt) {n : ℕ} {c' : Connection} {err : Err}
    (hc : p.conn r = some c) (hread : c.read n = some (c', .error err)) :
    LocalAfter rec que snt { peer := p.setConn r c', events := [.readFailed c.connID err] } := by
  obtain ⟨-, -, herr⟩ := read_spec hread
  obtain ⟨rfl, -, -⟩ := herr err rfl
  simp only [LocalAfter]
  rw [extend_of_silent fun _ => rfl, extend_of_silent fun _ => rfl,
    extend_of_silent fun _ => rfl]
  exact h.setConn hc rfl (fun _ _ => rfl) (fun _ _ => rfl) (h.flow hc)

theorem clientConnect (h : Local p rec que snt) {m : Message} (hm : ¬ p.Has m.connID) :
    Local (p.clientConnect m) rec que snt := by
  refine h.append hm rfl (fun {k r} hk => ?_) rfl rfl (fun {r} => ?_) (fun hd => .inl hd)
  · simp only [Peer.clientConnect, Peer.setConns, SortedMap.get_set] at hk
    split_ifs at hk with hkm
    · exact .inr ⟨hkm, by simpa using hk.symm⟩
    · exact .inl hk
  · simp only [Peer.clientConnect, Peer.setConns, List.mem_cons, and_true]
    exact or_comm

theorem served (h : Local p rec que snt) {m : Message} {q : Peer} (hq : p.Served m q)
    (hcon : m.messageType = .connect → p.session.auth ≠ none → ¬ p.Has m.connID) :
    Local q rec que snt := by
  cases hq with
  | connect hm ha => exact h.clientConnect (hcon hm ha)
  | copy hm hr =>
    refine h.retask .inl (fun {k r'} ht => ?_) (by simp)
    simp only [Serve.target, Option.some.injEq, Prod.mk.injEq] at ht
    obtain ⟨rfl, rfl⟩ := ht
    exact h.conns hr
  | other hc hn ha ht hb hd =>
    have h' := h.retask .inl (by simp [ht]) hb
    exact { h' with conns := fun hk => h'.conns (hc ▸ hk) }

/-- A chunk goes into the channel of the connection the serving goroutine copies to. -/
theorem queue (h : Local p rec que snt) (hc : p.conn r = some c) (chunk rest : Bytes) :
    LocalAfter rec que snt
      { peer := { p.setConn r { c with buf := c.buf ++ [chunk] } with
                  serve := .copying c.connID r rest }
        events := [.queued c.connID chunk] } := by
  simp only [LocalAfter]
  rw [extend_of_silent (f := Event.readOn) fun _ => rfl,
    extend_of_silent (f := Event.wroteOn) fun _ => rfl]
  have hset : Local (p.setConn r { c with buf := c.buf ++ [chunk] }) rec
      (extend que Event.queuedOn [.queued c.connID chunk]) snt := by
    refine h.setConn hc ?_ (fun _ _ => rfl) (fun k hk => ?_) ?_
    · rfl
    · simp [extend, Event.queuedOn, Ne.symm hk]
    · simp [extend, Event.queuedOn, ← h.flow hc]
  refine hset.retask .inl (fun {k r'} ht => ?_) (by simp)
  simp only [Serve.target, Option.some.injEq, Prod.mk.injEq] at ht
  obtain ⟨rfl, rfl⟩ := ht
  exact ⟨_, Peer.conn_setConn_self hc, rfl⟩

theorem inserts (h : Local p rec que snt) {deadline : Int}
    (hd : p.dialing.get r = some (.insert deadline)) (hc : p.conn r = some c) :
    Local { p.setConns (p.session.conns.set c.connID r) with
      dialing := p.dialing.set r (.send deadline) } rec que snt := by
  have hset : Local (p.setConns (p.session.conns.set c.connID r)) rec que snt := by
    refine h.setConns fun {k r'} hk => ?_
    rw [SortedMap.get_set] at hk
    split_ifs at hk with hkc
    · simp only [Option.some.injEq] at hk
      subst hkc hk
      exact .inr ⟨c, hc, rfl⟩
    · exact .inl hk
  refine { hset with dials := fun {r' d'} hr' => ?_ }
  rw [SortedMap.get_set] at hr'
  split_ifs at hr' with hrr
  · subst hrr
    exact h.dials hd
  · exact h.dials hr'

theorem announces (h : Local p rec que snt) (hc : p.conn r = some c) :
    Local { p with dialing := p.dialing.erase r, handed := r :: p.handed } rec que snt := by
  refine { h with
    writes := fun hw => List.mem_cons_of_mem _ (h.writes hw)
    handed := fun hr' => ?_
    dials := fun hr' => ?_ }
  · rcases List.mem_cons.1 hr' with rfl | hr'
    · exact Peer.lt_of_conn hc
    · exact h.handed hr'
  · rw [SortedMap.get_erase] at hr'
    split_ifs at hr' with hrr
    obtain ⟨hlt, hn⟩ := h.dials hr'
    exact ⟨hlt, fun hm => (List.mem_cons.1 hm).elim hrr hn⟩

theorem serverConnect (h : Local p rec que snt) (hnew : ¬ p.Has (p.session.nextConnID + 1))
    (deadline : Int) (proto address : Bytes) :
    Local (p.serverConnect deadline proto address) rec que snt := by
  refine h.append hnew rfl (fun hk => .inl hk) rfl rfl (fun {r} => ?_) fun {r d} hd => ?_
  · refine ⟨fun hr => .inl hr, fun hr => hr.elim id fun hr => ?_⟩
    have := congrArg (fun m => m.get p.heap.length) hr.2
    simp only [Peer.serverConnect, SortedMap.get_set_self] at this
    exact absurd (h.dials this.symm).1 (lt_irrefl _)
  · simp only [Peer.serverConnect, SortedMap.get_set] at hd
    split_ifs at hd with hr
    · exact .inr ⟨hr, rfl⟩
    · exact .inl hd

/-- An operation starts; a `Write`, on a connection the application has. -/
theorem begin (h : Local p rec que snt) {t : Task}
    (ht : ∀ {r d b}, t = .write r d b → r ∈ p.handed) :
    Local { p with tasks := t :: p.tasks } rec que snt := by
  refine h.retask (fun hm => ?_) h.serving h.busy
  rcases List.mem_cons.1 hm with hm | hm
  · exact .inr (ht hm.symm)
  · exact .inl hm

/-- Every step of a side keeps the side's own invariant, if the ids it gives new connections are
new to it. -/
theorem step (h : Local p rec que snt) {a : Action} {e : Effect}
    (hnew : (∃ d x y, a = .serverConnect d x y) → ¬ p.Has (p.session.nextConnID + 1))
    (hcon : ∀ {m rest}, p.inbox = m :: rest → m.messageType = .connect →
      p.session.auth ≠ none → ¬ p.Has m.connID)
    (he : p.step a = some e) : LocalAfter rec que snt e := by
  cases Peer.steps_of_step he with
  | serverConnect d x y =>
    exact localAfter_silent.2 (h.serverConnect (hnew ⟨d, x, y, rfl⟩) d x y)
  | inserts hd hc => exact localAfter_silent.2 (h.inserts hd hc)
  | announces _ hc => exact localAfter_silent.2 (h.announces hc)
  | writeFails =>
    simp only [LocalAfter]
    rwa [extend_of_silent fun _ => rfl, extend_of_silent fun _ => rfl,
      extend_of_silent fun _ => rfl]
  | writes hr =>
    refine localAfter_silent.2 (h.begin fun ht => ?_)
    cases ht
    exact hr
  | reads hc hread => exact h.read hc hread
  | readFails hc hread => exact h.readFailed hc hread
  | close | tunnelClose | doTunnelClose | writeErr => exact localAfter_silent.2 (h.begin (by simp))
  | task hi ht =>
    obtain ⟨hl, htasks, -, ht'⟩ := h.taskStep ht
    refine Local.retask hl (fun hm => .inl ?_) (Local.serving hl) (Local.busy hl)
    rcases List.mem_append.1 hm with hm | hm
    · exact absurd (Option.mem_toList.1 hm) ht'
    · exact List.mem_of_mem_eraseIdx hm
  | @serves _ _ m inbox hs hin =>
    have h' : Local { p with inbox } rec que snt := { h with }
    exact localAfter_silent.2 (h'.served (Peer.serveMessage_served hs) (hcon hin))
  | copied => exact localAfter_silent.2 (h.retask .inl (by simp [Serve.target]) (by simp))
  | copyFails => exact localAfter_silent.2 (h.retask .inl (by simp [Serve.target]) (by simp))
  | copies hs _ hc =>
    obtain ⟨c', hc', rfl⟩ := h.serving (by rw [hs]; rfl)
    cases hc.symm.trans hc'
    exact h.queue hc _ _
  | fills hs =>
    refine localAfter_silent.2 (h.retask .inl (fun {k r'} ht => ?_) (by simp))
    simp only [Serve.target, Option.some.injEq, Prod.mk.injEq] at ht
    obtain ⟨rfl, rfl⟩ := ht
    exact h.serving (by rw [hs]; rfl)
  | sends hs hc =>
    obtain ⟨c', hc', rfl⟩ := h.serving (by rw [hs]; rfl)
    cases hc.symm.trans hc'
    exact h.queue hc _ _
  | @busy _ _ t e' t' hs ht =>
    obtain ⟨hl, -, -, ht'⟩ := h.taskStep ht
    refine Local.retask hl .inl ?_ ?_
    · cases t' <;> simp [Serve.target]
    · intro r d b hb
      cases t' with
      | none => simp at hb
      | some t' => simp only [Option.elim_some, Serve.busy.injEq] at hb; exact ht' (by rw [hb])
  | timeout => exact localAfter_silent.2 (h.retask .inl (by simp [Serve.target]) (by simp))

end Local

end Local

end Norman.Remotedialer
