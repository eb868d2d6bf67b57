import Norman.Proofs.TunnelSide

/-!
# What one side gets of the other side's writes

The other side's data comes through the side's queue. While the side has the connection in `conns`
and is not about to close it, nothing was dropped: what went into the channel, what the serving
goroutine is copying and what is still in the queue is all that was written (`Pipe.live`). After
that, what went into the channel stays a first part of what was written (`Pipe.start`).
-/

namespace Norman.Remotedialer

/-- The bytes of the data messages for connection `k`. -/
def dataFor (k : Int) (ms : List Message) : Bytes :=
  ms.flatMap fun m => if m.messageType = .data ∧ m.connID = k then m.bytes else []

@[simp] theorem dataFor_nil (k : Int) : dataFor k [] = [] := rfl

@[simp] theorem dataFor_append (k : Int) (ms ms' : List Message) :
    dataFor k (ms ++ ms') = dataFor k ms ++ dataFor k ms' := by
  simp [dataFor]

theorem dataFor_cons (k : Int) (m : Message) (ms : List Message) :
    dataFor k (m :: ms)
      = (if m.messageType = .data ∧ m.connID = k then m.bytes else []) ++ dataFor k ms := by
  simp [dataFor]

@[simp] theorem dataFor_errorMessages (k id connID : Int) (err : Option Err) :
    dataFor k (Peer.errorMessages id connID err) = [] := by
  cases err <;> simp [Peer.errorMessages, dataFor, newErrorMessage]

namespace Serve

/-- The bytes the serving goroutine still has for a connection. -/
def pending (r : Ref) : Serve → Bytes
  | .copying _ r' rest => if r' = r then rest else []
  | .sending _ r' chunk rest => if r' = r then chunk ++ rest else []
  | _ => []

@[simp] theorem pending_copying (r r' : Ref) (k : Int) (rest : Bytes) :
    (copying k r' rest).pending r = if r' = r then rest else [] := rfl

@[simp] theorem pending_sending (r r' : Ref) (k : Int) (chunk rest : Bytes) :
    (sending k r' chunk rest).pending r = if r' = r then chunk ++ rest else [] := rfl

theorem pending_of_target {s : Serve} {r : Ref} (h : ∀ k, s.target ≠ some (k, r)) :
    s.pending r = [] := by
  cases s with
  | copying k r' rest =>
    have : r' ≠ r := fun e => h k (by simp [target, e])
    simp [pending, this]
  | sending k r' chunk rest =>
    have : r' ≠ r := fun e => h k (by simp [target, e])
    simp [pending, this]
  | _ => rfl

end Serve

/-- The side takes the data for connection `k` to `r`. -/
def Peer.Live (p : Peer) (k : Int) (r : Ref) : Prop :=
  p.session.conns.get k = some r ∧ ∀ e, p.serve ≠ .busy (.closeConnection k e)

/-- The steps of operations put nothing into a channel. -/
theorem Peer.Tasks.queues {p : Peer} {id : Int} {t : Task} {e : Effect} {t' : Option Task}
    (h : p.Tasks id t e t') (k : Int) : e.events.flatMap (Event.queuedOn k) = [] := by
  cases h <;> rfl

section Pipe

/-- How a side stands with what was written on the other side: `wrt k` on connection `k`. -/
structure Pipe (p : Peer) (que wrt : Int → Bytes) : Prop where
  start : ∀ {r c}, p.conn r = some c → que c.connID ++ p.serve.pending r <+: wrt c.connID
  live : ∀ {r c}, p.conn r = some c → p.Live c.connID r →
    que c.connID ++ p.serve.pending r ++ dataFor c.connID p.inbox = wrt c.connID

variable {p q : Peer} {rec que que' snt wrt : Int → Bytes}

namespace Pipe

/-- A step that opens no connection and drops no data but at a connection it stops serving. -/
theorem of (h : Pipe p que wrt)
    (hq : ∀ {r c'}, q.conn r = some c' → ∃ c, p.conn r = some c ∧ c.connID = c'.connID
      ∧ que' c.connID ++ q.serve.pending r <+: que c.connID ++ p.serve.pending r
      ∧ (q.Live c.connID r → p.Live c.connID r
        ∧ que' c.connID ++ q.serve.pending r ++ dataFor c.connID q.inbox
          = que c.connID ++ p.serve.pending r ++ dataFor c.connID p.inbox)) :
    Pipe q que' wrt where
  start := by
    intro r c' hc'
    obtain ⟨c, hc, hid, hpre, -⟩ := hq hc'
    rw [← hid]
    exact hpre.trans (h.start hc)
  live := by
    intro r c' hc' hl
    obtain ⟨c, hc, hid, -, hlive⟩ := hq hc'
    rw [← hid] at hl ⊢
    obtain ⟨hl', heq⟩ := hlive hl
    rw [heq]
    exact h.live hc hl'

/-- The serving goroutine goes on to something that copies nothing. -/
theorem reserve (h : Pipe p que wrt) {tasks : List Task} {serve : Serve} (ht : serve.target = none)
    (hs : ∀ {k r}, p.serve.target = some (k, r) → p.serve.pending r ≠ [] →
      ∃ e, serve = .busy (.closeConnection k e))
    (hl : ∀ {r c}, p.conn r = some c → Peer.Live { p with tasks, serve } c.connID r →
      p.Live c.connID r)
    (hid : ∀ {k r}, p.serve.target = some (k, r) → ∃ c, p.conn r = some c ∧ c.connID = k) :
    Pipe { p with tasks, serve } que wrt := by
  have hp : ∀ r, serve.pending r = [] := fun r => Serve.pending_of_target fun k => by simp [ht]
  refine h.of fun {r c} hc => ⟨c, hc, rfl, ?_, fun hlive => ⟨hl hc hlive, ?_⟩⟩
  · simp only [hp, List.append_nil]
    exact List.prefix_append _ _
  · suffices hr : p.serve.pending r = [] by simp [hp, hr]
    by_contra hne
    obtain ⟨k, hk⟩ : ∃ k, p.serve.target = some (k, r) := by
      by_contra hno
      push Not at hno
      exact hne (Serve.pending_of_target hno)
    obtain ⟨e, he⟩ := hs hk hne
    obtain ⟨c', hc', rfl⟩ := hid hk
    obtain rfl : c = c' := by simpa using hc.symm.trans hc'
    exact hlive.2 e he

theorem setConn (h : Pipe p que wrt) {r : Ref} {c c' : Connection} (hr : p.conn r = some c)
    (hid : c'.connID = c.connID) : Pipe (p.setConn r c') que wrt := by
  refine h.of fun {r' d} hd => ?_
  rcases Peer.conn_setConn_cases hr hd with ⟨rfl, rfl⟩ | ⟨-, hd'⟩
  · exact ⟨c, hr, hid.symm, List.prefix_rfl, fun hl => ⟨hl, rfl⟩⟩
  · exact ⟨d, hd', rfl, List.prefix_rfl, fun hl => ⟨hl, rfl⟩⟩

theorem eraseConns (h : Pipe p que wrt) (k : Int) :
    Pipe (p.setConns (p.session.conns.erase k)) que wrt := by
  refine h.of fun {r c} hc => ⟨c, hc, rfl, List.prefix_rfl, fun hl => ⟨⟨?_, hl.2⟩, rfl⟩⟩
  have := hl.1
  simp only [Peer.setConns, SortedMap.get_erase] at this
  split_ifs at this
  exact this

/-- A connection with an id of its own comes to the heap; if the side serves it, what was written
is still in the queue. -/
theorem append (h : Pipe p que wrt) (hl : Local p rec que snt) {k : Int} {proto address : Bytes}
    (hk : ¬ p.Has k) (hq : q.heap = p.heap ++ [newConnection k proto address])
    (hconns : ∀ {k' r}, q.session.conns.get k' = some r →
      p.session.conns.get k' = some r ∨ (k' = k ∧ r = p.heap.length ∧ dataFor k q.inbox = wrt k))
    (hserve : q.serve = p.serve)
    (hin : ∀ {k'}, k' ≠ k → dataFor k' q.inbox = dataFor k' p.inbox) : Pipe q que wrt := by
  have hnone : ∀ c, p.conn p.heap.length ≠ some c := fun c hc =>
    absurd (Peer.lt_of_conn hc) (lt_irrefl _)
  have hpend : q.serve.pending p.heap.length = [] := by
    rw [hserve]
    refine Serve.pending_of_target fun k' ht => ?_
    obtain ⟨c, hc, -⟩ := hl.serving ht
    exact hnone c hc
  refine ⟨fun {r c} hc => ?_, fun {r c} hc hlive => ?_⟩
  · rcases Peer.conn_append_cases hq hc with hc' | ⟨rfl, rfl⟩
    · rw [hserve]
      exact h.start hc'
    · rw [hpend]
      simp [newConnection, (hl.absent hk).2.1]
  · rcases Peer.conn_append_cases hq hc with hc' | ⟨rfl, rfl⟩
    · have hne : c.connID ≠ k := fun he => hk ⟨r, c, hc', he⟩
      rcases hconns hlive.1 with hg | ⟨he, -⟩
      · rw [hserve, hin hne]
        exact h.live hc' ⟨hg, fun e => hserve ▸ hlive.2 e⟩
      · exact absurd he hne
    · rw [hpend]
      rcases hconns hlive.1 with hg | ⟨-, -, hd⟩
      · obtain ⟨c, hc, -⟩ := hl.conns hg
        exact absurd hc (hnone c)
      · simpa [newConnection, (hl.absent hk).2.1] using hd

theorem taskStep (h : Pipe p que wrt) {id : Int} {t : Task} {e : Effect} {t' : Option Task}
    (he : p.Tasks id t e t') : Pipe e.peer que wrt := by
  cases he with
  | closeConnection k err => exact h.eraseConns k
  | doTunnelClose hc err => exact h.setConn hc (Connection.connID_doTunnelClose _ err)
  | write | tunnelClose | writeErr | notFound => exact h

/-- The message at the head of the queue is served. -/
theorem served (h : Pipe p que wrt) (hl : Local p rec que snt) {m : Message} {rest : List Message}
    (hw : p.serve = .waiting) (hin : p.inbox = m :: rest)
    (hq : Peer.Served { p with inbox := rest } m q)
    (hcon : m.messageType = .connect → p.session.auth ≠ none →
      ¬ p.Has m.connID ∧ dataFor m.connID rest = wrt m.connID) : Pipe q que wrt := by
  have hdata : ∀ k, ¬ (m.messageType = .data ∧ m.connID = k) →
      dataFor k rest = dataFor k p.inbox := fun k hk => by simp [hin, dataFor_cons, hk]
  have hpend : ∀ r, p.serve.pending r = [] := fun r => by simp [hw, Serve.pending]
  cases hq with
  | connect hm ha =>
    obtain ⟨hk, hd⟩ := hcon hm ha
    refine h.append hl hk rfl (fun {k r} hr => ?_) rfl
      fun {k} _ => hdata k (by simp [hm])
    simp only [Peer.clientConnect, Peer.setConns, SortedMap.get_set] at hr
    split_ifs at hr with hkm
    · exact .inr ⟨hkm, by simpa using hr.symm, hd⟩
    · exact .inl hr
  | @copy r hm hr =>
    have hlive : p.Live m.connID r := ⟨hr, by simp [hw]⟩
    refine ⟨fun {r' c} hc => ?_, fun {r' c} hc hl' => ?_⟩
    · by_cases hrr : r = r'
      · subst hrr
        obtain ⟨c', hc', hid⟩ := hl.conns hr
        obtain rfl : c = c' := by simpa using hc.symm.trans hc'
        have := h.live hc (hid ▸ hlive)
        simp only [hpend, List.append_nil, hin, dataFor_cons, hm, hid, and_self, if_true] at this
        simp only [Serve.pending, if_true, hid]
        exact ⟨_, by rw [← this, List.append_assoc]⟩
      · simp only [Serve.pending, if_neg hrr]
        have := h.start hc
        rwa [hpend] at this
    · have hl'' : p.Live c.connID r' := ⟨hl'.1, by simp [hw]⟩
      have := h.live hc hl''
      rw [hpend, List.append_nil, hin, dataFor_cons] at this
      by_cases hrr : r = r'
      · subst hrr
        obtain ⟨c', hc', hid⟩ := hl.conns hr
        obtain rfl : c = c' := by simpa using hc.symm.trans hc'
        simpa [Serve.pending, hm, hid] using this
      · have hne : m.connID ≠ c.connID := fun he => by
          rw [he] at hr
          have := hr.symm.trans hl'.1
          exact hrr (by simpa using this)
        simpa [Serve.pending, hrr, hne] using this
  | @other session serve hc hn ha ht hb hd =>
    have hp : ∀ r, serve.pending r = [] := fun r => Serve.pending_of_target fun k => by simp [ht]
    refine h.of fun {r c} hr => ⟨c, hr, rfl, by simp [hp, hpend], fun hlive => ?_⟩
    have hg : p.session.conns.get c.connID = some r := by
      have := hlive.1
      rwa [hc] at this
    refine ⟨⟨hg, by simp [hw]⟩, ?_⟩
    simp only [hp, hpend, List.append_nil]
    rw [hdata]
    rintro ⟨hm, hid⟩
    have := hd hm
    simp only [hid, hg] at this
    cases this

/-- A chunk goes from the serving goroutine into the channel. -/
theorem queue (h : Pipe p que wrt) (hl : Local p rec que snt) {r : Ref} {c : Connection}
    (hc : p.conn r = some c) {chunk rest : Bytes} (ht : p.serve.target = some (c.connID, r))
    (hs : p.serve.pending r = chunk ++ rest) :
    Pipe { p.setConn r { c with buf := c.buf ++ [chunk] } with serve := .copying c.connID r rest }
      (extend que Event.queuedOn [.queued c.connID chunk]) wrt := by
  have hpend : ∀ r', r' ≠ r → p.serve.pending r' = [] := fun r' hne =>
    Serve.pending_of_target fun k hk => by
      rw [ht, Option.some.injEq, Prod.mk.injEq] at hk
      exact hne hk.2.symm
  have hsum : ∀ {r' c'}, p.conn r' = some c' →
      extend que Event.queuedOn [.queued c.connID chunk] c'.connID
        ++ (Serve.copying c.connID r rest).pending r'
      = que c'.connID ++ p.serve.pending r' := by
    intro r' c' hc'
    by_cases hrr : r' = r
    · subst hrr
      obtain rfl : c = c' := by simpa using hc.symm.trans hc'
      simp [extend, Event.queuedOn, hs]
    · have hne : c.connID ≠ c'.connID := fun he => hrr (hl.inj hc' hc he.symm)
      simp [extend, Event.queuedOn, hne, Ne.symm hrr, hpend r' hrr]
  have hlive : ∀ {k r'}, p.session.conns.get k = some r' → p.Live k r' := fun hg =>
    ⟨hg, fun e he => by rw [he] at ht; simp [Serve.target] at ht⟩
  refine h.of fun {r' c'} hc' => ?_
  rcases Peer.conn_setConn_cases hc hc' with ⟨rfl, rfl⟩ | ⟨-, hc''⟩
  · exact ⟨c, hc, rfl, (hsum hc).symm ▸ List.prefix_rfl, fun hl' =>
      ⟨hlive hl'.1, by rw [hsum hc]; rfl⟩⟩
  · exact ⟨c', hc'', rfl, (hsum hc'').symm ▸ List.prefix_rfl, fun hl' =>
      ⟨hlive hl'.1, by rw [hsum hc'']; rfl⟩⟩

end Pipe

/-- How a side stands with the other side's writes, after a step of its own. -/
def PipeAfter (que wrt : Int → Bytes) (e : Effect) : Prop :=
  Pipe e.peer (extend que Event.queuedOn e.events) wrt

theorem pipeAfter_silent {out : List Message} :
    PipeAfter que wrt { peer := q, out } ↔ Pipe q que wrt := by
  simp [PipeAfter]

namespace Pipe

/-- The serving goroutine goes on with what is left of an operation. -/
theorem busy (h : Pipe p que wrt) (hl : Local p rec que snt) {id : Int} {t : Task} {e : Effect}
    {t' : Option Task} (hs : p.serve = .busy t) (ht : p.Tasks id t e t') :
    PipeAfter que wrt { e with peer := { e.peer with serve := t'.elim .waiting .busy } } := by
  obtain ⟨hloc, htasks, hserve, -⟩ := hl.taskStep ht
  have hque : extend que Event.queuedOn e.events = que := by
    funext k
    simp [extend, ht.queues]
  simp only [PipeAfter, hque]
  refine (h.taskStep ht).reserve ?_ ?_ ?_ ?_
  · cases t' <;> rfl
  · rw [hserve, hs]
    simp [Serve.target]
  · intro r c hc hl'
    refine ⟨hl'.1, fun err hb => ?_⟩
    -- a connection that is being closed is out of the table
    rw [hserve, hs, Serve.busy.injEq] at hb
    subst hb
    have hconn := hl'.1
    cases ht
    simp [Peer.setConns] at hconn
  · exact Local.serving hloc

theorem inserts (h : Pipe p que wrt) (hl : Local p rec que snt) {r : Ref} {deadline : Int}
    {c : Connection} (hc : p.conn r = some c)
    (hdial : wrt c.connID = [] ∧ dataFor c.connID p.inbox = []) :
    Pipe { p.setConns (p.session.conns.set c.connID r) with
      dialing := p.dialing.set r (.send deadline) } que wrt := by
  obtain ⟨h1, h2⟩ := hdial
  have hnil := h.start hc
  rw [h1, List.prefix_nil] at hnil
  refine ⟨h.start, fun {r' c'} hc' hl' => ?_⟩
  by_cases hk : c'.connID = c.connID
  · obtain rfl := hl.inj hc' hc hk
    obtain rfl : c = c' := by simpa using hc.symm.trans hc'
    show que c.connID ++ p.serve.pending r' ++ dataFor c.connID p.inbox = wrt c.connID
    rw [hnil, h1, h2]
    rfl
  · have hg := hl'.1
    simp only [Peer.setConns, SortedMap.get_set, if_neg hk] at hg
    exact h.live hc' ⟨hg, hl'.2⟩

/-- A step of a side keeps it in line with the other side's writes, if the connections it begins to
serve have all that was written on them still in the queue. -/
theorem step (h : Pipe p que wrt) (hl : Local p rec que snt) {a : Action} {e : Effect}
    (hnew : (∃ d x y, a = .serverConnect d x y) → ¬ p.Has (p.session.nextConnID + 1))
    (hcon : ∀ {m rest}, p.inbox = m :: rest → m.messageType = .connect →
      p.session.auth ≠ none → ¬ p.Has m.connID ∧ dataFor m.connID rest = wrt m.connID)
    (hdial : ∀ {r d c}, p.dialing.get r = some (.insert d) → p.conn r = some c →
      wrt c.connID = [] ∧ dataFor c.connID p.inbox = [])
    (he : p.step a = some e) : PipeAfter que wrt e := by
  cases Peer.steps_of_step he with
  | serverConnect d x y =>
    exact pipeAfter_silent.2 (h.append hl (hnew ⟨d, x, y, rfl⟩) rfl (fun hr => .inl hr) rfl
      fun _ => rfl)
  | inserts hd hc => exact pipeAfter_silent.2 (h.inserts hl hc (hdial hd hc))
  | announces => exact pipeAfter_silent.2 { h with }
  | writeFails =>
    simp only [PipeAfter]
    rwa [extend_of_silent fun _ => rfl]
  | reads hc hread | readFails hc hread =>
    simp only [PipeAfter]
    rw [extend_of_silent fun _ => rfl]
    exact h.setConn hc (Local.read_spec hread).1
  | writes | close | tunnelClose | doTunnelClose | writeErr => exact pipeAfter_silent.2 { h with }
  | @task i id t e' t' hi ht =>
    have hque : extend que Event.queuedOn e'.events = que := by
      funext k
      simp [extend, ht.queues]
    simp only [PipeAfter, hque]
    exact { h.taskStep ht with }
  | serves hs hin =>
    exact pipeAfter_silent.2 (h.served hl hs hin (Peer.serveMessage_served hs) (hcon hin))
  | copied hs =>
    refine pipeAfter_silent.2 (h.reserve rfl (fun ht hne => ?_)
      (fun _ hl' => ⟨hl'.1, by simp [hs]⟩) hl.serving)
    simp [hs, Serve.pending] at hne
  | copyFails hs =>
    refine pipeAfter_silent.2 (h.reserve rfl (fun ht _ => ?_)
      (fun _ hl' => ⟨hl'.1, by simp [hs]⟩) hl.serving)
    rw [hs, Serve.target, Option.some.injEq, Prod.mk.injEq] at ht
    exact ⟨_, by rw [ht.1]⟩
  | @copies _ n k r rest c hs _ hc =>
    obtain ⟨c', hc', rfl⟩ := hl.serving (by rw [hs]; rfl)
    cases hc.symm.trans hc'
    exact h.queue hl hc (by rw [hs]; rfl) (by simp [hs, Serve.pending])
  | @fills _ n k r rest hs =>
    refine pipeAfter_silent.2 (h.of fun {r' c'} hc' => ⟨c', hc', rfl, ?_, fun hl' =>
      ⟨⟨hl'.1, by simp [hs]⟩, ?_⟩⟩) <;>
    by_cases hrr : r = r' <;> simp [hs, Serve.pending, hrr]
  | sends hs hc =>
    obtain ⟨c', hc', rfl⟩ := hl.serving (by rw [hs]; rfl)
    cases hc.symm.trans hc'
    exact h.queue hl hc (by rw [hs]; rfl) (by simp [hs, Serve.pending])
  | busy hs ht => exact h.busy hl hs ht
  | timeout hs =>
    refine pipeAfter_silent.2 (h.reserve rfl (fun ht _ => ?_)
      (fun _ hl' => ⟨hl'.1, by simp [hs]⟩) hl.serving)
    rw [hs, Serve.target, Option.some.injEq, Prod.mk.injEq] at ht
    exact ⟨_, by rw [ht.1]⟩

end Pipe

end Pipe

end Norman.Remotedialer
