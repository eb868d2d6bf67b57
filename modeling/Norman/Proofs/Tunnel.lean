import Norman.Lib.Run
import Norman.Proofs.TunnelPipe

/-!
# The tunnel keeps its connections apart and in order

The ids the server gives out are new, so on each side an id stands for one connection. The client's
connection is made from the one `Connect` message for it, which the server writes before it hands
its own connection out: until then nothing was written on it (`Fresh.dial`), and while the message
is on its way all that was written is behind it in the queue (`Fresh.announced`).
-/

namespace Norman.Remotedialer

section Frame

/-- Both sides' connections have the same ids at the same places. -/
def SameIds (p q : Peer) : Prop :=
  ∀ r, (q.conn r).map Connection.connID = (p.conn r).map Connection.connID

variable {p q : Peer}

theorem SameIds.has (h : SameIds p q) (k : Int) : q.Has k ↔ p.Has k := by
  have hmap : ∀ p : Peer, p.Has k ↔ ∃ r, (p.conn r).map Connection.connID = some k := by
    intro p
    simp only [Peer.Has, Option.map_eq_some_iff]
  rw [hmap, hmap]
  exact exists_congr fun r => by rw [h r]

theorem SameIds.conn (h : SameIds p q) {r : Ref} {c' : Connection} (hc : q.conn r = some c') :
    ∃ c, p.conn r = some c ∧ c.connID = c'.connID := by
  have := h r
  rw [hc, Option.map_some] at this
  simpa using this.symm

theorem SameIds.setConn {r : Ref} {c c' : Connection} (hc : p.conn r = some c)
    (hid : c'.connID = c.connID) : SameIds p (p.setConn r c') := by
  intro r'
  by_cases hr : r' = r
  · subst hr
    rw [Peer.conn_setConn_self hc, hc, Option.map_some, Option.map_some, hid]
  · rw [Peer.conn_setConn_ne hr]

/-- A step that opens no connection and writes no `Connect`. The data it writes are its `Write`s, on
connections its application has, and a `Read` that fails finds nothing to read. -/
structure Plain (p : Peer) (e : Effect) : Prop where
  ids : SameIds p e.peer
  next : e.peer.session.nextConnID = p.session.nextConnID
  auth : e.peer.session.auth = p.session.auth
  dialing : ∀ {r d}, e.peer.dialing.get r = some d → ∃ d', p.dialing.get r = some d'
  out : ∀ m ∈ e.out, m.messageType ≠ .connect
  data : ∀ k, dataFor k e.out = e.events.flatMap (Event.wroteOn k)
  mine : ∀ {k}, dataFor k e.out ≠ [] → ∃ r c, r ∈ p.handed ∧ p.conn r = some c ∧ c.connID = k
  failed : ∀ {k err}, .readFailed k err ∈ e.events → e.events = [.readFailed k err]
    ∧ ∃ r c, p.conn r = some c ∧ c.connID = k ∧ c.readBuf = [] ∧ c.buf = []

/-- What a step of one side does to the ids: it takes the next one, it writes the `Connect` of a
connection it made, it opens the connection a `Connect` asks for, or nothing. -/
inductive Frame (p : Peer) : Action → Effect → Prop where
  | dial (d : Int) (x y : Bytes) :
      Frame p (.serverConnect d x y) { peer := p.serverConnect d x y }
  | announce {r : Ref} {id d : Int} {c : Connection} (hd : p.dialing.get r = some (.send d))
      (hc : p.conn r = some c) :
      Frame p (.dial r id)
        { peer := { p with dialing := p.dialing.erase r, handed := r :: p.handed }
          out := [newConnect id c.connID d c.proto c.address] }
  | opened {m : Message} {rest : List Message} {id : Int} {n : ℕ} (hin : p.inbox = m :: rest)
      (hm : m.messageType = .connect) (ha : p.session.auth ≠ none) :
      Frame p (.serve id n) { peer := Peer.clientConnect { p with inbox := rest } m }
  | plain {a : Action} {e : Effect} (h : Plain p e)
      (hin : e.peer.inbox = p.inbox ∨ ∃ m, p.inbox = m :: e.peer.inbox) : Frame p a e

theorem Plain.quiet {events : List Event} (hids : SameIds p q)
    (hn : q.session.nextConnID = p.session.nextConnID) (ha : q.session.auth = p.session.auth)
    (hd : ∀ {r d}, q.dialing.get r = some d → ∃ d', p.dialing.get r = some d')
    (hev : ∀ k, events.flatMap (Event.wroteOn k) = [])
    (hfail : ∀ {k err}, .readFailed k err ∈ events → events = [.readFailed k err]
      ∧ ∃ r c, p.conn r = some c ∧ c.connID = k ∧ c.readBuf = [] ∧ c.buf = []) :
    Plain p { peer := q, events } :=
  ⟨hids, hn, ha, hd, by simp, fun k => (hev k).symm, fun hk => absurd rfl hk, hfail⟩

theorem Plain.errors (id k : Int) (err : Option Err) :
    Plain p { peer := p, out := Peer.errorMessages id k err } :=
  ⟨fun _ => rfl, rfl, rfl, fun hd => ⟨_, hd⟩,
    by cases err <;> simp [Peer.errorMessages, newErrorMessage],
    by simp, by simp, by simp⟩

theorem taskStep_plain {id : Int} {t : Task} {e : Effect} {t' : Option Task}
    (hw : ∀ {r d b}, t = .write r d b → r ∈ p.handed) (he : p.Tasks id t e t') :
    Plain p e ∧ e.peer.inbox = p.inbox := by
  cases he with
  | doTunnelClose hc err =>
    have hids := SameIds.setConn hc (Connection.connID_doTunnelClose _ err)
    exact ⟨.quiet hids rfl rfl (fun hd => ⟨_, hd⟩) (by simp) (by simp), rfl⟩
  | closeConnection =>
    exact ⟨.quiet (fun _ => rfl) rfl rfl (fun hd => ⟨_, hd⟩) (by simp) (by simp), rfl⟩
  | notFound => exact ⟨.errors _ _ (some _), rfl⟩
  | tunnelClose | writeErr => exact ⟨.errors _ _ _, rfl⟩
  | @write r c hc d b =>
    refine ⟨⟨fun _ => rfl, rfl, rfl, fun hd => ⟨_, hd⟩, by simp [newMessage], fun k => ?_,
      fun {k} hk => ⟨r, c, hw rfl, hc, ?_⟩, by simp⟩, rfl⟩
    · simp [dataFor_cons, newMessage, Event.wroteOn]
    · by_contra hne
      simp [dataFor_cons, newMessage, hne] at hk

/-- Neither connections nor dials change, and nothing is written. -/
theorem Frame.same {a : Action} (hids : SameIds p q)
    (hn : q.session.nextConnID = p.session.nextConnID) (ha : q.session.auth = p.session.auth)
    (hd : q.dialing = p.dialing) (hin : q.inbox = p.inbox) : Frame p a { peer := q } :=
  .plain (.quiet hids hn ha (fun h => ⟨_, hd ▸ h⟩) (by simp) (by simp)) (.inl hin)

/-- A chunk goes into the channel of a connection. -/
theorem Frame.queue {a : Action} {r : Ref} {c : Connection} (hc : p.conn r = some c) (k : Int)
    (chunk rest : Bytes) :
    Frame p a
      { peer := { p.setConn r { c with buf := c.buf ++ [chunk] } with serve := .copying k r rest }
        events := [.queued k chunk] } := by
  have hids : SameIds p (p.setConn r { c with buf := c.buf ++ [chunk] }) := .setConn hc rfl
  exact .plain (.quiet hids rfl rfl (fun hd => ⟨_, hd⟩) (by simp [Event.wroteOn]) (by simp))
    (.inl rfl)

/-- The message at the head of the queue is served. -/
theorem Frame.serves {id : Int} {n : ℕ} {m : Message} {rest : List Message}
    (hw : p.serve = .waiting) (hin : p.inbox = m :: rest) :
    Frame p (.serve id n) { peer := Peer.serveMessage { p with inbox := rest } m } := by
  have hs := Peer.serveMessage_served (p := { p with inbox := rest }) (m := m) hw
  generalize Peer.serveMessage { p with inbox := rest } m = q at hs
  cases hs with
  | connect hm ha => exact .opened hin hm ha
  | copy =>
    exact .plain (.quiet (fun _ => rfl) rfl rfl (fun hd => ⟨_, hd⟩) (by simp) (by simp))
      (.inr ⟨m, hin⟩)
  | other _ hn ha =>
    exact .plain (.quiet (fun _ => rfl) hn ha (fun hd => ⟨_, hd⟩) (by simp) (by simp))
      (.inr ⟨m, hin⟩)

theorem Local.step_frame {rec que snt : Int → Bytes} (hl : Local p rec que snt) {a : Action}
    {e : Effect} (he : p.step a = some e) : Frame p a e := by
  cases Peer.steps_of_step he with
  | serverConnect d x y => exact .dial d x y
  | inserts hd hc =>
    refine .plain (.quiet (fun _ => rfl) rfl rfl (fun {r' d'} hr' => ?_) (by simp) (by simp))
      (.inl rfl)
    rw [SortedMap.get_set] at hr'
    split_ifs at hr' with hrr
    · exact ⟨_, hrr ▸ hd⟩
    · exact ⟨_, hr'⟩
  | announces hd hc => exact .announce hd hc
  | writeFails =>
    exact .plain (.quiet (fun _ => rfl) rfl rfl (fun hd => ⟨_, hd⟩) (by simp [Event.wroteOn])
      (by simp)) (.inl rfl)
  | reads hc hread =>
    exact .plain (.quiet (.setConn hc (read_spec hread).1) rfl rfl (fun hd => ⟨_, hd⟩)
      (by simp [Event.wroteOn]) (by simp)) (.inl rfl)
  | @readFails r n c c' err hc hread =>
    refine .plain (.quiet (.setConn hc (read_spec hread).1) rfl rfl (fun hd => ⟨_, hd⟩)
      (by simp [Event.wroteOn]) (fun {k err} hk => ?_)) (.inl rfl)
    simp only [List.mem_singleton, Event.readFailed.injEq] at hk
    obtain ⟨rfl, rfl⟩ := hk
    exact ⟨rfl, r, c, hc, rfl, ((read_spec hread).2.2 _ rfl).2⟩
  | task hi ht =>
    obtain ⟨h, hin⟩ := taskStep_plain (fun hw => hl.writes (hw ▸ List.mem_of_getElem? hi)) ht
    exact .plain { h with } (.inl hin)
  | serves hs hin => exact .serves hs hin
  | copies _ _ hc => exact .queue hc _ _ _
  | sends _ hc => exact .queue hc _ _ _
  | busy hs ht =>
    obtain ⟨h, hin⟩ := taskStep_plain (fun hw => absurd (hw ▸ hs) hl.busy) ht
    exact .plain { h with } (.inl hin)
  | writes | close | tunnelClose | doTunnelClose | writeErr | copied | copyFails | fills
  | timeout => exact .same (fun _ => rfl) rfl rfl rfl rfl

end Frame

section Fresh

/-- How the client `q` stands with the ids of the server `p`, which wrote `snt k` on connection
`k`. -/
structure Fresh (p q : Peer) (snt : Int → Bytes) : Prop where
  auth : p.session.auth = none
  bound : ∀ {k}, p.Has k → k ≤ p.session.nextConnID
  known : ∀ {k}, q.Has k → p.Has k
  asked : ∀ {m}, m ∈ q.inbox → m.messageType = .connect → p.Has m.connID
  waits : ∀ r, q.dialing.get r = none
  dial : ∀ {r d c}, p.dialing.get r = some d → p.conn r = some c →
    ¬ q.Has c.connID ∧ snt c.connID = []
      ∧ ∀ m ∈ q.inbox, m.messageType = .connect → m.connID ≠ c.connID
  announced : ∀ {pre m post}, q.inbox = pre ++ m :: post → m.messageType = .connect →
    ¬ q.Has m.connID ∧ dataFor m.connID post = snt m.connID
      ∧ ∀ m' ∈ pre ++ post, m'.messageType = .connect → m'.connID ≠ m.connID

variable {p q : Peer} {rec que snt : Int → Bytes}

theorem Peer.has_append {c : Connection} (hq : q.heap = p.heap ++ [c]) {k : Int} :
    q.Has k ↔ p.Has k ∨ k = c.connID := by
  constructor
  · rintro ⟨r, d, hd, rfl⟩
    rcases Peer.conn_append_cases hq hd with hd | ⟨-, rfl⟩
    · exact .inl ⟨r, d, hd, rfl⟩
    · exact .inr rfl
  · rintro (⟨r, d, hd, rfl⟩ | rfl)
    · exact ⟨r, d, Peer.conn_append_old hq hd, rfl⟩
    · exact ⟨_, c, Peer.conn_append_new hq, rfl⟩

/-- The id `serverConnect` takes is new to both sides. -/
theorem Fresh.new (h : Fresh p q snt) : ¬ p.Has (p.session.nextConnID + 1) := by
  intro hk
  have := h.bound hk
  omega

theorem Fresh.serverConnect (h : Fresh p q snt) (hl : Local p rec que snt) (d : Int)
    (x y : Bytes) : Fresh (p.serverConnect d x y) q snt := by
  have happ : (p.serverConnect d x y).heap
      = p.heap ++ [newConnection (p.session.nextConnID + 1) x y] := rfl
  refine ⟨h.auth, fun {k} hk => ?_, fun hk => (Peer.has_append happ).2 (.inl (h.known hk)),
    fun hm hc => (Peer.has_append happ).2 (.inl (h.asked hm hc)), h.waits,
    fun {r d' c} hd hc => ?_, h.announced⟩
  · show k ≤ p.session.nextConnID + 1
    rcases (Peer.has_append happ).1 hk with hk | rfl
    · have := h.bound hk
      omega
    · exact le_refl _
  · rcases Peer.conn_append_cases happ hc with hc | ⟨rfl, rfl⟩
    · have hr : r ≠ p.heap.length := (Peer.lt_of_conn hc).ne
      simp only [Peer.serverConnect, SortedMap.get_set, if_neg hr] at hd
      exact h.dial hd hc
    · refine ⟨fun hk => h.new (h.known hk), (hl.absent h.new).2.2, fun m hm hmc hk => h.new ?_⟩
      have hasked := h.asked hm hmc
      rwa [hk] at hasked

/-- A message of a queue that grew is an old one, with the new ones behind it, or a new one. -/
theorem append_split {α : Type*} {old new pre post : List α} {m : α}
    (h : old ++ new = pre ++ m :: post) :
    (∃ rest, old = pre ++ m :: rest ∧ post = rest ++ new)
      ∨ ∃ front, pre = old ++ front ∧ new = front ++ m :: post := by
  rcases List.append_eq_append_iff.1 h with ⟨front, rfl, hnew⟩ | ⟨bs, rfl, hm⟩
  · exact .inr ⟨front, rfl, hnew⟩
  · cases bs with
    | nil => exact .inr ⟨[], by simp, by simpa using hm.symm⟩
    | cons b rest =>
      simp only [List.cons_append, List.cons.injEq] at hm
      obtain ⟨rfl, rfl⟩ := hm
      exact .inl ⟨rest, rfl, rfl⟩

/-- The `Connect` of a connection goes into the client's queue. -/
theorem Fresh.announce (h : Fresh p q snt) (hl : Local p rec que snt) {r : Ref} {d id : Int}
    {c : Connection} (hd : p.dialing.get r = some (.send d)) (hc : p.conn r = some c) :
    Fresh { p with dialing := p.dialing.erase r, handed := r :: p.handed }
      { q with inbox := q.inbox ++ [newConnect id c.connID d c.proto c.address] } snt := by
  obtain ⟨hq, hs, hm⟩ := h.dial hd hc
  refine ⟨h.auth, h.bound, h.known, fun {m} hmem ht => ?_, h.waits, fun {r' d' c'} hd' hc' => ?_,
    fun {pre m post} hsplit ht => ?_⟩
  · rcases List.mem_append.1 hmem with hmem | hmem
    · exact h.asked hmem ht
    · rw [List.mem_singleton.1 hmem]
      exact ⟨r, c, hc, rfl⟩
  · simp only [SortedMap.get_erase] at hd'
    split_ifs at hd' with hr
    obtain ⟨h1, h2, h3⟩ := h.dial hd' hc'
    refine ⟨h1, h2, fun m hmem ht => ?_⟩
    rcases List.mem_append.1 hmem with hmem | hmem
    · exact h3 m hmem ht
    · rw [List.mem_singleton.1 hmem]
      exact fun hid => hr (hl.inj hc' hc hid.symm)
  · rcases append_split hsplit with ⟨rest, hin, rfl⟩ | ⟨front, rfl, hnew⟩
    · obtain ⟨h1, h2, h3⟩ := h.announced hin ht
      refine ⟨h1, by simpa [dataFor_cons, newConnect] using h2, fun m' hm' ht' => ?_⟩
      rw [← List.append_assoc] at hm'
      rcases List.mem_append.1 hm' with hm' | hm'
      · exact h3 m' hm' ht'
      · rw [List.mem_singleton.1 hm']
        exact (hm m (by simp [hin]) ht).symm
    · obtain ⟨rfl, rfl, rfl⟩ : front = [] ∧ newConnect id c.connID d c.proto c.address = m
          ∧ post = [] := by
        cases front <;> simp_all
      exact ⟨hq, hs.symm, by simpa [newConnect] using hm⟩

/-- Any other step of the server: what it writes on a connection goes to the end of the client's
queue. -/
theorem Fresh.server (h : Fresh p q snt) (hl : Local p rec que snt) {e : Effect}
    (hp : Plain p e) :
    Fresh e.peer { q with inbox := q.inbox ++ e.out } (extend snt Event.wroteOn e.events) := by
  refine ⟨hp.auth.trans h.auth, fun hk => ?_, fun hk => (hp.ids.has _).2 (h.known hk),
    fun {m} hmem ht => ?_, h.waits, fun {r d c'} hd hc' => ?_, fun {pre m post} hsplit ht => ?_⟩
  · rw [hp.next]
    exact h.bound ((hp.ids.has _).1 hk)
  · rcases List.mem_append.1 hmem with hmem | hmem
    · exact (hp.ids.has _).2 (h.asked hmem ht)
    · exact absurd ht (hp.out m hmem)
  · obtain ⟨d', hd'⟩ := hp.dialing hd
    obtain ⟨c, hc, hid⟩ := hp.ids.conn hc'
    rw [← hid]
    obtain ⟨h1, h2, h3⟩ := h.dial hd' hc
    refine ⟨h1, ?_, fun m hmem ht => ?_⟩
    · rw [extend, h2, ← hp.data]
      by_contra hne
      obtain ⟨r', c'', hr', hc'', hid'⟩ := hp.mine hne
      exact (hl.dials hd').2 (hl.inj hc'' hc hid' ▸ hr')
    · rcases List.mem_append.1 hmem with hmem | hmem
      · exact h3 m hmem ht
      · exact absurd ht (hp.out m hmem)
  · rcases append_split hsplit with ⟨rest, hin, rfl⟩ | ⟨front, rfl, hnew⟩
    · obtain ⟨h1, h2, h3⟩ := h.announced hin ht
      refine ⟨h1, by rw [dataFor_append, h2, hp.data]; rfl, fun m' hm' ht' => ?_⟩
      rw [← List.append_assoc] at hm'
      rcases List.mem_append.1 hm' with hm' | hm'
      · exact h3 m' hm' ht'
      · exact absurd ht' (hp.out m' hm')
    · exact absurd ht (hp.out m (by simp [hnew]))

/-- The client takes a message off its queue. -/
theorem Fresh.pop (h : Fresh p q snt) {m : Message} {rest : List Message}
    (hin : q.inbox = m :: rest) : Fresh p { q with inbox := rest } snt := by
  refine ⟨h.auth, h.bound, h.known, fun hmem => h.asked (hin ▸ List.mem_cons_of_mem _ hmem),
    h.waits, fun hd hc => ?_, fun {pre m' post} hsplit ht => ?_⟩
  · obtain ⟨h1, h2, h3⟩ := h.dial hd hc
    exact ⟨h1, h2, fun m' hm' => h3 m' (hin ▸ List.mem_cons_of_mem _ hm')⟩
  · have hin' : q.inbox = (m :: pre) ++ m' :: post := hin.trans (congrArg (m :: ·) hsplit)
    obtain ⟨h1, h2, h3⟩ := h.announced hin' ht
    exact ⟨h1, h2, fun m'' hm'' => h3 m'' (List.mem_cons_of_mem _ hm'')⟩

/-- The client opens the connection it is asked for. -/
theorem Fresh.opened (h : Fresh p q snt) {m : Message} {rest : List Message}
    (hin : q.inbox = m :: rest) (ht : m.messageType = .connect) :
    Fresh p (Peer.clientConnect { q with inbox := rest } m) snt := by
  have happ : (Peer.clientConnect { q with inbox := rest } m).heap
      = q.heap ++ [newConnection m.connID m.proto m.address] := rfl
  have hhas := fun k => Peer.has_append happ (k := k)
  have hpop := h.pop hin
  have hasked : p.Has m.connID := h.asked (by simp [hin]) ht
  refine ⟨h.auth, h.bound, fun hk => ?_, hpop.asked, h.waits, fun hd hc => ?_,
    fun {pre m' post} hsplit ht' => ?_⟩
  · rcases (hhas _).1 hk with hk | rfl
    · exact h.known hk
    · exact hasked
  · obtain ⟨h1, h2, h3⟩ := h.dial hd hc
    refine ⟨fun hk => ?_, h2, (hpop.dial hd hc).2.2⟩
    rcases (hhas _).1 hk with hk | hk
    · exact h1 hk
    · exact h3 m (by simp [hin]) ht hk.symm
  · obtain ⟨h1, h2, h3⟩ := hpop.announced hsplit ht'
    refine ⟨fun hk => ?_, h2, h3⟩
    rcases (hhas _).1 hk with hk | hk
    · exact h1 hk
    · have hsplit' : rest = pre ++ m' :: post := hsplit
      have hm' : m' ∈ rest := by simp [hsplit']
      have hin' : q.inbox = [] ++ m :: rest := hin
      exact (h.announced hin' ht).2.2 m' hm' ht' hk

/-- Any other step of the client. -/
theorem Fresh.client (h : Fresh p q snt) {e : Effect} (hp : Plain q e)
    (hin : e.peer.inbox = q.inbox ∨ ∃ m, q.inbox = m :: e.peer.inbox) : Fresh p e.peer snt := by
  have hpop : Fresh p { q with inbox := e.peer.inbox } snt := by
    rcases hin with hin | ⟨m, hin⟩
    · rw [hin]
      exact h
    · exact h.pop hin
  refine ⟨h.auth, h.bound, fun hk => h.known ((hp.ids.has _).1 hk), hpop.asked, fun r => ?_,
    fun hd hc => ?_, fun hsplit ht => ?_⟩
  · rcases hd : e.peer.dialing.get r with _ | d
    · rfl
    · obtain ⟨d', hd'⟩ := hp.dialing hd
      rw [h.waits r] at hd'
      cases hd'
  · obtain ⟨h1, h2⟩ := hpop.dial hd hc
    exact ⟨fun hk => h1 ((hp.ids.has _).1 hk), h2⟩
  · obtain ⟨h1, h2⟩ := hpop.announced hsplit ht
    exact ⟨fun hk => h1 ((hp.ids.has _).1 hk), h2⟩

end Fresh

section World

variable {w w' : World} {log o : List (Side × Event)} {s : Side} {a : Action} {p : Peer} {e : Effect}
  {auth : Option (Bytes → Bytes → Bool)} {as : List (Side × Action)}

theorem Side.other_ne (s : Side) : s.other ≠ s := by
  cases s <;> decide

theorem Side.other_other (s : Side) : s.other.other = s := by
  cases s <;> rfl

/-- What holds of the two sides and of what was seen so far. -/
structure Inv (w : World) (log : List (Side × Event)) : Prop where
  loc : ∀ s, Local (w s) (received s · log) (queued s · log) (sent s · log)
  pipe : ∀ s, Pipe (w s) (queued s · log) (sent s.other · log)
  tail : ∀ s k, dataFor k (w s).inbox <:+ sent s.other k log
  fresh : Fresh (w .server) (w .client) (sent .server · log)
  drained : ∀ {s k err l l'}, log = l ++ (s, .readFailed k err) :: l' →
    received s k l = queued s k l

theorem inv_start (sessionKey : Int) (clientKey : Bytes) (auth : Option (Bytes → Bytes → Bool)) :
    Inv (start sessionKey clientKey auth) [] := by
  have hlocal : ∀ session : Session, session.conns = ∅ →
      Local (newPeer session) (fun _ => []) (fun _ => []) (fun _ => []) := by
    intro session hs
    constructor <;> simp [newPeer, Peer.conn, hs, Serve.target]
  have hpipe : ∀ session : Session, Pipe (newPeer session) (fun _ => []) (fun _ => []) := by
    intro session
    constructor <;> simp [newPeer, Peer.conn]
  constructor
  · rintro (_ | _) <;> exact hlocal _ rfl
  · rintro (_ | _) <;> exact hpipe _
  · rintro (_ | _) k <;> exact List.suffix_rfl
  · constructor <;> simp [start, newPeer, newSession, Peer.Has, Peer.conn]
  · simp

/-- Whatever side a step is on, the connections it opens have ids that are new to it, with all that
was written on them still in the queue. -/
theorem Inv.ready (h : Inv w log) (s : Side) :
    (s = .server → ¬ (w s).Has ((w s).session.nextConnID + 1))
      ∧ (∀ {m rest}, (w s).inbox = m :: rest → m.messageType = .connect →
          (w s).session.auth ≠ none →
          ¬ (w s).Has m.connID ∧ dataFor m.connID rest = sent s.other m.connID log)
      ∧ ∀ {r d c}, (w s).dialing.get r = some (.insert d) → (w s).conn r = some c →
          sent s.other c.connID log = [] ∧ dataFor c.connID (w s).inbox = [] := by
  have hf := h.fresh
  cases s with
  | server =>
    refine ⟨fun _ => hf.new, fun _ _ ha => absurd hf.auth ha,
      fun {r d c} hd hc => ?_⟩
    have hsent := ((h.loc .client).absent (hf.dial hd hc).1).2.2
    have htail := h.tail .server c.connID
    simp only [Side.other] at htail ⊢
    rw [hsent, List.suffix_nil] at htail
    exact ⟨hsent, htail⟩
  | client =>
    refine ⟨by simp, fun {m rest} hin hm _ => ?_,
      fun {r d c} hd => ?_⟩
    · have hin' : (w .client).inbox = [] ++ m :: rest := hin
      obtain ⟨h1, h2, -⟩ := hf.announced hin' hm
      exact ⟨h1, h2⟩
    · rw [hf.waits] at hd
      cases hd

theorem Frame.failed (hf : Frame p a e) {k : Int} {err : Err}
    (h : .readFailed k err ∈ e.events) : e.events = [.readFailed k err]
      ∧ ∃ r c, p.conn r = some c ∧ c.connID = k ∧ c.readBuf = [] ∧ c.buf = [] := by
  cases hf with
  | plain hp => exact hp.failed h
  | _ => simp at h

theorem Frame.data (hf : Frame p a e) (k : Int) :
    dataFor k e.out = e.events.flatMap (Event.wroteOn k) := by
  cases hf with
  | plain hp => exact hp.data k
  | _ => simp [dataFor_cons, newConnect]

theorem Frame.inbox (hf : Frame p a e) : e.peer.inbox <:+ p.inbox := by
  cases hf with
  | plain _ hin =>
    rcases hin with hin | ⟨m, hin⟩
    · exact hin ▸ List.suffix_rfl
    · exact ⟨[m], hin.symm⟩
  | opened hin => exact ⟨[_], hin.symm⟩
  | _ => exact List.suffix_rfl

/-- A `Read` that fails returned all that was in the channel. -/
theorem Inv.failed (h : Inv w log) (hf : Frame (w s) a e) {s' : Side} {k : Int} {err : Err}
    {l l' : List (Side × Event)}
    (hlog : e.events.map (fun v => (s, v)) = l ++ (s', .readFailed k err) :: l') :
    l = [] ∧ received s' k log = queued s' k log := by
  have hmem : (s', Event.readFailed k err) ∈ e.events.map fun v => (s, v) := by
    rw [hlog]
    simp
  obtain ⟨v, hv, hsv⟩ := List.mem_map.1 hmem
  simp only [Prod.mk.injEq] at hsv
  obtain ⟨rfl, rfl⟩ := hsv
  obtain ⟨hone, r, c, hc, rfl, hbuf, hbuf'⟩ := hf.failed hv
  rw [hone] at hlog
  refine ⟨by cases l <;> simp_all, ?_⟩
  have hflow := (h.loc s).flow hc
  simpa [hbuf, hbuf'] using hflow

theorem Side.eq_or_other (s s' : Side) : s' = s ∨ s' = s.other := by
  cases s <;> cases s' <;> simp [Side.other]

/-- What a step adds to the log of its own side. -/
theorem onSide_step (s : Side) (f : Int → Event → Bytes) (log : List (Side × Event))
    (events : List Event) :
    (fun k => onSide s (f k) (log ++ events.map fun v => (s, v)))
      = extend (fun k => onSide s (f k) log) f events := by
  funext k
  simp [onSide, extend, List.flatMap_map]

theorem onSide_step_other (s : Side) (f : Int → Event → Bytes) (log : List (Side × Event))
    (events : List Event) :
    (fun k => onSide s.other (f k) (log ++ events.map fun v => (s, v)))
      = fun k => onSide s.other (f k) log := by
  funext k
  simp [onSide, List.flatMap_map, (Side.other_ne s).symm]

/-- Messages that arrive leave a side as it is. -/
theorem Local.receive {rec que snt : Int → Bytes} (h : Local p rec que snt)
    (ms : List Message) : Local { p with inbox := p.inbox ++ ms } rec que snt :=
  { h with }

/-- Messages that arrive bring the data that were written. -/
theorem Pipe.receive {que wrt : Int → Bytes} (h : Pipe p que wrt)
    {events : List Event} {ms : List Message}
    (hms : ∀ k, dataFor k ms = events.flatMap (Event.wroteOn k)) :
    Pipe { p with inbox := p.inbox ++ ms } que (extend wrt Event.wroteOn events) where
  start hc := (h.start hc).trans (List.prefix_append _ _)
  live {r c} hc hl := by
    have := h.live hc hl
    rw [extend, ← this, ← hms, dataFor_append, List.append_assoc, List.append_assoc,
      List.append_assoc]

theorem dataFor_suffix {k : Int} {ms ms' : List Message} (h : ms <:+ ms') :
    dataFor k ms <:+ dataFor k ms' := by
  obtain ⟨front, rfl⟩ := h
  exact ⟨dataFor k front, (dataFor_append k front ms).symm⟩

/-- A step of the server, and the messages it writes, keep the client's ids fresh. -/
theorem Inv.fresh_server (h : Inv w log) (hf : Frame (w .server) a e) :
    Fresh e.peer { w .client with inbox := (w .client).inbox ++ e.out }
      (extend (sent .server · log) Event.wroteOn e.events) := by
  cases hf with
  | dial d x y =>
    rw [extend_nil, List.append_nil]
    exact h.fresh.serverConnect (h.loc .server) d x y
  | announce hd hc =>
    rw [extend_nil]
    exact h.fresh.announce (h.loc .server) hd hc
  | opened _ _ ha => exact absurd h.fresh.auth ha
  | plain hp => exact h.fresh.server (h.loc .server) hp

/-- So does a step of the client. -/
theorem Inv.fresh_client (h : Inv w log) (ha : ∀ d x y, a ≠ .serverConnect d x y)
    (hf : Frame (w .client) a e) :
    Fresh (w .server) e.peer (sent .server · log) := by
  cases hf with
  | dial d x y => exact absurd rfl (ha d x y)
  | announce hd =>
    rw [h.fresh.waits] at hd
    cases hd
  | opened hin hm => exact h.fresh.opened hin hm
  | plain hp hin => exact h.fresh.client hp hin

theorem Fresh.receive {q : Peer} {snt : Int → Bytes} (h : Fresh p q snt) (ms : List Message) :
    Fresh { p with inbox := p.inbox ++ ms } q snt :=
  { h with }

/-- One step of the tunnel keeps what holds of its two sides. -/
theorem Inv.side (h : Inv w log) (ha : s = .client → ∀ d x y, a ≠ .serverConnect d x y)
    (he : (w s).step a = some e) :
    Inv (World.send (Function.update w s e.peer) s.other e.out)
      (log ++ e.events.map fun v => (s, v)) := by
  obtain ⟨hnew, hcon, hdial⟩ := h.ready s
  have hnew' : (∃ d x y, a = .serverConnect d x y) →
      ¬ (w s).Has ((w s).session.nextConnID + 1) := by
    rintro ⟨d, x, y, rfl⟩
    rcases s with _ | _
    · exact hnew rfl
    · exact absurd rfl (ha rfl d x y)
  have hloc := (h.loc s).step hnew' (fun hi hm hau => (hcon hi hm hau).1) he
  have hpipe := (h.pipe s).step (h.loc s) hnew' hcon hdial he
  have hframe := (h.loc s).step_frame he
  have hself : World.send (Function.update w s e.peer) s.other e.out s = e.peer := by
    rw [World.send, Function.update_of_ne (Side.other_ne s).symm, Function.update_self]
  have hother : World.send (Function.update w s e.peer) s.other e.out s.other
      = { w s.other with inbox := (w s.other).inbox ++ e.out } := by
    rw [World.send, Function.update_self, Function.update_of_ne (Side.other_ne s)]
  refine ⟨fun s' => ?_, fun s' => ?_, fun s' k => ?_, ?_, fun {s' k err l l'} hlog => ?_⟩
  · rcases Side.eq_or_other s s' with rfl | rfl
    · rw [hself]
      simp only [received, queued, sent, onSide_step]
      exact hloc
    · rw [hother]
      simp only [received, queued, sent, onSide_step_other]
      exact (h.loc s.other).receive e.out
  · rcases Side.eq_or_other s s' with rfl | rfl
    · rw [hself]
      simp only [queued, sent, onSide_step, onSide_step_other]
      exact hpipe
    · rw [hother, Side.other_other]
      simp only [queued, sent, onSide_step, onSide_step_other]
      have := (h.pipe s.other).receive hframe.data
      rwa [Side.other_other] at this
  · rcases Side.eq_or_other s s' with rfl | rfl
    · rw [hself, show sent s'.other k _ = sent s'.other k log from
        congrFun (onSide_step_other s' Event.wroteOn log e.events) k]
      exact (dataFor_suffix hframe.inbox).trans (h.tail s' k)
    · rw [hother, Side.other_other, show sent s k _ = extend (sent s · log) _ _ k from
        congrFun (onSide_step s Event.wroteOn log e.events) k, extend, dataFor_append, hframe.data]
      have htail := h.tail s.other k
      rw [Side.other_other] at htail
      obtain ⟨front, hfront⟩ := htail
      exact ⟨front, by rw [← List.append_assoc, hfront]⟩
  · cases s with
    | server =>
      simp only [sent, onSide_step]
      rw [hself, show World.send _ _ _ .client = _ from hother]
      exact h.fresh_server hframe
    | client =>
      have hsent := onSide_step_other .client Event.wroteOn log e.events
      rw [hself, show World.send _ _ _ .server = _ from hother]
      exact hsent ▸ (h.fresh_client (ha rfl) hframe).receive e.out
  · rcases append_split hlog with ⟨rest, hl, -⟩ | ⟨front, rfl, hev⟩
    · exact h.drained hl
    · obtain ⟨rfl, hk⟩ := h.failed hframe hev
      rwa [List.append_nil]

theorem effect_of_step (hs : step w (s, a) = some (w', o)) :
    ∃ e, (s = .client → ∀ d x y, a ≠ .serverConnect d x y) ∧ (w s).step a = some e
      ∧ World.send (Function.update w s e.peer) s.other e.out = w'
      ∧ e.events.map (fun v => (s, v)) = o := by
  unfold Remotedialer.step at hs
  split at hs
  · cases hs
  · rename_i s' a' hne heq
    cases heq
    simp only [Option.map_eq_some_iff, Prod.mk.injEq] at hs
    obtain ⟨e, he, hw, ho⟩ := hs
    exact ⟨e, fun hc d x y ha => hne d x y hc ha, he, hw, ho⟩

theorem Inv.step (h : Inv w log) {a : Side × Action} (hs : step w a = some (w', o)) :
    Inv w' (log ++ o) := by
  obtain ⟨e, ha, he, rfl, rfl⟩ := effect_of_step hs
  exact h.side ha he

theorem next_le_of_step (h : Inv w log) {a : Side × Action} (hs : step w a = some (w', o))
    (s : Side) :
    (w' s).session.nextConnID ≤ (w s).session.nextConnID + 1 := by
  obtain ⟨s', a⟩ := a
  obtain ⟨e, -, he, rfl, -⟩ := effect_of_step hs
  have hself : e.peer.session.nextConnID ≤ (w s').session.nextConnID + 1 := by
    cases (h.loc s').step_frame he with
    | dial => exact le_rfl
    | plain hp =>
      rw [hp.next]
      omega
    | _ =>
      simp only [Peer.clientConnect, Peer.setConns]
      omega
  rcases Side.eq_or_other s' s with rfl | rfl
  · rwa [World.send, Function.update_of_ne (Side.other_ne s).symm, Function.update_self]
  · rw [World.send, Function.update_self, Function.update_of_ne (Side.other_ne s')]
    exact Int.le_add_one (le_refl _)

/-- The ids of a run of fewer than `2 ^ 63 - 1` steps have room in the 64 bits of the source. -/
theorem nextConnID_le {sessionKey : Int} {clientKey : Bytes}
    (h : Run.exec step (start sessionKey clientKey auth) as = some (w, log)) (s : Side) :
    (w s).session.nextConnID ≤ as.length + 1 := by
  have hle := Run.exec_le_length (P := Inv) (fun w => (w s).session.nextConnID)
    (fun _ _ _ _ _ hi hs => ⟨hi.step hs, next_le_of_step hi hs s⟩) as
    (inv_start sessionKey clientKey auth) h
  have hstart : (start sessionKey clientKey auth s).session.nextConnID ≤ 1 := by
    cases s
    · exact le_refl (1 : Int)
    · exact Int.zero_le_ofNat 1
  omega

/-- Whatever happens on the two sides and in whatever order, what the `Read`s on one end of a
connection returned is a beginning of what the `Write`s on its other end wrote; each side has at
most one connection of an id; and a `Read` that reports an error comes after all that was put into
the connection's channel was read. -/
theorem tunnel_in_order {sessionKey : Int} {clientKey : Bytes}
    (h : Run.exec step (start sessionKey clientKey auth) as = some (w, log)) :
    (∀ s k, received s k log <+: sent s.other k log)
      ∧ (∀ s r r' c c', (w s).conn r = some c → (w s).conn r' = some c' →
          c.connID = c'.connID → r = r')
      ∧ ∀ s k err l l', log = l ++ (s, .readFailed k err) :: l' →
          received s k l = queued s k l := by
  have hinv : Inv w log := Run.exec_invariant (P := Inv) (inv_start sessionKey clientKey auth)
    (fun _ _ _ _ _ hi hs => hi.step hs) h
  refine ⟨fun s k => ?_, fun s r r' c c' => (hinv.loc s).inj, fun s k err l l' => hinv.drained⟩
  by_cases hk : (w s).Has k
  · obtain ⟨r, c, hc, rfl⟩ := hk
    have hflow := (hinv.loc s).flow hc
    have hstart := (hinv.pipe s).start hc
    simp only [← hflow, List.append_assoc] at hstart
    exact (List.prefix_append _ _).trans hstart
  · simp [((hinv.loc s).absent hk).1]

/-- The server dials, writes three bytes and closes; the client reads one byte before the close
reaches it, and the other two and then the error after it. -/
def closingRun : List (Side × Action) :=
  [(.server, .serverConnect 0 [] []), (.server, .dial 0 7), (.server, .dial 0 8),
    (.client, .serve 0 0), (.server, .write 0 0 (text "abc")), (.server, .task 0 9),
    (.client, .serve 0 0), (.client, .serve 0 2), (.client, .read 0 1), (.server, .close 0),
    (.server, .task 0 1), (.server, .task 0 1), (.server, .task 0 1), (.client, .serve 0 1),
    (.client, .serve 0 1), (.client, .serve 0 1), (.client, .serve 0 1), (.client, .serve 0 1),
    (.client, .serve 0 1), (.client, .read 0 5), (.client, .read 0 5), (.client, .read 0 5)]

theorem closingRun_in_order :
    ∃ w log, Run.exec step (start 0 [] (some fun _ _ => true)) closingRun = some (w, log)
      ∧ log = [(.server, .wrote 2 (text "abc")), (.client, .queued 2 (text "ab")),
          (.client, .read 2 (text "a")), (.client, .queued 2 (text "c")),
          (.client, .read 2 (text "b")), (.client, .read 2 (text "c")),
          (.client, .readFailed 2 EOF)]
      ∧ received .client 2 log <+: sent .server 2 log := by
  have hlog : (Run.exec step (start 0 [] (some fun _ _ => true)) closingRun).map Prod.snd
      = some [(.server, .wrote 2 (text "abc")), (.client, .queued 2 (text "ab")),
          (.client, .read 2 (text "a")), (.client, .queued 2 (text "c")),
          (.client, .read 2 (text "b")), (.client, .read 2 (text "c")),
          (.client, .readFailed 2 EOF)] := by
    decide +kernel
  obtain ⟨⟨w, log⟩, hrun, hw⟩ := Option.map_eq_some_iff.1 hlog
  exact ⟨w, log, hrun, hw, (tunnel_in_order hrun).1 .client 2⟩

end World

end Norman.Remotedialer
