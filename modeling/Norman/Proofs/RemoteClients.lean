import Norman.Lib.Run
import Norman.Sessions

/-!
# A peer sees the clients as the manager has had them

A notice changes the remote clients of the peer's session as the call it tells of changed the
manager's maps, taken together: a session key is added to a client key's, or dropped from them. So
whatever of the queue has been delivered, the peer is where the manager was after one of its calls,
or inside the snapshot it started from (`Inv.seen`), and with all of it delivered it is where the
manager is (`Inv.shows`).
-/

namespace Norman.Remotedialer

/-- The type of `remoteClientKeys`. -/
abbrev RemoteKeys := SortedMap Bytes (SortedMap Int Bool)

section Keys

variable {keys : RemoteKeys} {k k' : Bytes} {s s' : Int} {m : SortedMap Int Bool}

def RemoteKeys.sessions (keys : RemoteKeys) (k : Bytes) : SortedMap Int Bool := (keys.get k).getD ∅

/-- The session key stands at the client key. -/
def RemoteKeys.Lists (keys : RemoteKeys) (k : Bytes) (s : Int) : Prop :=
  (keys.sessions k).get s = some true

/-- Every client key has a session key, and every session key is mapped to true. -/
def RemoteKeys.Tidy (keys : RemoteKeys) : Prop :=
  ∀ k m, keys.get k = some m → m.entries ≠ [] ∧ ∀ s b, m.get s = some b → b = true

/-- What a notice does to the remote clients. -/
def Notice.apply (keys : RemoteKeys) : Notice → RemoteKeys
  | .sessionAdded k s => keys.set k ((keys.sessions k).set s true)
  | .sessionRemoved k s =>
    if ((keys.sessions k).erase s).entries = [] then keys.erase k
    else keys.set k ((keys.sessions k).erase s)

/-- What a notice does to the pairs of a client key and a session key. -/
def Notice.After (old : Bytes → Int → Prop) (k : Bytes) (s : Int) : Notice → Prop
  | .sessionAdded k' s' => (k = k' ∧ s = s') ∨ old k s
  | .sessionRemoved k' s' => ¬ (k = k' ∧ s = s') ∧ old k s

theorem get_of_entries_nil (h : m.entries = []) (s : Int) : m.get s = none := by
  simp [SortedMap.get, h]

theorem entries_ne_nil {b : Bool} (h : m.get s = some b) : m.entries ≠ [] := by
  intro hnil
  rw [get_of_entries_nil hnil] at h
  cases h

theorem sessions_set (m : SortedMap Int Bool) :
    RemoteKeys.sessions (keys.set k' m) k = if k = k' then m else keys.sessions k := by
  unfold RemoteKeys.sessions
  rw [SortedMap.get_set]
  split_ifs <;> rfl

theorem sessions_erase :
    RemoteKeys.sessions (keys.erase k') k = if k = k' then ∅ else keys.sessions k := by
  unfold RemoteKeys.sessions
  rw [SortedMap.get_erase]
  split_ifs <;> rfl

theorem lists_apply (n : Notice) : (n.apply keys).Lists k s ↔ n.After keys.Lists k s := by
  cases n with
  | sessionAdded k' s' =>
    simp only [Notice.apply, Notice.After, RemoteKeys.Lists, sessions_set]
    split_ifs with hk
    · subst hk
      rw [SortedMap.get_set]
      split_ifs with hs <;> simp [hs]
    · simp [hk]
  | sessionRemoved k' s' =>
    have herase : ∀ m : SortedMap Int Bool, (m.erase s').get s = some true
        ↔ ¬ s = s' ∧ m.get s = some true := by
      intro m
      rw [SortedMap.get_erase]
      split_ifs with hs <;> simp [hs]
    simp only [Notice.apply, Notice.After, RemoteKeys.Lists]
    split_ifs with hnil
    · rw [sessions_erase]
      split_ifs with hk
      · subst hk
        have hnone := herase (keys.sessions k)
        rw [get_of_entries_nil hnil] at hnone
        simpa using hnone
      · simp [hk]
    · rw [sessions_set]
      split_ifs with hk
      · subst hk
        rw [herase]
        simp
      · simp [hk]

theorem RemoteKeys.Tidy.sessions (h : keys.Tidy) {b : Bool} (hb : (keys.sessions k).get s = some b) :
    b = true := by
  unfold RemoteKeys.sessions at hb
  rcases hk : keys.get k with _ | m
  · rw [hk] at hb
    cases hb
  · rw [hk] at hb
    exact (h k m hk).2 s b hb

theorem RemoteKeys.Tidy.set (h : keys.Tidy) (hne : m.entries ≠ [])
    (htrue : ∀ s b, m.get s = some b → b = true) : RemoteKeys.Tidy (keys.set k m) := by
  intro k' m' hm'
  rw [SortedMap.get_set] at hm'
  split_ifs at hm'
  · cases hm'
    exact ⟨hne, htrue⟩
  · exact h k' m' hm'

theorem RemoteKeys.Tidy.apply (h : keys.Tidy) (n : Notice) : (n.apply keys).Tidy := by
  cases n with
  | sessionAdded k s =>
    refine h.set (entries_ne_nil (SortedMap.get_set_self _ s true)) fun s' b hb => ?_
    rw [SortedMap.get_set] at hb
    split_ifs at hb
    · cases hb
      rfl
    · exact h.sessions hb
  | sessionRemoved k s =>
    simp only [Notice.apply]
    split_ifs with hnil
    · intro k' m' hm'
      rw [SortedMap.get_erase] at hm'
      split_ifs at hm'
      exact h k' m' hm'
    · refine h.set hnil fun s' b hb => ?_
      rw [SortedMap.get_erase] at hb
      split_ifs at hb
      exact h.sessions hb

end Keys

section Manager

variable {sm : SessionManager} {k : Bytes} {x : Int} {s : Handle}

/-- The manager has a session with these keys, of a client or of a peer. -/
def SessionManager.Holds (sm : SessionManager) (k : Bytes) (x : Int) : Prop :=
  ∃ v ∈ sm.clients.sessions k ++ sm.peers.sessions k, v.sessionKey = x

/-- The same for one of the two maps. -/
def Store.Holds (store : Store) (k : Bytes) (x : Int) : Prop :=
  ∃ v ∈ store.sessions k, v.sessionKey = x

theorem holds_iff : sm.Holds k x ↔ sm.clients.Holds k x ∨ sm.peers.Holds k x := by
  simp only [SessionManager.Holds, Store.Holds, List.mem_append]
  constructor
  · rintro ⟨v, hv | hv, hx⟩
    · exact .inl ⟨v, hv, hx⟩
    · exact .inr ⟨v, hv, hx⟩
  · rintro (⟨v, hv, hx⟩ | ⟨v, hv, hx⟩)
    · exact ⟨v, .inl hv, hx⟩
    · exact ⟨v, .inr hv, hx⟩

theorem Store.holds_add {store : Store} :
    (store.add s).Holds k x ↔ (k = s.clientKey ∧ x = s.sessionKey) ∨ store.Holds k x := by
  unfold Store.add Store.Holds Store.sessions
  rw [SortedMap.get_set]
  split_ifs with hk
  · subst hk
    simp only [Option.getD_some, List.mem_append, List.mem_singleton, true_and]
    constructor
    · rintro ⟨v, hv | rfl, hx⟩
      · exact .inr ⟨v, hv, hx⟩
      · exact .inl hx.symm
    · rintro (rfl | ⟨v, hv, hx⟩)
      · exact ⟨s, .inr rfl, rfl⟩
      · exact ⟨v, .inl hv, hx⟩
  · simp [hk]

theorem Store.holds_remove {store : Store} :
    (store.remove s).Holds k x ↔ ¬ (k = s.clientKey ∧ x = s.sessionKey) ∧ store.Holds k x := by
  have hsessions : (store.remove s).sessions k
      = if k = s.clientKey then (store.sessions k).filter fun v => v.sessionKey ≠ s.sessionKey
        else store.sessions k := by
    unfold Store.remove
    dsimp only
    split_ifs with hnil hk hk <;> unfold Store.sessions
    · subst hk
      rw [SortedMap.get_erase_self]
      exact hnil.symm
    · rw [SortedMap.get_erase, if_neg hk]
    · subst hk
      rw [SortedMap.get_set_self]
      rfl
    · rw [SortedMap.get_set, if_neg hk]
  unfold Store.Holds
  rw [hsessions]
  split_ifs with hk
  · simp only [List.mem_filter, decide_eq_true_eq, hk, true_and]
    constructor
    · rintro ⟨v, ⟨hv, hne⟩, rfl⟩
      exact ⟨hne, v, hv, rfl⟩
    · rintro ⟨hne, v, hv, rfl⟩
      exact ⟨v, ⟨hv, hne⟩, rfl⟩
  · simp [hk]

theorem holds_add {peer : Bool} : (sm.add s peer).Holds k x
    ↔ (Notice.sessionAdded s.clientKey s.sessionKey).After sm.Holds k x := by
  simp only [Notice.After, holds_iff, SessionManager.add]
  cases peer <;> simp only [Bool.false_eq_true, if_false, if_true, Store.holds_add] <;> tauto

theorem holds_remove : (sm.remove s).Holds k x
    ↔ (Notice.sessionRemoved s.clientKey s.sessionKey).After sm.Holds k x := by
  simp only [Notice.After, holds_iff, SessionManager.remove, Store.holds_remove]
  tauto

theorem mem_announce {store : Store} {keys : List Bytes} (hkeys : keys.Perm store.keys)
    {n : Notice} : n ∈ store.announce keys ↔ ∃ k x, n = .sessionAdded k x ∧ store.Holds k x := by
  simp only [Store.announce, List.mem_flatMap, List.mem_map, Store.Holds]
  constructor
  · rintro ⟨k, -, v, hv, rfl⟩
    exact ⟨k, v.sessionKey, rfl, v, hv, rfl⟩
  · rintro ⟨k, x, rfl, v, hv, rfl⟩
    refine ⟨k, hkeys.mem_iff.2 (SortedMap.mem_keys.2 ?_), v, hv, rfl⟩
    unfold Store.sessions at hv
    rcases hk : store.get k with _ | vs
    · rw [hk] at hv
      cases hv
    · exact ⟨vs, rfl⟩

/-- The snapshot tells of each session, and of nothing else. -/
theorem mem_snapshot {clientKeys peerKeys : List Bytes} (hc : clientKeys.Perm sm.clients.keys)
    (hp : peerKeys.Perm sm.peers.keys) {n : Notice} :
    n ∈ sm.snapshot clientKeys peerKeys ↔ ∃ k x, n = .sessionAdded k x ∧ sm.Holds k x := by
  simp only [SessionManager.snapshot, List.mem_append, mem_announce hc, mem_announce hp, holds_iff]
  constructor
  · rintro (⟨k, x, hn, hx⟩ | ⟨k, x, hn, hx⟩)
    · exact ⟨k, x, hn, .inl hx⟩
    · exact ⟨k, x, hn, .inr hx⟩
  · rintro ⟨k, x, hn, hx | hx⟩
    · exact .inl ⟨k, x, hn, hx⟩
    · exact .inr ⟨k, x, hn, hx⟩

end Manager

section Shows

variable {keys : RemoteKeys} {sm : SessionManager}

/-- The remote clients are what the manager has: no more, no fewer, and no entry without any. -/
def RemoteKeys.Shows (keys : RemoteKeys) (sm : SessionManager) : Prop :=
  keys.Tidy ∧ ∀ k x, keys.Lists k x ↔ sm.Holds k x

/-- The remote clients are some of those the manager has. -/
def RemoteKeys.PartOf (keys : RemoteKeys) (sm : SessionManager) : Prop :=
  keys.Tidy ∧ ∀ k x, keys.Lists k x → sm.Holds k x

/-- The manager was so after one of its calls; or not all of the snapshot has come, and this is a
part of what the manager was at first. -/
def Seen (history : List SessionManager) (complete : Prop) (keys : RemoteKeys) : Prop :=
  (∃ sm ∈ history, keys.Shows sm) ∨ (¬ complete ∧ ∃ sm, history.head? = some sm ∧ keys.PartOf sm)

theorem Seen.append {history : List SessionManager} {complete : Prop}
    (h : Seen history complete keys) (later : List SessionManager) :
    Seen (history ++ later) complete keys := by
  rcases h with ⟨sm, hsm, hshows⟩ | ⟨hnot, sm, hsm, hpart⟩
  · exact .inl ⟨sm, List.mem_append_left later hsm, hshows⟩
  · exact .inr ⟨hnot, sm, by rw [List.head?_append, hsm, Option.some_or], hpart⟩

theorem tidy_foldl : ∀ (q : List Notice) {keys : RemoteKeys}, keys.Tidy →
    (q.foldl Notice.apply keys).Tidy
  | [], _, h => h
  | n :: q, _, h => tidy_foldl q (h.apply n)

theorem lists_foldl_added : ∀ (q : List Notice) {keys : RemoteKeys},
    (∀ n ∈ q, ∃ k x, n = .sessionAdded k x) → ∀ k x,
      ((q.foldl Notice.apply keys).Lists k x ↔ keys.Lists k x ∨ .sessionAdded k x ∈ q)
  | [], _, _, k, x => by simp
  | n :: q, keys, hq, k, x => by
    obtain ⟨k', x', rfl⟩ := hq n List.mem_cons_self
    rw [List.foldl_cons, lists_foldl_added q (fun m hm => hq m (List.mem_cons_of_mem _ hm)),
      lists_apply, List.mem_cons, Notice.sessionAdded.injEq]
    simp only [Notice.After]
    tauto

theorem RemoteKeys.Shows.apply {sm' : SessionManager} {n : Notice} (h : keys.Shows sm)
    (hn : ∀ k x, sm'.Holds k x ↔ n.After sm.Holds k x) : (n.apply keys).Shows sm' := by
  refine ⟨h.1.apply n, fun k x => ?_⟩
  rw [lists_apply, hn]
  cases n <;> simp only [Notice.After, h.2]

end Shows

section Decode

/-- The address of a session is read as what it was written from. -/
def Decodes (k : Bytes) (x : Int) : Prop := parseAddress (sessionAddress k x) = some (k, x)

instance (k : Bytes) (x : Int) : Decidable (Decodes k x) :=
  inferInstanceAs (Decidable (parseAddress (sessionAddress k x) = some (k, x)))

def Notice.Decodes : Notice → Prop
  | .sessionAdded k x => Remotedialer.Decodes k x
  | .sessionRemoved k x => Remotedialer.Decodes k x

/-- The addresses of the sessions that come and go are read as they were written. -/
def Watch.Action.Decodes : Watch.Action → Prop
  | .add s _ => Remotedialer.Decodes s.clientKey s.sessionKey
  | .remove s => Remotedialer.Decodes s.clientKey s.sessionKey
  | _ => True

instance : ∀ a : Watch.Action, Decidable a.Decodes
  | .add s _ => inferInstanceAs (Decidable (Remotedialer.Decodes s.clientKey s.sessionKey))
  | .remove s => inferInstanceAs (Decidable (Remotedialer.Decodes s.clientKey s.sessionKey))
  | .addListener _ _ _ => isTrue trivial
  | .removeListener _ => isTrue trivial
  | .deliver _ => isTrue trivial

/-- The peer's session takes a notice as it was meant. -/
theorem serveMessage_notice {p : Peer} {keys : RemoteKeys} {n : Notice}
    (hkeys : p.session.remoteClientKeys = some keys) (hn : n.Decodes) (id : Int) :
    p.serveMessage (n.message id)
      = { p with session := { p.session with remoteClientKeys := some (n.apply keys) } } := by
  cases n with
  | sessionAdded k x =>
    have hparse : parseAddress (sessionAddress k x) = some (k, x) := hn
    simp [Peer.serveMessage, Notice.message, newAddClient, hkeys, Session.addRemoteClient, hparse,
      Notice.apply, RemoteKeys.sessions]
  | sessionRemoved k x =>
    have hparse : parseAddress (sessionAddress k x) = some (k, x) := hn
    simp only [Peer.serveMessage, Notice.message, newRemoveClient, reduceCtorEq, if_false, hkeys,
      Session.removeRemoteClient, hparse, Option.map_some]
    rfl

end Decode

namespace Watch

variable {l : Listener} {w : Watch} {keys : RemoteKeys} {history : List SessionManager}

/-- What every run keeps. `keys` are the peer's remote clients, and `history` the manager after each
call since the listener is there. -/
structure Inv (l : Listener) (w : Watch) (keys : RemoteKeys) (history : List SessionManager) :
    Prop where
  remote : w.peer.session.remoteClientKeys = some keys
  waiting : w.peer.serve = .waiting
  tidy : keys.Tidy
  held : ∀ k x, w.manager.Holds k x → Decodes k x
  told : ∀ n ∈ w.queue, n.Decodes
  off : l ∉ w.manager.listeners → w.queue = [] ∧ keys = ∅ ∧ history = []
  seen : l ∈ w.manager.listeners → ∀ q, q <+: w.queue →
    Seen history (w.snapshot ≤ q.length) (q.foldl Notice.apply keys)
  shows : l ∈ w.manager.listeners → (w.queue.foldl Notice.apply keys).Shows w.manager

theorem inv_start (sessionKey : Int) (clientKey : Bytes) :
    Inv l (start sessionKey clientKey) ∅ [] where
  remote := rfl
  waiting := rfl
  tidy := by
    intro k m h
    cases h
  held := by
    rintro k x ⟨v, hv, -⟩
    cases hv
  told := by simp [start]
  off := fun _ => ⟨rfl, rfl, rfl⟩
  seen := by simp [start, newSessionManager]
  shows := by simp [start, newSessionManager]

namespace Inv

/-- A call that listeners are told of. -/
theorem call (h : Inv l w keys history) {sm : SessionManager} {n : Notice}
    (hlisteners : sm.listeners = w.manager.listeners) (hn : n.Decodes)
    (hholds : ∀ k x, sm.Holds k x ↔ n.After w.manager.Holds k x) :
    Inv l (called l { w with manager := sm, queue := w.queue ++ w.manager.tell l n }).1 keys
      (history ++ (called l { w with manager := sm, queue := w.queue ++ w.manager.tell l n }).2) := by
  have hheld : ∀ k x, sm.Holds k x → Decodes k x := by
    intro k x hx
    rw [hholds] at hx
    cases n with
    | sessionAdded k' x' =>
      rcases hx with ⟨rfl, rfl⟩ | hx
      · exact hn
      · exact h.held k x hx
    | sessionRemoved k' x' => exact h.held k x hx.2
  by_cases hl : l ∈ w.manager.listeners
  · have htell : w.manager.tell l n = [n] := if_pos hl
    have hshows : ((w.queue ++ [n]).foldl Notice.apply keys).Shows sm := by
      rw [List.foldl_append]
      exact (h.shows hl).apply hholds
    rw [htell]
    simp only [called, hlisteners, if_pos hl]
    refine ⟨h.remote, h.waiting, h.tidy, hheld, fun m hm => ?_, ?_, fun _ q hq => ?_,
      fun _ => hshows⟩
    · rcases List.mem_append.1 hm with hm | hm
      · exact h.told m hm
      · rw [List.mem_singleton.1 hm]
        exact hn
    · exact fun hno => absurd (hlisteners ▸ hl) hno
    · -- what is delivered is less than all, and was there before, or all of it
      rcases List.prefix_concat_iff.1 hq with rfl | hq
      · exact .inl ⟨sm, by simp, hshows⟩
      · exact (h.seen hl q hq).append _
  · have htell : w.manager.tell l n = [] := if_neg hl
    have hl' : l ∉ sm.listeners := hlisteners ▸ hl
    rw [htell]
    simp only [called, if_neg hl', List.append_nil]
    exact ⟨h.remote, h.waiting, h.tidy, hheld, h.told, fun _ => h.off hl, fun hno => absurd hno hl',
      fun hno => absurd hno hl'⟩

/-- A call that concerns another listener. -/
theorem listener (h : Inv l w keys history) {sm : SessionManager}
    (hmem : l ∈ sm.listeners ↔ l ∈ w.manager.listeners)
    (hholds : ∀ k x, sm.Holds k x ↔ w.manager.Holds k x) :
    Inv l (called l { w with manager := sm }).1 keys
      (history ++ (called l { w with manager := sm }).2) where
  remote := h.remote
  waiting := h.waiting
  tidy := h.tidy
  held := fun k x hx => h.held k x ((hholds k x).1 hx)
  told := h.told
  off := fun hl => by
    have hl' : l ∉ sm.listeners := hl
    simpa [called, hl'] using h.off fun hno => hl' (hmem.2 hno)
  seen := fun hl q hq => (h.seen (hmem.1 hl) q hq).append _
  shows := fun hl =>
    ⟨(h.shows (hmem.1 hl)).1, fun k x => ((h.shows (hmem.1 hl)).2 k x).trans (hholds k x).symm⟩

/-- The listener comes, and is told of all there is. -/
theorem registered (h : Inv l w keys history) (hl : l ∉ w.manager.listeners)
    {clientKeys peerKeys : List Bytes} (hc : clientKeys.Perm w.manager.clients.keys)
    (hp : peerKeys.Perm w.manager.peers.keys) :
    Inv l
      { w with
        manager := w.manager.addListener l
        queue := w.queue ++ w.manager.snapshot clientKeys peerKeys
        snapshot := (w.manager.snapshot clientKeys peerKeys).length }
      keys (history ++ [w.manager.addListener l]) := by
  obtain ⟨hqueue, rfl, rfl⟩ := h.off hl
  have hsnap : ∀ {n}, n ∈ w.manager.snapshot clientKeys peerKeys
      ↔ ∃ k x, n = .sessionAdded k x ∧ w.manager.Holds k x := mem_snapshot hc hp
  have hlists : ∀ q : List Notice, (∀ n ∈ q, n ∈ w.manager.snapshot clientKeys peerKeys) →
      ∀ k x, (RemoteKeys.Lists (q.foldl Notice.apply ∅) k x ↔ .sessionAdded k x ∈ q) := by
    intro q hq k x
    rw [lists_foldl_added q fun n hn => ?_]
    · simp [RemoteKeys.Lists, RemoteKeys.sessions]
    · obtain ⟨k, x, rfl, -⟩ := hsnap.1 (hq n hn)
      exact ⟨k, x, rfl⟩
  have hall : RemoteKeys.Shows
      ((w.manager.snapshot clientKeys peerKeys).foldl Notice.apply ∅) (w.manager.addListener l) := by
    refine ⟨tidy_foldl _ h.tidy, fun k x => ?_⟩
    rw [hlists _ fun n hn => hn, hsnap]
    constructor
    · rintro ⟨k', x', heq, hx⟩
      cases heq
      exact hx
    · exact fun hx => ⟨k, x, rfl, hx⟩
  rw [hqueue]
  simp only [List.nil_append]
  refine ⟨h.remote, h.waiting, h.tidy, h.held, fun n hn => ?_, fun hno => absurd ?_ hno,
    fun _ q hq => ?_, fun _ => hall⟩
  · obtain ⟨k, x, rfl, hx⟩ := hsnap.1 hn
    exact h.held k x hx
  · simp [SessionManager.addListener]
  · by_cases hlen : (w.manager.snapshot clientKeys peerKeys).length ≤ q.length
    · rw [hq.eq_of_length_le hlen]
      exact .inl ⟨_, by simp, hall⟩
    · refine .inr ⟨hlen, _, rfl, tidy_foldl q h.tidy, fun k x hx => ?_⟩
      rw [hlists q fun n hn => hq.subset hn] at hx
      obtain ⟨k', x', heq, hx'⟩ := hsnap.1 (hq.subset hx)
      cases heq
      exact hx'

/-- The peer takes the next notice. -/
theorem deliver (h : Inv l w keys history) {n : Notice} {queue : List Notice}
    (hqueue : w.queue = n :: queue) (id : Int) :
    Inv l
      { w with queue, snapshot := w.snapshot - 1, peer := w.peer.serveMessage (n.message id) }
      (n.apply keys) history := by
  have hn : n.Decodes := h.told n (hqueue ▸ List.mem_cons_self)
  have hl : l ∈ w.manager.listeners := by
    by_contra hl
    rw [(h.off hl).1] at hqueue
    cases hqueue
  rw [serveMessage_notice h.remote hn]
  refine ⟨rfl, h.waiting, h.tidy.apply n, h.held,
    fun m hm => h.told m (hqueue ▸ List.mem_cons_of_mem n hm), fun hno => absurd hl hno,
    fun _ q hq => ?_, fun _ => ?_⟩
  · have hcons : n :: q <+: w.queue := by
      rw [hqueue]
      exact (List.prefix_cons_inj n).2 hq
    refine (h.seen hl _ hcons).imp_right fun hpart => ⟨fun hle => hpart.1 ?_, hpart.2⟩
    have hless : w.snapshot - 1 ≤ q.length := hle
    rw [List.length_cons]
    omega
  · have hshows := h.shows hl
    rw [hqueue] at hshows
    exact hshows

theorem step (h : Inv l w keys history) {a : Action} (ha : a.Decodes) {w' : Watch}
    {o : List SessionManager} (hs : Watch.step l w a = some (w', o)) :
    ∃ keys', Inv l w' keys' (history ++ o) := by
  cases a with
  | add s peer =>
    cases hs
    have hlisteners : (w.manager.add s peer).listeners = w.manager.listeners := by
      cases peer <;> rfl
    exact ⟨keys, h.call hlisteners ha fun k x => holds_add⟩
  | remove s =>
    cases hs
    exact ⟨keys, h.call rfl ha fun k x => holds_remove⟩
  | addListener l' clientKeys peerKeys =>
    simp only [Watch.step] at hs
    split_ifs at hs with hperm hne hl
    · cases hs
      refine ⟨keys, h.listener ?_ fun k x => Iff.rfl⟩
      simp [SessionManager.addListener, Ne.symm hne]
    · cases hs
      have hl' : l ∈ (w.manager.addListener l).listeners := List.mem_cons_self
      simpa [called, hl'] using ⟨keys, h.registered hl hperm.1 hperm.2⟩
  | removeListener l' =>
    simp only [Watch.step] at hs
    split_ifs at hs with hne
    cases hs
    refine ⟨keys, h.listener ?_ fun k x => Iff.rfl⟩
    simp [SessionManager.removeListener, Ne.symm hne]
  | deliver id =>
    simp only [Watch.step] at hs
    split at hs
    · rename_i n queue hqueue _
      cases hs
      rw [List.append_nil]
      exact ⟨n.apply keys, h.deliver hqueue id⟩
    · cases hs

end Inv

end Watch

/-- At every point of every run the peer sees the clients as the manager had them after one of its
calls since the listener is there, or, while some of the snapshot is on its way, a part of them as
they were when the listener came; and with nothing on its way, as the manager has them. -/
theorem remote_clients_exact {l : Listener} {sessionKey : Int} {clientKey : Bytes}
    {as : List Watch.Action} {w : Watch} {history : List SessionManager}
    (hdecodes : ∀ a ∈ as, a.Decodes)
    (h : Run.exec (Watch.step l) (Watch.start sessionKey clientKey) as = some (w, history))
    (hl : l ∈ w.manager.listeners) :
    ∃ keys : RemoteKeys, w.peer.session.remoteClientKeys = some keys
      ∧ ((∃ sm ∈ history, keys.Shows sm)
        ∨ (0 < w.snapshot ∧ ∃ sm, history.head? = some sm ∧ keys.PartOf sm))
      ∧ (w.queue = [] → keys.Shows w.manager) := by
  obtain ⟨keys, hinv⟩ : ∃ keys, Watch.Inv l w keys history :=
    Run.exec_invariant_along (P := fun _ a => a.Decodes)
      (fun w history => ∃ keys, Watch.Inv l w keys history) ⟨∅, Watch.inv_start sessionKey clientKey⟩
      (fun w history a w' o hinv ha hs => hinv.elim fun keys hkeys => hkeys.step ha hs) h
      (Run.along_of_forall hdecodes)
  refine ⟨keys, hinv.remote, ?_, fun hqueue => ?_⟩
  · exact (hinv.seen hl [] List.nil_prefix).imp_right fun hpart =>
      ⟨Nat.pos_of_ne_zero fun hzero => hpart.1 (by simp [hzero]), hpart.2⟩
  · have hshows := hinv.shows hl
    rw [hqueue] at hshows
    exact hshows

section Gossip

/-- A client is there before the listener comes; the same key then appears as a peer, and the client
goes. -/
def comeAndGo : List Watch.Action :=
  [.add ⟨text "c-1", 4711⟩ false, .addListener 0 [text "c-1"] [], .add ⟨text "c-1", 4712⟩ true,
    .deliver 1, .remove ⟨text "c-1", 4711⟩, .deliver 2, .deliver 3]

theorem comeAndGo_exact : ∃ w history, ∃ keys : RemoteKeys,
    Run.exec (Watch.step 0) (Watch.start 7 (text "server-a")) comeAndGo = some (w, history)
      ∧ w.peer.session.remoteClientKeys = some keys ∧ keys.Shows w.manager := by
  have hrun : (Run.exec (Watch.step 0) (Watch.start 7 (text "server-a")) comeAndGo).isSome := by
    decide +kernel
  have hend : ∀ r ∈ Run.exec (Watch.step 0) (Watch.start 7 (text "server-a")) comeAndGo,
      0 ∈ r.1.manager.listeners ∧ r.1.queue = [] := by
    decide +kernel
  obtain ⟨⟨w, history⟩, h⟩ := Option.isSome_iff_exists.1 hrun
  obtain ⟨hl, hqueue⟩ := hend _ h
  obtain ⟨keys, hkeys, -, hshows⟩ := remote_clients_exact (by decide +kernel) h hl
  exact ⟨w, history, keys, h, hkeys, hshows hqueue⟩

end Gossip

end Norman.Remotedialer
