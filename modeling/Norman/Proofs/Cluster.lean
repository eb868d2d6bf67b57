import Norman.Cluster
import Norman.Proofs.RemoteClients
import Norman.Proofs.Wire

/-!
# Dialing through peers

With the peers' views exact, a client is reached from any server by at most one hop, with the
protocol and the address that were asked for, and not found only where it is connected neither to
the server nor to a peer of it (`dial_reaches`). This is so for requests that fit on the wire
(`Fits`) and for keys that are not those of peers: a server tells its peers of its peers' sessions
too, but does not dial them itself, so a request for one of them is handed on from server to server
and has no end (`dial_endless`).
-/

namespace Norman.Remotedialer

section Split

theorem text_colons : text "::" = [Varint.byte 58, Varint.byte 58] := by decide

theorem text_colon : text ":" = [Varint.byte 58] := by decide

/-- The key is told apart from the protocol that follows it. -/
def Routable (key : Bytes) : Prop := splitColons (key ++ text ":") = none

instance (key : Bytes) : Decidable (Routable key) :=
  inferInstanceAs (Decidable (splitColons (key ++ text ":") = none))

theorem splitColons_cons {a b : Byte} {s : Bytes}
    (h : ¬ (a = Varint.byte 58 ∧ b = Varint.byte 58)) :
    splitColons (a :: b :: s) = (splitColons (b :: s)).map fun r => (a :: r.1, r.2) := by
  rw [splitColons, if_neg h]

/-- The request is cut where the key ends, unless the key has such a place itself. -/
theorem splitColons_append : ∀ {key : Bytes}, Routable key → ∀ proto,
    splitColons (key ++ text "::" ++ proto) = some (key, proto)
  | [], _, proto => by
    rw [text_colons]
    simp [splitColons]
  | [a], h, proto => by
    rw [Routable, text_colon] at h
    rw [text_colons]
    have ha : a ≠ Varint.byte 58 := by
      rintro rfl
      simp [splitColons] at h
    simp [splitColons, ha]
  | a :: b :: key, h, proto => by
    have hab : ¬ (a = Varint.byte 58 ∧ b = Varint.byte 58) := by
      intro hab
      simp [Routable, splitColons, hab.1, hab.2] at h
    have hrest : Routable (b :: key) := by
      rw [Routable, List.cons_append, List.cons_append, splitColons_cons hab,
        Option.map_eq_none_iff] at h
      exact h
    have ih := splitColons_append hrest proto
    simp only [List.cons_append] at ih ⊢
    rw [splitColons_cons hab, ih]
    rfl

end Split

section Wire

/-- The request is at most a hundred bytes long, also with the key before it, and has no slash
before the address. -/
def Fits (key proto address : Bytes) : Prop :=
  Varint.byte 47 ∉ key ++ text "::" ++ proto
    ∧ (key ++ text "::" ++ proto ++ text "/" ++ address).length ≤ 100

instance (key proto address : Bytes) : Decidable (Fits key proto address) :=
  inferInstanceAs (Decidable (_ ∧ _))

theorem onWire_eq (hslash : Varint.byte 47 ∉ proto)
    (hlength : (proto ++ text "/" ++ address).length ≤ 100) :
    onWire proto address = some (proto, address) := by
  have htext : text "/" = [Varint.byte 47] := by decide
  rw [onWire, List.take_of_length_le hlength, htext, List.append_assoc, List.singleton_append]
  exact splitSlash_append hslash

variable {key proto address : Bytes}

theorem Fits.bare (h : Fits key proto address) :
    onWire proto address = some (proto, address) := by
  refine onWire_eq (fun hmem => h.1 (List.mem_append_right _ hmem)) (le_trans ?_ h.2)
  simp only [List.length_append]
  omega

theorem Fits.keyed (h : Fits key proto address) :
    onWire (key ++ text "::" ++ proto) address = some (key ++ text "::" ++ proto, address) :=
  onWire_eq h.1 h.2

end Wire

section Views

variable {keys : RemoteKeys} {sm : SessionManager} {key : Bytes}

/-- A key is known at the other end iff the manager there has a session of it. -/
theorem RemoteKeys.Shows.known_iff (h : keys.Shows sm) :
    ((keys.get key).getD ∅).entries ≠ []
      ↔ sm.clients.sessions key ≠ [] ∨ sm.peers.sessions key ≠ [] := by
  have hholds : (∃ x, sm.Holds key x)
      ↔ sm.clients.sessions key ≠ [] ∨ sm.peers.sessions key ≠ [] := by
    rw [← not_and_or, ← List.append_eq_nil_iff]
    constructor
    · rintro ⟨x, v, hv, -⟩
      exact List.ne_nil_of_mem hv
    · intro hne
      obtain ⟨v, hv⟩ := List.exists_mem_of_ne_nil _ hne
      exact ⟨_, v, hv, rfl⟩
  rw [← hholds]
  constructor
  · intro hne
    obtain ⟨⟨x, b⟩, hx⟩ := List.exists_mem_of_ne_nil _ hne
    have hget : (keys.sessions key).get x = some b := SortedMap.mem_entries.1 hx
    refine ⟨x, (h.2 key x).1 ?_⟩
    rw [RemoteKeys.Lists, hget, h.1.sessions hget]
  · rintro ⟨x, hx⟩
    exact entries_ne_nil ((h.2 key x).2 hx)

end Views

section Dial

variable (c : Cluster)

/-- The sessions of the peers of a server. -/
def Node.peerSessions (n : Node) : List Handle := n.peerKeys.flatMap n.manager.peers.sessions

/-- Each server sees the sessions of its peers as these have them. -/
def Cluster.Exact : Prop :=
  ∀ server, ∀ p ∈ (c server).peerSessions,
    RemoteKeys.Shows ((c server).remoteClientKeys p) (c p.clientKey).manager

variable {c} {server key proto address : Bytes} {deadline : Int} {hops : ℕ}

theorem dial_local (hfits : Fits key proto address) {session : Handle} {more : List Handle}
    (h : (c server).manager.clients.sessions key = session :: more) :
    c.Dial (hops + 1) server key deadline proto address
      = some (.connected server session proto address) := by
  simp [Cluster.Dial, Node.getDialer, SessionManager.getDialer, h, Dialer.proto, hfits.bare]

variable (deadline hops) in
/-- A request for a client of another server is handed to a peer that knows of it. -/
theorem dial_remote (hfits : Fits key proto address) (hkey : Routable key) (hne : key ≠ [])
    (h : (c server).manager.clients.sessions key = []) :
    (c.Dial (hops + 1) server key deadline proto address
        = some (.failed ⟨text "failed to find Session for client " ++ key⟩)
      ∧ ∀ p ∈ (c server).peerSessions,
        ¬ ((((c server).remoteClientKeys p).get key).getD ∅).entries ≠ [])
      ∨ ∃ p ∈ (c server).peerSessions,
        ((((c server).remoteClientKeys p).get key).getD ∅).entries ≠ []
          ∧ c.Dial (hops + 1) server key deadline proto address
            = c.Dial hops p.clientKey key 15000 proto address := by
  simp only [Cluster.Dial, Node.getDialer, SessionManager.getDialer, h]
  cases hfind : ((c server).peerKeys.flatMap (c server).manager.peers.sessions).find? fun session =>
      ((((c server).remoteClientKeys session).get key).getD ∅).entries ≠ [] with
  | none =>
    refine .inl ⟨rfl, fun p hp => ?_⟩
    simpa using List.find?_eq_none.1 hfind p hp
  | some p =>
    refine .inr ⟨p, List.mem_of_find?_eq_some hfind, by simpa using List.find?_some hfind, ?_⟩
    simp only [Option.map_some, Dialer.proto, if_neg hne, hfits.keyed,
      splitColons_append hkey proto, ne_eq, not_true_eq_false, if_false]

variable (server deadline hops) in
/-- Whatever server it is dialed from, a client is reached if it is connected there or to a peer,
and it is asked for the protocol and the address as they were given. -/
theorem dial_reaches (hexact : c.Exact) (hfits : Fits key proto address) (hkey : Routable key)
    (hne : key ≠ []) (hpeer : ∀ server, (c server).manager.peers.sessions key = []) :
    (∃ host session, c.Dial (hops + 2) server key deadline proto address
          = some (.connected host session proto address)
        ∧ session ∈ (c host).manager.clients.sessions key
        ∧ (host = server ∨ ∃ p ∈ (c server).peerSessions, p.clientKey = host))
      ∨ (∃ err, c.Dial (hops + 2) server key deadline proto address = some (.failed err)
        ∧ (c server).manager.clients.sessions key = []
        ∧ ∀ p ∈ (c server).peerSessions, (c p.clientKey).manager.clients.sessions key = []) := by
  cases hlocal : (c server).manager.clients.sessions key with
  | cons session more =>
    exact .inl ⟨server, session, dial_local hfits hlocal, by simp [hlocal], .inl rfl⟩
  | nil =>
    have hknown : ∀ p ∈ (c server).peerSessions,
        (((((c server).remoteClientKeys p).get key).getD ∅).entries ≠ []
          ↔ (c p.clientKey).manager.clients.sessions key ≠ []) := by
      intro p hp
      rw [(hexact server p hp).known_iff]
      simp [hpeer p.clientKey]
    rcases dial_remote deadline (hops + 1) hfits hkey hne hlocal with
      ⟨hdial, hnone⟩ | ⟨p, hp, hsome, hdial⟩
    · refine .inr ⟨_, hdial, rfl, fun p hp => ?_⟩
      exact not_not.1 (mt (hknown p hp).2 (hnone p hp))
    · obtain ⟨session, more, hsessions⟩ := List.exists_cons_of_ne_nil ((hknown p hp).1 hsome)
      refine .inl ⟨p.clientKey, session, ?_, by simp [hsessions], .inr ⟨p, hp, rfl⟩⟩
      rw [hdial, dial_local hfits hsessions]

/-- A request for a server that is a peer of peers wherever it comes, but a client nowhere, is
handed on for ever. -/
theorem dial_endless (hexact : c.Exact) (hfits : Fits key proto address) (hkey : Routable key)
    (hne : key ≠ []) (among : Set Bytes)
    (hclients : ∀ s ∈ among, (c s).manager.clients.sessions key = [])
    (hpeers : ∀ s ∈ among, ∃ p ∈ (c s).peerSessions,
      (c p.clientKey).manager.peers.sessions key ≠ [])
    (hclosed : ∀ s ∈ among, ∀ p ∈ (c s).peerSessions, p.clientKey ∈ among) :
    ∀ hops, ∀ s ∈ among, ∀ deadline, c.Dial hops s key deadline proto address = none := by
  intro hops
  induction hops with
  | zero => exact fun s _ _ => rfl
  | succ hops ih =>
    intro s hs deadline
    rcases dial_remote deadline hops hfits hkey hne (hclients s hs) with
      ⟨-, hnone⟩ | ⟨p, hp, -, hdial⟩
    · obtain ⟨p, hp, hsessions⟩ := hpeers s hs
      exact absurd ((hexact s p hp).known_iff.2 (.inr hsessions)) (hnone p hp)
    · rw [hdial]
      exact ih p.clientKey (hclosed s hs p hp) 15000

end Dial

section Mesh

/-- What a session at a peer has been told of a server. -/
def told (sm : SessionManager) : RemoteKeys :=
  (sm.snapshot sm.clients.keys sm.peers.keys).foldl Notice.apply ∅

theorem told_shows (sm : SessionManager) : (told sm).Shows sm := by
  have hmem : ∀ n, n ∈ sm.snapshot sm.clients.keys sm.peers.keys
      ↔ ∃ k x, n = .sessionAdded k x ∧ sm.Holds k x := fun n => mem_snapshot (.refl _) (.refl _)
  have hempty : ∀ k x, ¬ RemoteKeys.Lists ∅ k x := by
    intro k x h
    simp [RemoteKeys.Lists, RemoteKeys.sessions] at h
  refine ⟨tidy_foldl _ fun k m h => by simp at h, fun k x => ?_⟩
  have hadded : ∀ n ∈ sm.snapshot sm.clients.keys sm.peers.keys, ∃ k x, n = .sessionAdded k x := by
    intro n hn
    obtain ⟨k, x, rfl, -⟩ := (hmem n).1 hn
    exact ⟨k, x, rfl⟩
  rw [told, lists_foldl_added _ hadded, hmem]
  simp only [Notice.sessionAdded.injEq]
  constructor
  · rintro (h | ⟨k', x', ⟨rfl, rfl⟩, h⟩)
    · exact absurd h (hempty k x)
    · exact h
  · exact fun h => .inr ⟨k, x, ⟨rfl, rfl⟩, h⟩

/-- Servers whose peers have been told everything. -/
def settled (managers : Bytes → SessionManager) : Cluster := fun server =>
  { manager := managers server
    remoteClientKeys := fun p => told (managers p.clientKey)
    peerKeys := (managers server).peers.keys }

theorem settled_exact (managers : Bytes → SessionManager) : (settled managers).Exact :=
  fun _ p _ => told_shows (managers p.clientKey)

/-- Three servers that are peers of each other; `b` has a client. -/
def mesh (server : Bytes) : SessionManager :=
  let manager := [text "a", text "b", text "c"].foldl (fun sm id =>
    if id = server then sm else sm.add ⟨id, 1⟩ true) newSessionManager
  if server = text "b" then manager.add ⟨text "c-1", 4711⟩ false else manager

theorem mesh_peers (server : Bytes) : (mesh server).peers.sessions (text "c-1") = [] := by
  have hadd : ∀ (sm : SessionManager) (id : Bytes), id ≠ text "c-1" →
      sm.peers.sessions (text "c-1") = [] →
      (if id = server then sm else sm.add ⟨id, 1⟩ true).peers.sessions (text "c-1") = [] := by
    intro sm id hid hsm
    split_ifs
    · exact hsm
    · simpa [SessionManager.add, Store.add, Store.sessions, SortedMap.get_set, hid.symm] using hsm
  have hmanager : ([text "a", text "b", text "c"].foldl (fun sm id =>
      if id = server then sm else sm.add ⟨id, 1⟩ true) newSessionManager).peers.sessions
        (text "c-1") = [] :=
    hadd _ _ (by decide) (hadd _ _ (by decide) (hadd _ _ (by decide) (by decide)))
  unfold mesh
  dsimp only
  split_ifs
  · exact hmanager
  · exact hmanager

/-- The client is reached from `a`, through `b`. -/
theorem mesh_reaches :
    (settled mesh).Dial 2 (text "a") (text "c-1") 30000 (text "tcp") (text "web:80")
        = some (.connected (text "b") ⟨text "c-1", 4711⟩ (text "tcp") (text "web:80"))
      ∧ ∃ host session,
        (settled mesh).Dial 2 (text "a") (text "c-1") 30000 (text "tcp") (text "web:80")
          = some (.connected host session (text "tcp") (text "web:80"))
        ∧ session ∈ (settled mesh host).manager.clients.sessions (text "c-1") := by
  have hdial : (settled mesh).Dial 2 (text "a") (text "c-1") 30000 (text "tcp") (text "web:80")
      = some (.connected (text "b") ⟨text "c-1", 4711⟩ (text "tcp") (text "web:80")) := by
    decide +kernel
  refine ⟨hdial, ?_⟩
  have hfits : Fits (text "c-1") (text "tcp") (text "web:80") := by decide
  rcases dial_reaches (text "a") 30000 0 (settled_exact mesh) hfits (by decide) (by decide)
    mesh_peers with ⟨host, session, hreached, hmem, -⟩ | ⟨err, hfailed, -⟩
  · exact ⟨host, session, hreached, hmem⟩
  · rw [hdial] at hfailed
    cases hfailed

/-- A request for `c` goes to and fro between the others. -/
theorem mesh_endless :
    text "c" ≠ [] ∧ ∀ hops, (settled mesh).Dial hops (text "a") (text "c") 30000 (text "tcp")
      (text "web:80") = none := by
  refine ⟨by decide, fun hops => ?_⟩
  have hfits : Fits (text "c") (text "tcp") (text "web:80") := by decide
  refine dial_endless (settled_exact mesh) hfits (by decide) (by decide)
    {s | s ∈ [text "a", text "b", text "c"]} ?_ ?_ ?_ hops (text "a") (by decide) 30000
  · exact fun s hs => (by decide +kernel : ∀ s ∈ [text "a", text "b", text "c"],
      (settled mesh s).manager.clients.sessions (text "c") = []) s hs
  · exact fun s hs => (by decide +kernel : ∀ s ∈ [text "a", text "b", text "c"],
      ∃ p ∈ (settled mesh s).peerSessions,
        (settled mesh p.clientKey).manager.peers.sessions (text "c") ≠ []) s hs
  · exact fun s hs => (by decide +kernel : ∀ s ∈ [text "a", text "b", text "c"],
      ∀ p ∈ (settled mesh s).peerSessions,
        p.clientKey ∈ [text "a", text "b", text "c"]) s hs

end Mesh

end Norman.Remotedialer
