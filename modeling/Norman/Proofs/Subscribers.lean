import Mathlib.Data.List.Basic
import Norman.Broadcast
import Norman.Lib.Run

/-!
# What a subscriber gets

A subscriber gets the items from the first one that is broadcast after it subscribed, one after
another, as long as it has room for them. When an item was dropped for it, it is still subscribed
until the goroutine that unsubscribes it has the lock; if it has read from its channel by then, the
next item is put into it, and there is a gap. As long as no subscriber reads in between, there is
none: the channel stays full until the subscriber is gone.
-/

namespace Norman.Broadcast

/-- All that was put into the channel. -/
def Sub.delivered (c : Sub) : List (ℕ × Doc) := c.received ++ c.buffer

/-- The items of the stream as a subscriber gets them, each with its number. -/
def numbered (sent : List Doc) : List (ℕ × Doc) := sent.zipIdx.map fun e => (e.2, cloneMap e.1)

/-- What was put into the channel is a part of the stream without a gap, from the first item that
was broadcast after the subscription on. -/
def State.GapFree (s : State) (sub : ℕ) : Prop :=
  (s.chans sub).delivered <+: (numbered s.sent).drop (s.chans sub).start

/-- No subscriber reads from its channel between an item that is dropped for it and its `unsub`. -/
def Prompt (s : State) : Action → Prop
  | .read sub => sub ∈ s.subs → (s.chans sub).dropped = false
  | _ => True

instance (s : State) : ∀ a, Decidable (Prompt s a)
  | .read sub => inferInstanceAs (Decidable (sub ∈ s.subs → (s.chans sub).dropped = false))
  | .Subscribe _ | .cancel _ | .item _ | .send _ | .unlock | .unsub _ | .finish => isTrue trivial

section Numbers

theorem numbered_getElem? (sent : List Doc) (n : ℕ) :
    (numbered sent)[n]? = sent[n]?.map fun item => (n, cloneMap item) := by
  rw [numbered, List.getElem?_map, List.getElem?_zipIdx]
  cases sent[n]? <;> simp

theorem numbered_append (sent : List Doc) (item : Doc) :
    numbered (sent ++ [item]) = numbered sent ++ [(sent.length, cloneMap item)] := by
  simp [numbered, List.zipIdx_append]

end Numbers

variable {s s' : State} {a : Action} {o : List Empty}

/-- Who is still to get the item that is being handed out. -/
def State.remaining (s : State) : List ℕ :=
  match s.stream with
  | .sending _ remaining => remaining
  | _ => []

/-- How far the stream has come for a subscriber. -/
def State.level (s : State) (sub : ℕ) : ℕ :=
  (s.chans sub).start + (s.chans sub).delivered.length + if sub ∈ s.remaining then 1 else 0

structure State.Sound (s : State) : Prop where
  gapFree : ∀ sub, s.GapFree sub
  fresh : ∀ sub, s.next ≤ sub → (s.chans sub).delivered = []
  subs : ∀ sub ∈ s.subs, sub < s.next
  remaining : ∀ sub ∈ s.remaining, sub ∈ s.subs
  last : ∀ item remaining, s.stream = .sending item remaining → s.sent.getLast? = some item
  even : ∀ sub ∈ s.subs, (s.chans sub).dropped = false → s.level sub = s.sent.length
  full : ∀ sub ∈ s.subs, (s.chans sub).dropped = true → capacity ≤ (s.chans sub).buffer.length

namespace State

theorem GapFree.number {sub i : ℕ} {e : ℕ × Doc} (h : s.GapFree sub)
    (hi : (s.chans sub).delivered[i]? = some e) : e.1 = (s.chans sub).start + i := by
  obtain ⟨hlt, rfl⟩ := List.getElem?_eq_some_iff.1 hi
  have hget := List.prefix_iff_getElem?.1 h i hlt
  rw [List.getElem?_drop, numbered_getElem?, Option.map_eq_some_iff] at hget
  obtain ⟨item, -, heq⟩ := hget
  rw [← heq]

section Still

/-- Nothing is put into a channel, nothing is broadcast, and no subscriber reads for which an item
was dropped. -/
structure Still (s s' : State) : Prop where
  start : ∀ sub, (s'.chans sub).start = (s.chans sub).start
  delivered : ∀ sub, (s'.chans sub).delivered = (s.chans sub).delivered
  dropped : ∀ sub, (s'.chans sub).dropped = (s.chans sub).dropped
  subs : ∀ sub ∈ s'.subs, sub ∈ s.subs
  buffer : ∀ sub ∈ s'.subs, (s.chans sub).dropped = true →
    (s'.chans sub).buffer = (s.chans sub).buffer
  next : s'.next = s.next
  sent : s'.sent = s.sent
  remaining : s'.remaining = s.remaining

theorem Still.refl (s : State) : Still s s :=
  ⟨fun _ => rfl, fun _ => rfl, fun _ => rfl, fun _ h => h, fun _ _ _ => rfl, rfl, rfl, rfl⟩

theorem Still.trans {s'' : State} (h : Still s s') (h' : Still s' s'') : Still s s'' where
  start sub := (h'.start sub).trans (h.start sub)
  delivered sub := (h'.delivered sub).trans (h.delivered sub)
  dropped sub := (h'.dropped sub).trans (h.dropped sub)
  subs sub hsub := h.subs sub (h'.subs sub hsub)
  buffer sub hsub hd := by
    rw [h'.buffer sub hsub (by rwa [h.dropped]), h.buffer sub (h'.subs sub hsub) hd]
  next := h'.next.trans h.next
  sent := h'.sent.trans h.sent
  remaining := h'.remaining.trans h.remaining

theorem Still.level (h : Still s s') (sub : ℕ) : s'.level sub = s.level sub := by
  simp only [State.level, h.start, h.delivered, h.remaining]

theorem Sound.still (hs : s.Sound) (h : Still s s') (hrem : ∀ sub ∈ s'.remaining, sub ∈ s'.subs)
    (hlast : ∀ item remaining, s'.stream = .sending item remaining →
      ∃ remaining, s.stream = .sending item remaining) : s'.Sound where
  gapFree sub := by
    rw [GapFree, h.delivered, h.start, h.sent]
    exact hs.gapFree sub
  fresh sub hsub := by
    rw [h.next] at hsub
    rw [h.delivered]
    exact hs.fresh sub hsub
  subs sub hsub := by
    rw [h.next]
    exact hs.subs sub (h.subs sub hsub)
  remaining := hrem
  last item remaining hstream := by
    obtain ⟨remaining, hstream⟩ := hlast item remaining hstream
    rw [h.sent]
    exact hs.last item remaining hstream
  even sub hsub hdropped := by
    rw [h.dropped] at hdropped
    rw [h.level, h.sent]
    exact hs.even sub (h.subs sub hsub) hdropped
  full sub hsub hdropped := by
    rw [h.dropped] at hdropped
    rw [h.buffer sub hsub hdropped]
    exact hs.full sub (h.subs sub hsub) hdropped

/-- A channel of which nothing changes that counts. -/
theorem Still.setChan {sub : ℕ} {c : Sub} (hstart : c.start = (s.chans sub).start)
    (hdelivered : c.delivered = (s.chans sub).delivered)
    (hdropped : c.dropped = (s.chans sub).dropped)
    (hbuffer : sub ∈ s.subs → (s.chans sub).dropped = true → c.buffer = (s.chans sub).buffer) :
    Still s (s.setChan sub c) where
  start := s.chans_setChan Sub.start hstart
  delivered := s.chans_setChan Sub.delivered hdelivered
  dropped := s.chans_setChan Sub.dropped hdropped
  subs _ h := h
  buffer sub' hsub hd := by
    by_cases h : sub' = sub
    · subst h
      simpa [State.setChan] using hbuffer hsub hd
    · simp [State.setChan, h]
  next := rfl
  sent := rfl
  remaining := rfl

theorem still_unsub (s : State) (sub : ℕ) : Still s (s.unsub sub) := by
  unfold State.unsub
  split
  · have h : Still s (s.setChan sub { s.chans sub with closed := true }) :=
      .setChan rfl rfl rfl fun _ _ => rfl
    exact { h with
      subs := fun _ hmem => List.mem_of_mem_filter hmem
      buffer := fun _ hmem => h.buffer _ (List.mem_of_mem_filter hmem) }
  · exact .refl s

theorem stream_unsub (s : State) (sub : ℕ) : (s.unsub sub).stream = s.stream := by
  unfold State.unsub
  split <;> rfl

theorem still_foldl_unsub : ∀ (l : List ℕ) (s : State), Still s (l.foldl unsub s)
  | [], s => .refl s
  | sub :: l, s => (still_unsub s sub).trans (still_foldl_unsub l (s.unsub sub))

theorem remaining_eq_nil (h : s.locked = false) : s.remaining = [] := by
  unfold locked at h
  unfold State.remaining
  split at h <;> simp_all

end Still

section Subscribe

/-- What a subscription does, if the stream is there or can be started. -/
theorem subscribe_cases (hlock : s.locked = false) (connect : Bool) : s.subscribe connect = s
    ∨ ∃ stream, (∀ item remaining, stream ≠ .sending item remaining)
      ∧ s.subscribe connect = s.enroll stream := by
  unfold subscribe
  cases hstream : s.stream with
  | off =>
    cases connect with
    | false => exact .inl rfl
    | true => exact .inr ⟨.waiting, nofun, rfl⟩
  | waiting => exact .inr ⟨.waiting, nofun, rfl⟩
  | sending item remaining => simp [locked, hstream] at hlock

variable {stream : Stream}

theorem enroll_old {sub : ℕ} (hlt : sub < s.next) : (s.enroll stream).chans sub = s.chans sub :=
  Function.update_of_ne (by omega) _ _

theorem enroll_new : (s.enroll stream).chans s.next = { start := s.sent.length } :=
  Function.update_self _ _ _

theorem Sound.enroll_fresh (hs : s.Sound) {sub : ℕ} (hle : s.next ≤ sub) :
    ((s.enroll stream).chans sub).delivered = [] := by
  by_cases h : sub = s.next
  · rw [h, enroll_new]
    rfl
  · have hchan : (s.enroll stream).chans sub = s.chans sub := Function.update_of_ne h _ _
    rw [hchan]
    exact hs.fresh sub hle

theorem Sound.enroll (hs : s.Sound) (hlock : s.locked = false)
    (hstream : ∀ item remaining, stream ≠ .sending item remaining) : (s.enroll stream).Sound := by
  have hrem : (s.enroll stream).remaining = [] := by
    cases stream with
    | sending item remaining => exact absurd rfl (hstream item remaining)
    | _ => rfl
  have hlevel : ∀ sub, sub < s.next → (s.enroll stream).level sub = s.level sub := by
    intro sub hlt
    rw [level, level, hrem, remaining_eq_nil hlock, enroll_old hlt]
  refine ⟨fun sub => ?_, fun sub hsub => hs.enroll_fresh (Nat.le_of_lt hsub), fun sub hsub => ?_,
    by simp [hrem], fun item remaining h => absurd h (hstream item remaining), fun sub hsub hd => ?_,
    fun sub hsub hd => ?_⟩
  · by_cases hlt : sub < s.next
    · rw [GapFree, enroll_old hlt]
      exact hs.gapFree sub
    · rw [GapFree, hs.enroll_fresh (Nat.le_of_not_lt hlt)]
      exact List.nil_prefix
  · rcases List.mem_append.1 hsub with hsub | hsub
    · exact (hs.subs sub hsub).trans (Nat.lt_succ_self _)
    · cases List.mem_singleton.1 hsub
      exact Nat.lt_succ_self _
  · rcases List.mem_append.1 hsub with hsub | hsub
    · have hlt := hs.subs sub hsub
      rw [enroll_old hlt] at hd
      rw [hlevel sub hlt]
      exact hs.even sub hsub hd
    · cases List.mem_singleton.1 hsub
      rw [level, hrem, enroll_new]
      rfl
  · rcases List.mem_append.1 hsub with hsub | hsub
    · rw [enroll_old (hs.subs sub hsub)] at hd ⊢
      exact hs.full sub hsub hd
    · cases List.mem_singleton.1 hsub
      rw [enroll_new] at hd
      cases hd

end Subscribe

section Item

theorem Sound.item (hs : s.Sound) (hstream : s.stream = .waiting) (item : Doc) :
    Sound { s with stream := .sending item s.subs, sent := s.sent ++ [item] } := by
  have hrem : s.remaining = [] := by simp [State.remaining, hstream]
  have hlevel : ∀ sub ∈ s.subs,
      level { s with stream := .sending item s.subs, sent := s.sent ++ [item] } sub
        = s.level sub + 1 := by
    intro sub hsub
    simp [level, State.remaining, hstream, hsub]
  refine ⟨fun sub => ?_, hs.fresh, hs.subs, fun sub hsub => hsub, fun _ _ h => ?_,
    fun sub hsub hd => ?_, hs.full⟩
  · refine (hs.gapFree sub).trans ?_
    rw [numbered_append, List.drop_append]
    exact List.prefix_append _ _
  · cases h
    simp
  · rw [hlevel sub hsub, hs.even sub hsub hd, List.length_append, List.length_singleton]

end Item

section Send

variable {item : Doc} {remaining : List ℕ} {sub : ℕ}

/-- The state after the item was put into the channel, or dropped. -/
def handed (s : State) (item : Doc) (remaining : List ℕ) (sub : ℕ) : State :=
  { s.send item sub with stream := .sending item (remaining.filter (· ≠ sub)) }

/-- The channel after the item was put into it, or dropped. -/
def handedChan (s : State) (item : Doc) (sub : ℕ) : Sub :=
  if (s.chans sub).buffer.length < capacity then
    { s.chans sub with buffer := (s.chans sub).buffer ++ [(s.sent.length - 1, cloneMap item)] }
  else { s.chans sub with dropped := true }

theorem handed_self : (s.handed item remaining sub).chans sub = s.handedChan item sub := by
  unfold handed send handedChan
  dsimp only
  split <;> simp [setChan]

theorem handed_other {sub' : ℕ} (h : sub' ≠ sub) :
    (s.handed item remaining sub).chans sub' = s.chans sub' := by
  unfold handed send
  dsimp only
  split <;> simp [setChan, h]

theorem handed_subs : (s.handed item remaining sub).subs = s.subs := by
  unfold handed send
  dsimp only
  split <;> rfl

theorem handed_next : (s.handed item remaining sub).next = s.next := by
  unfold handed send
  dsimp only
  split <;> rfl

theorem handed_sent : (s.handed item remaining sub).sent = s.sent := by
  unfold handed send
  dsimp only
  split <;> rfl

theorem handedChan_start : (s.handedChan item sub).start = (s.chans sub).start := by
  unfold handedChan
  split <;> rfl

theorem handedChan_room (h : (s.chans sub).buffer.length < capacity) :
    (s.handedChan item sub).delivered
        = (s.chans sub).delivered ++ [(s.sent.length - 1, cloneMap item)]
      ∧ (s.handedChan item sub).dropped = (s.chans sub).dropped := by
  simp [handedChan, h, Sub.delivered]

theorem handedChan_full (h : ¬ (s.chans sub).buffer.length < capacity) :
    (s.handedChan item sub).delivered = (s.chans sub).delivered
      ∧ (s.handedChan item sub).buffer = (s.chans sub).buffer
      ∧ (s.handedChan item sub).dropped = true := by
  simp [handedChan, h, Sub.delivered]

/-- Another subscriber is where it was. -/
theorem level_handed_other {sub' : ℕ} (hstream : s.stream = .sending item remaining) (h : sub' ≠ sub) :
    (s.handed item remaining sub).level sub' = s.level sub' := by
  unfold level
  rw [handed_other h]
  simp [State.remaining, handed, hstream, h]

/-- With the item, a subscriber is where it was before. -/
theorem level_handed_self (hstream : s.stream = .sending item remaining) (hsub : sub ∈ remaining)
    (hroom : (s.chans sub).buffer.length < capacity) :
    (s.handed item remaining sub).level sub = s.level sub := by
  unfold level
  rw [handed_self, handedChan_start]
  have hrem : sub ∈ s.remaining := by
    simpa [State.remaining, hstream] using hsub
  have hrem' : sub ∉ (s.handed item remaining sub).remaining := by
    simp [State.remaining, handed]
  rw [if_pos hrem, if_neg hrem', (handedChan_room hroom).1, List.length_append,
    List.length_singleton]
  omega

/-- Who has room missed no item, and gets the one that comes next. -/
theorem Sound.gapFree_handed (hs : s.Sound) (hstream : s.stream = .sending item remaining)
    (hsub : sub ∈ remaining) : (s.handed item remaining sub).GapFree sub := by
  have hrem : sub ∈ s.remaining := by
    simpa [State.remaining, hstream] using hsub
  have hmem := hs.remaining sub hrem
  rw [GapFree, handed_self, handedChan_start, handed_sent]
  by_cases hroom : (s.chans sub).buffer.length < capacity
  · rw [(handedChan_room hroom).1]
    have hdropped : (s.chans sub).dropped = false := by
      by_contra hd
      have := hs.full sub hmem (by simpa using hd)
      omega
    have hlevel := hs.even sub hmem hdropped
    rw [level, if_pos hrem] at hlevel
    obtain ⟨rest, hrest⟩ := hs.gapFree sub
    have hnext : rest[0]? = some (s.sent.length - 1, cloneMap item) := by
      have hget : ((numbered s.sent).drop (s.chans sub).start)[(s.chans sub).delivered.length]?
          = some (s.sent.length - 1, cloneMap item) := by
        have hindex : (s.chans sub).start + (s.chans sub).delivered.length = s.sent.length - 1 := by
          omega
        rw [List.getElem?_drop, hindex, numbered_getElem?, ← List.getLast?_eq_getElem?,
          hs.last item remaining hstream, Option.map_some]
      rwa [← hrest, List.getElem?_append_right le_rfl, Nat.sub_self] at hget
    cases rest with
    | nil => cases hnext
    | cons e rest =>
      cases hnext
      exact ⟨rest, by rw [← hrest, List.append_assoc, List.singleton_append]⟩
  · rw [(handedChan_full hroom).1]
    exact hs.gapFree sub

theorem Sound.handed (hs : s.Sound) (hstream : s.stream = .sending item remaining)
    (hsub : sub ∈ remaining) : (s.handed item remaining sub).Sound := by
  have hmem : sub ∈ s.subs := hs.remaining sub (by simpa [State.remaining, hstream] using hsub)
  refine ⟨fun sub' => ?_, fun sub' hle => ?_, ?_, fun sub' h => ?_, fun item' remaining' h => ?_,
    fun sub' hsub' hd => ?_, fun sub' hsub' hd => ?_⟩
  · by_cases h : sub' = sub
    · subst h
      exact hs.gapFree_handed hstream hsub
    · rw [GapFree, handed_other h, handed_sent]
      exact hs.gapFree sub'
  · rw [handed_next] at hle
    have hne : sub' ≠ sub := by
      have := hs.subs sub hmem
      omega
    rw [handed_other hne]
    exact hs.fresh sub' hle
  · rw [handed_subs, handed_next]
    exact hs.subs
  · rw [handed_subs]
    have hrem : sub' ∈ remaining := List.mem_of_mem_filter h
    exact hs.remaining sub' (by simpa [State.remaining, hstream] using hrem)
  · cases h
    rw [handed_sent]
    exact hs.last item remaining hstream
  · rw [handed_subs] at hsub'
    rw [handed_sent]
    by_cases h : sub' = sub
    · subst h
      rw [handed_self] at hd
      by_cases hroom : (s.chans sub').buffer.length < capacity
      · rw [(handedChan_room hroom).2] at hd
        rw [level_handed_self hstream hsub hroom]
        exact hs.even sub' hmem hd
      · simp [(handedChan_full hroom).2.2] at hd
    · rw [handed_other h] at hd
      rw [level_handed_other hstream h]
      exact hs.even sub' hsub' hd
  · rw [handed_subs] at hsub'
    by_cases h : sub' = sub
    · subst h
      rw [handed_self] at hd ⊢
      by_cases hroom : (s.chans sub').buffer.length < capacity
      · rw [(handedChan_room hroom).2] at hd
        have := hs.full sub' hmem hd
        omega
      · rw [(handedChan_full hroom).2.1]
        exact Nat.le_of_not_lt hroom
    · rw [handed_other h] at hd ⊢
      exact hs.full sub' hsub' hd

end Send

/-- Every step keeps the invariant, unless a subscriber reads when it should not. -/
theorem Sound.step (hs : s.Sound) (hp : Prompt s a) (h : step s a = some (s', o)) : s'.Sound := by
  cases a <;> simp only [Broadcast.step] at h
  case Subscribe connect =>
    split at h <;> cases h
    rename_i hlock
    have hlock : s.locked = false := by simpa using hlock
    rcases subscribe_cases hlock connect with heq | ⟨stream, hstream, heq⟩ <;> rw [heq]
    · exact hs
    · exact hs.enroll hlock hstream
  case cancel sub =>
    split at h <;> cases h
    have hst : Still s (s.setChan sub { s.chans sub with done := true }) :=
      .setChan rfl rfl rfl fun _ _ => rfl
    exact hs.still { hst with } hs.remaining fun _ remaining h => ⟨remaining, h⟩
  case item item =>
    split at h <;> cases h
    exact hs.item ‹_› item
  case send sub =>
    split at h
    · rename_i item remaining hstream
      split at h <;> cases h
      exact hs.handed hstream ‹_›
    · cases h
  case unlock =>
    split at h <;> cases h
    rename_i hstream
    have hrem : s.remaining = [] := by simp [State.remaining, hstream]
    exact hs.still { Still.refl s with remaining := hrem.symm } nofun nofun
  case unsub sub =>
    split at h <;> cases h
    rename_i hlock
    have hst := still_unsub s sub
    refine hs.still { hst with } (fun sub' hsub' => ?_) fun item remaining hstream => ?_
    · have hnil : (s.unsub sub).remaining = [] := hst.remaining.trans (remaining_eq_nil hlock.1)
      have hmem : sub' ∈ (s.unsub sub).remaining := hsub'
      simp [hnil] at hmem
    · exact ⟨remaining, (stream_unsub s sub).symm.trans hstream⟩
  case read sub =>
    split at h <;> cases h
    rename_i e buffer hbuffer
    have hst : Still s (s.setChan sub
        { s.chans sub with buffer, received := (s.chans sub).received ++ [e] }) :=
      .setChan rfl (by simp [Sub.delivered, hbuffer]) rfl fun hsub hd => by simp [hp hsub] at hd
    exact hs.still hst hs.remaining fun _ remaining h => ⟨remaining, h⟩
  case finish =>
    split at h <;> cases h
    rename_i hstream
    have hst := still_foldl_unsub s.subs s
    have hrem : s.remaining = [] := by simp [State.remaining, hstream]
    exact hs.still { hst with remaining := hrem.symm } nofun nofun

end State

/-- In a run in which no subscriber reads between an item that is dropped for it and its `unsub`,
no subscriber gets an item after one that it did not get. -/
theorem gapFree_of_prompt {as : List Action} {w : List Empty}
    (h : Run.exec step {} as = some (s, w)) (hprompt : Run.Along step Prompt {} as) :
    ∀ sub, s.GapFree sub := by
  have hinit : State.Sound {} :=
    ⟨fun _ => List.nil_prefix, fun _ _ => rfl, nofun, nofun, nofun, nofun, nofun⟩
  have hs : s.Sound := Run.exec_invariant_along (fun s _ => s.Sound) hinit
    (fun _ _ _ _ _ hs hp h => hs.step hp h) h hprompt
  exact hs.gapFree

section Slow

/-- One round of the stream, with one subscriber. -/
def round : List Action := [.item [], .send 0, .unlock]

/-- The subscriber reads as the items come. -/
def steady : List Action := .Subscribe true :: (round ++ [.read 0] ++ round)

theorem steady_gapFree :
    ∃ s w, Run.exec step {} steady = some (s, w)
      ∧ (s.chans 0).received.map Prod.fst = [0] ∧ (s.chans 0).buffer.map Prod.fst = [1]
      ∧ ∀ sub, s.GapFree sub := by
  have hend : (Run.exec step {} steady).map
      (fun r => ((r.1.chans 0).received.map Prod.fst, (r.1.chans 0).buffer.map Prod.fst))
      = some ([0], [1]) := by
    decide +kernel
  obtain ⟨⟨s, w⟩, hrun, hs⟩ := Option.map_eq_some_iff.1 hend
  simp only [Prod.mk.injEq] at hs
  exact ⟨s, w, hrun, hs.1, hs.2, gapFree_of_prompt hrun (by decide +kernel)⟩

/-- The subscriber does not read until the hundred and first item was dropped for it; it reads one,
and the next one comes before it is unsubscribed. -/
def slow : List Action :=
  .Subscribe true :: ((List.replicate 101 round).flatten ++ .read 0 :: round)

/-- The item after the one that was dropped is put into the channel. -/
theorem slow_gap :
    ∃ s w, Run.exec step {} slow = some (s, w) ∧ 0 ∈ s.subs ∧ (s.chans 0).closed = false
      ∧ ((s.chans 0).received ++ (s.chans 0).buffer).map Prod.fst = List.range 100 ++ [101]
      ∧ ¬ s.GapFree 0 := by
  have hend : (Run.exec step {} slow).map (fun r => (r.1.subs, (r.1.chans 0).closed,
      ((r.1.chans 0).received ++ (r.1.chans 0).buffer).map Prod.fst, (r.1.chans 0).start))
      = some ([0], false, List.range 100 ++ [101], 0) := by
    decide +kernel
  obtain ⟨⟨s, w⟩, hrun, hs⟩ := Option.map_eq_some_iff.1 hend
  simp only [Prod.mk.injEq] at hs
  obtain ⟨hsubs, hclosed, hnumbers, hstart⟩ := hs
  refine ⟨s, w, hrun, by simp [hsubs], hclosed, hnumbers, fun hfree => ?_⟩
  have hlast : (((s.chans 0).received ++ (s.chans 0).buffer).map Prod.fst)[100]? = some 101 := by
    rw [hnumbers]
    decide
  rw [List.getElem?_map] at hlast
  obtain ⟨e, he, hnumber⟩ := Option.map_eq_some_iff.1 hlast
  have := hfree.number he
  omega

end Slow

end Norman.Broadcast
