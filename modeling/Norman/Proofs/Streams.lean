import Mathlib.Data.List.Nodup
import Norman.Lib.Run
import Norman.Streams

/-!
# The channels of the subscribers

A channel is among the subscribers from when it is handed out until it is closed, and whoever closes
it takes it out, all under the lock (`Booked`). A loop has the lock while it goes over the
subscribers, so none of them is closed in the meantime, and as there is only one loop at a time, it
is the one to which they all belong (`Orderly`). With one loop the broadcaster is that of
`Norman.Broadcast` (`Orderly.refines`, `run_refines`).
-/

namespace Norman.Broadcast

open Channel (Disciplined)

section Book

variable {b b' : State} {w : Log} {sub : ℕ}

structure Booked (b : State) (w : Log) : Prop where
  subs_iff : ∀ sub, sub ∈ b.subs ↔ sub < b.next ∧ (b.chans sub).closed = false
  nodup : b.subs.Nodup
  logged : ∀ sub, .closed sub ∈ w ↔ sub < b.next ∧ (b.chans sub).closed = true
  disciplined : Disciplined w

theorem Booked.not_closed (h : Booked b w) (hsub : sub ∈ b.subs) : .closed sub ∉ w := by
  intro hmem
  have hopen := ((h.subs_iff sub).1 hsub).2
  rw [((h.logged sub).1 hmem).2] at hopen
  cases hopen

/-- What opens and closes no channel. -/
theorem Booked.same (h : Booked b w) (hsubs : b'.subs = b.subs) (hnext : b'.next = b.next)
    (hclosed : ∀ sub, (b'.chans sub).closed = (b.chans sub).closed) : Booked b' w where
  subs_iff sub := by rw [hsubs, hnext, hclosed]; exact h.subs_iff sub
  nodup := by rw [hsubs]; exact h.nodup
  logged sub := by rw [hnext, hclosed]; exact h.logged sub
  disciplined := h.disciplined

theorem Booked.enroll (h : Booked b w) (stream : Stream) : Booked (b.enroll stream) w := by
  have hchan : ∀ sub, ((b.enroll stream).chans sub).closed
      = if sub = b.next then false else (b.chans sub).closed := by
    intro sub
    by_cases hsub : sub = b.next <;> simp [State.enroll, State.setChan, hsub]
  have hnew : b.next ∉ b.subs := fun hmem => absurd ((h.subs_iff _).1 hmem).1 (lt_irrefl _)
  refine ⟨fun sub => ?_, ?_, fun sub => ?_, h.disciplined⟩
  · rw [hchan, State.enroll, List.mem_append, List.mem_singleton, h.subs_iff]
    split_ifs with hsub
    · simp [hsub]
    · simp only [hsub, or_false]
      have hlt : sub < b.next + 1 ↔ sub < b.next := by omega
      rw [hlt]
  · rw [State.enroll, ← List.concat_eq_append]
    exact h.nodup.concat hnew
  · rw [hchan, h.logged]
    split_ifs with hsub
    · simp [hsub]
    · have hlt : sub < b.next + 1 ↔ sub < b.next := by omega
      rw [← hlt]
      rfl

theorem Booked.unsub (h : Booked b w) (hsub : sub ∈ b.subs) :
    Booked (b.unsub sub) (w ++ [.closed sub]) := by
  have hlt := ((h.subs_iff sub).1 hsub).1
  have hchan : ∀ sub', ((b.unsub sub).chans sub').closed
      = if sub' = sub then true else (b.chans sub').closed := by
    intro sub'
    rw [State.unsub, if_pos hsub]
    by_cases heq : sub' = sub <;> simp [State.setChan, heq]
  have hsubs : (b.unsub sub).subs = b.subs.filter (· ≠ sub) := by
    rw [State.unsub, if_pos hsub]
  have hnext : (b.unsub sub).next = b.next := by
    rw [State.unsub, if_pos hsub]
    rfl
  refine ⟨fun sub' => ?_, ?_, fun sub' => ?_, h.disciplined.close (h.not_closed hsub)⟩
  · rw [hsubs, hnext, hchan, List.mem_filter, h.subs_iff]
    split_ifs with heq
    · simp [heq]
    · simp [heq]
  · rw [hsubs]
    exact h.nodup.filter _
  · rw [hnext, hchan, List.mem_append, h.logged, List.mem_singleton, Channel.Event.closed.injEq]
    split_ifs with heq
    · simp [heq, hlt]
    · simp [heq]

theorem unsub_of_not_mem (hsub : sub ∉ b.subs) : b.unsub sub = b := by
  rw [State.unsub, if_neg hsub]

theorem mem_unsub {sub' : ℕ} (hsub : sub ∈ b.subs) :
    sub' ∈ (b.unsub sub).subs ↔ sub' ∈ b.subs ∧ sub' ≠ sub := by
  rw [State.unsub, if_pos hsub, List.mem_filter]
  simp

/-- Several subscribers are unsubscribed, one after another. -/
theorem Booked.unsubAll : ∀ {l : List ℕ} {b : State} {w : Log}, Booked b w → l.Nodup →
    (∀ sub ∈ l, sub ∈ b.subs) →
      Booked (l.foldl State.unsub b) (w ++ l.map .closed)
        ∧ ∀ sub, sub ∈ (l.foldl State.unsub b).subs ↔ sub ∈ b.subs ∧ sub ∉ l
  | [], b, w, h, _, _ => by simpa using h
  | sub :: l, b, w, h, hn, hl => by
    obtain ⟨hnot, hn⟩ := List.nodup_cons.1 hn
    have hsub : sub ∈ b.subs := hl sub List.mem_cons_self
    have hrest : ∀ sub' ∈ l, sub' ∈ (b.unsub sub).subs := fun sub' hsub' =>
      (mem_unsub hsub).2 ⟨hl sub' (List.mem_cons_of_mem sub hsub'), fun heq => hnot (heq ▸ hsub')⟩
    obtain ⟨hbooked, hsubs⟩ := (h.unsub hsub).unsubAll hn hrest
    rw [List.map_cons, List.append_cons, List.foldl_cons]
    refine ⟨hbooked, fun sub' => ?_⟩
    rw [hsubs, mem_unsub hsub, List.mem_cons, not_or, and_assoc]

theorem Booked.sent (h : Booked b w) (hsub : sub ∈ b.subs) (item : Doc) :
    Booked b (w ++ [.sent sub item]) where
  subs_iff := h.subs_iff
  nodup := h.nodup
  logged sub' := by rw [← h.logged sub']; simp
  disciplined := h.disciplined.send (h.not_closed hsub) item

theorem Booked.send (h : Booked b w) (item : Doc) (sub : ℕ) : Booked (b.send item sub) w := by
  simp only [State.send]
  split_ifs
  · exact h.same rfl rfl (State.chans_setChan _ Sub.closed rfl)
  · exact h.same rfl rfl (State.chans_setChan _ Sub.closed rfl)

theorem send_subs (item : Doc) (sub : ℕ) : (b.send item sub).subs = b.subs := by
  simp only [State.send]
  split_ifs <;> rfl

end Book

namespace Shared

section Steps

variable {s s' : Shared} {o : Log}

/-- What the broadcaster and its loops do next, by the action. -/
inductive Steps (s : Shared) : Action → Shared → Log → Prop
  | Subscribe (connect : Bool) (unlocked : s.locked = false) :
    Steps s (.Subscribe connect) (s.subscribe connect) []
  | cancel {sub : ℕ} (known : sub < s.book.next ∧ (s.book.chans sub).done = false) :
    Steps s (.cancel sub)
      (s.setBook { s.book.setChan sub { s.book.chans sub with done := true } with
        pending := s.book.pending ++ [sub] }) []
  | item {i id : ℕ} (item : Doc) (waits : s.loops[i]? = some ⟨id, none⟩) :
    Steps s (.item i item)
      { s with
        loops := s.loops.set i ⟨id, some (item, s.book.subs)⟩
        book := { s.book with sent := s.book.sent ++ [item] } } []
  | send {i id sub : ℕ} {item : Doc} {remaining : List ℕ}
      (sends : s.loops[i]? = some ⟨id, some (item, remaining)⟩) (left : sub ∈ remaining) :
    Steps s (.send i sub)
      { s with
        loops := s.loops.set i ⟨id, some (item, remaining.filter (· ≠ sub))⟩
        book := s.book.send item sub } (s.sending item sub)
  | unlock {i id : ℕ} {item : Doc} (sent : s.loops[i]? = some ⟨id, some (item, [])⟩) :
    Steps s (.unlock i) { s with loops := s.loops.set i ⟨id, none⟩ } []
  | unsub {sub : ℕ} (pending : s.locked = false ∧ sub ∈ s.book.pending) :
    Steps s (.unsub sub)
      (s.setBook { s.book.unsub sub with pending := s.book.pending.erase sub }) (s.closing sub)
  | read {sub : ℕ} {e : ℕ × Doc} {buffer : List (ℕ × Doc)}
      (buffered : (s.book.chans sub).buffer = e :: buffer) :
    Steps s (.read sub)
      (s.setBook (s.book.setChan sub
        { s.book.chans sub with buffer, received := (s.book.chans sub).received ++ [e] })) []
  | finish {i id : ℕ} (waits : s.loops[i]? = some ⟨id, none⟩) :
    Steps s (.finish i) (s.finish i) (s.book.subs.flatMap s.closing)

theorem steps_of_step {a : Action} (hs : s.step a = some (s', o)) : Steps s a s' o := by
  cases a <;> simp only [Shared.step] at hs
  case Subscribe connect =>
    split_ifs at hs with hlock
    cases hs
    exact .Subscribe connect (by simpa using hlock)
  case cancel sub =>
    split_ifs at hs with hknown
    cases hs
    exact .cancel hknown
  case item i item =>
    split at hs
    · rename_i id hi
      split_ifs at hs
      cases hs
      exact .item item hi
    · cases hs
  case send i sub =>
    split at hs
    · rename_i id item remaining hi
      split_ifs at hs with hsub
      cases hs
      exact .send hi hsub
    · cases hs
  case unlock i =>
    split at hs
    · rename_i id item hi
      cases hs
      exact .unlock hi
    · cases hs
  case unsub sub =>
    split_ifs at hs with hpending
    cases hs
    exact .unsub hpending
  case read sub =>
    split at hs
    · cases hs
    · rename_i e buffer hbuffer
      cases hs
      exact .read hbuffer
  case finish i =>
    split at hs
    · rename_i id hi
      split_ifs at hs
      cases hs
      exact .finish hi
    · cases hs

end Steps

section Step

variable {s s' : Shared} {w o : Log} {i : ℕ}

/-- What holds of a broadcaster and of all that was done to its channels. -/
structure Orderly (s : Shared) (w : Log) : Prop where
  book : Booked s.book w
  one : s.loops.length ≤ 1
  running : s.running = true ↔ s.loops ≠ []
  latest : ∀ l ∈ s.loops, l.id + 1 = s.streams
  remaining : ∀ l ∈ s.loops, ∀ item rest, l.sending = some (item, rest) →
    ∀ sub ∈ rest, sub ∈ s.book.subs
  home : ∀ sub ∈ s.book.subs, s.running = true ∧ s.home sub + 1 = s.streams

/-- There is no other loop. -/
theorem Orderly.loops_eq (h : Orderly s w) {l : Loop} (hi : s.loops[i]? = some l) :
    s.loops = [l] ∧ i = 0 := by
  have hone := h.one
  rcases hl : s.loops with _ | ⟨l', _ | ⟨l'', loops⟩⟩
  · simp [hl] at hi
  · rw [hl] at hi
    cases i with
    | zero =>
      cases hi
      exact ⟨rfl, rfl⟩
    | succ i => simp at hi
  · simp [hl] at hone

/-- Only the channels are read or looked after. -/
theorem Orderly.setBook (h : Orderly s w) {b : State} (hbook : Booked b (w ++ o))
    (hsubs : ∀ sub ∈ b.subs, sub ∈ s.book.subs)
    (hremaining : ∀ l ∈ s.loops, ∀ item rest, l.sending = some (item, rest) →
      ∀ sub ∈ rest, sub ∈ b.subs) : Orderly (s.setBook b) (w ++ o) where
  book := hbook
  one := h.one
  running := h.running
  latest := h.latest
  remaining := hremaining
  home sub hsub := h.home sub (hsubs sub hsub)

/-- The loop goes on with what is left to do. -/
theorem Orderly.setLoop (h : Orderly s w) {l l' : Loop} (hi : s.loops[i]? = some l)
    (hid : l'.id = l.id) {b : State} (hbook : Booked b (w ++ o)) (hsubs : b.subs = s.book.subs)
    (hremaining : ∀ item rest, l'.sending = some (item, rest) → ∀ sub ∈ rest, sub ∈ s.book.subs) :
    Orderly { s with loops := s.loops.set i l', book := b } (w ++ o) := by
  obtain ⟨hl, rfl⟩ := h.loops_eq hi
  have hloops : s.loops.set 0 l' = [l'] := by rw [hl]; rfl
  have hlatest := h.latest l (by rw [hl]; exact List.mem_singleton_self l)
  have hrunning : s.running = true := h.running.2 (by rw [hl]; simp)
  refine ⟨hbook, ?_, ?_, ?_, ?_, ?_⟩
  · rw [hloops]
    exact le_rfl
  · rw [hloops]
    simp [hrunning]
  · intro l'' hl''
    rw [hloops, List.mem_singleton] at hl''
    rw [hl'', hid]
    exact hlatest
  · intro l'' hl''
    rw [hloops, List.mem_singleton] at hl''
    rw [hl'', hsubs]
    exact hremaining
  · intro sub hsub
    rw [hsubs] at hsub
    exact h.home sub hsub

theorem no_remaining (h : s.locked = false) {l : Loop} (hl : l ∈ s.loops) :
    l.sending = none := by
  unfold locked at h
  rw [List.any_eq_false] at h
  simpa using h l hl

theorem Orderly.start (h : Orderly s w) (hrunning : s.running = false) :
    Orderly s.start w := by
  have hnil : s.loops = [] := by
    by_contra hne
    rw [h.running.2 hne] at hrunning
    cases hrunning
  have hempty : ∀ sub, sub ∉ s.book.subs := by
    intro sub hsub
    rw [(h.home sub hsub).1] at hrunning
    cases hrunning
  refine ⟨h.book, ?_, ?_, ?_, ?_, ?_⟩
  · simp [Shared.start, hnil]
  · simp [Shared.start]
  · simp [Shared.start, hnil]
  · simp [Shared.start, hnil]
  · exact fun sub hsub => absurd hsub (hempty sub)

theorem Orderly.enroll (h : Orderly s w) (hlock : s.locked = false) (hrunning : s.running = true) :
    Orderly s.enroll w where
  book := h.book.enroll .off
  one := h.one
  running := h.running
  latest := h.latest
  remaining l hl item rest hsending := by
    rw [no_remaining hlock hl] at hsending
    cases hsending
  home sub hsub := by
    refine ⟨hrunning, ?_⟩
    obtain ⟨l, hl⟩ := List.exists_mem_of_ne_nil _ (h.running.1 hrunning)
    have hpos := h.latest l hl
    by_cases heq : sub = s.book.next
    · simp only [Shared.enroll, heq, Function.update_self]
      omega
    · have hold : sub ∈ s.book.subs := by
        simpa [Shared.enroll, State.enroll, heq] using hsub
      simp only [Shared.enroll, Function.update_of_ne heq]
      exact (h.home sub hold).2

theorem Orderly.subscribe (h : Orderly s w) (hlock : s.locked = false) (connect : Bool) :
    Orderly (s.subscribe connect) w := by
  unfold Shared.subscribe
  by_cases hrunning : s.running = true
  · rw [if_pos hrunning]
    exact h.enroll hlock hrunning
  · rw [if_neg hrunning]
    rw [Bool.not_eq_true] at hrunning
    have hlock' : s.start.locked = false := by
      unfold locked at hlock ⊢
      simp only [Shared.start, List.any_append, hlock]
      rfl
    split_ifs
    · exact (h.start hrunning).enroll hlock' rfl
    · exact h

theorem Orderly.closing_eq (h : Orderly s w) {sub : ℕ} (hsub : sub ∈ s.book.subs) :
    s.closing sub = [.closed sub] := by
  rw [closing, if_pos hsub, ((h.book.subs_iff sub).1 hsub).2, Channel.close_open]

theorem Orderly.finish (h : Orderly s w) {l : Loop} (hi : s.loops[i]? = some l) :
    Orderly (s.finish i) (w ++ s.book.subs.flatMap s.closing) := by
  obtain ⟨hl, rfl⟩ := h.loops_eq hi
  have hloops : s.loops.eraseIdx 0 = [] := by rw [hl]; rfl
  have hlog : s.book.subs.flatMap s.closing = s.book.subs.map .closed := by
    rw [List.map_eq_flatMap]
    exact List.flatMap_congr fun sub hsub => h.closing_eq hsub
  obtain ⟨hbook, hsubs⟩ := h.book.unsubAll h.book.nodup fun _ hsub => hsub
  rw [hlog]
  refine ⟨hbook, ?_, ?_, ?_, ?_, ?_⟩
  · simp [Shared.finish, hloops]
  · simp [Shared.finish, hloops]
  · simp [Shared.finish, hloops]
  · simp [Shared.finish, hloops]
  · intro sub hsub
    obtain ⟨hmem, hnot⟩ := (hsubs sub).1 hsub
    exact absurd hmem hnot

theorem Orderly.sending (h : Orderly s w) {sub : ℕ} (hsub : sub ∈ s.book.subs) (item : Doc) :
    Booked (s.book.send item sub) (w ++ s.sending item sub) := by
  unfold Shared.sending
  rw [if_neg (by simp [((h.book.subs_iff sub).1 hsub).2])]
  split_ifs
  · exact (h.book.sent hsub _).send item sub
  · rw [List.append_nil]
    exact h.book.send item sub

theorem Orderly.step {a : Action} (h : Orderly s w) (hs : s.step a = some (s', o)) :
    Orderly s' (w ++ o) := by
  cases steps_of_step hs with
  | Subscribe connect hlock =>
    rw [List.append_nil]
    exact h.subscribe hlock connect
  | cancel =>
    refine h.setBook ?_ (fun _ hsub => hsub) h.remaining
    rw [List.append_nil]
    exact h.book.same rfl rfl (State.chans_setChan _ Sub.closed rfl)
  | item item hi =>
    refine h.setLoop hi ?_ ?_ rfl ?_
    · rfl
    · rw [List.append_nil]
      exact h.book.same rfl rfl fun _ => rfl
    · intro item rest heq sub hsub
      cases heq
      exact hsub
  | @send i id sub item remaining hi hsub =>
    have hremaining := h.remaining _ (List.mem_of_getElem? hi) item remaining rfl
    refine h.setLoop hi ?_ (h.sending (hremaining sub hsub) item) (send_subs item sub) ?_
    · rfl
    · intro item' rest heq sub' hsub'
      cases heq
      exact hremaining sub' (List.mem_of_mem_filter hsub')
  | unlock hi =>
    refine h.setLoop hi ?_ ?_ rfl ?_
    · rfl
    · rw [List.append_nil]
      exact h.book
    · intro item' rest heq
      cases heq
  | @unsub sub henabled =>
    by_cases hsub : sub ∈ s.book.subs
    · rw [h.closing_eq hsub]
      refine h.setBook ?_ ?_ ?_
      · exact (h.book.unsub hsub).same rfl rfl fun _ => rfl
      · exact fun sub' hsub' => ((mem_unsub hsub).1 hsub').1
      · intro l hl item rest hsending
        rw [no_remaining henabled.1 hl] at hsending
        cases hsending
    · have hlog : s.closing sub = [] := if_neg hsub
      rw [hlog]
      refine h.setBook ?_ ?_ ?_
      · rw [List.append_nil, unsub_of_not_mem hsub]
        exact h.book.same rfl rfl fun _ => rfl
      · rw [unsub_of_not_mem hsub]
        exact fun _ hsub' => hsub'
      · rw [unsub_of_not_mem hsub]
        exact h.remaining
  | read =>
    refine h.setBook ?_ (fun _ hsub => hsub) h.remaining
    rw [List.append_nil]
    exact h.book.same rfl rfl (State.chans_setChan _ Sub.closed rfl)
  | finish hi => exact h.finish hi

end Step

section Runs

variable {s : Shared} {w : Log}

theorem orderly_new : Orderly {} [] where
  book := ⟨by simp, List.nodup_nil, by simp, .nil⟩
  one := Nat.zero_le 1
  running := by simp
  latest := by simp
  remaining := by simp
  home := by simp

theorem orderly_of_run {as : List Action} (h : Run.exec step {} as = some (s, w)) : Orderly s w :=
  Run.exec_invariant (P := Orderly) orderly_new (fun _ _ _ _ _ h hs => h.step hs) h

/-- A channel that is open is subscribed to the stream that runs. -/
theorem Orderly.closed_of_ended (h : Orderly s w) {n : ℕ} (hended : ∀ l ∈ s.loops, l.id ≠ n)
    {sub : ℕ} (hsub : sub < s.book.next) (hhome : s.home sub = n) : .closed sub ∈ w := by
  rw [h.book.logged]
  refine ⟨hsub, ?_⟩
  by_contra hopen
  rw [Bool.not_eq_true] at hopen
  obtain ⟨hrunning, hlast⟩ := h.home sub ((h.book.subs_iff sub).2 ⟨hsub, hopen⟩)
  obtain ⟨l, hl⟩ := List.exists_mem_of_ne_nil _ (h.running.1 hrunning)
  have hid := h.latest l hl
  exact hended l hl (by omega)

/-- In every run each channel is closed once, and nothing is sent to it after that; the subscribers
are the channels that were handed out and not closed; there is one loop while `running` says so, and
none otherwise; and when a stream has ended, the channels that were subscribed to it are closed. -/
theorem channels_disciplined {as : List Action} (h : Run.exec step {} as = some (s, w)) :
    Disciplined w
      ∧ (∀ sub, sub ∈ s.book.subs ↔ sub < s.book.next ∧ .closed sub ∉ w)
      ∧ s.loops.length ≤ 1 ∧ (s.running = true ↔ s.loops ≠ [])
      ∧ ∀ n < s.streams, (∀ l ∈ s.loops, l.id ≠ n) →
        ∀ sub < s.book.next, s.home sub = n → .closed sub ∈ w := by
  have horderly := orderly_of_run h
  refine ⟨horderly.book.disciplined, fun sub => ?_, horderly.one, horderly.running, ?_⟩
  · rw [horderly.book.subs_iff, horderly.book.logged]
    constructor
    · rintro ⟨hlt, hopen⟩
      exact ⟨hlt, fun hclosed => by simp [hclosed.2] at hopen⟩
    · rintro ⟨hlt, hclosed⟩
      exact ⟨hlt, by simpa [hlt] using hclosed⟩
  · exact fun n _ hended sub hsub hhome => horderly.closed_of_ended hended hsub hhome

/-- One subscriber is cancelled and is gone when the stream ends; another one comes with a second
stream, after one that could not be started. -/
def restarts : List Action :=
  [.Subscribe true, .Subscribe true, .item 0 [], .send 0 1, .send 0 0, .unlock 0, .cancel 0,
    .unsub 0, .finish 0, .Subscribe false, .Subscribe true, .item 0 [], .send 0 2, .unlock 0]

theorem restarts_disciplined : ∃ s w, Run.exec step {} restarts = some (s, w)
    ∧ Disciplined w ∧ s.loops.length = 1 ∧ .closed 0 ∈ w ∧ .closed 1 ∈ w ∧ 2 ∈ s.book.subs := by
  have hdone : (Run.exec step {} restarts).map (fun r =>
      (r.1.loops.map Loop.id, r.1.streams, r.1.book.next, r.1.book.subs, r.1.home 0, r.1.home 1))
      = some ([1], 2, 3, [2], 0, 0) := by
    decide +kernel
  obtain ⟨⟨s, w⟩, hrun, hdone⟩ := Option.map_eq_some_iff.1 hdone
  simp only [Prod.mk.injEq] at hdone
  obtain ⟨hloops, hstreams, hnext, hsubs, hzero, hone⟩ := hdone
  obtain ⟨hdisciplined, -, -, -, hended⟩ := channels_disciplined hrun
  have hfirst : ∀ l ∈ s.loops, l.id ≠ 0 := by
    intro l hl
    have hid := List.mem_map_of_mem (f := Loop.id) hl
    rw [hloops, List.mem_singleton] at hid
    omega
  refine ⟨s, w, hrun, hdisciplined, ?_, ?_, ?_, ?_⟩
  · rw [← List.length_map (f := Loop.id), hloops]
    rfl
  · exact hended 0 (by omega) hfirst 0 (by omega) hzero
  · exact hended 0 (by omega) hfirst 1 (by omega) hone
  · rw [hsubs]
    exact List.mem_singleton_self 2

end Runs

section Refinement

variable {s s' : Shared} {w o : Log}

/-- Where the one loop is. -/
def streamOf : List Loop → Stream
  | [] => .off
  | ⟨_, none⟩ :: _ => .waiting
  | ⟨_, some (item, remaining)⟩ :: _ => .sending item remaining

def toState (s : Shared) : State := { s.book with stream := streamOf s.loops }

/-- The action, whichever loop takes it. -/
def Action.forget : Action → Broadcast.Action
  | .Subscribe connect => .Subscribe connect
  | .cancel sub => .cancel sub
  | .item _ x => .item x
  | .send _ sub => .send sub
  | .unlock _ => .unlock
  | .unsub sub => .unsub sub
  | .read sub => .read sub
  | .finish _ => .finish

/-- There is no loop, or one, which waits or hands out an item. -/
theorem Orderly.loops_cases (h : Orderly s w) : s.loops = [] ∧ s.running = false
    ∨ ∃ id, s.running = true
      ∧ (s.loops = [⟨id, none⟩] ∨ ∃ item remaining, s.loops = [⟨id, some (item, remaining)⟩]) := by
  have hone := h.one
  have hrunning := h.running
  rcases hloops : s.loops with _ | ⟨⟨id, _ | ⟨item, remaining⟩⟩, _ | ⟨l, loops⟩⟩
  · exact .inl ⟨rfl, by simpa [hloops] using hrunning⟩
  · exact .inr ⟨id, by simpa [hloops] using hrunning, .inl rfl⟩
  · simp [hloops] at hone
  · exact .inr ⟨id, by simpa [hloops] using hrunning, .inr ⟨item, remaining, rfl⟩⟩
  · simp [hloops] at hone

theorem Orderly.locked_toState (h : Orderly s w) : s.toState.locked = s.locked := by
  unfold Shared.toState State.locked Shared.locked
  rcases h.loops_cases with ⟨hloops, -⟩ | ⟨id, -, hloops | ⟨item, remaining, hloops⟩⟩
  · rw [hloops]
    rfl
  · rw [hloops]
    rfl
  · rw [hloops]
    rfl

theorem Orderly.subscribe_toState (h : Orderly s w) (hlock : s.locked = false) (connect : Bool) :
    s.toState.subscribe connect = (s.subscribe connect).toState := by
  rcases h.loops_cases with ⟨hloops, hoff⟩ | ⟨id, hon, hloops | ⟨item, remaining, hloops⟩⟩
  · cases connect with
    | false => simp [State.subscribe, Shared.subscribe, hoff, toState, hloops, streamOf]
    | true =>
      simp [State.subscribe, Shared.subscribe, hoff, Shared.start, Shared.enroll, toState, hloops,
        streamOf, State.enroll, State.setChan]
  · simp [State.subscribe, Shared.subscribe, hon, Shared.enroll, toState, hloops, streamOf,
      State.enroll, State.setChan]
  · simp [Shared.locked, hloops] at hlock

theorem unsub_toState (s : Shared) (sub : ℕ) :
    { s.book.unsub sub with stream := streamOf s.loops } = s.toState.unsub sub := by
  unfold State.unsub toState
  simp only
  split_ifs <;> rfl

theorem foldl_unsub_stream (stream : Stream) : ∀ (l : List ℕ) (b : State),
    { l.foldl State.unsub b with stream := stream }
      = l.foldl State.unsub { b with stream := stream }
  | [], b => rfl
  | sub :: l, b => by
    have hone : { b.unsub sub with stream := stream }
        = State.unsub { b with stream := stream } sub := by
      unfold State.unsub
      split_ifs <;> rfl
    rw [List.foldl_cons, List.foldl_cons, foldl_unsub_stream stream l, hone]

/-- A step of the broadcaster with its loops is one of the broadcaster with a stream. -/
theorem Orderly.refines {a : Action} (h : Orderly s w) (hs : s.step a = some (s', o)) :
    Broadcast.step s.toState a.forget = some (s'.toState, []) := by
  cases steps_of_step hs with
  | Subscribe connect hlock =>
    simp only [Action.forget, Broadcast.step, h.locked_toState, hlock, Bool.false_eq_true, if_false,
      h.subscribe_toState hlock]
  | cancel hknown => exact if_pos hknown
  | item x hi =>
    obtain ⟨hloops, rfl⟩ := h.loops_eq hi
    simp [Action.forget, Broadcast.step, toState, hloops, streamOf]
  | send hi hsub =>
    obtain ⟨hloops, rfl⟩ := h.loops_eq hi
    simp only [Action.forget, Broadcast.step, toState, hloops, streamOf, hsub, if_true, State.send]
    split_ifs <;> rfl
  | unlock hi =>
    obtain ⟨hloops, rfl⟩ := h.loops_eq hi
    simp [Action.forget, Broadcast.step, toState, hloops, streamOf]
  | @unsub sub henabled =>
    have henabled' : s.toState.locked = false ∧ sub ∈ s.toState.pending := by
      rw [h.locked_toState]
      exact henabled
    simp only [Action.forget, Broadcast.step, if_pos henabled', ← unsub_toState]
    rfl
  | @read sub e buffer hbuffer =>
    have hbuffer' : (s.toState.chans sub).buffer = e :: buffer := hbuffer
    simp only [Action.forget, Broadcast.step, hbuffer']
    rfl
  | finish hi =>
    obtain ⟨hloops, rfl⟩ := h.loops_eq hi
    have hstream : s.toState.stream = .waiting := by simp [toState, hloops, streamOf]
    have hstep : Broadcast.step s.toState .finish = some (s.toState.finish, []) := by
      simp only [Broadcast.step, hstream]
    have hoff : streamOf (s.loops.eraseIdx 0) = .off := by
      rw [hloops]
      rfl
    rw [Action.forget, hstep, toState, State.finish, ← foldl_unsub_stream]
    simp only [Shared.finish, toState, hoff]

/-- Every run of the broadcaster with its loops is one of the broadcaster with a stream. -/
theorem run_refines : ∀ {as : List Action} {s s' : Shared} {w o : Log}, Orderly s w →
    Run.exec step s as = some (s', o) →
      Run.exec Broadcast.step s.toState (as.map Action.forget) = some (s'.toState, [])
  | [], s, s', w, o, _, hrun => by
    cases hrun
    rfl
  | a :: as, s, s', w, o, h, hrun => by
    obtain ⟨t, o', w', hs, hrest, rfl⟩ := Run.exec_cons hrun
    have ih := run_refines (h.step hs) hrest
    simp only [List.map_cons, Run.exec, h.refines hs, ih, Option.map_some, List.append_nil]

end Refinement

end Shared

end Norman.Broadcast
