import Norman.Broadcast
import Norman.Lib.Channel

/-!
# The broadcaster with its loops

`pkg/broadcast/broadcaster.go` once more, with `running` as a flag of its own: `Subscribe` starts a
loop where it finds the flag down, and the loop takes it down when its input ends, so how many loops
there are is not for the model to say. What is done to the channels is in the log; each belongs to
the stream that was started last before it was handed out.

The subscribers are kept in a `State`, of which the stream is not used.
-/

namespace Norman.Broadcast

/-- What was done to the channels of the subscribers. -/
abbrev Log := List (Channel.Event ℕ Doc)

/-- A goroutine in `stream`, with the number of its stream. While it hands out an item it has the
lock. -/
structure Loop where
  id : ℕ
  sending : Option (Doc × List ℕ) := none

structure Shared where
  running : Bool := false
  loops : List Loop := []
  streams : ℕ := 0
  book : State := {}
  home : ℕ → ℕ := fun _ => 0

namespace Shared

/-- `item`, `send`, `unlock` and `finish` are steps of one of the loops. -/
inductive Action where
  | Subscribe (connect : Bool)
  | cancel (sub : ℕ)
  | item (i : ℕ) (item : Doc)
  | send (i : ℕ) (sub : ℕ)
  | unlock (i : ℕ)
  | unsub (sub : ℕ)
  | read (sub : ℕ)
  | finish (i : ℕ)

variable (s : Shared)

def setBook (book : State) : Shared := { s with book }

def locked : Bool := s.loops.any fun l => l.sending.isSome

/-- `start`, when the connection is there. -/
def start : Shared :=
  { s with running := true, loops := s.loops ++ [{ id := s.streams }], streams := s.streams + 1 }

/-- The rest of `Subscribe`. -/
def enroll : Shared :=
  { s with
    book := s.book.enroll .off
    home := Function.update s.home s.book.next (s.streams - 1) }

def subscribe (connect : Bool) : Shared :=
  if s.running then s.enroll else if connect then s.start.enroll else s

/-- `close(sub)`, as `unsub` does it with a subscriber. -/
def closing (sub : ℕ) : Log :=
  if sub ∈ s.book.subs then [Channel.close (s.book.chans sub).closed sub] else []

/-- `select` with the item and a default. -/
def sending (item : Doc) (sub : ℕ) : Log :=
  if (s.book.chans sub).closed then [.panic]
  else if (s.book.chans sub).buffer.length < capacity then [.sent sub (cloneMap item)]
  else []

/-- The end of `stream`. -/
def finish (i : ℕ) : Shared :=
  { s with
    running := false
    loops := s.loops.eraseIdx i
    book := s.book.subs.foldl State.unsub s.book }

def step : Action → Option (Shared × Log)
  | .Subscribe connect => if s.locked then none else some (s.subscribe connect, [])
  | .cancel sub =>
    if sub < s.book.next ∧ (s.book.chans sub).done = false then
      some (s.setBook { s.book.setChan sub { s.book.chans sub with done := true } with
        pending := s.book.pending ++ [sub] }, [])
    else none
  | .item i item =>
    match s.loops[i]? with
    | some ⟨id, none⟩ =>
      if s.locked then none
      else some ({ s with
        loops := s.loops.set i ⟨id, some (item, s.book.subs)⟩
        book := { s.book with sent := s.book.sent ++ [item] } }, [])
    | _ => none
  | .send i sub =>
    match s.loops[i]? with
    | some ⟨id, some (item, remaining)⟩ =>
      if sub ∈ remaining then
        some ({ s with
          loops := s.loops.set i ⟨id, some (item, remaining.filter (· ≠ sub))⟩
          book := s.book.send item sub }, s.sending item sub)
      else none
    | _ => none
  | .unlock i =>
    match s.loops[i]? with
    | some ⟨id, some (_, [])⟩ => some ({ s with loops := s.loops.set i ⟨id, none⟩ }, [])
    | _ => none
  | .unsub sub =>
    if s.locked = false ∧ sub ∈ s.book.pending then
      some (s.setBook { s.book.unsub sub with pending := s.book.pending.erase sub },
        s.closing sub)
    else none
  | .read sub =>
    match (s.book.chans sub).buffer with
    | [] => none
    | e :: buffer =>
      some (s.setBook (s.book.setChan sub
        { s.book.chans sub with buffer, received := (s.book.chans sub).received ++ [e] }), [])
  | .finish i =>
    match s.loops[i]? with
    | some ⟨_, none⟩ => if s.locked then none else some (s.finish i, s.book.subs.flatMap s.closing)
    | _ => none

end Shared

end Norman.Broadcast
