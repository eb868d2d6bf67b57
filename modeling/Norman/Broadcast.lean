import Mathlib.Logic.Function.Basic
import Norman.Value

/-!
# The broadcaster

`pkg/broadcast/broadcaster.go`: the items of one stream are handed to all who subscribed, each of
whom has a channel with room for a hundred. Who has no room left misses the item, and is to be
unsubscribed, by a goroutine of its own.

A step is what happens under the lock, except that the loop over the subscribers takes one step for
each, in any order, since they read from their channels at any time. An item has its number in the
stream with it, and a channel keeps what was read from it.
-/

namespace Norman.Broadcast

section Clone

mutual

/-- `cloneValue`; the nil slice becomes an empty one. -/
def cloneValue : Value → Value
  | .arr xs => .arr (cloneSlice xs)
  | .nilArr => .arr []
  | .map m => .map (cloneMap m)
  | v => v

def cloneSlice : List Value → List Value
  | [] => []
  | x :: xs => cloneValue x :: cloneSlice xs

def cloneMap : Doc → Doc
  | [] => []
  | (k, v) :: m => (k, cloneValue v) :: cloneMap m

end

end Clone

/-- The capacity of a channel. -/
def capacity : ℕ := 100

/-- The channel of a subscriber: how many items were broadcast before, what is in the buffer, and
what was read; whether it was closed, whether an item was dropped for it, and whether the context is
done. -/
structure Sub where
  start : ℕ := 0
  buffer : List (ℕ × Doc) := []
  received : List (ℕ × Doc) := []
  closed : Bool := false
  dropped : Bool := false
  done : Bool := false

/-- The goroutine `stream`: there is none, it waits for an item, or it hands one to those that are
left, and holds the lock. -/
inductive Stream where
  | off
  | waiting
  | sending (item : Doc) (remaining : List ℕ)

/-- A `Broadcaster`, with its goroutines and channels; `running` is whether there is a `stream`. The
goroutines that will call `unsub` are in `pending`. -/
structure State where
  stream : Stream := .off
  subs : List ℕ := []
  chans : ℕ → Sub := fun _ => {}
  next : ℕ := 0
  sent : List Doc := []
  pending : List ℕ := []

inductive Action where
  | Subscribe (connect : Bool)
  | cancel (sub : ℕ)
  | item (item : Doc)
  | send (sub : ℕ)
  | unlock
  | unsub (sub : ℕ)
  | read (sub : ℕ)
  | finish

namespace State

variable (s : State)

def locked : Bool :=
  match s.stream with
  | .sending _ _ => true
  | _ => false

def setChan (sub : ℕ) (c : Sub) : State := { s with chans := Function.update s.chans sub c }

/-- What the new channel has of the old one, every channel has as before. -/
theorem chans_setChan {α : Type} (f : Sub → α) {sub : ℕ} {c : Sub} (hc : f c = f (s.chans sub))
    (sub' : ℕ) : f ((s.setChan sub c).chans sub') = f (s.chans sub') := by
  by_cases h : sub' = sub
  · subst h
    simpa [setChan] using hc
  · simp [setChan, h]

/-- `unsub`, under the lock. -/
def unsub (sub : ℕ) : State :=
  if sub ∈ s.subs then
    { s.setChan sub { s.chans sub with closed := true } with subs := s.subs.filter (· ≠ sub) }
  else s

/-- A new channel is added to those of the subscribers. -/
def enroll (stream : Stream) : State :=
  { s.setChan s.next { start := s.sent.length } with
    stream, subs := s.subs ++ [s.next], next := s.next + 1 }

/-- `Subscribe`: the stream is started if there is none, and may fail to be. -/
def subscribe (connect : Bool) : State :=
  match s.stream, connect with
  | .off, false => s
  | .off, true => s.enroll .waiting
  | stream, _ => s.enroll stream

/-- The item is put into the channel if there is room, and dropped otherwise. -/
def send (item : Doc) (sub : ℕ) : State :=
  let c := s.chans sub
  if c.buffer.length < capacity then
    s.setChan sub { c with buffer := c.buffer ++ [(s.sent.length - 1, cloneMap item)] }
  else { s.setChan sub { c with dropped := true } with pending := s.pending ++ [sub] }

/-- The end of `stream`. -/
def finish : State := { s.subs.foldl unsub s with stream := .off }

end State

def step (s : State) : Action → Option (State × List Empty)
  | .Subscribe connect => if s.locked then none else some (s.subscribe connect, [])
  | .cancel sub =>
    if sub < s.next ∧ (s.chans sub).done = false then
      some ({ s.setChan sub { s.chans sub with done := true } with pending := s.pending ++ [sub] }, [])
    else none
  | .item item =>
    match s.stream with
    | .waiting => some ({ s with stream := .sending item s.subs, sent := s.sent ++ [item] }, [])
    | _ => none
  | .send sub =>
    match s.stream with
    | .sending item remaining =>
      if sub ∈ remaining then
        some ({ s.send item sub with stream := .sending item (remaining.filter (· ≠ sub)) }, [])
      else none
    | _ => none
  | .unlock =>
    match s.stream with
    | .sending _ [] => some ({ s with stream := .waiting }, [])
    | _ => none
  | .unsub sub =>
    if s.locked = false ∧ sub ∈ s.pending then
      some ({ s.unsub sub with pending := s.pending.erase sub }, [])
    else none
  | .read sub =>
    match (s.chans sub).buffer with
    | [] => none
    | e :: buffer =>
      some (s.setChan sub { s.chans sub with buffer, received := (s.chans sub).received ++ [e] }, [])
  | .finish =>
    match s.stream with
    | .waiting => some (s.finish, [])
    | _ => none

end Norman.Broadcast
