import Mathlib.Data.List.Basic

/-!
# What is done to channels

A channel may be sent to and closed as long as it is open; once it is closed, both panic. The log of
what was done is disciplined if nothing panicked, no channel was closed twice, and nothing was sent
to a channel after it was closed. It stays so as long as only channels are used that were not closed
(`Disciplined.send`, `Disciplined.close`).
-/

namespace Channel

variable {κ α : Type*}

inductive Event (κ α : Type*) where
  | sent (c : κ) (x : α)
  | closed (c : κ)
  | panic
  deriving DecidableEq

/-- What comes of sending to a channel. -/
def send (isClosed : Bool) (c : κ) (x : α) : Event κ α := if isClosed then .panic else .sent c x

/-- What comes of closing a channel. -/
def close (isClosed : Bool) (c : κ) : Event κ α := if isClosed then .panic else .closed c

@[simp] theorem send_open (c : κ) (x : α) : send false c x = .sent c x := rfl

@[simp] theorem close_open (c : κ) : (close false c : Event κ α) = .closed c := rfl

variable [DecidableEq κ] [DecidableEq α]

structure Disciplined (w : List (Event κ α)) : Prop where
  no_panic : .panic ∉ w
  once : ∀ c, w.count (.closed c) ≤ 1
  quiet : w.Pairwise fun a b => ∀ c, a = .closed c → ∀ x, b ≠ .sent c x

namespace Disciplined

variable {w : List (Event κ α)} {c : κ}

theorem nil : Disciplined ([] : List (Event κ α)) where
  no_panic := by simp
  once := by simp
  quiet := List.Pairwise.nil

theorem send (h : Disciplined w) (hc : .closed c ∉ w) (x : α) :
    Disciplined (w ++ [.sent c x]) where
  no_panic := by simpa using h.no_panic
  once d := by simpa using h.once d
  quiet := by
    refine List.pairwise_append.2 ⟨h.quiet, List.pairwise_singleton _ _, ?_⟩
    rintro a ha b hb d rfl y rfl
    rw [List.mem_singleton, Event.sent.injEq] at hb
    exact hc (hb.1 ▸ ha)

theorem close (h : Disciplined w) (hc : .closed c ∉ w) : Disciplined (w ++ [.closed c]) where
  no_panic := by simpa using h.no_panic
  once d := by
    have hold := h.once d
    rw [List.count_append, List.count_singleton]
    split_ifs with hd
    · have hcount : w.count (.closed d) = 0 := by
        rw [← (Event.closed.inj (beq_iff_eq.1 hd))]
        exact List.count_eq_zero_of_not_mem hc
      omega
    · omega
  quiet := by
    refine List.pairwise_append.2 ⟨h.quiet, List.pairwise_singleton _ _, ?_⟩
    rintro a ha b hb d rfl y rfl
    simp at hb

end Disciplined

end Channel
