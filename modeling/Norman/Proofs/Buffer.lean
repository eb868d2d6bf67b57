import Norman.Buffer
import Norman.Lib.Run

/-!
# The buffer is closed once

The channel of a connection is closed where the error is set, both under the lock, and whoever finds
an error does neither; a writer that waits for room has the lock, so the channel stays open for it.
-/

namespace Norman.Remotedialer.Shared

open Channel (Disciplined)

variable {s s' : Shared} {a : Action} {w o : Log}

/-- What holds of a connection and of all that was done to its channel. -/
structure Orderly (s : Shared) (w : Log) : Prop where
  closed_iff : s.conn.closed = true ↔ s.conn.err.isSome = true
  writer : s.writer.isSome = true → s.conn.err = none
  logged : .closed () ∈ w → s.conn.closed = true
  disciplined : Disciplined w

section Steps

/-- What happens under the lock, by the action. -/
inductive Steps (s : Shared) : Action → Shared → Log → Prop
  | tunnelClose (err : Option Err) :
    Steps s (.tunnelClose err) { s with closing := s.closing ++ [err] } []
  | unfiles (err : Option Err) :
    Steps s (.closeConnection err) { s with filed := false, closing := s.closing ++ [err] } []
  | unknown (err : Option Err) : Steps s (.closeConnection err) s []
  | closes {i : ℕ} (err : Option Err) (unlocked : s.writer = none) :
    Steps s (.closes i) ({ s with closing := s.closing.eraseIdx i }.close err).1
      ({ s with closing := s.closing.eraseIdx i }.close err).2
  | doTunnelClose (err : Option Err) (unlocked : s.writer = none) :
    Steps s (.doTunnelClose err) (s.close err).1 (s.close err).2
  | write (b : Bytes) (unlocked : s.writer = none) :
    Steps s (.write b) (s.write b).1 (s.write b).2
  | panics {b : Bytes} (waits : s.writer = some b) (closed : s.conn.closed = true) :
    Steps s .send { s with writer := none } [.panic]
  | sends {b : Bytes} (waits : s.writer = some b) :
    Steps s .send { s with conn := { s.conn with buf := s.conn.buf ++ [b] }, writer := none }
      [.sent () b]
  | timeout : Steps s .timeout { s with writer := none } []
  | read {n : ℕ} {c : Connection} {res : Except Err Bytes} (reads : s.conn.read n = some (c, res)) :
    Steps s (.read n) { s with conn := c } []

theorem steps_of_step (hs : s.step a = some (s', o)) : Steps s a s' o := by
  cases a with
  | tunnelClose err =>
    cases hs
    exact .tunnelClose err
  | closeConnection err =>
    simp only [Shared.step] at hs
    split_ifs at hs
    · cases hs
      exact .unfiles err
    · cases hs
      exact .unknown err
  | closes i =>
    simp only [Shared.step] at hs
    split at hs
    · rename_i err _ hwriter
      cases hs
      exact .closes err hwriter
    · cases hs
  | doTunnelClose err =>
    simp only [Shared.step] at hs
    split_ifs at hs with hwriter
    cases hs
    exact .doTunnelClose err (by simpa using hwriter)
  | write b =>
    simp only [Shared.step] at hs
    split_ifs at hs with hwriter
    have hwrite := Steps.write (s := s) b (by simpa using hwriter)
    rwa [Option.some.inj hs] at hwrite
  | send =>
    simp only [Shared.step] at hs
    split at hs
    · cases hs
    · rename_i b hwriter
      split_ifs at hs with hclosed
      · cases hs
        exact .panics hwriter hclosed
      · cases hs
        exact .sends hwriter
  | timeout =>
    simp only [Shared.step] at hs
    split_ifs at hs
    cases hs
    exact .timeout
  | read n =>
    obtain ⟨⟨c, res⟩, hread, heq⟩ := Option.map_eq_some_iff.1 hs
    cases heq
    exact .read hread

end Steps

section Step

theorem Orderly.open_of_no_err (h : Orderly s w) (herr : s.conn.err = none) :
    s.conn.closed = false := by
  rw [← Bool.not_eq_true, h.closed_iff, herr]
  simp

theorem Orderly.not_logged (h : Orderly s w) (hopen : s.conn.closed = false) :
    .closed () ∉ w := by
  intro hmem
  rw [h.logged hmem] at hopen
  cases hopen

/-- What changes neither the error nor the channel. -/
theorem Orderly.quiet (h : Orderly s w) (herr : s'.conn.err = s.conn.err)
    (hclosed : s'.conn.closed = s.conn.closed)
    (hwriter : s'.writer.isSome = true → s.conn.err = none) : Orderly s' (w ++ []) where
  closed_iff := by rw [herr, hclosed]; exact h.closed_iff
  writer hw := by rw [herr]; exact hwriter hw
  logged hmem := by
    rw [List.append_nil] at hmem
    rw [hclosed]
    exact h.logged hmem
  disciplined := by rw [List.append_nil]; exact h.disciplined

/-- A chunk is put into the channel while there is no error. -/
theorem Orderly.sent (h : Orderly s w) (hnone : s.conn.err = none) (b : Bytes)
    (herr : s'.conn.err = s.conn.err) (hclosed : s'.conn.closed = s.conn.closed) :
    Orderly s' (w ++ [.sent () b]) where
  closed_iff := by rw [herr, hclosed]; exact h.closed_iff
  writer _ := by rw [herr]; exact hnone
  logged hmem := by
    rw [hclosed]
    exact h.logged (by simpa using hmem)
  disciplined := h.disciplined.send (h.not_logged (h.open_of_no_err hnone)) b

theorem Orderly.close (h : Orderly s w) (hwriter : s.writer = none) (err : Option Err) :
    Orderly (s.close err).1 (w ++ (s.close err).2) := by
  rcases herr : s.conn.err with _ | e
  · have hopen := h.open_of_no_err herr
    simp only [Shared.close, Connection.doTunnelClose, herr, hopen, Option.isSome_none,
      Bool.false_eq_true, if_false, Channel.close_open]
    exact ⟨by simp, by simp [hwriter], fun _ => rfl, h.disciplined.close (h.not_logged hopen)⟩
  · simp only [Shared.close, Connection.doTunnelClose, herr, Option.isSome_some, if_true]
    exact h.quiet rfl rfl (by simp [hwriter])

theorem Orderly.write (h : Orderly s w) (hwriter : s.writer = none) (b : Bytes) :
    Orderly (s.write b).1 (w ++ (s.write b).2) := by
  unfold Shared.write chanWriterWrite
  rcases herr : s.conn.err with _ | e
  · have hopen := h.open_of_no_err herr
    have hevent : Channel.send s.conn.closed () b = .sent () b := by
      rw [hopen, Channel.send_open]
    by_cases hroom : s.conn.buf.length < bufCap
    · simp only [hroom, if_true, hevent]
      exact h.sent herr b herr.symm rfl
    · simp only [hroom, if_false, hopen, Bool.false_eq_true]
      exact h.quiet rfl rfl fun _ => herr
  · exact h.quiet rfl rfl (by simp [hwriter])

theorem Orderly.step (h : Orderly s w) (hs : s.step a = some (s', o)) : Orderly s' (w ++ o) := by
  cases steps_of_step hs with
  | tunnelClose err => exact h.quiet rfl rfl h.writer
  | unfiles err => exact h.quiet rfl rfl h.writer
  | unknown err => exact h.quiet rfl rfl h.writer
  | @closes i err hwriter =>
    have hrest : Orderly { s with closing := s.closing.eraseIdx i } w :=
      ⟨h.closed_iff, h.writer, h.logged, h.disciplined⟩
    exact hrest.close hwriter err
  | doTunnelClose err hwriter => exact h.close hwriter err
  | write b hwriter => exact h.write hwriter b
  | panics hwriter hclosed =>
    -- the writer has the lock, and so nobody has closed the channel
    have herr : s.conn.err = none := h.writer (by rw [hwriter]; rfl)
    rw [h.open_of_no_err herr] at hclosed
    cases hclosed
  | @sends b hwriter =>
    have herr : s.conn.err = none := h.writer (by rw [hwriter]; rfl)
    exact h.sent herr b rfl rfl
  | timeout => exact h.quiet rfl rfl (by simp)
  | read hread =>
    refine h.quiet ?_ ?_ h.writer
    · rw [Connection.read_frame hread]
    · rw [Connection.read_frame hread]

end Step

section First

/-- An error that is set stays. -/
theorem err_step (hs : s.step a = some (s', o)) {e : Err} (he : s.conn.err = some e) :
    s'.conn.err = some e := by
  have hclose : ∀ err, (s.conn.doTunnelClose err).err = some e := by
    intro err
    rw [Connection.doTunnelClose, he]
    exact he
  cases steps_of_step hs with
  | closes err => exact hclose err
  | doTunnelClose err => exact hclose err
  | write b =>
    simp only [Shared.write, chanWriterWrite, he]
  | read hread =>
    rw [Connection.read_frame hread]
    exact he
  | tunnelClose | unfiles | unknown | panics | sends | timeout => exact he

theorem err_run {as : List Action} (h : Run.exec step s as = some (s', w)) {e : Err}
    (he : s.conn.err = some e) : s'.conn.err = some e :=
  Run.exec_invariant (P := fun s _ => s.conn.err = some e) he
    (fun _ _ _ _ _ he hs => err_step hs he) h

end First

/-- In every run the channel is closed if and only if there is an error, it is closed once, nothing
is sent to it after that, and the first error stays. -/
theorem buffer_disciplined {connID : Int} {proto address : Bytes} {as : List Action}
    (h : Run.exec step { conn := newConnection connID proto address } as = some (s, w)) :
    (s.conn.closed = true ↔ s.conn.err.isSome = true) ∧ Disciplined w
      ∧ ∀ bs s' w', Run.exec step s bs = some (s', w') →
        ∀ e, s.conn.err = some e → s'.conn.err = some e := by
  have hnew : Orderly { conn := newConnection connID proto address } [] :=
    ⟨by simp [newConnection], by simp, by simp, .nil⟩
  have horderly := Run.exec_invariant (P := Orderly) hnew (fun _ _ _ _ _ h hs => h.step hs) h
  exact ⟨horderly.closed_iff, horderly.disciplined, fun _ _ _ hrun _ he => err_run hrun he⟩

/-- The remote side closes while the connection is closed here, and a chunk comes in between. -/
def race : List Action :=
  [.write (text "a"), .closeConnection (some EOF), .tunnelClose none, .write (text "b"), .closes 1,
    .write (text "c"), .closes 0, .read 4, .doTunnelClose none]

theorem race_disciplined : ∃ s w,
    Run.exec step { conn := newConnection 1 [] [] } race = some (s, w)
      ∧ s.conn.err = some ErrClosedPipe ∧ s.conn.closed = true ∧ Disciplined w := by
  have hdone : (Run.exec step { conn := newConnection 1 [] [] } race).map (fun r => r.1.conn.err)
      = some (some ErrClosedPipe) := by
    decide +kernel
  obtain ⟨⟨s, w⟩, hrun, herr⟩ := Option.map_eq_some_iff.1 hdone
  obtain ⟨hclosed, hdisciplined, -⟩ := buffer_disciplined hrun
  exact ⟨s, w, hrun, herr, hclosed.2 (by rw [herr]; rfl), hdisciplined⟩

end Norman.Remotedialer.Shared
