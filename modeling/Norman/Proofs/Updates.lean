import Mathlib
import Norman.Lib.Run
import Norman.Proofs.Metadata
import Norman.Proxy

/-!
# Updates one after another

However the requests of several updates come between each other, the API server holds what it would
hold if the updates that were written had been made one after another, in the order in which they
were written. An update that succeeds was written once, and one that fails was not.
-/

namespace Norman.Proxy

open Norman.Types

variable {env : Env} {store : Store} {id : String}

section Stamps

theorem get_putMetadata {object m : Doc} (hm : Assoc.get "metadata" object = some (.map m))
    (key val : String) : Assoc.get "metadata" (putMetadata key val object)
      = some (.map (Assoc.set key (.str val) m)) := by
  simp [putMetadata, putValue_metadata hm, Assoc.get_set]

/-- What is written has the version that was read. -/
theorem resourceVersion_merged {call : Call} {data object : Doc} {s : String}
    (h : resourceVersion object = some s) (version : String) :
    resourceVersion (merged env id call data object version) = some version := by
  obtain ⟨m, hm⟩ := metadata_of_resourceVersion h
  have hmeta := Merge.get_keepMetadata hm data (Merge.keepStatus object
    (Merge.UpdateMerge env.names env.internal call.schemas false call.internalSchema object data))
  have hversion := get_putMetadata hmeta "resourceVersion" version
  have hnamespace := get_putMetadata hversion "namespace" (splitID id).1
  have hname := get_putMetadata hnamespace "name" (splitID id).2
  simp [resourceVersion, Merge.submap, merged, Merge.APIUpdateMerge, hname, Value.toMap,
    Assoc.get_set]

end Stamps

section Sequential

variable (env store id)

/-- One update on its own: the request is merged into the object, which gets the next version. -/
def applied (call : Call) (data : Doc) (st : Stored) : Stored where
  object := stamp (st.version + 1) (merged env id call data st.object st.version.repr)
  version := st.version + 1
  stamped := resourceVersion_stamp (resourceVersion_merged st.stamped _) _

/-- One update, if the mapper of its schema lets it pass. -/
def apply (st : Stored) (call : Call) : Stored :=
  match store.toInternal call with
  | .error _ => st
  | .ok data => applied env id call data st

end Sequential

theorem put_eq_some {st st' : Stored} {object : Doc} (h : st.put object = some st') :
    resourceVersion object = some st.version.repr ∧ st'.object = stamp (st.version + 1) object
      ∧ st'.version = st.version + 1 := by
  unfold Stored.put at h
  split at h
  · rename_i hversion
    cases h
    exact ⟨hversion, rfl, rfl⟩
  · cases h

section Serial

variable {ι : Type} [DecidableEq ι] {calls : ι → Call} {s₀ : Stored} {s s' : State ι} {w : List ι}

/-- Where a call is, it has the data of its request; and what it is about to write was made of what
is stored, unless something else was stored since. -/
def Fits (env : Env) (store : Store) (id : String) (call : Call) (server : Stored) : Phase → Prop
  | .reading _ data => store.toInternal call = .ok data
  | .writing _ data existing => store.toInternal call = .ok data ∧ ∃ v ≤ server.version,
      resourceVersion existing = some v.repr
      ∧ (v = server.version → existing = merged env id call data server.object v.repr)
  | _ => True

/-- How often a call has written. -/
def committed : Phase → ℕ
  | .returned (.ok _) => 1
  | _ => 0

structure Serial (env : Env) (store : Store) (id : String) (calls : ι → Call) (s₀ : Stored)
    (s : State ι) (w : List ι) : Prop where
  server : s.server = w.foldl (fun st t => apply env store id st (calls t)) s₀
  fits : ∀ t, Fits env store id (calls t) s.server (s.phases t)
  count : ∀ t, w.count t = committed (s.phases t)

/-- Once something else is stored, what is about to be written is out of date. -/
theorem Fits.advance {call : Call} {st st' : Stored} {phase : Phase} (hlt : st.version < st'.version)
    (h : Fits env store id call st phase) : Fits env store id call st' phase := by
  cases phase with
  | writing i data existing =>
    obtain ⟨hdata, v, hv, hversion, -⟩ := h
    exact ⟨hdata, v, by omega, hversion, fun hnow => by omega⟩
  | _ => exact h

theorem Serial.move (h : Serial env store id calls s₀ s w) {t : ι} {phase : Phase}
    (hfits : Fits env store id (calls t) s.server phase)
    (hcount : committed phase = committed (s.phases t)) :
    Serial env store id calls s₀ (s.move t phase) w where
  server := h.server
  fits t' := by
    by_cases ht : t' = t
    · subst ht
      simpa [State.move] using hfits
    · simpa [State.move, ht] using h.fits t'
  count t' := by
    by_cases ht : t' = t
    · subst ht
      simpa [State.move, hcount] using h.count t'
    · simpa [State.move, ht] using h.count t'

theorem Serial.begin (h : Serial env store id calls s₀ s w) {t : ι} (hphase : s.phases t = .start)
    (err : Option String) :
    Serial env store id calls s₀ (s.move t (begun store (calls t) err)) w := by
  rcases err with _ | err
  · rcases hdata : store.toInternal (calls t) with e | data
    · exact h.move (by simp [begun, hdata, Fits]) (by simp [begun, hdata, committed, hphase])
    · exact h.move (by simp [begun, hdata, Fits]) (by simp [begun, hdata, committed, hphase])
  · exact h.move trivial (by simp [begun, committed, hphase])

theorem Serial.get (h : Serial env store id calls s₀ s w) {t : ι} {i : ℕ} {data : Doc}
    (hphase : s.phases t = .reading i data) :
    Serial env store id calls s₀ (s.move t (.writing i data (merged env id (calls t) data
      s.server.object ((resourceVersion s.server.object).getD "")))) w := by
  have hdata := h.fits t
  rw [hphase] at hdata
  rw [s.server.stamped, Option.getD_some]
  refine h.move ⟨hdata, s.server.version, le_rfl, ?_, fun _ => rfl⟩ (by simp [committed, hphase])
  exact resourceVersion_merged s.server.stamped _

/-- An object that is taken was made of the one that is stored. -/
theorem Serial.commit (h : Serial env store id calls s₀ s w) {t : ι} {i : ℕ} {data existing : Doc}
    (hphase : s.phases t = .writing i data existing) {server : Stored}
    (hput : s.server.put existing = some server) (result : Doc) :
    Serial env store id calls s₀ { s.move t (.returned (.ok result)) with server } (w ++ [t]) := by
  obtain ⟨hversion, hobject, hnext⟩ := put_eq_some hput
  have hfits := h.fits t
  rw [hphase] at hfits
  obtain ⟨hdata, v, -, hread, hmerged⟩ := hfits
  have hv : v = s.server.version := Nat.repr_inj.1 (Option.some.inj (hread.symm.trans hversion))
  have hserver : server = applied env id (calls t) data s.server := by
    obtain ⟨object, version, stamped⟩ := server
    simp only at hobject hnext
    subst hobject hnext
    simp [applied, hmerged hv, hv]
  refine ⟨?_, fun t' => ?_, fun t' => ?_⟩
  · show server = _
    rw [List.foldl_append, ← h.server, List.foldl_cons, List.foldl_nil, apply, hdata, hserver]
  · by_cases ht : t' = t
    · subst ht
      simp [State.move, Fits]
    · have hlt : s.server.version < server.version := by omega
      simpa [State.move, ht] using (h.fits t').advance hlt
  · have hcount := h.count t'
    by_cases ht : t' = t
    · subst ht
      rw [hphase] at hcount
      simp [State.move, committed] at hcount ⊢
      exact hcount
    · simpa [State.move, ht, List.count_append, List.count_singleton, Ne.symm ht] using hcount

theorem Serial.step (h : Serial env store id calls s₀ s w) {a : Action ι} {o : List ι}
    (hstep : step env store id calls s a = some (s', o)) :
    Serial env store id calls s₀ s' (w ++ o) := by
  cases a with
  | begin t err =>
    simp only [Proxy.step] at hstep
    split at hstep <;> cases hstep
    rw [List.append_nil]
    exact h.begin ‹_› err
  | get t err =>
    simp only [Proxy.step] at hstep
    split at hstep <;> cases hstep <;> rw [List.append_nil]
    · exact h.move trivial (by simp [committed, *])
    · exact h.get ‹_›
  | put t err =>
    simp only [Proxy.step] at hstep
    split at hstep
    · cases hstep
      rw [List.append_nil]
      exact h.move trivial (by simp [committed, *])
    · rename_i i data existing hphase
      split at hstep <;> cases hstep
      · exact h.commit hphase ‹_› _
      · rw [List.append_nil]
        have hdata := h.fits t
        rw [hphase] at hdata
        refine h.move ?_ ?_
        · unfold retry
          split
          · exact hdata.1
          · trivial
        · unfold retry
          split <;> simp [committed, hphase]
    · cases hstep

end Serial

/-- However the steps of the updates come between each other, what is stored is what the updates
that were written make of the first object, one after another; each update that returned without an
error was written once, and none that failed was. -/
theorem update_serial {ι : Type} [DecidableEq ι] {calls : ι → Call} {s₀ : Stored} {as : List (Action ι)}
    {s : State ι} {w : List ι}
    (h : Run.exec (step env store id calls) ⟨fun _ => .start, s₀⟩ as = some (s, w)) :
    s.server = w.foldl (fun st t => apply env store id st (calls t)) s₀
      ∧ (∀ t, (∃ result, s.phases t = .returned (.ok result)) ↔ w.count t = 1)
      ∧ ∀ t err, s.phases t = .returned (.error err) → t ∉ w := by
  have hserial : Serial env store id calls s₀ s w :=
    Run.exec_invariant ⟨rfl, fun _ => trivial, fun _ => rfl⟩ (fun _ _ _ _ _ h => h.step) h
  refine ⟨hserial.server, fun t => ?_, fun t err herr => ?_⟩
  · rw [hserial.count]
    constructor
    · rintro ⟨result, hresult⟩
      rw [hresult]
      rfl
    · intro hone
      rcases hphase : s.phases t with _ | _ | _ | (_ | result) <;> rw [hphase] at hone <;>
        first | exact ⟨result, rfl⟩ | cases hone
  · rw [← List.count_eq_zero, hserial.count, herr]
    rfl

section Race

def plainStore : Store := ⟨"", "v1", "Pod"⟩

def plainProxy : Env := ⟨Schemas.plainEnv, fun _ => none⟩

/-- Two updates of an object, which change different fields. -/
def racing (t : Bool) : Call where
  toInternal := none
  fromInternal data := data
  internalSchema := none
  schemas := NewSchemas
  data := if t then [("image", .str "b")] else [("replicas", .int 3)]

def podStored : Stored where
  object := [("image", .str "a"), ("metadata", .map [("resourceVersion", .str "7")]),
    ("replicas", .int 1)]
  version := 7
  stamped := by decide +kernel

/-- Both read the object before one of them writes; the other one meets with a conflict. -/
def race : List (Action Bool) :=
  [.begin true none, .begin false none, .get true none, .get false none, .put true none,
    .put false none, .get false none, .put false none]

theorem race_serial :
    ∃ s w, Run.exec (step plainProxy plainStore "default:web" racing) ⟨fun _ => .start, podStored⟩ race
        = some (s, w)
      ∧ w = [true, false]
      ∧ Assoc.get "image" s.server.object = some (.str "b")
      ∧ Assoc.get "replicas" s.server.object = some (.int 3)
      ∧ s.server = w.foldl (fun st t => apply plainProxy plainStore "default:web" st (racing t)) podStored
      ∧ (∀ t, (∃ result, s.phases t = .returned (.ok result)) ↔ w.count t = 1)
      ∧ ∀ t err, s.phases t = .returned (.error err) → t ∉ w := by
  have hend : (Run.exec (step plainProxy plainStore "default:web" racing)
      ⟨fun _ => .start, podStored⟩ race).map
        (fun r => (r.2, Assoc.get "image" r.1.server.object, Assoc.get "replicas" r.1.server.object))
      = some ([true, false], some (.str "b"), some (.int 3)) := by
    decide +kernel
  obtain ⟨⟨s, w⟩, hrun, hs⟩ := Option.map_eq_some_iff.1 hend
  simp only [Prod.mk.injEq] at hs
  exact ⟨s, w, hrun, hs.1, hs.2.1, hs.2.2, update_serial hrun⟩

end Race

end Norman.Proxy
