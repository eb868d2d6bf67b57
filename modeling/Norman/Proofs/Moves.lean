import Norman.Mappers

/-!
# Moving a value and moving it back

A move takes the value out at one path and puts it in at another. It is lost in between if on the
way to the other path there is a null, where `PutValue` gives up without a word. If there is none,
the value arrives, the move back brings it back, and all that is left of both moves are the objects
made on the way.
-/

namespace Norman.FieldMapper

open Norman.Types Nested

/-- A mapper that moves a value: a move, with a separator of its own or not, or a step of a batch.
-/
inductive Mover where
  | move (m : Move)
  | untyped (m : UntypedMove)
  | step (b : BatchMove) (m : Move) (mem : m ∈ b.moves)

namespace Mover

def fromPath : Mover → List String
  | .move m => split '/' m.From
  | .untyped m => splitBy m.getSep m.From
  | .step _ m _ => split '/' m.From

def toPath : Mover → List String
  | .move m => split '/' m.To
  | .untyped m => splitBy m.getSep m.To
  | .step _ m _ => split '/' m.To

def FromInternal : Mover → Doc → Option Doc
  | .move m => m.FromInternal
  | .untyped m => m.FromInternal
  | .step _ m _ => m.FromInternal

def ToInternal : Mover → Doc → Option Doc
  | .move m => m.ToInternal
  | .untyped m => m.ToInternal
  | .step _ m _ => m.ToInternal

theorem FromInternal_eq (x : Mover) : x.FromInternal = moveValue x.fromPath x.toPath := by
  cases x <;> rfl

theorem ToInternal_eq (x : Mover) : x.ToInternal = moveValue x.toPath x.fromPath := by
  cases x <;> rfl

end Mover

section Moved

variable {src dst : List String} {data data' : Doc} {v : Value}

theorem look_map {k : String} {keys : List String} {m : Doc} :
    look (k :: keys) (Value.map m) = (Assoc.get k m).bind (look keys) :=
  look_of_view rfl

theorem GetValue_eq_look : ∀ {keys : List String} {data : Doc}, keys ≠ [] →
    GetValue keys data = look keys (Value.map data)
  | [], _, h => absurd rfl h
  | [k], data, _ => by
    rw [GetValue, look_map]
    rcases Assoc.get k data with _ | y <;> rfl
  | k :: k' :: keys, data, _ => by
    rw [GetValue, look_map]
    · rcases Assoc.get k data with _ | y
      · rfl
      · cases y with
        | map m => exact GetValue_eq_look (List.cons_ne_nil k' keys)
        | _ => rfl
    · simp

theorem PutValue_eq_put (v : Value) : ∀ (keys : List String) (data : Doc),
    PutValue v keys data = put v keys data
  | [], _ => rfl
  | [_], _ => rfl
  | k :: k' :: keys, data => by
    rw [PutValue, put]
    · rcases Assoc.get k data with _ | y
      · rw [PutValue_eq_put v (k' :: keys)]
        rfl
      · cases y with
        | map m =>
          simp only [PutValue_eq_put v (k' :: keys)]
          rfl
        | _ => rfl
    · simp
    · simp

/-- Nothing but objects that were made on the way tells the data apart at this path. -/
def SameAt (way : List String) (data data' : Doc) (p : List String) : Prop :=
  heldAt p (Value.map data') = heldAt p (Value.map data)
    ∨ (p <+: way ∧ p ≠ way ∧ heldAt p (Value.map data) = .nothing
      ∧ heldAt p (Value.map data') = .object)

/-- What a move from one path to another, the way to which is open, does to the data. -/
theorem moveValue_open (hsrc : src ≠ []) (hdst : dst ≠ [])
    (hv : look src (Value.map data) = some v) (hopen : Open dst data) :
    ∃ data', moveValue src dst data = some data' ∧ look dst (Value.map data') = some v
      ∧ ∀ p, ¬ dst <+: p → heldAt p (Value.map data') = if p <+: dst then .object
        else if src <+: p then .nothing else heldAt p (Value.map data) := by
  have hremoved : ∀ p, heldAt p (Value.map (remove src data).2)
      = if src <+: p then .nothing else heldAt p (Value.map data) := fun p => heldAt_remove p hsrc
  have hopen' : Open dst (remove src data).2 := by
    intro p hp hne
    have hheld := hremoved p
    split_ifs at hheld
    · exact .inl hheld
    · exact (hopen p hp hne).imp hheld.trans hheld.trans
  obtain ⟨data', hput, hlook, hheld⟩ := heldAt_put v hdst hopen'
  refine ⟨data', ?_, hlook, fun p hp => ?_⟩
  · have hfst : (remove src data).1 = some v := (remove_fst hsrc).trans hv
    rw [moveValue, RemoveValue, ← Prod.mk.eta (p := remove src data), hfst]
    exact (PutValue_eq_put v dst _).trans hput
  · rw [← hremoved p]
    exact hheld p hp

theorem moveValue_back (hpre : ¬ src <+: dst) (hpre' : ¬ dst <+: src)
    (hv : look src (Value.map data) = some v) (hnone : look dst (Value.map data) = none)
    (hopen : Open dst data) :
    ∃ data' data'', moveValue src dst data = some data' ∧ moveValue dst src data' = some data''
      ∧ look dst (Value.map data') = some v ∧ look src (Value.map data'') = some v
      ∧ (∀ p, ¬ src <+: p → ¬ dst <+: p → SameAt dst data data' p)
      ∧ ∀ p, SameAt dst data data'' p := by
  have hsrc : src ≠ [] := by
    rintro rfl
    exact hpre List.nil_prefix
  have hdst : dst ≠ [] := by
    rintro rfl
    exact hpre' List.nil_prefix
  obtain ⟨data', hmove, hlook, hheld⟩ := moveValue_open hsrc hdst hv hopen
  -- the way back is open, as it was before
  have hopen' : Open src data' := by
    intro p hp hne
    have hdp : ¬ dst <+: p := fun h => hpre' (h.trans hp)
    have hsp : ¬ src <+: p := fun h => hne (hp.eq_of_length_le h.length_le)
    refine .inr ?_
    rw [show (Maps.node data' : Value) = .map data' from rfl, hheld p hdp, if_neg hsp,
      heldAt_of_way hv hp hne, ite_self]
  obtain ⟨data'', hback, hlook', hheld'⟩ := moveValue_open hdst hsrc hlook hopen'
  have hthere : ∀ p, ¬ src <+: p → ¬ dst <+: p → SameAt dst data data' p := by
    intro p hp hp'
    have hne : p ≠ dst := fun h => hp' (h ▸ List.prefix_rfl)
    rw [SameAt, hheld p hp', if_neg hp]
    split_ifs with hway
    · rcases hopen p hway hne with hno | hobj
      · exact .inr ⟨hway, hne, hno, rfl⟩
      · exact .inl hobj.symm
    · exact .inl rfl
  refine ⟨data', data'', hmove, hback, hlook, hlook', hthere, fun p => ?_⟩
  by_cases hp : src <+: p
  · exact .inl (heldAt_of_look (hlook'.trans hv.symm) hp)
  · have hne : p ≠ src := fun h => hp (h ▸ List.prefix_rfl)
    rw [SameAt, hheld' p hp]
    split_ifs with hway hp'
    · exact .inl (heldAt_of_way hv hway hne).symm
    · exact .inl (heldAt_of_none hnone hp').symm
    · exact hthere p hp hp'

/-- The value arrives, comes back, and nothing else is changed. -/
def Mover.Keeps (x : Mover) (data : Doc) (v : Value) : Prop :=
  ∃ data' data'', x.FromInternal data = some data' ∧ x.ToInternal data' = some data''
    ∧ GetValue x.toPath data' = some v ∧ GetValue x.fromPath data'' = some v
    ∧ (∀ p, ¬ x.fromPath <+: p → ¬ x.toPath <+: p → SameAt x.toPath data data' p)
    ∧ ∀ p, SameAt x.toPath data data'' p

/-- With a null on the way, the value does not arrive. -/
theorem look_of_null {p : List String} (hsrc : src ≠ []) (hpre : ¬ src <+: dst)
    (hv : look src (Value.map data) = some v) (hp : p <+: dst) (hne : p ≠ dst)
    (hnil : look p (Value.map data) = some .nil) (h : moveValue src dst data = some data') :
    look dst (Value.map data') = none := by
  have hleaf : heldAt p (Value.map (remove src data).2) = .leaf .nil := by
    refine (heldAt_remove p hsrc).trans ?_
    rw [if_neg fun hsp => hpre (hsp.trans hp), heldAt,
      show (Maps.node data : Value) = .map data from rfl, hnil]
    rfl
  have hput : put v dst (remove src data).2 = some data' := by
    have hfst : (remove src data).1 = some v := (remove_fst hsrc).trans hv
    rw [← PutValue_eq_put]
    rwa [moveValue, RemoveValue, ← Prod.mk.eta (p := remove src data), hfst] at h
  obtain ⟨data'', hput', hlook⟩ := put_of_leaf v hp hne (look_of_heldAt hleaf) rfl
  rw [hput'] at hput
  cases hput
  exact hlook

variable {x : Mover}

/-- A value that is moved there and back is kept if and only if there is no null on the way. -/
theorem Mover.keeps_iff (hpre : ¬ x.fromPath <+: x.toPath) (hpre' : ¬ x.toPath <+: x.fromPath)
    (hv : GetValue x.fromPath data = some v) (hnone : GetValue x.toPath data = none)
    (hway : ∀ p, p <+: x.toPath → p ≠ x.toPath → p ≠ [] → GetValue p data = none
      ∨ GetValue p data = some .nil ∨ ∃ m, GetValue p data = some (.map m)) :
    x.Keeps data v ↔ ∀ p, p <+: x.toPath → p ≠ x.toPath → GetValue p data ≠ some .nil := by
  have hsrc : x.fromPath ≠ [] := by
    intro h
    rw [h] at hpre
    exact hpre List.nil_prefix
  have hdst : x.toPath ≠ [] := by
    intro h
    rw [h] at hpre'
    exact hpre' List.nil_prefix
  constructor
  · rintro ⟨data', data'', hmove, -, hto, -⟩ p hp hne hnil
    have hp0 : p ≠ [] := by
      rintro rfl
      cases hnil
    rw [GetValue_eq_look hp0] at hnil
    rw [GetValue_eq_look hsrc] at hv
    rw [x.FromInternal_eq] at hmove
    rw [GetValue_eq_look hdst, look_of_null hsrc hpre hv hp hne hnil hmove] at hto
    cases hto
  · intro hnull
    have hopen : Open x.toPath data := by
      intro p hp hne
      by_cases hp0 : p = []
      · subst hp0
        exact .inr rfl
      · rcases hway p hp hne hp0 with h | h | ⟨m, h⟩
        · rw [GetValue_eq_look hp0] at h
          exact .inl (heldAt_eq_nothing.2 h)
        · exact absurd h (hnull p hp hne)
        · rw [GetValue_eq_look hp0] at h
          exact .inr (by rw [heldAt, show (Maps.node data : Value) = .map data from rfl, h]; rfl)
    rw [GetValue_eq_look hsrc] at hv
    rw [GetValue_eq_look hdst] at hnone
    obtain ⟨data', data'', hmove, hback, hto, hfrom, hthere, hsame⟩ :=
      moveValue_back hpre hpre' hv hnone hopen
    refine ⟨data', data'', by rw [x.FromInternal_eq, hmove], by rw [x.ToInternal_eq, hback],
      by rw [GetValue_eq_look hdst, hto], by rw [GetValue_eq_look hsrc, hfrom], hthere, hsame⟩

section Image

/-- Moves the image into the spec. -/
def intoSpec : Mover := .move ⟨"image", "spec/image"⟩

theorem intoSpec_fromPath : intoSpec.fromPath = ["image"] := by decide +kernel

theorem intoSpec_toPath : intoSpec.toPath = ["spec", "image"] := by decide +kernel

theorem way_intoSpec {p : List String} (hp : p <+: intoSpec.toPath) (hne : p ≠ intoSpec.toPath) :
    p = [] ∨ p = ["spec"] := by
  rw [intoSpec_toPath] at hp hne
  rcases List.prefix_cons_iff.1 hp with rfl | ⟨q, rfl, hq⟩
  · exact .inl rfl
  · rcases List.prefix_cons_iff.1 hq with rfl | ⟨r, rfl, hr⟩
    · exact .inr rfl
    · rw [List.prefix_nil.1 hr] at hne
      exact absurd rfl hne

/-- Without a spec, one is made. -/
theorem image_kept : intoSpec.Keeps [("image", .str "nginx")] (.str "nginx") := by
  refine (Mover.keeps_iff (by decide +kernel) (by decide +kernel) (by decide +kernel)
    (by decide +kernel) (fun p hp hne hp0 => ?_)).2 fun p hp hne => ?_
  · rcases way_intoSpec hp hne with rfl | rfl
    · exact absurd rfl hp0
    · exact .inl rfl
  · rcases way_intoSpec hp hne with rfl | rfl <;> decide +kernel

/-- With a spec that is null, the image is lost. -/
theorem image_lost : intoSpec.fromPath = ["image"] ∧ intoSpec.toPath = ["spec", "image"]
    ∧ intoSpec.FromInternal [("image", .str "nginx"), ("spec", .nil)] = some [("spec", .nil)]
    ∧ ¬ intoSpec.Keeps [("image", .str "nginx"), ("spec", .nil)] (.str "nginx") := by
  refine ⟨intoSpec_fromPath, intoSpec_toPath, by decide +kernel, ?_⟩
  rintro ⟨data', data'', hmove, -, hto, -⟩
  have hdata : data' = [("spec", .nil)] := by
    have hlost : intoSpec.FromInternal [("image", .str "nginx"), ("spec", .nil)]
        = some [("spec", .nil)] := by decide +kernel
    rw [hlost] at hmove
    exact (Option.some.inj hmove).symm
  rw [hdata, intoSpec_toPath] at hto
  cases hto

end Image

end Moved

end Norman.FieldMapper
