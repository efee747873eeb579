import ScriptBridge.Host.World
import ScriptBridge.Proofs.Leads

/-!
# ScriptBridge.Proofs.Tracks

A logic of two worlds.  One of them is the whole, and the other one is a part of it.  What is done to
the whole is done to the part as well, with the same result, or the part is left as it is, for as long
as the whole is worked on by one side: `Tracks σ P x Q` says that an operation leads from two worlds
that are related to two that are.  What is known may come to be about more things on the way, but it
stays known.
-/

namespace ScriptBridge.Host

section

variable {α β : Type} {σ : Bool} {w v : World} {x : Act α} {f : α → Act β}
  {P : World → World → Prop} {Q Q' : α → World → World → Prop} {R : β → World → World → Prop}

/-- What becomes of the part when something is done to the whole. -/
def follow (σ : Bool) (x : Act α) (v : World) : World := if σ = true then (x.run v).2 else v

theorem follow_bind (same : σ = true → (x.run v).1 = (x.run w).1) :
    follow σ (x >>= f) v = follow σ (f (x.run w).1) (follow σ x v) := by
  cases σ with
  | false => rfl
  | true =>
    change ((f (x.run v).1).run (x.run v).2).2 = ((f (x.run w).1).run (x.run v).2).2
    rw [same rfl]

/-- What an operation comes to in two worlds. -/
structure TracksAt (σ : Bool) (w v : World) (x : Act α) (Q : α → World → World → Prop) : Prop where
  same : σ = true → (x.run v).1 = (x.run w).1
  after : Q (x.run w).1 (x.run w).2 (follow σ x v)

/-- Whether an operation leads from two worlds that are related to two that are. -/
def Tracks (σ : Bool) (P : World → World → Prop) (x : Act α) (Q : α → World → World → Prop) : Prop :=
  ∀ w v, P w v → TracksAt σ w v x Q

namespace TracksAt

theorem mono (h : TracksAt σ w v x Q) (after : ∀ a w v, Q a w v → Q' a w v) : TracksAt σ w v x Q' :=
  ⟨h.same, after _ _ _ h.after⟩

/-- What is done to the whole is known. -/
theorem known (h : TracksAt σ w v x Q) :
    TracksAt σ w v x fun a w' v' => (a = (x.run w).1 ∧ w' = (x.run w).2) ∧ Q a w' v' :=
  ⟨h.same, ⟨rfl, rfl⟩, h.after⟩

theorem pure {a : α} (h : Q a w v) : TracksAt σ w v (pure a) Q :=
  ⟨fun _ => rfl, by cases σ <;> exact h⟩

theorem bind (hx : TracksAt σ w v x Q) (hf : ∀ a, Tracks σ (Q a) (f a) R) :
    TracksAt σ w v (x >>= f) R := by
  have next := hf _ _ _ hx.after
  refine ⟨fun hσ => ?_, ?_⟩
  · have same := next.same hσ
    rw [stateM_run_bind, stateM_run_bind, hx.same hσ]
    rwa [show follow σ x v = (x.run v).2 from if_pos hσ] at same
  · rw [follow_bind hx.same]
    exact next.after

/-- The world is looked at, and whatever is seen in the whole and in the part comes to the same. -/
theorem get {f : World → Act α} (same : σ = true → (f v).run v = (f w).run v)
    (h : TracksAt σ w v (f w) Q) : TracksAt σ w v (get >>= f) Q := by
  refine ⟨fun hσ => ?_, ?_⟩
  · rw [stateM_get_bind, stateM_get_bind, same hσ]
    exact h.same hσ
  · cases σ with
    | false => exact h.after
    | true =>
      change Q ((f w).run w).1 ((f w).run w).2 ((f v).run v).2
      rw [same rfl]
      exact h.after

/-- What an operation comes to is known. -/
theorem of_run (a : α) (w' v' : World) (hw : x.run w = (a, w')) (hv : σ = true → x.run v = (a, v'))
    (h : Q a w' (if σ = true then v' else v)) : TracksAt σ w v x Q := by
  refine ⟨fun hσ => by rw [hw, hv hσ], ?_⟩
  rw [hw, follow]
  split at h
  · rename_i ours
    rw [if_pos ours, hv ours]
    exact h
  · rename_i theirs
    rw [if_neg theirs]
    exact h

/-- An operation comes to what another one comes to in other worlds. -/
theorem of_eq {y : Act α} {w' v' : World} (hw : x.run w = y.run w') (hv : σ = true → x.run v = y.run v')
    (theirs : σ = false → v = v') (h : TracksAt σ w' v' y Q) : TracksAt σ w v x Q := by
  obtain ⟨same, after⟩ := h
  cases σ with
  | true =>
    refine ⟨fun _ => by rw [hw, hv rfl, same rfl], ?_⟩
    rw [follow, if_pos rfl] at after ⊢
    rwa [hw, hv rfl]
  | false =>
    refine ⟨fun ours => (by cases ours), ?_⟩
    rw [follow, if_neg (by simp)] at after ⊢
    rwa [hw, theirs rfl]

theorem modify {f : World → World} {Q : PUnit → World → World → Prop}
    (h : Q ⟨⟩ (f w) (if σ = true then f v else v)) : TracksAt σ w v (modify f : Act PUnit) Q :=
  ⟨fun _ => rfl, h⟩

end TracksAt

theorem Tracks.get {f : World → Act α} (same : ∀ w v, P w v → σ = true → f v = f w)
    (h : ∀ w v, P w v → TracksAt σ w v (f w) Q) : Tracks σ P (get >>= f) Q :=
  fun w v hw => .get (fun hσ => by rw [same w v hw hσ]) (h w v hw)

end

/-- What is so of a result, if there is one. -/
def OnOk {ε α : Type} (F : α → Prop) : Except ε α → Prop
  | .ok a => F a
  | .error _ => True

end ScriptBridge.Host
