import ScriptBridge.Proofs.Calm
import ScriptBridge.Proofs.Sparing

/-!
# ScriptBridge.Proofs.Lasting

What things that are let go of leave of a session, whatever they are: its runtime, the handles in
its userdata, and the pins that belong to no cell.

Main facts:

* `World.lasts_release` — a session after things were let go of.
-/

namespace ScriptBridge

namespace Session

variable {n : Nat} {s₀ s s' s'' : Session}

/-- What a session is after things were let go of: cells may have gone, and pins up to a number. -/
structure Lasts (n : Nat) (s s' : Session) : Prop where
  id : s'.id = s.id
  machine : s'.machine = s.machine
  isOpen : s'.isOpen = s.isOpen
  active : s'.active = s.active
  handles : s'.handles = s.handles
  fewer : ∀ k c, s'.cell? k = some c → s.cell? k = some c
  pins : ∀ h : Handle, n < h.number → s'.pins.get? h = s.pins.get? h

/-- Whether the pins that belong to cells have numbers up to one. -/
def Aged (n : Nat) (s : Session) : Prop :=
  ∀ k c h, s.cell? k = some c → c.handle? = some h → h.number ≤ n

theorem Lasts.refl (n : Nat) (s : Session) : s.Lasts n s :=
  ⟨rfl, rfl, rfl, rfl, rfl, fun _ _ h => h, fun _ _ => rfl⟩

theorem Lasts.trans (h : s.Lasts n s') (h' : s'.Lasts n s'') : s.Lasts n s'' where
  id := h'.id.trans h.id
  machine := h'.machine.trans h.machine
  isOpen := h'.isOpen.trans h.isOpen
  active := h'.active.trans h.active
  handles := h'.handles.trans h.handles
  fewer := fun k c hc => h.fewer k c (h'.fewer k c hc)
  pins := fun k hk => (h'.pins k hk).trans (h.pins k hk)

/-- A cell goes, with a pin that is not beyond the number. -/
theorem Lasts.withdraw (h : s₀.Lasts n s) (aged : s₀.Aged n) (k : CellId) :
    s₀.Lasts n ((Session.withdraw k).run s).2 := by
  cases hc : s.cell? k with
  | none =>
    rw [withdraw_run_of_none hc]
    exact h
  | some c =>
    rw [withdraw_run hc]
    refine h.trans ⟨rfl, rfl, rfl, rfl, rfl, fun _ _ hd => cell?_of_withdrawn hd, fun handle hk => ?_⟩
    refine get?_pins_withdrawn fun mine => ?_
    cases hh : c.handle? with
    | none => simp [Cell.pins, hh] at mine
    | some own =>
      have same : handle.number = own.number := by simpa [Cell.pins, hh] using mine
      exact absurd (same ▸ aged k c own (h.fewer k c hc) hh) (Nat.not_le.mpr hk)

end Session

namespace Host.World

variable {w : World} {id : SessionId} {n : Nat} {s₀ : Session}

/-- Whether a session is there, of which nothing but cells and their pins may have gone. -/
def LastsAt (n : Nat) (id : SessionId) (s₀ : Session) (w : World) : Prop :=
  ∃ s, w.sessions[id]? = some s ∧ s₀.Lasts n s

theorem lasts_of_same {α : Type} {x : Act α} (same : ∀ w, (x.run w).2.sessions = w.sessions) :
    Preserves (LastsAt n id s₀) x := by
  rintro w ⟨s, hs, h⟩
  exact ⟨s, (same w).symm ▸ hs, h⟩

theorem lasts_onSession {α : Type} [Inhabited α] {op : Op α} {i : SessionId}
    (keeps : ∀ s, s₀.Lasts n s → s₀.Lasts n (op.run s).2) :
    Preserves (LastsAt n id s₀) (onSession i op) := by
  rintro w ⟨s, hs, h⟩
  by_cases here : i = id
  · subst here
    rw [onSession_run_some hs]
    exact ⟨_, getElem?_withSession_self .., keeps s h⟩
  · cases hi : w.sessions[i]? with
    | none =>
      rw [onSession_run_none hi]
      exact ⟨s, hs, h⟩
    | some u =>
      rw [onSession_run_some hi]
      exact ⟨s, (getElem?_withSession_of_ne (Ne.symm here)).trans hs, h⟩

section

variable (aged : s₀.Aged n)

include aged

theorem lasts_chore (c : Chore) : Preserves (LastsAt n id s₀) (chore c) := by
  cases c with
  | value v => cases v <;> exact .pure _
  | cell session k =>
    exact (lasts_onSession fun s h => h.withdraw aged k).bind fun _ => .pure _
  | settle session weight =>
    have settled : ∀ s, s₀.Lasts n s → s₀.Lasts n ((Session.settle weight).run s).2 :=
      fun s h => ⟨h.id, h.machine, h.isOpen, h.active, h.handles, h.fewer, h.pins⟩
    exact (lasts_onSession settled).bind fun _ => .pure _
  | callable f => exact lasts_of_same fun w => (sessions_chore_callable f w).1

theorem lasts_chores (fuel : Nat) (cs : List Chore) :
    Preserves (LastsAt n id s₀) (chores fuel cs) := by
  induction fuel generalizing cs with
  | zero => exact .pure _
  | succ fuel ih =>
    cases cs with
    | nil => exact .pure _
    | cons c cs => exact (lasts_chore aged c).bind fun _ => ih _

/-- A session after things were let go of. -/
theorem lasts_release (cs : List Chore) : Preserves (LastsAt n id s₀) (release cs) := by
  unfold release
  split
  · exact .pure _
  · exact .get_bind fun w h => lasts_chores aged _ _ w h

end

end Host.World

end ScriptBridge
