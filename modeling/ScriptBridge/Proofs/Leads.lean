/-!
# ScriptBridge.Proofs.Leads

A logic of states.  An operation `Preserves` a property of states, or `Leads` from states of one
kind to states of another.  Operations that may fail have an `Outcome`.
-/

namespace ScriptBridge

section

variable {S α β : Type}

theorem stateM_run_bind (x : StateM S α) (f : α → StateM S β) (s : S) :
    (x >>= f).run s = (f (x.run s).1).run (x.run s).2 := rfl

theorem stateM_get_bind (f : S → StateM S α) (s : S) : (get >>= f).run s = (f s).run s := rfl

end

/-! ## Properties that are preserved -/

/-- Whether an operation preserves a property of states. -/
def Preserves {S α : Type} (I : S → Prop) (x : StateM S α) : Prop := ∀ s, I s → I (x.run s).2

namespace Preserves

variable {S α β ε : Type} {I : S → Prop}

theorem pure (a : α) : Preserves I (Pure.pure a : StateM S α) := fun _ h => h

theorem bind {x : StateM S α} {f : α → StateM S β} (hx : Preserves I x)
    (hf : ∀ a, Preserves I (f a)) : Preserves I (x >>= f) := fun s h => hf _ _ (hx s h)

theorem get_bind {f : S → StateM S β} (h : ∀ s, I s → I ((f s).run s).2) :
    Preserves I (get >>= f) := fun s hs => h s hs

theorem modify {f : S → S} (h : ∀ s, I s → I (f s)) :
    Preserves I (modify f : StateM S PUnit) := fun s hs => h s hs

theorem modifyGet {f : S → α × S} (h : ∀ s, I s → I (f s).2) :
    Preserves I (modifyGet f : StateM S α) := fun s hs => h s hs

theorem forIn {f : α → β → StateM S (ForInStep β)} (hf : ∀ a b, Preserves I (f a b)) (xs : List α)
    (b : β) : Preserves I (ForIn.forIn xs b f) := by
  induction xs generalizing b with
  | nil => exact .pure _
  | cons a xs ih =>
    rw [List.forIn_cons]
    refine (hf a b).bind fun r => ?_
    cases r with
    | done b => exact .pure _
    | yield b => exact ih b

section

variable {y : ExceptT ε (StateM S) α} {f : α → ExceptT ε (StateM S) β}

theorem tryPure (a : α) : Preserves I (Pure.pure a : ExceptT ε (StateM S) α).run := fun _ h => h

theorem throw (e : ε) : Preserves I (throw e : ExceptT ε (StateM S) α).run := fun _ h => h

/-- Something that cannot fail, as part of something that may. -/
theorem lift {x : StateM S α} (hx : Preserves I x) :
    Preserves I (ExceptT.lift x : ExceptT ε (StateM S) α).run := fun s h => hx s h

theorem tryBind (hy : Preserves I y.run) (hf : ∀ a, Preserves I (f a).run) :
    Preserves I (y >>= f).run := by
  intro s h
  rw [ExceptT.run_bind, stateM_run_bind]
  have first := hy s h
  cases hr : (y.run.run s).1 with
  | ok a => exact hf a _ first
  | error e => exact first

theorem tryGet {f : S → ExceptT ε (StateM S) β} (h : ∀ s, I s → I ((f s).run.run s).2) :
    Preserves I (get >>= f).run := fun s hs => h s hs

theorem tryCatch {handle : ε → ExceptT ε (StateM S) α} (hy : Preserves I y.run)
    (hh : ∀ e, Preserves I (handle e).run) : Preserves I (tryCatch y handle).run := by
  intro s h
  rw [ExceptT.run_tryCatch, stateM_run_bind]
  have first := hy s h
  cases hr : (y.run.run s).1 with
  | ok a => exact first
  | error e => exact hh e _ first

end

end Preserves

/-! ## What operations lead to -/

/-- Whether an operation leads from states of one kind to states of another, which depends on its
result. -/
def Leads {S α : Type} (P : S → Prop) (x : StateM S α) (Q : α → S → Prop) : Prop :=
  ∀ s, P s → Q (x.run s).1 (x.run s).2

/-- A property of the states after an operation that may fail. -/
def Outcome {S ε α : Type} (E : ε → S → Prop) (Q : α → S → Prop) : Except ε α → S → Prop
  | .ok a => Q a
  | .error e => E e

theorem Outcome.imp {S ε α : Type} {E E' : ε → S → Prop} {Q Q' : α → S → Prop} {r : Except ε α} {s : S}
    (h : Outcome E Q r s) (failed : ∀ e, E e s → E' e s) (done : ∀ a, Q a s → Q' a s) :
    Outcome E' Q' r s := by
  cases r with
  | ok a => exact done a h
  | error e => exact failed e h

namespace Leads

variable {S α β ε : Type} {P P' : S → Prop} {x : StateM S α} {Q Q' : α → S → Prop}
  {R : β → S → Prop}

theorem pure (a : α) (h : ∀ s, P s → Q a s) : Leads P (Pure.pure a : StateM S α) Q := h

theorem bind {f : α → StateM S β} (hx : Leads P x Q) (hf : ∀ a, Leads (Q a) (f a) R) :
    Leads P (x >>= f) R := fun s h => hf _ _ (hx s h)

theorem mono (h : Leads P x Q) (before : ∀ s, P' s → P s) (after : ∀ a s, Q a s → Q' a s) :
    Leads P' x Q' := fun s hs => after _ _ (h s (before s hs))

/-- What is known before, and has nothing to do with the state. -/
theorem given {C : Prop} (h : C → Leads P x Q) : Leads (fun s => C ∧ P s) x Q :=
  fun s hs => h hs.1 s hs.2

theorem get_bind {f : S → StateM S β} (h : ∀ s, P s → R ((f s).run s).1 ((f s).run s).2) :
    Leads P (get >>= f) R := h

theorem modify {f : S → S} {Q : PUnit → S → Prop} (h : ∀ s, P s → Q ⟨⟩ (f s)) :
    Leads P (modify f : StateM S PUnit) Q := h

theorem modifyGet {f : S → α × S} (h : ∀ s, P s → Q (f s).1 (f s).2) :
    Leads P (modifyGet f : StateM S α) Q := h

theorem of_preserves (h : Preserves P x) : Leads P x fun _ => P := fun s hs => h s hs

section

variable {y : ExceptT ε (StateM S) α} {f : α → ExceptT ε (StateM S) β} {E E' : ε → S → Prop}

theorem tryPure (a : α) (h : ∀ s, P s → Q a s) :
    Leads P (Pure.pure a : ExceptT ε (StateM S) α).run (Outcome E Q) := h

theorem throw (e : ε) (h : ∀ s, P s → E e s) :
    Leads P (throw e : ExceptT ε (StateM S) α).run (Outcome E Q) := h

theorem lift (hx : Leads P x Q) :
    Leads P (ExceptT.lift x : ExceptT ε (StateM S) α).run (Outcome E Q) := fun s h => hx s h

theorem tryBind (hy : Leads P y.run (Outcome E Q)) (hf : ∀ a, Leads (Q a) (f a).run (Outcome E R)) :
    Leads P (y >>= f).run (Outcome E R) := by
  intro s h
  rw [ExceptT.run_bind, stateM_run_bind]
  have first := hy s h
  cases hr : (y.run.run s).1 with
  | ok a => rw [hr] at first; exact hf a _ first
  | error e => rw [hr] at first; exact first

theorem tryGet {f : S → ExceptT ε (StateM S) β}
    (h : ∀ s, P s → Outcome E R ((f s).run.run s).1 ((f s).run.run s).2) :
    Leads P (get >>= f).run (Outcome E R) := h

theorem tryCatch {handle : ε → ExceptT ε (StateM S) α} (hy : Leads P y.run (Outcome E' Q))
    (hh : ∀ e, Leads (E' e) (handle e).run (Outcome E Q)) :
    Leads P (tryCatch y handle).run (Outcome E Q) := by
  intro s h
  rw [ExceptT.run_tryCatch, stateM_run_bind]
  have first := hy s h
  cases hr : (y.run.run s).1 with
  | ok a => rw [hr] at first; exact first
  | error e => rw [hr] at first; exact hh e _ first

theorem attempt_of_preserves (h : Preserves P y.run) :
    Leads P y.run (Outcome (fun _ => P) fun _ => P) := by
  intro s hs
  have after := h s hs
  cases hr : (y.run.run s).1 <;> exact after

end

end Leads

end ScriptBridge
