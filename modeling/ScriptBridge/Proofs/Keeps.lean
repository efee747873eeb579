import ScriptBridge.Proofs.Leads
import ScriptBridge.Proofs.Pins

/-!
# ScriptBridge.Proofs.Keeps

A logic for bookkeeping.  `Keeps G pre x post` says that an operation `x` turns the holdings `pre`
into `post`, which depend on its result, and leaves all others alone: whatever inventory `pre + H`
the books `G` of a state are right for, they are right for `post a + H` afterwards.  Because the
rest of the inventory is arbitrary, holdings that an operation does not mention can be put
aside (`Keeps.frame`).

`KeepsAt` says so of one state.  It is what a proof goes on with once the state has been looked at.

`Books` are the books of a session with a given number that is open, or is not.
-/

namespace ScriptBridge

variable {S E α β ε : Type} {G : E → Multiset Holding → S → Prop} {s : S}

/-- What an operation does to the holdings in a state. -/
def KeepsAt (G : E → Multiset Holding → S → Prop) (s : S) (pre : Multiset Holding)
    (x : StateM S α) (post : α → Multiset Holding) : Prop :=
  ∀ e H, G e (pre + H) s → G e (post (x.run s).1 + H) (x.run s).2

/-- What an operation does to the holdings in any state. -/
def Keeps (G : E → Multiset Holding → S → Prop) (pre : Multiset Holding) (x : StateM S α)
    (post : α → Multiset Holding) : Prop := ∀ s, KeepsAt G s pre x post

/-- What is held after an operation that may fail. -/
def onResult (ok : α → Multiset Holding) (error : Multiset Holding) :
    Except ε α → Multiset Holding
  | .ok a => ok a
  | .error _ => error

@[simp] theorem onResult_ok (ok : α → Multiset Holding) (error : Multiset Holding) (a : α) :
    onResult ok error (.ok a : Except ε α) = ok a := rfl

@[simp] theorem onResult_error (ok : α → Multiset Holding) (error : Multiset Holding) (f : ε) :
    onResult ok error (.error f : Except ε α) = error := rfl

variable {pre m post' : Multiset Holding} {x : StateM S α} {post : α → Multiset Holding}

namespace KeepsAt

theorem pure (a : α) (h : pre = post a) : KeepsAt G s pre (pure a) post := by
  intro e H hs
  rw [h] at hs
  exact hs

theorem bind {m : α → Multiset Holding} {f : α → StateM S β} {post : β → Multiset Holding}
    (hx : KeepsAt G s pre x m)
    (hf : KeepsAt G (x.run s).2 (m (x.run s).1) (f (x.run s).1) post) :
    KeepsAt G s pre (x >>= f) post := fun e H hs => hf e H (hx e H hs)

/-- Holdings that an operation does not mention stay. -/
theorem frame (R : Multiset Holding) (hx : KeepsAt G s pre x post) :
    KeepsAt G s (pre + R) x fun a => post a + R := by
  intro e H hs
  rw [add_assoc] at hs ⊢
  exact hx e (R + H) hs

theorem congr {pre' : Multiset Holding} {post' : α → Multiset Holding}
    (hx : KeepsAt G s pre x post) (hpre : pre' = pre) (hpost : ∀ a, post a = post' a) :
    KeepsAt G s pre' x post' := by
  rw [hpre, ← funext hpost]
  exact hx

/-- The state may be looked at. -/
theorem get_bind {f : S → StateM S β} {post : β → Multiset Holding}
    (h : KeepsAt G s pre (f s) post) : KeepsAt G s pre (get >>= f) post := h

end KeepsAt

namespace Keeps

theorem pure (a : α) (h : pre = post a) : Keeps G pre (pure a) post :=
  fun _ => KeepsAt.pure a h

theorem bind {m : α → Multiset Holding} {f : α → StateM S β} {post : β → Multiset Holding}
    (hx : Keeps G pre x m) (hf : ∀ a, Keeps G (m a) (f a) post) :
    Keeps G pre (x >>= f) post := fun s => (hx s).bind (hf _ _)

theorem frame (R : Multiset Holding) (hx : Keeps G pre x post) :
    Keeps G (pre + R) x fun a => post a + R := fun s => (hx s).frame R

theorem congr {pre' : Multiset Holding} {post' : α → Multiset Holding}
    (hx : Keeps G pre x post) (hpre : pre' = pre) (hpost : ∀ a, post a = post' a) :
    Keeps G pre' x post' := fun s => (hx s).congr hpre hpost

theorem get_bind {f : S → StateM S β} {post : β → Multiset Holding}
    (h : ∀ s, KeepsAt G s pre (f s) post) : Keeps G pre (get >>= f) post :=
  fun s => (h s).get_bind

/-- An operation that has nothing to do with holdings leaves all of them alone. -/
theorem aside (hx : Keeps G 0 x fun _ => 0) (R : Multiset Holding) : Keeps G R x fun _ => R :=
  (hx.frame R).congr (zero_add R).symm fun _ => zero_add R

/-- Something that has nothing to do with holdings may come first. -/
theorem after {f : α → StateM S β} {post : β → Multiset Holding} (hx : Keeps G 0 x fun _ => 0)
    (hf : ∀ a, Keeps G pre (f a) post) : Keeps G pre (x >>= f) post := (hx.aside pre).bind hf

end Keeps

/-! ## Operations that may fail -/

section

variable {err : Multiset Holding} {y : ExceptT ε (StateM S) α} {ok : α → Multiset Holding}

theorem KeepsAt.tryBind {m : α → Multiset Holding} {f : α → ExceptT ε (StateM S) β}
    {ok : β → Multiset Holding} (hy : KeepsAt G s pre y.run (onResult m err))
    (hf : ∀ a, (y.run.run s).1 = .ok a →
      KeepsAt G (y.run.run s).2 (m a) (f a).run (onResult ok err)) :
    KeepsAt G s pre (y >>= f).run (onResult ok err) := by
  rw [ExceptT.run_bind]
  refine hy.bind ?_
  cases hr : (y.run.run s).1 with
  | ok a => exact hf a hr
  | error f => exact KeepsAt.pure _ rfl

theorem Keeps.tryBind {m : α → Multiset Holding} {f : α → ExceptT ε (StateM S) β}
    {ok : β → Multiset Holding} (hy : Keeps G pre y.run (onResult m err))
    (hf : ∀ a, Keeps G (m a) (f a).run (onResult ok err)) :
    Keeps G pre (y >>= f).run (onResult ok err) := fun s => (hy s).tryBind fun a _ => hf a _

/-- An operation that has nothing to do with holdings leaves all of them alone. -/
theorem Keeps.tryAside (hy : Keeps G 0 y.run (onResult (fun _ => 0) 0)) (R : Multiset Holding) :
    Keeps G R y.run (onResult (fun _ => R) R) :=
  (hy.frame R).congr (zero_add R).symm fun r => by cases r <;> exact zero_add R

/-- The state may be looked at. -/
theorem KeepsAt.tryGet {f : S → ExceptT ε (StateM S) β} {post : Except ε β → Multiset Holding}
    (h : KeepsAt G s pre (f s).run post) : KeepsAt G s pre (get >>= f).run post := h

/-- Something that cannot fail, as part of something that may. -/
theorem KeepsAt.lift (hx : KeepsAt G s pre x post) (err : Multiset Holding) :
    KeepsAt G s pre (ExceptT.lift x : ExceptT ε (StateM S) α).run (onResult post err) := hx

/-- Something that cannot fail, as part of something that may. -/
theorem Keeps.lift (hx : Keeps G pre x post) (err : Multiset Holding) :
    Keeps G pre (ExceptT.lift x : ExceptT ε (StateM S) α).run (onResult post err) := by
  intro s
  exact hx s

/-- What came of an operation does not matter if nothing is held either way. -/
theorem Keeps.forget (hy : Keeps G pre y.run (onResult (fun _ => 0) 0)) :
    Keeps G pre y.run fun _ => 0 := hy.congr rfl fun r => by cases r <;> rfl

theorem KeepsAt.tryPure (a : α) (h : pre = ok a) :
    KeepsAt G s pre (Pure.pure a : ExceptT ε (StateM S) α).run (onResult ok err) :=
  KeepsAt.pure _ h

theorem Keeps.tryPure (a : α) (h : pre = ok a) :
    Keeps G pre (Pure.pure a : ExceptT ε (StateM S) α).run (onResult ok err) :=
  Keeps.pure _ h

theorem KeepsAt.throw (f : ε) (h : pre = err) :
    KeepsAt G s pre (throw f : ExceptT ε (StateM S) α).run (onResult ok err) :=
  KeepsAt.pure _ h

theorem Keeps.throw (f : ε) (h : pre = err) :
    Keeps G pre (throw f : ExceptT ε (StateM S) α).run (onResult ok err) :=
  Keeps.pure _ h

theorem KeepsAt.tryCatch {m : Multiset Holding} {handle : ε → ExceptT ε (StateM S) α}
    (hy : KeepsAt G s pre y.run (onResult ok m))
    (hh : ∀ f, KeepsAt G (y.run.run s).2 m (handle f).run (onResult ok err)) :
    KeepsAt G s pre (tryCatch y handle).run (onResult ok err) := by
  rw [ExceptT.run_tryCatch]
  refine hy.bind ?_
  cases hr : (y.run.run s).1 with
  | ok a => exact KeepsAt.pure _ rfl
  | error f => exact hh f

theorem Keeps.tryCatch {m : Multiset Holding} {handle : ε → ExceptT ε (StateM S) α}
    (hy : Keeps G pre y.run (onResult ok m))
    (hh : ∀ f, Keeps G m (handle f).run (onResult ok err)) :
    Keeps G pre (tryCatch y handle).run (onResult ok err) :=
  fun s => (hy s).tryCatch fun f => hh f _

end

theorem try_get_bind (f : S → ExceptT ε (StateM S) α) (s : S) :
    (get >>= f).run.run s = (f s).run.run s := rfl

theorem try_bind_ok {y : ExceptT ε (StateM S) α} {f : α → ExceptT ε (StateM S) β} {a : α}
    {s s' : S} (h : y.run.run s = (.ok a, s')) : (y >>= f).run.run s = (f a).run.run s' := by
  rw [ExceptT.run_bind, stateM_run_bind, h]

theorem try_bind_error {y : ExceptT ε (StateM S) α} {f : α → ExceptT ε (StateM S) β} {g : ε}
    {s s' : S} (h : y.run.run s = (.error g, s')) : (y >>= f).run.run s = (.error g, s') := by
  rw [ExceptT.run_bind, stateM_run_bind, h]
  rfl

theorem try_tryCatch_ok {y : ExceptT ε (StateM S) α} {handle : ε → ExceptT ε (StateM S) α} {a : α}
    {s s' : S} (h : y.run.run s = (.ok a, s')) : (tryCatch y handle).run.run s = (.ok a, s') := by
  rw [ExceptT.run_tryCatch, stateM_run_bind, h]
  rfl

theorem try_lift_bind (x : StateM S α) (f : α → ExceptT ε (StateM S) β) (s : S) :
    ((liftM x : ExceptT ε (StateM S) α) >>= f).run.run s = (f (x.run s).1).run.run (x.run s).2 := rfl

/-- A result comes from what was tried, if failures are only passed on. -/
theorem run_of_tryCatch {handle : ε → ExceptT ε (StateM S) α} {y : ExceptT ε (StateM S) α} {a : α}
    (passes : ∀ f s, ∃ g, ((handle f).run.run s).1 = .error g)
    (h : ((tryCatch y handle).run.run s).1 = .ok a) :
    (y.run.run s).1 = .ok a ∧ ((tryCatch y handle).run.run s).2 = (y.run.run s).2 := by
  rw [ExceptT.run_tryCatch, stateM_run_bind] at h ⊢
  cases hr : (y.run.run s).1 with
  | ok b =>
    rw [hr] at h
    exact ⟨h, rfl⟩
  | error f =>
    rw [hr] at h
    obtain ⟨g, hg⟩ := passes f (y.run.run s).2
    exact absurd (hg.symm.trans h) (by simp)

/-- A result comes from the results of the parts. -/
theorem ok_of_bind {y : ExceptT ε (StateM S) α} {f : α → ExceptT ε (StateM S) β} {b : β}
    (h : ((y >>= f).run.run s).1 = .ok b) :
    ∃ a, (y.run.run s).1 = .ok a ∧ ((f a).run.run (y.run.run s).2).1 = .ok b := by
  rw [ExceptT.run_bind, stateM_run_bind] at h
  cases hr : (y.run.run s).1 with
  | ok a =>
    rw [hr] at h
    exact ⟨a, rfl, h⟩
  | error f =>
    rw [hr] at h
    cases h

/-- What comes to a result goes on after the first part. -/
theorem run_of_bind {y : ExceptT ε (StateM S) α} {f : α → ExceptT ε (StateM S) β} {b : β} {s s' : S}
    (h : (y >>= f).run.run s = (.ok b, s')) :
    ∃ a s₁, y.run.run s = (.ok a, s₁) ∧ (f a).run.run s₁ = (.ok b, s') := by
  obtain ⟨r, s₁, run⟩ : ∃ r s₁, y.run.run s = (r, s₁) := ⟨_, _, rfl⟩
  cases r with
  | ok a => exact ⟨a, s₁, run, (try_bind_ok run).symm.trans h⟩
  | error g => cases (try_bind_error run).symm.trans h

namespace Session

/-- The books of a session with a number, open or not, are right. -/
def Books (id : SessionId) (isOpen : Bool) (e : Env) (H : Multiset Holding) (s : Session) : Prop :=
  s.id = id ∧ s.isOpen = isOpen ∧ s.Sound e H

theorem keepsAt_of_books {id : SessionId} {o : Bool} {s : Session} {x : Op α}
    (h : s.id = id → s.isOpen = o → KeepsAt (Books id o) s pre x post) :
    KeepsAt (Books id o) s pre x post := fun e H hs => h hs.1 hs.2.1 e H hs

end Session

end ScriptBridge
