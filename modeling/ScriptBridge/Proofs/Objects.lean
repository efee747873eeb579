import ScriptBridge.Proofs.Instructions
import ScriptBridge.Proofs.LibraryCalls

/-!
# ScriptBridge.Proofs.Objects

What scripts do to the objects that host functions consist of, as long as they change neither the
upvalues of functions nor the metatables of userdata: nothing.  Host functions and userdata stay what
they are, and every function with values of its own that a script makes is an inner one.

Main facts:

* `Machine.step_works` — one step of a runtime;
* `Machine.grows_run` — any number of them;
* `Machine.run_due` — what is due is finalized, or stays due.
-/

namespace ScriptBridge.Script

/-- What may become of the functions with values of their own while scripts run: those of the host
stay, and all that are new, or not what they were, are inner ones. -/
structure Heirs (before after : Array (Option Native)) : Prop where
  size : before.size ≤ after.size
  stay : ∀ (i : Nat) (n : Native), before[i]? = some (some n) → n.kind = .host →
    after[i]? = some (some n)
  inner : ∀ (i : Nat) (n : Native), after[i]? = some (some n) →
    before[i]? = some (some n) ∨ n.Inner
  gone : ∀ i : Nat, before[i]? = some none → after[i]? = some none

namespace Heirs

variable {a b c : Array (Option Native)}

theorem refl (a : Array (Option Native)) : Heirs a a :=
  ⟨Nat.le_refl _, fun _ _ h _ => h, fun _ _ h => .inl h, fun _ h => h⟩

theorem trans (h : Heirs a b) (h' : Heirs b c) : Heirs a c where
  size := Nat.le_trans h.size h'.size
  stay := fun i n hn host => h'.stay i n (h.stay i n hn host) host
  inner := fun i n hn => (h'.inner i n hn).elim (h.inner i n) .inr
  gone := fun i gone => h'.gone i (h.gone i gone)

theorem push {n : Native} (inner : n.Inner) : Heirs a (a.push (some n)) where
  size := by simp
  stay := fun i k hk _ => by
    have lt := (Array.getElem?_eq_some_iff.mp hk).1
    rw [Array.getElem?_push_lt lt, ← hk, Array.getElem?_eq_getElem lt]
  inner := fun i k hk => by
    rw [Array.getElem?_push] at hk
    split at hk
    · obtain rfl := Option.some.inj (Option.some.inj hk)
      exact .inr inner
    · exact .inl hk
  gone := fun i gone => by
    have lt := (Array.getElem?_eq_some_iff.mp gone).1
    rw [Array.getElem?_push_lt lt, ← gone, Array.getElem?_eq_getElem lt]

theorem set {n : Native} {id : NativeId} (before : ((a.getD id none).getD default).Inner)
    (inner : n.Inner) : Heirs a (a.setIfInBounds id (some n)) where
  size := by simp
  stay := fun i k hk host => by
    have other : id ≠ i := by
      rintro rfl
      rw [Array.getD_eq_getD_getElem?, hk] at before
      exact before.1 host
    rw [Array.getElem?_setIfInBounds_ne other, hk]
  inner := fun i k hk => by
    rw [Array.getElem?_setIfInBounds] at hk
    split at hk
    · split at hk
      · obtain rfl := Option.some.inj (Option.some.inj hk)
        exact .inr inner
      · cases hk
    · exact .inl hk
  gone := fun i gone => by
    have other : id ≠ i := by
      rintro rfl
      rw [Array.getD_eq_getD_getElem?, gone] at before
      exact before.1 rfl
    rw [Array.getElem?_setIfInBounds_ne other, gone]

end Heirs

namespace Machine

variable {m m' m'' : Machine}

/-- Whether the objects that host functions consist of are the same, and the finalizers that are due,
and the globals have not gone. -/
structure Alike (m m' : Machine) : Prop where
  natives : m'.natives = m.natives
  userdata : m'.userdata = m.userdata
  handleMetatable : m'.handleMetatable = m.handleMetatable
  due : m'.due = m.due
  closing : m'.closing = m.closing
  rooted : m.Rooted → m'.Rooted

theorem Alike.refl (m : Machine) : m.Alike m := ⟨rfl, rfl, rfl, rfl, rfl, .of_same rfl rfl⟩

theorem Alike.trans (h : m.Alike m') (h' : m'.Alike m'') : m.Alike m'' :=
  ⟨h'.natives.trans h.natives, h'.userdata.trans h.userdata,
    h'.handleMetatable.trans h.handleMetatable, h'.due.trans h.due, h'.closing.trans h.closing,
    fun rooted => h'.rooted (h.rooted rooted)⟩

theorem Alike.after (h' : m'.Alike m'') (h : m.Alike m') : m.Alike m'' := h.trans h'

theorem Heaped.alike (h : m.Heaped m') : m.Alike m' :=
  ⟨congrArg (·.natives) h.only, congrArg (·.userdata) h.only, congrArg (·.handleMetatable) h.only,
    congrArg (·.due) h.only, congrArg (·.closing) h.only, h.rooted⟩

/-- What scripts may do to these objects: they make inner functions. -/
structure Works (m m' : Machine) : Prop where
  natives : Heirs m.natives m'.natives
  userdata : m'.userdata = m.userdata
  handleMetatable : m'.handleMetatable = m.handleMetatable
  due : m'.due = m.due
  closing : m'.closing = m.closing

theorem Alike.works (h : m.Alike m') : m.Works m' :=
  ⟨h.natives ▸ .refl _, h.userdata, h.handleMetatable, h.due, h.closing⟩

theorem Works.refl (m : Machine) : m.Works m := (Alike.refl m).works

theorem Works.trans (h : m.Works m') (h' : m'.Works m'') : m.Works m'' :=
  ⟨h.natives.trans h'.natives, h'.userdata.trans h.userdata,
    h'.handleMetatable.trans h.handleMetatable, h'.due.trans h.due, h'.closing.trans h.closing⟩

theorem alike_noteFinalizer (m : Machine) (o : Finalizable) (metatable : Option TableId) :
    m.Alike (m.noteFinalizer o metatable) := by
  unfold noteFinalizer
  split
  · exact .refl m
  · split
    · exact .refl m
    · exact ⟨rfl, rfl, rfl, rfl, rfl, .of_same rfl rfl⟩

theorem alike_reserve (m : Machine) (t : ThreadId) (n : Nat) : m.Alike (m.reserve t n).2 := by
  have fitted : ∀ top : Nat, m.Alike (if m.overflowed then (decide (top + n < stackLimit
      + stackReserve), m) else if top + n ≤ stackLimit then (true, m)
      else (false, { m with overflowed := true })).2 := by
    intro top
    repeat' split
    all_goals exact ⟨rfl, rfl, rfl, rfl, rfl, .of_same rfl rfl⟩
  exact fitted _

theorem alike_setMetatable (m : Machine) (id : TableId) (metatable : Option TableId) :
    m.Alike (m.setMetatable (.table id) metatable) := by
  unfold setMetatable
  exact (alike_noteFinalizer _ _ _).after ⟨rfl, rfl, rfl, rfl, rfl, fun h => h.modifyTable _ _⟩

end Machine

open Machine in
/-- The manner in which library functions work on these objects. -/
def Manner.works : Manner where
  rel := Works
  refl := .refl
  trans := .trans
  closing := fun h => h.closing
  setMetatable := fun m id metatable => (m.alike_setMetatable id metatable).works
  rawSet := fun _ _ _ _ => Alike.works ⟨rfl, rfl, rfl, rfl, rfl, fun h => h.modifyTable _ _⟩
  stopped := fun _ _ => Alike.works ⟨rfl, rfl, rfl, rfl, rfl, .of_same rfl rfl⟩
  reserve := fun m t n => (m.alike_reserve t n).works
  newThread := fun _ _ => Alike.works ⟨rfl, rfl, rfl, rfl, rfl, .of_same rfl rfl⟩
  newNative := fun _ _ inner => ⟨.push inner, rfl, rfl, rfl, rfl⟩
  setNative := fun _ _ _ before inner => ⟨.set before inner, rfl, rfl, rfl, rfl⟩

namespace Machine

variable {m m' m'' : Machine}

/-! ## Control -/

section

variable (m)

theorem alike_leaveCoroutine (status : ThreadStatus) (frames : List Frame) :
    m.Alike (m.leaveCoroutine status frames) :=
  ⟨rfl, rfl, rfl, rfl, rfl, fun h => h.of_same rfl rfl⟩

theorem alike_pop : m.Alike m.pop := ⟨rfl, rfl, rfl, rfl, rfl, .of_same rfl rfl⟩

theorem alike_deliver (values : List Value) : m.Alike (m.deliver values) :=
  ⟨rfl, rfl, rfl, rfl, rfl, .of_same rfl rfl⟩

theorem alike_unwind (error : Value) : m.Alike (m.unwind error) :=
  ⟨rfl, rfl, rfl, rfl, rfl, .of_same rfl rfl⟩

theorem alike_raiseAt (depth : Nat) (error : Value) : m.Alike (m.raiseAt depth error) := by
  unfold raiseAt
  split
  · split
    · exact ⟨rfl, rfl, rfl, rfl, rfl, .of_same rfl rfl⟩
    · exact m.alike_unwind error
  · split
    · exact (m.alike_leaveCoroutine _ _).trans ((alike_pop _).trans (alike_deliver _ _))
    · exact m.alike_unwind error

theorem alike_fail (what : Bytes) : m.Alike (m.fail what) := m.alike_raiseAt _ _

theorem alike_overflow : m.Alike m.overflow := by
  unfold overflow
  split
  · exact ⟨rfl, rfl, rfl, rfl, rfl, .of_same rfl rfl⟩
  · exact (alike_fail _ _).after ⟨rfl, rfl, rfl, rfl, rfl, .of_same rfl rfl⟩

theorem alike_failResumer (error : Value) : m.Alike (m.failResumer error) := by
  unfold failResumer
  dsimp only
  split
  · exact (alike_raiseAt _ _ _).after ⟨rfl, rfl, rfl, rfl, rfl, .of_same rfl rfl⟩
  · exact ⟨rfl, rfl, rfl, rfl, rfl, .of_same rfl rfl⟩

theorem alike_unwindStep (error : Value) : m.Alike (m.unwindStep error) := by
  unfold unwindStep
  repeat' split
  all_goals first
    | exact ⟨rfl, rfl, rfl, rfl, rfl, .of_same rfl rfl⟩
    | exact (m.alike_leaveCoroutine _ _).trans (alike_failResumer _ _)

theorem alike_enterScript (id : ClosureId) (args : List Value) (depth : Nat) (fixed : Bool) :
    m.Alike (m.enterScript id args depth fixed) := by
  unfold enterScript
  dsimp only
  generalize (if m.overflowed then stackLimit + stackReserve - 1 else stackLimit) = limit
  generalize m.stackTop + 1 + args.length + (m.closure id).proto.size
    + (if (m.closure id).proto.vararg then args.length + 1 else 0) = needed
  split
  · exact m.alike_overflow
  · exact ⟨rfl, rfl, rfl, rfl, rfl, .of_same rfl rfl⟩

theorem alike_resume (task : Task) (co : ThreadId) (args : List Value) (depth : Nat) (fixed : Bool) :
    m.Alike (m.resume task co args depth fixed) := by
  unfold resume
  dsimp only
  have refused : ∀ what : String, m.Alike ((m.push (.library ⟨m.stackTop + 1, depth, fixed⟩
      task)).failResumer (.str (bytes what))) := fun what =>
    (alike_failResumer _ _).after ⟨rfl, rfl, rfl, rfl, rfl, .of_same rfl rfl⟩
  repeat' split
  all_goals first
    | exact refused _
    | exact ⟨rfl, rfl, rfl, rfl, rfl, .of_same rfl rfl⟩

theorem alike_rewardResumer (values : List Value) : m.Alike (m.rewardResumer values) := by
  unfold rewardResumer
  split <;> exact ⟨rfl, rfl, rfl, rfl, rfl, .of_same rfl rfl⟩

theorem alike_yield (values : List Value) (depth : Nat) (fixed : Bool) :
    m.Alike (m.yield values depth fixed) := by
  unfold yield
  split
  · exact m.alike_raiseAt _ _
  · split
    · exact m.alike_raiseAt _ _
    · exact (m.alike_leaveCoroutine _ _).trans (alike_rewardResumer _ _)

/-! ## Steps -/

theorem Carried.alike {info : FrameInfo} {rest : List Frame} (h : Carried m info rest m') :
    m.Alike m' := by
  cases h with
  | goes a heaped | calls a await f args heaped | returns values heaped
  | replaced f args heaped => exact heaped.alike.trans ⟨rfl, rfl, rfl, rfl, rfl, .of_same rfl rfl⟩
  | fails a what heaped =>
    exact (alike_fail _ what).after (heaped.alike.trans ⟨rfl, rfl, rfl, rfl, rfl, .of_same rfl rfl⟩)

theorem alike_runStep : m.Alike m.runStep := by
  unfold runStep
  dsimp only
  split
  · exact (exec_carried _ _ _ _ _).alike.after ⟨rfl, rfl, rfl, rfl, rfl, .of_same rfl rfl⟩
  · exact ⟨rfl, rfl, rfl, rfl, rfl, .of_same rfl rfl⟩

theorem alike_answer (reply : Reply) (depth : Nat) (fixed : Bool) :
    m.Alike (m.answer reply depth fixed) := by
  unfold answer
  dsimp only
  split
  · exact ⟨rfl, rfl, rfl, rfl, rfl, .of_same rfl rfl⟩
  · exact ⟨rfl, rfl, rfl, rfl, rfl, .of_same rfl rfl⟩
  · exact m.alike_resume ..
  · exact m.alike_yield ..
  · exact ⟨rfl, rfl, rfl, rfl, rfl, .of_same rfl rfl⟩
  · exact ⟨rfl, rfl, rfl, rfl, rfl, .of_same rfl rfl⟩

end

section

variable {R : Manner} (alike : ∀ {m m' : Machine}, m.Alike m' → R.rel m m')

include alike

theorem works_perform {act : Act Reply} (meets : Meets R m.closing act (Reply.Fits m.closing))
    (name : Bytes) (count depth : Nat) (fixed : Bool) :
    R.rel m (m.perform name act count depth fixed) := by
  unfold perform
  dsimp only
  generalize (if m.overflowed then stackLimit + stackReserve - 1 else stackLimit) = limit
  split
  · exact alike m.alike_overflow
  obtain ⟨works, -⟩ := meets m rfl
  split
  · rename_i reply m' ran
    rw [ran] at works
    exact R.trans works (alike (m'.alike_answer ..))
  · rename_i fault m' ran
    rw [ran] at works
    exact R.trans works (alike (m'.alike_raiseAt ..))

theorem works_callNative (id : NativeId) (args : List Value) (depth : Nat) (fixed : Bool) :
    R.rel m (m.callNative id args depth fixed) := by
  unfold callNative
  dsimp only
  split
  · exact alike ⟨rfl, rfl, rfl, rfl, rfl, .of_same rfl rfl⟩
  · split
    · exact alike (m.alike_resume ..)
    · exact alike (m.alike_raiseAt ..)
  · exact works_perform alike (Library.nextMatch_fits _ id) ..

theorem works_callStep (f : Value) (args : List Value)
    (meets : ∀ b, f = .builtin b → Meets R m.closing (b.act args) (Reply.Fits m.closing)) :
    R.rel m (m.callStep f args) := by
  unfold callStep
  split
  · exact alike ⟨rfl, rfl, rfl, rfl, rfl, .of_same rfl rfl⟩
  dsimp only
  split
  · exact alike (m.alike_raiseAt ..)
  split
  · exact alike ⟨rfl, rfl, rfl, rfl, rfl, .of_same rfl rfl⟩
  split
  · exact alike (m.alike_enterScript ..)
  · exact works_perform alike (meets _ rfl) ..
  · exact alike (m.alike_raiseAt ..)
  · exact works_callNative alike ..
  · split
    · exact alike (m.alike_fail _)
    · exact alike ⟨rfl, rfl, rfl, rfl, rfl, .of_same rfl rfl⟩

end

/-- Whether a runtime has begun to finalize the object that was the next, if there is anything to be
done for it. -/
structure Finalizes (m : Machine) (o : Finalizable) (due : List Finalizable) (m' : Machine) : Prop where
  next : m.due = o :: due
  alike : { m with due := due }.Alike m'
  calls : (m.metafield o.value "__gc").isNil = false →
    m'.mode = .call (m.metafield o.value "__gc") [o.value]

theorem alike_endCollection (m : Machine) (task : Task) (rest : List Frame) :
    m.Alike (m.endCollection task rest) := by
  unfold endCollection
  split
  · exact ⟨rfl, rfl, rfl, rfl, rfl, .of_same rfl rfl⟩
  · dsimp only
    split <;> exact ⟨rfl, rfl, rfl, rfl, rfl, .of_same rfl rfl⟩

theorem finalizeNext_cases (m : Machine) (info : FrameInfo) (task : Task) (rest : List Frame) :
    m.Alike (m.finalizeNext info task rest)
      ∨ ∃ o due, m.Finalizes o due (m.finalizeNext info task rest) := by
  unfold finalizeNext
  split
  · rename_i o due task' hdue _
    dsimp only
    split
    · rename_i none
      exact .inr ⟨o, due, hdue, ⟨rfl, rfl, rfl, rfl, rfl, .of_same rfl rfl⟩, fun some => by rw [none] at some; cases some⟩
    · exact .inr ⟨o, due, hdue, ⟨rfl, rfl, rfl, rfl, rfl, .of_same rfl rfl⟩, fun _ => rfl⟩
  · exact .inl (m.alike_endCollection _ _)

theorem deliverStep_cases (m : Machine) (values : List Value) :
    m.Alike (m.deliverStep values) ∨ ∃ o due, m.Finalizes o due (m.deliverStep values) := by
  have emptied : m.Alike { m with frames := [], mode := .run } := ⟨rfl, rfl, rfl, rfl, rfl, .of_same rfl rfl⟩
  unfold deliverStep
  dsimp only
  split
  · left
    split
    · exact emptied.trans (concatOperands_carried _ _ _ _ _ _ _).alike
    · exact ⟨rfl, rfl, rfl, rfl, rfl, .of_same rfl rfl⟩
  · rename_i info task rest frames
    have swept : ∀ task, m.Alike ({ m with frames := [], mode := .deliver values }.finalizeNext info
        task rest) ∨ ∃ o due, m.Finalizes o due
          ({ m with frames := [], mode := .deliver values }.finalizeNext info task rest) := by
      intro task
      obtain alike | ⟨o, due, next, alike, calls⟩ :=
        finalizeNext_cases { m with frames := [], mode := .deliver values } info task rest
      · exact .inl (alike.after ⟨rfl, rfl, rfl, rfl, rfl, .of_same rfl rfl⟩)
      · exact .inr ⟨o, due, next, alike.after ⟨rfl, rfl, rfl, rfl, rfl, .of_same rfl rfl⟩, calls⟩
    split
    · exact .inl ⟨rfl, rfl, rfl, rfl, rfl, .of_same rfl rfl⟩
    · exact .inl ((alike_rewardResumer _ _).after ⟨rfl, rfl, rfl, rfl, rfl, .of_same rfl rfl⟩)
    · exact .inl ((alike_rewardResumer _ _).after ⟨rfl, rfl, rfl, rfl, rfl, .of_same rfl rfl⟩)
    · exact .inl ⟨rfl, rfl, rfl, rfl, rfl, .of_same rfl rfl⟩
    · left
      split
      · exact ⟨rfl, rfl, rfl, rfl, rfl, .of_same rfl rfl⟩
      · exact (alike_raiseAt _ _ _).after ⟨rfl, rfl, rfl, rfl, rfl, .of_same rfl rfl⟩
    · exact swept _
    · exact swept _
  · left
    split
    · exact (alike_rewardResumer _ _).after
        ((alike_leaveCoroutine _ _ _).after ⟨rfl, rfl, rfl, rfl, rfl, .of_same rfl rfl⟩)
    · split <;> exact ⟨rfl, rfl, rfl, rfl, rfl, .of_same rfl rfl⟩
    · exact ⟨rfl, rfl, rfl, rfl, rfl, .of_same rfl rfl⟩
    · exact ⟨rfl, rfl, rfl, rfl, rfl, .of_same rfl rfl⟩
    · exact ⟨rfl, rfl, rfl, rfl, rfl, .of_same rfl rfl⟩
  · exact .inl ⟨rfl, rfl, rfl, rfl, rfl, .of_same rfl rfl⟩

/-- What a step of a runtime does to these objects a library function does, if that is called.  What
is due stays so, but for the next object, which is finalized. -/
theorem step_cases {R : Manner} (alike : ∀ {m m' : Machine}, m.Alike m' → R.rel m m')
    (meets : ∀ f args, m.mode = .call (.builtin f) args →
      Meets R m.closing (f.act args) (Reply.Fits m.closing)) :
    R.rel m m.step ∨ ∃ o due, m.Finalizes o due m.step := by
  unfold step
  split
  · exact .inl (alike m.alike_runStep)
  · rename_i f args mode
    exact .inl (works_callStep alike f args fun b here => meets b args (here ▸ mode))
  · exact (m.deliverStep_cases _).imp_left alike
  · exact .inl (alike (m.alike_unwindStep _))
  · exact .inl (R.refl m)

/-! ## Host functions -/

/-- Whether the next step of a runtime calls a function that changes what is inside others. -/
def tampers (m : Machine) : Bool :=
  match m.mode with
  | .call (.builtin f) _ => f.tampers
  | _ => false

/-- A step of a runtime leaves host functions and userdata alone. -/
theorem step_works (fair : m.tampers = false) :
    m.Works m.step ∨ ∃ o due, m.Finalizes o due m.step :=
  step_cases (R := .works) Alike.works fun f args mode =>
    f.act_fits m.closing args (by rwa [tampers, mode] at fair)

/-- Whether host functions and userdata are what they were, with a few inner functions more. -/
structure Grows (m m' : Machine) : Prop where
  natives : Heirs m.natives m'.natives
  userdata : m'.userdata = m.userdata
  handleMetatable : m'.handleMetatable = m.handleMetatable

theorem Grows.refl (m : Machine) : m.Grows m := ⟨.refl _, rfl, rfl⟩

theorem Grows.trans (h : m.Grows m') (h' : m'.Grows m'') : m.Grows m'' :=
  ⟨h.natives.trans h'.natives, h'.userdata.trans h.userdata,
    h'.handleMetatable.trans h.handleMetatable⟩

theorem grows_step (fair : m.tampers = false) : m.Grows m.step := by
  obtain works | ⟨o, due, -, alike, -⟩ := step_works fair
  · exact ⟨works.natives, works.userdata, works.handleMetatable⟩
  · exact ⟨alike.natives ▸ .refl _, alike.userdata, alike.handleMetatable⟩

theorem grows_run (fuel : Nat) (m : Machine) (fair : ∀ k < fuel, (m.run k).tampers = false) :
    m.Grows (m.run fuel) := by
  induction fuel generalizing m with
  | zero => exact .refl m
  | succ fuel ih =>
    have here : m.tampers = false := fair 0 (Nat.succ_pos fuel)
    by_cases going : ∀ p, m.mode ≠ .paused p
    · rw [run_going going]
      refine (grows_step here).trans (ih m.step fun k lt => ?_)
      have later := fair (k + 1) (Nat.succ_lt_succ lt)
      rwa [run_going going] at later
    · obtain ⟨p, mode⟩ := not_forall_not.mp going
      rw [run_paused mode]
      exact .refl m

/-! ## Finalizers -/

/-- The manner in which library functions work on the finalizers that are due: not at all. -/
def dues : Manner where
  rel := fun m m' => m'.due = m.due ∧ m'.closing = m.closing
  refl := fun _ => ⟨rfl, rfl⟩
  trans := fun h h' => ⟨h'.1.trans h.1, h'.2.trans h.2⟩
  closing := fun h => h.2
  setMetatable := fun m id metatable =>
    ⟨(m.alike_setMetatable id metatable).due, (m.alike_setMetatable id metatable).closing⟩
  rawSet := fun _ _ _ _ => ⟨rfl, rfl⟩
  stopped := fun _ _ => ⟨rfl, rfl⟩
  reserve := fun m t n => ⟨(m.alike_reserve t n).due, (m.alike_reserve t n).closing⟩
  newThread := fun _ _ => ⟨rfl, rfl⟩
  newNative := fun _ _ _ => ⟨rfl, rfl⟩
  setNative := fun _ _ _ _ _ => ⟨rfl, rfl⟩

theorem lax_dues : dues.Lax where
  setMetatable := by
    intro m v metatable
    unfold setMetatable
    split
    · exact ⟨(alike_noteFinalizer _ _ _).due, (alike_noteFinalizer _ _ _).closing⟩
    · exact ⟨(alike_noteFinalizer _ _ _).due, (alike_noteFinalizer _ _ _).closing⟩
    · exact ⟨rfl, rfl⟩
  setBox := fun _ _ _ => ⟨rfl, rfl⟩
  setUpvalue := fun _ _ _ _ => ⟨rfl, rfl⟩

/-- Nothing that is due is ever passed over. -/
theorem step_due (m : Machine) : m.step.due = m.due ∨ ∃ o due, m.Finalizes o due m.step :=
  (step_cases (R := dues) (fun h => ⟨h.due, h.closing⟩) fun f args _ =>
    f.act_lax lax_dues m.closing args).imp_left And.left

/-- So it is in any number of steps. -/
theorem run_due (k : Nat) (m : Machine) : (m.run (k + 1)).due = (m.run k).due
    ∨ ∃ o due, (m.run k).Finalizes o due (m.run (k + 1)) := by
  induction k generalizing m with
  | zero =>
    rw [run, run]
    split
    · exact .inl rfl
    · exact m.step_due
  | succ k ih =>
    by_cases going : ∀ p, m.mode ≠ .paused p
    · rw [run_going going, run_going going]
      exact ih m.step
    · obtain ⟨p, mode⟩ := not_forall_not.mp going
      rw [run_paused mode, run_paused mode]
      exact .inl rfl

end Machine

end ScriptBridge.Script
