import ScriptBridge.Proofs.Restoring
import ScriptBridge.Proofs.Sparing

/-!
# ScriptBridge.Proofs.Refusals

References of other sessions are refused, with nothing done.  A transfer to a session checks each
value before the runtime gets to see any: the value of an assignment, the arguments of a call, the
results of a callable that a script has called.  What was made ready of a list is taken back
(`Session.Restored`), and the values that the operation was given are let go of (`World.Sheds`).

Main results:

* `foreign_run` — in any run, what is on its way to a session belongs to no other, and transfers
  of references of other sessions fail before they begin.
-/

namespace ScriptBridge.Host

variable {w w₀ w₁ : World} {μ : SessionId → Session.Memory} {H P : Multiset Holding}
  {id : SessionId} {s s' : Session} {step : Step}

/-! ## What is left of a session -/

/-- What a session is after values were let go of: it has lost nothing but cells of references,
and the allocations that they were. -/
structure Sheds (s s' : Session) : Prop extends s.Spares s' where
  outstanding : s'.ledger.outstanding + s.weigh = s.ledger.outstanding + s'.weigh
  overdrawn : s'.ledger.overdrawn = s.ledger.overdrawn

namespace World

/-- Whether the sessions of a world have lost nothing but cells of references, and the allocations
that they were. -/
def Sheds (w w' : World) : Prop :=
  ∀ id : SessionId, Option.Rel Host.Sheds w.sessions[id]? w'.sessions[id]?

/-- What is outstanding are the cells there are, if no more is being released. -/
theorem Books.outstanding (hw : Books μ H w) (rests : ∀ h ∈ H, Resting h)
    (hs : w.sessions[id]? = some s) :
    s.ledger.outstanding = s.weigh ∧ s.ledger.overdrawn = false := by
  obtain ⟨-, tidy⟩ := hw.1.tidy id s hs
  have none : tally (Holding.weight s.id) (w.holdings + H) = 0 := by
    refine Multiset.sum_eq_zero fun n hn => ?_
    obtain ⟨h, hh, rfl⟩ := Multiset.mem_map.mp hn
    have rest : Resting h := (Multiset.mem_add.mp hh).elim resting (rests h)
    cases h <;> first | rfl | exact rest.elim
  refine ⟨?_, tidy.solvent⟩
  rw [tidy.ledger, none, Nat.add_zero]

/-- Sessions that were spared have lost the allocations of the cells that went. -/
theorem Spares.sheds {μ' : SessionId → Session.Memory} {K : Multiset Holding} {w' : World}
    (h : w.Spares w') (before : Books μ H w) (after : Books μ' K w')
    (rests : ∀ h ∈ H, Resting h) (rests' : ∀ h ∈ K, Resting h) : w.Sheds w' := by
  intro id
  have here := h id
  cases hs : w.sessions[id]? with
  | none =>
    rw [hs] at here
    revert here
    cases w'.sessions[id]? <;> intro here <;> cases here
    exact .none
  | some s =>
    obtain ⟨s', hs', spares⟩ := h.some hs
    obtain ⟨all, solvent⟩ := before.outstanding rests hs
    obtain ⟨all', solvent'⟩ := after.outstanding rests' hs'
    rw [hs']
    exact .some { spares with
      outstanding := by rw [all, all', Int.add_comm]
      overdrawn := by rw [solvent, solvent'] }

/-! ## Turns -/

/-- The step that the innermost program takes in the next turn, and the world in which it begins;
none if the turn is another one. -/
def taken? (w : World) : Option (Step × World) :=
  match w.control, w.whims.headD .pass, w.activities with
  | _, .upon _ _, _ => none
  | .proceed, _, .program frame (step :: rest) :: more =>
    some (step, { w with whims := w.whims.tail, activities := .program frame rest :: more })
  | _, _, _ => none

/-- A turn of the host, in which no runtime makes a collection. -/
theorem advance_proceed (proceeds : w.control = .proceed)
    (calm : ∀ id budget, w.whims.headD .pass ≠ .upon id budget) :
    advance.run w = proceed.run { w with whims := w.whims.tail } := by
  have whim : nextWhim.run w = (w.whims.headD .pass, { w with whims := w.whims.tail }) := rfl
  rw [advance, stateM_get_bind, stateM_run_bind, whim, proceeds]
  cases hw : w.whims.headD .pass with
  | upon id budget => exact absurd hw (calm id budget)
  | _ => rfl

theorem taken?_eq_some (h : w.taken? = some (step, w₀)) :
    w.control = .proceed ∧ (∀ id budget, w.whims.headD .pass ≠ .upon id budget)
      ∧ ∃ frame rest more, w.activities = .program frame (step :: rest) :: more
        ∧ w₀ = { w with whims := w.whims.tail, activities := .program frame rest :: more } := by
  unfold taken? at h
  split at h
  · cases h
  · rename_i proceeds top calm
    obtain ⟨rfl, rfl⟩ := Prod.mk.inj (Option.some.inj h)
    exact ⟨proceeds, fun id budget upon => calm id budget upon, _, _, _, top, rfl⟩
  · cases h

theorem advance_taken (h : w.taken? = some (step, w₀)) :
    advance.run w = (beginStep step).run w₀ := by
  obtain ⟨proceeds, calm, frame, rest, more, top, rfl⟩ := taken?_eq_some h
  rw [advance_proceed proceeds calm, proceed, stateM_get_bind]
  simp only [top]
  rfl

theorem Books.taken (hw : Books μ H w) (h : w.taken? = some (step, w₀)) : Books μ H w₀ := by
  obtain ⟨-, -, frame, rest, more, top, rfl⟩ := taken?_eq_some h
  obtain ⟨hw, owed⟩ := hw
  have total : ({ w with whims := w.whims.tail, activities := .program frame rest :: more }
      : World).holdings = w.holdings := by
    rw [holdings, holdings, top, activityHoldings_cons, activityHoldings_cons]
    rfl
  have fits := hw.fits
  rw [top, List.forall_mem_cons] at fits
  rw [Books, total]
  exact ⟨{ hw with fits := List.forall_mem_cons.mpr ⟨trivial, fits.2⟩ }, owed⟩

/-! ## Operations that are refused -/

/-- An operation on a session that hands back what it was handed leaves the books right. -/
theorem Books.refused {α : Type} {op : Attempt α} {Q : α → Multiset Holding} {f : Failure}
    (hw : Books μ (P + H) w) (hs : w.sessions[id]? = some s)
    (keeps : ∀ o, Keeps (Session.Books id o) P op.run (onResult Q P))
    (run : op.run.run s = (.error f, s')) :
    (∃ e K, s.Sound e K ∧ s'.Sound e K) ∧ Books μ (P + H) (w.withSession id s') := by
  obtain ⟨hw, owed⟩ := hw
  have swap : w.holdings + (P + H) = P + (w.holdings + H) := by ac_rfl
  rw [swap] at hw owed
  have sound := hw.sound owed hs
  obtain ⟨hid, same, sound'⟩ := keeps s.isOpen s _ _ ⟨(hw.tidy id s hs).1, rfl, sound⟩
  rw [run, onResult_error] at sound'
  rw [run] at hid same
  refine ⟨⟨_, _, sound, sound'⟩, ?_⟩
  rw [Books, holdings_withSession, swap]
  exact ⟨hw.withSession owed hs hid sound' (fun _ _ _ => rfl) (hw.charted.withSession hs same), owed⟩

/-- Between two values on their way to a runtime there is none of another session. -/
theorem Books.inTransit_own (hw : Books μ H w) {v : Value} (hv : v ∈ w.inTransit id) {r : Ref}
    (hr : v.ref? = some r) : r.session = id := by
  have carried : ∀ {outs : List Session.Outbound} {vs : List Value},
      List.Forall₂ (Session.Carries id) outs vs → v ∈ vs → r.session = id := by
    intro outs vs all hv
    obtain ⟨out, -, carries⟩ := exists_of_mem all hv
    cases v with
    | reference q | function q =>
      obtain rfl := Option.some.inj hr
      cases out with
      | lent k => exact carries.1
      | _ => exact carries.elim
    | _ => cases hr
  obtain ⟨a, ha, mine⟩ := List.mem_flatMap.mp hv
  have fits := hw.1.fits a ha
  cases a with
  | step st waiting =>
    cases waiting with
    | calling session base outs c =>
      rw [Activity.inTransit] at mine
      split at mine
      · rename_i same
        subst same
        exact carried fits mine
      · cases mine
    | _ => cases mine
  | delivering d errand =>
    rw [Activity.inTransit] at mine
    split at mine
    · rename_i same
      subst same
      exact carried fits.1 mine
    · cases mine
  | _ => cases mine

theorem Books.orderly_at (hw : Books μ H w) (hs : w.sessions[id]? = some s)
    (active : s.active.isSome) : s.id = id ∧ s.isOpen ∧ s.Orderly := by
  obtain ⟨mine, tidy⟩ := hw.1.tidy id s hs
  have ho : s.isOpen := tidy.awake.symm.trans active
  exact ⟨mine, ho, tidy.fresh, tidy.issued, tidy.conserved ho⟩

theorem awake_run (active : s.active.isSome) : ∃ t, Session.thread.run.run s = (.ok t, s) := by
  obtain ⟨t, ht⟩ := Option.isSome_iff_exists.mp active
  exact ⟨t, by rw [Session.thread_run, ht]; rfl⟩

/-! ## Assignments -/

/-- The assignment that an action comes to: the session and the path of the global, how its value
is made, and whether missing tables are made.  A registration assigns a callable. -/
def assignment? : Action → Option (String × String × Try Value × Bool)
  | .assign name path e create => some (name, path, value e, create)
  | .register name path f => some (name, path, return .callable (← callable f), true)
  | .registerNamed name path stored => some (name, path, anotherOf stored, true)
  | _ => none

/-- An assignment makes its value first. -/
theorem beginStep_assignment {name path : String} {e : Try Value} {create : Bool}
    (h : assignment? step.action = some (name, path, e, create)) :
    beginStep step = beginAssign step name path e create
      ∧ Keeps Books 0 e.run (onResult Value.holdings 0) := by
  unfold assignment? at h
  unfold beginStep
  split at h <;> rename_i action <;> cases h
  · rw [action]
    exact ⟨rfl, keeps_value _⟩
  · rw [action]
    exact ⟨rfl, (keeps_callable _).tryBind fun id => Keeps.tryPure _ rfl⟩
  · rw [action]
    exact ⟨rfl, keeps_anotherOf _⟩

/-- Dropping a reference releases its cell, and nothing else. -/
theorem dropValue_ref {v : Value} {r : Ref} (hv : v.ref? = some r)
    (mild : w.Mild (.cell r.session r.cell)) :
    (dropValue v).run w = (do
      let freed ← onSession r.session (Session.withdraw r.cell)
      onSession r.session (Session.settle freed.1) : Act Unit).run w := by
  have callable : ((onSession r.session (Session.withdraw r.cell)).run w).1.2 = none := by
    cases hs : w.sessions[r.session]? with
    | none => rw [onSession_run_none hs]; rfl
    | some s =>
      rw [onSession_run_some hs]
      cases hc : s.cell? r.cell with
      | none => rw [Session.withdraw_run_of_none hc]
      | some c =>
        have anchored := mild _ _ rfl s c hs hc
        rw [Session.withdraw_run hc]
        cases c <;> first | rfl | cases anchored
  have turn : ∀ (fuel : Nat) {c : Chore} {freed : List Chore} {u u' : World},
      (chore c).run u = (freed, u') →
        (chores (fuel + 1) [c]).run u = (chores fuel freed).run u' := by
    intro fuel c freed u u' h
    rw [chores, stateM_run_bind, h, List.append_nil]
  obtain ⟨fuel, bound⟩ : ∃ fuel, w.choreBound 1 = fuel + 1 + 1 + 1 :=
    ⟨4 * (w.callables.toList.map fun e => e.2.captured.size).sum + 2, by rw [choreBound]; omega⟩
  have run : (dropValue v).run w = (chores (w.choreBound 1) [.value v]).run w := by
    cases v with
    | reference q | function q => rfl
    | _ => cases hv
  have first : (chore (.value v)).run w = ([.cell r.session r.cell], w) := by
    cases v with
    | reference q | function q =>
      obtain rfl := Option.some.inj hv
      rfl
    | _ => cases hv
  have second : (chore (.cell r.session r.cell)).run w
      = ([.settle r.session ((onSession r.session (Session.withdraw r.cell)).run w).1.1],
        ((onSession r.session (Session.withdraw r.cell)).run w).2) := by
    have look : (chore (.cell r.session r.cell)).run w
        = (((onSession r.session (Session.withdraw r.cell)).run w).1.2.toList.map Chore.callable
          ++ [.settle r.session ((onSession r.session (Session.withdraw r.cell)).run w).1.1],
          ((onSession r.session (Session.withdraw r.cell)).run w).2) := rfl
    rw [look, callable]
    rfl
  have third : ∀ (n : Nat) (u : World), (chore (.settle r.session n)).run u
      = ([], ((onSession r.session (Session.settle n)).run u).2) := fun _ _ => rfl
  have nothing : ∀ u : World, (chores fuel []).run u = ((), u) := by
    intro u
    cases fuel <;> rfl
  rw [run, bound, turn _ first, turn _ second, turn _ (third _ _), nothing]
  rfl

/-- Dropping a reference is nothing to the sessions that are not its own. -/
theorem elsewhere_dropValue {v : Value} {r : Ref} (hv : v.ref? = some r)
    (mild : w.Mild (.cell r.session r.cell)) {j : SessionId} (ne : j ≠ r.session) :
    ((dropValue v).run w).2.sessions[j]? = w.sessions[j]? := by
  have other : ∀ {α : Type} [Inhabited α] (op : Op α) (u : World),
      ((onSession r.session op).run u).2.sessions[j]? = u.sessions[j]? := by
    intro α _ op u
    cases hu : u.sessions[r.session]? with
    | none => rw [onSession_run_none hu]
    | some s => rw [onSession_run_some hu, getElem?_withSession_of_ne ne]
  rw [dropValue_ref hv mild]
  exact (other (Session.settle _) _).trans (other (Session.withdraw r.cell) w)

theorem sessionNamed_snd (name : String) (w : World) :
    ((sessionNamed name).run.run w).2 = w := by
  rw [sessionNamed, try_get_bind]
  cases w.names.find? fun e => e.1 == name <;> rfl

/-- The assignment of a reference of another session fails.  It is nothing to the sessions but that
of the reference, which goes. -/
theorem assign_foreign {name path : String} {e : Try Value} {create : Bool} {v : Value} {r : Ref}
    {p : Path} (hw : Books μ 0 w) (takes : w.taken? = some (step, w₀))
    (assigns : assignment? step.action = some (name, path, e, create))
    (made : e.run.run w₀ = (.ok v, w₁))
    (named : ((sessionNamed name).run.run w₁).1 = .ok id) (hs : w₁.sessions[id]? = some s)
    (active : s.active.isSome) (parsed : Path.parse path = .ok p) (hv : v.ref? = some r)
    (foreign : r.session ≠ id) :
    w₁.Sheds (advance.run w).2
      ∧ (∀ j ≠ r.session, (advance.run w).2.sessions[j]? = w₁.sessions[j]?)
      ∧ ∃ w', advance.run w
        = (finishStep step (.error (.failure (.wrongSession id r.session)))).run w' := by
  have books : Books μ (v.holdings + 0) w₁ := by
    have kept := (beginStep_assignment assigns).2 w₀ μ 0 (by rw [zero_add]; exact hw.taken takes)
    rwa [made] at kept
  have looked : (sessionNamed name).run.run w₁ = (.ok id, w₁) := by
    rw [← named]
    exact Prod.ext rfl (sessionNamed_snd name w₁)
  obtain ⟨mine, -, -⟩ := books.orderly_at hs active
  obtain ⟨t, awake⟩ := awake_run active
  have refused : (Session.beginAssign path v create).run.run s
      = (.error (.wrongSession id r.session), s) := by
    have read : (MonadExcept.ofExcept (Path.parse path) : Attempt Path).run.run s = (.ok p, s) := by
      rw [parsed]
      rfl
    rw [← mine] at foreign
    rw [Session.beginAssign, try_bind_ok awake, try_bind_ok read,
      try_bind_error (Session.pack_foreign hv foreign), mine]
  -- the session is looked at twice, and put back as it was
  have same : ∀ j : SessionId, ((w₁.withSession id s).withSession id s).sessions[j]?
      = w₁.sessions[j]? := by
    intro j
    by_cases here : j = id
    · subst here
      rw [getElem?_withSession_self, hs]
    · rw [getElem?_withSession_of_ne here, getElem?_withSession_of_ne here]
  have run : advance.run w
      = (do dropValue v; finishStep step (.error (.failure (.wrongSession id r.session))) :
          Act Unit).run ((w₁.withSession id s).withSession id s) := by
    rw [advance_taken takes, (beginStep_assignment assigns).1, beginAssign, stateM_run_bind, made]
    simp only
    rw [stateM_run_bind, looked]
    simp only
    rw [stateM_run_bind, onSession_run_some hs, stateM_run_bind, attemptOn,
      onSession_run_some (getElem?_withSession_self ..)]
    rw [show ((do return (← get).height : Op Nat).run s).2 = s from rfl, refused]
  have measured : Books μ (v.holdings + 0) (w₁.withSession id s) := by
    have kept := ((keeps_height id).aside v.holdings) w₁ μ 0 books
    rwa [onSession_run_some hs] at kept
  have ready : Books μ (v.holdings + 0) ((w₁.withSession id s).withSession id s) :=
    (measured.refused (getElem?_withSession_self ..) (fun _ => Session.keeps_beginAssign path v create)
      refused).2
  have spared := ((sparing_dropValue v).bind fun _ => sparing_finishStep step
    (.error (.failure (.wrongSession id r.session)))) _ (μ, w₁) 0 ⟨ready, .of_alike same⟩
  rw [← run] at spared
  have finished : advance.run w = (finishStep step (.error (.failure (.wrongSession id
      r.session)))).run ((dropValue v).run ((w₁.withSession id s).withSession id s)).2 := run
  refine ⟨spared.2.sheds books spared.1 (fun h hh => ?_) (by simp), fun j ne => ?_, _, finished⟩
  · have alone : h ∈ (Multiset.map Value.holdings {v}).sum := by simpa using hh
    exact resting_values alone
  · have held : v.holdings = {.ref r} := by
      cases v with
      | reference q | function q =>
        obtain rfl := Option.some.inj hv
        rfl
      | _ => cases hv
    rw [held] at ready
    rw [finished, sessions_finishStep, elsewhere_dropValue hv ready.mild_ref ne, same]

/-! ## Calls -/

/-- What a call needs: the slot of what is called, which is borrowed, and the arguments. -/
def prepareCall (slot : String) (args : List ItemExpr) (into : List String) (count : Bool) :
    Try (Value × Calling) := do
  let (place, s) ← filledSlot slot
  modify fun w => w.setSlotAt place (some { s with borrows := s.borrows + 1 })
  let args ← tryCatch (items args) fun mishap => do
    giveBack ⟨place, none, [], into, count⟩
    throw mishap
  return (s.value, ⟨place, none, args, into, count⟩)

/-- A call step that is ready calls a script function. -/
theorem beginCall_prepared {slot : String} {args : List ItemExpr} {into : List String}
    {count : Bool} {ref : Ref} {c : Calling}
    (prepared : (prepareCall slot args into count).run.run w = (.ok (.function ref, c), w₁)) :
    (beginCall step slot args into count).run w = (beginScriptCall step ref c).run w₁ := by
  have begun : (beginCall step slot args into count).run w
      = ((prepareCall slot args into count).run >>= _).run w := rfl
  rw [begun, stateM_run_bind, prepared]

theorem resting_calling {c : Calling} {h : Holding} (hh : h ∈ c.holdings) : Resting h := by
  rw [← sum_calling] at hh
  exact resting_values hh

/-- A call with an argument of another session fails at the first one.  The session called is as it
was, but for what the step lets go of when it ends, and so are all others. -/
theorem call_foreign {slot : String} {args : List ItemExpr} {into : List String} {count : Bool}
    {ref r : Ref} {c : Calling} {us vs : List Value} {v : Value} (hw : Books μ 0 w)
    (takes : w.taken? = some (step, w₀)) (action : step.action = .call slot args into count)
    (prepared : (prepareCall slot args into count).run.run w₀ = (.ok (.function ref, c), w₁))
    (hs : w₁.sessions[ref.session]? = some s) (active : s.active.isSome)
    (split : c.args.map (·.1) = us ++ v :: vs)
    (own : ∀ u ∈ us, ∀ q, u.ref? = some q → q.session = ref.session) (hv : v.ref? = some r)
    (foreign : r.session ≠ ref.session) :
    ∃ s', s.Restored s'
      ∧ advance.run w = (finishCall step c (.error (.failure
          ((Failure.wrongSession ref.session r.session).ofItem us.length)))).run
            (w₁.withSession ref.session s')
      ∧ (w₁.withSession ref.session s').Sheds (advance.run w).2 := by
  have books : Books μ (c.holdings + 0) w₁ := by
    have kept := keeps_prepareCall slot args into count w₀ μ 0
      (by rw [zero_add]; exact hw.taken takes)
    rwa [← prepareCall, prepared] at kept
  obtain ⟨mine, ho, orderly⟩ := books.orderly_at hs active
  obtain ⟨t, awake⟩ := awake_run active
  rw [← mine] at own foreign
  obtain ⟨s', packed, since⟩ := Session.packAll_foreign orderly vs own hv foreign
  rw [← split, mine] at packed
  have refused : (do let _ ← Session.thread; Session.packAll (c.args.map (·.1)) :
      Attempt (List Session.Outbound)).run.run s
      = (.error ((Failure.wrongSession ref.session r.session).ofItem us.length), s') := by
    rw [try_bind_ok awake, packed]
  have regroup : c.holdings + 0
      = valueHoldings (c.args.map (·.1)) + valueHoldings c.replaced.toList := by
    rw [Calling.holdings, add_zero, add_comm]
  rw [regroup] at books
  obtain ⟨⟨e, K, before, after⟩, ready⟩ := books.refused hs (fun o => Session.keeps_thread rfl
    fun open' t => open' ▸ Session.keeps_packAll _) refused
  rw [← regroup] at ready
  have run : advance.run w = (finishCall step c (.error (.failure
      ((Failure.wrongSession ref.session r.session).ofItem us.length)))).run
        (w₁.withSession ref.session s') := by
    have begun : beginStep step = beginCall step slot args into count := by
      unfold beginStep
      rw [action]
      rfl
    rw [advance_taken takes, begun, beginCall_prepared prepared, beginScriptCall, stateM_run_bind,
      attemptOn, onSession_run_some hs, refused]
  have spared := sparing_finishCall step c (.failure
    ((Failure.wrongSession ref.session r.session).ofItem us.length)) _
      (μ, w₁.withSession ref.session s') 0 ⟨ready, .of_same rfl⟩
  rw [← run] at spared
  refine ⟨s', since.restored ho before after, run,
    spared.2.sheds ready spared.1 (fun h hh => ?_) (by simp)⟩
  rw [add_zero] at hh
  exact resting_calling hh

/-! ## Results -/

/-- The world in which the results of the body on top are made ready: the body is left, its frame
has gone, and so has the owner that the callable had for the call. -/
def answering (w : World) (f : Frame) (callable : CallableId) : World :=
  ((do
    setControl .proceed
    finishTop
    finishTop
    dropSlots f.slots
    release [.callable callable] : Act Unit).run w).2

theorem answering_eq (w : World) (f : Frame) (callable : CallableId) :
    w.answering f callable = ((release [.callable callable]).run ((dropSlots f.slots).run
      (finishTop.run (finishTop.run ((setControl .proceed).run w).2).2).2).2).2 := by
  rw [answering, stateM_run_bind, stateM_run_bind, stateM_run_bind, stateM_run_bind]

/-- The values of results stay when their body is left, and so does what its caller is to come back
to. -/
theorem Books.answering {g : Frame} {more : List Step} {rest : List Activity}
    {previous : Option Script.ThreadId} {callable : CallableId} {vs : List Value}
    (hw : Books μ (valueHoldings vs + 0) w)
    (serves : w.activities = .program (some g) more :: .serving id previous callable :: rest) :
    Books μ (valueHoldings vs + {.entered id previous}) (w.answering g callable) := by
  have kept : KeepsAt Books w (valueHoldings vs) (do
      setControl .proceed
      finishTop
      finishTop
      dropSlots g.slots
      release [.callable callable] : Act Unit)
      fun _ => valueHoldings vs + {.entered id previous} := by
    refine KeepsAt.bind ((keeps_setControl_proceed.aside _) w) ?_
    have here : ((setControl .proceed).run w).2.activities
        = .program (some g) more :: .serving id previous callable :: rest := serves
    refine KeepsAt.bind (((keepsAt_finishTop here).frame (valueHoldings vs)).congr
      (zero_add _).symm fun _ => rfl) ?_
    have next : (finishTop.run ((setControl .proceed).run w).2).2.activities
        = .serving id previous callable :: rest := by
      rw [finishTop_run, here, List.drop_succ_cons, List.drop_zero]
    refine KeepsAt.bind (((keepsAt_finishTop next).frame _).congr (zero_add _).symm
      fun _ => rfl) ?_
    rw [add_left_comm]
    refine ((keeps_dropSlots g.slots).frame _).bind (fun _ => ?_) _
    rw [zero_add, Activity.holdings, add_comm {Holding.entered id previous}, add_assoc]
    refine ((keeps_releaseCallables [callable]).frame
      ({Holding.entered id previous} + valueHoldings vs)).congr ?_ fun _ => ?_
    · simp only [owners_cons, owners_nil, add_zero]
    · rw [zero_add, add_comm]
  have all := kept μ 0 hw
  rwa [add_zero] at all

/-- A body on top that has no more steps is left with its results. -/
theorem proceed_leaves {f : Frame} {rest : List Activity}
    (top : w.activities = .program (some f) [] :: rest) :
    proceed.run w = (bodyResults f >>= leaveBody).run w := by
  rw [proceed, stateM_get_bind, top]

/-- Results that cannot be made ready go, and the runtime that called gets the failure. -/
theorem leaveBody_refused {g : Frame} {more : List Step} {rest : List Activity}
    {previous : Option Script.ThreadId} {callable : CallableId} {vs : List Value} {f : Failure}
    (serves : w.activities = .program (some g) more :: .serving id previous callable :: rest)
    (hs : (w.answering g callable).sessions[id]? = some s)
    (refused : (Session.beginResults vs).run.run s = (.error f, s')) :
    (leaveBody (.returned vs)).run w = (do
      dropValues vs
      onSession id (Session.leave previous)
      onSession id (Session.raiseFailure f)
      setControl (.script id) : Act Unit).run ((w.answering g callable).withSession id s') := by
  have here : ((setControl .proceed).run w).2.activities
      = .program (some g) more :: .serving id previous callable :: rest := serves
  rw [leaveBody, stateM_run_bind, stateM_get_bind, here]
  simp only
  rw [stateM_run_bind, stateM_run_bind, stateM_run_bind, answerScript, stateM_run_bind]
  simp only
  rw [← answering_eq, stateM_run_bind, attemptOn, onSession_run_some hs, refused]

/-- A list of results with one of another session is not delivered: the runtime gets the failure of
the first one.  The session is as it was before the results were made ready, but for what is let go
of, and so are all others. -/
theorem results_foreign {f g : Frame} {more : List Step} {rest rest' : List Activity}
    {previous : Option Script.ThreadId} {callable : CallableId} {t : Script.ThreadId} {r : Ref}
    {us vs : List Value} {v : Value} (hw : Books μ 0 w) (proceeds : w.control = .proceed)
    (calm : ∀ id budget, w.whims.headD .pass ≠ .upon id budget)
    (top : w.activities = .program (some f) [] :: rest)
    (made : (bodyResults f).run { w with whims := w.whims.tail }
      = (.returned (us ++ v :: vs), w₁))
    (serves : w₁.activities = .program (some g) more :: .serving id previous callable :: rest')
    (hs : (w₁.answering g callable).sessions[id]? = some s) (active : s.active = some t)
    (room : (s.machine.reserve t (us ++ v :: vs).length).1)
    (own : ∀ u ∈ us, ∀ q, u.ref? = some q → q.session = id) (hv : v.ref? = some r)
    (foreign : r.session ≠ id) :
    ∃ s' w', s.Restored s' ∧ ((w₁.answering g callable).withSession id s').Sheds w'
      ∧ advance.run w = (do
          onSession id (Session.leave previous)
          onSession id (Session.raiseFailure
            ((Failure.wrongSession id r.session).ofItem us.length))
          setControl (.script id) : Act Unit).run w' := by
  have books : Books μ (valueHoldings (us ++ v :: vs) + 0) w₁ := by
    have kept := keeps_bodyResults f { w with whims := w.whims.tail } μ 0
      (by rw [zero_add]; exact ⟨{ hw.1 with }, hw.2⟩)
    rwa [made] at kept
  have left := books.answering serves
  have begins : advance.run w = (leaveBody (.returned (us ++ v :: vs))).run w₁ := by
    have leaves := proceed_leaves (w := { w with whims := w.whims.tail }) top
    rw [advance_proceed proceeds calm, leaves, stateM_run_bind, made]
  generalize hlist : us ++ v :: vs = results at *
  obtain ⟨mine, ho, orderly⟩ := left.orderly_at hs (by rw [active]; rfl)
  rw [← mine] at own foreign
  obtain ⟨s', packed, since⟩ := Session.packAll_foreign orderly vs own hv foreign
  rw [hlist, mine] at packed
  have refused : (Session.beginResults results).run.run s
      = (.error ((Failure.wrongSession id r.session).ofItem us.length), s') := by
    have awake : Session.thread.run.run s = (.ok t, s) := by
      rw [Session.thread_run, active]
      rfl
    have reserved : (Session.reserve t results.length).run.run s = (.ok (), s) := by
      rw [Session.reserve_run, if_pos room, Script.Machine.reserve_of_room room]
    rw [Session.beginResults, try_bind_ok awake, try_bind_ok reserved, try_bind_error packed]
  rw [begins, leaveBody_refused serves hs refused]
  generalize w₁.answering g callable = u at left hs ⊢
  obtain ⟨⟨e, K, before, after⟩, ready⟩ :=
    left.refused hs (fun _ => Session.keeps_beginResults results) refused
  have spared := sparing_dropValues results _ (μ, u.withSession id s')
    {.entered id previous} ⟨ready, .of_same rfl⟩
  refine ⟨s', _, since.restored ho before after,
    spared.2.sheds ready spared.1 (fun h hh => ?_) (by simp [Resting]), rfl⟩
  obtain hh | hh := Multiset.mem_add.mp hh
  · rw [← sum_values] at hh
    exact resting_values hh
  · rw [Multiset.mem_singleton.mp hh]
    trivial

end World

/-! ## Any run -/

/-- At any point of any run: what is on its way to a session belongs to no other, and a transfer of
a reference of another session, open or closed, into an open one fails with nothing done.  This is
so for the value of an assignment, for the arguments of a call, and for the results of a callable
that a script has called; lists fail at the first such value. -/
theorem foreign_run (program : List Step) (whims : List Whim) (n : Nat) :
    let w := (World.start program whims).run n
    (∀ id, ∀ v ∈ w.inTransit id, ∀ r, v.ref? = some r → r.session = id)
    ∧ (∀ {step : Step} {w₀ w₁ : World} {name path : String} {e : Try Value} {create : Bool}
        {v : Value} {r : Ref} {p : Path} {id : SessionId} {s : Session},
      w.taken? = some (step, w₀) →
      World.assignment? step.action = some (name, path, e, create) →
      e.run.run w₀ = (.ok v, w₁) →
      ((World.sessionNamed name).run.run w₁).1 = .ok id → w₁.sessions[id]? = some s →
      s.active.isSome → Path.parse path = .ok p → v.ref? = some r → r.session ≠ id →
      w₁.Sheds (World.advance.run w).2
        ∧ (∀ j ≠ r.session, (World.advance.run w).2.sessions[j]? = w₁.sessions[j]?)
        ∧ ∃ w', World.advance.run w
          = (World.finishStep step (.error (.failure (.wrongSession id r.session)))).run w')
    ∧ (∀ {step : Step} {w₀ w₁ : World} {slot : String} {args : List ItemExpr}
        {into : List String} {count : Bool} {ref r : Ref} {c : Calling} {us vs : List Value}
        {v : Value} {s : Session},
      w.taken? = some (step, w₀) → step.action = .call slot args into count →
      (World.prepareCall slot args into count).run.run w₀ = (.ok (.function ref, c), w₁) →
      w₁.sessions[ref.session]? = some s → s.active.isSome →
      c.args.map (·.1) = us ++ v :: vs →
      (∀ u ∈ us, ∀ q, u.ref? = some q → q.session = ref.session) → v.ref? = some r →
      r.session ≠ ref.session →
      ∃ s', s.Restored s'
        ∧ World.advance.run w = (World.finishCall step c (.error (.failure
            ((Failure.wrongSession ref.session r.session).ofItem us.length)))).run
              (w₁.withSession ref.session s')
        ∧ (w₁.withSession ref.session s').Sheds (World.advance.run w).2)
    ∧ ∀ {w₁ : World} {id : SessionId} {f g : Frame} {more : List Step}
        {rest rest' : List Activity} {previous : Option Script.ThreadId} {callable : CallableId}
        {t : Script.ThreadId} {r : Ref} {us vs : List Value} {v : Value} {s : Session},
      w.control = .proceed → (∀ id budget, w.whims.headD .pass ≠ .upon id budget) →
      w.activities = .program (some f) [] :: rest →
      (World.bodyResults f).run { w with whims := w.whims.tail }
        = (.returned (us ++ v :: vs), w₁) →
      w₁.activities = .program (some g) more :: .serving id previous callable :: rest' →
      (w₁.answering g callable).sessions[id]? = some s → s.active = some t →
      (s.machine.reserve t (us ++ v :: vs).length).1 →
      (∀ u ∈ us, ∀ q, u.ref? = some q → q.session = id) → v.ref? = some r → r.session ≠ id →
      ∃ s' w', s.Restored s' ∧ ((w₁.answering g callable).withSession id s').Sheds w'
        ∧ World.advance.run w = (do
            World.onSession id (Session.leave previous)
            World.onSession id (Session.raiseFailure
              ((Failure.wrongSession id r.session).ofItem us.length))
            World.setControl (.script id) : Act Unit).run w' := by
  have books := World.books_run program whims n
  exact ⟨fun id v hv r hr => books.inTransit_own hv hr, World.assign_foreign books,
    World.call_foreign books, World.results_foreign books⟩

/-- Whether the next turn begins to assign a reference to a global of another session. -/
def assignsForeign (w : World) : Bool :=
  match w.taken? with
  | none => false
  | some (step, w₀) =>
    match World.assignment? step.action with
    | none => false
    | some (name, path, e, _) =>
      match e.run.run w₀ with
      | (.error _, _) => false
      | (.ok v, w₁) =>
        match ((World.sessionNamed name).run.run w₁).1, Path.parse path, v.ref? with
        | .ok id, .ok _, some r =>
          w₁.sessions[id]?.any (·.active.isSome) && decide (r.session ≠ id)
        | _, _, _ => false

/-- Whether the next turn begins to call a function with a reference of another session, after an
argument that is none. -/
def callsForeign (w : World) : Bool :=
  match w.taken? with
  | none => false
  | some (step, w₀) =>
    match step.action with
    | .call slot args into count =>
      match (World.prepareCall slot args into count).run.run w₀ with
      | (.ok (.function ref, c), w₁) =>
        match c.args.map (·.1) with
        | [Value.nil, v] => w₁.sessions[ref.session]?.any (·.active.isSome)
          && v.ref?.any fun r => decide (r.session ≠ ref.session)
        | _ => false
      | _ => false
    | _ => false

/-- Whether the next turn returns one reference from a body that another session has called. -/
def returnsForeign (w : World) : Bool :=
  match w.control, w.activities with
  | .proceed, .program (some f) [] :: _ =>
    match (World.bodyResults f).run { w with whims := w.whims.tail } with
    | (.returned [v], w₁) =>
      match w₁.activities with
      | .program (some g) _ :: .serving id _ callable :: _ =>
        ((w₁.answering g callable).sessions[id]?.any fun s =>
          s.active.any fun t => (s.machine.reserve t 1).1)
          && (v.ref?.any fun r => decide (r.session ≠ id))
      | _ => false
    | _ => false
  | _, _ => false

/-- Assigns a table of one session to a global of another, calls a function of the other with it,
and returns it to a script of the other. -/
def mingling : List Step := [
  .mk (.openSession "a" .standard) true true,
  .mk (.openSession "b" .standard) true true,
  .mk (.lookUp "a" "math" (some "x")) true true,
  .mk (.lookUpFunction "b" "print" (some "f")) true true,
  .mk (.assign "b" "y" (.dup "x") true) true true,
  .mk (.call "f" [.nils 1, .one (.dup "x")] [] false) true true,
  .mk (.register "b" "g" (.mk "g" [] [.one (.dup "^z")] [("z", .take "x")] false true)) true true,
  .mk (.execute "b" "g()") true true]

theorem foreign_run_mingling :
    (∃ (step : Step) (w₀ w₁ : World) (id : SessionId) (s : Session) (r : Ref),
      ((World.start mingling []).run 4).taken? = some (step, w₀)
      ∧ w₁.sessions[id]? = some s ∧ r.session ≠ id
      ∧ w₁.Sheds (World.advance.run ((World.start mingling []).run 4)).2
      ∧ ∃ w', World.advance.run ((World.start mingling []).run 4)
        = (World.finishStep step (.error (.failure (.wrongSession id r.session)))).run w')
    ∧ (∃ (step : Step) (w₀ w₁ : World) (c : Calling) (ref r : Ref) (s s' : Session),
      ((World.start mingling []).run 5).taken? = some (step, w₀)
      ∧ w₁.sessions[ref.session]? = some s ∧ r.session ≠ ref.session ∧ s.Restored s'
      ∧ World.advance.run ((World.start mingling []).run 5)
        = (World.finishCall step c (.error (.failure
          ((Failure.wrongSession ref.session r.session).ofItem 1)))).run
            (w₁.withSession ref.session s'))
    ∧ ∃ (id : SessionId) (previous : Option Script.ThreadId) (r : Ref) (w' : World), r.session ≠ id
      ∧ World.advance.run ((World.start mingling []).run 12) = (do
          World.onSession id (Session.leave previous)
          World.onSession id (Session.raiseFailure
            ((Failure.wrongSession id r.session).ofItem 0))
          World.setControl (.script id) : Act Unit).run w' := by
  refine ⟨?assigned, ?called, ?returned⟩
  case assigned =>
    have ready : assignsForeign ((World.start mingling []).run 4) = true := by decide +kernel
    obtain ⟨-, law, -, -⟩ := foreign_run mingling [] 4
    generalize (World.start mingling []).run 4 = w at ready law ⊢
    unfold assignsForeign at ready
    split at ready <;> try cases ready
    rename_i step w₀ takes
    split at ready <;> try cases ready
    rename_i assigns
    split at ready <;> try cases ready
    rename_i v w₁ made
    split at ready <;> try cases ready
    rename_i id p r named parsed hv
    obtain ⟨awake, foreign⟩ := Bool.and_eq_true_iff.mp ready
    obtain ⟨s, hs, active⟩ := (Option.any_eq_true _ _).mp awake
    have foreign := of_decide_eq_true foreign
    obtain ⟨sheds, -, w', run⟩ := law takes assigns made named hs active parsed hv foreign
    exact ⟨step, w₀, w₁, id, s, r, takes, hs, foreign, sheds, w', run⟩
  case called =>
    have ready : callsForeign ((World.start mingling []).run 5) = true := by decide +kernel
    obtain ⟨-, -, law, -⟩ := foreign_run mingling [] 5
    generalize (World.start mingling []).run 5 = w at ready law ⊢
    unfold callsForeign at ready
    split at ready <;> try cases ready
    rename_i step w₀ takes
    split at ready <;> try cases ready
    rename_i slot args into count action
    split at ready <;> try cases ready
    rename_i ref c w₁ prepared
    split at ready <;> try cases ready
    rename_i v values
    obtain ⟨awake, foreign⟩ := Bool.and_eq_true_iff.mp ready
    obtain ⟨s, hs, active⟩ := (Option.any_eq_true _ _).mp awake
    obtain ⟨r, hv, foreign⟩ := (Option.any_eq_true _ _).mp foreign
    have foreign := of_decide_eq_true foreign
    have own : ∀ u ∈ [Value.nil], ∀ q, u.ref? = some q → q.session = ref.session := by
      simp [Value.ref?]
    obtain ⟨s', restored, run, -⟩ := law takes action prepared hs active values own hv foreign
    exact ⟨step, w₀, w₁, c, ref, r, s, s', takes, hs, foreign, restored, run⟩
  case returned =>
    have ready : returnsForeign ((World.start mingling []).run 12) = true := by decide +kernel
    have calm : ((World.start mingling []).run 12).whims = [] := by decide +kernel
    obtain ⟨-, -, -, law⟩ := foreign_run mingling [] 12
    generalize (World.start mingling []).run 12 = w at ready calm law ⊢
    unfold returnsForeign at ready
    split at ready <;> try cases ready
    rename_i proceeds top
    split at ready <;> try cases ready
    rename_i v w₁ made
    split at ready <;> try cases ready
    rename_i g _ id previous callable _ serves
    obtain ⟨room, foreign⟩ := Bool.and_eq_true_iff.mp ready
    obtain ⟨s, hs, room⟩ := (Option.any_eq_true _ _).mp room
    obtain ⟨t, active, room⟩ := (Option.any_eq_true _ _).mp room
    obtain ⟨r, hv, foreign⟩ := (Option.any_eq_true _ _).mp foreign
    have foreign := of_decide_eq_true foreign
    have own : ∀ u ∈ ([] : List Value), ∀ q, u.ref? = some q → q.session = id := nofun
    have room : (s.machine.reserve t ([] ++ v :: []).length).1 = true := room
    obtain ⟨-, w', -, -, run⟩ := law proceeds (fun id budget => by rw [calm]; exact nofun) top made
      serves hs active room own hv foreign
    exact ⟨id, previous, r, w', foreign, run⟩

end ScriptBridge.Host
