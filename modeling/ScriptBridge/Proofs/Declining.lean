import ScriptBridge.Proofs.Assignments
import ScriptBridge.Proofs.Refusals
import ScriptBridge.Proofs.Results

/-!
# ScriptBridge.Proofs.Declining

The first turn of a call of a script function.  The call is declined for the first of a few reasons
(`Session.Declines`), and then nothing has changed but that the runtime may know that its stack is
full; or the function is on the host's frame, and the arguments are about to follow it.

Main facts:

* `World.Calls.declined` — a call that is declined ends at once;
* `World.Calls.begins` — a call that is not declined begins.
-/

namespace ScriptBridge

namespace Session

variable {s : Session} {t : Script.ThreadId} {vs : List Value}

/-- What is said of so many arguments when there is no room for them. -/
def overfull (count : Nat) : Refusal :=
  if Refusal.maxCount < count then .tooManyArguments else .stackFull (count + 1)

/-- Why a call with some arguments is declined; what is looked at first comes first. -/
inductive Declines (s : Session) (vs : List Value) : Failure → Prop
  | closed : s.active = none → Declines s vs .sessionClosed
  | foreign {us rest : List Value} {v : Value} {r : Ref} : s.active.isSome →
      vs = us ++ v :: rest → (∀ u ∈ us, s.Owns u) → v.ref? = some r → r.session ≠ s.id →
      Declines s vs ((Failure.wrongSession s.id r.session).ofItem us.length)
  | full {t : Script.ThreadId} : s.active = some t → (∀ v ∈ vs, s.Owns v) →
      ¬ (s.machine.reserve t (vs.length + 1)).1 →
      Declines s vs (.runtime (overfull vs.length))

/-- All values are the session's own, or there is a first one that is not. -/
theorem owns_cases (s : Session) (vs : List Value) : (∀ v ∈ vs, s.Owns v)
    ∨ ∃ us rest v r, vs = us ++ v :: rest ∧ (∀ u ∈ us, s.Owns u) ∧ v.ref? = some r
      ∧ r.session ≠ s.id := by
  induction vs with
  | nil => exact .inl nofun
  | cons v vs ih =>
    by_cases own : s.Owns v
    · obtain all | ⟨us, rest, u, r, rfl, before, hr, foreign⟩ := ih
      · exact .inl (List.forall_mem_cons.mpr ⟨own, all⟩)
      · exact .inr ⟨v :: us, rest, u, r, rfl, List.forall_mem_cons.mpr ⟨own, before⟩, hr, foreign⟩
    · obtain ⟨r, hr⟩ := not_forall.mp own
      obtain ⟨hr, foreign⟩ := Classical.not_imp.mp hr
      exact .inr ⟨[], vs, v, r, rfl, nofun, hr, foreign⟩

/-- Whether a session is open is looked at first. -/
theorem ready_closed (asleep : s.active = none) (vs : List Value) :
    (do let _ ← thread; packAll vs : Attempt (List Outbound)).run.run s
      = (.error .sessionClosed, s) := by
  refine try_bind_error ?_
  rw [thread_run, asleep]
  rfl

theorem ready_open (active : s.active = some t) (vs : List Value) :
    (do let _ ← thread; packAll vs : Attempt (List Outbound)).run.run s
      = (packAll vs).run.run s := by
  have awake : thread.run.run s = (.ok t, s) := by
    rw [thread_run, active]
    rfl
  rw [try_bind_ok awake]

/-- The function is put on the host's frame, if there is room for it and its arguments. -/
theorem beginCall_run (active : s.active = some t) (k : CellId) (count : Nat) :
    ((s.machine.reserve t (count + 1)).1 → (beginCall k count).run.run s
        = (.ok (t, s.valueOf (.lent k)), { s with
            machine := s.machine.pushOperand t (s.valueOf (.lent k)) }))
    ∧ (¬ (s.machine.reserve t (count + 1)).1 → ∃ full, (beginCall k count).run.run s
        = (.error (.runtime (overfull count)), s.withOverflow full)) := by
  have awake : thread.run.run s = (.ok t, s) := by
    rw [thread_run, active]
    rfl
  rw [beginCall, try_bind_ok awake]
  constructor
  · intro room
    have few : ¬ Refusal.maxCount < count := fun many =>
      absurd ((Nat.lt_succ_of_lt many).trans (Script.Machine.count_of_room room)) (by decide)
    have reserved : (reserve t (count + 1)).run.run s = (.ok (), s) := by
      rw [reserve_run, if_pos room, Script.Machine.reserve_of_room room]
    rw [if_neg few, try_bind_ok reserved]
    rfl
  · intro none
    by_cases many : Refusal.maxCount < count
    · rw [if_pos many, overfull, if_pos many]
      exact ⟨s.machine.overflowed, rfl⟩
    · obtain ⟨full, overflow⟩ := reserve_overflow s.machine t (count + 1)
      rw [if_neg many, overfull, if_neg many]
      refine ⟨full, try_bind_error ?_⟩
      rw [reserve_run, if_neg none, overflow]
      rfl

end Session

namespace Host.World

variable {w w₁ w' : World} {step : Step} {ref : Ref} {c : Calling} {id : SessionId} {s s' : Session}
  {μ : SessionId → Session.Memory} {H : Multiset Holding} {t : Script.ThreadId} {f : Failure}

/-- Whether the next turn begins to call the function of a reference, once the arguments are made. -/
def Calls (w : World) (step : Step) (ref : Ref) (c : Calling) (w₁ : World) : Prop :=
  ∃ (w₀ : World) (slot : String) (args : List ItemExpr) (into : List String) (count : Bool),
    w.taken? = some (step, w₀) ∧ step.action = .call slot args into count
    ∧ (prepareCall slot args into count).run.run w₀ = (.ok (.function ref, c), w₁)

/-- The call that begins in the next turn, once its arguments are made. -/
def calls? (w : World) : Option (Step × Ref × Calling × World) :=
  match w.taken? with
  | none => none
  | some (step, w₀) =>
    match step.action with
    | .call slot args into count =>
      match (prepareCall slot args into count).run.run w₀ with
      | (.ok (.function ref, c), w₁) => some (step, ref, c, w₁)
      | _ => none
    | _ => none

theorem calls_of_eq (h : w.calls? = some (step, ref, c, w₁)) : w.Calls step ref c w₁ := by
  unfold calls? at h
  split at h <;> try cases h
  rename_i takes
  split at h <;> try cases h
  rename_i action
  split at h <;> cases h
  rename_i prepared
  exact ⟨_, _, _, _, _, takes, action, prepared⟩

theorem Calls.proceeds (h : w.Calls step ref c w₁) : w.control = .proceed := by
  obtain ⟨w₀, slot, args, into, count, takes, -⟩ := h
  exact (taken?_eq_some takes).1

/-- The books when the arguments are made: they are held. -/
theorem Calls.books (h : w.Calls step ref c w₁) (hw : Books μ 0 w) : Books μ (c.holdings + 0) w₁ := by
  obtain ⟨w₀, slot, args, into, count, takes, action, prepared⟩ := h
  have kept := keeps_prepareCall slot args into count w₀ μ 0
    (by rw [zero_add]; exact hw.taken takes)
  rwa [← prepareCall, prepared] at kept

/-- The first turn of a call. -/
theorem Calls.turn (h : w.Calls step ref c w₁) :
    advance.run w = (beginScriptCall step ref c).run w₁ := by
  obtain ⟨w₀, slot, args, into, count, takes, action, prepared⟩ := h
  have begun : beginStep step = beginCall step slot args into count := by
    unfold beginStep
    rw [action]
    rfl
  rw [advance_taken takes, begun, beginCall_prepared prepared]

/-! ## Owners that are counted -/

/-- Owners hold nothing. -/
theorem holdings_retained (w : World) (g : CallableId) :
    ((retain g).run w).2.holdings = w.holdings := by
  cases hc : w.callables[g]? with
  | some c => exact holdings_retain hc
  | none =>
    have same : capturedHoldings (w.callables.modify g fun c => { c with owners := c.owners + 1 })
        = capturedHoldings w.callables := by
      rw [capturedHoldings, capturedHoldings, entries_congr fun j => ?_]
      by_cases here : j = g
      · rw [here, getElem?_modify_self, hc]
        rfl
      · exact getElem?_modify_of_ne here
    rw [retain_run, holdings, same, holdings]

theorem Replaces.retain (h : w.Replaces id s' w') (g : CallableId) :
    w.Replaces id s' ((retain g).run w').2 :=
  ⟨h.session, h.others, h.activities, h.control, h.names, (holdings_retained w' g).trans h.holdings⟩

theorem Replaces.retainAll (h : w.Replaces id s' w') (gs : List CallableId) :
    w.Replaces id s' ((retainAll gs).run w').2 := by
  induction gs generalizing w' with
  | nil => exact h
  | cons g gs ih => exact ih (h.retain g)

theorem Replaces.withSession (h : w.Replaces id s w') (s' : Session) :
    w.Replaces id s' (w'.withSession id s') := h.trans (replaces_withSession s')

/-- Values that are made ready are held by the transfer, too, once their owners are counted. -/
theorem Books.sends {α : Type} {op : Attempt α} {outs : α → List Session.Outbound} {a : α}
    {vs : List Value} (hw : Books μ (valueHoldings vs + H) w)
    (keeps : ∀ o, Keeps (Session.Books id o) (valueHoldings vs) op.run
      (onResult (fun a => valueHoldings vs + Session.sent id (outs a) vs) (valueHoldings vs)))
    (carries : ∀ (s : Session) a, (op.run.run s).1 = .ok a →
      List.Forall₂ (Session.Carries s.id) (outs a) vs)
    (hs : w.sessions[id]? = some s) (run : op.run.run s = (.ok a, s')) :
    Books μ (outHoldings id (outs a) vs + (valueHoldings vs + H))
        ((retainAll (callablesOf vs)).run (w.withSession id s')).2
      ∧ List.Forall₂ (Session.Carries id) (outs a) vs := by
  let next : Except Failure α → Act (Except Failure α) := Except.rec (fun f => Pure.pure (.error f))
    fun a => retainAll (callablesOf vs) >>= fun _ => Pure.pure (.ok a)
  have all : KeepsAt Books w (valueHoldings vs + 0) (attemptOn id op >>= next)
      (onResult (fun a => valueHoldings vs + outHoldings id (outs a) vs + 0)
        (valueHoldings vs + 0)) :=
    keepsAt_send outs keeps carries (fun _ => rfl) (fun a _ => Keeps.pure _ rfl)
      fun f => Keeps.pure _ rfl
  have after := all μ H (by rwa [add_zero])
  have ran : (attemptOn id op).run w = (.ok a, w.withSession id s') := by
    rw [attemptOn, onSession_run_some hs, run]
  rw [stateM_run_bind, ran] at after
  change Books μ (valueHoldings vs + outHoldings id (outs a) vs + 0 + H)
    ((retainAll (callablesOf vs)).run (w.withSession id s')).2 at after
  refine ⟨?_, ?_⟩
  · convert after using 1
    ac_rfl
  · have carry := carries s a (by rw [run])
    rwa [(hw.1.tidy id s hs).1] at carry

/-! ## Calls that are declined -/

/-- What a call step does when it fails, it does to what the step holds. -/
theorem sheds_failing (hw : Books μ (c.holdings + 0) w) (mishap : Mishap) :
    w.Sheds ((finishCall step c (.error mishap)).run w).2 := by
  have spared := sparing_finishCall step c mishap _ (μ, w) 0 ⟨hw, .of_same rfl⟩
  refine spared.2.sheds hw spared.1 (fun h hh => ?_) (by simp)
  rw [add_zero] at hh
  exact resting_calling hh

/-- A call step holds its arguments. -/
theorem mem_callings {v : Value} {h : Holding} (hv : v ∈ c.args.map (·.1)) (hh : h ∈ v.holdings) :
    h ∈ c.holdings := Multiset.mem_add.mpr (.inr (mem_valueHoldings hv hh))

/-- A call whose arguments are not made ready ends at once. -/
theorem Calls.unready (h : w.Calls step ref c w₁) (hw : Books μ 0 w)
    (hs : w₁.sessions[ref.session]? = some s)
    (run : (do let _ ← Session.thread; Session.packAll (c.args.map (·.1)) :
      Attempt (List Session.Outbound)).run.run s = (.error f, s'))
    (restored : ∀ e e' K, s.Sound e K → s'.Sound e' K → s.Restored s') :
    s.Restored s' ∧ ∃ u, w₁.Replaces ref.session s' u
      ∧ (advance.run w).2 = ((finishCall step c (.error (.failure f))).run u).2
      ∧ u.Sheds (advance.run w).2 := by
  have books := h.books hw
  have regroup : c.holdings + 0
      = valueHoldings (c.args.map (·.1)) + valueHoldings c.replaced.toList := by
    rw [Calling.holdings, add_zero, add_comm]
  rw [regroup] at books
  obtain ⟨⟨e, K, before, after⟩, kept⟩ := books.refused hs (fun o => Session.keeps_thread rfl
    fun open' t => open' ▸ Session.keeps_packAll _) run
  rw [← regroup] at kept
  have turn : advance.run w
      = (finishCall step c (.error (.failure f))).run (w₁.withSession ref.session s') := by
    rw [h.turn, beginScriptCall, stateM_run_bind, attemptOn, onSession_run_some hs, run]
  rw [turn]
  exact ⟨restored e e K before after, _, replaces_withSession s', rfl, sheds_failing kept _⟩

/-- The arguments of a call are made ready, if they are the session's own. -/
theorem Calls.packs (h : w.Calls step ref c w₁) (hw : Books μ 0 w)
    (hs : w₁.sessions[ref.session]? = some s) (active : s.active = some t)
    (own : ∀ v ∈ c.args.map (·.1), s.Owns v) :
    ∃ outs s₁ w₂, s.Since s₁ ∧ (∀ out ∈ outs, ∀ k, out.owned? = some k → s.nextCell ≤ k)
      ∧ s.Grows s₁ ∧ s₁.Orderly ∧ s₁.machine = s.machine
      ∧ List.Forall₂ s₁.Packs (c.args.map (·.1)) outs
      ∧ w₁.Replaces ref.session s₁ w₂
      ∧ Books μ (outHoldings ref.session outs (c.args.map (·.1)) + c.holdings) w₂
      ∧ List.Forall₂ (Session.Carries ref.session) outs (c.args.map (·.1))
      ∧ ∀ r s₂, (Session.beginCall ref.cell outs.length).run.run s₁ = (r, s₂) →
        advance.run w = (match r with
          | .error f => (do
            releaseOutbound ref.session outs
            finishCall step c (.error (.failure f)) : Act Unit)
          | .ok (t, f) => beginDelivery ref.session t outs (.call step s₁.height f c)).run
            ((w₂.withSession ref.session s₁).withSession ref.session s₂) := by
  have books := h.books hw
  obtain ⟨mine, -, orderly⟩ := books.orderly_at hs (by rw [active]; rfl)
  obtain ⟨outs, s₁, packed, since, new⟩ := Session.packFrom_since (.refl orderly) 0
    (show ∀ out ∈ [], ∀ k, Session.Outbound.owned? out = some k → s.nextCell ≤ k from nofun) own
  obtain ⟨outs', s₁', packed', orderly₁, grows, machine, packs⟩ :=
    Session.packAll_packs orderly own
  obtain ⟨rfl, rfl⟩ : outs' = outs ∧ s₁' = s₁ := by
    have same := packed'.symm.trans packed
    exact ⟨Except.ok.inj (Prod.mk.inj same).1, (Prod.mk.inj same).2⟩
  have run : (do let _ ← Session.thread; Session.packAll (c.args.map (·.1)) :
      Attempt (List Session.Outbound)).run.run s = (.ok outs', s₁') := by
    rw [Session.ready_open active, packed']
  have regroup : c.holdings + 0
      = valueHoldings (c.args.map (·.1)) + valueHoldings c.replaced.toList := by
    rw [Calling.holdings, add_zero, add_comm]
  rw [regroup] at books
  obtain ⟨sent, carries⟩ := books.sends (fun o => Session.keeps_thread rfl fun open' t =>
    open' ▸ Session.keeps_packAll _) (fun s outs made => Session.pack_call_carries made) hs run
  rw [← regroup, add_zero] at sent
  have replaces := (@replaces_withSession w₁ ref.session s₁').retainAll
    (callablesOf (c.args.map (·.1)))
  refine ⟨outs', s₁', _, since, new, grows, orderly₁, machine, packs, replaces, sent, carries,
    fun r s₂ begun => ?_⟩
  rw [h.turn, beginScriptCall, stateM_run_bind, attemptOn, onSession_run_some hs, run]
  simp only
  rw [stateM_run_bind, stateM_run_bind, onSession_run_some replaces.session, stateM_run_bind,
    attemptOn, onSession_run_some (getElem?_withSession_self ..)]
  have measured : ((do return (← get).height : Op Nat).run s₁') = (s₁'.height, s₁') := rfl
  cases r with
  | error f => exact measured ▸ begun ▸ rfl
  | ok ready => exact measured ▸ begun ▸ rfl

/-- The books once a call that has its arguments ready has looked for room. -/
theorem Books.asked {outs : List Session.Outbound} {k : CellId} {s₁ s₂ : Session}
    {r : Except Failure (Script.ThreadId × Script.Value)} (hw : Books μ H w)
    (hs : w.sessions[id]? = some s₁) (run : (Session.beginCall k outs.length).run.run s₁ = (r, s₂)) :
    Books μ H ((w.withSession id s₁).withSession id s₂) := by
  have looked := (keeps_height id) w μ H (by rwa [zero_add])
  rw [onSession_run_some hs, zero_add] at looked
  have there := getElem?_withSession_self w id s₁
  change Books μ H (w.withSession id s₁) at looked
  have ready : Keeps Books 0 (attemptOn id (Session.beginCall k outs.length)) fun _ => 0 :=
    (keeps_attemptOn (fun _ => Session.keeps_beginCall _ _) (by simp) (fun _ => rfl) rfl
      (by simp) rfl).forget
  have asked := ready _ μ H (by rwa [zero_add])
  have ran : (attemptOn id (Session.beginCall k outs.length)).run (w.withSession id s₁)
      = (r, (w.withSession id s₁).withSession id s₂) := by
    rw [attemptOn, onSession_run_some there, run]
  rwa [ran, zero_add] at asked

/-- A call that is declined ends at once, and all that was made ready for it goes. -/
theorem Calls.declined (h : w.Calls step ref c w₁) (hw : Books μ 0 w)
    (hs : w₁.sessions[ref.session]? = some s) (declines : s.Declines (c.args.map (·.1)) f) :
    ∃ full s' u, (s.withOverflow full).Restored s' ∧ w₁.Replaces ref.session s' u
      ∧ (advance.run w).2 = ((finishCall step c (.error (.failure f))).run u).2
      ∧ u.Sheds (advance.run w).2 := by
  -- a session whose stack was not looked at is as it was
  have same : s.withOverflow s.machine.overflowed = s := rfl
  cases declines with
  | closed asleep =>
    obtain ⟨restored, ends⟩ :=
      h.unready hw hs (Session.ready_closed asleep _) fun _ _ _ _ _ => .refl s
    exact ⟨_, s, ends.imp fun u ends => ⟨same ▸ restored, ends⟩⟩
  | @foreign us rest v r active split own hr other =>
    obtain ⟨t, awake⟩ := Option.isSome_iff_exists.mp active
    obtain ⟨-, ho, orderly⟩ := (h.books hw).orderly_at hs active
    obtain ⟨s', packed, since⟩ := Session.packAll_foreign orderly rest own hr other
    have run := (Session.ready_open awake (c.args.map (·.1))).trans (split ▸ packed)
    obtain ⟨restored, ends⟩ :=
      h.unready hw hs run fun _ _ _ before after => since.restored ho before after
    exact ⟨_, s', ends.imp fun u ends => ⟨same ▸ restored, ends⟩⟩
  | @full t active own none =>
    obtain ⟨mine, ho, orderly⟩ := (h.books hw).orderly_at hs (by rw [active]; rfl)
    obtain ⟨outs, s₁, w₂, since, new, grows, -, machine, -, replaces, books, carries, turn⟩ :=
      h.packs hw hs active own
    obtain ⟨full, run⟩ := (Session.beginCall_run (grows.active.trans active) ref.cell
      outs.length).2 (by rwa [machine, carries.length_eq])
    rw [turn _ _ run, carries.length_eq]
    have asked := books.asked replaces.session run
    -- what the transfer released the call step still holds
    have held : ∀ g, .callable g ∈ c.args.map (·.1) →
        .callable g ∈ ((w₂.withSession ref.session s₁).withSession ref.session
          (s₁.withOverflow full)).holdings + c.holdings := fun g hg =>
      Multiset.mem_add.mpr (.inr (mem_callings hg (Multiset.mem_singleton_self _)))
    obtain ⟨u, released, replaces', books'⟩ := releaseOutbound_run asked carries
      (getElem?_withSession_self ..) (since.isOpen.trans ho) held
    have kept : (s.withOverflow full).Since (s₁.withOverflow full) :=
      { since with machine := by rw [Session.withOverflow, Session.withOverflow, since.machine] }
    have all := ((replaces.withSession s₁).withSession (s₁.withOverflow full)).trans replaces'
    have before := (h.books hw).1.sound (h.books hw).2 hs
    have after := books'.1.sound books'.2 all.session
    rw [all.holdings] at after
    rw [add_zero] at before
    refine ⟨full, _, u, (kept.abandon new).restored ho (before.withMachine _) after, all, ?_, ?_⟩
    · rw [stateM_run_bind, released]
    · rw [stateM_run_bind, released]
      exact sheds_failing (by rwa [add_zero]) _

/-! ## Calls that begin -/

/-- A call that is not declined begins: the function is on the host's frame, and the arguments are
ready to follow it. -/
theorem Calls.begins (h : w.Calls step ref c w₁) (hw : Books μ 0 w)
    (hs : w₁.sessions[ref.session]? = some s)
    (free : ∀ f, ¬ s.Declines (c.args.map (·.1)) f) :
    ∃ t outs s₁ s₂ x, s.active = some t ∧ (∀ v ∈ c.args.map (·.1), s.Owns v)
      ∧ (∀ y, s.object? ref = some y → x = y)
      ∧ (advance.run w).2.control = .proceed
      ∧ (advance.run w).2.activities
        = .delivering ⟨ref.session, t, outs, outs, none⟩ (.call step s.height x c) :: w₁.activities
      ∧ (advance.run w).2.sessions[ref.session]? = some s₂
      ∧ s₂ = { s₁ with machine := s.machine.pushOperand t x }
      ∧ s.Grows s₁ ∧ s₁.Orderly ∧ List.Forall₂ s₁.Packs (c.args.map (·.1)) outs := by
  cases active : s.active with
  | none => exact absurd (.closed active) (free _)
  | some t =>
    obtain own | ⟨us, rest, v, r, split, own, hr, other⟩ := s.owns_cases (c.args.map (·.1))
    · by_cases room : (s.machine.reserve t ((c.args.map (·.1)).length + 1)).1
      · obtain ⟨outs, s₁, w₂, -, -, grows, orderly, machine, packs, replaces, -, carries, turn⟩ :=
          h.packs hw hs active own
        have run := (Session.beginCall_run (grows.active.trans active) ref.cell outs.length).1
          (by rwa [machine, carries.length_eq])
        have height : s₁.height = s.height := by
          rw [Session.height, Session.height, grows.active, machine]
        rw [turn _ _ run, height, ← machine]
        refine ⟨t, outs, s₁, _, s₁.valueOf (.lent ref.cell), rfl, own, fun y hy =>
          Session.valueOf_lent (grows.object? hy), rfl, ?_, getElem?_withSession_self .., rfl, grows,
          orderly, packs⟩
        exact congrArg _ replaces.activities
      · exact absurd (.full active own room) (free _)
    · exact absurd (.foreign (by rw [active]; rfl) split own hr other) (free _)

end Host.World

end ScriptBridge
