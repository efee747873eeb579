import ScriptBridge.Proofs.Undertakings

/-!
# ScriptBridge.Proofs.Ventures

The steps of a side that call functions or have runtimes run.  Whatever they begin is that side's.

Main facts:

* `Turn.leads_beginCall` — a call step;
* `Turn.beginsAt` — any step that keeps to a side.
-/

namespace ScriptBridge.Host

open scoped CoreInstances

namespace Turn

open World

variable {α : Type} {T : Turn} {τ τ' : Sides} {w v : World} {id : SessionId} {body : Option Bool}
  {lent : String → Bool} {K : Scene} {name : String} {path : String} {s : Step}

/-- How many values are on the host's frame. -/
theorem keeps_height (here : τ.session id = some T.side) :
    T.Keeps τ K (onSession id (do return (← get).height) : Act Nat) :=
  keeps_onSession here fun _ => .get_bind fun _ h => h

/-! ## Snippets, and the end of sessions -/

theorem leads_beginExecute {source : String} (suits : s.Suits body T.side)
    (mine : T.ours name = T.side) :
    T.Leads τ (T.At body unlent) (beginExecute s name source) fun _ => T.Rests := by
  have started : T.Tries τ (T.At body unlent) (do
      let id ← sessionNamed name
      let base ← (onSession id (do return (← get).height) : Act Nat)
      trySession id (Session.beginExecute source)
      return (id, base) : Try (SessionId × Nat)) fun τ p => τ.session p.1 = some T.side := by
    refine .bind (tries_sessionNamed mine) fun id _ _ here => .bind (.keeps (keeps_height here))
      fun base _ le _ => .bind (F := fun _ _ => True) ?_ fun _ _ le' _ =>
          .pure (le'.session _ _ (le.session _ _ here))
    exact (tries_trySession (F := fun _ => True) (le.session _ _ here) fun _ =>
      (Leads.attempt_of_preserves (Session.keeper_beginExecute source)).mono (fun _ h => h)
        fun r s h => h.imp (fun _ h => h) fun _ h => ⟨trivial, h⟩).mono fun _ _ _ h => h
  refine .bindWith started fun r _ _ here => ?_
  cases r with
  | error mishap => exact leads_finishStep suits _
  | ok p => exact .bind (leads_begin (.executing suits here)) fun _ _ le =>
      leads_setControl_script (le.session _ _ here)

/-- Whether a session is in use shows in the share whose it is. -/
theorem inUse_ours (h : T.Holds (T.At body unlent) τ w v) (here : τ.session id = some true) :
    v.inUse id = w.inUse id := by
  have other : ∀ {j : SessionId}, τ.session j = some false → (j == id) = false := fun hj => by
    refine beq_eq_false_iff_ne.mpr ?_
    rintro rfl
    cases here.symm.trans hj
  refine Stacks.any_share h.2 (fun _ _ => rfl) fun head a of => ?_
  cases of with
  | executing _ hj | calling _ hj | call _ hj | assign _ hj | results hj | sweeping _ hj =>
      exact other hj
  | _ => rfl

/-- A session of a side has no name any more. -/
theorem keeps_unname (here : τ.session id = some T.side) : T.Keeps τ K (modify fun w : World =>
    { w with names := w.names.filter fun e => e.2 != id }) := by
  refine Keeps.modify (fun w v twin => ?_) (fun _ => rfl) fun _ => rfl
  have named : ∀ e ∈ w.names.filter fun e => e.2 != id, τ.session e.2 = some (T.ours e.1) :=
    fun e he => twin.named e (List.mem_filter.mp he).1
  cases side : T.side with
  | true =>
    refine { twin with named := named, names := ?_ }
    change v.names.filter _ = (w.names.filter _).filter _
    rw [twin.names, List.filter_filter, List.filter_filter]
    simp only [Bool.and_comm]
  | false =>
    refine .theirs { twin.toShare with named := named, names := ?_ } side
    change v.names = (w.names.filter _).filter _
    rw [twin.names, List.filter_filter]
    refine List.filter_congr fun e he => ?_
    cases mine : T.ours e.1 with
    | false => rfl
    | true =>
      have apart : e.2 ≠ id := fun same => by
        have both := twin.named e he
        rw [same, here, mine, side] at both
        cases both
      simp [apart]

theorem leads_beginClose (suits : s.Suits body T.side) (mine : T.ours name = T.side) :
    T.Leads τ (T.At body unlent) (beginClose s name) fun _ => T.Rests := by
  refine .bindWith (tries_sessionNamed mine) fun r τ' _ here => ?_
  cases r with
  | error mishap => exact leads_finishStep suits _
  | ok id =>
    refine .get (fun w v h ours => by rw [inUse_ours h (ours ▸ here)]) fun w v h => ?_
    split
    · exact leads_finishStep suits _ w v h
    · refine Leads.bind (keeps_unname here) (fun _ _ le => ?_) w v h
      have here := le.session _ _ here
      refine .bind (leads_begin (.closing suits here)) fun _ _ le => ?_
      have here := le.session _ _ here
      refine .bind (keeps_onSession here fun _ => Session.keeper_modifyMachine _) fun _ _ le => ?_
      exact leads_setControl_script (le.session _ _ here)

/-! ## Assignments -/

theorem leads_beginAssign {e : Try Value} {create : Bool} (suits : s.Suits body T.side)
    (mine : T.ours name = T.side) (made : T.Tries τ (T.At body unlent) e fun τ v => τ.Owns T.side v) :
    T.Leads τ (T.At body unlent) (beginAssign s name path e create) fun _ => T.Rests := by
  refine .bindWith made fun r τ₁ _ own => ?_
  cases r with
  | error mishap => exact leads_finishStep suits _
  | ok u =>
    have own : τ₁.Owns T.side u := own
    refine .bindWith (tries_sessionNamed mine) fun r τ₂ le₂ here => ?_
    have own := le₂.owns own
    cases r with
    | error mishap => exact .bind (keeps_dropValue own) fun _ _ _ => leads_finishStep suits _
    | ok id =>
      refine .bind (keeps_height here) fun base τ₃ le₃ => ?_
      have own := le₃.owns own
      have here := le₃.session _ _ here
      refine .bind (leads_attemptOn_preserves here fun _ =>
        Session.keeper_beginAssign path (Sides.pinnedAs_of_owns own) create) fun r τ₄ le₄ => ?_
      have own := le₄.owns own
      have here := le₄.session _ _ here
      cases r with
      | error f => exact .bind (keeps_dropValue own) fun _ _ _ => leads_finishStep suits _
      | ok p =>
        refine .bind (keeps_retainAll (mine_of_callablesOf fun x hx => List.mem_singleton.mp hx ▸ own))
          fun _ τ₅ le₅ => ?_
        exact leads_beginDelivery (.assign suits (le₅.session _ _ here) (le₅.owns own))

/-! ## Calls -/

/-- A script function of a side is called. -/
theorem leads_beginScriptCall {r : Ref} {c : Calling} (suits : s.Suits body T.side)
    (here : τ.session r.session = some T.side) (mine : c.Of T.ours τ body T.side) :
    T.Leads τ (T.At body (lends c)) (beginScriptCall s r c) fun _ => T.Rests := by
  have own : ∀ {τ : Sides}, c.Of T.ours τ body T.side → ∀ u ∈ c.args.map (·.1), τ.Owns T.side u :=
    fun mine u hu => by
      obtain ⟨p, hp, rfl⟩ := List.mem_map.mp hu
      exact mine.args p hp
  have packed : ∀ {o : Bool}, Preserves (Session.Keeper (τ.mine T.side) r.session o)
      (do
        let _ ← Session.thread
        Session.packAll (c.args.map (·.1)) : Attempt (List Session.Outbound)).run :=
    .tryBind Session.keeper_thread fun _ => Session.keeper_packAll fun u hu =>
      Sides.pinnedAs_of_owns (own mine u hu)
  refine .bind (leads_attemptOn_preserves here fun _ => packed) fun ready τ₁ le₁ => ?_
  have here := le₁.session _ _ here
  have mine := le₁.calling mine
  cases ready with
  | error f => exact leads_finishCall suits mine fun _ ok => by cases ok
  | ok outs =>
    refine .bind (keeps_retainAll (mine_of_callablesOf (own mine))) fun _ τ₂ le₂ => ?_
    have here := le₂.session _ _ here
    refine .bind (keeps_height here) fun base τ₃ le₃ => ?_
    have here := le₃.session _ _ here
    refine .bind (leads_attemptOn_preserves here fun _ => Session.keeper_beginCall r.cell outs.length)
      fun begun τ₄ le₄ => ?_
    have here := le₄.session _ _ here
    have mine := ((le₂.trans le₃).trans le₄).calling mine
    cases begun with
    | error f =>
      exact .bind (keeps_releaseOutbound outs here) fun _ _ le =>
        leads_finishCall suits (le.calling mine) fun _ ok => by cases ok
    | ok p => exact leads_beginDelivery (.call suits here mine)

/-- What is known of the parts of a call step: a value that was made is a side's, and so is the call, which
borrows its slot; none is borrowed when they could not be made. -/
def Prepared (T : Turn) (body : Option Bool) : Except Mishap (Value × Calling) → Scene
  | .ok p => fun τ wa va c => (τ.Owns T.side p.1 ∧ p.2.Of T.ours τ body T.side)
      ∧ T.At body (lends p.2) τ wa va c
  | .error _ => T.At body unlent

/-- A slot of a side is borrowed for a call of what is in it. -/
theorem leads_borrow {c : Calling} {slot : Slot} (fresh : c.replaced = none)
    (mine : c.loan.Of T.ours τ body T.side) (own : τ.Owns T.side slot.value)
    (borrows : ∀ n, c.loan = .ofFrame n → slot.borrows ≤ (unlent n).toNat) :
    T.Leads τ (T.At body unlent)
      (modify fun w => w.setSlotAt c.loan (some { slot with borrows := slot.borrows + 1 }))
      fun _ => T.At body (lends c) := by
  refine leads_setSlotAt mine (fun u hu => Option.some.inj hu ▸ own) (fun n u frame hu => ?_)
    fun _ _ no => by cases no
  have here : lends c n = true := by simp [lends, fresh, frame]
  rw [← Option.some.inj hu, here]
  exact Nat.succ_le_succ (borrows n frame)

/-- A call step. -/
theorem leads_beginCall {slot : String} {args : List ItemExpr} {into : List String} {count : Bool}
    (suits : s.Suits body T.side) (kept : slotKept T.ours body T.side slot = true)
    (given : itemsKept T.ours body T.side args = true)
    (taken : slotsKept T.ours body T.side into = true) :
    T.Leads τ (T.At body unlent) (beginCall s slot args into count) fun _ => T.Rests := by
  unfold beginCall
  refine .bind (Q := T.Prepared body) ?_ fun r τ' _ => ?_
  · rw [ExceptT.run_bind]
    refine .bindWith (tries_filledSlot kept) fun r τ₁ _ known => ?_
    cases r with
    | error mishap => exact .pure fun _ _ _ h => h
    | ok p =>
      obtain ⟨place, slot⟩ := p
      obtain ⟨mine, own, borrows⟩ := known
      let c : Calling := ⟨place, none, [], into, count⟩
      have made : ∀ τ, τ₁.Le T.side τ → T.Leads τ (T.At body (lends c)) (do
          let args ← tryCatch (items args) fun mishap => do
            giveBack c
            throw mishap
          return (slot.value, ⟨place, none, args, into, count⟩) : Try (Value × Calling)).run
          (T.Prepared body) := fun τ₂ le => by
        rw [ExceptT.run_bind, ExceptT.run_tryCatch, bind_assoc]
        refine .bindWith (tries_items given) fun r τ₃ le' here => ?_
        have le := le.trans le'
        cases r with
        | ok as =>
          exact .pure fun _ _ _ scene => ⟨⟨le.owns own, ⟨le.loan mine, fun _ none => (by cases none),
            fun a ha => (here a ha).1, fun a ha => (here a ha).2, taken⟩⟩, scene⟩
        | error mishap =>
          have back : T.Leads τ₃ (T.At body (lends c)) (giveBack c) fun _ => T.At body unlent :=
            leads_giveBack (le.loan mine) fun _ none => by cases none
          change T.Leads τ₃ _ (giveBack c >>= fun _ =>
            pure (Except.error mishap : Except Mishap (Value × Calling))) _
          exact .bind back fun _ _ _ => .pure fun _ _ _ scene => scene
      exact .bind (leads_borrow (c := c) rfl mine own borrows) fun _ => made
  · cases r with
    | error mishap => exact leads_finishStep suits _
    | ok p =>
      obtain ⟨u, c⟩ := p
      refine .given fun known => ?_
      obtain ⟨own, mine⟩ := known
      cases u with
      | function r => exact leads_beginScriptCall suits own mine
      | callable f =>
        have args : ∀ x ∈ c.args.map (·.1), τ'.Owns T.side x := fun x hx => by
          obtain ⟨p, hp, rfl⟩ := List.mem_map.mp hx
          exact mine.args p hp
        have bare : Calling.Of T.ours τ' body T.side { c with args := [] } :=
          ⟨mine.loan, mine.replaced, fun _ none => (by cases none),
            fun _ none => (by cases none), mine.into⟩
        have begun : T.Leads τ' (T.At body (lends c))
            (begin (.step s (.callingHost { c with args := [] })))
            fun _ => T.Busy (.body body) (.step s (.callingHost { c with args := [] })) :=
          leads_begin (.callingHost suits bare)
        refine .bind begun fun _ _ le => ?_
        exact (leads_enterCallable (le.callable _ _ own) fun x hx => le.owns (args x hx)).mono
          (fun _ _ _ h => h.over) fun _ _ _ _ _ _ h => h
      | _ =>
        have lent : Calling.Of T.ours τ' body T.side
            { c with args := c.args.map fun a => (a.1, none) } := by
          refine ⟨mine.loan, mine.replaced, fun a ha => ?_, fun a ha name named => ?_, mine.into⟩ <;>
            obtain ⟨p, hp, rfl⟩ := List.mem_map.mp ha
          · exact mine.args p hp
          · cases named
        exact leads_finishCall (c := { c with args := c.args.map fun a => (a.1, none) }) suits lent
          fun _ ok => by cases ok

/-! ## Any step -/

theorem suits_of_keeps (kept : s.keeps T.ours body T.side = true) :
    s.action.keeps T.ours body T.side = true ∧ s.Suits body T.side := by
  obtain ⟨action, quiet, attempt⟩ := s
  rw [Step.keeps, Bool.and_eq_true, Bool.or_eq_true] at kept
  refine ⟨kept.1, fun other => kept.2.resolve_right fun mine => ?_⟩
  rw [other] at mine
  simp at mine

/-- A body of the side whose turn it is panics; nothing else does. -/
theorem leads_panic {text : Option String} (suits : s.Suits body T.side)
    (kept : (Action.panic text).keeps T.ours body T.side = true) :
    T.Leads τ (T.At body unlent) (do
      if (← get).frame?.isSome then setControl (.leave (.panicked text))
      else finishStep s (.error (.misuse .panic)) : Act Unit) fun _ => T.Rests := by
  have mine : body ≠ some !T.side := by
    rintro rfl
    simp [Action.keeps] at kept
  refine .get (fun w v h ours => by rw [frame_ours h ours mine]) fun w v h => ?_
  split
  · rename_i framed
    obtain ⟨f, hf⟩ := Option.isSome_iff_exists.mp framed
    obtain ⟨b, hb, -⟩ := frame_of h hf
    have has : Head.Has T.side (.body body) := eq_of_ne mine hb
    exact leads_setControl_rests (.leave has fun _ none => by cases none) w v h
  · exact leads_finishStep suits _ w v h

/-- Whether the runtime of a session that is opened is where no other one is. -/
def Clear (T : Turn) (s : Step) (w : World) : Prop :=
  ∀ name options, s.action = .openSession name options →
    ∀ j, IsOpen w.sessions j → T.address j ≠ T.address (w.issued + 1)

/-- A step that keeps to a side is done on that side. -/
theorem beginsAt (h : T.Holds (T.At body unlent) τ w v) (kept : s.keeps T.ours body T.side = true)
    (clear : T.Clear s w) : TracksAt T.side w v (beginStep s) (T.After τ fun _ => T.Rests) := by
  obtain ⟨kept, suits⟩ := suits_of_keeps kept
  unfold beginStep
  cases is : immediate s.action with
  | some act =>
    have done : TracksAt T.side w v act.run
        (T.After τ (With (fun _ => OnOk fun _ => True) (T.At body unlent))) := by
      by_cases opens : ∃ name options, s.action = .openSession name options
      · obtain ⟨name, options, same⟩ := opens
        rw [same] at is kept
        rw [Action.keeps, beq_iff_eq] at kept
        exact opensAt is kept h (clear name options same)
      · exact tries_immediate is (fun name options same => opens ⟨name, options, same⟩) kept w v h
    exact bindAt done fun r _ _ => .given (C := fun _ => OnOk (fun _ => True) r) fun _ =>
        leads_finishStep suits r
  | none =>
    cases ha : s.action with
    | execute name source =>
      rw [ha, Action.keeps, beq_iff_eq] at kept
      exact leads_beginExecute suits kept w v h
    | closeSession name =>
      rw [ha, Action.keeps, beq_iff_eq] at kept
      exact leads_beginClose suits kept w v h
    | assign name path e create =>
      rw [ha, Action.keeps, Bool.and_eq_true, beq_iff_eq] at kept
      exact leads_beginAssign suits kept.1 (tries_value τ e kept.2) w v h
    | register name path f =>
      rw [ha, Action.keeps, Bool.and_eq_true, beq_iff_eq] at kept
      have made : T.Tries τ (T.At body unlent) (do return .callable (← callable f) : Try Value)
          fun τ v => τ.Owns T.side v := .bind (tries_callable τ f kept.2) fun _ _ _ mine => .pure mine
      exact leads_beginAssign suits kept.1 made w v h
    | registerNamed name path stored =>
      rw [ha, Action.keeps, Bool.and_eq_true, beq_iff_eq, beq_iff_eq] at kept
      exact leads_beginAssign suits kept.1 (tries_anotherOf kept.2) w v h
    | call slot args into count =>
      rw [ha, Action.keeps, Bool.and_eq_true, Bool.and_eq_true] at kept
      exact leads_beginCall suits kept.1.1 kept.1.2 kept.2 w v h
    | panic text =>
      rw [ha] at kept
      exact leads_panic suits kept w v h
    | _ =>
      rw [ha] at is
      cases is

end Turn

end ScriptBridge.Host
