import ScriptBridge.Proofs.PinOwners

/-!
# ScriptBridge.Proofs.Sparing

What letting go of values does to sessions.  A reference that goes takes its cell and its anchor
with it; a callable that goes takes the values it captured.  The machines of the sessions, their
pins, and all cells that anchor nothing stay: `World.Spares`.

The chores that let values go reach only what an owner is released from.  That a chore never meets
a pinned cell or a boxed value follows from the books: the owners of those are elsewhere.

Main facts:

* `World.sparing_dropValues` — values that are dropped spare all sessions;
* `World.sparing_finishStep`, `World.sparing_finishCall` — and so does the end of a step.
-/

namespace ScriptBridge

namespace Session

/-- What a session is after values were let go of: nothing but cells of references, their anchors
and the allocations may have gone. -/
structure Spares (s s' : Session) : Prop where
  id : s'.id = s.id
  machine : s'.machine = s.machine
  isOpen : s'.isOpen = s.isOpen
  active : s'.active = s.active
  handles : s'.handles = s.handles
  pins : s'.pins = s.pins
  fewer : ∀ k c, s'.cell? k = some c → s.cell? k = some c
  kept : ∀ k c, s.cell? k = some c → c.anchor? = none → s'.cell? k = some c

namespace Spares

variable {s s' s'' : Session}

theorem refl (s : Session) : s.Spares s :=
  ⟨rfl, rfl, rfl, rfl, rfl, rfl, fun _ _ h => h, fun _ _ h _ => h⟩

theorem trans (h : s.Spares s') (h' : s'.Spares s'') : s.Spares s'' where
  id := h'.id.trans h.id
  machine := h'.machine.trans h.machine
  isOpen := h'.isOpen.trans h.isOpen
  active := h'.active.trans h.active
  handles := h'.handles.trans h.handles
  pins := h'.pins.trans h.pins
  fewer := fun k c hc => h.fewer k c (h'.fewer k c hc)
  kept := fun k c hc copied => h'.kept k c (h.kept k c hc copied) copied

/-- The cell of a reference goes. -/
theorem withdrawn {k : CellId} {c : Cell} (hc : s.cell? k = some c) (anchored : c.anchor?.isSome) :
    s.Spares (s.withdrawn k c) where
  id := rfl
  machine := rfl
  isOpen := rfl
  active := rfl
  handles := rfl
  pins := pins_withdrawn_unpinned k <| by cases c <;> first | rfl | cases anchored
  fewer := fun _ _ hd => cell?_of_withdrawn hd
  kept := fun j d hd copied => by
    rw [cell?_withdrawn_of_ne, hd]
    rintro rfl
    obtain rfl := Option.some.inj (hd.symm.trans hc)
    rw [copied] at anchored
    cases anchored

end Spares

end Session

namespace Host.World

variable {w w' w'' : World} {μ : SessionId → Session.Memory} {H pre : Multiset Holding}
  {α : Type} {post : α → Multiset Holding} {id : SessionId}

/-- Whether nothing but cells of references has gone from the sessions of a world. -/
def Spares (w w' : World) : Prop :=
  ∀ id : SessionId, Option.Rel Session.Spares w.sessions[id]? w'.sessions[id]?

theorem Spares.of_alike (h : ∀ id : SessionId, w'.sessions[id]? = w.sessions[id]?) :
    w.Spares w' := by
  intro id
  rw [h]
  cases w.sessions[id]? with
  | none => exact .none
  | some s => exact .some (.refl s)

theorem Spares.of_same (h : w'.sessions = w.sessions) : w.Spares w' := .of_alike fun id => by rw [h]

theorem Spares.trans (h : w.Spares w') (h' : w'.Spares w'') : w.Spares w'' := by
  intro id
  have first := h id
  have second := h' id
  revert first second
  cases w.sessions[id]? <;> cases w'.sessions[id]? <;> cases w''.sessions[id]? <;>
    intro first second <;> cases first <;> cases second
  · exact .none
  · rename_i spares spares'
    exact .some (spares.trans spares')

/-- A session that is there is still there. -/
theorem Spares.some (h : w.Spares w') {s : Session} (hs : w.sessions[id]? = some s) :
    ∃ s', w'.sessions[id]? = .some s' ∧ s.Spares s' := by
  have here := h id
  rw [hs] at here
  cases hs' : w'.sessions[id]? with
  | none => rw [hs'] at here; cases here
  | some s' =>
    rw [hs'] at here
    cases here with
    | some spares => exact ⟨s', rfl, spares⟩

/-- A session that is there now was there before. -/
theorem Spares.before (h : w.Spares w') {s' : Session} (hs : w'.sessions[id]? = .some s') :
    ∃ s, w.sessions[id]? = .some s ∧ s.Spares s' := by
  have here := h id
  rw [hs] at here
  cases hs' : w.sessions[id]? with
  | none => rw [hs'] at here; cases here
  | some s =>
    rw [hs'] at here
    cases here with
    | some spares => exact ⟨s, rfl, spares⟩

theorem Spares.withSession {s s' : Session} (hs : w.sessions[id]? = .some s) (h : s.Spares s') :
    w.Spares (w.withSession id s') := by
  intro i
  by_cases here : i = id
  · subst here
    rw [hs, getElem?_withSession_self]
    exact .some h
  · rw [getElem?_withSession_of_ne here]
    cases w.sessions[i]? with
    | none => exact .none
    | some u => exact .some (.refl u)

/-- The books of a world are right, and since another world nothing has gone from the sessions but
cells of references. -/
def Sparing (e : (SessionId → Session.Memory) × World) (H : Multiset Holding) (w : World) : Prop :=
  Books e.1 H w ∧ e.2.Spares w

/-- What keeps the books and does not touch sessions spares them. -/
theorem sparingAt_of_same {x : Act α} (keeps : KeepsAt Books w pre x post)
    (same : (x.run w).2.sessions = w.sessions) : KeepsAt Sparing w pre x post :=
  fun e H hw => ⟨keeps e.1 H hw.1, hw.2.trans (.of_same same)⟩

theorem sparing_of_same {x : Act α} (keeps : Keeps Books pre x post)
    (same : ∀ w, (x.run w).2.sessions = w.sessions) : Keeps Sparing pre x post :=
  fun w => sparingAt_of_same (keeps w) (same w)

/-! ## Letting go of values -/

/-- Whether a thing to be let go of is no cell but one of a reference. -/
def Mild (w : World) (c : Chore) : Prop :=
  ∀ id k, c = .cell id k → ∀ (s : Session) d, w.sessions[id]? = .some s → s.cell? k = .some d →
    d.anchor?.isSome

theorem Mild.stay {c : Chore} (h : w.Mild c) (spares : w.Spares w') : w'.Mild c := by
  intro id k hc s' d hs' hd
  obtain ⟨s, hs, spared⟩ := spares.before hs'
  exact h id k hc s d hs (spared.fewer k d hd)

theorem mild_value (v : Value) : w.Mild (.value v) := fun _ _ h => by cases h

theorem mild_callable (f : CallableId) : w.Mild (.callable f) := fun _ _ h => by cases h

theorem mild_settle (id : SessionId) (n : Nat) : w.Mild (.settle id n) := fun _ _ h => by cases h

/-- The cell of a reference that is held is that of a reference. -/
theorem Books.mild_ref {r : Ref} (hw : Books μ ({.ref r} + H) w) : w.Mild (.cell r.session r.cell) := by
  rintro id k ⟨⟩ s d hs hd
  obtain ⟨mine, tidy⟩ := hw.1.tidy _ s hs
  obtain ⟨⟨c, a, hc, ha⟩, -⟩ := tidy.backs (.ref r) (by simp) mine.symm
  obtain rfl := Option.some.inj (hc.symm.trans hd)
  rw [ha]
  rfl

/-- Letting go of a callable is nothing to the sessions, and sets only values free. -/
theorem sessions_chore_callable (f : CallableId) (w : World) :
    ((chore (.callable f)).run w).2.sessions = w.sessions
      ∧ ∀ c ∈ ((chore (.callable f)).run w).1, ∃ v, c = .value v := by
  have nothing : ∀ c ∈ ([] : List Chore), ∃ v, c = .value v := by simp
  have captured : ∀ t : Slots, ∀ c ∈ t.toList.map fun e => Chore.value e.2.value,
      ∃ v, c = .value v := by
    intro t c hc
    obtain ⟨e, -, rfl⟩ := List.mem_map.mp hc
    exact ⟨_, rfl⟩
  rw [chore, stateM_get_bind]
  cases w.callables[f]? with
  | none => exact ⟨rfl, nothing⟩
  | some c =>
    simp only
    split
    · exact ⟨rfl, nothing⟩
    · cases c.code.watched <;> exact ⟨rfl, captured c.captured⟩

/-- One thing that is let go of spares the sessions, and what it sets free is as mild. -/
theorem spares_chore {c : Chore} (hw : Books μ (c.holdings + H) w) (mild : w.Mild c) :
    w.Spares ((chore c).run w).2
      ∧ ∀ d ∈ ((chore c).run w).1, ((chore c).run w).2.Mild d := by
  cases c with
  | value v =>
    refine ⟨.of_same (by cases v <;> rfl), ?_⟩
    cases v with
    | reference r | function r => exact List.forall_mem_singleton.mpr hw.mild_ref
    | callable f => exact List.forall_mem_singleton.mpr (mild_callable f)
    | _ => exact fun _ h => absurd h List.not_mem_nil
  | cell id k =>
    refine ⟨?_, ?_⟩
    · change w.Spares ((onSession id (Session.withdraw k)).run w).2
      cases hs : w.sessions[id]? with
      | none => rw [onSession_run_none hs]; exact .of_same rfl
      | some s =>
        rw [onSession_run_some hs]
        refine .withSession hs ?_
        cases hc : s.cell? k with
        | none => rw [Session.withdraw_run_of_none hc]; exact .refl s
        | some c => rw [Session.withdraw_run hc]; exact .withdrawn hc (mild id k rfl s c hs hc)
    · change ∀ d ∈ ((onSession id (Session.withdraw k)).run w).1.2.toList.map Chore.callable
        ++ [.settle id ((onSession id (Session.withdraw k)).run w).1.1], Mild _ d
      intro d hd
      obtain hd | hd := List.mem_append.mp hd
      · obtain ⟨f, -, rfl⟩ := List.mem_map.mp hd
        exact mild_callable f
      · rw [List.mem_singleton.mp hd]
        exact mild_settle _ _
  | settle id n =>
    refine ⟨?_, fun _ h => absurd h List.not_mem_nil⟩
    change w.Spares ((onSession id (Session.settle n)).run w).2
    cases hs : w.sessions[id]? with
    | none => rw [onSession_run_none hs]; exact .of_same rfl
    | some s =>
      rw [onSession_run_some hs]
      exact .withSession hs { Session.Spares.refl s with }
  | callable f =>
    obtain ⟨same, values⟩ := sessions_chore_callable f w
    refine ⟨.of_same same, fun d hd => ?_⟩
    obtain ⟨v, rfl⟩ := values d hd
    exact mild_value v

/-- Things that are let go of, with all they set free, spare the sessions. -/
theorem spares_chores (fuel : Nat) {cs : List Chore} (hw : Books μ (choreHoldings cs + H) w)
    (mild : ∀ c ∈ cs, w.Mild c) : w.Spares ((chores fuel cs).run w).2 := by
  induction fuel generalizing cs w H with
  | zero => exact .of_same rfl
  | succ fuel ih =>
    cases cs with
    | nil => exact .of_same rfl
    | cons c cs =>
      rw [List.forall_mem_cons] at mild
      rw [choreHoldings_cons, add_assoc] at hw
      obtain ⟨spares, freed⟩ := spares_chore hw mild.1
      have next := keeps_chore c w μ _ hw
      rw [← add_assoc, ← choreHoldings_append] at next
      refine spares.trans (ih next fun d hd => ?_)
      obtain hd | hd := List.mem_append.mp hd
      · exact freed d hd
      · exact (mild.2 d hd).stay spares

theorem sparing_dropValues (vs : List Value) :
    Keeps Sparing (valueHoldings vs) (dropValues vs) fun _ => 0 := by
  intro w e H hw
  refine ⟨keeps_dropValues vs w e.1 H hw.1, hw.2.trans ?_⟩
  rw [dropValues, release]
  split
  · exact .of_same rfl
  · have books := hw.1
    rw [← valueHoldings_filter, ← choreHoldings_values] at books
    refine spares_chores _ books fun c hc => ?_
    obtain ⟨v, -, rfl⟩ := List.mem_map.mp hc
    exact mild_value v

theorem sparing_dropValue (v : Value) : Keeps Sparing v.holdings (dropValue v) fun _ => 0 :=
  (sparing_dropValues [v]).congr (by simp) fun _ => rfl

/-! ## The end of a step that fails -/

theorem sessions_setSlotAt (w : World) (place : Loan) (slot : Option Slot) :
    (w.setSlotAt place slot).sessions = w.sessions := by
  cases place <;> rfl

theorem sparing_storeSlot (name : String) (v : Value) :
    Keeps Sparing v.holdings (storeSlot name v).run (onResult (fun _ => 0) 0) := by
  intro w
  refine KeepsAt.tryGet ?_
  cases hl : w.locate name with
  | none =>
    simp only
    exact Keeps.tryBind ((sparing_dropValue v).lift 0) (fun _ => Keeps.throw _ rfl) w
  | some place =>
    have put := sparingAt_of_same (keepsAt_setSlotAt (hasPlace_of_locate hl) (some ⟨v, 0⟩))
      (sessions_setSlotAt w place _)
    simp only
    cases hs : w.slotAt place with
    | none =>
      rw [hs] at put
      exact put.lift 0
    | some old =>
      rw [hs] at put
      simp only
      refine (put.lift 0).tryBind fun _ _ => ?_
      by_cases free : old.borrows = 0
      · simp only [free, if_true]
        exact (sparing_dropValue old.value).lift 0 _
      · simp only [free, if_false]
        refine KeepsAt.tryGet ?_
        split
        · rename_i as h
          exact (sparingAt_of_same (keepsAt_entrust h) rfl).lift 0
        · exact (sparing_dropValue old.value).lift 0 _

theorem sparing_giveBack (c : Calling) :
    Keeps Sparing (valueHoldings c.replaced.toList) (giveBack c) fun _ => 0 := by
  intro w
  rw [giveBack]
  cases c.replaced with
  | some v => exact ((sparing_dropValue v).congr (by simp) fun _ => rfl) w
  | none =>
    refine sparingAt_of_same (keepsAt_unborrow c.loan) ?_
    change (w.unborrow c.loan).sessions = w.sessions
    rw [unborrow]
    split
    · exact sessions_setSlotAt w _ _
    · rfl

theorem sparing_giveArgsBack (args : List (Value × Option String)) :
    Keeps Sparing (valueHoldings (lentArgs args)) (args.forM fun
      | (v, some slot) => do
        let _ ← (storeSlot slot v).run
      | (_, none) => return () : Act Unit) fun _ => 0 := by
  induction args with
  | nil => exact Keeps.pure _ rfl
  | cons a args ih =>
    obtain ⟨v, slot⟩ := a
    rw [List.forM_eq_forM, List.forM_cons, ← List.forM_eq_forM]
    cases slot with
    | none => exact ih
    | some slot =>
      have back : Keeps Sparing v.holdings (do let _ ← (storeSlot slot v).run : Act Unit)
          fun _ => 0 :=
        ((sparing_storeSlot slot v).congr rfl fun r => by cases r <;> rfl).bind
          fun _ => Keeps.pure _ rfl
      rw [show lentArgs ((v, some slot) :: args) = v :: lentArgs args from rfl, valueHoldings_cons]
      refine (back.frame (valueHoldings (lentArgs args))).bind fun _ => ?_
      rw [zero_add]
      exact ih

theorem sparing_endLoans (c : Calling) : Keeps Sparing c.holdings (endLoans c) fun _ => 0 := by
  rw [endLoans, Calling.holdings, valueHoldings_args]
  refine ((sparing_giveBack c).frame _).bind fun _ => ?_
  rw [zero_add]
  refine ((sparing_giveArgsBack c.args).frame _).bind fun _ => ?_
  rw [zero_add]
  exact sparing_dropValues (ownArgs c.args)

theorem sessions_finishStep (step : Step) (r : Except Mishap Answer) (w : World) :
    ((finishStep step r).run w).2.sessions = w.sessions := by
  have goes : ∀ w, ((goOn step r).run w).2.sessions = w.sessions := by
    intro w
    cases r with
    | ok a => rfl
    | error mishap =>
      rw [goOn, stateM_get_bind]
      split <;> rfl
  cases quiet : step.quiet with
  | true =>
    simp only [finishStep, quiet]
    exact goes w
  | false =>
    simp only [finishStep, quiet]
    exact goes _

theorem sparing_finishStep (step : Step) (r : Except Mishap Answer) :
    Keeps Sparing 0 (finishStep step r) fun _ => 0 :=
  sparing_of_same (keeps_finishStep step r) (sessions_finishStep step r)

/-- A call step that fails spares the sessions. -/
theorem sparing_finishCall (step : Step) (c : Calling) (mishap : Mishap) :
    Keeps Sparing c.holdings (finishCall step c (.error mishap)) fun _ => 0 :=
  (sparing_endLoans c).bind fun _ => sparing_finishStep step _

end Host.World

end ScriptBridge
