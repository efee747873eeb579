import ScriptBridge.Proofs.Steps

/-!
# ScriptBridge.Proofs.Activities

Activities begin and end.  What an activity needs is held by it while it is in progress, and by
whoever ends it afterwards.

Main facts:

* `keeps_begin`, `keepsAt_finishTop` — holdings go to an activity, and come back;
* `keeps_finishCall` — a call step that ends has nothing left, whatever came of it;
* `keeps_beginDelivery`, `keepsAt_deliverNext` — values that are delivered stay with the errand
  until it is done.
-/

namespace ScriptBridge.Host.World

variable {w : World} {μ : SessionId → Session.Memory} {H T pre err : Multiset Holding}

/-! ## Activities and control -/

/-- What an activity needs is held by it from now on. -/
theorem keeps_begin {a : Activity} (fits : a.Fits) :
    Keeps Books a.holdings (begin a) fun _ => 0 := by
  rintro w μ H ⟨hw, owed⟩
  have total : ({ w with activities := a :: w.activities } : World).holdings + (0 + H)
      = w.holdings + (a.holdings + H) := by
    rw [holdings, holdings, activityHoldings_cons]
    ac_rfl
  change Books μ (0 + H) { w with activities := a :: w.activities }
  rw [Books, total]
  exact ⟨{ hw with fits := List.forall_mem_cons.mpr ⟨fits, hw.fits⟩ }, owed⟩

/-- The world without the activity on top. -/
theorem finishTop_run (w : World) :
    finishTop.run w = ((), { w with activities := w.activities.drop 1 }) := rfl

/-- What the activity on top needed is held by whoever ends it. -/
theorem keepsAt_finishTop {a : Activity} {rest : List Activity}
    (top : w.activities = a :: rest) : KeepsAt Books w 0 finishTop fun _ => a.holdings := by
  rintro μ H ⟨hw, owed⟩
  have total : ({ w with activities := w.activities.drop 1 } : World).holdings + (a.holdings + H)
      = w.holdings + (0 + H) := by
    rw [holdings, holdings, top, activityHoldings_cons, List.drop_succ_cons, List.drop_zero]
    ac_rfl
  rw [finishTop_run, Books, total]
  refine ⟨{ hw with fits := fun b hb => hw.fits b ?_ }, owed⟩
  exact List.mem_of_mem_drop hb

/-- The activity on top may hold more, or less, than before. -/
theorem keepsAt_replaceTop {a b : Activity} {rest : List Activity} {K L : Multiset Holding}
    (top : w.activities = b :: rest) (fits : a.Fits) (total : a.holdings + L = b.holdings + K) :
    KeepsAt Books w K (replaceTop a) fun _ => L := by
  rintro μ H ⟨hw, owed⟩
  have same : ({ w with activities := a :: w.activities.drop 1 } : World).holdings + (L + H)
      = w.holdings + (K + H) := by
    rw [holdings, holdings, top, activityHoldings_cons, activityHoldings_cons,
      List.drop_succ_cons, List.drop_zero]
    calc
      _ = (a.holdings + L) + (slotHoldings w.slots + definedHoldings w.defined
          + capturedHoldings w.callables + activityHoldings rest + H) := by ac_rfl
      _ = _ := by
        rw [total]
        ac_rfl
  change Books μ (L + H) { w with activities := a :: w.activities.drop 1 }
  rw [Books, same]
  refine ⟨{ hw with fits := List.forall_mem_cons.mpr ⟨fits, fun b hb => hw.fits b ?_⟩ }, owed⟩
  exact List.mem_of_mem_drop hb

/-- A body that is left hands no values over before its results are made. -/
theorem keeps_setControl {c : Control} (bare : ∀ ending, c = .leave ending → ending.values = []) :
    Keeps Books 0 (setControl c) fun _ => 0 :=
  fun _ _ _ ⟨hw, owed⟩ => ⟨{ hw with bare := bare }, owed⟩

theorem keeps_setControl_proceed : Keeps Books 0 (setControl .proceed) fun _ => 0 :=
  keeps_setControl fun _ h => by cases h

theorem keeps_setControl_script (id : SessionId) :
    Keeps Books 0 (setControl (.script id)) fun _ => 0 :=
  keeps_setControl fun _ h => by cases h

/-! ## The ends of steps -/

theorem keeps_goOn (step : Step) (r : Except Mishap Answer) :
    Keeps Books 0 (goOn step r) fun _ => 0 := by
  cases r with
  | ok _ => exact keeps_setControl_proceed
  | error mishap =>
    refine Keeps.get_bind fun w => ?_
    split
    · exact keeps_setControl_proceed w
    · refine keeps_setControl (fun ending h => ?_) w
      cases h
      rfl

theorem keeps_finishStep (step : Step) (r : Except Mishap Answer) :
    Keeps Books 0 (finishStep step r) fun _ => 0 := by
  have shape : finishStep step r = if !step.quiet then (do report (.result r); goOn step r)
      else goOn step r := rfl
  rw [shape]
  split
  · exact (keeps_report _).bind fun _ => keeps_goOn step r
  · exact keeps_goOn step r

/-- Results that are stored or dropped are held no more by the call they come from. -/
theorem keeps_storeResults (names : List String) (vs : List Value) :
    Keeps Books (valueHoldings vs) (storeResults names vs).run (onResult (fun _ => 0) 0) := by
  induction vs generalizing names with
  | nil => cases names <;> exact Keeps.tryPure _ rfl
  | cons v vs ih =>
    cases names with
    | nil => exact (keeps_dropValues (v :: vs)).lift 0
    | cons name names =>
      rw [storeResults, valueHoldings_cons]
      refine Keeps.tryBind (m := fun _ => valueHoldings vs) ?_ fun _ => ih names
      refine Keeps.tryCatch (m := valueHoldings vs) ?_ fun mishap => ?_
      · refine ((keeps_storeSlot name v).frame (valueHoldings vs)).congr rfl fun r => ?_
        cases r <;> exact zero_add _
      · exact Keeps.tryBind ((keeps_dropValues vs).lift 0) fun _ => Keeps.throw _ rfl

theorem keeps_callAnswer (c : Calling) (vs : List Value) :
    Keeps Books (valueHoldings vs) (callAnswer c vs).run (onResult (fun _ => 0) 0) :=
  Keeps.tryBind (keeps_storeResults c.into vs) fun _ => Keeps.tryPure _ rfl

/-- The arguments that were lent. -/
def lentArgs (args : List (Value × Option String)) : List Value :=
  args.filterMap fun
    | (v, some _) => some v
    | (_, none) => none

/-- The arguments that were not lent. -/
def ownArgs (args : List (Value × Option String)) : List Value :=
  args.filterMap fun
    | (v, none) => some v
    | (_, some _) => none

theorem valueHoldings_args (args : List (Value × Option String)) :
    valueHoldings (args.map (·.1))
      = valueHoldings (lentArgs args) + valueHoldings (ownArgs args) := by
  induction args with
  | nil => rfl
  | cons a args ih =>
    obtain ⟨v, slot⟩ := a
    rw [List.map_cons, valueHoldings_cons, ih]
    cases slot with
    | none =>
      rw [show lentArgs ((v, none) :: args) = lentArgs args from rfl,
        show ownArgs ((v, none) :: args) = v :: ownArgs args from rfl, valueHoldings_cons]
      ac_rfl
    | some slot =>
      rw [show lentArgs ((v, some slot) :: args) = v :: lentArgs args from rfl,
        show ownArgs ((v, some slot) :: args) = ownArgs args from rfl, valueHoldings_cons]
      ac_rfl

/-- Arguments that were lent go back into their slots. -/
theorem keeps_giveArgsBack (args : List (Value × Option String)) :
    Keeps Books (valueHoldings (lentArgs args)) (args.forM fun
      | (v, some slot) => do
        let _ ← (storeSlot slot v).run
      | (_, none) => return () : Act Unit) fun _ => 0 := by
  induction args with
  | nil => exact Keeps.pure _ rfl
  | cons a args ih =>
    obtain ⟨v, slot⟩ := a
    rw [List.forM_eq_forM, List.forM_cons, ← List.forM_eq_forM]
    cases slot with
    | none => exact ih
    | some slot =>
      have back : Keeps Books v.holdings (do let _ ← (storeSlot slot v).run : Act Unit)
          fun _ => 0 :=
        ((keeps_storeSlot slot v).congr rfl fun r => by cases r <;> rfl).bind
          fun _ => Keeps.pure _ rfl
      rw [show lentArgs ((v, some slot) :: args) = v :: lentArgs args from rfl, valueHoldings_cons]
      refine (back.frame (valueHoldings (lentArgs args))).bind fun _ => ?_
      rw [zero_add]
      exact ih

/-- A call step that ends gives back what it borrowed, and drops the rest. -/
theorem keeps_endLoans (c : Calling) : Keeps Books c.holdings (endLoans c) fun _ => 0 := by
  rw [endLoans, Calling.holdings, valueHoldings_args]
  refine ((keeps_giveBack c).frame _).bind fun _ => ?_
  rw [zero_add]
  refine ((keeps_giveArgsBack c.args).frame _).bind fun _ => ?_
  rw [zero_add]
  exact keeps_dropValues (ownArgs c.args)

/-- What the outcome of a call hands over. -/
def outcome : Except Mishap (List Value) → Multiset Holding
  | .ok vs => valueHoldings vs
  | .error _ => 0

/-- A call step that has ended has nothing left. -/
theorem keeps_finishCall (step : Step) (c : Calling) (r : Except Mishap (List Value)) :
    Keeps Books (c.holdings + outcome r) (finishCall step c r) fun _ => 0 := by
  unfold finishCall
  refine ((keeps_endLoans c).frame (outcome r)).bind fun _ => ?_
  rw [zero_add]
  cases r with
  | error mishap => exact keeps_finishStep step _
  | ok vs =>
    refine Keeps.bind (m := fun _ => 0) ?_ fun r => keeps_finishStep step r
    exact (keeps_callAnswer c vs).congr rfl fun r => by cases r <;> rfl

end ScriptBridge.Host.World
