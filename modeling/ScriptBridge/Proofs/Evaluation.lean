import ScriptBridge.Proofs.Places

/-!
# ScriptBridge.Proofs.Evaluation

Making values, lists and callables: what was made is held by whoever asked for it, and when a part
cannot be made, nothing is held of the parts before.

Main facts:

* `keepsAt_copy` — a copy is held apart from what it is a copy of;
* `keeps_value`, `keeps_callable` — a value or a callable that a program writes down;
* `keeps_items` — a list.
-/

namespace ScriptBridge.Host.World

variable {w : World} {μ : SessionId → Session.Memory} {H T pre err : Multiset Holding}

/-! ## Failures -/

theorem keeps_freshSessionId : Keeps Books 0 freshSessionId fun _ => 0 :=
  fun _ _ _ ⟨hw, owed⟩ => ⟨{ hw with
    numbered := fun id s h => ⟨(hw.numbered id s h).1, Nat.le_succ_of_le (hw.numbered id s h).2⟩ },
    owed⟩

theorem keeps_failure (e : FailureExpr) :
    Keeps Books 0 (failure e).run (onResult (fun _ => 0) 0) := by
  induction e with
  | plain f => exact Keeps.tryPure _ rfl
  | wrongSession =>
    refine Keeps.tryBind (keeps_freshSessionId.lift 0) fun _ => ?_
    exact Keeps.tryBind (keeps_freshSessionId.lift 0) fun _ => Keeps.tryPure _ rfl
  | marshal index source ih => exact Keeps.tryBind ih fun _ => Keeps.tryPure _ rfl
  | malformed => exact Keeps.throw _ rfl

/-! ## Copies -/

/-- What is in a slot is held. -/
theorem holdings_slotAt {place : Loan} {s : Slot} (h : w.slotAt place = some s) :
    s.value.holdings ≤ w.holdings := by
  have total := holdings_setSlotAt (hasPlace_of_slotAt h) none
  rw [h, someHoldings_none, add_zero, someHoldings_some] at total
  rw [← total]
  exact Multiset.le_add_left _ _

/-- A callable that is held has an owner. -/
theorem Books.owned {id : CallableId} (hw : Books μ H w) (h : .callable id ∈ w.holdings) :
    id ∈ w.owned := by
  obtain ⟨R, hR⟩ := Multiset.exists_cons_of_mem h
  have books := hw
  rw [Books, hR, ← Multiset.singleton_add, add_assoc] at books
  exact books.1.owned_callable books.2

/-- A second reference is held apart from the first one. -/
theorem keepsAt_reanchor {r : Ref} (h : .ref r ∈ w.holdings) :
    KeepsAt Books w 0 (reanchor r).run (onResult (fun copy => {.ref copy}) 0) := by
  have ready : KeepsAt Books w 0 (attemptOn r.session (Session.reanchor r))
      (onResult (fun copy => {.ref copy}) 0) := by
    rintro μ H ⟨hw, owed⟩
    obtain ⟨R, hR⟩ := Multiset.exists_cons_of_mem h
    have split : w.holdings + (0 + H) = {.ref r} + (R + H) := by
      rw [hR, ← Multiset.singleton_add]
      ac_rfl
    have about : ∀ k ∈ ({.ref r} : Multiset Holding), k.session = r.session ∨ k.session = 0 := by
      simp [Holding.session]
    rw [split] at hw owed
    have keeps : ∀ o, Keeps (Session.Books r.session o) {.ref r} (Session.reanchor r).run
        (onResult (fun copy => {.ref r} + {.ref copy}) {.ref r}) :=
      fun o => Session.keeps_reanchor rfl
    have made : Balanced μ (onResult (fun copy => {.ref r} + {.ref copy}) {.ref r}
          ((attemptOn r.session (Session.reanchor r)).run w).1 + (R + H))
        ((attemptOn r.session (Session.reanchor r)).run w).2 :=
      hw.onSession owed keeps (fun s e o hs => elsewhere_of_about keeps about hs) fun _ => hw
    have same : ((attemptOn r.session (Session.reanchor r)).run w).2.holdings = w.holdings :=
      holdings_onSession
    rw [Books, same, hR]
    have rest : tally Holding.debts (R + H) = 0 := by
      rw [tally_add] at owed
      exact (add_eq_zero.mp owed).2
    cases hc : ((attemptOn r.session (Session.reanchor r)).run w).1 with
    | ok copy =>
      rw [hc] at made
      have swap : .ref r ::ₘ R + (({.ref copy} : Multiset Holding) + H)
          = {.ref r} + {.ref copy} + (R + H) := by
        rw [← Multiset.singleton_add]
        ac_rfl
      rw [onResult_ok, swap]
      refine ⟨made, ?_⟩
      rw [tally_add, rest]
      simp [Holding.debts]
    | error f =>
      rw [hc] at made
      have swap : .ref r ::ₘ R + ((0 : Multiset Holding) + H) = {.ref r} + (R + H) := by
        rw [← Multiset.singleton_add]
        ac_rfl
      rw [onResult_error, swap]
      exact ⟨made, owed⟩
  refine KeepsAt.tryBind (m := fun r => onResult (fun copy => {.ref copy}) 0 r) (ready.lift 0)
    fun r _ => ?_
  cases r with
  | ok copy => exact KeepsAt.tryPure _ rfl
  | error f => exact KeepsAt.throw _ rfl

/-- A copy is held apart from what it is a copy of. -/
theorem keepsAt_copy {v : Value} (h : v.holdings ≤ w.holdings) :
    KeepsAt Books w 0 (copy v).run (onResult Value.holdings 0) := by
  cases v with
  | reference r =>
    exact (keepsAt_reanchor (Multiset.singleton_le.mp h)).tryBind fun _ _ => KeepsAt.tryPure _ rfl
  | function r =>
    exact (keepsAt_reanchor (Multiset.singleton_le.mp h)).tryBind fun _ _ => KeepsAt.tryPure _ rfl
  | callable id =>
    intro μ H hw
    have mine := hw.owned (Multiset.singleton_le.mp h)
    have copied : KeepsAt Books w 0
        (ExceptT.lift (retain id) >>= fun _ => pure (.callable id) : Try Value).run
        (onResult Value.holdings 0) :=
      ((keepsAt_retain mine).lift 0).tryBind fun _ _ => KeepsAt.tryPure _ rfl
    exact copied μ H hw
  | _ => exact KeepsAt.tryPure _ rfl

/-! ## Values and callables -/

/-- A callable that is defined under a name is held there. -/
theorem definedCallable_run (name : String) (w : World) :
    (∃ id, .callable id ∈ w.holdings ∧ (definedCallable name).run.run w = (.ok id, w))
      ∨ ∃ mishap, (definedCallable name).run.run w = (.error mishap, w) := by
  rw [definedCallable, try_get_bind]
  cases h : w.defined[name]? with
  | some id =>
    refine Or.inl ⟨id, ?_, rfl⟩
    have here : Holding.callable id ∈ definedHoldings w.defined :=
      Multiset.mem_map.mpr ⟨(name, id), mem_entries.mpr h, rfl⟩
    simp [holdings, here]
  | none => exact Or.inr ⟨_, rfl⟩

/-- A callable that is defined under a name gets an owner more. -/
theorem keeps_anotherOf (name : String) :
    Keeps Books 0 (anotherOf name).run (onResult Value.holdings 0) := by
  intro w μ H hw
  have run : (anotherOf name).run.run w = (definedCallable name >>= fun id => do
      retain id
      return .callable id : Try Value).run.run w := rfl
  rw [run, ExceptT.run_bind, stateM_run_bind]
  obtain ⟨id, held, look⟩ | ⟨mishap, look⟩ := definedCallable_run name w
  · rw [look]
    have copied : KeepsAt Books w 0
        (ExceptT.lift (retain id) >>= fun _ => pure (.callable id) : Try Value).run
        (onResult Value.holdings 0) :=
      ((keepsAt_retain (hw.owned held)).lift 0).tryBind fun _ _ => KeepsAt.tryPure _ rfl
    exact copied μ H hw
  · rw [look]
    exact hw

mutual

/-- A value that was made is held by whoever asked for it. -/
theorem keeps_value (e : ValueExpr) :
    Keeps Books 0 (value e).run (onResult Value.holdings 0) := by
  cases e with
  | constant c =>
    rw [value]
    exact Keeps.tryPure _ (by cases c <;> rfl)
  | take slot =>
    rw [value]
    exact keeps_takeSlot slot
  | dup slot =>
    intro w
    rw [value]
    exact keepsAt_filledSlot (fun place s hs => keepsAt_copy (holdings_slotAt hs)) rfl
  | callable f =>
    rw [value]
    exact Keeps.tryBind (keeps_callable f) fun id => Keeps.tryPure _ rfl
  | named name =>
    rw [value]
    exact keeps_anotherOf name
  | malformed =>
    rw [value]
    exact Keeps.throw _ rfl

/-- A callable that was made has one owner, who asked for it. -/
theorem keeps_callable (f : CallableExpr) :
    Keeps Books 0 (callable f).run (onResult (fun id => {.callable id}) 0) := by
  cases f with
  | mk name body results captures watched quiet =>
    rw [callable]
    refine Keeps.tryBind ((keeps_captureAll captures ∅).congr (by simp) fun _ => rfl)
      fun captured => ?_
    exact (keeps_newCallable _ captured).lift 0
  | malformed =>
    rw [callable]
    exact Keeps.throw _ rfl

/-- Values that are captured are held in slots. -/
theorem keeps_captureAll (es : List (String × ValueExpr)) (slots : Slots) :
    Keeps Books (slotHoldings slots) (captureAll es slots).run (onResult slotHoldings 0) := by
  match es with
  | [] =>
    rw [captureAll]
    exact Keeps.tryPure _ rfl
  | (name, e) :: rest =>
    rw [captureAll]
    refine Keeps.tryBind (m := fun v => slotHoldings slots + v.holdings) ?_ fun v => ?_
    · refine Keeps.tryCatch (m := slotHoldings slots) ?_ fun mishap => ?_
      · refine ((keeps_value e).frame (slotHoldings slots)).congr (zero_add _).symm fun r => ?_
        cases r with
        | ok v => exact add_comm _ _
        | error f => exact zero_add _
      · exact Keeps.tryBind ((keeps_dropSlots slots).lift 0) fun _ => Keeps.throw _ rfl
    · have dropped : Keeps Books (slotHoldings slots + v.holdings)
          (dropValues ((slots["^" ++ name]?).toList.map Slot.value))
          fun _ => slotHoldings (slots.insert ("^" ++ name) ⟨v, 0⟩) := by
        refine ((keeps_dropValues _).frame
          (slotHoldings (slots.insert ("^" ++ name) ⟨v, 0⟩))).congr ?_ fun _ => zero_add _
        rw [← slotHoldings_insert slots ("^" ++ name) ⟨v, 0⟩, add_comm]
        cases slots["^" ++ name]? <;> simp
      exact Keeps.tryBind (dropped.lift 0) fun _ => keeps_captureAll rest _

end

/-! ## Lists -/

/-- Values that are taken out of argument slots are held by whoever took them. -/
theorem keeps_splatFrom (fuel position : Nat) (taken : List Value) :
    Keeps Books (valueHoldings taken) (splatFrom fuel position taken).run
      (onResult valueHoldings 0) := by
  have done : ∀ taken, Keeps Books (valueHoldings taken)
      (pure taken.reverse : Try (List Value)).run (onResult valueHoldings 0) :=
    fun taken => Keeps.tryPure _ (valueHoldings_reverse taken).symm
  induction fuel generalizing position taken with
  | zero => exact done taken
  | succ fuel ih =>
    intro w
    rw [splatFrom]
    refine KeepsAt.tryGet ?_
    split
    · exact done taken w
    · split
      · exact done taken w
      · refine KeepsAt.tryBind (m := fun v => valueHoldings (v :: taken)) ?_ fun v _ => ih _ _ _
        refine Keeps.tryCatch (m := valueHoldings taken) ?_ (fun mishap => ?_) w
        · refine ((keeps_takeSlot _).frame (valueHoldings taken)).congr (zero_add _).symm
            fun r => ?_
          cases r with
          | ok v => exact (valueHoldings_cons v taken).symm
          | error f => exact zero_add _
        · have dropped := keeps_dropValues taken.reverse
          rw [valueHoldings_reverse] at dropped
          exact Keeps.tryBind (dropped.lift 0) fun _ => Keeps.throw _ rfl

theorem valueHoldings_nils (count : Nat) :
    valueHoldings ((List.replicate count (Value.nil, (none : Option String))).map (·.1)) = 0 := by
  induction count with
  | zero => rfl
  | succ n ih =>
    rw [List.replicate_succ, List.map_cons, valueHoldings_cons, ih]
    rfl

theorem keeps_item (e : ItemExpr) :
    Keeps Books 0 (item e).run (onResult (fun vs => valueHoldings (vs.map (·.1))) 0) := by
  cases e with
  | one e => exact Keeps.tryBind (keeps_value e) fun v => Keeps.tryPure _ (by simp)
  | nils count => exact Keeps.tryPure _ (valueHoldings_nils count).symm
  | splat first =>
    intro w
    refine KeepsAt.tryGet ?_
    refine Keeps.tryBind (keeps_splatFrom _ first []) (fun vs => Keeps.tryPure _ ?_) w
    rw [List.map_map]
    simp [Function.comp_def]
  | lend slot => exact Keeps.tryBind (keeps_takeSlot slot) fun v => Keeps.tryPure _ (by simp)

/-- The rest of a list is made, or nothing of it is held. -/
theorem keeps_itemsFrom (done : List (Value × Option String)) (es : List ItemExpr) :
    Keeps Books (valueHoldings (done.map (·.1))) (itemsFrom done es).run
      (onResult (fun vs => valueHoldings (vs.map (·.1))) 0) := by
  induction es generalizing done with
  | nil =>
    refine Keeps.tryPure _ ?_
    rw [List.map_reverse, valueHoldings_reverse]
  | cons e es ih =>
    rw [itemsFrom]
    refine Keeps.tryBind (m := fun vs => valueHoldings ((vs.reverse ++ done).map (·.1))) ?_
      fun vs => ih _
    refine Keeps.tryCatch (m := valueHoldings (done.map (·.1))) ?_ fun mishap => ?_
    · refine ((keeps_item e).frame (valueHoldings (done.map (·.1)))).congr (zero_add _).symm
        fun r => ?_
      cases r with
      | ok vs =>
        simp only [onResult_ok, List.map_append, List.map_reverse, valueHoldings_append,
          valueHoldings_reverse]
      | error f => exact zero_add _
    · have dropped := keeps_dropValues (done.reverse.map (·.1))
      rw [List.map_reverse, valueHoldings_reverse] at dropped
      rw [List.map_reverse]
      exact Keeps.tryBind (dropped.lift 0) fun _ => Keeps.throw _ rfl

/-- A list is made, or nothing of it is held. -/
theorem keeps_items (es : List ItemExpr) :
    Keeps Books 0 (items es).run (onResult (fun vs => valueHoldings (vs.map (·.1))) 0) :=
  keeps_itemsFrom [] es

/-! ## Extraction -/

/-- What is read as a plain datum is not kept. -/
theorem lift_none {α : Type} {r : Except Failure α} {view : α → Extracted} {shown : Extracted}
    {kept : Value} :
    extractAs.lift (r.map fun x => (view x, (none : Option Value))) ≠ .ok (shown, some kept) := by
  cases r <;> simp [extractAs.lift, Except.map, Except.mapError]

/-- A value that is kept when another is read as a type is held like that one. -/
theorem holdings_extractAs {as : Extraction} {v kept : Value} {shown : Extracted}
    (h : extractAs as v = .ok (shown, some kept)) : kept.holdings = v.holdings := by
  induction as with
  | value =>
    cases h
    rfl
  | optional of ih =>
    cases v with
    | nil => cases h
    | _ => exact ih h
  | reference =>
    cases v with
    | reference r | function r =>
      cases h
      rfl
    | _ => cases h
  | function =>
    cases v with
    | function r =>
      cases h
      rfl
    | _ => cases h
  | malformed => cases h
  | _ => exact absurd h lift_none

end ScriptBridge.Host.World
