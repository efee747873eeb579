import ScriptBridge.Proofs.Balance

/-!
# ScriptBridge.Proofs.Release

Letting go, as it changes what a world holds.  A thing that is let go of may set others free, which
are let go of in turn: values that a callable captured, cells of references, owners of callables
that a cell had pinned.  Each turn takes something away that the world will not have again, so
that all of it is let go of in the end.

Main facts:

* `chore_cost` — a turn leaves less to be done;
* `keeps_release` — things that are let go of are held no more;
* `keeps_dropValues`, `keeps_dropSlots`, `keeps_releaseOutbound` — and so are the values in a list
  or in slots, and the cells of a transfer;
* `pays_retainAll` — an owner that was not counted is counted.
-/

namespace ScriptBridge.Host.World

open scoped CoreInstances

variable {w : World} {μ : SessionId → Session.Memory} {H R : Multiset Holding}

theorem keeps_report (what : Happening) : Keeps Books 0 (report what) fun _ => 0 :=
  fun _ _ _ ⟨hw, owed⟩ => ⟨{ hw with }, owed⟩

/-! ## Owners of callables -/

theorem retain_run (id : CallableId) (w : World) :
    (retain id).run w = ((), { w with
      callables := w.callables.modify id fun c => { c with owners := c.owners + 1 } }) := rfl

/-- An owner more is one entry more. -/
theorem owned_retain {id : CallableId} {c : Callable} (h : w.callables[id]? = some c) :
    ((retain id).run w).2.owned = {id} + w.owned := by
  rw [retain_run, owned, ownersOf_modify _ h, owned, ownersOf_erase h, Multiset.replicate_succ,
    Multiset.cons_add, Multiset.singleton_add]

theorem holdings_retain {id : CallableId} {c : Callable} (h : w.callables[id]? = some c) :
    ((retain id).run w).2.holdings = w.holdings := by
  have same : capturedHoldings (w.callables.modify id fun c => { c with owners := c.owners + 1 })
      = capturedHoldings w.callables :=
    add_right_cancel (capturedHoldings_modify (fun c => { c with owners := c.owners + 1 }) h)
  rw [retain_run, holdings, same, holdings]

theorem keys_modify (t : Std.TreeMap CallableId Callable) (id : CallableId)
    (change : Callable → Callable) {f : CallableId} (h : f ∈ keys (t.modify id change)) :
    f ∈ keys t := by
  obtain ⟨c, hc⟩ := mem_keys.mp h
  by_cases here : f = id
  · subst here
    rw [getElem?_modify_self] at hc
    obtain ⟨d, hd, -⟩ := Option.map_eq_some_iff.mp hc
    exact mem_keys.mpr ⟨d, hd⟩
  · rw [getElem?_modify_of_ne here] at hc
    exact mem_keys.mpr ⟨c, hc⟩

/-- An owner that was not counted is counted. -/
theorem Balanced.retain {id : CallableId} (hw : w.Balanced μ ({.unpaid id} + R)) :
    Balanced μ R ((World.retain id).run w).2
      ∧ ((World.retain id).run w).2.holdings = w.holdings := by
  have mine : id ∈ w.owned := hw.payable id (by simp [Holding.debts])
  obtain ⟨c, hc⟩ := mem_owned mine
  have balance := hw.worth
  simp only [tally_add, tally_singleton, Holding.callables, Holding.debts, zero_add] at balance
  refine ⟨{ hw with
    tidy := hw.tidy_of fun i hi => by
      rw [own_add, own_singleton (by simpa [Holding.session] using hi.symm), zero_add]
    near := fun h hh => hw.near h (by simp [hh])
    worth := ?_
    payable := ?_
    fresh := fun f hf => hw.fresh f (keys_modify _ _ _ hf) }, holdings_retain hc⟩
  · rw [owned_retain hc]
    change w.pinned + _ = _
    rw [balance]
    ac_rfl
  · intro f hf
    rw [owned_retain hc]
    exact Multiset.mem_add.mpr (Or.inr (hw.payable f (by simp [hf])))

/-- A callable that somebody owns gets an owner more. -/
theorem keepsAt_retain {id : CallableId} (mine : id ∈ w.owned) :
    KeepsAt Books w 0 (retain id) fun _ => {.callable id} := by
  rintro μ H ⟨hw, owed⟩
  obtain ⟨c, hc⟩ := mem_owned mine
  have balance := hw.worth
  rw [zero_add] at hw owed balance
  have regroup : w.holdings + ({.callable id} + H) = {.callable id} + (w.holdings + H) := by ac_rfl
  rw [Books, holdings_retain hc, regroup]
  refine ⟨{ hw with
    tidy := hw.tidy_of fun i hi => by
      rw [own_add, own_singleton (by simpa [Holding.session] using hi.symm), zero_add]
    near := ?_
    worth := ?_
    payable := ?_
    fresh := fun f hf => hw.fresh f (keys_modify _ _ _ hf) }, ?_⟩
  · intro h hh
    obtain hh | hh := Multiset.mem_add.mp hh
    · rw [Multiset.mem_singleton.mp hh]
      exact Or.inl rfl
    · exact hw.near h hh
  · rw [owned_retain hc, tally_add Holding.callables, tally_singleton, tally_add Holding.debts {_},
      tally_singleton]
    change w.pinned + ({id} + _) = {id} + w.owned + (0 + _)
    rw [zero_add, add_assoc, ← balance]
    ac_rfl
  · rw [tally_add, owed]
    simp [Holding.debts]
  · rw [tally_add, owed]
    simp [Holding.debts]

/-! ## New callables -/

/-- A new callable has one owner, and what it captured is its own. -/
theorem keeps_newCallable (code : CallableExpr) (captured : Slots) :
    Keeps Books (slotHoldings captured) (newCallable code captured)
      fun id => {.callable id} := by
  rintro w μ H ⟨hw, owed⟩
  have absent : w.callables[w.nextCallable]? = none := by
    rw [Option.eq_none_iff_forall_ne_some]
    intro c hc
    exact absurd (hw.fresh _ (mem_keys.mpr ⟨c, hc⟩)) (Nat.lt_irrefl _)
  have held : ((newCallable code captured).run w).2.holdings
      = slotHoldings captured + w.holdings := by
    change slotHoldings w.slots + definedHoldings w.defined
      + capturedHoldings (w.callables.insert w.nextCallable ⟨code, captured, 1⟩)
      + activityHoldings w.activities = _
    rw [capturedHoldings_insert _ absent, holdings]
    ac_rfl
  have owns : ((newCallable code captured).run w).2.owned = {w.nextCallable} + w.owned := by
    change ownersOf (w.callables.insert w.nextCallable ⟨code, captured, 1⟩) = _
    rw [ownersOf_insert _ absent]
    rfl
  have regroup : slotHoldings captured + w.holdings + ({.callable w.nextCallable} + H)
      = {.callable w.nextCallable} + (w.holdings + (slotHoldings captured + H)) := by ac_rfl
  have balance := hw.worth
  have made : ((newCallable code captured).run w).1 = w.nextCallable := rfl
  rw [made, Books, held, regroup]
  refine ⟨{ hw with
    tidy := hw.tidy_of fun i hi => by
      rw [own_add, own_singleton (by simpa [Holding.session] using hi.symm), zero_add]
    near := ?_
    worth := ?_
    payable := ?_
    fresh := ?_ }, ?_⟩
  · intro h hh
    obtain hh | hh := Multiset.mem_add.mp hh
    · rw [Multiset.mem_singleton.mp hh]
      exact Or.inl rfl
    · exact hw.near h hh
  · rw [owns, tally_add Holding.callables, tally_singleton, tally_add Holding.debts {_},
      tally_singleton]
    change w.pinned + ({w.nextCallable} + _) = {w.nextCallable} + w.owned + (0 + _)
    rw [zero_add, add_assoc, ← balance]
    ac_rfl
  · rw [tally_add, owed]
    simp [Holding.debts]
  · intro f hf
    change f ∈ keys (w.callables.insert w.nextCallable ⟨code, captured, 1⟩) at hf
    rw [keys_insert absent, Multiset.mem_cons] at hf
    obtain rfl | hf := hf
    · exact Nat.lt_succ_self _
    · exact Nat.lt_succ_of_lt (hw.fresh f hf)
  · rw [tally_add, owed]
    simp [Holding.debts]

/-! ## One thing -/

/-- What something that is to be let go of is held as. -/
def Chore.holdings : Chore → Multiset Holding
  | .value v => v.holdings
  | .cell id c => {.cell id c}
  | .callable f => {.callable f}
  | .settle id n => {.due id n}

/-- What things that are to be let go of are held as. -/
def choreHoldings (cs : List Chore) : Multiset Holding := (cs.map Chore.holdings).sum

@[simp] theorem choreHoldings_nil : choreHoldings [] = 0 := rfl

@[simp] theorem choreHoldings_cons (c : Chore) (cs : List Chore) :
    choreHoldings (c :: cs) = c.holdings + choreHoldings cs := by simp [choreHoldings]

@[simp] theorem choreHoldings_append (cs ds : List Chore) :
    choreHoldings (cs ++ ds) = choreHoldings cs + choreHoldings ds := by simp [choreHoldings]

theorem choreHoldings_callables (fs : List CallableId) :
    choreHoldings (fs.map .callable) = owners fs := by
  induction fs with
  | nil => rfl
  | cons f fs ih => simp [ih, Chore.holdings]

theorem choreHoldings_values (vs : List Value) :
    choreHoldings (vs.map .value) = valueHoldings vs := by
  induction vs with
  | nil => rfl
  | cons v vs ih => simp [ih, Chore.holdings]

/-- Only the cell of a holding counts from now on. -/
theorem Balanced.plain {h : Holding} (hw : w.Balanced μ ({h} + R))
    (clear : tally Holding.debts ({h} + R) = 0) : w.Balanced μ ({h.plain} + R) :=
  { hw with
    tidy := fun id s hs => ⟨(hw.tidy id s hs).1, (hw.sound clear hs).plain.toTidy⟩
    near := by
      intro k hk
      obtain hk | hk := Multiset.mem_add.mp hk
      · rw [Multiset.mem_singleton.mp hk, Holding.session_plain]
        exact hw.near h (by simp)
      · exact hw.near k (by simp [hk])
    worth := by
      have balance := hw.worth
      simp only [tally_add, tally_singleton] at balance ⊢
      rw [Holding.callables_plain, Holding.debts_plain, balance]
    payable := by
      have payable := hw.payable
      simp only [tally_add, tally_singleton] at payable ⊢
      rw [Holding.debts_plain]
      exact payable }

theorem keeps_chore_ref (r : Ref) :
    Keeps Books {.ref r} (pure [.cell r.session r.cell] : Act (List Chore)) choreHoldings := by
  rintro w μ H ⟨hw, owed⟩
  have swap : ∀ K : Holding, w.holdings + ({K} + H) = {K} + (w.holdings + H) := fun K => by ac_rfl
  rw [swap] at hw owed
  have plain := hw.plain owed
  rw [Holding.plain, ← swap] at plain
  have same : choreHoldings [.cell r.session r.cell] = {.cell r.session r.cell} := by
    simp [Chore.holdings]
  change Books μ (choreHoldings [.cell r.session r.cell] + H) w
  rw [same]
  refine ⟨plain, ?_⟩
  rw [swap, tally_add]
  rwa [tally_add] at owed

/-- A cell that is let go of leaves its weight, and an owner of the callable that it pinned. -/
theorem keeps_chore_cell (id : SessionId) (cell : CellId) :
    Keeps Books {.cell id cell} (chore (.cell id cell)) choreHoldings := by
  intro w
  have gone : KeepsAt Books w {.cell id cell} (onSession id (Session.withdraw cell))
      fun r => owners r.2.toList + {.due id r.1} := by
    refine keepsAt_onSession (fun o => Session.keeps_withdraw cell) (by simp [Holding.session])
      (fun r => ?_) fun _ => ?_
    · rw [tally_add, tally_owners fun _ => rfl, tally_singleton, zero_add]
      rfl
    · refine ⟨fun h hh => ⟨.cell id cell, by simp, ?_⟩, rfl⟩
      obtain rfl := Multiset.mem_singleton.mp (hh : h ∈ ({.due id 0} : Multiset Holding))
      rfl
  refine gone.bind (KeepsAt.pure _ ?_)
  rw [choreHoldings_append, choreHoldings_callables]
  simp [Chore.holdings]

theorem keeps_chore_settle (id : SessionId) (weight : Nat) :
    Keeps Books {.due id weight} (chore (.settle id weight)) choreHoldings := by
  intro w
  have gone : KeepsAt Books w {.due id weight} (onSession id (Session.settle weight))
      fun _ => 0 :=
    keepsAt_onSession (fun o => Session.keeps_settle weight) (by simp [Holding.session])
      (fun _ => rfl) fun _ => by simp [Holding.callables]
  exact gone.bind (KeepsAt.pure _ rfl)

theorem tidy_callable {id : CallableId} (hw : w.Balanced μ ({.callable id} + R)) :
    ∀ i (s : Session), w.sessions[i]? = some s → s.id = i ∧ s.Tidy (μ i) R :=
  hw.tidy_of fun i hi => by
    rw [own_add i {_}, own_singleton (by simpa [Holding.session] using hi.symm), zero_add]

/-- A callable that somebody owns is there. -/
theorem Balanced.owned_callable {id : CallableId} (hw : w.Balanced μ ({.callable id} + R))
    (clear : tally Holding.debts ({.callable id} + R) = 0) : id ∈ w.owned := by
  have balance := hw.worth
  rw [clear, add_zero] at balance
  rw [← balance]
  simp [Holding.callables]

/-- The owners of a callable that has one are those that are left and that one. -/
theorem owners_callable {id : CallableId} {c : Callable} (hc : w.callables[id]? = some c)
    (hw : w.Balanced μ ({.callable id} + R)) (clear : tally Holding.debts ({.callable id} + R) = 0) :
    0 < c.owners ∧ w.pinned + tally Holding.callables R
      = Multiset.replicate (c.owners - 1) id + ownersOf (w.callables.erase id) := by
  have balance := hw.worth
  rw [clear, add_zero, tally_add, tally_singleton, owned, ownersOf_erase hc] at balance
  change w.pinned + ({id} + _) = _ at balance
  have positive : 0 < c.owners := by
    have mine : id ∈ w.pinned + ({id} + tally Holding.callables R) := by simp
    rw [balance] at mine
    by_contra none
    obtain left | left := Multiset.mem_add.mp mine
    · rw [Nat.eq_zero_of_not_pos none] at left
      simp at left
    · obtain ⟨⟨f, d⟩, hd, hf⟩ := Multiset.mem_bind.mp left
      obtain rfl := Multiset.eq_of_mem_replicate hf
      have gone := mem_entries.mp hd
      rw [getElem?_erase_self] at gone
      cases gone
  refine ⟨positive, add_left_cancel (a := {id}) ?_⟩
  obtain ⟨n, hn⟩ := Nat.exists_eq_succ_of_ne_zero (Nat.ne_of_gt positive)
  rw [hn, Nat.succ_eq_add_one, Multiset.replicate_succ] at balance
  rw [hn, ← add_assoc, ← add_assoc, Nat.succ_eq_add_one, Nat.add_sub_cancel,
    Multiset.singleton_add id (Multiset.replicate n id), ← balance]
  ac_rfl

theorem keys_of_erase {t : Std.TreeMap CallableId Callable} {id f : CallableId}
    (h : f ∈ keys (t.erase id)) : f ∈ keys t := by
  obtain ⟨c, hc⟩ := mem_keys.mp h
  refine mem_keys.mpr ⟨c, ?_⟩
  rw [← hc, getElem?_erase_of_ne]
  rintro rfl
  rw [getElem?_erase_self] at hc
  cases hc

/-- A callable with other owners has one owner less. -/
theorem keepsAt_disown {id : CallableId} {c : Callable} (hc : w.callables[id]? = some c) :
    KeepsAt Books w {.callable id} (modify fun w => { w with
        callables := w.callables.insert id { c with owners := c.owners - 1 } } : Act Unit)
      fun _ => 0 := by
  rintro μ H ⟨hw, owed⟩
  have swap : w.holdings + ({.callable id} + H) = {.callable id} + (w.holdings + H) := by ac_rfl
  rw [swap] at hw owed
  obtain ⟨positive, balance⟩ := owners_callable hc hw owed
  have rest : tally Holding.debts (w.holdings + H) = 0 := by
    rw [tally_add Holding.debts {_}] at owed
    exact (add_eq_zero.mp owed).2
  have held : capturedHoldings (w.callables.insert id { c with owners := c.owners - 1 })
      = capturedHoldings w.callables := capturedHoldings_replace hc rfl
  have tidy := tidy_callable hw
  have same : ({ w with
      callables := w.callables.insert id { c with owners := c.owners - 1 } } : World).holdings
        = w.holdings := by
    rw [holdings, held, holdings]
  change Books μ (0 + H) { w with
    callables := w.callables.insert id { c with owners := c.owners - 1 } }
  rw [Books, same, zero_add]
  refine ⟨{ hw with
    tidy := tidy
    near := fun h hh => hw.near h (Multiset.mem_add.mpr (Or.inr hh))
    worth := ?_
    payable := by simp [rest]
    fresh := ?_ }, rest⟩
  · rw [rest, add_zero, owned, ownersOf_replace]
    exact balance
  · intro f hf
    change f ∈ keys (w.callables.insert id _) at hf
    obtain ⟨d, hd⟩ := mem_keys.mp hf
    by_cases here : f = id
    · subst here
      exact hw.fresh f (mem_keys.mpr ⟨c, hc⟩)
    · rw [getElem?_insert_of_ne here] at hd
      exact hw.fresh f (mem_keys.mpr ⟨d, hd⟩)

/-- A callable goes with its last owner. -/
theorem keepsAt_eraseCallable {id : CallableId} {c : Callable} (hc : w.callables[id]? = some c)
    (last : ¬ 1 < c.owners) :
    KeepsAt Books w {.callable id} (modify fun w => { w with
        callables := w.callables.erase id } : Act Unit) fun _ => slotHoldings c.captured := by
  rintro μ H ⟨hw, owed⟩
  have swap : w.holdings + ({.callable id} + H) = {.callable id} + (w.holdings + H) := by ac_rfl
  rw [swap] at hw owed
  obtain ⟨positive, balance⟩ := owners_callable hc hw owed
  have rest : tally Holding.debts (w.holdings + H) = 0 := by
    rw [tally_add Holding.debts {_}] at owed
    exact (add_eq_zero.mp owed).2
  have tidy := tidy_callable hw
  have same : ({ w with callables := w.callables.erase id } : World).holdings
      + (slotHoldings c.captured + H) = w.holdings + H := by
    rw [holdings, holdings, capturedHoldings_erase hc]
    ac_rfl
  change Books μ (slotHoldings c.captured + H) { w with callables := w.callables.erase id }
  rw [Books, same]
  refine ⟨{ hw with
    tidy := tidy
    near := fun h hh => hw.near h (Multiset.mem_add.mpr (Or.inr hh))
    worth := ?_
    payable := by simp [rest]
    fresh := fun f hf => hw.fresh f (keys_of_erase hf) }, rest⟩
  rw [rest, add_zero, owned]
  rw [show c.owners - 1 = 0 by omega, Multiset.replicate_zero, zero_add] at balance
  exact balance

/-- An owner less: the callable goes when it was the last one, and what it captured is let go
of. -/
theorem keeps_chore_callable (id : CallableId) :
    Keeps Books {.callable id} (chore (.callable id)) choreHoldings := by
  intro w μ H hw
  have swap : w.holdings + ({.callable id} + H) = {.callable id} + (w.holdings + H) := by ac_rfl
  have books := hw
  rw [Books, swap] at books
  obtain ⟨c, hc⟩ := mem_owned (books.1.owned_callable books.2)
  refine KeepsAt.get_bind (s := w) ?_ μ H hw
  simp only [hc]
  split
  · exact (keepsAt_disown hc).bind (KeepsAt.pure _ rfl)
  · rename_i last
    have gone : ∀ w : World, w.callables[id]? = some c → KeepsAt Books w {.callable id} (do
        modify fun w => { w with callables := w.callables.erase id }
        return c.captured.toList.map fun e => .value e.2.value : Act (List Chore))
        choreHoldings := by
      intro w hc
      refine (keepsAt_eraseCallable hc last).bind (KeepsAt.pure _ ?_)
      rw [← valueHoldings_slots, ← choreHoldings_values, List.map_map]
      rfl
    split
    · exact ((keeps_report _).aside _ w).bind (gone _ hc)
    · exact gone w hc

theorem keeps_chore (c : Chore) : Keeps Books c.holdings (chore c) choreHoldings := by
  cases c with
  | value v =>
    cases v with
    | reference r | function r => exact keeps_chore_ref r
    | callable id => exact Keeps.pure _ (by simp [Chore.holdings, Value.holdings])
    | _ => exact Keeps.pure _ rfl
  | cell id cell => exact keeps_chore_cell id cell
  | callable id => exact keeps_chore_callable id
  | settle id weight => exact keeps_chore_settle id weight

/-! ## All that it sets free -/

/-- How many turns something takes, without what it may set free of what callables captured. -/
def Chore.cost : Chore → Nat
  | .value _ => 4
  | .cell _ _ => 3
  | .callable _ => 1
  | .settle _ _ => 1

def costs (cs : List Chore) : Nat := (cs.map Chore.cost).sum

/-- How many turns there may be for what callables captured. -/
def potential (w : World) : Nat :=
  4 * ((entries w.callables).map fun e => e.2.captured.size).sum

theorem onSession_callables {α : Type} [Inhabited α] {id : SessionId} {op : Op α} :
    ((onSession id op).run w).2.callables = w.callables := by
  cases h : w.sessions[id]? with
  | none => rw [onSession_run_none h]
  | some s =>
    rw [onSession_run_some h]
    rfl

theorem costs_captured (t : Slots) :
    costs (t.toList.map fun e => .value e.2.value) = 4 * t.size := by
  rw [costs, List.map_map, ← Std.TreeMap.length_toList]
  induction t.toList with
  | nil => rfl
  | cons e rest ih =>
    rw [List.map_cons, List.sum_cons, ih, List.length_cons]
    simp only [Function.comp_apply, Chore.cost]
    omega

/-- A session has as many turns as its callables say, whatever is done to it. -/
theorem potential_onSession {α : Type} [Inhabited α] (id : SessionId) (op : Op α) :
    potential ((onSession id op).run w).2 = potential w := by
  rw [potential, onSession_callables, potential]

theorem potential_erase {id : CallableId} {c : Callable} (hc : w.callables[id]? = some c) :
    potential w = 4 * c.captured.size
      + 4 * ((entries (w.callables.erase id)).map fun e => e.2.captured.size).sum := by
  rw [potential, entries_erase hc, Multiset.map_cons, Multiset.sum_cons, Nat.mul_add]

theorem chore_callable_run {id : CallableId} {c : Callable} (hc : w.callables[id]? = some c) :
    (∃ v : World, v.callables = w.callables.insert id { c with owners := c.owners - 1 }
        ∧ (chore (.callable id)).run w = ([], v))
      ∨ ∃ v : World, v.callables = w.callables.erase id
        ∧ (chore (.callable id)).run w = (c.captured.toList.map fun e => .value e.2.value, v) := by
  have run : (chore (.callable id)).run w = (if 1 < c.owners then
      (do
        modify fun w => { w with
          callables := w.callables.insert id { c with owners := c.owners - 1 } }
        return [] : Act (List Chore))
    else do
      if c.code.watched then report (.dropped c.code.name)
      modify fun w => { w with callables := w.callables.erase id }
      return c.captured.toList.map fun e => .value e.2.value).run w := by
    rw [chore, stateM_get_bind, hc]
  rw [run]
  split
  · exact Or.inl ⟨_, rfl, rfl⟩
  · cases c.code.watched <;> exact Or.inr ⟨_, rfl, rfl⟩

/-- A turn leaves less to be done. -/
theorem chore_cost (c : Chore) (w : World) :
    costs ((chore c).run w).1 + potential ((chore c).run w).2 + 1 ≤ c.cost + potential w := by
  cases c with
  | value v =>
    cases v with
    | reference r | function r =>
      change 3 + potential w + 1 ≤ 4 + potential w
      omega
    | callable id =>
      change 1 + potential w + 1 ≤ 4 + potential w
      omega
    | _ =>
      change 0 + potential w + 1 ≤ 4 + potential w
      omega
  | cell id cell =>
    have left : costs ((chore (.cell id cell)).run w).1 ≤ 2 := by
      change costs (((onSession id (Session.withdraw cell)).run w).1.2.toList.map Chore.callable
        ++ [.settle id ((onSession id (Session.withdraw cell)).run w).1.1]) ≤ 2
      cases ((onSession id (Session.withdraw cell)).run w).1.2 <;> simp [costs, Chore.cost]
    have same : potential ((chore (.cell id cell)).run w).2 = potential w :=
      potential_onSession id (Session.withdraw cell)
    rw [same, Chore.cost]
    omega
  | settle id weight =>
    have same : potential ((chore (.settle id weight)).run w).2 = potential w :=
      potential_onSession id (Session.settle weight)
    rw [same]
    change 0 + potential w + 1 ≤ 1 + potential w
    omega
  | callable id =>
    cases hc : w.callables[id]? with
    | none =>
      have run : (chore (.callable id)).run w = ([], w) := by
        rw [chore, stateM_get_bind, hc]
        rfl
      rw [run]
      change 0 + potential w + 1 ≤ 1 + potential w
      omega
    | some c =>
      have before := potential_erase hc
      obtain ⟨v, hv, run⟩ | ⟨v, hv, run⟩ := chore_callable_run hc
      · have same : potential v = potential w := by
          rw [before, potential, hv, entries_replace, Multiset.map_cons, Multiset.sum_cons,
            Nat.mul_add]
        rw [run, same]
        change 0 + potential w + 1 ≤ 1 + potential w
        omega
      · have less : potential v
            = 4 * ((entries (w.callables.erase id)).map fun e => e.2.captured.size).sum := by
          rw [potential, hv]
        rw [run, costs_captured, less, before, Chore.cost]
        omega

/-- Things that are let go of one after the other, with all they set free, are held no more. -/
theorem keepsAt_chores (fuel : Nat) (cs : List Chore) (enough : costs cs + potential w ≤ fuel) :
    KeepsAt Books w (choreHoldings cs) (chores fuel cs) fun _ => 0 := by
  induction fuel generalizing cs w with
  | zero =>
    cases cs with
    | nil => exact KeepsAt.pure _ rfl
    | cons c cs =>
      have positive : 0 < c.cost := by cases c <;> simp [Chore.cost]
      rw [costs, List.map_cons, List.sum_cons] at enough
      omega
  | succ fuel ih =>
    cases cs with
    | nil => exact KeepsAt.pure _ rfl
    | cons c cs =>
      rw [chores, choreHoldings_cons]
      refine (((keeps_chore c) w).frame (choreHoldings cs)).bind ?_
      rw [← choreHoldings_append]
      refine ih _ ?_
      have less := chore_cost c w
      rw [costs, List.map_cons, List.sum_cons] at enough
      rw [costs, List.map_append, List.sum_append]
      unfold costs at less
      omega

theorem costs_le (cs : List Chore) : costs cs ≤ 4 * cs.length := by
  induction cs with
  | nil => exact Nat.le_refl _
  | cons c cs ih =>
    have bound : c.cost ≤ 4 := by cases c <;> simp [Chore.cost]
    rw [costs, List.map_cons, List.sum_cons, List.length_cons]
    unfold costs at ih
    omega

/-- Things that are let go of are held no more. -/
theorem keeps_release (cs : List Chore) :
    Keeps Books (choreHoldings cs) (release cs) fun _ => 0 := by
  intro w
  rw [release]
  cases cs with
  | nil => exact KeepsAt.pure _ rfl
  | cons c cs =>
    refine KeepsAt.get_bind (keepsAt_chores _ _ ?_)
    have bound := costs_le (c :: cs)
    have same : potential w = 4 * ((w.callables.toList.map fun e => e.2.captured.size).sum) := by
      rw [potential, entries, Multiset.map_coe, Multiset.sum_coe]
    rw [choreBound, same]
    omega

/-! ## What it does not touch -/

section

variable {I : World → Prop}

/-- What is so of a world however the books of its sessions change, whatever is reported, and
whatever callables go away, is so after things are let go of. -/
theorem preserves_release (withdraws : ∀ id cell, Preserves I (onSession id (Session.withdraw cell)))
    (settles : ∀ id weight, Preserves I (onSession id (Session.settle weight)))
    (reports : ∀ what, Preserves I (report what))
    (drops : ∀ (w : World) (t : Std.TreeMap CallableId Callable),
      (∀ f : CallableId, w.callables[f]? = none → t[f]? = none) → I w →
      I { w with callables := t })
    (cs : List Chore) : Preserves I (release cs) := by
  have one : ∀ c, Preserves I (chore c) := by
    intro c
    cases c with
    | value v => cases v <;> exact .pure _
    | cell id cell => exact (withdraws id cell).bind fun _ => .pure _
    | settle id weight => exact (settles id weight).bind fun _ => .pure _
    | callable f =>
      refine .get_bind fun w h => ?_
      cases hc : w.callables[f]? with
      | none => exact h
      | some c =>
        dsimp only
        split
        · refine drops w _ (fun g hg => ?_) h
          have ne : g ≠ f := by
            rintro rfl
            cases hg.symm.trans hc
          rwa [getElem?_insert_of_ne ne]
        · have erased : ∀ w : World, I w → I { w with callables := w.callables.erase f } :=
            fun w h => drops w _ (fun g hg => by
              by_cases here : g = f
              · rw [here]
                exact getElem?_erase_self _ _
              · rwa [getElem?_erase_of_ne here]) h
          cases c.code.watched
          · exact erased w h
          · exact erased _ (reports _ w h)
  have all : ∀ fuel cs, Preserves I (chores fuel cs) := by
    intro fuel
    induction fuel with
    | zero => exact fun _ => .pure _
    | succ fuel ih =>
      intro cs
      cases cs with
      | nil => exact .pure _
      | cons c cs => exact (one c).bind fun _ => ih _
  unfold release
  split
  · exact .pure _
  · exact .get_bind fun w h => all _ _ w h

/-- Whether the runtime of a session is there does not change with its books. -/
theorem closed_onSession {i : SessionId} {α : Type} [Inhabited α] {op : Op α}
    (same : ∀ s, (op.run s).2.isOpen = s.isOpen) (id : SessionId) :
    Preserves (fun w => ¬ IsOpen w.sessions i) (onSession id op) := by
  intro w closed
  cases hs : w.sessions[id]? with
  | none => rwa [onSession_run_none hs]
  | some s =>
    rw [onSession_run_some hs, isOpen_withSession, same]
    rintro (⟨rfl, isOpen⟩ | ⟨-, isOpen⟩)
    · exact closed ⟨s, hs, isOpen⟩
    · exact closed isOpen

/-- A session that is closed is closed after things are let go of. -/
theorem closed_release {i : SessionId} (cs : List Chore) :
    Preserves (fun w => ¬ IsOpen w.sessions i) (release cs) := by
  refine preserves_release (fun _ cell => closed_onSession (fun s => ?_) _)
    (fun _ _ => closed_onSession (fun _ => rfl) _) (fun _ _ closed => closed)
    (fun _ _ _ closed => closed) cs
  cases hc : s.cell? cell with
  | none => rw [Session.withdraw_run_of_none hc]
  | some c => rw [Session.withdraw_run hc]; rfl

end

/-! ## Values, slots and transfers -/

theorem valueHoldings_filter (vs : List Value) :
    valueHoldings (vs.filter fun v => !isInert v) = valueHoldings vs := by
  induction vs with
  | nil => rfl
  | cons v vs ih =>
    cases v with
    | reference r | function r | callable id =>
      rw [List.filter_cons_of_pos (by simp [isInert]), valueHoldings_cons, ih, valueHoldings_cons]
    | _ =>
      rw [List.filter_cons_of_neg (by simp [isInert]), ih, valueHoldings_cons]
      exact (zero_add _).symm

/-- Values that are dropped are held no more. -/
theorem keeps_dropValues (vs : List Value) :
    Keeps Books (valueHoldings vs) (dropValues vs) fun _ => 0 := by
  refine (keeps_release _).congr ?_ fun _ => rfl
  rw [choreHoldings_values, valueHoldings_filter]

theorem keeps_dropValue (v : Value) : Keeps Books v.holdings (dropValue v) fun _ => 0 :=
  (keeps_dropValues [v]).congr (by simp) fun _ => rfl

theorem keeps_dropSlots (t : Slots) : Keeps Books (slotHoldings t) (dropSlots t) fun _ => 0 :=
  (keeps_dropValues _).congr (valueHoldings_slots t).symm fun _ => rfl

/-- The owners of callables are let go of. -/
theorem keeps_releaseCallables (fs : List CallableId) :
    Keeps Books (owners fs) (release (fs.map .callable)) fun _ => 0 :=
  (keeps_release _).congr (choreHoldings_callables fs).symm fun _ => rfl

/-- Only the cells of some holdings count from now on. -/
theorem Balanced.plainAll {K : Multiset Holding} (hw : w.Balanced μ (K + R))
    (clear : tally Holding.debts (K + R) = 0) : w.Balanced μ (K.map Holding.plain + R) := by
  induction K using Multiset.induction_on generalizing R with
  | empty => simpa using hw
  | cons h K ih =>
    have swap : h ::ₘ K + R = {h} + (K + R) := by
      rw [← Multiset.singleton_add]
      ac_rfl
    rw [swap] at hw clear
    have debts : tally Holding.debts (K + ({h.plain} + R)) = 0 := by
      simp only [tally_add, tally_singleton, Holding.debts_plain] at clear ⊢
      rw [← clear]
      ac_rfl
    have plain := hw.plain clear
    rw [add_left_comm] at plain
    have rest := ih plain debts
    rw [Multiset.map_cons, ← Multiset.singleton_add, add_assoc, add_left_comm]
    exact rest

theorem plain_outHoldings {id : SessionId} {outs : List Session.Outbound} {vs : List Value}
    (h : outs.length = vs.length) :
    (outHoldings id outs vs).map Holding.plain
      = choreHoldings (outs.filterMap fun o => o.owned?.map (.cell id)) := by
  induction outs generalizing vs with
  | nil => simp
  | cons out outs ih =>
    cases vs with
    | nil => simp at h
    | cons v vs =>
      have rest := @ih vs (by simpa using h)
      cases out <;>
        simp [outHolding, rest, Session.Outbound.owned?, Chore.holdings, Holding.plain]

/-- What is held of the cells of a transfer can be held of them as plain cells. -/
theorem Books.plain_outbound {id : SessionId} {outs : List Session.Outbound} {vs : List Value}
    (hw : Books μ (outHoldings id outs vs + H) w) (h : outs.length = vs.length) :
    Books μ (choreHoldings (outs.filterMap fun o => o.owned?.map (.cell id)) + H) w := by
  have swap : ∀ K : Multiset Holding, w.holdings + (K + H) = K + (w.holdings + H) :=
    fun K => by ac_rfl
  rw [Books, swap] at hw
  have plain := hw.1.plainAll hw.2
  rw [plain_outHoldings h] at plain
  rw [Books, swap]
  refine ⟨plain, ?_⟩
  have clear := hw.2
  rw [tally_add] at clear ⊢
  rw [(add_eq_zero.mp clear).2, add_zero, ← plain_outHoldings h, tally, Multiset.map_map]
  simp only [Function.comp_def, Holding.debts_plain]
  exact (add_eq_zero.mp clear).1

/-- The cells that a transfer owns are released. -/
theorem keeps_releaseOutbound {id : SessionId} {outs : List Session.Outbound} {vs : List Value}
    (h : List.Forall₂ (Session.Carries id) outs vs) :
    Keeps Books (outHoldings id outs vs) (releaseOutbound id outs) fun _ => 0 :=
  fun w μ H hw => keeps_release _ w μ H (hw.plain_outbound h.length_eq)

/-! ## Owners that were not counted -/

theorem packDebts_callables (vs : List Value) :
    Session.packDebts vs
      = ((callablesOf vs).map Holding.unpaid : List Holding) := by
  induction vs with
  | nil => rfl
  | cons v vs ih =>
    rw [Session.packDebts_cons, ih]
    cases v <;> simp [Session.packDebt, callablesOf]

/-- Owners that were not counted are counted. -/
theorem pays_retainAll (fs : List CallableId)
    (hw : w.Balanced μ (((fs.map Holding.unpaid : List Holding) : Multiset Holding) + R)) :
    Balanced μ R ((retainAll fs).run w).2
      ∧ ((retainAll fs).run w).2.holdings = w.holdings := by
  induction fs generalizing w with
  | nil =>
    rw [List.map_nil, Multiset.coe_nil, zero_add] at hw
    exact ⟨hw, rfl⟩
  | cons f fs ih =>
    rw [List.map_cons, ← Multiset.cons_coe, ← Multiset.singleton_add, add_assoc] at hw
    obtain ⟨paid, held⟩ := hw.retain
    obtain ⟨rest, same⟩ := ih paid
    exact ⟨rest, same.trans held⟩

end ScriptBridge.Host.World
