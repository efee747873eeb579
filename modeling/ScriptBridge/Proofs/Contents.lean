import ScriptBridge.Proofs.Running

/-!
# ScriptBridge.Proofs.Contents

The values of a world, and what a world holds beside them.

Main facts:

* `World.holdings_eq` — what a world holds belongs to its values, or is apart from them;
* `World.tally_refs` — the references that are held are those among the values;
* `World.tally_load` — the cells that are held for transfers are those of the values on their way;
* `World.resting` — between two turns nothing is just being released.
-/

namespace ScriptBridge

open scoped CoreInstances

/-- How many allocations a value is when it is on its way to a runtime. -/
def Value.allocations : Value → Nat
  | .nil | .reference _ | .function _ => 0
  | .string _ => 2
  | .number _ | .boolean _ | .callable _ => 1

namespace Host

/-! ## The values that a world holds -/

/-- The values in slots. -/
def slotValues (t : Slots) : Multiset Value := (entries t).map fun e => e.2.value

/-- The values that callables captured. -/
def capturedValues (t : Std.TreeMap CallableId Callable) : Multiset Value :=
  ((entries t).map fun e => slotValues e.2.captured).sum

/-- The values that a call step in progress holds. -/
def Calling.values (c : Calling) : List Value := c.replaced.toList ++ c.args.map (·.1)

/-- The values that something in progress holds. -/
def Activity.values : Activity → Multiset Value
  | .program frame _ => frame.elim 0 fun f => slotValues f.slots
  | .step _ (.calling _ _ _ c) => c.values
  | .step _ (.callingHost c) => c.values
  | .step _ _ => 0
  | .delivering _ (.call _ _ _ c) => c.values
  | .delivering _ (.assign _ _ v) => {v}
  | .delivering _ (.results _ vs) => vs
  | .serving .. | .sweeping _ | .teardown => 0

/-- The values that are on their way to the runtime of a session: the arguments of a call, the
value of an assignment, or the results of a host callable. -/
def Activity.inTransit (id : SessionId) : Activity → List Value
  | .step _ (.calling session _ _ c) => if session = id then c.args.map (·.1) else []
  | .delivering d errand => if d.session = id then errand.values else []
  | _ => []

namespace World

/-- All values there are: in slots, captured by callables, and with what is in progress. -/
def values (w : World) : Multiset Value :=
  slotValues w.slots + capturedValues w.callables + (w.activities.map Activity.values).sum

/-- The references of a session that are alive. -/
def liveRefs (w : World) (id : SessionId) : Multiset Ref :=
  (w.values.filterMap Value.ref?).filter fun r => r.session = id

/-- The values on their way to the runtime of a session. -/
def inTransit (w : World) (id : SessionId) : List Value :=
  w.activities.flatMap (Activity.inTransit id)

end World

/-! ## What they hold -/

theorem sum_slotValues (t : Slots) :
    ((slotValues t).map Value.holdings).sum = slotHoldings t := by
  rw [slotValues, slotHoldings, Multiset.map_map]
  rfl

theorem sum_capturedValues (t : Std.TreeMap CallableId Callable) :
    ((capturedValues t).map Value.holdings).sum = capturedHoldings t := by
  rw [capturedValues, capturedHoldings]
  induction entries t using Multiset.induction_on with
  | empty => rfl
  | cons e es ih =>
    rw [Multiset.map_cons, Multiset.sum_cons, Multiset.map_add, Multiset.sum_add, sum_slotValues,
      ih, Multiset.map_cons, Multiset.sum_cons]

theorem sum_values (vs : List Value) :
    ((vs : Multiset Value).map Value.holdings).sum = valueHoldings vs := by
  rw [valueHoldings, Multiset.map_coe, Multiset.sum_coe]

theorem sum_calling (c : Calling) :
    ((c.values : Multiset Value).map Value.holdings).sum = c.holdings := by
  rw [sum_values, Calling.values, valueHoldings_append, Calling.holdings]

/-- What an errand in a session holds apart from its values. -/
def Errand.aside (id : SessionId) : Errand → Multiset Holding
  | .results previous _ => {.entered id previous}
  | _ => 0

/-- What something in progress holds apart from its values: the cells of its transfers, the pin
of a host function that is made next, and what a call from a runtime is to come back to. -/
def Activity.aside : Activity → Multiset Holding
  | .step _ (.calling id _ outs c) => outHoldings id outs (c.args.map (·.1))
  | .delivering d errand =>
    (d.pin.elim 0 fun pin => {.pin d.session pin (d.next? errand)})
      + outHoldings d.session d.outbound errand.values + errand.aside d.session
  | .serving id previous callable => {.entered id previous} + {.callable callable}
  | _ => 0

theorem Activity.holdings_eq (a : Activity) :
    a.holdings = (a.values.map Value.holdings).sum + a.aside := by
  cases a with
  | program frame rest =>
    cases frame with
    | none => rfl
    | some f => exact (sum_slotValues f.slots).symm.trans (add_zero _).symm
  | step s waiting =>
    cases waiting with
    | calling id base outs c =>
      rw [values, sum_calling, aside, add_comm]
      rfl
    | callingHost c => exact (sum_calling c).symm.trans (add_zero _).symm
    | _ => rfl
  | delivering d errand =>
    have mine : errand.holdings d.session
        = ((delivering d errand).values.map Value.holdings).sum + errand.aside d.session := by
      cases errand with
      | call s base f c => exact (sum_calling c).symm.trans (add_zero _).symm
      | assign s base v => simp [values, Errand.aside, Errand.holdings]
      | results previous vs => exact (add_comm _ _).trans (congrArg (· + _) (sum_values vs).symm)
    rw [holdings, Delivery.holdings, mine, aside]
    ac_rfl
  | serving | sweeping | teardown => exact (zero_add _).symm

namespace World

/-- What a world holds apart from values. -/
def aside (w : World) : Multiset Holding :=
  definedHoldings w.defined + (w.activities.map Activity.aside).sum

/-- A world holds what its values hold, and something apart from them. -/
theorem holdings_eq (w : World) : w.holdings = (w.values.map Value.holdings).sum + w.aside := by
  have progress : activityHoldings w.activities
      = ((w.activities.map Activity.values).sum.map Value.holdings).sum
        + (w.activities.map Activity.aside).sum := by
    induction w.activities with
    | nil => rfl
    | cons a as ih =>
      simp only [activityHoldings_cons, ih, a.holdings_eq, List.map_cons, List.sum_cons,
        Multiset.map_add, Multiset.sum_add]
      ac_rfl
  rw [holdings, values, aside, progress, Multiset.map_add, Multiset.map_add, Multiset.sum_add,
    Multiset.sum_add, sum_slotValues, sum_capturedValues]
  ac_rfl

end World

end Host

/-! ## References and transfers -/

namespace Holding

/-- The reference that is held. -/
def refs : Holding → Multiset Ref
  | .ref r => {r}
  | _ => 0

/-- The allocations of a value on its way to the runtime of a session. -/
def load (id : SessionId) : Holding → Nat
  | .out s _ v => if s = id then v.allocations else 0
  | _ => 0

/-- The allocations that a holding stands for. -/
def mass (id : SessionId) (h : Holding) : Nat :=
  (h.refs.filter fun r => r.session = id).card + h.load id

end Holding

theorem tally_mass (id : SessionId) (H : Multiset Holding) :
    tally (Holding.mass id) H
      = ((tally Holding.refs H).filter fun r => r.session = id).card
        + tally (Holding.load id) H := by
  induction H using Multiset.induction_on with
  | empty => rfl
  | cons h H ih =>
    rw [tally_cons, tally_cons, tally_cons, ih, Multiset.filter_add, Multiset.card_add,
      Holding.mass]
    omega

namespace Host

variable {id : SessionId}

/-- Values hold their references. -/
theorem refs_values (vs : Multiset Value) :
    tally Holding.refs (vs.map Value.holdings).sum = vs.filterMap Value.ref? := by
  induction vs using Multiset.induction_on with
  | empty => rfl
  | cons v vs ih =>
    rw [Multiset.map_cons, Multiset.sum_cons, tally_add, ih]
    cases v with
    | reference r | function r =>
      rw [Multiset.filterMap_cons_some Value.ref? _ _ rfl]
      exact congrArg (· + _) (tally_singleton _ _)
    | callable f =>
      rw [Multiset.filterMap_cons_none _ _ rfl]
      exact (congrArg (· + _) (tally_singleton _ _)).trans (zero_add _)
    | _ =>
      rw [Multiset.filterMap_cons_none _ _ rfl]
      exact zero_add _

/-- Values are not on their way as long as they are only held. -/
theorem load_values (vs : Multiset Value) :
    tally (Holding.load id) (vs.map Value.holdings).sum = 0 := by
  induction vs using Multiset.induction_on with
  | empty => rfl
  | cons v vs ih =>
    rw [Multiset.map_cons, Multiset.sum_cons, tally_add, ih]
    cases v <;> rfl

/-- Of a transfer, the cells that were made for its values count. -/
theorem load_outHoldings {session : SessionId} {outs : List Session.Outbound} {vs : List Value}
    (h : List.Forall₂ (Session.Carries session) outs vs) :
    tally (Holding.load id) (outHoldings session outs vs)
      = ((if session = id then vs else []).map Value.allocations).sum := by
  induction h with
  | nil => simp
  | @cons out v outs vs head rest ih =>
    rw [outHoldings_cons, tally_add, ih]
    by_cases same : session = id
    · simp only [same, if_true, List.map_cons, List.sum_cons]
      congr 1
      cases out <;> cases v <;>
        simp_all [Session.Carries, outHolding, Holding.load, Value.allocations]
    · simp only [same, if_false, List.map_nil, List.sum_nil, add_zero]
      cases out <;> simp [outHolding, Holding.load, same]

/-- Of what something in progress holds apart from its values, what it has on its way counts. -/
theorem load_aside {a : Activity} (fits : a.Fits) :
    tally (Holding.load id) a.aside = ((a.inTransit id).map Value.allocations).sum := by
  cases a with
  | step s waiting =>
    cases waiting with
    | calling session base outs c => exact load_outHoldings fits
    | _ => rfl
  | delivering d errand =>
    have pin : tally (Holding.load id) (d.pin.elim 0 fun pin => {.pin d.session pin (d.next? errand)}) = 0 := by
      cases d.pin <;> simp [Holding.load]
    have entry : tally (Holding.load id) (errand.aside d.session) = 0 := by
      cases errand <;> simp [Errand.aside, Holding.load]
    rw [Activity.aside, tally_add, tally_add, pin, entry, zero_add, add_zero,
      load_outHoldings fits.1, Activity.inTransit]
  | serving session previous f => simp [Activity.aside, Activity.inTransit, Holding.load]
  | _ => rfl

/-! ## Holdings that rest -/

/-- Whether a holding may be there between two turns: no cell is on its way from a runtime, none
is just being released, and no anchor is without a cell. -/
def Resting : Holding → Prop
  | .inbound .. | .cell .. | .due .. | .slot .. => False
  | _ => True

theorem resting_values {vs : Multiset Value} {h : Holding}
    (hh : h ∈ (vs.map Value.holdings).sum) : Resting h := by
  obtain ⟨v, -, hh⟩ := Multiset.mem_bind.mp hh
  cases v <;> simp_all [Value.holdings, Resting]

/-- What is held apart from values is not just being released, and is no reference. -/
theorem resting_aside {a : Activity} {h : Holding} (hh : h ∈ a.aside) :
    Resting h ∧ h.refs = 0 := by
  have sent : ∀ {id : SessionId} {outs : List Session.Outbound} {vs : List Value},
      h ∈ outHoldings id outs vs → Resting h ∧ h.refs = 0 := by
    intro id outs vs hh
    obtain ⟨cell, v, rfl⟩ := World.mem_outHoldings hh
    exact ⟨trivial, rfl⟩
  cases a with
  | step s waiting =>
    cases waiting with
    | calling session base outs c => exact sent hh
    | _ => simp [Activity.aside] at hh
  | delivering d errand =>
    obtain hh | hh := Multiset.mem_add.mp hh
    · obtain hh | hh := Multiset.mem_add.mp hh
      · cases hp : d.pin with
        | none => simp [hp] at hh
        | some pin =>
          obtain rfl : h = .pin d.session pin _ := by simpa [hp] using hh
          exact ⟨trivial, rfl⟩
      · exact sent hh
    · cases errand with
      | results previous vs =>
        rw [Multiset.mem_singleton.mp hh]
        exact ⟨trivial, rfl⟩
      | _ => simp [Errand.aside] at hh
  | serving session previous f =>
    obtain hh | hh := Multiset.mem_add.mp hh
    · rw [Multiset.mem_singleton.mp hh]
      exact ⟨trivial, rfl⟩
    · rw [Multiset.mem_singleton.mp hh]
      exact ⟨trivial, rfl⟩
  | _ => simp [Activity.aside] at hh

namespace World

variable {w : World}

theorem resting_world_aside {h : Holding} (hh : h ∈ w.aside) : Resting h ∧ h.refs = 0 := by
  rw [aside, Multiset.mem_add] at hh
  obtain hh | hh := hh
  · obtain ⟨e, -, rfl⟩ := Multiset.mem_map.mp hh
    exact ⟨trivial, rfl⟩
  · generalize w.activities = as at hh
    induction as with
    | nil => simp at hh
    | cons a as ih =>
      rw [List.map_cons, List.sum_cons, Multiset.mem_add] at hh
      exact hh.elim resting_aside ih

/-- Nothing that a world holds is just being released. -/
theorem resting {h : Holding} (hh : h ∈ w.holdings) : Resting h := by
  rw [holdings_eq, Multiset.mem_add] at hh
  exact hh.elim resting_values fun hh => (resting_world_aside hh).1

/-- The references that a world holds are those among its values. -/
theorem tally_refs (w : World) : tally Holding.refs w.holdings = w.values.filterMap Value.ref? := by
  have none : tally Holding.refs w.aside = 0 := by
    refine Multiset.sum_eq_zero fun R hR => ?_
    obtain ⟨h, hh, rfl⟩ := Multiset.mem_map.mp hR
    exact (resting_world_aside hh).2
  rw [holdings_eq, tally_add, refs_values, none, add_zero]

/-- What a world has on its way to the runtime of a session. -/
theorem tally_load (fits : ∀ a ∈ w.activities, a.Fits) :
    tally (Holding.load id) w.holdings = ((w.inTransit id).map Value.allocations).sum := by
  have defined : tally (Holding.load id) (definedHoldings w.defined) = 0 := by
    refine Multiset.sum_eq_zero fun n hn => ?_
    rw [definedHoldings, Multiset.map_map] at hn
    obtain ⟨e, -, rfl⟩ := Multiset.mem_map.mp hn
    rfl
  have progress : tally (Holding.load id) (w.activities.map Activity.aside).sum
      = ((w.activities.flatMap (Activity.inTransit id)).map Value.allocations).sum := by
    generalize w.activities = as at fits
    induction as with
    | nil => rfl
    | cons a as ih =>
      rw [List.forall_mem_cons] at fits
      rw [List.map_cons, List.sum_cons, tally_add, load_aside fits.1, ih fits.2,
        List.flatMap_cons, List.map_append, List.sum_append]
  rw [holdings_eq, tally_add, load_values, aside, tally_add, defined, progress, zero_add, zero_add,
    inTransit]

end World

end Host

end ScriptBridge
