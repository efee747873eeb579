import ScriptBridge.Proofs.Dispatching
import ScriptBridge.Proofs.PinOwners

/-!
# ScriptBridge.Proofs.Lifetimes

How long host callables live.  A callable is there exactly as long as something owns it: a value of the
host, a name that it is defined under, a pin of any session, or a call of it from a script in progress.
It is gone from the moment on at which the last of these is let go of, and what it captured is let go
of next.  So a callable may lose all its pins while it runs: the call in progress owns it, and its
results are made from what they were to be made from when it was created.

Main facts:

* `World.Books.owners` — how many owners a callable has, also while host code is at work;
* `World.Books.lets_go` — the last owner that is let go of takes the callable with it;
* `World.ages_run` — births and deaths of callables between any two points of a run;
* `lifetimes_run` — all this in any run.
-/

namespace ScriptBridge

open scoped CoreInstances

/-- The callable that a value is. -/
def Value.callable? : Value → Option CallableId
  | .callable f => some f
  | _ => none

namespace Host

/-- The callable that a script has called, as long as its body is in progress. -/
def Activity.served? : Activity → Option CallableId
  | .serving _ _ f => some f
  | _ => none

namespace World

variable {w : World} {μ : SessionId → Session.Memory} {H : Multiset Holding} {f : CallableId}

/-- The owners of callables in the host: values, names that callables are defined under, and calls
from scripts in progress. -/
def claimed (w : World) : Multiset CallableId :=
  w.values.filterMap Value.callable? + (entries w.defined).map (·.2)
    + (w.activities.filterMap Activity.served? : List CallableId)

/-! ## Owners -/

/-- Values own their callables. -/
theorem callables_values (vs : Multiset Value) :
    tally Holding.callables (vs.map Value.holdings).sum = vs.filterMap Value.callable? := by
  induction vs using Multiset.induction_on with
  | empty => rfl
  | cons v vs ih =>
    rw [Multiset.map_cons, Multiset.sum_cons, tally_add, ih]
    cases v with
    | callable f =>
      rw [Multiset.filterMap_cons_some Value.callable? _ _ rfl]
      exact congrArg (· + _) (tally_singleton _ _)
    | reference r | function r =>
      rw [Multiset.filterMap_cons_none _ _ rfl]
      exact (congrArg (· + _) (tally_singleton _ _)).trans (zero_add _)
    | _ =>
      rw [Multiset.filterMap_cons_none _ _ rfl]
      exact zero_add _

/-- Of what something in progress holds apart from its values, a call from a script owns its
callable. -/
theorem callables_aside (a : Activity) :
    tally Holding.callables a.aside = (a.served?.toList : List CallableId) := by
  have sent : ∀ (session : SessionId) (outs : List Session.Outbound) (vs : List Value),
      tally Holding.callables (outHoldings session outs vs) = 0 := by
    intro session outs vs
    refine Multiset.sum_eq_zero fun n hn => ?_
    obtain ⟨h, hh, rfl⟩ := Multiset.mem_map.mp hn
    obtain ⟨cell, v, rfl⟩ := mem_outHoldings hh
    rfl
  cases a with
  | step s waiting =>
    cases waiting with
    | calling session base outs c => exact sent session outs _
    | _ => rfl
  | delivering d errand =>
    have pin : tally Holding.callables
        (d.pin.elim 0 fun pin => {.pin d.session pin (d.next? errand)}) = 0 := by
      cases d.pin <;> simp [Holding.callables]
    have entry : tally Holding.callables (errand.aside d.session) = 0 := by
      cases errand <;> simp [Errand.aside, Holding.callables]
    rw [Activity.aside, tally_add, tally_add, pin, sent, entry]
    rfl
  | serving session previous f => simp [Activity.aside, Activity.served?, Holding.callables]
  | _ => rfl

/-- What a world holds of callables, it holds for values, names and calls in progress. -/
theorem tally_callables (w : World) : tally Holding.callables w.holdings = w.claimed := by
  have defined : tally Holding.callables (definedHoldings w.defined)
      = (entries w.defined).map (·.2) := by
    rw [definedHoldings]
    induction entries w.defined using Multiset.induction_on with
    | empty => rfl
    | cons e es ih =>
      rw [Multiset.map_cons, tally_cons, ih, Multiset.map_cons]
      rfl
  have progress : tally Holding.callables (w.activities.map Activity.aside).sum
      = (w.activities.filterMap Activity.served? : List CallableId) := by
    induction w.activities with
    | nil => rfl
    | cons a as ih =>
      rw [List.map_cons, List.sum_cons, tally_add, callables_aside, ih]
      cases served : a.served? with
      | none =>
        rw [List.filterMap_cons_none served]
        exact zero_add _
      | some g =>
        rw [List.filterMap_cons_some served]
        rfl
  rw [holdings_eq, tally_add, callables_values, aside, tally_add, defined, progress, claimed,
    add_assoc]

/-- The owners of a callable, by its number. -/
theorem count_owned (w : World) (f : CallableId) :
    w.owned.count f = (w.callables[f]?.map Callable.owners).getD 0 := by
  have others : ∀ t : Std.TreeMap CallableId Callable, t[f]? = none → (ownersOf t).count f = 0 := by
    intro t absent
    refine Multiset.count_eq_zero.mpr fun there => ?_
    obtain ⟨⟨g, c⟩, hc, hf⟩ := Multiset.mem_bind.mp there
    obtain rfl := Multiset.eq_of_mem_replicate hf
    cases absent.symm.trans (mem_entries.mp hc)
  cases hc : w.callables[f]? with
  | none => exact others _ hc
  | some c =>
    rw [owned, ownersOf_erase hc, Multiset.count_add, Multiset.count_replicate_self,
      others _ (getElem?_erase_self _ _)]
    rfl

namespace Books

/-- Where the books are right, the owners of a callable are pins, what is in the host, and what host
code at work holds besides. -/
theorem owners (hw : Books μ H w) (f : CallableId) :
    (w.callables[f]?.map Callable.owners).getD 0
      = (w.pinned + w.claimed + tally Holding.callables H).count f := by
  have worth := hw.1.worth
  rw [hw.2, add_zero, tally_add, tally_callables, ← add_assoc] at worth
  rw [worth, count_owned]

/-- A callable is there if, and only if, something owns it. -/
theorem there_iff (hw : Books μ 0 w) (living : w.Living) (f : CallableId) :
    (∃ c, w.callables[f]? = some c) ↔ f ∈ w.pinned + w.claimed := by
  have owners := hw.owners f
  rw [tally_zero, add_zero] at owners
  rw [← Multiset.count_pos, ← owners]
  cases hc : w.callables[f]? with
  | none => simp
  | some c => simpa using living f c hc

/-- One owner of a callable is let go of.  If it has others, nothing else happens; if not, the callable
goes away, which is reported if it is watched, and what it captured is to be let go of next. -/
theorem lets_go (hw : Books μ ({.callable f} + H) w) :
    ∃ c, w.callables[f]? = some c
      ∧ (f ∈ w.pinned + w.claimed + tally Holding.callables H →
        ((chore (.callable f)).run w).1 = []
          ∧ (∃ c', ((chore (.callable f)).run w).2.callables[f]? = some c')
          ∧ ((chore (.callable f)).run w).2.dropped = w.dropped)
      ∧ (f ∉ w.pinned + w.claimed + tally Holding.callables H →
        ((chore (.callable f)).run w).1 = c.captured.toList.map (fun e => .value e.2.value)
          ∧ ((chore (.callable f)).run w).2.callables[f]? = none
          ∧ ((chore (.callable f)).run w).2.dropped
            = (c.code.notice?.toList : List String) + w.dropped) := by
  have owners := hw.owners f
  rw [tally_add, tally_singleton, Holding.callables, add_left_comm, Multiset.count_add,
    Multiset.count_singleton_self] at owners
  cases hc : w.callables[f]? with
  | none =>
    rw [hc, Option.map_none, Option.getD_none] at owners
    omega
  | some c =>
    rw [hc] at owners
    change c.owners = _ at owners
    refine ⟨c, rfl, fun others => ?_, fun last => ?_⟩
    · have more : 1 < c.owners := by
        have := Multiset.count_pos.mpr others
        omega
      rw [chore, stateM_get_bind, hc]
      dsimp only
      rw [if_pos more]
      exact ⟨rfl, ⟨_, Std.TreeMap.getElem?_insert_self⟩, rfl⟩
    · have only : ¬ 1 < c.owners := by
        rw [Multiset.count_eq_zero.mpr last] at owners
        omega
      rw [chore, stateM_get_bind, hc]
      dsimp only
      rw [if_neg only]
      cases watched : c.code.watched
      · have notice : c.code.notice? = none := if_neg (by simp [watched])
        rw [notice]
        exact ⟨rfl, getElem?_erase_self w.callables f, (zero_add _).symm⟩
      · have notice : c.code.notice? = some c.code.name := if_pos watched
        rw [notice]
        exact ⟨rfl, getElem?_erase_self w.callables f, rfl⟩

end Books

/-! ## Births and deaths -/

/-- Births and deaths of callables between two points of a run. -/
theorem ages_run (program : List Step) (whims : List Whim) {m n : Nat} (le : m ≤ n) :
    ((start program whims).run m).Ages ((start program whims).run n) := by
  let w := start program whims
  induction n, le using Nat.le_induction with
  | base => exact .refl _
  | succ n _ ih =>
    refine ih.trans ?_
    obtain ⟨same, -⟩ | next := run_succ n w
    · rw [show (start program whims).run (n + 1) = _ from same]
      exact .refl _
    · -- the world before the turn is what the world after it is compared with
      let π : Past := { past program whims with former := w.run n }
      obtain ⟨Ss, nests, -⟩ := nests_run program whims n
      have since : (w.run n).Nests π (w.run n).control.script? Ss :=
        { nests with routed := { nests.routed with ages := .refl _ } }
      obtain ⟨Ss', nests', -⟩ := turned_advance since (.inl (.inl fun _ _ _ _ => trivial))
        (fun proceeds calm => tells_run rfl (books_run program whims n) since proceeds calm)
        fun _ _ _ _ same => same
      rw [show (start program whims).run (n + 1) = _ from next]
      exact nests'.routed.ages

/-! ## Calls in progress -/

theorem served?_shape (a : Activity) : a.shape.served? = a.served? := by
  cases a with
  | step s waiting => cases waiting <;> rfl
  | delivering d errand => cases errand <;> rfl
  | _ => rfl

/-- Makes the results of a callable from what it was made from. -/
def resultsOf (code : CallableExpr) : Act Ending := do
  match ← (items code.results).run with
  | .ok vs => return .returned (vs.map (·.1))
  | .error mishap => return .failed mishap.toFailure

/-- The results of a body are those of its callable, as long as the callable is there. -/
theorem bodyResults_run {c : Callable} {g : Frame} (hc : w.callables[g.callable]? = some c) :
    (bodyResults g).run w = (resultsOf c.code).run w := by
  rw [bodyResults, stateM_get_bind, hc]
  rfl

end World

/-- A call whose body is in progress owns its callable. -/
theorem Dispatch.Serving.claims {d : Dispatch} {w : World} (h : d.Serving w) :
    d.callable ∈ w.claimed := by
  obtain ⟨steps, above, -, shapes⟩ := h
  have there : .serving d.session d.previous d.callable ∈ w.activities.map Activity.shape := by
    rw [shapes]
    exact List.mem_append_right _ (List.mem_cons_of_mem _ List.mem_cons_self)
  obtain ⟨a, ha, shape⟩ := List.mem_map.mp there
  have served : a.served? = some d.callable := by rw [← World.served?_shape, shape]; rfl
  exact Multiset.mem_add.mpr (.inr (Multiset.mem_coe.mpr (List.mem_filterMap.mpr ⟨a, ha, served⟩)))

/-! ## The books between two turns -/

/-- The books of a session between two turns are about its cells, anchors and pins alone. -/
theorem World.Books.settled {w : World} {μ : SessionId → Session.Memory} {id : SessionId} {s : Session}
    (hw : World.Books μ 0 w) (hs : w.sessions[id]? = some s) :
    s.ledger.outstanding = s.weigh ∧ s.ledger.overdrawn = false
      ∧ (s.isOpen → keys s.anchors.held = s.moorings ∧ s.anchors.Conserved
        ∧ keys s.pins.live = s.cellPins + s.userdataPins + w.pinsUnderway id) := by
  rw [World.Books, add_zero] at hw
  obtain ⟨rfl, tidy⟩ := hw.1.tidy id s hs
  have weight : tally (Holding.weight s.id) w.holdings = 0 := by
    refine Multiset.sum_eq_zero fun n hn => ?_
    obtain ⟨h, hh, rfl⟩ := Multiset.mem_map.mp hn
    have rests := World.resting hh
    cases h <;> first | rfl | exact absurd rests id
  have slots : tally (Holding.slots s.id) w.holdings = 0 := by
    refine Multiset.sum_eq_zero fun n hn => ?_
    obtain ⟨h, hh, rfl⟩ := Multiset.mem_map.mp hn
    have rests := World.resting hh
    cases h <;> first | rfl | exact absurd rests id
  refine ⟨by rw [tidy.ledger, weight, Nat.add_zero], tidy.solvent, fun ho => ⟨?_, tidy.conserved ho, ?_⟩⟩
  · rw [tidy.anchored ho, slots, add_zero]
  · rw [tidy.pins ho, World.tally_pins]

/-! ## Any run -/

/-- At any point of any run: a callable is there if, and only if, it is pinned or claimed, and has as
many owners as there are pins and claims; what is gone stays gone, what is there is made from what it
was made from, and everything that has died between two points has done so once and was reported once
if it is watched; a call whose body is in progress has its callable, with the results that it was
created with; and the books of all sessions are right.  While something is let go of, the last owner of
a callable takes it along, and whatever is let go of with all that this sets free, the books are right
for what is held besides. -/
theorem lifetimes_run (program : List Step) (whims : List Whim) (n : Nat) :
    let w₀ := World.start program whims
    let w := w₀.run n
    (∀ f, ((∃ c, w.callables[f]? = some c) ↔ f ∈ w.pinned + w.claimed)
      ∧ (w.callables[f]?.map Callable.owners).getD 0 = (w.pinned + w.claimed).count f
      ∧ (w.nextCallable ≤ f → w.callables[f]? = none))
    ∧ (∀ m, n ≤ m → let w' := w₀.run m
      (∀ f < w.nextCallable, w.callables[f]? = none → w'.callables[f]? = none)
      ∧ (∀ (f : CallableId) (c c' : Callable), w.callables[f]? = some c →
        w'.callables[f]? = some c' → c'.code = c.code)
      ∧ ∃ born died : Multiset CallableExpr, w'.nextCallable = w.nextCallable + born.card
        ∧ w.codes + born = w'.codes + died
        ∧ w'.dropped = w.dropped + died.filterMap CallableExpr.notice?)
    ∧ (∀ d : Dispatch, ∀ i ≤ n, d.Serving (w₀.run i) → d.Serving w → ∃ c c',
      (w₀.run i).callables[d.callable]? = some c ∧ w.callables[d.callable]? = some c'
      ∧ c'.code = c.code ∧ ∀ (v : World) (g : Frame), v.callables = w.callables →
        g.callable = d.callable → (World.bodyResults g).run v = (World.resultsOf c.code).run v)
    ∧ (∀ (id : SessionId) (s : Session), w.sessions[id]? = some s →
      s.ledger.outstanding = s.weigh ∧ s.ledger.overdrawn = false
      ∧ (s.isOpen → keys s.anchors.held = s.moorings ∧ s.anchors.Conserved
        ∧ keys s.pins.live = s.cellPins + s.userdataPins + w.pinsUnderway id))
    ∧ ∀ (μ : SessionId → Session.Memory) (H : Multiset Holding) (v : World),
      (∀ f, World.Books μ ({.callable f} + H) v → ∃ c, v.callables[f]? = some c
        ∧ (f ∈ v.pinned + v.claimed + tally Holding.callables H →
          ((World.chore (.callable f)).run v).1 = []
          ∧ (∃ c', ((World.chore (.callable f)).run v).2.callables[f]? = some c')
          ∧ ((World.chore (.callable f)).run v).2.dropped = v.dropped)
        ∧ (f ∉ v.pinned + v.claimed + tally Holding.callables H →
          ((World.chore (.callable f)).run v).1 = c.captured.toList.map (fun e => .value e.2.value)
          ∧ ((World.chore (.callable f)).run v).2.callables[f]? = none
          ∧ ((World.chore (.callable f)).run v).2.dropped
            = (c.code.notice?.toList : List String) + v.dropped))
      ∧ ∀ cs, World.Books μ (World.choreHoldings cs + H) v →
        World.Books μ H ((World.release cs).run v).2 := by
  intro w₀ w
  have books := World.books_run program whims
  have fresh := (books n).1.fresh
  obtain ⟨Ss, nests, -⟩ := World.nests_run program whims n
  refine ⟨fun f => ⟨(books n).there_iff nests.routed.living f, ?_, fun young => ?_⟩,
    fun m le => ?_, fun d i le before now => ?_, fun id s hs => (books n).settled hs,
    fun μ H v => ⟨fun f hv => hv.lets_go, fun cs hv => ?_⟩⟩
  · have owners := (books n).owners f
    rwa [tally_zero, add_zero] at owners
  · cases hc : w.callables[f]? with
    | none => rfl
    | some c => exact absurd (fresh f (mem_keys.mpr ⟨c, hc⟩)) (Nat.not_lt_of_le young)
  · have ages := World.ages_run program whims le
    exact ⟨ages.gone, fun f c c' hc => ages.code f (fresh f (mem_keys.mpr ⟨c, hc⟩)) c c' hc,
      (ages.fates fresh).2⟩
  · have there : ∀ {i}, d.Serving (w₀.run i) → ∃ c, (w₀.run i).callables[d.callable]? = some c := by
      intro i serving
      obtain ⟨Ss, nests, -⟩ := World.nests_run program whims i
      exact ((books i).there_iff nests.routed.living _).mpr (Multiset.mem_add.mpr (.inr serving.claims))
    obtain ⟨c, hc⟩ := there before
    obtain ⟨c', hc'⟩ := there now
    have same := (World.ages_run program whims le).code _
      ((books i).1.fresh _ (mem_keys.mpr ⟨c, hc⟩)) c c' hc hc'
    refine ⟨c, c', hc, hc', same, fun v g callables mine => ?_⟩
    rw [← same]
    exact World.bodyResults_run (by rw [callables, mine, hc'])
  · have released := World.keeps_release cs v μ H hv
    rwa [zero_add] at released

/-- Calls a host function whose body lets a script release its pin, which is the only one. -/
def releasing : List Step := [
  .mk (.openSession "a" .standard) true true,
  .mk (.register "a" "h" (.mk "h"
    [.mk (.execute "a" "local _, u = debug.getupvalue(h, 1) debug.getmetatable(u).__gc(u)") true true]
    [.one (.constant (.boolean true))] [] true true)) true true,
  .mk (.execute "a" "h()") true true]

/-- With no pin left, the callable is claimed until its body is left, and then gone for good. -/
theorem lifetimes_run_releasing :
    ((World.start releasing []).run 10).sessions[1]?.map (fun s => s.pins.size) = some 0
    ∧ (((World.start releasing []).run 10).pinned
      + ((World.start releasing []).run 10).claimed).count 0 = 1
    ∧ ((World.start releasing []).run 11).dropped = {"h"}
    ∧ ∀ m, 11 ≤ m → ((World.start releasing []).run m).callables[(0 : CallableId)]? = none := by
  have unpinned : ((World.start releasing []).run 10).sessions[1]?.map (fun s => s.pins.size)
      = some 0 := by decide +kernel
  have before : (((World.start releasing []).run 10).callables[(0 : CallableId)]?.map
      Callable.owners).getD 0 = 1 := by decide +kernel
  have after : ((World.start releasing []).run 11).callables[(0 : CallableId)]?.isNone = true := by
    decide +kernel
  have made : 0 < ((World.start releasing []).run 11).nextCallable := by decide +kernel
  have reported : ((World.start releasing []).run 11).dropped = {"h"} := by decide +kernel
  obtain ⟨there, -⟩ := lifetimes_run releasing [] 10
  obtain ⟨-, stays, -⟩ := lifetimes_run releasing [] 11
  exact ⟨unpinned, (there 0).2.1.symm.trans before, reported,
    fun m le => (stays m le).1 0 made (Option.isNone_iff_eq_none.mp after)⟩

end Host

end ScriptBridge
