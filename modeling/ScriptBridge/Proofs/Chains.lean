import ScriptBridge.Proofs.Dispatching
import ScriptBridge.Proofs.Unwinding

/-!
# ScriptBridge.Proofs.Chains

Errors that go through a chain of calls: the host runs a script, which calls a host callable, which
runs a script, and so on to any depth.  A `Chain` says that each host callable on the way leaves an
error of its step alone, and that each script lets errors escape.  Then an error that the innermost
script gets comes to the outermost step as a `ScriptError`, with its text less its NULs, and what was
in use for the calls in between is given back.

Main facts:

* `Dispatch.lets_of_bare` — a script without a protected call, a coroutine or a variable to be closed
  lets all errors escape;
* `Dispatch.Lets.fails` — one level of a chain;
* `Chain.escapes` — all levels;
* `chains_run` — all this in any run.
-/

namespace ScriptBridge

open Script (Spine FrameInfo ThreadId)

namespace Session

/-- A text that has no NUL left stays as it is. -/
theorem withoutNul_idem (text : String) : withoutNul (withoutNul text) = withoutNul text := by
  rw [withoutNul_eq_iff, withoutNul, String.toList_ofList]
  simp

end Session

namespace Host

namespace World

variable {w : World} {base base' : List Activity}

theorem Covers.of_shapes (h : w.Covers 0 base)
    (shapes : base.map Activity.shape = base'.map Activity.shape) : w.Covers 0 base' := by
  obtain ⟨above, enough, eq⟩ := h
  exact ⟨above, enough, shapes ▸ eq⟩

end World

namespace Dispatch

variable {d : Dispatch} {w w₀ : World} {f : Failure} {n : Nat}

/-! ## Scripts that let errors escape -/

/-- Whether the script that called a host function is one that the host waits for, and nothing in it
keeps an error from going up: it makes no protected call, runs in no coroutine of its own, and has no
variable that is to be closed. -/
def Bare (d : Dispatch) : Prop :=
  ∃ above i info upvalue operands below,
    d.frames = above ++ Script.waitsBelow i info upvalue operands below
      ∧ ∀ f ∈ above, f.passesOn = true

/-- Whether an error that a script gets from a host function, not before a turn, escapes unchanged to
the host code that waits for the script. -/
def Lets (d : Dispatch) (w₀ : World) (n : Nat) : Prop :=
  ∀ k f, n ≤ k → d.Fails f (w₀.run k) → ∃ j, k ≤ j
    ∧ (∀ i, k ≤ i → i ≤ j → (w₀.run i).Covers 0 d.rest)
    ∧ (w₀.run j).Arrives d.session (.str f.message.toUTF8) d.rest

/-- An error on its way through frames that let it pass comes to the host. -/
theorem arrives_of_rises {id : SessionId} {x upvalue : Script.Value} {as : List Activity}
    {above below : List Script.Frame} {i info : FrameInfo} {operands : List Script.Value} {k : Nat}
    (rises : (w₀.run k).Rises id x (above ++ Script.waitsBelow i info upvalue operands below) as)
    (passes : ∀ f ∈ above, f.passesOn = true) :
    ∃ j, k ≤ j ∧ (∀ i, k ≤ i → i ≤ j → (w₀.run i).Covers 0 as) ∧ (w₀.run j).Arrives id x as := by
  generalize size : above.length + (w₀.run k).whims.length = count
  induction count using Nat.strong_induction_on generalizing above k with | _ count ih =>
  have here : (w₀.run k).Covers 0 as := ⟨[], Nat.le_refl 0, rises.2.1⟩
  obtain arrives | ⟨above', passes', rises', fewer⟩ := World.rises_turn rises passes
  · exact ⟨k, Nat.le_refl k, fun i lower upper => Nat.le_antisymm lower upper ▸ here, arrives⟩
  · have next : w₀.run (k + 1) = (World.advance.run (w₀.run k)).2 := by
      obtain ⟨-, done⟩ | next := World.run_succ k w₀
      · cases rises.1.symm.trans done
      · exact next
    rw [← next] at rises' fewer
    obtain ⟨j, later, covers, arrives⟩ := ih _ (size ▸ fewer) rises' passes' rfl
    refine ⟨j, Nat.le_of_succ_le later, fun i lower upper => ?_, arrives⟩
    obtain rfl | lower := Nat.eq_or_lt_of_le lower
    · exact here
    · exact covers i lower upper

/-- A script in which nothing keeps an error from going up lets all errors escape. -/
theorem lets_of_bare (bare : d.Bare) (w₀ : World) (n : Nat) : d.Lets w₀ n := by
  rintro k f - ⟨⟨control, shapes⟩, s, m, hs, -, hf, raised⟩
  obtain ⟨above, i, info, upvalue, operands, below, frames, passes⟩ := bare
  let top : Script.Frame := .host d.info d.upvalue [.str f.message.toUTF8]
  have hf' : m.frames = (top :: above) ++ Script.waitsBelow i info upvalue operands below := by
    rw [hf, frames]
    rfl
  have passes' : ∀ f ∈ top :: above, f.passesOn = true :=
    List.forall_mem_cons.mpr ⟨rfl, passes⟩
  rw [Script.Machine.raise_unwind hf' passes'] at raised
  exact arrives_of_rises ⟨control, shapes, s, hs, by rw [raised]; rfl, by rw [raised]; exact hf'⟩
    passes'

/-- The step that waits for a script that lets an error escape fails with the text of the error. -/
theorem Lets.fails {program : List Step} {whims : List Whim} {k base : Nat} {step : Step}
    {waiting : Waiting} {below : List Activity} (lets : d.Lets (World.start program whims) n)
    (le : n ≤ k) (fails : d.Fails f ((World.start program whims).run k))
    (awaits : World.awaits? (.step step waiting) = some base)
    (rest : d.rest.map Activity.shape = (.step step waiting :: below).map Activity.shape) :
    ∃ (j : Nat) (v : World), k ≤ j
      ∧ (∀ i, k ≤ i → i ≤ j → ((World.start program whims).run i).Covers 0 d.rest)
      ∧ (World.start program whims).run (j + 1) = ((World.finishStep step
          (.error (.failure (.scriptError (Session.withoutNul f.message))))).run v).2
      ∧ v.activities.map Activity.shape = below.map Activity.shape := by
  obtain ⟨j, later, covers, control, shapes, arrives⟩ := lets k f le fails
  obtain ⟨Ss, nests, -⟩ := World.nests_run program whims j
  obtain ⟨v, turn, left⟩ := World.Arrives.fails nests ⟨control, shapes.trans rest, arrives⟩ awaits
  have next : (World.start program whims).run (j + 1)
      = (World.advance.run ((World.start program whims).run j)).2 := by
    obtain ⟨-, done⟩ | next := World.run_succ j (World.start program whims)
    · cases control.symm.trans done
    · exact next
  exact ⟨j, v, later, covers, next.trans turn, left⟩

/-! ## Host callables that leave errors alone -/

/-- Whether a callable has just been entered for a call. -/
structure Entered (d : Dispatch) (w : World) : Prop where
  proceeds : w.control = .proceed
  top : ∃ g steps, g.callable = d.callable ∧ w.activities = .program (some g) steps
    :: .serving d.session d.previous d.callable :: d.rest
  frames : ∃ s, w.sessions[d.session]? = some s ∧ s.machine.current = d.thread
    ∧ s.machine.frames = .host d.info d.upvalue [] :: d.frames

theorem Entered.serving (h : d.Entered w) : d.Serving w := by
  obtain ⟨g, steps, same, top⟩ := h.top
  exact ⟨steps, [], Nat.le_refl 0, top ▸ d.shapes_body steps same rfl⟩

/-- A call that was entered and is in progress stands where it was entered. -/
theorem Entered.stands {program : List Step} {whims : List Whim} {k : Nat}
    (h : d.Entered ((World.start program whims).run n)) (le : n ≤ k)
    (serving : ∀ i, n ≤ i → i ≤ k → d.Serving ((World.start program whims).run i)) :
    d.Stands (World.past program whims) ((World.start program whims).run k) := by
  induction k, le using Nat.le_induction with
  | base =>
    obtain ⟨Ss, nests, -⟩ := World.nests_run program whims n
    obtain ⟨g, steps, -, top⟩ := h.top
    obtain ⟨s, hs, current, frames⟩ := h.frames
    exact stands_entered nests h.proceeds top hs current frames
  | succ k le ih =>
    have stands := ih fun i lower upper => serving i lower (Nat.le_succ_of_le upper)
    obtain ⟨same, -⟩ | next := World.run_succ k (World.start program whims)
    · exact same ▸ stands
    · rw [next]
      exact stands.next (next ▸ (serving (k + 1) (Nat.le_succ_of_le le) (Nat.le_refl _)).calls)

/-- A step in the body of a callable that fails, and may not fail, ends the body with its failure. -/
theorem leaves_of_fails {step : Step} {steps : List Step} {v : World}
    (passes : step.attempt = false)
    (shapes : v.activities.map Activity.shape = (d.body steps).map Activity.shape)
    (ended : w = ((World.finishStep step (.error (.failure f))).run v).2) :
    ∃ g, d.Leaves w (.failed f) g { w with whims := w.whims.tail } := by
  obtain ⟨g, rest, same, top, others⟩ := body_of_shapes shapes
  have goes : ∀ u : World, u.activities = v.activities →
      let u' := ((World.goOn step (.error (.failure f))).run u).2
      u'.control = .leave (.failed f) ∧ u'.activities = v.activities := by
    intro u hu
    have inside : u.frame? = some g := by rw [World.frame?, hu, top]; rfl
    rw [World.goOn, stateM_get_bind, passes, inside]
    exact ⟨rfl, hu⟩
  have left : w.control = .leave (.failed f) ∧ w.activities = v.activities := by
    rw [ended]
    cases quiet : step.quiet with
    | true =>
      simp only [World.finishStep, quiet]
      exact goes v rfl
    | false =>
      simp only [World.finishStep, quiet]
      exact goes ((World.report _).run v).2 rfl
  exact ⟨g, .broken left.1, same, steps, rest, left.2.trans top, others⟩

end Dispatch

/-! ## Chains -/

/-- A chain of calls at the end of which a script has called a host function, with so many scripts in
it: a step of a program, begun at a turn, runs a script that calls a host callable, a step in the body
of which runs a script, and so on.  No step in between keeps the failure to itself, and all scripts
let errors escape. -/
inductive Chain (w₀ : World) (out : Step) (first : Nat) : Nat → Dispatch → Nat → Prop
  | one {d : Dispatch} {n base : Nat} {waiting : Waiting} {frame : Option Frame} {steps : List Step}
      {rest : List Activity} : (w₀.run first).control = .proceed →
      (w₀.run first).activities = .program frame (out :: steps) :: rest → first < n →
      (∀ i, first < i → i ≤ n →
        (w₀.run first).activities.length < (w₀.run i).activities.length) →
      World.awaits? (.step out waiting) = some base →
      d.rest.map Activity.shape
        = (.step out waiting :: .program frame steps :: rest).map Activity.shape →
      d.Lets w₀ n → Chain w₀ out first 1 d n
  | more {depth n n' base : Nat} {d d' : Dispatch} {step : Step} {waiting : Waiting}
      {steps : List Step} : Chain w₀ out first depth d n → d.Entered (w₀.run n) → n ≤ n' →
      (∀ i, n ≤ i → i ≤ n' → d.Serving (w₀.run i)) →
      World.awaits? (.step step waiting) = some base → step.attempt = false →
      d'.rest.map Activity.shape = (.step step waiting :: d.body steps).map Activity.shape →
      d'.Lets w₀ n' → Chain w₀ out first (depth + 1) d' n'

namespace Chain

variable {w₀ : World} {out : Step} {first depth n k last : Nat} {d : Dispatch} {f : Failure}

/-- What a chain ends in: the step that has begun it fails, and what it lay on is there. -/
structure Ends (w₀ : World) (out : Step) (first : Nat) (f : Failure) (last : Nat) : Prop where
  spans : w₀.Spans first last
  failed : ∃ v : World,
    w₀.run last = ((World.finishStep out (.error (.failure f))).run v).2
  below : ∃ frame steps rest, (w₀.run first).activities = .program frame (out :: steps) :: rest
    ∧ (w₀.run last).activities.map Activity.shape
      = (Activity.program frame steps :: rest).map Activity.shape

/-- While what a failing step waits for goes on, what it lies on is there; and when it has failed. -/
theorem serving_until {step : Step} {waiting : Waiting} {steps : List Step} {as : List Activity}
    {r : Except Mishap Answer} {v : World} {j : Nat}
    (shapes : as.map Activity.shape = (.step step waiting :: d.body steps).map Activity.shape)
    (covers : ∀ i, n ≤ i → i ≤ j → (w₀.run i).Covers 0 as)
    (ended : w₀.run (j + 1) = ((World.finishStep step r).run v).2)
    (left : v.activities.map Activity.shape = (d.body steps).map Activity.shape) :
    ∀ i, n ≤ i → i ≤ j + 1 → d.Serving (w₀.run i) := by
  intro i lower upper
  obtain upper | rfl := Nat.le_succ_iff.mp upper
  · exact ⟨steps, ((covers i lower upper).of_shapes shapes).tail.mono (Nat.zero_le 1)⟩
  · have steady : World.Steady
        fun v => v.activities.map Activity.shape = (d.body steps).map Activity.shape :=
      fun _ _ hv calm => calm.shapes.trans hv
    refine ⟨steps, [], Nat.le_refl 0, ?_⟩
    rw [ended]
    exact World.calm_finishStep steady step r v left

/-- A script gets the failure of a step in the body of the callable that it has called. -/
theorem passes_on {program : List Step} {whims : List Whim} {step : Step} {steps : List Step}
    {v : World} {j : Nat} (entered : d.Entered ((World.start program whims).run n))
    (le : n ≤ j + 1)
    (serving : ∀ i, n ≤ i → i ≤ j + 1 → d.Serving ((World.start program whims).run i))
    (passes : step.attempt = false)
    (ended : (World.start program whims).run (j + 1)
      = ((World.finishStep step (.error (.failure f))).run v).2)
    (left : v.activities.map Activity.shape = (d.body steps).map Activity.shape) :
    d.Fails f ((World.start program whims).run (j + 2)) := by
  have stands := entered.stands le serving
  obtain ⟨g, leaves⟩ := Dispatch.leaves_of_fails passes left ended
  have free : ∀ id i S, (World.past program whims).noted id i S := fun _ _ _ => trivial
  obtain ⟨s, -, -, -, -, hs, -⟩ := stands.answering free leaves
  have fails := Dispatch.leaves_fails stands free (World.books_run program whims (j + 1)) leaves hs
    (.failed f)
  obtain ⟨-, done⟩ | next := World.run_succ (j + 1) (World.start program whims)
  · exact absurd done leaves.1.not_done
  · exact next ▸ fails

/-- An error that the script at the end of a chain gets comes to the step that has begun the chain. -/
theorem escapes {program : List Step} {whims : List Whim}
    (chain : Chain (World.start program whims) out first depth d n) (le : n ≤ k)
    (covers : ∀ i, n ≤ i → i ≤ k → ((World.start program whims).run i).Covers 0 d.rest)
    (fails : d.Fails f ((World.start program whims).run k)) :
    ∃ last, k < last ∧ Ends (World.start program whims) out first
      (.scriptError (Session.withoutNul f.message)) last := by
  generalize hw : World.start program whims = w₀ at chain covers fails ⊢
  induction chain generalizing f k with
  | @one d n base waiting frame steps rest proceeds top later more awaits shapes lets =>
    subst hw
    obtain ⟨j, v, upto, goes, ended, left⟩ := lets.fails le fails awaits shapes
    have above : ∀ i, n ≤ i → i ≤ j → ((World.start program whims).run i).Covers 0 d.rest :=
      fun i lower upper => (Nat.le_total i k).elim (covers i lower) fun past => goes i past upper
    have steady : World.Steady fun v => v.activities.map Activity.shape
        = (Activity.program frame steps :: rest).map Activity.shape :=
      fun _ _ hv calm => calm.shapes.trans hv
    have below := World.calm_finishStep steady out
      (.error (.failure (.scriptError (Session.withoutNul f.message)))) v left
    rw [← ended] at below
    have deep := congrArg List.length shapes
    have same := congrArg List.length below
    simp only [List.length_map, List.length_cons] at deep same
    refine ⟨j + 1, Nat.lt_succ_of_le upto,
      ⟨⟨proceeds, ⟨frame, out, steps, rest, top⟩, by omega, fun i after before => ?_, ?_⟩, ⟨v, ended⟩,
        frame, steps, rest, top, below⟩⟩
    · obtain lower | upper := Nat.lt_or_ge n i
      · have length := (above i lower.le (Nat.le_of_lt_succ before)).length
        rw [top, List.length_cons]
        omega
      · exact more i after upper
    · rw [top, List.length_cons, same]
  | @more depth n n' base d d' step waiting steps chain entered later serving awaits passes shapes
      lets ih =>
    subst hw
    obtain ⟨j, v, upto, goes, ended, left⟩ := lets.fails le fails awaits shapes
    have above : ∀ i, n' ≤ i → i ≤ j → ((World.start program whims).run i).Covers 0 d'.rest :=
      fun i lower upper => (Nat.le_total i k).elim (covers i lower) fun past => goes i past upper
    have serving : ∀ i, n ≤ i → i ≤ j + 1 → d.Serving ((World.start program whims).run i) :=
      fun i lower upper => (Nat.le_total i n').elim (serving i lower) fun past =>
        serving_until shapes above ended left i past upper
    have fails := passes_on entered (by omega) serving passes ended left
    have covers : ∀ i, n ≤ i → i ≤ j + 2 → ((World.start program whims).run i).Covers 0 d.rest := by
      intro i lower upper
      obtain upper | rfl := Nat.le_succ_iff.mp upper
      · obtain ⟨steps, covers⟩ := serving i lower upper
        exact covers.tail.tail.mono (Nat.zero_le 2)
      · exact ⟨[], Nat.le_refl 0, fails.1.rest⟩
    obtain ⟨last, after, ends⟩ := ih (by omega) covers fails
    have text := Session.withoutNul_idem f.message
    exact ⟨last, by omega, text ▸ ends⟩

end Chain

end Host

/-! ## What is in use -/

/-- The callable that is pinned for a cell on its way to a runtime. -/
def Holding.sent (id : SessionId) : Holding → Multiset (Option CallableId)
  | .out session _ (.callable f) => if session = id then {some f} else 0
  | _ => 0

namespace Session

variable {s : Session} {m : Memory} {H : Multiset Holding}

/-- The callables under the pins of the cells of a session. -/
def sentCallables (s : Session) : Multiset (Option CallableId) :=
  s.cellPins.map fun k => s.pins.live[k]?

/-- A holding that is backed stands for the pin of its cell. -/
theorem Backs.sent {h : Holding} (hb : s.Backs h) (rests : Host.Resting h) (ho : s.isOpen) :
    ((h.cells s.id).map (s.ofCell fun c => c.pins.map fun k => s.pins.live[k]?)).sum
      = h.sent s.id := by
  cases h with
  | ref r =>
    by_cases same : r.session = s.id
    · obtain ⟨⟨c, a, hc, ha⟩, -⟩ := hb same
      have none : c.pins = 0 := by cases c <;> simp_all [Cell.anchor?, Cell.pins, Cell.handle?]
      simp [Holding.cells, Holding.sent, same, ofCell, hc, none]
    · simp [Holding.cells, Holding.sent, same]
  | out session cell v =>
    by_cases same : session = s.id
    · obtain ⟨c, hc, conveys⟩ := hb same
      cases v with
      | callable f =>
        obtain ⟨handle, rfl, pinned⟩ := conveys
        have live : s.pins.live[handle.number]? = some f := pinned ho
        simp [Holding.cells, Holding.sent, same, ofCell, hc, Cell.pins, Cell.handle?, live]
      | number | boolean | string =>
        obtain rfl := conveys
        simp [Holding.cells, Holding.sent, same, ofCell, hc, Cell.pins, Cell.handle?]
      | _ => exact conveys.elim
    · cases v <;> simp [Holding.cells, Holding.sent, same]
  | inbound | cell | due => exact rests.elim
  | _ => rfl

/-- The pins of cells are for the callables on their way to the runtime. -/
theorem Tidy.sent (hs : s.Tidy m H) (rests : ∀ h ∈ H, Host.Resting h) (ho : s.isOpen) :
    s.sentCallables = tally (Holding.sent s.id) H := by
  have cells := hs.sum_cells fun c => c.pins.map fun k => s.pins.live[k]?
  have whole : s.sentCallables
      = ((entries s.cells).map fun e => e.2.pins.map fun k => s.pins.live[k]?).sum := by
    rw [sentCallables, cellPins, ← Multiset.coe_mapAddMonoidHom, map_multiset_sum, Multiset.map_map]
    rfl
  rw [whole, cells]
  exact congrArg Multiset.sum
    (Multiset.map_congr rfl fun h hh => (hs.backs h hh).sent (rests h hh) ho)

end Session

namespace Host

variable {id : SessionId}

theorem Activity.aside_shape (a : Activity) : a.shape.aside = a.aside := by
  cases a with
  | step s waiting => cases waiting <;> rfl
  | delivering d errand => cases errand <;> rfl
  | _ => rfl

namespace World

variable {M : Type} [AddCommMonoid M] {w w' : World}

/-- Of what is neither a reference nor a callable, a world holds what is in progress. -/
theorem tally_progress (f : Holding → M) (refs : ∀ r, f (.ref r) = 0)
    (callables : ∀ c, f (.callable c) = 0) :
    tally f w.holdings = tally f (w.activities.map Activity.aside).sum := by
  have values : tally f (w.values.map Value.holdings).sum = 0 := by
    refine Multiset.sum_eq_zero fun n hn => ?_
    obtain ⟨h, hh, rfl⟩ := Multiset.mem_map.mp hn
    obtain ⟨v, -, hh⟩ := Multiset.mem_bind.mp hh
    cases v <;> simp_all [Value.holdings]
  have defined : tally f (definedHoldings w.defined) = 0 := by
    refine Multiset.sum_eq_zero fun n hn => ?_
    rw [definedHoldings, Multiset.map_map] at hn
    obtain ⟨e, -, rfl⟩ := Multiset.mem_map.mp hn
    exact callables _
  rw [holdings_eq, tally_add, values, aside, tally_add, defined, zero_add, zero_add]

/-- A step that has ended has left nothing in progress but what it lay on. -/
theorem aside_ended {frame : Option Frame} {step : Step} {steps : List Step} {rest : List Activity}
    (top : w.activities = .program frame (step :: steps) :: rest)
    (below : w'.activities.map Activity.shape
      = (Activity.program frame steps :: rest).map Activity.shape) :
    (w'.activities.map Activity.aside).sum = (w.activities.map Activity.aside).sum := by
  have plain : ∀ as : List Activity,
      as.map Activity.aside = (as.map Activity.shape).map Activity.aside := by
    intro as
    rw [List.map_map]
    exact List.map_congr_left fun a _ => (Activity.aside_shape a).symm
  rw [plain w'.activities, below, ← plain, top]
  rfl

/-- What is in use for a step is given back when it has ended: cells on their way to a runtime have as
many pins as before, for the same callables, and of the allocations that are outstanding only those
of references may be others. -/
theorem settled_ended {μ μ' : SessionId → Session.Memory} {frame : Option Frame} {step : Step}
    {steps : List Step} {rest : List Activity} {s s' : Session} (hw : Books μ 0 w)
    (hw' : Books μ' 0 w') (top : w.activities = .program frame (step :: steps) :: rest)
    (below : w'.activities.map Activity.shape
      = (Activity.program frame steps :: rest).map Activity.shape)
    (hs : w.sessions[id]? = some s) (ho : s.isOpen) (hs' : w'.sessions[id]? = some s')
    (ho' : s'.isOpen) :
    s'.sentCallables = s.sentCallables
      ∧ s'.ledger.outstanding + (w.liveRefs id).card
        = s.ledger.outstanding + (w'.liveRefs id).card := by
  rw [Books, add_zero] at hw hw'
  obtain ⟨mine, tidy⟩ := hw.1.tidy id s hs
  obtain ⟨mine', tidy'⟩ := hw'.1.tidy id s' hs'
  have same := aside_ended top below
  constructor
  · rw [tidy.sent (fun h hh => resting hh) ho, tidy'.sent (fun h hh => resting hh) ho', mine, mine',
      tally_progress _ (fun _ => rfl) (fun _ => rfl), same,
      ← tally_progress _ (fun _ => rfl) (fun _ => rfl)]
  · have load : tally (Holding.load id) w'.holdings = tally (Holding.load id) w.holdings := by
      rw [tally_progress _ (fun _ => rfl) (fun _ => rfl), same,
        ← tally_progress _ (fun _ => rfl) (fun _ => rfl)]
    have shown := tidy.outstanding fun h hh => resting hh
    have shown' := tidy'.outstanding fun h hh => resting hh
    rw [mine, tally_mass, tally_refs, ← liveRefs] at shown
    rw [mine', tally_mass, tally_refs, ← liveRefs, load] at shown'
    rw [shown, shown']
    push_cast
    ring

end World

/-! ## Any run -/

/-- What becomes of an error that goes through a chain: the step that has begun the chain fails with
it, and then all runtimes stand as before the step, with all stacks at their level and the same
thread active; cells on their way to a runtime have the pins that they had, and the outstanding
allocations are what they were, but for references that are held since, or no more. -/
def Chain.Restores (w₀ : World) (out : Step) (first : Nat) (f : Failure) (k : Nat) : Prop :=
  ∃ last, k < last ∧ Chain.Ends w₀ out first f last ∧ ∀ (id : SessionId) (s s' : Session),
    (w₀.run first).sessions[id]? = some s → s.isOpen = true →
    (w₀.run last).sessions[id]? = some s' → s'.isOpen = true →
    s.Level s' ∧ s'.sentCallables = s.sentCallables
      ∧ s'.ledger.outstanding + ((w₀.run first).liveRefs id).card
        = s.ledger.outstanding + ((w₀.run last).liveRefs id).card

/-- At the end of any chain of calls, in any run and of any depth: a script that lets errors escape
lets those escape which nothing in it keeps back; when the body of the callable that was called last
is left for a reason to fail, or its script gets an error in any other way, the error comes to the
step that has begun the chain as a script error with the same text, NULs left out, and all that was
in use for the chain is as it was. -/
theorem chains_run (program : List Step) (whims : List Whim) {out : Step} {first depth n : Nat}
    {d : Dispatch} (chain : Chain (World.start program whims) out first depth d n) :
    let w := World.start program whims
    (∀ d : Dispatch, d.Bare → ∀ n, d.Lets w n)
    ∧ (∀ k e g u s f, n ≤ k → d.Entered (w.run n) →
      (∀ i, n ≤ i → i ≤ k → d.Serving (w.run i)) → d.Leaves (w.run k) e g u →
      (u.answering g d.callable).sessions[d.session]? = some s → Spurns s e f →
      Chain.Restores w out first (.scriptError (Session.withoutNul f.message)) k)
    ∧ ∀ k f, n ≤ k → (∀ i, n ≤ i → i ≤ k → (w.run i).Covers 0 d.rest) → d.Fails f (w.run k) →
      Chain.Restores w out first (.scriptError (Session.withoutNul f.message)) k := by
  intro w
  have restores : ∀ k f, n ≤ k → (∀ i, n ≤ i → i ≤ k → (w.run i).Covers 0 d.rest) →
      d.Fails f (w.run k) →
      Chain.Restores w out first (.scriptError (Session.withoutNul f.message)) k := by
    intro k f le covers fails
    obtain ⟨last, later, ends⟩ := chain.escapes le covers fails
    obtain ⟨frame, steps, rest, top, below⟩ := ends.below
    refine ⟨last, later, ends, fun id s s' hs ho hs' ho' => ⟨ends.spans.level hs ho hs' ho', ?_⟩⟩
    exact World.settled_ended (World.books_run program whims first)
      (World.books_run program whims last) top below hs ho hs' ho'
  refine ⟨fun d bare n => Dispatch.lets_of_bare bare w n, ?_, restores⟩
  intro k e g u s f le entered serving leaves hs spurns
  have free : ∀ id i S, (World.past program whims).noted id i S := fun _ _ _ => trivial
  have fails := Dispatch.leaves_fails (entered.stands le serving) free
    (World.books_run program whims k) leaves hs spurns
  have next : w.run (k + 1) = (World.advance.run (w.run k)).2 := by
    obtain ⟨-, done⟩ | next := World.run_succ k w
    · exact absurd done leaves.1.not_done
    · exact next
  rw [← next] at fails
  have covers : ∀ i, n ≤ i → i ≤ k + 1 → (w.run i).Covers 0 d.rest := by
    intro i lower upper
    obtain upper | rfl := Nat.le_succ_iff.mp upper
    · obtain ⟨steps, covers⟩ := serving i lower upper
      exact covers.tail.tail.mono (Nat.zero_le 2)
    · exact ⟨[], Nat.le_refl 0, fails.1.rest⟩
  obtain ⟨last, later, ends, restored⟩ := restores (k + 1) f (Nat.le_succ_of_le le) covers fails
  exact ⟨last, Nat.lt_of_succ_lt later, ends, restored⟩

/-! ## A chain of two scripts -/

/-- What has been entered, where a callable has just been entered. -/
def Dispatch.entered? (w : World) : Option Dispatch :=
  match w.control, w.activities with
  | .proceed, .program (some g) _ :: .serving id previous callable :: rest =>
    w.sessions[id]?.bind fun s =>
      match s.machine.frames with
      | .host info upvalue [] :: frames =>
        if g.callable = callable then
          some ⟨id, s.machine.current, info, upvalue, frames, previous, callable, rest⟩
        else none
      | _ => none
  | _, _ => none

theorem Dispatch.of_entered? {d : Dispatch} {w : World} (h : entered? w = some d) :
    d.Entered w := by
  unfold entered? at h
  split at h
  · rename_i g steps id previous callable rest proceeds top
    obtain ⟨s, hs, h⟩ := Option.bind_eq_some_iff.mp h
    split at h
    · rename_i info upvalue frames hf
      split at h
      · rename_i same
        obtain rfl := Option.some.inj h
        exact ⟨proceeds, ⟨g, steps, same, top⟩, s, hs, rfl, hf⟩
      · cases h
    · cases h
  · cases h

/-- Whether nothing keeps an error from going up to the host. -/
def Dispatch.isBare (frames : List Script.Frame) : Bool :=
  match frames with
  | .mark _ .fromHost :: .host .. :: _ => true
  | f :: frames => f.passesOn && isBare frames
  | [] => false

theorem Dispatch.of_isBare {d : Dispatch} (h : isBare d.frames = true) : d.Bare := by
  unfold Bare
  generalize d.frames = frames at h
  induction frames with
  | nil => cases h
  | cons f frames ih =>
    unfold isBare at h
    split at h
    · rename_i i info upvalue operands below eq
      exact ⟨[], i, info, upvalue, operands, below, eq, nofun⟩
    · rename_i eq
      obtain ⟨rfl, rfl⟩ := List.cons.inj eq
      obtain ⟨passes, h⟩ := Bool.and_eq_true_iff.mp h
      obtain ⟨above, i, info, upvalue, operands, below, rfl, all⟩ := ih h
      exact ⟨f :: above, i, info, upvalue, operands, below, rfl,
        List.forall_mem_cons.mpr ⟨passes, all⟩⟩
    · rename_i eq
      cases eq

/-- Whether no body is left in the next turn. -/
def World.stays (w : World) : Bool :=
  match w.control, w.activities with
  | .script _, _ | .proceed, .program _ (_ :: _) :: _ => true
  | _, _ => false

theorem World.not_leaves {w u : World} {e : Ending} (h : w.stays = true) : ¬ w.Leaves e u := by
  unfold stays at h
  rintro (⟨control, -, top, -⟩ | control)
  · rw [control, top] at h
    cases h
  · rw [control] at h
    cases h

/-- A body that is not left goes on. -/
theorem Dispatch.Serving.goes {d : Dispatch} {program : List Step} {whims : List Whim} {n : Nat}
    (serving : d.Serving ((World.start program whims).run n))
    (stays : ((World.start program whims).run n).stays = true) :
    d.Serving ((World.start program whims).run (n + 1)) := by
  obtain ⟨Ss, nests, -⟩ := World.nests_run program whims n
  obtain ⟨same, -⟩ | next := World.run_succ n (World.start program whims)
  · exact same ▸ serving
  · obtain on | ⟨e, g, u, leaves⟩ := Dispatch.serving_turn nests serving
    · exact next ▸ on
    · exact absurd leaves.1 (World.not_leaves stays)

/-- A body that nothing lies on. -/
theorem Dispatch.Serving.top {d : Dispatch} {w : World} (h : d.Serving w)
    (count : w.activities.length = d.rest.length + 2) :
    ∃ steps, w.activities.map Activity.shape = (d.body steps).map Activity.shape := by
  obtain ⟨steps, above, -, shapes⟩ := h
  have lengths := congrArg List.length shapes
  rw [List.length_map, count, List.length_append, List.length_map] at lengths
  obtain rfl : above = [] :=
    List.length_eq_zero_iff.mp (by simp only [Dispatch.body, List.length_cons] at lengths; omega)
  exact ⟨steps, shapes⟩

/-- A body that is to be left with a failure. -/
theorem Dispatch.Entered.failing {d : Dispatch} {program : List Step} {whims : List Whim} {n k : Nat}
    {f : Failure} (entered : d.Entered ((World.start program whims).run n)) (le : n ≤ k)
    (serving : ∀ i, n ≤ i → i ≤ k → d.Serving ((World.start program whims).run i))
    (count : ((World.start program whims).run k).activities.length = d.rest.length + 2)
    (control : ((World.start program whims).run k).control = .leave (.failed f)) :
    ∃ g u s, d.Leaves ((World.start program whims).run k) (.failed f) g u
      ∧ (u.answering g d.callable).sessions[d.session]? = some s := by
  obtain ⟨steps, shapes⟩ := (serving k le (Nat.le_refl k)).top count
  obtain ⟨g, more, same, top, others⟩ := Dispatch.body_of_shapes shapes
  have leaves : d.Leaves ((World.start program whims).run k) (.failed f) g _ :=
    ⟨.broken control, same, steps, more, top, others⟩
  obtain ⟨s, -, -, -, -, hs, -⟩ := (entered.stands le serving).answering (fun _ _ _ => trivial) leaves
  exact ⟨g, _, s, leaves, hs⟩

/-- A chain that goes one level further, where the next callable has just been entered. -/
theorem Chain.deeper {w₀ : World} {out step : Step} {first depth n n' base : Nat} {d d' : Dispatch}
    {waiting : Waiting} {below : List Activity} (chain : Chain w₀ out first depth d n)
    (entered : d.Entered (w₀.run n)) (le : n ≤ n')
    (serving : ∀ i, n ≤ i → i ≤ n' → d.Serving (w₀.run i)) (entered' : d'.Entered (w₀.run n'))
    (awaits : World.awaits? (.step step waiting) = some base) (passes : step.attempt = false)
    (rest : d'.rest = .step step waiting :: below) (count : below.length = d.rest.length + 2)
    (lets : d'.Lets w₀ n') : Chain w₀ out first (depth + 1) d' n' := by
  obtain ⟨steps, above, -, eq⟩ := serving n' le (Nat.le_refl n')
  obtain ⟨g, steps', -, top⟩ := entered'.top
  have split : [(Activity.program (some g) steps').shape,
      .serving d'.session d'.previous d'.callable, (Activity.step step waiting).shape]
        ++ below.map Activity.shape = above ++ (d.body steps).map Activity.shape := by
    rw [← eq, top, rest]
    rfl
  have same := (List.append_inj' split (by simp [Dispatch.body, count])).2
  have shapes : d'.rest.map Activity.shape
      = (.step step waiting :: d.body steps).map Activity.shape := by
    rw [rest, List.map_cons, same, List.map_cons]
  exact .more chain entered le serving awaits passes shapes lets

/-- Runs a snippet; the body that the step is in fails with it. -/
def snippet (source : String) : Step := .mk (.execute "a" source) true false

/-- Whether something in progress is the step of a snippet that waits for the runtime. -/
def Activity.runs (source : String) : Activity → Bool
  | .step (.mk (.execute "a" code) true false) (.executing _ _) => code == source
  | _ => false

theorem Activity.of_runs {a : Activity} {source : String} (h : a.runs source = true) :
    ∃ id base, a = .step (snippet source) (.executing id base) := by
  unfold runs at h
  split at h
  · obtain rfl := eq_of_beq h
    exact ⟨_, _, rfl⟩
  · cases h

/-- Whether a body is to be left with a failure of some text. -/
def World.failing (text : String) (w : World) : Bool :=
  match w.control with
  | .leave (.failed f) => f.message == text
  | _ => false

theorem World.of_failing {w : World} {text : String} (h : w.failing text = true) :
    ∃ f, w.control = .leave (.failed f) ∧ f.message = text := by
  unfold failing at h
  split at h
  · rename_i f control
    exact ⟨f, control, eq_of_beq h⟩
  · cases h

/-- Whether the program is to run a snippet as its last step. -/
def World.poised (source : String) (w : World) : Bool :=
  match w.control, w.activities with
  | .proceed, [.program none [.mk (.execute "a" code) true false]] => code == source
  | _, _ => false

theorem World.of_poised {w : World} {source : String} (h : w.poised source = true) :
    w.control = .proceed ∧ w.activities = [.program none [snippet source]] := by
  unfold poised at h
  split at h
  · rename_i proceeds top
    obtain rfl := eq_of_beq h
    exact ⟨proceeds, top⟩
  · cases h

/-- What lies below a callable that has just been entered from a snippet, from which errors escape. -/
def Dispatch.below? (source : String) (d : Dispatch) : Option (List Activity) :=
  match d.rest with
  | a :: below => if a.runs source && isBare d.frames then some below else none
  | [] => none

theorem Dispatch.of_below? {d : Dispatch} {source : String} {below : List Activity}
    (h : d.below? source = some below) :
    d.Bare ∧ ∃ id base, d.rest = .step (snippet source) (.executing id base) :: below := by
  unfold below? at h
  split at h
  · rename_i a rest eq
    split at h
    · rename_i both
      obtain ⟨runs, bare⟩ := Bool.and_eq_true_iff.mp both
      obtain rfl := Option.some.inj h
      obtain ⟨id, base, rfl⟩ := Activity.of_runs runs
      exact ⟨of_isBare bare, id, base, eq⟩
    · cases h
  · cases h

/-- Whether there is only the program, which has no step left. -/
def isOutermost : List Activity → Bool
  | [.program none []] => true
  | _ => false

theorem of_isOutermost {as : List Activity} (h : isOutermost as = true) :
    as = [.program none []] := by
  unfold isOutermost at h
  split at h
  · rfl
  · cases h

/-- Calls a host function, which runs a snippet that calls another, which fails. -/
def chaining : List Step := [
  .mk (.openSession "a" .standard) true true,
  .mk (.register "a" "f" (.mk "f" [.mk (.fail (.plain (.host "no\x00pe"))) true false] [] []
    false true)) true true,
  .mk (.register "a" "g" (.mk "g" [snippet "f()"] [] [] false true)) true true,
  snippet "g()"]

theorem chains_run_chaining :
    (∃ d, Chain (World.start chaining []) (snippet "g()") 9 2 d 13)
    ∧ Chain.Restores (World.start chaining []) (snippet "g()") 9
      (.scriptError (Session.withoutNul "no\x00pe")) 14 := by
  have poised : ((World.start chaining []).run 9).poised "g()" = true := by decide +kernel
  have more : ((List.range' 10 2).all fun i => ((World.start chaining []).run 9).activities.length
      < ((World.start chaining []).run i).activities.length) = true := by decide +kernel
  have outer : (Dispatch.entered? ((World.start chaining []).run 11)).any (fun d =>
      (d.below? "g()").any isOutermost) = true := by decide +kernel
  have inner : (Dispatch.entered? ((World.start chaining []).run 13)).any (fun d =>
      (d.below? "f()").any fun below => below.length == 4) = true := by decide +kernel
  have stays : ((List.range' 11 3).all fun i => ((World.start chaining []).run i).stays) = true := by
    decide +kernel
  have left : ((World.start chaining []).run 14).failing "no\x00pe" = true := by decide +kernel
  have seven : ((World.start chaining []).run 14).activities.length = 7 := by decide +kernel
  obtain ⟨proceeds, top⟩ := World.of_poised poised
  obtain ⟨d, entered, below⟩ := (Option.any_eq_true _ _).mp outer
  obtain ⟨under, below, last⟩ := (Option.any_eq_true _ _).mp below
  obtain ⟨d', entered', below'⟩ := (Option.any_eq_true _ _).mp inner
  obtain ⟨under', below', four⟩ := (Option.any_eq_true _ _).mp below'
  obtain ⟨bare, id, base, rest⟩ := Dispatch.of_below? below
  obtain ⟨bare', id', base', rest'⟩ := Dispatch.of_below? below'
  obtain rfl := of_isOutermost last
  have entered := Dispatch.of_entered? entered
  have entered' := Dispatch.of_entered? entered'
  have one : Chain (World.start chaining []) (snippet "g()") 9 1 d 11 := by
    refine .one proceeds top (by decide) (fun i lower upper => ?_) rfl (by rw [rest])
      (Dispatch.lets_of_bare bare _ _)
    exact of_decide_eq_true (List.all_eq_true.mp more i (List.mem_range'_1.mpr ⟨lower, by omega⟩))
  have on : ∀ i, 11 ≤ i → i < 14 → ((World.start chaining []).run i).stays = true :=
    fun i lower upper => List.all_eq_true.mp stays i (List.mem_range'_1.mpr ⟨lower, upper⟩)
  have serving : ∀ i, 11 ≤ i → i ≤ 13 → d.Serving ((World.start chaining []).run i) := by
    intro i lower upper
    induction i, lower using Nat.le_induction with
    | base => exact entered.serving
    | succ i lower ih => exact (ih (by omega)).goes (on i lower (by omega))
  have two : Chain (World.start chaining []) (snippet "g()") 9 2 d' 13 :=
    one.deeper entered (by decide) serving entered' rfl rfl rest' (by rw [eq_of_beq four, rest]; rfl)
      (Dispatch.lets_of_bare bare' _ _)
  refine ⟨⟨d', two⟩, ?_⟩
  obtain ⟨-, body, -⟩ := chains_run chaining [] two
  have last := entered'.serving.goes (on 13 (by decide) (by decide))
  have serving' : ∀ i, 13 ≤ i → i ≤ 14 → d'.Serving ((World.start chaining []).run i) := by
    intro i lower upper
    obtain rfl | rfl : i = 13 ∨ i = 14 := by omega
    · exact entered'.serving
    · exact last
  have count : ((World.start chaining []).run 14).activities.length = d'.rest.length + 2 := by
    rw [seven, rest', List.length_cons, eq_of_beq four]
  obtain ⟨f, control, text⟩ := World.of_failing left
  obtain ⟨g, u, s, leaves, hs⟩ := entered'.failing (by decide) serving' count control
  rw [← text]
  exact body 14 _ g u s f (by decide) entered' serving' leaves hs (.failed f)

end Host

end ScriptBridge
