import ScriptBridge.Proofs.Freeing
import ScriptBridge.Proofs.Lifetimes
import ScriptBridge.Proofs.Listing
import ScriptBridge.Proofs.Moving
import ScriptBridge.Proofs.Outcomes

/-!
# ScriptBridge.Proofs.Closing

The end of a session.  Its finalizers run while it is open and on the session map, so that whatever
they call finds it as any other script does.  When no finalizer is due, the session is taken off the
map, its runtime goes away, and the callables that are still pinned are let go of.  What is left of it
are the references that somebody holds: they are counted, and good for nothing but being dropped.

Main facts:

* `World.Closes.begins` — a session that no call is in progress into begins to be closed;
* `World.closed_run` — a session that is closed stays closed;
* `World.Nests.departed` — what is left of a session that is closed;
* `closing_run` — the end of a session in any run.
-/

namespace ScriptBridge.Host

open Script (Spine)

open scoped CoreInstances

namespace World

variable {w u : World} {π : Past} {Ss : SessionId → List Spine} {r : Option SessionId}
  {μ : SessionId → Session.Memory} {H : Multiset Holding} {id : SessionId} {s : Session} {step : Step}

/-! ## The beginning -/

/-- Whether the next turn begins to close a session, and in which world: a program asks for it while
no call into the session is in progress, or all programs have ended. -/
inductive Closes (w : World) (id : SessionId) (step : Step) : World → Prop
  | asked {u : World} {name : String} : w.taken? = some (step, u) →
      step.action = .closeSession name → ((sessionNamed name).run.run u).1 = .ok id →
      u.inUse id = false → Closes w id step u
  | ended {rest : List Activity} {name : String} {names : List (String × SessionId)} :
      w.control = .proceed → (∀ id budget, w.whims.headD .pass ≠ .upon id budget) →
      w.activities = .teardown :: rest → w.names = (name, id) :: names → step = closingStep →
      Closes w id step { w with whims := w.whims.tail }

/-- A session that begins to be closed: all its finalizers are due, and they run next. -/
structure Begun (u : World) (id : SessionId) (step : Step) (w : World) : Prop where
  control : w.control = .script id
  activities : w.activities = .step step (.closing id) :: u.activities
  session : ∃ s, u.sessions[id]? = some s ∧ s.isOpen = true
    ∧ w.sessions[id]? = some { s with machine := s.machine.startClose }

theorem begun_closing (hs : u.sessions[id]? = some s) (isOpen : s.isOpen = true)
    (names : List (String × SessionId)) (step : Step) :
    Begun u id step ((do
      modify fun w => { w with names := names }
      begin (.step step (.closing id))
      onSession id Session.beginClose
      setControl (.script id) : Act Unit).run u).2 := by
  let v : World := { u with names := names, activities := .step step (.closing id) :: u.activities }
  have closes : (Session.beginClose.run s).2 = { s with machine := s.machine.startClose } := rfl
  have run : ((onSession id Session.beginClose).run v).2
      = v.withSession id { s with machine := s.machine.startClose } := by
    rw [onSession_run_some (w := v) hs, closes]
  have all : ((do
      modify fun w => { w with names := names }
      begin (.step step (.closing id))
      onSession id Session.beginClose
      setControl (.script id) : Act Unit).run u).2
      = { ((onSession id Session.beginClose).run v).2 with control := .script id } := rfl
  rw [all, run]
  exact ⟨rfl, rfl, s, hs, isOpen, getElem?_withSession_self ..⟩

theorem Closes.begins (h : w.Closes id step u) (nests : w.Nests π r Ss) :
    w.control = .proceed ∧ Begun u id step (advance.run w).2 := by
  cases h with
  | @asked u name takes action named unused =>
    have looked : (sessionNamed name).run.run u = (.ok id, u) :=
      Prod.ext named (sessionNamed_snd name u)
    have begun : beginStep step = beginClose step name := by
      unfold beginStep
      rw [action]
      rfl
    have turn := advance_taken takes
    obtain ⟨proceeds, -, frame, rest, more, top, rfl⟩ := taken?_eq_some takes
    obtain ⟨e, he, rfl⟩ : ∃ e ∈ w.names, e.2 = id := by
      rw [sessionNamed, try_get_bind] at named
      cases found : w.names.find? fun e => e.1 == name with
      | none => simp only [found] at named; cases named
      | some e =>
        simp only [found] at named
        exact ⟨e, List.mem_of_find?_eq_some found, Except.ok.inj named⟩
    obtain ⟨⟨s, hs, isOpen⟩, -⟩ := nests.named e he
    refine ⟨proceeds, ?_⟩
    rw [turn, begun, beginClose, stateM_run_bind, looked]
    simp only
    rw [stateM_get_bind, if_neg (by rw [unused]; exact Bool.false_ne_true)]
    exact begun_closing (u := { w with whims := w.whims.tail, activities := _ }) hs isOpen _ step
  | @ended rest name names proceeds calm top first closing =>
    obtain ⟨⟨s, hs, isOpen⟩, -⟩ := nests.named (name, id) (first ▸ List.mem_cons_self)
    refine ⟨proceeds, ?_⟩
    rw [advance_proceed proceeds calm]
    obtain ⟨sessions, issued, _, slots, defined, directory, callables, next, _, control, all, events⟩ := w
    subst top first closing
    let u : World := ⟨sessions, issued, (name, id) :: names, slots, defined, directory, callables, next,
      .teardown :: rest, control, all.tail, events⟩
    exact begun_closing (u := u) hs isOpen names closingStep

/-! ## Sessions that are closed -/

/-- A session that is closed stays closed. -/
theorem closed_run (program : List Step) (whims : List Whim) {m n : Nat} (le : m ≤ n)
    (known : id ≤ ((start program whims).run m).issued)
    (closed : ¬ IsOpen ((start program whims).run m).sessions id) :
    ¬ IsOpen ((start program whims).run n).sessions id := by
  let w := start program whims
  have both : id ≤ (w.run n).issued ∧ ¬ IsOpen (w.run n).sessions id := by
    induction n, le using Nat.le_induction with
    | base => exact ⟨known, closed⟩
    | succ n _ ih =>
      obtain ⟨same, -⟩ | next := run_succ n w
      · rwa [same]
      · -- that the session is closed is what the world after the turn is asked about
        let π : Past := { past program whims with closed := fun i => i = id }
        obtain ⟨Ss, nests, -⟩ := nests_run program whims n
        have since : (w.run n).Nests π (w.run n).control.script? Ss :=
          { nests with routed := { nests.routed with closed := fun i eq => eq ▸ ih } }
        obtain ⟨Ss', nests', -⟩ := turned_advance since (.inl (.inl fun _ _ _ _ => trivial))
          (fun proceeds calm => tells_run rfl (books_run program whims n) since proceeds calm)
          fun _ _ _ _ same => same
        rw [next]
        exact nests'.routed.closed id rfl
  exact both.2

/-- What is left of a session that is closed. -/
structure Departed (w : World) (id : SessionId) : Prop where
  /-- Nothing is pinned, and each allocation that is outstanding is a reference that is alive. -/
  remains : ∀ s, w.sessions[id]? = some s → s.isOpen = false ∧ s.active = none ∧ s.pins.size = 0
    ∧ s.ledger.outstanding = (w.liveRefs id).card ∧ s.ledger.overdrawn = false
  /-- No session map knows it, whatever is at the address now. -/
  unlisted : ∀ (m : MapId) (shared : SharedMap), w.directory.maps[m]? = some shared →
    ∀ key : Address, shared.map.entries[key]? ≠ some id
  unfound : ∀ key : Address, ((Directory.resolve key).run w.directory).1 ≠ some id
  dropped : w.directory.registrations[id]? = none

/-- Nothing is on its way to a runtime that no activity is about. -/
theorem inTransit_of_apart (apart : ∀ p ∈ w.parts id, p = .apart) : w.inTransit id = [] := by
  refine List.flatMap_eq_nil_iff.mpr fun a ha => ?_
  have part : a.part id = .apart := apart _ (List.mem_map_of_mem ha)
  cases a with
  | step step waiting =>
    cases waiting with
    | calling session base outs c =>
      refine if_neg fun here => ?_
      rw [Activity.part_self (p := .runs base) (by rw [← here]; rfl)] at part
      cases part
    | _ => rfl
  | delivering d errand =>
    refine if_neg fun here => ?_
    rw [Activity.part_self (p := errand.part d) (by rw [← here]; rfl)] at part
    cases errand <;> cases part
  | _ => rfl

theorem Nests.departed (h : w.Nests π r Ss) (hw : Books μ 0 w) (closed : ¬ IsOpen w.sessions id) :
    w.Departed id where
  remains := fun s hs => by
    have shut : s.isOpen = false := Bool.eq_false_iff.mpr fun isOpen => closed ⟨s, hs, isOpen⟩
    rw [Books, add_zero] at hw
    obtain ⟨rfl, tidy⟩ := hw.1.tidy id s hs
    obtain ⟨q, nested, holds, -⟩ := h.lies s.id s hs
    obtain rfl : q = .shut := by
      by_contra standing
      exact closed ⟨s, hs, holds.isOpen.mpr standing⟩
    have shown := tidy.outstanding fun h hh => resting hh
    rw [tally_mass, tally_refs, tally_load hw.1.fits, ← liveRefs,
      inTransit_of_apart nested.apart_of_shut.1] at shown
    refine ⟨shut, Session.Shut.active holds, ?_, shown, tidy.solvent⟩
    rw [size_pins, tidy.lapsed shut, Multiset.card_zero]
  unlisted := fun m shared hm key there =>
    closed (((h.listed.exactly m shared hm).2.2 key id).mp there).1
  unfound := fun key there => closed ((h.listed.leads key id).mp there).1
  dropped := by
    cases hr : w.directory.registrations[id]? with
    | none => rfl
    | some r => exact absurd ((h.listed.kept id).mp ⟨r, hr⟩) closed

/-! ## The end -/

/-- A runtime whose finalizers have run waits for its session to be closed, which is what the
innermost activity does. -/
theorem Nests.closes (h : w.Nests π w.control.script? Ss) (control : w.control = .script id)
    (hs : w.sessions[id]? = some s) (ended : (s.machine.run w.patience).pause? = some .closed) :
    s.isOpen = true ∧ (s.machine.run w.patience).due = []
      ∧ ∃ step rest, w.activities = .step step (.closing id) :: rest := by
  rw [control] at h
  obtain ⟨k, B, nested, mid⟩ := h.mid_script
  have ran := mid.onSession (Session.leads_runMachine w.patience) (fun _ h => h.isOpen) fun _ _ h => h.1
  obtain ⟨s', hs', isOpen, -, goes, -⟩ := ran.session
  rw [onSession_run_some hs, getElem?_withSession_self] at hs'
  obtain rfl := Option.some.inj hs'
  have mode : (s.machine.run w.patience).mode = .paused .closed := mode_of_pause ended
  obtain lies | answers := goes
  · obtain here | ⟨target, here⟩ | here := lies.pause mode <;> cases here
  · change Script.Machine.Answers (k, B) (s.machine.run w.patience) at answers
    generalize callers : Ss id = Cs at nested
    generalize parts : w.parts id = ps at nested
    cases nested with
    | runs below =>
      obtain ⟨new, -, came | ⟨came, -⟩⟩ := answers.idle_call <;> cases mode.symm.trans came
    | sweeps below =>
      obtain ⟨t, info, upvalue, operands, S, rfl⟩ := below.host
      cases mode.symm.trans answers.idle_sweep.2
    | closes apart =>
      obtain ⟨a, rest, top, part, -⟩ := List.map_eq_cons_iff.mp parts
      have about := Activity.closing_of_about
        ((Activity.about_of_part (by rw [part]; nofun)).trans (by rw [part]))
      refine ⟨isOpen, answers.due_close, ?_⟩
      unfold Activity.closing? at about
      split at about
      · cases about
        exact ⟨_, rest, top⟩
      · cases about

/-- The session is closed in one turn, with all that this sets free, and then the step that asked for
it ends. -/
theorem Nests.finishes (h : w.Nests π w.control.script? Ss) (control : w.control = .script id)
    (hs : w.sessions[id]? = some s) (ended : (s.machine.run w.patience).pause? = some .closed) :
    ∃ step rest u, w.activities = .step step (.closing id) :: rest
      ∧ advance.run w = (finishStep step (.ok .ok)).run u
      ∧ ∃ s', u.sessions[id]? = some s' ∧ s'.isOpen = false := by
  obtain ⟨-, -, step, rest, top⟩ := h.closes control hs ended
  let s₁ : Session := { s with machine := s.machine.run w.patience }
  let v := World.withSession { w with whims := w.whims.tail } id s₁
  have hv : v.sessions[id]? = some s₁ := getElem?_withSession_self ..
  have ran : (onSession id (Session.runMachine w.patience)).run { w with whims := w.whims.tail }
      = (some .closed, v) := by
    rw [onSession_run_some (w := { w with whims := w.whims.tail }) hs, ← ended]
    rfl
  have turn : advance.run w = (finishClose id).run v := by
    rw [advance_script control, stateM_run_bind, ran]
    rfl
  -- the session is closed, and stays so while callables are let go of
  let v₁ : World := { v.withSession id (Session.finishClose.run s₁).2 with
    directory := ((Directory.remove id).run v.directory).2 }
  have closed : (closeSession id).run v = ((Session.finishClose.run s₁).1, v₁) := by
    rw [closeSession, stateM_run_bind]
    exact onSession_run_some (w := ((onDirectory (Directory.remove id)).run v).2) hv
  let I : World → Prop := fun u => (∃ s', u.sessions[id]? = some s' ∧ s'.isOpen = false)
    ∧ u.activities.map Activity.shape = w.activities.map Activity.shape
  have steady : Steady I := by
    rintro u u' ⟨⟨s', hs', shut⟩, shapes⟩ calm
    obtain ⟨s'', hs'', still, -⟩ := calm.some hs'
    exact ⟨⟨s'', hs'', still.isOpen.trans shut⟩, calm.shapes.trans shapes⟩
  let cs := (Session.finishClose.run s₁).1.map Chore.callable
  obtain ⟨⟨s', hs', shut⟩, shapes⟩ := calm_release steady cs v₁
    ⟨⟨_, getElem?_withSession_self .., rfl⟩, rfl⟩
  let v₂ := ((release cs).run v₁).2
  let v₃ : World := { v₂ with directory := ((Directory.dismiss id).run v₂.directory).2 }
  have below : ∃ rest', v₃.activities = .step step (.closing id) :: rest' := by
    rw [top] at shapes
    obtain ⟨a, rest', eq, shape, -⟩ := List.map_eq_cons_iff.mp shapes
    have about := (Activity.closing?_shape a).symm.trans (congrArg Activity.closing? shape)
    refine ⟨rest', eq.trans (congrArg (· :: rest') ?_)⟩
    cases a with
    | step step' waiting => cases waiting <;> first | exact shape | cases shape
    | delivering d errand => cases errand <;> cases shape
    | _ => cases shape
  obtain ⟨rest', below⟩ := below
  refine ⟨step, rest, { v₃ with activities := rest' }, top, ?_, s', hs', shut⟩
  have dismissed : ((onDirectory (Directory.dismiss id)).run v₂).2 = v₃ := rfl
  rw [turn, finishClose, stateM_run_bind, closed]
  simp only
  rw [stateM_run_bind, stateM_run_bind, dismissed]
  rw [stateM_get_bind, below]
  simp only
  rw [stateM_run_bind]
  have left : (finishTop.run v₃).2 = { v₃ with activities := rest' } := by
    rw [finishTop]
    change { v₃ with activities := v₃.activities.drop 1 } = _
    rw [below, List.drop_one, List.tail_cons]
  rw [left]

/-! ## References that are left -/

/-- Whether a session is there, and closed. -/
def IsShut (w : World) (id : SessionId) : Prop := ∃ s, w.sessions[id]? = some s ∧ s.isOpen = false

theorem steady_isShut (id : SessionId) : Steady fun w => w.IsShut id := by
  rintro w w' ⟨s, hs, shut⟩ calm
  obtain ⟨s', hs', still, -⟩ := calm.some hs
  exact ⟨s', hs', still.isOpen.trans shut⟩

theorem IsShut.closed (h : w.IsShut id) : ¬ IsOpen w.sessions id := by
  rintro ⟨s', hs', isOpen⟩
  obtain ⟨s, hs, shut⟩ := h
  cases hs.symm.trans hs'
  rw [shut] at isOpen
  cases isOpen

/-- No host operation runs in a session that is closed. -/
theorem Books.asleep (hw : Books μ H w) (hs : w.sessions[id]? = some s) (shut : s.isOpen = false) :
    s.active = none := by
  obtain ⟨-, tidy⟩ := hw.1.tidy id s hs
  exact Option.not_isSome_iff_eq_none.mp (by rw [tidy.awake, shut]; exact Bool.false_ne_true)

/-- A call of a function of a session that is closed fails, whatever its arguments are. -/
theorem Calls.shut {ref : Ref} {c : Calling} (h : w.Calls step ref c u)
    (nests : w.Nests π w.control.script? Ss) (hw : Books μ 0 w) (shut : w.IsShut ref.session) :
    ∃ u', (advance.run w).2
      = ((finishCall step c (.error (.failure .sessionClosed))).run u').2 := by
  have books := h.books hw
  have rests : w.Rests := by
    rw [h.proceeds] at nests
    exact rests_of_nests nests
  obtain ⟨w₀, slot, args, into, count, takes, -, prepared⟩ := id h
  let I : World → Prop := fun w => w.IsShut ref.session ∧ w.Rests
  have steady : Steady I := fun w w' h calm =>
    ⟨steady_isShut ref.session w w' h.1 calm, h.2.calm calm⟩
  have before : I w₀ := by
    obtain ⟨-, -, frame, rest, more, -, rfl⟩ := taken?_eq_some takes
    exact ⟨shut, rests⟩
  have after := preserves_prepareCall steady (fun _ h => h.2) slot args into count w₀ before
  rw [prepared] at after
  obtain ⟨⟨s, hs, closed⟩, -⟩ := after
  obtain ⟨-, -, u', -, -, run, -⟩ := h.declined hw hs (.closed (books.asleep hs closed))
  exact ⟨u', run⟩

/-- A reference of a session that is closed cannot be cloned. -/
theorem reanchor_asleep {q : Ref} (hs : u.sessions[q.session]? = some s) (asleep : s.active = none) :
    (reanchor q).run.run u = (.error (.failure .sessionClosed), u.withSession q.session s) := by
  have none : (Session.reanchor q).run.run s = (.error .sessionClosed, s) := by
    rw [Session.reanchor]
    refine try_bind_error ?_
    rw [Session.thread_run, asleep]
    rfl
  have ran : (attemptOn q.session (Session.reanchor q)).run u
      = (.error .sessionClosed, u.withSession q.session s) := by
    rw [attemptOn, onSession_run_some hs, none]
  have lifted : (ExceptT.lift (attemptOn q.session (Session.reanchor q)) : Try _).run.run u
      = (.ok (.error .sessionClosed), u.withSession q.session s) := by
    change (Except.ok <$> attemptOn q.session (Session.reanchor q)).run u = _
    rw [StateT.run_map, ran]
    rfl
  rw [reanchor]
  exact (try_bind_ok lifted).trans rfl

/-- Dropping a reference of a session that is closed takes its cell away, and nothing else. -/
theorem Books.drops {v : Value} {q : Ref} (hw : Books μ ({.ref q} + H) u) (hv : v.ref? = some q)
    (hs : u.sessions[q.session]? = some s) (shut : s.isOpen = false) :
    ∃ s', s.Freed [some q.cell] s' ∧ s'.anchors = s.anchors
      ∧ s'.ledger.outstanding + 1 = s.ledger.outstanding
      ∧ u.Replaces q.session s' ((dropValue v).run u).2 := by
  have asleep := hw.asleep hs shut
  obtain ⟨mine, tidy⟩ := hw.1.tidy q.session s hs
  obtain ⟨⟨c, a, hc, ha⟩, -⟩ := tidy.backs (.ref q) (Multiset.mem_add.mpr (.inr
    (Multiset.mem_add.mpr (.inl (Multiset.mem_singleton_self _))))) mine.symm
  have freed := Session.freed_free s q.cell
  have weight : s.weightOf [some q.cell] = 1 := by
    have cells : s.cellsOf [some q.cell] = [c] := by
      rw [Session.cellsOf, List.filterMap_cons, Option.bind_some, hc]
      rfl
    rw [Session.weightOf, cells]
    cases c <;> simp_all [Cell.anchor?, Cell.weight]
  have counted := freed.outstanding
  rw [weight] at counted
  refine ⟨((Session.free q.cell).run s).2, freed, ?_, counted, ?_⟩
  · rw [Session.free_run hc]
    change (s.withdrawn q.cell c).anchors = s.anchors
    rw [Session.withdrawn, ha, asleep]
    rfl
  · rw [dropValue_ref hv hw.mild_ref, stateM_run_bind, onSession_run_some hs,
      onSession_run_some (getElem?_withSession_self ..)]
    exact (replaces_withSession _).withSession _

/-- What the references of a session that is closed are good for: being dropped. -/
structure Spent (w : World) (id : SessionId) : Prop where
  /-- A call fails, whatever its arguments are. -/
  calls : ∀ {step : Step} {ref : Ref} {c : Calling} {u : World}, w.Calls step ref c u →
    ref.session = id → ∃ u', (advance.run w).2
      = ((finishCall step c (.error (.failure .sessionClosed))).run u').2
  /-- So does making a second reference, in a step of its own and wherever a value is copied. -/
  clones : ∀ {step : Step} {slot : String} {into : Option String} {place : Loan} {held : Slot}
      {q : Ref} {u : World}, w.taken? = some (step, u) → step.action = .clone slot into →
    (filledSlot slot).run.run u = (.ok (place, held), u) → held.value.ref? = some q →
    q.session = id → ∃ s, u.sessions[id]? = some s
      ∧ advance.run w = (finishStep step (.error (.failure .sessionClosed))).run (u.withSession id s)
  copies : ∀ {μ : SessionId → Session.Memory} {H : Multiset Holding} {u : World} {q : Ref},
    Books μ H u → u.IsShut id → q.session = id → ∃ s, u.sessions[id]? = some s
      ∧ (reanchor q).run.run u = (.error (.failure .sessionClosed), u.withSession id s)
  /-- Another session that is open takes it neither for a global, nor as an argument, nor as a
  result. -/
  assigned : ∀ {step : Step} {j : SessionId} {path : String} {v : Value} {create : Bool} {u : World}
      {s : Session} {p : Path} {q : Ref}, w.Assigning step j path v create u →
    u.sessions[j]? = some s → s.active.isSome → Path.parse path = .ok p → v.ref? = some q →
    q.session = id → j ≠ id → u.Sheds (advance.run w).2
      ∧ (advance.run w).2.Ends step (.error (.failure (.wrongSession j id)))
  passed : ∀ {step : Step} {ref q : Ref} {c : Calling} {u : World} {s : Session} {us vs : List Value}
      {v : Value}, w.Calls step ref c u → u.sessions[ref.session]? = some s → s.active.isSome →
    c.args.map (·.1) = us ++ v :: vs →
    (∀ u ∈ us, ∀ r, u.ref? = some r → r.session = ref.session) → v.ref? = some q →
    q.session = id → ref.session ≠ id → ∃ s', s.Restored s'
      ∧ advance.run w = (finishCall step c (.error (.failure
          ((Failure.wrongSession ref.session id).ofItem us.length)))).run
            (u.withSession ref.session s')
  returned : ∀ {f g : Frame} {more : List Step} {rest rest' : List Activity}
      {previous : Option Script.ThreadId} {callable : CallableId} {t : Script.ThreadId} {q : Ref}
      {us vs : List Value} {v : Value} {j : SessionId} {s : Session} {u : World},
    w.control = .proceed → (∀ id budget, w.whims.headD .pass ≠ .upon id budget) →
    w.activities = .program (some f) [] :: rest →
    (bodyResults f).run { w with whims := w.whims.tail } = (.returned (us ++ v :: vs), u) →
    u.activities = .program (some g) more :: .serving j previous callable :: rest' →
    (u.answering g callable).sessions[j]? = some s → s.active = some t →
    (s.machine.reserve t (us ++ v :: vs).length).1 →
    (∀ u ∈ us, ∀ r, u.ref? = some r → r.session = j) → v.ref? = some q → q.session = id → j ≠ id →
    ∃ s' w', s.Restored s' ∧ ((u.answering g callable).withSession j s').Sheds w'
      ∧ advance.run w = (do
          onSession j (Session.leave previous)
          onSession j (Session.raiseFailure ((Failure.wrongSession j id).ofItem us.length))
          setControl (.script j) : Act Unit).run w'
  packed : ∀ {s : Session} {v : Value} {q : Ref}, v.ref? = some q → q.session = id → s.id ≠ id →
    (Session.pack v).run.run s = (.error (.wrongSession s.id id), s)
  /-- Whoever drops one takes its cell away, which is one allocation, and nothing else. -/
  drops : ∀ {μ : SessionId → Session.Memory} {H : Multiset Holding} {u : World} {v : Value} {q : Ref},
    Books μ ({.ref q} + H) u → u.IsShut id → v.ref? = some q → q.session = id → ∃ s s',
      u.sessions[id]? = some s ∧ s.Freed [some q.cell] s' ∧ s'.anchors = s.anchors
        ∧ s'.ledger.outstanding + 1 = s.ledger.outstanding
        ∧ u.Replaces id s' ((dropValue v).run u).2

/-- A step that copies a reference of a session that is closed ends at once. -/
theorem Books.clones {slot : String} {into : Option String} {place : Loan} {held : Slot} {q : Ref}
    (hw : Books μ 0 w) (shut : w.IsShut q.session) (takes : w.taken? = some (step, u))
    (action : step.action = .clone slot into)
    (filled : (filledSlot slot).run.run u = (.ok (place, held), u)) (hv : held.value.ref? = some q) :
    ∃ s, u.sessions[q.session]? = some s
      ∧ advance.run w
        = (finishStep step (.error (.failure .sessionClosed))).run (u.withSession q.session s) := by
  obtain ⟨s, hs, closed⟩ := shut
  have there : u.sessions[q.session]? = some s := by
    obtain ⟨-, -, frame, rest, more, -, rfl⟩ := taken?_eq_some takes
    exact hs
  have copied := reanchor_asleep there (hw.asleep hs closed)
  refine ⟨s, there, ?_⟩
  obtain ⟨act, acts⟩ : ∃ act, immediate step.action = some act := by
    rw [action]
    exact ⟨_, rfl⟩
  have failed : act.run.run u = (.error (.failure .sessionClosed), u.withSession q.session s) := by
    rw [action] at acts
    simp only [immediate, Option.some.injEq] at acts
    subst acts
    rw [try_bind_ok filled]
    cases value : held.value with
    | reference ref | function ref =>
      rw [value] at hv
      cases hv
      simp only
      exact try_bind_error copied
    | _ => rw [value] at hv; cases hv
  rw [advance_taken takes, beginStep, acts]
  simp only
  rw [stateM_run_bind, failed]

theorem Nests.spent (nests : w.Nests π w.control.script? Ss) (hw : Books μ 0 w) (shut : w.IsShut id) :
    w.Spent id where
  calls := fun h here => h.shut nests hw (here ▸ shut)
  clones := by
    rintro step slot into place held q u takes action filled hv rfl
    exact hw.clones shut takes action filled hv
  copies := by
    rintro μ H u q hu ⟨s, hs, closed⟩ rfl
    exact ⟨s, hs, reanchor_asleep hs (hu.asleep hs closed)⟩
  assigned := by
    rintro step j path v create u s p q ⟨w₀, name, e, takes, assigns, made, named⟩ hs active parsed hv
      rfl other
    obtain ⟨sheds, -, w', run⟩ :=
      assign_foreign hw takes assigns made named hs active parsed hv other.symm
    exact ⟨sheds, w', congrArg Prod.snd run⟩
  passed := by
    rintro step ref q c u s us vs v ⟨w₀, slot, args, into, count, takes, action, prepared⟩ hs active
      split own hv rfl other
    obtain ⟨s', restored, run, -⟩ :=
      call_foreign hw takes action prepared hs active split own hv other.symm
    exact ⟨s', restored, run⟩
  returned := by
    rintro f g more rest rest' previous callable t q us vs v j s u proceeds calm top made serves hs
      active room own hv rfl other
    exact results_foreign hw proceeds calm top made serves hs active room own hv other.symm
  packed := by
    rintro s v q hv rfl other
    exact Session.pack_foreign hv other.symm
  drops := by
    rintro μ H u v q hu ⟨s, hs, closed⟩ hv rfl
    obtain ⟨s', freed, anchors, outstanding, replaces⟩ := hu.drops hv hs closed
    exact ⟨s, s', hs, freed, anchors, outstanding, replaces⟩

end World

/-! ## Any run -/

namespace World

variable {id : SessionId} {s s' : Session}

/-- What is due when the runtime has made its steps is due after the turn. -/
theorem due_turn (program : List Step) (whims : List Whim) (n : Nat)
    (hs : ((start program whims).run n).sessions[id]? = some s)
    (hs' : ((start program whims).run (n + 1)).sessions[id]? = some s') (isOpen : s'.isOpen = true) :
    let w := (start program whims).run n
    (w.stepped id s.machine).due <+: s'.machine.due := by
  intro w
  obtain ⟨u, hu, moves⟩ := (led_run program whims n).kept id _ (ran_sessions hs)
  cases hu.symm.trans hs'
  exact moves.due isOpen

/-- A session that is closed stays there, and closed. -/
theorem shut_run (program : List Step) (whims : List Whim) {m n : Nat} (le : m ≤ n)
    (shut : ((start program whims).run m).IsShut id) : ((start program whims).run n).IsShut id := by
  obtain ⟨Ss, nests, -⟩ := nests_run program whims m
  have closed := shut.closed
  obtain ⟨s, hs, -⟩ := shut
  obtain ⟨s', hs'⟩ := present_run program whims le hs
  refine ⟨s', hs', Bool.eq_false_iff.mpr fun isOpen => ?_⟩
  exact closed_run program whims le (nests.numbered id s hs) closed ⟨s', hs', isOpen⟩

end World

/-- At any point of any run.  A session that no call is in progress into begins to be closed when a
program asks for it, and at the end: all its finalizers are due.  While it is being closed it is open
and found by its runtime, its books are right, and the host functions that it calls are dispatched.
What is due stays so until its finalizer is called.  When nothing is due the session is closed, in one
turn: nothing is pinned, no session map knows it, what is outstanding are the references that are left,
and of all callables those are gone that nothing holds any more, each of them once.  From then on it
stays closed, and its references are good for being dropped. -/
theorem closing_run (program : List Step) (whims : List Whim) (n : Nat) (id : SessionId) :
    let w₀ := World.start program whims
    let w := w₀.run n
    (∀ step u, w.Closes id step u →
      w.control = .proceed ∧ World.Begun u id step (w₀.run (n + 1)))
    ∧ (w.Closing id → World.IsOpen w.sessions id ∧ ((World.ownerOf id).run w).1 = some id
      ∧ ∀ s, w.sessions[id]? = some s →
        (s.ledger.outstanding = s.weigh ∧ s.ledger.overdrawn = false
          ∧ keys s.pins.live = s.cellPins + s.userdataPins + w.pinsUnderway id)
        ∧ (w.control = .script id → let m := s.machine.run w.patience
          m.pause? = some .invoked → ∀ h, Session.calledHandle { s with machine := m } = some h →
          ∃ f c info upvalue args frames, s.pins.get? h = some f ∧ w.callables[f]? = some c
            ∧ m.frames = .host info upvalue (List.reverse args) :: frames
            ∧ Dispatch.Comes ⟨id, m.current, info, upvalue, frames, s.active, f, w.activities⟩
              w₀ n args c)
        ∧ (∀ k, let m := s.machine.run k
          (s.machine.run (k + 1)).due = m.due ∨ ∃ o due, m.Finalizes o due (s.machine.run (k + 1)))
        ∧ ∀ s' : Session, (w₀.run (n + 1)).sessions[id]? = some s' → s'.isOpen = true →
          (w.stepped id s.machine).due <+: s'.machine.due)
    ∧ (∀ s, w.control = .script id → w.sessions[id]? = some s →
      (s.machine.run w.patience).pause? = some .closed → let w' := w₀.run (n + 1)
      (s.isOpen = true ∧ (s.machine.run w.patience).due = [])
      ∧ (∃ step rest, w.activities = .step step (.closing id) :: rest ∧ w'.Ends step (.ok .ok))
      ∧ w'.IsShut id
      ∧ (∀ f, (∃ c, w'.callables[f]? = some c) ↔ f ∈ w'.pinned + w'.claimed)
      ∧ ∀ i ≤ n, let v := w₀.run i
        ∃ born died : Multiset CallableExpr, w'.nextCallable = v.nextCallable + born.card
          ∧ v.codes + born = w'.codes + died
          ∧ w'.dropped = v.dropped + died.filterMap CallableExpr.notice?)
    ∧ (w.IsShut id → ∀ m ≥ n, let w' := w₀.run m
      w'.IsShut id ∧ w'.Departed id ∧ w'.Spent id) := by
  intro w₀ w
  have books := World.books_run program whims
  obtain ⟨Ss, nests, -⟩ := World.nests_run program whims n
  refine ⟨fun step u closes => ?begins, fun closing => ?closing, fun s control hs closed => ?closed,
    fun shut m le => ?after⟩
  case begins =>
    obtain ⟨proceeds, begun⟩ := closes.begins nests
    obtain ⟨-, done⟩ | next := World.run_succ n w₀
    · cases proceeds.symm.trans done
    · exact ⟨proceeds, next ▸ begun⟩
  case closing =>
    have isOpen := nests.isOpen_of_closing closing
    refine ⟨isOpen, World.ownerOf_congr rfl isOpen nests.listed, fun s hs => ⟨?_, ?_, ?_, ?_⟩⟩
    · obtain ⟨outstanding, solvent, right⟩ := (books n).settled hs
      obtain ⟨s', hs', ho⟩ := isOpen
      cases hs.symm.trans hs'
      exact ⟨outstanding, solvent, (right ho).2.2⟩
    · intro control m invoked h live
      exact World.dispatched program whims n control hs invoked live
    · exact fun k => s.machine.run_due k
    · exact fun s' hs' ho => World.due_turn program whims n hs hs' ho
  case closed =>
    obtain ⟨isOpen, none, -⟩ := nests.closes control hs closed
    obtain ⟨step, rest, u, top, turn, there⟩ := nests.finishes control hs closed
    obtain ⟨-, done⟩ | next := World.run_succ n w₀
    · cases control.symm.trans done
    obtain ⟨Ss', nests', -⟩ := World.nests_run program whims (n + 1)
    refine ⟨⟨isOpen, none⟩, ⟨step, rest, top, u, ?_⟩, ?_,
      (books (n + 1)).there_iff nests'.routed.living, fun i le => ?_⟩
    · rw [next, turn]
    · rw [next, turn]
      exact World.calm_finishStep (World.steady_isShut id) step _ u there
    · exact ((World.ages_run program whims (Nat.le_succ_of_le le)).fates (books i).1.fresh).2
  case after =>
    obtain ⟨Ss', nests', -⟩ := World.nests_run program whims m
    have still := World.shut_run program whims le shut
    exact ⟨still, nests'.departed (books m) still.closed, nests'.spent (books m) still⟩

/-- Whether the next turn begins to close a session, because a program asks for it. -/
def World.asksToClose (w : World) (id : SessionId) : Bool :=
  w.taken?.any fun e => match e.1.action with
    | .closeSession name => match ((sessionNamed name).run.run e.2).1 with
      | .ok i => i == id && !e.2.inUse id
      | .error _ => false
    | _ => false

theorem World.of_asksToClose {w : World} {id : SessionId} (h : w.asksToClose id = true) :
    ∃ step u, w.Closes id step u := by
  obtain ⟨⟨step, u⟩, takes, h⟩ := (Option.any_eq_true _ _).mp h
  dsimp only at h
  split at h
  · rename_i name action
    split at h
    · rename_i i named
      obtain ⟨here, unused⟩ := Bool.and_eq_true_iff.mp h
      obtain rfl := eq_of_beq here
      exact ⟨step, u, .asked takes action named (by simpa using unused)⟩
    · cases h
  · cases h

/-- Whether the runtime of a session is closed in the next turn. -/
def World.closesNow (w : World) (id : SessionId) : Bool :=
  match w.control with
  | .script j => j == id && w.sessions[id]?.any fun s =>
    (s.machine.run w.patience).pause? = some .closed
  | _ => false

theorem World.of_closesNow {w : World} {id : SessionId} (h : w.closesNow id = true) :
    w.control = .script id ∧ ∃ s, w.sessions[id]? = some s
      ∧ (s.machine.run w.patience).pause? = some .closed := by
  unfold closesNow at h
  split at h
  · rename_i j control
    obtain ⟨here, h⟩ := Bool.and_eq_true_iff.mp h
    obtain rfl := eq_of_beq here
    obtain ⟨s, hs, closed⟩ := (Option.any_eq_true _ _).mp h
    exact ⟨control, s, hs, of_decide_eq_true closed⟩
  · cases h

/-- Closes a session with a finalizer that calls a host function, which has captured a reference. -/
def finalizing : List Step := [
  .mk (.openSession "a" .standard) true true,
  .mk (.lookUp "a" "math" (some "x")) true true,
  .mk (.lookUp "a" "string" (some "y")) true true,
  .mk (.register "a" "h" (.mk "h" [] [] [("r", .take "y")] true true)) true true,
  .mk (.execute "a" "x = setmetatable({}, \x7b__gc = function() h() end\x7d)") true true,
  .mk (.closeSession "a") true true,
  .mk (.clone "x" none) true true]

theorem closing_run_finalizing :
    (∃ step u, World.Begun u 1 step ((World.start finalizing []).run 10))
    ∧ (∃ (d : Dispatch) (args : List Script.Value) (c : Callable),
      d.Comes (World.start finalizing []) 10 args c)
    ∧ (∃ step, ((World.start finalizing []).run 15).Ends step (.ok .ok))
    ∧ ((World.start finalizing []).run 15).dropped = {"h"}
    ∧ ∀ m ≥ 15, ((World.start finalizing []).run m).IsShut 1
      ∧ ((World.start finalizing []).run m).Departed 1
      ∧ ((World.start finalizing []).run m).Spent 1 := by
  have asked : ((World.start finalizing []).run 9).asksToClose 1 = true := by decide +kernel
  have calls : ((World.start finalizing []).run 10).callsHost (fun _ => true) = true := by
    decide +kernel
  have inside : (((World.start finalizing []).run 10).activities.any fun a =>
      a.closing? == some 1) = true := by decide +kernel
  have only : (((World.start finalizing []).run 10).control.script? == some 1) = true := by
    decide +kernel
  have ends : ((World.start finalizing []).run 14).closesNow 1 = true := by decide +kernel
  have dropped : ((World.start finalizing []).run 15).dropped = {"h"} := by decide +kernel
  obtain ⟨step, u, closes⟩ := World.of_asksToClose asked
  obtain ⟨id, s, h, control, hs, invoked, live, -⟩ := World.of_callsHost calls
  obtain rfl : id = 1 := by
    rw [control] at only
    exact Option.some.inj (eq_of_beq only)
  obtain ⟨a, ha, closing⟩ := List.any_eq_true.mp inside
  obtain ⟨-, -, busy⟩ := (closing_run finalizing [] 10 1).2.1 ⟨a, ha, eq_of_beq closing⟩
  obtain ⟨f, c, info, upvalue, args, frames, -, -, -, comes⟩ :=
    (busy s hs).2.1 control invoked h live
  obtain ⟨control', s', hs', closed⟩ := World.of_closesNow ends
  obtain ⟨-, ⟨last, _, -, done⟩, shut, -⟩ := (closing_run finalizing [] 14 1).2.2.1 s' control' hs' closed
  exact ⟨⟨step, u, ((closing_run finalizing [] 9 1).1 step u closes).2⟩, ⟨_, args, c, comes⟩,
    ⟨last, done⟩, dropped, (closing_run finalizing [] 15 1).2.2.2 shut⟩

end ScriptBridge.Host
