import ScriptBridge.Proofs.Inbound
import ScriptBridge.Proofs.PinOwners
import ScriptBridge.Proofs.Results
import ScriptBridge.Proofs.Serving

/-!
# ScriptBridge.Proofs.Dispatching

What a call of a host function that a script makes comes to, in any run.  In one turn the arguments
are read and the callable is entered with them, or the script gets an error because one of them is no
text.  The body runs until it is left, and in that turn the script gets an error, or its results begin
to be put on the frame of the host function, until the script gets all of them.

Main facts:

* `World.receive_run` — what happens before the arguments are read;
* `Dispatch.runs_of_serving` — a callable that has been entered, up to the end of the call;
* `World.dispatched` — a call of a host function finds its callable and goes on with it;
* `dispatch_run` — all the ways in which a call can go.
-/

namespace ScriptBridge

open Script (Spine FrameInfo ThreadId)

namespace Session

variable {s : Session} {info : FrameInfo} {upvalue : Script.Value} {args : List Script.Value}
  {frames : List Script.Frame}

/-- The arguments of a host function are taken off its frame, each into a cell of its own. -/
theorem takeArguments_run (hs : s.Orderly)
    (top : s.machine.frames = .host info upvalue args.reverse :: frames) :
    ∃ cs s', takeArguments.run s = (cs, s') ∧ s'.Orderly
      ∧ s'.machine = { s.machine with frames := .host info upvalue [] :: frames }
      ∧ s'.handles = s.handles ∧ s'.pins = s.pins ∧ s'.isOpen = s.isOpen
      ∧ List.Forall₂ s'.InCell args cs ∧ Apart cs := by
  have on : s.machine.operandsOf s.machine.current = args.reverse ++ [] := by
    rw [List.append_nil, Script.Machine.operandsOf_current top]
  obtain ⟨cs, s', run, orderly, -, machine, all, apart, -⟩ := collect_inCell hs on
  let s₀ : Session := { s with machine := s.machine.setOperands s.machine.current [] }
  have taken : takeArguments.run s = (args.mapM toCell).run s₀ := by
    have count : (args.reverse ++ []).length - 0 = args.reverse.length := by simp
    change ((s.machine.takeOperands s.machine.current 0).1.mapM toCell).run
      { s with machine := (s.machine.takeOperands s.machine.current 0).2 } = _
    rw [Script.Machine.takeOperands, on, count, List.take_left, List.drop_left, List.reverse_reverse]
  have gathered : s₀.Gathered ((args.mapM toCell).run s₀).1 ((args.mapM toCell).run s₀).2 :=
    gathered_toCells (s := s₀) { hs with } args
  have same : takeArguments.run s = (cs, s') := run
  rw [← taken, same] at gathered
  rw [Script.Machine.setOperands_current top] at machine
  exact ⟨cs, s', same, orderly, machine, gathered.handles, gathered.pins, gathered.isOpen, all, apart⟩

end Session

namespace Host

namespace World

variable {w : World} {id : SessionId} {s : Session} {info : FrameInfo} {upvalue : Script.Value}
  {args : List Script.Value} {frames : List Script.Frame} {h : Handle} {f : CallableId}
  {μ : SessionId → Session.Memory} {π : Past} {Ss : SessionId → List Spine}

/-- A handle that is in its userdata finds its callable, whatever the runtime has come to. -/
theorem Books.called_there {m : Script.Machine} (hw : Books μ 0 w) (hs : w.sessions[id]? = some s)
    (ho : s.isOpen) (live : Session.calledHandle { s with machine := m } = some h) :
    ∃ f c, s.pins.get? h = some f ∧ w.callables[f]? = some c := by
  obtain ⟨o, found⟩ : ∃ o, s.handles.lookup o = some h := by
    rw [Session.calledHandle] at live
    split at live
    · exact ⟨_, live⟩
    · cases live
  obtain ⟨before, after, split, -⟩ := List.lookup_eq_some_iff.mp found
  have owned : h.number ∈ s.userdataPins := by
    rw [Session.userdataPins, split]
    simp
  have books := hw
  rw [Books, add_zero] at books
  obtain ⟨-, tidy⟩ := books.1.tidy id s hs
  have there : h.number ∈ keys s.pins.live := by
    rw [tidy.pins ho]
    exact Multiset.mem_add.mpr (.inl (Multiset.mem_add.mpr (.inr owned)))
  obtain ⟨f, hf⟩ := mem_keys.mp there
  obtain ⟨c, hc⟩ := hw.pinned_there hs hf
  exact ⟨f, c, hf, hc⟩

/-- Reads the arguments that a script has passed to a callable, and enters it with them. -/
def enterWith (id : SessionId) (previous : Option ThreadId) (f : CallableId)
    (cells : List (Option CellId)) : Act Unit := do
  match ← attemptOn id (Session.unpackAll cells) with
  | .error fault =>
    release [.callable f]
    refuse id previous fault
  | .ok vs =>
    begin (.serving id previous f)
    enterCallable f vs

/-- A session is looked at. -/
theorem onSession_look {β : Type} [Inhabited β] (hs : w.sessions[id]? = some s) (g : Session → β) :
    (onSession id (do return g (← get) : Op β)).run w = (g s, w.withSession id s) :=
  onSession_run_some hs

/-- The callable of a host function that a script calls is looked up, and then the arguments are
read. -/
theorem receive_run (hs : w.sessions[id]? = some s) (orderly : s.Orderly) (ho : s.isOpen)
    (top : s.machine.frames = .host info upvalue args.reverse :: frames)
    (live : s.calledHandle = some h) (pinned : s.pins.get? h = some f) :
    ∃ cs s' v, (receive id).run w = (enterWith id s.active f cs).run ((retain f).run v).2
      ∧ v.sessions[id]? = some s' ∧ v.activities = w.activities ∧ v.callables = w.callables
      ∧ s'.Orderly ∧ s'.isOpen
      ∧ s'.machine = { s.machine with frames := .host info upvalue [] :: frames }
      ∧ List.Forall₂ s'.InCell args cs ∧ Session.Apart cs := by
  let s₁ : Session := { s with active := some s.machine.current }
  have entered : Session.enter.run s = (s.active, s₁) := by
    change (s.active, ite _ _ _) = _
    rw [if_pos ho]
  obtain ⟨cs, s', taken, orderly', machine, handles, pins, ho', all, apart⟩ :=
    Session.takeArguments_run (s := s₁) { orderly with } top
  have called : s'.calledHandle = some h := by
    rw [← live, Session.calledHandle, Session.calledHandle, handles, machine]
    rw [Script.Machine.hostUpvalue, Script.Machine.hostUpvalue, top]
  have found : s'.pins.get? h = some f := by rw [pins, ← pinned]
  let v : World := (((w.withSession id s₁).withSession id s').withSession id s').withSession id s'
  have there : ∀ w' : World, (w'.withSession id s').sessions[id]? = some s' := fun w' =>
    getElem?_withSession_self w' id s'
  refine ⟨cs, s', v, ?_, there _, rfl, rfl, orderly', ho'.trans ho, machine, all, apart⟩
  rw [receive, stateM_run_bind, onSession_run_some hs, entered]
  simp only
  rw [stateM_run_bind, onSession_run_some (getElem?_withSession_self ..), taken]
  simp only
  rw [stateM_run_bind, onSession_look (there _), called]
  simp only
  rw [stateM_run_bind, onSession_look (there _), found]
  exact stateM_run_bind (retain f) _ v

/-- The script gets an error for the first argument that is no text. -/
theorem enterWith_fails {d : Dispatch} {cs : List (Option CellId)} {ys zs : List Script.Value}
    {b : Script.Bytes} {fault : Utf8.Fault} (hs : w.sessions[d.session]? = some s)
    (orderly : s.Orderly) (ho : s.isOpen) (current : s.machine.current = d.thread)
    (top : s.machine.frames = .host d.info d.upvalue [] :: d.frames)
    (rest : w.activities.map Activity.shape = d.rest.map Activity.shape)
    (all : List.Forall₂ s.InCell (ys ++ .str b :: zs) cs) (apart : Session.Apart cs)
    (valid : ∀ t, .str t ∈ ys → ∃ text, Utf8.decode t = .ok text)
    (invalid : Utf8.decode b = .error fault) :
    d.Fails ((Failure.unsupportedType (.notText fault)).ofItem ys.length)
      ((enterWith d.session d.previous d.callable cs).run w).2 := by
  obtain ⟨s', run⟩ := @Session.unpackFrom_fails s orderly ys zs b fault cs 0 [] all apart valid invalid
  rw [Nat.zero_add] at run
  have still := Session.still_unpackAll (Session.steady_still s).gentle cs s (.refl s)
  have read : (Session.unpackAll cs).run.run s = _ := run
  rw [read] at still
  -- nothing but the session changes, and its runtime stays as it is
  let I : World → Prop := fun v => v.activities.map Activity.shape = d.rest.map Activity.shape
    ∧ ∃ u, v.sessions[d.session]? = some u ∧ s.Still u
  have steady : Steady I := by
    rintro v v' ⟨shapes, u, hu, still⟩ calm
    obtain ⟨u', hu', still', -⟩ := calm.some hu
    exact ⟨calm.shapes.trans shapes, u', hu', still.trans still'⟩
  obtain ⟨rest', u, hu, still'⟩ := calm_release steady [.callable d.callable]
    (w.withSession d.session s') ⟨rest, s', getElem?_withSession_self .., still⟩
  rw [enterWith, stateM_run_bind, attemptOn, onSession_run_some hs, read]
  simp only
  rw [stateM_run_bind]
  exact Dispatch.refuse_fails hu (still'.isOpen.trans ho) (still'.machine.current.trans current)
    (still'.machine.frames.trans top) rest' _

/-- The callable is entered with the arguments when all of them can be read. -/
theorem enterWith_enters {cs : List (Option CellId)} {c : Callable} (previous : Option ThreadId)
    (hs : w.sessions[id]? = some s) (orderly : s.Orderly) (all : List.Forall₂ s.InCell args cs)
    (apart : Session.Apart cs) (valid : ∀ t, .str t ∈ args → ∃ text, Utf8.decode t = .ok text)
    (there : w.callables[f]? = some c) :
    let next := ((enterWith id previous f cs).run w).2
    ∃ us s', next.sessions[id]? = some s' ∧ List.Forall₂ s'.Reads args us
      ∧ s'.machine = s.machine ∧ next.control = .proceed
      ∧ next.activities = .program (some ⟨f, argumentSlots 1 us ∅⟩) c.code.body
          :: .serving id previous f :: w.activities := by
  obtain ⟨us, s', run, -, -, machine, reads⟩ := Session.unpackAll_reads orderly all apart valid
  let v : World := { w.withSession id s' with
    activities := .serving id previous f :: (w.withSession id s').activities }
  have entered : (enterWith id previous f cs).run w = (enterCallable f us).run v := by
    rw [enterWith, stateM_run_bind, attemptOn, onSession_run_some hs, run]
    rfl
  have there' : v.callables[f]? = some c := there
  have own : v.sessions[id]? = some s' := getElem?_withSession_self w id s'
  have below : v.activities = .serving id previous f :: w.activities := rfl
  dsimp only
  rw [entered, enterCallable, stateM_get_bind, there']
  dsimp only
  refine ⟨us, s', ?_⟩
  rw [← below]
  cases c.code.quiet <;> exact ⟨own, reads, machine, rfl, rfl⟩

/-- A runtime that waits for a callable has called it from a host function, with its arguments on the
frame, and the session map leads to its session. -/
theorem Nests.invoked (nests : w.Nests π w.control.script? Ss) (hw : Books μ 0 w)
    (control : w.control = .script id) (hs : w.sessions[id]? = some s)
    (invoked : (s.machine.run w.patience).pause? = some .invoked) :
    ∃ info upvalue args frames v,
      (s.machine.run w.patience).frames = .host info upvalue (List.reverse args) :: frames
      ∧ advance.run w = (receive id).run v
      ∧ v.sessions[id]? = some { s with machine := s.machine.run w.patience }
      ∧ v.activities = w.activities ∧ v.callables = w.callables ∧ s.isOpen ∧ s.Orderly := by
  rw [control] at nests
  obtain ⟨k, B, -, mid⟩ := nests.mid_script
  obtain ⟨s₀, hs₀, under⟩ := mid.session
  cases hs.symm.trans hs₀
  obtain ⟨-, ho, orderly⟩ := hw.orderly_at hs (by rw [under.active]; rfl)
  obtain ⟨-, -, goes, -⟩ := Session.leads_runMachine w.patience s under
  have mode := mode_of_pause invoked
  obtain ⟨info, upvalue, operands, S, idle, -, -⟩ : ∃ info upvalue operands S,
      (s.machine.run w.patience).Idle
        (((s.machine.run w.patience).current, .host info upvalue operands) :: S)
      ∧ S ≠ [] ∧ Spine.ground S = (k, B) := by
    obtain lies | answers := goes
    · exact lies.invoked mode
    · have mode' : (s.machine.run w.patience).mode = .paused .invoked := mode
      cases answers with
      | ended _ _ _ _ came =>
        obtain came | ⟨came, -⟩ := came <;> cases came.symm.trans mode'
      | swept _ came => cases came.symm.trans mode'
      | closed came => cases came.symm.trans mode'
  obtain ⟨-, frames, -, hf, -, -⟩ := idle.top
  -- the runtime runs, and the session map leads to the session
  let w₀ : World := { w with whims := w.whims.tail }
  let w₁ : World := w₀.withSession id { s with machine := s.machine.run w.patience }
  have ran : (onSession id (Session.runMachine w.patience)).run w₀ = (some .invoked, w₁) := by
    have here : w₀.sessions[id]? = some s := hs
    rw [onSession_run_some here]
    exact congrArg (·, w₁) invoked
  have next : World.Nests π (some id) Ss w₀ :=
    steady_nests π (some id) Ss _ _ nests (.aside rfl rfl rfl rfl rfl rfl rfl rfl)
  obtain ⟨k', B', -, mid₀⟩ := next.mid_script
  have mid₁ := mid₀.onSession (Session.leads_runMachine w.patience) (fun _ h => h.isOpen)
    fun _ _ h => h.1
  rw [ran] at mid₁
  obtain ⟨found, -⟩ := leads_ownerOf (fun _ h => h.1) w₁ mid₁
  refine ⟨info, upvalue, operands.reverse, frames, ((ownerOf id).run w₁).2, ?_, ?_,
    getElem?_withSession_self .., rfl, rfl, ho, orderly⟩
  · rw [List.reverse_reverse, hf]
  · rw [advance_script control, stateM_run_bind, ran]
    change (serve id).run w₁ = _
    rw [serve, stateM_run_bind, found]

/-- What is so in each turn may be weakened. -/
theorem Until.imp {P Q : World → Prop} {happens : Nat → Prop} {first last : Nat}
    (weaker : ∀ w, P w → Q w) (h : w.Until P happens first last) : w.Until Q happens first last := by
  obtain all | ⟨k, lower, upper, before, now⟩ := h
  · exact .inl fun i lower upper => weaker _ (all i lower upper)
  · exact .inr ⟨k, lower, upper, fun i lower upper => weaker _ (before i lower upper), now⟩

end World

namespace Dispatch

variable {d : Dispatch} {w w₀ : World} {π : Past} {Ss : SessionId → List Spine} {s : Session}
  {vs : List Value}

/-- A callable that has been entered has been called where its host function is. -/
theorem stands_entered {g : Frame} {steps : List Step} (h : w.Nests π w.control.script? Ss)
    (proceeds : w.control = .proceed)
    (top : w.activities = .program (some g) steps
      :: .serving d.session d.previous d.callable :: d.rest)
    (hs : w.sessions[d.session]? = some s) (current : s.machine.current = d.thread)
    (frames : s.machine.frames = .host d.info d.upvalue [] :: d.frames) : d.Stands π w := by
  have length := h.calls d.session
  have count : w.calls d.session = d.rest.countP (Activity.callsFrom d.session) + 1 := by
    rw [World.calls, top, List.countP_cons_of_neg (by simp [Activity.callsFrom]),
      List.countP_cons_of_pos (by simp [Activity.callsFrom])]
  obtain ⟨q, nested, holds, waits⟩ := h.lies d.session s hs
  have parts : w.parts d.session = .apart :: .serves d.previous
      :: d.rest.map (Activity.part d.session) := by
    rw [World.parts, top, List.map_cons, List.map_cons]
    simp [Activity.part, Activity.about?]
  rw [parts] at nested
  rw [proceeds] at waits
  generalize callers : Ss d.session = Cs at nested
  generalize d.rest.map (Activity.part d.session) = ps at nested
  generalize d.previous = previous at nested
  cases nested with
  | shut all => exact absurd (all (.serves previous) (by simp)) (by simp)
  | apart _ nested =>
    cases nested with
    | @serves _ t info upvalue S B k below _ deep ground nested =>
      have on : Session.On t ((t, .host info upvalue []) :: S) s := holds
      obtain ⟨here, rest, T, hf, stacked, split⟩ := on.idle.top
      obtain ⟨top', rfl⟩ := List.cons.inj (frames.symm.trans hf)
      refine ⟨Ss, _, below, h, ⟨T, ?_, ?_⟩, by rw [callers], ?_⟩
      · rw [← top', ← here, split, current]
      · rw [← current]
        exact stacked.waits.fresh
      · rw [callers, List.length_cons, count] at length
        exact Nat.succ.inj length

/-- A body that runs is in progress. -/
theorem Serving.calls (h : d.Serving w) :
    d.rest.countP (Activity.callsFrom d.session) < w.calls d.session := by
  obtain ⟨steps, above, -, eq⟩ := h
  have inner : (Activity.serving d.session d.previous d.callable :: d.rest).map Activity.shape
      <:+ w.activities.map Activity.shape := by
    refine ⟨above ++ [(Activity.program (some ⟨d.callable, ∅⟩) steps).shape], ?_⟩
    rw [eq, List.append_assoc]
    rfl
  exact lt_calls (a := .serving d.session d.previous d.callable) (by simp [Activity.callsFrom]) inner
    rfl

/-- Results on their way are in progress. -/
theorem Answering.calls (h : d.Answering vs w) :
    d.rest.countP (Activity.callsFrom d.session) < w.calls d.session := by
  obtain ⟨outs, left, pin, above, -, eq⟩ := h
  exact lt_calls (a := d.answers vs outs left pin) (by simp [answers, Activity.callsFrom])
    ⟨above, eq.symm⟩ rfl

/-! ## Callables that have been entered -/

/-- What comes of a callable that has been entered: its body runs until it is left, and in that turn
the script gets an error, or its results begin to be put on the frame of the host function, which is
so until the script gets all of them. -/
def Runs (d : Dispatch) (w₀ : World) (first last : Nat) : Prop :=
  w₀.Until d.Serving (fun i => ∃ e g u s, d.Leaves (w₀.run i) e g u
    ∧ (u.answering g d.callable).sessions[d.session]? = some s
    ∧ (∀ f, Spurns s e f → d.Fails f (w₀.run (i + 1)))
    ∧ ((∀ f, ¬ Spurns s e f) → ∃ vs, e = .returned vs
      ∧ w₀.Until (d.Answering vs) (fun j => ∃ xs, d.Gets xs (w₀.run (j + 1))
        ∧ List.Forall₂ (fun v x => w₀.HasBeen d.session v x
          ∧ ∀ q, v.ref? = some q → s.object? q = some x) vs xs) (i + 1) last)) first last

/-- The results of a body denote something when it is left. -/
theorem Leaves.denotes {μ : SessionId → Session.Memory} {g : Frame} {u : World} (hw : World.Books μ 0 w)
    (leaves : d.Leaves w (.returned vs) g u)
    (hs : (u.answering g d.callable).sessions[d.session]? = some s) (ho : s.isOpen)
    (own : ∀ v ∈ vs, s.Owns v) {v : Value} (hv : v ∈ vs) {q : Ref} (hq : v.ref? = some q) :
    q.session = d.session ∧ ∃ x, s.object? q = some x := by
  obtain ⟨left, -, more, below, top, -⟩ := leaves
  have books := (left.books hw).answering top
  have mine := (books.1.tidy d.session s hs).1
  have here : q.session = d.session := (own v hv q hq).trans mine
  obtain ⟨x, hx, -⟩ := books.recalls (Multiset.mem_add.mpr (.inl
    (mem_valueHoldings hv (Value.mem_holdings_ref hq)))) (by rw [here]; exact hs) ho
  exact ⟨here, x, hx⟩

/-- A turn of a run that leaves a call in progress leaves it where it is. -/
theorem Stands.next {program : List Step} {whims : List Whim} {n : Nat}
    (h : d.Stands (World.past program whims) ((World.start program whims).run n))
    (calls : d.rest.countP (Activity.callsFrom d.session)
      < World.calls (World.advance.run ((World.start program whims).run n)).2 d.session) :
    d.Stands (World.past program whims) (World.advance.run ((World.start program whims).run n)).2 := by
  obtain ⟨Ss, -, -, nests, -⟩ := id h
  have books := World.books_run program whims n
  exact h.turn (fun _ _ _ => trivial)
    (fun proceeds calm => World.tells_run rfl books nests proceeds calm)
    (fun _ _ _ _ same => same) calls

/-- A callable that has been entered, up to the end of the call. -/
theorem runs_of_serving {program : List Step} {whims : List Whim} {n last : Nat} (le : n ≤ last)
    (serving : d.Serving ((World.start program whims).run n))
    (stands : d.Stands (World.past program whims) ((World.start program whims).run n)) :
    d.Runs (World.start program whims) n last := by
  let w₀ := World.start program whims
  let π := World.past program whims
  have books := World.books_run program whims
  have free : ∀ id i S, π.noted id i S := fun _ _ _ => trivial
  refine World.Until.imp (P := fun w => d.Serving w ∧ d.Stands π w) (fun _ h => h.1)
    (World.until_run le ⟨serving, stands⟩ fun i lower upper ⟨serving, stands⟩ => ?_)
  obtain ⟨same, -⟩ | next := World.run_succ i w₀
  · exact .inl (same ▸ ⟨serving, stands⟩)
  obtain ⟨Ss, -, -, nests, -⟩ := id stands
  obtain on | ⟨e, g, u, leaves⟩ := serving_turn nests serving
  · exact .inl (next ▸ ⟨on, stands.next on.calls⟩)
  obtain ⟨s, t, info, upvalue, S, hs, -, on, -⟩ := stands.answering free leaves
  refine .inr ⟨e, g, u, s, leaves, hs, fun f spurns =>
    next ▸ leaves_fails stands free (books i) leaves hs spurns, fun accepts => ?_⟩
  obtain ⟨vs, s', rfl, answering, hs', ho', grows, own⟩ :=
    leaves_answers stands free (books i) leaves hs accepts
  have stands' := stands.next answering.calls
  rw [← next] at answering hs' stands'
  refine ⟨vs, rfl, World.Until.imp (P := fun w => d.Answering vs w ∧ d.Stands π w) (fun _ h => h.1)
    (World.until_run upper ⟨answering, stands'⟩ fun j later _ ⟨answering, stands⟩ => ?_)⟩
  obtain ⟨same, -⟩ | next := World.run_succ j w₀
  · exact .inl (same ▸ ⟨answering, stands⟩)
  obtain on | ⟨xs, told, gets⟩ := answering_turn stands (books j) answering
  · exact .inl (next ▸ ⟨on, stands.next on.calls⟩)
  refine .inr ⟨xs, next ▸ gets, ((List.forall₂_and_left _ _).mpr ⟨fun v hv => hv, told⟩).imp
    fun v x ⟨hv, been⟩ => ⟨been, fun q hq => ?_⟩⟩
  obtain ⟨mine, y, hy⟩ := leaves.denotes (books i) hs on.isOpen own hv hq
  have been : w₀.HasBeen d.session v x := been
  rw [← mine] at hs' been
  rw [been.denotes books hs' ho' (grows.object? hy) hq, hy]

end Dispatch

/-! ## Any run -/

/-- What comes of a call, with arguments that were passed at a point of a run: in the next turn the
callable is entered with all of them and the call goes on from there, or one of them is no text. -/
def Dispatch.Comes (d : Dispatch) (w₀ : World) (n : Nat) (args : List Script.Value) (c : Callable) :
    Prop :=
  (∀ ys zs b fault, args = ys ++ .str b :: zs →
    (∀ t, .str t ∈ ys → ∃ text, Utf8.decode t = .ok text) → Utf8.decode b = .error fault →
    d.Fails ((Failure.unsupportedType (.notText fault)).ofItem ys.length) (w₀.run (n + 1)))
  ∧ ((∀ t, .str t ∈ args → ∃ text, Utf8.decode t = .ok text) → ∃ us s',
    (w₀.run (n + 1)).sessions[d.session]? = some s' ∧ List.Forall₂ s'.Reads args us
    ∧ (w₀.run (n + 1)).control = .proceed
    ∧ (w₀.run (n + 1)).activities
      = .program (some ⟨d.callable, World.argumentSlots 1 us ∅⟩) c.code.body
        :: .serving d.session d.previous d.callable :: d.rest
    ∧ ∀ last, n < last → d.Runs w₀ (n + 1) last)

/-- A call of a host function whose handle is in its userdata finds its callable. -/
theorem World.dispatched (program : List Step) (whims : List Whim) (n : Nat) {id : SessionId}
    {s : Session} {h : Handle} (control : ((World.start program whims).run n).control = .script id)
    (hs : ((World.start program whims).run n).sessions[id]? = some s)
    (invoked : (s.machine.run ((World.start program whims).run n).patience).pause? = some .invoked)
    (live : Session.calledHandle { s with
      machine := s.machine.run ((World.start program whims).run n).patience } = some h) :
    let w := World.start program whims
    let m := s.machine.run (w.run n).patience
    ∃ f c info upvalue args frames, s.pins.get? h = some f ∧ (w.run n).callables[f]? = some c
      ∧ m.frames = .host info upvalue (List.reverse args) :: frames
      ∧ Dispatch.Comes ⟨id, m.current, info, upvalue, frames, s.active, f, (w.run n).activities⟩
        w n args c := by
  intro w m
  have books := World.books_run program whims n
  obtain ⟨Ss, nests, -⟩ := World.nests_run program whims n
  have next : w.run (n + 1) = (World.advance.run (w.run n)).2 := by
    obtain ⟨-, done⟩ | next := World.run_succ n w
    · cases control.symm.trans done
    · exact next
  obtain ⟨info, upvalue, args, frames, v, top, turn, hs₁, rest, callables, ho, orderly⟩ :=
    nests.invoked books control hs invoked
  obtain ⟨f, c, pinned, there⟩ := books.called_there hs ho live
  obtain ⟨cs, s₁, u, run, own, same, kept, orderly₁, ho₁, machine, all, apart⟩ :=
    World.receive_run (s := { s with machine := m }) hs₁ { orderly with } ho top live pinned
  have entered : w.run (n + 1)
      = ((World.enterWith id s.active f cs).run ((World.retain f).run u).2).2 := by
    rw [next, turn, run]
  have own : ((World.retain f).run u).2.sessions[id]? = some s₁ := own
  have below : ((World.retain f).run u).2.activities = (w.run n).activities := same.trans rest
  have found : ((World.retain f).run u).2.callables[f]?
      = some { c with owners := c.owners + 1 } := by
    change (u.callables.modify f _)[f]? = _
    rw [kept, callables, Std.TreeMap.getElem?_modify_self, there]
    rfl
  refine ⟨f, c, info, upvalue, args, frames, pinned, there, top, ?_, fun valid => ?_⟩
  · rintro ys zs b fault rfl valid invalid
    rw [entered]
    refine World.enterWith_fails (d := ⟨id, m.current, info, upvalue, frames, s.active, f,
      (w.run n).activities⟩) own orderly₁ ho₁ ?_ ?_ (congrArg _ below) all apart valid invalid
    · rw [machine]
    · rw [machine]
  · obtain ⟨us, s', hs', reads, machine', proceeds, body⟩ :=
      World.enterWith_enters s.active own orderly₁ all apart valid found
    rw [← entered, below] at body
    rw [← entered] at hs' proceeds
    refine ⟨us, s', hs', reads, proceeds, body, fun last later => ?_⟩
    obtain ⟨Ss', nests', -⟩ := World.nests_run program whims (n + 1)
    let d : Dispatch := ⟨id, m.current, info, upvalue, frames, s.active, f, (w.run n).activities⟩
    have shapes := d.shapes_body c.code.body (g := ⟨f, World.argumentSlots 1 us ∅⟩) rfl rfl
    refine Dispatch.runs_of_serving later ⟨c.code.body, [], Nat.le_refl 0, body ▸ shapes⟩
      (Dispatch.stands_entered nests' proceeds body hs' ?_ ?_)
    · rw [machine', machine]
    · rw [machine', machine]

/-- At any point of any run at which a script calls a host function whose handle is in its userdata:
in the next turn the callable is entered with all arguments, in order, and the call goes on from there
to its end, with all results or with one error; or one of the arguments is no text, and then the
callable is not entered, and the script gets an error for the first of them. -/
theorem dispatch_run (program : List Step) (whims : List Whim) (n : Nat) {id : SessionId}
    {s : Session} {h : Handle} (control : ((World.start program whims).run n).control = .script id)
    (hs : ((World.start program whims).run n).sessions[id]? = some s)
    (invoked : (s.machine.run ((World.start program whims).run n).patience).pause? = some .invoked)
    (live : Session.calledHandle { s with
      machine := s.machine.run ((World.start program whims).run n).patience } = some h) :
    let w := World.start program whims
    let m := s.machine.run (w.run n).patience
    ∃ f c info upvalue args frames, s.pins.get? h = some f ∧ (w.run n).callables[f]? = some c
      ∧ m.frames = .host info upvalue (List.reverse args) :: frames
      ∧ let d : Dispatch :=
          ⟨id, m.current, info, upvalue, frames, s.active, f, (w.run n).activities⟩
        (∀ ys zs b fault, args = ys ++ .str b :: zs →
          (∀ t, .str t ∈ ys → ∃ text, Utf8.decode t = .ok text) → Utf8.decode b = .error fault →
          d.Fails ((Failure.unsupportedType (.notText fault)).ofItem ys.length) (w.run (n + 1)))
        ∧ ((∀ t, .str t ∈ args → ∃ text, Utf8.decode t = .ok text) → ∃ us s',
          (w.run (n + 1)).sessions[id]? = some s' ∧ List.Forall₂ s'.Reads args us
          ∧ (w.run (n + 1)).control = .proceed
          ∧ (w.run (n + 1)).activities = .program (some ⟨f, World.argumentSlots 1 us ∅⟩) c.code.body
            :: .serving id s.active f :: (w.run n).activities
          ∧ ∀ last, n < last → d.Runs w (n + 1) last) :=
  World.dispatched program whims n control hs invoked live

/-- Whether the script that runs next calls a host function whose handle is in its userdata, with
values of a kind, the last first. -/
def World.callsHost (w : World) (kind : List Script.Value → Bool) : Bool :=
  match w.control with
  | .script id => w.sessions[id]?.any fun s =>
    let m := s.machine.run w.patience
    m.pause? = some .invoked ∧ (Session.calledHandle { s with machine := m }).isSome
      ∧ kind (m.operandsOf m.current)
  | _ => false

theorem World.of_callsHost {w : World} {kind : List Script.Value → Bool}
    (calls : w.callsHost kind = true) : ∃ id s h, w.control = .script id
      ∧ w.sessions[id]? = some s ∧ (s.machine.run w.patience).pause? = some .invoked
      ∧ Session.calledHandle { s with machine := s.machine.run w.patience } = some h
      ∧ kind ((s.machine.run w.patience).operandsOf (s.machine.run w.patience).current) = true := by
  unfold callsHost at calls
  split at calls
  · rename_i id control
    obtain ⟨s, hs, calls⟩ := (Option.any_eq_true _ _).mp calls
    obtain ⟨invoked, live, passes⟩ := of_decide_eq_true calls
    obtain ⟨h, live⟩ := Option.isSome_iff_exists.mp live
    exact ⟨id, s, h, control, hs, invoked, live, passes⟩
  · cases calls

/-- Whether there is one value, with bytes that are no text. -/
def isInvalid : List Script.Value → Bool
  | [.str b] => !(Utf8.decode b).isOk
  | _ => false

theorem of_isInvalid {xs : List Script.Value} (h : isInvalid xs = true) :
    ∃ b fault, xs = [.str b] ∧ Utf8.decode b = .error fault := by
  unfold isInvalid at h
  split at h
  · rename_i b
    cases invalid : Utf8.decode b with
    | ok text =>
      rw [invalid] at h
      cases h
    | error fault => exact ⟨b, fault, rfl, invalid⟩
  · cases h

/-- Calls a host function that returns what it is given, and then with bytes that are no text. -/
def dispatching : List Step := [
  .mk (.openSession "a" .standard) true true,
  .mk (.register "a" "h" (.mk "h" [] [.splat 1] [] false true)) true true,
  .mk (.execute "a" "h(1, nil) h('\\xff')") true true]

theorem dispatch_run_dispatching :
    (∃ d : Dispatch, ∀ last, 6 < last → d.Runs (World.start dispatching []) 7 last)
    ∧ ∃ (d : Dispatch) (fault : Utf8.Fault), d.Fails
      ((Failure.unsupportedType (.notText fault)).ofItem 0) ((World.start dispatching []).run 12) := by
  constructor
  · have calls : ((World.start dispatching []).run 6).callsHost
        (·.all fun x => x.kind != .string) = true := by decide +kernel
    obtain ⟨id, s, h, control, hs, invoked, live, texts⟩ := World.of_callsHost calls
    obtain ⟨f, c, info, upvalue, args, frames, -, -, top, -, enters⟩ :=
      dispatch_run dispatching [] 6 control hs invoked live
    rw [Script.Machine.operandsOf_current top] at texts
    obtain ⟨-, -, -, -, -, -, runs⟩ := enters fun t ht => by
      cases List.all_eq_true.mp texts _ (List.mem_reverse.mpr ht)
    exact ⟨_, runs⟩
  · have calls : ((World.start dispatching []).run 11).callsHost isInvalid = true := by
      decide +kernel
    obtain ⟨id, s, h, control, hs, invoked, live, bytes⟩ := World.of_callsHost calls
    obtain ⟨f, c, info, upvalue, args, frames, -, -, top, refused, -⟩ :=
      dispatch_run dispatching [] 11 control hs invoked live
    rw [Script.Machine.operandsOf_current top] at bytes
    obtain ⟨b, fault, one, invalid⟩ := of_isInvalid bytes
    have only : args = [] ++ .str b :: [] := by
      rw [← List.reverse_reverse args, one]
      rfl
    exact ⟨_, fault, refused [] [] b fault only nofun invalid⟩

end Host

end ScriptBridge
