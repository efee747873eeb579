import ScriptBridge.Proofs.Responses

/-!
# ScriptBridge.Proofs.Parting

The turns of two parties in one host program.  Each turn of a run is one party's (`World.turn`), as long
as the program that began it all goes on: the steps that keep to its names, what its runtimes do,
deliveries to its sessions, and the ends of its bodies.  What a party is told of its turn is a cue
(`World.cue`): the next step, if it is time for one, the numbers that new things get, and what the
collector does.  `World.perform` is what a world does that has nothing but a cue to go by.

Main facts:

* `Stacks.topSide_eq`, `Stacks.next` — whose that is what there is on top;
* `Turn.goesAt` — a turn of a party is one of our share as well, or leaves it as it is.
-/

namespace ScriptBridge.Host

open scoped CoreInstances

/-! ## Turns of parties -/

/-- More things are a side's: those that there are after a turn of it. -/
def Sides.after (τ : Sides) (b : Bool) (w : World) : Sides where
  session id := (τ.session id).or (if w.sessions.contains id then some b else none)
  callable f := (τ.callable f).or (if f < w.nextCallable then some b else none)

section

variable (ours : String → Bool) (τ : Sides)

/-- Whose a slot is that a call borrows, with what is below the call. -/
def Loan.side (below : List Activity) : Loan → Option Bool
  | .ofWorld name => some (ours name)
  | .ofCallable f _ => τ.callable f
  | .ofFrame _ =>
    match below with
    | .program (some f) _ :: _ => τ.callable f.callable
    | _ => none

/-- Whose something in progress is, with what is below it. -/
def Activity.side (below : List Activity) : Activity → Option Bool
  | .program frame _ => frame.bind fun f => τ.callable f.callable
  | .step _ (.executing id _) | .step _ (.calling id _ _ _) | .step _ (.closing id) => τ.session id
  | .step _ (.callingHost c) => c.loan.side ours τ below
  | .delivering d _ => τ.session d.session
  | .serving id _ _ | .sweeping id => τ.session id
  | .teardown => none

/-- Whose that is what there is on top. -/
def topSide : List Activity → Option Bool
  | [] => none
  | a :: below => a.side ours τ below

end

/-- One turn of a party. -/
structure Cue where
  /-- The step that the program on top is to take, if there is one. -/
  step : Option Step
  /-- How many session numbers have been given out by then. -/
  issued : Nat
  nextCallable : CallableId
  whim : Whim

namespace World

/-- What a party is told of its turn. -/
def cue (w : World) : Cue where
  step := match w.activities with
    | .program _ (s :: _) :: _ => some s
    | _ => none
  issued := w.issued
  nextCallable := w.nextCallable
  whim := w.whims.headD .pass

/-- A program on top has nothing left to do but some steps. -/
def retell (steps : List Step) : List Activity → List Activity
  | .program frame _ :: below => .program frame steps :: below
  | activities => activities

/-- A world as it is told to be for its turn. -/
def heed (v : World) (c : Cue) : World :=
  { v with
    issued := c.issued
    nextCallable := c.nextCallable
    whims := [c.whim]
    activities := retell c.step.toList v.activities }

/-- A world does the next thing in a sequence. -/
def perform (v : World) (c : Cue) : World := (advance.run (v.heed c)).2

/-- Whose it is that the host goes on.  It is nobody's when the program that began it all has ended. -/
def goesOn (ours : String → Bool) (τ : Sides) : List Activity → Option Bool
  | .program frame (s :: _) :: _ => some (s.keeps ours (frame.bind fun f => τ.callable f.callable) true)
  | activities => topSide ours τ activities

/-- Whose turn it is: a runtime's, the end of a body's, or that of what there is on top. -/
def turn (ours : String → Bool) (τ : Sides) (w : World) : Option Bool :=
  match w.control, w.whims.headD .pass with
  | .script id, _ => τ.session id
  | .leave _, _ => topSide ours τ w.activities
  | .proceed, .upon id _ => some ((τ.session id).getD false)
  | .proceed, _ => goesOn ours τ w.activities
  | .done, _ => none

/-- Whether the host may be calling the runtime of a session: it takes the steps of a program, or delivers
something to the session. -/
def mayCall (w : World) (id : SessionId) : Bool :=
  match w.activities with
  | .program _ _ :: _ => true
  | .delivering d _ :: _ => d.session == id
  | _ => false

/-- Whether the program that began it all has not ended, and no collection comes upon the host but one of
a runtime that it may be calling. -/
def inOrder (w : World) : Bool :=
  match w.control with
  | .done => false
  | .proceed =>
    (match w.activities with
      | .program none [] :: _ => false
      | _ => true)
    && match w.whims.headD .pass with
      | .upon id _ => w.mayCall id
      | _ => true
  | _ => true

end World

section

variable {ours : String → Bool} {τ : Sides} {b b' : Bool} {head : Head} {lent : String → Bool}
  {w v : List Activity}

/-- A program on top of our share may have any steps left. -/
theorem Stacks.retell (h : Stacks ours τ head lent w v) (steps : List Step) :
    Stacks ours τ head lent w (World.retell steps v) := by
  induction h with
  | base apart => exact .base apart
  | @act head b a lent w v of below ih =>
    cases b with
    | true =>
      have same : World.retell steps (a :: v) = a :: v := by cases of <;> rfl
      rw [shared_true, same]
      exact .act (b := true) of below
    | false => exact .act (b := false) of ih
  | @body b f rest rest' lent w v side apart slots borrows below ih =>
    cases b with
    | true => exact .body (b := true) side apart slots borrows below
    | false =>
      have all : Stacks ours τ (.body (some false)) lent (.program (some f) rest :: w)
          (shared false (.program (some f) rest') (World.retell steps v)) :=
        .body side apart slots borrows ih
      exact all

/-- There is a program on top of our share while a step is taken. -/
theorem Stacks.programmed (h : Stacks ours τ head lent w v) (own : head ≠ .act true) :
    ∃ frame rest below, v = .program frame rest :: below := by
  induction h with
  | base apart => exact ⟨_, _, _, rfl⟩
  | @act head b a lent w v of below ih =>
    cases b with
    | true => exact absurd rfl own
    | false =>
      refine ih ?_
      rintro rfl
      cases of with
      | sweeping same _ => cases same true rfl
  | @body b f rest rest' lent w v side apart slots borrows below ih =>
    cases b with
    | true => exact ⟨some f, rest', v, rfl⟩
    | false => exact ih (by simp)

/-- The next step of a program on top is one of either side. -/
theorem Stacks.next {frame : Option Frame} {s : Step} {rest : List Step}
    (h : Stacks ours τ head lent (.program frame (s :: rest) :: w) v) :
    ∃ body, head = .body body ∧ (frame.bind fun f => τ.callable f.callable) = body
      ∧ (s.keeps ours body true || s.keeps ours body false) = true
      ∧ Stacks ours τ head lent (.program frame rest :: w) v := by
  cases h with
  | base apart =>
    obtain ⟨here, apart⟩ := Bool.and_eq_true_iff.mp apart
    exact ⟨none, rfl, rfl, here, .base apart⟩
  | act of => cases of
  | body side apart slots borrows below =>
    obtain ⟨here, apart⟩ := Bool.and_eq_true_iff.mp apart
    exact ⟨_, rfl, side, here, .body side apart slots borrows below⟩

/-- A delivery on top is one of either side, and in our share as well if it is ours. -/
theorem Stacks.delivers {d : Delivery} {errand : Errand}
    (h : Stacks ours τ head lent (.delivering d errand :: w) v) :
    ∃ b under v', head = .act b ∧ v = shared b (.delivering d errand) v'
      ∧ (Activity.delivering d errand).Of ours τ b under
      ∧ Stacks ours τ under (Activity.delivering d errand).lends w v' := by
  cases h with
  | act of below => exact ⟨_, _, _, rfl, rfl, of, below⟩

/-- What there is on top is the side's whose head it is. -/
theorem Stacks.topSide_eq (h : Stacks ours τ head lent w v) (has : head.Has b) :
    topSide ours τ w = some b := by
  cases h with
  | base => cases has
  | body side =>
    cases has
    exact side
  | act of below =>
    cases has
    cases of with
    | callingHost suits mine =>
      have there := mine.loan
      rw [topSide, Activity.side]
      generalize Calling.loan _ = place at there
      cases place with
      | ofWorld name => exact congrArg some there
      | ofCallable f name => exact there
      | ofFrame name =>
        rw [show _ = some b from there] at below
        cases below with
        | body side => exact side
    | executing suits here | calling suits here mine | closing suits here | call suits here mine
    | assign suits here own | results here own | serving here mine | sweeping _ here => exact here

end

/-- What runs next in a world, and in a share of it: what is the other side's is not for the share. -/
inductive Poised (τ : Sides) : Head → Control → Control → Prop
  | proceed {head : Head} : Poised τ head .proceed .proceed
  | script {b : Bool} {id : SessionId} : τ.session id = some b →
      Poised τ (.act b) (.script id) (if b = true then .script id else .proceed)
  | leave {b : Bool} {head : Head} {ending : Ending} : head.Has b → (∀ u ∈ ending.values, τ.Owns b u) →
      Poised τ head (.leave ending) (if b = true then .leave ending else .proceed)
  | done {b : Bool} {head : Head} : Poised τ head .done (if b = true then .done else .proceed)

/-- What runs next in a share is what runs next in all, if it is our turn. -/
theorem Poised.of_turn {ours : String → Bool} {τ : Sides} {b : Bool} {head : Head}
    {lent : String → Bool}
    {w : World} {v : List Activity} {c : Control} (h : Poised τ head w.control c)
    (scene : Stacks ours τ head lent w.activities v) (turn : w.turn ours τ = some b) :
    c = if b = true then w.control else .proceed := by
  rw [World.turn] at turn
  cases control : w.control with
  | proceed =>
    rw [control] at h
    cases h
    rw [ite_self]
  | script id =>
    rw [control] at h turn
    cases h with
    | script here => rw [Option.some.inj (here.symm.trans turn)]
  | leave ending =>
    rw [control] at h turn
    cases h with
    | leave has own => rw [Option.some.inj ((scene.topSide_eq has).symm.trans turn)]
  | done =>
    rw [control] at turn
    cases turn

namespace Turn

open World

variable {T : Turn} {τ τ' : Sides} {w v : World} {id : SessionId} {head : Head}

/-- A runtime is led to its session if the map is right, whatever the collector will do. -/
theorem led_of_listed (listed : w.Listed) (isOpen : IsOpen w.sessions id) (whims : List Whim) :
    Led id { w with whims := whims } := by
  intro steps target
  have ran : ((onSession id (Session.runMachine steps)).run { w with whims := whims }).2.directory
      = w.directory := directory_onSession _
  exact ⟨isOpen, ownerOf_congr ran isOpen listed,
    ownerOf_congr ((directory_onSession _).trans ran) isOpen listed⟩

/-- The next step of a program is taken on the side that it keeps to. -/
theorem takesAt {frame : Option Frame} {s : Step} {rest : List Step} {below : List Activity}
    (twin : T.Twin τ w v) (hw : w.activities = .program frame (s :: rest) :: below)
    (scene : Stacks T.ours τ head unlent w.activities v.activities)
    (turn : s.keeps T.ours (frame.bind fun f => τ.callable f.callable) true = T.side)
    (steps : T.side = true → ∀ frame rest below, v.activities = .program frame rest :: below →
        rest = [s])
    (clear : T.Clear s w) : TracksAt T.side w v proceed (T.After τ fun _ => T.Rests) := by
  rw [hw] at scene
  obtain ⟨body, rfl, rfl, kept, popped⟩ := scene.next
  have kept : s.keeps T.ours (frame.bind fun f => τ.callable f.callable) T.side = true := by
    cases side : T.side with
    | true => rw [turn, side]
    | false => rwa [turn, side, Bool.false_or] at kept
  obtain ⟨frame', rest', below', hv⟩ := popped.programmed (by simp)
  have taken : TracksAt T.side { w with activities := .program frame rest :: below }
      (if T.side = true then { v with activities := .program frame' [] :: below' } else v) (beginStep s)
      (T.After τ fun _ => T.Rests) := by
    refine beginsAt ⟨twin.withActivities _ _, ?_⟩ kept clear
    cases T.side with
    | true =>
      have told := popped.retell []
      rw [hv] at told
      exact told
    | false => exact popped
  refine .of_eq ?_ (fun ours => ?_) (fun theirs => ?_) taken
  · rw [proceed, stateM_get_bind, hw]
    rfl
  · rw [proceed, stateM_get_bind, hv, steps ours _ _ _ hv, if_pos ours]
    rfl
  · rw [if_neg (by rw [theirs]; simp)]

/-- A body whose steps have been taken ends on its side. -/
theorem endsAt {f : Frame} {below : List Activity} (twin : T.Twin τ w v)
    (hw : w.activities = .program (some f) [] :: below)
    (scene : Stacks T.ours τ head unlent w.activities v.activities) (mine : τ.mine T.side f.callable)
    (steps : T.side = true → ∀ frame rest below, v.activities = .program frame rest :: below →
        rest = []) :
    TracksAt T.side w v proceed (T.After τ fun _ => T.Rests) := by
  have body : head = .body (some T.side)
      ∧ (T.side = true → ∃ below', v.activities = .program (some f) [] :: below') := by
    rw [hw] at scene
    generalize hv : v.activities = va at scene
    cases scene with
    | act of => cases of
    | @body b _ _ rest' _ _ v' here =>
      obtain rfl := Option.some.inj (here.symm.trans mine)
      refine ⟨rfl, fun ours => ⟨v', ?_⟩⟩
      rw [ours, shared_true] at hv
      rw [ours, shared_true, steps ours _ _ _ hv]
  obtain ⟨rfl, share⟩ := body
  refine .get (fun ours => ?_) ?_
  · obtain ⟨below', hv⟩ := share ours
    rw [hw, hv]
  · rw [hw]
    have has : Head.Has T.side (.body (some T.side)) := rfl
    exact Leads.bindWith (leads_bodyResults mine) (fun _ _ _ own => leads_leaveBody has own) w v
      ⟨twin, scene⟩

/-- A delivery to a session of a side goes on. -/
theorem deliversAt {d : Delivery} {errand : Errand} {below : List Activity} (twin : T.Twin τ w v)
    (hw : w.activities = .delivering d errand :: below)
    (scene : Stacks T.ours τ head unlent w.activities v.activities) (proceeds : w.control = .proceed)
    (here : τ.session d.session = some T.side) :
    TracksAt T.side w v proceed (T.After τ fun _ => T.Rests) := by
  obtain ⟨b, under, v', rfl, hv, of, rest⟩ := Stacks.delivers (hw ▸ scene)
  obtain rfl := Option.some.inj ((of_delivering of).1.symm.trans here)
  have busy : T.Busy under (.delivering d errand) τ w.activities v.activities w.control :=
    ⟨below, v', hw, hv, of, rest⟩
  refine .get (fun ours => ?_) ?_
  · rw [hw, hv, ours, shared_true]
  · rw [hw]
    exact leads_deliverNext of w v ⟨twin, proceeds, busy⟩

/-- A collection comes upon the host. -/
theorem sweepsAt (h : T.Holds (T.Over head unlent) τ w v) (proceeds : w.control = .proceed)
    {budget : Nat}
    (calls : w.mayCall id = true) (turn : (τ.session id).getD false = T.side) :
    TracksAt T.side w v (sweep id budget) (T.After τ fun _ => T.Rests) := by
  obtain ⟨twin, scene⟩ := h
  cases there : τ.session id with
  | none =>
    have theirs : T.side = false := by rw [← turn, there]; rfl
    have absent : w.sessions[id]? = none := by
      cases hs : w.sessions[id]? with
      | none => rfl
      | some s =>
        obtain ⟨b, here, -⟩ := twin.sessions.held id s hs
        cases there.symm.trans here
    refine .of_run () w v ?_ (fun ours => by cases theirs.symm.trans ours) ?_
    · rw [sweep, stateM_run_bind, onSession_run_none absent]
      rfl
    · rw [ite_self]
      exact ⟨τ, .refl T.side τ, twin, head, scene, proceeds ▸ .proceed⟩
  | some b =>
    obtain rfl : b = T.side := by rw [← turn, there]; rfl
    refine leads_sweep there budget (fun side same => ?_) w v ⟨twin, proceeds, scene⟩
    obtain ⟨_, a, below, _, hw, -, of, -⟩ := Stacks.of_act (same ▸ scene)
    rw [mayCall, hw] at calls
    cases a with
    | delivering d errand =>
      rw [← eq_of_beq calls] at there
      exact Option.some.inj ((of_delivering of).1.symm.trans there)
    | program => cases of
    | _ => cases calls

/-- What is done about something else that is on top is that all is over. -/
theorem stopsAt {a : Activity} {below : List Activity} (twin : T.Twin τ w v)
    (hw : w.activities = a :: below)
    (scene : Stacks T.ours τ head unlent w.activities v.activities)
    (mine : topSide T.ours τ w.activities = some T.side)
    (stops : ∀ (u : World) (under : List Activity), u.activities = a :: under →
      proceed.run u = (setControl .done).run u) (program : ∀ frame rest, a ≠ .program frame rest) :
    TracksAt T.side w v proceed (T.After τ fun _ => T.Rests) := by
  have done : TracksAt T.side w v (setControl .done) (T.After τ fun _ => T.Rests) :=
    leads_setControl_rests .done w v ⟨twin, scene⟩
  refine .of_eq (stops w below hw) (fun ours => ?_) (fun _ => rfl) done
  rw [hw] at scene mine
  generalize hv : v.activities = va at scene
  have top := fun {b} => scene.topSide_eq (b := b)
  cases scene with
  | base => exact absurd rfl (program _ _)
  | body => exact absurd rfl (program _ _)
  | @act _ b _ _ _ v' of under =>
    obtain rfl := Option.some.inj ((top rfl).symm.trans mine)
    rw [ours] at hv
    exact stops v v' hv

theorem calls_of_inOrder {budget : Nat} (inOrder : w.inOrder = true) (control : w.control = .proceed)
    (whim : w.whims.headD .pass = .upon id budget) : w.mayCall id = true := by
  rw [World.inOrder, control, whim] at inOrder
  exact (Bool.and_eq_true_iff.mp inOrder).2

/-- The host goes on with what is on top on the side whose it is. -/
theorem proceedsAt (twin : T.Twin τ w v)
    (scene : Stacks T.ours τ head unlent w.activities v.activities) (control : w.control = .proceed)
    (turn : goesOn T.ours τ w.activities = some T.side)
    (steps : T.side = true → ∀ frame rest below, v.activities = .program frame rest :: below →
      rest = w.cue.step.toList)
    (clear : ∀ frame s rest below, w.activities = .program frame (s :: rest) :: below → T.Clear s w) :
    TracksAt T.side w v proceed (T.After τ fun _ => T.Rests) := by
  cases hw : w.activities with
  | nil =>
    rw [hw] at turn
    cases turn
  | cons a below =>
    rw [hw] at turn
    cases a with
    | program frame rest =>
      rw [World.cue, hw] at steps
      cases rest with
      | cons s rest => exact takesAt twin hw scene (Option.some.inj turn) steps (clear _ _ _ _ hw)
      | nil =>
        cases frame with
        | none => cases turn
        | some f => exact endsAt twin hw scene turn steps
    | delivering d errand => exact deliversAt twin hw scene control turn
    | teardown => cases turn
    | _ =>
      refine stopsAt twin hw scene (hw ▸ turn) (fun u under hu => ?_) (by simp)
      rw [proceed, stateM_get_bind, hu]

/-- A turn of a side is one of our share as well, if that is our side. -/
theorem goesAt (twin : T.Twin τ w v) (scene : Stacks T.ours τ head unlent w.activities v.activities)
    {c : Control} (poised : Poised τ head w.control c) (turn : w.turn T.ours τ = some T.side)
    (whims : T.side = true → v.whims.headD .pass = w.whims.headD .pass)
    (steps : T.side = true → ∀ frame rest below, v.activities = .program frame rest :: below →
      rest = w.cue.step.toList)
    (inOrder : w.inOrder = true)
    (listed : w.Listed) (isOpen : ∀ id, w.control = .script id → IsOpen w.sessions id)
    (clear : ∀ frame s rest below, w.control = .proceed →
      (∀ id budget, w.whims.headD .pass ≠ .upon id budget) →
      w.activities = .program frame (s :: rest) :: below → T.Clear s w) :
    TracksAt T.side w v advance (T.After τ fun _ => T.Rests) := by
  let w' : World := { w with whims := w.whims.tail }
  let v' : World := if T.side = true then { v with whims := v.whims.tail } else v
  have twin' : T.Twin τ w' v' := by
    cases side : T.side with
    | true => simp only [v', side, if_true]; exact { twin with }
    | false => simp only [v', side]; exact { twin with }
  have activities : v'.activities = v.activities := by simp only [v']; split <;> rfl
  have scene' : Stacks T.ours τ head unlent w'.activities v'.activities := activities ▸ scene
  -- a turn is what it is for what runs next and what the collector does
  have goes : ∀ y : Act Unit,
      (∀ u : World, u.control = w.control → u.whims.headD .pass = w.whims.headD .pass →
        advance.run u = y.run { u with whims := u.whims.tail }) →
      TracksAt T.side w' v' y (T.After τ fun _ => T.Rests) →
      TracksAt T.side w v advance (T.After τ fun _ => T.Rests) := fun y same done => by
    refine .of_eq (same w rfl rfl) (fun ours => ?_) (fun theirs => ?_) done
    · rw [same v (twin.control ours) (whims ours)]
      simp only [v', if_pos ours]
    · simp only [v', theirs]
      rfl
  have next : ∀ u : World,
      nextWhim.run u = (u.whims.headD .pass, { u with whims := u.whims.tail }) := fun _ => rfl
  cases control : w.control with
  | done =>
    rw [World.turn, control] at turn
    cases turn
  | script id =>
    rw [control] at poised
    cases poised with
    | @script b _ here =>
      rw [World.turn, control] at turn
      obtain rfl := Option.some.inj (here.symm.trans turn)
      have led := led_of_listed listed (isOpen id control) w.whims.tail
      have running : T.Holds (T.Running id) τ w' v' := ⟨twin', control, scene'⟩
      cases whim : w.whims.headD .pass with
      | amid steps budget =>
        refine goes (interrupt id steps budget) (fun u same same' => ?_)
            (interruptAt running here led steps budget)
        rw [advance, stateM_get_bind, stateM_run_bind, next, same, same', control, whim]
      | _ =>
        refine goes (runScript id) (fun u same same' => ?_) (runScriptAt running here led)
        rw [advance, stateM_get_bind, stateM_run_bind, next, same, same', control, whim]
  | leave ending =>
    rw [control] at poised
    cases poised with
    | @leave b _ _ has own =>
      rw [World.turn, control] at turn
      obtain rfl := Option.some.inj ((scene.topSide_eq has).symm.trans turn)
      refine goes (leaveBody ending) (fun u same same' => ?_)
          (leads_leaveBody has own w' v' ⟨twin', scene'⟩)
      rw [advance, stateM_get_bind, stateM_run_bind, next, same, control]
  | proceed =>
    cases whim : w.whims.headD .pass with
    | upon id budget =>
      refine goes (sweep id budget) (fun u same same' => ?_) ?_
      · rw [advance, stateM_get_bind, stateM_run_bind, next, same, same', control, whim]
      · rw [World.turn, control, whim] at turn
        exact sweepsAt ⟨twin', scene'⟩ control (calls_of_inOrder (w := w) inOrder control whim)
          (Option.some.inj turn)
    | _ =>
      refine goes proceed (fun u same same' => ?_) (proceedsAt twin' scene' control ?_ ?_ ?_)
      · rw [advance, stateM_get_bind, stateM_run_bind, next, same, same', control, whim]
      · rw [World.turn, control, whim] at turn
        exact turn
      · exact activities ▸ steps
      · exact fun frame s rest below => clear frame s rest below control fun _ _ no => by
          rw [whim] at no
          cases no

end Turn

end ScriptBridge.Host
