import ScriptBridge.Proofs.Declining
import ScriptBridge.Proofs.Innermost
import ScriptBridge.Proofs.Pushing
import ScriptBridge.Proofs.Returning

/-!
# ScriptBridge.Proofs.Underway

A call of a script function that has begun.  First its arguments are put on the host's frame
(`Call.Sending`), then the function is called (`Call.Starts`), and then its script runs
(`Call.Running`), until it comes back and the call ends (`Call.Ends`).  On the way other calls may
begin, which lie on this one and end before it goes on.

Main facts:

* `Call.sending_turn` — one turn of a call whose arguments are on their way;
* `Call.running_turn` — one turn of a call whose function has been called.
-/

namespace ScriptBridge.Host

open Script (Spine)

/-- A call of a script function that has begun, and the activities that it lies on. -/
structure Call where
  step : Step
  session : SessionId
  thread : Script.ThreadId
  base : Nat
  function : Script.Value
  outbound : List Session.Outbound
  calling : Calling
  rest : List Activity

/-- Whether the host waits for the runtime while an activity is innermost. -/
def Part.waits : Part → Bool
  | .runs _ | .sweeps | .closes => true
  | _ => false

theorem Nested.waits {told : Value → Script.Value → Prop} {noted : Nat → Spine → Prop} {p : Part} {ps : List Part} {q : Stand}
    {callers : List Spine} (h : Nested told noted (p :: ps) q callers) : q.waits = p.waits := by
  cases h with
  | shut all =>
    rw [all p List.mem_cons_self]
    rfl
  | _ => rfl

/-- What lies on the host's frame while the arguments of a call are put there. -/
theorem Nested.sends_inv {told : Value → Script.Value → Prop} {noted : Nat → Spine → Prop} {t : Script.ThreadId} {base : Nat}
    {f : Script.Value} {vs : List Value} {missing all : Nat} {ps : List Part} {S : Spine}
    {callers : List Spine} (h : Nested told noted (.sends t base f vs missing all :: ps) (.seated S) callers) :
    ∃ info upvalue operands new S', S = (t, .host info upvalue (new ++ f :: operands)) :: S'
      ∧ operands.length = base ∧ new.length + missing = all ∧ Conforms told vs new := by
  cases h with
  | sends _ count given _ => exact ⟨_, _, _, _, _, rfl, rfl, count, given⟩

/-- Where the host waits while the script of a call runs. -/
theorem Nested.runs_inv {told : Value → Script.Value → Prop} {noted : Nat → Spine → Prop} {base : Nat} {ps : List Part}
    {wait : Script.Wait} {S : Spine} {callers : List Spine}
    (h : Nested told noted (.runs base :: ps) (.under wait S) callers) :
    ∃ t info upvalue operands S', wait = .call ∧ S = (t, .host info upvalue operands) :: S'
      ∧ operands.length = base := by
  cases h with
  | runs _ => exact ⟨_, _, _, _, _, rfl, rfl, rfl⟩

namespace World

variable {w : World} {a : Activity} {base : List Activity} {d : Delivery} {errand : Errand}
  {s : Session} {μ : SessionId → Session.Memory} {π : Past} {Ss : SessionId → List Spine}
  {r : Option SessionId} {id : SessionId} {p : Part} {rest : List Activity}

/-- An activity that is in progress is innermost, or others lie on it. -/
theorem Covers.cases (h : w.Covers 0 (a :: base)) : w.Covers 1 (a :: base)
    ∨ ∃ b more, w.activities = b :: more ∧ b.shape = a.shape
      ∧ more.map Activity.shape = base.map Activity.shape := by
  obtain ⟨above, -, eq⟩ := h
  cases above with
  | cons b above => exact .inl ⟨b :: above, Nat.succ_le_succ (Nat.zero_le _), eq⟩
  | nil =>
    obtain ⟨b, more, hw, first, rest⟩ := List.map_eq_cons_iff.mp eq
    exact .inr ⟨b, more, hw, first, rest⟩

/-- A value that is put on the host's frame next has its pin, if it is a callable. -/
theorem Books.repins (hw : Books μ 0 w) (hs : w.sessions[d.session]? = some s) (ho : s.isOpen)
    (ha : .delivering d errand ∈ w.activities) {out : Session.Outbound}
    {left : List Session.Outbound} (hp : d.pin = none) (hl : d.left = out :: left) :
    ∃ r s', (Session.repin out).run.run s = (.ok r, s') := by
  obtain ⟨v, -, carries, K, held⟩ := next_of_left hp hl (hw.1.fits _ ha)
  have backed : ∀ h ∈ Session.carryHoldings d.session out v, s.id = d.session ∧ s.Backs h :=
    fun h hh => hw.backs hs ha (by rw [held]; exact Multiset.mem_add.mpr (.inl hh))
  rw [Session.repin]
  simp only [try_get_bind]
  cases hc : out.cell?.bind s.cell? with
  | none => exact ⟨_, _, rfl⟩
  | some c =>
    cases c with
    | pinned handle =>
      cases out with
      | nil => cases hc
      | owned cell =>
        obtain ⟨mine, back⟩ := backed (.out d.session cell v) (by
          simp [Session.carryHoldings, outHolding])
        obtain ⟨c', hc', conveys⟩ := back mine.symm
        obtain rfl := Option.some.inj (hc'.symm.trans hc)
        cases v with
        | callable f =>
          obtain ⟨handle', same, pinned⟩ := conveys
          cases same
          have twice : s.pins.repin handle = some (s.pins.pin f) := by
            rw [Registry.repin, pinned ho, Option.map_some]
          simp only [twice, pinned ho]
          exact ⟨_, _, rfl⟩
        | number | boolean | string => cases conveys
        | _ => exact conveys.elim
      | lent cell =>
        -- a reference is in a cell with an anchor
        have lent : ∀ r : Ref, .ref r ∈ v.holdings → r.session = d.session ∧ r.cell = cell →
            False := by
          rintro r mem ⟨here, rfl⟩
          obtain ⟨mine, back⟩ := backed (.ref r) (by simp [Session.carryHoldings, mem])
          obtain ⟨⟨c', a, hc', ha⟩, -⟩ := back (here.trans mine.symm)
          obtain rfl := Option.some.inj (hc'.symm.trans hc)
          cases ha
        cases v with
        | reference r | function r => exact (lent r (by simp [Value.holdings]) carries).elim
        | _ => exact carries.elim
    | _ => exact ⟨_, _, rfl⟩

/-- The runtime that runs is the one that the innermost activity waits for. -/
theorem Nests.waits_top (h : w.Nests π r Ss) (top : w.activities = a :: rest) (id : SessionId) :
    r = some id ↔ (a.part id).waits = true := by
  have here : ∀ s : Session, w.sessions[id]? = some s →
      (decide (r = some id)) = (a.part id).waits := by
    intro s hs
    obtain ⟨q, nested, -, waits⟩ := h.lies id s hs
    rw [World.parts, top, List.map_cons] at nested
    rw [← waits, nested.waits]
  constructor
  · intro runs
    obtain ⟨s, hs⟩ := h.runs id runs
    rw [← here s hs, decide_eq_true runs]
  · intro waits
    cases hs : w.sessions[id]? with
    | none =>
      have apart := (h.absent id hs).1 (a.part id) (List.mem_map_of_mem (top ▸ List.mem_cons_self))
      rw [apart] at waits
      cases waits
    | some s => exact of_decide_eq_true ((here s hs).trans waits)

/-- Host code may run where a turn of the host begins. -/
theorem Nests.rests (h : w.Nests π w.control.script? Ss) (proceeds : w.control = .proceed) :
    w.Rests := by
  rw [proceeds] at h
  exact rests_of_nests h

/-- A body is not left while values are delivered. -/
theorem covers_leave_delivering {ending : Ending} {count : Nat} {base : List Activity}
    (top : w.activities = .delivering d errand :: rest) (h : w.Covers count base) :
    Covers count base ((leaveBody ending).run w).2 := by
  have left : (leaveBody ending).run w
      = (dropValues ending.values).run { w with control := .proceed } := by
    obtain ⟨sessions, issued, names, slots, defined, directory, callables, next, activities, control,
      whims, events⟩ := w
    obtain rfl : activities = _ := top
    rfl
  rw [left]
  exact calm_dropValues steady_covers _ _ h

/-- How many steps the runtime that runs makes at most in the next turn. -/
def patience (w : World) : Nat :=
  match w.whims.headD .pass with
  | .amid steps _ => steps
  | _ => slice

/-- What is done with a runtime that has made its steps and does not wait for the host. -/
def pursue (w : World) (id : SessionId) : Act Unit :=
  match w.whims.headD .pass with
  | .amid _ budget => onSession id (Session.strike budget)
  | _ => pure ()

theorem covers_pursue (count : Nat) (base : List Activity) :
    Preserves (Covers count base) (w.pursue id) := by
  unfold pursue
  split
  · exact covers_onSession
  · exact .pure _

/-- A turn of a runtime: it runs until it waits, or has made so many steps. -/
theorem advance_script (control : w.control = .script id) : advance.run w = (do
    match ← onSession id (Session.runMachine w.patience) with
    | none => w.pursue id
    | some pause => attend id pause : Act Unit).run { w with whims := w.whims.tail } := by
  have whim : nextWhim.run w = (w.whims.headD .pass, { w with whims := w.whims.tail }) := rfl
  rw [advance, stateM_get_bind, stateM_run_bind, whim, control, patience, pursue]
  cases w.whims.headD .pass <;> rfl

end World

namespace Call

variable {k : Call} {s₀ : Session} {w : World} {a : Activity} {left : List Session.Outbound} {pin : Option Handle}
  {π : Past} {Ss : SessionId → List Spine} {μ : SessionId → Session.Memory}

/-- A call whose arguments are put on the host's frame. -/
def sends (k : Call) (left : List Session.Outbound) (pin : Option Handle) : Activity :=
  .delivering ⟨k.session, k.thread, k.outbound, left, pin⟩ (.call k.step k.base k.function k.calling)

/-- A call whose function has been called. -/
def runs (k : Call) : Activity := .step k.step (.calling k.session k.base k.outbound k.calling)

/-- Whether the arguments of a call are being put on the host's frame. -/
def Sending (k : Call) (w : World) : Prop := ∃ left pin, w.Covers 0 (k.sends left pin :: k.rest)

/-- Whether the function of a call has been called, and has not come back. -/
def Running (k : Call) (w : World) : Prop := w.Covers 0 (k.runs :: k.rest)

theorem shape_sends (h : a.shape = (k.sends left pin).shape) : ∃ c : Calling,
    a = .delivering ⟨k.session, k.thread, k.outbound, left, pin⟩ (.call k.step k.base k.function c)
      ∧ c.plain = k.calling.plain := by
  cases a with
  | delivering d errand =>
    cases errand with
    | call step base f c =>
      obtain ⟨rfl, eq⟩ := Activity.delivering.inj h
      obtain ⟨rfl, rfl, rfl, plain⟩ := Errand.call.inj eq
      exact ⟨c, rfl, plain⟩
    | _ => cases h
  | step s waiting => cases waiting <;> cases h
  | _ => cases h

theorem shape_runs (h : a.shape = k.runs.shape) : ∃ c : Calling,
    a = .step k.step (.calling k.session k.base k.outbound c) ∧ c.plain = k.calling.plain := by
  cases a with
  | step s waiting =>
    cases waiting with
    | calling id base outs c =>
      obtain ⟨rfl, eq⟩ := Activity.step.inj h
      obtain ⟨rfl, rfl, rfl, plain⟩ := Waiting.calling.inj eq
      exact ⟨c, rfl, plain⟩
    | _ => cases h
  | delivering d errand => cases errand <;> cases h
  | _ => cases h

/-- Whether the function of a call is called in a turn: with the arguments, each of which is what its
value has been, in order, and so that results and errors go to the host's frame. -/
def Starts (k : Call) (told : Value → Script.Value → Prop) (w w' : World) : Prop :=
  ∃ (s : Session) (info : Script.FrameInfo) (upvalue : Script.Value)
      (args operands : List Script.Value) (frames : List Script.Frame),
    w.sessions[k.session]? = some s ∧ s.machine.current = k.thread
    ∧ s.machine.frames = .host info upvalue (args.reverse ++ k.function :: operands) :: frames
    ∧ operands.length = k.base ∧ List.Forall₂ told (k.calling.args.map (·.1)) args
    ∧ k.Running w' ∧ w'.control = .script k.session
    ∧ w'.sessions[k.session]? = some { s with machine := { s.machine with
        frames := .mark ⟨(Script.Frame.host info upvalue operands).top, info.depth, true⟩ .fromHost
          :: .host info upvalue operands :: frames
        mode := .call k.function args } }

/-- Whether a call ends in a turn, and comes to a result: its runtime returns, or raises an error, and
the values that lie on the host's frame then are what it comes to.  What was made for the arguments is
gone, the references among them denote what they did, and the step goes on with them. -/
def Ends (k : Call) (s₀ : Session) (r : Except Failure (List Value)) (w w' : World) : Prop :=
  ∃ (s s' : Session) (raised : Bool) (info : Script.FrameInfo) (upvalue : Script.Value)
      (new operands : List Script.Value) (frames : List Script.Frame) (c : Calling) (u : World),
    w.control = .script k.session ∧ w.sessions[k.session]? = some s
    ∧ (s.machine.run w.patience).mode = .paused (if raised then .raised else .returned)
    ∧ (s.machine.run w.patience).frames = .host info upvalue (new ++ operands) :: frames
    ∧ operands.length = k.base ∧ s'.Comes raised new r ∧ s'.Lacks k.outbound s
    ∧ c.plain = k.calling.plain ∧ u.sessions[k.session]? = some s'
    ∧ u.activities.map Activity.shape = k.rest.map Activity.shape
    ∧ (∀ v ∈ c.args.map (·.1), ∀ q, v.ref? = some q → q.session = k.session →
      ∃ x, s'.object? q = some x ∧ ∀ y, s₀.object? q = some y → x = y)
    ∧ w' = ((World.finishCall k.step c (r.mapError Mishap.failure)).run u).2

/-- A call is still on its way when its delivery goes on. -/
theorem covers_sends {more : List Activity} {c : Calling}
    (top : w.activities = .delivering ⟨k.session, k.thread, k.outbound, left, pin⟩
      (.call k.step k.base k.function c) :: more) (plain : c.plain = k.calling.plain)
    (others : more.map Activity.shape = k.rest.map Activity.shape) :
    w.Covers 0 (k.sends left pin :: k.rest) := by
  refine ⟨[], Nat.le_refl 0, ?_⟩
  rw [top, List.map_cons, List.map_cons, List.nil_append, others, sends, Activity.shape, Activity.shape,
    plain]

/-- A call runs when its function has been called. -/
theorem covers_runs {more : List Activity} {c : Calling}
    (top : w.activities = .step k.step (.calling k.session k.base k.outbound c) :: more)
    (plain : c.plain = k.calling.plain)
    (others : more.map Activity.shape = k.rest.map Activity.shape) : k.Running w := by
  refine ⟨[], Nat.le_refl 0, ?_⟩
  rw [top, List.map_cons, List.map_cons, List.nil_append, others, runs, Activity.shape, Activity.shape,
    plain]

/-- The function is called when its arguments are on the host's frame. -/
theorem starts_delivered {more : List Activity} {c : Calling} (h : w.Nests π none Ss)
    (hw : World.Books μ 0 w)
    (top : w.activities = .delivering ⟨k.session, k.thread, k.outbound, [], none⟩
      (.call k.step k.base k.function c) :: more) (plain : c.plain = k.calling.plain)
    (others : more.map Activity.shape = k.rest.map Activity.shape) :
    k.Starts (π.told k.session) w ((World.deliverNext ⟨k.session, k.thread, k.outbound, [], none⟩
      (.call k.step k.base k.function c)).run w).2 := by
  have args : c.args = k.calling.args :=
    (congrArg Calling.args plain : c.plain.args = k.calling.plain.args)
  obtain ⟨S, nested, mid⟩ := h.mid_top top rfl (World.part_delivering _).1
  obtain ⟨info, upvalue, operands, new, S', rfl, base, count, given⟩ :=
    Nested.sends_inv nested
  obtain ⟨s, hs, on⟩ := mid.session
  obtain ⟨current, frames, -, hf, -, -⟩ := on.idle.top
  obtain ⟨carries, -⟩ := hw.1.fits _ (top ▸ List.mem_cons_self)
  have all : new.length = k.outbound.length := by
    rw [← count]
    rfl
  let u : World := { w with activities := w.activities.drop 1 }
  have ran : ((World.deliverNext ⟨k.session, k.thread, k.outbound, [], none⟩
      (.call k.step k.base k.function c)).run w).2 = { u.withSession k.session { s with
        machine := s.machine.startCall new.length } with
        activities := .step k.step (.calling k.session k.base k.outbound c) :: u.activities
        control := .script k.session } := by
    have there : u.sessions[k.session]? = some s := hs
    rw [all, World.deliverNext]
    simp only
    rw [stateM_run_bind, show (World.finishTop.run w).2 = u from rfl, World.delivered,
      stateM_run_bind, World.onSession_run_some there]
    rfl
  rw [ran, Script.Machine.startCall_eq hf]
  refine ⟨s, info, upvalue, new.reverse, operands, frames, hs, current, ?_, base, ?_,
    covers_runs rfl plain ?_, rfl,
    World.getElem?_withSession_self u k.session _⟩
  · rw [List.reverse_reverse]
    exact hf
  · rw [← args]
    exact given.all (all.trans carries.length_eq)
  · change (w.activities.drop 1).map Activity.shape = _
    rw [top]
    exact others

/-- One turn of a delivery for a call, if it is innermost and no runtime makes a collection. -/
theorem sending_next {more : List Activity} {c : Calling} (h : w.Nests π none Ss)
    (hw : World.Books μ 0 w) (proceeds : w.control = .proceed)
    (top : w.activities = .delivering ⟨k.session, k.thread, k.outbound, left, pin⟩
      (.call k.step k.base k.function c) :: more) (plain : c.plain = k.calling.plain)
    (others : more.map Activity.shape = k.rest.map Activity.shape) :
    let next := ((World.deliverNext ⟨k.session, k.thread, k.outbound, left, pin⟩
      (.call k.step k.base k.function c)).run w).2
    k.Sending next ∨ k.Starts (π.told k.session) w next := by
  intro next
  obtain ⟨S, -, mid⟩ := h.mid_top top rfl (World.part_delivering _).1
  obtain ⟨s, hs, on⟩ := mid.session
  have delivers : w.Delivers ⟨k.session, k.thread, k.outbound, left, pin⟩
      (.call k.step k.base k.function c) more s := ⟨proceeds, top, hs⟩
  cases pin with
  | some pin => exact .inl ⟨_, _, covers_sends (delivers.build rfl).1.top plain others⟩
  | none =>
    cases left with
    | nil => exact .inr (starts_delivered h hw top plain others)
    | cons out left =>
      obtain ⟨r, s', again⟩ := hw.repins hs on.isOpen (top ▸ List.mem_cons_self) rfl rfl
      exact .inl ⟨_, _, covers_sends (delivers.next rfl rfl again).1.top plain others⟩

/-- One turn of a call whose arguments are on their way, if nothing lies on it. -/
theorem sending_top {more : List Activity} {c : Calling} (h : w.Nests π w.control.script? Ss)
    (hw : World.Books μ 0 w)
    (top : w.activities = .delivering ⟨k.session, k.thread, k.outbound, left, pin⟩
      (.call k.step k.base k.function c) :: more) (plain : c.plain = k.calling.plain)
    (others : more.map Activity.shape = k.rest.map Activity.shape) :
    k.Sending (World.advance.run w).2 ∨ k.Starts (π.told k.session) w (World.advance.run w).2 := by
  have covers : World.Covers 0 (k.sends left pin :: k.rest) w := covers_sends top plain others
  let w₀ : World := { w with whims := w.whims.tail }
  have covers₀ : World.Covers 0 (k.sends left pin :: k.rest) w₀ := covers
  have whim : World.nextWhim.run w = (w.whims.headD .pass, w₀) := rfl
  cases control : w.control with
  | proceed =>
    rw [control] at h
    by_cases calm : ∀ id budget, w.whims.headD .pass ≠ .upon id budget
    · rw [World.advance_proceed control calm, World.proceed_delivering (w := w₀) top]
      exact @sending_next k w₀ left pin π Ss μ more c
        (World.steady_nests π none Ss _ _ h (.aside rfl rfl rfl rfl rfl rfl rfl rfl))
        ⟨{ hw.1 with }, hw.2⟩ control top plain others
    · obtain ⟨id, hid⟩ := not_forall.mp calm
      obtain ⟨budget, upon⟩ := not_forall_not.mp hid
      refine .inl ⟨left, pin, ?_⟩
      rw [World.advance, stateM_get_bind, stateM_run_bind, whim, control, upon]
      exact World.covers_sweep budget w₀ covers₀
  | script id =>
    rw [control] at h
    have waits := (h.waits_top top id).mp rfl
    rw [Activity.part, Activity.about?] at waits
    dsimp only at waits
    split at waits <;> cases waits
  | leave ending =>
    refine .inl ⟨left, pin, ?_⟩
    rw [World.advance, stateM_get_bind, stateM_run_bind, whim, control]
    cases w.whims.headD .pass <;> exact World.covers_leave_delivering (w := w₀) top covers₀
  | done =>
    refine .inl ⟨left, pin, ?_⟩
    rw [World.advance, stateM_get_bind, stateM_run_bind, whim, control]
    cases w.whims.headD .pass <;> exact covers₀

/-- One turn of a call whose arguments are on their way: they are afterwards, or its function is
called. -/
theorem sending_turn (h : w.Nests π w.control.script? Ss) (hw : World.Books μ 0 w)
    (sending : k.Sending w) : k.Sending (World.advance.run w).2
      ∨ k.Starts (π.told k.session) w (World.advance.run w).2 := by
  obtain ⟨left, pin, covers⟩ := sending
  obtain below | ⟨a, more, top, shape, others⟩ := covers.cases
  · exact .inl ⟨left, pin, World.covers_advance h.rests ⟨below, .inr fun b hb => by
      obtain rfl := Option.some.inj hb
      rfl⟩⟩
  · obtain ⟨c, rfl, plain⟩ := shape_sends shape
    exact sending_top h hw top plain others

/-- A call ends when its runtime has come back. -/
theorem ends_finishScript {more : List Activity} {c : Calling} {s : Session} {t : Script.ThreadId}
    {info : Script.FrameInfo} {upvalue : Script.Value} {new operands : List Script.Value} {S : Spine}
    {raised : Bool} (hw : World.Books μ 0 w)
    (top : w.activities = .step k.step (.calling k.session k.base k.outbound c) :: more)
    (hs : w.sessions[k.session]? = some s) (ho : s.isOpen) (active : s.active = some t)
    (idle : s.machine.Idle ((t, .host info upvalue (new ++ operands)) :: S))
    (base : operands.length = k.base) (one : raised → ∃ e, new = [e]) :
    ∃ r s' u, (World.finishScript k.session raised).run w
        = (World.finishCall k.step c (r.mapError Mishap.failure)).run u
      ∧ World.Replaces { w with activities := more } k.session s' u ∧ s'.isOpen
      ∧ s'.Comes raised new r ∧ s'.Lacks k.outbound s ∧ ∃ K, World.Books μ (c.holdings + K) u := by
  let w₀ : World := { w with activities := w.activities.drop 1 }
  have carries : List.Forall₂ (Session.Carries k.session) k.outbound (c.args.map (·.1)) :=
    hw.1.fits (.step k.step (.calling k.session k.base k.outbound c)) (top ▸ List.mem_cons_self)
  have books := World.keepsAt_finishTop top μ 0 (by rwa [add_zero])
  rw [add_zero] at books
  obtain ⟨r, s', u, run, replaces, ho', comes, lacks, K, books'⟩ :=
    World.finishCalling_comes (w := w₀) k.step books carries hs ho active idle.operandsOf one
  refine ⟨r, s', u, ?_, ?_, ho', comes, lacks, K, books'⟩
  · rw [World.finishScript, stateM_get_bind, top]
    simp only
    rw [stateM_run_bind, ← base]
    exact run
  · have rest : w₀ = { w with activities := more } := by
      change ({ w with activities := w.activities.drop 1 } : World) = _
      rw [top]
      rfl
    rwa [rest] at replaces

/-- One turn of a call whose function has been called, if nothing lies on it. -/
theorem running_top {more : List Activity} {c : Calling} (h : w.Nests π w.control.script? Ss)
    (hw : World.Books μ 0 w)
    (seen : ∀ q x, q.session = k.session → s₀.object? q = some x → μ k.session q.cell = some x)
    (top : w.activities = .step k.step (.calling k.session k.base k.outbound c) :: more)
    (plain : c.plain = k.calling.plain)
    (others : more.map Activity.shape = k.rest.map Activity.shape) :
    k.Running (World.advance.run w).2 ∨ ∃ r, k.Ends s₀ r w (World.advance.run w).2 := by
  have running : World.Covers 0 (k.runs :: k.rest) w := covers_runs top plain others
  have script : w.control = .script k.session := by
    have waits := (h.waits_top top k.session).mpr (by
      rw [Activity.part, Activity.about?]
      simp [Part.waits])
    cases control : w.control with
    | script id => rw [control] at waits; rw [Option.some.inj waits]
    | _ => rw [control] at waits; cases waits
  rw [script] at h
  obtain ⟨wait, S, nested, mid⟩ := h.mid_script
  rw [World.parts, top, List.map_cons, Activity.part_self rfl] at nested
  obtain ⟨t, info, upvalue, operands, S, rfl, rfl, base⟩ := nested.runs_inv
  obtain ⟨s, hs, under⟩ := mid.session
  obtain ⟨ho, active, goes, -⟩ := Session.leads_runMachine w.patience s under
  let s₁ : Session := { s with machine := s.machine.run w.patience }
  let w₁ : World := World.withSession { w with whims := w.whims.tail } k.session s₁
  have running₁ : World.Covers 0 (k.runs :: k.rest) w₁ := running
  have hs₀ : ({ w with whims := w.whims.tail } : World).sessions[k.session]? = some s := hs
  have ran : (World.onSession k.session (Session.runMachine w.patience)).run
      { w with whims := w.whims.tail } = ((s.machine.run w.patience).pause?, w₁) :=
    World.onSession_run_some hs₀
  rw [World.advance_script script, stateM_run_bind, ran]
  change s₁.machine.Goes _ at goes
  cases hp : (s.machine.run w.patience).pause? with
  | none => exact .inl (World.covers_pursue 0 _ w₁ running₁)
  | some pause =>
    have mode := World.mode_of_pause hp
    obtain lies | answers := goes
    · obtain rfl | ⟨target, rfl⟩ | rfl := lies.pause mode
      · exact .inl (World.covers_serve w₁ running₁)
      · exact .inl (World.covers_releaseHandle target w₁ running₁)
      · exact .inl (World.covers_onSession w₁ running₁)
    · obtain ⟨new, on, came⟩ := answers.idle_call
      obtain ⟨raised, ends, one⟩ : ∃ raised : Bool,
          s₁.machine.mode = .paused (if raised then .raised else .returned)
            ∧ (raised → ∃ e, new = [e]) := by
        obtain came | ⟨came, one⟩ := came
        · exact ⟨false, came, fun raised => absurd raised Bool.false_ne_true⟩
        · exact ⟨true, came, fun _ => one⟩
      obtain rfl : pause = if raised then .raised else .returned :=
        Script.Mode.paused.inj (mode.symm.trans ends)
      have attends : World.attend k.session (if raised then .raised else .returned)
          = World.finishScript k.session raised := by cases raised <;> rfl
      have aside : Keeps World.Books 0 (World.onSession k.session (Session.runMachine w.patience))
          fun _ => 0 := World.keeps_onSession_aside fun _ => Session.keeps_runMachine w.patience
      have kept := aside { w with whims := w.whims.tail } μ 0 ⟨{ hw.1 with }, hw.2⟩
      rw [ran] at kept
      obtain ⟨r, s', u, run, replaces, ho', comes, lacks, K, books⟩ := ends_finishScript (w := w₁)
        kept top (World.getElem?_withSession_self ..) ho active on base one
      obtain ⟨-, frames, -, hf, -, -⟩ := on.top
      refine .inr ⟨r, s, s', raised, info, upvalue, new, operands, frames, c, u, script, hs, ends, hf,
        base, comes, lacks, plain, replaces.session, ?_, ?_, ?_⟩
      · rw [replaces.activities]
        exact others
      · intro v hv q hq mine
        obtain ⟨x, hx, -, same⟩ := books.recalls (Multiset.mem_add.mpr (.inl
          (World.mem_callings hv (Value.mem_holdings_ref hq)))) (by rw [mine]; exact replaces.session) ho'
        exact ⟨x, hx, fun y hy => (same y (by rw [mine]; exact seen q y mine hy)).symm⟩
      · simp only [attends]
        rw [run]

/-- One turn of a call whose function has been called: it goes on, or the call ends. -/
theorem running_turn (h : w.Nests π w.control.script? Ss) (hw : World.Books μ 0 w)
    (seen : ∀ q x, q.session = k.session → s₀.object? q = some x → μ k.session q.cell = some x)
    (running : k.Running w) : k.Running (World.advance.run w).2
      ∨ ∃ r, k.Ends s₀ r w (World.advance.run w).2 := by
  obtain below | ⟨a, more, top, shape, others⟩ := running.cases
  · exact .inl (World.covers_advance h.rests ⟨below, .inr fun b hb => by
      obtain rfl := Option.some.inj hb
      rfl⟩)
  · obtain ⟨c, rfl, plain⟩ := shape_runs shape
    exact running_top h hw seen top plain others

end Call

end ScriptBridge.Host
