import ScriptBridge.Proofs.Listing
import ScriptBridge.Proofs.Shares
import ScriptBridge.Proofs.Tracks

/-!
# ScriptBridge.Proofs.Twins

A world in which two sides take turns, and the share of it that is ours.  `Turn.Twin` says what the
two have to do with each other in the middle of a turn of a side, but for what is in progress, of which
a `Scene` tells.  `Turn.Leads` is the logic of what happens in a turn: our share follows if the turn is
ours, and stays as it is if it is not.

Main facts:

* `Turn.leads_onSession`, `Turn.keeps_retain`, `Turn.keeps_report` — what is done to a side's things;
* `Turn.keeps_release` — whatever is let go of, and all that it sets free, is that side's.
-/

namespace ScriptBridge.Host

open scoped CoreInstances

/-- The callables of a side. -/
def Sides.mine (τ : Sides) (b : Bool) (f : CallableId) : Prop := τ.callable f = some b

/-- Whether a world is our share of another one, but for what is in progress. -/
structure Share (ours : String → Bool) (address : SessionId → Address) (τ : Sides) (w v : World) :
    Prop where
  sessions : Split τ.session (fun b id s => s.Keeper (τ.mine b) id s.isOpen) w.sessions v.sessions
  slots : Split (fun n => some (ours n)) (fun b _ s => τ.Owns b s.value) w.slots v.slots
  defined : Split (fun n => some (ours n)) (fun b _ f => τ.mine b f) w.defined v.defined
  callables : Split τ.callable (fun b _ c => c.Of ours τ b) w.callables v.callables
  names : v.names = w.names.filter fun e => ours e.1
  named : ∀ e ∈ w.names, τ.session e.2 = some (ours e.1)
  there : ∀ id b, τ.session id = some b → id ≤ w.issued ∧ ∃ s, w.sessions[id]? = some s
  made : ∀ f, (∃ b, τ.callable f = some b) ↔ f < w.nextCallable
  mapped : v.directory.Sound (World.IsOpen v.sessions) 0
  enrolled : ∀ (id : SessionId) (r : Registration), v.directory.registrations[id]? = some r →
    τ.session id = some true
  address : v.directory.address = address

/-- A turn: the sides, whose turn it is, where runtimes are, and what had been reported before, in all
and in our share. -/
structure Turn where
  ours : String → Bool
  side : Bool
  address : SessionId → Address
  told : List Happening
  heard : List Happening

namespace Turn

variable {T : Turn} {τ τ' : Sides} {w v : World} {id : SessionId}

/-- Whether a world is our share of another one in the middle of a turn, but for what is in progress. -/
structure Twin (T : Turn) (τ : Sides) (w v : World) : Prop extends Share T.ours T.address τ w v where
  numbers : T.side = true → v.issued = w.issued ∧ v.nextCallable = w.nextCallable
  control : T.side = true → v.control = w.control
  reports : T.side = true → ∃ new, w.events.map Event.what = new ++ T.told
    ∧ v.events.map Event.what = new ++ T.heard

/-- In a turn of the other side nothing is known of what our share runs next, nor of what it reports. -/
theorem Twin.theirs (h : Share T.ours T.address τ w v) (theirs : T.side = false) : T.Twin τ w v where
  toShare := h
  numbers ours := by cases theirs.symm.trans ours
  control ours := by cases theirs.symm.trans ours
  reports ours := by cases theirs.symm.trans ours

namespace Twin

/-- A session is worked on, and the session map. -/
theorem withDirectory (h : T.Twin τ w v) (here : τ.session id = some T.side) {s' : Session}
    (keeper : s'.Keeper (τ.mine T.side) id s'.isOpen) (d d' : Directory)
    (mapped : T.side = true → d'.Sound (World.IsOpen (v.withSession id s').sessions) 0
      ∧ (∀ (id : SessionId) (r : Registration), d'.registrations[id]? = some r →
        τ.session id = some true)
      ∧ d'.address = T.address) :
    T.Twin τ { w.withSession id s' with directory := d }
      (if T.side = true then { v.withSession id s' with directory := d' } else v) := by
  have split := h.sessions.update here (f := fun t => (t.insert id default).insert id s')
    (fun t j ne => by rw [getElem?_insert_of_ne ne, getElem?_insert_of_ne ne]) (fun _ => by simp)
    fun u hu => by
      simp only [Std.TreeMap.getElem?_insert_self, Option.some.injEq] at hu
      rw [← hu]
      exact keeper
  have there : ∀ j b, τ.session j = some b → j ≤ w.issued
      ∧ ∃ u, ((w.sessions.insert id default).insert id s')[j]? = some u := fun j b hj => by
    obtain ⟨issued, u, hu⟩ := h.there j b hj
    refine ⟨issued, ?_⟩
    by_cases same : j = id
    · exact ⟨s', by rw [same, Std.TreeMap.getElem?_insert_self]⟩
    · exact ⟨u, by rw [getElem?_insert_of_ne same, getElem?_insert_of_ne same, hu]⟩
  cases side : T.side with
  | false =>
    rw [side] at split
    exact .theirs { h.toShare with sessions := split, there := there } side
  | true =>
    rw [side] at split
    obtain ⟨mapped, enrolled, address⟩ := mapped side
    exact { h with
      sessions := split, there := there, mapped := mapped, enrolled := enrolled, address := address }

/-- A session is worked on that stays open, or stays closed. -/
theorem withSession (h : T.Twin τ w v) (here : τ.session id = some T.side) {s s' : Session}
    (hs : w.sessions[id]? = some s) (keeper : s'.Keeper (τ.mine T.side) id s.isOpen) :
    T.Twin τ (w.withSession id s') (if T.side = true then v.withSession id s' else v) := by
  refine h.withDirectory here (keeper.isOpen.symm ▸ keeper) w.directory v.directory fun ours => ?_
  refine ⟨h.mapped.congr fun j => ?_, h.enrolled, h.address⟩
  rw [World.isOpen_withSession, keeper.isOpen]
  by_cases same : j = id
  · subst same
    simp [World.IsOpen, h.sessions.ours (ours ▸ here), hs]
  · simp [same]

/-- A table of callables is changed by the side whose turn it is. -/
theorem withCallables (h : T.Twin τ w v)
    {f : Std.TreeMap CallableId Callable → Std.TreeMap CallableId Callable}
    (split : Split τ.callable (fun b _ c => c.Of T.ours τ b) (f w.callables)
      (if T.side = true then f v.callables else v.callables)) :
    T.Twin τ { w with callables := f w.callables }
      (if T.side = true then { v with callables := f v.callables } else v) := by
  cases side : T.side with
  | false => rw [side] at split; exact { h with callables := split }
  | true => rw [side] at split; exact { h with callables := split }

theorem withSlots (h : T.Twin τ w v) {f : Slots → Slots}
    (split : Split (fun n => some (T.ours n)) (fun b _ s => τ.Owns b s.value) (f w.slots)
      (if T.side = true then f v.slots else v.slots)) :
    T.Twin τ { w with slots := f w.slots }
      (if T.side = true then { v with slots := f v.slots } else v) := by
  cases side : T.side with
  | false => rw [side] at split; exact { h with slots := split }
  | true => rw [side] at split; exact { h with slots := split }

theorem withDefined (h : T.Twin τ w v)
    {f : Std.TreeMap String CallableId → Std.TreeMap String CallableId}
    (split : Split (fun n => some (T.ours n)) (fun b _ g => τ.mine b g) (f w.defined)
      (if T.side = true then f v.defined else v.defined)) :
    T.Twin τ { w with defined := f w.defined }
      (if T.side = true then { v with defined := f v.defined } else v) := by
  cases side : T.side with
  | false => rw [side] at split; exact { h with defined := split }
  | true => rw [side] at split; exact { h with defined := split }

/-- What is in progress has nothing to do with it, and neither has what runs. -/
theorem withControl (h : T.Twin τ w v) (c : Control) :
    T.Twin τ { w with control := c } (if T.side = true then { v with control := c } else v) := by
  cases side : T.side with
  | false => exact .theirs { h.toShare with } side
  | true => exact { h with control := fun _ => rfl }

theorem withActivities (h : T.Twin τ w v) (as bs : List Activity) :
    T.Twin τ { w with activities := as }
      (if T.side = true then { v with activities := bs } else v) := by
  cases side : T.side with
  | false => exact { h with }
  | true => exact { h with }

theorem withEvent (h : T.Twin τ w v) (e e' : Event) (same : e'.what = e.what) :
    T.Twin τ { w with events := e :: w.events }
      (if T.side = true then { v with events := e' :: v.events } else v) := by
  cases side : T.side with
  | false => exact .theirs { h.toShare with } side
  | true =>
    refine { h with reports := fun _ => ?_ }
    obtain ⟨new, told, heard⟩ := h.reports side
    exact ⟨e.what :: new, congrArg (e.what :: ·) told,
      (congrArg (e'.what :: ·) heard).trans (by rw [same]; rfl)⟩

/-- A session of ours is the same in our share. -/
theorem session_ours (h : T.Twin τ w v) (ours : T.side = true) (here : τ.session id = some T.side) :
    v.sessions[id]? = w.sessions[id]? := h.sessions.ours (ours ▸ here)

theorem callable_ours (h : T.Twin τ w v) (ours : T.side = true) {f : CallableId}
    (here : τ.callable f = some T.side) : v.callables[f]? = w.callables[f]? :=
  h.callables.ours (ours ▸ here)

theorem defined_ours (h : T.Twin τ w v) (ours : T.side = true) {name : String}
    (here : T.ours name = T.side) : v.defined[name]? = w.defined[name]? :=
  h.defined.ours (congrArg some (here.trans ours))

end Twin

/-! ## What happens in a turn -/

end Turn

/-- What is known of what is in progress, in all and in our share, and of what runs next. -/
abbrev Scene := Sides → List Activity → List Activity → Control → Prop

/-- Something is known of a result, and the scene. -/
def With {α : Type} (F : Sides → α → Prop) (K : Scene) (a : α) : Scene :=
  fun τ wa va c => F τ a ∧ K τ wa va c

namespace Turn

variable {α β : Type} {T : Turn} {τ τ' : Sides} {w v : World} {id : SessionId} {K K' : Scene}
  {x : Act α} {f : α → Act β}
  {Q Q' : α → Scene} {R : β → Scene} {F F' : Sides → α → Prop} {G : Sides → β → Prop}

/-- Whether a world is our share of another one, in a scene. -/
def Holds (T : Turn) (K : Scene) (τ : Sides) (w v : World) : Prop :=
  T.Twin τ w v ∧ K τ w.activities v.activities w.control

/-- What is so after something that happens in a turn.  More things may have come to be somebody's. -/
def After (T : Turn) (τ : Sides) (Q : α → Scene) (a : α) (w v : World) : Prop :=
  ∃ τ', τ.Le T.side τ' ∧ T.Holds (Q a) τ' w v

/-- Whether something that happens in a turn leads from one scene to others, and our share follows. -/
def Leads (T : Turn) (τ : Sides) (K : Scene) (x : Act α) (Q : α → Scene) : Prop :=
  Tracks T.side (T.Holds K τ) x (T.After τ Q)

theorem After.le {a : α} (h : T.After τ' Q a w v) (le : τ.Le T.side τ') : T.After τ Q a w v :=
  let ⟨τ'', le', holds⟩ := h
  ⟨τ'', le.trans le', holds⟩

theorem After.mono {a : α} (h : T.After τ Q a w v)
    (after : ∀ τ', τ.Le T.side τ' → ∀ wa va c, Q a τ' wa va c → Q' a τ' wa va c) : T.After τ Q' a w v :=
  let ⟨τ', le, twin, scene⟩ := h
  ⟨τ', le, twin, after τ' le _ _ _ scene⟩

/-- One thing happens after the other. -/
theorem bindAt (hx : TracksAt T.side w v x (T.After τ Q))
    (hf : ∀ a τ', τ.Le T.side τ' → T.Leads τ' (Q a) (f a) R) :
        TracksAt T.side w v (x >>= f) (T.After τ R) := by
  refine hx.bind fun a w v ⟨τ', le, here⟩ => ?_
  exact (hf a τ' le w v here).mono fun _ _ _ after => after.le le

/-- Nothing is changed that the scene is about. -/
theorem modifyAt {f : World → World} (twin : T.Twin τ (f w) (if T.side = true then f v else v))
    (scene : K τ w.activities v.activities w.control)
    (activities : ∀ w, (f w).activities = w.activities)
    (control : (f w).control = w.control) :
    TracksAt T.side w v (modify f : Act PUnit) (T.After τ fun _ => K) := by
  refine .modify ⟨τ, .refl T.side τ, twin, ?_⟩
  rw [activities, control]
  cases T.side with
  | true => rw [if_pos rfl, activities]; exact scene
  | false => exact scene

namespace Leads

theorem pure {a : α} (h : ∀ wa va c, K τ wa va c → Q a τ wa va c) : T.Leads τ K (pure a) Q :=
  fun _ _ hw => .pure ⟨τ, .refl T.side τ, hw.1, h _ _ _ hw.2⟩

theorem bind (hx : T.Leads τ K x Q) (hf : ∀ a τ', τ.Le T.side τ' → T.Leads τ' (Q a) (f a) R) :
    T.Leads τ K (x >>= f) R := fun w v h => bindAt (hx w v h) hf

theorem mono (h : T.Leads τ K x Q) (before : ∀ wa va c, K' τ wa va c → K τ wa va c)
    (after : ∀ a τ', τ.Le T.side τ' → ∀ wa va c, Q a τ' wa va c → Q' a τ' wa va c) :
        T.Leads τ K' x Q' :=
  fun w v hw => (h w v ⟨hw.1, before _ _ _ hw.2⟩).mono fun a _ _ here => here.mono (after a)

/-- What is known before, and has nothing to do with the worlds. -/
theorem given {C : Sides → Prop} (h : C τ → T.Leads τ K x Q) :
    T.Leads τ (fun τ wa va c => C τ ∧ K τ wa va c) x Q :=
  fun w v ⟨twin, known, scene⟩ => h known w v ⟨twin, scene⟩

theorem bindWith (hx : T.Leads τ K x (With F K'))
    (hf : ∀ a τ', τ.Le T.side τ' → F τ' a → T.Leads τ' K' (f a) R) :
    T.Leads τ K (x >>= f) R :=
  hx.bind fun a τ' le => .given (C := fun τ => F τ a) (hf a τ' le)

theorem get {f : World → Act α} (same : ∀ w v, T.Holds K τ w v → T.side = true → f v = f w)
    (h : ∀ w v, T.Holds K τ w v → TracksAt T.side w v (f w) (T.After τ Q)) :
    T.Leads τ K (get >>= f) Q := Tracks.get same h

end Leads

/-- Whether something happens that leaves the scene as it is. -/
def Keeps (T : Turn) (τ : Sides) (K : Scene) (x : Act α) : Prop := T.Leads τ K x fun _ => K

/-- Whether something that may fail leaves the scene as it is, and something is so of what it makes. -/
def Tries (T : Turn) (τ : Sides) (K : Scene) (y : Try α) (F : Sides → α → Prop) : Prop :=
  T.Leads τ K y.run (With (fun τ => OnOk (F τ)) K)

theorem Keeps.modify {f : World → World} (h : ∀ w v, T.Twin τ w v →
      T.Twin τ (f w) (if T.side = true then f v else v))
    (activities : ∀ w, (f w).activities = w.activities) (control : ∀ w, (f w).control = w.control) :
    T.Keeps τ K (modify f) := fun w v hw => modifyAt (h w v hw.1) hw.2 activities (control w)

theorem Keeps.with (hx : T.Keeps τ K x) : T.Leads τ K x (With (fun _ _ => True) K) :=
  hx.mono (fun _ _ _ h => h) fun _ _ _ _ _ _ h => ⟨trivial, h⟩

namespace Tries

variable {y : Try α} {g : α → Try β}

theorem pure {a : α} (h : F τ a) : T.Tries τ K (pure a) F := Leads.pure fun _ _ _ scene => ⟨h, scene⟩

theorem throw (e : Mishap) : T.Tries τ K (throw e : Try α) F :=
  Leads.pure fun _ _ _ scene => ⟨trivial, scene⟩

theorem lift (hx : T.Leads τ K x (With F K)) : T.Tries τ K (ExceptT.lift x : Try α) F := fun w v h => by
  have here := hx w v h
  refine ⟨fun ours => congrArg Except.ok (here.same ours), ?_⟩
  have after := here.after
  cases hσ : T.side <;> rw [hσ] at after <;> exact after

theorem keeps (hx : T.Keeps τ K x) : T.Tries τ K (ExceptT.lift x : Try α) fun _ _ => True :=
    lift hx.with

theorem mono (hy : T.Tries τ K y F) (after : ∀ a τ', τ.Le T.side τ' → F τ' a → F' τ' a) :
    T.Tries τ K y F' :=
  Leads.mono hy (fun _ _ _ h => h) fun r τ' le _ _ _ ⟨known, scene⟩ => ⟨by
    cases r with
    | ok a => exact after a τ' le known
    | error e => trivial, scene⟩

theorem bind (hy : T.Tries τ K y F) (hg : ∀ a τ', τ.Le T.side τ' → F τ' a → T.Tries τ' K (g a) G) :
    T.Tries τ K (y >>= g) G := by
  unfold Tries
  rw [ExceptT.run_bind]
  refine Leads.bindWith hy fun r τ' le known => ?_
  cases r with
  | ok a => exact hg a τ' le known
  | error e => exact Leads.pure fun _ _ _ scene => ⟨trivial, scene⟩

theorem tryCatch {handle : Mishap → Try α} (hy : T.Tries τ K y F)
    (hh : ∀ e τ', τ.Le T.side τ' → T.Tries τ' K (handle e) F) :
        T.Tries τ K (MonadExcept.tryCatch y handle) F := by
  unfold Tries
  rw [ExceptT.run_tryCatch]
  refine Leads.bindWith hy fun r τ' le known => ?_
  cases r with
  | ok a => exact Leads.pure fun _ _ _ scene => ⟨known, scene⟩
  | error e => exact hh e τ' le

theorem get {f : World → Try α} (same : ∀ w v, T.Holds K τ w v → T.side = true → f v = f w)
    (h : ∀ w v, T.Holds K τ w v →
      TracksAt T.side w v (f w).run (T.After τ (With (fun τ => OnOk (F τ)) K))) :
    T.Tries τ K (MonadState.get >>= f) F := fun w v hw => by
  have here := TracksAt.get (f := fun w => (f w).run)
    (fun ours => by rw [same w v hw ours]) (h w v hw)
  exact here

end Tries

/-! ## Work on sessions -/

open World

/-- A session of the side whose turn it is is worked on. -/
theorem leads_onSession [Inhabited α] {op : Op α} {F : α → Prop} (here : τ.session id = some T.side)
    (keeper : ∀ o, ScriptBridge.Leads (Session.Keeper (τ.mine T.side) id o) op
      fun a s => F a ∧ s.Keeper (τ.mine T.side) id o) :
    T.Leads τ K (onSession id op) (With (fun _ => F) K) := by
  intro w v ⟨twin, scene⟩
  obtain ⟨-, s, hs⟩ := twin.there id _ here
  obtain ⟨known, after⟩ := keeper s.isOpen s (twin.sessions.holds hs here)
  have run : (onSession id op).run w = _ := onSession_run_some hs
  have twin' := twin.withSession here hs after
  cases side : T.side with
  | false =>
    rw [side] at twin'
    refine ⟨fun ours => (by cases ours), τ, .refl T.side τ, ?_⟩
    rw [run]
    exact ⟨twin', known, scene⟩
  | true =>
    have run' : (onSession id op).run v = _ :=
      onSession_run_some ((twin.session_ours side here).trans hs)
    rw [side] at twin'
    refine ⟨fun _ => by rw [run, run'], τ, .refl T.side τ, ?_⟩
    rw [run, follow, if_pos rfl, run']
    exact ⟨twin', known, scene⟩

theorem keeps_onSession [Inhabited α] {op : Op α} (here : τ.session id = some T.side)
    (keeper : ∀ o, Preserves (Session.Keeper (τ.mine T.side) id o) op) :
    T.Keeps τ K (onSession id op) :=
  (leads_onSession (F := fun _ => True) here fun o => .mono (.of_preserves (keeper o)) (fun _ h => h)
    fun _ _ h => ⟨trivial, h⟩).mono (fun _ _ _ h => h) fun _ _ _ _ _ _ h => h.2

/-- A session of the side whose turn it is is asked for something. -/
theorem leads_attemptOn {op : Attempt α} {F : α → Prop} (here : τ.session id = some T.side)
    (keeper : ∀ o, ScriptBridge.Leads (Session.Keeper (τ.mine T.side) id o) op.run
      (Outcome (fun _ => Session.Keeper (τ.mine T.side) id o)
        fun a s => F a ∧ s.Keeper (τ.mine T.side) id o)) :
    T.Leads τ K (attemptOn id op) (With (fun _ => OnOk F) K) :=
  leads_onSession here fun o => (keeper o).mono (fun _ h => h) fun r s h => by
    cases r with
    | ok a => exact h
    | error e => exact ⟨trivial, h⟩

theorem leads_attemptOn_preserves {op : Attempt α} (here : τ.session id = some T.side)
    (keeper : ∀ o, Preserves (Session.Keeper (τ.mine T.side) id o) op.run) :
    T.Keeps τ K (attemptOn id op) := keeps_onSession here keeper

theorem tries_trySession {op : Attempt α} {F : α → Prop} (here : τ.session id = some T.side)
    (keeper : ∀ o, ScriptBridge.Leads (Session.Keeper (τ.mine T.side) id o) op.run
      (Outcome (fun _ => Session.Keeper (τ.mine T.side) id o)
        fun a s => F a ∧ s.Keeper (τ.mine T.side) id o)) :
    T.Tries τ K (trySession id op) fun _ => F :=
  .bind (.lift (F := fun _ => OnOk F) (leads_attemptOn here keeper)) fun r τ' le known => by
    cases r with
    | ok a => exact .pure known
    | error f => exact .throw _

/-! ## Reports, and what runs next -/

theorem keeps_report (what : Happening) : T.Keeps τ K (World.report what) := fun w v ⟨twin, scene⟩ => by
  refine ⟨fun _ => rfl, τ, .refl T.side τ, ?_⟩
  have twin' := twin.withEvent ⟨what, w.depth, w.outstanding⟩ ⟨what, v.depth, v.outstanding⟩ rfl
  cases side : T.side with
  | false => rw [side] at twin'; exact ⟨twin', scene⟩
  | true => rw [side] at twin'; exact ⟨twin', scene⟩

theorem leads_setControl (c : Control) :
    T.Leads τ K (setControl c) fun _ τ wa va c' => c' = c ∧ ∃ c, K τ wa va c := by
  intro w v ⟨twin, scene⟩
  refine ⟨fun _ => rfl, τ, .refl T.side τ, ?_⟩
  have twin' := twin.withControl c
  cases side : T.side with
  | false => rw [side] at twin'; exact ⟨twin', rfl, _, scene⟩
  | true => rw [side] at twin'; exact ⟨twin', rfl, _, scene⟩

/-! ## Letting go -/

/-- Whether something to be let go of is one of a side. -/
def ChoreOf (τ : Sides) (b : Bool) : Chore → Prop
  | .value v => τ.Owns b v
  | .cell id _ => τ.session id = some b
  | .callable f => τ.mine b f
  | .settle id _ => τ.session id = some b

theorem ChoreOf.le {b g : Bool} {c : Chore} (h : ChoreOf τ b c) (le : τ.Le g τ') : ChoreOf τ' b c := by
  cases c with
  | value v => exact le.owns h
  | cell id _ | settle id _ => exact le.session _ _ h
  | callable f => exact le.callable _ _ h

/-- What is set free is the side's whose thing is let go of. -/
theorem leads_chore {c : Chore} (mine : ChoreOf τ T.side c) :
    T.Leads τ K (chore c) (With (fun τ cs => ∀ c ∈ cs, ChoreOf τ T.side c) K) := by
  cases c with
  | value v =>
    cases v with
    | reference r | function r | callable f =>
      exact .pure fun _ _ _ scene => ⟨fun c hc => by rw [List.mem_singleton.mp hc]; exact mine, scene⟩
    | _ => exact .pure fun _ _ _ scene => ⟨fun c hc => (by cases hc), scene⟩
  | cell id k =>
    refine Leads.bindWith (leads_onSession mine fun o => Session.keeper_withdraw k)
      fun r τ' le pins => ?_
    refine .pure fun _ _ _ scene => ⟨fun c hc => ?_, scene⟩
    obtain hc | hc := List.mem_append.mp hc
    · obtain ⟨f, hf, rfl⟩ := List.mem_map.mp hc
      exact le.callable _ _ (pins f (Option.mem_toList.mp hf))
    · rw [List.mem_singleton.mp hc]
      exact le.session _ _ mine
  | settle id n =>
    refine Leads.bind (keeps_onSession mine fun o => Session.keeper_settle n) fun _ τ' le => ?_
    exact .pure fun _ _ _ scene => ⟨fun c hc => (by cases hc), scene⟩
  | callable f =>
    refine .get (fun w v h ours => by rw [h.1.callable_ours ours mine]) fun w v h => ?_
    cases hc : w.callables[f]? with
    | none => exact .pure ⟨τ, .refl T.side τ, h.1, fun c hc => (by cases hc), h.2⟩
    | some c =>
      have own := h.1.callables.holds hc mine
      dsimp only
      have none : ∀ c ∈ ([] : List Chore), ChoreOf τ T.side c := fun c hc => by cases hc
      split
      · have other : Callable.Of T.ours τ T.side { c with owners := c.owners - 1 } :=
          ⟨own.steps, own.results, own.captured⟩
        have less := h.1.withCallables (f := fun t => t.insert f { c with owners := c.owners - 1 })
          (h.1.callables.insert mine other)
        exact bindAt (modifyAt less h.2 (fun _ => rfl) rfl) fun _ τ' _ =>
          .pure fun _ _ _ scene => ⟨fun c hc => (by cases hc), scene⟩
      · have gone : ∀ τ', τ.Le T.side τ' → T.Leads τ' K (do
            modify fun w => { w with callables := w.callables.erase f }
            return c.captured.toList.map fun e => .value e.2.value : Act (List Chore))
            (With (fun τ cs => ∀ c ∈ cs, ChoreOf τ T.side c) K) := fun τ' le => by
          refine Leads.bind (Keeps.modify (fun w v twin => twin.withCallables (f := fun t => t.erase f)
            (twin.callables.erase (le.callable _ _ mine))) (fun _ => rfl) fun _ => rfl) fun _ τ'' le' =>
              .pure fun _ _ _ scene => ⟨fun d hd => ?_, scene⟩
          obtain ⟨e, he, rfl⟩ := List.mem_map.mp hd
          exact (le.trans le').owns (own.captured.values _ (List.mem_map_of_mem he))
        cases c.code.watched with
        | true => exact bindAt (keeps_report _ w v h) fun _ => gone
        | false => exact gone τ (.refl T.side τ) w v h

theorem keeps_chores (fuel : Nat) {cs : List Chore} (mine : ∀ c ∈ cs, ChoreOf τ T.side c) :
    T.Keeps τ K (chores fuel cs) := by
  induction fuel generalizing τ cs with
  | zero => exact Leads.pure fun _ _ _ h => h
  | succ fuel ih =>
    cases cs with
    | nil => exact Leads.pure fun _ _ _ h => h
    | cons c cs =>
      refine Leads.bindWith (leads_chore (mine c List.mem_cons_self)) fun freed τ' le own =>
        ih fun d hd => ?_
      obtain hd | hd := List.mem_append.mp hd
      · exact own d hd
      · exact (mine d (List.mem_cons_of_mem c hd)).le le

/-- However many turns there may be for things to be let go of, it comes to the same if there are
enough. -/
theorem chores_enough {fuel fuel' : Nat} {cs : List Chore} {w : World}
    (enough : costs cs + potential w ≤ fuel) (enough' : costs cs + potential w ≤ fuel') :
    (chores fuel cs).run w = (chores fuel' cs).run w := by
  induction fuel generalizing fuel' cs w with
  | zero =>
    cases cs with
    | nil => cases fuel' <;> rfl
    | cons c cs =>
      have positive : 0 < c.cost := by cases c <;> simp [Chore.cost]
      rw [costs, List.map_cons, List.sum_cons] at enough
      omega
  | succ fuel ih =>
    cases cs with
    | nil => cases fuel' <;> rfl
    | cons c cs =>
      have less := chore_cost c w
      rw [costs, List.map_cons, List.sum_cons] at enough enough'
      unfold costs at less
      cases fuel' with
      | zero => omega
      | succ fuel' =>
        rw [chores, chores, stateM_run_bind, stateM_run_bind]
        refine ih ?_ ?_ <;>
        · rw [costs, List.map_append, List.sum_append]
          omega

/-- There is no more to be let go of in our share. -/
theorem Twin.potential_le (h : T.Twin τ w v) : potential v ≤ potential w := by
  have less : entries v.callables ≤ entries w.callables := by
    rw [Multiset.le_iff_subset (nodup_entries _)]
    intro e he
    exact mem_entries.mpr (h.callables.of_share (mem_entries.mp he)).2
  obtain ⟨others, all⟩ := Multiset.le_iff_exists_add.mp less
  rw [potential, potential, all, Multiset.map_add, Multiset.sum_add]
  omega

theorem potential_le_choreBound (cs : List Chore) (w : World) :
    costs cs + potential w ≤ w.choreBound cs.length := by
  have bound := costs_le cs
  have same : potential w = 4 * ((w.callables.toList.map fun e => e.2.captured.size).sum) := by
    rw [potential, entries, Multiset.map_coe, Multiset.sum_coe]
  rw [choreBound, same]
  omega

/-- All that is let go of is one side's, whose turn it is. -/
theorem keeps_release {cs : List Chore} (mine : ∀ c ∈ cs, ChoreOf τ T.side c) :
    T.Keeps τ K (release cs) := by
  unfold release
  split
  · exact Leads.pure fun _ _ _ h => h
  · refine fun w v h => .get (fun ours => ?_) (keeps_chores _ mine w v h)
    exact chores_enough (potential_le_choreBound cs v) (Nat.le_trans
      (Nat.add_le_add_left h.1.potential_le _) (potential_le_choreBound cs w))

theorem keeps_dropValues {vs : List Value} (own : ∀ u ∈ vs, τ.Owns T.side u) :
    T.Keeps τ K (dropValues vs) :=
  keeps_release fun c hc => by
    obtain ⟨u, hu, rfl⟩ := List.mem_map.mp hc
    exact own u (List.mem_filter.mp hu).1

theorem keeps_dropValue {u : Value} (own : τ.Owns T.side u) : T.Keeps τ K (dropValue u) :=
  keeps_dropValues fun _ hx => List.mem_singleton.mp hx ▸ own

theorem keeps_dropSlots {t : Slots} (own : τ.OwnsSlots T.side t) : T.Keeps τ K (dropSlots t) :=
  keeps_dropValues own.values

theorem keeps_releaseOutbound (outs : List Session.Outbound) (here : τ.session id = some T.side) :
    T.Keeps τ K (releaseOutbound id outs) :=
  keeps_release fun c hc => by
    obtain ⟨o, -, ho⟩ := List.mem_filterMap.mp hc
    obtain ⟨k, -, rfl⟩ := Option.map_eq_some_iff.mp ho
    exact here

theorem keeps_forM {β : Type} {f : β → Act Unit} {xs : List β}
    (each : ∀ x ∈ xs, ∀ τ', τ.Le T.side τ' → T.Keeps τ' K (f x)) : T.Keeps τ K (xs.forM f) := by
  induction xs generalizing τ with
  | nil => exact Leads.pure fun _ _ _ h => h
  | cons x xs ih =>
    rw [List.forM_eq_forM, List.forM_cons]
    exact Leads.bind (each x List.mem_cons_self τ (.refl T.side τ)) fun _ _ le =>
      ih fun y hy τ' le' => each y (List.mem_cons_of_mem x hy) τ' (le.trans le')

theorem keeps_retain {f : CallableId} (mine : τ.mine T.side f) : T.Keeps τ K (retain f) :=
  Keeps.modify (fun _ _ twin => twin.withCallables
    (f := fun t => t.modify f fun c => { c with owners := c.owners + 1 })
    (twin.callables.modify mine fun _ hc => ⟨hc.steps, hc.results, hc.captured⟩))
    (fun _ => rfl) fun _ => rfl

theorem keeps_retainAll {fs : List CallableId} (mine : ∀ f ∈ fs, τ.mine T.side f) :
    T.Keeps τ K (retainAll fs) :=
  keeps_forM fun f hf _ le => keeps_retain (le.callable _ _ (mine f hf))

theorem mine_of_callablesOf {vs : List Value} (own : ∀ u ∈ vs, τ.Owns T.side u) :
    ∀ f ∈ callablesOf vs, τ.mine T.side f := fun f hf => by
  obtain ⟨u, hu, is⟩ := List.mem_filterMap.mp hf
  cases u with
  | callable g => cases is; exact own _ hu
  | _ => cases is

end Turn

end ScriptBridge.Host
