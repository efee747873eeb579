import ScriptBridge.Proofs.Calling
import ScriptBridge.Proofs.Lineage
import ScriptBridge.Proofs.Listing
import ScriptBridge.Proofs.Upkeep

/-!
# ScriptBridge.Proofs.Identity

Host functions that pass between the runtime and the host.  What a function is held to be is inferred
from what its closure holds, when it crosses; and a host function that crosses, however often, is the
closure that it was, so that a call of it gets to the callable that it was made for.

Main facts:

* `Session.takes_run` — a function of the runtime crosses to the host;
* `Session.dispatches_iff`, `Session.loses_iff` — where a call of a host function gets to;
* `World.lookUpFunction_turn` — a host function is no function that the host can call;
* `Host.identity_run` — all of this, at any point of any run.
-/

namespace ScriptBridge

open Script (NativeId UserdataId ThreadId)

namespace Script.Machine

variable {m : Machine} {x : Value}

/-- Whether a function is one that the host has made, with a userdata. -/
def Made (m : Machine) (x : Value) (o : UserdataId) : Prop :=
  ∃ i, x = .native i ∧ m.natives[i]? = some (some ⟨.host, #[.userdata o]⟩)

/-- Whether a function has not been collected. -/
def Present (m : Machine) (x : Value) : Prop :=
  ∀ i, x = .native i → ∃ n : Native, m.natives[i]? = some (some n)

/-- A function is held to be the host's if, and only if, the host has made it. -/
theorem Fair.marked (fair : m.Fair) (present : m.Present x) :
    m.isHostClosure x = true ↔ ∃ o, m.Made x o := by
  cases x with
  | native i =>
    obtain ⟨n, there⟩ := present i rfl
    rw [fair.isHostClosure there]
    constructor
    · intro host
      obtain inner | ⟨o, rfl, -⟩ := fair i n there
      · exact absurd host inner.1
      · exact ⟨o, i, rfl, there⟩
    · rintro ⟨o, j, eq, made⟩
      cases eq
      cases there.symm.trans made
      rfl
  | _ =>
    constructor
    · intro marked
      cases marked
    · rintro ⟨o, i, eq, -⟩
      cases eq

end Script.Machine

namespace Session

variable {s s' : Session} {x : Script.Value} {f : CallableId} {o : UserdataId}

/-! ## Crossings to the host -/

/-- The reference under which the host holds the next function that crosses. -/
def nextRef (s : Session) (x : Script.Value) : Ref :=
  ⟨s.id, s.nextCell, .function, s.machine.isHostClosure x⟩

/-- The session of which the host has taken a function. -/
def taking (s : Session) (x : Script.Value) : Session :=
  stored { s with anchors := (s.anchors.take x).2 }
    (.function s.anchors.next (s.machine.isHostClosure x))

/-- A function of the runtime crosses to the host. -/
theorem takes_run (function : x.kind = .function) :
    ((toCell x : Attempt (Option CellId)) >>= unpack).run.run s
      = (.ok (if s.machine.isHostClosure x then .reference (s.nextRef x) else .function (s.nextRef x)),
        s.taking x) := by
  have solid : x.Solid := by
    cases x <;> cases function <;> trivial
  have cell : s.cellOf x s.anchors.next
      = .function s.anchors.next (s.machine.isHostClosure x) := by
    cases x <;> cases function <;> rfl
  have stored : (toCell x).run s = (some s.nextCell, s.taking x) := by
    rw [toCell_run solid, cell]
    rfl
  have held : (s.taking x).cell? s.nextCell
      = some (.function s.anchors.next (s.machine.isHostClosure x)) := cell?_stored_self _
  have named : (s.taking x).refTo s.nextCell = s.nextRef x := by
    rw [refTo, held]
    rfl
  rw [try_lift_bind, stored, unpack, try_get_bind, held]
  cases s.machine.isHostClosure x <;> rw [named] <;> rfl

theorem object?_taking (s : Session) (x : Script.Value) :
    (s.taking x).object? (s.nextRef x) = some x := by
  have held : (s.taking x).cell? s.nextCell
      = some (.function s.anchors.next (s.machine.isHostClosure x)) := cell?_stored_self _
  have slot : (s.taking x).slotOf (s.nextRef x) = some s.anchors.next :=
    slotOf_of_cell (r := s.nextRef x) held
  rw [object?_of_slotOf slot]
  change (s.anchors.take x).2.get? s.anchors.next = some x
  rw [Anchors.get?_take, if_pos rfl]

/-- Whether a function of the runtime gets to the host as a value, and no pin is made for it. -/
def Crosses (s : Session) (x : Script.Value) (v : Value) : Prop :=
  ∃ s', ((toCell x : Attempt (Option CellId)) >>= unpack).run.run s = (.ok v, s')
    ∧ s'.pins = s.pins ∧ s'.handles = s.handles ∧ s'.machine = s.machine
    ∧ ∃ r : Ref, v.ref? = some r ∧ r.kind = .function ∧ s'.object? r = some x

/-- Whether a session holds what it did before, no more and no less. -/
structure Even (s s' : Session) : Prop where
  id : s'.id = s.id
  machine : s'.machine = s.machine
  isOpen : s'.isOpen = s.isOpen
  active : s'.active = s.active
  handles : s'.handles = s.handles
  pins : s'.pins = s.pins
  cells : ∀ k, s'.cell? k = s.cell? k
  anchors : ∀ a, s'.anchors.get? a = s.anchors.get? a
  outstanding : s'.ledger.outstanding = s.ledger.outstanding

/-- A reference that the host has taken goes again. -/
theorem even_taking (hs : s.Orderly) (active : s.active.isSome) (x : Script.Value) :
    s.Even ((free s.nextCell).run (s.taking x)).2 := by
  have held : (s.taking x).cell? s.nextCell
      = some (.function s.anchors.next (s.machine.isHostClosure x)) := cell?_stored_self _
  rw [free_run held]
  generalize hc : Cell.function s.anchors.next (s.machine.isHostClosure x) = c at held
  have anchors : ((s.taking x).freed s.nextCell c).anchors
      = (s.anchors.take x).2.free s.anchors.next :=
    anchors_withdrawn s.nextCell (show (s.taking x).active.isSome from active) (hc ▸ rfl)
  have pins : ((s.taking x).freed s.nextCell c).pins = s.pins :=
    pins_withdrawn_unpinned s.nextCell (hc ▸ rfl)
  refine ⟨rfl, rfl, rfl, rfl, rfl, pins, fun k => ?_, fun a => ?_, ?_⟩
  · by_cases here : k = s.nextCell
    · subst here
      rw [hs.next_unused]
      exact @cell?_withdrawn_self (s.taking x) s.nextCell c
    · exact (cell?_withdrawn_of_ne (c := c) here).trans (cell?_stored_of_ne here)
  · rw [anchors, Anchors.get?_free, Anchors.get?_take]
    split
    · rename_i here
      rw [here, hs.conserved.next_free]
    · rfl
  · subst hc
    exact s.ledger.release_acquire_outstanding _

/-! ## Calls -/

/-- Whether a call of a script value gets to no callable, because its userdata has no handle. -/
def Loses (s : Session) (x : Script.Value) : Prop :=
  ∃ i, x = .native i ∧ ∀ args depth fixed,
    let m := s.machine.callNative i args depth fixed
    m.pause? = some .invoked ∧ calledHandle { s with machine := m } = none

/-- A call of a host function waits for the host, with the handle of its userdata. -/
theorem called_eq {i : NativeId} (there : s.machine.natives[i]? = some (some ⟨.host, #[.userdata o]⟩))
    (args : List Script.Value) (depth : Nat) (fixed : Bool) :
    (s.machine.callNative i args depth fixed).pause? = some .invoked
      ∧ calledHandle { s with machine := s.machine.callNative i args depth fixed }
        = s.handles.lookup o := by
  simp only [Script.Machine.callNative, Script.Machine.native_of_getElem? there]
  exact ⟨rfl, rfl⟩

theorem dispatches_iff (made : s.machine.Made x o) :
    s.Dispatches x f ↔ ∃ h, s.handles.lookup o = some h ∧ s.pins.get? h = some f := by
  obtain ⟨i, rfl, there⟩ := made
  constructor
  · rintro ⟨j, h, eq, pinned, calls⟩
    cases eq
    refine ⟨h, ?_, pinned⟩
    rw [← (called_eq there [] 0 false).2]
    exact (calls [] 0 false).2
  · rintro ⟨h, found, pinned⟩
    refine ⟨i, h, rfl, pinned, fun args depth fixed => ?_⟩
    rw [← found]
    exact called_eq there args depth fixed

theorem loses_iff (made : s.machine.Made x o) : s.Loses x ↔ s.handles.lookup o = none := by
  obtain ⟨i, rfl, there⟩ := made
  constructor
  · rintro ⟨j, eq, calls⟩
    cases eq
    rw [← (called_eq there [] 0 false).2]
    exact (calls [] 0 false).2
  · intro none
    refine ⟨i, rfl, fun args depth fixed => ?_⟩
    rw [← none]
    exact called_eq there args depth fixed

/-- A host function that got to a callable gets there still, if its userdata has its handle. -/
theorem Continues.dispatches (h : s.Continues s') (hosts : s.Hosts 0 x f)
    (old : ∀ k g, s.pins.get? k = some g → k.number ≤ s.pins.issued)
    (present : s'.machine.Present x) : ∃ o, s'.machine.Made x o
      ∧ ∀ k g, s'.handles.lookup o = some k → s'.pins.get? k = some g → g = f := by
  obtain ⟨i, o, handle, rfl, there, userdata, found, -, pinned⟩ := hosts
  have lt : o < s.machine.userdata.size := (Array.getElem?_eq_some_iff.mp userdata).1
  refine ⟨o, ⟨i, rfl, ?_⟩, fun k g hk hg => ?_⟩
  · obtain ⟨n, here⟩ := present i rfl
    obtain same | gone := h.machine.stay i _ there rfl
    · exact same
    · rw [gone] at here
      cases here
  · obtain rfl : k = handle := by
      rw [h.handles o lt k hk] at found
      exact Option.some.inj found
    have before := h.pins.live k (old k f pinned) g hg
    exact Option.some.inj (before.symm.trans pinned)

/-- The callable to which a host function gets is the one to which it got before. -/
theorem Continues.hosted (h : s.Continues s') (settled : s.Settled) {i : NativeId}
    (there : s.machine.natives[i]? = some (some ⟨.host, #[.userdata o]⟩))
    (old : ∀ e ∈ s.handles, e.2.number ≤ s.pins.issued)
    {k : Handle} (found : s'.handles.lookup o = some k) (pinned : s'.pins.get? k = some f) :
    s.Hosts 0 (.native i) f := by
  obtain inner | ⟨o', eq, userdata⟩ := settled.fair i _ there
  · exact absurd rfl inner.1
  · cases eq
    have lt : o < s.machine.userdata.size := (Array.getElem?_eq_some_iff.mp userdata).1
    have held := h.handles o lt k found
    have mem := (lookup_eq_some settled.apart).mp held
    exact ⟨i, o, k, rfl, there, userdata, held, k.number_pos, h.pins.live k (old _ mem) f pinned⟩

end Session

/-! ## Turns -/

namespace Host

open Session (Settled)

namespace World

variable {id : SessionId} {w w₀ : World} {s : Session} {μ : SessionId → Session.Memory} {step : Step}
  {x : Script.Value}

/-- A reference that was just taken is dropped. -/
theorem dropValue_taking {v : Value} (hs : w.sessions[id]? = some (s.taking x)) (mine : s.id = id)
    (hv : v.ref? = some (s.nextRef x)) :
    ((dropValue v).run w).2.sessions[id]? = some ((Session.free s.nextCell).run (s.taking x)).2 := by
  have held : (s.taking x).cell? s.nextCell
      = some (.function s.anchors.next (s.machine.isHostClosure x)) := Session.cell?_stored_self _
  have here : (s.nextRef x).session = id := mine
  have mild : w.Mild (.cell (s.nextRef x).session (s.nextRef x).cell) := by
    rintro i k ⟨⟩ u d hu hd
    rw [here] at hu
    cases hu.symm.trans hs
    cases held.symm.trans hd
    rfl
  rw [dropValue_ref hv mild, here, stateM_run_bind, onSession_run_some hs]
  rw [onSession_run_some (getElem?_withSession_self ..)]
  exact getElem?_withSession_self ..

/-- A host function is no function that the host can call: the host is told so, and the reference that
it was given is dropped. -/
theorem lookUpFunction_turn (takes : w.taken? = some (step, w₀)) {name path : String}
    {into : Option String} (action : step.action = .lookUpFunction name path into)
    (named : ((sessionNamed name).run.run w₀).1 = .ok id) (hs : w.sessions[id]? = some s)
    (mine : s.id = id) (orderly : s.Orderly) {t : ThreadId} (active : s.active = some t)
    (listens : s.machine.Listens t) (rooted : s.machine.Rooted) {p : Path}
    (parsed : Path.parse path = .ok p) (room : (s.machine.reserve t 4).1) {T : Script.TableId}
    (there : s.machine.named p.parents = .table T)
    (host : s.machine.isHostClosure (s.machine.rawGet T (.str p.last.toUTF8)) = true) :
    ∃ w' s', advance.run w = (finishStep step
        (.error (.failure (.typeMismatch "function" "function")))).run w'
      ∧ (advance.run w).2.sessions[id]? = some s' ∧ s.Even s' := by
  set x := s.machine.rawGet T (.str p.last.toUTF8) with hx
  obtain ⟨-, -, frame, rest, more, top, rfl⟩ := taken?_eq_some takes
  set w₀ : World := { w with whims := w.whims.tail, activities := .program frame rest :: more }
  have hs₀ : w₀.sessions[id]? = some s := hs
  have function : x.kind = .function := by
    generalize x = y at host
    unfold Script.Machine.isHostClosure at host
    split at host
    · rfl
    · cases host
  have looked : (sessionNamed name).run.run w₀ = (.ok id, w₀) := by
    rw [← named]
    exact Prod.ext rfl (sessionNamed_snd name w₀)
  have names : s.machine.Names p.parents T := by
    refine ⟨there, by_contra fun absent => ?_⟩
    rw [hx, Script.Machine.rawGet, Script.Machine.table_of_absent absent, Script.Table.get_empty] at host
    cases host
  have read : (Session.lookUp path).run.run s = (.ok (.reference (s.nextRef x)), s.taking x) := by
    obtain ⟨full, -⟩ | ⟨-, fault, stops, -⟩ | ⟨-, T', there', run⟩ :=
      Session.lookUp_run active listens rooted parsed
    · cases room.symm.trans full
    · exact absurd names stops.not_named
    · obtain rfl := names.unique there'
      rw [run, ← hx, Session.takes_run function, if_pos host]
  set w₁ := w₀.withSession id (s.taking x)
  have got : (trySession id (Session.lookUp path)).run.run w₀
      = (.ok (.reference (s.nextRef x)), w₁) := by
    have run : (attemptOn id (Session.lookUp path)).run w₀
        = (.ok (.reference (s.nextRef x)), w₁) := by
      rw [attemptOn, onSession_run_some hs₀, read]
    rw [trySession, try_lift_bind, run]
    rfl
  set w₂ := ((dropValue (.reference (s.nextRef x))).run w₁).2
  have after : w₂.sessions[id]? = some ((Session.free s.nextCell).run (s.taking x)).2 :=
    dropValue_taking (getElem?_withSession_self ..) mine rfl
  obtain ⟨act, acts⟩ : ∃ act, immediate step.action = some act := by
    rw [action]
    exact ⟨_, rfl⟩
  have failed : act.run.run w₀
      = (.error (.failure (.typeMismatch "function" "function")), w₂) := by
    rw [action] at acts
    simp only [immediate, Option.some.injEq] at acts
    subst acts
    rw [try_bind_ok looked, try_bind_ok got]
    rfl
  have turn : advance.run w = (finishStep step
      (.error (.failure (.typeMismatch "function" "function")))).run w₂ := by
    rw [advance_taken takes, beginStep, acts]
    simp only
    rw [stateM_run_bind, failed]
  refine ⟨w₂, _, turn, ?_, Session.even_taking orderly (by rw [active]; rfl) x⟩
  rw [turn, sessions_finishStep]
  exact after

/-- A handle that a userdata has is one that was given out, for a callable that is there. -/
theorem Books.handed (hw : Books μ 0 w) (hs : w.sessions[id]? = some s) (ho : s.isOpen)
    {e : UserdataId × Handle} (held : e ∈ s.handles) : e.2.number ≤ s.pins.issued
      ∧ ∃ f c, s.pins.get? e.2 = some f ∧ w.callables[f]? = some c := by
  have orderly := Books.orderly hw hs ho
  have live : e.2.number ∈ keys s.pins.live := by
    rw [Books, add_zero] at hw
    obtain ⟨rfl, tidy⟩ := hw.1.tidy id s hs
    rw [tidy.pins ho]
    refine Multiset.mem_add.mpr (.inl (Multiset.mem_add.mpr (.inr ?_)))
    exact Multiset.mem_coe.mpr (List.mem_map.mpr ⟨e, held, rfl⟩)
  obtain ⟨f, hf⟩ := mem_keys.mp live
  obtain ⟨c, hc⟩ := hw.pinned_there hs hf
  exact ⟨orderly.issued _ live, f, c, hf, hc⟩

end World

/-! ## Runs -/

/-- At any point of any run up to which the scripts of an open session have changed neither the
upvalues of functions nor the metatables of userdata:

* a function of its runtime crosses to the host as a reference to a host function if the host has made
  it, and as a function that can be called if not;
* a function that the host has made was made in some turn, by the host, and a call of it gets to no
  callable but the one to which it got at the end of that turn;
* a function that got to a callable in some turn is still a host function, unless it was collected, and
  a call of it gets to that callable if its userdata has its handle, and else to none;
* a reference denotes what it did in any turn; to send it to the runtime, or to copy it, makes no pin;
* a host function that the host wants to call fails, and the reference to it goes. -/
theorem identity_run (program : List Step) (whims : List Whim) (n k : Nat) {id : SessionId}
    {s : Session} (hs : ((World.start program whims).run n).sessions[id]? = some s) (ho : s.isOpen)
    (within : k ≤ ((World.start program whims).run n).stint id)
    (fair : (World.start program whims).Untampered id (n + 1)) :
    let w₀ := World.start program whims
    let w := w₀.run n
    let u : Session := { s with machine := s.machine.run k }
    (∀ x : Script.Value, x.kind = .function → u.machine.Present x → ∃ r : Ref,
      (r.native = true ↔ ∃ o, u.machine.Made x o)
      ∧ u.Crosses x (if r.native then .reference r else .function r))
    ∧ (∀ x o, u.machine.Made x o → ∃ j < n, ∃ s₁, (w₀.run (j + 1)).sessions[id]? = some s₁
      ∧ s₁.machine.Made x o
      ∧ (∀ s₀, (w₀.run j).sessions[id]? = some s₀ →
        ¬ (s₀.machine.run ((w₀.run j).stint id)).Made x o)
      ∧ ∀ f, u.Dispatches x f → s₁.Hosts 0 x f)
    ∧ (∀ j ≤ n, ∀ s₁ x f, (w₀.run j).sessions[id]? = some s₁ → s₁.Hosts 0 x f →
      u.machine.Present x → ∃ o, u.machine.Made x o
        ∧ (∀ h, (o, h) ∈ s.handles → u.Dispatches x f ∧ ∃ c, w.callables[f]? = some c)
        ∧ ((∀ h, (o, h) ∉ s.handles) → u.Loses x))
    ∧ (∀ r ∈ w.liveRefs id, ∃ x, u.object? r = some x
      ∧ (∀ j ≤ n, ∀ s₁, (w₀.run j).sessions[id]? = some s₁ → r ∈ (w₀.run j).liveRefs id →
        s₁.object? r = some x)
      ∧ ∀ t, (Session.pack (.reference r)).run.run u = (.ok (.lent r.cell), u)
      ∧ (Session.pack (.function r)).run.run u = (.ok (.lent r.cell), u)
      ∧ (Session.push t (.lent r.cell)).run.run u
        = (.ok none, { u with machine := u.machine.pushOperand t x })
      ∧ (u.active = some t → (u.machine.reserve t 1).1 → u.machine.Listens t → ∃ q s',
        (Session.reanchor r).run.run u = (.ok q, s') ∧ s'.object? q = some x
          ∧ s'.pins = u.pins ∧ s'.handles = u.handles))
    ∧ ∀ step w₁ name path into p t T, w.taken? = some (step, w₁) →
      step.action = .lookUpFunction name path into →
      ((World.sessionNamed name).run.run w₁).1 = .ok id → s.active = some t →
      Path.parse path = .ok p → (s.machine.reserve t 4).1 → s.machine.named p.parents = .table T →
      (∃ o, s.machine.Made (s.machine.rawGet T (.str p.last.toUTF8)) o) →
        ∃ w' s', w₀.run (n + 1) = ((World.finishStep step
            (.error (.failure (.typeMismatch "function" "function")))).run w').2
          ∧ (w₀.run (n + 1)).sessions[id]? = some s' ∧ s.Even s' := by
  intro w₀ w u
  have books := World.books_run program whims
  have fair' := fair.mono (Nat.le_succ n)
  have settled := World.settled_run fair' hs ho
  have grows := fair.grows (Nat.lt_succ_self n) hs within
  obtain ⟨ran, settled'⟩ := settled.ran grows
  have orderly := (books n).orderly hs ho
  have orderly' : u.Orderly := { orderly with }
  have serves : u.Serves (w.liveRefs id) := ((books n).serves hs ho).withMachine _
  refine ⟨fun x function present => ?_, fun x o made => ?_, fun j le s₁ x f hs₁ hosts present => ?_,
    fun r hr => ?_, fun step w₁ name path into p t T takes action named active parsed room there host => ?_⟩
  · refine ⟨u.nextRef x, settled'.fair.marked present, u.taking x, Session.takes_run function, rfl, rfl,
      rfl, u.nextRef x, ?_, rfl, u.object?_taking x⟩
    cases (u.nextRef x).native <;> rfl
  · obtain ⟨i, rfl, there⟩ := made
    have before := (grows.natives.inner i _ there).resolve_right fun inner => inner.1 rfl
    obtain ⟨j, lt, s₁, hs₁, there₁, new⟩ := World.made_run fair' hs ho before rfl
    refine ⟨j, lt, s₁, hs₁, ⟨i, rfl, there₁⟩, fun s₀ hs₀ ⟨i', eq, old⟩ => ?_, fun f gets => ?_⟩
    · cases eq
      exact absurd (Array.getElem?_eq_some_iff.mp old).1 (Nat.not_lt.mpr (new s₀ hs₀))
    · obtain ⟨wasOpen, since⟩ := World.continues_run lt fair' hs₁ hs ho
      obtain ⟨h, found, pinned⟩ := (Session.dispatches_iff ⟨i, rfl, there⟩).mp gets
      have settled₁ := World.settled_run (fair'.mono lt) hs₁ wasOpen
      exact (since.trans ran).hosted settled₁ there₁
        (fun e he => ((books (j + 1)).handed hs₁ wasOpen he).1) found pinned
  · obtain ⟨wasOpen, since⟩ := World.continues_run le fair' hs₁ hs ho
    have orderly₁ := (books j).orderly hs₁ wasOpen
    obtain ⟨o, made, gets⟩ := (since.trans ran).dispatches hosts
      (fun k g pinned => orderly₁.pin_old pinned) present
    refine ⟨o, made, fun h held => ?_, fun none => ?_⟩
    · have found := (Session.lookup_eq_some settled.apart).mpr held
      obtain ⟨-, g, c, pinned, hc⟩ := (books n).handed hs ho held
      obtain rfl := gets h g found pinned
      exact ⟨(Session.dispatches_iff made).mpr ⟨h, found, pinned⟩, c, hc⟩
    · refine (Session.loses_iff made).mpr (Option.eq_none_iff_forall_ne_some.mpr fun h found => ?_)
      exact none h ((Session.lookup_eq_some settled.apart).mp found)
  · obtain ⟨x, object, -⟩ := serves.lend hr 0
    refine ⟨x, object, fun j le s₁ hs₁ hr₁ => ?_, fun t => ?_⟩
    · have later : w = (w₀.run j).run (n - j) := by rw [← World.run_add, Nat.add_sub_cancel' le]
      obtain ⟨wasOpen, -⟩ := World.continues_run le fair' hs₁ hs ho
      exact ((books j).object?_run hs₁ wasOpen (later ▸ hs) ho hr₁ (later ▸ hr)).symm.trans object
    obtain ⟨y, object', lent, called, pushed⟩ := serves.lend hr t
    cases object.symm.trans object'
    refine ⟨lent, called, pushed, fun active room listens => ?_⟩
    obtain ⟨v, m, s', denotes, made, run⟩ := serves.reanchor_run hr active room listens
    obtain ⟨q, s'', run', -, same, -⟩ := serves.reanchor hr active room listens
    cases run.symm.trans run'
    obtain ⟨-, c, v', -, denotes', fits⟩ := serves.named r hr
    cases denotes.symm.trans denotes'
    rw [Session.toCell_run fits.solid] at made
    cases made
    exact ⟨_, _, run, same.trans object, rfl, rfl⟩
  · obtain ⟨proceeds, -⟩ := World.taken?_eq_some takes
    obtain ⟨Ss, nests, -⟩ := World.nests_run program whims n
    rw [proceeds] at nests
    have listens := ((World.rests_of_nests nests) id s hs (by rw [active]; rfl)).listens active
    obtain ⟨mine, -⟩ := (books n).orderly_at hs (by rw [active]; rfl)
    obtain ⟨o, i, eq, made⟩ := host
    have marked : s.machine.isHostClosure (s.machine.rawGet T (.str p.last.toUTF8)) = true := by
      rw [eq, settled.fair.isHostClosure made]
    obtain ⟨w', s', turn, hs', even⟩ := World.lookUpFunction_turn takes action named hs mine orderly
      active listens (World.rooted_run program whims n id s hs ho) parsed room there marked
    rw [World.run_advance proceeds]
    exact ⟨w', s', congrArg Prod.snd turn, hs', even⟩

/-- Whether a runtime calls, in its next steps, no function that changes what is inside others. -/
def clean : (fuel : Nat) → Script.Machine → Bool
  | 0, _ => true
  | fuel + 1, m => !m.tampers && match m.mode with
    | .paused _ => true
    | _ => clean fuel m.step

theorem tampers_of_clean {fuel : Nat} {m : Script.Machine} (h : clean fuel m = true) {k : Nat}
    (lt : k < fuel) : (m.run k).tampers = false := by
  induction fuel generalizing m k with
  | zero => cases lt
  | succ fuel ih =>
    obtain ⟨here, later⟩ := Bool.and_eq_true_iff.mp h
    rw [Bool.not_eq_true'] at here
    cases k with
    | zero => exact here
    | succ k =>
      by_cases going : ∀ p, m.mode ≠ .paused p
      · rw [Script.Machine.run_going going]
        refine ih ?_ (Nat.lt_of_succ_lt_succ lt)
        split at later
        · rename_i p mode
          exact absurd mode (going p)
        · exact later
      · obtain ⟨p, mode⟩ := not_forall_not.mp going
        rwa [Script.Machine.run_paused mode]

theorem World.untampered_of_always {w : World} {id : SessionId} {fuel : Nat}
    (h : w.always (fun w => w.sessions[id]?.all fun s => clean (w.stint id) s.machine) fuel = true)
    (turns : Nat) : w.Untampered id turns := by
  intro n _ s hs k lt
  have here := World.always_run h n
  rw [hs, Option.all_some] at here
  exact tampers_of_clean here lt

/-- Whether the next turn looks for a function that can be called, under a path of a session. -/
def World.seeks (w : World) (name path : String) (id : SessionId) : Bool :=
  w.taken?.any fun (step, w₁) =>
    match step.action with
    | .lookUpFunction n p _ =>
      n == name && p == path && w₁.names.find? (fun e => e.1 == name) = some (name, id)
    | _ => false

theorem World.of_seeks {w : World} {name path : String} {id : SessionId}
    (h : w.seeks name path id = true) : ∃ step w₁ into, w.taken? = some (step, w₁)
      ∧ step.action = .lookUpFunction name path into
      ∧ ((World.sessionNamed name).run.run w₁).1 = .ok id := by
  obtain ⟨⟨step, w₁⟩, takes, h⟩ := (Option.any_eq_true _ _).mp h
  dsimp only at h
  split at h
  · rename_i n p into action
    obtain ⟨same, found⟩ := Bool.and_eq_true_iff.mp h
    obtain ⟨rfl, rfl⟩ : n = name ∧ p = path := by simpa using same
    refine ⟨step, w₁, into, takes, action, ?_⟩
    rw [World.sessionNamed, try_get_bind, of_decide_eq_true found]
    rfl
  · cases h

/-- A host function goes to the host and back under another name, where a script makes a coroutine of
it, and the host wants to call it. -/
def returning : List Step := [
  .mk (.openSession "a" .standard) true true,
  .mk (.register "a" "h" (.mk "h" [] [] [] false true)) true true,
  .mk (.lookUp "a" "h" (some "x")) true true,
  .mk (.assign "a" "k" (.take "x") true) true true,
  .mk (.execute "a" "w = coroutine.wrap(k)") true true,
  .mk (.lookUpFunction "a" "k" none) true true]

theorem identity_run_returning :
    let w := World.start returning []
    ∃ s f, (w.run 11).sessions[1]? = some s ∧ s.isOpen ∧ w.Untampered 1 12
      ∧ (∃ r, s.Crosses (.native 0) (.reference r)) ∧ (∃ r, s.Crosses (.native 1) (.function r))
      ∧ s.Dispatches (.native 0) f
      ∧ (∃ j < 11, ∃ s₁, (w.run (j + 1)).sessions[1]? = some s₁ ∧ s₁.Hosts 0 (.native 0) f)
      ∧ ∃ step w' s', w.run 12 = ((World.finishStep step
          (.error (.failure (.typeMismatch "function" "function")))).run w').2
        ∧ (w.run 12).sessions[1]? = some s' ∧ s.Even s' := by
  intro w
  have fair : w.Untampered 1 12 :=
    World.untampered_of_always (by decide +kernel : w.always _ 40 = true) 12
  have ready : (w.run 11).sessions[1]?.any (fun s => s.isOpen && s.machine.isHostClosure (.native 0)
      && !s.machine.isHostClosure (.native 1) && (s.machine.natives[0]?.any Option.isSome)
      && (s.machine.natives[1]?.any Option.isSome)
      && (Session.calledHandle { s with machine := s.machine.callNative 0 [] 0 false }).isSome
      && s.active.any fun t =>
        (s.machine.reserve t 4).1
          && s.machine.rawGet s.machine.globals (.str "k".toUTF8) = .native 0) = true := by
    decide +kernel
  have seeks : (w.run 11).seeks "a" "k" 1 = true := by decide +kernel
  have parsed : Path.parse "k" = .ok ⟨[], "k", "k"⟩ := by decide +kernel
  obtain ⟨s, hs, ready⟩ := (Option.any_eq_true _ _).mp ready
  simp only [Bool.and_eq_true, Bool.not_eq_true'] at ready
  obtain ⟨⟨⟨⟨⟨⟨ho, host⟩, inner⟩, first⟩, second⟩, live⟩, ready⟩ := ready
  obtain ⟨t, active, ready⟩ := (Option.any_eq_true _ _).mp ready
  obtain ⟨room, there⟩ := Bool.and_eq_true_iff.mp ready
  obtain ⟨step, w₁, into, takes, action, named⟩ := World.of_seeks seeks
  obtain ⟨crosses, origin, calls, -, seek⟩ :=
    identity_run returning [] 11 0 hs ho (Nat.zero_le _) fair
  have settled := World.settled_run (fair.mono (Nat.le_succ 11)) hs ho
  have present : ∀ i : NativeId, (s.machine.natives[i]?.any Option.isSome) = true →
      s.machine.Present (.native i) := by
    rintro i some j ⟨⟩
    obtain ⟨n, hn, some⟩ := (Option.any_eq_true _ _).mp some
    obtain ⟨c, rfl⟩ := Option.isSome_iff_exists.mp some
    exact ⟨c, hn⟩
  obtain ⟨o, made⟩ := (settled.fair.marked (present 0 first)).mp host
  obtain ⟨i, eq, owns⟩ := id made
  cases eq
  obtain ⟨h, live⟩ := Option.isSome_iff_exists.mp live
  rw [(Session.called_eq owns [] 0 false).2] at live
  obtain ⟨-, f, c, pinned, -⟩ := (World.books_run returning [] 11).handed hs ho
    ((Session.lookup_eq_some settled.apart).mp live)
  have gets : s.Dispatches (.native 0) f := (Session.dispatches_iff made).mpr ⟨h, live, pinned⟩
  obtain ⟨j, lt, s₁, hs₁, -, -, hosts⟩ := origin (.native 0) o made
  obtain ⟨r, marked, crossing⟩ := crosses (.native 0) rfl (present 0 first)
  obtain ⟨q, unmarked, crossing'⟩ := crosses (.native 1) rfl (present 1 second)
  rw [if_pos (marked.mpr ⟨o, made⟩)] at crossing
  rw [if_neg fun host' => by
    rw [settled.fair.marked (present 1 second) |>.mpr (unmarked.mp host')] at inner
    cases inner] at crossing'
  obtain ⟨w', s', turn, hs', even⟩ := seek step w₁ "a" "k" into ⟨[], "k", "k"⟩ t s.machine.globals
    takes action named active parsed room rfl ⟨o, by
      rw [of_decide_eq_true there]
      exact made⟩
  exact ⟨s, f, hs, ho, fair, ⟨r, crossing⟩, ⟨q, crossing'⟩, gets, ⟨j, lt, s₁, hs₁, hosts f gets⟩,
    step, w', s', turn, hs', even⟩

/-- Makes a finalizer that calls a host function by its second name, and the function after it. -/
def outliving : List Step := [
  .mk (.openSession "a" .standard) true true,
  .mk (.execute "a" "x = setmetatable({}, \x7b__gc = function() k() end\x7d)") true true,
  .mk (.register "a" "h" (.mk "h" [] [] [] false false)) true true,
  .mk (.lookUp "a" "h" (some "x")) true true,
  .mk (.assign "a" "k" (.take "x") true) true true,
  .mk (.closeSession "a") true true]

/-- A host function that has been to the host is called when the handle of its userdata is gone: the
call is not dispatched. -/
theorem lost_after_crossing :
    (((World.start outliving []).run 13).sessions[1]?.any fun s =>
      s.isOpen ∧ (s.machine.run World.slice).pause? = some .invoked
        ∧ (s.machine.run World.slice).hostUpvalue = .userdata 3
        ∧ Session.calledHandle { s with machine := s.machine.run World.slice } = none) = true
      ∧ (((World.start outliving []).run 17).events.all fun e => match e.what with
        | .entered .. => false
        | _ => true) = true := by
  constructor <;> decide +kernel

end Host

end ScriptBridge
