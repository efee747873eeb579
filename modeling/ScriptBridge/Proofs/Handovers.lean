import ScriptBridge.Proofs.Refusals
import ScriptBridge.Proofs.Turns

/-!
# ScriptBridge.Proofs.Handovers

What the values that are on their way to a runtime are for it.  The books say what stands behind
each of them: its cell has what was copied, a reference denotes what it did, and the pin of a host
function that is made next is one of the callable that it is for.  So a run can be told of every
value that is put on a host's frame what it has been: `World.HasBeen`.

Main facts:

* `World.Books.arrives`, `World.Books.built` — the value that is put on the host's frame next;
* `World.tells_run` — a run is told of the values that it hands over.
-/

namespace ScriptBridge.Host

open Script (Spine)

variable {w w₀ : World} {μ : SessionId → Session.Memory} {d : Delivery} {errand : Errand}
  {s : Session} {v : Value} {π : Past} {Ss : SessionId → List Spine}

namespace World

/-- Whether a value of the host is, at some point of a run, a script value for the runtime of a
session, which is open then. -/
def HasBeen (w₀ : World) (id : SessionId) (v : Value) (x : Script.Value) : Prop :=
  ∃ (n : Nat) (s : Session), (w₀.run n).sessions[id]? = some s ∧ s.isOpen ∧ s.Becomes 0 v x

/-- What an activity in progress holds, the world holds. -/
theorem mem_holdings {a : Activity} {h : Holding} (ha : a ∈ w.activities) (hh : h ∈ a.holdings) :
    h ∈ w.holdings := by
  refine Multiset.mem_add.mpr (.inr ?_)
  generalize w.activities = as at ha
  induction as with
  | nil => cases ha
  | cons b as ih =>
    rw [activityHoldings_cons, Multiset.mem_add]
    obtain rfl | ha := List.mem_cons.mp ha
    · exact .inl hh
    · exact .inr (ih ha)

/-- What is held of an open session is backed. -/
theorem Books.backs {h : Holding} (hw : Books μ 0 w) (hs : w.sessions[d.session]? = some s)
    (ha : .delivering d errand ∈ w.activities) (hh : h ∈ d.holdings errand) :
    s.id = d.session ∧ s.Backs h := by
  rw [Books, add_zero] at hw
  obtain ⟨mine, tidy⟩ := hw.1.tidy _ s hs
  exact ⟨mine, tidy.backs h (mem_holdings ha hh)⟩

/-- A value that pins no callable is put on the host's frame as what it is for the runtime. -/
theorem Books.arrives (hw : Books μ 0 w) (hs : w.sessions[d.session]? = some s) (ho : s.isOpen)
    (ha : .delivering d errand ∈ w.activities) {out : Session.Outbound}
    {left : List Session.Outbound} (hp : d.pin = none) (hl : d.left = out :: left)
    (unpinned : (out.cell?.bind s.cell?).any (fun c => c.handle?.isSome) = false)
    (hv : d.next? errand = some v) : s.Becomes 0 v (s.valueOf out) := by
  obtain ⟨u, next, carries, K, held⟩ := next_of_left hp hl (hw.1.fits _ ha)
  obtain rfl := Option.some.inj (next.symm.trans hv)
  -- what is held for the value is backed
  have backed : ∀ h ∈ Session.carryHoldings d.session out u, s.id = d.session ∧ s.Backs h :=
    fun h hh => hw.backs hs ha (by rw [held]; exact Multiset.mem_add.mpr (.inl hh))
  have tidy := (hw.1.tidy _ s hs).2
  cases out with
  | nil =>
    cases u with
    | nil => rfl
    | _ => exact carries.elim
  | owned cell =>
    obtain ⟨mine, back⟩ := backed (.out d.session cell u) (by
      simp [Session.carryHoldings, outHolding])
    obtain ⟨c, hc, conveys⟩ := back mine.symm
    have stored : (Session.Outbound.owned cell).cell?.bind s.cell? = some c := hc
    rw [Session.valueOf, stored]
    rw [stored] at unpinned
    cases u with
    | number | boolean | string =>
      obtain rfl := conveys
      rfl
    | callable f =>
      obtain ⟨handle, rfl, -⟩ := conveys
      cases unpinned
    | _ => exact conveys.elim
  | lent cell =>
    have lent : ∀ r : Ref, .ref r ∈ u.holdings → r.session = d.session ∧ r.cell = cell →
        s.object? r = some (s.valueOf (.lent cell)) := by
      rintro r mem ⟨here, rfl⟩
      obtain ⟨mine, back⟩ := backed (.ref r) (by simp [Session.carryHoldings, mem])
      obtain ⟨⟨c, a, hc, hca⟩, -⟩ := back (here.trans mine.symm)
      obtain ⟨x, hx, -, -⟩ := tidy.moored ho _ c a hc hca
      have object : s.object? r = some x := by
        rw [Session.object?_of_slotOf ((Session.slotOf_of_cell hc).trans hca), hx]
      rw [object, Session.valueOf_lent object]
    cases u with
    | reference r | function r => exact lent r (by simp [Value.holdings]) carries
    | _ => exact carries.elim

/-- A callable is put on the host's frame as a host function that owns a pin of it. -/
theorem Books.built (hw : Books μ 0 w) (hs : w.sessions[d.session]? = some s) (ho : s.isOpen)
    (ha : .delivering d errand ∈ w.activities) {pin : Handle} (hp : d.pin = some pin)
    (listens : s.machine.Listens d.thread) (hv : d.next? errand = some v) :
    ((Session.build d.thread pin).run s).2.Becomes 0 v (.native s.machine.natives.size) := by
  obtain ⟨mine, back⟩ := hw.backs (h := .pin d.session pin (d.next? errand)) hs ha (by
    simp [Delivery.holdings, hp])
  obtain ⟨f, rfl, pinned⟩ := back mine.symm ho v hv
  have tidy := (hw.1.tidy _ s hs).2
  have orderly : s.Orderly := ⟨tidy.fresh, tidy.issued, tidy.conserved ho⟩
  obtain ⟨s', run, -, -, pins, -, -, native, userdata, handle⟩ := orderly.build listens pin
  rw [run]
  exact ⟨_, _, pin, rfl, native, userdata, handle, pin.number_pos, by rw [pins, pinned]⟩

/-- The host's frame of the thread that a delivery is made to is on top of that thread. -/
theorem Nests.delivers {rest : List Activity} (h : w.Nests π none Ss)
    (top : w.activities = .delivering d errand :: rest) (hs : w.sessions[d.session]? = some s) :
    s.isOpen ∧ s.machine.Listens d.thread := by
  obtain ⟨S, nested, mid⟩ := h.mid_top top rfl (part_delivering d).1
  obtain ⟨info, upvalue, operands, S', rfl⟩ := nested_thread nested
  obtain ⟨u, hu, on⟩ := mid.session
  cases hs.symm.trans hu
  obtain ⟨here, frames, -, eq, -, -⟩ := on.idle.top
  refine ⟨on.isOpen, info, upvalue, operands, frames, ?_⟩
  rw [← here, Script.Machine.framesOf, if_pos rfl, eq]

/-- A delivery goes on. -/
theorem proceed_delivering {rest : List Activity}
    (top : w.activities = .delivering d errand :: rest) :
    proceed.run w = (deliverNext d errand).run w := by
  rw [proceed, stateM_get_bind, top]

/-- A run is told of the values that it hands over. -/
theorem tells_run {n : Nat} (told : π.told = w₀.HasBeen) (hw : Books μ 0 (w₀.run n))
    (h : (w₀.run n).Nests π (w₀.run n).control.script? Ss)
    (proceeds : (w₀.run n).control = .proceed)
    (calm : ∀ id budget, (w₀.run n).whims.headD .pass ≠ .upon id budget) :
    (w₀.run n).Tells π := by
  intro d errand rest s x top hs shows v hv
  rw [told]
  rw [proceeds] at h
  obtain ⟨ho, listens⟩ := h.delivers top hs
  have ha : Activity.delivering d errand ∈ (w₀.run n).activities := by
    rw [top]
    exact List.mem_cons_self
  cases hp : d.pin with
  | none =>
    cases hl : d.left with
    | nil =>
      rw [Delivery.shows, hp, hl] at shows
      cases shows
    | cons out left =>
      rw [Delivery.shows, hp, hl] at shows
      dsimp only at shows
      split at shows
      · cases shows
      · rename_i unpinned
        obtain rfl := Option.some.inj shows
        exact ⟨n, s, hs, ho, hw.arrives hs ho ha hp hl (by simpa using unpinned) hv⟩
  | some pin =>
    rw [Delivery.shows, hp] at shows
    obtain rfl := Option.some.inj shows
    refine ⟨n + 1, ((Session.build d.thread pin).run s).2, ?_, ho, hw.built hs ho ha hp listens hv⟩
    -- the function is made in the next turn
    have next : w₀.run (n + 1) = (advance.run (w₀.run n)).2 := by
      obtain ⟨-, done⟩ | next := run_succ n w₀
      · cases proceeds.symm.trans done
      · exact next
    let w₁ : World := { w₀.run n with
      whims := (w₀.run n).whims.tail
      activities := .delivering { d with pin := none } errand :: (w₀.run n).activities.drop 1 }
    have there : w₁.sessions[d.session]? = some s := hs
    rw [next, advance_proceed proceeds calm,
      proceed_delivering (w := { w₀.run n with whims := (w₀.run n).whims.tail }) top, deliverNext, hp]
    change ((onSession d.session (Session.build d.thread pin)).run w₁).2.sessions[d.session]? = _
    rw [onSession_run_some there]
    exact getElem?_withSession_self _ _ _

end World

end ScriptBridge.Host
