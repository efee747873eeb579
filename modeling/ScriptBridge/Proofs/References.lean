import ScriptBridge.Proofs.Allocation

/-!
# ScriptBridge.Proofs.References

References and the anchors of an open session go together.  Every slot in use is that of one live
reference, no two references share a slot, and a reference denotes the same script value as long
as it lives: `Session.Serves` says so of a session and its live references.

Main facts:

* `Session.Serves.toCell` — a value that is held by reference gets a slot that nobody has;
* `Session.Serves.free` — a reference that is released gives back its own slot and no other;
* `Session.Serves.reanchor` — a copy of a reference has a slot of its own, with the same value;
* `references_run` — the references of a session, at any point of any run and from there on.
-/

namespace ScriptBridge

namespace Session

/-! ## What references own and denote -/

/-- The slot that the cell of a reference owns. -/
def slotOf (s : Session) (r : Ref) : Option Anchor := (s.cell? r.cell).bind Cell.anchor?

/-- The script value that a reference denotes. -/
def object? (s : Session) (r : Ref) : Option Script.Value := (s.slotOf r).bind s.anchors.get?

/-- References and anchors go together. -/
structure Serves (s : Session) (R : Multiset Ref) : Prop where
  /-- The slots in use are those of the references, one for each of them. -/
  slots : R.map s.slotOf = (keys s.anchors.held).map some
  /-- Every slot there is, is either in use or to spare, and it is so once. -/
  conserved : s.anchors.Conserved
  /-- A reference is what its cell says, and denotes a value of the kind that the cell says. -/
  named : ∀ r ∈ R, r = s.refTo r.cell
    ∧ ∃ c v, s.cell? r.cell = some c ∧ s.object? r = some v ∧ c.Fits v
  fresh : ∀ c ∈ keys s.cells, c < s.nextCell

/-- Whether references own and denote in one state what they do in another. -/
def SameFor (R : Multiset Ref) (s s' : Session) : Prop :=
  ∀ r ∈ R, s'.slotOf r = s.slotOf r ∧ s'.object? r = s.object? r

variable {s : Session} {R : Multiset Ref} {r : Ref} {v : Script.Value}

theorem slotOf_congr {s' : Session} (h : s'.cell? r.cell = s.cell? r.cell) :
    s'.slotOf r = s.slotOf r := by rw [slotOf, h, slotOf]

theorem object?_of_slotOf {a : Anchor} (h : s.slotOf r = some a) :
    s.object? r = s.anchors.get? a := by rw [object?, h, Option.bind_some]

theorem slotOf_of_cell {c : Cell} (h : s.cell? r.cell = some c) : s.slotOf r = c.anchor? := by
  rw [slotOf, h, Option.bind_some]

/-- The value that is put on the host's frame for a reference is the one that it denotes. -/
theorem valueOf_lent (h : s.object? r = some v) : s.valueOf (.lent r.cell) = v := by
  obtain ⟨a, hslot, hv⟩ := Option.bind_eq_some_iff.mp h
  obtain ⟨c, hc, ha⟩ := Option.bind_eq_some_iff.mp hslot
  rw [valueOf, show (Outbound.lent r.cell).cell?.bind s.cell? = some c from hc]
  cases c with
  | function anchor native =>
    obtain rfl := Option.some.inj ha
    exact congrArg (·.getD .nil) hv
  | object anchor kind =>
    obtain rfl := Option.some.inj ha
    exact congrArg (·.getD .nil) hv
  | _ => cases ha

namespace Serves

/-- No two references own the same slot. -/
theorem apart (hs : s.Serves R) : (R.map s.slotOf).Nodup := by
  rw [hs.slots]
  exact (nodup_keys _).map (Option.some_injective _)

/-- A live reference denotes something. -/
theorem denotes (hs : s.Serves R) (hr : r ∈ R) :
    ∃ a v, s.slotOf r = some a ∧ s.anchors.get? a = some v := by
  obtain ⟨-, c, v, -, hv, -⟩ := hs.named r hr
  obtain ⟨a, ha, hv⟩ := Option.bind_eq_some_iff.mp hv
  exact ⟨a, v, ha, hv⟩

/-- The runtime is no part of it. -/
theorem withMachine (hs : s.Serves R) (m : Script.Machine) : Serves { s with machine := m } R :=
  { hs with }

/-! ## A new reference -/

/-- A cell in use is not the next one. -/
theorem old (hs : s.Serves R) (hr : r ∈ R) : r.cell ≠ s.nextCell := by
  obtain ⟨-, c, -, hc, -⟩ := hs.named r hr
  exact Nat.ne_of_lt (hs.fresh _ (mem_keys.mpr ⟨c, hc⟩))

/-- A value that is held by reference gets a slot that no reference has. -/
theorem toCell (hs : s.Serves R) (hv : v.Solid) :
    ∃ s', (Session.toCell v).run s = (some s.nextCell, s')
      ∧ s'.Serves (s'.refTo s.nextCell ::ₘ R) ∧ s'.object? (s'.refTo s.nextCell) = some v
      ∧ SameFor R s s' := by
  refine ⟨_, toCell_run hv, ?_⟩
  set a := s.anchors.next
  set c := s.cellOf v a
  set s' := stored { s with anchors := (s.anchors.take v).2 } c
  have unused : s.anchors.get? a = none := hs.conserved.next_free
  have number : (s'.refTo s.nextCell).cell = s.nextCell := cell_refTo s' s.nextCell
  have here : s'.cell? (s'.refTo s.nextCell).cell = some c := by
    rw [number]
    exact cell?_stored_self c
  have slot : s'.slotOf (s'.refTo s.nextCell) = some a :=
    (slotOf_of_cell here).trans (anchor?_cellOf v a)
  have object : s'.object? (s'.refTo s.nextCell) = some v := by
    rw [object?_of_slotOf slot]
    exact (s.anchors.get?_take v a).trans (if_pos rfl)
  have cells : ∀ p ∈ R, s'.cell? p.cell = s.cell? p.cell :=
    fun p hp => cell?_stored_of_ne (hs.old hp)
  have same : SameFor R s s' := by
    intro p hp
    obtain ⟨b, u, hb, hu⟩ := hs.denotes hp
    have mine : s'.slotOf p = s.slotOf p := slotOf_congr (cells p hp)
    refine ⟨mine, ?_⟩
    have other : b ≠ a := by
      rintro rfl
      exact Option.some_ne_none u (hu.symm.trans unused)
    rw [object?_of_slotOf (mine.trans hb), object?_of_slotOf hb]
    exact (s.anchors.get?_take v b).trans (if_neg other)
  refine ⟨⟨?_, hs.conserved.take v, ?_, ?_⟩, object, same⟩
  · change _ = (keys (s.anchors.held.insert a v)).map some
    rw [keys_insert unused, Multiset.map_cons, Multiset.map_cons, slot, ← hs.slots]
    exact congrArg _ (Multiset.map_congr rfl fun p hp => (same p hp).1)
  · intro p hp
    obtain rfl | hp := Multiset.mem_cons.mp hp
    · exact ⟨by rw [number], c, v, here, object, fits_cellOf hv a⟩
    · obtain ⟨self, d, u, hd, hu, fits⟩ := hs.named p hp
      have ref : s'.refTo p.cell = s.refTo p.cell := refTo_congr rfl (cells p hp)
      exact ⟨self.trans ref.symm, d, u, (cells p hp).trans hd, (same p hp).2.trans hu, fits⟩
  · intro cell hcell
    have unused : s.cell? s.nextCell = none := by
      rw [Option.eq_none_iff_forall_ne_some]
      intro d hd
      exact absurd (hs.fresh _ (mem_keys.mpr ⟨d, hd⟩)) (Nat.lt_irrefl _)
    change cell ∈ keys (s.cells.insert s.nextCell c) at hcell
    rw [keys_insert unused, Multiset.mem_cons] at hcell
    obtain rfl | hcell := hcell
    · exact Nat.lt_succ_self _
    · exact Nat.lt_succ_of_lt (hs.fresh cell hcell)

/-! ## References that go -/

/-- A reference that is released gives back its own slot and no other. -/
theorem free (hs : s.Serves R) (awake : s.active.isSome) (hr : r ∈ R) :
    ∃ a s', s.slotOf r = some a ∧ (Session.free r.cell).run s = ((), s')
      ∧ s'.anchors = s.anchors.free a ∧ s'.slotOf r = none
      ∧ s'.Serves (R.erase r) ∧ SameFor (R.erase r) s s' := by
  obtain ⟨a, v, ha, hv⟩ := hs.denotes hr
  obtain ⟨c, hc, hca⟩ := Option.bind_eq_some_iff.mp ha
  refine ⟨a, s.freed r.cell c, ha, free_run hc, ?_⟩
  set s' := s.freed r.cell c
  have anchors : s'.anchors = s.anchors.free a := anchors_withdrawn r.cell awake hca
  have split : R = r ::ₘ R.erase r := (Multiset.cons_erase hr).symm
  -- no other reference owns the same slot, so none has the same cell
  have apart : ∀ p ∈ R.erase r, s.slotOf p ≠ some a := by
    intro p hp eq
    have once := hs.apart
    rw [split, Multiset.map_cons, Multiset.nodup_cons, ha, ← eq] at once
    exact once.1 (Multiset.mem_map_of_mem _ hp)
  have cells : ∀ p ∈ R.erase r, s'.cell? p.cell = s.cell? p.cell := by
    intro p hp
    refine cell?_withdrawn_of_ne (c := c) fun eq => apart p hp ?_
    rw [slotOf, eq]
    exact ha
  have same : SameFor (R.erase r) s s' := by
    intro p hp
    have mine : s'.slotOf p = s.slotOf p := slotOf_congr (cells p hp)
    refine ⟨mine, ?_⟩
    obtain ⟨b, u, hb, hu⟩ := hs.denotes (Multiset.mem_of_mem_erase hp)
    have other : b ≠ a := by
      rintro rfl
      exact apart p hp hb
    rw [object?_of_slotOf (mine.trans hb), object?_of_slotOf hb, anchors, Anchors.get?_free,
      if_neg other]
  have gone : s'.slotOf r = none := by
    rw [slotOf, show s'.cell? r.cell = none from cell?_withdrawn_self (c := c)]
    rfl
  refine ⟨anchors, gone, ⟨?_, ?_, ?_, ?_⟩, same⟩
  · have before := hs.slots
    rw [split, Multiset.map_cons, keys_erase hv, Multiset.map_cons, ha,
      Multiset.cons_inj_right] at before
    rw [anchors]
    change _ = (keys (s.anchors.held.erase a)).map some
    rw [← before]
    exact Multiset.map_congr rfl fun p hp => (same p hp).1
  · rw [anchors]
    exact hs.conserved.free hv
  · intro p hp
    obtain ⟨self, d, u, hd, hu, fits⟩ := hs.named p (Multiset.mem_of_mem_erase hp)
    have ref : s'.refTo p.cell = s.refTo p.cell := refTo_congr rfl (cells p hp)
    exact ⟨self.trans ref.symm, d, u, (cells p hp).trans hd, (same p hp).2.trans hu, fits⟩
  · intro cell hcell
    obtain ⟨d, hd⟩ := mem_keys.mp hcell
    exact hs.fresh cell (mem_keys.mpr ⟨d, cell?_of_withdrawn (c := c) hd⟩)

/-- The cell of a reference is made into a host value by handing it over. -/
theorem unpack (hs : s.Serves R) (hr : r ∈ R) :
    ∃ u : Value, (Session.unpack (some r.cell)).run.run s = (.ok u, s) ∧ u.ref? = some r := by
  obtain ⟨self, c, v, hc, -, fits⟩ := hs.named r hr
  have run : (Session.unpack (some r.cell)).run.run s = _ := try_get_bind _ s
  rw [hc] at run
  cases c with
  | function anchor native =>
    cases native with
    | true => exact ⟨.reference r, by rw [run, ← self]; rfl, rfl⟩
    | false => exact ⟨.function r, by rw [run, ← self]; rfl, rfl⟩
  | object anchor kind => exact ⟨.reference r, by rw [run, ← self]; rfl, rfl⟩
  | _ => exact fits.elim

/-! ## References that are lent -/

/-- A reference of its session is lent: that changes nothing, and what is put on the host's frame
for it is the value that it denotes. -/
theorem lend (hs : s.Serves R) (hr : r ∈ R) (t : Script.ThreadId) :
    ∃ v, s.object? r = some v
      ∧ (pack (.reference r)).run.run s = (.ok (.lent r.cell), s)
      ∧ (pack (.function r)).run.run s = (.ok (.lent r.cell), s)
      ∧ (push t (.lent r.cell)).run.run s
        = (.ok none, { s with machine := s.machine.pushOperand t v }) := by
  obtain ⟨self, c, v, hc, hv, -⟩ := hs.named r hr
  obtain ⟨a, ha, -⟩ := Option.bind_eq_some_iff.mp hv
  have mine : r.session = s.id := by
    rw [self]
    exact session_refTo s r.cell
  have borrowed : (borrow r).run.run s = (.ok (.lent r.cell), s) := by
    rw [borrow, try_get_bind, if_pos mine]
    rfl
  refine ⟨v, hv, borrowed, borrowed, ?_⟩
  rw [push_lent_run t hc ((slotOf_of_cell hc).symm.trans ha), ← valueOf_lent hv]
  rfl

/-- What a copy of a reference comes to when the host's frame has room for one more value: the
value goes there and comes back. -/
theorem reanchor_run {t : Script.ThreadId} (hs : s.Serves R) (hr : r ∈ R)
    (active : s.active = some t) (room : (s.machine.reserve t 1).1)
    (listens : s.machine.Listens t) :
    ∃ v m s', s.object? r = some v
      ∧ (Session.toCell v).run { s with machine := m } = (some s.nextCell, s')
      ∧ (Session.reanchor r).run.run s = (.ok (s'.refTo s.nextCell), s') := by
  obtain ⟨v, hv, -, -, pushed⟩ := hs.lend hr t
  have solid : v.Solid := by
    obtain ⟨-, c, u, -, hu, fits⟩ := hs.named r hr
    obtain rfl := Option.some.inj (hu.symm.trans hv)
    exact fits.solid
  have on := (Script.Machine.listens_pushOperand listens v).2
  set p := s.machine.pushOperand t v
  set m := p.setOperands t (s.machine.operandsOf t)
  have taken : (takeCell t).run { s with machine := p }
      = (Session.toCell v).run { s with machine := m } := by
    have run : (takeCell t).run { s with machine := p }
        = (Session.toCell ((p.operandsOf t).headD .nil)).run
          { s with machine := p.setOperands t ((p.operandsOf t).drop 1) } := rfl
    rw [run, on]
    rfl
  have reserved : (reserve t 1).run.run s = (.ok (), s) := by
    rw [reserve_run, if_pos room, Script.Machine.reserve_of_room room]
  have awake : thread.run.run s = (.ok t, s) := by
    rw [thread_run, active]
    rfl
  refine ⟨v, m, _, hv, toCell_run solid, ?_⟩
  rw [Session.reanchor, try_bind_ok awake, try_bind_ok reserved, try_bind_ok pushed, try_lift_bind,
    taken, toCell_run solid]
  rfl

/-- A copy of a reference has a slot of its own, with the same value. -/
theorem reanchor {t : Script.ThreadId} (hs : s.Serves R) (hr : r ∈ R) (active : s.active = some t)
    (room : (s.machine.reserve t 1).1) (listens : s.machine.Listens t) :
    ∃ q s', (Session.reanchor r).run.run s = (.ok q, s') ∧ s'.Serves (q ::ₘ R)
      ∧ s'.object? q = s.object? r ∧ SameFor R s s' := by
  obtain ⟨v, m, s', hv, made, run⟩ := hs.reanchor_run hr active room listens
  have solid : v.Solid := by
    obtain ⟨-, c, u, -, hu, fits⟩ := hs.named r hr
    obtain rfl := Option.some.inj (hu.symm.trans hv)
    exact fits.solid
  obtain ⟨u, made', serves, object, same⟩ := (hs.withMachine m).toCell solid
  obtain rfl : s' = u := congrArg Prod.snd (made.symm.trans made')
  exact ⟨_, s', run, serves, object.trans hv.symm, same⟩

end Serves

/-- What can be relied on with the live references of an open session, and with whatever is done
with them next. -/
structure Refers (s : Session) (R : Multiset Ref) : Prop extends Serves s R where
  apart : (R.map s.slotOf).Nodup
  /-- A value of the runtime that is held by reference becomes one reference more. -/
  made : ∀ v : Script.Value, v.Solid → ∃ u q s',
    (do Session.unpack (← Session.toCell v) : Attempt Value).run.run s = (.ok u, s')
      ∧ u.ref? = some q ∧ s'.object? q = some v ∧ s'.Serves (q ::ₘ R) ∧ SameFor R s s'
  /-- A reference that is sent to the runtime is lent, and arrives there as what it denotes. -/
  lent : ∀ r ∈ R, ∀ t, ∃ v, s.object? r = some v
    ∧ (pack (.reference r)).run.run s = (.ok (.lent r.cell), s)
    ∧ (pack (.function r)).run.run s = (.ok (.lent r.cell), s)
    ∧ (push t (.lent r.cell)).run.run s
      = (.ok none, { s with machine := s.machine.pushOperand t v })
  /-- A copy of a reference is one reference more, which denotes the same. -/
  copied : ∀ r ∈ R, ∀ t, s.active = some t → (s.machine.reserve t 1).1 → s.machine.Listens t →
    ∃ q s', (Session.reanchor r).run.run s = (.ok q, s') ∧ s'.object? q = s.object? r
      ∧ s'.Serves (q ::ₘ R) ∧ SameFor R s s'
  /-- A reference that is released gives back the slot that it owns; all others stay. -/
  released : ∀ r ∈ R, ∃ a s', s.slotOf r = some a ∧ (free r.cell).run s = ((), s')
    ∧ s'.anchors = s.anchors.free a ∧ s'.slotOf r = none
    ∧ s'.Serves (R.erase r) ∧ SameFor (R.erase r) s s'

theorem Serves.refers (hs : s.Serves R) (awake : s.active.isSome) : s.Refers R where
  toServes := hs
  apart := hs.apart
  made := by
    intro v hv
    obtain ⟨s', run, serves, object, same⟩ := hs.toCell hv
    obtain ⟨u, read, hu⟩ := serves.unpack (Multiset.mem_cons_self _ R)
    rw [cell_refTo] at read
    refine ⟨u, _, s', ?_, hu, object, serves, same⟩
    rw [try_lift_bind, run, read]
  lent := fun r hr t => hs.lend hr t
  copied := by
    intro r hr t active room listens
    obtain ⟨q, s', run, serves, object, same⟩ := hs.reanchor hr active room listens
    exact ⟨q, s', run, object, serves, same⟩
  released := fun r hr => hs.free awake hr

/-! ## What is held of a session -/

/-- The slot of a cell that is held is that of the reference that holds it. -/
theorem Backs.slots {h : Holding} (hb : s.Backs h) (rests : Host.Resting h) :
    ((h.cells s.id).map (s.ofCell Cell.anchors)).sum.map some
      = (h.refs.filter fun r => r.session = s.id).map s.slotOf := by
  cases h with
  | ref r =>
    by_cases same : r.session = s.id
    · obtain ⟨⟨c, a, hc, ha⟩, -⟩ := hb same
      have slot : s.slotOf r = some a := (slotOf_of_cell hc).trans ha
      simp [Holding.cells, Holding.refs, same, ofCell, hc, Cell.anchors, ha, slot,
        Multiset.filter_singleton]
    · simp [Holding.cells, Holding.refs, same, Multiset.filter_singleton]
  | out session cell v =>
    by_cases same : session = s.id
    · obtain ⟨c, hc, conveys⟩ := hb same
      have none : c.anchors = 0 := by
        cases v with
        | callable f =>
          obtain ⟨handle, rfl, -⟩ := conveys
          rfl
        | number | boolean | string =>
          obtain rfl := conveys
          rfl
        | _ => exact conveys.elim
      simp [Holding.cells, Holding.refs, same, ofCell, hc, none]
    · simp [Holding.cells, Holding.refs, same]
  | inbound | cell | due | slot => exact rests.elim
  | _ => rfl

/-- Sums over holdings that agree on each of them. -/
theorem map_tally_congr {α β γ : Type} {f : Holding → Multiset α} {g : Holding → Multiset β}
    {p : β → Prop} [DecidablePred p] {a : α → γ} {b : β → γ} {H : Multiset Holding}
    (h : ∀ k ∈ H, (f k).map a = ((g k).filter p).map b) :
    (tally f H).map a = ((tally g H).filter p).map b := by
  induction H using Multiset.induction_on with
  | empty => rfl
  | cons k H ih =>
    rw [tally_cons, tally_cons, Multiset.map_add, Multiset.filter_add, Multiset.map_add,
      h k (Multiset.mem_cons_self k H), ih fun j hj => h j (Multiset.mem_cons_of_mem hj)]

/-- The anchors of an open session go together with the references that are held. -/
theorem Tidy.serves {m : Memory} {H : Multiset Holding} (hs : s.Tidy m H) (ho : s.isOpen)
    (rests : ∀ h ∈ H, Host.Resting h) :
    s.Serves ((tally Holding.refs H).filter fun r => r.session = s.id) := by
  refine ⟨?_, hs.conserved ho, ?_, hs.fresh⟩
  · have free : tally (Holding.slots s.id) H = 0 := by
      refine Multiset.sum_eq_zero fun A hA => ?_
      obtain ⟨h, hh, rfl⟩ := Multiset.mem_map.mp hA
      cases h with
      | slot => exact (rests _ hh).elim
      | _ => rfl
    rw [hs.anchored ho, free, add_zero, moorings, hs.sum_cells Cell.anchors]
    exact (map_tally_congr fun h hh => (hs.backs h hh).slots (rests h hh)).symm
  · intro r hr
    obtain ⟨held, mine⟩ := Multiset.mem_filter.mp hr
    obtain ⟨h, hh, hr⟩ := mem_tally.mp held
    cases h with
    | ref q =>
      obtain rfl := Multiset.mem_singleton.mp hr
      obtain ⟨⟨c, a, hc, ha⟩, self⟩ := hs.backs _ hh mine
      obtain ⟨v, hv, fits, -⟩ := hs.moored ho _ c a hc ha
      refine ⟨self, c, v, hc, ?_, fits⟩
      rw [object?_of_slotOf ((slotOf_of_cell hc).trans ha), hv]
    | _ => exact absurd hr (Multiset.notMem_zero r)

end Session

namespace Host

variable {w : World} {μ : SessionId → Session.Memory} {id : SessionId} {s : Session}

namespace World

/-- The references of a session that are alive go together with its anchors. -/
theorem Books.serves (hw : Books μ 0 w) (h : w.sessions[id]? = some s) (ho : s.isOpen) :
    s.Serves (w.liveRefs id) := by
  rw [Books, add_zero] at hw
  obtain ⟨rfl, tidy⟩ := hw.1.tidy id s h
  have serves := tidy.serves ho fun k hk => resting hk
  rwa [tally_refs] at serves

/-! ## References over time -/

/-- A reference that is held of an open session denotes a value, which is the one that was seen of
it. -/
theorem Books.recalls {r : Ref} {H : Multiset Holding} (hw : Books μ H w) (held : .ref r ∈ H)
    (hs : w.sessions[r.session]? = some s) (ho : s.isOpen) :
    ∃ x, s.object? r = some x ∧ x.Solid ∧ ∀ y, μ r.session r.cell = some y → y = x := by
  obtain ⟨mine, tidy⟩ := hw.1.tidy _ s hs
  obtain ⟨⟨c, a, hc, hca⟩, -⟩ := tidy.backs (.ref r) (Multiset.mem_add.mpr (.inr held)) mine.symm
  obtain ⟨x, hx, fits, remembered⟩ := tidy.moored ho _ c a hc hca
  refine ⟨x, ?_, fits.solid, remembered⟩
  rw [Session.object?_of_slotOf ((Session.slotOf_of_cell hc).trans hca), hx]

/-- What the references of a world denote. -/
def snapshot (w : World) (id : SessionId) : Session.Memory := fun cell =>
  (w.sessions[id]?).bind fun s =>
    if s.isOpen then ((s.cell? cell).bind Cell.anchor?).bind s.anchors.get? else none

/-- The books are right with what references denote now as what was seen of them. -/
theorem Books.remember (hw : Books μ 0 w) : Books w.snapshot 0 w := by
  refine ⟨{ hw.1 with tidy := ?_, unseen := ?_ }, hw.2⟩
  · intro id s h
    obtain ⟨rfl, tidy⟩ := hw.1.tidy id s h
    refine ⟨rfl, { tidy with moored := ?_, past := ?_ }⟩
    · intro ho cell c a hc ha
      obtain ⟨v, hv, fits, -⟩ := tidy.moored ho cell c a hc ha
      refine ⟨v, hv, fits, fun u hu => ?_⟩
      rw [snapshot, h, Option.bind_some, if_pos ho, hc, Option.bind_some, ha, Option.bind_some] at hu
      exact Option.some.inj (hu.symm.trans hv)
    · intro cell v hv
      rw [snapshot, h, Option.bind_some] at hv
      split at hv
      · obtain ⟨a, ha, -⟩ := Option.bind_eq_some_iff.mp hv
        obtain ⟨c, hc, -⟩ := Option.bind_eq_some_iff.mp ha
        exact tidy.fresh cell (mem_keys.mpr ⟨c, hc⟩)
      · cases hv
  · intro id cell v hv
    obtain ⟨s, hs, -⟩ := Option.bind_eq_some_iff.mp hv
    exact ⟨s, hs⟩

/-- A reference that lives on denotes what it did. -/
theorem Books.object?_run {n : Nat} {s' : Session} {r : Ref} (hw : Books μ 0 w)
    (h : w.sessions[id]? = some s) (ho : s.isOpen) (h' : (w.run n).sessions[id]? = some s')
    (ho' : s'.isOpen) (hr : r ∈ w.liveRefs id) (hr' : r ∈ (w.run n).liveRefs id) :
    s'.object? r = s.object? r := by
  obtain ⟨a, v, ha, hv⟩ := (hw.serves h ho).denotes hr
  have object : s.object? r = some v := by rw [Session.object?_of_slotOf ha, hv]
  have after := hw.remember.run n
  obtain ⟨b, u, hb, hu⟩ := (after.serves h' ho').denotes hr'
  obtain ⟨c, hc, hb'⟩ := Option.bind_eq_some_iff.mp hb
  have seen : w.snapshot id r.cell = some v := by
    rw [snapshot, h, Option.bind_some, if_pos ho]
    exact object
  rw [Books, add_zero] at after
  obtain ⟨z, hz, -, remembered⟩ := (after.1.tidy id s' h').2.moored ho' r.cell c b hc hb'
  rw [object, Session.object?_of_slotOf hb, hz, remembered v seen]

/-! ## Transfers in progress -/

theorem mem_values {a : Activity} {v : Value} (ha : a ∈ w.activities) (hv : v ∈ a.values) :
    v ∈ w.values := by
  refine Multiset.mem_add.mpr (Or.inr ?_)
  generalize w.activities = as at ha
  induction as with
  | nil => cases ha
  | cons b as ih =>
    rw [List.map_cons, List.sum_cons, Multiset.mem_add]
    obtain rfl | ha := List.mem_cons.mp ha
    · exact Or.inl hv
    · exact Or.inr (ih ha)

end World

/-- The transfers of something in progress to the runtime of a session, and what they carry. -/
def Activity.transfer? : Activity → Option (SessionId × List Session.Outbound × List Value)
  | .step _ (.calling id _ outs c) => some (id, outs, c.args.map (·.1))
  | .delivering d errand => some (d.session, d.outbound, errand.values)
  | _ => none

theorem Activity.mem_values_of_transfer {a : Activity} {outs : List Session.Outbound}
    {vs : List Value} {v : Value} (h : a.transfer? = some (id, outs, vs)) (hv : v ∈ vs) :
    v ∈ a.values := by
  have called : ∀ c : Calling, v ∈ c.args.map (·.1) → v ∈ (c.values : Multiset Value) :=
    fun c hv => List.mem_append_right _ hv
  cases a with
  | step s waiting =>
    cases waiting with
    | calling session base outs c =>
      cases h
      exact called c hv
    | _ => cases h
  | delivering d errand =>
    cases h
    cases errand with
    | call s base f c => exact called c hv
    | assign s base u => exact Multiset.mem_singleton.mpr (List.mem_singleton.mp hv)
    | results previous us => exact hv
  | _ => cases h

theorem Activity.Fits.transfer {a : Activity} {outs : List Session.Outbound} {vs : List Value}
    (fits : a.Fits) (h : a.transfer? = some (id, outs, vs)) :
    List.Forall₂ (Session.Carries id) outs vs := by
  cases a with
  | step s waiting =>
    cases waiting with
    | calling session base outs c =>
      cases h
      exact fits
    | _ => cases h
  | delivering d errand =>
    cases h
    exact fits.1
  | _ => cases h

namespace World

/-- The references that are on their way are lent, and are alive. -/
theorem Books.lends {a : Activity} {outs : List Session.Outbound} {vs : List Value}
    (hw : Books μ 0 w) (ha : a ∈ w.activities) (h : a.transfer? = some (id, outs, vs)) :
    List.Forall₂ (fun out v => ∀ r, v.ref? = some r → out = .lent r.cell ∧ r ∈ w.liveRefs id)
      outs vs := by
  have carries := (hw.1.fits a ha).transfer h
  have held : ∀ v ∈ vs, v ∈ w.values := fun v hv =>
    mem_values ha (Activity.mem_values_of_transfer h hv)
  clear h
  induction carries with
  | nil => exact .nil
  | @cons out v outs vs head rest ih =>
    rw [List.forall_mem_cons] at held
    refine .cons (fun r hr => ?_) (ih held.2)
    have mine : r.session = id ∧ out = .lent r.cell := by
      cases v with
      | reference q | function q =>
        obtain rfl := Option.some.inj hr
        cases out with
        | lent cell =>
          obtain ⟨session, rfl⟩ := head
          exact ⟨session, rfl⟩
        | _ => exact head.elim
      | _ => cases hr
    refine ⟨mine.2, Multiset.mem_filter.mpr ⟨?_, mine.1⟩⟩
    exact (Multiset.mem_filterMap Value.ref? _).mpr ⟨v, held.1, hr⟩

end World

/-- At any point of any run, the live references of an open session own a slot each and denote
what they denoted at any point before; what is done next with one of them leaves the others alone.
The references among the values of a call or a delivery in progress are only lent. -/
theorem references_run (program : List Step) (whims : List Whim) (n k : Nat) {id : SessionId}
    {s s' : Session} (before : ((World.start program whims).run n).sessions[id]? = some s)
    (after : (((World.start program whims).run n).run k).sessions[id]? = some s')
    (ho : s.isOpen) (ho' : s'.isOpen) :
    let w := (World.start program whims).run n
    let w' := w.run k
    s'.Refers (w'.liveRefs id)
      ∧ (∀ r ∈ w.liveRefs id, r ∈ w'.liveRefs id → s'.object? r = s.object? r)
      ∧ ∀ a ∈ w'.activities, ∀ outs vs, a.transfer? = some (id, outs, vs) →
        List.Forall₂
          (fun out v => ∀ r, v.ref? = some r → out = .lent r.cell ∧ r ∈ w'.liveRefs id) outs vs := by
  intro w w'
  have books := World.books_run program whims n
  have books' := books.run k
  have tidy := (books'.1.tidy id s' after).2
  refine ⟨(books'.serves after ho').refers (tidy.awake.trans ho'), ?_, ?_⟩
  · intro r hr hr'
    exact books.object?_run before ho after ho' hr hr'
  · intro a ha outs vs h
    exact books'.lends ha h

/-- A program that gets two tables, copies the reference to one and releases the other. -/
def copying : List Step := [
  .mk (.openSession "a" .standard) true true,
  .mk (.lookUp "a" "math" (some "x")) true true,
  .mk (.lookUp "a" "string" (some "y")) true true,
  .mk (.clone "x" (some "z")) true true,
  .mk (.release "y") true true]

theorem references_run_copying :
    let w := (World.start copying []).run 3
    let w' := w.run 2
    (w.liveRefs 1).card = 2 ∧ (w'.liveRefs 1).card = 2 ∧ ∃ s s',
      w.sessions[1]? = some s ∧ w'.sessions[1]? = some s' ∧ s.isOpen ∧ s'.isOpen
        ∧ s'.Refers (w'.liveRefs 1)
        ∧ ∀ r ∈ w.liveRefs 1, r ∈ w'.liveRefs 1 → s'.object? r = s.object? r := by
  refine ⟨by decide +kernel, by decide +kernel, ?_⟩
  have open' : ((((World.start copying []).run 3).sessions[1]?).any Session.isOpen) = true := by
    decide +kernel
  have still : (((((World.start copying []).run 3).run 2).sessions[1]?).any Session.isOpen)
      = true := by decide +kernel
  obtain ⟨s, hs, ho⟩ := (Option.any_eq_true _ _).mp open'
  obtain ⟨s', hs', ho'⟩ := (Option.any_eq_true _ _).mp still
  obtain ⟨refers, same, -⟩ := references_run copying [] 3 2 hs hs' ho ho'
  exact ⟨s, s', hs, hs', ho, ho', refers, same⟩

end Host

end ScriptBridge
