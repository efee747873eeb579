import ScriptBridge.Proofs.Cells

/-!
# ScriptBridge.Proofs.Pins

Anchors and pins change hands: a value is anchored, a callable is pinned, a pin goes to a userdata
of the runtime, comes back when that is finalized, and is released.  Host code is entered and left,
and in the end the session is closed.

Main facts:

* `Sound.anchor` — a slot of its own for every value that is anchored;
* `Sound.pin`, `Sound.unpin` — a pin is an owner more, or less, of its callable;
* `Sound.close` — a closed session hands the callables over that were still pinned.
-/

namespace ScriptBridge

namespace Session

variable {s : Session} {e : Env} {H : Multiset Holding}

namespace Sound

/-- The holdings of an inventory are backed if the first one is and the others are. -/
theorem backs_cons {s' : Session} {h : Holding} (head : s'.Backs h)
    (rest : ∀ k ∈ H, s'.Backs k) : ∀ k ∈ {h} + H, s'.Backs k := by
  intro k hk
  rw [Multiset.singleton_add, Multiset.mem_cons] at hk
  obtain rfl | hk := hk
  · exact head
  · exact rest k hk

theorem near_cons {h : Holding} (head : e.known h.session)
    (rest : ∀ k ∈ H, e.known k.session) : ∀ k ∈ {h} + H, e.known k.session := by
  intro k hk
  rw [Multiset.singleton_add, Multiset.mem_cons] at hk
  obtain rfl | hk := hk
  · exact head
  · exact rest k hk

/-- An anchor is a slot that nothing else owns. -/
theorem anchor {v : Script.Value} (hs : s.Sound e H) (hv : v.Solid) :
    Sound e ({.slot s.id s.anchors.next v} + H) { s with anchors := (s.anchors.take v).2 } := by
  have fresh : s.isOpen → s.anchors.held[s.anchors.next]? = none :=
    fun ho => (hs.conserved ho).next_free
  -- a slot in use is not the one that is taken
  have apart : s.isOpen → ∀ a u, s.anchors.get? a = some u → a ≠ s.anchors.next := by
    rintro ho a u hu rfl
    exact Option.some_ne_none u (hu.symm.trans (fresh ho))
  refine {
    cells := by simpa [Holding.cells] using hs.cells
    fresh := hs.fresh
    ledger := by simpa [Holding.weight, weigh] using hs.ledger
    solvent := hs.solvent
    solid := ?_
    moored := ?_
    anchored := ?_
    conserved := fun ho => (hs.conserved ho).take v
    past := hs.past
    pins := by simpa [Holding.pins, cellPins, userdataPins] using hs.pins
    lapsed := hs.lapsed
    issued := hs.issued
    worth := by simpa [Holding.callables, Holding.debts, pinned] using hs.worth
    payable := by simpa [Holding.debts] using hs.payable
    backs := backs_cons (fun _ => ⟨hv, fun _ => ?_⟩) ?_
    awake := hs.awake
    known := hs.known
    near := near_cons hs.known hs.near }
  · intro a u hu
    change (s.anchors.take v).2.get? a = some u at hu
    rw [Anchors.get?_take] at hu
    split at hu
    · cases hu
      exact hv
    · exact hs.solid a u hu
  · intro ho cell c a hc ha
    obtain ⟨u, hu, fits⟩ := hs.moored ho cell c a hc ha
    refine ⟨u, ?_, fits⟩
    change (s.anchors.take v).2.get? a = some u
    rw [Anchors.get?_take, if_neg (apart ho a u hu), hu]
  · intro ho
    change keys (s.anchors.held.insert s.anchors.next v) = s.moorings + _
    rw [keys_insert (fresh ho), hs.anchored ho, tally_add, tally_singleton]
    simp [Holding.slots]
  · change (s.anchors.take v).2.get? s.anchors.next = some v
    rw [Anchors.get?_take, if_pos rfl]
  · intro k hk
    refine (hs.backs k hk).stay rfl (fun ho => ho) (fun _ _ => rfl)
      (fun _ _ _ _ _ _ _ => rfl) (fun _ _ _ => rfl) fun ho a ha => ?_
    change (s.anchors.take v).2.get? a = s.anchors.get? a
    have held : a ∈ keys s.anchors.held := by
      rw [hs.anchored ho]
      exact Multiset.mem_add.mpr (Or.inr (mem_tally.mpr ⟨k, hk, ha⟩))
    obtain ⟨u, hu⟩ := mem_keys.mp held
    rw [Anchors.get?_take, if_neg (apart ho a u hu)]

theorem tally_pins_pin (id : SessionId) (handle : Handle) (v : Option Value) (H : Multiset Holding) :
    tally (Holding.pins id) ({.pin id handle v} + H)
      = handle.number ::ₘ tally (Holding.pins id) H := by simp [Holding.pins]

theorem pin_fresh (hs : s.Sound e H) : s.pins.live[s.pins.next.number]? = none := by
  rw [Option.eq_none_iff_forall_ne_some]
  intro f hf
  have bound := hs.issued _ (mem_keys.mpr ⟨f, hf⟩)
  exact absurd bound (Nat.not_succ_le_self _)

/-- A pin is an owner more of a callable that has one. -/
theorem pin {f : CallableId} {v : Option Value} (hs : s.Sound e H) (ho : s.isOpen) (hf : f ∈ e.worth)
    (hv : s.isOpen → ∀ u ∈ v, u = .callable f) :
    Sound e ({.pin s.id s.pins.next v} + ({.unpaid f} + H)) { s with pins := (s.pins.pin f).2 } := by
  have fresh := hs.pin_fresh
  have callables : tally Holding.callables ({.pin s.id s.pins.next v} + ({.unpaid f} + H))
      = tally Holding.callables H := by simp [Holding.callables]
  have debts : tally Holding.debts ({.pin s.id s.pins.next v} + ({.unpaid f} + H))
      = f ::ₘ tally Holding.debts H := by simp [Holding.debts]
  refine {
    cells := by simpa [Holding.cells] using hs.cells
    fresh := hs.fresh
    ledger := by simpa [Holding.weight, weigh] using hs.ledger
    solvent := hs.solvent
    solid := hs.solid
    moored := hs.moored
    anchored := by simpa [Holding.slots, moorings] using hs.anchored
    conserved := hs.conserved
    past := hs.past
    pins := ?_
    lapsed := fun closed => absurd ho (Bool.eq_false_iff.mp closed)
    issued := ?_
    backs := backs_cons (fun _ ho u hu => ⟨f, hv ho u hu, ?_⟩) (backs_cons trivial ?_)
    awake := hs.awake
    worth := ?_
    payable := ?_
    known := hs.known
    near := near_cons hs.known (near_cons (e.nobody) hs.near) }
  · intro ho
    change keys (s.pins.live.insert s.pins.next.number f) = s.cellPins + s.userdataPins + _
    rw [keys_insert fresh, hs.pins ho, tally_pins_pin, Multiset.add_cons]
    simp [Holding.pins]
  · intro k hk
    change k ∈ keys (s.pins.live.insert s.pins.next.number f) at hk
    rw [keys_insert fresh, Multiset.mem_cons] at hk
    obtain rfl | hk := hk
    · exact Nat.le_refl _
    · exact Nat.le_succ_of_le (hs.issued k hk)
  · change (s.pins.pin f).2.get? s.pins.next = some f
    rw [Registry.get?_pin, if_pos rfl]
  · intro k hk
    -- a pin that is live is not the new one
    have old : ∀ handle : Handle, handle.number ∈ keys s.pins.live →
        (s.pins.pin f).2.get? handle = s.pins.get? handle := by
      intro handle live
      rw [Registry.get?_pin, if_neg]
      rintro rfl
      obtain ⟨g, hg⟩ := mem_keys.mp live
      exact Option.some_ne_none g (hg.symm.trans fresh)
    refine (hs.backs k hk).stay rfl (fun ho => ho) (fun _ _ => rfl)
      (fun ho cell hcell c handle hc hh => old handle (hs.cell_pin_live ho hc hh))
      (fun ho handle mine => old handle ?_) (fun _ _ _ => rfl)
    rw [hs.pins ho]
    exact Multiset.mem_add.mpr (Or.inr (mem_tally.mpr ⟨k, hk, mine⟩))
  · have worth := hs.worth
    rw [pinned] at worth ⊢
    change (entries (s.pins.live.insert s.pins.next.number f)).map _ + _ = _
    rw [entries_insert fresh, Multiset.map_cons, callables, debts, Multiset.cons_add, worth,
      Multiset.add_cons]
  · intro g hg
    rw [debts, Multiset.mem_cons] at hg
    obtain rfl | hg := hg
    · exact hf
    · exact hs.payable g hg

/-- A pin can be given to a userdata of the runtime. -/
theorem build {handle : Handle} {v : Option Value} (hs : s.Sound e ({.pin s.id handle v} + H))
    (owner : Script.UserdataId) : Sound e H { s with handles := (owner, handle) :: s.handles } :=
  { hs with
    cells := by simpa [Holding.cells] using hs.cells
    ledger := by simpa [Holding.weight, weigh] using hs.ledger
    anchored := by simpa [Holding.slots, moorings] using hs.anchored
    pins := by
      intro ho
      rw [hs.pins ho, tally_pins_pin]
      simp only [cellPins, userdataPins, List.map_cons, ← Multiset.cons_coe, Multiset.add_cons,
        Multiset.cons_add]
    worth := by simpa [Holding.callables, Holding.debts, pinned] using hs.worth
    payable := by simpa [Holding.debts] using hs.payable
    backs := fun h hh => hs.backs h (by simp [hh])
    near := fun h hh => hs.near h (by simp [hh]) }

theorem perm_of_lookup {handles : List (Script.UserdataId × Handle)} {owner : Script.UserdataId}
    {handle : Handle} (h : handles.lookup owner = some handle) :
    handles.Perm ((owner, handle) :: handles.eraseP fun e => e.1 == owner) := by
  induction handles with
  | nil => cases h
  | cons entry rest ih =>
    rw [List.lookup_cons] at h
    by_cases same : entry.1 = owner
    · have hit : (owner == entry.1) = true := by simp [same]
      rw [hit] at h
      obtain ⟨a, b⟩ := entry
      simp_all
    · have miss : (owner == entry.1) = false := by simpa using fun eq => same eq.symm
      rw [miss] at h
      rw [List.eraseP_cons_of_neg (by simpa using same)]
      exact ((ih h).cons entry).trans (List.Perm.swap _ _ _)

/-- A pin comes back from the userdata that owned it. -/
theorem takeHandle {owner : Script.UserdataId} {handle : Handle} (hs : s.Sound e H)
    (h : s.handles.lookup owner = some handle) :
    Sound e ({.pin s.id handle none} + H)
      { s with handles := s.handles.eraseP fun e => e.1 == owner } :=
  { hs with
    cells := by simpa [Holding.cells] using hs.cells
    ledger := by simpa [Holding.weight, weigh] using hs.ledger
    anchored := by simpa [Holding.slots, moorings] using hs.anchored
    pins := by
      intro ho
      have perm : s.userdataPins = handle.number ::ₘ
          (((s.handles.eraseP fun e => e.1 == owner).map fun e => e.2.number : List Nat)) :=
        Multiset.coe_eq_coe.mpr ((perm_of_lookup h).map _)
      rw [hs.pins ho, perm, tally_pins_pin]
      simp only [cellPins, userdataPins, Multiset.add_cons, Multiset.cons_add]
    worth := by simpa [Holding.callables, Holding.debts, pinned] using hs.worth
    payable := by simpa [Holding.debts] using hs.payable
    backs := backs_cons (fun _ _ _ hu => by cases hu) hs.backs
    near := near_cons hs.known hs.near }

/-- A pin that is released is an owner less of its callable. -/
theorem unpin {handle : Handle} {v : Option Value} (hs : s.Sound e ({.pin s.id handle v} + H)) :
    Sound e (((s.pins.get? handle).elim 0 fun f => {.callable f}) + H)
      { s with pins := (s.pins.release handle).2 } := by
  have owned : s.isOpen → keys s.pins.live
      = handle.number ::ₘ (s.cellPins + s.userdataPins + tally (Holding.pins s.id) H) := by
    intro ho
    rw [hs.pins ho, tally_pins_pin, Multiset.add_cons]
  have backs : ∀ k ∈ H, Backs { s with pins := (s.pins.release handle).2 } k := by
    intro k hk
    -- a pin that has another owner is not the one that is released
    have other : s.isOpen → ∀ other : Handle,
        other.number ∈ s.cellPins + s.userdataPins + tally (Holding.pins s.id) H →
        (s.pins.release handle).2.get? other = s.pins.get? other := by
      intro ho other mine
      rw [Registry.get?_release, if_neg]
      rintro rfl
      have once := nodup_keys s.pins.live
      rw [owned ho, Multiset.nodup_cons] at once
      exact once.1 mine
    refine (hs.backs k (by simp [hk])).stay rfl (fun ho => ho) (fun _ _ => rfl)
      (fun ho cell _ c k' hc hh => other ho k' ?_) (fun ho k' mine => other ho k' ?_)
      (fun _ _ _ => rfl)
    · refine Multiset.mem_add.mpr (Or.inl (Multiset.mem_add.mpr (Or.inl ?_)))
      exact mem_cellPins hc (by simp [Cell.pins, hh])
    · exact Multiset.mem_add.mpr (Or.inr (mem_tally.mpr ⟨k, hk, mine⟩))
  have near : ∀ k ∈ H, e.known k.session := fun k hk => hs.near k (by simp [hk])
  have issued : ∀ k ∈ keys (s.pins.live.erase handle.number), k ≤ s.pins.issued := fun k hk =>
    hs.issued k (mem_keys_erase hk)
  have lapsed : s.isOpen = false → keys (s.pins.live.erase handle.number) = 0 := fun closed =>
    hs.toPinned.lapsed_erase closed
  have worth := hs.worth
  simp only [tally_add, tally_singleton, Holding.callables, Holding.debts, zero_add,
    pinned] at worth
  have payable : ∀ f ∈ tally Holding.debts H, f ∈ e.worth := by
    simpa [Holding.debts] using hs.payable
  cases hf : s.pins.get? handle with
  | none =>
    have absent : s.isOpen → False := by
      intro ho
      have mine : handle.number ∈ keys s.pins.live := by
        rw [owned ho]
        exact Multiset.mem_cons_self _ _
      obtain ⟨f, hf'⟩ := mem_keys.mp mine
      exact Option.some_ne_none f (hf'.symm.trans hf)
    have gone : entries (s.pins.live.erase handle.number) = entries s.pins.live :=
      entries_erase_of_none hf
    rw [Option.elim_none, zero_add]
    exact { hs with
      cells := by simpa [Holding.cells] using hs.cells
      ledger := by simpa [Holding.weight, weigh] using hs.ledger
      anchored := by simpa [Holding.slots, moorings] using hs.anchored
      pins := fun ho => (absent ho).elim
      lapsed := lapsed
      issued := issued
      worth := by
        rw [pinned]
        change (entries (s.pins.live.erase handle.number)).map _ + _ = _
        rw [gone, worth]
      payable := payable
      backs := backs
      near := near }
  | some f =>
    rw [Option.elim_some]
    exact { hs with
      cells := by simpa [Holding.cells] using hs.cells
      ledger := by simpa [Holding.weight, weigh] using hs.ledger
      anchored := by simpa [Holding.slots, moorings] using hs.anchored
      pins := by
        intro ho
        change keys (s.pins.live.erase handle.number) = s.cellPins + s.userdataPins + _
        have whole := owned ho
        rw [keys_erase hf] at whole
        rw [(Multiset.cons_inj_right handle.number).mp whole]
        simp [Holding.pins]
      lapsed := lapsed
      issued := issued
      worth := by
        rw [entries_erase hf] at worth
        rw [pinned]
        change (entries (s.pins.live.erase handle.number)).map _ + _ = _
        simpa [Holding.callables, Holding.debts] using worth
      payable := by simpa [Holding.debts] using payable
      backs := backs_cons trivial backs
      near := near_cons (e.nobody) near }

/-- An owner that was never counted need not be. -/
theorem cancel {f : CallableId} (hs : s.Sound e ({.callable f} + ({.unpaid f} + H))) :
    s.Sound e H := by
  have callables : tally Holding.callables ({.callable f} + ({.unpaid f} + H))
      = f ::ₘ tally Holding.callables H := by simp [Holding.callables]
  have debts : tally Holding.debts ({.callable f} + ({.unpaid f} + H))
      = f ::ₘ tally Holding.debts H := by simp [Holding.debts]
  exact { hs with
    cells := by simpa [Holding.cells] using hs.cells
    ledger := by simpa [Holding.weight] using hs.ledger
    anchored := by simpa [Holding.slots] using hs.anchored
    pins := by simpa [Holding.pins] using hs.pins
    worth := by
      have worth := hs.worth
      rw [callables, debts, Multiset.add_cons, Multiset.add_cons] at worth
      exact (Multiset.cons_inj_right f).mp worth
    payable := by
      intro g hg
      refine hs.payable g ?_
      rw [debts]
      exact Multiset.mem_cons_of_mem hg
    backs := fun k hk => hs.backs k (by simp [hk])
    near := fun k hk => hs.near k (by simp [hk]) }

/-! ## Threads, and the end -/

/-- Host code is entered on a thread, and the one before is remembered. -/
theorem enter (hs : s.Sound e H) (t : Script.ThreadId) :
    Sound e ({.entered s.id s.active} + H)
      (if s.isOpen then { s with active := some t } else s) := by
  have backs : ∀ k ∈ {.entered s.id s.active} + H, s.Backs k :=
    backs_cons (fun _ ho => hs.awake.trans ho) hs.backs
  have next : s.Sound e ({.entered s.id s.active} + H) :=
    { hs with
      cells := by simpa [Holding.cells] using hs.cells
      ledger := by simpa [Holding.weight] using hs.ledger
      anchored := by simpa [Holding.slots] using hs.anchored
      pins := by simpa [Holding.pins] using hs.pins
      worth := by simpa [Holding.callables, Holding.debts] using hs.worth
      payable := by simpa [Holding.debts] using hs.payable
      backs := backs
      near := near_cons hs.known hs.near }
  by_cases ho : s.isOpen
  · rw [if_pos ho]
    exact { next with
      backs := fun k hk => (backs k hk).stay rfl (fun ho => ho) (fun _ _ => rfl)
        (fun _ _ _ _ _ _ _ => rfl) (fun _ _ _ => rfl) (fun _ _ _ => rfl)
      awake := ho.symm }
  · rw [if_neg ho]
    exact next

/-- Host code is left for the thread that was active before. -/
theorem leave {previous : Option Script.ThreadId}
    (hs : s.Sound e ({.entered s.id previous} + H)) :
    Sound e H (if s.isOpen then { s with active := previous } else s) := by
  have next : s.Sound e H :=
    { hs with
      cells := by simpa [Holding.cells] using hs.cells
      ledger := by simpa [Holding.weight] using hs.ledger
      anchored := by simpa [Holding.slots] using hs.anchored
      pins := by simpa [Holding.pins] using hs.pins
      worth := by simpa [Holding.callables, Holding.debts] using hs.worth
      payable := by simpa [Holding.debts] using hs.payable
      backs := fun k hk => hs.backs k (by simp [hk])
      near := fun k hk => hs.near k (by simp [hk]) }
  by_cases ho : s.isOpen
  · rw [if_pos ho]
    have back := hs.backs (.entered s.id previous) (by simp) rfl ho
    exact { next with
      backs := fun k hk => (next.backs k hk).stay rfl (fun ho => ho) (fun _ _ => rfl)
        (fun _ _ _ _ _ _ _ => rfl) (fun _ _ _ => rfl) (fun _ _ _ => rfl)
      awake := back.trans ho.symm }
  · rw [if_neg ho]
    exact next

/-- A session that is closed hands the callables over that were still pinned. -/
theorem close (hs : s.Sound e H) :
    Sound e (owners s.pins.clear.1 + H)
      { s with
        isOpen := false, active := none, pins := s.pins.clear.2, machine := default,
        anchors := .empty, handles := [] } := by
  have list : s.pinned = ↑s.pins.clear.1 := rfl
  refine {
    cells := ?_
    fresh := hs.fresh
    ledger := ?_
    solvent := hs.solvent
    solid := by
      intro a v hv
      simp at hv
    moored := by simp
    anchored := by simp
    conserved := by simp
    past := hs.past
    pins := by simp
    lapsed := fun _ => by simp [Registry.clear]
    issued := by simp [Registry.clear]
    backs := ?_
    awake := rfl
    worth := ?_
    payable := ?_
    known := hs.known
    near := ?_ }
  · rw [tally_add, tally_owners fun _ => rfl, zero_add]
    exact hs.cells
  · rw [tally_add, tally_owners fun _ => rfl, zero_add]
    exact hs.ledger
  · intro k hk
    obtain hk | hk := Multiset.mem_add.mp hk
    · obtain ⟨f, -, rfl⟩ := mem_owners.mp hk
      trivial
    · exact (hs.backs k hk).stay rfl (by simp) (fun _ _ => rfl) (by simp) (by simp) (by simp)
  · rw [tally_add, tally_add, tally_callables_owners, ← list, tally_owners fun _ => rfl,
      zero_add, ← hs.worth]
    simp [pinned, Registry.clear]
  · rw [tally_add, tally_owners fun _ => rfl, zero_add]
    exact hs.payable
  · intro k hk
    obtain hk | hk := Multiset.mem_add.mp hk
    · obtain ⟨f, -, rfl⟩ := mem_owners.mp hk
      exact e.nobody
    · exact hs.near k hk

end Sound

end Session

end ScriptBridge
