import ScriptBridge.Proofs.Transfers

/-!
# ScriptBridge.Proofs.Arrivals

Transfers from the runtime, as they change what is held of a session.

Main facts:

* `keeps_toCell` — a value of the runtime gets a cell, and an anchor if it is not copied;
* `keeps_unpack` — a cell that is made into a host value belongs to that value, or is gone;
* `keeps_unpackAll` — a batch that fails half-way leaves no cell behind.
-/

namespace ScriptBridge

namespace Session

variable {id : SessionId} {o : Bool} {s : Session} {e : Env} {H : Multiset Holding}

/-- What an optional cell from the runtime is held as. -/
def inHolding (id : SessionId) (cell : Option CellId) : Multiset Holding :=
  cell.elim 0 fun cell => {.inbound id cell}

/-! ## From the runtime -/

/-- A new cell for a value from the runtime. -/
theorem keepsAt_receive {c : Cell} {K : Multiset Holding} (takes : TakesOver id c K)
    (unpinned : c.handle? = none) :
    KeepsAt (Books id o) s K (store c) fun cell => {.inbound id cell} := by
  rintro e H ⟨rfl, ho, hs⟩
  refine ⟨rfl, ho, hs.store takes (fun _ => ?_) (Or.inl rfl)⟩
  exact ⟨c, cell?_stored_self c, unpinned⟩

theorem keepsAt_anchor {v : Script.Value} (hv : v.Solid) :
    KeepsAt (Books id o) s 0 (anchor v) fun a => {.slot id a v} := by
  rintro e H ⟨rfl, ho, hs⟩
  rw [zero_add] at hs
  exact ⟨rfl, ho, hs.anchor hv⟩

/-- A value of the runtime gets a cell of its own, and with it an anchor if it is not copied. -/
theorem keeps_toCell (v : Script.Value) :
    Keeps (Books id o) 0 (toCell v) fun c => inHolding id c := by
  intro s
  have copied : ∀ c : Cell, TakesOver id c 0 → c.handle? = none →
      KeepsAt (Books id o) s 0 (do return some (← store c) : Op (Option CellId))
        fun c => inHolding id c := fun c takes unpinned =>
    (keepsAt_receive takes unpinned).bind (KeepsAt.pure _ rfl)
  have held : ∀ make : Anchor → Cell, v.Solid → (∀ a, TakesOver id (make a) {.slot id a v}) →
      (∀ a, (make a).handle? = none) →
      KeepsAt (Books id o) s 0 (do return some (← store (make (← anchor v))) : Op (Option CellId))
        fun c => inHolding id c := fun make solid takes unpinned =>
    (keepsAt_anchor solid).bind ((keepsAt_receive (takes _) (unpinned _)).bind (KeepsAt.pure _ rfl))
  cases v with
  | nil => exact KeepsAt.pure _ rfl
  | int i => exact copied _ rfl rfl
  | float x => exact copied _ rfl rfl
  | bool b => exact copied _ rfl rfl
  | str t => exact copied _ rfl rfl
  | table i => exact held (.object · .table) trivial (fun a => ⟨_, rfl, rfl⟩) fun _ => rfl
  | userdata i => exact held (.object · .userdata) trivial (fun a => ⟨_, rfl, rfl⟩) fun _ => rfl
  | thread i => exact held (.object · .thread) trivial (fun a => ⟨_, rfl, rfl⟩) fun _ => rfl
  | light i =>
    exact held (.object · .lightUserdata) trivial (fun a => ⟨_, rfl, rfl⟩) fun _ => rfl
  | closure i | builtin i | inert i | native i =>
    exact held (.function · _) trivial (fun a => ⟨_, rfl, rfl⟩) fun _ => rfl

/-- The cell of a value that is not copied, when the value is anchored. -/
def cellOf (s : Session) (v : Script.Value) (a : Anchor) : Cell :=
  match anchorKind? v with
  | some kind => .object a kind
  | none => .function a (s.machine.isHostClosure v)

/-- A value that is not copied goes into the next slot, for the next cell. -/
theorem toCell_run {v : Script.Value} (hv : v.Solid) :
    (toCell v).run s = (some s.nextCell,
      stored { s with anchors := (s.anchors.take v).2 } (s.cellOf v s.anchors.next)) := by
  cases v with
  | nil | int _ | float _ | bool _ | str _ => exact hv.elim
  | _ => rfl

theorem anchor?_cellOf (v : Script.Value) (a : Anchor) : (s.cellOf v a).anchor? = some a := by
  rw [cellOf]
  split <;> rfl

theorem fits_cellOf {v : Script.Value} (hv : v.Solid) (a : Anchor) : (s.cellOf v a).Fits v := by
  cases v with
  | nil | int _ | float _ | bool _ | str _ => exact hv.elim
  | _ => rfl

theorem keeps_toCells (vs : List Script.Value) :
    Keeps (Books id o) 0 (vs.mapM toCell) (inHoldings id) := by
  induction vs with
  | nil => exact Keeps.pure _ rfl
  | cons v vs ih =>
    rw [List.mapM_cons]
    refine (keeps_toCell v).bind fun c => ?_
    refine ((ih.frame (inHolding id c)).congr (zero_add _).symm fun _ => rfl).bind fun cs => ?_
    refine Keeps.pure _ ?_
    cases c with
    | none => simp [inHolding]
    | some cell => simp [inHolding, add_comm]

theorem keeps_collect (t : Script.ThreadId) (base : Nat) :
    Keeps (Books id o) 0 (collect t base) (inHoldings id) :=
  (keeps_withMachine _).bind fun vs => keeps_toCells vs

theorem keeps_takeCell (t : Script.ThreadId) :
    Keeps (Books id o) 0 (takeCell t) (inHolding id) :=
  (keeps_withMachine _).bind fun v => keeps_toCell v

/-! ## Cells become host values, or go -/

/-- Releasing a cell without a pin leaves nothing to be held. -/
theorem keepsAt_free {h : Holding} {cell : CellId} (holds : h.plain = .cell id cell)
    (unpinned : s.Backs h → ∃ c, s.cell? cell = some c ∧ c.handle? = none) :
    KeepsAt (Books id o) s {h} (free cell) fun _ => 0 := by
  rintro e H ⟨rfl, ho, hs⟩
  obtain ⟨c, hc, hh⟩ := unpinned (hs.backs h (by simp))
  have bare := hs.plain
  rw [holds] at bare
  have freed := bare.free hc
  rw [hh] at freed
  rw [free_run hc]
  exact ⟨rfl, ho, freed⟩

theorem keepsAt_free_inbound {cell : CellId} (hid : s.id = id) :
    KeepsAt (Books id o) s {.inbound id cell} (free cell) fun _ => 0 :=
  keepsAt_free rfl fun back => back hid.symm

theorem keepsAt_free_ref {r : Ref} (hid : s.id = id) (hr : r.session = id) :
    KeepsAt (Books id o) s {.ref r} (free r.cell) fun _ => 0 := by
  refine keepsAt_free (by simp [Holding.plain, hr]) fun back => ?_
  obtain ⟨⟨c, a, hc, ha⟩, -⟩ := back (hr.trans hid.symm)
  refine ⟨c, hc, ?_⟩
  cases c <;> simp_all [Cell.anchor?, Cell.handle?]

theorem session_refTo (s : Session) (cell : CellId) : (s.refTo cell).session = s.id := by
  rw [refTo]
  split <;> rfl

theorem cell_refTo (s : Session) (cell : CellId) : (s.refTo cell).cell = cell := by
  rw [refTo]
  split <;> rfl

/-- An inbound reference cell belongs to the reference that is made of it. -/
theorem Sound.adopt {cell : CellId} {c : Cell} {a : Anchor}
    (hs : s.Sound e ({.inbound s.id cell} + H)) (hc : s.cell? cell = some c)
    (ha : c.anchor? = some a) : s.Sound e ({.ref (s.refTo cell)} + H) := by
  have session : (s.refTo cell).session = s.id := session_refTo s cell
  have number : (s.refTo cell).cell = cell := cell_refTo s cell
  refine hs.exchange ?_ rfl rfl rfl rfl rfl ?_ ?_
  · simp [Holding.cells, session, number]
  · intro k hk
    rw [Multiset.mem_singleton.mp hk]
    intro _
    rw [number]
    exact ⟨⟨c, a, hc, ha⟩, rfl⟩
  · intro k hk
    rw [Multiset.mem_singleton.mp hk, Holding.session, session]
    exact hs.known

/-- A cell is made into a host value, to which it then belongs, or it is gone. -/
theorem keeps_unpack (c : Option CellId) :
    Keeps (Books id o) (inHolding id c) (unpack c).run (onResult Value.holdings 0) := by
  intro s
  cases c with
  | none => exact KeepsAt.tryPure _ rfl
  | some cell =>
    refine keepsAt_of_books fun hid ho e H hs => ?_
    obtain ⟨c, hc, hh⟩ := hs.2.2.backs (.inbound id cell) (by simp [inHolding]) hid.symm
    have gone : KeepsAt (Books id o) s {.inbound id cell}
        (ExceptT.lift (free cell) : Attempt Unit).run (onResult (fun _ => 0) 0) :=
      (keepsAt_free_inbound hid).lift 0
    refine KeepsAt.tryGet (s := s) ?_ e H hs
    rw [hc]
    cases c with
    | number x => exact gone.tryBind fun _ _ => KeepsAt.tryPure _ rfl
    | boolean b => exact gone.tryBind fun _ _ => KeepsAt.tryPure _ rfl
    | string bytes =>
      refine gone.tryBind fun _ _ => ?_
      cases Utf8.decode bytes with
      | ok text => exact KeepsAt.tryPure _ rfl
      | error fault => exact KeepsAt.throw _ rfl
    | pinned handle => cases hh
    | function anchor native =>
      rintro e H ⟨rfl, ho, hs⟩
      cases native <;> exact ⟨rfl, ho, hs.adopt hc rfl⟩
    | object anchor kind =>
      rintro e H ⟨rfl, ho, hs⟩
      exact ⟨rfl, ho, hs.adopt hc rfl⟩

/-- Whether a value is one that comes from a session: no host callable, and no reference of
another session. -/
def FromSession (id : SessionId) : Value → Prop
  | .reference r | .function r => r.session = id
  | .callable _ => False
  | _ => True

theorem id_free (cell : CellId) : ((free cell).run s).2.id = s.id := by
  cases hc : s.cell? cell with
  | some c => rw [free_run hc]; rfl
  | none =>
    have run : ((free cell).run s).2.id = ((withdraw cell).run s).2.id := rfl
    rw [run, withdraw_run_of_none hc]

/-- A value made of a cell is one that comes from the session. -/
theorem unpack_fromSession {c : Option CellId} {v : Value}
    (h : ((unpack c).run.run s).1 = .ok v) :
    FromSession s.id v ∧ ((unpack c).run.run s).2.id = s.id := by
  cases c with
  | none =>
    obtain rfl := Except.ok.inj h
    exact ⟨trivial, rfl⟩
  | some cell =>
    rw [unpack, try_get_bind] at h ⊢
    cases hc : s.cell? cell with
    | none =>
      rw [hc] at h
      obtain rfl := Except.ok.inj h
      exact ⟨trivial, rfl⟩
    | some c =>
      rw [hc] at h
      cases c with
      | number x =>
        obtain rfl := Except.ok.inj h
        exact ⟨trivial, id_free cell⟩
      | boolean b =>
        obtain rfl := Except.ok.inj h
        exact ⟨trivial, id_free cell⟩
      | string bytes =>
        rw [try_lift_bind] at h ⊢
        cases hd : Utf8.decode bytes with
        | ok text =>
          rw [hd] at h
          obtain rfl := Except.ok.inj h
          exact ⟨trivial, id_free cell⟩
        | error fault =>
          rw [hd] at h
          cases h
      | function anchor native =>
        cases native <;> obtain rfl := Except.ok.inj h <;>
          exact ⟨session_refTo s cell, rfl⟩
      | _ =>
        obtain rfl := Except.ok.inj h
        exact ⟨session_refTo s cell, rfl⟩

/-- References that were just made go with their cells. -/
theorem keeps_forget {vs : List Value} (h : ∀ v ∈ vs, FromSession id v) :
    Keeps (Books id o) (valueHoldings vs) (forget vs) fun _ => 0 := by
  induction vs with
  | nil => exact Keeps.pure _ rfl
  | cons v vs ih =>
    have rest := ih fun u hu => h u (List.mem_cons_of_mem v hu)
    have owned : ∀ r : Ref, r.session = id →
        Keeps (Books id o) ({.ref r} + valueHoldings vs)
          (do free r.cell; forget vs : Op Unit) fun _ => 0 := by
      intro r hr s
      refine keepsAt_of_books fun hid _ => ?_
      refine ((keepsAt_free_ref hid hr).frame (valueHoldings vs)).bind ?_
      rw [zero_add]
      exact rest _
    rw [valueHoldings_cons]
    have mine := h v List.mem_cons_self
    cases v with
    | reference r | function r => exact owned r mine
    | callable f => exact mine.elim
    | _ => exact rest.congr (zero_add _) fun _ => rfl

theorem keeps_freeAll (cells : List (Option CellId)) :
    Keeps (Books id o) (inHoldings id cells) (freeAll cells) fun _ => 0 := by
  induction cells with
  | nil => exact Keeps.pure _ rfl
  | cons c cells ih =>
    cases c with
    | none =>
      rw [inHoldings_none]
      exact ih
    | some cell =>
      rw [inHoldings_some]
      intro s
      refine keepsAt_of_books fun hid _ => ?_
      refine ((keepsAt_free_inbound hid).frame (inHoldings id cells)).bind ?_
      rw [zero_add]
      exact ih _

theorem inHoldings_cons (c : Option CellId) (cells : List (Option CellId)) :
    inHoldings id (c :: cells) = inHolding id c + inHoldings id cells := by
  cases c with
  | none => simp [inHolding]
  | some cell => simp [inHolding]

/-- The rest of a batch of cells is made into host values, or all of it is gone. -/
theorem keeps_unpackFrom {done : List Value} (h : ∀ v ∈ done, FromSession id v) (index : Nat)
    (cells : List (Option CellId)) :
    Keeps (Books id o) (valueHoldings done + inHoldings id cells) (unpackFrom index done cells).run
      (onResult valueHoldings 0) := by
  induction cells generalizing index done with
  | nil => exact Keeps.tryPure _ (by rw [valueHoldings_reverse, inHoldings_nil, add_zero])
  | cons c cells ih =>
    intro s
    refine keepsAt_of_books fun hid _ => ?_
    rw [unpackFrom]
    refine KeepsAt.tryBind (m := fun v => valueHoldings (v :: done) + inHoldings id cells) ?_ ?_
    · refine KeepsAt.tryCatch (m := valueHoldings done.reverse + inHoldings id cells)
        ?_ fun failure => ?_
      · refine ((keeps_unpack c s).frame (valueHoldings done + inHoldings id cells)).congr ?_
          fun r => ?_
        · rw [inHoldings_cons]
          ac_rfl
        · cases r with
          | ok v =>
            simp only [onResult_ok, valueHoldings_cons]
            ac_rfl
          | error f => rw [onResult_error, onResult_error, valueHoldings_reverse, zero_add]
      · have back : ∀ v ∈ done.reverse, FromSession id v :=
          fun v hv => h v (List.mem_reverse.mp hv)
        have forgotten := (keeps_forget (o := o) back).frame (inHoldings id cells)
        have freed : Keeps (Books id o) (inHoldings id cells) (freeAll cells) fun _ => 0 :=
          keeps_freeAll cells
        refine Keeps.tryBind (forgotten.lift 0) (fun _ => ?_) _
        rw [zero_add]
        exact Keeps.tryBind (freed.lift 0) fun _ => Keeps.throw _ rfl
    · intro v hv
      have made := (unpack_fromSession (run_of_tryCatch (fun f s => ⟨_, rfl⟩) hv).1).1
      rw [hid] at made
      refine ih (fun u hu => ?_) (index + 1) _
      obtain rfl | hu := List.mem_cons.mp hu
      · exact made
      · exact h u hu

/-- All cells are made into host values, to which they then belong, or all are gone. -/
theorem keeps_unpackAll (cells : List (Option CellId)) :
    Keeps (Books id o) (inHoldings id cells) (unpackAll cells).run (onResult valueHoldings 0) :=
  (@keeps_unpackFrom id o [] (by simp) 0 cells).congr (by simp) fun _ => rfl

end Session

end ScriptBridge
