import ScriptBridge.Proofs.Arrivals
import ScriptBridge.Proofs.Operands

/-!
# ScriptBridge.Proofs.Operations

What each operation on a session does to what is held of it.  Operations that a value is handed to
only borrow it; those that a value comes from hand it over; and an operation that fails leaves
everything as it was held before.
-/

namespace ScriptBridge

namespace Session

variable {id : SessionId} {o : Bool} {s : Session} {e : Env} {H : Multiset Holding}

/-- Something that only looks at a session. -/
theorem keeps_look {α : Type} (f : Session → α) :
    Keeps (Books id o) 0 (do return f (← get) : Op α) fun _ => 0 :=
  Keeps.get_bind fun _ => KeepsAt.pure _ rfl

/-! ## Globals -/

theorem keeps_dropAbove (t : Script.ThreadId) (base : Nat) :
    Keeps (Books id o) 0 (dropAbove t base) fun _ => 0 :=
  (keeps_withMachine _).bind fun _ => Keeps.pure () rfl

theorem keeps_walk (t : Script.ThreadId) (base : Nat) (p : Path) (create : Bool) :
    Keeps (Books id o) 0 (walk t base p create).run (onResult (fun _ => 0) 0) := by
  refine Keeps.tryBind ((keeps_withMachine _).lift 0) fun r => ?_
  cases r with
  | ok _ => exact Keeps.tryPure _ rfl
  | error fault => exact Keeps.tryBind ((keeps_dropAbove t base).lift 0) fun _ => Keeps.throw _ rfl

theorem keeps_ofExcept {α : Type} (r : Except Failure α) :
    Keeps (Books id o) 0 (MonadExcept.ofExcept r : Attempt α).run
      (onResult (fun _ => 0) 0) := by
  cases r with
  | ok a => exact Keeps.tryPure _ rfl
  | error f => exact Keeps.throw _ rfl

/-- A global that is read is the holder's of its value. -/
theorem keeps_lookUp (path : String) :
    Keeps (Books id o) 0 (lookUp path).run (onResult Value.holdings 0) := by
  refine keeps_thread rfl fun _ t s => KeepsAt.tryGet ?_
  refine (?_ : Keeps _ _ _ _) s
  refine Keeps.tryBind (keeps_ofExcept _) fun p => ?_
  refine Keeps.tryBind (keeps_reserve t 4) fun _ => ?_
  refine Keeps.tryBind (keeps_walk t _ p false) fun _ => ?_
  refine Keeps.tryBind ((keeps_modifyMachine _).lift 0) fun _ => ?_
  refine Keeps.tryBind ((keeps_takeCell t).lift 0) fun c => ?_
  exact Keeps.tryBind (((keeps_dropAbove t _).aside _).lift 0) fun _ => keeps_unpack c

/-! ## Assignments -/

theorem keeps_beginAssignAt (t : Script.ThreadId) (p : Path) (create : Bool) :
    Keeps (Books id o) 0 (beginAssignAt t p create).run (onResult (fun _ => 0) 0) := by
  intro s
  refine KeepsAt.tryGet ((?_ : Keeps _ _ _ _) s)
  refine Keeps.tryBind (keeps_reserve t 5) fun _ => ?_
  exact Keeps.tryBind (keeps_walk t _ p create) fun _ => (keeps_modifyMachine _).lift 0

/-- A value that is to be assigned stays with its holder; it is made ready, or nothing is left of
the attempt. -/
theorem keeps_beginAssign (path : String) (v : Value) (create : Bool) :
    Keeps (Books id o) v.holdings (beginAssign path v create).run
      (onResult (fun r => v.holdings + sent id [r.2] [v]) v.holdings) := by
  refine keeps_thread rfl fun ho t => ?_
  subst ho
  refine Keeps.tryBind ((keeps_ofExcept _).tryAside v.holdings) fun p s => ?_
  refine keepsAt_of_books fun hid _ => ?_
  refine KeepsAt.tryBind (m := fun out => v.holdings + sent id [out] [v]) ?_ fun out hout => ?_
  · refine (keeps_pack v s).congr rfl fun r => ?_
    cases r with
    | ok out => simp [sent]
    | error f => rfl
  · have carries := pack_carries hout
    rw [hid] at carries
    refine Keeps.tryBind (m := fun _ => v.holdings + sent id [out] [v]) ?_
      (fun _ => Keeps.tryPure (t, out) rfl) _
    refine Keeps.tryCatch (m := v.holdings + sent id [out] [v])
      ((keeps_beginAssignAt t p create).tryAside _) fun failure => ?_
    have gone : Keeps (Books id true) (v.holdings + sent id [out] [v]) (abandon [out])
        fun _ => v.holdings :=
      ((keeps_abandon (.cons carries .nil)).frame v.holdings).congr (add_comm _ _)
        fun _ => zero_add _
    exact Keeps.tryBind (gone.lift _) fun _ => Keeps.throw _ rfl

theorem keeps_finishAssign (t : Script.ThreadId) :
    Keeps (Books id o) 0 (finishAssign t) fun _ => 0 := keeps_modifyMachine _

/-! ## References -/

/-- A cell for a value that is not copied owns an anchor. -/
theorem toCell_anchored {v : Script.Value} (hv : v.Solid) :
    ∃ c a, ((toCell v).run s).1 = some s.nextCell
      ∧ ((toCell v).run s).2.cell? s.nextCell = some c ∧ c.anchor? = some a := by
  rw [toCell_run hv]
  exact ⟨_, _, rfl, cell?_stored_self _, anchor?_cellOf v _⟩

/-- What lies on the host's frame after the value of a reference was put there: that value, or
nothing. -/
theorem place_solid {t : Script.ThreadId} {cell : CellId} {c : Cell} {a : Anchor}
    (hs : s.Sound e H) (hc : s.cell? cell = some c) (ha : c.anchor? = some a) :
    let top := (((place t (.lent cell)).run s).2.machine.operandsOf t).headD .nil
    top = .nil ∨ top.Solid := by
  intro top
  have value : s.valueOf (.lent cell) = .nil ∨ (s.valueOf (.lent cell)).Solid := by
    have same : s.valueOf (.lent cell) = (s.anchors.get? a).getD .nil := by
      rw [valueOf, show (Outbound.lent cell).cell?.bind s.cell? = some c from hc]
      cases c <;> simp_all [Cell.anchor?]
    rw [same]
    cases hv : s.anchors.get? a with
    | none => exact Or.inl rfl
    | some v => exact Or.inr (hs.solid a v hv)
  have shown : ((place t (.lent cell)).run s).2.machine
      = s.machine.pushOperand t (s.valueOf (.lent cell)) := rfl
  obtain on | off := s.machine.operandsOf_pushOperand t (s.valueOf (.lent cell))
  · simp only [top, shown, on, List.headD_cons]
    exact value
  · simp [top, shown, off]

theorem push_lent_run (t : Script.ThreadId) {cell : CellId} {c : Cell} {a : Anchor}
    (hc : s.cell? cell = some c) (ha : c.anchor? = some a) :
    (push t (.lent cell)).run.run s = (.ok none, ((place t (.lent cell)).run s).2) := by
  have none : (repin (.lent cell)).run.run s = (.ok none, s) := by
    rw [repin, try_get_bind, show (Outbound.lent cell).cell?.bind s.cell? = some c from hc]
    cases c with
    | pinned handle => cases ha
    | _ => rfl
  rw [push, ExceptT.run_bind, stateM_run_bind, none]
  rfl

/-- The value on top, if it is not copied, is held by a reference from now on. -/
theorem keepsAt_takeRef {t : Script.ThreadId} {failure : Failure}
    (h : (s.machine.operandsOf t).headD .nil = .nil
      ∨ ((s.machine.operandsOf t).headD .nil).Solid) :
    KeepsAt (Books id o) s 0
      (do
        match ← takeCell t with
        | some cell => return (← get).refTo cell
        | none => throw failure : Attempt Ref).run
      (onResult (fun copy => {.ref copy}) 0) := by
  refine KeepsAt.tryBind (m := inHolding id) (((keeps_takeCell t) s).lift 0) fun r hr => ?_
  obtain nil | solid := h
  · have missing : r = none := by
      have run : Except.ok r = .ok ((toCell ((s.machine.operandsOf t).headD .nil)).run
        { s with machine := s.machine.setOperands t ((s.machine.operandsOf t).drop 1) }).1 :=
        hr.symm
      rw [nil] at run
      exact Except.ok.inj run
    subst missing
    exact KeepsAt.throw _ rfl
  · obtain ⟨c, a, new, hc, ha⟩ := toCell_anchored solid (s :=
      { s with machine := s.machine.setOperands t ((s.machine.operandsOf t).drop 1) })
    have made : r = some s.nextCell := (Except.ok.inj (hr.symm : Except.ok r = .ok _)).trans new
    subst made
    refine KeepsAt.tryGet ?_
    rintro e H ⟨rfl, ho, hs⟩
    exact ⟨rfl, ho, hs.adopt hc ha⟩

/-- The reference under which a value was anchored stays; a second one is another holder. -/
theorem keeps_reanchor {r : Ref} (hr : r.session = id) :
    Keeps (Books id o) {.ref r} (reanchor r).run
      (onResult (fun copy => {.ref r} + {.ref copy}) {.ref r}) := by
  refine keeps_thread rfl fun _ t => ?_
  refine Keeps.tryBind ((keeps_reserve t 1).tryAside _) fun _ s => ?_
  refine keepsAt_of_books fun hid _ e H hs => ?_
  obtain ⟨⟨c, a, hc, ha⟩, -⟩ := hs.2.2.backs (.ref r) (by simp) (hr.trans hid.symm)
  have lies := place_solid (t := t) hs.2.2 hc ha
  have pushed : KeepsAt (Books id o) s {.ref r} (push t (.lent r.cell)).run
      (onResult (fun _ => {.ref r}) {.ref r}) := by
    intro e H hs
    rw [push_lent_run t hc ha]
    exact ((keeps_place t (.lent r.cell)).aside {.ref r}) s e H hs
  refine KeepsAt.tryBind pushed (fun _ _ => ?_) e H hs
  rw [push_lent_run t hc ha]
  refine ((keepsAt_takeRef lies).frame {.ref r}).congr (zero_add _).symm fun copy => ?_
  cases copy with
  | ok copy => exact add_comm _ _
  | error f => exact zero_add _

/-! ## Calls -/

theorem keeps_scriptFailure (v : Script.Value) :
    Keeps (Books id o) 0 (scriptFailure v) fun _ => 0 := by
  rintro s e H ⟨rfl, ho, hs⟩
  rw [zero_add] at hs
  refine ⟨rfl, ho, ?_⟩
  rw [zero_add]
  exact Sound.settle (s := { s with ledger := s.ledger.acquire 1 }) (hs.acquire 1)

theorem keeps_takeError (base : Nat) :
    Keeps (Books id o) 0 (takeError base) fun _ => 0 := by
  refine Keeps.get_bind fun s => KeepsAt.get_bind ?_
  exact ((keeps_withMachine _).bind fun _ => keeps_scriptFailure _) s

theorem keeps_beginExecute (source : String) :
    Keeps (Books id o) 0 (beginExecute source).run (onResult (fun _ => 0) 0) := by
  refine keeps_thread rfl fun _ t s => KeepsAt.tryGet (KeepsAt.tryGet ((?_ : Keeps _ _ _ _) s))
  refine Keeps.tryBind ((keeps_withMachine _).lift 0) fun loaded => ?_
  cases loaded with
  | true => exact (keeps_modifyMachine _).lift 0
  | false => exact Keeps.tryBind ((keeps_takeError _).lift 0) fun f => Keeps.throw f rfl

theorem keeps_dropResults (base : Nat) :
    Keeps (Books id o) 0 (dropResults base) fun _ => 0 :=
  Keeps.get_bind fun s => ((keeps_withMachine _).bind fun _ => Keeps.pure () rfl) s

theorem keeps_beginCall (f : CellId) (count : Nat) :
    Keeps (Books id o) 0 (beginCall f count).run (onResult (fun _ => 0) 0) := by
  refine keeps_thread rfl fun _ t => ?_
  split
  · exact Keeps.throw _ rfl
  refine Keeps.tryBind (keeps_reserve t _) fun _ s => KeepsAt.tryGet ?_
  refine (?_ : Keeps _ _ _ _) s
  exact Keeps.tryBind ((keeps_place t _).lift 0) fun _ => Keeps.tryPure _ rfl

theorem keeps_startCall (count : Nat) :
    Keeps (Books id o) 0 (startCall count) fun _ => 0 := keeps_modifyMachine _

/-- The results of a call come as cells, in an array that is an allocation of its own. -/
theorem keeps_collectResults (base : Nat) :
    Keeps (Books id o) 0 (collectResults base)
      fun cells => inHoldings id cells + {.due id 1} := by
  refine Keeps.get_bind fun s => KeepsAt.bind (keeps_collect _ base s) ?_
  have acquired : Keeps (Books id o) 0
      (modify fun s => { s with ledger := s.ledger.acquire 1 } : Op Unit)
      fun _ => {.due id 1} := by
    rintro s e H ⟨rfl, ho, hs⟩
    rw [zero_add] at hs
    exact ⟨rfl, ho, hs.acquire 1⟩
  refine (((acquired.frame _).congr (zero_add _).symm fun _ => add_comm _ _).bind
    fun _ => Keeps.pure _ rfl) _

theorem keeps_settle (weight : Nat) :
    Keeps (Books id o) {.due id weight} (settle weight) fun _ => 0 := by
  rintro s e H ⟨rfl, ho, hs⟩
  refine ⟨rfl, ho, ?_⟩
  rw [zero_add]
  exact hs.settle

/-- The results of a call become host values, and the array goes. -/
theorem keeps_takeResults (cells : List (Option CellId)) :
    Keeps (Books id o) (inHoldings id cells + {.due id 1}) (takeResults cells).run
      (onResult valueHoldings 0) := by
  have settled : Keeps (Books id o) (inHoldings id cells + {.due id 1}) (settle 1)
      fun _ => inHoldings id cells :=
    ((keeps_settle 1).frame (inHoldings id cells)).congr (add_comm _ _) fun _ => zero_add _
  exact Keeps.tryBind (settled.lift 0) fun _ => keeps_unpackAll cells

/-! ## Host code that the runtime calls -/

theorem keeps_enter :
    Keeps (Books id o) 0 enter fun previous => {.entered id previous} := by
  rintro s e H ⟨rfl, ho, hs⟩
  rw [zero_add] at hs
  have run : enter.run s
      = (s.active, if s.isOpen then { s with active := some s.machine.current } else s) := rfl
  rw [run]
  refine ⟨?_, ?_, hs.enter _⟩
  · split <;> rfl
  · split <;> exact ho

theorem keeps_leave (previous : Option Script.ThreadId) :
    Keeps (Books id o) {.entered id previous} (leave previous) fun _ => 0 := by
  rintro s e H ⟨rfl, ho, hs⟩
  have run : (leave previous).run s
      = ((), if s.isOpen then { s with active := previous } else s) := rfl
  rw [run]
  refine ⟨?_, ?_, ?_⟩
  · split <;> rfl
  · split <;> exact ho
  · rw [zero_add]
    exact hs.leave

theorem keeps_takeArguments : Keeps (Books id o) 0 takeArguments (inHoldings id) :=
  Keeps.get_bind fun s => keeps_collect _ 0 s

theorem keeps_beginResults (vs : List Value) :
    Keeps (Books id o) (valueHoldings vs) (beginResults vs).run
      (onResult (fun r => valueHoldings vs + sent id r.2 vs) (valueHoldings vs)) := by
  refine keeps_thread rfl fun ho t => ?_
  subst ho
  refine Keeps.tryBind ((keeps_reserve t vs.length).tryAside _) fun _ => ?_
  exact Keeps.tryBind (keeps_packAll vs) fun outs => Keeps.tryPure _ rfl

theorem keeps_returnResults : Keeps (Books id o) 0 returnResults fun _ => 0 :=
  keeps_modifyMachine _

theorem keeps_raiseFailure (f : Failure) : Keeps (Books id o) 0 (raiseFailure f) fun _ => 0 :=
  keeps_modifyMachine _

/-! ## Finalizers -/

theorem keeps_takeHandle (target : Script.Value) :
    Keeps (Books id o) 0 (takeHandle target)
      fun h => h.elim 0 fun handle => {.pin id handle none} := by
  rintro s e H ⟨rfl, ho, hs⟩
  rw [zero_add] at hs
  cases target with
  | userdata owner =>
    have run : (takeHandle (.userdata owner)).run s
        = (s.handles.lookup owner,
          { s with handles := s.handles.eraseP fun e => e.1 == owner }) := rfl
    rw [run]
    refine ⟨rfl, ho, ?_⟩
    cases h : s.handles.lookup owner with
    | some handle => exact hs.takeHandle h
    | none =>
      have same : (s.handles.eraseP fun e => e.1 == owner) = s.handles := by
        refine List.eraseP_of_forall_not fun e he => ?_
        have miss := List.lookup_eq_none_iff.mp h e he
        rw [beq_iff_eq]
        rintro rfl
        simp at miss
      rw [same]
      change Sound e (0 + H) s
      rwa [zero_add]
  | _ =>
    refine ⟨rfl, ho, ?_⟩
    change Sound e (0 + H) s
    rwa [zero_add]

theorem keeps_unpin (handle : Handle) :
    Keeps (Books id o) {.pin id handle none} (unpin handle) fun f => owners f.toList := by
  rintro s e H ⟨rfl, ho, hs⟩
  have released := hs.unpin
  rw [← owners_toList] at released
  exact ⟨rfl, ho, released⟩

theorem keeps_collectGarbage : Keeps (Books id o) 0 collectGarbage fun _ => 0 :=
  Keeps.get_bind fun s => keeps_modifyMachine _ s

theorem keeps_runMachine (steps : Nat) : Keeps (Books id o) 0 (runMachine steps) fun _ => 0 :=
  keeps_withMachine _

theorem keeps_strike (budget : Nat) : Keeps (Books id o) 0 (strike budget) fun _ => 0 :=
  Keeps.get_bind fun s => keeps_modifyMachine _ s

theorem keeps_resume : Keeps (Books id o) 0 resume fun _ => 0 := keeps_modifyMachine _

theorem keeps_beginClose : Keeps (Books id o) 0 beginClose fun _ => 0 := keeps_modifyMachine _

/-- A cell that is withdrawn leaves its weight, and the callable that it pinned. -/
theorem keeps_withdraw (cell : CellId) :
    Keeps (Books id o) {.cell id cell} (withdraw cell)
      fun r => owners r.2.toList + {.due id r.1} := by
  rintro s e H ⟨rfl, ho, hs⟩
  have mem : cell ∈ (Holding.cell s.id cell).cells s.id := by simp [Holding.cells]
  obtain ⟨c, hc⟩ := hs.cell_exists (by simp) mem
  have gone := hs.withdraw hc
  rw [leftover, ← owners_toList, add_comm (Singleton.singleton _)] at gone
  rw [withdraw_run hc]
  exact ⟨rfl, ho, gone⟩

/-! ## What transfers carry -/

/-- Values that are made ready for a call each have their own transfer. -/
theorem pack_call_carries {vs : List Value} {outs : List Outbound}
    (h : ((do let _ ← thread; packAll vs : Attempt (List Outbound)).run.run s).1 = .ok outs) :
    List.Forall₂ (Carries s.id) outs vs := by
  obtain ⟨t, -, rest⟩ := ok_of_bind h
  rw [thread_run] at rest
  exact packAll_carries rest

theorem beginResults_carries {vs : List Value} {t : Script.ThreadId} {outs : List Outbound}
    (h : ((beginResults vs).run.run s).1 = .ok (t, outs)) :
    List.Forall₂ (Carries s.id) outs vs := by
  obtain ⟨u, -, rest⟩ := ok_of_bind h
  rw [thread_run] at rest
  obtain ⟨-, -, rest⟩ := ok_of_bind rest
  rw [reserve_run] at rest
  obtain ⟨outs', made, rest⟩ := ok_of_bind rest
  cases rest
  exact packAll_carries (s := { s with machine := (s.machine.reserve t vs.length).2 }) made

theorem beginAssign_carries {path : String} {v : Value} {create : Bool} {t : Script.ThreadId}
    {out : Outbound} (h : ((beginAssign path v create).run.run s).1 = .ok (t, out)) :
    Carries s.id out v := by
  obtain ⟨u, -, rest⟩ := ok_of_bind h
  rw [thread_run] at rest
  obtain ⟨p, -, rest⟩ := ok_of_bind rest
  have same : ((MonadExcept.ofExcept (Path.parse path) : Attempt Path).run.run s).2 = s := by
    cases Path.parse path <;> rfl
  rw [same] at rest
  obtain ⟨out', packed, rest⟩ := ok_of_bind rest
  obtain ⟨-, -, rest⟩ := ok_of_bind rest
  cases rest
  exact pack_carries packed

end Session

end ScriptBridge
