import ScriptBridge.Proofs.Leads
import ScriptBridge.Proofs.Operations
import ScriptBridge.Session.Calls
import ScriptBridge.Session.Globals

/-!
# ScriptBridge.Proofs.Custody

Which callables a session has in custody.  `Session.Keeper P id isOpen` says that all callables that a
session pins are of a kind.  Nothing that is done to a session pins a callable that it was not handed;
and all values that it hands over are data, or references to its own cells.

Main facts:

* `Session.keeper_packAll` — callables are pinned that a session is handed;
* `Session.keeper_repin`, `Session.keeper_withdraw`, `Session.keeper_unpin` — callables that a session
  hands over are of the kind;
* `Session.keeper_unpackAll`, `Session.keeper_lookUp`, `Session.keeper_reanchor` — values that it hands
  over are its own.
-/

namespace ScriptBridge

/-- Whether a value is one that a session makes: a datum, or a reference to one of its own cells. -/
def Value.MadeBy (id : SessionId) : Value → Prop
  | .reference r | .function r => r.session = id
  | .callable _ => False
  | _ => True

/-- Whether a value is of a kind if it is a callable. -/
def Value.PinnedAs (P : CallableId → Prop) : Value → Prop
  | .callable f => P f
  | _ => True

namespace Session

variable {P : CallableId → Prop} {id : SessionId} {o : Bool} {s s' : Session}

/-- Whether a session has a number, is open or is not, and pins only callables of a kind. -/
structure Keeper (P : CallableId → Prop) (id : SessionId) (o : Bool) (s : Session) : Prop where
  id : s.id = id
  isOpen : s.isOpen = o
  pins : ∀ (k : Nat) (f : CallableId), s.pins.live[k]? = some f → P f

theorem Keeper.same (h : s.Keeper P id o) (id_eq : s'.id = s.id) (open_eq : s'.isOpen = s.isOpen)
    (pins : s'.pins = s.pins) : s'.Keeper P id o :=
  ⟨id_eq.trans h.id, open_eq.trans h.isOpen, pins ▸ h.pins⟩

theorem Keeper.pinned (h : s.Keeper P id o) {f : CallableId} (hf : P f) :
    Keeper P id o { s with pins := (s.pins.pin f).2 } := by
  refine ⟨h.id, h.isOpen, fun k g hg => ?_⟩
  change (s.pins.live.insert s.pins.next.number f)[k]? = some g at hg
  by_cases here : k = s.pins.next.number
  · rw [here, Std.TreeMap.getElem?_insert_self] at hg
    exact Option.some.inj hg ▸ hf
  · rw [getElem?_insert_of_ne here] at hg
    exact h.pins k g hg

theorem Keeper.released (h : s.Keeper P id o) (k : Handle) :
    Keeper P id o { s with pins := (s.pins.release k).2 } := by
  refine ⟨h.id, h.isOpen, fun j g hg => ?_⟩
  change (s.pins.live.erase k.number)[j]? = some g at hg
  by_cases here : j = k.number
  · rw [here, getElem?_erase_self] at hg
    cases hg
  · rw [getElem?_erase_of_ne here] at hg
    exact h.pins j g hg

/-! ## Work on the runtime, on cells and on anchors -/

theorem keeper_withMachine {α : Type} (f : Script.Machine → α × Script.Machine) :
    Preserves (Keeper P id o) (withMachine f) := .modifyGet fun _ h => h.same rfl rfl rfl

theorem keeper_modifyMachine (f : Script.Machine → Script.Machine) :
    Preserves (Keeper P id o) (modifyMachine f) := keeper_withMachine _

theorem keeper_store (c : Cell) : Preserves (Keeper P id o) (store c) :=
  .modifyGet fun _ h => h.same rfl rfl rfl

theorem keeper_anchor (v : Script.Value) : Preserves (Keeper P id o) (anchor v) :=
  .modifyGet fun _ h => h.same rfl rfl rfl

theorem keeper_settle (weight : Nat) : Preserves (Keeper P id o) (settle weight) :=
  .modify fun _ h => h.same rfl rfl rfl

/-- A callable that is pinned by a cell is handed over with the cell. -/
theorem keeper_withdraw (cell : CellId) : Leads (Keeper P id o) (withdraw cell)
    fun r s => (∀ f, r.2 = some f → P f) ∧ s.Keeper P id o := by
  refine .modifyGet fun s h => ?_
  cases hc : s.cell? cell with
  | none => exact ⟨fun _ none => (by cases none), h⟩
  | some c =>
    dsimp only
    split
    · exact ⟨fun f pinned => h.pins _ f pinned, (h.released _).same rfl rfl rfl⟩
    · refine ⟨fun _ none => (by cases none), ?_⟩
      dsimp only
      split <;> exact h.same rfl rfl rfl
    · exact ⟨fun _ none => (by cases none), h.same rfl rfl rfl⟩

theorem keeper_free (cell : CellId) : Preserves (Keeper P id o) (free cell) :=
  .bind (fun s h => (keeper_withdraw cell s h).2) fun _ => keeper_settle _

theorem keeper_thread : Preserves (Keeper P id o) thread.run :=
  .tryGet fun s h => by cases s.active <;> exact h

theorem keeper_reserve (t : Script.ThreadId) (count : Nat) :
    Preserves (Keeper P id o) (reserve t count).run := by
  refine .tryBind (.lift (keeper_withMachine _)) fun room => ?_
  cases room
  · exact .throw _
  · exact .tryPure _

theorem keeper_dropAbove (t : Script.ThreadId) (base : Nat) :
    Preserves (Keeper P id o) (dropAbove t base) := (keeper_withMachine _).bind fun _ => .pure _

theorem keeper_place (t : Script.ThreadId) (out : Outbound) : Preserves (Keeper P id o) (place t out) :=
  .get_bind fun _ h => keeper_modifyMachine _ _ h

theorem keeper_build (t : Script.ThreadId) (pin : Handle) : Preserves (Keeper P id o) (build t pin) :=
  .bind (keeper_withMachine _) fun _ => .modify fun _ h => h.same rfl rfl rfl

theorem keeper_scriptFailure (v : Script.Value) : Preserves (Keeper P id o) (scriptFailure v) :=
  .bind (.modify fun _ h => h.same rfl rfl rfl) fun _ => .pure _

theorem keeper_takeError (base : Nat) : Preserves (Keeper P id o) (takeError base) :=
  .get_bind fun _ h => Preserves.bind (keeper_withMachine fun m => m.takeOperands _ base)
    (fun _ => keeper_scriptFailure _) _ h

theorem keeper_dropResults (base : Nat) : Preserves (Keeper P id o) (dropResults base) :=
  .get_bind fun _ h => Preserves.bind (keeper_withMachine fun m => m.takeOperands _ base)
    (fun _ => .pure _) _ h

theorem keeper_beginExecute (source : String) :
    Preserves (Keeper P id o) (beginExecute source).run := by
  refine .tryBind keeper_thread fun t => .tryGet fun s h => Preserves.tryGet (fun u h => ?_) s h
  refine Preserves.tryBind (.lift (keeper_withMachine _)) (fun loaded => ?_) u h
  cases loaded with
  | true => exact .lift (keeper_modifyMachine _)
  | false => exact .tryBind (.lift (keeper_takeError s.height)) fun _ => .throw _

theorem keeper_beginCall (f : CellId) (count : Nat) :
    Preserves (Keeper P id o) (beginCall f count).run := by
  refine .tryBind keeper_thread fun t => ?_
  split
  · exact .throw _
  · exact .tryBind (keeper_reserve t _) fun _ =>
      .tryGet fun s h => Preserves.tryBind (.lift (keeper_place t _)) (fun _ => .tryPure _) s h

theorem keeper_enter : Preserves (Keeper P id o) enter :=
  .modifyGet fun s h => by dsimp only; split <;> exact h.same rfl rfl rfl

theorem keeper_leave (previous : Option Script.ThreadId) : Preserves (Keeper P id o) (leave previous) :=
  .modify fun s h => by split <;> exact h.same rfl rfl rfl

theorem keeper_takeHandle (target : Script.Value) : Preserves (Keeper P id o) (takeHandle target) :=
  .modifyGet fun s h => by cases target <;> exact h.same rfl rfl rfl

theorem keeper_collectGarbage : Preserves (Keeper P id o) collectGarbage :=
  .get_bind fun _ h => keeper_modifyMachine _ _ h

theorem keeper_strike (budget : Nat) : Preserves (Keeper P id o) (strike budget) :=
  .get_bind fun _ h => keeper_modifyMachine _ _ h

theorem keeper_walk (t : Script.ThreadId) (base : Nat) (p : Path) (create : Bool) :
    Preserves (Keeper P id o) (walk t base p create).run := by
  refine .tryBind (.lift (keeper_withMachine _)) fun walked => ?_
  cases walked with
  | ok => exact .tryPure _
  | error fault => exact .tryBind (.lift (keeper_dropAbove t base)) fun _ => .throw _

/-! ## From the host to the runtime -/

/-- A callable is pinned that the session is handed. -/
theorem keeper_pack {v : Value} (hv : v.PinnedAs P) : Preserves (Keeper P id o) (pack v).run := by
  have borrowed : ∀ r : Ref, Preserves (Keeper P id o) (borrow r).run := fun r =>
    .tryGet fun s h => by split <;> exact h
  have stored : ∀ c : Cell, Preserves (Keeper P id o)
      (do return .owned (← store c) : Attempt Outbound).run :=
    fun c => .tryBind (keeper_store c).lift fun _ => .tryPure _
  cases v with
  | nil => exact .tryPure _
  | number x => exact stored _
  | boolean b => exact stored _
  | string text => exact stored _
  | reference ref => exact borrowed ref
  | function ref => exact borrowed ref
  | callable f => exact .tryBind (.lift (.modifyGet fun s h => h.pinned hv)) fun handle => stored _

theorem keeper_abandon (outs : List Outbound) : Preserves (Keeper P id o) (abandon outs) := by
  induction outs with
  | nil => exact .pure _
  | cons out outs ih =>
    cases out with
    | owned cell => exact (keeper_free cell).bind fun _ => ih
    | _ => exact ih

/-- Callables are pinned that the session is handed. -/
theorem keeper_packAll {vs : List Value} (hvs : ∀ v ∈ vs, v.PinnedAs P) :
    Preserves (Keeper P id o) (packAll vs).run := by
  have all : ∀ (index : Nat) (done : List Outbound),
      Preserves (Keeper P id o) (packFrom index done vs).run := by
    induction vs with
    | nil => exact fun _ _ => .tryPure _
    | cons v vs ih =>
      intro index done
      refine .tryBind (.tryCatch (keeper_pack (hvs v List.mem_cons_self)) fun f => ?_) fun out =>
        ih (fun u hu => hvs u (List.mem_cons_of_mem v hu)) _ _
      exact .tryBind (keeper_abandon _).lift fun _ => .throw _
  exact all 0 []

theorem keeper_beginResults {vs : List Value} (hvs : ∀ v ∈ vs, v.PinnedAs P) :
    Preserves (Keeper P id o) (beginResults vs).run :=
  .tryBind keeper_thread fun _ => .tryBind (keeper_reserve _ _) fun _ =>
    .tryBind (keeper_packAll hvs) fun _ => .tryPure _

theorem keeper_beginAssign (path : String) {v : Value} (hv : v.PinnedAs P) (create : Bool) :
    Preserves (Keeper P id o) (beginAssign path v create).run := by
  have parsed : Preserves (Keeper P id o)
      (MonadExcept.ofExcept (Path.parse path) : Attempt Path).run := by
    cases Path.parse path
    · exact .throw _
    · exact .tryPure _
  refine .tryBind keeper_thread fun t => .tryBind parsed fun p =>
    .tryBind (keeper_pack hv) fun out => .tryBind (.tryCatch ?_ fun f => ?_) fun _ => .tryPure _
  · refine .tryGet fun s h => Preserves.tryBind (keeper_reserve t 5) (fun _ => ?_) s h
    exact .tryBind (keeper_walk t _ p create) fun _ => .lift (keeper_modifyMachine _)
  · exact .tryBind (.lift (keeper_abandon [out])) fun _ => .throw _

/-- A callable that is pinned once more is of the kind. -/
theorem keeper_repin (out : Outbound) : Leads (Keeper P id o) (repin out).run
    (Outcome (fun _ => Keeper P id o) fun r s => (∀ p, r = some p → P p.2) ∧ s.Keeper P id o) := by
  refine .tryGet fun s h => ?_
  split
  · rename_i handle _
    split
    · rename_i f pin pins hf again
      obtain ⟨g, hg, eq⟩ := Option.map_eq_some_iff.mp again
      refine ⟨fun p hp => ?_, ?_⟩
      · cases hp
        exact h.pins _ f hf
      · have pinned := h.pinned (h.pins _ g hg)
        rw [eq] at pinned
        exact pinned
    · exact h
  · exact ⟨fun _ none => (by cases none), h⟩

/-! ## From the runtime to the host -/

theorem keeper_toCell (v : Script.Value) : Preserves (Keeper P id o) (toCell v) := by
  have stored : ∀ c : Cell, Preserves (Keeper P id o)
      (do return some (← store c) : Op (Option CellId)) :=
    fun c => (keeper_store c).bind fun _ => .pure _
  have anchored : ∀ (v : Script.Value) (c : Anchor → Cell),
      Preserves (Keeper P id o) (do return some (← store (c (← anchor v))) : Op (Option CellId)) :=
    fun v c => (keeper_anchor v).bind fun _ => stored _
  unfold toCell
  split
  · exact .pure _
  · exact stored _
  · exact stored _
  · exact stored _
  · exact stored _
  · split
    · exact anchored _ _
    · exact .get_bind fun s h => anchored _ _ s h

theorem keeper_collect (t : Script.ThreadId) (base : Nat) :
    Preserves (Keeper P id o) (collect t base) := by
  refine (keeper_withMachine _).bind fun vs => ?_
  induction vs with
  | nil => exact .pure _
  | cons v vs ih =>
    rw [List.mapM_cons]
    exact (keeper_toCell v).bind fun _ => ih.bind fun _ => .pure _

theorem keeper_takeArguments : Preserves (Keeper P id o) takeArguments :=
  .get_bind fun s h => keeper_collect s.machine.current 0 s h

theorem keeper_collectResults (base : Nat) : Preserves (Keeper P id o) (collectResults base) :=
  .get_bind fun s h => Preserves.bind (keeper_collect _ base) (fun cells => (Preserves.modify
    (f := fun s => { s with ledger := s.ledger.acquire 1 }) fun _ h => h.same rfl rfl rfl).bind
      fun _ => .pure cells) s h

/-- A value that is read is the session's own. -/
theorem keeper_unpack (c : Option CellId) : Leads (Keeper P id o) (unpack c).run
    (Outcome (fun _ => Keeper P id o) fun v s => v.MadeBy id ∧ s.Keeper P id o) := by
  cases c with
  | none => exact .tryPure _ fun _ h => ⟨trivial, h⟩
  | some cell =>
    have freed : ∀ {y : Attempt Value}, Leads (Keeper P id o) y.run
        (Outcome (fun _ => Keeper P id o) fun v s => v.MadeBy id ∧ s.Keeper P id o) →
        Leads (Keeper P id o) (ExceptT.lift (free cell) >>= fun _ => y : Attempt Value).run
          (Outcome (fun _ => Keeper P id o) fun v s => v.MadeBy id ∧ s.Keeper P id o) :=
      fun hy => .tryBind (.lift (.of_preserves (keeper_free cell))) fun _ => hy
    refine .tryGet fun s h => ?_
    have own : (s.refTo cell).session = id := by
      rw [← h.id, refTo]
      split <;> rfl
    split
    · exact ⟨trivial, h⟩
    · rename_i x _
      exact freed (.tryPure (Value.number x) fun _ h => ⟨trivial, h⟩) s h
    · rename_i b _
      exact freed (.tryPure (Value.boolean b) fun _ h => ⟨trivial, h⟩) s h
    · refine freed ?_ s h
      split
      · exact .tryPure _ fun _ h => ⟨trivial, h⟩
      · exact .throw _ fun _ h => h
    · exact ⟨own, h⟩
    · exact ⟨own, h⟩

theorem keeper_forget (vs : List Value) : Preserves (Keeper P id o) (forget vs) := by
  induction vs with
  | nil => exact .pure _
  | cons v vs ih =>
    rw [forget]
    cases v.ref? with
    | some ref => exact (keeper_free ref.cell).bind fun _ => ih
    | none => exact ih

theorem keeper_freeAll (cells : List (Option CellId)) : Preserves (Keeper P id o) (freeAll cells) := by
  induction cells with
  | nil => exact .pure _
  | cons c cells ih =>
    cases c with
    | none => exact ih
    | some cell => exact (keeper_free cell).bind fun _ => ih

/-- Values that are read are the session's own. -/
theorem keeper_unpackAll (cells : List (Option CellId)) : Leads (Keeper P id o) (unpackAll cells).run
    (Outcome (fun _ => Keeper P id o) fun vs s => (∀ v ∈ vs, v.MadeBy id) ∧ s.Keeper P id o) := by
  have all : ∀ (index : Nat) (done : List Value), (∀ v ∈ done, v.MadeBy id) →
      Leads (Keeper P id o) (unpackFrom index done cells).run
        (Outcome (fun _ => Keeper P id o) fun vs s => (∀ v ∈ vs, v.MadeBy id) ∧ s.Keeper P id o) := by
    induction cells with
    | nil => exact fun _ done hd => .tryPure _ fun _ h => ⟨fun v hv => hd v (List.mem_reverse.mp hv), h⟩
    | cons c cells ih =>
      intro index done hd
      refine .tryBind (.tryCatch (keeper_unpack c) fun f => ?_) fun v => .given fun hv =>
        ih _ _ fun u hu => ?_
      · exact .tryBind (.lift (.of_preserves (keeper_forget _))) fun _ =>
          .tryBind (.lift (.of_preserves (keeper_freeAll _))) fun _ => .throw _ fun _ h => h
      · obtain rfl | hu := List.mem_cons.mp hu
        · exact hv
        · exact hd u hu
  exact all 0 [] fun _ hv => by cases hv

theorem keeper_takeResults (cells : List (Option CellId)) :
    Leads (Keeper P id o) (takeResults cells).run
    (Outcome (fun _ => Keeper P id o) fun vs s => (∀ v ∈ vs, v.MadeBy id) ∧ s.Keeper P id o) :=
  .tryBind (.lift (.of_preserves (keeper_settle 1))) fun _ => keeper_unpackAll cells

theorem keeper_takeCell (t : Script.ThreadId) : Preserves (Keeper P id o) (takeCell t) :=
  .bind (keeper_withMachine _) fun _ => keeper_toCell _

/-- The value of a global is the session's own. -/
theorem keeper_lookUp (path : String) : Leads (Keeper P id o) (lookUp path).run
    (Outcome (fun _ => Keeper P id o) fun v s => v.MadeBy id ∧ s.Keeper P id o) := by
  have parsed : Preserves (Keeper P id o)
      (MonadExcept.ofExcept (Path.parse path) : Attempt Path).run := by
    cases Path.parse path
    · exact .throw _
    · exact .tryPure _
  refine .tryBind (.attempt_of_preserves keeper_thread) fun t => .tryGet fun s h => ?_
  refine Leads.tryBind (.attempt_of_preserves parsed) (fun p => .tryBind
    (.attempt_of_preserves (keeper_reserve t 4)) fun _ => .tryBind
    (.attempt_of_preserves (keeper_walk t _ p false)) fun _ => .tryBind
    (.lift (.of_preserves (keeper_modifyMachine _))) fun _ => .tryBind
    (.lift (.of_preserves (keeper_takeCell t))) fun cell => .tryBind
    (.lift (.of_preserves (keeper_dropAbove t _))) fun _ => keeper_unpack cell) s h

/-- A second reference is the session's own. -/
theorem keeper_reanchor (r : Ref) : Leads (Keeper P id o) (reanchor r).run
    (Outcome (fun _ => Keeper P id o) fun q s => q.session = id ∧ s.Keeper P id o) := by
  have pushed : ∀ t out, Preserves (Keeper P id o) (push t out).run := by
    intro t out s h
    refine Preserves.tryBind (fun s h => ?_) (fun pinned => ?_) s h
    · have after := keeper_repin out s h
      cases hr : ((repin out).run.run s).1 with
      | ok r => rw [hr] at after; exact after.2
      | error f => rw [hr] at after; exact after
    · cases pinned with
      | some p => exact .tryBind (.lift (keeper_build t p.1)) fun _ => .tryPure _
      | none => exact .tryBind (.lift (keeper_place t out)) fun _ => .tryPure _
  refine .tryBind (.attempt_of_preserves keeper_thread) fun t => .tryBind
    (.attempt_of_preserves (keeper_reserve t 1)) fun _ => .tryBind
    (.attempt_of_preserves (pushed t _)) fun _ => .tryBind
    (.lift (.of_preserves (keeper_takeCell t))) fun cell => ?_
  cases cell with
  | none => exact .throw _ fun _ h => h
  | some cell =>
    refine .tryGet fun s h => ⟨?_, h⟩
    rw [← h.id, refTo]
    split <;> rfl

/-- A pin that is released hands its callable over. -/
theorem keeper_unpin (h : Handle) : Leads (Keeper P id o) (unpin h)
    fun f s => (∀ g, f = some g → P g) ∧ s.Keeper P id o :=
  .modifyGet fun _ hs => ⟨fun g hg => hs.pins _ g hg, hs.released h⟩

/-- A session that is closed hands over what it pins. -/
theorem keeper_finishClose : Leads (Keeper P id o) finishClose
    fun fs s => (∀ f ∈ fs, P f) ∧ s.Keeper P id false := by
  refine .modifyGet fun s h => ⟨fun f hf => ?_, h.id, rfl, fun k f hf => ?_⟩
  · obtain ⟨⟨k, g⟩, there, rfl⟩ := List.mem_map.mp hf
    exact h.pins k g (Std.TreeMap.mem_toList_iff_getElem?_eq_some.mp there)
  · change (∅ : Std.TreeMap Nat CallableId)[k]? = some f at hf
    simp at hf

end Session

end ScriptBridge
