import ScriptBridge.Proofs.Stacks
import ScriptBridge.Proofs.Tables

/-!
# ScriptBridge.Proofs.Instructions

What an instruction of a script function comes to.  It works on tables, script functions and variables,
and on nothing else of the objects of a runtime; then the function goes on, calls something, fails, or
is left.

Main fact:

* `Machine.exec_carried` — every instruction comes to one of these.
-/

namespace ScriptBridge.Script

namespace Machine

variable {m n : Machine} {info : FrameInfo} {a : Activation} {rest : List Frame}

/-- Whether nothing has happened to a runtime but to its tables, script functions and variables, and
the globals have not gone. -/
structure Heaped (m n : Machine) : Prop where
  only : n = { m with tables := n.tables, closures := n.closures, boxes := n.boxes }
  rooted : m.Rooted → n.Rooted

theorem Heaped.refl (m : Machine) : m.Heaped m := ⟨rfl, id⟩

theorem Heaped.aside (h : m.Heaped n) : m.Aside n :=
  ⟨congrArg (·.current) h.only, congrArg (·.closing) h.only, congrArg (·.threads) h.only⟩

/-- What carrying out an instruction of a script function comes to: the function goes on, calls
something, fails, returns, or calls something in its place. -/
inductive Carried (m : Machine) (info : FrameInfo) (rest : List Frame) : Machine → Prop
  | goes {n : Machine} (a : Activation) :
      m.Heaped n → n.mode = m.mode → Carried m info rest (n.go info a rest)
  | calls {n : Machine} (a : Activation) (await : Await) (f : Value) (args : List Value) :
      m.Heaped n → Carried m info rest (n.callFrom info a rest await f args)
  | fails {n : Machine} (a : Activation) (what : Bytes) :
      m.Heaped n → Carried m info rest (n.failFrom info a rest what)
  | returns {n : Machine} (values : List Value) :
      m.Heaped n → Carried m info rest { n with frames := rest, mode := .deliver values }
  | replaced {n : Machine} (f : Value) (args : List Value) :
      m.Heaped n → Carried m info rest { n with frames := rest, mode := .call f args }

namespace Carried

theorem go (m : Machine) (info : FrameInfo) (a : Activation) (rest : List Frame) :
    Carried m info rest (m.go info a rest) := .goes a (.refl m) rfl

theorem call (m : Machine) (info : FrameInfo) (a : Activation) (rest : List Frame) (await : Await)
    (f : Value) (args : List Value) :
    Carried m info rest (m.callFrom info a rest await f args) := .calls a await f args (.refl m)

theorem fail (m : Machine) (info : FrameInfo) (a : Activation) (rest : List Frame) (what : Bytes) :
    Carried m info rest (m.failFrom info a rest what) := .fails a what (.refl m)

end Carried

section

variable (m : Machine) (info : FrameInfo) (a : Activation) (rest : List Frame)

theorem readField_carried (await : Await) (object key : Value) (origin : Origin) :
    Carried m info rest (m.readField info a rest await object key origin) := by
  unfold readField
  split
  · exact .go ..
  · exact .call ..
  · exact .go ..
  · exact .fail ..
  · exact .fail ..

theorem writeField_carried (object key v : Value) (origin : Origin) :
    Carried m info rest (m.writeField info a rest object key v origin) := by
  unfold writeField
  split
  · split
    · exact .fail ..
    · exact .goes (n := m.rawSet _ key v) a ⟨rfl, fun h => h.modifyTable _ _⟩ rfl
  · exact .call ..
  · exact .go ..
  · exact .fail ..
  · exact .fail ..

theorem binaryOp_carried (op : BinaryOp) (x y : Value) (originX originY : Origin) :
    Carried m info rest (m.binaryOp info a rest op x y originX originY) := by
  unfold binaryOp
  split
  · exact .go ..
  · exact .fail ..
  · split
    · exact .fail ..
    · exact .call ..

theorem unaryOp_carried (op : UnaryOp) (x : Value) (origin : Origin) :
    Carried m info rest (m.unaryOp info a rest op x origin) := by
  unfold unaryOp
  dsimp only
  repeat' split
  all_goals first | exact .go .. | exact .fail .. | exact .call ..

theorem compareOp_carried (op : Comparison) (x y : Value) :
    Carried m info rest (m.compareOp info a rest op x y) := by
  unfold compareOp
  dsimp only
  repeat' split
  all_goals first | exact .go .. | exact .fail .. | exact .call ..

theorem concatOperands_carried (origins : List Origin) (n : Nat) (last : Value) :
    Carried m info rest (m.concatOperands info a rest origins n last) := by
  induction n generalizing a last with
  | zero => exact .go ..
  | succ n ih =>
    unfold concatOperands
    split
    · exact .go ..
    · split
      · exact ih _ _
      · dsimp only
        split
        · exact .fail ..
        · exact .call ..

theorem forPrep_carried (slot exit : Nat) (start limit step : Value) :
    Carried m info rest (m.forPrep info a rest slot exit start limit step) := by
  unfold forPrep
  dsimp only
  split
  · exact .go ..
  · exact .go ..
  · exact .go ..
  · exact .fail ..
  · exact .fail ..

theorem forLoop_carried (slot body : Nat) :
    Carried m info rest (m.forLoop info a rest slot body) := by
  unfold forLoop
  dsimp only
  repeat' split
  all_goals exact .go ..

theorem exec_carried (i : Instr) : Carried m info rest (m.exec info a rest i) := by
  cases i <;> dsimp only [exec] <;> (repeat' split)
  all_goals first
    | exact .go ..
    | exact .call ..
    | exact .fail ..
    | exact readField_carried ..
    | exact writeField_carried ..
    | exact binaryOp_carried ..
    | exact unaryOp_carried ..
    | exact compareOp_carried ..
    | exact concatOperands_carried ..
    | exact forPrep_carried ..
    | exact forLoop_carried ..
    | exact .goes _ ⟨rfl, id⟩ rfl
    | exact .goes _ ⟨rfl, fun h => h.newTable _⟩ rfl
    | exact .goes _ ⟨rfl, fun h => h.modifyTable _ _⟩ rfl
    | exact .returns _ (.refl m)
    | exact .replaced _ _ (.refl m)

end

/-! ## Runs -/

theorem run_paused {p : Pause} (mode : m.mode = .paused p) (fuel : Nat) : m.run fuel = m := by
  cases fuel with
  | zero => rfl
  | succ fuel => rw [run, mode]

theorem run_going (going : ∀ p, m.mode ≠ .paused p) (fuel : Nat) :
    m.run (fuel + 1) = m.step.run fuel := by
  rw [run]
  split
  · rename_i p mode
    exact absurd mode (going p)
  · rfl

end Machine

end ScriptBridge.Script
