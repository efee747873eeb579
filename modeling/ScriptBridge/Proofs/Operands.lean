import Mathlib.Tactic.Common
import ScriptBridge.Script.Embedding

/-!
# ScriptBridge.Proofs.Operands

The operands of the host are those of the host's frame that is on top of a thread.  A thread
`Listens` while there is such a frame; then what is put on the frame is on top of it, and what is
taken from it is gone.
-/

namespace ScriptBridge.Script

namespace Machine

variable {m : Machine} {t : ThreadId}

/-- Whether the host's frame is on top of a thread. -/
def Listens (m : Machine) (t : ThreadId) : Prop :=
  ∃ info upvalue operands rest, m.framesOf t = .host info upvalue operands :: rest

instance (m : Machine) (t : ThreadId) : Decidable (m.Listens t) :=
  match h : m.framesOf t with
  | .host info upvalue operands :: rest => isTrue ⟨info, upvalue, operands, rest, h⟩
  | [] | .script .. :: _ | .library .. :: _ | .mark .. :: _ => isFalse (by simp [Listens, h])

theorem operandsOf_of_not_listens (h : ¬ m.Listens t) : m.operandsOf t = [] := by
  rw [operandsOf]
  split
  · exact absurd ⟨_, _, _, _, ‹_›⟩ h
  · rfl

theorem setOperands_of_not_listens (h : ¬ m.Listens t) (operands : List Value) :
    m.setOperands t operands = m := by
  rw [setOperands]
  split
  · exact absurd ⟨_, _, _, _, ‹_›⟩ h
  · rfl

/-- The frames of a thread that has some can be replaced. -/
theorem framesOf_setFramesOf {f : Frame} {rest : List Frame} (h : m.framesOf t = f :: rest)
    (frames : List Frame) : (m.setFramesOf t frames).framesOf t = frames := by
  rw [framesOf] at h
  rw [setFramesOf, framesOf]
  by_cases current : t = m.current
  · simp [current]
  · have bound : t < m.threads.size := by
      by_contra out
      rw [if_neg current, thread, Array.getD_eq_getD_getElem?,
        Array.getElem?_eq_none (Nat.le_of_not_lt out)] at h
      cases h
    simp [current, setThread, thread, bound]

theorem listens_setOperands (h : m.Listens t) (operands : List Value) :
    (m.setOperands t operands).Listens t ∧ (m.setOperands t operands).operandsOf t = operands := by
  obtain ⟨info, upvalue, old, rest, hf⟩ := h
  have frames : (m.setOperands t operands).framesOf t = .host info upvalue operands :: rest := by
    rw [setOperands, hf]
    exact framesOf_setFramesOf hf _
  exact ⟨⟨_, _, _, _, frames⟩, by rw [operandsOf, frames]⟩

theorem listens_pushOperand (h : m.Listens t) (v : Value) :
    (m.pushOperand t v).Listens t
      ∧ (m.pushOperand t v).operandsOf t = v :: m.operandsOf t := listens_setOperands h _

/-- What is on top after something was put there, or nothing at all. -/
theorem operandsOf_pushOperand (m : Machine) (t : ThreadId) (v : Value) :
    (m.pushOperand t v).operandsOf t = v :: m.operandsOf t
      ∨ (m.pushOperand t v).operandsOf t = [] := by
  by_cases h : m.Listens t
  · exact Or.inl (listens_pushOperand h v).2
  · refine Or.inr ?_
    rw [pushOperand, setOperands_of_not_listens h]
    exact operandsOf_of_not_listens h

/-- A stack that has room for more is left as it is. -/
theorem reserve_of_room {count : Nat} (room : (m.reserve t count).1) :
    (m.reserve t count).2 = m := by
  unfold reserve at room ⊢
  dsimp only at room ⊢
  by_cases tight : m.overflowed = true
  · rw [if_pos tight]
  · rw [if_neg tight] at room ⊢
    split_ifs at room ⊢ with fits
    · rfl

/-- There is room only for what the runtime can count. -/
theorem count_of_room {count : Nat} (room : (m.reserve t count).1) :
    count < stackLimit + stackReserve := by
  unfold reserve at room
  dsimp only at room
  by_cases tight : m.overflowed = true
  · rw [if_pos tight] at room
    exact Nat.lt_of_le_of_lt (Nat.le_add_left ..) (of_decide_eq_true room)
  · rw [if_neg tight] at room
    split_ifs at room with fits
    exact Nat.lt_of_le_of_lt (Nat.le_trans (Nat.le_add_left ..) fits)
      (Nat.lt_add_of_pos_right (by decide))

/-- A thread that has frames and does not run is kept among the threads. -/
theorem thread_of_framesOf {f : Frame} {rest : List Frame} (h : m.framesOf t = f :: rest)
    (away : t ≠ m.current) : m.threads[t]? = some (some (m.thread t)) := by
  rw [framesOf, if_neg away, thread, Array.getD_eq_getD_getElem?] at h
  rw [thread, Array.getD_eq_getD_getElem?]
  cases entry : m.threads[t]? with
  | none => rw [entry] at h; cases h
  | some th =>
    cases th with
    | none => rw [entry] at h; cases h
    | some th => rfl

/-- The frames that are put on a thread last are what is there. -/
theorem setFramesOf_setFramesOf {f : Frame} {rest : List Frame} (h : m.framesOf t = f :: rest)
    (F G : List Frame) : (m.setFramesOf t F).setFramesOf t G = m.setFramesOf t G := by
  by_cases here : t = m.current
  · simp [setFramesOf, here]
  · obtain ⟨bound, -⟩ := Array.getElem?_eq_some_iff.mp (thread_of_framesOf h here)
    simp [setFramesOf, here, setThread, thread, bound]

/-- The frames of a thread can be put there again. -/
theorem setFramesOf_framesOf {f : Frame} {rest : List Frame} (h : m.framesOf t = f :: rest) :
    m.setFramesOf t (m.framesOf t) = m := by
  by_cases here : t = m.current
  · rw [setFramesOf, framesOf, if_pos here, if_pos here]
  · obtain ⟨bound, same⟩ := Array.getElem?_eq_some_iff.mp (thread_of_framesOf h here)
    have kept : m.threads.setIfInBounds t (some (m.thread t)) = m.threads := by
      rw [Array.setIfInBounds, dif_pos bound, ← same, Array.set_getElem_self]
    rw [setFramesOf, framesOf, if_neg here, if_neg here]
    exact congrArg (fun threads => { m with threads := threads }) kept

/-- What is put on the host's frame last is what is there. -/
theorem setOperands_setOperands (m : Machine) (t : ThreadId) (vs us : List Value) :
    (m.setOperands t vs).setOperands t us = m.setOperands t us := by
  by_cases h : m.Listens t
  · obtain ⟨info, upvalue, old, rest, hf⟩ := h
    have on : ∀ vs, m.setOperands t vs = m.setFramesOf t (.host info upvalue vs :: rest) := by
      intro vs
      rw [setOperands, hf]
    rw [on vs, on us, setOperands, framesOf_setFramesOf hf]
    exact setFramesOf_setFramesOf hf _ _
  · rw [setOperands_of_not_listens h]

/-- What is on the host's frame can be put there again. -/
theorem setOperands_operandsOf (m : Machine) (t : ThreadId) :
    m.setOperands t (m.operandsOf t) = m := by
  by_cases h : m.Listens t
  · obtain ⟨info, upvalue, old, rest, hf⟩ := h
    rw [operandsOf, setOperands, hf]
    dsimp only
    rw [← hf]
    exact setFramesOf_framesOf hf
  · exact setOperands_of_not_listens h _

/-! ## The objects of a runtime -/

/-- A runtime with the tables, functions and userdata of another. -/
def withObjects (m objects : Machine) : Machine := { m with
  tables := objects.tables
  natives := objects.natives
  userdata := objects.userdata
  finalizable := objects.finalizable }

theorem setOperands_withObjects (m objects : Machine) (t : ThreadId) (vs : List Value) :
    (m.withObjects objects).setOperands t vs = (m.setOperands t vs).withObjects objects := by
  have frames : (m.withObjects objects).framesOf t = m.framesOf t := rfl
  rw [setOperands, setOperands, frames]
  split
  · rw [setFramesOf, setFramesOf]
    change ite (t = m.current) _ _ = _
    split <;> rfl
  · rfl

/-! ## What the operands have nothing to do with -/

section

variable (m : Machine) (t : ThreadId) (operands : List Value) (v : Value)

@[simp] theorem tables_setOperands : (m.setOperands t operands).tables = m.tables := by
  unfold setOperands setFramesOf
  split
  · split <;> rfl
  · rfl

@[simp] theorem natives_setOperands : (m.setOperands t operands).natives = m.natives := by
  unfold setOperands setFramesOf
  split
  · split <;> rfl
  · rfl

@[simp] theorem userdata_setOperands : (m.setOperands t operands).userdata = m.userdata := by
  unfold setOperands setFramesOf
  split
  · split <;> rfl
  · rfl

@[simp] theorem handleMetatable_setOperands :
    (m.setOperands t operands).handleMetatable = m.handleMetatable := by
  unfold setOperands setFramesOf
  split
  · split <;> rfl
  · rfl

@[simp] theorem overflowed_setOperands : (m.setOperands t operands).overflowed = m.overflowed := by
  unfold setOperands setFramesOf
  split
  · split <;> rfl
  · rfl

@[simp] theorem framesOf_noteFinalizer (o : Finalizable) (mt : Option TableId) :
    (m.noteFinalizer o mt).framesOf t = m.framesOf t := by
  unfold noteFinalizer
  split
  · rfl
  · split <;> rfl

@[simp] theorem natives_noteFinalizer (o : Finalizable) (mt : Option TableId) :
    (m.noteFinalizer o mt).natives = m.natives := by
  unfold noteFinalizer
  split
  · rfl
  · split <;> rfl

@[simp] theorem userdata_noteFinalizer (o : Finalizable) (mt : Option TableId) :
    (m.noteFinalizer o mt).userdata = m.userdata := by
  unfold noteFinalizer
  split
  · rfl
  · split <;> rfl

@[simp] theorem handleMetatable_noteFinalizer (o : Finalizable) (mt : Option TableId) :
    (m.noteFinalizer o mt).handleMetatable = m.handleMetatable := by
  unfold noteFinalizer
  split
  · rfl
  · split <;> rfl

end

/-- A stack has room for as many values as fit between the top frame and the limit. -/
theorem reserve_fst {f : Frame} {rest : List Frame} (h : m.framesOf t = f :: rest) (n : Nat) :
    (m.reserve t n).1 = if m.overflowed then decide (f.top + n < stackLimit + stackReserve)
      else decide (f.top + n ≤ stackLimit) := by
  unfold reserve
  rw [h]
  by_cases tight : m.overflowed = true
  · simp only [tight, if_true]
  · simp only [tight]
    by_cases fits : f.top + n ≤ stackLimit <;> simp [fits]

/-- A stack that holds what is on it has room for what was taken away. -/
theorem room_setOperands {old new : List Value} (listens : m.Listens t)
    (room : (m.reserve t 0).1) (less : m.operandsOf t = new ++ old) :
    ((m.setOperands t old).reserve t new.length).1 := by
  obtain ⟨info, upvalue, operands, rest, hf⟩ := listens
  obtain rfl : operands = new ++ old := by rwa [operandsOf, hf] at less
  have frames : (m.setOperands t old).framesOf t = .host info upvalue old :: rest := by
    rw [setOperands, hf]
    exact framesOf_setFramesOf hf _
  have same : Frame.top (.host info upvalue (new ++ old)) + 0
      = Frame.top (.host info upvalue old) + new.length := by
    simp only [Frame.top, List.length_append]
    omega
  rwa [reserve_fst frames, overflowed_setOperands, ← same, ← reserve_fst hf]

/-- What a new host function adds to the runtime. -/
theorem newHostFunction_eq (m : Machine) :
    m.newHostFunction.1 = m.userdata.size
      ∧ m.newHostFunction.2.1 = .native m.natives.size
      ∧ m.newHostFunction.2.2.natives
        = m.natives.push (some ⟨.host, #[.userdata m.userdata.size]⟩)
      ∧ m.newHostFunction.2.2.userdata = m.userdata.push (some ⟨some m.handleMetatable⟩)
      ∧ m.newHostFunction.2.2.handleMetatable = m.handleMetatable
      ∧ ∀ t, m.newHostFunction.2.2.framesOf t = m.framesOf t := by
  refine ⟨rfl, ?_, ?_, ?_, ?_, fun t => ?_⟩
  · simp [newHostFunction, newNative, newUserdata]
  · simp [newHostFunction, newNative, newUserdata]
  · simp [newHostFunction, newNative, newUserdata]
  · simp [newHostFunction, newNative, newUserdata]
  · exact (framesOf_noteFinalizer (m.newUserdata (some m.handleMetatable)).2 t _ _).trans rfl

/-- A new host function is one object more, and no table. -/
theorem newHostFunction_aside (m : Machine) :
    m.newHostFunction.2.2 = m.withObjects m.newHostFunction.2.2
      ∧ m.newHostFunction.2.2.tables = m.tables := by
  unfold newHostFunction noteFinalizer
  dsimp only
  split <;> exact ⟨rfl, rfl⟩

end Machine

end ScriptBridge.Script
