import ScriptBridge.Proofs.Climbing
import ScriptBridge.Proofs.Moves
import ScriptBridge.Proofs.Operations

/-!
# ScriptBridge.Proofs.Still

What transfers do to the frames of a runtime: nothing, but for the operands on the host's frame.
An operation `Preserves` what does not depend on anything that it changes.  Cells, pins and anchors
come and go in a session that is `Still`; what `Adds` values puts them on the host's frame.

Main facts:

* `Session.still_packAll`, `Session.still_unpackAll` — values are made ready, or read, in a session
  that is still;
* `Session.preserves_lookUp`, `Session.preserves_reanchor` — what is put on the host's frame for a
  moment is taken off again.
-/

namespace ScriptBridge

namespace Script.Machine

variable {m m' m'' : Machine}

/-! ## Runtimes -/

/-- Whether the frames and the coroutines of a runtime are the same as before, and what it does
next. -/
structure Still (m m' : Machine) : Prop extends m.Aside m' where
  frames : m'.frames = m.frames
  mode : m'.mode = m.mode

theorem Still.refl (m : Machine) : m.Still m := ⟨⟨rfl, rfl, rfl⟩, rfl, rfl⟩

theorem Still.trans (h : m.Still m') (h' : m'.Still m'') : m.Still m'' :=
  ⟨h.toAside.trans h'.toAside, h'.frames.trans h.frames, h'.mode.trans h.mode⟩

theorem still_reserve (m : Machine) (t : ThreadId) (n : Nat) : m.Still (m.reserve t n).2 := by
  have fitted : ∀ top : Nat, m.Still (if m.overflowed then (decide (top + n < stackLimit
      + stackReserve), m) else if top + n ≤ stackLimit then (true, m)
      else (false, { m with overflowed := true })).2 := by
    intro top
    split
    · exact .refl m
    · split
      · exact .refl m
      · exact ⟨⟨rfl, rfl, rfl⟩, rfl, rfl⟩
  exact fitted _

theorem still_walkFrom (p : Path) (create : Bool) (done remaining : List String) (table : TableId)
    (m : Machine) : m.Still (p.walkFrom create done remaining table m).2 := by
  induction remaining generalizing done table m with
  | nil => exact .refl m
  | cons segment remaining ih =>
    unfold Path.walkFrom
    dsimp only
    split
    · split
      · have created : m.Still ((m.newTable .empty).2.rawSet table (.str segment.toUTF8)
            (.table (m.newTable .empty).1)) := ⟨⟨rfl, rfl, rfl⟩, rfl, rfl⟩
        exact created.trans (ih _ _ _)
      · exact .refl m
    · split
      · exact ih _ _ _
      · exact .refl m

theorem still_walk (p : Path) (create : Bool) (m : Machine) : m.Still (p.walk create m).2 :=
  still_walkFrom p create _ _ _ m

theorem alike_walkFrom (p : Path) (create : Bool) (done remaining : List String) (table : TableId)
    (m : Machine) : m.Alike (p.walkFrom create done remaining table m).2 := by
  induction remaining generalizing done table m with
  | nil => exact .refl m
  | cons segment remaining ih =>
    unfold Path.walkFrom
    dsimp only
    split
    · split
      · have created : m.Alike ((m.newTable .empty).2.rawSet table (.str segment.toUTF8)
            (.table (m.newTable .empty).1)) :=
          ⟨rfl, rfl, rfl, rfl, rfl, fun h => (h.newTable _).modifyTable _ _⟩
        exact created.trans (ih _ _ _)
      · exact .refl m
    · split
      · exact ih _ _ _
      · exact .refl m

theorem alike_walk (p : Path) (create : Bool) (m : Machine) : m.Alike (p.walk create m).2 :=
  alike_walkFrom p create _ _ _ m

/-! ## Operands -/

variable {info : FrameInfo} {upvalue : Value} {operands : List Value} {rest : List Frame}

/-- Whether a runtime has more values on the host's frame, and is the same otherwise. -/
structure Adds (m m' : Machine) (new : List Value) : Prop extends m.Aside m' where
  mode : m'.mode = m.mode
  frames : ∃ (info : FrameInfo) (upvalue : Value) (operands : List Value) (rest : List Frame),
    m.frames = .host info upvalue operands :: rest
      ∧ m'.frames = .host info upvalue (new ++ operands) :: rest

theorem Adds.trans {new new' : List Value} (h : m.Adds m' new) (h' : m'.Adds m'' new') :
    m.Adds m'' (new' ++ new) := by
  obtain ⟨info, upvalue, operands, rest, hf, hf'⟩ := h.frames
  obtain ⟨_, _, _, _, eq, hf''⟩ := h'.frames
  cases hf'.symm.trans eq
  exact ⟨h.toAside.trans h'.toAside, h'.mode.trans h.mode,
    info, upvalue, operands, rest, hf, by rw [hf'', List.append_assoc]⟩

theorem Still.adds {new : List Value} (h : m.Still m') (h' : m'.Adds m'' new) : m.Adds m'' new := by
  obtain ⟨info, upvalue, operands, rest, hf, hf'⟩ := h'.frames
  exact ⟨h.toAside.trans h'.toAside, h'.mode.trans h.mode,
    info, upvalue, operands, rest, h.frames ▸ hf, hf'⟩

theorem setOperands_current (hf : m.frames = .host info upvalue operands :: rest)
    (new : List Value) :
    m.setOperands m.current new = { m with frames := .host info upvalue new :: rest } := by
  rw [setOperands, framesOf, if_pos rfl, hf]
  exact if_pos rfl

theorem operandsOf_current (hf : m.frames = .host info upvalue operands :: rest) :
    m.operandsOf m.current = operands := by rw [operandsOf, framesOf, if_pos rfl, hf]

theorem adds_pushOperand (hf : m.frames = .host info upvalue operands :: rest) (v : Value) :
    m.Adds (m.pushOperand m.current v) [v] := by
  rw [pushOperand, setOperands_current hf, operandsOf_current hf]
  exact ⟨⟨rfl, rfl, rfl⟩, rfl, info, upvalue, operands, rest, hf, rfl⟩

/-- What was added is taken off again. -/
theorem Adds.drop {new : List Value} (h : m.Adds m' new) {count : Nat} (all : count = new.length) :
    m.Still (m'.setOperands m'.current ((m'.operandsOf m'.current).drop count)) := by
  obtain ⟨info, upvalue, operands, rest, hf, hf'⟩ := h.frames
  rw [setOperands_current hf', operandsOf_current hf', all, List.drop_left]
  exact ⟨⟨h.current, h.closing, h.threads⟩, hf.symm, h.mode⟩

end Script.Machine

namespace Session

open Script.Machine (Still)

variable {s s' s'' : Session}

/-! ## Sessions -/

/-- Whether the runtime of a session is as it was, and host operations run on the same thread. -/
structure Still (s s' : Session) : Prop where
  id : s'.id = s.id
  isOpen : s'.isOpen = s.isOpen
  active : s'.active = s.active
  machine : s.machine.Still s'.machine

theorem Still.refl (s : Session) : s.Still s := ⟨rfl, rfl, rfl, .refl _⟩

theorem Still.trans (h : s.Still s') (h' : s'.Still s'') : s.Still s'' :=
  ⟨h'.id.trans h.id, h'.isOpen.trans h.isOpen, h'.active.trans h.active, h.machine.trans h'.machine⟩

/-- Work on the other parts of a session. -/
theorem Still.of_same (id : s'.id = s.id) (isOpen : s'.isOpen = s.isOpen)
    (active : s'.active = s.active) (machine : s'.machine = s.machine) : s.Still s' :=
  ⟨id, isOpen, active, machine ▸ .refl _⟩

/-- Whether a property of a session is about its runtime, as far as that is still. -/
def Steady (I : Session → Prop) : Prop := ∀ s s', I s → s.Still s' → I s'

theorem steady_still (s : Session) : Steady s.Still := fun _ _ h h' => h.trans h'

/-- Whether the runtime of a session is as it was after moves of the session. -/
structure Calm (s s' : Session) : Prop where
  still : s.Still s'
  moves : s.Moves s'

theorem Calm.refl (s : Session) : s.Calm s := ⟨.refl s, .refl s⟩

theorem Calm.trans (h : s.Calm s') (h' : s'.Calm s'') : s.Calm s'' :=
  ⟨h.still.trans h'.still, h.moves.trans h'.moves⟩

/-- Work on the other parts of a session. -/
theorem Calm.of_same (id : s'.id = s.id) (isOpen : s'.isOpen = s.isOpen)
    (active : s'.active = s.active) (machine : s'.machine = s.machine)
    (handles : s'.handles = s.handles) (pins : s.pins.Later s'.pins) : s.Calm s' :=
  ⟨.of_same id isOpen active machine, (Move.books id isOpen machine handles pins).moves⟩

theorem Calm.host {m : Script.Machine} (still : s.machine.Still m) (alike : s.machine.Alike m) :
    s.Calm { s with machine := m } := ⟨⟨rfl, rfl, rfl, still⟩, (Move.host alike).moves⟩

/-- Whether a property of a session is about its runtime and its moves, as far as they are calm. -/
def Gentle (I : Session → Prop) : Prop := ∀ s s', I s → s.Calm s' → I s'

theorem Steady.gentle {I : Session → Prop} (h : Steady I) : Gentle I :=
  fun s s' hs calm => h s s' hs calm.still

theorem gentle_calm (s : Session) : Gentle s.Calm := fun _ _ h h' => h.trans h'

theorem gentle_moves (s : Session) : Gentle s.Moves := fun _ _ h h' => h.trans h'.moves

section

variable {I : Session → Prop} (hI : Gentle I)

include hI

theorem still_store (c : Cell) : Preserves I (store c) :=
  .modifyGet fun s h => hI s _ h (.of_same rfl rfl rfl rfl rfl .refl)

theorem still_anchor (v : Script.Value) : Preserves I (anchor v) :=
  .modifyGet fun s h => hI s _ h (.of_same rfl rfl rfl rfl rfl .refl)

theorem still_withdraw (id : CellId) : Preserves I (withdraw id) := by
  intro s h
  refine hI s _ h ?_
  cases hc : s.cell? id with
  | none => rw [withdraw_run_of_none hc]; exact .refl s
  | some c =>
    rw [withdraw_run hc]
    refine .of_same rfl rfl rfl rfl rfl ?_
    cases hh : c.handle? with
    | some handle => simpa [withdrawn, hh] using .release .refl handle
    | none => simpa [withdrawn, hh] using .refl

theorem still_settle (weight : Nat) : Preserves I (settle weight) :=
  .modify fun s h => hI s _ h (.of_same rfl rfl rfl rfl rfl .refl)

theorem still_free (id : CellId) : Preserves I (free id) :=
  (still_withdraw hI id).bind fun _ => still_settle hI _

theorem still_touch : Preserves I touch :=
  .modify fun s h => hI s _ h (.of_same rfl rfl rfl rfl rfl .refl)

omit hI in
theorem still_thread : Preserves I thread.run :=
  .tryGet fun s h => by cases s.active <;> exact h

theorem still_pack (v : Value) : Preserves I (pack v).run := by
  have borrowed : ∀ r : Ref, Preserves I (borrow r).run := fun r =>
    .tryGet fun s h => by split <;> exact h
  have stored : ∀ c : Cell, Preserves I (do return .owned (← store c) : Attempt Outbound).run :=
    fun c => .tryBind (still_store hI c).lift fun _ => .tryPure _
  cases v with
  | nil => exact .tryPure _
  | number x => exact stored _
  | boolean b => exact stored _
  | string text => exact stored _
  | reference ref => exact borrowed ref
  | function ref => exact borrowed ref
  | callable id =>
    refine .tryBind (.lift (.modifyGet fun s h => ?_)) fun handle => stored _
    exact hI s _ h (.of_same rfl rfl rfl rfl rfl (.pin .refl id))

theorem still_abandon (outs : List Outbound) : Preserves I (abandon outs) := by
  induction outs with
  | nil => exact .pure _
  | cons out outs ih =>
    cases out with
    | owned cell => exact (still_free hI cell).bind fun _ => ih
    | _ => exact ih

theorem still_packFrom (index : Nat) (done : List Outbound) (vs : List Value) :
    Preserves I (packFrom index done vs).run := by
  induction vs generalizing index done with
  | nil => exact .tryPure _
  | cons v vs ih =>
    refine .tryBind (.tryCatch (still_pack hI v) fun f => ?_) fun out => ih _ _
    exact .tryBind (still_abandon hI _).lift fun _ => .throw _

/-- Values are made ready. -/
theorem still_packAll (vs : List Value) : Preserves I (packAll vs).run := still_packFrom hI 0 [] vs

omit hI in
/-- Nothing is done for a value that is no callable. -/
theorem repin_eq_none {s s' : Session} {out : Outbound}
    (h : (repin out).run.run s = (.ok none, s')) :
    s' = s ∧ (out.cell?.bind s.cell?).any (fun c => c.handle?.isSome) = false := by
  rw [repin, try_get_bind] at h
  cases hc : out.cell?.bind s.cell? with
  | none =>
    rw [hc] at h
    exact ⟨(Prod.mk.inj h).2.symm, rfl⟩
  | some c =>
    rw [hc] at h
    cases c with
    | pinned handle =>
      dsimp only at h
      split at h <;> cases (Prod.mk.inj h).1
    | _ => exact ⟨(Prod.mk.inj h).2.symm, rfl⟩

theorem still_repin (out : Outbound) : Preserves I (repin out).run := by
  refine .tryGet fun s h => ?_
  split
  · split
    · rename_i again
      exact hI s _ h (.of_same rfl rfl rfl rfl rfl (Registry.later_repin again))
    · exact h
  · exact h

theorem still_toCell (v : Script.Value) : Preserves I (toCell v) := by
  have stored : ∀ c : Cell, Preserves I (do return some (← store c) : Op (Option CellId)) :=
    fun c => (still_store hI c).bind fun _ => .pure _
  have anchored : ∀ (v : Script.Value) (c : Anchor → Cell),
      Preserves I (do return some (← store (c (← anchor v))) : Op (Option CellId)) :=
    fun v c => (still_anchor hI v).bind fun _ => stored _
  unfold toCell
  split
  · exact .pure _
  · exact stored _
  · exact stored _
  · exact stored _
  · exact stored _
  · split
    · exact anchored _ _
    · exact .get_bind fun s h => anchored _ _ s h

theorem still_toCells (vs : List Script.Value) : Preserves I (vs.mapM toCell) := by
  induction vs with
  | nil => exact .pure _
  | cons v vs ih =>
    rw [List.mapM_cons]
    exact (still_toCell hI v).bind fun _ => ih.bind fun _ => .pure _

theorem still_unpack (c : Option CellId) : Preserves I (unpack c).run := by
  cases c with
  | none => exact .tryPure _
  | some id =>
    have freed : ∀ {y : Attempt Value}, Preserves I y.run →
        Preserves I (ExceptT.lift (free id) >>= fun _ => y : Attempt Value).run :=
      fun hy => .tryBind (still_free hI id).lift fun _ => hy
    refine .tryGet fun s h => ?_
    split
    · exact h
    · exact freed (.tryPure _) s h
    · exact freed (.tryPure _) s h
    · refine freed ?_ s h
      split
      · exact .tryPure _
      · exact .throw _
    · exact h
    · exact h

theorem still_forget (vs : List Value) : Preserves I (forget vs) := by
  induction vs with
  | nil => exact .pure _
  | cons v vs ih =>
    cases hv : v.ref? with
    | some ref =>
      have run : forget (v :: vs) = (do free ref.cell; forget vs) := by rw [forget, hv]
      rw [run]
      exact (still_free hI _).bind fun _ => ih
    | none =>
      have run : forget (v :: vs) = forget vs := by rw [forget, hv]
      rw [run]
      exact ih

theorem still_freeAll (cells : List (Option CellId)) : Preserves I (freeAll cells) := by
  induction cells with
  | nil => exact .pure _
  | cons c cells ih =>
    cases c with
    | none => exact ih
    | some id => exact (still_free hI id).bind fun _ => ih

/-- Values are read. -/
theorem still_unpackAll (cells : List (Option CellId)) : Preserves I (unpackAll cells).run := by
  have all : ∀ (index : Nat) (done : List Value), Preserves I (unpackFrom index done cells).run := by
    induction cells with
    | nil => exact fun _ _ => .tryPure _
    | cons c cells ih =>
      intro index done
      refine .tryBind (.tryCatch (still_unpack hI c) fun f => ?_) fun v => ih _ _
      exact .tryBind (still_forget hI _).lift fun _ =>
        .tryBind (still_freeAll hI _).lift fun _ => .throw _
  exact all 0 []

theorem still_takeResults (cells : List (Option CellId)) : Preserves I (takeResults cells).run :=
  .tryBind (still_settle hI 1).lift fun _ => still_unpackAll hI cells

theorem still_withMachine {α : Type} (f : Script.Machine → α × Script.Machine)
    (h : ∀ m : Script.Machine, m.Still (f m).2) (alike : ∀ m : Script.Machine, m.Alike (f m).2) :
    Preserves I (withMachine f) :=
  .modifyGet fun s hs => hI s _ hs (.host (h _) (alike _))

theorem still_reserve (t : Script.ThreadId) (count : Nat) : Preserves I (reserve t count).run := by
  refine .tryBind (.lift (still_withMachine hI _ (fun m => m.still_reserve t count)
    fun m => m.alike_reserve t count)) fun room => ?_
  cases room
  · exact .throw _
  · exact .tryPure _

theorem still_beginResults (vs : List Value) : Preserves I (beginResults vs).run :=
  .tryBind (still_thread) fun _ => .tryBind (still_reserve hI _ _) fun _ =>
    .tryBind (still_packAll hI vs) fun _ => .tryPure _

theorem still_scriptFailure (v : Script.Value) : Preserves I (scriptFailure v) :=
  (still_touch hI).bind fun _ => .pure _

theorem still_unpin (handle : Handle) : Preserves I (unpin handle) :=
  .modifyGet fun s h => hI s _ h (.of_same rfl rfl rfl rfl rfl (.release .refl handle))

theorem still_takeHandle (target : Script.Value) : Preserves I (takeHandle target) := by
  refine .modifyGet fun s h => ?_
  cases target with
  | userdata o => exact hI s _ h ⟨.of_same rfl rfl rfl rfl, (Move.taken s o).moves⟩
  | _ => exact hI s _ h (.refl s)

end

/-! ## The host's frame -/

/-- Whether host code runs: the host's frame is on top of the thread that operations run on. -/
def Rests (s : Session) : Prop :=
  ∃ (info : Script.FrameInfo) (upvalue : Script.Value) (operands : List Script.Value)
    (rest : List Script.Frame), s.machine.frames = .host info upvalue operands :: rest
      ∧ s.active = some s.machine.current

/-- Host operations work on the host's frame. -/
theorem Rests.listens {t : Script.ThreadId} (h : s.Rests) (active : s.active = some t) :
    s.machine.Listens t := by
  obtain ⟨info, upvalue, operands, rest, frames, current⟩ := h
  cases active.symm.trans current
  exact ⟨info, upvalue, operands, rest, by rw [Script.Machine.framesOf, if_pos rfl, frames]⟩

theorem Rests.still (h : s.Rests) (still : s.Still s') : s'.Rests := by
  obtain ⟨info, upvalue, operands, rest, hf, active⟩ := h
  exact ⟨info, upvalue, operands, rest, still.machine.frames.trans hf, by
    rw [still.active, active, still.machine.current]⟩

/-- Whether a session has more values on the host's frame, and is still otherwise. -/
structure Adds (s s' : Session) (new : List Script.Value) : Prop where
  id : s'.id = s.id
  isOpen : s'.isOpen = s.isOpen
  active : s'.active = s.active
  machine : s.machine.Adds s'.machine new

theorem Adds.trans {new new' : List Script.Value} (h : s.Adds s' new) (h' : s'.Adds s'' new') :
    s.Adds s'' (new' ++ new) :=
  ⟨h'.id.trans h.id, h'.isOpen.trans h.isOpen, h'.active.trans h.active, h.machine.trans h'.machine⟩

theorem Still.adds {new : List Script.Value} (h : s.Still s') (h' : s'.Adds s'' new) :
    s.Adds s'' new :=
  ⟨h'.id.trans h.id, h'.isOpen.trans h.isOpen, h'.active.trans h.active, h.machine.adds h'.machine⟩

/-- One value is put on the host's frame. -/
theorem Rests.pushed (h : s.Rests) (v : Script.Value) :
    s.Adds { s with machine := s.machine.pushOperand s.machine.current v } [v] := by
  obtain ⟨info, upvalue, operands, rest, hf, -⟩ := h
  exact ⟨rfl, rfl, rfl, Script.Machine.adds_pushOperand hf v⟩

theorem Rests.place (h : s.Rests) (out : Outbound) :
    s.Adds ((place s.machine.current out).run s).2 [s.valueOf out] := h.pushed _

theorem Rests.build (h : s.Rests) (pin : Handle) :
    s.Adds ((build s.machine.current pin).run s).2 [.native s.machine.natives.size] := by
  obtain ⟨info, upvalue, operands, rest, hf, -⟩ := h
  obtain ⟨-, made, -, -, -, -⟩ := s.machine.newHostFunction_eq
  have still : s.machine.Still s.machine.newHostFunction.2.2 := by
    unfold Script.Machine.newHostFunction Script.Machine.noteFinalizer
    dsimp only
    split <;> exact ⟨⟨rfl, rfl, rfl⟩, rfl, rfl⟩
  have pushed := Script.Machine.adds_pushOperand (still.frames.trans hf)
    s.machine.newHostFunction.2.1
  rw [still.current] at pushed
  rw [← made]
  exact ⟨rfl, rfl, rfl, still.adds pushed⟩

/-- The value on top is taken off the host's frame. -/
theorem Adds.takeCell {v : Script.Value} (h : s.Adds s' [v]) :
    s.Still ((takeCell s'.machine.current).run s').2 := by
  have dropped := h.machine.drop (show 1 = [v].length from rfl)
  refine still_toCell (steady_still s).gentle _ _ ?_
  exact ⟨h.id, h.isOpen, h.active, dropped⟩

/-- A value that is pushed in a session that rests. -/
theorem Rests.pushes (h : s.Rests) (out : Outbound) :
    (∃ (owner : Option CallableId) (s' : Session) (v : Script.Value),
        (push s.machine.current out).run.run s = (.ok owner, s') ∧ s.Adds s' [v])
      ∨ ∃ (f : Failure) (s' : Session),
        (push s.machine.current out).run.run s = (.error f, s') ∧ s.Still s' := by
  have still := still_repin (steady_still s).gentle out s (.refl s)
  obtain ⟨r, s₁, run⟩ : ∃ r s₁, (repin out).run.run s = (r, s₁) := ⟨_, _, rfl⟩
  rw [run] at still
  unfold push
  cases r with
  | error f => exact .inr ⟨f, s₁, try_bind_error run, still⟩
  | ok pinned =>
    refine .inl ?_
    rw [try_bind_ok run]
    have rests := h.still still
    rw [← still.machine.current]
    cases pinned with
    | some p => exact ⟨_, _, _, rfl, still.adds (rests.build p.1)⟩
    | none => exact ⟨_, _, _, rfl, still.adds (rests.place out)⟩

/-- A value is put on the host's frame, and a host function is made of a callable. -/
theorem moves_push (s₀ : Session) (t : Script.ThreadId) (out : Outbound) :
    Preserves s₀.Moves (push t out).run := by
  refine .tryBind (still_repin (gentle_moves s₀) out) fun pinned => ?_
  cases pinned with
  | some p => exact .tryBind (.lift fun s h => h.trans (Move.built s t p.1).moves) fun _ => .tryPure _
  | none =>
    refine .tryBind (.lift fun s h => h.trans ?_) fun _ => .tryPure _
    exact (Move.host (s.machine.alike_pushOperand t (s.valueOf out))).moves

theorem moves_takeCell (s₀ : Session) (t : Script.ThreadId) : Preserves s₀.Moves (takeCell t) :=
  .bind (fun s h => h.trans (Move.host (s.machine.alike_setOperands t _)).moves) fun v =>
    still_toCell (gentle_moves s₀) v

section

variable {I : Session → Prop} (hI : Gentle I) (rests : ∀ s, I s → s.Rests)

include hI rests

/-- A value that is read from a global is on the host's frame for a moment, with the tables on the
way. -/
theorem preserves_lookUp (path : String) : Preserves I (lookUp path).run := by
  intro s h
  obtain ⟨_, _, _, _, frames, active⟩ := rests s h
  have listens := Rests.listens ⟨_, _, _, _, frames, active⟩ active
  have awake : thread.run.run s = (.ok s.machine.current, s) := by rw [thread_run, active]; rfl
  cases parsed : Path.parse path with
  | error f =>
    rw [lookUp, try_bind_ok awake, try_get_bind, parsed]
    exact h
  | ok p =>
    cases room : (s.machine.reserve s.machine.current 4).1 with
    | false =>
      have refused : (reserve s.machine.current 4).run.run s
          = (.error (.runtime (.stackFull 4)), { s with
            machine := (s.machine.reserve s.machine.current 4).2 }) := by
        rw [reserve_run, room]
        rfl
      rw [lookUp, try_bind_ok awake, try_get_bind, parsed]
      change I ((reserve s.machine.current 4 >>= _ : Attempt Value).run.run s).2
      rw [try_bind_error refused]
      exact hI s _ h (.host (s.machine.still_reserve _ _) (s.machine.alike_reserve _ _))
    | true =>
      have reserved : (reserve s.machine.current 4).run.run s = (.ok (), s) := by
        rw [reserve_run, room, Script.Machine.reserve_of_room room]
        rfl
      rw [lookUp_walks active listens parsed reserved]
      have still := s.machine.still_walk p false
      have alike := s.machine.alike_walk p false
      cases walked : p.walk false s.machine with
      | mk r m =>
        rw [walked] at still alike
        have next := hI s { s with machine := m } h (.host still alike)
        cases r with
        | error fault => exact next
        | ok T => exact Preserves.tryBind (still_toCell hI _).lift (fun c => still_unpack hI c) _ next

/-- A reference that is held a second time is on the host's frame for a moment. -/
theorem preserves_reanchor (ref : Ref) : Preserves I (reanchor ref).run := by
  intro s h
  obtain ⟨_, _, _, _, -, active⟩ := rests s h
  have awake : thread.run.run s = (.ok s.machine.current, s) := by rw [thread_run, active]; rfl
  let J : Session → Prop := fun u => I u ∧ u.machine.current = s.machine.current
  have hJ : Gentle J := fun u u' hu calm =>
    ⟨hI u u' hu.1 calm, calm.still.machine.current.trans hu.2⟩
  rw [reanchor, try_bind_ok awake]
  refine (Preserves.tryBind (still_reserve hJ _ _) (fun _ => ?_) s ⟨h, rfl⟩).1
  rintro u ⟨hu, current⟩
  rw [show s.machine.current = u.machine.current from current.symm]
  have moved := moves_push u u.machine.current (.lent ref.cell) u (.refl u)
  obtain ⟨owner, u', v, run, pushed⟩ | ⟨f, u', run, still⟩ := (rests u hu).pushes (.lent ref.cell)
  · have taken := pushed.takeCell
    rw [pushed.machine.current] at taken
    rw [run] at moved
    have next := hJ u _ ⟨hu, current⟩ ⟨taken, moves_takeCell u _ u' moved⟩
    rw [try_bind_ok run, try_lift_bind]
    cases ((takeCell u.machine.current).run u').1 <;> exact next
  · rw [run] at moved
    rw [try_bind_error run]
    exact hJ u u' ⟨hu, current⟩ ⟨still, moved⟩

end

end Session

end ScriptBridge
