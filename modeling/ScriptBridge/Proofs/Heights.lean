import ScriptBridge.Proofs.HostFrames

/-!
# ScriptBridge.Proofs.Heights

How high the host's frame is.  Wherever host code runs, an operation of the host leaves all that was
on the frame of the active thread, and all below it: `Session.Balanced`.  What an operation has put
on top it takes off before it ends, whether it fails or not; an operation that is done in two halves
leaves just what the other half takes, and the other half goes down to where the first began.

Main fact:

* `Session.Rests.balanced` — all operations are balanced wherever host code runs.
-/

namespace ScriptBridge

open Script (Machine FrameInfo Frame ThreadId)

namespace Session

variable {s u : Session} {t : ThreadId} {new : List Script.Value}

/-! ## What lies on the host's frame -/

/-- Whether values have been put on the host's frame, and nothing else has been done to it. -/
def Above (s u : Session) : Prop := ∃ new, s.Adds u new

/-- Whether a call lies on the host's frame, with all that was there below it. -/
structure CallsOn (s u : Session) : Prop where
  isOpen : u.isOpen = s.isOpen
  active : u.active = s.active
  aside : s.machine.Aside u.machine
  frames : ∃ info, u.machine.frames = .mark info .fromHost :: s.machine.frames

theorem Rests.current (rests : s.Rests) (active : s.active = some t) : s.machine.current = t := by
  obtain ⟨_, _, _, _, -, current⟩ := rests
  exact Option.some.inj (current.symm.trans active)

/-- The host's frame of the active thread. -/
theorem Rests.frames (rests : s.Rests) (active : s.active = some t) :
    ∃ info upvalue operands rest, s.machine.frames = .host info upvalue operands :: rest
      ∧ s.machine.operandsOf t = operands ∧ s.height = operands.length := by
  obtain ⟨info, upvalue, operands, rest, frames, current⟩ := rests
  obtain rfl := Option.some.inj (current.symm.trans active)
  have own := Machine.operandsOf_current frames
  refine ⟨info, upvalue, operands, rest, frames, own, ?_⟩
  rw [height, active]
  exact congrArg List.length own

/-- What is on the host's frame when values have been put there. -/
theorem Adds.operandsOf (h : s.Adds u new) (rests : s.Rests) (active : s.active = some t) :
    u.machine.operandsOf t = new ++ s.machine.operandsOf t := by
  obtain ⟨info, upvalue, operands, rest, before, after⟩ := h.machine.frames
  have current := rests.current active
  rw [← current, Machine.operandsOf_current before, ← h.machine.current,
    Machine.operandsOf_current after]

theorem Still.height (h : s.Still u) : u.height = s.height := by
  have frames : ∀ t, u.machine.framesOf t = s.machine.framesOf t := fun t => by
    rw [Machine.framesOf, Machine.framesOf, h.machine.current, h.machine.frames, Machine.thread,
      Machine.thread, h.machine.threads]
  rw [Session.height, Session.height, h.active]
  cases s.active with
  | none => rfl
  | some t => exact congrArg List.length (by rw [Machine.operandsOf, Machine.operandsOf, frames])

/-- What was put on the host's frame is taken off again. -/
theorem Adds.takeOperands (h : s.Adds u new) (rests : s.Rests) (active : s.active = some t) :
    s.Still { u with machine := (u.machine.takeOperands t s.height).2 } := by
  have count : (u.machine.operandsOf t).length - s.height = new.length := by
    have own := h.operandsOf rests active
    have height : s.height = (s.machine.operandsOf t).length := by rw [Session.height, active]
    rw [own, height, List.length_append, Nat.add_sub_cancel]
  refine ⟨h.id, h.isOpen, h.active, ?_⟩
  have dropped := h.machine.drop count
  rwa [h.machine.current, rests.current active] at dropped

namespace Rests

variable (rests : s.Rests) (active : s.active = some t)

include rests active

/-! ## Values that come and go -/

/-- A value is put on the host's frame, or none. -/
theorem leads_push (out : Outbound) : Leads s.Still (push t out).run
    (Outcome (fun _ => s.Still) fun _ u => ∃ v, s.Adds u [v]) := by
  intro u still
  have current : u.machine.current = t := still.machine.current.trans (rests.current active)
  obtain ⟨owner, u', v, run, adds⟩ | ⟨f, u', run, still'⟩ := (rests.still still).pushes out
  · rw [current] at run
    rw [run]
    exact ⟨v, still.adds adds⟩
  · rw [current] at run
    rw [run]
    exact still.trans still'

/-- The value on top is taken off. -/
theorem leads_takeCell : Leads (fun u => ∃ v, s.Adds u [v]) (takeCell t) fun _ => s.Still := by
  rintro u ⟨v, adds⟩
  have taken := adds.takeCell
  rwa [adds.machine.current, rests.current active] at taken

theorem leads_dropAbove : Leads s.Above (dropAbove t s.height) fun _ => s.Still := by
  rintro u ⟨new, adds⟩
  exact adds.takeOperands rests active

theorem leads_collect : Leads s.Above (collect t s.height) fun _ => s.Still :=
  Leads.bind (Q := fun _ => s.Still) (fun _ ⟨_, adds⟩ => adds.takeOperands rests active) fun vs =>
    .of_preserves (still_toCells (steady_still s).gentle vs)

theorem leads_dropResults : Leads s.Above (dropResults s.height) fun _ => s.Still := by
  refine .get_bind fun u h => ?_
  obtain ⟨new, adds⟩ := h
  rw [adds.active, active]
  exact adds.takeOperands rests active

theorem leads_collectResults : Leads s.Above (collectResults s.height) fun _ => s.Still := by
  have collected : Leads s.Above (do
        let cells ← collect t s.height
        modify fun s => { s with ledger := s.ledger.acquire 1 }
        return cells)
      fun _ => s.Still :=
    .bind (rests.leads_collect active) fun _ => Leads.bind (Q := fun _ => s.Still)
      (.modify fun _ h => h.trans (.of_same rfl rfl rfl rfl)) fun _ => .pure _ fun _ h => h
  refine .get_bind fun u h => ?_
  obtain ⟨new, adds⟩ := h
  rw [adds.active, active]
  exact collected u ⟨new, adds⟩

theorem leads_takeError : Leads s.Above (takeError s.height) fun _ => s.Still := by
  refine .get_bind fun u h => ?_
  obtain ⟨new, adds⟩ := h
  rw [adds.active, active]
  exact still_scriptFailure (steady_still s).gentle _ _ (adds.takeOperands rests active)

/-! ## Scripts that are run -/

/-- A script that is read is put on the host's frame, or the text of an error. -/
theorem load (source chunk : Script.Bytes) :
    ∃ loaded x m, s.machine.load t source chunk = (loaded, m) ∧ s.machine.Adds m [x]
      ∧ (loaded = false → ∃ text, x = .str text) := by
  obtain ⟨info, upvalue, operands, rest, frames, -⟩ := rests.frames active
  obtain rfl := rests.current active
  have failed : ∀ text, ∃ loaded x m, (false, s.machine.pushOperand s.machine.current (.str text))
      = (loaded, m) ∧ s.machine.Adds m [x] ∧ (loaded = false → ∃ text, x = .str text) := fun text =>
    ⟨false, .str text, _, rfl, Machine.adds_pushOperand frames _, fun _ => ⟨text, rfl⟩⟩
  unfold Machine.load
  dsimp only
  split
  · exact failed _
  · split
    · exact failed _
    · rename_i f _
      let made := (s.machine.newBox (.table s.machine.globals)).2.newClosure
        ⟨f.compile (Script.chunkLabel chunk) false,
          #[(s.machine.newBox (.table s.machine.globals)).1]⟩
      have still : s.machine.Still made.2 := ⟨⟨rfl, rfl, rfl⟩, rfl, rfl⟩
      exact ⟨true, .closure made.1, _, rfl,
        still.adds (Machine.adds_pushOperand (still.frames.trans frames) _), fun eq => by cases eq⟩

omit rests active in
/-- A call takes the function and its arguments off the host's frame. -/
theorem leads_startCall (count : Nat) :
    Leads (fun u => ∃ args f, args.length = count ∧ s.Adds u (args ++ [f])) (startCall count)
      fun _ => s.CallsOn := by
  rintro u ⟨args, f, rfl, adds⟩
  obtain ⟨info, upvalue, operands, rest, before, after⟩ := adds.machine.frames
  rw [List.append_assoc] at after
  have run : ((startCall args.length).run u).2
      = { u with machine := u.machine.startCall args.length } := rfl
  rw [run, Machine.startCall_eq after]
  exact ⟨adds.isOpen, adds.active, ⟨adds.machine.current, adds.machine.closing, adds.machine.threads⟩,
    _, by rw [before]; rfl⟩

/-- A snippet that is read is called; the error of one that is not is taken off. -/
theorem leads_beginExecute (source : String) : Leads s.Still (beginExecute source).run
    (Outcome (fun _ => s.Still) fun _ => s.CallsOn) := by
  intro u still
  have rests' := rests.still still
  have active' : u.active = some t := still.active.trans active
  have awake : thread.run.run u = (.ok t, u) := by rw [thread_run, active']; rfl
  obtain ⟨loaded, x, m, load, adds, -⟩ := rests'.load active' source.toUTF8 u.chunk
  have run : (withMachine fun m => m.load t source.toUTF8 u.chunk : Op Bool).run u
      = (loaded, { u with machine := m }) :=
    Prod.ext (congrArg Prod.fst load :) (congrArg (fun r => { u with machine := r.2 }) load :)
  rw [beginExecute, try_bind_ok awake, try_get_bind, try_get_bind, try_lift_bind, run]
  have above : s.Adds { u with machine := m } [x] := still.adds ⟨rfl, rfl, rfl, adds⟩
  cases loaded with
  | true => exact leads_startCall 0 _ ⟨[], x, rfl, above⟩
  | false =>
    have fails : Leads s.Above (do throw (← takeError s.height) : Attempt Unit).run
        (Outcome (fun _ => s.Still) fun _ => s.CallsOn) :=
      .tryBind (.lift (rests.leads_takeError active)) fun _ => .throw _ fun _ h => h
    rw [show u.height = s.height from still.height]
    exact fails _ ⟨[x], above⟩

/-- The function of a call is put on the host's frame, or nothing is. -/
theorem leads_beginCall (f : CellId) (count : Nat) : Leads s.Still (beginCall f count).run
    (Outcome (fun _ => s.Still) fun r u => r.1 = t ∧ s.Adds u [r.2]) := by
  intro u still
  have awake : thread.run.run u = (.ok t, u) := by rw [thread_run, still.active, active]; rfl
  rw [beginCall, try_bind_ok awake]
  split
  · exact Leads.throw _ (fun _ still => still) u still
  refine Leads.tryBind (.attempt_of_preserves (still_reserve (steady_still s).gentle _ _))
    (fun _ => ?_) u still
  refine .tryGet fun u still => ⟨rfl, still.adds ?_⟩
  have placed := (rests.still still).place (.lent f)
  rwa [still.machine.current, rests.current active] at placed

/-! ## Globals -/

/-- A walk leaves the table that it comes to on the host's frame, or nothing. -/
theorem leads_walk (p : Path) (create : Bool) : Leads s.Still (walk t s.height p create).run
    (Outcome (fun _ => s.Still) fun _ u => ∃ T, s.Adds u [.table T]) := by
  intro u still
  have rests' := rests.still still
  have active' : u.active = some t := still.active.trans active
  have listens := rests'.listens active'
  have onward := u.machine.still_walk p create
  cases walked : p.walk create u.machine with
  | mk r m =>
    rw [walked] at onward
    have next : s.Still { u with machine := m } := still.trans ⟨rfl, rfl, rfl, onward⟩
    cases r with
    | ok T =>
      rw [walk_ok listens s.height walked]
      have pushed := (rests.still next).pushed (.table T)
      rw [next.machine.current, rests.current active] at pushed
      exact ⟨T, next.adds pushed⟩
    | error fault =>
      obtain ⟨-, -, operands, -, -, own, height⟩ := rests'.frames active'
      rw [walk_error listens (by rw [own, ← height, still.height]) walked]
      exact next

/-- The table and the key of an assignment are put on the host's frame, or nothing is. -/
theorem leads_beginAssign (path : String) (v : Value) (create : Bool) :
    Leads s.Still (beginAssign path v create).run (Outcome (fun _ => s.Still)
      fun r u => r.1 = t ∧ ∃ key table, s.Adds u [key, table]) := by
  intro u still
  let deeper : Session → Prop := fun u => ∃ key table, s.Adds u [key, table]
  have steady := steady_still s
  have awake : thread.run.run u = (.ok t, u) := by rw [thread_run, still.active, active]; rfl
  have at' : ∀ p, Leads s.Still (beginAssignAt t p create).run
      (Outcome (fun _ => s.Still) fun _ => deeper) := fun p => by
    refine .tryGet fun u still => ?_
    rw [still.height]
    refine Leads.tryBind (.attempt_of_preserves (still_reserve steady.gentle _ _)) (fun _ =>
      .tryBind (rests.leads_walk active p create) fun _ => .lift ?_) u still
    rintro u ⟨T, adds⟩
    obtain ⟨info, upvalue, operands, rest, -, after⟩ := adds.machine.frames
    have pushed := Machine.adds_pushOperand after (.str p.last.toUTF8)
    rw [adds.machine.current, rests.current active] at pushed
    have next : u.Adds { u with machine := u.machine.pushOperand t (.str p.last.toUTF8) }
        [.str p.last.toUTF8] := ⟨rfl, rfl, rfl, pushed⟩
    exact ⟨_, _, adds.trans next⟩
  rw [beginAssign, try_bind_ok awake]
  refine Leads.tryBind (E := fun _ => s.Still) (Q := fun _ => s.Still) ?_ (fun p => ?_) u still
  · cases Path.parse path
    · exact .throw _ fun _ h => h
    · exact .tryPure _ fun _ h => h
  refine .tryBind (.attempt_of_preserves (still_pack steady.gentle v)) fun out => ?_
  refine .tryBind (Q := fun _ => deeper) (.tryCatch (at' p) fun f => ?_) fun _ =>
    .tryPure _ fun _ h => ⟨rfl, h⟩
  exact .tryBind (Q := fun _ => s.Still) (.lift (.of_preserves (still_abandon steady.gentle _))) fun _ =>
    .throw _ fun _ h => h

/-- The key and the value of an assignment go away, and then the table. -/
theorem leads_finishAssign : Leads (fun u => ∃ v key table, s.Adds u [v, key, table])
    (finishAssign t) fun _ => s.Above := by
  rintro u ⟨v, key, table, adds⟩
  have own := adds.operandsOf rests active
  obtain ⟨info, upvalue, operands, rest, before, after⟩ := adds.machine.frames
  have current : u.machine.current = t := adds.machine.current.trans (rests.current active)
  rw [finishAssign, modifyMachine_run, Machine.setField, own]
  cases table with
  | table id =>
    refine ⟨[.table id], adds.id, adds.isOpen, adds.active, ?_⟩
    subst current
    have left : s.machine.operandsOf u.machine.current = operands := by
      rw [adds.machine.current]
      exact Machine.operandsOf_current before
    have set := Machine.setOperands_current after (.table id :: operands)
    rw [show (v :: key :: [Script.Value.table id] ++ s.machine.operandsOf u.machine.current)
      = v :: key :: .table id :: operands by rw [left]; rfl]
    dsimp only [List.getElem?_cons_zero]
    rw [set]
    exact ⟨⟨adds.machine.current, adds.machine.closing, adds.machine.threads⟩, adds.machine.mode,
      info, upvalue, operands, rest, before, rfl⟩
  | _ => exact ⟨_, adds⟩

/-- A host function that fails is left with the text of its failure, and nothing else, on its frame. -/
theorem raiseFailure (previous : Option ThreadId) (f : Failure) :
    ∃ m, s.machine.Aside m ∧ m.operandsOf t = [.str f.message.toUTF8]
      ∧ m.frames.tail = s.machine.frames.tail
      ∧ ((do leave previous; raiseFailure f : Op Unit).run s).2.machine = m.failFromHost := by
  obtain ⟨info, upvalue, operands, rest, frames, -⟩ := rests.frames active
  obtain rfl := rests.current active
  refine ⟨s.machine.setOperands s.machine.current [.str f.message.toUTF8], ?_⟩
  have left : ∀ u : Session, u.machine = s.machine → ((Session.raiseFailure f).run u).2.machine
      = (s.machine.setOperands s.machine.current [.str f.message.toUTF8]).failFromHost :=
    fun u same => same ▸ rfl
  refine ⟨?_, ?_, ?_, left _ ?_⟩
  · rw [Machine.setOperands_current frames]
    exact ⟨rfl, rfl, rfl⟩
  · rw [Machine.setOperands_current frames]
    exact Machine.operandsOf_current rfl
  · rw [Machine.setOperands_current frames, frames]
    rfl
  · change (ite _ _ _ : Session).machine = s.machine
    split <;> rfl

end Rests

/-! ## All operations -/

/-- What the operations of the host do to the host's frame of the active thread, from where a session
is now.  `Still` says that the frame, all that is on it, and all below it are as they were. -/
structure Balanced (s : Session) (t : ThreadId) : Prop where
  lookUp : ∀ path, Preserves s.Still (lookUp path).run
  reanchor : ∀ ref, Preserves s.Still (reanchor ref).run
  push : ∀ out, Leads s.Still (push t out).run
    (Outcome (fun _ => s.Still) fun _ u => ∃ v, s.Adds u [v])
  takeCell : Leads (fun u => ∃ v, s.Adds u [v]) (takeCell t) fun _ => s.Still
  collect : Leads s.Above (collect t s.height) fun _ => s.Still
  /-- A script that cannot be read leaves its error, and nothing else, above what was there. -/
  load : ∀ source chunk m, s.machine.load t source chunk = (false, m) →
    ∃ text, s.machine.Adds m [.str text]
  beginExecute : ∀ source, Leads s.Still (beginExecute source).run
    (Outcome (fun _ => s.Still) fun _ => s.CallsOn)
  dropResults : Leads s.Above (dropResults s.height) fun _ => s.Still
  takeError : Leads s.Above (takeError s.height) fun _ => s.Still
  beginCall : ∀ f count, Leads s.Still (beginCall f count).run
    (Outcome (fun _ => s.Still) fun r u => r.1 = t ∧ s.Adds u [r.2])
  startCall : ∀ count, Leads (fun u => ∃ args f, args.length = count ∧ s.Adds u (args ++ [f]))
    (startCall count) fun _ => s.CallsOn
  collectResults : Leads s.Above (collectResults s.height) fun _ => s.Still
  beginAssign : ∀ path v create, Leads s.Still (beginAssign path v create).run
    (Outcome (fun _ => s.Still) fun r u => r.1 = t ∧ ∃ key table, s.Adds u [key, table])
  finishAssign : Leads (fun u => ∃ v key table, s.Adds u [v, key, table])
    (do finishAssign t; dropAbove t s.height) fun _ => s.Still
  dropAbove : Leads s.Above (dropAbove t s.height) fun _ => s.Still
  /-- A host function that fails is left with one message on its frame. -/
  raiseFailure : ∀ previous f, ∃ m, s.machine.Aside m ∧ m.operandsOf t = [.str f.message.toUTF8]
    ∧ m.frames.tail = s.machine.frames.tail
    ∧ ((do leave previous; raiseFailure f : Op Unit).run s).2.machine = m.failFromHost

/-- All operations are balanced wherever host code runs. -/
theorem Rests.balanced (rests : s.Rests) (active : s.active = some t) : s.Balanced t where
  lookUp := preserves_lookUp (steady_still s).gentle fun _ still => rests.still still
  reanchor := preserves_reanchor (steady_still s).gentle fun _ still => rests.still still
  push := rests.leads_push active
  takeCell := rests.leads_takeCell active
  collect := rests.leads_collect active
  load := fun source chunk m failed => by
    obtain ⟨loaded, x, m', load, adds, text⟩ := rests.load active source chunk
    cases failed.symm.trans load
    obtain ⟨text, rfl⟩ := text rfl
    exact ⟨_, adds⟩
  beginExecute := rests.leads_beginExecute active
  dropResults := rests.leads_dropResults active
  takeError := rests.leads_takeError active
  beginCall := rests.leads_beginCall active
  startCall := leads_startCall
  collectResults := rests.leads_collectResults active
  beginAssign := rests.leads_beginAssign active
  finishAssign := (rests.leads_finishAssign active).bind fun _ => rests.leads_dropAbove active
  dropAbove := rests.leads_dropAbove active
  raiseFailure := rests.raiseFailure active

end Session

end ScriptBridge
