import ScriptBridge.Proofs.Arrivals
import ScriptBridge.Proofs.Operands
import ScriptBridge.Proofs.Tables

/-!
# ScriptBridge.Proofs.Climbing

What a walk on the host's frame comes to.  `Path.walkFrom` goes from table to table, and `Path.climb`
does the same with the values that lie on the host's frame, where each table takes the place of the
one before.

Main facts:

* `Path.climb_eq` — both come to the same table, and stop for the same reason;
* `Session.walk_ok`, `Session.walk_error` — where a walk ends, the table that it comes to is on the
  host's frame; where it stops, nothing of it is left there.
-/

namespace ScriptBridge

/-- Walks from a table through the remaining segments of a path; `done` are those walked. -/
def Path.walkFrom (p : Path) (create : Bool) :
    (done remaining : List String) → Script.TableId → Script.Machine →
      Except PathFault Script.TableId × Script.Machine
  | _, [], table, m => (.ok table, m)
  | done, segment :: remaining, table, m =>
    let done := done ++ [segment]
    let key : Script.Value := .str segment.toUTF8
    match m.rawGet table key with
    | .nil =>
      if create then
        let (next, m) := m.newTable .empty
        p.walkFrom create done remaining next (m.rawSet table key (.table next))
      else (.error (.undefined p.text (stem done)), m)
    | v =>
      match m.tableOf? v with
      | some next => p.walkFrom create done remaining next m
      | none => (.error (.notTable p.text (stem done)), m)

/-- The table that holds the last segment of a path. -/
def Path.walk (p : Path) (create : Bool) (m : Script.Machine) :
    Except PathFault Script.TableId × Script.Machine :=
  p.walkFrom create [] p.parents m.globals m

namespace Script.Machine

variable {m : Machine} {t : ThreadId}

/-! ## Operands and tables -/

/-- Tables that are made or changed have nothing to do with the frames. -/
theorem setOperands_newTable (m : Machine) (t : ThreadId) (vs : List Value) (table : Table) :
    (m.setOperands t vs).newTable table
      = ((m.newTable table).1, (m.newTable table).2.setOperands t vs) := by
  refine Prod.ext (congrArg Array.size (tables_setOperands m t vs)) ?_
  have frames : (m.newTable table).2.framesOf t = m.framesOf t := rfl
  change ({ m.setOperands t vs with tables := (m.setOperands t vs).tables.push _ } : Machine) = _
  rw [tables_setOperands, setOperands, setOperands, frames]
  split
  · unfold setFramesOf
    change _ = ite (t = m.current) _ _
    split <;> rfl
  · rfl

theorem setOperands_rawSet (m : Machine) (t : ThreadId) (vs : List Value) (id : TableId) (k v : Value) :
    (m.setOperands t vs).rawSet id k v = (m.rawSet id k v).setOperands t vs := by
  have frames : (m.rawSet id k v).framesOf t = m.framesOf t := rfl
  change ({ m.setOperands t vs with tables := (m.setOperands t vs).tables.modify id _ } : Machine) = _
  rw [tables_setOperands, setOperands, setOperands, frames]
  split
  · unfold setFramesOf
    change _ = ite (t = m.current) _ _
    split <;> rfl
  · rfl

@[simp] theorem rawGet_setOperands (m : Machine) (t : ThreadId) (vs : List Value) (id : TableId)
    (k : Value) : (m.setOperands t vs).rawGet id k = m.rawGet id k := by
  rw [rawGet, rawGet, table, table, tables_setOperands]

/-- A value that is put on the host's frame is on top. -/
theorem pushOperand_setOperands (listens : m.Listens t) (vs : List Value) (v : Value) :
    (m.setOperands t vs).pushOperand t v = m.setOperands t (v :: vs) := by
  rw [pushOperand, (listens_setOperands listens vs).2, setOperands_setOperands]

/-- A field is read of the table below its key. -/
theorem getField_setOperands (listens : m.Listens t) (key : Value) (id : TableId) (vs : List Value) :
    (m.setOperands t (key :: .table id :: vs)).getField t
      = m.setOperands t (m.rawGet id key :: .table id :: vs) := by
  rw [getField, (listens_setOperands listens _).2]
  dsimp only
  rw [setOperands_setOperands, rawGet_setOperands]

/-- A field is set in the table below its key. -/
theorem setField_setOperands (listens : m.Listens t) (v key : Value) {id : TableId} {vs : List Value}
    (between : Nat) (there : vs[between]? = some (.table id)) :
    (m.setOperands t (v :: key :: vs)).setField t between
      = (m.rawSet id key v).setOperands t vs := by
  rw [setField, (listens_setOperands listens _).2]
  dsimp only
  rw [there]
  dsimp only
  rw [setOperands_setOperands, setOperands_rawSet]

theorem dropOperand_setOperands (listens : m.Listens t) (v : Value) (vs : List Value) :
    (m.setOperands t (v :: vs)).dropOperand t = m.setOperands t vs := by
  rw [dropOperand, (listens_setOperands listens _).2, setOperands_setOperands]
  rfl

theorem dropBelow_setOperands (listens : m.Listens t) (v u : Value) (vs : List Value) :
    (m.setOperands t (v :: u :: vs)).dropBelow t = m.setOperands t (v :: vs) := by
  rw [dropBelow, (listens_setOperands listens _).2]
  dsimp only
  rw [setOperands_setOperands]

/-- A field of a table that is put on the host's frame for it. -/
theorem getField_pushOperand (listens : m.Listens t) (id : TableId) (key : Value) :
    ((m.pushOperand t (.table id)).pushOperand t key).getField t
      = m.setOperands t (m.rawGet id key :: .table id :: m.operandsOf t) := by
  have pushed : m.pushOperand t (.table id) = m.setOperands t (.table id :: m.operandsOf t) := rfl
  rw [pushed, pushOperand_setOperands listens, getField_setOperands listens]

/-- Which functions are host functions has nothing to do with the frames. -/
@[simp] theorem isHostClosure_setOperands (m : Machine) (t : ThreadId) (vs : List Value) (v : Value) :
    (m.setOperands t vs).isHostClosure v = m.isHostClosure v := by
  have metatable : ∀ id, (m.setOperands t vs).metatable? (.userdata id) = m.metatable? (.userdata id) :=
    fun id => by rw [metatable?, metatable?, userdata_setOperands]
  have holds : ∀ u, (m.setOperands t vs).holdsHandle u = m.holdsHandle u := by
    intro u
    cases u with
    | userdata id => rw [holdsHandle, holdsHandle, metatable, handleMetatable_setOperands]
    | _ => rfl
  cases v with
  | native id => rw [isHostClosure, isHostClosure, native, native, natives_setOperands, holds]
  | _ => rfl

end Script.Machine

/-! ## Walks -/

open Script (TableId Machine)

variable {p : Path} {create : Bool} {m : Machine} {t : Script.ThreadId}

/-- A walk on the host's frame comes to the table that it comes to without it; the others that it was
at have gone.  It stops where it stops without it, and leaves what lies above all that was there. -/
theorem Path.climb_eq (p : Path) (create : Bool) {m : Machine} (listens : m.Listens t)
    (done remaining : List String) (T : TableId) (operands : List Script.Value) :
    ∃ left, p.climb create t done remaining (m.setOperands t (.table T :: operands))
        = ((p.walkFrom create done remaining T m).1.map fun _ => (),
          (p.walkFrom create done remaining T m).2.setOperands t (left ++ operands))
      ∧ ∀ T', (p.walkFrom create done remaining T m).1 = .ok T' → left = [.table T'] := by
  induction remaining generalizing done T m with
  | nil => exact ⟨[.table T], rfl, fun T' same => by cases same; rfl⟩
  | cons segment remaining ih =>
    have looked : ((m.setOperands t (.table T :: operands)).pushOperand t
        (.str segment.toUTF8)).getField t
          = m.setOperands t (m.rawGet T (.str segment.toUTF8) :: .table T :: operands) := by
      rw [Machine.pushOperand_setOperands listens, Machine.getField_setOperands listens]
    rw [Path.climb, Path.walkFrom]
    dsimp only
    rw [looked, (Machine.listens_setOperands listens _).2]
    cases found : m.rawGet T (.str segment.toUTF8) with
    | nil =>
      cases create with
      | false => exact ⟨[.nil, .table T], rfl, fun T' same => by cases same⟩
      | true =>
        dsimp only
        rw [if_pos rfl, if_pos rfl, Machine.dropOperand_setOperands listens, Machine.setOperands_newTable]
        generalize made : m.newTable .empty = new
        have hears : new.2.Listens t := made ▸ listens
        dsimp only
        rw [Machine.pushOperand_setOperands hears, Machine.pushOperand_setOperands hears,
          Machine.pushOperand_setOperands hears,
          Machine.setField_setOperands hears _ _ 1 (show _ = some (Script.Value.table T) from rfl)]
        have hears' : (new.2.rawSet T (.str segment.toUTF8) (.table new.1)).Listens t := hears
        rw [Machine.dropBelow_setOperands hears']
        exact ih hears' _ new.1
    | table next =>
      have same : (m.setOperands t (.table next :: .table T :: operands)).tableOf? (.table next)
          = m.tableOf? (.table next) := by
        rw [Machine.tableOf?, Machine.tableOf?, Machine.tables_setOperands]
      simp only [List.head?_cons, Option.bind_some, same]
      cases there : m.tableOf? (.table next) with
      | none => exact ⟨[.table next, .table T], rfl, fun T' same => by cases same⟩
      | some id =>
        obtain ⟨eq, -⟩ := Machine.tableOf?_eq_some.mp there
        obtain rfl := Script.Value.table.inj eq
        dsimp only
        rw [if_pos Option.isSome_some, Machine.dropBelow_setOperands listens]
        exact ih listens _ next
    | _ => exact ⟨[_, .table T], rfl, fun T' same => by cases same⟩

/-- A walk works on tables only. -/
theorem Path.walkFrom_aside (p : Path) (create : Bool) (done remaining : List String) (table : TableId)
    (m : Machine) : (p.walkFrom create done remaining table m).2
      = { m with tables := (p.walkFrom create done remaining table m).2.tables } := by
  induction remaining generalizing done table m with
  | nil => rfl
  | cons segment rest ih =>
    unfold walkFrom
    dsimp only
    split
    · cases create
      · rfl
      · exact ih _ _ _
    · split
      · exact ih _ _ _
      · rfl

/-- A walk leaves the host's frame alone. -/
theorem Path.listens_walk (p : Path) (create : Bool) (listens : m.Listens t) :
    (p.walk create m).2.Listens t ∧ (p.walk create m).2.operandsOf t = m.operandsOf t := by
  have aside := p.walkFrom_aside create [] p.parents m.globals m
  rw [← Path.walk] at aside
  rw [aside]
  exact ⟨listens, rfl⟩

namespace Session

variable {s : Session}

/-- What is dropped above what was there before is gone. -/
theorem dropAbove_setOperands {u : Session} (listens : u.machine.Listens t)
    (left operands : List Script.Value) :
    (dropAbove t operands.length).run { u with
        machine := u.machine.setOperands t (left ++ operands) }
      = ((), { u with machine := u.machine.setOperands t operands }) := by
  have dropped : (dropAbove t operands.length).run { u with
        machine := u.machine.setOperands t (left ++ operands) }
      = ((), { u with machine := ((u.machine.setOperands t (left ++ operands)).takeOperands t
        operands.length).2 }) := rfl
  rw [dropped, Machine.takeOperands]
  dsimp only
  rw [(Machine.listens_setOperands listens _).2, Machine.setOperands_setOperands, List.length_append,
    Nat.add_sub_cancel, List.drop_left]

@[simp] theorem modifyMachine_run (f : Machine → Machine) (s : Session) :
    (modifyMachine f).run s = ((), { s with machine := f s.machine }) := rfl

theorem walk_of_climb {base : Nat} {r : Except PathFault Unit} {m : Machine}
    (climbed : p.climb create t [] p.parents (s.machine.pushOperand t (.table s.machine.globals))
      = (r, m)) :
    (walk t base p create).run.run s = (match r with
      | .ok () => (pure () : Attempt Unit)
      | .error fault => do
        dropAbove t base
        throw (Failure.invalidPath fault)).run.run { s with machine := m } := by
  have look : (withMachine fun m => p.climb create t [] p.parents
      (m.pushOperand t (.table m.globals)) : Op (Except PathFault Unit)).run s
    = (r, { s with machine := m }) := by
    exact Prod.ext (congrArg Prod.fst climbed :) (congrArg (fun r => { s with machine := r.2 }) climbed :)
  rewrite [walk, try_lift_bind, look]
  cases r <;> rfl

/-- Where a walk ends, the table that it comes to is on the host's frame. -/
theorem walk_ok (listens : s.machine.Listens t) {T : TableId} {m : Machine} (base : Nat)
    (walked : p.walk create s.machine = (.ok T, m)) :
    (walk t base p create).run.run s = (.ok (), { s with machine := m.pushOperand t (.table T) }) := by
  have kept := p.listens_walk create listens
  obtain ⟨left, climbed, only⟩ := p.climb_eq create listens [] p.parents s.machine.globals
    (s.machine.operandsOf t)
  change _ = ((p.walk create s.machine).1.map _, (p.walk create s.machine).2.setOperands t _) at climbed
  rw [walked] at climbed kept
  obtain rfl : left = [.table T] := only T (congrArg Prod.fst walked)
  rw [walk_of_climb climbed, Machine.pushOperand, kept.2]
  rfl

/-- Where a walk stops, nothing of it is left on the host's frame. -/
theorem walk_error (listens : s.machine.Listens t) {fault : PathFault} {m : Machine} {base : Nat}
    (all : base = (s.machine.operandsOf t).length)
    (walked : p.walk create s.machine = (.error fault, m)) :
    (walk t base p create).run.run s = (.error (.invalidPath fault), { s with machine := m }) := by
  have kept := p.listens_walk create listens
  obtain ⟨left, climbed, -⟩ := p.climb_eq create listens [] p.parents s.machine.globals
    (s.machine.operandsOf t)
  change _ = ((p.walk create s.machine).1.map _, (p.walk create s.machine).2.setOperands t _) at climbed
  rw [walked] at climbed kept
  rw [walk_of_climb climbed]
  change ((liftM (dropAbove t base) : Attempt Unit) >>= fun _ => throw (.invalidPath fault)).run.run
    { s with machine := m.setOperands t (left ++ s.machine.operandsOf t) } = _
  rw [try_lift_bind, all, dropAbove_setOperands (u := { s with machine := m }) kept.1, ← kept.2,
    Machine.setOperands_operandsOf]
  rfl

/-! ## Assigning globals -/

/-- How an assignment begins on the host's frame. -/
theorem beginAssignAt_run (s : Session) (t : Script.ThreadId) (p : Path) (create : Bool) :
    (beginAssignAt t p create).run.run s = (do
      reserve t 5
      walk t s.height p create
      modifyMachine fun m => m.pushOperand t (.str p.last.toUTF8) : Attempt Unit).run.run s := by
  rw [beginAssignAt, try_get_bind]

/-- How an assignment ends: the value gets under the key, and nothing of it is left on the host's
frame. -/
theorem finishAssign_run {u : Session} (listens : u.machine.Listens t) {v key : Script.Value}
    {T : TableId} {old : List Script.Value}
    (on : u.machine.operandsOf t = v :: key :: .table T :: old) :
    ((do finishAssign t; dropAbove t old.length : Op Unit).run u).2
      = { u with machine := (u.machine.rawSet T key v).setOperands t old } := by
  have set : u.machine.setField t 0 = (u.machine.rawSet T key v).setOperands t (.table T :: old) := by
    have written := Machine.setField_setOperands listens v key 0
      (show (Script.Value.table T :: old)[0]? = _ from rfl)
    rwa [← on, Machine.setOperands_operandsOf] at written
  have dropped := dropAbove_setOperands (u := { u with machine := u.machine.rawSet T key v }) listens
    [.table T] old
  rw [stateM_run_bind, finishAssign, modifyMachine_run]
  dsimp only
  rw [set]
  exact congrArg Prod.snd dropped

/-! ## Reading globals -/

/-- A cell that is made for a value depends on the runtime only as far as it tells host functions. -/
theorem toCell_withMachine (s : Session) {m m' : Machine} {x : Script.Value}
    (same : m'.isHostClosure x = m.isHostClosure x) :
    (toCell x).run { s with machine := m' }
      = (((toCell x).run { s with machine := m }).1,
        { ((toCell x).run { s with machine := m }).2 with machine := m' }) := by
  cases x with
  | native f =>
    have made : ∀ m : Machine, (toCell (.native f)).run { s with machine := m }
        = (some s.nextCell, stored { s with machine := m, anchors := (s.anchors.take (.native f)).2 }
          (.function s.anchors.next (m.isHostClosure (.native f)))) := fun _ => rfl
    rw [made, made, same]
    rfl
  | _ => rfl

@[simp] theorem machine_toCell (x : Script.Value) (s : Session) :
    ((toCell x).run s).2.machine = s.machine := by
  cases x <;> rfl

/-- A value on top of the host's frame is taken from there as a cell. -/
theorem takeCell_setOperands (s : Session) (listens : m.Listens t) (x : Script.Value)
    (vs : List Script.Value) : (takeCell t).run { s with machine := m.setOperands t (x :: vs) }
      = (toCell x).run { s with machine := m.setOperands t vs } := by
  have look : (takeCell t).run { s with machine := m.setOperands t (x :: vs) }
      = (toCell (((m.setOperands t (x :: vs)).operandsOf t).headD .nil)).run
        { s with machine := (m.setOperands t (x :: vs)).dropOperand t } := rfl
  rw [look, (Machine.listens_setOperands listens _).2, Machine.dropOperand_setOperands listens]
  rfl

/-- A field that was read is taken from above its table. -/
theorem takeCell_getField (s : Session) (listens : m.Listens t) (T : TableId) (key : Script.Value) :
    (takeCell t).run { s with machine := ((m.pushOperand t (.table T)).pushOperand t key).getField t }
      = (((toCell (m.rawGet T key)).run { s with machine := m }).1,
        { ((toCell (m.rawGet T key)).run { s with machine := m }).2 with
          machine := m.setOperands t (.table T :: m.operandsOf t) }) := by
  rw [Machine.getField_pushOperand listens, takeCell_setOperands s listens,
    toCell_withMachine s (Machine.isHostClosure_setOperands m t _ _)]

/-- What looking a global up comes to, once its path is read and there is room. -/
theorem lookUp_walks {path : String} (active : s.active = some t) (listens : s.machine.Listens t)
    (parsed : Path.parse path = .ok p) (room : (reserve t 4).run.run s = (.ok (), s)) :
    (lookUp path).run.run s = match p.walk false s.machine with
      | (.ok T, m) => ((toCell (m.rawGet T (.str p.last.toUTF8)) : Attempt _) >>= unpack).run.run
        { s with machine := m }
      | (.error fault, m) => (.error (.invalidPath fault), { s with machine := m }) := by
  have awake : thread.run.run s = (.ok t, s) := by rw [thread_run, active]; rfl
  have read : (MonadExcept.ofExcept (Path.parse path) : Attempt Path).run.run s = (.ok p, s) := by
    rw [parsed]
    rfl
  have all : s.height = (s.machine.operandsOf t).length := by rw [height, active]
  rw [lookUp, try_bind_ok awake, try_get_bind, try_bind_ok read, try_bind_ok room]
  have kept := p.listens_walk false listens
  cases walked : p.walk false s.machine with
  | mk r m =>
    rw [walked] at kept
    cases r with
    | error fault => rw [try_bind_error (walk_error listens all walked)]
    | ok T =>
      obtain ⟨hears, same⟩ := kept
      rw [try_bind_ok (walk_ok listens _ walked), try_lift_bind, try_lift_bind, try_lift_bind,
        modifyMachine_run, takeCell_getField s hears]
      dsimp only
      rw [try_lift_bind]
      have still := machine_toCell (m.rawGet T (.str p.last.toUTF8)) { s with machine := m }
      generalize (toCell (m.rawGet T (.str p.last.toUTF8))).run { s with machine := m } = r at still ⊢
      obtain ⟨c, u⟩ := r
      obtain rfl : u.machine = m := still
      have dropped := dropAbove_setOperands hears [.table T] (u.machine.operandsOf t)
      rw [all, ← same]
      rw [List.singleton_append] at dropped
      rw [dropped, Machine.setOperands_operandsOf]

end Session

end ScriptBridge
