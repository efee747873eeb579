import ScriptBridge.Script.Machine

/-!
# ScriptBridge.Script.Collector

Collections.  Everything that can be reached from the roots is kept; objects with a finalizer
that cannot be reached become due, the latest marked first, and are kept until then with all
they refer to.  A weak table does not keep its keys, its values, or both: entries are taken out
when what they refer to is not kept.  An entry under a weak key keeps its value only as long as
the key is kept by something else.

A collection happens when a script asks for it, or comes upon a script or the host at any time.
-/

namespace ScriptBridge.Script

open scoped CoreInstances

/-- An object that references lead to. -/
inductive Node where
  | table (id : TableId)
  | closure (id : ClosureId)
  | native (id : NativeId)
  | userdata (id : UserdataId)
  | thread (id : ThreadId)
  | box (id : BoxId)
  deriving DecidableEq

/-- The object a value refers to; strings, numbers and the like are no objects. -/
def Value.node? : Value → Option Node
  | .table id => some (.table id)
  | .closure id => some (.closure id)
  | .native id => some (.native id)
  | .userdata id => some (.userdata id)
  | .thread id => some (.thread id)
  | _ => none

/-- The objects that are kept. -/
structure Marks where
  tables : Array Bool
  closures : Array Bool
  natives : Array Bool
  userdata : Array Bool
  threads : Array Bool
  boxes : Array Bool

namespace Marks

def none (m : Machine) : Marks :=
  ⟨.replicate m.tables.size false, .replicate m.closures.size false,
    .replicate m.natives.size false, .replicate m.userdata.size false,
    .replicate m.threads.size false, .replicate m.boxes.size false⟩

def has (k : Marks) : Node → Bool
  | .table id => k.tables.getD id true
  | .closure id => k.closures.getD id true
  | .native id => k.natives.getD id true
  | .userdata id => k.userdata.getD id true
  | .thread id => k.threads.getD id true
  | .box id => k.boxes.getD id true

def insert (k : Marks) : Node → Marks
  | .table id => { k with tables := k.tables.setIfInBounds id true }
  | .closure id => { k with closures := k.closures.setIfInBounds id true }
  | .native id => { k with natives := k.natives.setIfInBounds id true }
  | .userdata id => { k with userdata := k.userdata.setIfInBounds id true }
  | .thread id => { k with threads := k.threads.setIfInBounds id true }
  | .box id => { k with boxes := k.boxes.setIfInBounds id true }

/-- Whether a value refers to an object that is not kept. -/
def lacks (k : Marks) (v : Value) : Bool :=
  match v.node? with
  | some n => !k.has n
  | _ => false

end Marks

/-- The objects that values refer to. -/
def nodesOf (vs : List Value) : List Node := vs.filterMap Value.node?

/-- The objects a frame refers to. -/
def Frame.nodes : Frame → List Node
  | .script _ a =>
    .closure a.closure :: (a.upvals.toList ++ a.boxes.toList).map Node.box
      ++ nodesOf (a.slots.toList ++ a.operands ++ a.spread ++ a.varargs ++ a.closers.map (·.2))
  | .library _ (.guarded (some handler)) => nodesOf [handler]
  | .library _ (.resuming co) => [.thread co]
  | .library _ (.wrapping co) => [.thread co]
  | .library .. => []
  | .host _ upvalue operands => nodesOf (upvalue :: operands)
  | .mark _ (.closing error) => nodesOf [error]
  | .mark .. => []

namespace Machine

/-- Whether the keys and the values of a table are weak. -/
def weakness (m : Machine) (t : Table) : Bool × Bool :=
  match t.metatable with
  | none => (false, false)
  | some id =>
    match (m.table id).getText "__mode" with
    | .str s => (s.toList.contains 0x6b, s.toList.contains 0x76)
    | _ => (false, false)

/-- The objects that an object keeps as long as it is kept itself. -/
def successors (m : Machine) : Node → List Node
  | .table id =>
    let t := m.table id
    let meta' := t.metatable.toList.map Node.table
    match m.weakness t with
    | (false, false) => meta' ++ t.toList.flatMap fun e => nodesOf [e.1, e.2]
    | (false, true) => meta' ++ t.toList.flatMap fun e => nodesOf [e.1]
    | (true, _) => meta'
  | .closure id => (m.closure id).upvals.toList.map Node.box
  | .native id => nodesOf (m.native id).upvalues.toList
  | .userdata id => ((m.userdata.getD id none).getD default).metatable.toList.map Node.table
  | .thread id =>
    let t := m.thread id
    let body := match t.status with
      | .fresh body => nodesOf [body]
      | _ => []
    body ++ (t.resumer.toList.map Node.thread) ++ (m.framesOf id).flatMap Frame.nodes
  | .box id => nodesOf [m.box id]

/-- Every object. -/
def nodes (m : Machine) : List Node :=
  (List.range m.tables.size).map Node.table ++ (List.range m.closures.size).map Node.closure
    ++ (List.range m.natives.size).map Node.native
    ++ (List.range m.userdata.size).map Node.userdata
    ++ (List.range m.threads.size).map Node.thread ++ (List.range m.boxes.size).map Node.box

/-- A bound on the references that a collection follows. -/
def extent (m : Machine) : Nat :=
  (m.nodes.map fun n => (m.successors n).length + 1).sum

/-- Keeps objects and what they lead to. -/
def propagate (m : Machine) : (fuel : Nat) → List Node → Marks → Marks
  | 0, _, k => k
  | _, [], k => k
  | fuel + 1, n :: rest, k =>
    if k.has n then propagate m fuel rest k
    else propagate m fuel (m.successors n ++ rest) (k.insert n)

/-- The tables that are kept, with their entries, of a weakness. -/
def keptTables (m : Machine) (k : Marks) (wanted : Bool × Bool → Bool) : List TableId :=
  (List.range m.tables.size).filter fun id =>
    k.tables.getD id false && wanted (m.weakness (m.table id))

/-- The values that are kept because their weak keys are. -/
def keptByKeys (m : Machine) (k : Marks) : List Node :=
  (m.keptTables k fun w => w.1 && !w.2).flatMap fun id =>
    (nodesOf (((m.table id).toList.filter fun e => !k.lacks e.1).map (·.2))).filter
      fun n => !k.has n

/-- Keeps what weak keys keep, until there is nothing more of it. -/
def converge (m : Machine) (bound : Nat) : (fuel : Nat) → Marks → Marks
  | 0, k => k
  | fuel + 1, k =>
    match m.keptByKeys k with
    | [] => k
    | news => converge m bound fuel (m.propagate (bound + news.length) news k)

/-- Keeps objects and all that they keep. -/
def keep (m : Machine) (bound : Nat) (starts : List Node) (k : Marks) : Marks :=
  m.converge bound bound (m.propagate (bound + starts.length) starts k)

/-- Takes entries out of tables. -/
def filterTables (m : Machine) (ids : List TableId) (keep : Value → Value → Bool) : Machine :=
  ids.foldl (fun m id => m.modifyTable id fun t => t.filter keep) m

/-- The objects that are always kept. -/
def roots (m : Machine) (anchors : List Value) : List Node :=
  [.table m.globals, .table m.handleMetatable, .thread main, .thread m.current]
    ++ m.loaded.toList.map Node.table ++ m.kindMetatables.map (fun e => Node.table e.2)
    ++ m.due.filterMap (fun o => o.value.node?) ++ nodesOf anchors

/-- Forgets the objects that are not kept. -/
def sweep (m : Machine) (k : Marks) : Machine :=
  let clean {α : Type} (objects : Array (Option α)) (kept : Array Bool) : Array (Option α) :=
    objects.mapIdx fun i o => if kept.getD i true then o else none
  { m with
    tables := clean m.tables k.tables
    closures := clean m.closures k.closures
    natives := clean m.natives k.natives
    userdata := clean m.userdata k.userdata
    threads := clean m.threads k.threads
    boxes := clean m.boxes (k.boxes.setIfInBounds 0 true) }

/-- A collection, with the values anchored by the host among the roots.  The finalizers that
become due are called afterwards. -/
def collect (m : Machine) (anchors : List Value) : Machine :=
  let bound := m.extent
  let strong := m.keep bound (m.roots anchors) (.none m)
  let weakValues := m.keptTables strong (·.2)
  let m := m.filterTables weakValues fun _ v => !strong.lacks v
  let (kept, lost) := m.finalizable.partition fun o => !strong.lacks o.value
  let all := m.keep bound (lost.filterMap fun o => o.value.node?) strong
  let m := m.filterTables (m.keptTables all (·.1)) fun key _ => !all.lacks key
  let revived := (m.keptTables all (·.2)).filter fun id => !strong.tables.getD id false
  let m := m.filterTables revived fun _ v => !all.lacks v
  { m.sweep all with finalizable := kept, due := m.due ++ lost }

end Machine

end ScriptBridge.Script
