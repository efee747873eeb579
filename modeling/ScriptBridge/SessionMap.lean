import ScriptBridge.Failure
import Std.Data.TreeMap

/-!
# ScriptBridge.SessionMap

Which session owns a runtime.  A runtime calls the host back with nothing but one of its coroutines,
which leads to its main thread; a session map has the session under the address of that thread.
An address may be that of another runtime later.

Every open session owns the map, and so does whoever holds it.  The process itself only has a weak
pointer to it (`Directory.latest`): a map goes away with its last owner, and the next session makes
a new one.  The lock of a map is reentrant and all this happens on one thread, so nobody ever waits
for it; but the table of a map is lent to one writer, or to readers, at a time.

What is done to a `Directory` takes one step after the other: a map that is looked at is owned
meanwhile, and its table is borrowed.
-/

namespace ScriptBridge

/-- The address of the main thread of a runtime. -/
abbrev Address := Nat

/-- The number of a session map. -/
abbrev MapId := Nat

/-- The sessions under the addresses of their runtimes, and to whom this table is lent. -/
structure SessionMap where
  entries : Std.TreeMap Address SessionId
  readers : Nat
  /-- Whether it is lent to somebody who changes it. -/
  written : Bool

namespace SessionMap

def empty : SessionMap := ⟨∅, 0, false⟩

/-- Whether nobody can change the table. -/
def isLent (m : SessionMap) : Bool := m.written || m.readers != 0

/-- Looks something up in the table, which is lent for that. -/
def look {α : Type} (m : SessionMap) (f : Std.TreeMap Address SessionId → α) : α × SessionMap :=
  let m := { m with readers := m.readers + 1 }
  (f m.entries, { m with readers := m.readers - 1 })

/-- Changes the table, which is lent for that. -/
def change (m : SessionMap) (f : Std.TreeMap Address SessionId → Std.TreeMap Address SessionId) :
    SessionMap :=
  let m := { m with written := true }
  { m with entries := f m.entries, written := false }

end SessionMap

/-- A session map and how many own it. -/
structure SharedMap where
  map : SessionMap
  owners : Nat

/-- What a session is found by: the map it owns, and the address of its runtime. -/
structure Registration where
  map : MapId
  key : Address
  deriving DecidableEq, Repr

/-- The session maps, who owns them, and where the runtimes are. -/
structure Directory where
  /-- The maps that somebody owns. -/
  maps : Std.TreeMap MapId SharedMap
  /-- How many maps have been made. -/
  made : Nat
  /-- The map made last, which may be gone. -/
  latest : Option MapId
  /-- The sessions that have not been dropped. -/
  registrations : Std.TreeMap SessionId Registration
  /-- The maps that are held by somebody who is not a session. -/
  held : List MapId
  /-- Where the runtime of a session is. -/
  address : SessionId → Address
  /-- Whether a table was ever asked for while it was lent to somebody who was in the way. -/
  clashed : Bool
  /-- Whether a runtime has called back that no session was found for. -/
  lost : Bool

/-- Something done to the directory. -/
abbrev Clerk := StateM Directory

namespace Directory

/-- No maps, and nobody who owns one. -/
def new (address : SessionId → Address) : Directory where
  maps := ∅
  made := 0
  latest := none
  registrations := ∅
  held := []
  address := address
  clashed := false
  lost := false

/-- The map in use, if somebody owns it.  Whoever asks for it owns it too. -/
def current : Clerk (Option MapId) :=
  modifyGet fun d =>
    match d.latest with
    | none => (none, d)
    | some m =>
      match d.maps[m]? with
      | none => (none, d)
      | some shared =>
        (some m, { d with maps := d.maps.insert m { shared with owners := shared.owners + 1 } })

/-- A new map, which is in use from now on. -/
def make : Clerk MapId :=
  modifyGet fun d =>
    (d.made, { d with
      maps := d.maps.insert d.made ⟨.empty, 1⟩
      made := d.made + 1
      latest := some d.made })

/-- The map in use, or a new one.  Whoever asks for it owns it too. -/
def acquire : Clerk MapId := do
  match ← current with
  | some m => return m
  | none => make

/-- One of the owners of a map lets go of it. -/
def disown (m : MapId) : Clerk Unit :=
  modify fun d =>
    match d.maps[m]? with
    | none => d
    | some shared =>
      if 1 < shared.owners then
        { d with maps := d.maps.insert m { shared with owners := shared.owners - 1 } }
      else { d with maps := d.maps.erase m }

/-- Looks something up in a map. -/
def look {α : Type} [Inhabited α] (m : MapId) (f : Std.TreeMap Address SessionId → α) : Clerk α :=
  modifyGet fun d =>
    match d.maps[m]? with
    | none => (default, d)
    | some shared =>
      let (a, map) := shared.map.look f
      (a, { d with
        maps := d.maps.insert m { shared with map := map }
        clashed := d.clashed || shared.map.written })

/-- Changes the table of a map. -/
def change (m : MapId) (f : Std.TreeMap Address SessionId → Std.TreeMap Address SessionId) :
    Clerk Unit :=
  modify fun d =>
    match d.maps[m]? with
    | none => d
    | some shared => { d with
        maps := d.maps.insert m { shared with map := shared.map.change f }
        clashed := d.clashed || shared.map.isLent }

/-- Looks something up in the map in use, if there is one. -/
def consult {α : Type} [Inhabited α] (f : Std.TreeMap Address SessionId → α) : Clerk (Option α) := do
  match ← current with
  | none => return none
  | some m =>
    let a ← look m f
    disown m
    return some a

/-- The session that owns the runtime at an address. -/
def resolve (key : Address) : Clerk (Option SessionId) := do
  return (← consult fun entries => entries[key]?).join

/-- How many sessions the map in use has. -/
def count : Clerk (Option Nat) := consult fun entries => entries.size

/-- Puts a new session on the map. -/
def enroll (id : SessionId) : Clerk Unit := do
  let key := (← get).address id
  let m ← acquire
  modify fun d => { d with registrations := d.registrations.insert id ⟨m, key⟩ }
  change m fun entries => entries.insert key id

/-- Takes a session off its map when its runtime is gone. -/
def remove (id : SessionId) : Clerk Unit := do
  match (← get).registrations[id]? with
  | none => return ()
  | some r => change r.map fun entries => entries.erase r.key

/-- A session is dropped, and lets go of its map. -/
def dismiss (id : SessionId) : Clerk Unit := do
  match (← get).registrations[id]? with
  | none => return ()
  | some r =>
    modify fun d => { d with registrations := d.registrations.erase id }
    disown r.map

/-- Holds the map in use; whether it is the one in use then. -/
def hold : Clerk Bool := do
  let m ← acquire
  modify fun d => { d with held := m :: d.held }
  match ← current with
  | none => return false
  | some other =>
    disown other
    return other == m

/-- Lets go of maps, one after the other. -/
def disownAll : List MapId → Clerk Unit
  | [] => return ()
  | m :: rest => do
    disown m
    disownAll rest

/-- Lets go of all maps that are held. -/
def letGo : Clerk Unit := do
  let held := (← get).held
  modify fun d => { d with held := [] }
  disownAll held

/-- Notes that no session was found for a runtime that has called back. -/
def lose : Clerk Unit := modify fun d => { d with lost := true }

end Directory

end ScriptBridge
