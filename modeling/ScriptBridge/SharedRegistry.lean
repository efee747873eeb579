import ScriptBridge.Handle

/-!
# ScriptBridge.SharedRegistry

A registry that is used again while it is in use.  A value whose pin is taken away is destroyed, and
what it does when it is destroyed it may do with the same registry: pin other values, release them,
or clear the registry.

The table of a registry is lent to one who changes it, or to those who read it.  Borrowing the table
and giving it back are steps of their own here, and whatever is destroyed is destroyed between such
steps; so it would show (`SharedRegistry.clashed`) if the table were asked for while it is lent to
somebody who is in the way.

What is done to the table is kept as its history.  `History.under` reads off a history what a handle
stands for: the value that was pinned under it, unless it has been released or the registry has been
cleared since.  Whoever uses the registry is told an `Answer`; the answers that destructors are told
are part of the answer to the use that ran them.
-/

namespace ScriptBridge

/-- Something that was done to the table of a registry. -/
inductive Deed (α : Type) where
  | pinned (h : Handle) (value : α)
  | released (h : Handle)
  | cleared (values : List α)
  /-- A value begins to be destroyed, after some handles were taken away. -/
  | destroying (gone : List Handle)

/-- What was done to a table, the latest first. -/
abbrev History (α : Type) := List (Deed α)

namespace History

variable {α : Type}

/-- What a handle stands for. -/
def under (h : Handle) : History α → Option α
  | [] => none
  | .pinned k value :: before => if h = k then some value else under h before
  | .released k :: before => if h = k then none else under h before
  | .cleared _ :: _ => none
  | _ :: before => under h before

/-- The handles that have been given out, the latest first. -/
def issued : History α → List Handle
  | [] => []
  | .pinned h _ :: before => h :: issued before
  | _ :: before => issued before

/-- The handles that stand for a value. -/
def live (before : History α) : List Handle := before.issued.filter fun h => (before.under h).isSome

end History

/-- A registry, to whom its table is lent, and what has been done with it. -/
structure SharedRegistry (α : Type) where
  registry : Registry α
  readers : Nat
  /-- Whether the table is lent to somebody who changes it. -/
  written : Bool
  /-- Whether the table was ever asked for while it was lent to somebody who was in the way. -/
  clashed : Bool
  history : History α

/-- Something done with a registry that others use, too. -/
abbrev Sharing (α : Type) := StateM (SharedRegistry α)

/-- What somebody does with a registry.  Values that are destroyed do something, too: the one that is
released, and those that a registry is cleared of, one after the other. -/
inductive Use (α : Type) where
  | pin (value : α)
  | get (h : Handle)
  | repin (h : Handle)
  | size
  | isEmpty
  | release (h : Handle) (destructor : List (Use α))
  | clear (destructors : List (List (Use α)))

/-- What somebody is told who uses a registry. -/
inductive Answer (α : Type) where
  | pin (h : Handle)
  | get (found : Option α)
  | repin (copy : Option Handle)
  | size (n : Nat)
  | isEmpty (empty : Bool)
  /-- Whether the handle was live, and what the destructor of its value was told. -/
  | release (live : Bool) (destructor : List (Answer α))
  | clear (destructors : List (List (Answer α)))

namespace SharedRegistry

variable {α β : Type}

/-- A registry that nobody has used. -/
def new : SharedRegistry α := ⟨.empty, 0, false, false, []⟩

/-- Borrows the table to read it. -/
def share : Sharing α Unit :=
  modify fun s => { s with readers := s.readers + 1, clashed := s.clashed || s.written }

def unshare : Sharing α Unit := modify fun s => { s with readers := s.readers - 1 }

/-- Borrows the table to change it. -/
def lock : Sharing α Unit :=
  modify fun s => { s with written := true, clashed := s.clashed || s.written || s.readers != 0 }

def unlock : Sharing α Unit := modify fun s => { s with written := false }

/-- Looks something up. -/
def look (f : Registry α → β) : Sharing α β := do
  share
  let found := f (← get).registry
  unshare
  return found

/-- Changes the table. -/
def change (f : Registry α → β × Registry α) : Sharing α β := do
  lock
  let out ← modifyGet fun s =>
    let (out, registry) := f s.registry
    (out, { s with registry })
  unlock
  return out

def note (d : Deed α) : Sharing α Unit := modify fun s => { s with history := d :: s.history }

/-! ## What can be done -/

def pin (value : α) : Sharing α Handle := do
  let h ← change fun r => r.pin value
  note (.pinned h value)
  return h

def get? (h : Handle) : Sharing α (Option α) := look fun r => r.get? h

/-- Pins the value of a handle once more. -/
def repin (h : Handle) : Sharing α (Option Handle) := do
  match ← get? h with
  | none => return none
  | some value => return some (← pin value)

def size : Sharing α Nat := look Registry.size

def isEmpty : Sharing α Bool := look fun r => r.size == 0

/-- Takes a pin away; whether it was there.  Its value is destroyed when the table has been given
back. -/
def release (h : Handle) (destroy : Sharing α (List β)) : Sharing α (Bool × List β) := do
  let found ← change fun r => r.release h
  note (.released h)
  if found.isSome then
    note (.destroying [h])
    return (true, ← destroy)
  return (false, [])

/-- Takes every pin away.  The values are destroyed when the table has been given back; what it takes
to destroy them is told the handles that were taken away, and how many values there were. -/
def clear (destroy : List Handle → Nat → Sharing α β) : Sharing α β := do
  let gone := (← get).history.live
  let values ← change fun r => r.clear
  note (.cleared values)
  destroy gone values.length

mutual

def perform : Use α → Sharing α (Answer α)
  | .pin value => return .pin (← pin value)
  | .get h => return .get (← get? h)
  | .repin h => return .repin (← repin h)
  | .size => return .size (← size)
  | .isEmpty => return .isEmpty (← isEmpty)
  | .release h destructor => do
    let out ← release h (performAll destructor)
    return .release out.1 out.2
  | .clear destructors => return .clear (← clear (destroyAll destructors))

def performAll : List (Use α) → Sharing α (List (Answer α))
  | [] => return []
  | u :: us => do
    let told ← perform u
    return told :: (← performAll us)

/-- Destroys so many values, of which the first ones do something; `gone` are the handles that were
taken away. -/
def destroyAll : List (List (Use α)) → (gone : List Handle) → (count : Nat) →
    Sharing α (List (List (Answer α)))
  | destructor :: destructors, gone, count + 1 => do
    note (.destroying gone)
    let told ← performAll destructor
    return told :: (← destroyAll destructors gone count)
  | _, _, _ => return []

end

end SharedRegistry

end ScriptBridge
