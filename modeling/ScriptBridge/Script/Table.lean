import Std.Data.TreeMap
import ScriptBridge.Script.Value

/-!
# ScriptBridge.Script.Table

Tables: maps from values to values, without nil on either side.  The values under `1`, `2`, …
that were put there in order are kept in an array, all other entries in a search tree ordered
by their keys.  Iteration goes through the array and then through the tree.

Main definitions:

* `Table.get`, `Table.set` — access without metamethods;
* `Table.border` — a length: a present position whose successor is absent;
* `Table.next` — the entry after a key.
-/

namespace ScriptBridge.Script

open scoped CoreInstances

/-- A key in normal form: a float that denotes an integer is that integer. -/
structure Key where
  /-- Values of different types differ in their rank. -/
  rank : Nat
  word : Int
  text : Bytes
  deriving DecidableEq, Inhabited

namespace Key

/-- Keys in the order of iteration. -/
def cmp (a b : Key) : Ordering :=
  (compare a.rank b.rank).then <| (compare a.word b.word).then <| compareBytes a.text b.text

/-- The key of a value; nil and a float that is no number have none. -/
def ofValue? : Value → Option Key
  | .nil => none
  | .bool b => some ⟨0, b.toNat, ∅⟩
  | .int i => some ⟨1, i.toInt, ∅⟩
  | .float x =>
    match floatToInt? x with
    | some i => some ⟨1, i.toInt, ∅⟩
    | none => if x.isNaN then none else some ⟨2, x.bits.toNat, ∅⟩
  | .str s => some ⟨3, 0, s⟩
  | .table id => some ⟨4, id, ∅⟩
  | .closure id => some ⟨5, id, ∅⟩
  | .builtin f => some ⟨6, f.ctorIdx, ∅⟩
  | .inert name => some ⟨7, 0, bytes name⟩
  | .native id => some ⟨8, id, ∅⟩
  | .userdata id => some ⟨9, id, ∅⟩
  | .thread id => some ⟨10, id, ∅⟩
  | .light address => some ⟨11, address, ∅⟩

/-- The key of a text. -/
def ofText (s : String) : Key := ⟨3, 0, bytes s⟩

end Key

/-- An entry kept in the tree: the key as a value, and the value under it. -/
abbrev Entries := Std.TreeMap Key (Value × Value) Key.cmp

/-- A table with its metatable. -/
structure Table where
  array : Array Value
  entries : Entries
  metatable : Option TableId

namespace Table

def empty : Table := ⟨#[], ∅, none⟩

instance : Inhabited Table := ⟨empty⟩

/-- The position in the array that a key stands for, if it is one. -/
def position? (t : Table) (k : Key) : Option Nat :=
  if k.rank = 1 ∧ 1 ≤ k.word ∧ k.word ≤ t.array.size then some (k.word.toNat - 1) else none

/-- The value under a key in normal form. -/
def getKey (t : Table) (k : Key) : Value :=
  match t.position? k with
  | some i => t.array.getD i .nil
  | none => ((t.entries[k]?).map (·.2)).getD .nil

/-- The value under a key; nil where there is none. -/
def get (t : Table) (v : Value) : Value :=
  match Key.ofValue? v with
  | some k => t.getKey k
  | none => .nil

/-- The value under a positive integer or any other. -/
def getInt (t : Table) (i : Int) : Value := t.getKey ⟨1, i, ∅⟩

def getText (t : Table) (s : String) : Value := t.getKey (Key.ofText s)

/-- The value that a key in normal form was made from. -/
def keyValue (k : Key) (v : Value) : Value :=
  if k.rank = 1 then .int (Int64.ofInt k.word) else v

/-- Puts a value under a key in normal form; nil takes the entry away. -/
def setKey (t : Table) (k : Key) (key v : Value) : Table :=
  match t.position? k with
  | some i => { t with array := t.array.setIfInBounds i v }
  | none =>
    if k.rank = 1 ∧ k.word = t.array.size + 1 ∧ v ≠ .nil then
      { t with array := t.array.push v, entries := t.entries.erase k }
    else if v = .nil then { t with entries := t.entries.erase k }
    else { t with entries := t.entries.insert k (keyValue k key, v) }

/-- Puts a value under a key, which must not be nil or a float that is no number. -/
def set (t : Table) (key v : Value) : Table :=
  match Key.ofValue? key with
  | some k => t.setKey k key v
  | none => t

def setText (t : Table) (s : String) (v : Value) : Table :=
  t.setKey (Key.ofText s) (.str (bytes s)) v

/-- Puts values under the positions from one on: those that a table is written with.  They stay
in the array, nil or not. -/
def place (t : Table) (position : Nat) (vs : List Value) : Table :=
  if position = t.array.size + 1 then
    let taken (i : Nat) : Key := ⟨1, (position + i : Nat), ∅⟩
    let entries := if t.entries.isEmpty then t.entries
      else (List.range vs.length).foldl (fun entries i => entries.erase (taken i)) t.entries
    { t with array := t.array ++ vs.toArray, entries := entries }
  else
    (vs.foldl (fun (t, i) v => (t.set (.int (Int64.ofNat i)) v, i + 1)) (t, position)).1

/-- Doubles a present position until an absent one is met, at most `fuel` times. -/
def unbound (t : Table) : (fuel i : Nat) → Nat × Nat
  | 0, i => (i, 2 * i)
  | fuel + 1, i =>
    if (t.getInt (2 * i)).isNil then (i, 2 * i) else unbound t fuel (2 * i)

/-- Halves the distance between a present position (or zero) and an absent one. -/
def bisect (present : Nat → Bool) : (fuel low high : Nat) → Nat
  | 0, low, _ => low
  | fuel + 1, low, high =>
    if high - low ≤ 1 then low
    else
      let mid := (low + high) / 2
      if present mid then bisect present fuel mid high else bisect present fuel low mid

/-- A length of the table. -/
def border (t : Table) : Nat :=
  let n := t.array.size
  let present (i : Nat) : Bool := !(t.getInt i).isNil
  if 0 < n ∧ !present n then
    if 1 < n ∧ present (n - 1) then n - 1 else bisect present (Nat.log2 n + 2) 0 n
  else if !present (n + 1) then n
  else
    let (low, high) := unbound t 64 (max n 1)
    bisect present 66 low high

/-- The first present entry of the array from a position on. -/
def nextInArray (t : Table) : (fuel i : Nat) → Option (Value × Value)
  | 0, _ => none
  | fuel + 1, i =>
    match t.array[i]? with
    | none => none
    | some .nil => nextInArray t fuel (i + 1)
    | some v => some (.int (Int64.ofInt (i + 1)), v)

/-- The first entry of the tree. -/
def firstInTree (t : Table) : Option (Value × Value) := t.entries.minEntry?.map (·.2)

/-- The entry after a key, or the first entry after nil; none at the end. -/
def next (t : Table) (v : Value) : Option (Value × Value) :=
  let fromArray (i : Nat) : Option (Value × Value) :=
    match t.nextInArray (t.array.size - i) i with
    | some e => some e
    | none => t.firstInTree
  match Key.ofValue? v with
  | none => fromArray 0
  | some k =>
    match t.position? k with
    | some i => fromArray (i + 1)
    | none => (t.entries.getEntryGT? k).map (·.2)

/-- Keeps the entries that satisfy a test. -/
def filter (t : Table) (keep : Value → Value → Bool) : Table :=
  { t with
    array := t.array.mapIdx fun i v =>
      if keep (.int (Int64.ofInt (i + 1))) v then v else .nil
    entries := t.entries.filter fun _ e => keep e.1 e.2 }

/-- All entries. -/
def toList (t : Table) : List (Value × Value) :=
  (t.array.toList.mapIdx fun i v => (Value.int (Int64.ofInt (i + 1)), v)).filter
    (fun e => !e.2.isNil) ++ t.entries.toList.map (·.2)

end Table

end ScriptBridge.Script
