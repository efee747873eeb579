import ScriptBridge.Host.Run
import ScriptBridge.Text.Quoted

/-!
# ScriptBridge.Host.Probe

Single parts of the library put to work without a program: typed extraction, a registry, a
ledger, failures and options; and the texts by which sessions and the session map are shown.
-/

namespace ScriptBridge.Host

/-! ## Shown texts -/

/-- The text of a session. -/
def sessionText (id : SessionId) (label : String) (closed : Bool) : String :=
  s!"Session \x7b id: SessionId({id}), label: {Text.quoted label}, closed: {closed} \x7d"

/-- The text of a session's number. -/
def sessionIdText (id : SessionId) : String := s!"session-{id}"

/-- The text of the session map. -/
def mapText (size : Nat) : String := s!"SessionMap \x7b len: {size} \x7d"

/-! ## Extraction -/

/-- A value and what it is as a type. -/
structure TypedValue where
  typeName : String
  view : View
  extracted : Except Mishap Extracted

/-- Makes a value outside of any program, and extracts it. -/
def typed (e : ValueExpr) (as : Extraction) : Except Mishap TypedValue :=
  match ((World.value e).run.run (World.start [] [])).1 with
  | .error mishap => .error mishap
  | .ok v => .ok ⟨v.typeName, .ofValue v, (World.extractAs as v).map (·.1)⟩

/-! ## Failures -/

/-- A failure outside of any program. -/
def failureOf (e : FailureExpr) : Except Mishap Failure :=
  ((World.failure e).run.run (World.start [] [])).1

/-! ## Registries -/

/-- Something done to a registry. -/
inductive RegistryStep where
  | pin (value : String)
  | ofNumber (n : Nat)
  | get (n : Nat)
  | release (n : Nat)
  | repin (n : Nat)
  | clear
  | text

/-- What a step on a registry answers. -/
inductive RegistryAnswer where
  | nothing
  | text (s : String)
  | flag (b : Bool)
  /-- A handle's text, and its number as text. -/
  | handle (text number : String)

/-- Does something to a registry. -/
def RegistryStep.act (r : Registry String) : RegistryStep → RegistryAnswer × Registry String
  | .pin value =>
    let (h, r) := r.pin value
    (.text h.text, r)
  | .ofNumber n =>
    match Handle.ofNat? n with
    | some h => (.handle h.text (toString h.number), r)
    | none => (.nothing, r)
  | .get n =>
    match (Handle.ofNat? n).bind r.get? with
    | some s => (.text s, r)
    | none => (.nothing, r)
  | .release n =>
    match Handle.ofNat? n with
    | none => (.nothing, r)
    | some h =>
      let (value, r) := r.release h
      (.flag value.isSome, r)
  | .repin n =>
    match (Handle.ofNat? n).bind r.repin with
    | some (h, r) => (.text h.text, r)
    | none => (.nothing, r)
  | .clear => (.nothing, r.clear.2)
  | .text => (.text r.text, r)

/-- The answers of steps on a fresh registry, each with the number of pins after it. -/
def registryRun (steps : List RegistryStep) : List (RegistryAnswer × Nat) :=
  go steps .empty
where
  go : List RegistryStep → Registry String → List (RegistryAnswer × Nat)
    | [], _ => []
    | s :: rest, r =>
      let (a, r) := s.act r
      (a, r.size) :: go rest r

/-! ## Ledgers -/

/-- The ledger after each acquisition (true) or release (false) of one allocation; none if there
is a release too many. -/
def ledgerRun : List Bool → Ledger → Option (List Ledger)
  | [], _ => some []
  | true :: rest, l =>
    let l := l.acquire 1
    (ledgerRun rest l).map (l :: ·)
  | false :: rest, l =>
    if l.outstanding ≤ 0 then none
    else
      let l := l.release 1
      (ledgerRun rest l).map (l :: ·)

end ScriptBridge.Host
