/-!
# ScriptBridge.Settings

How a session is set up.
-/

namespace ScriptBridge

/-- The settings of a session. -/
structure Settings where
  /-- Whether scripts get the standard library. -/
  stdlib : Bool
  /-- The name under which errors report snippets; a leading `=` shows it verbatim. -/
  chunkName : String
  /-- The label of the session; none derives it from the session's number. -/
  label : Option String
  deriving DecidableEq, Repr

namespace Settings

/-- The settings used when nothing is said: a standard library, and the name of the bridge. -/
def standard : Settings := ⟨true, "=lunabridge", none⟩

/-- The settings without a standard library. -/
def bare : Settings := { standard with stdlib := false }

instance : Inhabited Settings := ⟨standard⟩

/-- The chunk name as the runtime gets it: text that ends at no NUL, because the NULs are
left out. -/
def chunkBytes (o : Settings) : ByteArray :=
  (String.ofList (o.chunkName.toList.filter (· ≠ '\x00'))).toUTF8

/-- The label of session `id`. -/
def labelOf (o : Settings) (id : Nat) : String := o.label.getD s!"session-{id}"

end Settings

end ScriptBridge
