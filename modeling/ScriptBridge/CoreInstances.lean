/-!
# ScriptBridge.CoreInstances

Powers, sums and equality of byte strings as the core library has them.  A module that opens this
scope computes with these, whatever instances an importing theory brings along.
-/

namespace ScriptBridge.CoreInstances

scoped instance (priority := high) powNat : Pow Nat Nat := instPowNat

scoped instance (priority := high) powInt : Pow Int Nat := instPowNat

scoped instance (priority := high) zeroNat : Zero Nat := Zero.ofOfNat0

scoped instance (priority := high) decEqBytes : DecidableEq ByteArray :=
  ByteArray.instDecidableEq

-- an exponent that is a literal gets its type from the default instance
attribute [default_instance high+1] powNat powInt

end ScriptBridge.CoreInstances
