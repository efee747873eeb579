import ScriptBridge.Host.Eval

/-!
# ScriptBridge.Proofs.Sides

Host programs in which two parties take turns.  A side is a truth value: that of the one party is
`true`.  Every name of a session, of a slot or of a callable is one of either side, and a step keeps to
a side if it uses no names but that side's.  What is in the frame of a body, or captured by it, is for
the side whose body it is; and where a step fails in a body of the other side, that body goes on.

Main facts:

* `Step.keeps` — whether a step keeps to a side;
* `stepsApart` — whether each step of a program keeps to one side or the other, and so do the steps of
  all bodies in it.
-/

namespace ScriptBridge.Host

section

variable (ours : String → Bool)

/-- Whether a slot is one of a side, for a step in a body of the same side, of the other, or in none. -/
def slotKept (body : Option Bool) (side : Bool) (name : String) : Bool :=
  match name.toList with
  | '$' :: _ | '^' :: _ => body != some !side
  | _ => ours name == side

/-- Whether slots are those of a side. -/
def slotsKept (body : Option Bool) (side : Bool) (names : List String) : Bool :=
  names.all (slotKept ours body side)

mutual

/-- Whether a value is made of what a side has. -/
def ValueExpr.keeps (body : Option Bool) (side : Bool) : ValueExpr → Bool
  | .constant _ => true
  | .take slot => slotKept ours body side slot
  | .dup slot => slotKept ours body side slot
  | .callable f => f.keeps body side
  | .named name => ours name == side
  | .malformed => true

/-- Whether a callable is made of what a side has; its body is one of that side. -/
def CallableExpr.keeps (body : Option Bool) (side : Bool) : CallableExpr → Bool
  | .mk _ steps results captures _ _ =>
    stepsApart (some side) steps && itemsKept (some side) side results
      && capturesKept body side captures
  | .malformed => true

def ItemExpr.keeps (body : Option Bool) (side : Bool) : ItemExpr → Bool
  | .one e => e.keeps body side
  | .nils _ => true
  | .splat _ => body != some !side
  | .lend slot => slotKept ours body side slot

/-- Whether an action works on what a side has.  What does not work on anything is an action of the
side whose body it is in. -/
def Action.keeps (body : Option Bool) (side : Bool) : Action → Bool
  | .openSession name _ => ours name == side
  | .closeSession name => ours name == side
  | .execute name _ => ours name == side
  | .lookUp name _ into => ours name == side && slotsKept ours body side into.toList
  | .lookUpFunction name _ into => ours name == side && slotsKept ours body side into.toList
  | .assign name _ v _ => ours name == side && v.keeps body side
  | .register name _ f => ours name == side && f.keeps body side
  | .define name f => ours name == side && f.keeps body side
  | .undefine name => ours name == side
  | .registerNamed name _ callable => ours name == side && ours callable == side
  | .call slot args into _ =>
    slotKept ours body side slot && itemsKept body side args && slotsKept ours body side into
  | .extract v _ into => v.keeps body side && slotsKept ours body side into.toList
  | .put slot v => slotKept ours body side slot && v.keeps body side
  | .discard slot => slotKept ours body side slot
  | .release slot => slotKept ours body side slot
  | .clone slot into => slotKept ours body side slot && slotsKept ours body side into.toList
  | .toReference slot into => slotKept ours body side slot && slotsKept ours body side into.toList
  | .describe slot => slotKept ours body side slot
  | .compare a b => slotKept ours body side a && slotKept ours body side b
  | .countPins name => ours name == side
  | .status name => ours name == side
  | .showMap | .holdMap | .freeMaps => !side
  | .fail _ | .panic _ | .malformed => body.getD false == side

/-- Whether a step keeps to a side: it works on what that side has, and does not end a body of the other
side. -/
def Step.keeps (body : Option Bool) (side : Bool) : Step → Bool
  | .mk action _ attempt => action.keeps body side && (attempt || body != some !side)

/-- Whether each step keeps to one side or the other. -/
def stepsApart (body : Option Bool) : List Step → Bool
  | [] => true
  | s :: rest => (s.keeps body true || s.keeps body false) && stepsApart body rest

def itemsKept (body : Option Bool) (side : Bool) : List ItemExpr → Bool
  | [] => true
  | e :: rest => e.keeps body side && itemsKept body side rest

def capturesKept (body : Option Bool) (side : Bool) : List (String × ValueExpr) → Bool
  | [] => true
  | (_, e) :: rest => e.keeps body side && capturesKept body side rest

end

end

end ScriptBridge.Host
