import ScriptBridge.Proofs.Stacks
import ScriptBridge.Proofs.Keeps

/-!
# ScriptBridge.Proofs.LibraryCalls

What the library functions do to a runtime: little.  They work on objects, and what they come to, the
`Reply`, says what is to be done with the frames.  A reply `Fits` if what it asks for may lie on the
frame that called: library frames for calls, waiting frames for coroutines, and no collection while the
runtime is being closed.

A `Manner` is a relation between runtimes that has all that library functions do, but for the two that
change what is inside functions and userdata.  The stack is left alone in the manner `beside`.

Main facts:

* `Meets` — a library function works in a manner and comes to what it is said to;
* `Builtin.act_fits`, `Builtin.act_lax` — library functions work in any manner, and come to replies
  that fit;
* `Builtin.act_beside` — they leave the stack alone.
-/

namespace ScriptBridge.Script

/-- Whether a function with values of its own is one of the runtime: it calls no host callable, and what
it holds first is no userdata. -/
def Native.Inner (n : Native) : Prop :=
  n.kind ≠ .host ∧ ∀ o, n.upvalues.getD 0 .nil ≠ .userdata o

/-- A manner in which library functions work on a runtime. -/
structure Manner where
  rel : Machine → Machine → Prop
  refl : ∀ m, rel m m
  trans : ∀ {m m' m''}, rel m m' → rel m' m'' → rel m m''
  closing : ∀ {m m'}, rel m m' → m'.closing = m.closing
  setMetatable : ∀ (m : Machine) (id : TableId) (metatable : Option TableId),
    rel m (m.setMetatable (.table id) metatable)
  rawSet : ∀ (m : Machine) (id : TableId) (k v : Value), rel m (m.rawSet id k v)
  stopped : ∀ (m : Machine) (stopped : Bool), rel m { m with stopped := stopped }
  reserve : ∀ (m : Machine) (t : ThreadId) (n : Nat), rel m (m.reserve t n).2
  newThread : ∀ (m : Machine) (body : Value), rel m (m.newThread body).2
  newNative : ∀ (m : Machine) (n : Native), n.Inner → rel m (m.newNative n).2
  setNative : ∀ (m : Machine) (id : NativeId) (n : Native), (m.native id).Inner → n.Inner →
    rel m { m with natives := m.natives.setIfInBounds id (some n) }

/-- Whether a library function, in a runtime that is being closed or not, works in a manner and comes
to what it is said to. -/
def Meets {α : Type} (R : Manner) (closing : Bool) (act : Act α) (P : α → Prop) : Prop :=
  ∀ m : Machine, m.closing = closing →
    R.rel m (act.run.run m).2 ∧ ∀ a, (act.run.run m).1 = .ok a → P a

namespace Meets

variable {α β : Type} {R : Manner} {closing : Bool} {P : α → Prop} {Q : β → Prop}

theorem pure {a : α} (h : P a) : Meets R closing (pure a) P :=
  fun m _ => ⟨R.refl m, fun _ ha => Except.ok.inj ha ▸ h⟩

theorem throw (f : Fault) : Meets R closing (throw f) P :=
  fun m _ => ⟨R.refl m, fun _ ha => by cases ha⟩

theorem bind {x : Act β} {f : β → Act α} (hx : Meets R closing x Q)
    (hf : ∀ b, Q b → Meets R closing (f b) P) : Meets R closing (x >>= f) P := by
  intro m hm
  obtain ⟨first, holds⟩ := hx m hm
  cases hr : (x.run.run m).1 with
  | ok b =>
    obtain ⟨rest, holds'⟩ := hf b (holds b hr) (x.run.run m).2 ((R.closing first).trans hm)
    have run : (x >>= f).run.run m = (f b).run.run (x.run.run m).2 := try_bind_ok (Prod.ext hr rfl)
    rw [run]
    exact ⟨R.trans first rest, holds'⟩
  | error e =>
    have run : (x >>= f).run.run m = (.error e, (x.run.run m).2) := try_bind_error (Prod.ext hr rfl)
    rw [run]
    exact ⟨first, fun _ ha => by cases ha⟩

theorem get_bind {f : Machine → Act α}
    (h : ∀ m : Machine, m.closing = closing → Meets R closing (f m) P) :
    Meets R closing (get >>= f) P := fun m hm => h m hm m hm

theorem modifyGet {g : Machine → β × Machine} {f : β → Act α} (hf : ∀ b, Meets R closing (f b) P)
    (h : ∀ m : Machine, R.rel m (g m).2) : Meets R closing (modifyGet g >>= f) P :=
  bind (Q := fun _ => True) (fun m _ => ⟨h m, fun _ _ => trivial⟩) fun b _ => hf b

theorem tryCatch {x : Act α} {handle : Fault → Act α} (hx : Meets R closing x P)
    (hh : ∀ f, Meets R closing (handle f) P) : Meets R closing (tryCatch x handle) P := by
  intro m hm
  obtain ⟨first, holds⟩ := hx m hm
  rw [ExceptT.run_tryCatch, stateM_run_bind]
  cases hr : (x.run.run m).1 with
  | ok a => exact ⟨first, fun b hb => holds b (hr.trans hb)⟩
  | error f =>
    obtain ⟨rest, holds'⟩ := hh f (x.run.run m).2 ((R.closing first).trans hm)
    exact ⟨R.trans first rest, holds'⟩

theorem modify {g : Machine → Machine} {f : Unit → Act α} (hf : Meets R closing (f ()) P)
    (h : ∀ m : Machine, R.rel m (g m)) : Meets R closing (modify g >>= f) P := modifyGet (fun _ => hf) h

end Meets

/-- Whether a library function does nothing that is not in any manner. -/
abbrev Looks {α : Type} (act : Act α) : Prop := ∀ R closing, Meets R closing act fun _ => True

theorem Looks.bind {α β : Type} {x : Act β} {f : β → Act α} {P : α → Prop} {R : Manner}
    {closing : Bool} (hx : Looks x) (hf : ∀ b, Meets R closing (f b) P) : Meets R closing (x >>= f) P :=
  (hx R closing).bind fun b _ => hf b

namespace Args

variable (args : Args) (i : Nat)

theorem looks_wrongType (expected : String) : Looks (args.wrongType i expected) :=
  fun _ _ => .get_bind fun _ _ => .pure trivial

theorem looks_any : Looks (args.any i) := by
  intro R closing
  unfold any
  split
  · exact .pure trivial
  · exact .throw _

theorem looks_table : Looks (args.table i) := by
  intro R closing
  unfold table
  split
  · exact .pure trivial
  · exact (args.looks_wrongType i _).bind fun _ => .throw _

theorem looks_function : Looks (args.function i) := by
  intro R closing
  unfold function
  split
  · split
    · exact .pure trivial
    · exact (args.looks_wrongType i _).bind fun _ => .throw _
  · exact (args.looks_wrongType i _).bind fun _ => .throw _

theorem looks_coroutine : Looks (args.coroutine i) := by
  intro R closing
  unfold coroutine
  split
  · exact .pure trivial
  · exact (args.looks_wrongType i _).bind fun _ => .throw _

theorem looks_number : Looks (args.number i) := by
  intro R closing
  unfold number
  split
  · exact .pure trivial
  · exact (args.looks_wrongType i _).bind fun _ => .throw _

theorem looks_integer : Looks (args.integer i) := by
  intro R closing
  refine (args.looks_number i).bind fun v => ?_
  split
  · exact .pure trivial
  · exact .throw _

theorem looks_text : Looks (args.text i) := by
  intro R closing
  unfold text
  split
  · exact .pure trivial
  · exact (args.looks_wrongType i _).bind fun _ => .throw _

theorem looks_metatable : Looks (args.metatable i) := by
  intro R closing
  unfold metatable
  split
  · exact .pure trivial
  · exact .pure trivial
  · exact (args.looks_wrongType i _).bind fun _ => .throw _

theorem looks_optional {α : Type} {read : Args → Nat → Act α} (fallback : α)
    (h : ∀ args i, Looks (read args i)) : Looks (args.optional i read fallback) := by
  intro R closing
  unfold optional
  split
  · exact .pure trivial
  · exact .pure trivial
  · exact h args i R closing

end Args

/-- Whether the machine can do what a library function asks for. -/
def Reply.Fits (closing : Bool) : Reply → Prop
  | .call task _ _ => task.role = .library
  | .resume task _ _ => task.role = .waiting
  | .collect => closing = false
  | .values _ | .yield _ | .release _ => True

namespace Library

open Args

theorem looks_charBytes (args : Args) (count i : Nat) : Looks (charBytes args count i) := by
  induction count generalizing i with
  | zero => exact fun _ _ => .pure trivial
  | succ count ih =>
    intro R closing
    refine (args.looks_integer i).bind fun _ => ?_
    dsimp only
    split
    · exact .throw _
    · exact (ih (i + 1)).bind fun _ => .pure trivial

theorem looks_placed (level : Int) (v : Value) : Looks (placed level v) := by
  intro R closing
  unfold placed
  split
  · split
    · exact .get_bind fun _ _ => .pure trivial
    · exact .pure trivial
  · exact .pure trivial

variable {R : Manner} (closing : Bool) (args : Args)

/-! ### Values and errors -/

theorem assert_fits : Meets R closing (Library.assert args) (Reply.Fits closing) := by
  unfold Library.assert
  split
  · exact .pure trivial
  · exact (args.looks_any 1).bind fun _ => (looks_placed _ _).bind fun _ => .throw _

theorem error_fits : Meets R closing (error args) (Reply.Fits closing) :=
  (args.looks_optional 2 _ looks_integer).bind fun _ => (looks_placed _ _).bind fun _ => .throw _

theorem type_fits : Meets R closing (type args) (Reply.Fits closing) :=
  (args.looks_any 1).bind fun _ => .pure trivial

theorem select_fits : Meets R closing (select args) (Reply.Fits closing) := by
  have rest : Meets R closing (do
      let i := (← args.integer 1).toInt
      let i := if i < 0 then (args.length : Int) + i else min i args.length
      if i < 1 then throw (.argument 1 (bytes "index out of range"))
      return .values (args.drop i.toNat)) (Reply.Fits closing) := by
    have ends : ∀ i : Int, Meets R closing (do
        if i < 1 then throw (.argument 1 (bytes "index out of range"))
        return .values (args.drop i.toNat)) (Reply.Fits closing) := by
      intro i
      split
      · exact (Meets.throw (P := fun _ : PUnit => True) _).bind fun _ _ => .pure trivial
      · exact .pure trivial
    exact (args.looks_integer 1).bind fun n => ends _
  unfold select
  dsimp only
  split
  · split
    · exact .pure trivial
    · exact rest
  · exact rest

theorem tostring_fits : Meets R closing (tostring args) (Reply.Fits closing) := by
  refine (args.looks_any 1).bind fun _ => .get_bind fun _ _ => ?_
  split
  · exact .pure trivial
  · exact .pure rfl

/-! ### Tables and metatables -/

theorem getmetatable_fits : Meets R closing (getmetatable args) (Reply.Fits closing) :=
  (args.looks_any 1).bind fun _ => .get_bind fun _ _ => .pure trivial

theorem setmetatable_fits : Meets R closing (setmetatable args) (Reply.Fits closing) := by
  refine (args.looks_table 1).bind fun _ => (args.looks_metatable 2).bind fun _ =>
    .get_bind fun _ _ => ?_
  split
  · exact .throw _
  · exact Meets.modify (.pure trivial) fun m => R.setMetatable m _ _

theorem next_fits : Meets R closing (next args) (Reply.Fits closing) := by
  refine (args.looks_table 1).bind fun _ => .get_bind fun _ _ => ?_
  split <;> exact .pure trivial

theorem pairs_fits : Meets R closing (pairs args) (Reply.Fits closing) := by
  refine (args.looks_any 1).bind fun _ => .get_bind fun _ _ => ?_
  split
  · exact .pure trivial
  · exact .pure rfl

theorem rawequal_fits : Meets R closing (rawequal args) (Reply.Fits closing) :=
  (args.looks_any 1).bind fun _ => (args.looks_any 2).bind fun _ => .pure trivial

theorem rawlen_fits : Meets R closing (rawlen args) (Reply.Fits closing) := by
  unfold rawlen
  split
  · exact .get_bind fun _ _ => .pure trivial
  · exact .pure trivial
  · exact (args.looks_wrongType 1 _).bind fun _ => .throw _

theorem rawget_fits : Meets R closing (rawget args) (Reply.Fits closing) :=
  (args.looks_table 1).bind fun _ => (args.looks_any 2).bind fun _ =>
    .get_bind fun _ _ => .pure trivial

theorem rawset_fits : Meets R closing (rawset args) (Reply.Fits closing) := by
  refine (args.looks_table 1).bind fun _ => (args.looks_any 2).bind fun _ =>
    (args.looks_any 3).bind fun _ => ?_
  split
  · exact .throw _
  · exact Meets.modify (.pure trivial) fun m => R.rawSet m _ _ _

/-! ### Protected calls, collections and coroutines -/

theorem pcall_fits : Meets R closing (pcall args) (Reply.Fits closing) :=
  (args.looks_any 1).bind fun _ => .pure rfl

theorem xpcall_fits : Meets R closing (xpcall args) (Reply.Fits closing) :=
  (args.looks_function 2).bind fun _ => .pure rfl

/-- No collection is begun while the runtime is being closed. -/
theorem collectgarbage_fits : Meets R closing (collectgarbage args) (Reply.Fits closing) := by
  have stop : ∀ stopped : Bool, Meets R closing (do
      modify fun m => { m with stopped := stopped }
      return .values [.int 0]) (Reply.Fits closing) := fun stopped =>
    Meets.modify (.pure trivial) fun m => R.stopped m _
  refine (args.looks_optional 1 _ looks_text).bind fun _ => .get_bind fun _ open' => ?_
  dsimp only
  split
  · exact .throw _
  split
  · exact .pure trivial
  rename_i going
  split
  · refine .pure (open'.symm.trans ?_)
    simp_all
  repeat' split
  all_goals first | exact stop _ | exact .pure trivial

theorem coroutineCreate_fits : Meets R closing (coroutineCreate args) (Reply.Fits closing) :=
  (args.looks_function 1).bind fun _ =>
    Meets.modifyGet (fun _ => .pure trivial) fun m => R.newThread m _

theorem coroutineWrap_fits : Meets R closing (coroutineWrap args) (Reply.Fits closing) :=
  (args.looks_function 1).bind fun _ =>
    Meets.modifyGet (fun _ => Meets.modifyGet (fun _ => .pure trivial) fun m =>
      R.newNative m _ ⟨by simp, by simp⟩) fun m => R.newThread m _

theorem coroutineResume_fits : Meets R closing (coroutineResume args) (Reply.Fits closing) :=
  (args.looks_coroutine 1).bind fun _ => .pure rfl

theorem coroutineStatus_fits : Meets R closing (coroutineStatus args) (Reply.Fits closing) :=
  (args.looks_coroutine 1).bind fun _ => .get_bind fun _ _ => .pure trivial

theorem coroutineIsyieldable_fits :
    Meets R closing (coroutineIsyieldable args) (Reply.Fits closing) := by
  refine .get_bind fun _ _ => ?_
  split
  · exact .pure trivial
  · exact (args.looks_coroutine 1).bind fun _ => .pure trivial

theorem coroutineRunning_fits : Meets R closing coroutineRunning (Reply.Fits closing) :=
  .get_bind fun _ _ => .pure trivial

/-! ### Strings and numbers -/

theorem stringLen_fits : Meets R closing (stringLen args) (Reply.Fits closing) :=
  (args.looks_text 1).bind fun _ => .pure trivial

theorem stringMapped_fits (change : List UInt8 → List UInt8) :
    Meets R closing (stringMapped change args) (Reply.Fits closing) :=
  (args.looks_text 1).bind fun _ => .pure trivial

theorem stringSlice_fits : Meets R closing (stringSlice args) (Reply.Fits closing) :=
  (args.looks_text 1).bind fun _ => (args.looks_integer 2).bind fun _ =>
    (args.looks_optional 3 _ looks_integer).bind fun _ => .pure trivial

theorem stringByte_fits : Meets R closing (stringByte args) (Reply.Fits closing) := by
  refine (args.looks_text 1).bind fun _ => (args.looks_optional 2 _ looks_integer).bind fun _ =>
    (args.looks_optional 3 _ looks_integer).bind fun _ =>
      Meets.modifyGet (fun fits => ?_) fun m => R.reserve m _ _
  cases fits
  · exact .throw _
  · exact .pure trivial

theorem stringChar_fits : Meets R closing (stringChar args) (Reply.Fits closing) :=
  (looks_charBytes args _ _).bind fun _ => .pure trivial

theorem stringRep_fits : Meets R closing (stringRep args) (Reply.Fits closing) := by
  refine (args.looks_text 1).bind fun _ => (args.looks_integer 2).bind fun _ =>
    (args.looks_optional 3 _ looks_text).bind fun _ => ?_
  split
  · exact .pure trivial
  · split
    · exact .throw _
    · exact .pure trivial

theorem stringGmatch_fits : Meets R closing (stringGmatch args) (Reply.Fits closing) :=
  (args.looks_text 1).bind fun _ => (args.looks_text 2).bind fun _ =>
    (args.looks_optional 3 _ looks_integer).bind fun _ =>
      Meets.modifyGet (fun _ => .pure trivial) fun m => R.newNative m _ ⟨by simp, by simp⟩

/-- An iterator over matches stays one. -/
theorem nextMatch_fits (id : NativeId) : Meets R closing (nextMatch id) (Reply.Fits closing) := by
  intro m hm
  rw [nextMatch, try_get_bind]
  dsimp only
  split
  · rename_i position lastEnd s pattern kind first _
    have inner : (m.native id).Inner :=
      ⟨by rw [kind]; nofun, fun o ho => by rw [first] at ho; cases ho⟩
    split
    · exact Meets.throw _ m hm
    · exact Meets.pure trivial m hm
    · exact ⟨R.setNative m id _ inner ⟨by simp, inner.2⟩,
        fun _ ha => by rw [← Except.ok.inj ha]; trivial⟩
  · exact Meets.pure trivial m hm

theorem stringArithmetic_fits (op : BinaryOp) :
    Meets R closing (stringArithmetic op args) (Reply.Fits closing) := by
  unfold stringArithmetic
  dsimp only
  split
  · split
    · exact .pure trivial
    · exact .throw _
    · exact .pure trivial
  · refine .get_bind fun _ _ => ?_
    split
    · exact .throw _
    · exact .pure rfl

theorem stringUnm_fits : Meets R closing (stringUnm args) (Reply.Fits closing) := by
  unfold stringUnm
  split
  · exact .pure trivial
  · exact .pure trivial
  · exact .throw _

theorem tonumber_fits : Meets R closing (tonumber args) (Reply.Fits closing) := by
  unfold tonumber
  split
  · split
    · exact .pure trivial
    · exact .pure trivial
    · exact .pure trivial
    · exact (args.looks_any 1).bind fun _ => .pure trivial
  · refine (args.looks_integer 2).bind fun _ => ?_
    dsimp only
    split
    · split
      · exact .throw _
      · exact .pure trivial
    · exact (args.looks_wrongType 1 _).bind fun _ => .throw _

theorem mathAbs_fits : Meets R closing (mathAbs args) (Reply.Fits closing) := by
  unfold mathAbs
  split
  · exact .pure trivial
  · refine (args.looks_number 1).bind fun _ => ?_
    split <;> exact .pure trivial

theorem mathFloor_fits : Meets R closing (mathFloor args) (Reply.Fits closing) := by
  unfold mathFloor
  split
  · exact .pure trivial
  · refine (args.looks_number 1).bind fun _ => ?_
    split <;> exact .pure trivial

theorem mathTointeger_fits : Meets R closing (mathTointeger args) (Reply.Fits closing) := by
  refine (args.looks_any 1).bind fun _ => ?_
  split <;> exact .pure trivial

theorem mathType_fits : Meets R closing (mathType args) (Reply.Fits closing) := by
  refine (args.looks_any 1).bind fun _ => ?_
  split <;> exact .pure trivial

/-! ### Looking into functions -/

theorem debugGetmetatable_fits : Meets R closing (debugGetmetatable args) (Reply.Fits closing) := by
  refine .get_bind fun _ _ => (args.looks_any 1).bind fun _ => ?_
  split <;> exact .pure trivial

theorem debugGetupvalue_fits : Meets R closing (debugGetupvalue args) (Reply.Fits closing) := by
  refine (args.looks_integer 2).bind fun _ => (args.looks_function 1).bind fun _ =>
    .get_bind fun _ _ => ?_
  split <;> exact .pure trivial

theorem debugUpvalueid_fits : Meets R closing (debugUpvalueid args) (Reply.Fits closing) := by
  refine (args.looks_integer 2).bind fun _ => (args.looks_function 1).bind fun _ =>
    .get_bind fun _ _ => ?_
  split <;> exact .pure trivial

/-! ### What library functions written as scripts need -/

variable {closing args} in
theorem onBehalfOf_fits {name : Bytes} {check : Act Reply}
    (h : Meets R closing check (Reply.Fits closing)) :
    Meets R closing (onBehalfOf name check) (Reply.Fits closing) :=
  h.tryCatch fun f => by cases f <;> exact .throw _

theorem argTable_fits : Meets R closing (argTable args) (Reply.Fits closing) := by
  refine onBehalfOf_fits ?_
  split
  · exact .pure trivial
  · refine .get_bind fun _ _ => ?_
    dsimp only
    split
    · exact .pure trivial
    · exact (looks_wrongType _ _ _).bind fun _ => .throw _

theorem argInteger_fits : Meets R closing (argInteger args) (Reply.Fits closing) :=
  onBehalfOf_fits ((looks_optional _ _ _ fun args i _ _ =>
    (args.looks_integer i).bind fun _ => .pure trivial).bind fun _ => .pure trivial)

theorem argText_fits : Meets R closing (argText args) (Reply.Fits closing) :=
  onBehalfOf_fits ((looks_optional _ _ _ fun args i _ _ =>
    (args.looks_text i).bind fun _ => .pure trivial).bind fun _ => .pure trivial)

theorem argFunction_fits : Meets R closing (argFunction args) (Reply.Fits closing) :=
  onBehalfOf_fits ((looks_function _ _).bind fun _ => .pure trivial)

theorem wholeLength_fits : Meets R closing (wholeLength args) (Reply.Fits closing) := by
  unfold wholeLength
  split
  · exact .pure trivial
  · exact .throw _

theorem itemText_fits : Meets R closing (itemText args) (Reply.Fits closing) := by
  unfold itemText
  split
  · exact .pure trivial
  · exact .throw _
  · exact .pure trivial

theorem roomFor_fits : Meets R closing (roomFor args) (Reply.Fits closing) := by
  unfold roomFor
  split
  · dsimp only
    split
    · exact .pure trivial
    · exact Meets.modifyGet (fun _ => .pure trivial) fun m => R.reserve m _ _
  · exact .pure trivial

theorem spread_fits : Meets R closing (spread args) (Reply.Fits closing) := by
  unfold spread
  split
  · exact .get_bind fun _ _ => .pure trivial
  · exact .pure trivial

end Library

/-- Whether a library function changes what is inside functions and userdata. -/
def Builtin.tampers : Builtin → Bool
  | .debugSetmetatable | .debugSetupvalue => true
  | _ => false

open Library in
/-- Library functions work in any manner, and come to replies that fit. -/
theorem Builtin.act_fits {R : Manner} (closing : Bool) (f : Builtin) (args : Args)
    (fair : f.tampers = false) : Meets R closing (f.act args) (Reply.Fits closing) := by
  cases f with
  | assert => exact assert_fits closing args
  | collectgarbage => exact collectgarbage_fits closing args
  | error => exact error_fits closing args
  | getmetatable => exact getmetatable_fits closing args
  | next => exact next_fits closing args
  | pairs => exact pairs_fits closing args
  | pcall => exact pcall_fits closing args
  | rawequal => exact rawequal_fits closing args
  | rawget => exact rawget_fits closing args
  | rawlen => exact rawlen_fits closing args
  | rawset => exact rawset_fits closing args
  | select => exact select_fits closing args
  | setmetatable => exact setmetatable_fits closing args
  | tonumber => exact tonumber_fits closing args
  | tostring => exact tostring_fits closing args
  | type => exact type_fits closing args
  | xpcall => exact xpcall_fits closing args
  | coroutineCreate => exact coroutineCreate_fits closing args
  | coroutineIsyieldable => exact coroutineIsyieldable_fits closing args
  | coroutineResume => exact coroutineResume_fits closing args
  | coroutineRunning => exact coroutineRunning_fits closing
  | coroutineStatus => exact coroutineStatus_fits closing args
  | coroutineWrap => exact coroutineWrap_fits closing args
  | coroutineYield => exact .pure trivial
  | stringByte => exact stringByte_fits closing args
  | stringChar => exact stringChar_fits closing args
  | stringGmatch => exact stringGmatch_fits closing args
  | stringLen => exact stringLen_fits closing args
  | stringLower | stringReverse | stringUpper => exact stringMapped_fits closing args _
  | stringRep => exact stringRep_fits closing args
  | stringSlice => exact stringSlice_fits closing args
  | stringAdd | stringSub | stringMul | stringMod | stringPow | stringDiv | stringIdiv =>
    exact stringArithmetic_fits closing args _
  | stringUnm => exact stringUnm_fits closing args
  | mathAbs => exact mathAbs_fits closing args
  | mathFloor => exact mathFloor_fits closing args
  | mathTointeger => exact mathTointeger_fits closing args
  | mathType => exact mathType_fits closing args
  | debugGetmetatable => exact debugGetmetatable_fits closing args
  | debugGetupvalue => exact debugGetupvalue_fits closing args
  | debugSetmetatable | debugSetupvalue => cases fair
  | debugUpvalueid => exact debugUpvalueid_fits closing args
  | releaseHandle => exact .pure trivial
  | argTable => exact argTable_fits closing args
  | argInteger => exact argInteger_fits closing args
  | argText => exact argText_fits closing args
  | argFunction => exact argFunction_fits closing args
  | refuse | fail => exact .throw _
  | wholeLength => exact wholeLength_fits closing args
  | itemText => exact itemText_fits closing args
  | roomFor => exact roomFor_fits closing args
  | spread => exact spread_fits closing args

/-! ## Any library function -/

/-- Whether a manner has what changes the insides of functions and userdata as well. -/
structure Manner.Lax (R : Manner) : Prop where
  setMetatable : ∀ (m : Machine) (v : Value) (metatable : Option TableId),
    R.rel m (m.setMetatable v metatable)
  setBox : ∀ (m : Machine) (id : BoxId) (v : Value), R.rel m (m.setBox id v)
  setUpvalue : ∀ (m : Machine) (id : NativeId) (i : Nat) (v : Value), R.rel m { m with
    natives := m.natives.modify id
      (Option.map fun n => { n with upvalues := n.upvalues.setIfInBounds i v }) }

namespace Library

variable {R : Manner} (lax : R.Lax) (closing : Bool) (args : Args)

include lax

theorem debugSetmetatable_fits : Meets R closing (debugSetmetatable args) (Reply.Fits closing) :=
  (args.looks_metatable 2).bind fun _ =>
    Meets.modify (.pure trivial) fun m => lax.setMetatable m _ _

theorem debugSetupvalue_fits : Meets R closing (debugSetupvalue args) (Reply.Fits closing) := by
  refine (args.looks_any 3).bind fun _ => (args.looks_integer 2).bind fun _ =>
    (args.looks_function 1).bind fun _ => .get_bind fun _ _ => ?_
  split
  · exact .pure trivial
  · exact Meets.modify (.pure trivial) fun m => lax.setBox m _ _
  · exact Meets.modify (.pure trivial) fun m => lax.setUpvalue m _ _ _

end Library

open Library in
/-- In such a manner all library functions work. -/
theorem Builtin.act_lax {R : Manner} (lax : R.Lax) (closing : Bool) (f : Builtin) (args : Args) :
    Meets R closing (f.act args) (Reply.Fits closing) := by
  cases fair : f.tampers with
  | false => exact f.act_fits closing args fair
  | true =>
    cases f with
    | debugSetmetatable => exact debugSetmetatable_fits lax closing args
    | debugSetupvalue => exact debugSetupvalue_fits lax closing args
    | _ => cases fair

/-! ## The stack -/

namespace Manner

theorem beside_setMetatable (m : Machine) (v : Value) (metatable : Option TableId) :
    m.Beside (m.setMetatable v metatable) := by
  have noted : ∀ {m' : Machine} (o : Finalizable), m.Beside m' →
      m.Beside (m'.noteFinalizer o metatable) := by
    intro m' o h
    unfold Machine.noteFinalizer
    split
    · exact h
    · split
      · exact h
      · exact h.trans (.of_same rfl rfl rfl rfl)
  unfold Machine.setMetatable
  split
  · exact noted _ (.of_same rfl rfl rfl rfl)
  · exact noted _ (.of_same rfl rfl rfl rfl)
  · exact .of_same rfl rfl rfl rfl

theorem beside_newThread (m : Machine) (body : Value) : m.Beside (m.newThread body).2 := by
  have all : ∀ c, (m.newThread body).2.thread? c
      = if c = m.threads.size then some ⟨.fresh body, [], none⟩ else m.thread? c := by
    intro c
    unfold Machine.thread? Machine.newThread
    by_cases new : c = m.threads.size
    · simp [new]
    · rw [if_neg new]
      simp [Array.getD_eq_getD_getElem?, Array.getElem?_push, new]
  refine ⟨rfl, rfl, rfl, fun c t h => ?_, fun c t h => ?_⟩
  · rw [all, if_neg, h]
    rintro rfl
    simp [Machine.thread?] at h
  · rw [all] at h
    split at h
    · exact .inr ⟨body, by rw [← Option.some.inj h]⟩
    · exact .inl h

theorem beside_reserve (m : Machine) (t : ThreadId) (n : Nat) : m.Beside (m.reserve t n).2 := by
  have fitted : ∀ top : Nat, m.Beside (if m.overflowed then (decide (top + n < stackLimit + stackReserve), m)
      else if top + n ≤ stackLimit then (true, m) else (false, { m with overflowed := true })).2 := by
    intro top
    split
    · exact .refl m
    · split
      · exact .refl m
      · exact .of_same rfl rfl rfl rfl
  exact fitted _

/-- Library functions leave the stack to the machine. -/
def beside : Manner where
  rel := Machine.Beside
  refl := .refl
  trans := .trans
  closing := fun h => h.closing
  setMetatable := fun m id metatable => beside_setMetatable m (.table id) metatable
  rawSet := fun _ _ _ _ => .of_same rfl rfl rfl rfl
  stopped := fun _ _ => .of_same rfl rfl rfl rfl
  reserve := beside_reserve
  newThread := beside_newThread
  newNative := fun _ _ _ => .of_same rfl rfl rfl rfl
  setNative := fun _ _ _ _ _ => .of_same rfl rfl rfl rfl

theorem lax_beside : beside.Lax where
  setMetatable := beside_setMetatable
  setBox := fun _ _ _ => .of_same rfl rfl rfl rfl
  setUpvalue := fun _ _ _ _ => .of_same rfl rfl rfl rfl

end Manner

theorem Builtin.act_beside (closing : Bool) (f : Builtin) (args : Args) :
    Meets .beside closing (f.act args) (Reply.Fits closing) :=
  f.act_lax Manner.lax_beside closing args

end ScriptBridge.Script
