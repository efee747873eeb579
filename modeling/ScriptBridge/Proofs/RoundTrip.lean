import ScriptBridge.Proofs.Passage
import ScriptBridge.Proofs.Rounding

/-!
# ScriptBridge.Proofs.RoundTrip

Values that go to the runtime and come back, and values that go to the host and come back.

Main facts:

* `Session.echo_returns` — host values that are put on the host's frame and collected from there
  are what they were;
* `Session.reflect_arrives` — script values that the host takes and gives back are what they were,
  but for integers, which become doubles;
* `Host.roundTrip_run` — both, at every point of every run.
-/

namespace ScriptBridge

/-! ## Texts -/

namespace Utf8

/-- The bytes of a text are read as the text. -/
theorem decode_toUTF8 (text : String) : decode text.toUTF8 = .ok text := by
  have known : String.fromUTF8? text.toUTF8 = some text := by
    unfold String.fromUTF8?
    rw [String.toUTF8_eq_toByteArray, dif_pos text.isValidUTF8]
    rfl
  rw [decode, known]

/-- Valid bytes are read. -/
theorem decode_of_valid {b : ByteArray} (h : b.IsValidUTF8) : ∃ text, decode b = .ok text := by
  refine ⟨String.ofByteArray b h, ?_⟩
  rw [decode, String.fromUTF8?, dif_pos h]
  rfl

/-- A text has the bytes that it was read from. -/
theorem toUTF8_of_decode {b : ByteArray} {text : String} (h : decode b = .ok text) :
    text.toUTF8 = b := by
  rw [decode] at h
  split at h
  · next known =>
    obtain rfl := Except.ok.inj h
    unfold String.fromUTF8? at known
    split at known
    · obtain rfl := Option.some.inj known
      rfl
    · cases known
  · cases h

end Utf8

namespace Session

variable {n : Nat} {s s' : Session} {t : Script.ThreadId}

/-! ## What happens at the host's frame -/

/-- Values that are collected from the host's frame get cells of their own, in order. -/
theorem collect_inCell (hs : s.Orderly) {xs old : List Script.Value}
    (on : s.machine.operandsOf t = xs.reverse ++ old) :
    ∃ cs s', (collect t old.length).run s = (cs, s') ∧ s'.Orderly ∧ s.Grows s'
      ∧ s'.machine = s.machine.setOperands t old
      ∧ List.Forall₂ s'.InCell xs cs ∧ Apart cs ∧ ∀ k, some k ∈ cs → s.nextCell ≤ k := by
  obtain ⟨orderly, grows⟩ := hs.operands (t := t) old
  obtain ⟨cs, s', run, orderly', grows', machine, all, apart, above⟩ := toCells_inCell orderly xs
  refine ⟨cs, s', ?_, orderly', grows.trans grows', machine, all, apart, above⟩
  have count : (xs.reverse ++ old).length - old.length = xs.reverse.length := by simp
  have taken : (collect t old.length).run s
      = ((s.machine.takeOperands t old.length).1.mapM toCell).run
        { s with machine := (s.machine.takeOperands t old.length).2 } := rfl
  rw [taken, Script.Machine.takeOperands, on, count, List.take_left, List.drop_left,
    List.reverse_reverse, run]

/-- Whether what a value on its way to the runtime owns is a cell with no anchor, with no pin
beyond a number. -/
def Disposable (n : Nat) (s : Session) (out : Outbound) : Prop :=
  ∀ k c, out.owned? = some k → s.cell? k = some c →
    c.anchor? = none ∧ ∀ h, c.handle? = some h → h.number ≤ n

/-- Cells that were made for a transfer go, and nothing else. -/
theorem abandon_disposes (hs : s.Orderly) {outs : List Outbound}
    (h : ∀ out ∈ outs, s.Disposable n out) :
    ∃ s', (abandon outs).run s = ((), s') ∧ s'.Orderly ∧ Retains n s s'
      ∧ s'.machine = s.machine
      ∧ ∀ j, (∀ out ∈ outs, out.owned? ≠ some j) → s'.cell? j = s.cell? j := by
  induction outs generalizing s with
  | nil => exact ⟨s, rfl, hs, Retains.refl n s, rfl, fun _ _ => rfl⟩
  | cons out outs ih =>
    rw [List.forall_mem_cons] at h
    cases out with
    | nil | lent =>
      obtain ⟨s', run, orderly, retains, machine, others⟩ := ih hs h.2
      exact ⟨s', run, orderly, retains, machine,
        fun j hj => others j fun out hout => hj out (List.mem_cons_of_mem _ hout)⟩
    | owned k =>
      obtain ⟨s₁, run, orderly, retains, machine, others, fewer⟩ : ∃ s₁,
          (free k).run s = ((), s₁) ∧ s₁.Orderly ∧ Retains n s s₁ ∧ s₁.machine = s.machine
            ∧ (∀ j ≠ k, s₁.cell? j = s.cell? j)
            ∧ ∀ j d, s₁.cell? j = some d → s.cell? j = some d := by
        cases hc : s.cell? k with
        | none =>
          refine ⟨{ s with ledger := s.ledger.release 0 }, ?_, { hs with }, { Retains.refl n s with },
            rfl, fun _ _ => rfl, fun _ _ h => h⟩
          have run : (free k).run s = ((), { ((withdraw k).run s).2 with
            ledger := ((withdraw k).run s).2.ledger.release ((withdraw k).run s).1.1 }) := rfl
          rw [run, withdraw_run_of_none hc]
        | some c =>
          obtain ⟨copied, below⟩ := h.1 k c rfl hc
          obtain ⟨orderly, retains, machine, others⟩ := hs.freed copied below hc
          exact ⟨_, free_run hc, orderly, retains, machine, others,
            fun j d hd => cell?_of_withdrawn (c := c) hd⟩
      have left : ∀ out ∈ outs, s₁.Disposable n out :=
        fun out hout j d hj hd => h.2 out hout j d hj (fewer j d hd)
      obtain ⟨s₂, run', orderly', retains', machine', others'⟩ := ih orderly left
      refine ⟨s₂, ?_, orderly', retains.trans retains', machine'.trans machine, fun j hj => ?_⟩
      · rw [abandon, stateM_run_bind, run, run']
      · rw [List.forall_mem_cons] at hj
        rw [others' j hj.2, others j]
        rintro rfl
        exact hj.1 rfl

/-- A value that was made ready owns a cell in use, with no anchor and no pin to come. -/
theorem Packs.owned {v : Value} {out : Outbound} (hs : s.Orderly) (h : s.Packs v out) {k : CellId}
    (own : out.owned? = some k) : ∃ c, s.cell? k = some c ∧ c.anchor? = none
      ∧ ∀ handle, c.handle? = some handle → handle.number ≤ s.pins.issued := by
  cases v with
  | nil | reference r | function r =>
    obtain rfl := h
    cases own
  | callable f =>
    obtain ⟨k, handle, rfl, hk, hf⟩ := h
    cases own
    refine ⟨_, hk, rfl, fun h eq => ?_⟩
    cases eq
    exact hs.pin_old hf
  | _ =>
    obtain ⟨k, rfl, hk⟩ := h
    cases own
    exact ⟨_, hk, rfl, fun h eq => by cases eq⟩

/-! ## There and back -/

/-- Sends host values to the host's frame and takes them from there. -/
def echo (t : Script.ThreadId) (vs : List Value) : Attempt (List Value) := do
  let base := ((← get).machine.operandsOf t).length
  let outs ← packAll vs
  reserve t vs.length
  let _ ← pushAll t outs
  let cells ← collect t base
  abandon outs
  unpackAll cells

/-- Takes the script values above the lowest `base` from the host's frame and gives them back, as
a host callable does that returns its arguments. -/
def reflect (t : Script.ThreadId) (base : Nat) : Attempt (List Value) := do
  let cells ← collect t base
  let vs ← unpackAll cells
  let (t, outs) ← beginResults vs
  let _ ← pushAll t outs
  abandon outs
  return vs

/-- Whether a call of a script value gets to a callable. -/
def Dispatches (s : Session) (x : Script.Value) (f : CallableId) : Prop :=
  ∃ i h, x = .native i ∧ s.pins.get? h = some f ∧ ∀ args depth fixed,
    let m := s.machine.callNative i args depth fixed
    m.pause? = some .invoked ∧ calledHandle { s with machine := m } = some h

/-- What a host value is when it comes back.  One that denotes a script value is another reference
to the same; a callable is a reference to a host function that gets to it. -/
def Returns (s : Session) : Value → Value → Prop
  | .nil, u => u = .nil
  | .number y, u => u = .number y
  | .boolean b, u => u = .boolean b
  | .string text, u => u = .string text
  | .reference r, u | .function r, u => ∃ q x, s.object? r = some x ∧ s.object? q = some x
    ∧ q.kind = r.kind ∧ q.native = s.machine.isHostClosure x
    ∧ u = if x.kind = .function ∧ q.native = false then .function q else .reference q
  | .callable f, u => ∃ q x, u = .reference q ∧ q.kind = .function ∧ q.native = true
    ∧ s.object? q = some x ∧ s.Dispatches x f

/-- What a script value is when it comes back: an integer is the nearest double, and all else is
as it was. -/
def Arrives : Script.Value → Script.Value → Prop
  | .int i, y => ∃ z, y = .float z ∧ Binary64.Nearest i.toInt z
  | x, y => y = x

/-- A host function is one for which a handle is held, and gets to the callable of the handle. -/
theorem Hosts.dispatches {x : Script.Value} {f : CallableId} (h : s.Hosts n x f) :
    s.machine.isHostClosure x ∧ s.Dispatches x f := by
  obtain ⟨i, o, handle, rfl, native, userdata, slot, -, pinned⟩ := h
  have known : s.machine.native i = ⟨.host, #[.userdata o]⟩ := by
    rw [Script.Machine.native, Array.getD_eq_getD_getElem?, native]
    rfl
  refine ⟨?_, i, handle, rfl, pinned, fun args depth fixed => ?_⟩
  · rw [Script.Machine.isHostClosure]
    simp only [known]
    change (s.machine.metatable? (.userdata o) == some s.machine.handleMetatable) = true
    rw [Script.Machine.metatable?, Array.getD_eq_getD_getElem?, userdata]
    exact beq_self_eq_true _
  · simp only [Script.Machine.callNative, known]
    exact ⟨rfl, slot⟩

/-- What a host value became is read as what it is when it comes back. -/
theorem Becomes.returns {v u : Value} {x : Script.Value} (h : s.Becomes n v x) (hu : s.Reads x u)
    (fits : ∀ r, v.ref? = some r → x.Solid ∧ r.kind = (anchorKind? x).getD .function) :
    s.Returns v u := by
  cases v with
  | nil | number | boolean =>
    obtain rfl := h
    exact hu
  | string text =>
    obtain rfl := h
    obtain ⟨read, known, rfl⟩ := hu
    obtain rfl := Except.ok.inj (known.symm.trans (Utf8.decode_toUTF8 text))
    rfl
  | reference r | function r =>
    obtain ⟨solid, kind⟩ := fits r rfl
    obtain ⟨q, object, -, kind', native, rfl⟩ := (reads_solid solid u).mp hu
    exact ⟨q, x, h, object, kind'.trans kind.symm, native, rfl⟩
  | callable f =>
    obtain ⟨host, dispatches⟩ := Hosts.dispatches h
    obtain ⟨i, rfl⟩ : ∃ i, x = .native i := dispatches.imp fun i ⟨_, function, _⟩ => function
    have solid : Script.Value.Solid (.native i) := trivial
    obtain ⟨q, object, -, kind, native, rfl⟩ := (reads_solid solid u).mp hu
    rw [host] at native
    refine ⟨q, _, ?_, kind, native, object, dispatches⟩
    rw [if_neg]
    rintro ⟨-, script⟩
    exact Bool.noConfusion (native.symm.trans script)

/-- What a script value was read as becomes what the script value is when it comes back. -/
theorem Reads.arrives {x y : Script.Value} {u : Value} (h : s.Reads x u) (hr : Retains 0 s s')
    (hy : s'.Becomes n u y) : Arrives x y := by
  obtain solid | rfl | ⟨i, rfl⟩ | ⟨z, rfl⟩ | ⟨b, rfl⟩ | ⟨text, rfl⟩ := solid_cases x
  · obtain ⟨r, object, -, -, -, rfl⟩ := (reads_solid solid u).mp h
    have same : y = x := by
      have still := hr.object? object
      split at hy <;> exact Option.some.inj (hy.symm.trans still)
    cases x with
    | nil | int | float | bool | str => exact solid.elim
    | _ => exact same
  · obtain rfl := h
    exact hy
  · obtain rfl := h
    obtain rfl := hy
    have least := Int64.le_toInt i
    have most := Int64.toInt_lt i
    exact ⟨_, rfl, Binary64.nearest_ofInt (by omega)⟩
  · obtain rfl := h
    exact hy
  · obtain rfl := h
    exact hy
  · obtain ⟨read, known, rfl⟩ := h
    obtain rfl := hy
    exact congrArg _ (Utf8.toUTF8_of_decode known)

/-! ## The whole way -/

/-- Whether a reference denotes a value of its kind. -/
def Known (s : Session) (r : Ref) : Prop :=
  ∃ x, s.object? r = some x ∧ x.Solid ∧ r.kind = (anchorKind? x).getD .function

/-- What was made ready owns cells in use, with no anchor and no pin to come. -/
theorem owned_of_packs (hs : s.Orderly) {vs : List Value} {outs : List Outbound}
    (h : List.Forall₂ s.Packs vs outs) {out : Outbound} (hout : out ∈ outs) {k : CellId}
    (own : out.owned? = some k) : ∃ c, s.cell? k = some c ∧ c.anchor? = none
      ∧ ∀ handle, c.handle? = some handle → handle.number ≤ s.pins.issued := by
  obtain ⟨v, -, packs⟩ := exists_of_mem h hout
  exact packs.owned hs own

/-- Host values that are put on the host's frame and collected from there are what they were. -/
theorem echo_returns (hs : s.Orderly) (listens : s.machine.Listens t) {vs : List Value}
    (own : ∀ v ∈ vs, ∀ r, v.ref? = some r → r.session = s.id ∧ s.Known r)
    (room : (s.machine.reserve t vs.length).1) :
    ∃ us s', (echo t vs).run.run s = (.ok us, s') ∧ s'.Orderly
      ∧ s'.machine.operandsOf t = s.machine.operandsOf t
      ∧ (∀ r x, s.object? r = some x → s'.object? r = some x)
      ∧ List.Forall₂ s'.Returns vs us := by
  obtain ⟨outs, s₁, packed, orderly₁, grows₁, machine₁, packs⟩ :=
    packAll_packs hs fun v hv r hr => (own v hv r hr).1
  rw [← machine₁] at listens
  have known : ∀ v ∈ vs, ∀ r, v.ref? = some r → ∃ x, s₁.object? r = some x := by
    intro v hv r hr
    obtain ⟨-, x, hx, -⟩ := own v hv r hr
    exact ⟨x, grows₁.object? hx⟩
  obtain ⟨fs, s₂, xs, pushed, orderly₂, grows₂, listens₂, on, becomes⟩ :=
    pushAll_becomes orderly₁ listens (Nat.le_refl _) packs known
  obtain ⟨cs, s₃, collected, orderly₃, grows₃, machine₃, inCell, apart, above⟩ :=
    collect_inCell orderly₂ on
  -- what was made for the transfer goes, and the cells that were collected are others
  have young : ∀ out ∈ outs, ∀ k, out.owned? = some k → ∃ c, s₃.cell? k = some c
      ∧ c.anchor? = none ∧ (∀ h, c.handle? = some h → h.number ≤ s₁.pins.issued)
      ∧ k < s₂.nextCell := by
    intro out hout k hk
    obtain ⟨c, hc, copied, below⟩ := owned_of_packs orderly₁ packs hout hk
    have still := grows₂.cells k c hc
    exact ⟨c, grows₃.cells k c still, copied, below,
      orderly₂.fresh k (mem_keys.mpr ⟨c, still⟩)⟩
  obtain ⟨s₄, abandoned, orderly₄, retains₄, machine₄, others⟩ :=
    abandon_disposes orderly₃ fun out hout k d hk hd => by
      obtain ⟨c, hc, copied, below, -⟩ := young out hout k hk
      obtain rfl := Option.some.inj (hc.symm.trans hd)
      exact ⟨copied, below⟩
  have inCell₄ : List.Forall₂ s₄.InCell xs cs := by
    have high := (List.forall₂_and_left (p := fun c => ∀ k, c = some k → s₂.nextCell ≤ k)
      cs xs).mpr ⟨fun c hc k hk => above k (hk ▸ hc), inCell.flip⟩
    refine (high.imp fun c x h => ?_).flip
    refine InCell.stay h.2 retains₄ machine₄ fun k d hk hd => ?_
    rw [others k, hd]
    intro out hout eq
    obtain ⟨-, -, -, -, low⟩ := young out hout k eq
    exact absurd (h.1 k hk) (Nat.not_le.mpr low)
  have valid : ∀ text, .str text ∈ xs → ∃ u, Utf8.decode text = .ok u := by
    intro text ht
    obtain ⟨v, hv, h⟩ := exists_of_mem becomes ht
    cases v with
    | string u =>
      cases h
      exact ⟨u, Utf8.decode_toUTF8 u⟩
    | reference r | function r =>
      obtain ⟨-, x, hx, solid, -⟩ := own _ hv r rfl
      obtain rfl := Option.some.inj (h.symm.trans (grows₂.object? (grows₁.object? hx)))
      exact solid.elim
    | callable f =>
      obtain ⟨i, o, h, eq, -⟩ := h
      cases eq
    | _ => cases h
  obtain ⟨us, s₅, read, orderly₅, retains₅, machine₅, reads⟩ :=
    unpackAll_reads orderly₄ inCell₄ apart valid
  have later : Retains s₁.pins.issued s₂ s₅ :=
    ((grows₃.toRetains.mono (Nat.zero_le _)).trans retains₄).trans (retains₅.mono (Nat.zero_le _))
  have before : s.Grows s₂ := grows₁.trans grows₂
  have reserved : (reserve t vs.length).run.run s₁ = (.ok (), s₁) := by
    rw [reserve_run, machine₁, if_pos room, Script.Machine.reserve_of_room room, ← machine₁]
  refine ⟨us, s₅, ?_, orderly₅, ?_, fun r x hx => later.object? (before.object? hx),
    forall₂_comp becomes reads fun v hv x u h hu => ?_⟩
  · rw [echo, try_get_bind, try_bind_ok packed, try_bind_ok reserved, try_bind_ok pushed,
      try_lift_bind, ← machine₁, collected, try_lift_bind, abandoned, read]
  · rw [machine₅, machine₄, machine₃, ← machine₁]
    exact (Script.Machine.listens_setOperands listens₂ _).2
  · refine (h.retain later).returns hu fun r hr => ?_
    obtain ⟨-, y, hy, solid, kind⟩ := own v hv r hr
    obtain rfl : y = x := by
      have object : s₂.object? r = some x := by
        cases v with
        | reference q | function q =>
          obtain rfl := Option.some.inj hr
          exact h
        | _ => cases hr
      exact Option.some.inj ((before.object? hy).symm.trans object)
    exact ⟨solid, kind⟩

/-- A reference that a script value was read as is known. -/
theorem Reads.known {x : Script.Value} {u : Value} {r : Ref} (h : s.Reads x u)
    (hr : u.ref? = some r) : r.session = s.id ∧ s.object? r = some x := by
  obtain solid | rfl | ⟨i, rfl⟩ | ⟨z, rfl⟩ | ⟨b, rfl⟩ | ⟨text, rfl⟩ := solid_cases x
  · obtain ⟨q, object, self, -, -, rfl⟩ := (reads_solid solid u).mp h
    obtain rfl : q = r := by
      split at hr <;> exact Option.some.inj hr
    refine ⟨?_, object⟩
    rw [self]
    exact session_refTo s _
  · obtain rfl := h
    cases hr
  · obtain rfl := h
    cases hr
  · obtain rfl := h
    cases hr
  · obtain rfl := h
    cases hr
  · obtain ⟨read, -, rfl⟩ := h
    cases hr

/-- Script values that the host takes and gives back are what they were, but for integers. -/
theorem reflect_arrives (hs : s.Orderly) (active : s.active = some t)
    (listens : s.machine.Listens t) {xs old : List Script.Value}
    (on : s.machine.operandsOf t = xs.reverse ++ old)
    (valid : ∀ text, .str text ∈ xs → ∃ u, Utf8.decode text = .ok u)
    (room : (s.machine.reserve t 0).1) :
    ∃ us s' ys, (reflect t old.length).run.run s = (.ok us, s') ∧ s'.Orderly
      ∧ s'.machine.operandsOf t = ys.reverse ++ old ∧ List.Forall₂ Arrives xs ys := by
  obtain ⟨cs, s₁, collected, orderly₁, grows₁, machine₁, inCell, apart, -⟩ :=
    collect_inCell hs on
  obtain ⟨us, s₂, read, orderly₂, retains₂, machine₂, reads⟩ :=
    unpackAll_reads orderly₁ inCell apart valid
  have machine : s₂.machine = s.machine.setOperands t old := machine₂.trans machine₁
  have known : ∀ u ∈ us, ∀ r, u.ref? = some r → r.session = s₂.id ∧ ∃ x, s₂.object? r = some x := by
    intro u hu r hr
    obtain ⟨x, -, h⟩ := exists_of_mem reads hu
    obtain ⟨mine, object⟩ := Reads.known h hr
    exact ⟨mine, x, object⟩
  have listens₂ : s₂.machine.Listens t := by
    rw [machine]
    exact (Script.Machine.listens_setOperands listens old).1
  have same : us.length = xs.reverse.length := by rw [List.length_reverse, reads.length_eq]
  have room₂ : (s₂.machine.reserve t us.length).1 := by
    rw [machine, same]
    exact Script.Machine.room_setOperands listens room on
  obtain ⟨outs, s₃, packed, orderly₃, grows₃, machine₃, packs⟩ :=
    packAll_packs orderly₂ fun u hu r hr => (known u hu r hr).1
  rw [← machine₃] at listens₂
  obtain ⟨fs, s₄, ys, pushed, orderly₄, grows₄, listens₄, on', becomes⟩ :=
    pushAll_becomes orderly₃ listens₂ (Nat.le_refl _) packs fun u hu r hr => by
      obtain ⟨-, x, hx⟩ := known u hu r hr
      exact ⟨x, grows₃.object? hx⟩
  obtain ⟨s₅, abandoned, orderly₅, retains₅, machine₅, -⟩ :=
    abandon_disposes orderly₄ fun out hout k d hk hd => by
      obtain ⟨c, hc, copied, below⟩ := owned_of_packs orderly₃ packs hout hk
      obtain rfl := Option.some.inj ((grows₄.cells k c hc).symm.trans hd)
      exact ⟨copied, below⟩
  have begun : (beginResults us).run.run s₂ = (.ok (t, outs), s₃) := by
    have awake : thread.run.run s₂ = (.ok t, s₂) := by
      rw [thread_run, retains₂.active, grows₁.active, active]
      rfl
    have reserved : (reserve t us.length).run.run s₂ = (.ok (), s₂) := by
      rw [reserve_run, if_pos room₂, Script.Machine.reserve_of_room room₂]
    rw [beginResults, try_bind_ok awake, try_bind_ok reserved, try_bind_ok packed]
    rfl
  refine ⟨us, s₅, ys, ?_, orderly₅, ?_, forall₂_comp reads becomes fun x _ u y h hy =>
    h.arrives (grows₃.toRetains.trans grows₄.toRetains) hy⟩
  · rw [reflect, try_lift_bind, collected, try_bind_ok read, try_bind_ok begun]
    simp only []
    rw [try_bind_ok pushed, try_lift_bind, abandoned]
    rfl
  · rw [machine₅, on', machine₃, machine]
    rw [(Script.Machine.listens_setOperands listens old).2]

/-! ## What is known of a session -/

/-- A live reference denotes a value of its kind. -/
theorem Serves.known {R : Multiset Ref} {r : Ref} (hs : s.Serves R) (hr : r ∈ R) :
    r.session = s.id ∧ s.Known r := by
  obtain ⟨self, c, x, hc, object, fits⟩ := hs.named r hr
  refine ⟨self ▸ session_refTo s r.cell, x, object, fits.solid, ?_⟩
  rw [self, refTo, hc]
  cases c with
  | function a native =>
    cases x <;> first | rfl | cases fits
  | object a kind =>
    have same : anchorKind? x = some kind := fits
    rw [same]
    rfl
  | _ => exact fits.elim

end Session

namespace Host

variable {w : World} {μ : SessionId → Session.Memory} {id : SessionId} {s : Session}

theorem World.Books.orderly (hw : World.Books μ 0 w) (h : w.sessions[id]? = some s)
    (ho : s.isOpen) : s.Orderly := by
  obtain ⟨-, tidy⟩ := hw.1.tidy id s h
  exact ⟨tidy.fresh, tidy.issued, tidy.conserved ho⟩

/-- At any point of any run, and whatever else goes on in the runtime: values of an open session
that the host sends to its frame and takes from there are what they were, and so are values of the
runtime that the host takes and gives back, but for integers, which become the nearest doubles. -/
theorem roundTrip_run (program : List Step) (whims : List Whim) (n : Nat) {t : Script.ThreadId}
    (h : ((World.start program whims).run n).sessions[id]? = some s) (active : s.active = some t)
    {m : Script.Machine} (listens : m.Listens t) :
    let w := (World.start program whims).run n
    let s₀ : Session := { s with machine := m }
    (∀ vs : List Value, (∀ v ∈ vs, ∀ r, v.ref? = some r → r ∈ w.liveRefs id) →
      (m.reserve t vs.length).1 → ∃ us s',
        (Session.echo t vs).run.run s₀ = (.ok us, s')
          ∧ s'.machine.operandsOf t = m.operandsOf t ∧ List.Forall₂ s'.Returns vs us)
    ∧ ∀ xs old : List Script.Value, m.operandsOf t = xs.reverse ++ old →
      (∀ text, .str text ∈ xs → text.IsValidUTF8) → (m.reserve t 0).1 → ∃ us s' ys,
        (Session.reflect t old.length).run.run s₀ = (.ok us, s')
          ∧ s'.machine.operandsOf t = ys.reverse ++ old
          ∧ List.Forall₂ Session.Arrives xs ys := by
  intro w s₀
  have books := World.books_run program whims n
  have ho : s.isOpen := by
    rw [← (books.1.tidy id s h).2.awake, active]
    rfl
  have serves : s₀.Serves (w.liveRefs id) := (books.serves h ho).withMachine m
  have orderly : s₀.Orderly := { books.orderly h ho with }
  constructor
  · intro vs own room
    obtain ⟨us, s', run, -, operands, -, all⟩ :=
      Session.echo_returns orderly listens (fun v hv r hr => serves.known (own v hv r hr)) room
    exact ⟨us, s', run, operands, all⟩
  · intro xs old on valid room
    obtain ⟨us, s', ys, run, -, operands, all⟩ :=
      Session.reflect_arrives orderly active listens on
        (fun text ht => Utf8.decode_of_valid (valid text ht)) room
    exact ⟨us, s', ys, run, operands, all⟩

/-- A program that gets a table. -/
def holding : List Step := [
  .mk (.openSession "a" .standard) true true,
  .mk (.lookUp "a" "math" (some "x")) true true]

theorem roundTrip_run_holding :
    let w := (World.start holding []).run 2
    ∃ s t r, w.sessions[1]? = some s ∧ s.active = some t ∧ s.machine.Listens t ∧ r ∈ w.liveRefs 1
      ∧ (∃ us s', (Session.echo t [.nil, .string "a\x00", .reference r, .callable 5]).run.run s
            = (.ok us, s')
          ∧ List.Forall₂ s'.Returns [.nil, .string "a\x00", .reference r, .callable 5] us)
      ∧ ∃ us s' ys, (Session.reflect t 0).run.run { s with
            machine := s.machine.setOperands t [.str "b".toUTF8, .table 3, .int 7] } = (.ok us, s')
          ∧ s'.machine.operandsOf t = ys.reverse
          ∧ List.Forall₂ Session.Arrives [.int 7, .table 3, .str "b".toUTF8] ys := by
  have ready : ((World.start holding []).run 2).sessions[1]?.any (fun s => s.active.any fun t =>
      s.machine.Listens t ∧ (s.machine.reserve t 4).1
        ∧ ((s.machine.setOperands t [.str "b".toUTF8, .table 3, .int 7]).reserve t 0).1) = true := by
    decide +kernel
  have held : (((World.start holding []).run 2).liveRefs 1).card = 1 := by decide +kernel
  have both := fun s t h active m listens => @roundTrip_run 1 s holding [] 2 t h active m listens
  generalize (World.start holding []).run 2 = w at ready held both ⊢
  obtain ⟨s, hs, ready⟩ := (Option.any_eq_true _ _).mp ready
  obtain ⟨t, active, ready⟩ := (Option.any_eq_true _ _).mp ready
  obtain ⟨listens, room, room'⟩ := of_decide_eq_true ready
  obtain ⟨r, hr⟩ := Multiset.card_pos_iff_exists_mem.mp (Nat.lt_of_lt_of_eq Nat.zero_lt_one held.symm)
  refine ⟨s, t, r, hs, active, listens, hr, ?_, ?_⟩
  · obtain ⟨us, s', run, -, all⟩ := (both s t hs active _ listens).1
      [.nil, .string "a\x00", .reference r, .callable 5] (by simpa [Value.ref?] using hr) room
    exact ⟨us, s', run, all⟩
  · obtain ⟨listens', on⟩ := Script.Machine.listens_setOperands listens
      [.str "b".toUTF8, .table 3, .int 7]
    have valid : ∀ text, Script.Value.str text ∈ [.int 7, .table 3, .str "b".toUTF8] →
        text.IsValidUTF8 := by
      intro text ht
      obtain rfl : text = "b".toUTF8 := by simpa using ht
      exact String.isValidUTF8 _
    obtain ⟨us, s', ys, run, operands, all⟩ := (both s t hs active _ listens').2
      [.int 7, .table 3, .str "b".toUTF8] [] on valid room'
    exact ⟨us, s', ys, run, operands.trans (List.append_nil _), all⟩

end Host

end ScriptBridge
