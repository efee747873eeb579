import ScriptBridge.Proofs.Operands
import ScriptBridge.Proofs.Restoring
import ScriptBridge.Proofs.RoundTrip
import ScriptBridge.Proofs.Still
import ScriptBridge.Proofs.Walks

/-!
# ScriptBridge.Proofs.Assignments

Globals that are assigned and read in one session.  An assignment is refused for the first of a few
reasons (`Session.Refuses`), and then nothing has changed; otherwise its value gets to the table that
the path leads to, and no other slot of any table changes.

Main facts:

* `Session.beginAssign_cases` — an assignment is refused with nothing done, or it begins;
* `Session.assigned` — what it has done when it ends;
* `Session.lookUp_cases` — what reading a global comes to.
-/

namespace ScriptBridge

open Script (TableId Machine)

namespace Session

variable {s s' : Session} {t : Script.ThreadId} {path : String} {p : Path} {v : Value}
  {create : Bool} {f : Failure}

/-- A session whose runtime may have found its stack full. -/
def withOverflow (s : Session) (full : Bool) : Session :=
  { s with machine := { s.machine with overflowed := full } }

theorem reserve_overflow (m : Machine) (t : Script.ThreadId) (n : Nat) :
    ∃ full, (m.reserve t n).2 = { m with overflowed := full } := by
  have all : ∀ top : Nat, ∃ full, (if m.overflowed then (decide (top + n < Script.stackLimit
      + Script.stackReserve), m) else if top + n ≤ Script.stackLimit then (true, m)
      else (false, { m with overflowed := true })).2 = { m with overflowed := full } := by
    intro top
    split
    · exact ⟨m.overflowed, rfl⟩
    · split
      · exact ⟨m.overflowed, rfl⟩
      · exact ⟨true, rfl⟩
  exact all _

/-! ## Assignments that are refused -/

/-- Whether a value may be handed to a session: references are its own. -/
def Owns (s : Session) (v : Value) : Prop := ∀ r, v.ref? = some r → r.session = s.id

/-- Why an assignment is refused; what is looked at first comes first. -/
inductive Refuses (s : Session) (t : Script.ThreadId) (path : String) (v : Value) (create : Bool) :
    Failure → Prop
  | malformed {f : Failure} : Path.parse path = .error f → Refuses s t path v create f
  | foreign {p : Path} {r : Ref} : Path.parse path = .ok p → v.ref? = some r → r.session ≠ s.id →
      Refuses s t path v create (.wrongSession s.id r.session)
  | full {p : Path} : Path.parse path = .ok p → s.Owns v → ¬ (s.machine.reserve t 5).1 →
      Refuses s t path v create (.runtime (.stackFull 5))
  | stops {p : Path} {fault : PathFault} : Path.parse path = .ok p → s.Owns v →
      (s.machine.reserve t 5).1 → p.Stops create s.machine fault →
      Refuses s t path v create (.invalidPath fault)

/-- An assignment is refused for one reason. -/
theorem Refuses.unique {g : Failure} (h : s.Refuses t path v create f)
    (h' : s.Refuses t path v create g) : f = g := by
  have foreign : ∀ {r : Ref}, v.ref? = some r → r.session ≠ s.id → ¬ s.Owns v :=
    fun hr other own => other (own _ hr)
  cases h with
  | malformed parsed =>
    cases h' with
    | malformed parsed' => exact Except.error.inj (parsed.symm.trans parsed')
    | foreign parsed' | full parsed' | stops parsed' => cases parsed.symm.trans parsed'
  | foreign parsed hr other =>
    cases h' with
    | malformed parsed' => cases parsed.symm.trans parsed'
    | foreign _ hr' _ => rw [Option.some.inj (hr.symm.trans hr')]
    | full _ own | stops _ own => exact absurd own (foreign hr other)
  | full parsed own none =>
    cases h' with
    | malformed parsed' => cases parsed.symm.trans parsed'
    | foreign _ hr other => exact absurd own (foreign hr other)
    | full => rfl
    | stops _ _ room => exact absurd room none
  | stops parsed own room stops =>
    cases h' with
    | malformed parsed' => cases parsed.symm.trans parsed'
    | foreign _ hr other => exact absurd own (foreign hr other)
    | full _ _ none => exact absurd room none
    | stops parsed' _ _ stops' =>
      cases parsed.symm.trans parsed'
      rw [stops.unique stops']

/-- What an assignment is refused for says when its path is to blame. -/
theorem refuses_invalidPath (fault : PathFault) : s.Refuses t path v create (.invalidPath fault)
    ↔ ([] ∈ Path.split path.toList ∧ fault = .malformed path)
      ∨ ∃ p, Path.parse path = .ok p ∧ s.Owns v ∧ (s.machine.reserve t 5).1
        ∧ p.Stops create s.machine fault := by
  constructor
  · intro h
    cases h with
    | malformed parsed =>
      obtain ⟨empty, eq⟩ := Path.parse_error.mp parsed
      cases eq
      exact .inl ⟨empty, rfl⟩
    | stops parsed own room stops => exact .inr ⟨_, parsed, own, room, stops⟩
  · rintro (⟨empty, rfl⟩ | ⟨p, parsed, own, room, stops⟩)
    · exact .malformed (Path.parse_error.mpr ⟨empty, rfl⟩)
    · exact .stops parsed own room stops

/-- An assignment whose walk leads to a table is not refused. -/
theorem not_refuses (rooted : s.machine.Rooted) (parsed : Path.parse path = .ok p) (own : s.Owns v)
    (room : (s.machine.reserve t 5).1) {T : TableId} {m : Machine}
    (walked : p.walk create s.machine = (.ok T, m)) : ¬ s.Refuses t path v create f := by
  intro refuses
  cases refuses with
  | malformed parsed' => cases parsed.symm.trans parsed'
  | foreign _ hr other => exact absurd (own _ hr) other
  | full _ _ none => exact absurd room none
  | stops parsed' _ _ stops =>
    cases parsed.symm.trans parsed'
    cases walked.symm.trans ((Path.walk_error rooted _).mpr ⟨stops, rfl⟩)

/-- An assignment is refused, and all that was made ready for it goes, or it begins: the value has
been made ready, and the table and the key are on the host's frame. -/
theorem beginAssign_cases (hs : s.Orderly) (active : s.active = some t)
    (listens : s.machine.Listens t) (rooted : s.machine.Rooted) (path : String) (v : Value)
    (create : Bool) :
    (∃ f s', s.Refuses t path v create f ∧ (beginAssign path v create).run.run s = (.error f, s')
      ∧ ∃ full, (s.withOverflow full).Since s')
    ∨ ∃ p T m out s₁, Path.parse path = .ok p ∧ s.Owns v ∧ (s.machine.reserve t 5).1
      ∧ p.walk create s.machine = (.ok T, m)
      ∧ (pack v).run.run s = (.ok out, s₁) ∧ s₁.machine = s.machine
      ∧ (beginAssign path v create).run.run s = (.ok (t, out), { s₁ with
          machine := (m.pushOperand t (.table T)).pushOperand t (.str p.last.toUTF8) }) := by
  have awake : thread.run.run s = (.ok t, s) := by rw [thread_run, active]; rfl
  have same : s.withOverflow s.machine.overflowed = s := rfl
  rw [beginAssign, try_bind_ok awake]
  cases parsed : Path.parse path with
  | error f =>
    have read : (MonadExcept.ofExcept (.error f : Except Failure Path) : Attempt Path).run.run s
      = (.error f, s) := rfl
    exact .inl ⟨f, s, .malformed parsed, try_bind_error read, _, by
      rw [same]
      exact .refl hs⟩
  | ok p =>
    have read : (MonadExcept.ofExcept (.ok p : Except Failure Path) : Attempt Path).run.run s
      = (.ok p, s) := rfl
    rw [try_bind_ok read]
    by_cases own : s.Owns v
    · obtain ⟨out, s₁, packed, since, beyond⟩ := (Since.refl hs).pack own
      rw [try_bind_ok packed]
      -- what was made ready goes when the rest fails
      have undone : ∀ {f : Failure} {s₂ : Session},
          (beginAssignAt t p create).run.run s₁ = (.error f, s₂) →
          s.Refuses t path v create f → (∃ full, s₂ = s₁.withOverflow full) →
          ∃ f s', s.Refuses t path v create f
            ∧ ((tryCatch (beginAssignAt t p create) fun failure => do
                abandon [out]
                throw failure) >>= fun _ => pure (t, out) : Attempt _).run.run s₁ = (.error f, s')
            ∧ ∃ full, (s.withOverflow full).Since s' := by
        rintro f s₂ run refuses ⟨full, rfl⟩
        have kept : (s.withOverflow full).Since (s₁.withOverflow full) :=
          { since with machine := by rw [withOverflow, withOverflow, since.machine] }
        refine ⟨f, ((abandon [out]).run (s₁.withOverflow full)).2, refuses, try_bind_error ?_, full,
          kept.abandon fun o ho k hk => ?_⟩
        · rw [ExceptT.run_tryCatch, stateM_run_bind, run]
          rfl
        · obtain rfl := List.mem_singleton.mp ho
          exact beyond k hk
      by_cases room : (s.machine.reserve t 5).1
      · have reserved : (reserve t 5).run.run s₁ = (.ok (), s₁) := by
          rw [reserve_run, since.machine, if_pos room, Machine.reserve_of_room room, ← since.machine]
        have hears : s₁.machine.Listens t := since.machine ▸ listens
        have all : s₁.height = (s₁.machine.operandsOf t).length := by
          rw [height, since.active, active]
        have begins := beginAssignAt_run s₁ t p create
        rw [try_bind_ok reserved] at begins
        cases run : p.walk create s.machine with
        | mk r m =>
          have run₁ : p.walk create s₁.machine = (r, m) := since.machine ▸ run
          cases r with
          | ok T =>
            refine .inr ⟨p, T, m, out, s₁, rfl, own, room, run, packed, since.machine, ?_⟩
            rw [try_bind_ok (walk_ok hears _ run₁)] at begins
            rw [try_bind_ok (try_tryCatch_ok begins)]
            rfl
          | error fault =>
            obtain ⟨stops, rfl⟩ := (Path.walk_error rooted fault).mp run
            rw [try_bind_error (walk_error hears all run₁)] at begins
            refine .inl (undone begins (.stops parsed own room stops) ⟨s₁.machine.overflowed, ?_⟩)
            rw [← since.machine]
            rfl
      · obtain ⟨full, overflow⟩ := reserve_overflow s.machine t 5
        have refused : (reserve t 5).run.run s₁
            = (.error (.runtime (.stackFull 5)), s₁.withOverflow full) := by
          rw [reserve_run, since.machine, if_neg room, overflow, withOverflow, since.machine]
        have begins := beginAssignAt_run s₁ t p create
        rw [try_bind_error refused] at begins
        exact .inl (undone begins (.full parsed own room) ⟨full, rfl⟩)
    · obtain ⟨r, hr⟩ := not_forall.mp own
      obtain ⟨hv, foreign⟩ := Classical.not_imp.mp hr
      exact .inl ⟨_, s, .foreign parsed hv foreign, try_bind_error (pack_foreign hv foreign), _,
        by
          rw [same]
          exact .refl hs⟩

/-! ## Assignments that are made -/

/-- A value that is put on the host's frame is put there, and changes no table. -/
theorem push_aside {out : Outbound} {owner : Option CallableId}
    (run : (push t out).run.run s = (.ok owner, s')) :
    ∃ x, s'.machine = (s.machine.pushOperand t x).withObjects s'.machine
      ∧ s'.machine.tables = s.machine.tables ∧ s'.cells = s.cells := by
  by_cases pinned : ∃ handle, out.cell?.bind s.cell? = some (.pinned handle)
  · obtain ⟨handle, hc⟩ := pinned
    cases hf : s.pins.get? handle with
    | none =>
      have fails : (repin out).run.run s = (.error (.notCallable handle), s) := by
        rw [repin, try_get_bind, hc]
        simp only [hf]
        rfl
      cases run.symm.trans (try_bind_error fails)
    | some g =>
      have twice : s.pins.repin handle = some (s.pins.pin g) := by
        rw [Registry.repin, hf, Option.map_some]
      have again : (repin out).run.run s
          = (.ok (some (s.pins.next, g)), { s with pins := (s.pins.pin g).2 }) := by
        rw [repin, try_get_bind, hc]
        simp only [twice, hf]
        rfl
      have built : s'.machine
          = s.machine.newHostFunction.2.2.pushOperand t s.machine.newHostFunction.2.1 :=
        congrArg (fun r => r.2.machine) (run.symm.trans (try_bind_ok again))
      obtain ⟨aside, tables⟩ := s.machine.newHostFunction_aside
      generalize s.machine.newHostFunction = made at aside tables built
      have there : made.2.2.pushOperand t made.2.1
          = (s.machine.pushOperand t made.2.1).withObjects made.2.2 := by
        conv_lhs => rw [aside]
        exact Machine.setOperands_withObjects _ _ _ _
      exact ⟨made.2.1, by rw [built, there]; rfl, by rw [built, there]; exact tables,
        congrArg (fun r => r.2.cells) (run.symm.trans (try_bind_ok again))⟩
  · rw [push_run_of_unpinned fun handle hc => pinned ⟨handle, hc⟩] at run
    obtain ⟨-, rfl⟩ := Prod.mk.inj run
    exact ⟨s.valueOf out, rfl, Machine.tables_setOperands _ _ _, rfl⟩

/-- The value of an assignment that has begun is put on the host's frame, and then into the table
that the path leads to. -/
theorem assigned (hs : s.Orderly) (listens : s.machine.Listens t) {T : TableId} {m : Machine}
    {out : Outbound} {s₁ : Session} (walked : p.walk create s.machine = (.ok T, m))
    (own : s.Owns v) (known : ∀ r, v.ref? = some r → ∃ x, s.object? r = some x)
    (packed : (pack v).run.run s = (.ok out, s₁)) :
    ∃ owner s₂ x, (push t out).run.run { s₁ with
        machine := (m.pushOperand t (.table T)).pushOperand t (.str p.last.toUTF8) }
        = (.ok owner, s₂)
      ∧ ((do finishAssign t; dropAbove t (s.machine.operandsOf t).length : Op Unit).run s₂).2
        = { s₂ with
          machine := s.machine.withObjects (s₂.machine.rawSet T (.str p.last.toUTF8) x) }
      ∧ s₂.machine.tables = m.tables ∧ s₂.cells = s₁.cells ∧ s.Grows s₂
      ∧ s₂.Becomes s₁.pins.issued v x := by
  obtain ⟨out', s₁', run, orderly₁, grows₁, machine₁, packs⟩ := pack_packs hs own
  obtain ⟨⟨⟩, rfl⟩ := Prod.mk.inj (packed.symm.trans run)
  generalize hold : s.machine.operandsOf t = old
  have heaped : m = { s.machine with tables := m.tables } := by
    have only := Path.walkFrom_aside p create [] p.parents s.machine.globals s.machine
    rw [Path.walk] at walked
    rwa [walked] at only
  have aside : m = s.machine.withObjects m := by
    generalize m.tables = heap at heaped
    subst heaped
    rfl
  have natives : m.natives = s.machine.natives := by rw [heaped]
  have userdata : m.userdata = s.machine.userdata := by rw [heaped]
  have hears : m.Listens t := by
    rw [aside]
    exact listens
  have same : m.operandsOf t = old := by rw [aside]; exact hold
  -- the table and the key are on the host's frame
  obtain ⟨listens₁, on₁⟩ := Machine.listens_pushOperand hears (.table T)
  obtain ⟨listens₂, on₂⟩ := Machine.listens_pushOperand listens₁ (.str p.last.toUTF8)
  rw [on₁, same] at on₂
  have put : (m.pushOperand t (.table T)).pushOperand t (.str p.last.toUTF8)
      = (s.machine.setOperands t (.str p.last.toUTF8 :: .table T :: old)).withObjects m := by
    rw [Machine.pushOperand, on₁, same, Machine.pushOperand, Machine.setOperands_setOperands]
    conv_lhs => rw [aside]
    exact Machine.setOperands_withObjects _ _ _ _
  generalize hm : (m.pushOperand t (.table T)).pushOperand t (.str p.last.toUTF8) = m₁ at *
  let s' : Session := { s₁ with machine := m₁ }
  have orderly' : s'.Orderly := { orderly₁ with }
  have grows' : s₁.Grows s' := { Retains.refl 0 s₁ with
    handles := fun _ _ => rfl
    natives := by
      change s₁.machine.natives.size ≤ m₁.natives.size
        ∧ ∀ i < s₁.machine.natives.size, m₁.natives[i]? = s₁.machine.natives[i]?
      have same : m₁.natives = s.machine.natives := by
        rw [put]
        exact natives
      rw [same, machine₁]
      exact ⟨Nat.le_refl _, fun _ _ => rfl⟩
    userdata := by
      change s₁.machine.userdata.size ≤ m₁.userdata.size
        ∧ ∀ i < s₁.machine.userdata.size, m₁.userdata[i]? = s₁.machine.userdata[i]?
      have same : m₁.userdata = s.machine.userdata := by
        rw [put]
        exact userdata
      rw [same, machine₁]
      exact ⟨Nat.le_refl _, fun _ _ => rfl⟩
    shared := by
      change m₁.handleMetatable = s₁.machine.handleMetatable
      rw [put, machine₁]
      exact Machine.handleMetatable_setOperands _ _ _
    cells := fun _ _ h => h
    next := Nat.le_refl _
    issuing := Nat.le_refl _ }
  obtain ⟨owner, s₂, x, pushed, orderly₂, grows₂, listens', on, becomes⟩ :=
    push_becomes orderly' listens₂ (Nat.le_refl s₁.pins.issued) (packs.grow grows')
      fun r hr => by
        obtain ⟨x, hx⟩ := known r hr
        exact ⟨x, grows'.object? (grows₁.object? hx)⟩
  obtain ⟨y, rest, tables, cells⟩ := push_aside pushed
  have bare : s₂.machine.setOperands t old = s.machine.withObjects s₂.machine := by
    have back : ((s.machine.setOperands t (.str p.last.toUTF8 :: .table T :: old)).setOperands t
        (y :: m₁.operandsOf t)).setOperands t old = s.machine := by
      rw [Machine.setOperands_setOperands, Machine.setOperands_setOperands, ← hold,
        Machine.setOperands_operandsOf]
    have under : m₁.pushOperand t y
        = ((s.machine.setOperands t (.str p.last.toUTF8 :: .table T :: old)).setOperands t
          (y :: m₁.operandsOf t)).withObjects m := by
      rw [Machine.pushOperand]
      generalize y :: m₁.operandsOf t = vs
      rw [put]
      exact Machine.setOperands_withObjects _ _ _ _
    have rest : s₂.machine = (m₁.pushOperand t y).withObjects s₂.machine := rest
    conv_lhs => rw [rest, under]
    rw [Machine.setOperands_withObjects, Machine.setOperands_withObjects, back]
    rfl
  have heap : s₂.machine.tables = m.tables := by
    rw [tables]
    change m₁.tables = _
    rw [put]
    rfl
  refine ⟨owner, s₂, x, pushed, ?_, heap, cells, grows₁.trans (grows'.trans grows₂), becomes⟩
  rw [finishAssign_run listens' (on.trans (congrArg (x :: ·) on₂)), ← Machine.setOperands_rawSet, bare]
  rfl

/-- What a value that was given to a session is for the runtime: a reference denotes what it did
before it was given. -/
def Delivered (s s' : Session) : Value → Script.Value → Prop
  | .callable f, x => s'.Hosts 0 x f
  | v, x => s.Becomes 0 v x

/-! ## Reading globals -/

/-- What looking a global up comes to, once its path is read. -/
theorem lookUp_run (active : s.active = some t) (listens : s.machine.Listens t)
    (rooted : s.machine.Rooted) (parsed : Path.parse path = .ok p) :
    ((s.machine.reserve t 4).1 = false ∧ ∃ full, (lookUp path).run.run s
        = (.error (.runtime (.stackFull 4)), s.withOverflow full))
    ∨ ((s.machine.reserve t 4).1 ∧ ∃ fault, p.Stops false s.machine fault
      ∧ (lookUp path).run.run s = (.error (.invalidPath fault), s))
    ∨ ((s.machine.reserve t 4).1 ∧ ∃ T, s.machine.Names p.parents T
      ∧ (lookUp path).run.run s = ((toCell (s.machine.rawGet T (.str p.last.toUTF8)) : Attempt _)
        >>= unpack).run.run s) := by
  have awake : thread.run.run s = (.ok t, s) := by rw [thread_run, active]; rfl
  have read : (MonadExcept.ofExcept (Path.parse path) : Attempt Path).run.run s = (.ok p, s) := by
    rw [parsed]
    rfl
  cases room : (s.machine.reserve t 4).1 with
  | false =>
    obtain ⟨full, overflow⟩ := reserve_overflow s.machine t 4
    refine .inl ⟨rfl, full, ?_⟩
    have refused : (reserve t 4).run.run s
        = (.error (.runtime (.stackFull 4)), s.withOverflow full) := by
      rw [reserve_run, room, overflow]
      rfl
    rw [lookUp, try_bind_ok awake, try_get_bind, try_bind_ok read, try_bind_error refused]
  | true =>
    refine .inr ?_
    have reserved : (reserve t 4).run.run s = (.ok (), s) := by
      rw [reserve_run, room, if_pos rfl, Machine.reserve_of_room room]
    rw [lookUp_walks active listens parsed reserved]
    obtain ⟨T, named, run⟩ | ⟨h, -⟩ | ⟨fault, stops, run⟩ := p.walk_cases false rooted
    · exact .inr ⟨rfl, T, named, by rw [run]⟩
    · cases h
    · exact .inl ⟨rfl, fault, stops, by rw [run]⟩

/-- A value that cannot be read is a string that is no text. -/
theorem unpack_error {c : Option CellId} (run : (unpack c).run.run s = (.error f, s')) :
    ∃ cause, f = .unsupportedType cause := by
  cases c with
  | none => cases run
  | some k =>
    rw [unpack, try_get_bind] at run
    cases hc : s.cell? k with
    | none => rw [hc] at run; cases run
    | some c =>
      rw [hc] at run
      cases c with
      | number | boolean | object | pinned => cases run
      | string b =>
        simp only [try_lift_bind] at run
        cases hb : Utf8.decode b with
        | ok text => rw [hb] at run; cases run
        | error fault =>
          rw [hb] at run
          cases run
          exact ⟨_, rfl⟩
      | function a native => cases native <;> cases run

/-- A path that leads to a table is read as what is there. -/
theorem lookUp_reads (hs : s.Orderly) (active : s.active = some t) (listens : s.machine.Listens t)
    (rooted : s.machine.Rooted) (parsed : Path.parse path = .ok p) (room : (s.machine.reserve t 4).1)
    {T : TableId} (named : s.machine.Names p.parents T)
    {x : Script.Value} (there : s.machine.rawGet T (.str p.last.toUTF8) = x)
    (valid : ∀ b, x = .str b → ∃ text, Utf8.decode b = .ok text) :
    ∃ u s', (lookUp path).run.run s = (.ok u, s') ∧ s'.machine = s.machine ∧ s'.Reads x u := by
  obtain ⟨full, -⟩ | ⟨-, fault, stops, -⟩ | ⟨-, T', named', run⟩ :=
    lookUp_run active listens rooted parsed
  · cases room.symm.trans full
  · exact absurd named stops.not_named
  · obtain rfl := named.unique named'
    rw [there] at run
    obtain ⟨c, s₁, stored, orderly₁, -, machine₁, inCell, -⟩ := toCell_inCell hs x
    obtain ⟨u, s₂, read, -, -, machine₂, reads, -⟩ := unpack_reads orderly₁ inCell valid
    refine ⟨u, s₂, ?_, machine₂.trans machine₁, reads⟩
    rw [run, try_lift_bind, stored, read]

/-- A global is not found if, and only if, its path has an empty segment, or there is room and the
walk stops. -/
theorem lookUp_invalidPath (active : s.active = some t) (listens : s.machine.Listens t)
    (rooted : s.machine.Rooted) (path : String) (fault : PathFault) :
    (∃ s', (lookUp path).run.run s = (.error (.invalidPath fault), s'))
      ↔ Path.parse path = .error (.invalidPath fault)
        ∨ ∃ p, Path.parse path = .ok p ∧ (s.machine.reserve t 4).1
          ∧ p.Stops false s.machine fault := by
  cases parsed : Path.parse path with
  | error f =>
    have awake : thread.run.run s = (.ok t, s) := by rw [thread_run, active]; rfl
    have read : (MonadExcept.ofExcept (Path.parse path) : Attempt Path).run.run s
        = (.error f, s) := by
      rw [parsed]
      rfl
    have run : (lookUp path).run.run s = (.error f, s) := by
      rw [lookUp, try_bind_ok awake, try_get_bind, try_bind_error read]
    rw [run]
    constructor
    · rintro ⟨s', eq⟩
      cases (Prod.mk.inj eq).1
      exact .inl rfl
    · rintro (eq | ⟨p, eq, -⟩)
      · cases eq
        exact ⟨s, rfl⟩
      · cases eq
  | ok p =>
    have only : ∀ {r : Prop}, ((Except.ok p : Except Failure Path) = .error (.invalidPath fault)
        ∨ ∃ q, (Except.ok p : Except Failure Path) = .ok q ∧ r ∧ q.Stops false s.machine fault)
        ↔ r ∧ p.Stops false s.machine fault := by
      intro r
      constructor
      · rintro (eq | ⟨q, eq, h⟩)
        · cases eq
        · cases eq
          exact h
      · exact fun h => .inr ⟨p, rfl, h⟩
    rw [only]
    obtain ⟨full, o, run⟩ | ⟨room, fault', stops, run⟩ | ⟨room, T, named, run⟩ :=
      lookUp_run active listens rooted parsed
    · rw [run, full]
      constructor
      · rintro ⟨s', eq⟩
        cases (Prod.mk.inj eq).1
      · rintro ⟨none, -⟩
        cases none
    · rw [run]
      constructor
      · rintro ⟨s', eq⟩
        cases (Prod.mk.inj eq).1
        exact ⟨room, stops⟩
      · rintro ⟨-, h⟩
        rw [h.unique stops]
        exact ⟨s, rfl⟩
    · rw [run]
      constructor
      · rintro ⟨s', eq⟩
        rw [try_lift_bind] at eq
        obtain ⟨cause, none⟩ := unpack_error eq
        cases none
      · rintro ⟨-, h⟩
        exact absurd named h.not_named

end Session

end ScriptBridge
