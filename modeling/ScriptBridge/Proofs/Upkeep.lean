import ScriptBridge.Proofs.Lineage
import ScriptBridge.Proofs.Reentry

/-!
# ScriptBridge.Proofs.Upkeep

What every session of a run has.  As long as it is open, the globals of its runtime are there: scripts
make no table go, whatever they change, and a collection keeps the globals.  Its pins are a registry
that has been used as any other (`SharedRegistry`): pinning, releasing and clearing are all that is
ever done to them.

Main results:

* `World.rooted_run` — the globals are there;
* `World.pins_shared` — the pins are what some uses make of a new registry.
-/

namespace ScriptBridge

/-! ## Globals -/

namespace Script.Machine

variable {m : Machine}

/-- The manner in which library functions work on the globals: these stay. -/
def rooting : Manner where
  rel := fun m m' => (m.Rooted → m'.Rooted) ∧ m'.closing = m.closing
  refl := fun _ => ⟨id, rfl⟩
  trans := fun h h' => ⟨fun rooted => h'.1 (h.1 rooted), h'.2.trans h.2⟩
  closing := fun h => h.2
  setMetatable := fun m id metatable =>
    ⟨(m.alike_setMetatable id metatable).rooted, (m.alike_setMetatable id metatable).closing⟩
  rawSet := fun _ _ _ _ => ⟨fun h => h.modifyTable _ _, rfl⟩
  stopped := fun _ _ => ⟨.of_same rfl rfl, rfl⟩
  reserve := fun m t n => ⟨(m.alike_reserve t n).rooted, (m.alike_reserve t n).closing⟩
  newThread := fun _ _ => ⟨.of_same rfl rfl, rfl⟩
  newNative := fun _ _ _ => ⟨.of_same rfl rfl, rfl⟩
  setNative := fun _ _ _ _ _ => ⟨.of_same rfl rfl, rfl⟩

theorem lax_rooting : rooting.Lax where
  setMetatable := by
    intro m v metatable
    unfold setMetatable
    split
    · exact rooting.setMetatable m _ metatable
    · exact ⟨fun h => (alike_noteFinalizer _ _ _).rooted (h.of_same rfl rfl),
        (alike_noteFinalizer _ _ _).closing⟩
    · exact ⟨.of_same rfl rfl, rfl⟩
  setBox := fun _ _ _ => ⟨.of_same rfl rfl, rfl⟩
  setUpvalue := fun _ _ _ _ => ⟨.of_same rfl rfl, rfl⟩

theorem Rooted.step (h : m.Rooted) : m.step.Rooted := by
  obtain kept | ⟨o, due, -, alike, -⟩ := step_cases (R := rooting)
    (fun alike => ⟨alike.rooted, alike.closing⟩) fun f args _ => f.act_lax lax_rooting m.closing args
  · exact kept.1 h
  · exact alike.rooted (h.of_same rfl rfl)

theorem Rooted.run (h : m.Rooted) (fuel : Nat) : (m.run fuel).Rooted := by
  induction fuel generalizing m with
  | zero => exact h
  | succ fuel ih =>
    rw [Machine.run]
    split
    · exact h
    · exact ih h.step

theorem Rooted.newHostFunction (h : m.Rooted) : m.newHostFunction.2.2.Rooted := by
  unfold Machine.newHostFunction
  dsimp only
  refine Rooted.of_same rfl rfl ((alike_noteFinalizer _ _ _).rooted (h.of_same rfl rfl))

theorem rooted_new (stdlib : Bool) : (Machine.new stdlib).Rooted := by
  have there : (Machine.new stdlib).tableOf? (.table (Machine.new stdlib).globals)
      = some (Machine.new stdlib).globals := by cases stdlib <;> decide +kernel
  exact (tableOf?_eq_some.mp there).2

end Script.Machine

namespace Session

variable {s s' : Session}

theorem Move.rooted (h : s.Move s') (isOpen : s'.isOpen = true) (rooted : s.machine.Rooted) :
    s'.machine.Rooted := by
  cases h with
  | beside _ _ _ _ alike => exact alike.rooted rooted
  | built t pin =>
    exact (Script.Machine.alike_pushOperand _ t _).rooted rooted.newHostFunction
  | taken => exact rooted
  | collected anchored => exact rooted.collect anchored
  | began => exact rooted.of_same rfl rfl
  | closed => cases isOpen

theorem Moves.rooted (h : s.Moves s') (isOpen : s'.isOpen = true) (rooted : s.machine.Rooted) :
    s'.machine.Rooted := by
  induction h with
  | refl => exact rooted
  | tail _ move ih => exact move.rooted isOpen (ih (move.moves.isOpen isOpen))

/-- Pinning, releasing and clearing are all that is done to the pins. -/
theorem Moves.pins (h : s.Moves s') : s.pins.Later s'.pins := by
  induction h with
  | refl => exact .refl
  | tail _ move ih =>
    refine ih.trans ?_
    cases move with
    | beside _ _ _ pins _ => exact pins
    | built | taken | collected | began => exact .refl
    | closed => exact .clear .refl

end Session

/-! ## Pins -/

namespace SharedRegistry

variable {α : Type}

theorem performAll_concat (us : List (Use α)) (u : Use α) (s : SharedRegistry α) :
    ((performAll (us ++ [u])).run s).2 = ((perform u).run ((performAll us).run s).2).2 := by
  induction us generalizing s with
  | nil => rfl
  | cons first us ih => exact ih ((perform first).run s).2

/-- A value that does nothing when it is destroyed is destroyed. -/
theorem registry_release (s : SharedRegistry α) (h : Handle) :
    ((perform (.release h [])).run s).2.registry = (s.registry.release h).2 := by
  rw [perform, stateM_run_bind, release, stateM_run_bind, stateM_run_bind]
  split <;> rfl

end SharedRegistry

/-- Whatever pinning, releasing and clearing make of a new registry, uses do. -/
theorem Registry.Later.shared {α : Type} {r : Registry α} (h : Registry.empty.Later r) :
    ∃ uses : List (Use α), r = ((SharedRegistry.performAll uses).run .new).2.registry := by
  induction h with
  | refl => exact ⟨[], rfl⟩
  | pin _ a ih =>
    obtain ⟨uses, rfl⟩ := ih
    exact ⟨uses ++ [.pin a], by rw [SharedRegistry.performAll_concat]; rfl⟩
  | release _ k ih =>
    obtain ⟨uses, rfl⟩ := ih
    exact ⟨uses ++ [.release k []], by
      rw [SharedRegistry.performAll_concat, SharedRegistry.registry_release]⟩
  | clear _ ih =>
    obtain ⟨uses, rfl⟩ := ih
    exact ⟨uses ++ [.clear []], by rw [SharedRegistry.performAll_concat]; rfl⟩

/-! ## Runs -/

namespace Host.World

variable {program : List Step} {whims : List Whim} {n : Nat} {id : SessionId} {s : Session}
  {w₀ w : World}

/-- What new sessions have, and keep when they move, sessions have. -/
theorem Led.sessions {P : Session → Prop} (led : w₀.Led w)
    (starts : ∀ id options, P (Session.start id options)) (moves : ∀ s s', s.Moves s' → P s → P s')
    (before : ∀ (id : SessionId) (s : Session), w₀.sessions[id]? = some s → P s) (hs : w.sessions[id]? = some s) : P s := by
  cases hs₀ : w₀.sessions[id]? with
  | some s₀ =>
    obtain ⟨u, hu, moved⟩ := led.kept id s₀ hs₀
    cases hs.symm.trans hu
    exact moves s₀ s moved (before id s₀ hs₀)
  | none =>
    obtain ⟨-, options, moved⟩ := led.fresh id s hs hs₀
    exact moves _ s moved (starts id options)

/-- What runtimes keep, too, when they run, all sessions of a run have. -/
theorem sessions_run {P : Session → Prop} (starts : ∀ id options, P (Session.start id options))
    (moves : ∀ s s', s.Moves s' → P s → P s')
    (runs : ∀ s k, P s → P { s with machine := s.machine.run k })
    (hs : ((start program whims).run n).sessions[id]? = some s) : P s := by
  induction n generalizing id s with
  | zero => cases hs
  | succ n ih =>
    refine (led_run program whims n).sessions starts moves (fun j u hu => ?_) hs
    cases before : ((start program whims).run n).sessions[j]? with
    | none =>
      rw [ran_absent before] at hu
      cases hu
    | some u₀ =>
      cases (ran_sessions before).symm.trans hu
      rw [stepped_eq_run]
      exact runs u₀ _ (ih before)

/-- The globals of an open session are there. -/
def Rooted (w : World) : Prop :=
  ∀ (id : SessionId) (s : Session), w.sessions[id]? = some s → s.isOpen → s.machine.Rooted

/-- The globals are there at any point of any run. -/
theorem rooted_run (program : List Step) (whims : List Whim) (n : Nat) :
    ((start program whims).run n).Rooted := fun _ _ hs =>
  sessions_run (P := fun s => s.isOpen → s.machine.Rooted)
    (fun _ options _ => Script.Machine.rooted_new options.stdlib)
    (fun _ _ moves rooted isOpen => moves.rooted isOpen (rooted (moves.isOpen isOpen)))
    (fun _ k rooted isOpen => (rooted isOpen).run k) hs

theorem Led.rooted (led : w₀.Led w) (rooted : w₀.Rooted) : w.Rooted := fun _ _ hs =>
  led.sessions (P := fun s => s.isOpen → s.machine.Rooted)
    (fun _ options _ => Script.Machine.rooted_new options.stdlib)
    (fun _ _ moves rooted isOpen => moves.rooted isOpen (rooted (moves.isOpen isOpen))) rooted hs

/-- The pins of a session are a registry that has been used as any other. -/
theorem pins_shared (hs : ((start program whims).run n).sessions[id]? = some s) :
    ∃ uses : List (Use CallableId), s.pins = ((SharedRegistry.performAll uses).run .new).2.registry :=
  Registry.Later.shared <| sessions_run (P := fun s => Registry.empty.Later s.pins)
    (fun _ _ => .refl) (fun _ _ moves later => later.trans moves.pins) (fun _ _ later => later) hs

end Host.World

end ScriptBridge
