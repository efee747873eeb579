import ScriptBridge.Proofs.Collection
import ScriptBridge.Proofs.Stepping
import ScriptBridge.Proofs.Still

/-!
# ScriptBridge.Proofs.HostFrames

What the host does to the frames of a runtime.  While host code runs the runtime is `Idle`: the
host's frame is on top of the spine.  The host puts values on that frame, takes them off, and gives
the runtime something to do: a call, the results or the error of a host function, a collection, its
end.  From then on the runtime is `Over` the place at which the host waits, until it comes back.

Main facts:

* `Machine.Idle.startCall`, `Machine.Idle.strike`, `Machine.Idle.startClose` — what the host begins
  lies on the spine that it leaves;
* `Machine.Idle.returnFromHost`, `Machine.Idle.failFromHost` — a host function that is left gives
  way to what called it;
* `Machine.Over.invoked` — a host function that is called lies on what calls it;
* `Machine.idle_new` — a new runtime has the host's frame and no other.
-/

namespace ScriptBridge.Script

namespace Machine

variable {m m' : Machine} {S : Spine} {t : ThreadId} {info : FrameInfo} {upvalue : Value}
  {operands new : List Value} {w : Wait × Spine}

/-- Whether host code runs on a runtime: the host's frame is on top of its spine. -/
structure Idle (m : Machine) (S : Spine) : Prop where
  spine : ∃ S', m.Stacked S' ∧ m.spine S' = S
  host : ∃ (info : FrameInfo) (upvalue : Value) (operands : List Value) (rest : List Frame),
    m.frames = .host info upvalue operands :: rest

/-- The coroutine that runs, and the frame on top of it. -/
theorem Idle.top (h : m.Idle ((t, .host info upvalue operands) :: S)) :
    m.current = t ∧ ∃ rest S', m.frames = .host info upvalue operands :: rest ∧ m.Stacked S'
      ∧ S = rest.map (m.current, ·) ++ S' := by
  obtain ⟨⟨S', stacked, eq⟩, info', upvalue', operands', rest, hf⟩ := h
  rw [Machine.spine, hf] at eq
  obtain ⟨top, rfl⟩ := List.cons.inj eq
  obtain ⟨rfl, frame⟩ := Prod.mk.inj top
  exact ⟨rfl, rest, S', by rw [hf, ← frame], stacked, rfl⟩

/-- What is on top of an idle runtime. -/
theorem Idle.cons (h : m.Idle S) : ∃ (info : FrameInfo) (upvalue : Value) (operands : List Value)
    (S' : Spine), S = (m.current, .host info upvalue operands) :: S' := by
  obtain ⟨⟨S', -, rfl⟩, info, upvalue, operands, rest, hf⟩ := h
  exact ⟨info, upvalue, operands, rest.map (m.current, ·) ++ S', by rw [Machine.spine, hf]; rfl⟩

/-- The frames below the host's, if it is not the bottom one. -/
theorem Idle.deep (h : m.Idle ((t, .host info upvalue operands) :: S)) (deep : S ≠ []) :
    ∃ rest S', m.frames = .host info upvalue operands :: rest ∧ rest ≠ [] ∧ m.Stacked S'
      ∧ S = rest.map (m.current, ·) ++ S' := by
  obtain ⟨-, rest, S', hf, stacked, rfl⟩ := h.top
  refine ⟨rest, S', hf, fun bare => ?_, stacked, rfl⟩
  subst bare
  have pile := stacked.pile
  rw [hf] at pile
  cases pile with
  | root bottom =>
    have main : m.current = Machine.main := by
      by_contra other
      rw [rootOf, if_neg other] at bottom
      cases bottom
    have waits := stacked.waits
    rw [main] at waits
    cases waits with
    | main => exact deep rfl
    | more other => exact absurd rfl other

theorem Idle.still (h : m.Idle S) (still : m.Still m') : m'.Idle S := by
  obtain ⟨⟨S', stacked, rfl⟩, info, upvalue, operands, rest, hf⟩ := h
  refine ⟨⟨S', stacked.aside still.toAside (still.frames ▸ stacked.pile), ?_⟩,
    info, upvalue, operands, rest, still.frames.trans hf⟩
  rw [Machine.spine, Machine.spine, still.frames, still.current]

/-- The values on the host's frame may change. -/
theorem Idle.exchange (h : m.Idle ((t, .host info upvalue operands) :: S)) (aside : m.Aside m')
    (frames : ∀ rest, m.frames = .host info upvalue operands :: rest →
      m'.frames = .host info upvalue new :: rest) :
    m'.Idle ((t, .host info upvalue new) :: S) := by
  obtain ⟨rfl, rest, S', hf, stacked, rfl⟩ := h.top
  have hf' := frames rest hf
  have pile := stacked.pile
  rw [hf] at pile
  refine ⟨⟨S', stacked.aside aside (hf' ▸ pile.replace rfl id), ?_⟩, info, upvalue, new, rest, hf'⟩
  rw [Machine.spine, hf', aside.current]
  rfl

theorem Idle.adds (h : m.Idle ((t, .host info upvalue operands) :: S)) (adds : m.Adds m' new) :
    m'.Idle ((t, .host info upvalue (new ++ operands)) :: S) := by
  refine h.exchange adds.toAside fun rest hf => ?_
  obtain ⟨_, _, _, _, hf', hf''⟩ := adds.frames
  cases hf.symm.trans hf'
  exact hf''

theorem Idle.setOperands (h : m.Idle ((t, .host info upvalue operands) :: S)) (new : List Value) :
    (m.setOperands t new).Idle ((t, .host info upvalue new) :: S) := by
  obtain ⟨rfl, rest, -, hf, -, -⟩ := h.top
  refine h.exchange (by rw [setOperands_current hf]; exact ⟨rfl, rfl, rfl⟩) fun rest' hf' => ?_
  cases hf.symm.trans hf'
  rw [setOperands_current hf]

theorem Idle.operandsOf (h : m.Idle ((t, .host info upvalue operands) :: S)) :
    m.operandsOf t = operands := by
  obtain ⟨rfl, rest, -, hf, -, -⟩ := h.top
  exact operandsOf_current hf

/-! ## What the host begins -/

theorem takeArgs_eq (args operands acc : List Value) :
    takeArgs args.length (args ++ operands) acc = (args.reverse ++ acc, operands) := by
  induction args generalizing acc with
  | nil => rfl
  | cons v args ih => rw [List.length_cons, List.cons_append, takeArgs, ih]; simp

/-- A call that the host begins takes the function and the arguments off its frame. -/
theorem startCall_eq {args : List Value} {f : Value} {rest : List Frame}
    (hf : m.frames = .host info upvalue (args ++ f :: operands) :: rest) :
    m.startCall args.length = { m with
      frames := .mark ⟨(Frame.host info upvalue operands).top, info.depth, true⟩ .fromHost
        :: .host info upvalue operands :: rest
      mode := .call f args.reverse } := by
  rw [Machine.startCall, hf]
  dsimp only
  rw [takeArgs_eq, List.append_nil]

/-- A call that the host begins lies on its frame. -/
theorem Idle.startCall {args : List Value} {f : Value}
    (h : m.Idle ((t, .host info upvalue (args ++ f :: operands)) :: S)) :
    (m.startCall args.length).Over (.call, (t, .host info upvalue operands) :: S) := by
  obtain ⟨rfl, rest, S', hf, stacked, rfl⟩ := h.top
  let below : Frame := .host info upvalue operands
  have pile := stacked.pile
  rw [hf] at pile
  rw [startCall_eq hf]
  refine stacked.over ⟨rfl, rfl, rfl⟩ ?_ rfl ?_
  · refine (pile.replace (g := below) rfl id).push rfl (fun _ => rfl) (fun handling => ?_)
      fun _ collects => ?_
    · cases handling
    · cases collects
  · exact (Spine.under_of_ne (by simp [Frame.role, Mark.role])).trans (if_pos rfl)

theorem Stacked.collecting (h : m.Stacked S) (anchors : List Value) :
    (m.collect anchors).Stacked S ∧ (m.collect anchors).frames = m.frames
      ∧ (m.collect anchors).current = m.current ∧ (m.collect anchors).closing = m.closing := by
  obtain ⟨k, -, collected⟩ := m.collect_collected anchors
  exact ⟨(h.collect anchors).1, collected.frames, collected.current, collected.closing⟩

theorem strike_eq (anchors : List Value) (budget : Nat) (can : m.canCollect = true) :
    m.strike anchors budget = { m.collect anchors with
      frames := .library ⟨(m.collect anchors).stackTop, (m.collect anchors).topInfo.depth, true⟩
        (.sweeping budget) :: (m.collect anchors).frames
      collecting := true, mode := .deliver [] } := by
  rw [Machine.strike, if_pos can]

/-- A collection that nobody asked for lies on what it comes upon. -/
theorem Stacked.strike {f : Frame} {rest : List Frame} (h : m.Stacked S)
    (hf : m.frames = f :: rest) (lies : Role.on .sweeping f.role) (can : m.canCollect = true)
    (anchors : List Value) (budget : Nat) :
    ∃ g, g.role = .sweeping
      ∧ (m.strike anchors budget).Over (Spine.under ((m.current, g) :: m.spine S)) := by
  obtain ⟨stacked, frames, current, closing⟩ := h.collecting anchors
  have open' : m.closing = false := by
    unfold canCollect at can
    cases hc : m.closing with
    | false => rfl
    | true => simp [hc] at can
  rw [strike_eq anchors budget can]
  generalize m.collect anchors = n at stacked frames current closing ⊢
  have pile := stacked.pile
  rw [frames, hf] at pile
  refine ⟨.library ⟨n.stackTop, n.topInfo.depth, true⟩ (.sweeping budget), rfl, ?_⟩
  refine stacked.over ⟨rfl, rfl, rfl⟩ ?_
    ⟨by simp [Frame.role, Task.role], by simp [Frame.role, Task.role]⟩ ?_
  · rw [frames, hf]
    refine pile.push lies (fun _ => rfl) (fun handling => ?_) fun quiet _ => ?_
    · cases handling
    · rw [closing, open'] at quiet
      cases quiet
  · rw [frames, current]
    rfl

theorem Idle.strike (h : m.Idle S) (can : m.canCollect = true) (anchors : List Value)
    (budget : Nat) : (m.strike anchors budget).Over (.sweep, S) := by
  obtain ⟨⟨S', stacked, rfl⟩, info, upvalue, operands, rest, hf⟩ := h
  obtain ⟨g, role, struck⟩ := stacked.strike hf rfl can anchors budget
  suffices under : Spine.under ((m.current, g) :: m.spine S') = (.sweep, m.spine S') from
    under ▸ struck
  rw [Spine.under_of_ne (by simp [role]), Machine.spine, hf]
  exact (if_neg (by simp [role])).trans (if_pos ⟨role, rfl⟩)

/-- So it does in the middle of a script. -/
theorem Over.strike (h : m.Over w) (runs : m.pause? = none) (anchors : List Value)
    (budget : Nat) : (m.strike anchors budget).Over w := by
  obtain ⟨S, ⟨stacked, ready⟩, rfl⟩ := h
  by_cases can : m.canCollect = true
  · have top : m.mode = .run ∧ ∃ info a rest, m.frames = .script info a :: rest := by
      unfold canCollect at can
      rw [Bool.and_eq_true] at can
      have last := can.2
      split at last
      · rename_i mode frames
        exact ⟨mode, _, _, _, frames⟩
      · rename_i mode _
        rw [pause?, mode] at runs
        cases runs
      · cases last
    obtain ⟨-, info, a, rest, hf⟩ := top
    obtain ⟨g, role, struck⟩ := stacked.strike hf rfl can anchors budget
    suffices under : Spine.under ((m.current, g) :: m.spine S) = Spine.under (m.spine S) from
      under ▸ struck
    rw [Spine.under_of_ne (by simp [role]), Machine.spine, hf]
    refine Eq.trans ?_ (Spine.under_of_ne (by simp [Frame.role])).symm
    exact Spine.ground_apart (by simp [role]) (by simp [Frame.role])
  · rw [Machine.strike, if_neg can]
    exact ⟨S, ⟨stacked, ready⟩, rfl⟩

/-- The finalizers of a runtime that is closed lie at the bottom. -/
theorem Idle.startClose (h : m.Idle S) : m.startClose.Over (.close, []) := by
  obtain ⟨⟨S', stacked, -⟩, -⟩ := h
  refine ⟨[], ⟨⟨.main, .root ?_, stacked.parked, stacked.main⟩, ?_⟩, ?_⟩
  · rfl
  · exact ⟨by simp [Frame.role, Task.role], by simp [Frame.role, Task.role]⟩
  · rfl

/-! ## Host functions -/

/-- A host function that is called lies on what calls it. -/
theorem Over.invoked (h : m.Over w) (mode : m.mode = .paused .invoked) :
    ∃ info upvalue operands S, m.Idle ((m.current, .host info upvalue operands) :: S)
      ∧ S ≠ [] ∧ Spine.ground S = w := by
  obtain ⟨S, ⟨stacked, ready⟩, rfl⟩ := h
  obtain ⟨f, rest, hf⟩ := stacked.pile.nonempty
  rw [mode, hf] at ready
  obtain ⟨host, deep⟩ := ready
  obtain ⟨info, upvalue, operands, rfl⟩ := Frame.host_of_role host
  refine ⟨info, upvalue, operands, rest.map (m.current, ·) ++ S, ⟨⟨S, stacked, ?_⟩, _, _, _, _, hf⟩,
    by simp [deep], ?_⟩
  · rw [Machine.spine, hf]
    rfl
  · rw [Machine.spine, hf]
    rfl

/-- The results of a host function are handed to what called it. -/
theorem Idle.returnFromHost (h : m.Idle ((t, .host info upvalue operands) :: S)) (deep : S ≠ []) :
    m.returnFromHost.Over (Spine.ground S) := by
  obtain ⟨rest, S', hf, more, stacked, rfl⟩ := h.deep deep
  have lies := stacked.dropped (n := m.returnFromHost) hf (.inr ⟨rfl, more⟩)
    (by rw [Machine.returnFromHost, hf]; exact ⟨rfl, rfl, rfl⟩)
    (by rw [Machine.returnFromHost, hf]) fun _ _ _ calls => by
      rw [Machine.returnFromHost, hf]
      exact ready_deliver calls _
  rwa [Machine.spine, hf] at lies

/-- The error of a host function is raised where it was called. -/
theorem Idle.failFromHost {error : Value}
    (h : m.Idle ((t, .host info upvalue (error :: operands)) :: S)) (deep : S ≠ []) :
    m.failFromHost.Over (Spine.ground S) := by
  obtain ⟨rest, S', hf, more, stacked, rfl⟩ := h.deep deep
  have failing : Failing m.frames := by
    rw [hf]
    exact ⟨by simp [Frame.role], by simp [Frame.role, Role.collects], fun _ => more⟩
  have raised := stacked.raise failing m.topInfo.depth error
  rw [Machine.failFromHost, hf]
  rwa [Machine.spine, hf] at raised

/-! ## What the runtime asks for -/

/-- A handle was released. -/
theorem Over.released {target : Value} (h : m.Over w) (mode : m.mode = .paused (.releasing target)) :
    (m.deliver []).Over w := by
  obtain ⟨S, ⟨stacked, ready⟩, rfl⟩ := h
  obtain ⟨f, rest, hf⟩ := stacked.pile.nonempty
  rw [mode, hf] at ready
  exact stacked.over ⟨rfl, rfl, rfl⟩ stacked.pile (hf ▸ ready_deliver ready []) rfl

/-- A collection that a script asked for was made. -/
theorem Over.collected (h : m.Over w) (mode : m.mode = .paused .collecting) (anchors : List Value) :
    ((m.collect anchors).deliver []).Over w := by
  obtain ⟨S, ⟨stacked, ready⟩, rfl⟩ := h
  obtain ⟨f, rest, hf⟩ := stacked.pile.nonempty
  rw [mode, hf] at ready
  have role : f.role = .collecting := ready
  obtain ⟨stacked', frames, current, -⟩ := stacked.collecting anchors
  have same := (stacked.collect anchors).2
  generalize m.collect anchors = n at stacked' frames same ⊢
  refine stacked'.over ⟨rfl, rfl, rfl⟩ stacked'.pile ?_ (congrArg Spine.under same)
  change Mode.Ready (.deliver []) n.frames
  rw [frames, hf]
  exact ⟨by simp [role], by simp [role]⟩

/-- What the machine waits for in the middle of what the host began. -/
theorem Over.pause {p : Pause} (h : m.Over w) (mode : m.mode = .paused p) :
    p = .invoked ∨ (∃ target, p = .releasing target) ∨ p = .collecting := by
  obtain ⟨S, ⟨stacked, ready⟩, rfl⟩ := h
  obtain ⟨f, rest, hf⟩ := stacked.pile.nonempty
  rw [mode, hf] at ready
  cases p with
  | invoked => exact .inl rfl
  | releasing target => exact .inr (.inl ⟨target, rfl⟩)
  | collecting => exact .inr (.inr rfl)
  | returned | raised | closed | swept => exact ready.elim

theorem Over.still (h : m.Over w) (still : m.Still m') : m'.Over w := by
  obtain ⟨S, ⟨stacked, ready⟩, rfl⟩ := h
  refine stacked.over still.toAside (still.frames ▸ stacked.pile) ?_ ?_
  · rw [still.frames, still.mode]
    exact ready
  · rw [still.frames, Machine.spine]

/-! ## What comes back to the host -/

/-- The host's frame is on top again when its call has ended. -/
theorem Answers.idle_call (h : Answers (.call, (t, .host info upvalue operands) :: S) m) :
    ∃ new, m.Idle ((t, .host info upvalue (new ++ operands)) :: S)
      ∧ (m.mode = .paused .returned ∨ m.mode = .paused .raised ∧ ∃ error, new = [error]) := by
  cases h with
  | ended new _ stacked hf mode =>
    refine ⟨new, ⟨⟨_, stacked, ?_⟩, _, _, _, _, hf⟩, mode⟩
    rw [Machine.spine, hf]
    rfl

theorem Answers.idle_sweep (h : Answers (.sweep, (t, .host info upvalue operands) :: S) m) :
    m.Idle ((t, .host info upvalue operands) :: S) ∧ m.mode = .paused .swept := by
  generalize eq : (Wait.sweep, (t, Frame.host info upvalue operands) :: S) = w at h
  cases h with
  | ended => cases (Prod.mk.inj eq).1
  | closed => cases (Prod.mk.inj eq).1
  | @swept _ S' stacked mode =>
    have spine := (Prod.mk.inj eq).2
    refine ⟨⟨⟨S', stacked, spine.symm⟩, ?_⟩, mode⟩
    obtain ⟨f, rest, hf⟩ := stacked.pile.nonempty
    rw [Machine.spine, hf] at spine
    obtain ⟨top, -⟩ := List.cons.inj spine
    exact ⟨info, upvalue, operands, rest, by rw [hf, ← (Prod.mk.inj top).2]⟩

theorem Answers.mode_close (h : Answers (.close, S) m) : m.mode = .paused .closed := by
  cases h with
  | closed mode _ => exact mode

theorem Answers.due_close (h : Answers (.close, S) m) : m.due = [] := by
  cases h with
  | closed _ due => exact due

end Machine

/-! ## A new runtime -/

namespace Machine

/-- What a runtime is while it is set up. -/
structure Bare (m : Machine) : Prop where
  frames : m.frames = [.host ⟨1, 0, true⟩ .nil []]
  threads : m.threads = #[some ⟨.active, [], none⟩]
  current : m.current = main
  closing : m.closing = false

theorem Bare.idle {m : Machine} (h : m.Bare) :
    m.Idle [(main, .host ⟨1, 0, true⟩ .nil [])] := by
  have one : ∀ c, m.thread? c = if c = main then some ⟨.active, [], none⟩ else none := by
    intro c
    rw [thread?, h.threads]
    cases c <;> rfl
  refine ⟨⟨[], ⟨?_, ?_, fun c t ht suspended => ?_, ?_⟩, ?_⟩, _, _, _, _, h.frames⟩
  · rw [h.current]
    exact .main
  · rw [h.frames]
    refine .root ?_
    rw [rootOf, h.current, h.closing]
    rfl
  · rw [one] at ht
    split at ht
    · obtain rfl := Option.some.inj ht
      cases suspended
    · cases ht
  · exact ⟨_, by rw [one, if_pos rfl], rfl⟩
  · rw [Machine.spine, h.frames, h.current]
    rfl

end Machine

namespace Startup

theorem bare_newTable (fields : List (String × Value)) : Preserves Machine.Bare (newTable fields) :=
  .modifyGet fun _ h => ⟨h.frames, h.threads, h.current, h.closing⟩

theorem bare_setField (id : TableId) (name : String) (v : Value) :
    Preserves Machine.Bare (setField id name v) :=
  .modify fun _ h => ⟨h.frames, h.threads, h.current, h.closing⟩

theorem bare_scripted (proto : Proto) : Preserves Machine.Bare (scripted proto) :=
  .bind (.modifyGet fun _ h => ⟨h.frames, h.threads, h.current, h.closing⟩) fun _ => .pure _

theorem bare_newUserdata (metatable : TableId) : Preserves Machine.Bare (newUserdata metatable) :=
  .bind (.modifyGet fun _ h => ⟨h.frames, h.threads, h.current, h.closing⟩) fun _ => .pure _

theorem bare_openLibraries (globals : TableId) : Preserves Machine.Bare (openLibraries globals) := by
  unfold openLibraries
  refine .bind (.forIn (fun f _ => ?_) _ _) fun _ => ?_
  · exact .bind (bare_setField _ _ _) fun _ => .pure _
  refine .bind (bare_scripted _) fun _ => .bind (bare_setField _ _ _) fun _ =>
    .bind (bare_setField _ _ _) fun _ => .bind (bare_setField _ _ _) fun _ =>
    .bind (bare_newTable _) fun loaded => ?_
  extract_lets openLibrary
  have opens : ∀ name more, Preserves Machine.Bare (openLibrary name more) := fun _ _ =>
    .bind (bare_newTable _) fun _ => .bind (bare_setField _ _ _) fun _ =>
      .bind (bare_setField _ _ _) fun _ => .pure _
  clear_value openLibrary
  refine .bind (opens _ _) fun _ => .bind (bare_scripted _) fun _ => .bind (bare_scripted _) fun _ =>
    .bind (bare_scripted _) fun _ => .bind (bare_scripted _) fun _ => .bind (bare_scripted _) fun _ =>
    .bind (bare_scripted _) fun _ => .bind (opens _ _) fun _ => .bind (bare_newTable _) fun _ => ?_
  refine .bind (bare_newTable _) fun _ => .bind (bare_newUserdata _) fun _ =>
    .bind (bare_newUserdata _) fun _ => .bind (bare_newUserdata _) fun _ => .bind (opens _ _) fun _ =>
    .bind (opens _ _) fun _ => .bind (opens _ _) fun _ => .bind (bare_newTable _) fun _ => ?_
  refine .bind (.modify fun _ h => ⟨h.frames, h.threads, h.current, h.closing⟩) fun _ =>
    .bind (opens _ _) fun _ => .bind (opens _ _) fun _ => .bind (opens _ _) fun _ =>
    .bind (bare_newTable _) fun _ => .bind (bare_newTable _) fun _ => .bind (opens _ _) fun _ => ?_
  exact .modify fun _ h => ⟨h.frames, h.threads, h.current, h.closing⟩

end Startup

/-- A new runtime has the host's frame and no other. -/
theorem Machine.idle_new (stdlib : Bool) :
    (Machine.new stdlib).Idle [(main, .host ⟨1, 0, true⟩ .nil [])] := by
  have finish : Preserves Machine.Bare (do
      let handles ← Startup.newTable
        [("__name", .str (bytes handleTypeName)), ("__gc", .builtin .releaseHandle),
          ("__metatable", .bool false)]
      modify fun m => { m with handleMetatable := handles, mode := .paused .returned } :
      Startup.Build Unit) :=
    .bind (Startup.bare_newTable _) fun _ => .modify fun _ h =>
      ⟨h.frames, h.threads, h.current, h.closing⟩
  have rest : Preserves Machine.Bare (do
      let globals ← Startup.newTable []
      modify fun m => { m with globals := globals }
      if stdlib then Startup.openLibraries globals
      let handles ← Startup.newTable
        [("__name", .str (bytes handleTypeName)), ("__gc", .builtin .releaseHandle),
          ("__metatable", .bool false)]
      modify fun m => { m with handleMetatable := handles, mode := .paused .returned } :
      Startup.Build Unit) := by
    refine .bind (Startup.bare_newTable _) fun globals => .bind (.modify fun _ h =>
      ⟨h.frames, h.threads, h.current, h.closing⟩) fun _ => ?_
    cases stdlib with
    | false => exact finish
    | true => exact .bind (Startup.bare_openLibraries globals) fun _ => finish
  exact (rest _ ⟨rfl, rfl, rfl, rfl⟩).idle

end ScriptBridge.Script
