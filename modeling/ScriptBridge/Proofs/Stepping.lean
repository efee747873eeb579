import ScriptBridge.Proofs.Instructions
import ScriptBridge.Proofs.LibraryCalls

/-!
# ScriptBridge.Proofs.Stepping

What a step of a runtime does to its frames.  `Goes w` says that the host still waits at `w`,
further down, or that the machine has come back to it there: with the results, or the error, of the
call that the host began on top of what was on its frame, at the end of a collection, or with all
finalizers run.

Each kind of step has a lemma of its own.  They rest on a few moves: something is put on what can
call it (`Stacked.push`), a frame that waited goes away (`Stacked.dropped`), a frame is changed
(`Stacked.replaced`), a coroutine is entered or left (`Stacked.enter`, `Stacked.handBack`).

Main facts:

* `Machine.Over.step` — one step;
* `Machine.Over.run` — any number of them.
-/

namespace ScriptBridge.Script

variable {f g : Frame} {rest frames : List Frame} {root : Role} {quiet : Bool}

namespace Role

theorem binds_of_collects {r : Role} (h : r.collects) : r.binds := by cases r <;> first | rfl | cases h

theorem of_collects {r : Role} (h : r.collects) :
    r ≠ .host ∧ r ≠ .waiting ∧ Role.on .finalizer r := by
  cases r <;> simp_all [collects, on]

/-- On what can call something, what is called may lie. -/
theorem on_of_calls {top below : Role} (h : below.calls)
    (kind : top.passes ∨ top = .host ∨ top = .collecting) : top.on below := by
  cases top <;> cases below <;> simp_all [calls, passes, on]

end Role

@[simp]
theorem Frame.role_withInfo (change : FrameInfo → FrameInfo) (f : Frame) :
    (f.withInfo change).role = f.role := by cases f <;> rfl

theorem binding_withInfo (change : FrameInfo → FrameInfo) (frames : List Frame) :
    binding (frames.map (Frame.withInfo change)) = binding frames := by
  simp [binding, Function.comp_def]

namespace Pile

/-- In a coroutine that can be left no finalizers are called. -/
theorem quieten (h : Pile root quiet frames) (loose : binding frames = false) :
    Pile root true frames := by
  induction h with
  | root bottom => exact .root bottom
  | on lies firm handles _ _ ih =>
    rw [binding, List.any_cons, Bool.or_eq_false_iff] at loose
    refine .on lies firm handles (fun _ collects => ?_) (ih loose.2)
    have binds := Role.binds_of_collects collects
    rw [loose.1] at binds
    cases binds

/-- In a coroutine that can be left the host does not wait. -/
theorem loose (h : Pile .coroutine quiet frames) (loose : binding frames = false) :
    ∀ f ∈ frames, f.role ≠ .fromHost ∧ f.role ≠ .finalizer := by
  induction h with
  | root bottom => simp [bottom]
  | @on f g rest lies _ _ _ _ ih =>
    rw [binding, List.any_cons, Bool.or_eq_false_iff] at loose
    refine List.forall_mem_cons.mpr ⟨⟨?_, ?_⟩, ih loose.2⟩
    · intro hr
      rw [hr] at loose
      cases loose.1
    · intro hr
      have next := loose.2
      rw [List.any_cons, Bool.or_eq_false_iff] at next
      rw [hr] at lies
      cases hg : g.role <;> simp_all [Role.on, Role.binds]

/-- A coroutine that can be left may be put elsewhere. -/
theorem withInfo (h : Pile root quiet frames) (change : FrameInfo → FrameInfo)
    (loose : binding frames = false) :
    Pile root quiet (frames.map (Frame.withInfo change)) := by
  induction h with
  | root bottom => exact .root ((Frame.role_withInfo _ _).trans bottom)
  | @on f g rest lies firm handles quiets _ ih =>
    rw [binding, List.any_cons, Bool.or_eq_false_iff] at loose
    refine .on ?_ (fun binds => ?_) ?_ ?_ (ih loose.2)
    · rw [Frame.role_withInfo, Frame.role_withInfo]
      exact lies
    · rw [← List.map_cons, binding_withInfo] at binds
      exact absurd binds (by rw [show binding (g :: rest) = false from loose.2]; decide)
    · rw [Frame.role_withInfo]
      simpa using handles
    · rw [Frame.role_withInfo]
      exact quiets

end Pile

namespace Machine

variable {m n : Machine} {S : Spine} {info : FrameInfo} {a : Activation} {depth : Nat}

theorem ready_call (calls : g.role.calls) (f : Value) (args : List Value) :
    Mode.Ready (.call f args) (g :: rest) := calls

/-- Something is put on what can call it. -/
theorem Stacked.push (h : m.Stacked S) (hf : m.frames = g :: rest) (calls : g.role.calls)
    (aside : m.Aside n) (frames : n.frames = f :: m.frames)
    (kind : f.role.passes ∨ f.role = .host ∨ f.role = .collecting)
    (firm : binding m.frames → f.info.fixed) (quiets : m.closing → ¬ f.role.collects)
    (ready : n.mode.Ready (f :: m.frames)) : n.Over (Spine.under (m.spine S)) := by
  have pile := h.pile
  rw [hf] at pile firm
  refine h.over aside ?_ (frames ▸ ready) ?_
  · rw [frames, hf]
    refine pile.push (Role.on_of_calls calls kind) firm (fun hr => ?_) quiets
    rw [hr] at kind
    simp [Role.passes] at kind
  · have next : g.role ≠ .host := fun hr => by rw [hr] at calls; cases calls
    rw [frames, spine, hf]
    refine Eq.trans ?_ (Spine.under_of_ne next).symm
    obtain passes | host | collecting := kind
    · exact Spine.under_plain (by cases hr : f.role <;> simp_all [Role.passes, Role.plain])
    · exact Spine.under_host host
    · exact Spine.under_plain (by rw [collecting]; rfl)

/-- The frame on top hands over to the one below. -/
theorem Stacked.dropped (h : m.Stacked S) (hf : m.frames = f :: rest)
    (passes : f.role.passes ∨ f.role = .host ∧ rest ≠ []) (aside : m.Aside n)
    (frames : n.frames = rest)
    (ready : ∀ g rest', rest = g :: rest' → g.role.calls → n.mode.Ready (g :: rest')) :
    n.Over (Spine.under (m.spine S)) := by
  obtain ⟨⟨g, rest', rfl, calls⟩, pile, under⟩ := h.pop hf passes
  exact h.over aside (frames ▸ pile) (frames ▸ ready g rest' rfl calls) (frames ▸ under)

/-- An error is raised where the frame on top was. -/
theorem Stacked.dropped_raise (h : m.Stacked S) (hf : m.frames = f :: rest)
    (passes : f.role.passes ∨ f.role = .host ∧ rest ≠ []) (aside : m.Aside n)
    (frames : n.frames = rest) (depth : Nat) (error : Value) :
    (n.raiseAt depth error).Over (Spine.under (m.spine S)) := by
  obtain ⟨⟨g, rest', rfl, calls⟩, pile, under⟩ := h.pop hf passes
  have stacked := h.aside aside (frames ▸ pile)
  have raised := stacked.raise (by rw [frames]; exact failing_of_calls calls) depth error
  rwa [spine, frames, aside.current, under] at raised

/-- What takes the place of the frame on top. -/
theorem Stacked.replaced (h : m.Stacked S) (hf : m.frames = f :: rest) (role : g.role = f.role)
    (plain : f.role.plain) (fixed : f.info.fixed → g.info.fixed) (aside : m.Aside n)
    (frames : n.frames = g :: rest) (ready : n.mode.Ready (g :: rest)) :
    n.Over (Spine.under (m.spine S)) := by
  have pile := h.pile
  rw [hf] at pile
  refine h.over aside (frames ▸ pile.replace role fixed) (frames ▸ ready) ?_
  rw [frames, spine, hf]
  exact (Spine.under_plain (role ▸ plain)).trans (Spine.under_plain plain).symm

/-! ## Instructions -/

/-- An instruction leaves the place at which the host waits alone. -/
theorem Stacked.carried {m₀ : Machine} (h : m.Stacked S) (hf : m.frames = .script info a :: rest)
    (aside : m.Aside m₀) (mode : m₀.mode = .run) (carried : Carried m₀ info rest n) :
    n.Over (Spine.under (m.spine S)) := by
  cases carried with
  | goes a' heaped mode' =>
    obtain ⟨current, closing, threads⟩ := aside.trans heaped.aside
    exact h.replaced (g := .script info a') hf rfl rfl id ⟨current, closing, threads⟩ rfl (by rw [go, mode', mode]; rfl)
  | calls a' await f args heaped =>
    obtain ⟨current, closing, threads⟩ := aside.trans heaped.aside
    exact h.replaced (g := .script info { a' with await }) hf rfl rfl id ⟨current, closing, threads⟩
      rfl rfl
  | @fails n a' what heaped =>
    obtain ⟨current, closing, threads⟩ := aside.trans heaped.aside
    have pile := h.pile
    rw [hf] at pile
    have stacked : (n.go info a' rest).Stacked S :=
      h.aside ⟨current, closing, threads⟩ (pile.replace rfl id)
    have under : Spine.under ((n.go info a' rest).spine S) = Spine.under (m.spine S) := by
      rw [spine, spine, hf, show (n.go info a' rest).current = m.current from current]
      exact (Spine.under_plain rfl).trans (Spine.under_plain rfl).symm
    rw [← under]
    exact stacked.raise (failing_of_calls rfl) _ _
  | returns values heaped =>
    obtain ⟨current, closing, threads⟩ := aside.trans heaped.aside
    exact h.dropped hf (.inl rfl) ⟨current, closing, threads⟩ rfl fun _ _ _ calls =>
      ready_deliver calls values
  | replaced f args heaped =>
    obtain ⟨current, closing, threads⟩ := aside.trans heaped.aside
    exact h.dropped hf (.inl rfl) ⟨current, closing, threads⟩ rfl fun _ _ _ calls => calls

theorem Frame.script_of_role (h : f.role = .script) : ∃ info a, f = .script info a := by
  cases f with
  | script info a => exact ⟨info, a, rfl⟩
  | host => cases h
  | library info task => cases task <;> cases h
  | mark info k => cases k <;> cases h

theorem Stacked.runStep (h : m.Stacked S) (mode : m.mode = .run)
    (hf : m.frames = .script info a :: rest) : m.runStep.Over (Spine.under (m.spine S)) := by
  have carried := exec_carried { m with frames := [] } info { a with pc := a.pc + 1 } rest
    (a.proto.code.getD a.pc (.leave 0 false))
  have run : m.runStep = exec { m with frames := [] } info { a with pc := a.pc + 1 } rest
      (a.proto.code.getD a.pc (.leave 0 false)) := by
    unfold Machine.runStep
    rw [hf]
  rw [run]
  have aside : m.Aside { m with frames := [] } := ⟨rfl, rfl, rfl⟩
  exact h.carried hf aside mode carried

/-! ## Switching between coroutines -/

theorem Stacked.failResumer (h : m.Stacked S) (hf : m.frames = f :: rest)
    (waits : f.role = .waiting) (error : Value) :
    (m.failResumer error).Over (Spine.under (m.spine S)) := by
  have passes : f.role.passes := by rw [waits]; rfl
  unfold Machine.failResumer
  split
  · rename_i info co rest' hf'
    obtain ⟨rfl, rfl⟩ := List.cons.inj (hf.symm.trans hf')
    exact h.dropped_raise (n := { m with frames := rest }) hf (.inl passes) ⟨rfl, rfl, rfl⟩ rfl _ _
  · refine h.dropped hf (.inl passes) ⟨rfl, rfl, rfl⟩ (by rw [deliver, Machine.pop, hf]; rfl) ?_
    exact fun _ _ _ calls => ready_deliver calls _

theorem Stacked.rewardResumer (h : m.Stacked S) (hf : m.frames = f :: rest)
    (waits : f.role = .waiting) (values : List Value) :
    (m.rewardResumer values).Over (Spine.under (m.spine S)) := by
  have passes : f.role.passes := by rw [waits]; rfl
  unfold Machine.rewardResumer
  split
  · rename_i info co rest' hf'
    obtain ⟨rfl, rfl⟩ := List.cons.inj (hf.symm.trans hf')
    exact h.dropped (n := deliver { m with frames := rest } values) hf (.inl passes)
      ⟨rfl, rfl, rfl⟩ rfl fun _ _ _ calls => ready_deliver calls _
  · refine h.dropped hf (.inl passes) ⟨rfl, rfl, rfl⟩ (by rw [deliver, Machine.pop, hf]; rfl) ?_
    exact fun _ _ _ calls => ready_deliver calls _

/-- The frame of a function that resumes a coroutine is put on its caller. -/
theorem Stacked.waiting (h : m.Stacked S) (hf : m.frames = g :: rest) (calls : g.role.calls)
    (waits : f.role = .waiting) (firm : binding m.frames → f.info.fixed) :
    Pile (m.rootOf m.current) m.closing (f :: m.frames) := by
  have pile := h.pile
  rw [hf] at pile firm ⊢
  refine pile.push (Role.on_of_calls calls (.inl (by rw [waits]; rfl))) firm (fun hr => ?_)
    fun _ collects => ?_
  · rw [waits] at hr
    cases hr
  · rw [waits] at collects
    cases collects

theorem enterCoroutine_thread? {task : Task} {fixed : Bool} {co : ThreadId}
    (here : (m.thread? m.current).isSome) (there : (m.thread? co).isSome) (other : co ≠ m.current)
    (d : ThreadId) :
    (resume.enterCoroutine task co depth fixed m).thread? d
      = if d = co then some ⟨.active, [], some m.current⟩
        else if d = m.current then some { m.thread m.current with
          frames := .library ⟨m.stackTop + 1, depth, fixed⟩ task :: m.frames }
        else m.thread? d := by
  rw [← thread?_setThread here d]
  exact thread?_setThread (by rw [thread?_setThread here, if_neg other, there]) d

/-- A coroutine that is resumed has the frames of the one that resumes it below its own. -/
theorem Stacked.enter (h : m.Stacked S) (hf : m.frames = g :: rest) (calls : g.role.calls)
    (waits : f.role = .waiting) (firm : binding m.frames → f.info.fixed) {co : ThreadId} {t : Thread}
    (there : m.thread? co = some t) (asleep : t.status ≠ .active) (current : n.current = co)
    (closing : n.closing = m.closing)
    (all : (m.thread? m.current).isSome → co ≠ m.current → ∀ d, n.thread? d
      = if d = co then some ⟨.active, [], some m.current⟩
        else if d = m.current then some { m.thread m.current with frames := f :: m.frames }
        else m.thread? d)
    (pile : Pile .coroutine m.closing n.frames)
    (loose : ∀ f ∈ n.frames, f.role ≠ .fromHost ∧ f.role ≠ .finalizer)
    (top : ∀ f rest, n.frames = f :: rest → ¬ f.role.collects) (ready : n.mode.Ready n.frames) :
    n.Over (Spine.under (m.spine S)) := by
  obtain ⟨⟨own, here, awake⟩, below⟩ := h.waits.active h.main
  have ne : ∀ {d : ThreadId} {u : Thread}, m.thread? d = some u → u.status = .active → d ≠ co := by
    rintro d u hu active rfl
    obtain rfl := Option.some.inj (there.symm.trans hu)
    exact asleep active
  have other := ne here awake
  have child : Machine.main ≠ co := by
    obtain ⟨u, hu, active⟩ := h.main
    exact ne hu active
  have apart : ∀ p ∈ S, p.1 ≠ co := fun p hp => by
    obtain ⟨u, hu, active⟩ := below p hp
    exact ne hu active
  have all := all (by rw [here]; rfl) (Ne.symm other)
  rw [thread_of here] at all
  have own : n.thread? m.current = some { own with frames := f :: m.frames } := by
    rw [all, if_neg other, if_pos rfl]
  refine ⟨(f :: m.frames).map (m.current, ·) ++ S, ⟨⟨?_, ?_, ?_, ?_⟩, ready⟩, ?_⟩
  · rw [current]
    refine .more (Ne.symm child) ((all co).trans (if_pos rfl)) rfl rfl own rfl waits ?_ ?_ ?_
    · rw [rootOf, closing]
      exact h.waiting hf calls waits firm
    · intro p hp
      obtain hp | hp := List.mem_append.mp hp
      · obtain ⟨f, -, rfl⟩ := List.mem_map.mp hp
        exact other
      · exact apart p hp
    · refine h.waits.congr closing (fun u hu => ?_) fun p hp => ?_
      · obtain rfl := Option.some.inj (here.symm.trans hu)
        exact ⟨_, own, rfl, rfl⟩
      · rw [all, if_neg (apart p hp), if_neg (h.waits.fresh p hp)]
  · rw [rootOf, current, if_neg (Ne.symm child), closing]
    exact pile
  · intro d u hd suspended
    rw [all] at hd
    split at hd
    · obtain rfl := Option.some.inj hd
      cases suspended
    · split at hd
      · obtain rfl := Option.some.inj hd
        rw [awake] at suspended
        cases suspended
      · exact h.parked d u hd suspended
  · obtain ⟨u, hu, active⟩ := h.main
    rw [all, if_neg child]
    by_cases onMain : Machine.main = m.current
    · exact ⟨_, if_pos onMain, awake⟩
    · exact ⟨u, by rw [if_neg onMain, hu], active⟩
  · refine (pile.under_eq loose top _ _).trans ?_
    have next : g.role ≠ .host := fun hr => by rw [hr] at calls; cases calls
    refine (Spine.ground_plain (by rw [waits]; rfl)).trans ?_
    change Spine.ground (m.spine S) = _
    rw [spine, hf]
    exact (Spine.under_of_ne next).symm

theorem Stacked.resume (h : m.Stacked S) (hf : m.frames = g :: rest) (calls : g.role.calls)
    {task : Task} (waits : task.role = .waiting) {fixed : Bool}
    (firm : binding m.frames → fixed) (co : ThreadId) (args : List Value) :
    (m.resume task co args depth fixed).Over (Spine.under (m.spine S)) := by
  let waiter : Frame := .library ⟨m.stackTop + 1, depth, fixed⟩ task
  have pile := h.waiting hf calls (f := waiter) waits firm
  have refused : ∀ what : String,
      ((m.push waiter).failResumer (.str (bytes what))).Over (Spine.under (m.spine S)) := by
    intro what
    have stacked : (m.push waiter).Stacked S := h.aside ⟨rfl, rfl, rfl⟩ pile
    have next : g.role ≠ .host := fun hr => by rw [hr] at calls; cases calls
    have under : Spine.under ((m.push waiter).spine S) = Spine.under (m.spine S) := by
      refine (Spine.under_plain (by rw [show waiter.role = .waiting from waits]; rfl)).trans ?_
      rw [spine, hf]
      exact (Spine.under_of_ne next).symm
    rw [← under]
    exact stacked.failResumer rfl waits _
  have there : (m.thread co).status ≠ .dead → m.thread? co = some (m.thread co) := by
    intro alive
    rw [thread, ← thread?] at alive ⊢
    cases hc : m.thread? co with
    | none =>
      rw [hc] at alive
      exact absurd rfl alive
    | some t => rfl
  unfold Machine.resume
  dsimp only
  split
  · exact refused _
  split
  · exact refused _
  · exact refused _
  · rename_i body ht
    have there := there (by simp [ht])
    split
    · exact refused _
    · refine h.enter hf calls (f := waiter) waits firm there (by simp [ht]) rfl rfl
        (fun here other => enterCoroutine_thread? here (by rw [there]; rfl) other) (.root rfl) ?_ ?_ rfl
      · simp [Frame.role, Mark.role]
      · intro f rest eq
        obtain ⟨rfl, -⟩ := List.cons.inj eq
        simp [Frame.role, Mark.role, Role.collects]
  · rename_i ht
    have there := there (by simp [ht])
    obtain ⟨pile, loose, top, rest', ht', ready⟩ := h.parked _ _ there ht
    split
    · exact refused _
    · have pile' := pile.withInfo (fun i => ⟨i.base, depth + 1, false⟩) loose
      refine h.enter hf calls (f := waiter) waits firm there (by simp [ht]) rfl rfl
        (fun here other => enterCoroutine_thread? here (by rw [there]; rfl) other) pile'.mono
        (pile'.loose ((binding_withInfo _ _).trans loose)) (fun f rest eq => ?_) ?_
      · simp only [ht', List.map_cons] at eq
        obtain ⟨rfl, -⟩ := List.cons.inj eq
        rw [Frame.role_withInfo]
        exact fun collects => by cases hr : top.role <;> simp_all [Role.calls, Role.collects]
      · simp only [ht', List.map_cons]
        exact ready_deliver (by rwa [Frame.role_withInfo]) args

/-- The running coroutine gives way to the one that waits for it, which is handed something. -/
theorem Stacked.handBack (h : m.Stacked S) (other : m.current ≠ Machine.main)
    (status : ThreadStatus) (frames : List Frame) (parked : status = .suspended → Parked frames)
    (under : Spine.under (m.spine S) = Spine.ground S) :
    ∃ f rest S', (m.leaveCoroutine status frames).Stacked S' ∧ f.role = .waiting
      ∧ (m.leaveCoroutine status frames).frames = f :: rest
      ∧ Spine.under ((m.leaveCoroutine status frames).spine S') = Spine.under (m.spine S) := by
  obtain ⟨r, f, rest, S', rfl, waits, hf, current, -, -, stacked⟩ :=
    h.leave other status frames parked
  refine ⟨f, rest, S', stacked, waits, hf, ?_⟩
  rw [under, spine, hf, current]
  exact Spine.under_of_ne (by simp [waits])

/-- A coroutine that yields is put aside as it is. -/
theorem Stacked.yield (h : m.Stacked S) (hf : m.frames = g :: rest) (calls : g.role.calls)
    {fixed : Bool} (firm : binding m.frames → fixed) (values : List Value) :
    (m.yield values depth fixed).Over (Spine.under (m.spine S)) := by
  have failing : Failing m.frames := by rw [hf]; exact failing_of_calls calls
  unfold Machine.yield
  split
  · exact h.raise failing _ _
  · rename_i other
    split
    · exact h.raise failing _ _
    · rename_i free
      have loose : binding m.frames = false := by
        cases hb : binding m.frames with
        | false => rfl
        | true => exact absurd (firm hb) free
      have pile := h.pile
      rw [rootOf, if_neg other] at pile
      have under : Spine.under (m.spine S) = Spine.ground S := by
        refine pile.under_eq (pile.loose loose) (fun f rest' eq => ?_) _ _
        obtain ⟨rfl, -⟩ := List.cons.inj (hf.symm.trans eq)
        intro collects
        cases hr : g.role <;> simp_all [Role.calls, Role.collects]
      obtain ⟨f, rest', S', stacked, waits, hf', under'⟩ :=
        h.handBack other .suspended m.frames (fun _ => ⟨pile.quieten loose, loose, g, rest, hf, calls⟩) under
      rw [← under']
      exact stacked.rewardResumer hf' waits values

/-- A coroutine that ends dies. -/
theorem Stacked.finish (h : m.Stacked S) (hf : m.frames = f :: rest) (bottom : f.role = .coroutine) :
    ∃ f rest S', (m.leaveCoroutine .dead []).Stacked S' ∧ f.role = .waiting
      ∧ (m.leaveCoroutine .dead []).frames = f :: rest
      ∧ Spine.under ((m.leaveCoroutine .dead []).spine S') = Spine.under (m.spine S) := by
  have pile := h.pile
  rw [hf] at pile
  cases pile with
  | root root =>
    have other : m.current ≠ Machine.main := by
      intro onMain
      rw [rootOf, if_pos onMain, bottom] at root
      split at root <;> cases root
    refine h.handBack other .dead [] (fun h => by cases h) ?_
    rw [spine, hf]
    exact Spine.under_plain (by rw [bottom]; rfl)
  | on lies =>
    rw [bottom] at lies
    rename Frame => g
    cases hg : g.role <;> simp_all [Role.on]

/-! ## Calls -/

theorem Stacked.overflow (h : m.Stacked S) (failing : Failing m.frames) :
    m.overflow.Over (Spine.under (m.spine S)) := by
  unfold Machine.overflow
  split
  · exact h.over ⟨rfl, rfl, rfl⟩ h.pile failing rfl
  · have stacked : ({ m with overflowed := true } : Machine).Stacked S :=
      h.aside ⟨rfl, rfl, rfl⟩ h.pile
    exact stacked.raise failing _ _

theorem Stacked.enterScript (h : m.Stacked S) (hf : m.frames = g :: rest) (calls : g.role.calls)
    {fixed : Bool} (firm : binding m.frames → fixed) (id : ClosureId) (args : List Value) :
    (m.enterScript id args depth fixed).Over (Spine.under (m.spine S)) := by
  unfold Machine.enterScript
  dsimp only
  generalize (if m.overflowed then stackLimit + stackReserve - 1 else stackLimit) = limit
  generalize m.stackTop + 1 + args.length + (m.closure id).proto.size
    + (if (m.closure id).proto.vararg then args.length + 1 else 0) = needed
  split
  · exact h.overflow (by rw [hf]; exact failing_of_calls calls)
  · exact h.push hf calls ⟨rfl, rfl, rfl⟩ rfl (.inl rfl) firm (fun _ collects => by cases collects) rfl

/-- What a library function asks for is done. -/
theorem Stacked.answer (h : m.Stacked S) (hf : m.frames = g :: rest) (calls : g.role.calls)
    {fixed : Bool} (firm : binding m.frames → fixed) {reply : Reply}
    (fits : reply.Fits m.closing) :
    (m.answer reply depth fixed).Over (Spine.under (m.spine S)) := by
  cases reply with
  | values vs => exact h.over ⟨rfl, rfl, rfl⟩ h.pile (hf ▸ ready_deliver calls vs) rfl
  | call task f args =>
    have role : (Frame.library ⟨m.stackTop + 1, depth, fixed⟩ task).role = .library := fits
    refine h.push hf calls ⟨rfl, rfl, rfl⟩ rfl (.inl (by rw [role]; rfl)) firm (fun _ collects => ?_) ?_
    · rw [role] at collects
      cases collects
    · exact ready_call (by rw [role]; rfl) f args
  | resume task co args => exact h.resume hf calls fits firm co args
  | yield args => exact h.yield hf calls firm args
  | collect =>
    exact h.push hf calls ⟨rfl, rfl, rfl⟩ rfl (.inr (.inr rfl)) firm
      (fun closing => by rw [show m.closing = false from fits] at closing; cases closing) rfl
  | release target => exact h.over ⟨rfl, rfl, rfl⟩ h.pile (hf ▸ calls) rfl

theorem Stacked.perform (h : m.Stacked S) (hf : m.frames = g :: rest) (calls : g.role.calls)
    {fixed : Bool} (firm : binding m.frames → fixed) {act : Act Reply}
    (meets : Meets .beside m.closing act (Reply.Fits m.closing)) (name : Bytes) (count : Nat) :
    (m.perform name act count depth fixed).Over (Spine.under (m.spine S)) := by
  have failing : Failing (g :: rest) := failing_of_calls calls
  unfold Machine.perform
  dsimp only
  generalize (if m.overflowed then stackLimit + stackReserve - 1 else stackLimit) = limit
  split
  · exact h.overflow (hf ▸ failing)
  obtain ⟨beside, fits⟩ := meets m rfl
  have stacked := h.beside beside
  rw [← beside.spine S]
  split
  · rename_i reply m' ran
    rw [ran] at beside stacked fits ⊢
    exact stacked.answer (beside.frames.trans hf) calls (beside.frames ▸ firm)
      (beside.closing ▸ fits reply rfl)
  · rename_i fault m' ran
    rw [ran] at beside stacked ⊢
    exact stacked.raise (beside.frames ▸ hf ▸ failing) _ _

theorem Stacked.callNative (h : m.Stacked S) (hf : m.frames = g :: rest) (calls : g.role.calls)
    {fixed : Bool} (firm : binding m.frames → fixed) (id : NativeId) (args : List Value) :
    (m.callNative id args depth fixed).Over (Spine.under (m.spine S)) := by
  unfold Machine.callNative
  dsimp only
  split
  · exact h.push hf calls ⟨rfl, rfl, rfl⟩ rfl (.inr (.inl rfl)) firm
      (fun _ collects => by cases collects) ⟨rfl, by simp [hf]⟩
  · split
    · exact h.resume hf calls rfl firm _ args
    · exact h.raise (hf ▸ failing_of_calls calls) _ _
  · exact h.perform hf calls firm (Library.nextMatch_fits _ id) _ _

theorem Stacked.callStep (h : m.Stacked S) (hf : m.frames = g :: rest) (calls : g.role.calls)
    (f : Value) (args : List Value) : (m.callStep f args).Over (Spine.under (m.spine S)) := by
  have failing : Failing m.frames := hf ▸ failing_of_calls calls
  have firm : binding m.frames → g.calleeNesting.2 = true := fun binds => by
    have pile := h.pile
    rw [hf] at pile binds
    exact pile.fixed binds
  unfold Machine.callStep
  rw [hf]
  dsimp only
  split
  · exact h.raise failing _ _
  split
  · exact h.over ⟨rfl, rfl, rfl⟩ h.pile failing rfl
  split
  · exact h.enterScript hf calls firm _ args
  · exact h.perform hf calls firm (Builtin.act_beside _ _ args) _ _
  · exact h.raise failing _ _
  · exact h.callNative hf calls firm _ args
  · split
    · exact h.raise failing _ _
    · exact h.over ⟨rfl, rfl, rfl⟩ h.pile (hf ▸ calls) rfl

/-! ## Going back to the host -/

/-- What the machine has for the host that waits: what has come of a call is on the host's frame, on
top of what was there; of one that has failed this is the error.  When it is closed no finalizer is
due. -/
inductive Answers : Wait × Spine → Machine → Prop
  | ended {m : Machine} {S : Spine} {info : FrameInfo} {upvalue : Value} {rest : List Frame}
      (new operands : List Value) : m.Stacked S →
      m.frames = .host info upvalue (new ++ operands) :: rest →
      m.mode = .paused .returned ∨ m.mode = .paused .raised ∧ (∃ error, new = [error]) →
      Answers (.call, (m.current, .host info upvalue operands) :: (rest.map (m.current, ·) ++ S)) m
  | swept {m : Machine} {S : Spine} : m.Stacked S → m.mode = .paused .swept →
      Answers (.sweep, m.spine S) m
  | closed {m : Machine} : m.mode = .paused .closed → m.due = [] → Answers (.close, []) m

theorem Answers.paused {w : Wait × Spine} (h : Answers w m) : ∃ p, m.mode = .paused p := by
  cases h with
  | ended _ _ _ _ mode => exact mode.elim (fun h => ⟨_, h⟩) fun h => ⟨_, h.1⟩
  | swept _ mode => exact ⟨_, mode⟩
  | closed mode _ => exact ⟨_, mode⟩

/-- Whether the machine goes on below the host, or has something for it. -/
def Goes (w : Wait × Spine) (m : Machine) : Prop := m.Over w ∨ Answers w m

theorem Frame.host_of_role (h : f.role = .host) :
    ∃ info upvalue operands, f = .host info upvalue operands := by
  cases f with
  | host info upvalue operands => exact ⟨info, upvalue, operands, rfl⟩
  | script => cases h
  | library info task => cases task <;> cases h
  | mark info k => cases k <;> cases h

/-- Below a call that the host began is its frame. -/
theorem Stacked.called (h : m.Stacked S) (hf : m.frames = f :: rest) (call : f.role = .fromHost) :
    ∃ info upvalue operands rest', rest = .host info upvalue operands :: rest'
      ∧ Pile (m.rootOf m.current) m.closing rest
      ∧ Spine.under (m.spine S)
        = (.call, (m.current, .host info upvalue operands) :: (rest'.map (m.current, ·) ++ S)) := by
  have pile := h.pile
  rw [hf] at pile
  cases pile with
  | root bottom =>
    have root := m.rootOf_cases m.current
    rw [← bottom, call] at root
    simp at root
  | @on _ g rest' lies =>
    have host : g.role = .host := by
      rw [call] at lies
      cases hg : g.role <;> simp_all [Role.on]
    obtain ⟨info, upvalue, operands, rfl⟩ := Frame.host_of_role host
    refine ⟨info, upvalue, operands, rest', rfl, by assumption, ?_⟩
    rw [spine, hf]
    refine (Spine.under_of_ne (by simp [call])).trans ?_
    exact if_pos call

/-- The call that the host began has come to an end. -/
theorem Stacked.ended (h : m.Stacked S) (hf : m.frames = f :: rest) (call : f.role = .fromHost)
    (new : List Value) {info : FrameInfo} {upvalue : Value} {operands : List Value}
    {rest' : List Frame} (below : rest = .host info upvalue operands :: rest') (aside : m.Aside n)
    (frames : n.frames = .host info upvalue (new ++ operands) :: rest')
    (mode : n.mode = .paused .returned ∨ n.mode = .paused .raised ∧ ∃ error, new = [error]) :
    Answers (Spine.under (m.spine S)) n := by
  obtain ⟨info', upvalue', operands', rest'', eq, pile, under⟩ := h.called hf call
  obtain ⟨same, rfl⟩ := List.cons.inj (below.symm.trans eq)
  cases same
  rw [under, ← aside.current]
  have pile' : Pile (m.rootOf m.current) m.closing n.frames := by
    rw [frames]
    exact (below ▸ pile).replace rfl id
  exact .ended new operands (h.aside aside pile') frames mode

/-! ## Finalizers -/

/-- A finalizer that has ended, well or not, gives way to the next. -/
theorem Stacked.finalized (h : m.Stacked S) (hf : m.frames = f :: rest)
    (finalizer : f.role = .finalizer) (aside : m.Aside n) (frames : n.frames = rest)
    {values : List Value} (mode : n.mode = .deliver values) : n.Over (Spine.under (m.spine S)) := by
  have pile := h.pile
  rw [hf] at pile
  cases pile with
  | root bottom =>
    have root := m.rootOf_cases m.current
    rw [← bottom, finalizer] at root
    simp at root
  | @on _ g rest' lies firm handles quiets below =>
    have collects : g.role.collects := by
      rw [finalizer] at lies
      cases hg : g.role <;> simp_all [Role.on, Role.collects]
    have next : g.role ≠ .host := fun hr => by rw [hr] at collects; cases collects
    refine h.over aside (frames ▸ below) ?_ ?_
    · rw [frames, mode]
      exact ⟨next, fun hr => by rw [hr] at collects; cases collects⟩
    · rw [frames, spine, hf]
      refine (Spine.under_of_ne next).trans (Eq.symm ?_)
      exact Spine.under_plain (by rw [finalizer]; rfl)

theorem Task.next?_role {task next : Task} (h : task.next? = some next) : next.role = task.role := by
  cases task with
  | sweeping n =>
    cases n with
    | zero => cases h
    | succ n =>
      cases h
      rfl
  | _ =>
    cases h
    rfl

/-- A collection that is over gives way to what it came upon. -/
theorem Stacked.endCollection (h : m.Stacked S) {task : Task}
    (hf : m.frames = .library info task :: rest) (collects : task.role.collects) {n : Machine}
    (aside : m.Aside n) (last : task.role = .collecting → n.due = []) :
    Goes (Spine.under (m.spine S)) (n.endCollection task rest) := by
  have pile := h.pile
  rw [hf] at pile
  unfold Machine.endCollection
  split
  · rename_i closing
    rw [aside.closing] at closing
    cases pile with
    | root bottom =>
      have main : m.current = Machine.main := by
        by_contra other
        rw [rootOf, if_neg other] at bottom
        rw [show task.role = .coroutine from bottom] at collects
        cases collects
      have none : S = [] := by
        have waits := h.waits
        rw [main] at waits
        cases waits with
        | main => rfl
        | more other => exact absurd rfl other
      subst none
      have under : Spine.under (m.spine []) = (.close, []) := by
        rw [spine, hf]
        exact Spine.under_of_ne (Role.of_collects collects).1
      rw [under]
      have bottom : task.role = .collecting := by
        rw [rootOf, if_pos main, closing] at bottom
        exact bottom
      exact .inr (.closed rfl (last bottom))
    | on _ _ _ quiets => exact absurd collects (quiets closing)
  · rename_i going
    have going : m.closing = false := by rw [← aside.closing]; exact Bool.eq_false_iff.mpr going
    obtain ⟨g, rest', rfl⟩ : ∃ g rest', rest = g :: rest' := by
      cases pile with
      | root bottom =>
        have root := m.rootOf_cases m.current
        rw [rootOf, going] at bottom
        split at bottom <;> rw [show task.role = _ from bottom] at collects <;> cases collects
      | on => exact ⟨_, _, rfl⟩
    have lies : task.role.on g.role := pile.lies
    have aside' : ∀ mode, m.Aside { n with frames := g :: rest', collecting := false, mode := mode } :=
      fun _ => ⟨aside.current, aside.closing, aside.threads⟩
    cases task with
    | collecting =>
      have calls : g.role.calls := by
        cases hg : g.role <;> simp_all [Task.role, Role.on, Role.calls]
      refine .inl (h.over (aside' _) pile.tail (ready_deliver calls _) ?_)
      rw [spine, hf]
      have next : g.role ≠ .host := fun hr => by rw [hr] at calls; cases calls
      exact (Spine.under_of_ne next).trans (Spine.under_plain rfl).symm
    | sweeping budget =>
      by_cases script : g.role = .script
      · obtain ⟨info, a, rfl⟩ := Frame.script_of_role script
        refine .inl (h.over (aside' _) pile.tail rfl ?_)
        rw [spine, hf]
        refine (Spine.under_of_ne (by simp [script])).trans (Eq.symm ?_)
        refine (Spine.under_of_ne (by simp [Frame.role, Task.role])).trans ?_
        exact Spine.ground_apart (by simp [Frame.role, Task.role]) (by simp [script])
      · have host : g.role = .host := by
          cases hg : g.role <;> simp_all [Task.role, Role.on]
        obtain ⟨info, upvalue, operands, rfl⟩ := Frame.host_of_role host
        have stacked := h.aside (aside' (.paused .swept)) pile.tail
        have under : Spine.under (m.spine S) = (.sweep, spine { n with
            frames := .host info upvalue operands :: rest', collecting := false,
            mode := .paused .swept } S) := by
          rw [spine, hf, spine, ← aside.current]
          refine (Spine.under_of_ne (by simp [Frame.role, Task.role])).trans ?_
          exact (if_neg (by simp [Frame.role, Task.role])).trans (if_pos ⟨rfl, rfl⟩)
        rw [under]
        exact .inr (.swept stacked rfl)
    | _ => cases collects

theorem Stacked.finalizeNext (h : m.Stacked S) {task : Task}
    (hf : m.frames = .library info task :: rest) (collects : task.role.collects)
    (aside : m.Aside n) : Goes (Spine.under (m.spine S)) (n.finalizeNext info task rest) := by
  have pile := h.pile
  rw [hf] at pile
  unfold Machine.finalizeNext
  split
  · rename_i object due task' _ next
    have role : (Frame.library info task').role = (Frame.library info task).role := Task.next?_role next
    obtain ⟨host, wait, lies⟩ := Role.of_collects (r := (Frame.library info task').role) (role ▸ collects)
    have same : Spine.under ((Frame.library info task' :: rest).map (m.current, ·) ++ S)
        = Spine.under (m.spine S) := by
      rw [spine, hf]
      refine (Spine.under_of_ne host).trans (.trans ?_ (Spine.under_of_ne (role ▸ host)).symm)
      exact Spine.ground_role role
    dsimp only
    split
    · exact .inl (h.over ⟨aside.current, aside.closing, aside.threads⟩ (pile.replace role id)
        ⟨host, wait⟩ same)
    · refine .inl (h.over ⟨aside.current, aside.closing, aside.threads⟩
        ((pile.replace role id).push lies (fun _ => rfl) (fun h => by cases h)
          fun _ h => by cases h) rfl ?_)
      · refine (Spine.under_plain rfl).trans (.trans ?_ same)
        exact (Spine.under_of_ne host).symm
  · rename_i none
    refine h.endCollection hf collects aside fun all => ?_
    cases task with
    | collecting =>
      cases hd : n.due with
      | nil => rfl
      | cons object due => exact absurd rfl (none object due _ hd)
    | _ => cases all

/-! ## Results and errors on their way down -/

/-- When a message handler has ended, its place is taken by what failed. -/
theorem Stacked.handled (h : m.Stacked S) (hf : m.frames = f :: rest)
    (handling : f.role = .handling) (aside : m.Aside n) (frames : n.frames = rest) {error : Value}
    (mode : n.mode = .unwind error) : n.Over (Spine.under (m.spine S)) := by
  have pile := h.pile
  rw [hf] at pile
  cases pile with
  | root bottom =>
    have root := m.rootOf_cases m.current
    rw [← bottom, handling] at root
    simp at root
  | @on _ g rest' lies firm handles quiets below =>
    have failing : Failing (g :: rest') := by
      refine ⟨?_, ?_, fun _ => handles handling⟩ <;>
        rw [handling] at lies <;> cases hg : g.role <;> simp_all [Role.on, Role.collects]
    refine h.over aside (frames ▸ below) ?_ ?_
    · rw [frames, mode]
      exact failing
    · rw [frames, spine, hf]
      refine Eq.symm ((Spine.under_of_ne (by simp [handling])).trans ?_)
      by_cases host : g.role = .host
      · refine Eq.trans ?_ (Spine.under_host host).symm
        refine (if_neg (by simp [handling])).trans ((if_neg ?_).trans (if_pos ⟨handling, host⟩))
        rw [handling]
        exact fun h => by cases h.1
      · exact (Spine.ground_apart (by simp [handling]) host).trans (Spine.under_of_ne host).symm

theorem Stacked.deliverStep (h : m.Stacked S) (values : List Value) (hf : m.frames = f :: rest)
    (host : f.role ≠ .host) (waits : f.role ≠ .waiting) :
    Goes (Spine.under (m.spine S)) (m.deliverStep values) := by
  unfold Machine.deliverStep
  rw [hf]
  dsimp only
  cases f with
  | script info a =>
    have aside : m.Aside { m with frames := [], mode := .run } := ⟨rfl, rfl, rfl⟩
    refine .inl ?_
    dsimp only
    split
    · exact h.carried hf aside rfl (concatOperands_carried _ _ _ _ _ _ _)
    · exact h.carried hf aside rfl (.go _ _ _ _)
  | library info task =>
    cases task with
    | guarded handler =>
      exact .inl (h.dropped hf (.inl rfl) ⟨rfl, rfl, rfl⟩ rfl fun _ _ _ calls =>
        ready_deliver calls _)
    | textResult =>
      dsimp only
      split
      · exact .inl (h.dropped hf (.inl rfl) ⟨rfl, rfl, rfl⟩ rfl fun _ _ _ calls =>
          ready_deliver calls _)
      · exact .inl (h.dropped_raise (n := { m with frames := rest, mode := .run }) hf (.inl rfl)
          ⟨rfl, rfl, rfl⟩ rfl _ _)
    | firstResults count =>
      exact .inl (h.dropped hf (.inl rfl) ⟨rfl, rfl, rfl⟩ rfl fun _ _ _ calls =>
        ready_deliver calls _)
    | resuming co => exact absurd rfl waits
    | wrapping co => exact absurd rfl waits
    | collecting => exact h.finalizeNext hf rfl ⟨rfl, rfl, rfl⟩
    | sweeping budget => exact h.finalizeNext hf rfl ⟨rfl, rfl, rfl⟩
  | host => exact absurd rfl host
  | mark info kind =>
    cases kind with
    | coroutine =>
      have stacked : ({ m with frames := .mark info .coroutine :: rest, mode := .run } :
          Machine).Stacked S := h.aside ⟨rfl, rfl, rfl⟩ (hf ▸ h.pile)
      obtain ⟨g, rest', S', left, waits', hf', under⟩ := stacked.finish rfl rfl
      have same : Spine.under (m.spine S) = Spine.under (spine { m with
          frames := .mark info .coroutine :: rest, mode := .run } S) := by rw [spine, hf]; rfl
      rw [same, ← under]
      exact .inl (left.rewardResumer hf' waits' values)
    | fromHost =>
      obtain ⟨info', upvalue, operands, rest', rfl, -, -⟩ := h.called hf rfl
      exact .inr (h.ended hf rfl values.reverse rfl ⟨rfl, rfl, rfl⟩ rfl (.inl rfl))
    | finalizer => exact .inl (h.finalized hf rfl ⟨rfl, rfl, rfl⟩ rfl rfl)
    | handling => exact .inl (h.handled hf rfl ⟨rfl, rfl, rfl⟩ rfl rfl)
    | closing error =>
      exact .inl (h.dropped hf (.inl rfl) ⟨rfl, rfl, rfl⟩ rfl fun _ _ _ calls =>
        failing_of_calls calls)

theorem Stacked.unwindStep (h : m.Stacked S) (error : Value) (mode : m.mode = .unwind error)
    (failing : Failing m.frames) : Goes (Spine.under (m.spine S)) (m.unwindStep error) := by
  obtain ⟨f, rest, hf⟩ := h.pile.nonempty
  rw [hf] at failing
  obtain ⟨waits, collects, deep⟩ := failing
  have passes : (f.role.passes ∨ f.role = .host ∧ rest ≠ []) → ∀ {n : Machine}, m.Aside n →
      n.frames = rest → n.mode = .unwind error → Goes (Spine.under (m.spine S)) n :=
    fun passes _ aside frames mode' => .inl (h.dropped hf passes aside frames fun _ _ _ calls => by
      rw [mode']
      exact failing_of_calls calls)
  unfold Machine.unwindStep
  rw [hf]
  cases f with
  | script info a =>
    dsimp only
    split
    · exact passes (.inl rfl) ⟨rfl, rfl, rfl⟩ rfl mode
    · rename_i v closers _
      have pile := h.pile
      rw [hf] at pile
      refine .inl (h.over ⟨rfl, rfl, rfl⟩ ((pile.replace (g := .script info { a with closers }) rfl
        id).push rfl (fun binds => ?_) (fun h => by cases h) fun _ h => by cases h) rfl ?_)
      · cases pile with
        | root bottom =>
          have root := m.rootOf_cases m.current
          rw [← bottom] at root
          simp [Frame.role] at root
        | on _ firm => exact firm binds
      · rw [spine, hf]
        exact (Spine.under_plain rfl).trans ((Spine.ground_plain rfl).trans
          (Spine.under_plain rfl).symm)
  | library info task =>
    cases task with
    | guarded handler =>
      exact .inl (h.dropped hf (.inl rfl) ⟨rfl, rfl, rfl⟩ rfl fun _ _ _ calls =>
        ready_deliver calls _)
    | textResult => exact passes (.inl rfl) ⟨rfl, rfl, rfl⟩ rfl mode
    | firstResults count => exact passes (.inl rfl) ⟨rfl, rfl, rfl⟩ rfl mode
    | resuming co => exact absurd rfl waits
    | wrapping co => exact absurd rfl waits
    | collecting => exact absurd rfl collects
    | sweeping budget => exact absurd rfl collects
  | host info upvalue operands => exact passes (.inr ⟨rfl, deep rfl⟩) ⟨rfl, rfl, rfl⟩ rfl mode
  | mark info kind =>
    cases kind with
    | coroutine =>
      obtain ⟨g, rest', S', left, waits', hf', under⟩ := h.finish hf rfl
      rw [← under]
      exact .inl (left.failResumer hf' waits' error)
    | fromHost =>
      obtain ⟨info', upvalue, operands, rest', rfl, -, -⟩ := h.called hf rfl
      exact .inr (h.ended hf rfl [error] rfl ⟨rfl, rfl, rfl⟩ rfl (.inr ⟨rfl, error, rfl⟩))
    | finalizer => exact .inl (h.finalized hf rfl ⟨rfl, rfl, rfl⟩ rfl rfl)
    | handling => exact .inl (h.handled hf rfl ⟨rfl, rfl, rfl⟩ rfl mode)
    | closing _ => exact passes (.inl rfl) ⟨rfl, rfl, rfl⟩ rfl mode

/-! ## Steps and runs -/

variable {w : Wait × Spine}

/-- A step goes on above the place at which the host waits, or comes back to it. -/
theorem Over.step (h : m.Over w) : Goes w m.step := by
  obtain ⟨S, ⟨stacked, ready⟩, rfl⟩ := h
  obtain ⟨f, rest, hf⟩ := stacked.pile.nonempty
  unfold Machine.step
  cases mode : m.mode with
  | run =>
    rw [mode, hf] at ready
    obtain ⟨info, a, rfl⟩ := Frame.script_of_role ready
    exact .inl (stacked.runStep mode hf)
  | call callee args =>
    rw [mode, hf] at ready
    exact .inl (stacked.callStep hf ready callee args)
  | deliver values =>
    rw [mode, hf] at ready
    exact stacked.deliverStep values hf ready.1 ready.2
  | unwind error =>
    rw [mode] at ready
    exact stacked.unwindStep error mode ready
  | paused p => exact .inl ⟨S, ⟨stacked, ready⟩, rfl⟩

/-- So does a run. -/
theorem Over.run (h : m.Over w) (fuel : Nat) : Goes w (m.run fuel) := by
  induction fuel generalizing m with
  | zero => exact .inl h
  | succ fuel ih =>
    unfold Machine.run
    split
    · exact .inl h
    · obtain above | answers := h.step
      · exact ih above
      · obtain ⟨p, mode⟩ := answers.paused
        rw [run_paused mode]
        exact .inr answers

end Machine

end ScriptBridge.Script
