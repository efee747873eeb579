import ScriptBridge.Proofs.Assignments
import ScriptBridge.Proofs.Lasting
import ScriptBridge.Proofs.Pushing
import ScriptBridge.Proofs.Threads
import ScriptBridge.Proofs.Upkeep

/-!
# ScriptBridge.Proofs.Outcomes

What assignments come to, from the turn in which their value is made to the one in which the step
ends.  An assignment is refused in its first turn, and leaves nothing behind; or its value gets to
the table that its path leads to, while no script runs and no other slot changes.

Main results:

* `assignment_run` — in any run, assignments that succeed change one slot, and how it is read;
* `refusal_run` — in any run, what assignments fail for, and what they leave behind.
-/

namespace ScriptBridge.Host

open Script (TableId Machine ThreadId)

namespace World

variable {w w₀ w₁ : World} {n : Nat} {id : SessionId} {step : Step} {path : String} {v : Value}
  {create : Bool} {s s' : Session} {t : ThreadId} {μ : SessionId → Session.Memory}
  {f : Failure}

/-- Whether the next turn begins to assign a value, once it is made, to a global of a session. -/
def Assigning (w : World) (step : Step) (id : SessionId) (path : String) (v : Value)
    (create : Bool) (w₁ : World) : Prop :=
  ∃ (w₀ : World) (name : String) (e : Try Value), w.taken? = some (step, w₀)
    ∧ assignment? step.action = some (name, path, e, create) ∧ e.run.run w₀ = (.ok v, w₁)
    ∧ ((sessionNamed name).run.run w₁).1 = .ok id

/-- The assignment that begins in the next turn, once its value is made. -/
def assigning? (w : World) : Option (Step × SessionId × String × Value × Bool × World) :=
  match w.taken? with
  | none => none
  | some (step, w₀) =>
    match assignment? step.action with
    | none => none
    | some (name, path, e, create) =>
      match e.run.run w₀ with
      | (.error _, _) => none
      | (.ok v, w₁) =>
        match ((sessionNamed name).run.run w₁).1 with
        | .error _ => none
        | .ok id => some (step, id, path, v, create, w₁)

theorem assigning_of_eq
    (h : w.assigning? = some (step, id, path, v, create, w₁)) :
    w.Assigning step id path v create w₁ := by
  unfold assigning? at h
  split at h <;> try cases h
  rename_i takes
  split at h <;> try cases h
  rename_i assigns
  split at h <;> try cases h
  rename_i made
  split at h <;> cases h
  rename_i named
  exact ⟨_, _, _, takes, assigns, made, named⟩

/-- Whether a turn was the last one of a step, which came to a result. -/
def Ends (w : World) (step : Step) (r : Except Mishap Answer) : Prop :=
  ∃ w', w = ((finishStep step r).run w').2

theorem Assigning.proceeds (h : w.Assigning step id path v create w₁) :
    w.control = .proceed ∧ ∀ id budget, w.whims.headD .pass ≠ .upon id budget := by
  obtain ⟨w₀, name, e, takes, -⟩ := h
  obtain ⟨proceeds, calm, -⟩ := taken?_eq_some takes
  exact ⟨proceeds, calm⟩

/-- The books when the value is made: it is held. -/
theorem Assigning.books (h : w.Assigning step id path v create w₁) (hw : Books μ 0 w) :
    Books μ (v.holdings + 0) w₁ := by
  obtain ⟨w₀, name, e, takes, assigns, made, -⟩ := h
  have kept := (beginStep_assignment assigns).2 w₀ μ 0 (by rw [zero_add]; exact hw.taken takes)
  rwa [made] at kept

/-- The first turn of an assignment: the session is asked to begin it. -/
theorem Assigning.turn (h : w.Assigning step id path v create w₁) (hs : w₁.sessions[id]? = some s)
    {r : Except Failure (ThreadId × Session.Outbound)}
    (ran : (Session.beginAssign path v create).run.run s = (r, s')) :
    advance.run w = (match r with
      | .error f => (do dropValue v; finishStep step (.error (.failure f)) : Act Unit)
      | .ok (t, out) => do
        retainAll (callablesOf [v])
        beginDelivery id t [out] (.assign step s.height v)).run
          ((w₁.withSession id s).withSession id s') := by
  obtain ⟨w₀, name, e, takes, assigns, made, named⟩ := h
  have looked : (sessionNamed name).run.run w₁ = (.ok id, w₁) := by
    rw [← named]
    exact Prod.ext rfl (sessionNamed_snd name w₁)
  rw [advance_taken takes, (beginStep_assignment assigns).1, beginAssign, stateM_run_bind, made]
  simp only
  rw [stateM_run_bind, looked]
  simp only
  rw [stateM_run_bind, onSession_run_some hs, stateM_run_bind, attemptOn,
    onSession_run_some (getElem?_withSession_self ..)]
  have measured : ((do return (← get).height : Op Nat).run s) = (s.height, s) := rfl
  cases r with
  | error f => exact measured ▸ ran ▸ rfl
  | ok ready => exact measured ▸ ran ▸ rfl

/-- A session that is put back twice is as it was put back last. -/
theorem getElem?_withSession_twice (w : World) (id : SessionId) (s s' : Session) (j : SessionId) :
    ((w.withSession id s).withSession id s').sessions[j]? = (w.withSession id s').sessions[j]? := by
  by_cases here : j = id
  · subst here
    rw [getElem?_withSession_self, getElem?_withSession_self]
  · rw [getElem?_withSession_of_ne here, getElem?_withSession_of_ne here,
      getElem?_withSession_of_ne here]

/-- The books when the session has been asked for its height. -/
theorem Assigning.measured (h : w.Assigning step id path v create w₁) (hw : Books μ 0 w)
    (hs : w₁.sessions[id]? = some s) : Books μ (v.holdings + 0) (w₁.withSession id s) := by
  have kept := ((keeps_height id).aside v.holdings) w₁ μ 0 (h.books hw)
  rwa [onSession_run_some hs] at kept

/-- An assignment that is refused ends at once.  All that was made ready for it goes, and then its
value. -/
theorem Assigning.refused {full : Bool} (h : w.Assigning step id path v create w₁)
    (hw : Books μ 0 w) (hs : w₁.sessions[id]? = some s) (active : s.active.isSome)
    (ran : (Session.beginAssign path v create).run.run s = (.error f, s'))
    (since : (s.withOverflow full).Since s') :
    (s.withOverflow full).Restored s' ∧ (w₁.withSession id s').Sheds (advance.run w).2
      ∧ (advance.run w).2.Ends step (.error (.failure f)) := by
  have turn := h.turn hs ran
  obtain ⟨-, ho, -⟩ := (h.books hw).orderly_at hs active
  obtain ⟨⟨e, K, before, after⟩, ready⟩ := (h.measured hw hs).refused (getElem?_withSession_self ..)
    (fun _ => Session.keeps_beginAssign path v create) ran
  have spared := ((sparing_dropValue v).bind fun _ => sparing_finishStep step
    (.error (.failure f))) _ (μ, (w₁.withSession id s).withSession id s') 0 ⟨ready, .of_same rfl⟩
  have sheds := spared.2.sheds ready spared.1 (fun h hh => by
    have alone : h ∈ (Multiset.map Value.holdings {v}).sum := by simpa using hh
    exact resting_values alone) (by simp)
  rw [turn]
  refine ⟨since.restored ho (before.withMachine _) after, fun j => ?_, _, rfl⟩
  rw [← getElem?_withSession_twice w₁ id s s' j]
  exact sheds j

/-! ## Assignments that succeed -/

/-- A reference that is held of an open session denotes a value. -/
theorem Books.denotes {r : Ref} {H : Multiset Holding} (hw : Books μ ({.ref r} + H) w)
    (hs : w.sessions[r.session]? = some s) (ho : s.isOpen) :
    ∃ x, s.object? r = some x ∧ x.Solid := by
  obtain ⟨x, hx, solid, -⟩ := hw.recalls (by simp) hs ho
  exact ⟨x, hx, solid⟩

/-- The pins of the cells of an open session have been given out. -/
theorem Books.aged {H : Multiset Holding} (hw : Books μ H w) (hs : w.sessions[id]? = some s)
    (ho : s.isOpen) : s.Aged s.pins.issued := by
  intro k c handle hc hh
  obtain ⟨-, tidy⟩ := hw.1.tidy _ s hs
  refine tidy.issued _ ?_
  rw [tidy.pins ho]
  refine Multiset.mem_add.mpr (.inl (Multiset.mem_add.mpr (.inl ?_)))
  exact Session.mem_cellPins hc (by simp [Cell.pins, hh])

/-- The last turn of an assignment, in which nothing is left to be put on the host's frame. -/
theorem lands_delivered {d : Delivery} {base : Nat} {rest : List Activity} {k : Nat}
    (h : w.Delivers d (.assign step base v) rest s) (hp : d.pin = none) (hl : d.left = [])
    (finished : ((do Session.finishAssign d.thread; Session.dropAbove d.thread base : Op Unit).run
      s).2 = s') (aged : s'.Aged k) :
    ∃ w', ((deliverNext d (.assign step base v)).run w).2 = ((finishStep step (.ok .ok)).run w').2
      ∧ ∃ s'', ((deliverNext d (.assign step base v)).run w).2.sessions[d.session]? = some s''
        ∧ s'.Lasts k s'' := by
  let u : World := { w with activities := w.activities.drop 1 }
  have hu : u.sessions[d.session]? = some s := h.session
  have run : (deliverNext d (.assign step base v)).run w = (do
      releaseOutbound d.session d.outbound
      dropValue v
      finishStep step (.ok .ok) : Act Unit).run
        ((u.withSession d.session ((Session.finishAssign d.thread).run s).2).withSession
          d.session s') := by
    rw [deliverNext, hp, hl]
    simp only
    rw [stateM_run_bind, show (finishTop.run w).2 = u from rfl, delivered, stateM_run_bind,
      onSession_run_some hu, stateM_run_bind, onSession_run_some (getElem?_withSession_self ..)]
    subst finished
    rfl
  generalize hw : (u.withSession d.session ((Session.finishAssign d.thread).run s).2).withSession
    d.session s' = w₁ at run
  have start : LastsAt k d.session s' w₁ := ⟨s', hw ▸ getElem?_withSession_self .., .refl k s'⟩
  have ends : Preserves (LastsAt k d.session s') (do
      releaseOutbound d.session d.outbound
      dropValue v
      finishStep step (.ok .ok) : Act Unit) :=
    (lasts_release aged _).bind fun _ => (lasts_release aged _).bind fun _ =>
      lasts_of_same (sessions_finishStep step _)
  obtain ⟨s'', hs'', lasts⟩ := ends w₁ start
  rw [run]
  exact ⟨_, rfl, s'', hs'', lasts⟩

/-- The first turn of an assignment that is not refused: its value is on its way. -/
theorem Assigning.begins {out : Session.Outbound}
    (h : (w₀.run n).Assigning step id path v create w₁) (hs : w₁.sessions[id]? = some s)
    (active : s.active = some t)
    (ran : (Session.beginAssign path v create).run.run s = (.ok (t, out), s')) :
    ∃ rest, (w₀.run (n + 1)).Delivers ⟨id, t, [out], [out], none⟩
      (.assign step (s.machine.operandsOf t).length v) rest s' := by
  have next := run_advance h.proceeds.1
  have height : s.height = (s.machine.operandsOf t).length := by rw [Session.height, active]
  have turn := congrArg Prod.snd (h.turn hs ran)
  simp only at turn
  rw [← next, stateM_run_bind, height] at turn
  have kept : ∀ fs : List CallableId, Preserves (fun u : World => u.sessions[id]? = some s')
      (retainAll fs) := by
    intro fs
    induction fs with
    | nil => exact .pure _
    | cons f fs ih =>
      rw [retainAll, List.forM_eq_forM, List.forM_cons]
      exact Preserves.bind (fun u hu => hu) fun _ => ih
  have there := kept (callablesOf [v]) _ (getElem?_withSession_self (w₁.withSession id s) id s')
  generalize ((retainAll (callablesOf [v])).run _).2 = u at turn there
  exact ⟨u.activities, by rw [turn]; rfl, by rw [turn]; rfl, by rw [turn]; exact there⟩

/-- The value of an assignment that is not refused gets to the table that the path leads to. -/
theorem Assigning.lands {p : Path} {T : TableId} {m : Machine} {out : Session.Outbound}
    {s₁ : Session} (books : ∀ k, Books μ 0 (w₀.run k))
    (h : (w₀.run n).Assigning step id path v create w₁) (hs : w₁.sessions[id]? = some s)
    (active : s.active = some t) (listens : s.machine.Listens t) (calm : w₀.Undisturbed n 4)
    (walked : p.walk create s.machine = (.ok T, m)) (own : s.Owns v)
    (packed : (Session.pack v).run.run s = (.ok out, s₁))
    (ran : (Session.beginAssign path v create).run.run s = (.ok (t, out), { s₁ with
      machine := (m.pushOperand t (.table T)).pushOperand t (.str p.last.toUTF8) })) :
    ∃ k ≤ 4, ∃ (objects : Machine) (s' : Session) (x : Script.Value),
      (w₀.run (n + k)).Ends step (.ok .ok) ∧ w₀.Proceeds n k
      ∧ (w₀.run (n + k)).sessions[id]? = some s'
      ∧ s'.active = some t ∧ objects.tables = m.tables
      ∧ s'.machine = s.machine.withObjects (objects.rawSet T (.str p.last.toUTF8) x)
      ∧ s.Delivered s' v x ∧ ∀ b, x = .str b → ∃ text, Utf8.decode b = .ok text := by
  obtain ⟨mine, ho, orderly⟩ := (h.books (books n)).orderly_at hs (by rw [active]; rfl)
  have known : ∀ r, v.ref? = some r → ∃ x, s.object? r = some x ∧ x.Solid := by
    intro r hr
    have held : v.holdings = {.ref r} := by
      cases v with
      | reference q | function q =>
        obtain rfl := Option.some.inj hr
        rfl
      | _ => cases hr
    have hw := h.books (books n)
    rw [held] at hw
    refine hw.denotes ?_ ho
    rw [own r hr, mine]
    exact hs
  obtain ⟨owner, s₂, x, pushed, finished, heap, cells, grows, becomes⟩ :=
    Session.assigned orderly listens walked own
      (fun r hr => (known r hr).imp fun x hx => hx.1) packed
  obtain ⟨rest, begun⟩ := h.begins hs active ran
  obtain ⟨out', s₁', again, -, grows₁, -, -⟩ := Session.pack_packs orderly own
  obtain ⟨-, rfl⟩ := Prod.mk.inj (packed.symm.trans again)
  have aged : Session.Aged s₁.pins.issued s₂ := by
    have awake : s₁.active.isSome := by rw [grows₁.active, active]; rfl
    obtain ⟨-, tidy⟩ := (books (n + 1)).1.tidy _ _ begun.session
    have before := (books (n + 1)).aged begun.session (tidy.awake.symm.trans awake)
    intro k c handle hc hh
    refine before k c handle ?_ hh
    rw [Session.cell?, ← cells]
    exact hc
  have all : (Session.pushAll t [out]).run.run { s₁ with
      machine := (m.pushOperand t (.table T)).pushOperand t (.str p.last.toUTF8) }
        = (.ok (owner.toList ++ []), s₂) := try_bind_ok pushed
  have calm₁ : w₀.Undisturbed (n + 1) (2 * [out].length + 1) := calm.later
  obtain ⟨k, hk, there, -, goes⟩ := begun.pushAll rfl all (calm₁.mono (Nat.le_succ _))
  have calm₂ : w₀.Undisturbed (n + 1 + k) 1 := (calm₁.mono (Nat.add_le_add_right hk 1)).later
  obtain ⟨w, here, -, turn⟩ := there.turn calm₂
  let s₃ : Session := { s₂ with
    machine := s.machine.withObjects (s₂.machine.rawSet T (.str p.last.toUTF8) x) }
  have aged₃ : Session.Aged s₁.pins.issued s₃ := aged
  obtain ⟨w', ends, s', hs', lasts⟩ := lands_delivered here rfl rfl finished aged₃
  rw [← turn] at ends hs'
  have later : n + 1 + k + 1 = n + (1 + k + 1) := by omega
  have all : w₀.Proceeds n (1 + k + 1) := by
    refine ((Proceeds.one h.proceeds.1).append goes).append (.one ?_)
    rw [← Nat.add_assoc]
    exact there.proceeds
  rw [later] at ends hs'
  refine ⟨1 + k + 1, ?_, s₂.machine, s', x, ⟨w', ends⟩, all, hs', ?_, heap, lasts.machine, ?_, ?_⟩
  · exact Nat.succ_le_succ (Nat.add_comm k 1 ▸ Nat.succ_le_succ hk)
  · rw [lasts.active, ← active, ← grows.active]
  · cases v with
    | callable f =>
      obtain ⟨i, o, handle, rfl, native, userdata, slot, beyond, pinned⟩ := becomes
      refine ⟨i, o, handle, rfl, ?_, ?_, ?_, handle.number_pos, ?_⟩
      · rw [lasts.machine]
        exact native
      · rw [lasts.machine]
        exact userdata.trans (by rw [grows.shared]; rfl)
      · rw [lasts.handles]
        exact slot
      · rw [lasts.pins handle beyond]
        exact pinned
    | reference r | function r =>
      obtain ⟨y, hy, -⟩ := known r rfl
      have same : some y = some x := (grows.object? hy).symm.trans becomes
      exact hy.trans same
    | _ => exact becomes
  · rintro b rfl
    cases v with
    | string text =>
      cases becomes
      exact ⟨text, Utf8.decode_toUTF8 text⟩
    | reference r | function r =>
      obtain ⟨y, hy, solid⟩ := known r rfl
      cases (grows.object? hy).symm.trans becomes
      exact solid.elim
    | callable f =>
      obtain ⟨i, o, handle, eq, -⟩ := becomes
      cases eq
    | _ => cases becomes

/-! ## Where host code runs -/

/-- The sessions have moved when the value is made, and host code still runs on all of them. -/
theorem Assigning.readies (h : w.Assigning step id path v create w₁) (rests : w.Rests)
    (numbered : ∀ (id : SessionId) (s : Session), w.sessions[id]? = some s → id ≤ w.issued) :
    w.Readies w₁ := by
  obtain ⟨w₀, name, e, takes, assigns, made, -⟩ := h
  obtain ⟨-, -, frame, rest, more, -, rfl⟩ := taken?_eq_some takes
  have steady := steady_readies w
  have resting : ∀ w', w.Readies w' → w'.Rests := fun _ h => h.1
  have keeps : Preserves w.Readies e.run := by
    unfold assignment? at assigns
    split at assigns <;> cases assigns
    · exact preserves_value steady resting _
    · exact .tryBind (preserves_callable steady resting _) fun _ => .tryPure _
    · exact calm_anotherOf steady _
  have kept := keeps
    { w with whims := w.whims.tail, activities := .program frame rest :: more }
    ⟨rests, (Led.refl numbered).aside rfl (Nat.le_refl _)⟩
  rwa [made] at kept

/-- A stack that has room for some values has room for fewer. -/
theorem reserve_fewer {m m' : Machine} (listens : m.Listens t) (frames : m'.framesOf t = m.framesOf t)
    (overflowed : m'.overflowed = m.overflowed) {more fewer : Nat} (le : fewer ≤ more)
    (room : (m.reserve t more).1) : (m'.reserve t fewer).1 := by
  obtain ⟨info, upvalue, operands, rest, hf⟩ := listens
  rw [Machine.reserve_fst hf] at room
  rw [Machine.reserve_fst (frames.trans hf), overflowed]
  split at room
  · rename_i tight
    rw [if_pos tight]
    exact decide_eq_true (Nat.lt_of_le_of_lt (Nat.add_le_add_left le _) (of_decide_eq_true room))
  · rename_i loose
    rw [if_neg loose]
    exact decide_eq_true (Nat.le_trans (Nat.add_le_add_left le _) (of_decide_eq_true room))

/-! ## Any run -/

/-- What a session is when an assignment to one of its globals begins. -/
theorem Assigning.stands {program : List Step} {whims : List Whim}
    (h : ((start program whims).run n).Assigning step id path v create w₁)
    (hs : w₁.sessions[id]? = some s) (active : s.active = some t) :
    s.Orderly ∧ s.machine.Listens t ∧ s.machine.Rooted := by
  obtain ⟨Ss, nests, -⟩ := nests_run program whims n
  rw [h.proceeds.1] at nests
  have awake : s.active.isSome := by rw [active]; rfl
  obtain ⟨rests, led⟩ := h.readies (rests_of_nests nests) nests.numbered
  have listens := (rests id s hs awake).listens active
  obtain ⟨-, isOpen, orderly⟩ := (h.books (books_run program whims n)).orderly_at hs awake
  exact ⟨orderly, listens, led.rooted (rooted_run program whims n) id s hs isOpen⟩

end World

/-- At any point of any run, an assignment to a global of an open session is refused in its first
turn, or it is not refused; then, if no runtime makes a collection of its own accord, it ends within
four turns, and no script runs in them.  Its value is in the slot to which the path leads through
tables that were there, or in the last of the tables that were missing and have been made; no other
slot of any table has changed, nor anything else in the runtime but the objects that were made.
Unless a segment on the way was read from that very slot, the path is then read as the value. -/
theorem assignment_run (program : List Step) (whims : List Whim) (n : Nat) {step : Step}
    {id : SessionId} {path : String} {v : Value} {create : Bool} {w₁ : World} {s : Session}
    {t : ThreadId} (h : ((World.start program whims).run n).Assigning step id path v create w₁)
    (hs : w₁.sessions[id]? = some s) (active : s.active = some t) :
    let w := World.start program whims
    (∃ f, s.Refuses t path v create f ∧ w.Proceeds n 1
      ∧ (w.run (n + 1)).Ends step (.error (.failure f)))
    ∨ (∀ f, ¬ s.Refuses t path v create f) ∧ (w.Undisturbed n 4 → ∃ k ≤ 4, w.Proceeds n k
      ∧ (w.run (n + k)).Ends step (.ok .ok) ∧ ∃ p s' x, Path.parse path = .ok p
        ∧ (w.run (n + k)).sessions[id]? = some s' ∧ s.Delivered s' v x
        ∧ s'.machine = s.machine.withObjects s'.machine
        ∧ p.Sets create s.machine s'.machine x
        ∧ (p.Straight s.machine x →
          ∃ u s'', (Session.lookUp path).run.run s' = (.ok u, s'') ∧ s''.Reads x u)) := by
  intro w
  have books := World.books_run program whims
  obtain ⟨orderly, listens, rooted⟩ := h.stands hs active
  obtain ⟨f, s', refuses, ran, full, since⟩
    | ⟨p, T, m, out, s₁, parsed, own, room, walked, packed, -, ran⟩ :=
    Session.beginAssign_cases orderly active listens rooted path v create
  · obtain ⟨-, -, ends⟩ := h.refused (books n) hs (by rw [active]; rfl) ran since
    exact .inl ⟨f, refuses, .one h.proceeds.1, by
      rw [World.run_advance h.proceeds.1]
      exact ends⟩
  · refine .inr ⟨fun f => Session.not_refuses rooted parsed own room walked, fun calm => ?_⟩
    obtain ⟨k, hk, objects, s', x, ends, goes, hs', active', heap, machine, delivered, valid⟩ :=
      h.lands books hs active listens calm walked own packed ran
    have sets : p.Sets create s.machine s'.machine x :=
      machine ▸ Path.sets_of_walk rooted walked heap
    have globals : s'.machine.globals = s.machine.globals := by rw [machine]; rfl
    refine ⟨k, hk, goes, ends, p, s', x, parsed, hs', delivered, ?_, sets, fun straight => ?_⟩
    · rw [machine]
      rfl
    · have listens' : s'.machine.Listens t := by
        rw [machine]
        exact listens
      obtain ⟨-, -, orderly'⟩ := (books (n + k)).orderly_at hs' (by rw [active']; rfl)
      obtain ⟨T', named, there⟩ := sets.named globals straight
      obtain ⟨u, s'', run, -, reads⟩ := Session.lookUp_reads orderly' active' listens'
        (sets.rooted globals rooted) parsed
        (World.reserve_fewer listens (by rw [machine]; rfl) (by rw [machine]; rfl) (by decide) room)
        named there valid
      exact ⟨u, s'', run, reads⟩

/-- Whether the next turn begins to assign a value that is no reference to a global of a session,
whose runtime passes a test and has room for it. -/
def World.assigns (w : World) (a : SessionId × String × Bool) (test : Machine → Bool) : Bool :=
  w.assigning?.any fun (_, id, path, v, create, w₁) =>
    decide ((id, path, create) = a) && v.ref?.isNone && w₁.sessions[id]?.any fun s =>
      s.active.any fun t => (s.machine.reserve t 5).1 && test s.machine

theorem World.of_assigns {w : World} {id : SessionId} {path : String} {create : Bool}
    {test : Machine → Bool} (h : w.assigns (id, path, create) test = true) :
    ∃ step v w₁ s t, w.Assigning step id path v create w₁ ∧ w₁.sessions[id]? = some s
      ∧ s.active = some t ∧ s.Owns v ∧ (s.machine.reserve t 5).1 ∧ test s.machine := by
  obtain ⟨a, assigns, h⟩ := (Option.any_eq_true _ _).mp h
  obtain ⟨step, id', path', v, create', w₁⟩ := a
  obtain ⟨h, rest⟩ := Bool.and_eq_true_iff.mp h
  obtain ⟨same, none⟩ := Bool.and_eq_true_iff.mp h
  obtain ⟨rfl, rfl, rfl⟩ : id' = id ∧ path' = path ∧ create' = create := by
    simpa using of_decide_eq_true same
  obtain ⟨s, hs, rest⟩ := (Option.any_eq_true _ _).mp rest
  obtain ⟨t, active, rest⟩ := (Option.any_eq_true _ _).mp rest
  obtain ⟨room, passes⟩ := Bool.and_eq_true_iff.mp rest
  refine ⟨step, v, w₁, s, t, assigning_of_eq assigns, hs, active, fun r hr => ?_, room, passes⟩
  rw [hr] at none
  cases none

/-- Registers a callable where two tables are missing. -/
def planting : List Step := [
  .mk (.openSession "a" .standard) true true,
  .mk (.register "a" "x.y.f" (.mk "f" [] [] [] false true)) true true]

theorem assignment_run_planting :
    let w := World.start planting []
    let p : Path := ⟨["x", "y"], "f", "x.y.f"⟩
    ∃ (step : Step) (v : Value) (w₁ : World) (s s' : Session) (x : Script.Value),
      (w.run 1).Assigning step 1 "x.y.f" v true w₁ ∧ w₁.sessions[1]? = some s
      ∧ ∃ k ≤ 4, (w.run (1 + k)).Ends step (.ok .ok) ∧ (w.run (1 + k)).sessions[1]? = some s'
        ∧ s.Delivered s' v x ∧ p.Sets true s.machine s'.machine x
        ∧ ∃ u s'', (Session.lookUp "x.y.f").run.run s' = (.ok u, s'') ∧ s''.Reads x u := by
  intro w p
  have ready : (w.run 1).assigns (1, "x.y.f", true)
      (fun m => decide (m.named ["x"] = .nil) && (m.tableOf? (m.named [])).isSome) = true := by
    decide +kernel
  have calm : w.Undisturbed 1 4 := .of_isEmpty (by decide +kernel)
  have parsed : Path.parse "x.y.f" = .ok p := by decide +kernel
  obtain ⟨step, v, w₁, s, t, assigning, hs, active, own, room, test⟩ := World.of_assigns ready
  obtain ⟨missing, table⟩ := Bool.and_eq_true_iff.mp test
  obtain ⟨T, table⟩ := Option.isSome_iff_exists.mp table
  obtain ⟨f, refuses, -⟩ | ⟨-, goes⟩ := assignment_run planting [] 1 assigning hs active
  · cases refuses with
    | malformed parsed' => cases parsed.symm.trans parsed'
    | foreign _ hr other => exact absurd (own _ hr) other
    | full _ _ none => exact absurd room none
    | stops parsed' _ _ stops =>
      cases parsed.symm.trans parsed'
      have lacks : p.Lacks s.machine [] "x" ["y"] T :=
        ⟨rfl, Machine.names_iff.mpr table, of_decide_eq_true missing⟩
      exact absurd lacks stops.not_lacks
  · obtain ⟨k, hk, -, ends, q, s', x, parsed', hs', delivered, -, sets, read⟩ := goes calm
    cases parsed.symm.trans parsed'
    refine ⟨step, v, w₁, s, s', x, assigning, hs, k, hk, ends, hs', delivered, sets, read ?_⟩
    intro before after T split
    have there : "f" ∈ ["x", "y"] := by
      rw [show ["x", "y"] = before ++ "f" :: after from split]
      simp
    simp at there

/-- Puts a number in the slot in which the globals have themselves, and then looks that slot up. -/
def severing : List Step := [
  .mk (.openSession "a" .standard) false true,
  .mk (.assign "a" "_G._G" (.constant (.ofInt 1)) false) false true,
  .mk (.lookUp "a" "_G._G" none) false true]

/-- The failures that have been reported, the first one first; none for steps that did not fail. -/
def World.verdicts (w : World) : List (Option Failure) :=
  w.events.reverse.filterMap fun e => match e.what with
    | .result (.ok _) => some none
    | .result (.error mishap) => some (some mishap.toFailure)
    | _ => none

/-- Assigns a number. -/
def counting : List Step := [
  .mk (.openSession "a" .bare) false true,
  .mk (.assign "a" "y" (.constant (.ofInt 1)) false) false true]

/-- A world whose first session has a table to which nothing but a table with weak values refers. -/
def World.weakly (w : World) : World :=
  let slacken (m : Machine) : Machine :=
    let (x, m) := m.newTable .empty
    let (weak, m) := m.newTable (Script.Table.empty.setText "x" (.table x))
    let (mode, m) := m.newTable (Script.Table.empty.setText "__mode" (.str (Script.bytes "v")))
    (m.setMetatable (.table weak) (some mode)).modifyTable m.globals fun t =>
      t.setText "w" (.table weak)
  { w with sessions := w.sessions.modify 1 fun s => { s with machine := slacken s.machine } }

/-- A path that a value was assigned to is not read as the value when a segment on the way was read
from the slot that was assigned.  A collection that comes upon an assignment can clear another slot,
though nothing has a finalizer. -/
theorem assigned_not_read :
    ((World.start severing []).run 5).verdicts
      = [none, none, some (.invalidPath (.notTable "_G._G" "_G"))]
    ∧ let w := ((World.start counting [.pass, .pass, .upon 1 0]).run 1).weakly
      w.assigns (1, "y", false)
        (fun m => m.finalizable.isEmpty && decide (m.named ["w", "x"] ≠ .nil)) = true
      ∧ (w.run 5).verdicts = [none, none]
      ∧ (w.run 5).sessions[1]?.any (fun s => s.machine.finalizable.isEmpty
        && decide (s.machine.named ["w", "x"] = .nil)) = true := by
  decide +kernel

/-- At any point of any run, an assignment to a global of an open session that is refused fails in its
first turn, and all that was made ready for it is gone: nothing has changed but that the runtime may
know that its stack is full.  Then the value that was to be assigned is let go of.  If no runtime makes
a collection of its own accord, an assignment ends within four turns; it fails only if it is refused,
and for its path if, and only if, the path has an empty segment, or the value is the session's own,
there is room for it, and the path stops at a segment that is not the last.  A global is looked up in
vain for the same paths, with the same faults, if there is room for what is looked up. -/
theorem refusal_run (program : List Step) (whims : List Whim) (n : Nat) {step : Step}
    {id : SessionId} {path : String} {v : Value} {create : Bool} {w₁ : World} {s : Session}
    {t : ThreadId} (h : ((World.start program whims).run n).Assigning step id path v create w₁)
    (hs : w₁.sessions[id]? = some s) (active : s.active = some t) :
    let w := World.start program whims
    (∀ f, s.Refuses t path v create f → w.Proceeds n 1
      ∧ (w.run (n + 1)).Ends step (.error (.failure f))
      ∧ ∃ full s', (s.withOverflow full).Restored s' ∧ (w₁.withSession id s').Sheds (w.run (n + 1)))
    ∧ (w.Undisturbed n 4 → ∃ k ≤ 4, ∃ r, (w.run (n + k)).Ends step r ∧ w.Proceeds n k
      ∧ (∀ fault, r = .error (.failure (.invalidPath fault))
        ↔ ([] ∈ Path.split path.toList ∧ fault = .malformed path)
          ∨ ∃ p, Path.parse path = .ok p ∧ s.Owns v ∧ (s.machine.reserve t 5).1
            ∧ p.Stops create s.machine fault)
      ∧ ∀ mishap, r = .error mishap →
        k = 1 ∧ ∃ f, mishap = .failure f ∧ s.Refuses t path v create f)
    ∧ (∀ fault, (∃ s', (Session.lookUp path).run.run s = (.error (.invalidPath fault), s'))
      ↔ ([] ∈ Path.split path.toList ∧ fault = .malformed path)
        ∨ ∃ p, Path.parse path = .ok p ∧ (s.machine.reserve t 4).1 ∧ p.Stops false s.machine fault)
    ∧ ∀ p, Path.parse path = .ok p →
      ((∃ fault, p.Stops false s.machine fault)
        ↔ ∃ first, first <+: p.parents ∧ ∀ T, ¬ s.machine.Names first T)
      ∧ ((∃ fault, p.Stops true s.machine fault)
        ↔ ∃ first segment, first ++ [segment] <+: p.parents ∧ (∃ T, s.machine.Names first T)
          ∧ s.machine.named (first ++ [segment]) ≠ .nil
          ∧ ∀ T, ¬ s.machine.Names (first ++ [segment]) T) := by
  intro w
  have books := World.books_run program whims
  obtain ⟨orderly, listens, rooted⟩ := h.stands hs active
  have looked : ∀ fault, (∃ s', (Session.lookUp path).run.run s = (.error (.invalidPath fault), s'))
      ↔ ([] ∈ Path.split path.toList ∧ fault = .malformed path)
        ∨ ∃ p, Path.parse path = .ok p ∧ (s.machine.reserve t 4).1
          ∧ p.Stops false s.machine fault := by
    intro fault
    rw [Session.lookUp_invalidPath active listens rooted, Path.parse_error,
      Failure.invalidPath.injEq]
  have prefixes := fun (p : Path) (_ : Path.parse path = .ok p) =>
    And.intro (Path.stops_iff (p := p) rooted) (@Path.stops_creating_iff p s.machine)
  obtain ⟨f, s', refuses, ran, full, since⟩
    | ⟨p, T, m, out, s₁, parsed, own, room, walked, packed, -, ran⟩ :=
    Session.beginAssign_cases orderly active listens rooted path v create
  · obtain ⟨restored, sheds, ends⟩ := h.refused (books n) hs (by rw [active]; rfl) ran since
    rw [← World.run_advance h.proceeds.1] at sheds ends
    refine ⟨fun g refuses' => ?_, fun _ => ⟨1, by decide, _, ends, .one h.proceeds.1, fun fault => ?_,
      fun mishap eq => ?_⟩, looked, prefixes⟩
    · obtain rfl := refuses.unique refuses'
      exact ⟨.one h.proceeds.1, ends, full, s', restored, sheds⟩
    · rw [← Session.refuses_invalidPath]
      constructor
      · intro eq
        cases eq
        exact refuses
      · intro refuses'
        rw [refuses.unique refuses']
    · cases eq
      exact ⟨rfl, f, rfl, refuses⟩
  · have none : ∀ f, ¬ s.Refuses t path v create f := fun f =>
      Session.not_refuses rooted parsed own room walked
    refine ⟨fun f refuses => absurd refuses (none f), fun calm => ?_, looked, prefixes⟩
    obtain ⟨k, hk, objects, s', x, ends, goes, -⟩ :=
      h.lands books hs active listens calm walked own packed ran
    refine ⟨k, hk, _, ends, goes, fun fault => ⟨nofun, fun blamed => ?_⟩, nofun⟩
    exact absurd ((Session.refuses_invalidPath fault).mpr blamed) (none _)

/-- Looks for a global in a number. -/
def stumbling : List Step := [
  .mk (.openSession "a" .standard) true true,
  .mk (.assign "a" "math.pi.x" (.constant .nil) false) true true]

theorem refusal_run_stumbling :
    let w := World.start stumbling []
    ∃ (step : Step) (v : Value) (w₁ : World) (s s' : Session) (full : Bool),
      (w.run 1).Assigning step 1 "math.pi.x" v false w₁ ∧ w₁.sessions[1]? = some s
      ∧ (w.run 2).Ends step (.error (.failure (.invalidPath (.notTable "math.pi.x" "math.pi"))))
      ∧ (s.withOverflow full).Restored s' ∧ (w₁.withSession 1 s').Sheds (w.run 2) := by
  intro w
  let p : Path := ⟨["math", "pi"], "x", "math.pi.x"⟩
  have ready : (w.run 1).assigns (1, "math.pi.x", false) (fun m =>
      (m.tableOf? (m.named ["math"])).isSome && (m.named ["math", "pi"]).float?.isSome) = true := by
    decide +kernel
  have parsed : Path.parse "math.pi.x" = .ok p := by decide +kernel
  obtain ⟨step, v, w₁, s, t, assigning, hs, active, own, room, test⟩ := World.of_assigns ready
  obtain ⟨table, number⟩ := Bool.and_eq_true_iff.mp test
  have stops : p.Stops false s.machine (.notTable "math.pi.x" "math.pi") := by
    obtain ⟨T, table⟩ := Option.isSome_iff_exists.mp table
    refine ⟨["math"], "pi", [], rfl, ⟨T, Machine.names_iff.mpr table⟩, fun T names => ?_, ?_⟩
    · rw [show s.machine.named ["math", "pi"] = .table T from names.1] at number
      cases number
    · split
      · rename_i eq
        rw [show s.machine.named ["math", "pi"] = .nil from eq] at number
        cases number
      · decide +kernel
  obtain ⟨refused, -⟩ := refusal_run stumbling [] 1 assigning hs active
  obtain ⟨-, ends, full, s', restored, sheds⟩ := refused _ (.stops parsed own room stops)
  exact ⟨step, v, w₁, s, s', full, assigning, hs, ends, restored, sheds⟩

/-- Assigns a table of one session where a table is missing in another. -/
def straying : List Step := [
  .mk (.openSession "a" .standard) false true,
  .mk (.openSession "b" .standard) false true,
  .mk (.lookUp "b" "math" (some "x")) false true,
  .mk (.assign "a" "nowhere.y" (.take "x") false) false true,
  .mk (.lookUp "a" "nowhere.y" none) false true]

/-- An assignment of a value of another session does not fail for its path, though a segment that is
not the last names no table. -/
theorem stray_not_blamed : ((World.start straying []).run 5).verdicts
    = [none, none, none, some (.wrongSession 1 2),
      some (.invalidPath (.undefined "nowhere.y" "nowhere"))] := by decide +kernel

end ScriptBridge.Host
