import ScriptBridge.Proofs.Moving

/-!
# ScriptBridge.Proofs.Lineage

What becomes of host functions in the course of a run.  As long as scripts change neither the upvalues
of functions nor the metatables of userdata, the functions that the host has made, and no others, have
a userdata for a handle (`Machine.Fair`).  A host function stays what it is until the runtime collects
it, and its userdata keeps the handle that it was given until a hook takes it: the session
`Session.Continues`.

Main facts:

* `Session.Moves.continues` — what is done to a session;
* `Host.World.continues_run` — a session of a run, from any turn to any other;
* `Host.World.made_run` — where a host function comes from.
-/

namespace ScriptBridge

/-! ## Runtimes -/

namespace Script.Machine

variable {m m' m'' : Machine} {i : NativeId} {n : Native}

/-- Whether the functions that the host has made have a userdata for a handle, and no others do. -/
def Fair (m : Machine) : Prop :=
  ∀ (i : NativeId) (n : Native), m.natives[i]? = some (some n) → n.Inner ∨ ∃ o,
    n = ⟨.host, #[.userdata o]⟩ ∧ m.userdata[o]? = some (some ⟨some m.handleMetatable⟩)

theorem native_of_getElem? (there : m.natives[i]? = some (some n)) : m.native i = n := by
  rw [native, Array.getD_eq_getD_getElem?, there]
  rfl

/-- What is inferred from the first upvalue of a function is so. -/
theorem Fair.isHostClosure (h : m.Fair) (there : m.natives[i]? = some (some n)) :
    m.isHostClosure (.native i) = true ↔ n.kind = .host := by
  have unfolded : m.isHostClosure (.native i) = m.holdsHandle (n.upvalues.getD 0 .nil) := by
    rw [Machine.isHostClosure, native_of_getElem? there]
  rw [unfolded]
  obtain inner | ⟨o, rfl, userdata⟩ := h i n there
  · refine ⟨fun marked => ?_, fun host => absurd host inner.1⟩
    unfold holdsHandle at marked
    split at marked
    · rename_i o upvalue
      exact absurd upvalue (inner.2 o)
    · cases marked
  · refine ⟨fun _ => rfl, fun _ => ?_⟩
    change (m.metatable? (.userdata o) == some m.handleMetatable) = true
    rw [metatable?, Array.getD_eq_getD_getElem?, userdata]
    exact beq_self_eq_true _

/-- What becomes of the functions that were there: host functions stay until they are collected, and
no other function takes their place. -/
structure Passes (m m' : Machine) : Prop where
  natives : m.natives.size ≤ m'.natives.size
  userdata : m.userdata.size ≤ m'.userdata.size
  stay : ∀ (i : NativeId) (n : Native), m.natives[i]? = some (some n) → n.kind = .host →
    m'.natives[i]? = some (some n) ∨ m'.natives[i]? = some none
  gone : ∀ i : NativeId, m.natives[i]? = some none → m'.natives[i]? = some none
  old : ∀ i < m.natives.size, ∀ n : Native, m'.natives[i]? = some (some n) → n.kind = .host →
    m.natives[i]? = some (some n)

theorem Passes.trans (h : m.Passes m') (h' : m'.Passes m'') : m.Passes m'' where
  natives := Nat.le_trans h.natives h'.natives
  userdata := Nat.le_trans h.userdata h'.userdata
  stay := fun i n hn host => by
    obtain there | gone := h.stay i n hn host
    · exact h'.stay i n there host
    · exact .inr (h'.gone i gone)
  gone := fun i gone => h'.gone i (h.gone i gone)
  old := fun i lt n hn host => h.old i lt n (h'.old i (Nat.lt_of_lt_of_le lt h.natives) n hn host) host

theorem Alike.grows (h : m.Alike m') : m.Grows m' :=
  ⟨h.natives ▸ .refl _, h.userdata, h.handleMetatable⟩

theorem Grows.passes (h : m.Grows m') : m.Passes m' where
  natives := h.natives.size
  userdata := by rw [h.userdata]
  stay := fun i n hn host => .inl (h.natives.stay i n hn host)
  gone := h.natives.gone
  old := fun i _ n hn host => (h.natives.inner i n hn).resolve_right fun inner => inner.1 host

theorem Grows.fair (h : m.Grows m') (fair : m.Fair) : m'.Fair := by
  intro i n there
  rw [h.userdata, h.handleMetatable]
  exact (h.natives.inner i n there).elim (fair i n) .inl

theorem passes_newHostFunction (m : Machine) : m.Passes m.newHostFunction.2.2 := by
  obtain ⟨-, -, natives, userdata, -, -⟩ := m.newHostFunction_eq
  have before : ∀ i < m.natives.size, m.newHostFunction.2.2.natives[i]? = m.natives[i]? := by
    intro i lt
    rw [natives, Array.getElem?_push_lt lt, Array.getElem?_eq_getElem lt]
  have there : ∀ {i : NativeId} {o : Option Native}, m.natives[i]? = some o → i < m.natives.size :=
    fun h => (Array.getElem?_eq_some_iff.mp h).1
  exact {
    natives := by rw [natives]; simp
    userdata := by rw [userdata]; simp
    stay := fun i n hn _ => .inl ((before i (there hn)).trans hn)
    gone := fun i hn => (before i (there hn)).trans hn
    old := fun i lt n hn _ => (before i lt).symm.trans hn }

theorem Fair.newHostFunction (h : m.Fair) : m.newHostFunction.2.2.Fair := by
  obtain ⟨-, -, natives, userdata, shared, -⟩ := m.newHostFunction_eq
  intro i n there
  rw [natives, Array.getElem?_push] at there
  rw [userdata, shared]
  split at there
  · obtain rfl := Option.some.inj (Option.some.inj there)
    exact .inr ⟨_, rfl, by simp⟩
  · refine (h i n there).imp_right fun ⟨o, eq, ho⟩ => ⟨o, eq, ?_⟩
    have lt := (Array.getElem?_eq_some_iff.mp ho).1
    rw [Array.getElem?_push_lt lt, ← ho, Array.getElem?_eq_getElem lt]

/-- An array of objects that are kept or not has the size that it had. -/
theorem size_of_cleaned {α : Type} {a b : Array (Option α)} {keep : Nat → Bool}
    (eq : ∀ i, b[i]? = a[i]?.map fun o => if keep i then o else none) : b.size = a.size := by
  have bound : ∀ i, b.size ≤ i ↔ a.size ≤ i := fun i => by
    rw [← Array.getElem?_eq_none_iff, eq i, Option.map_eq_none_iff, Array.getElem?_eq_none_iff]
  have below := bound a.size
  have above := bound b.size
  omega

theorem passes_collect (m : Machine) (anchors : List Value) : m.Passes (m.collect anchors) := by
  obtain ⟨k, -, collected⟩ := m.collect_collected anchors
  generalize m.collect anchors = m' at collected
  exact {
    natives := (size_of_cleaned collected.natives).ge
    userdata := (size_of_cleaned collected.userdata).ge
    stay := fun i n hn _ => by
      rw [collected.natives, hn, Option.map_some]
      split
      · exact .inl rfl
      · exact .inr rfl
    gone := fun i hn => by
      rw [collected.natives, hn, Option.map_some]
      split <;> rfl
    old := fun i _ n hn _ => by
      rw [collected.natives] at hn
      obtain ⟨o, ho, kept⟩ := Option.map_eq_some_iff.mp hn
      split at kept
      · rw [ho, kept]
      · cases kept }

/-- A host function that is kept keeps its userdata. -/
theorem Fair.collect (h : m.Fair) (anchors : List Value) : (m.collect anchors).Fair := by
  obtain ⟨k, -, collected⟩ := m.collect_collected anchors
  generalize m.collect anchors = m' at collected
  intro i n there
  rw [collected.natives] at there
  obtain ⟨o, ho, kept⟩ := Option.map_eq_some_iff.mp there
  split at kept
  · rename_i has
    subst kept
    refine (h i n ho).imp_right fun ⟨o, eq, held⟩ => ⟨o, eq, ?_⟩
    have follows : Node.userdata o ∈ m.successors (.native i) := by
      rw [successors, native_of_getElem? ho, eq]
      exact List.mem_cons_self
    rw [collected.userdata, held, collected.handleMetatable, Option.map_some,
      if_pos (collected.shelters i has _ follows)]
  · cases kept

theorem fair_new (stdlib : Bool) : (Machine.new stdlib).Fair := by
  have none : (Machine.new stdlib).natives.size = 0 := by cases stdlib <;> decide +kernel
  intro i n there
  have lt := (Array.getElem?_eq_some_iff.mp there).1
  omega

end Script.Machine

/-! ## Sessions -/

namespace Session

variable {s s' s'' : Session}

/-- Whether the userdata with handles are there, each once, and the functions of the runtime are what
they are held to be. -/
structure Settled (s : Session) : Prop where
  apart : (s.handles.map Prod.fst).Nodup
  below : ∀ e ∈ s.handles, e.1 < s.machine.userdata.size
  fair : s.machine.Fair

/-- Whether the host functions that were there are what they were, those that are left: their userdata
have the handles that they had, or none, and under these is pinned what was pinned, or nothing. -/
structure Continues (s s' : Session) : Prop where
  machine : s.machine.Passes s'.machine
  handles : ∀ o < s.machine.userdata.size, ∀ h : Handle,
    s'.handles.lookup o = some h → s.handles.lookup o = some h
  pins : s.pins.Later s'.pins

theorem Continues.trans (h : s.Continues s') (h' : s'.Continues s'') : s.Continues s'' where
  machine := h.machine.trans h'.machine
  handles := fun o lt k hk =>
    h.handles o lt k (h'.handles o (Nat.lt_of_lt_of_le lt h.machine.userdata) k hk)
  pins := h.pins.trans h'.pins

/-- The runtime makes some steps, and nothing else happens. -/
theorem Settled.ran {m : Script.Machine} (settled : s.Settled) (grows : s.machine.Grows m) :
    s.Continues { s with machine := m } ∧ Settled { s with machine := m } :=
  ⟨⟨grows.passes, fun _ _ _ hk => hk, .refl⟩, settled.apart, by
    rw [grows.userdata]
    exact settled.below, grows.fair settled.fair⟩

theorem Settled.continues (settled : s.Settled) : s.Continues s :=
  (settled.ran (Script.Machine.Grows.refl s.machine)).1

/-- What is found in a list without two entries for anything is what is there. -/
theorem lookup_eq_some {l : List (Script.UserdataId × Handle)} (apart : (l.map Prod.fst).Nodup)
    {o : Script.UserdataId} {h : Handle} : l.lookup o = some h ↔ (o, h) ∈ l := by
  induction l with
  | nil => simp
  | cons e l ih =>
    rw [List.map_cons, List.nodup_cons] at apart
    rw [List.lookup_cons, List.mem_cons]
    by_cases here : o = e.1
    · subst here
      have once : (e.1, h) ∉ l := fun mem => apart.1 (List.mem_map.mpr ⟨_, mem, rfl⟩)
      simp [once, Prod.ext_iff, eq_comm]
    · rw [beq_false_of_ne here, ih apart.2]
      have other : (o, h) ≠ e := fun eq => here (congrArg Prod.fst eq)
      simp [other]

/-- What one thing that is done to an open session makes of its host functions. -/
theorem Move.continues (h : s.Move s') (isOpen : s'.isOpen = true) (settled : s.Settled) :
    s.Continues s' ∧ s'.Settled := by
  obtain ⟨apart, below, fair⟩ := settled
  cases h with
  | beside _ _ handles pins alike =>
    refine ⟨⟨alike.grows.passes, fun _ _ _ hk => handles ▸ hk, pins⟩, handles ▸ apart, ?_,
      alike.grows.fair fair⟩
    rw [handles, alike.userdata]
    exact below
  | built t pin =>
    have placed := s.machine.newHostFunction.2.2.alike_pushOperand t s.machine.newHostFunction.2.1
    obtain ⟨owner, -, -, userdata, -, -⟩ := s.machine.newHostFunction_eq
    have size : s.machine.userdata.size < ((build t pin).run s).2.machine.userdata.size := by
      refine Nat.lt_of_lt_of_eq (Nat.lt_succ_self _) ?_
      exact ((congrArg Array.size (placed.userdata.trans userdata)).trans (Array.size_push _)).symm
    have handles : ((build t pin).run s).2.handles = (s.machine.userdata.size, pin) :: s.handles := by
      rw [← owner]
      rfl
    refine ⟨⟨s.machine.passes_newHostFunction.trans placed.grows.passes, fun o lt k hk => ?_, .refl⟩,
      ?_, fun e he => ?_, placed.grows.fair fair.newHostFunction⟩
    · rwa [handles, List.lookup_cons, beq_false_of_ne (Nat.ne_of_lt lt)] at hk
    · rw [handles, List.map_cons, List.nodup_cons]
      refine ⟨fun mem => ?_, apart⟩
      obtain ⟨e, he, eq⟩ := List.mem_map.mp mem
      exact absurd (below e he) (by rw [eq]; exact Nat.lt_irrefl _)
    · rw [handles] at he
      obtain rfl | he := List.mem_cons.mp he
      · exact size
      · exact Nat.lt_trans (below e he) size
  | taken o =>
    have fewer := apart.sublist ((List.eraseP_sublist (p := fun e => e.1 == o)).map Prod.fst)
    refine ⟨⟨(Script.Machine.Grows.refl _).passes, fun u _ k hk => ?_, .refl⟩, fewer,
      fun e he => below e (List.mem_of_mem_eraseP he), fair⟩
    exact (lookup_eq_some apart).mpr (List.mem_of_mem_eraseP ((lookup_eq_some fewer).mp hk))
  | collected anchored =>
    have passes := s.machine.passes_collect anchored
    exact ⟨⟨passes, fun _ _ _ hk => hk, .refl⟩, apart,
      fun e he => Nat.lt_of_lt_of_le (below e he) passes.userdata, fair.collect anchored⟩
  | began =>
    have same : s.machine.Grows s.machine.startClose := ⟨.refl _, rfl, rfl⟩
    exact Settled.ran ⟨apart, below, fair⟩ same
  | closed => cases isOpen

/-- What is done to an open session. -/
theorem Moves.continues (h : s.Moves s') (isOpen : s'.isOpen = true) (settled : s.Settled) :
    s.Continues s' ∧ s'.Settled := by
  induction h with
  | refl => exact ⟨settled.continues, settled⟩
  | tail _ move ih =>
    obtain ⟨before, settled'⟩ := ih (move.moves.isOpen isOpen)
    obtain ⟨after, settled''⟩ := move.continues isOpen settled'
    exact ⟨before.trans after, settled''⟩

theorem settled_start (id : SessionId) (options : Settings) : (Session.start id options).Settled :=
  ⟨List.nodup_nil, nofun, Script.Machine.fair_new options.stdlib⟩

end Session

/-! ## Runs -/

namespace Host.World

variable {id : SessionId} {program : List Step} {whims : List Whim} {n : Nat} {s s' : Session}

/-- How many steps the runtime of a session makes in the next turn, at most. -/
def stint (w : World) (id : SessionId) : Nat := if w.control.script? = some id then w.patience else 0

theorem stepped_eq_run (w : World) (id : SessionId) (m : Script.Machine) :
    w.stepped id m = m.run (w.stint id) := by
  rw [stepped, stint]
  split <;> rfl

theorem ran_absent {w : World} (absent : w.sessions[id]? = none) : w.ran.sessions[id]? = none := by
  rw [ran]
  split
  · rename_i j _
    split
    · rename_i u hu
      have other : id ≠ j := by
        rintro rfl
        rw [absent] at hu
        cases hu
      rw [getElem?_withSession_of_ne other, absent]
    · exact absent
  · exact absent

/-- Whether the scripts of a session change, in the first turns of a run, neither the upvalues of
functions nor the metatables of userdata. -/
def Untampered (w : World) (id : SessionId) (turns : Nat) : Prop :=
  ∀ n < turns, ∀ s : Session, (w.run n).sessions[id]? = some s →
    ∀ k < (w.run n).stint id, (s.machine.run k).tampers = false

theorem Untampered.mono {w : World} {turns fewer : Nat} (h : w.Untampered id turns)
    (le : fewer ≤ turns) : w.Untampered id fewer := fun n lt => h n (Nat.lt_of_lt_of_le lt le)

/-- What becomes of the host functions of a session while its runtime runs. -/
theorem Untampered.grows {w : World} {turns k : Nat} (h : w.Untampered id turns) (lt : n < turns)
    (hs : (w.run n).sessions[id]? = some s) (within : k ≤ (w.run n).stint id) :
    s.machine.Grows (s.machine.run k) :=
  Script.Machine.grows_run k s.machine fun j below => h n lt s hs j (Nat.lt_of_lt_of_le below within)

/-- What becomes of the host functions of a session in a turn. -/
theorem continues_turn (fair : (start program whims).Untampered id (n + 1))
    (hs : ((start program whims).run n).sessions[id]? = some s)
    (hs' : ((start program whims).run (n + 1)).sessions[id]? = some s') (isOpen : s'.isOpen)
    (settled : s.Settled) : s.Continues s' ∧ s'.Settled := by
  have grows := fair.grows (Nat.lt_succ_self n) hs (Nat.le_refl _)
  rw [← stepped_eq_run] at grows
  obtain ⟨before, ran⟩ := settled.ran grows
  obtain ⟨u, hu, moves⟩ := (led_run program whims n).kept id _ (ran_sessions hs)
  cases hs'.symm.trans hu
  obtain ⟨after, settled'⟩ := moves.continues isOpen ran
  exact ⟨before.trans after, settled'⟩

/-- An open session was open before. -/
theorem isOpen_turn (hs : ((start program whims).run n).sessions[id]? = some s)
    (hs' : ((start program whims).run (n + 1)).sessions[id]? = some s') (isOpen : s'.isOpen) :
    s.isOpen := by
  obtain ⟨u, hu, moves⟩ := (led_run program whims n).kept id _ (ran_sessions hs)
  cases hs'.symm.trans hu
  exact moves.isOpen isOpen

/-- At any point of any run, the functions of an open session are what they are held to be. -/
theorem settled_run (fair : (start program whims).Untampered id n)
    (hs : ((start program whims).run n).sessions[id]? = some s) (isOpen : s.isOpen) : s.Settled := by
  induction n generalizing s with
  | zero => cases hs
  | succ n ih =>
    cases before : ((start program whims).run n).sessions[id]? with
    | some u =>
      exact (continues_turn fair before hs isOpen
        (ih (fair.mono (Nat.le_succ n)) before (isOpen_turn before hs isOpen))).2
    | none =>
      obtain ⟨-, options, moves⟩ := (led_run program whims n).fresh id s hs (ran_absent before)
      exact (moves.continues isOpen (Session.settled_start id options)).2

/-- The host functions of an open session are those of an earlier turn, with those that were made
since. -/
theorem continues_run {m : Nat} (le : m ≤ n) (fair : (start program whims).Untampered id n)
    (hs : ((start program whims).run m).sessions[id]? = some s)
    (hs' : ((start program whims).run n).sessions[id]? = some s') (isOpen : s'.isOpen) :
    s.isOpen ∧ s.Continues s' := by
  induction n, le using Nat.le_induction generalizing s' with
  | base =>
    cases hs.symm.trans hs'
    exact ⟨isOpen, (settled_run fair hs isOpen).continues⟩
  | succ n le ih =>
    obtain ⟨u, hu⟩ := present_run program whims le hs
    have wasOpen := isOpen_turn hu hs' isOpen
    have fair' := fair.mono (Nat.le_succ n)
    obtain ⟨first, before⟩ := ih fair' hu wasOpen
    exact ⟨first, before.trans
      (continues_turn fair hu hs' isOpen (settled_run fair' hu wasOpen)).1⟩

/-- A host function has come into being in some turn, and not while the runtime ran: the host has made
it. -/
theorem made_run {i : Script.NativeId} {c : Script.Native}
    (fair : (start program whims).Untampered id n)
    (hs : ((start program whims).run n).sessions[id]? = some s) (isOpen : s.isOpen)
    (there : s.machine.natives[i]? = some (some c)) (host : c.kind = .host) :
    ∃ j < n, ∃ s₁, ((start program whims).run (j + 1)).sessions[id]? = some s₁
      ∧ s₁.machine.natives[i]? = some (some c)
      ∧ ∀ s₀, ((start program whims).run j).sessions[id]? = some s₀ →
        (s₀.machine.run (((start program whims).run j).stint id)).natives.size ≤ i := by
  induction n generalizing s with
  | zero => cases hs
  | succ n ih =>
    cases before : ((start program whims).run n).sessions[id]? with
    | none => exact ⟨n, Nat.lt_succ_self n, s, hs, there, fun s₀ hs₀ => by
        rw [before] at hs₀
        cases hs₀⟩
    | some u =>
      have fair' := fair.mono (Nat.le_succ n)
      have wasOpen := isOpen_turn before hs isOpen
      have grows := fair.grows (Nat.lt_succ_self n) before (Nat.le_refl _)
      by_cases new : (u.machine.run (((start program whims).run n).stint id)).natives.size ≤ i
      · exact ⟨n, Nat.lt_succ_self n, s, hs, there, fun s₀ hs₀ => by
          cases before.symm.trans hs₀
          exact new⟩
      · -- it was there when the runtime had run, and before, since scripts make no host functions
        obtain ⟨v, hv, moves⟩ := (led_run program whims n).kept id _ (ran_sessions before)
        cases hs.symm.trans hv
        rw [stepped_eq_run] at moves
        obtain ⟨continues, -⟩ :=
          moves.continues isOpen ((settled_run fair' before wasOpen).ran grows).2
        have ran := continues.machine.old i (Nat.not_le.mp new) c there host
        have old := (grows.natives.inner i c ran).resolve_right fun inner => inner.1 host
        obtain ⟨j, lt, rest⟩ := ih fair' before wasOpen old
        exact ⟨j, Nat.lt_succ_of_lt lt, rest⟩

end Host.World

end ScriptBridge
