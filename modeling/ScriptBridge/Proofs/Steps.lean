import ScriptBridge.Proofs.Evaluation

/-!
# ScriptBridge.Proofs.Steps

The steps of a program that are done at once leave the books of the world right, whether they fail
or not.

Main facts:

* `keeps_openSession` — nothing is held of a session that is new;
* `keeps_immediate` — any step that does not run scripts.
-/

namespace ScriptBridge

/-- Nothing is held of a session that is new. -/
theorem Session.tidy_start (id : SessionId) (options : Settings) :
    (Session.start id options).Tidy (fun _ => none) 0 where
  cells := by simp [Session.start]
  fresh := by simp [Session.start]
  ledger := by simp [Session.start, weigh, Ledger.empty]
  solvent := rfl
  solid := by simp [Session.start]
  moored := fun _ cell c a hc => by simp [Session.start, cell?] at hc
  anchored := by simp [Session.start, moorings, Anchors.empty]
  conserved := fun _ => Anchors.conserved_empty
  past := by simp
  pins := by simp [Session.start, cellPins, userdataPins, Registry.empty]
  lapsed := by simp [Session.start, Registry.empty]
  issued := by simp [Session.start, Registry.empty]
  backs := by simp
  awake := rfl

namespace Host.World

variable {w : World} {μ : SessionId → Session.Memory} {H T pre err : Multiset Holding}

/-! ## New sessions -/

/-- A session that is new is on the map. -/
theorem Charted.enroll {id : SessionId} {d : Directory} (h : Charted w.sessions d) (absent : w.sessions[id]? = none)
    {s : Session} (isOpen : s.isOpen = true) :
    Charted (w.sessions.insert id s) ((Directory.enroll id).run d).2 := by
  have own : (w.sessions.insert id s)[id]? = some s := Std.TreeMap.getElem?_insert_self
  have other : ∀ {j : SessionId}, j ≠ id → (w.sessions.insert id s)[j]? = w.sessions[j]? :=
    getElem?_insert_of_ne
  have fresh : d.registrations[id]? = none := by
    cases hr : d.registrations[id]? with
    | none => rfl
    | some r =>
      obtain ⟨u, hu⟩ := h.enrolled id r hr
      cases absent.symm.trans hu
  have ne : ∀ j, IsOpen w.sessions j → j ≠ id := by
    rintro j ⟨u, hu, -⟩ rfl
    cases absent.symm.trans hu
  obtain ⟨mapped, same, -, registered⟩ := Directory.leads_enroll fresh
    (fun j hj same => ne j hj (h.wide j id same)) d ⟨h.mapped, .refl d⟩
  refine ⟨mapped.congr fun j => ?_, fun j r hr => ?_, same.address ▸ h.wide⟩
  · by_cases here : j = id
    · subst here
      simp [IsOpen, isOpen]
    · rw [or_iff_left here, IsOpen, IsOpen, other here]
  · by_cases here : j = id
    · exact ⟨s, here ▸ own⟩
    · rw [other here]
      exact h.enrolled j r ((registered j r hr).resolve_left here)

/-- A session that is new is balanced by nothing. -/
theorem Balanced.opened (hw : w.Balanced μ T) (options : Settings)
    (names : List (String × SessionId)) :
    Balanced μ T { w with
      issued := w.issued + 1
      sessions := w.sessions.insert (w.issued + 1) (Session.start (w.issued + 1) options)
      names
      directory := ((Directory.enroll (w.issued + 1)).run w.directory).2 } := by
  have absent : w.sessions[w.issued + 1]? = none := by
    rw [Option.eq_none_iff_forall_ne_some]
    intro s hs
    exact absurd (hw.numbered _ s hs).2 (Nat.not_succ_le_self _)
  have still : ∀ i : SessionId, (∃ u : Session, w.sessions[i]? = some u) → ∃ u : Session,
      (w.sessions.insert (w.issued + 1) (Session.start (w.issued + 1) options))[i]? = some u := by
    rintro i ⟨u, hu⟩
    refine ⟨u, ?_⟩
    rw [getElem?_insert_of_ne, hu]
    rintro rfl
    rw [absent] at hu
    cases hu
  have nothing : own (w.issued + 1) T = own (w.issued + 1) 0 := by
    refine own_eq_zero.mpr fun h hh eq => ?_
    obtain nobody | ⟨u, hu⟩ := hw.near h hh
    · exact absurd (eq.symm.trans nobody) (Nat.succ_ne_zero _)
    · rw [eq, absent] at hu
      cases hu
  have unseen : μ (w.issued + 1) = fun _ => none := by
    funext c
    rw [Option.eq_none_iff_forall_ne_some]
    intro v hv
    obtain ⟨u, hu⟩ := hw.unseen _ c v hv
    rw [absent] at hu
    cases hu
  refine { hw with
    tidy := ?_
    numbered := ?_
    near := fun h hh => (hw.near h hh).imp_right (still _)
    worth := ?_
    unseen := fun i c v hv => still i (hw.unseen i c v hv)
    charted := hw.charted.enroll absent rfl }
  · intro i s hs
    by_cases here : i = w.issued + 1
    · subst here
      obtain rfl : Session.start (w.issued + 1) options = s := by simpa using hs
      refine ⟨rfl, ?_⟩
      rw [unseen]
      exact (Session.tidy_start _ options).of_own nothing
    · rw [getElem?_insert_of_ne here] at hs
      exact hw.tidy i s hs
  · intro i s hs
    by_cases here : i = w.issued + 1
    · exact ⟨here ▸ Nat.succ_pos _, Nat.le_of_eq here⟩
    · rw [getElem?_insert_of_ne here] at hs
      exact ⟨(hw.numbered i s hs).1, Nat.le_succ_of_le (hw.numbered i s hs).2⟩
  · have same : (Session.start (w.issued + 1) options).pinned = 0 := by
      simp [Session.pinned, Session.start, Registry.empty]
    rw [pinned, entries_insert absent, Multiset.map_cons, Multiset.sum_cons, same, zero_add]
    exact hw.worth

/-- Whoever holds the map or looks at it has nothing to do with holdings. -/
theorem keeps_onDirectory {α : Type} {op : Clerk α}
    (settles : ∀ (b : Directory) (L : SessionId → Prop), Leads (b.Tended L 0) op
      fun _ => b.Settled L) : Keeps Books 0 (onDirectory op) fun _ => 0 :=
  fun w _ _ ⟨hw, owed⟩ => ⟨{ hw with
    charted := hw.charted.settled (settles w.directory _ w.directory
      ⟨hw.charted.mapped, .refl _⟩) }, owed⟩

theorem keeps_openSession (name : String) (options : Settings) {act : Try Answer}
    (h : immediate (.openSession name options) = some act) :
    Keeps Books 0 act.run (onResult (fun _ => 0) 0) := by
  obtain rfl := Option.some.inj h
  rintro w μ H ⟨hw, owed⟩
  exact ⟨hw.opened options (w.names ++ [(name, w.issued + 1)]), owed⟩

/-! ## Parts of steps -/

theorem keeps_sessionNamed (name : String) :
    Keeps Books 0 (sessionNamed name).run (onResult (fun _ => 0) 0) := by
  intro w
  refine KeepsAt.tryGet ?_
  split
  · exact KeepsAt.tryPure _ rfl
  · exact KeepsAt.throw _ rfl

/-- What an operation that may fail makes of the holdings of its session. -/
theorem keeps_attemptOn {α : Type} {id : SessionId} {op : Attempt α} {P E : Multiset Holding}
    {Q : α → Multiset Holding}
    (keeps : ∀ o, Keeps (Session.Books id o) P op.run (onResult Q E))
    (about : ∀ h ∈ P, h.session = id ∨ h.session = 0)
    (clear : ∀ a, tally Holding.debts (Q a) = 0) (clear' : tally Holding.debts E = 0)
    (instead : ∀ h ∈ E, ∃ k ∈ P, k.session = h.session)
    (callables : tally Holding.callables E = tally Holding.callables P) :
    Keeps Books P (attemptOn id op) (onResult Q E) := fun _ =>
  keepsAt_onSession keeps about (fun r => by cases r <;> [exact clear'; exact clear _])
    fun _ => ⟨instead, callables⟩

/-- An operation that may fail and borrows what it is handed.  What it hands over besides may be
owed: there may be owners of callables among it that are not counted yet. -/
theorem Balanced.owing {α : Type} {id : SessionId} {op : Attempt α} {C R : Multiset Holding}
    {Q : α → Multiset Holding} (hw : w.Balanced μ (C + R)) (clear : tally Holding.debts (C + R) = 0)
    (keeps : ∀ o, Keeps (Session.Books id o) C op.run (onResult (fun a => C + Q a) C))
    (about : ∀ a, ∀ h ∈ Q a, h.session = id ∨ h.session = 0) :
    Balanced μ (onResult (fun a => C + Q a) C ((attemptOn id op).run w).1 + R)
      ((attemptOn id op).run w).2 := by
  refine hw.onSession clear keeps (fun s e o _ i there somebody => ?_) fun _ => hw
  have none : ∀ a, own i (Q a) = 0 := by
    intro a
    refine own_eq_zero.mpr fun h hh eq => ?_
    obtain here | nobody := about a h hh
    · exact there (eq.symm.trans here)
    · exact somebody (eq.symm.trans nobody)
  cases (op.run.run s).1 with
  | ok a => rw [onResult_ok, own_add, none, add_zero]
  | error f => rfl

theorem Books.owing {α : Type} {id : SessionId} {op : Attempt α} {C : Multiset Holding}
    {Q : α → Multiset Holding} (hw : Books μ (C + H) w)
    (keeps : ∀ o, Keeps (Session.Books id o) C op.run (onResult (fun a => C + Q a) C))
    (about : ∀ a, ∀ h ∈ Q a, h.session = id ∨ h.session = 0) :
    Balanced μ (onResult (fun a => C + Q a) C ((attemptOn id op).run w).1 + (w.holdings + H))
      ((attemptOn id op).run w).2 := by
  have swap : w.holdings + (C + H) = C + (w.holdings + H) := by ac_rfl
  rw [Books, swap] at hw
  exact hw.1.owing hw.2 keeps about

/-- A result that an operation on a session has is one that it has there. -/
theorem attemptOn_ok {α : Type} {id : SessionId} {op : Attempt α} {a : α}
    (h : ((attemptOn id op).run w).1 = .ok a) :
    ∃ s, w.sessions[id]? = some s ∧ (op.run.run s).1 = .ok a := by
  cases hs : w.sessions[id]? with
  | none =>
    rw [attemptOn, onSession_run_none hs] at h
    cases h
  | some s =>
    rw [attemptOn, onSession_run_some hs] at h
    exact ⟨s, rfl, h⟩

theorem keeps_trySession {α : Type} {id : SessionId} {op : Attempt α} {Q : α → Multiset Holding}
    (keeps : ∀ o, Keeps (Session.Books id o) 0 op.run (onResult Q 0))
    (clear : ∀ a, tally Holding.debts (Q a) = 0) :
    Keeps Books 0 (trySession id op).run (onResult Q 0) := by
  have ready : Keeps Books 0 (attemptOn id op) (onResult Q 0) :=
    keeps_attemptOn keeps (by simp) clear rfl (by simp) rfl
  refine Keeps.tryBind (m := onResult Q 0) (ready.lift 0) fun r => ?_
  cases r with
  | ok a => exact Keeps.tryPure _ rfl
  | error f => exact Keeps.throw _ rfl

theorem debts_value (v : Value) : tally Holding.debts v.holdings = 0 := by
  cases v <;> simp [Value.holdings, Holding.debts]

theorem keeps_keepAnswer (v : Value) (into : Option String) :
    Keeps Books v.holdings (keepAnswer v into).run (onResult (fun _ => 0) 0) :=
  Keeps.tryBind (keeps_keepOrDrop into v) fun _ => Keeps.tryPure _ rfl

/-- A value that is of no use is dropped, and there is a failure. -/
theorem keeps_refuse {α : Type} (v : Value) (mishap : Mishap) :
    Keeps Books v.holdings (do dropValue v; throw mishap : Try α).run (onResult (fun _ => 0) 0) :=
  Keeps.tryBind ((keeps_dropValue v).lift 0) fun _ => Keeps.throw _ rfl

/-! ## Steps -/

/-- The owners that a name was for its callable are let go of. -/
theorem keeps_disowned (fs : List CallableId) (a : Answer) :
    Keeps Books (owners fs) (do release (fs.map Chore.callable); return a : Try Answer).run
      (onResult (fun _ => 0) 0) :=
  Keeps.tryBind ((keeps_releaseCallables fs).lift 0) fun _ => Keeps.tryPure _ rfl

theorem keeps_define (name : String) (f : CallableExpr) :
    Keeps Books 0 (do
      let id ← callable f
      let old := (← get).defined[name]?
      modify fun w => { w with defined := w.defined.insert name id }
      release (old.toList.map Chore.callable)
      return .ok : Try Answer).run (onResult (fun _ => 0) 0) := by
  refine Keeps.tryBind (keeps_callable f) fun id w => KeepsAt.tryGet ?_
  have named : KeepsAt Books w {.callable id}
      (modify fun w => { w with defined := w.defined.insert name id } : Act Unit)
      fun _ => owners w.defined[name]?.toList := by
    rintro μ H ⟨hw, owed⟩
    have total : ({ w with defined := w.defined.insert name id } : World).holdings
        + (owners w.defined[name]?.toList + H) = w.holdings + ({.callable id} + H) := by
      have here := definedHoldings_insert w.defined name id
      calc
        _ = (definedHoldings (w.defined.insert name id) + owners w.defined[name]?.toList)
            + (slotHoldings w.slots + capturedHoldings w.callables
              + activityHoldings w.activities + H) := by
          rw [holdings]
          ac_rfl
        _ = _ := by
          rw [here, holdings]
          ac_rfl
    change Books μ (owners _ + H) { w with defined := w.defined.insert name id }
    rw [Books, total]
    exact ⟨{ hw with }, owed⟩
  exact (named.lift 0).tryBind fun _ _ => keeps_disowned _ _ _

theorem keeps_undefine (name : String) :
    Keeps Books 0 (do
      let old := (← get).defined[name]?
      modify fun w => { w with defined := w.defined.erase name }
      release (old.toList.map Chore.callable)
      return .flag old.isSome : Try Answer).run (onResult (fun _ => 0) 0) := by
  refine fun w => KeepsAt.tryGet ?_
  have named : KeepsAt Books w 0
      (modify fun w => { w with defined := w.defined.erase name } : Act Unit)
      fun _ => owners w.defined[name]?.toList := by
    rintro μ H ⟨hw, owed⟩
    have total : ({ w with defined := w.defined.erase name } : World).holdings
        + (owners w.defined[name]?.toList + H) = w.holdings + (0 + H) := by
      rw [holdings, holdings, definedHoldings_erase w.defined name]
      ac_rfl
    change Books μ (owners _ + H) { w with defined := w.defined.erase name }
    rw [Books, total]
    exact ⟨{ hw with }, owed⟩
  exact (named.lift 0).tryBind fun _ _ => keeps_disowned _ _ _

theorem keeps_extract (e : ValueExpr) (as : Extraction) (into : Option String) :
    Keeps Books 0 (do
      let v ← value e
      match extractAs as v with
      | .error mishap =>
        dropValue v
        throw mishap
      | .ok (shown, some kept) =>
        keepOrDrop into kept
        return .extracted shown
      | .ok (shown, none) =>
        dropValue v
        return .extracted shown : Try Answer).run (onResult (fun _ => 0) 0) := by
  refine Keeps.tryBind (keeps_value e) fun v => ?_
  split
  · exact keeps_refuse v _
  · rename_i shown kept h
    rw [← holdings_extractAs h]
    exact Keeps.tryBind (keeps_keepOrDrop into kept) fun _ => Keeps.tryPure _ rfl
  · exact Keeps.tryBind ((keeps_dropValue v).lift 0) fun _ => Keeps.tryPure _ rfl

theorem keeps_clone (slot : String) (into : Option String) :
    Keeps Books 0 (do
      let (_, s) ← filledSlot slot
      match s.value with
      | .reference ref => keepAnswer (.reference (← reanchor ref)) into
      | .function ref => keepAnswer (.function (← reanchor ref)) into
      | _ => throw (.misuse .notReference) : Try Answer).run (onResult (fun _ => 0) 0) := by
  intro w
  refine keepsAt_filledSlot (fun place s hs => ?_) rfl
  have held := holdings_slotAt hs
  obtain ⟨v, borrows⟩ := s
  cases v with
  | reference r =>
    exact (keepsAt_reanchor (Multiset.singleton_le.mp held)).tryBind fun copy _ =>
      keeps_keepAnswer (.reference copy) into _
  | function r =>
    exact (keepsAt_reanchor (Multiset.singleton_le.mp held)).tryBind fun copy _ =>
      keeps_keepAnswer (.function copy) into _
  | _ => exact KeepsAt.throw _ rfl

/-- Steps that are done at once leave the books right. -/
theorem keeps_immediate {a : Action} {act : Try Answer} (h : immediate a = some act) :
    Keeps Books 0 act.run (onResult (fun _ => 0) 0) := by
  cases a with
  | openSession name options => exact keeps_openSession name options h
  | lookUp name path into =>
    obtain rfl := Option.some.inj h
    exact Keeps.tryBind (keeps_sessionNamed name) fun _ => Keeps.tryBind
      (keeps_trySession (fun _ => Session.keeps_lookUp path) debts_value)
      fun v => keeps_keepAnswer v into
  | lookUpFunction name path into =>
    obtain rfl := Option.some.inj h
    refine Keeps.tryBind (keeps_sessionNamed name) fun _ => Keeps.tryBind
      (keeps_trySession (fun _ => Session.keeps_lookUp path) debts_value) fun v => ?_
    cases v with
    | function r => exact keeps_keepAnswer (.function r) into
    | _ => exact keeps_refuse _ _
  | define name f =>
    obtain rfl := Option.some.inj h
    exact keeps_define name f
  | undefine name =>
    obtain rfl := Option.some.inj h
    exact keeps_undefine name
  | extract e as into =>
    obtain rfl := Option.some.inj h
    exact keeps_extract e as into
  | put slot e =>
    obtain rfl := Option.some.inj h
    exact Keeps.tryBind (keeps_value e) fun v => Keeps.tryBind (keeps_storeSlot slot v)
      fun _ => Keeps.tryPure _ rfl
  | discard slot =>
    obtain rfl := Option.some.inj h
    exact Keeps.tryBind (keeps_takeSlot slot) fun v => Keeps.tryBind
      ((keeps_dropValue v).lift 0) fun _ => Keeps.tryPure _ rfl
  | release slot =>
    obtain rfl := Option.some.inj h
    refine Keeps.tryBind (keeps_takeSlot slot) fun v => Keeps.tryBind
      ((keeps_dropValue v).lift 0) fun _ => ?_
    split
    · exact Keeps.tryPure _ rfl
    · exact Keeps.throw _ rfl
  | clone slot into =>
    obtain rfl := Option.some.inj h
    exact keeps_clone slot into
  | toReference slot into =>
    obtain rfl := Option.some.inj h
    refine Keeps.tryBind (keeps_takeSlot slot) fun v => ?_
    cases v with
    | function r => exact keeps_keepAnswer (.reference r) into
    | _ => exact keeps_refuse _ _
  | describe slot =>
    obtain rfl := Option.some.inj h
    intro w
    exact keepsAt_filledSlot (fun _ _ _ => KeepsAt.tryPure _ rfl) rfl
  | compare a b =>
    obtain rfl := Option.some.inj h
    intro w
    refine keepsAt_filledSlot (fun _ _ _ => ?_) rfl
    exact keepsAt_filledSlot (fun _ _ _ => KeepsAt.tryPure _ rfl) rfl
  | countPins name =>
    obtain rfl := Option.some.inj h
    refine Keeps.tryBind (keeps_sessionNamed name) fun id => ?_
    exact Keeps.tryBind ((keeps_onSession_aside fun _ => Session.keeps_look _).lift 0)
      fun _ => Keeps.tryPure _ rfl
  | status name =>
    obtain rfl := Option.some.inj h
    refine Keeps.tryBind (keeps_sessionNamed name) fun id => ?_
    exact Keeps.tryBind ((keeps_onSession_aside fun _ => Session.keeps_look _).lift 0)
      fun _ => Keeps.tryPure _ rfl
  | showMap =>
    obtain rfl := Option.some.inj h
    exact .tryBind ((keeps_onDirectory fun _ _ => Directory.leads_count).lift 0)
      fun _ => Keeps.tryPure _ rfl
  | holdMap =>
    obtain rfl := Option.some.inj h
    exact .tryBind ((keeps_onDirectory fun _ _ => Directory.leads_hold.mono (fun _ h => h) fun _ _ h => h.2).lift 0)
      fun _ => Keeps.tryPure _ rfl
  | freeMaps =>
    obtain rfl := Option.some.inj h
    exact .tryBind ((keeps_onDirectory fun _ _ => Directory.leads_letGo).lift 0)
      fun _ => Keeps.tryPure _ rfl
  | fail e =>
    obtain rfl := Option.some.inj h
    exact Keeps.tryBind (keeps_failure e) fun _ => Keeps.throw _ rfl
  | malformed =>
    obtain rfl := Option.some.inj h
    exact Keeps.throw _ rfl
  | _ => cases h

end Host.World

end ScriptBridge
