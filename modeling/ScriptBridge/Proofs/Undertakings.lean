import ScriptBridge.Proofs.Proceedings

/-!
# ScriptBridge.Proofs.Undertakings

The steps of a side that do not run scripts.  They work on the sessions and slots of that side and leave
all others alone.  Those that are about the session map are not for sessions of ours.

Main facts:

* `Turn.tries_immediate` — a step that opens no session;
* `Turn.opensAt` — a session is opened.
-/

namespace ScriptBridge.Host

open scoped CoreInstances

/-- What is kept of a value that is read as a type is a side's if the value is. -/
theorem Sides.owns_extractAs {τ : Sides} {b : Bool} {as : Extraction} {v kept : Value}
    {shown : Extracted}
    (h : World.extractAs as v = .ok (shown, some kept)) (own : τ.Owns b v) : τ.Owns b kept := by
  induction as with
  | value =>
    cases h
    exact own
  | optional of ih =>
    cases v with
    | nil => cases h
    | _ => exact ih h
  | reference =>
    cases v with
    | reference r | function r =>
      cases h
      exact own
    | _ => cases h
  | function =>
    cases v with
    | function r =>
      cases h
      exact own
    | _ => cases h
  | malformed => cases h
  | _ => exact absurd h World.lift_none

namespace Turn

open World

variable {α : Type} {T : Turn} {τ τ' : Sides} {w v : World} {id : SessionId} {body : Option Bool}
  {lent : String → Bool} {K : Scene} {name : String} {path : String} {into : Option String}

/-- A name of a side stands for the same session, which is one of that side. -/
theorem tries_sessionNamed (mine : T.ours name = T.side) :
    T.Tries τ K (sessionNamed name) fun τ id => τ.session id = some T.side := by
  refine .get (fun w v h ours => ?_) fun w v h => ?_
  · have same : (v.names.find? fun e => e.1 == name) = w.names.find? fun e => e.1 == name := by
      rw [h.1.names, List.find?_filter]
      refine congrFun (congrArg _ (funext fun e => ?_)) w.names
      cases here : e.1 == name with
      | false => simp
      | true => simp [eq_of_beq here, mine, ours]
    rw [same]
  · cases there : w.names.find? fun e => e.1 == name with
    | none => exact Tries.throw _ w v h
    | some e =>
      have is := List.find?_some there
      refine Tries.pure ?_ w v h
      rw [h.1.named e (List.mem_of_find?_eq_some there), eq_of_beq is, mine]

/-- A value goes into a slot of its side, or is dropped. -/
theorem tries_keepOrDrop (kept : slotsKept T.ours body T.side into.toList = true) {u : Value}
    (own : τ.Owns T.side u) : T.Tries τ (T.At body unlent) (keepOrDrop into u) fun _ _ => True := by
  cases into with
  | some name => exact tries_storeSlot (Bool.and_eq_true_iff.mp kept).1 own
  | none => exact .keeps (keeps_dropValue own)

theorem tries_keepAnswer (kept : slotsKept T.ours body T.side into.toList = true) {u : Value}
    (own : τ.Owns T.side u) : T.Tries τ (T.At body unlent) (keepAnswer u into) fun _ _ => True :=
  .bind (tries_keepOrDrop kept own) fun _ _ _ _ => .pure trivial

/-- What was defined under a name of a side is let go of when something else is, or nothing. -/
theorem tries_redefine {f : Std.TreeMap String CallableId → Std.TreeMap String CallableId}
    (answer : Option CallableId → Answer) (mine : T.ours name = T.side)
    (splits : ∀ w v, T.Twin τ w v →
      Split (fun n => some (T.ours n)) (fun b _ g => τ.mine b g) (f w.defined)
      (if T.side = true then f v.defined else v.defined)) :
    T.Tries τ K (do
      let old := (← MonadState.get).defined[name]?
      modify fun w : World => { w with defined := f w.defined }
      World.release (old.toList.map Chore.callable)
      return answer old : Try Answer) fun _ _ => True := by
  refine .get (fun w v h ours => by rw [h.1.defined_ours ours mine]) fun w v h => ?_
  have changed : T.Keeps τ K (modify fun w : World => { w with defined := f w.defined }) :=
    Keeps.modify (fun w v twin => twin.withDefined (splits w v twin)) (fun _ => rfl) fun _ => rfl
  refine Tries.bind (.keeps changed) (fun _ τ' le _ => .bind (.keeps (keeps_release fun c hc => ?_))
    fun _ _ _ _ => .pure trivial) w v h
  obtain ⟨g, hg, rfl⟩ := List.mem_map.mp hc
  exact le.callable _ _ (h.1.defined.holds (Option.mem_toList.mp hg) (congrArg some mine))

/-- What is done to the session map is no matter of our share. -/
theorem keeps_onDirectory (theirs : T.side = false) (op : Clerk α) : T.Keeps τ K (onDirectory op) :=
  fun w v ⟨twin, scene⟩ => by
    refine ⟨fun ours => (by cases theirs.symm.trans ours), τ, .refl T.side τ, ?_⟩
    rw [follow, if_neg (by rw [theirs]; simp)]
    exact ⟨.theirs { twin.toShare with } theirs, scene⟩

/-- A step that is done at once and opens no session keeps to what its side has. -/
theorem tries_immediate {action : Action} {act : Try Answer} (is : immediate action = some act)
    (old : ∀ name options, action ≠ .openSession name options)
    (kept : action.keeps T.ours body T.side = true) :
    T.Tries τ (T.At body unlent) act fun _ _ => True := by
  cases action with
  | openSession name options => exact absurd rfl (old name options)
  | lookUp name path into =>
    cases is
    simp only [Action.keeps, Bool.and_eq_true, beq_iff_eq] at kept
    exact .bind (tries_sessionNamed kept.1) fun _ _ _ here =>
      .bind (tries_trySession here fun _ => Session.keeper_lookUp path) fun _ _ le made =>
        tries_keepAnswer kept.2 (Sides.owns_of_madeBy made (le.session _ _ here))
  | lookUpFunction name path into =>
    cases is
    simp only [Action.keeps, Bool.and_eq_true, beq_iff_eq] at kept
    refine .bind (tries_sessionNamed kept.1) fun _ _ _ here =>
      .bind (tries_trySession here fun _ => Session.keeper_lookUp path) fun u τ' le made => ?_
    have own := Sides.owns_of_madeBy made (le.session _ _ here)
    cases u with
    | function r => exact tries_keepAnswer kept.2 own
    | _ => exact .bind (.keeps (keeps_dropValue own)) fun _ _ _ _ => .throw _
  | define name f =>
    cases is
    simp only [Action.keeps, Bool.and_eq_true, beq_iff_eq] at kept
    refine .bind (tries_callable τ f kept.2) fun g τ' _ mine => ?_
    exact tries_redefine (f := fun t => t.insert name g) (fun _ => .ok) kept.1
      fun _ _ twin => twin.defined.insert (congrArg some kept.1) mine
  | undefine name =>
    cases is
    simp only [Action.keeps, beq_iff_eq] at kept
    exact tries_redefine (f := fun t => t.erase name) (fun old => .flag old.isSome) kept
      fun _ _ twin => twin.defined.erase (congrArg some kept)
  | extract e as into =>
    cases is
    simp only [Action.keeps, Bool.and_eq_true] at kept
    refine .bind (tries_value τ e kept.1) fun u τ' _ own => ?_
    cases read : extractAs as u with
    | error mishap => exact .bind (.keeps (keeps_dropValue own)) fun _ _ _ _ => .throw _
    | ok r =>
      obtain ⟨shown, rest⟩ := r
      cases rest with
      | some x =>
        exact .bind (tries_keepOrDrop kept.2 (Sides.owns_extractAs read own)) fun _ _ _ _ =>
          .pure trivial
      | none => exact .bind (.keeps (keeps_dropValue own)) fun _ _ _ _ => .pure trivial
  | put slot e =>
    cases is
    simp only [Action.keeps, Bool.and_eq_true] at kept
    exact .bind (tries_value τ e kept.2) fun _ _ _ own =>
      .bind (tries_storeSlot kept.1 own) fun _ _ _ _ => .pure trivial
  | discard slot =>
    cases is
    exact .bind (tries_takeSlot kept) fun _ _ _ own => .bind (.keeps (keeps_dropValue own))
      fun _ _ _ _ => .pure trivial
  | release slot =>
    cases is
    refine .bind (tries_takeSlot kept) fun u _ _ own => .bind (.keeps (keeps_dropValue own))
      fun _ _ _ _ => ?_
    cases u.ref? with
    | some r => exact .pure trivial
    | none => exact .throw _
  | clone slot into =>
    cases is
    simp only [Action.keeps, Bool.and_eq_true] at kept
    refine .bind (tries_filledSlot kept.1) fun p _ _ known => ?_
    obtain ⟨place, slot⟩ := p
    obtain ⟨-, own, -⟩ := known
    dsimp only
    dsimp only at own
    generalize slot.value = u at own
    cases u with
    | reference r | function r =>
      exact .bind (tries_reanchor own) fun _ _ _ here => tries_keepAnswer kept.2 here
    | _ => exact .throw _
  | toReference slot into =>
    cases is
    simp only [Action.keeps, Bool.and_eq_true] at kept
    refine .bind (tries_takeSlot kept.1) fun u _ _ own => ?_
    cases u with
    | function r => exact tries_keepAnswer kept.2 own
    | _ => exact .bind (.keeps (keeps_dropValue own)) fun _ _ _ _ => .throw _
  | describe slot =>
    cases is
    exact .bind (tries_filledSlot kept) fun _ _ _ _ => .pure trivial
  | compare a b =>
    cases is
    simp only [Action.keeps, Bool.and_eq_true] at kept
    exact .bind (tries_filledSlot kept.1) fun _ _ _ _ =>
      .bind (tries_filledSlot kept.2) fun _ _ _ _ => .pure trivial
  | countPins name =>
    cases is
    simp only [Action.keeps, beq_iff_eq] at kept
    exact .bind (tries_sessionNamed kept) fun _ _ _ here =>
      .bind (.keeps (keeps_onSession here fun _ => .get_bind fun _ h => h)) fun _ _ _ _ => .pure trivial
  | status name =>
    cases is
    simp only [Action.keeps, beq_iff_eq] at kept
    exact .bind (tries_sessionNamed kept) fun _ _ _ here =>
      .bind (.keeps (keeps_onSession here fun _ => .get_bind fun _ h => h)) fun _ _ _ _ => .pure trivial
  | showMap | holdMap | freeMaps =>
    cases is
    have theirs : T.side = false := by simpa [Action.keeps] using kept
    exact .bind (.keeps (keeps_onDirectory theirs _)) fun _ _ _ _ => .pure trivial
  | fail e =>
    cases is
    exact .bind (tries_failure e) fun _ _ _ _ => .throw _
  | malformed =>
    cases is
    exact .throw _
  | _ => cases is

/-! ## New sessions -/

/-- A session that is opened under a name of a side is that side's. -/
theorem opensAt {options : Settings} {act : Try Answer}
    (is : immediate (.openSession name options) = some act) (mine : T.ours name = T.side)
    (h : T.Holds (T.At body unlent) τ w v)
    (clear : ∀ j, IsOpen w.sessions j → T.address j ≠ T.address (w.issued + 1)) :
    TracksAt T.side w v act.run
      (T.After τ (With (fun _ => OnOk fun _ => True) (T.At body unlent))) := by
  cases is
  obtain ⟨twin, scene⟩ := h
  let id := w.issued + 1
  let s := Session.start id options
  have fresh : τ.session id = none := by
    cases hid : τ.session id with
    | none => rfl
    | some b => exact absurd (twin.there id b hid).1 (Nat.not_succ_le_self _)
  obtain ⟨τ', le, here, others, callable⟩ : ∃ τ', τ.Le T.side τ' ∧ τ'.session id = some T.side
      ∧ (∀ j, j ≠ id → τ'.session j = τ.session j) ∧ τ'.callable = τ.callable :=
    ⟨_, Sides.le_withSession fresh, if_pos rfl, fun j new => if_neg new, rfl⟩
  obtain ⟨sessions, slots, defined, callables⟩ := twin.grow le
  have keeper : s.Keeper (τ'.mine T.side) id s.isOpen :=
    ⟨rfl, rfl, fun k f hf => by simp [s, Session.start, Registry.empty] at hf⟩
  have split := sessions.insert here keeper
  have named : ∀ e ∈ w.names ++ [(name, id)],
      τ'.session e.2 = some (T.ours e.1) := fun e he => by
    obtain he | he := List.mem_append.mp he
    · exact le.session _ _ (twin.named e he)
    · rw [List.mem_singleton.mp he, mine]
      exact here
  have there : ∀ j b, τ'.session j = some b → j ≤ id
      ∧ ∃ u, (w.sessions.insert id s)[j]? = some u := fun j b hj => by
    by_cases new : j = id
    · exact ⟨Nat.le_of_eq new, s, by rw [new, Std.TreeMap.getElem?_insert_self]⟩
    · obtain ⟨before, u, hu⟩ := twin.there j b ((others j new).symm.trans hj)
      exact ⟨Nat.le_succ_of_le before, u, by rw [getElem?_insert_of_ne new, hu]⟩
  let whole : World := { w with
    issued := id
    sessions := w.sessions.insert id s
    names := w.names ++ [(name, id)]
    directory := ((Directory.enroll id).run w.directory).2 }
  let share : World := { v with
    issued := id
    sessions := v.sessions.insert id s
    names := v.names ++ [(name, id)]
    directory := ((Directory.enroll id).run v.directory).2 }
  refine .of_run (.ok (.opened id s.label)) whole share rfl (fun ours => ?_)
    ⟨_, le, ?_, trivial, ?_⟩
  · obtain ⟨issued, -⟩ := twin.numbers ours
    have same : v.issued + 1 = id := congrArg (· + 1) issued
    change (Except.ok _, _) = _
    simp only [share, s, ← same]
    rfl
  · cases side : T.side with
    | false =>
      rw [side] at split
      exact .theirs { twin.toShare with
        sessions := split, slots := slots, defined := defined, callables := callables, named := named
        there := there, made := fun f => callable ▸ twin.made f
        names := by
          rw [show whole.names = _ from rfl, List.filter_append, ← twin.names]
          simp [mine, side]
        enrolled := fun j r hr => le.session _ _ (twin.enrolled j r hr) } side
    | true =>
      rw [side] at split
      have absent : v.sessions[id]? = none := by
        rw [twin.sessions.share, if_neg (by rw [fresh]; simp)]
      have unknown : v.directory.registrations[id]? = none := by
        cases hr : v.directory.registrations[id]? with
        | none => rfl
        | some r => cases fresh.symm.trans (twin.enrolled id r hr)
      have apart : ∀ j, IsOpen v.sessions j → v.directory.address j ≠ v.directory.address id := by
        rintro j ⟨u, hu, isOpen⟩
        rw [twin.address]
        exact clear j ⟨u, (twin.sessions.of_share hu).2, isOpen⟩
      obtain ⟨mapped, same, -, registered⟩ := Directory.leads_enroll unknown apart v.directory
        ⟨twin.mapped, .refl _⟩
      exact { twin with
        sessions := split, slots := slots, defined := defined, callables := callables, named := named
        there := there, made := fun f => callable ▸ twin.made f
        numbers := fun ours => ⟨rfl, (twin.numbers ours).2⟩
        names := by
          rw [show whole.names = _ from rfl, List.filter_append, ← twin.names]
          simp [share, mine, side]
        mapped := mapped.congr fun j => (Routed.isOpen_insert absent rfl j).symm
        enrolled := fun j r hr => (registered j r hr).elim (fun new => by rw [new, here, side])
          fun hr => le.session _ _ (twin.enrolled j r hr)
        address := same.address.trans twin.address }
  · cases T.side <;> exact Stacks.le scene le

end Turn

end ScriptBridge.Host
