import ScriptBridge.Proofs.Shifts

/-!
# ScriptBridge.Proofs.Beginnings

The turns in which steps begin: those that are done at once, and those for which a script is to run,
or a value to be put on a host's frame first.

Main facts:

* `World.nests_immediate`, `World.leads_beginExecute`, `World.leads_beginClose`,
  `World.leads_beginAssign`, `World.leads_beginCall` — the kinds of steps;
* `World.leads_enterCallable` — a host callable is entered;
* `World.leads_beginStep` — any step.
-/

namespace ScriptBridge.Host

open Script (Spine Wait ThreadId FrameInfo)

variable {ps : List Part} {p : Part} {q : Stand} {callers : List Spine} {S B : Spine} {k : Wait}
  {t : ThreadId} {info : FrameInfo} {upvalue : Script.Value} {operands new : List Script.Value}
  {noted : Nat → Spine → Prop}

namespace World

variable {α : Type} {π : Past} {w w' : World} {id j : SessionId} {r : Option SessionId} {s : Session}
  {Ss Ss' : SessionId → List Spine} {I : Session → Prop} {a : Activity} {rest : List Activity}
  {x : Act α} {R : α → World → Prop}

/-! ## Steps that are done at once -/

/-- A session is opened. -/
theorem Nests.opened (h : w.Nests π none Ss) (name : String) (options : Settings)
    (clear : Clear π { w with
      sessions := w.sessions.insert (w.issued + 1) (Session.start (w.issued + 1) options) }) :
    Nests π none Ss { w with
      issued := w.issued + 1
      sessions := w.sessions.insert (w.issued + 1) (Session.start (w.issued + 1) options)
      names := w.names ++ [(name, w.issued + 1)]
      directory := ((Directory.enroll (w.issued + 1)).run w.directory).2 } := by
  let id := w.issued + 1
  have absent : w.sessions[id]? = none := by
    cases hs : w.sessions[id]? with
    | none => rfl
    | some s => exact absurd (h.numbered id s hs) (Nat.not_succ_le_self _)
  have own : (w.sessions.insert id (Session.start id options))[id]?
      = some (Session.start id options) := by simp
  have other : ∀ j, j ≠ id →
      (w.sessions.insert id (Session.start id options))[j]? = w.sessions[j]? :=
    fun j ne => getElem?_insert_of_ne ne
  obtain ⟨apart, empty⟩ := h.absent id absent
  have unnamed : ∀ e ∈ w.names, e.2 ≠ id := fun e he eq => by
    obtain ⟨⟨s, hs, -⟩, -⟩ := h.named e he
    rw [eq, absent] at hs
    cases hs
  have idle : ¬ w.Closing id := by
    rintro ⟨a, ha, closing⟩
    have part := apart _ (List.mem_map_of_mem ha)
    rw [Activity.part_self (Activity.about_of_closing closing)] at part
    cases part
  refine ⟨⟨fun j none => ?_, fun e he => ?_, ?_, fun j s hs => ?_, h.rooted,
    h.routed.opened absent idle rfl _ clear, h.clean,
    fun j young => h.unborn j (Nat.lt_of_succ_lt young)⟩, fun j s hs => ?_, fun _ eq => ?_⟩
  · by_cases here : j = id
    · rw [here, own] at none
      cases none
    · exact h.absent j ((other j here).symm.trans none)
  · obtain he | he := List.mem_append.mp he
    · obtain ⟨there, closes⟩ := h.named e he
      rw [other e.2 (unnamed e he)]
      exact ⟨there, closes⟩
    · obtain rfl := List.mem_singleton.mp he
      exact ⟨⟨_, own, rfl⟩, fun closes => by cases apart _ closes⟩
  · rw [List.map_append, List.nodup_append]
    refine ⟨h.distinct, List.nodup_singleton _, fun i hi j hj => ?_⟩
    obtain ⟨e, he, rfl⟩ := List.mem_map.mp hi
    obtain rfl := List.mem_singleton.mp hj
    exact unnamed e he
  · by_cases here : j = id
    · exact here.le
    · exact Nat.le_succ_of_le (h.numbered j s ((other j here).symm.trans hs))
  · by_cases here : j = id
    · subst here
      cases own.symm.trans hs
      refine ⟨.seated [(Script.Machine.main, .host ⟨1, 0, true⟩ .nil [])], empty ▸ .fresh apart (h.unborn id (Nat.lt_succ_self _)),
        ⟨rfl, rfl, Script.Machine.idle_new options.stdlib⟩, rfl⟩
    · exact h.lies j s ((other j here).symm.trans hs)
  · cases eq

/-- The session map is held, or looked at. -/
theorem nests_onDirectory {op : Clerk α} (settles : ∀ (d : Directory) (L : SessionId → Prop),
      d.Sound L 0 → d.Settled L (op.run d).2) : Preserves (Nests π none Ss) (onDirectory op) :=
  fun w h => ⟨⟨h.absent, h.named, h.distinct, h.numbered, h.rooted,
    h.routed.settled (settles w.directory _ h.routed.mapped), h.clean, h.unborn⟩, h.lies, h.runs⟩

/-- A step that is done at once leaves the calls in progress alone, if the runtimes that are there
then have different addresses. -/
theorem nests_immediate {action : Action} {act : Try Answer} (h : immediate action = some act) :
    Leads (Nests π none Ss) act.run fun _ w => w.Clear π → Nests π none Ss w := by
  cases mapped : action.isMapped with
  | false =>
    exact fun w hw _ => preserves_immediate (steady_nests π none Ss) (fun _ => rests_of_nests) h
      mapped w hw
  | true =>
    cases action with
    | openSession name options =>
      obtain rfl := Option.some.inj h
      exact fun w hw clear => hw.opened name options clear
    | showMap =>
      obtain rfl := Option.some.inj h
      exact fun w hw _ => nests_onDirectory (fun d _ sound =>
        Directory.leads_count d ⟨sound, .refl d⟩) w hw
    | holdMap =>
      obtain rfl := Option.some.inj h
      exact fun w hw _ => nests_onDirectory (fun d _ sound =>
        (Directory.leads_hold d ⟨sound, .refl d⟩).2) w hw
    | freeMaps =>
      obtain rfl := Option.some.inj h
      exact fun w hw _ => nests_onDirectory (fun d _ sound =>
        Directory.leads_letGo d ⟨sound, .refl d⟩) w hw
    | _ => cases mapped

/-! ## Steps that run scripts -/

theorem leads_sessionNamed (name : String) :
    Leads (Nests π none Ss) (sessionNamed name).run (Outcome (fun _ => Nests π none Ss)
      fun id w => Nests π none Ss w ∧ ∃ e ∈ w.names, e.2 = id) := by
  refine .tryGet fun w h => ?_
  cases found : w.names.find? fun e => e.1 == name with
  | none => exact h
  | some e => exact ⟨h, e, List.mem_of_find?_eq_some found, rfl⟩

/-- A session that has a name is open. -/
theorem open_of_named (h : w.Nests π none Ss ∧ ∃ e ∈ w.names, e.2 = id) :
    w.Nests π none Ss ∧ ∃ s, w.sessions[id]? = some s ∧ s.isOpen = true := by
  obtain ⟨h, e, he, rfl⟩ := h
  exact ⟨h, (h.named e he).1⟩

theorem leads_beginExecute (step : Step) (name source : String) :
    Leads (Nests π none Ss) (beginExecute step name source) fun _ => Turned π Ss := by
  let Q : SessionId × Nat → World → Prop := fun r w => ∃ ps t info upvalue operands S,
    Nested (π.told r.1) (π.noted r.1) ps (.seated ((t, .host info upvalue operands) :: S)) (Ss r.1)
      ∧ r.2 = operands.length ∧ Mid π r.1 ps (Session.Under (.call, (t, .host info upvalue operands) :: S)) Ss w
  have started : Leads (Nests π none Ss) (do
      let id ← sessionNamed name
      let base ← (onSession id (do return (← get).height) : Act Nat)
      trySession id (Session.beginExecute source)
      return (id, base) : Try (SessionId × Nat)).run (Outcome (fun _ => Nests π none Ss) Q) := by
    refine .tryBind (leads_sessionNamed name) fun id =>
      (leads_mid fun ps t info upvalue operands S _ nested => ?_).mono (fun _ => open_of_named)
        fun _ _ h => h
    refine .tryBind (.lift leads_height) fun base => .given fun all => ?_
    refine .tryBind
      (Q := fun _ => Mid π id ps (Session.Under (.call, (t, .host info upvalue operands) :: S)) Ss)
      ?_ fun _ => ?_
    · refine (leads_trySession (Session.leads_beginExecute source) (fun _ h => h.isOpen)
        (fun _ h => h.isOpen) fun _ _ h => h.isOpen).mono (fun _ h => h) fun r w h => ?_
      cases r with
      | ok a => exact h
      | error e => exact Mid.back (S := (t, .host info upvalue operands) :: S) h nested
    · exact .tryPure _ fun w h => ⟨ps, t, info, upvalue, operands, S, nested, all, h⟩
  refine started.bind fun r => ?_
  cases r with
  | error mishap => exact leads_finishStep step _ fun _ => .same
  | ok r =>
    obtain ⟨id, base⟩ := r
    rintro w ⟨ps, t, info, upvalue, operands, S, nested, all, mid⟩
    obtain rfl : base = operands.length := all
    exact Leads.bind (leads_begin (a := .step step (.executing id operands.length)) rfl (by simp))
      (fun _ => leads_suspend (.runs nested) .same) w mid

/-! ## Closing a session -/

/-- What is in use is seen from the activities. -/
theorem unused_of_inUse (unused : w.inUse id = false) (closes : .closes ∉ w.parts id) :
    ∀ p ∈ w.parts id, p = .apart ∨ ∃ previous, p = .serves previous := by
  intro p hp
  obtain ⟨a, ha, rfl⟩ := List.mem_map.mp hp
  rw [inUse, List.any_eq_false] at unused
  have free := unused a ha
  have still : a.part id ≠ .closes := fun eq => closes (eq ▸ hp)
  by_contra about
  rw [not_or] at about
  have eq := Activity.about_of_part about.1
  cases a with
  | step s waiting =>
    cases waiting with
    | executing | calling => simp_all [Activity.about?]
    | callingHost => cases eq
    | closing => simp_all [Activity.about?, Activity.part]
  | delivering d errand => simp_all [Activity.about?]
  | serving => exact about.2 ⟨_, (Prod.mk.inj (Option.some.inj eq)).2.symm⟩
  | sweeping => simp_all [Activity.about?]
  | _ => cases eq

/-- Sessions may lose their names. -/
theorem Orderly.unname (h : w.Orderly π Ss) {names : List (String × SessionId)}
    (fewer : names.Sublist w.names) : Orderly π Ss { w with names := names } :=
  ⟨h.absent, fun e he => h.named e (fewer.subset he), h.distinct.sublist (fewer.map _),
    h.numbered, h.rooted, h.routed.aside rfl rfl rfl rfl rfl rfl fun _ _ _ closing => closing, h.clean,
    h.unborn⟩

/-- The finalizers of a session that is closed run on its main thread. -/
theorem leads_closing (step : Step) (apart : ∀ p ∈ ps, p = .apart)
    (main : S.thread = Script.Machine.main) (empty : Ss id = []) :
    Leads (fun w => Mid π id ps (Session.On S.thread S) Ss w ∧ ∀ e ∈ w.names, e.2 ≠ id) (do
        begin (.step step (.closing id))
        onSession id Session.beginClose
        setControl (.script id) : Act Unit) fun _ => Turned π Ss := by
  have begun : Leads (fun w => Mid π id ps (Session.On S.thread S) Ss w ∧ ∀ e ∈ w.names, e.2 ≠ id)
      (begin (.step step (.closing id)))
      fun _ => Mid π id (.closes :: ps) (Session.On Script.Machine.main S) Ss := by
    rintro w ⟨mid, unnamed⟩
    rw [main] at mid
    have about : (Activity.step step (.closing id)).about? = some (id, .closes) := rfl
    refine ⟨mid.toOrderly.push (fun i p eq => ?_) (fun i eq e he => ?_) rfl, mid.session, ?_,
      fun j ne => (mid.others j ne).push (Activity.part_of_ne about ne) mid.clean⟩
    · obtain ⟨s, hs, -⟩ := mid.session
      obtain ⟨rfl, -⟩ := Prod.mk.inj (Option.some.inj (about.symm.trans eq))
      exact ⟨s, hs⟩
    · obtain ⟨rfl, -⟩ := Prod.mk.inj (Option.some.inj (about.symm.trans eq))
      exact unnamed e he
    · change Activity.part id _ :: w.parts id = _
      rw [Activity.part_self about, mid.parts]
  refine begun.bind fun _ => .bind (leads_onSession Session.leads_beginClose
    (fun _ h => h.isOpen) fun _ _ h => h.isOpen) fun _ => ?_
  exact leads_suspend (.closes apart) (empty ▸ .same)

theorem leads_beginClose (step : Step) (name : String) :
    Leads (Nests π none Ss) (beginClose step name) fun _ => Turned π Ss := by
  refine (leads_sessionNamed name).bind fun r => ?_
  cases r with
  | error mishap => exact leads_finishStep step _ fun _ => .same
  | ok id =>
    refine .get_bind ?_
    rintro w ⟨h, e, he, rfl⟩
    obtain ⟨⟨s, hs, isOpen⟩, closes⟩ := h.named e he
    split
    · exact leads_finishStep step _ (fun _ => .same) w h
    · rename_i unused
      obtain ⟨S, nested, mid⟩ := h.mid hs isOpen
      have idle := nested.idle rfl (unused_of_inUse (Bool.not_eq_true _ ▸ unused) closes)
      refine leads_closing step idle.1 (nested.thread.trans (by rw [idle.2]; rfl)) idle.2 _
        ⟨⟨mid.toOrderly.unname List.filter_sublist, mid.session, mid.parts, mid.others⟩,
          fun e' he' => ?_⟩
      simpa using (List.mem_filter.mp he').2

/-! ## Assignments -/

/-- Values that are ready are delivered while no runtime runs. -/
theorem leads_beginDelivery {outs : List Session.Outbound} {errand : Errand}
    (nested : Nested (π.told id) (π.noted id) (errand.part ⟨id, t, outs, outs, none⟩ :: ps) (.seated S) callers)
    (shift : Shift false (Ss id) callers) :
    Leads (Mid π id ps (Session.On S.thread S) Ss) (beginDelivery id t outs errand)
      fun _ => Turned π Ss :=
  .bind (leads_begin rfl (by cases errand <;> simp [Errand.part])) fun _ =>
    leads_settle nested (leads_setControl (shift_update shift) rfl)

theorem leads_beginAssign (step : Step) (name path : String) {e : Try Value} (create : Bool)
    (he : Preserves (Nests π none Ss) e.run) :
    Leads (Nests π none Ss) (beginAssign step name path e create) fun _ => Turned π Ss := by
  have steady := steady_nests π none Ss
  refine (Leads.of_preserves he).bind fun r => ?_
  cases r with
  | error mishap => exact leads_finishStep step _ fun _ => .same
  | ok v =>
    refine (leads_sessionNamed name).bind fun r => ?_
    cases r with
    | error mishap =>
      exact (Leads.of_preserves (calm_dropValue steady v)).bind fun _ =>
        leads_finishStep step _ fun _ => .same
    | ok id =>
      refine (leads_mid fun ps t info upvalue operands S clean nested => leads_height.bind fun base =>
        .given fun all => ?_).mono (fun _ => open_of_named) fun _ _ h => h
      subst all
      refine (leads_attemptOn (Session.leads_beginAssign path v create)
        (fun _ h => h.isOpen) (fun _ _ h => h.isOpen) fun _ s h => ?_).bind fun r => ?_
      · obtain ⟨-, key, table, h⟩ := h
        exact h.isOpen
      cases r with
      | error f =>
        refine leads_settle (S := (t, .host info upvalue operands) :: S) nested ?_
        rw [Function.update_eq_self]
        exact (Leads.of_preserves (calm_dropValue steady v)).bind fun _ =>
          leads_finishStep step _ fun _ => .same
      | ok r =>
        obtain ⟨t', out⟩ := r
        refine leads_given fun same => leads_choose fun key => leads_choose fun table => ?_
        obtain rfl : t' = t := same
        refine .bind (.of_preserves (calm_retainAll (steady_mid (Session.steady_on _ _)) _))
          fun _ => leads_beginDelivery (S := (t', .host info upvalue ([key, table] ++ operands)) :: S)
            (.assigns (clean _ _ _ (Nat.lt_succ_self _)) rfl nested) .same

/-! ## Calls -/

/-- An activity that is not about a session begins. -/
theorem nests_push (h : w.Nests π none Ss) (aloof : a.about? = none) (inner : a.isRoot = false) :
    Nests π none Ss { w with activities := a :: w.activities } := by
  refine ⟨h.toOrderly.push (fun i p eq => ?_) (fun i eq => ?_) inner, fun j => ?_, h.runs⟩
  · cases aloof.symm.trans eq
  · cases aloof.symm.trans eq
  · exact (h.lies j).push (Activity.part_of_none aloof) h.clean

/-- An activity that is not about a session ends. -/
theorem nests_pop (h : w.Nests π none Ss) (hw : w.activities = a :: rest) (aloof : a.about? = none)
    (clean : π.Clean rest.length) :
    Nests π none Ss { w with activities := w.activities.drop 1 } :=
  ⟨h.toOrderly.pop hw clean fun _ closing =>
      absurd (aloof.symm.trans (Activity.about_of_closing closing)) (by simp),
    fun j => (h.lies j).pop hw (Activity.part_of_none aloof), h.runs⟩

theorem preserves_begin (aloof : a.about? = none) (inner : a.isRoot = false) :
    Preserves (Nests π none Ss) (begin a) := fun _ h => nests_push h aloof inner

/-- The body of a callable runs next, if the callable is there. -/
theorem leads_enterCallable (f : CallableId) (args : List Value)
    (shift : ∀ id, Shift false (Ss id) (Ss' id)) :
    Leads (Nests π none Ss') (enterCallable f args) fun _ => Turned π Ss := by
  have steady := steady_nests π none Ss'
  refine .get_bind fun w h => ?_
  cases w.callables[f]? with
  | none =>
    exact Leads.bind (.of_preserves (calm_dropValues steady args))
      (fun _ => leads_setControl shift rfl) w h
  | some c =>
    have body : Leads (Nests π none Ss') (do
        begin (.program (some ⟨f, argumentSlots 1 args ∅⟩) c.code.body)
        setControl .proceed : Act Unit) fun _ => Turned π Ss :=
      .bind (.of_preserves (preserves_begin rfl rfl)) fun _ => leads_setControl shift rfl
    have shape : (do
        if !c.code.quiet then report (.entered c.code.name (args.map View.ofValue))
        begin (.program (some ⟨f, argumentSlots 1 args ∅⟩) c.code.body)
        setControl .proceed : Act Unit)
      = if !c.code.quiet then (do
          report (.entered c.code.name (args.map View.ofValue))
          begin (.program (some ⟨f, argumentSlots 1 args ∅⟩) c.code.body)
          setControl .proceed : Act Unit)
        else (do
          begin (.program (some ⟨f, argumentSlots 1 args ∅⟩) c.code.body)
          setControl .proceed : Act Unit) := rfl
    change Turned π Ss (StateT.run (do
        if !c.code.quiet then report (.entered c.code.name (args.map View.ofValue))
        begin (.program (some ⟨f, argumentSlots 1 args ∅⟩) c.code.body)
        setControl .proceed : Act Unit) w).2
    rw [shape]
    split
    · exact Leads.bind (.of_preserves (calm_report steady _ rfl)) (fun _ => body) w h
    · exact body w h

/-- The arguments of a call are made ready in a session that is open, or the call fails. -/
theorem leads_packArguments (id : SessionId) (vs : List Value) :
    Leads (Nests π none Ss) (attemptOn id (do
        let _ ← Session.thread
        Session.packAll vs))
      (Outcome (fun _ => Nests π none Ss) fun _ w => Nests π none Ss w
        ∧ ∃ s, w.sessions[id]? = some s ∧ s.isOpen = true) := by
  intro w h
  cases hs : w.sessions[id]? with
  | none =>
    rw [attemptOn, onSession_run_none hs]
    exact h
  | some s =>
    cases isOpen : s.isOpen with
    | true =>
      obtain ⟨S, nested, mid⟩ := h.mid hs isOpen
      have steady := Session.steady_on S.thread S
      have packs : Leads (Session.On S.thread S)
          (do let _ ← Session.thread; Session.packAll vs : Attempt (List Session.Outbound)).run
          (Outcome (fun _ => Session.On S.thread S) fun _ => Session.On S.thread S) :=
        .attempt_of_preserves (.tryBind Session.still_thread fun _ => Session.still_packAll steady.gentle vs)
      have packed := leads_attemptOn packs (fun _ h => h.isOpen) (fun _ _ h => h.isOpen)
        (fun _ _ h => h.isOpen) w mid
      cases hr : ((attemptOn id (do let _ ← Session.thread; Session.packAll vs)).run w).1 with
      | error f =>
        rw [hr] at packed
        exact Mid.back packed nested
      | ok outs =>
        rw [hr] at packed
        obtain ⟨s', hs', on⟩ := packed.session
        exact ⟨Mid.back packed nested, s', hs', on.isOpen⟩
    | false =>
      obtain ⟨q, -, holds, -⟩ := h.lies id s hs
      have shut : q = .shut := by
        by_contra other
        rw [holds.isOpen.mpr other] at isOpen
        cases isOpen
      subst shut
      have asleep : Session.thread.run.run s = (.error .sessionClosed, s) := by
        rw [Session.thread_run, Session.Shut.active holds]
        rfl
      rw [attemptOn, onSession_run_some hs, try_bind_error asleep]
      exact steady_nests π none Ss w _ h (.withSession hs (.refl s))

theorem leads_beginScriptCall (step : Step) (ref : Ref) (c : Calling) :
    Leads (Nests π none Ss) (beginScriptCall step ref c) fun _ => Turned π Ss := by
  have steady := steady_nests π none Ss
  refine (leads_packArguments ref.session (c.args.map (·.1))).bind fun r => ?_
  cases r with
  | error f => exact leads_finishCall step c _ fun _ => .same
  | ok outs =>
    refine leads_mid fun ps t info upvalue operands S clean nested => ?_
    refine .bind (.of_preserves (calm_retainAll (steady_mid (Session.steady_on _ _)) _)) fun _ => ?_
    refine leads_height.bind fun base => .given fun all => ?_
    subst all
    refine (leads_attemptOn (Session.leads_beginCall ref.cell outs.length)
      (fun _ h => h.isOpen) (fun _ _ h => h.isOpen) fun _ _ h => h.2.isOpen).bind fun r => ?_
    cases r with
    | error f =>
      refine leads_settle (S := (t, .host info upvalue operands) :: S) nested ?_
      rw [Function.update_eq_self]
      exact (Leads.of_preserves (calm_releaseOutbound steady _ outs)).bind fun _ =>
        leads_finishCall step c _ fun _ => .same
    | ok r =>
      obtain ⟨t', f⟩ := r
      refine leads_given fun same => ?_
      obtain rfl : t' = t := same
      refine leads_beginDelivery (S := (t', .host info upvalue (f :: operands)) :: S) ?_ .same
      rw [← List.nil_append (f :: operands)]
      exact .sends (clean _ _ _ (Nat.lt_succ_self _)) (Nat.zero_add _) (conforms_nil _ _) nested

theorem leads_beginCall (step : Step) (slot : String) (args : List ItemExpr) (into : List String)
    (count : Bool) : Leads (Nests π none Ss) (beginCall step slot args into count)
      fun _ => Turned π Ss := by
  have steady := steady_nests π none Ss
  have prepared : Preserves (Nests π none Ss) (prepareCall slot args into count).run :=
    preserves_prepareCall steady (fun _ => rests_of_nests) slot args into count
  refine (Leads.of_preserves prepared).bind fun r => ?_
  cases r with
  | error mishap => exact leads_finishStep step _ fun _ => .same
  | ok r =>
    obtain ⟨v, c⟩ := r
    cases v with
    | function ref => exact leads_beginScriptCall step ref c
    | callable f =>
      exact (Leads.of_preserves (preserves_begin rfl rfl)).bind fun _ =>
        leads_enterCallable f _ fun _ => .same
    | _ => exact leads_finishCall step _ _ fun _ => .same

/-- A step that a program takes. -/
theorem leads_beginStep (step : Step) :
    Leads (Nests π none Ss) (beginStep step) fun _ w => w.Clear π → Turned π Ss w := by
  have steady := steady_nests π none Ss
  have rests : ∀ w, Nests π none Ss w → w.Rests := fun _ => rests_of_nests
  have plain : ∀ {x : Act Unit}, Leads (Nests π none Ss) x (fun _ => Turned π Ss) →
      Leads (Nests π none Ss) x fun _ w => w.Clear π → Turned π Ss w :=
    fun h w hw _ => h w hw
  unfold beginStep
  split
  · rename_i act immediate
    refine (nests_immediate immediate).bind fun r w h clear => ?_
    have calm := calm_finishStep (steady_calm w) step r w (.refl w)
    exact leads_finishStep step r (fun _ => .same) w (h (clear.calm calm))
  · split
    · exact plain (leads_beginExecute step _ _)
    · exact plain (leads_beginClose step _)
    · exact plain (leads_beginAssign step _ _ _ (preserves_value steady rests _))
    · exact plain (leads_beginAssign step _ _ _
        (.tryBind (preserves_callable steady rests _) fun _ => .tryPure _))
    · exact plain (leads_beginAssign step _ _ _ (calm_anotherOf steady _))
    · exact plain (leads_beginCall step _ _ _ _)
    · refine plain (.get_bind fun w h => ?_)
      split
      · exact leads_setControl (fun _ => .same) rfl w h
      · exact leads_finishStep step _ (fun _ => .same) w h
    · exact plain (leads_finishStep step _ fun _ => .same)

end World

end ScriptBridge.Host
