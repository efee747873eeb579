import ScriptBridge.Proofs.Crossings

/-!
# ScriptBridge.Proofs.Running

A program that runs leaves the books of the world right, whatever it does and whenever the runtimes
make collections of their own accord.

Main facts:

* `keepsAt_attend` — what a runtime waits for;
* `keeps_advance` — one turn;
* `books_run` — a run of any length.
-/

namespace ScriptBridge.Host.World

variable {w : World} {μ : SessionId → Session.Memory} {H T pre err : Multiset Holding}
  {id : SessionId}

/-! ## Sessions that are there -/

/-- Whether there is a session of a number. -/
def Present (w : World) (id : SessionId) : Prop := ∃ s, w.sessions[id]? = some s

theorem present_onSession {α : Type} [Inhabited α] {i : SessionId} {op : Op α}
    (h : w.Present id) : ((onSession i op).run w).2.Present id := by
  obtain ⟨s, hs⟩ := h
  cases hi : w.sessions[i]? with
  | none =>
    rw [onSession_run_none hi]
    exact ⟨s, hs⟩
  | some u =>
    rw [onSession_run_some hi]
    by_cases here : id = i
    · subst here
      exact ⟨_, getElem?_withSession_self ..⟩
    · exact ⟨s, by rw [getElem?_withSession_of_ne here, hs]⟩

/-- An operation that is handed nothing, on a session that is there. -/
theorem keepsAt_onPresent {α : Type} [Inhabited α] {op : Op α} {Q : α → Multiset Holding}
    (h : w.Present id) (keeps : ∀ o, Keeps (Session.Books id o) 0 op Q)
    (clear : ∀ a, tally Holding.debts (Q a) = 0) :
    KeepsAt Books w 0 (onSession id op) Q := by
  refine keepsAt_onSession keeps (by simp) clear fun absent => ?_
  obtain ⟨s, hs⟩ := h
  rw [absent] at hs
  cases hs

theorem keepsAt_enter (h : w.Present id) :
    KeepsAt Books w 0 (onSession id Session.enter) fun previous => {.entered id previous} :=
  keepsAt_onPresent h (fun _ => Session.keeps_enter) fun _ => rfl

/-! ## Cells from a runtime -/

theorem mem_inHoldings {cells : List (Option CellId)} {h : Holding}
    (hh : h ∈ inHoldings id cells) : ∃ cell, h = .inbound id cell := by
  induction cells with
  | nil => simp at hh
  | cons c cells ih =>
    cases c with
    | none => exact ih (by simpa using hh)
    | some cell =>
      rw [inHoldings_some, Multiset.mem_add] at hh
      obtain hh | hh := hh
      · exact ⟨cell, Multiset.mem_singleton.mp hh⟩
      · exact ih hh

theorem callables_inHoldings (cells : List (Option CellId)) :
    tally Holding.callables (inHoldings id cells) = 0 := by
  rw [Multiset.eq_zero_iff_forall_notMem]
  intro f hf
  obtain ⟨h, hh, owns⟩ := mem_tally.mp hf
  obtain ⟨cell, rfl⟩ := mem_inHoldings hh
  simp [Holding.callables] at owns

theorem debts_inHoldings (cells : List (Option CellId)) :
    tally Holding.debts (inHoldings id cells) = 0 := by
  rw [Multiset.eq_zero_iff_forall_notMem]
  intro f hf
  obtain ⟨h, hh, owes⟩ := mem_tally.mp hf
  obtain ⟨cell, rfl⟩ := mem_inHoldings hh
  simp [Holding.debts] at owes

theorem debts_values (vs : List Value) : tally Holding.debts (valueHoldings vs) = 0 := by
  induction vs with
  | nil => rfl
  | cons v vs ih => rw [valueHoldings_cons, tally_add, debts_value, ih, add_zero]

theorem debts_owners (fs : List CallableId) : tally Holding.debts (owners fs) = 0 :=
  tally_owners fun _ => rfl

/-- Cells that come with nothing else are released. -/
theorem keeps_freeAll (cells : List (Option CellId)) :
    Keeps Books (inHoldings id cells) (onSession id (Session.freeAll cells)) fun _ => 0 := by
  refine fun _ => keepsAt_onSession (fun _ => Session.keeps_freeAll cells) (fun h hh => ?_)
    (fun _ => rfl) fun _ => ⟨by simp, (callables_inHoldings cells).symm⟩
  obtain ⟨cell, rfl⟩ := mem_inHoldings hh
  exact Or.inl rfl

/-- Cells from a runtime become host values, or all are gone. -/
theorem keeps_unpackAll (cells : List (Option CellId)) :
    Keeps Books (inHoldings id cells) (attemptOn id (Session.unpackAll cells))
      (onResult valueHoldings 0) := by
  refine keeps_attemptOn (fun _ => Session.keeps_unpackAll cells) (fun h hh => ?_) debts_values rfl
    (by simp) (callables_inHoldings cells).symm
  obtain ⟨cell, rfl⟩ := mem_inHoldings hh
  exact Or.inl rfl

/-- The results of a call become host values, or all are gone, and so is the array. -/
theorem keeps_takeResults (cells : List (Option CellId)) :
    Keeps Books (inHoldings id cells + {.due id 1}) (attemptOn id (Session.takeResults cells))
      (onResult valueHoldings 0) := by
  refine keeps_attemptOn (fun _ => Session.keeps_takeResults cells) (fun h hh => ?_) debts_values
    rfl (by simp) ?_
  · obtain hh | hh := Multiset.mem_add.mp hh
    · obtain ⟨cell, rfl⟩ := mem_inHoldings hh
      exact Or.inl rfl
    · rw [Multiset.mem_singleton.mp hh]
      exact Or.inl rfl
  · rw [tally_add, callables_inHoldings]
    rfl

/-! ## Host code that runtimes call -/

/-- A callable that a session pins has an owner. -/
theorem Books.owned_pinned {s : Session} {f : CallableId} (hw : Books μ H w)
    (hs : w.sessions[id]? = some s) (hf : f ∈ s.pinned) : f ∈ w.owned := by
  have balance := hw.1.worth
  rw [hw.2, add_zero] at balance
  rw [← balance]
  refine Multiset.mem_add.mpr (Or.inl ?_)
  rw [pinned, entries_erase hs, Multiset.map_cons, Multiset.sum_cons]
  exact Multiset.mem_add.mpr (Or.inl hf)

/-- A callable that is called through its handle gets an owner for the call. -/
theorem keeps_lookUpHandle {α : Type} (id : SessionId) (handle : Handle) {pre : Multiset Holding}
    {next : Option CallableId → Act α} {after : CallableId → Act α} {post : α → Multiset Holding}
    (shape : ∀ f, next (some f) = retain f >>= fun _ => after f)
    (found : ∀ f, Keeps Books (pre + {.callable f}) (after f) post)
    (missing : Keeps Books pre (next none) post) :
    Keeps Books pre (onSession id (do return (← get).pins.get? handle) >>= next) post := by
  intro w μ H hw
  have look : Keeps Books 0 (onSession id (do return (← get).pins.get? handle) :
      Act (Option CallableId)) fun _ => 0 := keeps_onSession_aside fun _ => Session.keeps_look _
  have looked := (look.aside pre) w μ H hw
  rw [stateM_run_bind]
  cases hr : ((onSession id (do return (← get).pins.get? handle) :
      Act (Option CallableId)).run w).1 with
  | none => exact missing _ μ H looked
  | some f =>
    have mine : f ∈ ((onSession id (do return (← get).pins.get? handle) :
        Act (Option CallableId)).run w).2.owned := by
      cases hs : w.sessions[id]? with
      | none =>
        rw [onSession_run_none hs] at hr
        cases hr
      | some s =>
        rw [onSession_run_some hs] at hr looked ⊢
        refine looked.owned_pinned (getElem?_withSession_self ..) ?_
        exact Multiset.mem_map.mpr ⟨(handle.number, f), mem_entries.mpr hr, rfl⟩
    rw [shape]
    have retained := ((keepsAt_retain mine).frame pre).congr (zero_add pre).symm
      fun _ => add_comm _ _
    have served : KeepsAt Books _ pre (retain f >>= fun _ => after f) post :=
      retained.bind (found f _)
    exact served μ H looked

theorem keepsAt_receive (h : w.Present id) : KeepsAt Books w 0 (receive id) fun _ => 0 := by
  refine (keepsAt_enter h).bind ?_
  generalize ((onSession id Session.enter).run w).1 = previous
  have arguments : Keeps Books 0 (onSession id Session.takeArguments) (inHoldings id) :=
    keeps_onSession (fun _ => Session.keeps_takeArguments) debts_inHoldings rfl
  refine (((arguments.frame {Holding.entered id previous}).congr (zero_add _).symm
    fun _ => rfl).bind fun cells => ?_) _
  have refuse : ∀ f, Keeps Books (inHoldings id cells + {.entered id previous}) (do
      onSession id (Session.freeAll cells)
      onSession id (Session.leave previous)
      onSession id (Session.raiseFailure f)
      setControl (.script id) : Act Unit) fun _ => 0 := by
    intro f
    refine ((keeps_freeAll cells).frame {Holding.entered id previous}).bind fun _ => ?_
    rw [zero_add]
    exact keeps_refuseScript id previous f
  refine Keeps.after (keeps_onSession_aside fun _ => Session.keeps_look _) fun handle => ?_
  cases handle with
  | none => exact refuse _
  | some handle =>
    refine keeps_lookUpHandle id handle (fun _ => rfl) (fun f => ?_) (refuse _)
    rw [add_assoc]
    refine ((keeps_unpackAll cells).frame ({Holding.entered id previous}
      + {Holding.callable f})).bind fun r => ?_
    cases r with
    | error failure =>
      rw [onResult_error, zero_add, add_comm]
      refine ((keeps_releaseCallables [f]).frame {Holding.entered id previous}).bind fun _ => ?_
      rw [zero_add]
      exact keeps_refuseScript id previous failure
    | ok vs =>
      rw [onResult_ok, add_comm]
      have fits : (Activity.serving id previous f).Fits := trivial
      refine ((keeps_begin fits).frame (valueHoldings vs)).bind fun _ => ?_
      rw [zero_add]
      exact keeps_enterCallable f vs

/-- The session that is found for a runtime is its own, while it is open. -/
theorem keeps_ownerOf {α : Type} {f : Option SessionId → Act α} {pre : Multiset Holding}
    {post : α → Multiset Holding} (id : SessionId)
    (found : ∀ w, IsOpen w.sessions id → KeepsAt Books w pre (f (some id)) post)
    (missing : ∀ w, ¬ IsOpen w.sessions id → KeepsAt Books w pre (f none) post) :
    Keeps Books pre (ownerOf id >>= f) post := by
  rintro w μ H ⟨hw, owed⟩
  obtain ⟨⟨mapped, kept⟩, owner⟩ := Directory.leads_resolve (w.directory.address id) w.directory
    ⟨hw.charted.mapped, .refl w.directory⟩
  have after : Books μ (pre + H) ((ownerOf id).run w).2 := ⟨{ hw with
    charted := hw.charted.settled ⟨mapped, kept.registrations, kept.same⟩ }, owed⟩
  rw [stateM_run_bind]
  cases hr : ((ownerOf id).run w).1 with
  | none =>
    refine missing ((ownerOf id).run w).2 (fun isOpen => ?_) μ H after
    cases hr.symm.trans ((owner id).mpr ⟨isOpen, rfl⟩)
  | some other =>
    obtain ⟨isOpen, same⟩ := (owner other).mp hr
    obtain rfl := hw.charted.wide other id same
    exact found ((ownerOf other).run w).2 isOpen μ H after

theorem keeps_abort : Keeps Books 0 abort fun _ => 0 := by
  have lost : Keeps Books 0 (onDirectory Directory.lose) fun _ => 0 := fun _ _ _ ⟨hw, owed⟩ =>
    ⟨{ hw with charted := { hw.charted with mapped := { hw.charted.mapped with } } }, owed⟩
  exact lost.bind fun _ => keeps_setControl fun _ h => by cases h

theorem keeps_serve (id : SessionId) : Keeps Books 0 (serve id) fun _ => 0 :=
  keeps_ownerOf id (fun _ ⟨s, hs, _⟩ => keepsAt_receive ⟨s, hs⟩) fun _ _ => keeps_abort _

/-- A pin is released while a hook runs, and with it an owner of its callable. -/
theorem keepsAt_releasePin (h : w.Present id) (handle : Handle) :
    KeepsAt Books w {.pin id handle none} (releasePin handle id) fun _ => 0 := by
  refine (((keepsAt_enter h).frame {Holding.pin id handle none}).congr (zero_add _).symm
    fun _ => rfl).bind ?_
  generalize ((onSession id Session.enter).run _).1 = previous
  have unpinned : Keeps Books {.pin id handle none} (onSession id (Session.unpin handle))
      fun f => owners f.toList :=
    fun _ => keepsAt_onSession (fun _ => Session.keeps_unpin handle) (by simp [Holding.session])
      (fun _ => debts_owners _) fun _ => ⟨fun k hk => absurd hk (Multiset.notMem_zero k), rfl⟩
  rw [add_comm]
  refine ((unpinned.frame {Holding.entered id previous}).bind fun f => ?_) _
  refine ((keeps_releaseCallables f.toList).frame {Holding.entered id previous}).bind fun _ => ?_
  rw [zero_add]
  exact keeps_leave id previous

/-- The pins of a session that is closed do not count. -/
theorem keepsAt_lapse (closed : ¬ IsOpen w.sessions id) (handle : Handle) :
    KeepsAt Books w {.pin id handle none} (pure ⟨⟩ : Act PUnit) fun _ => 0 := by
  rintro μ H ⟨hw, owed⟩
  have swap : w.holdings + ({.pin id handle none} + H) = {.pin id handle none} + (w.holdings + H) := by ac_rfl
  rw [swap] at hw owed
  change w.Balanced μ (w.holdings + (0 + H)) ∧ tally Holding.debts (w.holdings + (0 + H)) = 0
  rw [zero_add]
  -- only the pins of an open session have a part in the totals
  have aside : ∀ {M : Type} [AddCommMonoid M] (f : Holding → M), f (.pin id handle none) = 0 →
      tally f ({.pin id handle none} + (w.holdings + H)) = tally f (w.holdings + H) := by
    intro M _ f none
    rw [tally_add, tally_singleton, none, zero_add]
  refine ⟨{ hw with tidy := ?_, near := ?_, worth := ?_, payable := ?_ }, ?_⟩
  · intro i s hs
    obtain ⟨hid, tidy⟩ := hw.tidy i s hs
    refine ⟨hid, { tidy with
      cells := tidy.cells.trans (aside _ rfl)
      ledger := by rw [tidy.ledger, aside _ rfl]
      anchored := fun ho => (tidy.anchored ho).trans (by rw [aside _ rfl])
      pins := fun ho => ?_
      backs := fun h hh => tidy.backs h (Multiset.mem_add.mpr (.inr hh)) }⟩
    have there : id ≠ s.id := fun here => closed ⟨s, here ▸ hid ▸ hs, ho⟩
    rw [tidy.pins ho, aside _ (Holding.pins_of_ne there)]
  · exact fun h hh => hw.near h (Multiset.mem_add.mpr (.inr hh))
  · rw [← aside Holding.callables rfl, hw.worth, aside Holding.debts rfl]
  · rw [← aside Holding.debts rfl]
    exact hw.payable
  · rw [← aside Holding.debts rfl, owed]

/-- The pin of a handle whose userdata is finalized is released. -/
theorem keeps_releaseHandle (id : SessionId) (target : Script.Value) :
    Keeps Books 0 (releaseHandle id target) fun _ => 0 := by
  have taken : Keeps Books 0 (onSession id (Session.takeHandle target))
      fun h => h.elim 0 fun handle => {.pin id handle none} :=
    keeps_onSession (fun _ => Session.keeps_takeHandle target)
      (fun r => by cases r <;> simp [Holding.debts]) rfl
  refine taken.bind fun handle => ?_
  cases handle with
  | none => exact keeps_onSession_aside fun _ => Session.keeps_resume
  | some handle =>
    refine keeps_ownerOf id (fun w isOpen => ?_) fun w closed => ?_
    · obtain ⟨s, hs, -⟩ := isOpen
      exact (keepsAt_releasePin ⟨s, hs⟩ handle).bind
        ((keeps_onSession_aside fun _ => Session.keeps_resume) _)
    · exact (keepsAt_lapse closed handle).bind
        ((keeps_onSession_aside fun _ => Session.keeps_resume) _)

/-! ## Runtimes that return -/

/-- The results of a call that has returned are stored, or the call has failed. -/
theorem keepsAt_finishCalling {session : SessionId} {step : Step} {base : Nat}
    {outs : List Session.Outbound} {c : Calling} (h : w.Present id) (raised : Bool)
    (carries : List.Forall₂ (Session.Carries session) outs (c.args.map (·.1))) :
    KeepsAt Books w (Activity.step step (.calling session base outs c)).holdings
      (finishCalling id session raised step base outs c) fun _ => 0 := by
  have shape : (Activity.step step (.calling session base outs c)).holdings
      = outHoldings session outs (c.args.map (·.1)) + c.holdings := rfl
  rw [shape]
  have released := keeps_releaseOutbound carries
  have failed : ∀ f, Keeps Books c.holdings (finishCall step c (.error (.failure f)))
      fun _ => 0 := fun f => (keeps_finishCall step c _).congr (add_zero _).symm fun _ => rfl
  cases raised with
  | true =>
    refine Keeps.after (keeps_onSession_aside fun _ => Session.keeps_takeError base)
      (fun f => ?_) w
    refine (released.frame c.holdings).bind fun _ => ?_
    rw [zero_add]
    exact failed f
  | false =>
    have collected : KeepsAt Books w 0 (onSession id (Session.collectResults base))
        fun cells => inHoldings id cells + {.due id 1} := by
      refine keepsAt_onPresent h (fun _ => Session.keeps_collectResults base) fun cells => ?_
      rw [tally_add, debts_inHoldings]
      rfl
    refine ((collected.frame (outHoldings session outs (c.args.map (·.1)) + c.holdings)).congr
      (zero_add _).symm fun _ => rfl).bind ?_
    generalize ((onSession id (Session.collectResults base)).run w).1 = cells
    rw [add_left_comm]
    refine ((released.frame (inHoldings id cells + {Holding.due id 1}
      + c.holdings)).bind fun _ => ?_) _
    rw [zero_add]
    refine ((keeps_takeResults cells).frame c.holdings).bind fun r => ?_
    cases r with
    | ok vs =>
      refine (keeps_finishCall step c _).congr ?_ fun _ => rfl
      exact add_comm _ _
    | error f =>
      rw [onResult_error, zero_add]
      exact failed f

/-- A runtime that has returned, or raised an error, ends the step that waited for it. -/
theorem keepsAt_finishScript (h : w.Present id) (raised : Bool) :
    KeepsAt Books w 0 (finishScript id raised) fun _ => 0 := by
  refine KeepsAt.get_bind ?_
  split
  · rename_i step session base rest top
    have ended := (keepsAt_finishTop top).congr rfl fun _ => (rfl : _ = (0 : Multiset Holding))
    refine ended.bind ?_
    cases raised with
    | true =>
      exact (keeps_onSession_aside fun _ => Session.keeps_takeError base).bind
        (fun f => keeps_finishStep step _) _
    | false =>
      exact (keeps_onSession_aside fun _ => Session.keeps_dropResults base).bind
        (fun f => keeps_finishStep step _) _
  · rename_i step session base outs c rest top
    intro μ H hw
    have carries : (Activity.step step (.calling session base outs c)).Fits :=
      hw.1.fits _ (by simp [top])
    suffices keeps : KeepsAt Books w 0 (finishTop >>= fun _ => finishCalling id session raised step
      base outs c) fun _ => 0 from keeps μ H hw
    refine (keepsAt_finishTop top).bind ?_
    exact keepsAt_finishCalling (w := (finishTop.run w).2) h raised carries
  · exact keeps_setControl_proceed w

/-! ## The ends of sessions -/

/-- A session that is closed hands the callables over that were still pinned. -/
theorem keeps_closeSession (id : SessionId) : Keeps Books 0 (closeSession id) owners := by
  rintro w μ H ⟨hw, owed⟩
  let d := ((Directory.remove id).run w.directory).2
  let w₁ : World := { w with directory := d }
  obtain ⟨mapped, kept⟩ := Directory.leads_remove
    (fun j _ same => hw.charted.wide j id same) w.directory ⟨hw.charted.mapped, .refl w.directory⟩
  have enrolled : ∀ (j : SessionId) (r : Registration), d.registrations[j]? = some r →
      ∃ s, w.sessions[j]? = some s := kept.registrations ▸ hw.charted.enrolled
  have wide : ∀ i j, d.address i = d.address j → i = j := kept.address ▸ hw.charted.wide
  change Books μ (owners ((onSession id Session.finishClose).run w₁).1 + H)
    ((onSession id Session.finishClose).run w₁).2
  cases h : w.sessions[id]? with
  | none =>
    rw [onSession_run_none (show w₁.sessions[id]? = none from h)]
    refine ⟨{ hw with charted := ⟨mapped.congr fun j => ⟨And.left, fun hj => ⟨hj, ?_⟩⟩, enrolled, wide⟩ },
      owed⟩
    rintro rfl
    obtain ⟨s, hs, -⟩ := hj
    cases h.symm.trans hs
  | some s =>
    rw [zero_add] at hw owed
    rw [onSession_run_some (show w₁.sessions[id]? = some s from h)]
    have swap : ∀ K : Multiset Holding, (w₁.withSession id (Session.finishClose.run s).2).holdings
        + (K + H) = K + (w.holdings + H) := fun K => by
      rw [holdings_withSession]
      change w.holdings + (K + H) = _
      ac_rfl
    have zero : w.holdings + H = 0 + (w.holdings + H) := (zero_add _).symm
    have closed := (hw.sound owed h).close
    have charted : Charted (w.withSession id (Session.finishClose.run s).2).sessions d := by
      refine ⟨mapped.congr fun j => ?_, fun j r hr => ?_, wide⟩
      · rw [isOpen_withSession]
        constructor
        · exact fun ⟨isOpen, ne⟩ => .inr ⟨ne, isOpen⟩
        · rintro (⟨rfl, isOpen⟩ | ⟨ne, isOpen⟩)
          · cases isOpen
          · exact ⟨isOpen, ne⟩
      · obtain ⟨u, hu⟩ := enrolled j r hr
        by_cases here : j = id
        · exact ⟨(Session.finishClose.run s).2, here ▸ getElem?_withSession_self ..⟩
        · exact ⟨u, (getElem?_withSession_of_ne here).trans hu⟩
    rw [Books, swap]
    rw [zero] at hw
    have same : (Session.finishClose.run s).2.id = id := (hw.tidy id s h).1
    refine ⟨hw.withSession (by rw [zero_add, owed]) h same ?_ ?_ charted, ?_⟩
    · rw [zero_add]
      exact closed
    · intro i _ somebody
      rw [own_zero, own_eq_zero]
      intro k hk
      obtain ⟨f, -, rfl⟩ := mem_owners.mp hk
      exact somebody.symm
    · rw [tally_add, debts_owners, owed, add_zero]

/-- A session that is closed is dropped. -/
theorem keepsAt_dismiss (closed : ¬ IsOpen w.sessions id) :
    KeepsAt Books w 0 (onDirectory (Directory.dismiss id)) fun _ => 0 := by
  rintro μ H ⟨hw, owed⟩
  obtain ⟨mapped, same, -, left⟩ := Directory.leads_dismiss closed w.directory
    ⟨hw.charted.mapped, .refl w.directory⟩
  exact ⟨{ hw with charted := ⟨mapped, fun j r hr => hw.charted.enrolled j r (left j r hr).2,
    same.address ▸ hw.charted.wide⟩ }, owed⟩

/-- The runtime of a session that is closed is gone. -/
theorem closed_closeSession (id : SessionId) (w : World) :
    ¬ IsOpen ((closeSession id).run w).2.sessions id := by
  let w₁ := ((onDirectory (Directory.remove id)).run w).2
  change ¬ IsOpen ((onSession id Session.finishClose).run w₁).2.sessions id
  cases h : w₁.sessions[id]? with
  | none =>
    rw [onSession_run_none h]
    rintro ⟨s, hs, -⟩
    cases h.symm.trans hs
  | some s =>
    rw [onSession_run_some h, isOpen_withSession]
    rintro (⟨-, isOpen⟩ | ⟨ne, -⟩)
    · cases isOpen
    · exact ne rfl

theorem keeps_finishClose (id : SessionId) : Keeps Books 0 (finishClose id) fun _ => 0 := by
  intro w
  refine (keeps_closeSession id w).bind ((keeps_releaseCallables _ _).bind ?_)
  refine (keepsAt_dismiss (closed_release _ _ (closed_closeSession id w))).bind ?_
  refine KeepsAt.get_bind ?_
  split
  · rename_i step session rest top
    exact ((keepsAt_finishTop top).congr rfl fun _ => rfl).bind (keeps_finishStep step _ _)
  · exact keeps_setControl_proceed _

theorem keeps_finishSweep : Keeps Books 0 finishSweep fun _ => 0 := by
  refine Keeps.get_bind fun w => ?_
  split
  · rename_i session rest top
    exact ((keepsAt_finishTop top).congr rfl fun _ => rfl).bind (keeps_setControl_proceed _)
  · exact keeps_setControl_proceed w

/-! ## Turns -/

/-- Whatever a runtime waits for, doing it leaves the books right. -/
theorem keepsAt_attend (h : w.Present id) (pause : Script.Pause) :
    KeepsAt Books w 0 (attend id pause) fun _ => 0 := by
  cases pause with
  | invoked => exact keeps_serve id w
  | releasing target => exact keeps_releaseHandle id target w
  | collecting => exact keeps_onSession_aside (fun _ => Session.keeps_collectGarbage) w
  | returned => exact keepsAt_finishScript h false
  | raised => exact keepsAt_finishScript h true
  | closed => exact keeps_finishClose id w
  | swept => exact keeps_finishSweep w

/-- A runtime that waits is there. -/
theorem present_of_pause {steps : Nat} {pause : Script.Pause}
    (h : ((onSession id (Session.runMachine steps)).run w).1 = some pause) :
    ((onSession id (Session.runMachine steps)).run w).2.Present id := by
  cases hs : w.sessions[id]? with
  | none =>
    rw [onSession_run_none hs] at h
    cases h
  | some s => exact present_onSession ⟨s, hs⟩

/-- A runtime runs for some steps, and then what it waits for is done, or something else. -/
theorem keeps_runFor (id : SessionId) (steps : Nat) {idle : Act Unit}
    (idles : Keeps Books 0 idle fun _ => 0) :
    Keeps Books 0 (do
      match ← onSession id (Session.runMachine steps) with
      | none => idle
      | some pause => attend id pause : Act Unit) fun _ => 0 := by
  intro w
  refine ((keeps_onSession_aside fun _ => Session.keeps_runMachine steps) w).bind ?_
  cases hr : ((onSession id (Session.runMachine steps)).run w).1 with
  | none => exact idles _
  | some pause => exact keepsAt_attend (present_of_pause hr) pause

theorem keeps_sweep (id : SessionId) (budget : Nat) :
    Keeps Books 0 (sweep id budget) fun _ => 0 := by
  refine Keeps.after (keeps_onSession_aside fun _ => Session.keeps_look _) fun can => ?_
  have fits : (Activity.sweeping id).Fits := trivial
  cases can with
  | false => exact Keeps.pure _ rfl
  | true =>
    refine Keeps.after (keeps_onSession_aside fun _ => Session.keeps_strike budget) fun _ => ?_
    exact (keeps_begin fits).bind fun _ => keeps_setControl_script id

/-- The end of a program: what is left in its slots is dropped. -/
theorem keepsAt_endProgram {rest : List Activity}
    (top : w.activities = .program none [] :: rest) :
    KeepsAt Books w 0 (do
      report .ended
      finishTop
      let slots := (← get).slots
      modify fun w => { w with slots := ∅ }
      dropSlots slots
      begin .teardown : Act Unit) fun _ => 0 := by
  refine ((keeps_report _) w).bind ?_
  have same : ((report .ended).run w).2.activities = .program none [] :: rest := top
  refine ((keepsAt_finishTop same).congr rfl fun _ => rfl).bind (KeepsAt.get_bind ?_)
  generalize (finishTop.run ((report .ended).run w).2).2 = w
  have emptied : KeepsAt Books w 0 (modify fun w => { w with slots := ∅ } : Act Unit)
      fun _ => slotHoldings w.slots := by
    rintro μ H ⟨hw, owed⟩
    have total : ({ w with slots := ∅ } : World).holdings + (slotHoldings w.slots + H)
        = w.holdings + (0 + H) := by
      rw [holdings, holdings, slotHoldings_empty]
      ac_rfl
    change Books μ (slotHoldings w.slots + H) { w with slots := ∅ }
    rw [Books, total]
    exact ⟨{ hw with }, owed⟩
  have fits : Activity.teardown.Fits := trivial
  exact emptied.bind ((keeps_dropSlots w.slots).bind (fun _ => keeps_begin fits) _)

/-- The activity on top goes on. -/
theorem keeps_proceed : Keeps Books 0 proceed fun _ => 0 := by
  refine Keeps.get_bind fun w => ?_
  split
  · rename_i frame s rest more top
    have taken : KeepsAt Books w 0
        (modify fun w => { w with activities := .program frame rest :: more } : Act Unit)
        fun _ => 0 := by
      rintro μ H ⟨hw, owed⟩
      have total : ({ w with activities := .program frame rest :: more } : World).holdings
          = w.holdings := by
        rw [holdings, holdings, top, activityHoldings_cons, activityHoldings_cons]
        rfl
      change Books μ (0 + H) { w with activities := .program frame rest :: more }
      rw [Books, total]
      have fits := hw.fits
      rw [top, List.forall_mem_cons] at fits
      exact ⟨{ hw with fits := List.forall_mem_cons.mpr ⟨trivial, fits.2⟩ }, owed⟩
    exact taken.bind (keeps_beginStep s _)
  · rename_i f rest top
    exact (keeps_bodyResults f).bind (fun ending => keeps_leaveBody ending) w
  · rename_i rest top
    exact keepsAt_endProgram top
  · refine KeepsAt.get_bind ?_
    split
    · refine (keeps_report _).bind (fun _ => keeps_setControl fun _ h => ?_) w
      cases h
    · rename_i name id names _
      exact keeps_beginClosing closingStep id (fun _ => names) w
  · rename_i d errand rest top
    exact keepsAt_deliverNext top
  · refine keeps_setControl (fun _ h => ?_) w
    cases h

/-- One turn leaves the books right. -/
theorem keeps_advance : Keeps Books 0 advance fun _ => 0 := by
  intro w μ H hw
  have bare := hw.1.bare
  have whim : Keeps Books 0 nextWhim fun _ => 0 :=
    fun _ _ _ ⟨hw, owed⟩ => ⟨{ hw with }, owed⟩
  suffices keeps : KeepsAt Books w 0 advance fun _ => 0 from keeps μ H hw
  refine KeepsAt.get_bind ((whim w).bind ?_)
  cases hc : w.control with
  | proceed =>
    cases (nextWhim.run w).1 with
    | upon id budget => exact keeps_sweep id budget _
    | _ => exact keeps_proceed _
  | script id =>
    cases (nextWhim.run w).1 with
    | amid steps budget =>
      exact keeps_runFor id steps (keeps_onSession_aside fun _ => Session.keeps_strike budget) _
    | _ => exact keeps_runFor id slice (Keeps.pure _ rfl) _
  | leave ending =>
    have none : (0 : Multiset Holding) = valueHoldings ending.values := by
      rw [bare ending hc, valueHoldings_nil]
    cases (nextWhim.run w).1 <;>
      exact ((keeps_leaveBody ending).congr none fun _ => rfl) _
  | done =>
    cases (nextWhim.run w).1 <;> exact KeepsAt.pure _ rfl

/-! ## Runs -/

/-- A run that is one turn longer. -/
theorem run_succ (n : Nat) (w : World) : w.run (n + 1) = w.run n ∧ (w.run n).control = .done
    ∨ w.run (n + 1) = (advance.run (w.run n)).2 := by
  induction n generalizing w with
  | zero =>
    rw [run, run]
    split
    · rename_i done
      exact .inl ⟨rfl, done⟩
    · exact .inr rfl
  | succ n ih =>
    cases control : w.control with
    | done =>
      have stays : ∀ k, w.run k = w := fun k => by
        cases k with
        | zero => rfl
        | succ k => rw [run, control]
      rw [stays, stays]
      exact .inl ⟨rfl, control⟩
    | _ =>
      have goes : ∀ k, w.run (k + 1) = (advance.run w).2.run k := fun k => by rw [run, control]
      rw [goes, goes]
      exact ih _

/-- The books are right after a run if they were before. -/
theorem Books.run (hw : Books μ 0 w) (n : Nat) : Books μ 0 (w.run n) := by
  induction n generalizing w with
  | zero => exact hw
  | succ n ih =>
    rw [World.run]
    split
    · exact hw
    · have next := keeps_advance w μ 0 (by simpa using hw)
      exact ih (by simpa using next)

/-- The books of a world that has not begun are right. -/
theorem books_start (program : List Step) (whims : List Whim) :
    Books (fun _ _ => none) 0 (start program whims) := by
  have held : (start program whims).holdings = 0 := by
    rw [holdings, start, startAt, activityHoldings_cons, activityHoldings_nil, slotHoldings_empty]
    simp [Activity.holdings, definedHoldings, capturedHoldings]
  rw [Books, held, zero_add]
  refine ⟨?_, rfl⟩
  have charted : Charted ∅ (Directory.new id) := by
    refine ⟨(Directory.sound_new id).congr fun j => ⟨False.elim, ?_⟩, fun j r hr => ?_, fun i j => id⟩
    · rintro ⟨s, hs, -⟩
      simp at hs
    · simp [Directory.new] at hr
  exact {
    tidy := by simp [start, startAt]
    numbered := by simp [start, startAt]
    near := by simp
    worth := by simp [pinned, owned, ownersOf, start, startAt]
    payable := by simp
    fresh := by simp [start, startAt]
    fits := by simp [start, startAt, Activity.Fits]
    bare := by simp [start, startAt]
    unseen := by simp
    charted := charted }

/-- The books of any world that a program comes to are right. -/
theorem books_run (program : List Step) (whims : List Whim) (n : Nat) :
    Books (fun _ _ => none) 0 ((start program whims).run n) := (books_start program whims).run n

end ScriptBridge.Host.World
