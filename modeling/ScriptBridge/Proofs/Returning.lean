import ScriptBridge.Proofs.Results

/-!
# ScriptBridge.Proofs.Returning

The last turn of a call of a script function.  What was made for the arguments goes, with its pins,
and what is on the host's frame is what the call comes to: an error, or the results
(`Session.Comes`).

Main facts:

* `World.finishCalling_comes` — what a call comes to.
-/

namespace ScriptBridge

namespace Session

variable {s s' : Session} {t : Script.ThreadId} {new operands : List Script.Value}
  {r : Except Failure (List Value)}

/-- What a call comes to when the values above the function that was called are `new`, the top
first: the text of the error if one was raised, and what the results are read as if not. -/
inductive Comes (s : Session) : (raised : Bool) → (new : List Script.Value) →
    Except Failure (List Value) → Prop
  | error (e : Script.Value) : Comes s true [e] (.error (.scriptError (errorText e)))
  | results {new : List Script.Value} {r : Except Failure (List Value)} : s.Yields new.reverse r →
      Comes s false new r

/-- Whether the cells of a transfer have gone, with the pins they owned. -/
def Lacks (s' : Session) (outs : List Outbound) (s : Session) : Prop :=
  ∀ k, .owned k ∈ outs → s'.cell? k = none
    ∧ ∀ c h, s.cell? k = some c → c.handle? = some h → s'.pins.get? h = none

theorem Fewer.lacks {outs : List Outbound} {s'' : Session} (h : s'.Fewer s'')
    (lacks : s'.Lacks outs s) : s''.Lacks outs s := fun k hk =>
  ⟨h.cell_gone (lacks k hk).1, fun c handle hc hh => h.pin_gone ((lacks k hk).2 c handle hc hh)⟩

theorem Outbound.eq_owned {out : Outbound} {k : CellId} (h : out.owned? = some k) :
    out = .owned k := by
  cases out <;> cases h
  rfl

/-- An error that was raised is taken off the host's frame. -/
theorem takeError_eq {e : Script.Value} (active : s.active = some t)
    (on : s.machine.operandsOf t = e :: operands) :
    (takeError operands.length).run s = (.scriptError (errorText e), { s with
      machine := s.machine.setOperands t operands
      ledger := (s.ledger.acquire 1).release 1 }) := by
  have taken : (takeError operands.length).run s = (.scriptError (errorText
      ((s.machine.operandsOf (s.active.getD Script.Machine.main)).headD .nil)), { s with
        machine := (s.machine.takeOperands (s.active.getD Script.Machine.main) operands.length).2
        ledger := (s.ledger.acquire 1).release 1 }) := rfl
  have count : (e :: operands).length - operands.length = [e].length := by simp
  rw [taken, active, Option.getD_some, Script.Machine.takeOperands, on, count]
  rfl

/-- Results are collected in cells, and an array. -/
theorem collectResults_run (hs : s.Orderly) (active : s.active = some t)
    (on : s.machine.operandsOf t = new ++ operands) :
    ∃ cs s', (collectResults operands.length).run s = (cs, s') ∧ s'.Orderly ∧ s.Grows s'
      ∧ List.Forall₂ s'.InCell new.reverse cs ∧ Apart cs ∧ ∀ k, some k ∈ cs → s.nextCell ≤ k := by
  rw [← List.reverse_reverse new] at on
  obtain ⟨cs, s₁, run, orderly, grows, -, inCell, apart, above⟩ := collect_inCell hs on
  have collected : (collectResults operands.length).run s
      = (((collect (s.active.getD Script.Machine.main) operands.length).run s).1,
        { ((collect (s.active.getD Script.Machine.main) operands.length).run s).2 with
          ledger := ((collect (s.active.getD Script.Machine.main)
            operands.length).run s).2.ledger.acquire 1 }) := rfl
  rw [active, Option.getD_some, run] at collected
  refine ⟨cs, _, collected, { orderly with }, grows.trans { Grows.refl s₁ with }, ?_, apart, above⟩
  exact inCell.imp fun x c h => h.stay (n := 0) { Retains.refl 0 s₁ with } rfl fun _ _ _ hk => hk

end Session

namespace Host.World

variable {w : World} {μ : SessionId → Session.Memory} {H : Multiset Holding} {id : SessionId}
  {s : Session} {outs : List Session.Outbound} {vs : List Value} {step : Step} {c : Calling}
  {t : Script.ThreadId} {new operands : List Script.Value}

/-- What a transfer owns are cells in use, with no anchor and no pin to come. -/
theorem Books.owned_old (hw : Books μ (outHoldings id outs vs + H) w)
    (carries : List.Forall₂ (Session.Carries id) outs vs) (hs : w.sessions[id]? = some s)
    (ho : s.isOpen) {k : CellId} (hk : .owned k ∈ outs) :
    ∃ d, s.cell? k = some d ∧ d.anchor? = none
      ∧ (∀ h, d.handle? = some h → h.number ≤ s.pins.issued) ∧ k < s.nextCell := by
  obtain ⟨mine, tidy⟩ := hw.1.tidy id s hs
  obtain ⟨v, -, there⟩ := @mem_outHoldings_owned id outs vs k hk carries.length_eq
  have back := tidy.backs _ (Multiset.mem_add.mpr (.inr (Multiset.mem_add.mpr (.inl there))))
  obtain ⟨d, hd, conveys⟩ := back mine.symm
  have old := tidy.fresh k (mem_keys.mpr ⟨d, hd⟩)
  cases v with
  | callable g =>
    obtain ⟨handle, rfl, pinned⟩ := conveys
    refine ⟨_, hd, rfl, fun h hh => ?_, old⟩
    obtain rfl := Option.some.inj hh
    have orderly : s.Orderly := ⟨tidy.fresh, tidy.issued, tidy.conserved ho⟩
    exact orderly.pin_old (pinned ho)
  | number | boolean | string =>
    obtain rfl := conveys
    exact ⟨_, hd, rfl, nofun, old⟩
  | _ => exact conveys.elim

/-- The results of a call are taken from their cells, and the array goes. -/
theorem takeResults_comes {cs : List (Option CellId)} {xs : List Script.Value} (hs : s.Orderly)
    (inCell : List.Forall₂ s.InCell xs cs) (apart : Session.Apart cs) :
    ∃ r s', (Session.takeResults cs).run.run s = (r, s') ∧ s'.Yields xs r ∧ s.Fewer s' := by
  have settled : (Session.takeResults cs).run.run s
      = (Session.unpackAll cs).run.run ((Session.settle 1).run s).2 := rfl
  have still : List.Forall₂ ((Session.settle 1).run s).2.InCell xs cs := inCell.imp fun x c h =>
    h.stay (n := 0) { Session.Retains.refl 0 s with } rfl fun _ _ _ hk => hk
  have orderly : ((Session.settle 1).run s).2.Orderly := { hs with }
  obtain ⟨r, s', run, yields, -⟩ := Session.unpackAll_yields orderly still apart
  refine ⟨r, s', settled.trans run, yields, ?_⟩
  have fewer := @Session.fewer_unpackAll s cs _ (Session.fewer_settle 1 s (.refl s))
  rwa [run] at fewer

/-- What a call comes to, with what was made for its arguments gone. -/
theorem finishCalling_comes (step : Step) (hw : Books μ (outHoldings id outs (c.args.map (·.1)) + c.holdings) w)
    (carries : List.Forall₂ (Session.Carries id) outs (c.args.map (·.1)))
    (hs : w.sessions[id]? = some s) (ho : s.isOpen) (active : s.active = some t)
    (on : s.machine.operandsOf t = new ++ operands) {raised : Bool}
    (one : raised → ∃ e, new = [e]) :
    ∃ r s' u, (finishCalling id id raised step operands.length outs c).run w
        = (finishCall step c (r.mapError Mishap.failure)).run u
      ∧ w.Replaces id s' u ∧ s'.isOpen ∧ s'.Comes raised new r ∧ s'.Lacks outs s
      ∧ ∃ K, Books μ (c.holdings + K) u := by
  have held : ∀ {w' : World} {K : Multiset Holding} (g : CallableId),
      .callable g ∈ c.args.map (·.1) → .callable g ∈ w'.holdings + (c.holdings + K) := by
    intro w' K g hg
    exact Multiset.mem_add.mpr (.inr (Multiset.mem_add.mpr (.inl (Multiset.mem_add.mpr (.inr
      (mem_valueHoldings hg (Multiset.mem_singleton_self _)))))))
  cases raised with
  | true =>
    obtain ⟨e, rfl⟩ := one rfl
    have run := @Session.takeError_eq s t operands e active on
    generalize hs₁ : ({ s with
      machine := s.machine.setOperands t operands
      ledger := (s.ledger.acquire 1).release 1 } : Session) = s₁ at run
    have taken := (keeps_onSession_aside fun _ => Session.keeps_takeError operands.length :
      Keeps Books 0 (onSession id (Session.takeError operands.length)) fun _ => 0) w μ _
        (by rwa [zero_add])
    rw [onSession_run_some hs, run, zero_add] at taken
    obtain ⟨u, released, replaces, books⟩ := releaseOutbound_run (H := c.holdings + 0)
      (by rwa [add_zero]) carries (getElem?_withSession_self w id s₁) (by subst hs₁; exact ho) held
    obtain ⟨fewer, gone⟩ := Session.fewer_abandon s₁ outs
    refine ⟨_, _, u, ?_, (replaces_withSession s₁).trans replaces, ?_, .error e, ?_, 0, books⟩
    · rw [finishCalling, if_pos rfl, stateM_run_bind, onSession_run_some hs, run, stateM_run_bind]
      simp only
      rw [released]
      rfl
    · subst hs₁
      exact fewer.isOpen.trans ho
    · subst hs₁
      exact gone
  | false =>
    have mine := (hw.1.tidy id s hs).2
    have orderly : s.Orderly := ⟨mine.fresh, mine.issued, mine.conserved ho⟩
    obtain ⟨cs, s₁, run, orderly₁, grows, inCell, apart, above⟩ :=
      Session.collectResults_run orderly active on
    have collected := keepsAt_onPresent (w := w) ⟨s, hs⟩
      (fun _ => Session.keeps_collectResults operands.length)
      (fun cells => by rw [tally_add, debts_inHoldings]; rfl) μ _ (by rwa [zero_add])
    rw [onSession_run_some hs, run] at collected
    have regroup : inHoldings id cs + {.due id 1} + (outHoldings id outs (c.args.map (·.1)) + c.holdings)
        = outHoldings id outs (c.args.map (·.1)) + (inHoldings id cs + {.due id 1} + c.holdings) := by
      ac_rfl
    change Books μ (inHoldings id cs + {.due id 1} + _) (w.withSession id s₁) at collected
    rw [regroup] at collected
    have there := getElem?_withSession_self w id s₁
    have isOpen₁ : s₁.isOpen := by
      rw [← (collected.1.tidy id s₁ there).2.awake, grows.active, active]
      rfl
    obtain ⟨u, released, replaces, books⟩ := releaseOutbound_run
      collected carries there isOpen₁
      (by rw [add_comm (inHoldings id cs + _), ← add_zero c.holdings, add_assoc]; exact held)
    obtain ⟨fewer, gone⟩ := Session.fewer_abandon s₁ outs
    -- the results are in cells that the transfer of the arguments does not own
    obtain ⟨s₂, abandoned, orderly₂, retains, machine, others⟩ :=
      @Session.abandon_disposes s.pins.issued s₁ orderly₁ outs fun out hout k d hk hd => by
        obtain rfl := Session.Outbound.eq_owned hk
        obtain ⟨d', hd', copied, old, -⟩ := hw.owned_old carries hs ho hout
        obtain rfl := Option.some.inj ((grows.cells k d' hd').symm.trans hd)
        exact ⟨copied, old⟩
    have other : ∀ c ∈ cs, ∀ k, c = some k → s₂.cell? k = s₁.cell? k := by
      rintro c hc k rfl
      refine others k fun out hout own => ?_
      obtain rfl := Session.Outbound.eq_owned own
      obtain ⟨-, -, -, -, old⟩ := hw.owned_old carries hs ho hout
      exact absurd (above k hc) (Nat.not_le.mpr old)
    have still : List.Forall₂ s₂.InCell new.reverse cs :=
      ((List.forall₂_and_left cs new.reverse).mpr ⟨other, inCell.flip⟩).flip.imp fun x c h =>
        Session.InCell.stay h.2 retains machine fun k d hk hd => (h.1 k hk).trans hd
    rw [abandoned] at replaces fewer gone
    obtain ⟨r, s₃, taken, yields, fewer'⟩ := takeResults_comes orderly₂ still apart
    have books' := keeps_takeResults cs u μ c.holdings books
    rw [attemptOn, onSession_run_some replaces.session, taken] at books'
    refine ⟨r, s₃, u.withSession id s₃, ?_,
      ((replaces_withSession s₁).trans replaces).trans (replaces_withSession s₃),
      (fewer.trans fewer').isOpen.trans isOpen₁, .results yields, ?_, ?_⟩
    · rw [finishCalling, if_neg Bool.false_ne_true, stateM_run_bind, onSession_run_some hs, run]
      simp only
      rw [stateM_run_bind, released]
      simp only
      rw [stateM_run_bind, attemptOn, onSession_run_some replaces.session]
      cases r <;> exact taken ▸ rfl
    · exact fewer'.lacks fun k hk =>
        ⟨(gone k hk).1, fun d h hd => (gone k hk).2 d h (grows.cells k d hd)⟩
    · cases r with
      | error f => exact ⟨0, by rwa [onResult_error, zero_add, ← add_zero c.holdings] at books'⟩
      | ok vs => exact ⟨valueHoldings vs, by rwa [onResult_ok, add_comm] at books'⟩

end Host.World

end ScriptBridge
