import ScriptBridge.Proofs.Activities

/-!
# ScriptBridge.Proofs.Deliveries

Values on their way to a runtime.  The errand they are delivered for holds them, and their cells,
until the last one is on the host's frame or one of them cannot be put there.

Main facts:

* `keeps_beginDelivery` — values that were made ready are held by their errand;
* `keepsAt_deliverNext` — one value more on the host's frame leaves the books right: a callable
  gets a pin of its own, which is an owner more.
-/

namespace ScriptBridge.Host.World

variable {w : World} {μ : SessionId → Session.Memory} {H T pre err : Multiset Holding}

/-! ## The ends of deliveries -/

theorem keeps_leave (id : SessionId) (previous : Option Script.ThreadId) :
    Keeps Books {.entered id previous} (onSession id (Session.leave previous)) fun _ => 0 :=
  fun _ => keepsAt_onSession (fun _ => Session.keeps_leave previous) (by simp [Holding.session])
    (fun _ => rfl) fun _ => ⟨by simp, by simp [Holding.callables]⟩

/-- Host code is left, and the runtime goes on with an error. -/
theorem keeps_refuseScript (id : SessionId) (previous : Option Script.ThreadId) (f : Failure) :
    Keeps Books {.entered id previous} (do
      onSession id (Session.leave previous)
      onSession id (Session.raiseFailure f)
      setControl (.script id) : Act Unit) fun _ => 0 :=
  (keeps_leave id previous).bind fun _ =>
    (keeps_onSession_aside fun _ => Session.keeps_raiseFailure f).bind fun _ =>
      keeps_setControl_script id

/-- What a delivery holds for its errand. -/
def carried (d : Delivery) (errand : Errand) : Multiset Holding :=
  outHoldings d.session d.outbound errand.values + errand.holdings d.session

theorem holdings_delivery (d : Delivery) (errand : Errand) :
    d.holdings errand = (d.pin.elim 0 fun pin => {.pin d.session pin (d.next? errand)})
      + carried d errand := by
  rw [Delivery.holdings, carried, add_assoc]

/-- Values that were made ready are held by their errand. -/
theorem keeps_beginDelivery {id : SessionId} {t : Script.ThreadId} {outs : List Session.Outbound}
    (errand : Errand) (h : List.Forall₂ (Session.Carries id) outs errand.values) :
    Keeps Books (outHoldings id outs errand.values + errand.holdings id)
      (beginDelivery id t outs errand) fun _ => 0 := by
  have fits : (Activity.delivering ⟨id, t, outs, outs, none⟩ errand).Fits :=
    ⟨h, List.suffix_refl outs⟩
  refine ((keeps_begin fits).congr ?_ fun _ => rfl).bind fun _ => keeps_setControl_proceed
  exact (zero_add _).symm.trans (add_assoc _ _ _).symm

variable {d : Delivery} {errand : Errand}

/-- An errand goes on when all its values are delivered. -/
theorem keeps_delivered (h : List.Forall₂ (Session.Carries d.session) d.outbound errand.values) :
    Keeps Books (carried d errand) (delivered d errand) fun _ => 0 := by
  cases errand with
  | call step base f c =>
    refine Keeps.after (keeps_onSession_aside fun _ => Session.keeps_startCall _) fun _ => ?_
    refine Keeps.bind (m := fun _ => 0) ?_ fun _ => keeps_setControl_script d.session
    have fits : (Activity.step step (.calling d.session base d.outbound c)).Fits := h
    exact (keeps_begin fits).congr rfl fun _ => rfl
  | assign step base v =>
    refine Keeps.after (keeps_onSession_aside fun _ => Session.keeps_finishAssign _) fun _ => ?_
    refine Keeps.after (keeps_onSession_aside fun _ => Session.keeps_dropAbove _ _) fun _ => ?_
    refine ((keeps_releaseOutbound h).frame v.holdings).bind fun _ => ?_
    rw [zero_add]
    exact (keeps_dropValue v).bind fun _ => keeps_finishStep step _
  | results previous vs =>
    have shape : carried d (.results previous vs) = outHoldings d.session d.outbound vs
        + ({.entered d.session previous} + valueHoldings vs) := rfl
    rw [shape]
    refine ((keeps_releaseOutbound h).frame
      ({Holding.entered d.session previous} + valueHoldings vs)).bind fun _ => ?_
    rw [zero_add, add_comm]
    refine ((keeps_dropValues vs).frame _).bind fun _ => ?_
    rw [zero_add]
    refine (keeps_leave d.session previous).bind fun _ => ?_
    exact (keeps_onSession_aside fun _ => Session.keeps_returnResults).bind fun _ =>
      keeps_setControl_script d.session

/-- An errand is given up when a value cannot be delivered. -/
theorem keeps_undelivered (f : Failure)
    (h : List.Forall₂ (Session.Carries d.session) d.outbound errand.values) :
    Keeps Books (carried d errand) (undelivered d f errand) fun _ => 0 := by
  cases errand with
  | call step base f c =>
    refine Keeps.after (keeps_onSession_aside fun _ => Session.keeps_dropAbove _ _) fun _ => ?_
    refine ((keeps_releaseOutbound h).frame c.holdings).bind fun _ => ?_
    exact (keeps_finishCall step c _).congr (add_comm _ _) fun _ => rfl
  | assign step base v =>
    refine Keeps.after (keeps_onSession_aside fun _ => Session.keeps_dropAbove _ _) fun _ => ?_
    refine ((keeps_releaseOutbound h).frame v.holdings).bind fun _ => ?_
    rw [zero_add]
    exact (keeps_dropValue v).bind fun _ => keeps_finishStep step _
  | results previous vs =>
    have shape : carried d (.results previous vs) = outHoldings d.session d.outbound vs
        + ({.entered d.session previous} + valueHoldings vs) := rfl
    rw [shape]
    refine ((keeps_releaseOutbound h).frame
      ({Holding.entered d.session previous} + valueHoldings vs)).bind fun _ => ?_
    rw [zero_add, add_comm]
    refine ((keeps_dropValues vs).frame _).bind fun _ => ?_
    rw [zero_add]
    exact keeps_refuseScript d.session previous f

/-! ## One value more -/

theorem keeps_buildPinned (id : SessionId) (t : Script.ThreadId) (pin : Handle) (v : Option Value) :
    Keeps Books {.pin id pin v} (onSession id (Session.build t pin)) fun _ => 0 :=
  fun _ => keepsAt_onSession (fun _ => Session.keeps_build t pin v) (by simp [Holding.session])
    (fun _ => rfl) fun _ => ⟨by simp, by simp [Holding.callables]⟩

theorem about_pinHolding {id : SessionId} {v : Value} (r : Option (Handle × CallableId)) :
    ∀ h ∈ Session.pinHolding id v r, h.session = id ∨ h.session = 0 := by
  intro h hh
  cases r with
  | none => simp [Session.pinHolding] at hh
  | some r =>
    obtain ⟨pin, f⟩ := r
    simp only [Session.pinHolding, Multiset.mem_add, Multiset.mem_singleton] at hh
    obtain rfl | rfl := hh
    · exact Or.inl rfl
    · exact Or.inr rfl

/-- A callable that is on its way is pinned once more, and counted as having an owner more. -/
theorem keepsAt_repin {id : SessionId} {out : Session.Outbound} {v : Value} {α : Type}
    {next : Except Failure (Option (Handle × CallableId)) → Act α} {post : α → Multiset Holding}
    {after : Handle → Act α} {R : Multiset Holding} (carries : Session.Carries id out v)
    (split : w.holdings = Session.carryHoldings id out v + R)
    (shape : ∀ pin f, next (.ok (some (pin, f))) = retain f >>= fun _ => after pin)
    (pinned : ∀ pin w', w'.activities = w.activities →
      KeepsAt Books w' {.pin id pin (some v)} (after pin) post)
    (plain : ∀ r w', (r = .ok none ∨ ∃ f, r = .error f) → w'.activities = w.activities →
      KeepsAt Books w' 0 (next r) post) :
    KeepsAt Books w 0 (attemptOn id (Session.repin out) >>= next) post := by
  intro μ H hw
  have owing : Balanced μ (onResult (fun r => Session.pinHolding id v r) 0
      ((attemptOn id (Session.repin out)).run w).1 + (w.holdings + H))
      ((attemptOn id (Session.repin out)).run w).2 := by
    rw [Books, zero_add, split, add_assoc] at hw
    have owing := hw.1.owing hw.2 (fun o => Session.keeps_repin carries) about_pinHolding
    rw [split]
    generalize ((attemptOn id (Session.repin out)).run w).1 = r at owing
    cases r with
    | error f => rwa [onResult_error, zero_add, add_assoc]
    | ok r =>
      rw [onResult_ok] at owing ⊢
      convert owing using 1
      ac_rfl
  have same : ((attemptOn id (Session.repin out)).run w).2.activities = w.activities :=
    activities_onSession
  have held : ((attemptOn id (Session.repin out)).run w).2.holdings = w.holdings :=
    holdings_onSession
  have clear := hw.2
  rw [zero_add] at clear
  rw [stateM_run_bind]
  -- nothing was pinned: the books are as they were
  have still : ∀ r, ((attemptOn id (Session.repin out)).run w).1 = r →
      (r = .ok none ∨ ∃ f, r = .error f) →
      Books μ (post ((next r).run ((attemptOn id (Session.repin out)).run w).2).1 + H)
        ((next r).run ((attemptOn id (Session.repin out)).run w).2).2 := by
    intro r hr none
    refine plain r _ none same μ H ⟨?_, by rw [held, zero_add, clear]⟩
    rw [hr] at owing
    rw [held]
    have nothing : onResult (Session.pinHolding id v) 0 r = 0 := by
      obtain rfl | ⟨f, rfl⟩ := none <;> rfl
    rw [nothing, zero_add] at owing
    rwa [zero_add]
  cases hr : ((attemptOn id (Session.repin out)).run w).1 with
  | error f => exact still _ hr (Or.inr ⟨f, rfl⟩)
  | ok r =>
    cases r with
    | none => exact still _ hr (Or.inl rfl)
    | some r =>
      obtain ⟨pin, f⟩ := r
      rw [hr, onResult_ok, Session.pinHolding, add_right_comm, add_comm] at owing
      obtain ⟨paid, kept⟩ := owing.retain
      rw [shape, stateM_run_bind]
      refine pinned pin ((retain f).run ((attemptOn id (Session.repin out)).run w).2).2 same μ H
        ⟨?_, ?_⟩
      · rw [kept, held]
        convert paid using 1
        ac_rfl
      · rw [kept, held, add_left_comm, tally_add, clear]
        simp [Holding.debts]

/-- What matches an element of a list that is split at it. -/
theorem forall₂_split {α β : Type} {R : α → β → Prop} {l l' : List α} {a : α} {u : List β}
    (h : List.Forall₂ R (l ++ a :: l') u) :
    ∃ v b v', u = v ++ b :: v' ∧ l.length = v.length ∧ R a b := by
  induction l generalizing u with
  | nil =>
    cases h with
    | @cons _ b _ v' head rest => exact ⟨[], b, v', rfl, rfl, head⟩
  | cons c l ih =>
    cases h with
    | @cons _ d _ u head rest =>
      obtain ⟨v, b, v', rfl, length, mine⟩ := ih rest
      exact ⟨d :: v, b, v', rfl, by simp [length], mine⟩

/-- An errand holds the values that are delivered for it. -/
theorem holdings_errand (id : SessionId) (errand : Errand) :
    ∃ K, errand.holdings id = valueHoldings errand.values + K := by
  cases errand with
  | call step base f c => exact ⟨_, add_comm _ _⟩
  | assign step base v => exact ⟨0, by simp [Errand.holdings, Errand.values]⟩
  | results previous vs => exact ⟨_, add_comm _ _⟩

/-- The first of the transfers that are left carries the value that is put on the host's frame next,
and the delivery holds both. -/
theorem next_of_left {out : Session.Outbound} {left : List Session.Outbound} (hp : d.pin = none)
    (hl : d.left = out :: left) (fits : (Activity.delivering d errand).Fits) :
    ∃ v, d.next? errand = some v ∧ Session.Carries d.session out v
      ∧ ∃ K, d.holdings errand = Session.carryHoldings d.session out v + K := by
  obtain ⟨carries, suffix⟩ := fits
  obtain ⟨done, whole⟩ := suffix
  rw [hl] at whole
  rw [← whole] at carries
  obtain ⟨us, v, vs, values, length, head⟩ := forall₂_split carries
  obtain ⟨K, held⟩ := holdings_errand d.session errand
  refine ⟨v, ?_, head, outHoldings d.session done us + outHoldings d.session left vs
    + (valueHoldings us + valueHoldings vs) + K, ?_⟩
  · have place : d.outbound.length - d.missing = us.length := by
      simp [Delivery.missing, hp, hl, ← whole, length]
    rw [Delivery.next?, place, values, List.getElem?_append_right (Nat.le_refl _), Nat.sub_self]
    rfl
  · rw [holdings_delivery, hp, Option.elim_none, zero_add, carried, held, values, ← whole,
      outHoldings_append length, valueHoldings_append, outHoldings_cons, valueHoldings_cons,
      Session.carryHoldings]
    ac_rfl

/-- One value more on the host's frame leaves the books right. -/
theorem keepsAt_deliverNext {rest : List Activity}
    (top : w.activities = .delivering d errand :: rest) :
    KeepsAt Books w 0 (deliverNext d errand) fun _ => 0 := by
  intro μ H hw
  have fits : (Activity.delivering d errand).Fits := hw.1.fits _ (by simp [top])
  suffices keeps : KeepsAt Books w 0 (deliverNext d errand) fun _ => 0 from keeps μ H hw
  obtain ⟨id, t, outs, left, pin⟩ := d
  obtain ⟨carries, suffix⟩ := fits
  cases pin with
  | some pin =>
    have replaced : KeepsAt Books w 0
        (replaceTop (.delivering ⟨id, t, outs, left, none⟩ errand)) fun _ =>
          {.pin id pin (Delivery.next? ⟨id, t, outs, left, some pin⟩ errand)} := by
      refine keepsAt_replaceTop top ⟨carries, suffix⟩ ?_
      rw [Activity.holdings, Activity.holdings, holdings_delivery, holdings_delivery]
      simp only [Option.elim_none, Option.elim_some, zero_add, add_zero]
      exact add_comm _ _
    exact replaced.bind (keeps_buildPinned id t pin _ _)
  | none =>
    cases left with
    | nil =>
      refine (keepsAt_finishTop top).bind (((keeps_delivered carries).congr ?_ fun _ => rfl) _)
      rw [Activity.holdings, holdings_delivery, Option.elim_none, zero_add]
    | cons out left =>
      have shorter : left <:+ outs := (List.suffix_cons out left).trans suffix
      obtain ⟨v, next, head, K, held⟩ := next_of_left rfl rfl ⟨carries, suffix⟩
      have split : w.holdings = Session.carryHoldings id out v + (slotHoldings w.slots
          + definedHoldings w.defined + capturedHoldings w.callables
          + (K + activityHoldings rest)) := by
        rw [World.holdings, top, activityHoldings_cons, Activity.holdings, held]
        ac_rfl
      refine keepsAt_repin head split (fun _ _ => rfl) (fun pin w' same => ?_)
        (fun r w' none same => ?_)
      · refine keepsAt_replaceTop (same.trans top) ⟨carries, shorter⟩ ?_
        have still : Delivery.next? ⟨id, t, outs, left, some pin⟩ errand = some v := next
        rw [Activity.holdings, Activity.holdings, holdings_delivery, holdings_delivery, still]
        simp only [Option.elim_none, Option.elim_some, zero_add, add_zero]
        exact add_comm _ _
      · obtain rfl | ⟨f, rfl⟩ := none
        · refine ((keeps_onSession_aside fun _ => Session.keeps_place t out) w').bind ?_
          refine keepsAt_replaceTop (activities_onSession.trans (same.trans top))
            ⟨carries, shorter⟩ ?_
          rw [Activity.holdings, Activity.holdings, holdings_delivery, holdings_delivery]
          rfl
        · refine (keepsAt_finishTop (same.trans top)).bind
            (((keeps_undelivered f carries).congr ?_ fun _ => rfl) _)
          rw [Activity.holdings, holdings_delivery, Option.elim_none, zero_add]

end ScriptBridge.Host.World
