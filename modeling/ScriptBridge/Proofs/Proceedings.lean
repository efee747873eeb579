import ScriptBridge.Proofs.Dealings

/-!
# ScriptBridge.Proofs.Proceedings

Deliveries, and the bodies of callables: a delivery goes on, a body is entered and left.  All this is the
side's whose values are delivered, or whose callable it is.

Main facts:

* `Turn.leads_deliverNext` — a delivery goes on;
* `Turn.leads_enterCallable`, `Turn.leads_leaveBody` — a body is entered, and left.
-/

namespace ScriptBridge.Host

open scoped CoreInstances

section

variable {ours : String → Bool} {τ : Sides} {b : Bool} {lent : String → Bool} {w v : List Activity}

/-- A body is on top. -/
theorem Stacks.of_body (h : Stacks ours τ (.body (some b)) lent w v) :
    ∃ f rest rest' w' v', w = .program (some f) rest :: w' ∧ v = shared b (.program (some f) rest') v'
      ∧ τ.callable f.callable = some b ∧ stepsApart ours (some b) rest = true ∧ τ.OwnsSlots b f.slots
      ∧ Stacks ours τ (.act b) (fun _ => false) w' v' := by
  cases h with
  | body side apart slots _ below => exact ⟨_, _, _, _, _, rfl, rfl, side, apart, slots, below⟩

/-- Something other than a program is on top. -/
theorem Stacks.of_act (h : Stacks ours τ (.act b) lent w v) :
    ∃ head a w' v', w = a :: w' ∧ v = shared b a v' ∧ a.Of ours τ b head
      ∧ Stacks ours τ head a.lends w' v' := by
  cases h with
  | act of below => exact ⟨_, _, _, _, rfl, rfl, of, below⟩

end

namespace Turn

open World

variable {α : Type} {T : Turn} {τ τ' : Sides} {w v : World} {id : SessionId} {body : Option Bool}
  {head : Head} {lent : String → Bool} {K : Scene} {s : Step} {a : Activity} {d : Delivery}
  {errand : Errand}
  {f : CallableId}

/-! ## Deliveries -/

theorem leads_beginDelivery {t : Script.ThreadId} {outs : List Session.Outbound}
    (of : (Activity.delivering ⟨id, t, outs, outs, none⟩ errand).Of T.ours τ T.side head) :
    T.Leads τ (T.Over head (Activity.delivering ⟨id, t, outs, outs, none⟩ errand).lends)
      (beginDelivery id t outs errand) fun _ => T.Rests :=
  .bind (leads_begin of) fun _ _ _ =>
    (leads_setControl_rests .proceed).mono (fun _ _ _ h => h.over) fun _ _ _ _ _ _ h => h

/-- An errand whose values are there goes on. -/
theorem leads_delivered (of : (Activity.delivering d errand).Of T.ours τ T.side head) :
    T.Leads τ (T.Over head (Activity.delivering d errand).lends) (delivered d errand) fun _ =>
        T.Rests := by
  cases of with
  | call suits here mine =>
    refine .bind (keeps_onSession here fun _ => Session.keeper_modifyMachine _) fun _ τ' le => ?_
    refine .bind (leads_begin (.calling suits (le.session _ _ here) (le.calling mine)))
        fun _ τ'' le' => ?_
    exact leads_setControl_script (le'.session _ _ (le.session _ _ here))
  | assign suits here own =>
    refine .bind (keeps_onSession here fun _ => Session.keeper_modifyMachine _) fun _ τ₁ le₁ => ?_
    refine .bind (keeps_onSession (le₁.session _ _ here) fun _ => Session.keeper_dropAbove _ _)
      fun _ τ₂ le₂ => ?_
    have le := le₁.trans le₂
    refine .bind (keeps_releaseOutbound _ (le.session _ _ here)) fun _ τ₃ le₃ => ?_
    exact .bind (keeps_dropValue ((le.trans le₃).owns own)) fun _ _ _ => leads_finishStep suits _
  | results here own =>
    refine .bind (keeps_releaseOutbound _ here) fun _ τ₁ le₁ => ?_
    refine .bind (keeps_dropValues fun u hu => le₁.owns (own u hu)) fun _ τ₂ le₂ => ?_
    have le := le₁.trans le₂
    refine .bind (keeps_onSession (le.session _ _ here) fun _ => Session.keeper_leave _)
        fun _ τ₃ le₃ => ?_
    have le := le.trans le₃
    refine .bind (keeps_onSession (le.session _ _ here) fun _ => Session.keeper_modifyMachine _)
      fun _ τ₄ le₄ => ?_
    exact leads_setControl_rests (.script ((le.trans le₄).session _ _ here))

/-- A call from a runtime fails. -/
theorem leads_refuse (here : τ.session id = some T.side) (previous : Option Script.ThreadId)
    (f : Failure) :
    T.Leads τ (T.Over (.act T.side) unlent) (do
      onSession id (Session.leave previous)
      onSession id (Session.raiseFailure f)
      setControl (.script id) : Act Unit) fun _ => T.Rests := by
  refine .bind (keeps_onSession here fun _ => Session.keeper_leave _) fun _ τ₁ le₁ => ?_
  refine .bind (keeps_onSession (le₁.session _ _ here) fun _ => Session.keeper_modifyMachine _)
    fun _ τ₂ le₂ => ?_
  exact leads_setControl_rests (.script ((le₁.trans le₂).session _ _ here))

/-- An errand is given up. -/
theorem leads_undelivered (f : Failure) (of : (Activity.delivering d errand).Of T.ours τ T.side head) :
    T.Leads τ (T.Over head (Activity.delivering d errand).lends) (undelivered d f errand)
      fun _ => T.Rests := by
  cases of with
  | call suits here mine =>
    refine .bind (keeps_onSession here fun _ => Session.keeper_dropAbove _ _) fun _ τ₁ le₁ => ?_
    refine .bind (keeps_releaseOutbound _ (le₁.session _ _ here)) fun _ τ₂ le₂ => ?_
    exact leads_finishCall suits ((le₁.trans le₂).calling mine) fun _ ok => by cases ok
  | assign suits here own =>
    refine .bind (keeps_onSession here fun _ => Session.keeper_dropAbove _ _) fun _ τ₁ le₁ => ?_
    refine .bind (keeps_releaseOutbound _ (le₁.session _ _ here)) fun _ τ₂ le₂ => ?_
    exact .bind (keeps_dropValue ((le₁.trans le₂).owns own)) fun _ _ _ => leads_finishStep suits _
  | results here own =>
    refine .bind (keeps_releaseOutbound _ here) fun _ τ₁ le₁ => ?_
    refine .bind (keeps_dropValues fun u hu => le₁.owns (own u hu)) fun _ τ₂ le₂ => ?_
    exact leads_refuse ((le₁.trans le₂).session _ _ here) _ f


theorem of_delivering {b : Bool} (of : (Activity.delivering d errand).Of T.ours τ b head) :
    τ.session d.session = some b
      ∧ ∀ d' : Delivery, d'.session = d.session →
        (Activity.delivering d' errand).Of T.ours τ b head := by
  cases of with
  | call suits here mine => exact ⟨here, fun d' same => .call suits (same ▸ here) mine⟩
  | assign suits here own => exact ⟨here, fun d' same => .assign suits (same ▸ here) own⟩
  | results here own => exact ⟨here, fun d' same => .results (same ▸ here) own⟩

/-- A delivery goes on. -/
theorem leads_deliverNext (of : (Activity.delivering d errand).Of T.ours τ T.side head) :
    T.Leads τ (fun τ wa va c => c = .proceed ∧ T.Busy head (.delivering d errand) τ wa va c)
      (deliverNext d errand) fun _ => T.Rests := by
  have rests : ∀ {τ : Sides} {d' : Delivery} {wa va : List Activity} {c : Control},
      c = .proceed ∧ T.Busy head (.delivering d' errand) τ wa va c → T.Rests τ wa va c :=
    fun ⟨proceeds, busy⟩ => ⟨_, busy.over, proceeds ▸ .proceed⟩
  have again : ∀ {τ : Sides} (d' : Delivery), d'.session = d.session →
      T.Leads τ (fun τ wa va c => c = .proceed ∧ T.Busy head (.delivering d errand) τ wa va c)
        (replaceTop (.delivering d' errand)) fun _ τ wa va c =>
          c = .proceed ∧ T.Busy head (.delivering d' errand) τ wa va c := fun d' same =>
    leads_replaceTop (by cases errand <;> rfl) fun of => (of_delivering of).2 d' same
  have here := (of_delivering of).1
  unfold deliverNext
  split
  · refine .bind (again _ rfl) fun _ τ' le => ?_
    exact (keeps_onSession (le.session _ _ here) fun _ => Session.keeper_build _ _).mono
      (fun _ _ _ h => h) fun _ _ _ _ _ _ h => rests h
  · split
    · refine .bind (Leads.mono leads_finishTop (fun _ _ _ h => h.2) fun _ _ _ _ _ _ h => h)
        fun _ τ' _ => ?_
      exact .given leads_delivered
    · rename_i out left _
      have pinned : T.Leads τ
          (fun τ wa va c => c = .proceed ∧ T.Busy head (.delivering d errand) τ wa va c)
          (attemptOn d.session (Session.repin out)) (With (fun _ => OnOk fun r => ∀ p, r = some p →
            τ.mine T.side p.2)
            fun τ wa va c => c = .proceed ∧ T.Busy head (.delivering d errand) τ wa va c) :=
        leads_attemptOn here fun _ => Session.keeper_repin out
      refine .bindWith pinned fun r τ' le known => ?_
      cases r with
      | error f =>
        refine .bind (Leads.mono leads_finishTop (fun _ _ _ h => h.2) fun _ _ _ _ _ _ h => h)
            fun _ τ' _ => ?_
        exact .given (leads_undelivered f)
      | ok r =>
        cases r with
        | none =>
          refine .bind (keeps_onSession (le.session _ _ here) fun _ => Session.keeper_place _ _)
              fun _ _ _ => ?_
          exact Leads.mono (again _ rfl) (fun _ _ _ h => h) fun _ _ _ _ _ _ h => rests h
        | some p =>
          refine .bind (keeps_retain (le.callable _ _ (known p rfl))) fun _ _ _ => ?_
          exact Leads.mono (again _ rfl) (fun _ _ _ h => h) fun _ _ _ _ _ _ h => rests h

/-! ## Bodies -/

/-- The call of a callable of a side from a runtime is answered. -/
theorem leads_answerScript {previous : Option Script.ThreadId} {ending : Ending}
    (here : τ.session id = some T.side) (mine : τ.mine T.side f)
    (own : ∀ u ∈ ending.values, τ.Owns T.side u) :
    T.Leads τ (T.Over (.act T.side) unlent) (answerScript id previous f ending) fun _ => T.Rests := by
  unfold answerScript
  refine .bind (keeps_release fun c hc => List.mem_singleton.mp hc ▸ mine) fun _ τ' le => ?_
  have here := le.session _ _ here
  cases ending with
  | returned vs =>
    have own : ∀ u ∈ vs, τ'.Owns T.side u := fun u hu => le.owns (own u hu)
    refine .bind (leads_attemptOn_preserves here fun _ =>
      Session.keeper_beginResults fun u hu => Sides.pinnedAs_of_owns (own u hu)) fun r τ'' le' => ?_
    have own : ∀ u ∈ vs, τ''.Owns T.side u := fun u hu => le'.owns (own u hu)
    have here := le'.session _ _ here
    cases r with
    | ok r =>
      refine .bind (keeps_retainAll (mine_of_callablesOf own)) fun _ τ₃ le₃ => ?_
      exact leads_beginDelivery (.results (le₃.session _ _ here) fun u hu => le₃.owns (own u hu))
    | error f =>
      exact .bind (keeps_dropValues own) fun _ _ le₃ => leads_refuse (le₃.session _ _ here) _ f
  | failed f => exact leads_refuse here _ f
  | panicked text => exact leads_refuse here _ _

theorem owns_argumentSlots {position : Nat} {vs : List Value} {t : Slots}
    (own : ∀ u ∈ vs, τ.Owns T.side u)
    (before : ∀ (n : String) (s : Slot), t[n]? = some s → τ.Owns T.side s.value ∧ s.borrows = 0) :
    ∀ (n : String) (s : Slot), (argumentSlots position vs t)[n]? = some s →
      τ.Owns T.side s.value ∧ s.borrows = 0 := by
  induction vs generalizing position t with
  | nil => exact before
  | cons u vs ih =>
    refine ih (fun x hx => own x (List.mem_cons_of_mem u hx)) fun n s hs => ?_
    by_cases here : n = argumentName position
    · rw [here, Std.TreeMap.getElem?_insert_self] at hs
      rw [← Option.some.inj hs]
      exact ⟨own u List.mem_cons_self, rfl⟩
    · rw [getElem?_insert_of_ne here] at hs
      exact before n s hs

/-- The body of a callable of a side is entered. -/
theorem leads_enterCallable {args : List Value} (mine : τ.mine T.side f)
    (own : ∀ u ∈ args, τ.Owns T.side u) :
    T.Leads τ (T.Over (.act T.side) unlent) (enterCallable f args) fun _ => T.Rests := by
  refine .get (fun w v h ours => by rw [h.1.callable_ours ours mine]) fun w v h => ?_
  cases hc : w.callables[f]? with
  | none =>
    refine Leads.bind (keeps_dropValues own) (fun _ _ _ => ?_) w v h
    exact leads_setControl_rests (.leave rfl fun _ none => by cases none)
  | some c =>
    have of := h.1.callables.holds hc mine
    have body : ∀ τ', τ.Le T.side τ' → T.Leads τ' (T.Over (.act T.side) unlent) (do
        begin (.program (some ⟨f, argumentSlots 1 args ∅⟩) c.code.body)
        setControl .proceed : Act Unit) fun _ => T.Rests := fun τ' le => by
      have slots : ∀ (n : String) (s : Slot), (argumentSlots 1 args ∅)[n]? = some s →
          τ'.Owns T.side s.value ∧ s.borrows = 0 :=
        owns_argumentSlots (fun u hu => le.owns (own u hu)) fun n s hs => by simp at hs
      have begun : T.Leads τ' (T.Over (.act T.side) unlent)
          (begin (.program (some ⟨f, argumentSlots 1 args ∅⟩) c.code.body))
          fun _ => T.At (some T.side) unlent := fun w v ⟨twin, scene⟩ => by
        refine .modify ⟨τ', .refl T.side τ', twin.withActivities _ _, ?_⟩
        have below : Stacks T.ours τ' (.body (some T.side)) unlent
            (.program (some ⟨f, argumentSlots 1 args ∅⟩) c.code.body :: w.activities)
            (shared T.side (.program (some ⟨f, argumentSlots 1 args ∅⟩) c.code.body) v.activities) :=
          .body (le.callable _ _ mine) of.steps (fun n s hs => (slots n s hs).1)
            (fun n s hs => Nat.le_of_eq (slots n s hs).2) scene
        change Stacks _ _ _ _ (_ :: w.activities) _
        cases side : T.side with
        | false => rw [side] at below; exact below
        | true => rw [side] at below; exact below
      exact .bind begun fun _ _ _ => leads_setControl_rests .proceed
    have shape : (do
        if !c.code.quiet then World.report (.entered c.code.name (args.map View.ofValue))
        begin (.program (some ⟨f, argumentSlots 1 args ∅⟩) c.code.body)
        setControl .proceed : Act Unit)
      = if !c.code.quiet then (do
          World.report (.entered c.code.name (args.map View.ofValue))
          begin (.program (some ⟨f, argumentSlots 1 args ∅⟩) c.code.body)
          setControl .proceed : Act Unit)
        else (do
          begin (.program (some ⟨f, argumentSlots 1 args ∅⟩) c.code.body)
          setControl .proceed : Act Unit) := rfl
    change TracksAt _ _ _ (do
        if !c.code.quiet then World.report (.entered c.code.name (args.map View.ofValue))
        begin (.program (some ⟨f, argumentSlots 1 args ∅⟩) c.code.body)
        setControl .proceed : Act Unit) _
    rw [shape]
    split
    · exact Leads.bind (keeps_report _) (fun _ => body) w v h
    · exact body τ (.refl T.side τ) w v h

/-- The list that a body of a side returns is that side's. -/
theorem leads_bodyResults {fr : Frame} (mine : τ.mine T.side fr.callable) :
    T.Leads τ (T.At (some T.side) unlent) (bodyResults fr)
      (With (fun τ ending => ∀ u ∈ ending.values, τ.Owns T.side u) (T.At (some T.side) unlent)) := by
  refine .get (fun w v h ours => by rw [h.1.callable_ours ours mine]) fun w v h => ?_
  refine (Leads.bindWith (tries_items ?_) fun r _ _ own => ?_) w v h
  · -- a callable that is gone returns no list
    cases hc : w.callables[fr.callable]? with
    | none => rfl
    | some c => exact (h.1.callables.holds hc mine).results
  · cases r with
    | ok vs => exact .pure fun _ _ _ scene => ⟨Items.values own, scene⟩
    | error mishap => exact .pure fun _ _ _ scene => ⟨fun _ none => (by cases none), scene⟩

/-- The body of a callable of a side is left. -/
theorem leads_leaveBody {ending : Ending} (has : head.Has T.side)
    (own : ∀ u ∈ ending.values, τ.Owns T.side u) :
    T.Leads τ (T.Over head unlent) (leaveBody ending) fun _ => T.Rests := by
  unfold leaveBody
  refine .bind (leads_setControl .proceed) fun _ τ le w v ⟨twin, proceeds, _, scene⟩ => ?_
  have own : ∀ u ∈ ending.values, τ.Owns T.side u := fun u hu => le.owns (own u hu)
  have dropped : TracksAt T.side w v (dropValues ending.values) (T.After τ fun _ => T.Rests) :=
    (keeps_dropValues (K := T.Rests) own) w v ⟨twin, head, scene, proceeds ▸ .proceed⟩
  cases head with
  | act side =>
    obtain rfl : side = T.side := has
    obtain ⟨below, a, w', v', hw, hv, of, -⟩ := scene.of_act
    refine .get (fun ours => ?_) ?_
    · rw [hw, hv, ours]
      cases of <;> rfl
    · rw [hw]
      cases of <;> exact dropped
  | body side =>
    obtain rfl : side = some T.side := has
    obtain ⟨fr, rest, rest', w', v', hw, hv, -, -, slots, below⟩ := scene.of_body
    obtain ⟨head, a, w', v', rfl, rfl, of, below⟩ := below.of_act
    have holds : T.Holds
        (T.Atop (.program (some fr) rest) (.program (some fr) rest') (T.Busy head a)) τ w v :=
      ⟨twin, _, _, hw, hv, _, _, rfl, rfl, of, below⟩
    -- the frame goes away, and what is below it
    have left : ∀ {next : Act PUnit}, (∀ τ', τ.Le T.side τ' → a.Of T.ours τ' T.side head →
        T.Leads τ' (T.Over head a.lends) next fun _ => T.Rests) →
        TracksAt T.side w v (do finishTop; finishTop; dropSlots fr.slots; next : Act PUnit)
          (T.After τ fun _ => T.Rests) := fun goes => by
      refine Leads.bind leads_finishTop (fun _ τ₁ le₁ =>
        .bind leads_finishTop fun _ τ₂ le₂ => .given fun of => ?_)
        w v holds
      have le := le₁.trans le₂
      exact .bind (keeps_dropSlots (le.ownsSlots slots)) fun _ τ₃ le₃ =>
        goes τ₃ (le.trans le₃) (le₃.activity of)
    refine .get (fun ours => ?_) ?_
    · rw [hw, hv, ours]
      cases of <;> rfl
    · rw [hw]
      cases of with
      | serving here mine =>
        exact left fun τ' le _ => leads_answerScript (le.session _ _ here) (le.callable _ _ mine)
          fun u hu => le.owns (own u hu)
      | callingHost suits mine =>
        refine left fun τ' le _ => leads_finishCall suits (le.calling mine) fun vs ok u hu => ?_
        cases ending with
        | returned us => cases ok; exact le.owns (own u hu)
        | failed f => cases ok
        | panicked text => cases ok
      | _ => exact dropped

end Turn

end ScriptBridge.Host
