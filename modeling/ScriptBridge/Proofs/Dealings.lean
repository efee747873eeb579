import ScriptBridge.Proofs.Makings

/-!
# ScriptBridge.Proofs.Dealings

How steps of a side end, and how something of a side begins and goes away.  `Turn.Rests` is the scene in
which a turn may be over: what runs next is the side's whose turn it was, or it is for what there is on
top to go on.

Main facts:

* `Turn.leads_finishStep`, `Turn.leads_finishCall` — a step ends;
* `Turn.leads_begin`, `Turn.leads_finishTop` — something begins, or goes away.
-/

namespace ScriptBridge.Host

open scoped CoreInstances

namespace Turn

open World

variable {α : Type} {T : Turn} {τ τ' : Sides} {w v : World} {id : SessionId} {body : Option Bool}
  {head : Head} {lent : String → Bool} {K : Scene} {s : Step} {a : Activity}

/-! ## When a turn may be over -/

/-- What may run next. -/
inductive Fits (T : Turn) (τ : Sides) : Head → Control → Prop
  | proceed {head : Head} : Fits T τ head .proceed
  | script {id : SessionId} : τ.session id = some T.side → Fits T τ (.act T.side) (.script id)
  | leave {head : Head} {ending : Ending} : head.Has T.side → (∀ u ∈ ending.values, τ.Owns T.side u) →
      Fits T τ head (.leave ending)
  | done {head : Head} : Fits T τ head .done

theorem Fits.le {c : Control} {g : Bool} (h : T.Fits τ head c) (le : τ.Le g τ') : T.Fits τ' head c := by
  cases h with
  | proceed => exact .proceed
  | script here => exact .script (le.session _ _ here)
  | leave has own => exact .leave has fun u hu => le.owns (own u hu)
  | done => exact .done

/-- A turn may be over. -/
def Rests (T : Turn) : Scene :=
  fun τ wa va c => ∃ head, Stacks T.ours τ head unlent wa va ∧ T.Fits τ head c

theorem leads_setControl_rests {c : Control} (fits : T.Fits τ head c) :
    T.Leads τ (T.Over head unlent) (setControl c) fun _ => T.Rests :=
  (leads_setControl c).mono (fun _ _ _ h => h) fun _ _ le _ _ _ ⟨same, _, scene⟩ =>
    ⟨head, scene, same ▸ fits.le le⟩

/-! ## The ends of steps -/

/-- A body of the other side goes on after a step. -/
theorem leads_goOn (suits : s.Suits body T.side) (r : Except Mishap Answer) :
    T.Leads τ (T.At body unlent) (goOn s r) fun _ => T.Rests := by
  cases r with
  | ok a => exact leads_setControl_rests .proceed
  | error mishap =>
    have mine : s.attempt = false → body ≠ some !T.side := fun ends other => by
      cases (suits other).symm.trans ends
    refine .get (fun w v h ours => ?_) fun w v h => ?_
    · cases ends : s.attempt with
      | true => rfl
      | false => rw [frame_ours h ours (mine ends)]
    · split
      · exact leads_setControl_rests .proceed w v h
      · rename_i fails
        obtain ⟨ends, framed⟩ := Bool.or_eq_false_iff.mp (Bool.eq_false_iff.mpr fails)
        obtain ⟨f, hf⟩ := Option.isSome_iff_exists.mp (Option.isNone_eq_false_iff.mp framed)
        obtain ⟨b, hb, -⟩ := frame_of h hf
        have has : Head.Has T.side (.body body) := eq_of_ne (mine ends) hb
        exact leads_setControl_rests (.leave has fun _ none => by cases none) w v h

theorem leads_finishStep (suits : s.Suits body T.side) (r : Except Mishap Answer) :
    T.Leads τ (T.At body unlent) (finishStep s r) fun _ => T.Rests := by
  have shape : finishStep s r
      = if !s.quiet then (do World.report (.result r); goOn s r) else goOn s r := rfl
  rw [shape]
  split
  · exact .bind (keeps_report _) fun _ _ _ => leads_goOn suits r
  · exact leads_goOn suits r

/-- Results are stored in slots of their side. -/
theorem tries_storeResults {names : List String} {vs : List Value}
    (kept : slotsKept T.ours body T.side names = true) (own : ∀ u ∈ vs, τ.Owns T.side u) :
    T.Tries τ (T.At body unlent) (storeResults names vs) fun _ _ => True := by
  induction vs generalizing τ names with
  | nil => cases names <;> exact .pure trivial
  | cons u vs ih =>
    cases names with
    | nil => exact .keeps (keeps_dropValues own)
    | cons name names =>
      have here := own u List.mem_cons_self
      have rest : ∀ x ∈ vs, τ.Owns T.side x := fun x hx => own x (List.mem_cons_of_mem u hx)
      rw [slotsKept, List.all_cons, Bool.and_eq_true] at kept
      rw [storeResults]
      refine .bind (.tryCatch (tries_storeSlot kept.1 here) fun _ _ le => ?_) fun _ _ le _ =>
        ih kept.2 fun x hx => le.owns (rest x hx)
      exact .bind (.keeps (keeps_dropValues fun x hx => le.owns (rest x hx))) fun _ _ _ _ => .throw _

theorem tries_callAnswer {c : Calling} {vs : List Value}
    (kept : slotsKept T.ours body T.side c.into = true) (own : ∀ u ∈ vs, τ.Owns T.side u) :
    T.Tries τ (T.At body unlent) (callAnswer c vs) fun _ _ => True :=
  .bind (tries_storeResults kept own) fun _ _ _ _ => .pure trivial

/-- What a call borrowed is given back. -/
theorem leads_endLoans {c : Calling} (mine : c.Of T.ours τ body T.side) :
    T.Leads τ (T.At body (lends c)) (endLoans c) fun _ => T.At body unlent := by
  have items : T.Items body τ c.args := fun p hp => ⟨mine.args p hp, mine.lent p hp⟩
  refine .bind (leads_giveBack mine.loan mine.replaced) fun _ τ' le =>
    .bind (keeps_forM fun p hp τ'' le' => ?_) fun _ τ'' le' => keeps_dropValues fun u hu => ?_
  · obtain ⟨here, kept⟩ := (items.le le).le le' p hp
    obtain ⟨x, slot⟩ := p
    cases slot with
    | none => exact .pure fun _ _ _ h => h
    | some slot =>
      exact .bindWith (tries_storeSlot (kept slot rfl) here) fun _ _ _ _ => .pure fun _ _ _ h => h
  · obtain ⟨p, hp, some⟩ := List.mem_filterMap.mp hu
    have own := ((items.le le).le le' p hp).1
    obtain ⟨x, slot⟩ := p
    cases slot with
    | none => exact Option.some.inj some ▸ own
    | some slot => cases some

/-- A call step ends. -/
theorem leads_finishCall {c : Calling} {r : Except Mishap (List Value)} (suits : s.Suits body T.side)
    (mine : c.Of T.ours τ body T.side) (own : ∀ vs, r = .ok vs → ∀ u ∈ vs, τ.Owns T.side u) :
    T.Leads τ (T.At body (lends c)) (finishCall s c r) fun _ => T.Rests := by
  refine .bind (leads_endLoans mine) fun _ τ' le => ?_
  cases r with
  | error mishap => exact leads_finishStep suits _
  | ok vs =>
    exact .bindWith (tries_callAnswer mine.into fun u hu => le.owns (own vs rfl u hu)) fun r _ _ _ =>
      leads_finishStep suits r

/-! ## What is on top -/

/-- Something is on top, which is in our share as well if it is of ours. -/
def Atop (T : Turn) (a a' : Activity) (K : Scene) : Scene := fun τ wa va c =>
  ∃ w' v', wa = a :: w' ∧ va = shared T.side a' v' ∧ K τ w' v' c

/-- Something of the side whose turn it is is on top. -/
def Busy (T : Turn) (head : Head) (a : Activity) : Scene :=
  T.Atop a a fun τ wa va c => a.Of T.ours τ T.side head ∧ T.Over head a.lends τ wa va c

theorem Busy.over {wa va : List Activity} {c : Control} (h : T.Busy head a τ wa va c) :
    T.Over (.act T.side) lent τ wa va c := by
  obtain ⟨w', v', rfl, rfl, of, below⟩ := h
  exact .act of below

/-- Something of a side begins. -/
theorem leads_begin (of : a.Of T.ours τ T.side head) :
    T.Leads τ (T.Over head a.lends) (begin a) fun _ => T.Busy head a := by
  intro w v ⟨twin, scene⟩
  refine .modify ⟨τ, .refl T.side τ, twin.withActivities _ _, w.activities, v.activities, rfl, ?_,
    of, scene⟩
  cases T.side <;> rfl

/-- What is on top goes away. -/
theorem leads_finishTop {a' : Activity} : T.Leads τ (T.Atop a a' K) finishTop fun _ => K := by
  intro w v ⟨twin, w', v', hw, hv, scene⟩
  refine .modify ⟨τ, .refl T.side τ, twin.withActivities _ _, ?_⟩
  change K _ (w.activities.drop 1) _ _
  cases side : T.side with
  | false =>
    rw [if_neg (by simp), hw, hv, side]
    exact scene
  | true =>
    rw [if_pos rfl]
    change K _ _ (v.activities.drop 1) _
    rw [hw, hv, side]
    exact scene

/-- Something else of the same side is on top instead. -/
theorem leads_replaceTop {c : Control} {a' : Activity} (lends : a'.lends = a.lends)
    (of : a.Of T.ours τ T.side head → a'.Of T.ours τ T.side head) :
    T.Leads τ (fun τ wa va c' => c' = c ∧ T.Busy head a τ wa va c') (replaceTop a')
      fun _ τ wa va c' => c' = c ∧ T.Busy head a' τ wa va c' := by
  intro w v ⟨twin, proceeds, w', v', hw, hv, here, below⟩
  refine .modify ⟨τ, .refl T.side τ, twin.withActivities _ _, proceeds, w', v', ?_, ?_,
    of here, lends ▸ below⟩
  · change a' :: w.activities.drop 1 = _
    rw [hw]
    rfl
  · cases side : T.side with
    | false => rw [if_neg (by simp), hv, side]; rfl
    | true =>
      rw [if_pos rfl]
      change a' :: v.activities.drop 1 = _
      rw [hv, side]
      rfl

/-- A runtime of the side whose turn it is runs next. -/
theorem leads_setControl_script (here : τ.session id = some T.side) :
    T.Leads τ (T.Busy head a) (setControl (.script id)) fun _ => T.Rests :=
  (leads_setControl_rests (.script here)).mono (fun _ _ _ h => h.over) fun _ _ _ _ _ _ h => h

end Turn

end ScriptBridge.Host
