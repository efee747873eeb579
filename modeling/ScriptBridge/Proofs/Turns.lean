import ScriptBridge.Proofs.Attending

/-!
# ScriptBridge.Proofs.Turns

What one turn of the world does to the calls in progress: a runtime runs until it waits, collects, or
what is on top of the activities proceeds.

Main facts:

* `World.leads_runScript`, `World.leads_interrupt`, `World.leads_sweep` — a runtime runs;
* `World.leads_proceed` — the host goes on;
* `World.turned_advance` — a whole turn.
-/

namespace ScriptBridge.Host

open Script (Spine Wait ThreadId FrameInfo)

variable {ps : List Part} {p : Part} {q : Stand} {callers : List Spine} {S B : Spine} {k : Wait}
  {t : ThreadId} {info : FrameInfo} {upvalue : Script.Value} {operands new : List Script.Value}
  {noted : Nat → Spine → Prop}

namespace World

variable {α : Type} {π : Past} {w w' : World} {id j : SessionId} {r : Option SessionId} {s : Session}
  {Ss Ss' : SessionId → List Spine} {I : Session → Prop} {a : Activity} {rest : List Activity}
  {x : Act α} {R : α → World → Prop}

/-- A runtime runs, and then waits or does not. -/
theorem leads_runFor (steps : Nat) {idle : Act Unit}
    (goesOn : ∀ ps k B, Leads (Mid π id ps (fun s => Session.Under (k, B) s
      ∧ s.machine.pause? = none) Ss) idle fun _ => Mid π id ps (Session.Under (k, B)) Ss)
    (keeps : Preserves (fun w => w.control = .script id) idle) :
    Leads (fun w => Nests π (some id) Ss w ∧ w.control = .script id ∧ w.Slack π) (do
        match ← onSession id (Session.runMachine steps) with
        | none => idle
        | some pause => attend id pause : Act Unit) fun _ => Turned π Ss := by
  rintro w ⟨h, control, slack⟩
  obtain ⟨k, B, nested, mid⟩ := h.mid_script
  have clean : ∀ p ps', w.parts id = p :: ps' → π.Clean ps'.length := by
    intro p ps' eq
    obtain ⟨a, rest, top, -, rfl⟩ := List.map_eq_cons_iff.mp eq
    rw [List.length_map]
    exact slack.pop top
  generalize w.parts id = ps at nested mid clean
  have ran := mid.onSession (Session.leads_runMachine steps) (fun _ h => h.isOpen)
    fun _ _ h => h.1
  have control : ((onSession id (Session.runMachine steps)).run w).2.control = .script id :=
    control_onSession w control
  rw [stateM_run_bind]
  cases hr : ((onSession id (Session.runMachine steps)).run w).1 with
  | some pause =>
    rw [hr] at ran
    exact leads_attend nested clean pause _ ⟨ran, control⟩
  | none =>
    rw [hr] at ran
    obtain ⟨s, hs, isOpen, active, goes, runs⟩ := ran.session
    obtain lies | answers := goes
    · exact leads_keep nested (goesOn ps k B) keeps _
        ⟨⟨ran.toOrderly, ⟨s, hs, ⟨isOpen, active, lies⟩, runs⟩, ran.parts, ran.others⟩, control⟩
    · obtain ⟨p, mode⟩ := answers.paused
      rw [Script.Machine.pause?, mode] at runs
      cases runs

theorem leads_runScript (id : SessionId) :
    Leads (fun w => Nests π (some id) Ss w ∧ w.control = .script id ∧ w.Slack π) (runScript id)
      fun _ => Turned π Ss :=
  leads_runFor slice (fun _ _ _ => .pure _ fun w mid => by
    obtain ⟨s, hs, under, -⟩ := mid.session
    exact ⟨mid.toOrderly, ⟨s, hs, under⟩, mid.parts, mid.others⟩) (.pure _)

theorem leads_interrupt (id : SessionId) (steps budget : Nat) :
    Leads (fun w => Nests π (some id) Ss w ∧ w.control = .script id ∧ w.Slack π)
      (interrupt id steps budget)
      fun _ => Turned π Ss :=
  leads_runFor steps (fun _ _ _ => leads_onSession (Session.leads_strikeAmid budget)
    (fun _ h => h.1.isOpen) fun _ _ h => h.isOpen) control_onSession

/-- A collection may come upon the host. -/
theorem leads_sweep (id : SessionId) (budget : Nat) :
    Leads (fun w => Nests π none Ss w ∧ w.control = .proceed) (sweep id budget)
      fun _ => Turned π Ss := by
  rintro w ⟨h, control⟩
  let look : Op Bool := do return (← get).machine.canCollect
  have stays : ∀ w : World, Nests π none Ss w → w.control = .proceed → w.Turned π Ss :=
    fun w h control => turned_of_nests h (fun _ => .same) (by rw [control]; rfl)
  rw [sweep, stateM_run_bind]
  have control : ((onSession id look).run w).2.control = .proceed := control_onSession w control
  cases hs : w.sessions[id]? with
  | none =>
    have none : (onSession id look).run w = (false, w) := onSession_run_none hs
    rw [none] at control ⊢
    exact stays w h control
  | some s =>
    have found : (onSession id look).run w = (s.machine.canCollect, w.withSession id s) :=
      onSession_run_some hs
    have h' := steady_nests π none Ss w _ h (.withSession hs (.refl s))
    obtain ⟨q, nested, holds, seated⟩ := h.lies id s hs
    cases can : s.machine.canCollect with
    | false =>
      rw [found, can] at control ⊢
      exact stays _ h' control
    | true =>
      have isOpen : q ≠ .shut := by
        rintro rfl
        rw [Script.Machine.canCollect, Session.Shut.frames holds] at can
        simp at can
      obtain ⟨S, nested, mid⟩ := h.mid hs (holds.isOpen.mpr isOpen)
      have looks : Leads (Session.On S.thread S) look
          fun can s => Session.On S.thread S s ∧ s.machine.canCollect = can := fun s on => ⟨on, rfl⟩
      have looked := mid.onSession looks (fun _ h => h.isOpen) fun _ _ h => h.1.isOpen
      rw [found, can] at looked ⊢
      exact Leads.bind (leads_onSession (Session.leads_strike budget) (fun _ h => h.1.isOpen) fun _ _ h => h.isOpen)
        (fun _ => .bind (leads_begin rfl (by simp)) fun _ => leads_suspend (.sweeps nested) .same)
        _ looked

/-- The innermost activity, if it is not about a session, may change. -/
theorem nests_replace {b : Activity} (h : w.Nests π none Ss) (hw : w.activities = a :: rest)
    (was : a.about? = none) (is : b.about? = none) (root : b.isRoot = a.isRoot) :
    Nests π none Ss { w with activities := b :: rest } := by
  have parts : ∀ j, World.parts { w with activities := b :: rest } j = w.parts j := by
    intro j
    rw [World.parts, World.parts, hw, List.map_cons, List.map_cons, Activity.part_of_none was,
      Activity.part_of_none is]
  refine ⟨⟨fun j none => ?_, fun e he => ?_, h.distinct, h.numbered, fun c hc => ?_,
    h.routed.aside rfl rfl rfl rfl rfl rfl ?_, ?_, h.unborn⟩, fun j s hs => ?_, h.runs⟩
  · rw [parts]
    exact h.absent j none
  · rw [parts]
    exact h.named e he
  · have rooted := h.rooted
    rw [hw] at rooted
    cases rest with
    | nil => cases hc
    | cons d rest =>
      obtain rfl | hc := List.mem_cons.mp hc
      · rw [root]
        exact rooted a List.mem_cons_self
      · exact rooted c (List.mem_cons_of_mem _ hc)
  · rintro j _ - ⟨c, hc, closing⟩
    rw [hw] at hc
    obtain rfl | hc := List.mem_cons.mp hc
    · cases was.symm.trans (Activity.about_of_closing closing)
    · exact ⟨c, List.mem_cons_of_mem _ hc, closing⟩
  · have clean := h.clean
    rwa [hw] at clean
  · rw [parts]
    exact h.lies j s hs

theorem nil_of_root (h : w.Nests π r Ss) (hw : w.activities = a :: rest) (root : a.isRoot = true) :
    rest = [] := by
  have rooted := h.rooted
  rw [hw] at rooted
  cases rest with
  | nil => rfl
  | cons b rest =>
    rw [rooted a List.mem_cons_self] at root
    cases root

/-- A program that has ended gives way to the end. -/
theorem leads_endProgram (clean : π.Clean 0) :
    Leads (fun w => (Nests π none Ss w ∧ ∃ steps, w.activities = [.program none steps])
        ∧ w.control = .proceed) (do
        report .ended
        finishTop
        let slots := (← get).slots
        modify fun w => { w with slots := ∅ }
        dropSlots slots
        begin .teardown : Act Unit) fun _ => Turned π Ss := by
  let P : World → Prop := fun w => Nests π none Ss w ∧ w.activities.map Activity.shape = []
  have steady : Steady P := fun w w' h calm =>
    ⟨steady_nests π none Ss w w' h.1 calm, calm.shapes.trans h.2⟩
  let clear (slots : Slots) : Act Unit := do
    modify fun w => { w with slots := ∅ }
    dropSlots slots
    begin .teardown
  have cleared : ∀ slots, Leads P (clear slots) fun _ => Nests π none Ss := by
    intro slots
    refine .bind (Q := fun _ => P) (.modify fun w h => ?_) fun _ => .bind
      (.of_preserves (calm_dropSlots steady slots)) fun _ w h => ?_
    · exact steady w _ h (.aside rfl rfl rfl rfl rfl rfl rfl rfl)
    have top := List.map_eq_nil_iff.mp h.2
    have aloof : Activity.about? .teardown = none := rfl
    refine ⟨⟨fun j none => ⟨fun p hp => ?_, (h.1.absent j none).2⟩, fun e he =>
      ⟨(h.1.named e he).1, fun closes => ?_⟩, h.1.distinct, h.1.numbered, fun a ha => ?_,
      h.1.routed.push _, clean.mono (Nat.zero_le _), h.1.unborn⟩,
      fun j => (h.1.lies j).push (Activity.part_of_none aloof) (clean.mono (Nat.zero_le _)), h.1.runs⟩
    · obtain rfl | hp := List.mem_cons.mp hp
      · exact Activity.part_of_none aloof
      · exact (h.1.absent j none).1 p hp
    · obtain closes | closes := List.mem_cons.mp closes
      · rw [Activity.part_of_none aloof] at closes
        cases closes
      · exact (h.1.named e he).2 closes
    · change a ∈ (Activity.teardown :: w.activities).dropLast at ha
      rw [top] at ha
      cases ha
  have keeps : ∀ slots, Preserves (fun w => w.control = .proceed) (clear slots) := fun slots =>
    .bind (fun _ h => h) fun _ => .bind (control_release _) fun _ _ h => h
  refine leads_quiet (.bind (Q := fun _ w => Nests π none Ss w
      ∧ ∃ steps, w.activities = [.program none steps])
    (fun w h => ⟨calm_report (steady_nests π none Ss) _ rfl w h.1, h.2⟩) fun _ => ?_) ?_
  · refine .bind (Q := fun _ => P) ?_ fun _ => .get_bind fun w h => cleared w.slots w h
    rintro w ⟨h, steps, top⟩
    refine ⟨nests_pop h top rfl clean, ?_⟩
    change (w.activities.drop 1).map _ = []
    rw [top]
    rfl
  · exact .bind (fun _ h => h) fun _ => .bind (fun _ h => h) fun _ => .get_bind fun w h =>
      keeps w.slots w h

/-- Whether a program takes its next step. -/
def Begins (w : World) : Prop :=
  ∃ frame step steps rest, w.activities = .program frame (step :: steps) :: rest

theorem not_begins (top : w.activities = a :: rest)
    (other : ∀ frame step steps, a ≠ .program frame (step :: steps)) : ¬ w.Begins := by
  rintro ⟨frame, step, steps, more, eq⟩
  exact other frame step steps (List.cons.inj (top.symm.trans eq)).1

/-- The innermost activity goes on. -/
theorem leads_proceed :
    Leads (fun w => Nests π none Ss w ∧ w.control = .proceed ∧ w.Tells π ∧ (w.Slack π ∨ w.Begins))
      proceed fun _ w => w.Clear π → Turned π Ss w := by
  refine .get_bind ?_
  rintro w ⟨h, control, tells, slack⟩
  have slack : (¬ w.Begins) → w.Slack π := fun ends => slack.resolve_right ends
  split
  · rename_i frame step steps more top
    have root : (Activity.program frame steps).isRoot
        = (Activity.program frame (step :: steps)).isRoot := by cases frame <;> rfl
    rw [stateM_run_bind]
    exact leads_beginStep step _ (nests_replace h top rfl rfl root)
  · rename_i f more top
    have steady : Steady fun w => Nests π none Ss w ∧ w.Slack π := fun w w' h calm =>
      ⟨steady_nests π none Ss w w' h.1 calm, steady_slack π w w' h.2 calm⟩
    exact fun _ => Leads.bind (.of_preserves (preserves_bodyResults steady
      (fun _ h => rests_of_nests h.1) f)) (fun ending => leads_leaveBody ending) w
        ⟨h, slack (not_begins top (by simp))⟩
  · rename_i more top
    obtain rfl := nil_of_root h top rfl
    exact fun _ => leads_endProgram ((slack (not_begins top (by simp))).pop top) w ⟨⟨h, _, top⟩, control⟩
  · rename_i more top
    obtain rfl := nil_of_root h top rfl
    rw [stateM_get_bind]
    split
    · exact fun _ => Leads.bind (.of_preserves (calm_report (steady_nests π none Ss) _ rfl))
        (fun _ => leads_setControl (fun _ => .same) rfl) w h
    · rename_i name id names eq
      obtain ⟨⟨s, hs, isOpen⟩, -⟩ := h.named (name, id) (by rw [eq]; exact List.mem_cons_self)
      obtain ⟨S, nested, mid⟩ := h.mid hs isOpen
      have parts : w.parts id = [.apart] := by rw [World.parts, top]; rfl
      rw [parts] at nested mid
      have idle := nested.idle rfl fun p hp => .inl (List.mem_singleton.mp hp)
      have fewer : names.Sublist w.names := eq ▸ List.sublist_cons_self _ _
      rw [stateM_run_bind]
      refine fun _ => leads_closing closingStep idle.1 (nested.thread.trans (by rw [idle.2]; rfl)) idle.2 _
        ⟨⟨mid.toOrderly.unname fewer, mid.session, mid.parts, mid.others⟩, fun e he same => ?_⟩
      have distinct := h.distinct
      rw [eq, List.map_cons, List.nodup_cons] at distinct
      exact distinct.1 (List.mem_map.mpr ⟨e, he, same⟩)
  · rename_i d errand more top
    exact fun _ => leads_deliverNext top h ((slack (not_begins top (by simp))).pop top)
      (fun s x => tells d errand more s x top) control
  · exact fun _ => leads_setControl (fun _ => .same) rfl w h

/-- A turn of the world. -/
theorem turned_advance (h : w.Nests π w.control.script? Ss)
    (slack : w.Slack π ∨ (w.control = .proceed ∧ w.Begins))
    (tells : w.control = .proceed → (∀ id budget, w.whims.headD .pass ≠ .upon id budget) →
      w.Tells π)
    (clear : Clear π (advance.run w).2) : Turned π Ss (advance.run w).2 := by
  have whim : nextWhim.run w = (w.whims.headD .pass, { w with whims := w.whims.tail }) := rfl
  have h' : Nests π w.control.script? Ss { w with whims := w.whims.tail } :=
    ⟨⟨h.absent, h.named, h.distinct, h.numbered, h.rooted,
      h.routed.aside rfl rfl rfl rfl rfl rfl fun _ _ _ closing => closing, h.clean, h.unborn⟩,
      h.lies, h.runs⟩
  have goes : ∀ c, w.Slack π → Slack π { w with whims := w.whims.tail, control := c } := fun _ h =>
    h.imp_right fun ⟨base, clean, loose⟩ => ⟨base, clean, loose.covers, loose.apart⟩
  have slack' : w.control ≠ .proceed → w.Slack π := fun other =>
    slack.resolve_right fun begins => other begins.1
  rw [advance, stateM_get_bind, stateM_run_bind, whim] at clear ⊢
  cases control : w.control with
  | proceed =>
    rw [control] at h' clear
    cases whims : w.whims.headD .pass with
    | upon id budget => exact leads_sweep id budget _ ⟨h', rfl⟩
    | _ =>
      rw [whims] at clear
      exact leads_proceed _ ⟨h', rfl, tells control fun _ _ eq => (by cases whims.symm.trans eq),
        slack.imp (goes _) And.right⟩ clear
  | script id =>
    rw [control] at h'
    cases w.whims.headD .pass with
    | amid steps budget =>
      exact leads_interrupt id steps budget _ ⟨h', rfl, goes _ (slack' (by simp [control]))⟩
    | _ => exact leads_runScript id _ ⟨h', rfl, goes _ (slack' (by simp [control]))⟩
  | leave ending =>
    rw [control] at h'
    cases w.whims.headD .pass <;>
      exact leads_leaveBody ending _ ⟨h', goes _ (slack' (by simp [control]))⟩
  | done =>
    rw [control] at h'
    cases w.whims.headD .pass <;> exact turned_of_nests h' (fun _ => .same) rfl

end World

end ScriptBridge.Host
