import ScriptBridge.Proofs.Beginnings

/-!
# ScriptBridge.Proofs.Delivering

The turns in which values are put on a host's frame, one after the other, and the one in which the
last of them is there, or one is refused.

Main facts:

* `World.leads_delivered`, `World.leads_undelivered` — the end of a delivery;
* `World.Tells`, `World.nested_pushed` — what is on the frame is what is noted of it;
* `World.leads_deliverNext` — one turn of a delivery.
-/

namespace ScriptBridge.Host

open Script (Spine Wait ThreadId FrameInfo)

/-- The value that is put on the host's frame next: a host function for a callable that is pinned,
or what the value is that is left. -/
def Delivery.shows (d : Delivery) (s : Session) : Option Script.Value :=
  match d.pin, d.left with
  | some _, _ => some (.native s.machine.natives.size)
  | none, out :: _ => if (out.cell?.bind s.cell?).any fun c => c.handle?.isSome then none
    else some (s.valueOf out)
  | none, [] => none

variable {ps : List Part} {p : Part} {q : Stand} {callers : List Spine} {S B : Spine} {k : Wait}
  {t : ThreadId} {info : FrameInfo} {upvalue : Script.Value} {operands new : List Script.Value}
  {noted : Nat → Spine → Prop}

namespace World

variable {α : Type} {π : Past} {w w' : World} {id j : SessionId} {r : Option SessionId} {s : Session}
  {Ss Ss' : SessionId → List Spine} {I : Session → Prop} {a : Activity} {rest : List Activity}
  {x : Act α} {R : α → World → Prop}

/-! ## Deliveries -/

variable {d : Delivery} {errand : Errand}

/-- Work on the session that host code runs on, which leaves the host's frame alone. -/
theorem leads_still {x : Act α} (still : ∀ J : World → Prop, Steady J → Preserves J x) :
    Leads (Mid π id ps (Session.On t S) Ss) x fun _ => Mid π id ps (Session.On t S) Ss :=
  .of_preserves (still _ (steady_mid (Session.steady_on t S)))

/-- What called a host callable goes on. -/
theorem leads_goBack (below : Nested (π.told id) (π.noted id) ps (.under k B) callers)
    (shift : Shift true (Ss id) callers) {op : Op Unit} (hands : Leads (Session.On B.thread ((t, .host info upvalue operands) :: S)) op
      fun _ => Session.Under (k, B)) :
    Leads (Mid π id ps (Session.On t ((t, .host info upvalue operands) :: S)) Ss) (do
        onSession id (Session.leave (some B.thread))
        onSession id op
        setControl (.script id) : Act Unit) fun _ => Turned π Ss :=
  .bind (leads_onSession Session.leads_leave (fun _ h => h.isOpen) fun _ _ h => h.isOpen) fun _ =>
    .bind (leads_onSession hands (fun _ h => h.isOpen) fun _ _ h => h.isOpen) fun _ =>
      leads_suspend below shift

/-- What was put on the host's frame for a step is taken off. -/
theorem leads_dropAbove {base : Nat} (all : base = operands.length) :
    Leads (Mid π id ps (Session.On t ((t, .host info upvalue (new ++ operands)) :: S)) Ss)
      (onSession id (Session.dropAbove t base))
      fun _ => Mid π id ps (Session.On t ((t, .host info upvalue operands) :: S)) Ss :=
  leads_onSession (Session.leads_dropAbove all) (fun _ h => h.isOpen) fun _ _ h => h.isOpen

/-- A step that host code runs after, as it did before. -/
theorem leads_back {x : Act α}
    (nested : Nested (π.told id) (π.noted id) ps (.seated ((t, .host info upvalue operands) :: S)) (Ss id))
    (next : Leads (Nests π none Ss) x R) :
    Leads (Mid π id ps (Session.On t ((t, .host info upvalue operands) :: S)) Ss) x R :=
  leads_settle (S := (t, .host info upvalue operands) :: S) nested
    (by rwa [Function.update_eq_self])

/-- All values of a delivery are on the host's frame. -/
theorem leads_delivered
    (nested : Nested (π.told d.session) (π.noted d.session) (errand.part d :: ps) (.seated S) (Ss d.session))
    (all : d.missing = 0) :
    Leads (Mid π d.session ps (Session.On S.thread S) Ss) (delivered d errand)
      fun _ => Turned π Ss := by
  cases errand with
  | call step base f c =>
    rw [Errand.part, all] at nested
    cases nested with
    | @sends _ t info upvalue f operands new S _ _ _ _ _ count _ below =>
      exact .bind (leads_onSession (Session.leads_startCall count) (fun _ h => h.isOpen)
        fun _ _ h => h.isOpen) fun _ => .bind (leads_begin rfl (by simp)) fun _ =>
          leads_suspend (.runs below) .same
  | assign step base v =>
    rw [Errand.part, all] at nested
    generalize thread : d.thread = t at nested
    cases nested with
    | @assigns _ _ info upvalue operands new S _ _ _ count below =>
      obtain ⟨value, key, table, rfl⟩ := List.length_eq_three.mp count
      rw [delivered, thread]
      refine .bind (leads_onSession Session.leads_finishAssign (fun _ h => h.isOpen)
        fun _ s h => ?_) fun _ => ?_
      · obtain ⟨new, h⟩ := h
        exact h.isOpen
      refine leads_choose fun new => .bind (leads_dropAbove rfl) fun _ => ?_
      exact .bind (leads_still fun J hJ => calm_releaseOutbound hJ _ _) fun _ =>
        .bind (leads_still fun J hJ => calm_dropValue hJ _) fun _ =>
          leads_back below (leads_finishStep step _ fun _ => .same)
  | results previous vs =>
    rw [Errand.part] at nested
    generalize thread : d.thread = t at nested
    generalize eq : Ss d.session = callers at nested
    cases nested with
    | @answers _ _ info upvalue operands S B k callers _ _ _ _ deep ground _ _ below =>
      exact .bind (leads_still fun J hJ => calm_releaseOutbound hJ _ _) fun _ =>
        .bind (leads_still fun J hJ => calm_dropValues hJ _) fun _ =>
          leads_goBack below (eq ▸ .left) (Session.leads_returnResults deep ground)

/-- A value of a delivery cannot be put on the host's frame. -/
theorem leads_undelivered (f : Failure)
    (nested : Nested (π.told d.session) (π.noted d.session) (errand.part d :: ps) (.seated S) (Ss d.session)) :
    Leads (Mid π d.session ps (Session.On S.thread S) Ss) (undelivered d f errand)
      fun _ => Turned π Ss := by
  generalize thread : d.thread = t at nested
  cases errand with
  | call step base f c =>
    rw [Errand.part, thread] at nested
    cases nested with
    | @sends _ _ info upvalue f operands new S _ _ _ _ _ _ _ below =>
      rw [undelivered, thread, List.append_cons new f operands]
      exact .bind (leads_dropAbove rfl) fun _ =>
        .bind (leads_still fun J hJ => calm_releaseOutbound hJ _ _) fun _ =>
          leads_back below (leads_finishCall step c _ fun _ => .same)
  | assign step base v =>
    rw [Errand.part, thread] at nested
    cases nested with
    | @assigns _ _ info upvalue operands new S _ _ _ count below =>
      rw [undelivered, thread]
      exact .bind (leads_dropAbove rfl) fun _ =>
        .bind (leads_still fun J hJ => calm_releaseOutbound hJ _ _) fun _ =>
          .bind (leads_still fun J hJ => calm_dropValue hJ _) fun _ =>
            leads_back below (leads_finishStep step _ fun _ => .same)
  | results previous vs =>
    rw [Errand.part, thread] at nested
    generalize eq : Ss d.session = callers at nested
    cases nested with
    | @answers _ _ info upvalue operands S B k callers _ _ _ _ deep ground _ _ below =>
      exact .bind (leads_still fun J hJ => calm_releaseOutbound hJ _ _) fun _ =>
        .bind (leads_still fun J hJ => calm_dropValues hJ _) fun _ =>
          leads_goBack below (eq ▸ .left) (Session.leads_raiseFailure deep ground f)

/-- Whether it is told of a script value that it is what the next value of a delivery is for the
runtime. -/
def Told (π : Past) (d : Delivery) (errand : Errand) (x : Script.Value) : Prop :=
  ∀ v, d.next? errand = some v → π.told d.session v x

/-- Whether it is told what the value is that a delivery puts on the host's frame next. -/
def Tells (π : Past) (w : World) : Prop :=
  ∀ (d : Delivery) (errand : Errand) (rest : List Activity) (s : Session) (x : Script.Value),
    w.activities = .delivering d errand :: rest → w.sessions[d.session]? = some s →
    d.shows s = some x → Told π d errand x

/-- One value more is on the host's frame. -/
theorem nested_pushed (d' : Delivery) (nested : Nested (π.told d.session) (π.noted d.session) (errand.part d :: ps)
      (.seated ((t, .host info upvalue operands) :: S)) callers)
    (thread : d'.thread = d.thread) (outbound : d'.outbound = d.outbound)
    (missing : d'.missing + 1 = d.missing) {x : Script.Value} (told : Told π d errand x)
    (clean : π.Clean ps.length) :
    Nested (π.told d.session) (π.noted d.session) (errand.part d' :: ps)
      (.seated ((t, .host info upvalue (x :: operands)) :: S)) callers := by
  -- one value more is told of
  have given : ∀ {new : List Script.Value}, new.length + d.missing = d.outbound.length →
      Conforms (π.told d.session) errand.values new →
      (x :: new).length + d'.missing = d.outbound.length
        ∧ Conforms (π.told d.session) errand.values (x :: new) := by
    intro new count given
    have there : d.outbound.length - d.missing = new.length := by omega
    refine ⟨by rw [List.length_cons]; omega, fun i v y hv hy => ?_⟩
    rw [List.reverse_cons] at hy
    obtain hi | hi := Nat.lt_or_ge i new.length
    · rw [List.getElem?_append_left (by rwa [List.length_reverse])] at hy
      exact given i v y hv hy
    · have here : i = new.length := by
        have bound := (List.getElem?_eq_some_iff.mp hy).1
        rw [List.length_append, List.length_reverse, List.length_singleton] at bound
        omega
      subst here
      rw [← List.length_reverse, List.getElem?_concat_length] at hy
      exact Option.some.inj hy ▸ told v (by rwa [Delivery.next?, there])
  cases errand with
  | call step base f c =>
    rw [Errand.part] at nested ⊢
    rw [thread, outbound]
    generalize d.thread = u at nested ⊢
    cases nested with
    | @sends _ _ _ _ _ operands new _ _ _ _ _ _ count before below =>
      obtain ⟨more, all⟩ := given count before
      rw [← List.cons_append]
      exact .sends (clean _ _ _ (Nat.lt_succ_self _)) more all below
  | assign step base v =>
    rw [Errand.part, ← missing] at nested
    rw [Errand.part, thread]
    generalize d.thread = u at nested ⊢
    cases nested with
    | @assigns _ _ _ _ operands new _ _ _ _ count below =>
      rw [← List.cons_append]
      exact .assigns (clean _ _ _ (Nat.lt_succ_self _)) (by rw [List.length_cons]; omega) below
  | results previous vs =>
    rw [Errand.part] at nested ⊢
    rw [thread, outbound]
    generalize d.thread = u at nested ⊢
    cases nested with
    | answers _ deep ground count before below =>
      obtain ⟨more, all⟩ := given count before
      exact .answers (clean _ _ _ (Nat.lt_succ_self _)) deep ground more all below

/-- A delivery is one to the thread that host code runs on. -/
theorem nested_thread {told : Value → Script.Value → Prop}
    (nested : Nested told noted (errand.part d :: ps) (.seated S) callers) :
    ∃ info upvalue operands S', S = (d.thread, .host info upvalue operands) :: S' := by
  cases errand <;> rw [Errand.part] at nested <;> generalize d.thread = u at nested ⊢ <;>
    cases nested <;> exact ⟨_, _, _, _, rfl⟩

theorem part_delivering (d : Delivery) : errand.part d ≠ .apart ∧ errand.part d ≠ .closes := by
  cases errand <;> simp [Errand.part]

/-- The next value is put on the host's frame. -/
theorem leads_deliverNext (top : w.activities = .delivering d errand :: rest)
    (h : w.Nests π none Ss) (clean : π.Clean rest.length)
    (tells : ∀ s x, w.sessions[d.session]? = some s → d.shows s = some x → Told π d errand x)
    (control : w.control = .proceed) :
    ((deliverNext d errand).run w).2.Turned π Ss := by
  have part : ∀ d : Delivery, errand.part d ≠ .apart ∧ errand.part d ≠ .closes := part_delivering
  obtain ⟨S, nested, mid⟩ := h.mid_top top rfl (part d).1
  rw [← List.length_map (Activity.part d.session)] at clean
  generalize rest.map (Activity.part d.session) = ps at nested mid clean
  obtain ⟨info, upvalue, operands, S, rfl⟩ := nested_thread nested
  let here := (d.thread, Script.Frame.host info upvalue operands) :: S
  let I : Session → Prop := fun s => Session.On d.thread here s
    ∧ ∀ x, d.shows s = some x → Told π d errand x
  let P : World → Prop := fun w => Mid π d.session (errand.part d :: ps) I Ss w ∧ w.control = .proceed
  have told : Mid π d.session (errand.part d :: ps) I Ss w := by
    obtain ⟨s, hs, on⟩ := mid.session
    exact ⟨mid.toOrderly, ⟨s, hs, on, fun x => tells s x hs⟩, mid.parts, mid.others⟩
  suffices leads : Leads P (deliverNext d errand) fun _ => Turned π Ss from leads w ⟨told, control⟩
  -- a value that is told comes on top
  have pushed : ∀ (d' : Delivery) {w : World}, d'.thread = d.thread → d'.outbound = d.outbound →
      d'.missing + 1 = d.missing → d'.session = d.session →
      Mid π d.session (errand.part d' :: ps) (fun s => ∃ x, Told π d errand x
        ∧ Session.On d.thread ((d.thread, .host info upvalue (x :: operands)) :: S) s) Ss w →
      w.Nests π none Ss := by
    intro d' w thread outbound missing session h
    obtain ⟨s, hs, x, told, on⟩ := h.session
    exact Mid.back (S := (d.thread, .host info upvalue (x :: operands)) :: S)
      ⟨h.toOrderly, ⟨s, hs, on⟩, h.parts, h.others⟩
      (nested_pushed d' nested thread outbound missing told clean)
  unfold deliverNext
  split
  · rename_i pin hpin
    refine leads_quiet ?_ (.bind (fun _ h => h) fun _ => control_onSession)
    refine .bind (leads_replaceTop rfl (part _).2 (part d) clean) fun _ => ?_
    have builds : Leads I (Session.build d.thread pin) fun _ s => ∃ x, Told π d errand x
        ∧ Session.On d.thread ((d.thread, .host info upvalue (x :: operands)) :: S) s :=
      fun s h => ⟨_, h.2 _ (by rw [Delivery.shows, hpin]), h.1.build pin⟩
    refine (leads_onSession builds (fun _ h => h.1.isOpen) fun _ s h => ?_).mono (fun _ h => h)
      fun _ w h => ?_
    · obtain ⟨x, -, h⟩ := h
      exact h.isOpen
    · refine pushed { d with pin := none } rfl rfl ?_ rfl h
      simp [Delivery.missing, hpin]
  · rename_i hpin
    split
    · rename_i left
      refine Leads.mono (Leads.bind (leads_finishTop (part d) clean) fun _ =>
        leads_delivered nested ?_) (fun w h => h.1.weaken fun _ h => h.1) fun _ _ h => h
      simp [Delivery.missing, hpin, left]
    · rename_i out more left
      let J : Except Failure (Option (Handle × CallableId)) → Session → Prop := fun r s =>
        Session.On d.thread here s ∧ (r = .ok none → Told π d errand (s.valueOf out))
      have repins : Leads I (Session.repin out).run J := by
        intro s h
        have calm := Session.still_repin (Session.gentle_calm s) out s (.refl s)
        refine ⟨Session.steady_on _ _ s _ h.1 calm.still, fun plain => ?_⟩
        obtain ⟨same, unpinned⟩ := Session.repin_eq_none
          (show (Session.repin out).run.run s = (.ok none, _) from Prod.ext plain rfl)
        refine (congrArg (fun s => Told π d errand (s.valueOf out)) same).mpr (h.2 _ ?_)
        rw [Delivery.shows, hpin, left]
        exact if_neg (by simpa using unpinned)
      have repinned : Leads P (onSession d.session (Session.repin out).run) fun r w =>
          Mid π d.session (errand.part d :: ps) (J r) Ss w ∧ w.control = .proceed := fun w h =>
        ⟨h.1.onSession repins (fun _ h => h.1.isOpen) fun _ _ h => h.1.isOpen, control_onSession w h.2⟩
      refine repinned.bind fun r => ?_
      cases r with
      | error f =>
        exact Leads.mono (Leads.bind (leads_finishTop (part d) clean) fun _ =>
          leads_undelivered f nested) (fun _ h => h.1.weaken fun _ h => h.1) fun _ _ h => h
      | ok pinned =>
        cases pinned with
        | some p =>
          have steady : Steady (Mid π d.session (errand.part d :: ps) (Session.On d.thread here) Ss) :=
            steady_mid (Session.steady_on d.thread here)
          refine leads_quiet (P := Mid π d.session (errand.part d :: ps) (J (.ok (some p))) Ss) ?_
            (.bind (fun _ h => h) fun _ _ h => h)
          refine .bind (Leads.mono (.of_preserves (calm_retain steady _))
            (fun _ h => h.weaken fun _ h => h.1) fun _ _ h => h) fun _ => ?_
          refine (leads_replaceTop rfl (part _).2 (part d) clean).mono (fun _ h => h) fun _ w h => ?_
          refine Mid.back (S := here) h ?_
          have same : errand.part { d with left := more, pin := some p.1 } = errand.part d := by
            cases errand <;> simp [Errand.part, Delivery.missing, hpin, left]
          rwa [same]
        | none =>
          refine leads_quiet (P := Mid π d.session (errand.part d :: ps) (J (.ok none)) Ss) ?_
            (.bind control_onSession fun _ _ h => h)
          have places : Leads (J (.ok none)) (Session.place d.thread out) fun _ s =>
              ∃ x, Told π d errand x ∧ Session.On d.thread
                ((d.thread, .host info upvalue (x :: operands)) :: S) s :=
            fun s h => ⟨_, h.2 rfl, h.1.place out⟩
          refine .bind (leads_onSession places (fun _ h => h.1.isOpen) fun _ s h => ?_) fun _ => ?_
          · obtain ⟨x, -, h⟩ := h
            exact h.isOpen
          refine (leads_replaceTop rfl (part _).2 (part d) clean).mono (fun _ h => h) fun _ w h => ?_
          refine pushed { d with left := more } rfl rfl ?_ rfl h
          simp [Delivery.missing, hpin, left]

end World

end ScriptBridge.Host
