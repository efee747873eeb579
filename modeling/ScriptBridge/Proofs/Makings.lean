import ScriptBridge.Proofs.Sharing

/-!
# ScriptBridge.Proofs.Makings

Values, callables and lists that a step of a side makes.  They are made of what that side has, so they
are that side's; a new callable is one from then on.

Main facts:

* `Turn.tries_value`, `Turn.tries_callable` — a value or a callable that a program writes down;
* `Turn.tries_items` — a list.
-/

namespace ScriptBridge

theorem Session.Keeper.mono {P P' : CallableId → Prop} {id : SessionId} {o : Bool} {s : Session}
    (h : s.Keeper P id o) (imp : ∀ f, P f → P' f) : s.Keeper P' id o :=
  ⟨h.id, h.isOpen, fun k f hf => imp f (h.pins k f hf)⟩

namespace Host

open scoped CoreInstances

/-! ## New sessions and callables -/

namespace Sides

variable {τ : Sides}

/-- A callable comes to be a side's. -/
def withCallable (τ : Sides) (f : CallableId) (b : Bool) : Sides where
  session := τ.session
  callable g := if g = f then some b else τ.callable g

theorem le_withCallable {f : CallableId} {b : Bool} (fresh : τ.callable f = none) :
    τ.Le b (τ.withCallable f b) where
  session _ _ h := h
  callable g c h := by
    have other : g ≠ f := by
      rintro rfl
      cases fresh.symm.trans h
    exact (if_neg other).trans h
  opened _ _ h := .inl h
  made g c h := by
    by_cases here : g = f
    · exact .inr (Option.some.inj ((if_pos here).symm.trans h)).symm
    · exact .inl ((if_neg here).symm.trans h)

/-- A session comes to be a side's. -/
def withSession (τ : Sides) (id : SessionId) (b : Bool) : Sides where
  session j := if j = id then some b else τ.session j
  callable := τ.callable

theorem le_withSession {id : SessionId} {b : Bool} (fresh : τ.session id = none) :
    τ.Le b (τ.withSession id b) where
  session j c h := by
    have other : j ≠ id := by
      rintro rfl
      cases fresh.symm.trans h
    exact (if_neg other).trans h
  callable _ _ h := h
  opened j c h := by
    by_cases here : j = id
    · exact .inr (Option.some.inj ((if_pos here).symm.trans h)).symm
    · exact .inl ((if_neg here).symm.trans h)
  made _ _ h := .inl h

end Sides

namespace Turn

open World

variable {α : Type} {T : Turn} {τ τ' : Sides} {w v : World} {body : Option Bool} {lent : String → Bool}
  {K : Scene}

/-- The tables of a world are still those of the sides when more has come to be somebody's. -/
theorem Twin.grow {g : Bool} (h : T.Twin τ w v) (le : τ.Le g τ') :
    Split τ'.session (fun b id s => s.Keeper (τ'.mine b) id s.isOpen) w.sessions v.sessions
    ∧ Split (fun n => some (T.ours n)) (fun b _ s => τ'.Owns b s.value) w.slots v.slots
    ∧ Split (fun n => some (T.ours n)) (fun b _ f => τ'.mine b f) w.defined v.defined
    ∧ Split τ'.callable (fun b _ c => c.Of T.ours τ' b) w.callables v.callables :=
  ⟨h.sessions.mono le.session fun _ _ _ keeper => keeper.mono fun f hf => le.callable f _ hf,
    h.slots.mono (fun _ _ h => h) fun _ _ _ own => le.owns own,
    h.defined.mono (fun _ _ h => h) fun _ _ _ mine => le.callable _ _ mine,
    h.callables.mono le.callable fun _ _ _ of => le.callableOf of⟩

theorem Twin.unmade (h : T.Twin τ w v) : τ.callable w.nextCallable = none := by
  cases hf : τ.callable w.nextCallable with
  | none => rfl
  | some b => exact absurd ((h.made _).mp ⟨b, hf⟩) (Nat.lt_irrefl _)

/-- A new callable is one of the side whose turn it is. -/
theorem leads_newCallable {code : CallableExpr} {captured : Slots}
    (of : Callable.Of T.ours τ T.side ⟨code, captured, 1⟩) :
    T.Leads τ (T.At body lent) (newCallable code captured)
      (With (fun τ f => τ.mine T.side f) (T.At body lent)) := by
  intro w v ⟨twin, scene⟩
  have le := Sides.le_withCallable (b := T.side) twin.unmade
  obtain ⟨sessions, slots, defined, callables⟩ := twin.grow le
  have here : (τ.withCallable w.nextCallable T.side).callable w.nextCallable = some T.side := if_pos rfl
  have split := callables.insert here (le.callableOf of)
  have made : ∀ f, (∃ b, (τ.withCallable w.nextCallable T.side).callable f = some b)
      ↔ f < w.nextCallable + 1 := fun f => by
    by_cases new : f = w.nextCallable
    · subst new
      exact ⟨fun _ => Nat.lt_succ_self _, fun _ => ⟨_, here⟩⟩
    · rw [show (τ.withCallable w.nextCallable T.side).callable f = τ.callable f from if_neg new,
        twin.made, Nat.lt_succ_iff_lt_or_eq, or_iff_left new]
  refine ⟨fun ours => (twin.numbers ours).2, _, le, ?_⟩
  rw [follow]
  cases side : T.side with
  | false =>
    rw [side] at split here sessions slots defined made
    exact ⟨.theirs { twin.toShare with
      sessions := sessions, slots := slots, defined := defined, callables := split
      named := twin.named, there := twin.there, made := made, enrolled := twin.enrolled } side,
      here, Stacks.le scene (side ▸ le)⟩
  | true =>
    obtain ⟨issued, next⟩ := twin.numbers side
    rw [side] at split here sessions slots defined made
    refine ⟨{ twin with
      sessions := sessions, slots := slots, defined := defined, callables := ?_
      named := twin.named, there := twin.there, made := made, enrolled := twin.enrolled
      numbers := fun _ => ⟨issued, congrArg (· + 1) next⟩ }, here, Stacks.le scene (side ▸ le)⟩
    change Split _ _ _ (v.callables.insert v.nextCallable _)
    rw [next]
    exact split

/-! ## Failures and copies -/

theorem keeps_freshSessionId : T.Keeps τ K freshSessionId := fun w v ⟨twin, scene⟩ => by
  refine ⟨fun ours => congrArg (· + 1) (twin.numbers ours).1, τ, .refl T.side τ, ?_⟩
  have there : ∀ id b, τ.session id = some b → id ≤ w.issued + 1 ∧ ∃ s, w.sessions[id]? = some s :=
    fun id b h => ⟨Nat.le_succ_of_le (twin.there id b h).1, (twin.there id b h).2⟩
  rw [follow]
  cases side : T.side with
  | false => exact ⟨.theirs { twin.toShare with there := there } side, scene⟩
  | true =>
    exact ⟨{ twin with
      there := there
      numbers := fun ours => ⟨congrArg (· + 1) (twin.numbers ours).1, (twin.numbers ours).2⟩ }, scene⟩

theorem tries_failure (e : FailureExpr) : T.Tries τ K (failure e) fun _ _ => True := by
  induction e generalizing τ with
  | plain f => exact .pure trivial
  | wrongSession =>
    exact .bind (.keeps keeps_freshSessionId) fun _ _ _ _ =>
      .bind (.keeps keeps_freshSessionId) fun _ _ _ _ => .pure trivial
  | marshal index source ih => exact .bind ih fun _ _ _ _ => .pure trivial
  | malformed => exact .throw _

/-- A second reference is one of the same side. -/
theorem tries_reanchor {r : Ref} (here : τ.session r.session = some T.side) :
    T.Tries τ K (reanchor r) fun τ q => τ.session q.session = some T.side := by
  have known : T.Leads τ K (attemptOn r.session (Session.reanchor r))
      (With (fun _ => OnOk fun q => q.session = r.session) K) :=
    leads_attemptOn here fun _ => Session.keeper_reanchor r
  refine .bind (.lift (F := fun _ => OnOk fun q => q.session = r.session) known) fun r' τ' le same => ?_
  cases r' with
  | ok q =>
    refine .pure ?_
    rw [show q.session = r.session from same]
    exact le.session _ _ here
  | error f => exact .throw _

theorem tries_copy {u : Value} (own : τ.Owns T.side u) :
    T.Tries τ K (copy u) fun τ v => τ.Owns T.side v := by
  cases u with
  | reference r => exact .bind (tries_reanchor own) fun q τ' _ here => .pure here
  | function r => exact .bind (tries_reanchor own) fun q τ' _ here => .pure here
  | callable f => exact .bind (.keeps (keeps_retain own)) fun _ _ le _ => .pure (le.callable _ _ own)
  | _ => exact .pure trivial

theorem tries_definedCallable {name : String} (mine : T.ours name = T.side) :
    T.Tries τ K (definedCallable name) fun τ f => τ.mine T.side f := by
  refine .get (fun w v h ours => by rw [h.1.defined_ours ours mine]) fun w v h => ?_
  cases hd : w.defined[name]? with
  | some f => exact Tries.pure (h.1.defined.holds hd (congrArg some mine)) w v h
  | none => exact Tries.throw _ w v h

theorem tries_anotherOf {name : String} (mine : T.ours name = T.side) :
    T.Tries τ K (anotherOf name) fun τ v => τ.Owns T.side v :=
  .bind (tries_definedCallable mine) fun _ _ _ here =>
    .bind (.keeps (keeps_retain here)) fun _ _ le _ => .pure (le.callable _ _ here)

/-! ## Values -/

mutual

/-- A value that is made is one of the side that makes it. -/
theorem tries_value (τ : Sides) (e : ValueExpr) (kept : e.keeps T.ours body T.side = true) :
    T.Tries τ (T.At body lent) (value e) fun τ v => τ.Owns T.side v := by
  cases e with
  | constant c =>
    rw [value]
    exact .pure (by cases c <;> trivial)
  | take slot =>
    rw [value]
    rw [ValueExpr.keeps] at kept
    exact tries_takeSlot kept
  | dup slot =>
    rw [value]
    rw [ValueExpr.keeps] at kept
    exact .bind (tries_filledSlot kept) fun p τ' _ known => tries_copy known.2.1
  | callable f =>
    rw [value]
    rw [ValueExpr.keeps] at kept
    exact .bind (tries_callable τ f kept) fun _ _ _ mine => .pure mine
  | named name =>
    rw [value]
    rw [ValueExpr.keeps] at kept
    exact tries_anotherOf (eq_of_beq kept)
  | malformed =>
    rw [value]
    exact .throw _

theorem tries_callable (τ : Sides) (f : CallableExpr) (kept : f.keeps T.ours body T.side = true) :
    T.Tries τ (T.At body lent) (callable f) fun τ g => τ.mine T.side g := by
  cases f with
  | mk name steps results captures watched quiet =>
    rw [callable]
    rw [CallableExpr.keeps, Bool.and_eq_true, Bool.and_eq_true] at kept
    obtain ⟨⟨apart, returned⟩, kept⟩ := kept
    exact .bind (tries_captureAll τ captures ∅ kept .empty) fun captured τ' _ own =>
      .lift (leads_newCallable ⟨apart, returned, own⟩)
  | malformed =>
    rw [callable]
    exact .throw _

theorem tries_captureAll (τ : Sides) (es : List (String × ValueExpr)) (slots : Slots)
    (kept : capturesKept T.ours body T.side es = true) (own : τ.OwnsSlots T.side slots) :
    T.Tries τ (T.At body lent) (captureAll es slots) fun τ t => τ.OwnsSlots T.side t := by
  match es with
  | [] =>
    rw [captureAll]
    exact .pure own
  | (name, e) :: rest =>
    rw [captureAll]
    rw [capturesKept, Bool.and_eq_true] at kept
    refine .bind (.tryCatch (tries_value τ e kept.1) fun _ τ' le => ?_) fun v τ' le here => ?_
    · exact .bind (.keeps (keeps_dropSlots (le.ownsSlots own))) fun _ _ _ _ => .throw _
    · have old : ∀ u ∈ (slots["^" ++ name]?).toList.map Slot.value, τ'.Owns T.side u := fun u hu => by
        obtain ⟨s, hs, rfl⟩ := List.mem_map.mp hu
        exact le.owns (own _ _ (Option.mem_toList.mp hs))
      refine .bind (.keeps (keeps_dropValues old)) fun _ τ'' le' _ =>
          tries_captureAll τ'' rest _ kept.2 ?_
      exact ((le.trans le').ownsSlots own).put ("^" ++ name) (some ⟨v, 0⟩)
        fun s hs => Option.some.inj hs ▸ le'.owns here

end

/-! ## Lists -/

/-- The frame's argument slots are those of the side whose body it is. -/
theorem slotKept_argumentName (mine : body ≠ some !T.side) (position : Nat) :
    slotKept T.ours body T.side (argumentName position) = true := by
  have dollar : (argumentName position).toList = '$' :: position.repr.toList := by
    rw [argumentName, String.toList_append]
    rfl
  rw [slotKept, dollar]
  exact bne_iff_ne.mpr mine

theorem tries_splatFrom (mine : body ≠ some !T.side) (fuel position : Nat) {taken : List Value}
    (own : ∀ u ∈ taken, τ.Owns T.side u) :
    T.Tries τ (T.At body lent) (splatFrom fuel position taken) fun τ vs =>
        ∀ u ∈ vs, τ.Owns T.side u := by
  have done : ∀ {τ : Sides} {taken : List Value}, (∀ u ∈ taken, τ.Owns T.side u) →
      T.Tries τ (T.At body lent) (pure taken.reverse) fun τ vs => ∀ u ∈ vs, τ.Owns T.side u :=
    fun own => .pure fun u hu => own u (List.mem_reverse.mp hu)
  induction fuel generalizing τ position taken with
  | zero => exact done own
  | succ fuel ih =>
    have kept := slotKept_argumentName (T := T) mine position
    rw [splatFrom]
    refine .get (fun w v h ours => ?_) fun w v h => ?_
    · rw [locate_ours h kept ours]
      cases there : w.locate (argumentName position) with
      | none => rfl
      | some place => dsimp only; rw [slotAt_ours h (locate_of h kept there) ours]
    · split
      · exact done own w v h
      · split
        · exact done own w v h
        · refine Tries.bind (.tryCatch (tries_takeSlot kept) fun _ τ' le => ?_) (fun u τ' le here =>
            ih (position + 1) fun x hx => ?_) w v h
          · exact .bind (.keeps (keeps_dropValues fun x hx => le.owns (own x (List.mem_reverse.mp hx))))
              fun _ _ _ _ => .throw _
          · obtain rfl | hx := List.mem_cons.mp hx
            · exact here
            · exact le.owns (own x hx)

/-- Whether the values of a list are a side's, and the slots they are lent from. -/
def Items (T : Turn) (body : Option Bool) (τ : Sides) (vs : List (Value × Option String)) : Prop :=
  ∀ p ∈ vs, τ.Owns T.side p.1 ∧ ∀ name, p.2 = some name → slotKept T.ours body T.side name = true

theorem Items.le {g : Bool} {vs : List (Value × Option String)} (h : T.Items body τ vs)
    (le : τ.Le g τ') :
    T.Items body τ' vs := fun p hp => ⟨le.owns (h p hp).1, (h p hp).2⟩

theorem Items.values {vs : List (Value × Option String)} (h : T.Items body τ vs) :
    ∀ u ∈ vs.map (·.1), τ.Owns T.side u := fun u hu => by
  obtain ⟨p, hp, rfl⟩ := List.mem_map.mp hu
  exact (h p hp).1

theorem frameSize_ours (h : T.Holds (T.At body lent) τ w v) (mine : body ≠ some !T.side)
    (ours : T.side = true) : v.frameSize = w.frameSize := by
  rw [frameSize, frameSize, frame_ours h ours mine]

theorem tries_item (e : ItemExpr) (kept : e.keeps T.ours body T.side = true) :
    T.Tries τ (T.At body lent) (item e) (T.Items body) := by
  have unlent : ∀ {τ : Sides} {vs : List Value}, (∀ u ∈ vs, τ.Owns T.side u) →
      T.Items body τ (vs.map fun v => (v, none)) := fun own p hp => by
    obtain ⟨u, hu, rfl⟩ := List.mem_map.mp hp
    exact ⟨own u hu, fun _ none => by cases none⟩
  cases e with
  | one e =>
    rw [ItemExpr.keeps] at kept
    refine .bind (tries_value τ e kept) fun u τ' _ own => .pure ?_
    exact @unlent τ' [u] fun x hx => List.mem_singleton.mp hx ▸ own
  | nils count =>
    refine .pure fun p hp => ?_
    rw [List.eq_of_mem_replicate hp]
    exact ⟨trivial, fun _ none => by cases none⟩
  | splat first =>
    have mine : body ≠ some !T.side := by simpa [ItemExpr.keeps] using kept
    refine .get (fun w v h ours => by rw [frameSize_ours h mine ours]) fun w v h => ?_
    exact Tries.bind (tries_splatFrom mine _ first fun _ none => by cases none)
      (fun vs τ' _ own => .pure (unlent own)) w v h
  | lend slot =>
    rw [ItemExpr.keeps] at kept
    refine .bind (tries_takeSlot kept) fun u τ' _ own => .pure fun p hp => ?_
    rw [List.mem_singleton.mp hp]
    exact ⟨own, fun name same => Option.some.inj same ▸ kept⟩

theorem tries_itemsFrom (es : List ItemExpr) (kept : itemsKept T.ours body T.side es = true)
    {done : List (Value × Option String)} (own : T.Items body τ done) :
    T.Tries τ (T.At body lent) (itemsFrom done es) (T.Items body) := by
  induction es generalizing τ done with
  | nil => exact .pure fun p hp => own p (List.mem_reverse.mp hp)
  | cons e es ih =>
    rw [itemsFrom]
    rw [itemsKept, Bool.and_eq_true] at kept
    refine .bind (.tryCatch (tries_item e kept.1) fun _ τ' le => ?_) fun vs τ' le here =>
      ih kept.2 fun p hp => ?_
    · refine .bind (.keeps (keeps_dropValues ?_)) fun _ _ _ _ => .throw _
      exact Items.values fun p hp => (own.le le) p (List.mem_reverse.mp hp)
    · obtain hp | hp := List.mem_append.mp hp
      · exact here p (List.mem_reverse.mp hp)
      · exact (own.le le) p hp

/-- A list is made of what a side has, and is that side's. -/
theorem tries_items {es : List ItemExpr} (kept : itemsKept T.ours body T.side es = true) :
    T.Tries τ (T.At body lent) (items es) (T.Items body) :=
  tries_itemsFrom es kept fun _ none => by cases none

end Turn

end Host

end ScriptBridge
