import ScriptBridge.Proofs.Custody
import ScriptBridge.Proofs.Entries
import ScriptBridge.Proofs.Sides

/-!
# ScriptBridge.Proofs.Shares

What two sides have in a world, and our share of it.  `Sides` says whose the sessions and the
callables are.  A table is `Split` if each entry of it is one of either side, and a share of it has
exactly those of ours.  What is in progress is split as `Stacks` say.

Main facts:

* `Split.insert`, `Split.erase`, `Split.modify` — a side changes what it has;
* `Stacks.any_share` — what is in progress for something of ours is in progress in our share;
* `Stacks.entrust` — a value is left to a call of the side that replaced it.
-/

namespace ScriptBridge.Host

/-! ## Tables -/

section

open Std

variable {α β : Type} [Ord α] [TransOrd α] [LawfulEqOrd α] {side side' : α → Option Bool}
  {P P' : Bool → α → β → Prop} {t t' : TreeMap α β} {k : α} {v : β} {b : Bool}

/-- Whether each entry of a table is one of a side, and those of ours make another table. -/
structure Split (side : α → Option Bool) (P : Bool → α → β → Prop) (t t' : TreeMap α β) : Prop where
  share : ∀ k : α, t'[k]? = if side k = some true then t[k]? else none
  held : ∀ (k : α) (v : β), t[k]? = some v → ∃ b, side k = some b ∧ P b k v

namespace Split

omit [TransOrd α] [LawfulEqOrd α] in
theorem ours (h : Split side P t t') (ours : side k = some true) : t'[k]? = t[k]? := by
  rw [h.share, if_pos ours]

omit [TransOrd α] [LawfulEqOrd α] in
theorem of_share (h : Split side P t t') (there : t'[k]? = some v) :
    side k = some true ∧ t[k]? = some v := by
  rw [h.share] at there
  split at there
  · rename_i ours
    exact ⟨ours, there⟩
  · cases there

omit [TransOrd α] [LawfulEqOrd α] in
theorem holds (h : Split side P t t') (there : t[k]? = some v) (here : side k = some b) : P b k v := by
  obtain ⟨b', here', holds⟩ := h.held k v there
  cases Option.some.inj (here.symm.trans here')
  exact holds

omit [LawfulEqOrd α] in
theorem empty : Split side P (∅ : TreeMap α β) ∅ := ⟨fun k => by simp, fun k v h => by simp at h⟩

omit [TransOrd α] [LawfulEqOrd α] in
/-- More entries may come to be somebody's. -/
theorem mono (h : Split side P t t') (sides : ∀ k b, side k = some b → side' k = some b)
    (kinds : ∀ b k v, P b k v → P' b k v) : Split side' P' t t' := by
  refine ⟨fun k => ?_, fun k v hv => ?_⟩
  · rw [h.share]
    cases hk : t[k]? with
    | none => rw [ite_self, ite_self]
    | some v =>
      obtain ⟨b, here, -⟩ := h.held k v hk
      rw [here, sides k b here]
  · obtain ⟨b, here, holds⟩ := h.held k v hv
    exact ⟨b, sides k b here, kinds b k v holds⟩

omit [TransOrd α] [LawfulEqOrd α] in
/-- A side changes one of its entries. -/
theorem update (h : Split side P t t') (here : side k = some b) {f : TreeMap α β → TreeMap α β}
    (apart : ∀ (t : TreeMap α β) (j : α), j ≠ k → (f t)[j]? = t[j]?)
    (same : b = true → (f t')[k]? = (f t)[k]?) (holds : ∀ v, (f t)[k]? = some v → P b k v) :
    Split side P (f t) (if b = true then f t' else t') := by
  refine ⟨fun j => ?_, fun j v hv => ?_⟩
  · by_cases there : j = k
    · subst there
      cases b with
      | true => rw [if_pos rfl, if_pos here, same rfl]
      | false =>
        have other : side j ≠ some true := by rw [here]; simp
        rw [if_neg (by simp), h.share, if_neg other, if_neg other]
    · cases b with
      | true => rw [if_pos rfl, apart _ _ there, apart _ _ there, h.share]
      | false => rw [if_neg (by simp), apart _ _ there, h.share]
  · by_cases there : j = k
    · subst there
      exact ⟨b, here, holds v hv⟩
    · rw [apart _ _ there] at hv
      exact h.held j v hv

theorem insert (h : Split side P t t') (here : side k = some b) (hv : P b k v) :
    Split side P (t.insert k v) (if b = true then t'.insert k v else t') :=
  h.update (f := fun t => t.insert k v) here (fun _ _ ne => getElem?_insert_of_ne ne)
    (fun _ => by simp) fun u hu => by simp at hu; exact hu ▸ hv

theorem erase (h : Split side P t t') (here : side k = some b) :
    Split side P (t.erase k) (if b = true then t'.erase k else t') :=
  h.update (f := fun t => t.erase k) here (fun _ _ ne => getElem?_erase_of_ne ne)
    (fun _ => by simp) fun u hu => by simp at hu

theorem modify (h : Split side P t t') (here : side k = some b) {f : β → β}
    (hf : ∀ v, P b k v → P b k (f v)) :
    Split side P (t.modify k f) (if b = true then t'.modify k f else t') := by
  refine h.update (f := fun t => t.modify k f) here (fun _ _ ne => getElem?_modify_of_ne ne)
    (fun ours => ?_) fun u hu => ?_
  · subst ours
    rw [getElem?_modify_self, getElem?_modify_self, h.ours here]
  · rw [getElem?_modify_self] at hu
    obtain ⟨v, hv, rfl⟩ := Option.map_eq_some_iff.mp hu
    exact hf v (h.holds hv here)

end Split

end

/-! ## Whose things are -/

/-- Whose the sessions and the callables of a world are, as far as there are any. -/
structure Sides where
  session : SessionId → Option Bool
  callable : CallableId → Option Bool

namespace Sides

variable {τ τ' τ'' : Sides} {b g : Bool}

/-- Whether more things have come to be a side's. -/
structure Le (g : Bool) (τ τ' : Sides) : Prop where
  session : ∀ id b, τ.session id = some b → τ'.session id = some b
  callable : ∀ f b, τ.callable f = some b → τ'.callable f = some b
  opened : ∀ id b, τ'.session id = some b → τ.session id = some b ∨ b = g
  made : ∀ f b, τ'.callable f = some b → τ.callable f = some b ∨ b = g

theorem Le.refl (g : Bool) (τ : Sides) : τ.Le g τ :=
  ⟨fun _ _ h => h, fun _ _ h => h, fun _ _ => .inl, fun _ _ => .inl⟩

theorem Le.trans (h : τ.Le g τ') (h' : τ'.Le g τ'') : τ.Le g τ'' where
  session id b hb := h'.session id b (h.session id b hb)
  callable f b hb := h'.callable f b (h.callable f b hb)
  opened id b hb := (h'.opened id b hb).elim (h.opened id b) .inr
  made f b hb := (h'.made f b hb).elim (h.made f b) .inr

/-- Whether a value is one of a side. -/
def Owns (τ : Sides) (b : Bool) : Value → Prop
  | .reference r | .function r => τ.session r.session = some b
  | .callable f => τ.callable f = some b
  | _ => True

theorem Le.owns (h : τ.Le g τ') {v : Value} (hv : τ.Owns b v) : τ'.Owns b v := by
  cases v with
  | reference r | function r => exact h.session _ _ hv
  | callable f => exact h.callable _ _ hv
  | _ => trivial

/-- Whether the values in slots are those of a side. -/
def OwnsSlots (τ : Sides) (b : Bool) (t : Slots) : Prop :=
  ∀ (n : String) (s : Slot), t[n]? = some s → τ.Owns b s.value

theorem Le.ownsSlots (h : τ.Le g τ') {t : Slots} (ht : τ.OwnsSlots b t) : τ'.OwnsSlots b t :=
  fun n s hs => h.owns (ht n s hs)

theorem OwnsSlots.empty : τ.OwnsSlots b ∅ := fun n s hs => by simp at hs

theorem OwnsSlots.put {t : Slots} (ht : τ.OwnsSlots b t) (name : String) (slot : Option Slot)
    (hv : ∀ s, slot = some s → τ.Owns b s.value) : τ.OwnsSlots b (World.putSlot t name slot) := by
  intro n s hs
  by_cases here : n = name
  · subst here
    cases slot with
    | some slot =>
      rw [World.putSlot, Std.TreeMap.getElem?_insert_self] at hs
      exact Option.some.inj hs ▸ hv slot rfl
    | none =>
      rw [World.putSlot, getElem?_erase_self] at hs
      cases hs
  · cases slot with
    | some slot =>
      rw [World.putSlot, getElem?_insert_of_ne here] at hs
      exact ht n s hs
    | none =>
      rw [World.putSlot, getElem?_erase_of_ne here] at hs
      exact ht n s hs

theorem OwnsSlots.values {t : Slots} (ht : τ.OwnsSlots b t) :
    ∀ v ∈ t.toList.map (fun e => e.2.value), τ.Owns b v := by
  intro v hv
  obtain ⟨e, he, rfl⟩ := List.mem_map.mp hv
  exact ht e.1 e.2 (Std.TreeMap.mem_toList_iff_getElem?_eq_some.mp he)

/-- A value that a session makes is one of the side whose session it is. -/
theorem owns_of_madeBy {id : SessionId} {v : Value} (hv : v.MadeBy id) (side : τ.session id = some b) :
    τ.Owns b v := by
  cases v with
  | reference r | function r =>
    rw [Owns, show r.session = id from hv]
    exact side
  | callable f => cases hv
  | _ => trivial

theorem pinnedAs_of_owns {v : Value} (hv : τ.Owns b v) :
    v.PinnedAs fun f => τ.callable f = some b := by
  cases v with
  | callable f => exact hv
  | _ => trivial

end Sides

/-! ## What is in progress -/

/-- What there is on top of what is in progress: a program, which is the body of a callable of a side
or the one that began it all, or something else of a side. -/
inductive Head where
  | body (body : Option Bool)
  | act (b : Bool)

/-- Whether what there is on top is a side's. -/
def Head.Has (b : Bool) : Head → Prop
  | .body side => side = some b
  | .act side => side = b

section

variable (ours : String → Bool) (τ : Sides) (body : Option Bool) (b : Bool)

/-- Whether a callable is one of a side. -/
structure Callable.Of (c : Callable) : Prop where
  steps : stepsApart ours (some b) c.code.body = true
  results : itemsKept ours (some b) b c.code.results = true
  captured : τ.OwnsSlots b c.captured

/-- Whether a step of a side goes with the body that it is in: that goes on if it is another's. -/
def Step.Suits (s : Step) : Prop := body = some (!b) → s.attempt = true

/-- Whether a slot is one of a side. -/
def Loan.Of : Loan → Prop
  | .ofWorld name => ours name = b
  | .ofCallable f _ => τ.callable f = some b
  | .ofFrame _ => body = some b

/-- Whether a call in progress is one of a side. -/
structure Calling.Of (c : Calling) : Prop where
  loan : c.loan.Of ours τ body b
  replaced : ∀ v, c.replaced = some v → τ.Owns b v
  args : ∀ a ∈ c.args, τ.Owns b a.1
  lent : ∀ a ∈ c.args, ∀ name, a.2 = some name → slotKept ours body b name = true
  into : slotsKept ours body b c.into = true

/-- Whether something in progress, other than a program, is one of a side, and may be on top of what
there is. -/
inductive Activity.Of : Head → Activity → Prop
  | executing {body : Option Bool} {s id base} : s.Suits body b → τ.session id = some b →
      Of (.body body) (.step s (.executing id base))
  | calling {body : Option Bool} {s id base outs c} : s.Suits body b → τ.session id = some b →
      c.Of ours τ body b → Of (.body body) (.step s (.calling id base outs c))
  | callingHost {body : Option Bool} {s c} : s.Suits body b → c.Of ours τ body b →
      Of (.body body) (.step s (.callingHost c))
  | closing {body : Option Bool} {s id} : s.Suits body b → τ.session id = some b →
      Of (.body body) (.step s (.closing id))
  | call {body : Option Bool} {d s base f c} : s.Suits body b → τ.session d.session = some b →
      c.Of ours τ body b → Of (.body body) (.delivering d (.call s base f c))
  | assign {body : Option Bool} {d s base v} : s.Suits body b → τ.session d.session = some b →
      τ.Owns b v → Of (.body body) (.delivering d (.assign s base v))
  | results {d previous vs} : τ.session d.session = some b → (∀ v ∈ vs, τ.Owns b v) →
      Of (.act b) (.delivering d (.results previous vs))
  | serving {id previous f} : τ.session id = some b → τ.callable f = some b →
      Of (.act b) (.serving id previous f)
  | sweeping {head id} : (∀ side, head = .act side → side = b) → τ.session id = some b →
      Of head (.sweeping id)

end

section

variable {ours : String → Bool} {τ τ' : Sides} {body : Option Bool} {b g : Bool} {head : Head}
  {a : Activity}

theorem Sides.Le.callableOf (h : τ.Le g τ') {c : Callable} (hc : c.Of ours τ b) : c.Of ours τ' b :=
  ⟨hc.steps, hc.results, h.ownsSlots hc.captured⟩

theorem Sides.Le.loan (h : τ.Le g τ') {place : Loan} (hp : place.Of ours τ body b) :
    place.Of ours τ' body b := by
  cases place with
  | ofCallable f name => exact h.callable _ _ hp
  | _ => exact hp

theorem Sides.Le.calling (h : τ.Le g τ') {c : Calling} (hc : c.Of ours τ body b) :
    c.Of ours τ' body b :=
  ⟨h.loan hc.loan, fun v hv => h.owns (hc.replaced v hv), fun a ha => h.owns (hc.args a ha),
    hc.lent, hc.into⟩

theorem Sides.Le.activity (h : τ.Le g τ') (ha : a.Of ours τ b head) : a.Of ours τ' b head := by
  cases ha with
  | executing suits side => exact .executing suits (h.session _ _ side)
  | calling suits side call => exact .calling suits (h.session _ _ side) (h.calling call)
  | callingHost suits call => exact .callingHost suits (h.calling call)
  | closing suits side => exact .closing suits (h.session _ _ side)
  | call suits side call => exact .call suits (h.session _ _ side) (h.calling call)
  | assign suits side own => exact .assign suits (h.session _ _ side) (h.owns own)
  | results side own => exact .results (h.session _ _ side) fun v hv => h.owns (own v hv)
  | serving side callable => exact .serving (h.session _ _ side) (h.callable _ _ callable)
  | sweeping below side => exact .sweeping below (h.session _ _ side)

theorem Activity.Of.calling_of (ha : a.Of ours τ b head) {c : Calling} (calls : a.calling? = some c) :
    ∃ body, head = .body body ∧ c.Of ours τ body b := by
  cases ha with
  | calling suits side call | callingHost suits call | call suits side call =>
    cases calls
    exact ⟨_, rfl, call⟩
  | _ => cases calls

theorem Activity.Of.withCalling (ha : a.Of ours τ b (.body body)) {c : Calling}
    (hc : c.Of ours τ body b) : (a.withCalling c).Of ours τ b (.body body) := by
  cases ha with
  | calling suits side call => exact .calling suits side hc
  | callingHost suits call => exact .callingHost suits hc
  | call suits side call => exact .call suits side hc
  | executing suits side => exact .executing suits side
  | closing suits side => exact .closing suits side
  | assign suits side own => exact .assign suits side own
  | sweeping below side => exact .sweeping below side

end

/-! ## Our share of it -/

/-- What is in progress on our side is in progress in our share as well. -/
def shared (b : Bool) (a : Activity) (v : List Activity) : List Activity :=
  if b = true then a :: v else v

@[simp] theorem shared_true (a : Activity) (v : List Activity) : shared true a v = a :: v := rfl

@[simp] theorem shared_false (a : Activity) (v : List Activity) : shared false a v = v := rfl

/-- Whether an activity borrows a slot of the frame right below it. -/
def Activity.lends (a : Activity) (name : String) : Bool := a.borrows (.ofFrame name)

/-- Whether what is in progress is that of two sides, and what is in progress in a share of it is that
of ours, but for the steps that the programs have left.  The slots of frames are lent to nobody but the
step right above; those of a frame on top are lent as said. -/
inductive Stacks (ours : String → Bool) (τ : Sides) :
    Head → (String → Bool) → List Activity → List Activity → Prop
  | base {lent rest rest'} : stepsApart ours none rest = true →
      Stacks ours τ (.body none) lent [.program none rest] [.program none rest']
  | act {head b a lent w v} : a.Of ours τ b head → Stacks ours τ head a.lends w v →
      Stacks ours τ (.act b) lent (a :: w) (shared b a v)
  | body {b f rest rest' lent w v} : τ.callable f.callable = some b →
      stepsApart ours (some b) rest = true →
      τ.OwnsSlots b f.slots →
      (∀ (n : String) (s : Slot), f.slots[n]? = some s → s.borrows ≤ (lent n).toNat) →
      Stacks ours τ (.act b) (fun _ => false) w v →
      Stacks ours τ (.body (some b)) lent (.program (some f) rest :: w)
        (shared b (.program (some f) rest') v)

section

variable {ours : String → Bool} {τ τ' : Sides} {body : Option Bool} {b g : Bool} {head : Head}
  {lent lent' : String → Bool} {w v : List Activity} {a : Activity}

namespace Stacks

theorem le (h : Stacks ours τ head lent w v) (le : τ.Le g τ') : Stacks ours τ' head lent w v := by
  induction h with
  | base apart => exact .base apart
  | act of _ ih => exact .act (le.activity of) ih
  | body side apart slots borrows _ ih =>
    exact .body (le.callable _ _ side) apart (le.ownsSlots slots) borrows ih

theorem lend (h : Stacks ours τ head lent w v) (more : ∀ n, lent n = true → lent' n = true) :
    Stacks ours τ head lent' w v := by
  cases h with
  | base apart => exact .base apart
  | act of rest => exact .act of rest
  | body side apart slots borrows rest =>
    refine .body side apart slots (fun n s hs => Nat.le_trans (borrows n s hs) ?_) rest
    exact Bool.toNat_le_toNat fun lent => more n lent

/-- What is true of nothing but our things is true of what is in progress if it is of our share. -/
theorem any_share {p : Activity → Bool} (h : Stacks ours τ head lent w v)
    (programs : ∀ f rest, p (.program f rest) = false)
    (mine : ∀ head a, a.Of ours τ false head → p a = false) : v.any p = w.any p := by
  induction h with
  | base => simp [programs]
  | @act head b a lent w v of _ ih =>
    cases b with
    | true => simp [ih]
    | false => simp [ih, mine head a of]
  | @body b f rest rest' lent w v _ _ _ _ _ ih => cases b <;> simp [ih, programs]

/-- A value that was replaced is left to a call in progress, and to the same call in our share if it is
our side that replaced it; or there is no such call. -/
def Entrusts (b : Bool) (place : Loan) (x : Value) (R : List Activity → List Activity → Prop)
    (w v : List Activity) : Prop :=
  (World.entrust place x w = none ∧ (b = true → World.entrust place x v = none))
    ∨ ∃ w' v', World.entrust place x w = some w' ∧ (b = true → World.entrust place x v = some v')
      ∧ (b = false → v' = v) ∧ R w' v'

theorem entrust_cons {place : Loan} {x : Value} (no : a.borrows place = false) :
    World.entrust place x (a :: w) = (World.entrust place x w).map (a :: ·) := by
  rw [World.entrust, no]
  cases World.entrust place x w <;> rfl

/-- What does not borrow the slot is passed by. -/
theorem Entrusts.above {place : Loan} {x : Value} {R R' : List Activity → List Activity → Prop}
    (h : Entrusts b place x R w v) (b₁ : Bool) {a a' : Activity} (no : a.borrows place = false)
    (no' : a'.borrows place = false) (above : ∀ w' v', R w' v' → R' (a :: w') (shared b₁ a' v')) :
    Entrusts b place x R' (a :: w) (shared b₁ a' v) := by
  rw [Entrusts, entrust_cons no]
  obtain ⟨none, none'⟩ | ⟨w', v', some, some', same, rest⟩ := h
  · refine .inl ⟨by rw [none]; rfl, fun hb => ?_⟩
    cases b₁ with
    | true => rw [shared_true, entrust_cons no', none' hb]; rfl
    | false => exact none' hb
  · refine .inr ⟨_, shared b₁ a' v', by rw [some]; rfl, fun hb => ?_, fun hb => by rw [same hb],
      above w' v' rest⟩
    cases b₁ with
    | true => rw [shared_true, entrust_cons no', some' hb]; rfl
    | false => exact some' hb

theorem entrust (h : Stacks ours τ head lent w v) {place : Loan} {x : Value}
    (mine : ∀ body b', place.Of ours τ body b' → b' = b) (frame : ∀ n, place ≠ .ofFrame n)
    (own : τ.Owns b x) : Entrusts b place x (Stacks ours τ head lent) w v := by
  induction h with
  | base => exact .inl ⟨rfl, fun _ => rfl⟩
  | @act head b₁ a lent w v of rest ih =>
    cases borrows : a.borrows place with
    | false => exact ih.above b₁ borrows borrows fun w' v' rest => .act of rest
    | true =>
      obtain ⟨none, none'⟩ | ⟨w', v', some, some', same, rest⟩ := ih
      · obtain ⟨c, calls, here⟩ : ∃ c, a.calling? = some c ∧ c.loan = place := by
          rw [Activity.borrows] at borrows
          cases calls : a.calling? with
          | none => simp [calls] at borrows
          | some c => exact ⟨c, rfl, by simp [calls] at borrows; exact borrows.1⟩
        obtain ⟨body, rfl, hc⟩ := of.calling_of calls
        obtain rfl := mine body b₁ (here ▸ hc.loan)
        have left : ∀ {v}, World.entrust place x v = .none → World.entrust place x (a :: v)
            = .some (a.withCalling { c with replaced := .some x } :: v) := fun none => by
          rw [World.entrust, none, borrows, calls]
          rfl
        have of' := of.withCalling (c := { c with replaced := .some x })
          ⟨hc.loan, fun y hy => Option.some.inj hy ▸ own, hc.args, hc.lent, hc.into⟩
        refine .inr ⟨_, shared b₁ (a.withCalling { c with replaced := .some x }) v, left none,
          fun hb => ?_, fun hb => ?_, .act of' (rest.lend fun n lent => ?_)⟩
        · subst hb
          exact left (none' rfl)
        · subst hb
          rfl
        · rw [Activity.lends, Activity.borrows, calls] at lent
          simp [here, frame n] at lent
      · refine .inr ⟨a :: w', shared b₁ a v', by rw [World.entrust, some], fun hb => ?_,
          fun hb => by rw [same hb], .act of rest⟩
        cases b₁ with
        | true => rw [shared_true, World.entrust, some' hb]; rfl
        | false => exact some' hb
  | @body b₁ f rest rest' lent w v side apart slots borrows below ih =>
    have programs : ∀ rest, (Activity.program (some f) rest).borrows place = false := fun _ => rfl
    exact ih.above b₁ (programs rest) (programs rest') fun w' v' below =>
        .body side apart slots borrows below

end Stacks

end

end ScriptBridge.Host
