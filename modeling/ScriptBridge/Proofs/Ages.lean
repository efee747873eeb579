import Mathlib.Data.Multiset.Filter
import ScriptBridge.Host.Run
import ScriptBridge.Proofs.Entries
import ScriptBridge.Proofs.Leads

/-!
# ScriptBridge.Proofs.Ages

Callables come and go.  A callable gets a number that none had before; what it was made from never
changes; and when it is gone, it is gone for good, and that was reported once if it is watched.
`World.Ages` says this of two worlds, a former and a later one: the births and the deaths between
them balance, and every death of a watched callable was reported.

Main facts:

* `World.Ages.trans` — the law holds over any time if it holds step by step;
* `World.Ages.modify`, `World.Ages.replace`, `World.Ages.erase`, `World.Ages.new` — all that happens
  to callables.
-/

namespace ScriptBridge.Host

/-- What is reported when a callable goes away. -/
def CallableExpr.notice? (code : CallableExpr) : Option String :=
  if code.watched then some code.name else none

/-- The callable that is reported to have gone away, by its name. -/
def Happening.dropped? : Happening → Option String
  | .dropped name => some name
  | _ => none

namespace World

variable {w w' w'' : World}

/-- Whether every callable that is there has an owner. -/
def Living (w : World) : Prop :=
  ∀ (f : CallableId) (c : Callable), w.callables[f]? = some c → 0 < c.owners

/-- Whether all callables have numbers that were given out. -/
def Fresh (w : World) : Prop := ∀ f ∈ keys w.callables, f < w.nextCallable

/-- What the callables that are there were made from. -/
def codes (w : World) : Multiset CallableExpr := (entries w.callables).map fun e => e.2.code

/-- The names of the callables that were reported to have gone away. -/
def dropped (w : World) : Multiset String :=
  ((w.events.filterMap fun e => e.what.dropped? : List String) : Multiset String)

/-- A callable is reported to have gone away. -/
theorem dropped_report (w : World) (name : String) :
    ((report (.dropped name)).run w).2.dropped = name ::ₘ w.dropped := rfl

/-- Something else is reported. -/
theorem dropped_report_other (w : World) {what : Happening} (other : what.dropped? = none) :
    ((report what).run w).2.dropped = w.dropped := by
  cases what with
  | dropped name => cases other
  | _ => rfl

/-- Whether numbers were only given out: no callable that was gone is back, none is there without an
owner, each is still made from what it was made from, and every one that has gone was reported once
if it is watched. -/
structure Ages (w w' : World) : Prop where
  issued : w.issued ≤ w'.issued
  made : w.nextCallable ≤ w'.nextCallable
  gone : ∀ f < w.nextCallable, w.callables[f]? = none → w'.callables[f]? = none
  living : w.Living → w'.Living
  code : ∀ f < w.nextCallable, ∀ c c', w.callables[f]? = some c → w'.callables[f]? = some c' →
    c'.code = c.code
  fates : w.Fresh → w'.Fresh ∧ ∃ born died : Multiset CallableExpr,
    w'.nextCallable = w.nextCallable + born.card ∧ w.codes + born = w'.codes + died
      ∧ w'.dropped = w.dropped + died.filterMap CallableExpr.notice?

namespace Ages

/-- The callables are as they were. -/
theorem of_same (issued : w.issued ≤ w'.issued) (made : w'.nextCallable = w.nextCallable)
    (callables : w'.callables = w.callables) (dropped : w'.dropped = w.dropped) : w.Ages w' where
  issued := issued
  made := made.ge
  gone := fun _ _ none => callables ▸ none
  living := fun h f c hc => h f c (callables ▸ hc)
  code := fun _ _ c c' hc hc' => by
    rw [callables, hc] at hc'
    rw [Option.some.inj hc']
  fates := fun fresh => by
    refine ⟨fun f hf => ?_, 0, 0, made, ?_, by simp [dropped]⟩
    · rw [made]
      exact fresh f (callables ▸ hf)
    · rw [codes, codes, callables]

theorem refl (w : World) : w.Ages w := .of_same (Nat.le_refl _) rfl rfl rfl

theorem trans (h : w.Ages w') (h' : w'.Ages w'') : w.Ages w'' where
  issued := Nat.le_trans h.issued h'.issued
  made := Nat.le_trans h.made h'.made
  gone := fun f hf none => h'.gone f (Nat.lt_of_lt_of_le hf h.made) (h.gone f hf none)
  living := fun living => h'.living (h.living living)
  code := fun f hf c c'' hc hc'' => by
    have hf' := Nat.lt_of_lt_of_le hf h.made
    cases hc' : w'.callables[f]? with
    | none => cases (h'.gone f hf' hc').symm.trans hc''
    | some c' => exact (h'.code f hf' c' c'' hc' hc'').trans (h.code f hf c c' hc hc')
  fates := fun fresh => by
    obtain ⟨fresh', born, died, made, codes, dropped⟩ := h.fates fresh
    obtain ⟨fresh'', born', died', made', codes', dropped'⟩ := h'.fates fresh'
    refine ⟨fresh'', born + born', died + died', ?_, ?_, ?_⟩
    · rw [made', made, Multiset.card_add, Nat.add_assoc]
    · rw [← add_assoc, codes, add_right_comm, codes', add_assoc, add_comm died']
    · rw [dropped', dropped, Multiset.filterMap_add, add_assoc]

/-- A callable changes, but not what it was made from, and has owners afterwards if it had any. -/
theorem modify (w : World) (f : CallableId) {change : Callable → Callable}
    (owned : ∀ c : Callable, 0 < c.owners → 0 < (change c).owners)
    (same : ∀ c : Callable, (change c).code = c.code) :
    w.Ages { w with callables := w.callables.modify f change } := by
  have looks : ∀ g : CallableId, (w.callables.modify f change)[g]?
      = if g = f then w.callables[g]?.map change else w.callables[g]? := by
    intro g
    split
    · rename_i here
      rw [here, getElem?_modify_self]
    · rename_i there
      exact getElem?_modify_of_ne there
  refine ⟨Nat.le_refl _, Nat.le_refl _, fun g _ none => ?_, fun living g c hc => ?_,
    fun g _ c c' hc hc' => ?_, fun fresh => ⟨fun g hg => ?_, 0, 0, rfl, ?_, by simp [dropped]⟩⟩
  · change (w.callables.modify f change)[g]? = _
    rw [looks, none]
    simp
  · change (w.callables.modify f change)[g]? = _ at hc
    rw [looks] at hc
    split at hc
    · obtain ⟨c', hc', rfl⟩ := Option.map_eq_some_iff.mp hc
      exact owned c' (living g c' hc')
    · exact living g c hc
  · change (w.callables.modify f change)[g]? = _ at hc'
    rw [looks, hc] at hc'
    split at hc'
    · exact Option.some.inj hc' ▸ same c
    · exact Option.some.inj hc' ▸ rfl
  · obtain ⟨c, hc⟩ := mem_keys.mp hg
    change (w.callables.modify f change)[g]? = _ at hc
    rw [looks] at hc
    split at hc
    · obtain ⟨c', hc', -⟩ := Option.map_eq_some_iff.mp hc
      exact fresh g (mem_keys.mpr ⟨c', hc'⟩)
    · exact fresh g (mem_keys.mpr ⟨c, hc⟩)
  · rw [add_zero, add_zero]
    cases hc : w.callables[f]? with
    | none =>
      refine congrArg (Multiset.map _) (entries_congr fun g => ?_)
      change _ = (w.callables.modify f change)[g]?
      rw [looks]
      split
      · rename_i here
        rw [here, hc]
        rfl
      · rfl
    | some c => rw [codes, codes, entries_modify change hc, entries_erase hc, Multiset.map_cons,
        Multiset.map_cons, same]

/-- A callable that is there is another one that was made from the same. -/
theorem replace {f : CallableId} {c c' : Callable} (hc : w.callables[f]? = some c)
    (owned : 0 < c'.owners) (same : c'.code = c.code) :
    w.Ages { w with callables := w.callables.insert f c' } := by
  refine ⟨Nat.le_refl _, Nat.le_refl _, fun g _ none => ?_, fun living g d hd => ?_,
    fun g _ d d' hd hd' => ?_, fun fresh => ⟨fun g hg => ?_, 0, 0, rfl, ?_, by simp [dropped]⟩⟩
  · have ne : g ≠ f := by
      rintro rfl
      cases none.symm.trans hc
    rwa [getElem?_insert_of_ne ne]
  · by_cases here : g = f
    · subst here
      rw [Std.TreeMap.getElem?_insert_self] at hd
      exact Option.some.inj hd ▸ owned
    · rw [getElem?_insert_of_ne here] at hd
      exact living g d hd
  · by_cases here : g = f
    · subst here
      rw [Std.TreeMap.getElem?_insert_self] at hd'
      rw [← Option.some.inj hd', ← Option.some.inj (hc.symm.trans hd), same]
    · rw [getElem?_insert_of_ne here, hd] at hd'
      rw [Option.some.inj hd']
  · by_cases here : g = f
    · exact here ▸ fresh f (mem_keys.mpr ⟨c, hc⟩)
    · obtain ⟨d, hd⟩ := mem_keys.mp hg
      rw [getElem?_insert_of_ne here] at hd
      exact fresh g (mem_keys.mpr ⟨d, hd⟩)
  · rw [codes, codes, entries_replace, entries_erase hc, Multiset.map_cons, Multiset.map_cons, same]

/-- A callable goes away, which is reported if it is watched. -/
theorem erase {f : CallableId} {c : Callable} (hc : w.callables[f]? = some c)
    (callables : w'.callables = w.callables.erase f) (issued : w'.issued = w.issued)
    (made : w'.nextCallable = w.nextCallable)
    (notice : w'.dropped = w.dropped + (Multiset.filterMap CallableExpr.notice? {c.code})) :
    w.Ages w' := by
  have before : ∀ {g : CallableId} {d : Callable}, w'.callables[g]? = some d →
      w.callables[g]? = some d := by
    intro g d hd
    rw [callables] at hd
    by_cases here : g = f
    · rw [here] at hd
      cases (getElem?_erase_self _ _).symm.trans hd
    · rwa [getElem?_erase_of_ne here] at hd
  refine ⟨issued.ge, made.ge, fun g _ none => ?_, fun living g d hd => living g d (before hd),
    fun g _ d d' hd hd' => ?_, fun fresh => ⟨fun g hg => ?_, 0, {c.code}, made, ?_, notice⟩⟩
  · cases hd : w'.callables[g]? with
    | none => rfl
    | some d => cases none.symm.trans (before hd)
  · rw [Option.some.inj (hd.symm.trans (before hd'))]
  · obtain ⟨d, hd⟩ := mem_keys.mp hg
    rw [made]
    exact fresh g (mem_keys.mpr ⟨d, before hd⟩)
  · rw [codes, codes, callables, entries_erase hc, Multiset.map_cons, add_zero,
      ← Multiset.singleton_add, add_comm]

/-- A new callable gets a number that none had before. -/
theorem new (w : World) {c : Callable} (owned : 0 < c.owners) :
    w.Ages { w with
      callables := w.callables.insert w.nextCallable c
      nextCallable := w.nextCallable + 1 } := by
  refine ⟨Nat.le_refl _, Nat.le_succ _, fun g hg none => ?_, fun living g d hd => ?_,
    fun g hg d d' hd hd' => ?_, fun fresh => ⟨fun g hg => ?_, {c.code}, 0, rfl, ?_, by simp [dropped]⟩⟩
  · rwa [getElem?_insert_of_ne (Nat.ne_of_lt hg)]
  · by_cases here : g = w.nextCallable
    · subst here
      rw [Std.TreeMap.getElem?_insert_self] at hd
      exact Option.some.inj hd ▸ owned
    · rw [getElem?_insert_of_ne here] at hd
      exact living g d hd
  · rw [getElem?_insert_of_ne (Nat.ne_of_lt hg), hd] at hd'
    rw [Option.some.inj hd']
  · by_cases here : g = w.nextCallable
    · exact here ▸ Nat.lt_succ_self _
    · obtain ⟨d, hd⟩ := mem_keys.mp hg
      rw [getElem?_insert_of_ne here] at hd
      exact Nat.lt_succ_of_lt (fresh g (mem_keys.mpr ⟨d, hd⟩))
  · have absent : w.callables[w.nextCallable]? = none := by
      cases hd : w.callables[w.nextCallable]? with
      | none => rfl
      | some d => exact absurd (fresh _ (mem_keys.mpr ⟨d, hd⟩)) (Nat.lt_irrefl _)
    rw [codes, codes, entries_insert absent, Multiset.map_cons, ← Multiset.singleton_add, add_zero,
      add_comm]

end Ages

end World

end ScriptBridge.Host
