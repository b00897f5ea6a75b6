import Mathlib.Logic.ExistsUnique

/-!
# Axivc.Lib.Ledger

Who holds what.

Each holder holds at most one item, each item of the pool is held by exactly
one holder, and nothing outside the pool is held.  An item enters the pool in
the hands of the holder that acquires it, changes hands, and leaves the pool
when its holder releases it: `acquire`, `transfer` and `release` say that the
books stay balanced.  They are stated pointwise, for a system in which the
holders are read off a larger state.
-/

/-- `holds` balances the `pool`: every item is held, once. -/
structure Ledger {ω ρ : Type} (holds : ω → Option ρ) (pool : ρ → Prop) : Prop where
  held : ∀ r, pool r ↔ ∃ o, holds o = some r
  unique : ∀ {o o' r}, holds o = some r → holds o' = some r → o = o'

namespace Ledger

variable {ω ρ : Type} {holds holds' : ω → Option ρ} {pool pool' : ρ → Prop} {o q : ω} {r : ρ}

/-- Nobody holds anything of an empty pool. -/
theorem empty (hholds : ∀ o, holds o = none) (hpool : ∀ r, ¬ pool r) : Ledger holds pool where
  held r := ⟨fun h => absurd h (hpool r), fun ⟨o, ho⟩ => by rw [hholds] at ho; cases ho⟩
  unique h := by rw [hholds] at h; cases h

theorem mem (h : Ledger holds pool) (ho : holds o = some r) : pool r := (h.held r).mpr ⟨o, ho⟩

/-- Of two holders of one item, both are the same. -/
theorem existsUnique (h : Ledger holds pool) (hr : pool r) : ∃! o, holds o = some r := by
  obtain ⟨o, ho⟩ := (h.held r).mp hr
  exact ⟨o, ho, fun o' ho' => h.unique ho' ho⟩

/-- Nothing changes hands. -/
theorem congr (h : Ledger holds pool) (hholds : ∀ o, holds' o = holds o) (hpool : ∀ r, pool' r ↔ pool r) :
    Ledger holds' pool' where
  held r := by
    rw [hpool, h.held]
    simp only [hholds]
  unique ho ho' := by
    rw [hholds] at ho ho'
    exact h.unique ho ho'

/-- A holder with empty hands acquires an item that is not in the pool. -/
theorem acquire (h : Ledger holds pool) (hfree : ¬ pool r) (hnone : holds o = none) (hsome : holds' o = some r)
    (hrest : ∀ x, x ≠ o → holds' x = holds x) (hpool : ∀ x, pool' x ↔ x = r ∨ pool x) : Ledger holds' pool' where
  held x := by
    rw [hpool]
    constructor
    · rintro (rfl | hx)
      · exact ⟨o, hsome⟩
      · obtain ⟨p, hp⟩ := (h.held x).mp hx
        have hne : p ≠ o := fun heq => by rw [heq, hnone] at hp; cases hp
        exact ⟨p, (hrest p hne).trans hp⟩
    · rintro ⟨p, hp⟩
      by_cases hpo : p = o
      · rw [hpo, hsome] at hp
        exact .inl (Option.some.inj hp).symm
      · rw [hrest p hpo] at hp
        exact .inr (h.mem hp)
  unique {p p' x} hp hp' := by
    by_cases hpo : p = o <;> by_cases hpo' : p' = o
    · rw [hpo, hpo']
    · rw [hpo, hsome] at hp
      rw [hrest p' hpo'] at hp'
      exact absurd (Option.some.inj hp ▸ h.mem hp') hfree
    · rw [hpo', hsome] at hp'
      rw [hrest p hpo] at hp
      exact absurd (Option.some.inj hp' ▸ h.mem hp) hfree
    · rw [hrest p hpo] at hp
      rw [hrest p' hpo'] at hp'
      exact h.unique hp hp'

/-- A holder releases its item, which leaves the pool. -/
theorem release (h : Ledger holds pool) (hsome : holds o = some r) (hnone : holds' o = none)
    (hrest : ∀ x, x ≠ o → holds' x = holds x) (hpool : ∀ x, pool' x ↔ x ≠ r ∧ pool x) : Ledger holds' pool' where
  held x := by
    rw [hpool]
    constructor
    · rintro ⟨hx, hmem⟩
      obtain ⟨p, hp⟩ := (h.held x).mp hmem
      have hne : p ≠ o := fun heq => by
        rw [heq, hsome] at hp
        exact hx (Option.some.inj hp).symm
      exact ⟨p, (hrest p hne).trans hp⟩
    · rintro ⟨p, hp⟩
      have hpo : p ≠ o := fun heq => by rw [heq, hnone] at hp; cases hp
      rw [hrest p hpo] at hp
      refine ⟨fun hx => hpo (h.unique hp (hx ▸ hsome)), h.mem hp⟩
  unique {p p' x} hp hp' := by
    have hpo : p ≠ o := fun heq => by rw [heq, hnone] at hp; cases hp
    have hpo' : p' ≠ o := fun heq => by rw [heq, hnone] at hp'; cases hp'
    rw [hrest p hpo] at hp
    rw [hrest p' hpo'] at hp'
    exact h.unique hp hp'

/-- An item passes from one holder to another with empty hands. -/
theorem transfer (h : Ledger holds pool) (hfrom : holds o = some r) (hto : holds q = none)
    (hfrom' : holds' o = none) (htq : holds' q = some r) (hrest : ∀ x, x ≠ o → x ≠ q → holds' x = holds x)
    (hpool : ∀ x, pool' x ↔ pool x) : Ledger holds' pool' := by
  classical
  -- Release the item, then acquire it again.
  have hreleased : Ledger (fun x => if x = o then none else holds x) (fun x => x ≠ r ∧ pool x) :=
    h.release hfrom (if_pos rfl) (fun x hx => if_neg hx) fun _ => Iff.rfl
  have hne : q ≠ o := fun heq => by rw [heq, hfrom] at hto; cases hto
  refine hreleased.acquire (fun hr => hr.1 rfl) ?_ htq ?_ ?_
  · rw [if_neg hne]
    exact hto
  · intro x hx
    by_cases hxo : x = o
    · rw [if_pos hxo, hxo]
      exact hfrom'
    · rw [if_neg hxo]
      exact hrest x hxo hx
  · intro x
    rw [hpool]
    constructor
    · intro hx
      by_cases hxr : x = r
      · exact .inl hxr
      · exact .inr ⟨hxr, hx⟩
    · rintro (rfl | hx)
      · exact h.mem hfrom
      · exact hx.2

end Ledger
