import Axivc.Lib.Monitor

/-!
# Axivc.Lib.Turns

Calls that take turns at one record, and the history they write together.

As in `Axivc.Lib.Monitor` every call works on the record under one lock.
Here a call also logs how it ended, the record has a *history* that only the
holder of the lock adds to, and what holds of the record does so at any time,
between two operations of the holder too.

`Turns` says where the history of a record is found and what the log of a
call knows of it: where the call's turn began and what it added.  That the
turns of different calls do not overlap, and that together they make up the
history, is proved here once (`Turns.Inv`).  A `Terms` adds what the record is
used for; `Turns.safe_locked` turns a proof from within the lock into one for
the machine, and `Turns.good` says what then holds in every run.
-/

namespace Rely

variable {I : Iface} {S G E Call Ret α : Type}

namespace Monitor

/-- Any number of calls, each of which logs how it ended. -/
def calls (M : Monitor I S G) (body : Call → Prog I Ret) (fresh : Call → G) (ends : Ret → G → G) :
    Machine Nat I (Guarded S G) Call Ret where
  body _ call _ := body call
  exec := M.Exec
  start i call s t := s.log i = none ∧ t = { s with log := Function.update s.log i (some (fresh call)) }
  finish i a s t := t = { s with log := Function.update s.log i ((s.log i).map (ends a)) }
  env _ _ := False

/-- The same record in a world that answers only as `ok` says. -/
def restrict (M : Monitor I S G) (ok : (o : I.Op) → S → I.Res o → Prop) : Monitor I S G :=
  { M with allows := fun o s r => M.allows o s r ∧ ok o s r }

/-- A step in one world is a step in another that allows its answer too. -/
theorem calls_step {M : Monitor I S G} {body : Call → Prog I Ret} {fresh : Call → G} {ends : Ret → G → G}
    {ok ok' : (o : I.Op) → S → I.Res o → Prop} {c c' : Config Nat I (Guarded S G) Ret}
    (h : ((M.restrict ok).calls body fresh ends).Step c c')
    (hok : ∀ i o k r, c.thread i = some (.act o k) → M.allows o c.shared.record r → ok o c.shared.record r →
      ok' o c.shared.record r) :
    ((M.restrict ok').calls body fresh ends).Step c c' := by
  cases h with
  | env he => exact he.elim
  | start i call hi hst => exact .start i call hi hst
  | act i r hi he =>
      obtain ⟨⟨hallowed, hr⟩, hfree, heq⟩ := he
      exact .act i r hi ⟨⟨hallowed, hok i _ _ r hi hallowed hr⟩, hfree, heq⟩
  | finish i hi hf => exact .finish i hi hf

/-- A step in a narrower world is a step. -/
theorem calls_loosen {M : Monitor I S G} {body : Call → Prog I Ret} {fresh : Call → G} {ends : Ret → G → G}
    {ok : (o : I.Op) → S → I.Res o → Prop} {c c' : Config Nat I (Guarded S G) Ret}
    (h : ((M.restrict ok).calls body fresh ends).Step c c') : (M.calls body fresh ends).Step c c' := by
  cases h with
  | env he => exact he.elim
  | start i call hi hst => exact .start i call hi hst
  | act i r hi he => exact .act i r hi ⟨he.allowed.1, he.free, he.eq⟩
  | finish i hi hf => exact .finish i hi hf

/-- What a step does to the record. -/
theorem calls_record {M : Monitor I S G} {body : Call → Prog I Ret} {fresh : Call → G} {ends : Ret → G → G}
    {c c' : Config Nat I (Guarded S G) Ret} (h : (M.calls body fresh ends).Step c c') :
    c'.shared.record = c.shared.record ∨ ∃ o r, M.allows o c.shared.record r ∧
      c'.shared.record = M.act o r c.shared.record := by
  cases h with
  | env he => exact he.elim
  | start i call hi hst =>
      obtain ⟨-, rfl⟩ := hst
      exact .inl rfl
  | act i r hi he =>
      obtain ⟨hallowed, -, rfl⟩ := he
      exact .inr ⟨_, r, hallowed, rfl⟩
  | finish i hi hf =>
      obtain rfl := hf
      exact .inl rfl

end Monitor

/-- The history of a record, and what the log of a call knows of it. -/
structure Turns (M : Monitor I S G) (fresh : Call → G) (ends : Ret → G → G) (E : Type) where
  hist : S → List E
  /-- the length of the history when the call obtained the lock -/
  start : G → Option Nat
  /-- what the call has added -/
  own : G → List E
  act : ∀ o r s g, ∃ new, hist (M.act o r s) = hist s ++ new ∧ own (M.note o r s g) = own g ++ new
  stays : ∀ o r s g, M.takes o r = false → start (M.note o r s g) = start g
  begins : ∀ o r s g, M.takes o r = true → hist (M.act o r s) = hist s ∧
    start (M.note o r s g) = some (hist s).length
  fresh_start : ∀ call, start (fresh call) = none ∧ own (fresh call) = []
  ends_keeps : ∀ a g, start (ends a g) = start g ∧ own (ends a g) = own g

namespace Turns

variable {M : Monitor I S G} {fresh : Call → G} {ends : Ret → G → G} (T : Turns M fresh ends E)

/-- The log `g` has the turn from `p` on. -/
def At (g : G) (p : Nat) : Prop := T.start g = some p

/-- How the turns lie in the history. -/
structure Inv (s : Guarded S G) : Prop where
  /-- a call that has not obtained the lock has added nothing -/
  outside : ∀ i g, s.log i = some g → T.start g = none → T.own g = []
  /-- what a call added is found where its turn began -/
  placed : ∀ i g p, s.log i = some g → T.At g p → p ≤ (T.hist s.record).length ∧
    T.own g <+: (T.hist s.record).drop p
  /-- the turn of the holder is the latest, and goes on at the end -/
  latest : ∀ i, s.owner = some i → ∃ g p, s.log i = some g ∧ T.At g p ∧
    p + (T.own g).length = (T.hist s.record).length ∧
    ∀ j g' p', j ≠ i → s.log j = some g' → T.At g' p' → p' + (T.own g').length ≤ p
  /-- turns do not overlap -/
  apart : ∀ i j g g' p p', i ≠ j → s.log i = some g → s.log j = some g' → T.At g p → T.At g' p' →
    p + (T.own g).length ≤ p' ∨ p' + (T.own g').length ≤ p
  /-- everything was added in some turn -/
  covered : ∀ k, k < (T.hist s.record).length → ∃ i g p, s.log i = some g ∧ T.At g p ∧ p ≤ k ∧
    k < p + (T.own g).length

theorem inv_initial {record : S} (h : T.hist record = []) : T.Inv (Monitor.initial record) where
  outside _ _ h := by cases h
  placed _ _ _ h := by cases h
  latest _ h := by cases h
  apart _ _ _ _ _ _ _ h := by cases h
  covered k hk := by
    have hz : (T.hist (Monitor.initial (G := G) record).record).length = 0 := by
      change (T.hist record).length = 0
      rw [h]
      rfl
    omega

section Steps

variable {T} {s t : Guarded S G} {i : Nat} {o : I.Op} {r : I.Res o} {g : G}

/-- Another call's log after a step of call `i`, and its own. -/
theorem log_cases {x : Option G} {j : Nat} {g' : G} (h : Function.update s.log i x j = some g') :
    j = i ∧ x = some g' ∨ j ≠ i ∧ s.log j = some g' := by
  by_cases hj : j = i
  · subst hj
    rw [Function.update_self] at h
    exact .inl ⟨rfl, h⟩
  · rw [Function.update_of_ne hj] at h
    exact .inr ⟨hj, h⟩

/-- A log that keeps its turn. -/
theorem Inv.relog (h : T.Inv s) (hlog : s.log i = some g) {g' : G} (hstart : T.start g' = T.start g)
    (hown : T.own g' = T.own g) : T.Inv { s with log := Function.update s.log i (some g') } := by
  -- Every log now has a log before it with the same turn.
  have hold (j : Nat) (g₁ : G) (h₁ : Function.update s.log i (some g') j = some g₁) :
      ∃ g₀, s.log j = some g₀ ∧ T.start g₁ = T.start g₀ ∧ T.own g₁ = T.own g₀ := by
    rcases log_cases h₁ with ⟨rfl, heq⟩ | ⟨-, heq⟩
    · cases heq
      exact ⟨g, hlog, hstart, hown⟩
    · exact ⟨g₁, heq, rfl, rfl⟩
  have hnew (j : Nat) (g₀ : G) (h₀ : s.log j = some g₀) :
      ∃ g₁, Function.update s.log i (some g') j = some g₁ ∧ T.start g₁ = T.start g₀ ∧ T.own g₁ = T.own g₀ := by
    by_cases hj : j = i
    · subst hj
      rw [hlog] at h₀
      cases h₀
      exact ⟨g', Function.update_self .., hstart, hown⟩
    · exact ⟨g₀, (Function.update_of_ne hj ..).trans h₀, rfl, rfl⟩
  refine ⟨fun j g₁ h₁ hs => ?_, fun j g₁ p h₁ hp => ?_, fun j ho => ?_, fun j k g₁ g₂ p p' hjk h₁ h₂ hp hp' => ?_,
    fun k hk => ?_⟩
  · obtain ⟨g₀, h₀, hs₀, ho₀⟩ := hold j g₁ h₁
    rw [ho₀]
    exact h.outside j g₀ h₀ (hs₀ ▸ hs)
  · obtain ⟨g₀, h₀, hs₀, ho₀⟩ := hold j g₁ h₁
    rw [ho₀]
    exact h.placed j g₀ p h₀ (hs₀.symm.trans hp)
  · obtain ⟨g₀, p, h₀, hp, hlen, hothers⟩ := h.latest j ho
    obtain ⟨g₁, h₁, hs₁, ho₁⟩ := hnew j g₀ h₀
    refine ⟨g₁, p, h₁, hs₁.trans hp, by rw [ho₁]; exact hlen, fun k g₂ p' hk h₂ hp' => ?_⟩
    obtain ⟨g₃, h₃, hs₃, ho₃⟩ := hold k g₂ h₂
    rw [ho₃]
    exact hothers k g₃ p' hk h₃ (hs₃.symm.trans hp')
  · obtain ⟨g₃, h₃, hs₃, ho₃⟩ := hold j g₁ h₁
    obtain ⟨g₄, h₄, hs₄, ho₄⟩ := hold k g₂ h₂
    rw [ho₃, ho₄]
    exact h.apart j k g₃ g₄ p p' hjk h₃ h₄ (hs₃.symm.trans hp) (hs₄.symm.trans hp')
  · obtain ⟨j, g₀, p, h₀, hp, hle, hlt⟩ := h.covered k hk
    obtain ⟨g₁, h₁, hs₁, ho₁⟩ := hnew j g₀ h₀
    exact ⟨j, g₁, p, h₁, hs₁.trans hp, hle, by rw [ho₁]; exact hlt⟩

/-- A call begins. -/
theorem Inv.enter (h : T.Inv s) (hlog : s.log i = none) (hstart : T.start g = none) (hown : T.own g = []) :
    T.Inv { s with log := Function.update s.log i (some g) } := by
  have hold (j : Nat) (g₁ : G) (h₁ : Function.update s.log i (some g) j = some g₁) :
      g₁ = g ∨ s.log j = some g₁ := by
    rcases log_cases h₁ with ⟨-, heq⟩ | ⟨-, heq⟩
    · exact .inl (Option.some.inj heq).symm
    · exact .inr heq
  have hturn {j : Nat} {g₁ : G} {p : Nat} (h₁ : Function.update s.log i (some g) j = some g₁) (hp : T.At g₁ p) :
      s.log j = some g₁ := by
    refine (hold j g₁ h₁).resolve_left ?_
    rintro rfl
    rw [At, hstart] at hp
    cases hp
  have hnew {j : Nat} {g₀ : G} (h₀ : s.log j = some g₀) : Function.update s.log i (some g) j = some g₀ := by
    rw [Function.update_of_ne, h₀]
    rintro rfl
    rw [hlog] at h₀
    cases h₀
  refine ⟨fun j g₁ h₁ hs => ?_, fun j g₁ p h₁ hp => h.placed j g₁ p (hturn h₁ hp) hp, fun j ho => ?_,
    fun j k g₁ g₂ p p' hjk h₁ h₂ hp hp' => h.apart j k g₁ g₂ p p' hjk (hturn h₁ hp) (hturn h₂ hp') hp hp',
    fun k hk => ?_⟩
  · rcases hold j g₁ h₁ with rfl | h₀
    · exact hown
    · exact h.outside j g₁ h₀ hs
  · obtain ⟨g₀, p, h₀, hp, hlen, hothers⟩ := h.latest j ho
    exact ⟨g₀, p, hnew h₀, hp, hlen, fun k g₂ p' hk h₂ hp' => hothers k g₂ p' hk (hturn h₂ hp') hp'⟩
  · obtain ⟨j, g₀, p, h₀, hrest⟩ := h.covered k hk
    exact ⟨j, g₀, p, hnew h₀, hrest⟩

/-- Giving the lock back. -/
theorem Inv.release (h : T.Inv s) : T.Inv { s with owner := none } :=
  ⟨h.outside, h.placed, by rintro _ ⟨⟩, h.apart, h.covered⟩

/-- A call obtains the lock: its turn begins at the end of the history. -/
theorem Inv.lock (h : T.Inv s) (hlog : s.log i = some g) (hstart : T.start g = none) {g' : G}
    (hturn : T.At g' (T.hist s.record).length) (hown : T.own g' = T.own g) :
    T.Inv { s with owner := some i, log := Function.update s.log i (some g') } := by
  have hnil : T.own g' = [] := hown.trans (h.outside i g hlog hstart)
  -- The turns of the others are over.
  have hothers (j : Nat) (g₁ : G) (p : Nat) (hj : j ≠ i) (h₁ : Function.update s.log i (some g') j = some g₁)
      (hp : T.At g₁ p) : s.log j = some g₁ ∧ p + (T.own g₁).length ≤ (T.hist s.record).length := by
    rw [Function.update_of_ne hj] at h₁
    obtain ⟨hle, hpre⟩ := h.placed j g₁ p h₁ hp
    have hlen := hpre.length_le
    rw [List.length_drop] at hlen
    exact ⟨h₁, by omega⟩
  have hself {g₁ : G} {p : Nat} (h₁ : Function.update s.log i (some g') i = some g₁) (hp : T.At g₁ p) :
      T.own g₁ = [] ∧ p = (T.hist s.record).length := by
    rw [Function.update_self] at h₁
    cases h₁
    exact ⟨hnil, (Option.some.inj (hturn.symm.trans hp)).symm⟩
  refine ⟨fun j g₁ h₁ hs => ?_, fun j g₁ p h₁ hp => ?_, fun j ho => ?_, fun j k g₁ g₂ p p' hjk h₁ h₂ hp hp' => ?_,
    fun k hk => ?_⟩
  · rcases log_cases h₁ with ⟨-, heq⟩ | ⟨-, heq⟩
    · cases heq
      exact hnil
    · exact h.outside j g₁ heq hs
  · by_cases hj : j = i
    · subst hj
      obtain ⟨hempty, rfl⟩ := hself h₁ hp
      rw [hempty]
      exact ⟨Nat.le_refl _, List.nil_prefix⟩
    · exact h.placed j g₁ p (hothers j g₁ p hj h₁ hp).1 hp
  · obtain rfl : i = j := Option.some.inj ho
    refine ⟨g', _, Function.update_self .., hturn, by rw [hnil]; rfl, fun k g₂ p' hk h₂ hp' => ?_⟩
    exact (hothers k g₂ p' hk h₂ hp').2
  · by_cases hj : j = i
    · subst hj
      obtain ⟨-, rfl⟩ := hself h₁ hp
      exact .inr (hothers k g₂ p' (Ne.symm hjk) h₂ hp').2
    · by_cases hk : k = i
      · subst hk
        obtain ⟨-, rfl⟩ := hself h₂ hp'
        exact .inl (hothers j g₁ p hj h₁ hp).2
      · exact h.apart j k g₁ g₂ p p' hjk (hothers j g₁ p hj h₁ hp).1 (hothers k g₂ p' hk h₂ hp').1 hp hp'
  · obtain ⟨j, g₀, p, h₀, hp, hle, hlt⟩ := h.covered k hk
    have hj : j ≠ i := by
      rintro rfl
      rw [hlog] at h₀
      cases h₀
      rw [At, hstart] at hp
      cases hp
    exact ⟨j, g₀, p, (Function.update_of_ne hj ..).trans h₀, hp, hle, hlt⟩

/-- The holder of the lock adds `new`. -/
theorem Inv.extend (h : T.Inv s) (hown : s.owner = some i) (hlog : s.log i = some g) {g' : G} {record : S}
    {new : List E} (hhist : T.hist record = T.hist s.record ++ new) (hnew : T.own g' = T.own g ++ new)
    (hstart : T.start g' = T.start g) :
    T.Inv { s with record := record, log := Function.update s.log i (some g') } := by
  obtain ⟨g₀, p, h₀, hp, hlen, hothers⟩ := h.latest i hown
  obtain rfl : g = g₀ := Option.some.inj (hlog.symm.trans h₀)
  have hlength : (T.hist record).length = (T.hist s.record).length + new.length := by
    rw [hhist, List.length_append]
  have hlength' : (T.own g').length = (T.own g).length + new.length := by rw [hnew, List.length_append]
  have hself {g₁ : G} {q : Nat} (h₁ : Function.update s.log i (some g') i = some g₁) (hq : T.At g₁ q) :
      g₁ = g' ∧ q = p := by
    rw [Function.update_self] at h₁
    cases h₁
    exact ⟨rfl, Option.some.inj (hq.symm.trans (hstart.trans hp))⟩
  have hother {j : Nat} {g₁ : G} (hj : j ≠ i) (h₁ : Function.update s.log i (some g') j = some g₁) :
      s.log j = some g₁ := by rwa [Function.update_of_ne hj] at h₁
  refine ⟨fun j g₁ h₁ hs => ?_, fun j g₁ q h₁ hq => ?_, fun j ho => ?_, fun j k g₁ g₂ q q' hjk h₁ h₂ hq hq' => ?_,
    fun k hk => ?_⟩
  · rcases log_cases h₁ with ⟨-, heq⟩ | ⟨-, heq⟩
    · cases heq
      rw [hstart, hp] at hs
      cases hs
    · exact h.outside j g₁ heq hs
  · change q ≤ (T.hist record).length ∧ T.own g₁ <+: (T.hist record).drop q
    by_cases hj : j = i
    · subst hj
      obtain ⟨rfl, rfl⟩ := hself h₁ hq
      obtain ⟨hle, hpre⟩ := h.placed j g q hlog hp
      refine ⟨by omega, ?_⟩
      have hall : T.own g = (T.hist s.record).drop q :=
        hpre.eq_of_length (by rw [List.length_drop]; omega)
      exact ⟨[], by rw [List.append_nil, hnew, hhist, List.drop_append_of_le_length hle, hall]⟩
    · obtain ⟨hle, hpre⟩ := h.placed j g₁ q (hother hj h₁) hq
      refine ⟨by omega, ?_⟩
      rw [hhist, List.drop_append_of_le_length hle]
      exact hpre.trans (List.prefix_append _ _)
  · obtain rfl : i = j := Option.some.inj (hown.symm.trans ho)
    refine ⟨g', p, Function.update_self .., hstart.trans hp, ?_, fun k g₂ p' hk h₂ hp' => ?_⟩
    · change p + (T.own g').length = (T.hist record).length
      omega
    · exact hothers k g₂ p' hk (hother hk h₂) hp'
  · by_cases hj : j = i
    · subst hj
      obtain ⟨rfl, rfl⟩ := hself h₁ hq
      exact .inr (hothers k g₂ q' (Ne.symm hjk) (hother (Ne.symm hjk) h₂) hq')
    · by_cases hk : k = i
      · subst hk
        obtain ⟨rfl, rfl⟩ := hself h₂ hq'
        exact .inl (hothers j g₁ q hj (hother hj h₁) hq)
      · exact h.apart j k g₁ g₂ q q' hjk (hother hj h₁) (hother hk h₂) hq hq'
  · change k < (T.hist record).length at hk
    by_cases hlt : k < (T.hist s.record).length
    · obtain ⟨j, g₁, q, h₁, hq, hle, hk'⟩ := h.covered k hlt
      by_cases hj : j = i
      · subst hj
        obtain rfl : g = g₁ := Option.some.inj (hlog.symm.trans h₁)
        exact ⟨j, g', q, Function.update_self .., hstart.trans hq, hle, by omega⟩
      · exact ⟨j, g₁, q, (Function.update_of_ne hj ..).trans h₁, hq, hle, hk'⟩
    · exact ⟨i, g', p, Function.update_self .., hstart.trans hp, by omega, by omega⟩

end Steps

end Turns

/-- What a record under a lock is used for. -/
structure Terms (I : Iface) (S G : Type) where
  /-- holds of the record while the lock is free -/
  free : S → Prop
  /-- holds of the record and of the log of the call that holds the lock -/
  held : S → G → Prop
  /-- holds of the record and of the log of every call -/
  kept : S → G → Prop
  /-- what an operation of the holder needs -/
  needs : I.Op → S → G → Prop
  /-- how the record may change -/
  grows : S → S → Prop
  grows_refl : ∀ s, grows s s
  grows_trans : ∀ {s t u}, grows s t → grows t u → grows s u
  stable : ∀ {s t g}, kept s g → grows s t → kept t g

namespace Turns

open Monitor (Kept)

variable {M : Monitor I S G} {fresh : Call → G} {ends : Ret → G → G} (T : Turns M fresh ends E) (C : Terms I S G)
  (body : Call → Prog I Ret)

/-- The invariant of the machine. -/
structure Agrees (s : Guarded S G) : Prop where
  turns : T.Inv s
  free : s.owner = none → C.free s.record
  held : ∀ i g, s.owner = some i → s.log i = some g → C.held s.record g
  kept : ∀ i g, s.log i = some g → C.kept s.record g

/-- The outline of the calls: an operation is one of the holder of the lock, or
one that leaves the record alone. -/
def outline : Machine.Outline (M.calls body fresh ends) where
  inv := T.Agrees C
  pre i o s := (s.owner = some i ∧ ∀ g, s.log i = some g → C.needs o s.record g) ∨
    ∀ r h, M.act o r h = h
  rely i s t := Kept i s t ∧ C.grows s.record t.record
  guar i s t := (∀ j, j ≠ i → Kept j s t) ∧ C.grows s.record t.record
  post i a s := s.owner ≠ some i ∧ ∃ g, s.log i = some g ∧ C.kept s.record (ends a g)
  idle i s := s.owner ≠ some i
  rely_refl i s := ⟨.refl i s, C.grows_refl _⟩
  rely_trans _ {_ _ _} h h' := ⟨h.1.trans h'.1, C.grows_trans h.2 h'.2⟩
  guar_rely hij _ h := ⟨h.1 _ (Ne.symm hij), h.2⟩
  env_rely _ h := h.elim
  idle_stable h hr _ := fun ho => h (hr.1.owner.mp ho)
  finish_ok {i a s t} hi hpost hf := by
    obtain ⟨hfree, g, hlog, hkept⟩ := hpost
    obtain rfl : t = { s with log := Function.update s.log i (some (ends a g)) } := by
      rw [show t = _ from hf, hlog]
      rfl
    have hkeeps := T.ends_keeps a g
    refine ⟨⟨hi.turns.relog hlog hkeeps.1 hkeeps.2, hi.free, fun j g' ho hj => ?_, fun j g' hj => ?_⟩,
      ⟨fun j hj => ⟨Function.update_of_ne hj .., Iff.rfl, fun _ => rfl⟩, C.grows_refl _⟩, hfree⟩
    · rcases log_cases hj with ⟨rfl, -⟩ | ⟨-, hj⟩
      · exact absurd ho hfree
      · exact hi.held j g' ho hj
    · rcases log_cases hj with ⟨-, heq⟩ | ⟨-, hj⟩
      · cases heq
        exact hkept
      · exact hi.kept j g' hj

/-- The view from within the lock: as in a `Monitor`, but what the record is
used for holds at any time. -/
def inside (_T : Turns M fresh ends E) : View I (S × G) :=
  { M.inside fun _ _ => True with
    inv := fun s => C.held s.1 s.2 ∧ C.kept s.1 s.2
    pre := fun o s => M.gives o = false ∧ C.needs o s.1 s.2
    guar := fun s t => C.grows s.1 t.1 }

variable {T C body} {s t : Guarded S G} {i : Nat} {g : G}

/-! ### rules from within the lock -/

section Inside

variable {record : S} {o : I.Op} {k : I.Res o → Prog I α} {post : α → S × G → Prop}

theorem inside_ret {a : α} (h : C.held record g → C.kept record g → post a (record, g)) :
    (T.inside C).Safe post (.ret a) (record, g) := by
  rintro _ rfl ⟨hheld, hkept⟩
  exact h hheld hkept

theorem inside_act (hgives : M.gives o = false) (hneeds : C.needs o record g)
    (hk : C.held record g → C.kept record g → ∀ r, M.allows o record r →
      (C.held (M.act o r record) (M.note o r record g) ∧ C.kept (M.act o r record) (M.note o r record g)) ∧
      C.grows record (M.act o r record) ∧
      (T.inside C).Safe post (k r) (M.act o r record, M.note o r record g)) :
    (T.inside C).Safe post (.act o k) (record, g) := by
  rintro _ rfl ⟨hheld, hkept⟩
  refine ⟨⟨hgives, hneeds⟩, ?_⟩
  rintro r _ ⟨hallowed, -, rfl⟩
  exact hk hheld hkept r hallowed

variable (M C) in
/-- Operations that change nothing. -/
structure Quiet (o : I.Op) : Prop where
  gives : M.gives o = false
  needs : ∀ s g, C.needs o s g
  act : ∀ r s, M.act o r s = s
  note : ∀ r s g, M.note o r s g = g

theorem inside_quiet (ho : Quiet M C o)
    (hk : ∀ r, M.allows o record r → (T.inside C).Safe post (k r) (record, g)) :
    (T.inside C).Safe post (.act o k) (record, g) := by
  refine inside_act ho.gives (ho.needs _ _) fun hheld hkept r hallowed => ?_
  rw [ho.act, ho.note]
  exact ⟨⟨hheld, hkept⟩, C.grows_refl _, hk r hallowed⟩

/-- A part of a program that changes nothing. -/
theorem inside_each {β : Type} {p : Prog I β} {f : β → Prog I α} (hp : p.Each (Quiet M C))
    (hf : ∀ b, (T.inside C).Safe post (f b) (record, g)) : (T.inside C).Safe post (p >>= f) (record, g) := by
  induction p with
  | ret b => exact hf b
  | act o c ih => exact inside_quiet hp.1 fun r _ => ih r (hp.2 r)
  | spin => exact fun _ _ _ => trivial

end Inside

/-- An operation of the holder, as it looks from within the lock. -/
theorem Agrees.act (hi : T.Agrees C s) {o : I.Op} {r : I.Res o} (hown : s.owner = some i) (hlog : s.log i = some g)
    (hgives : M.gives o = false) (he : M.Exec i o s r t)
    (hinv : C.held (M.act o r s.record) (M.note o r s.record g) ∧ C.kept (M.act o r s.record) (M.note o r s.record g))
    (hgrows : C.grows s.record (M.act o r s.record)) :
    T.Agrees C t ∧ t.owner = some i ∧ t.log i = some (M.note o r s.record g) := by
  have htakes : M.takes o r = false := by
    by_contra htakes
    have hfree := he.free (by simpa using htakes)
    rw [hown] at hfree
    cases hfree
  have howner : t.owner = some i := by
    rw [he.eq, Monitor.after, htakes, hgives]
    exact hown
  obtain rfl : t = { s with
      record := M.act o r s.record
      log := Function.update s.log i (some (M.note o r s.record g)) } := by
    rw [he.eq, Monitor.after, htakes, hgives, hlog]
    rfl
  obtain ⟨new, hhist, hnew⟩ := T.act o r s.record g
  refine ⟨⟨hi.turns.extend hown hlog hhist hnew (T.stays o r s.record g htakes), fun hnone => ?_,
    fun j g' ho hj => ?_, fun j g' hj => ?_⟩, howner, Function.update_self ..⟩
  · rw [howner] at hnone
    cases hnone
  · obtain rfl : i = j := Option.some.inj (howner.symm.trans ho)
    rcases log_cases hj with ⟨-, heq⟩ | ⟨hne, -⟩
    · cases heq
      exact hinv.1
    · exact absurd rfl hne
  · rcases log_cases hj with ⟨-, heq⟩ | ⟨-, hj⟩
    · cases heq
      exact hinv.2
    · exact C.stable (hi.kept j g' hj) hgrows

/-- **Within the lock**: what holds when nothing interferes holds in the
machine. -/
theorem safe_inside {post : α → S × G → Prop} {p : Prog I α} (hown : s.owner = some i) (hlog : s.log i = some g)
    (h : (T.inside C).Safe post p (s.record, g)) :
    ((T.outline C body).view i).Safe
      (fun a t => t.owner = some i ∧ ∃ g, t.log i = some g ∧ post a (t.record, g)) p s := by
  induction p generalizing s g with
  | ret a =>
      rintro t ⟨ht, -⟩ hi
      have hown' := ht.owner.mpr hown
      have hlog' := ht.log.trans hlog
      have hinv := And.intro (hi.held i g hown' hlog') (hi.kept i g hlog')
      rw [ht.record hown] at hinv
      have hpost := h _ rfl hinv
      rw [← ht.record hown] at hpost
      exact ⟨hown', g, hlog', hpost⟩
  | act o k ih =>
      rintro t ⟨ht, -⟩ hi
      have hown' := ht.owner.mpr hown
      have hlog' := ht.log.trans hlog
      have hinv := And.intro (hi.held i g hown' hlog') (hi.kept i g hlog')
      rw [← ht.record hown] at h
      obtain ⟨⟨hgives, hneeds⟩, hk⟩ := h _ rfl hinv
      refine ⟨.inl ⟨hown', fun g' hg' => ?_⟩, fun r u hu => ?_⟩
      · obtain rfl : g = g' := Option.some.inj (hlog'.symm.trans hg')
        exact hneeds
      · have htakes : M.takes o r = false := by
          by_contra htakes
          have hfree := hu.free (by simpa using htakes)
          rw [hown'] at hfree
          cases hfree
        obtain ⟨hinv', hgrows, hsafe⟩ := hk r _ ⟨hu.allowed, htakes, rfl⟩
        obtain ⟨hagrees, howner, hlog_u⟩ := Agrees.act hi hown' hlog' hgives hu hinv' hgrows
        have hrec : u.record = M.act o r t.record := by rw [hu.eq]; rfl
        refine ⟨hagrees, ⟨hu.kept (.inl hown'), by rw [hrec]; exact hgrows⟩, ih r howner hlog_u ?_⟩
        rw [hrec]
        exact hsafe
  | spin => exact fun _ _ _ => trivial

/-- **A call** of the usual form: it obtains the lock or returns at once, and
with the lock it does its work, gives the lock back and returns. -/
theorem safe_locked {lock unlock : I.Op} {k : I.Res lock → Prog I Ret} (hown : s.owner ≠ some i)
    (hlog : s.log i = some g) (hstart : T.start g = none)
    (hlock : M.gives lock = false ∧ ∀ r h, M.act lock r h = h)
    (hunlock : M.gives unlock = true ∧ (∀ r, M.takes unlock r = false) ∧ ∀ r h, M.act unlock r h = h)
    (hno : ∀ r h, M.allows lock h r → M.takes lock r = false → C.kept h g → ∃ a, k r = .ret a ∧
      C.kept h (M.note lock r h g) ∧ C.kept h (ends a (M.note lock r h g)))
    (hyes : ∀ r h, M.takes lock r = true → C.free h → C.kept h g →
      C.held h (M.note lock r h g) ∧ C.kept h (M.note lock r h g) ∧
      ∃ inner : Prog I Ret, k r = (inner >>= fun a => .act unlock fun _ => .ret a) ∧
        (T.inside C).Safe (fun a t => C.free t.1 ∧ C.needs unlock t.1 t.2 ∧
          ∀ r, C.kept t.1 (M.note unlock r t.1 t.2) ∧ C.kept t.1 (ends a (M.note unlock r t.1 t.2))) inner
          (h, M.note lock r h g)) :
    ((T.outline C body).view i).Safe ((T.outline C body).post i) (.act lock k) s := by
  rintro t ⟨ht, -⟩ hi
  have hown' : t.owner ≠ some i := fun h => hown (ht.owner.mp h)
  have hlog' := ht.log.trans hlog
  refine ⟨.inr hlock.2, fun r u hu => ?_⟩
  have hkept := hu.kept (.inr ⟨hlock.1, hlock.2 r t.record⟩)
  have hrec : u.record = t.record := by
    rw [hu.eq]
    exact hlock.2 r t.record
  have hgrows : C.grows t.record u.record := by
    rw [hrec]
    exact C.grows_refl _
  have hlog_u := hu.log_self hlog'
  obtain ⟨new, hhist, hnew⟩ := T.act lock r t.record g
  have hown_eq : T.own (M.note lock r t.record g) = T.own g := by
    rw [hlock.2, List.self_eq_append_right] at hhist
    rw [hnew, hhist, List.append_nil]
  cases htakes : M.takes lock r with
  | false =>
      obtain ⟨a, hka, hnote, hq⟩ := hno r _ hu.allowed htakes (hi.kept i g hlog')
      obtain rfl : u = { t with log := Function.update t.log i (some (M.note lock r t.record g)) } := by
        rw [hu.eq, Monitor.after, htakes, hlock.1, hlock.2, hlog']
        rfl
      refine ⟨⟨hi.turns.relog hlog' (T.stays _ _ _ _ htakes) hown_eq, hi.free, fun j g' ho hj => ?_,
        fun j g' hj => ?_⟩, ⟨hkept, hgrows⟩, ?_⟩
      · rcases log_cases hj with ⟨rfl, -⟩ | ⟨-, hj⟩
        · exact absurd ho hown'
        · exact hi.held j g' ho hj
      · rcases log_cases hj with ⟨-, heq⟩ | ⟨-, hj⟩
        · cases heq
          exact hnote
        · exact hi.kept j g' hj
      · rw [hka]
        rintro v ⟨hv, hgrows'⟩ _
        exact ⟨fun h => hown' (hv.owner.mp h), _, hv.log.trans hlog_u, C.stable hq hgrows'⟩
  | true =>
      have hnone := hu.free htakes
      obtain ⟨hheld, hkept', inner, hka, hsafe⟩ := hyes r t.record htakes (hi.free hnone) (hi.kept i g hlog')
      obtain rfl : u = { t with
          owner := some i
          log := Function.update t.log i (some (M.note lock r t.record g)) } := by
        rw [hu.eq, Monitor.after, htakes, hlock.2, hlog']
        rfl
      refine ⟨⟨hi.turns.lock hlog' hstart (T.begins _ _ _ _ htakes).2 hown_eq, by rintro ⟨⟩, fun j g' ho hj => ?_,
        fun j g' hj => ?_⟩, ⟨hkept, hgrows⟩, ?_⟩
      · obtain rfl : i = j := Option.some.inj ho
        obtain rfl : M.note lock r t.record g = g' := Option.some.inj (hlog_u.symm.trans hj)
        exact hheld
      · rcases log_cases hj with ⟨-, heq⟩ | ⟨-, hj⟩
        · cases heq
          exact hkept'
        · exact hi.kept j g' hj
      · rw [hka]
        refine View.Safe.bind ((safe_inside rfl hlog_u hsafe).mono ?_)
        rintro a v - ⟨hv, gv, hgv, hfree, hneeds, hends⟩ w ⟨hw, -⟩ hiw
        have hw_owner := hw.owner.mpr hv
        have hw_log := hw.log.trans hgv
        refine ⟨.inr hunlock.2.2, fun r' x hx => ?_⟩
        obtain rfl : x = { w with
            owner := none
            log := Function.update w.log i (some (M.note unlock r' w.record gv)) } := by
          rw [hx.eq, Monitor.after, hunlock.2.1, hunlock.1, hunlock.2.2, hw_log]
          rfl
        rw [← hw.record hv] at hfree hends
        obtain ⟨new', hhist', hnew'⟩ := T.act unlock r' w.record gv
        have hown_eq' : T.own (M.note unlock r' w.record gv) = T.own gv := by
          rw [hunlock.2.2, List.self_eq_append_right] at hhist'
          rw [hnew', hhist', List.append_nil]
        have hrelog := hiw.turns.relog hw_log (T.stays _ r' w.record gv (hunlock.2.1 r')) hown_eq'
        refine ⟨⟨hrelog.release, fun _ => hfree, by rintro _ _ ⟨⟩, fun j g' hj => ?_⟩,
          ⟨hx.kept (.inl hw_owner), C.grows_refl _⟩, ?_⟩
        · rcases log_cases hj with ⟨-, heq⟩ | ⟨-, hj⟩
          · cases heq
            exact (hends r').1
          · exact hiw.kept j g' hj
        · rintro y ⟨hy, hgrows'⟩ _
          refine ⟨fun h => ?_, _, hy.log.trans (hx.log_self hw_log), C.stable (hends r').2 hgrows'⟩
          have hnone' := hy.owner.mp h
          cases hnone'

/-- **Every run** of calls that are each safe. -/
theorem good (hfresh : ∀ call s, C.free s → C.kept s (fresh call))
    (hkept : ∀ call s g, C.held s g → C.kept s (fresh call))
    (hcalls : ∀ call i s, s.owner ≠ some i → s.log i = some (fresh call) →
      ((T.outline C body).view i).Safe ((T.outline C body).post i) (body call) s)
    {record : S} (hrecord : C.free record) (hhist : T.hist record = []) {c : Config Nat I (Guarded S G) Ret}
    (hc : (M.calls body fresh ends).Reachable (Monitor.initial record) c) : (T.outline C body).Good c := by
  refine (T.outline C body).good ?_ ⟨T.inv_initial hhist, fun _ => hrecord, by rintro _ _ ⟨⟩, by rintro _ _ ⟨⟩⟩
    (fun i => by simp [outline, Monitor.initial]) hc
  rintro i call s t hi hidle ⟨hnone, rfl⟩
  have hstart := T.fresh_start call
  refine ⟨⟨hi.turns.enter hnone hstart.1 hstart.2, hi.free, fun j g ho hj => ?_, fun j g hj => ?_⟩,
    ⟨fun j hj => ⟨Function.update_of_ne hj .., Iff.rfl, fun _ => rfl⟩, C.grows_refl _⟩,
    hcalls call i _ hidle (Function.update_self ..)⟩
  · rcases log_cases hj with ⟨rfl, -⟩ | ⟨-, hj⟩
    · exact absurd ho hidle
    · exact hi.held j g ho hj
  · rcases log_cases hj with ⟨-, heq⟩ | ⟨-, hj⟩
    · cases heq
      cases hown : s.owner with
      | none => exact hfresh call _ (hi.free hown)
      | some j =>
          obtain ⟨g, -, hg, -⟩ := hi.turns.latest j hown
          exact hkept call _ g (hi.held j g hown hg)
    · exact hi.kept j g hj

end Turns

end Rely
