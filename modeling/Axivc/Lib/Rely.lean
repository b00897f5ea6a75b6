import Axivc.Lib.Prog
import Mathlib.Logic.Function.Basic

/-!
# Axivc.Lib.Rely

Interleaved execution of programs on a shared state, and a rely/guarantee
rule for it.

A `Machine` has threads that run one call after another; a step of the
machine is one operation of one thread, the beginning or the end of a call,
or a move of the surrounding world.  Every interleaving is a path of
`Machine.Step`.

The rule works thread by thread.  A `View` says what one thread may assume
of the others between any two of its operations (`rely`), and what each of
its own operations keeps (`inv`, `guar`) and needs (`pre`).  `View.Safe p s`
is the weakest condition under which the rest `p` of a call is right from
`s` on, whatever the others do meanwhile; it is computed by recursion on the
program, so a proof of it executes the program text symbolically.
`Outline.good` puts the threads together: views that fit each other make
every reachable configuration good.
-/

namespace Rely

variable {I J : Iface} {α β : Type} {σ : Type}

/-! ## one thread -/

/-- One thread's view of the shared state: how its operations act, the
invariant they keep, what an operation needs when it is issued, what holds
when a loop has used up its iterations, what the thread relies on and what it
guarantees. -/
structure View (I : Iface) (σ : Type) where
  exec : (o : I.Op) → σ → I.Res o → σ → Prop
  inv : σ → Prop
  pre : I.Op → σ → Prop
  wait : σ → Prop
  rely : σ → σ → Prop
  guar : σ → σ → Prop
  rely_refl : ∀ s, rely s s
  rely_trans : ∀ {s t u}, rely s t → rely t u → rely s u

namespace View

/-- From `s` on, and under any interference the view relies on, the rest `p`
of the program issues only operations whose `pre` holds, each of which keeps
`inv` and `guar`, returns only in states that satisfy `post`, and runs out of
iterations only where `wait` holds. -/
def Safe (V : View I σ) (post : α → σ → Prop) : Prog I α → σ → Prop
  | .ret a, s => ∀ t, V.rely s t → V.inv t → post a t
  | .act o k, s => ∀ t, V.rely s t → V.inv t → V.pre o t ∧
      ∀ r u, V.exec o t r u → V.inv u ∧ V.guar t u ∧ V.Safe post (k r) u
  | .spin, s => ∀ t, V.rely s t → V.inv t → V.wait t

variable {V : View I σ} {post post' : α → σ → Prop} {p : Prog I α} {s t : σ}

/-- Interference does not invalidate what is left to do. -/
theorem Safe.stable (h : V.Safe post p s) (hr : V.rely s t) : V.Safe post p t := by
  cases p with
  | ret a => exact fun u hu hi => h u (V.rely_trans hr hu) hi
  | act o k => exact fun u hu hi => h u (V.rely_trans hr hu) hi
  | spin => exact fun u hu hi => h u (V.rely_trans hr hu) hi

/-- It is enough to be safe from every state the interference can lead to. -/
theorem Safe.intro (h : ∀ t, V.rely s t → V.inv t → V.Safe post p t) : V.Safe post p s := by
  cases p with
  | ret a => exact fun t ht hi => h t ht hi t (V.rely_refl t) hi
  | act o k => exact fun t ht hi => h t ht hi t (V.rely_refl t) hi
  | spin => exact fun t ht hi => h t ht hi t (V.rely_refl t) hi

theorem Safe.mono (h : V.Safe post p s) (himp : ∀ a t, V.inv t → post a t → post' a t) :
    V.Safe post' p s := by
  induction p generalizing s with
  | ret a => exact fun t ht hi => himp a t hi (h t ht hi)
  | act o k ih =>
      intro t ht hi
      obtain ⟨hpre, hk⟩ := h t ht hi
      refine ⟨hpre, fun r u hu => ?_⟩
      obtain ⟨hinv, hg, hs⟩ := hk r u hu
      exact ⟨hinv, hg, ih r hs⟩
  | spin => exact h

/-- Sequencing: the first part establishes what the second part needs. -/
theorem Safe.bind {f : α → Prog I β} {q : β → σ → Prop}
    (h : V.Safe (fun a t => V.Safe q (f a) t) p s) : V.Safe q (p >>= f) s := by
  induction p generalizing s with
  | ret a => exact Safe.intro fun t ht hi => h t ht hi
  | act o k ih =>
      intro t ht hi
      obtain ⟨hpre, hk⟩ := h t ht hi
      refine ⟨hpre, fun r u hu => ?_⟩
      obtain ⟨hinv, hg, hs⟩ := hk r u hu
      exact ⟨hinv, hg, ih r hs⟩
  | spin => exact h

/-- One operation, entered with an assertion that interference keeps. -/
theorem safe_act {o : I.Op} {k : I.Res o → Prog I α} (P : σ → Prop) (hP : P s)
    (hstable : ∀ t u, P t → V.rely t u → V.inv u → P u)
    (h : ∀ t, P t → V.inv t → V.pre o t ∧
      ∀ r u, V.exec o t r u → V.inv u ∧ V.guar t u ∧ V.Safe post (k r) u) :
    V.Safe post (.act o k) s :=
  fun t ht hi => h t (hstable s t hP ht hi) hi

/-- Returning, with an assertion that interference keeps. -/
theorem safe_ret {a : α} (P : σ → Prop) (hP : P s)
    (hstable : ∀ t u, P t → V.rely t u → V.inv u → P u)
    (h : ∀ t, P t → V.inv t → post a t) : V.Safe post (.ret a) s :=
  fun t ht hi => h t (hstable s t hP ht hi) hi

/-- The view inside a critical section: its operations keep `P` as well. -/
def within (V : View I σ) (P : σ → Prop) : View I σ :=
  { V with inv := fun s => V.inv s ∧ P s }

/-- What interference cannot take away may be used, and must be kept, between
any two operations. -/
theorem Safe.of_within {P : σ → Prop} (hstable : ∀ s t, P s → V.rely s t → V.inv t → P t)
    (h : (V.within P).Safe post p s) (hP : P s) : V.Safe (fun a t => P t ∧ post a t) p s := by
  induction p generalizing s with
  | ret a =>
      intro t ht hi
      have hPt := hstable s t hP ht hi
      exact ⟨hPt, h t ht ⟨hi, hPt⟩⟩
  | act o k ih =>
      intro t ht hi
      obtain ⟨hpre, hk⟩ := h t ht ⟨hi, hstable s t hP ht hi⟩
      refine ⟨hpre, fun r u hu => ?_⟩
      obtain ⟨hinv, hg, hs⟩ := hk r u hu
      exact ⟨hinv.1, hg, ih r hs hinv.2⟩
  | spin => exact fun t ht hi => h t ht ⟨hi, hstable s t hP ht hi⟩

/-- A program each of whose operations keeps an assertion, as interference
does, keeps it to the end. -/
theorem Safe.of_each {P : σ → Prop} {Q : I.Op → Prop} (hwait : ∀ t, V.wait t)
    (hstable : ∀ s t, P s → V.rely s t → V.inv t → P t) (hpre : ∀ o t, Q o → V.pre o t)
    (hop : ∀ o t r u, Q o → P t → V.inv t → V.exec o t r u → V.inv u ∧ V.guar t u ∧ P u)
    (hp : p.Each Q) (hP : P s) : V.Safe (fun _ u => P u) p s := by
  induction p generalizing s with
  | ret a => exact fun t ht hi => hstable s t hP ht hi
  | act o k ih =>
      intro t ht hi
      refine ⟨hpre o t hp.1, fun r u hu => ?_⟩
      obtain ⟨hinv, hguar, hPu⟩ := hop o t r u hp.1 (hstable s t hP ht hi) hi hu
      exact ⟨hinv, hguar, ih r (hp.2 r) hPu⟩
  | spin => exact fun t _ _ => hwait t

/-- Implementing an interface: when each operation's program meets the
operation's specification in `W`, a program safe over `W` stays safe with
the operations replaced by their programs. -/
theorem Safe.subst {W : View J σ} {h : (o : J.Op) → Prog I (J.Res o)} {p : Prog J α}
    (hrely : ∀ s t, V.rely s t → W.rely s t) (hinv : ∀ s, V.inv s → W.inv s)
    (hwait : ∀ s, W.wait s → V.wait s)
    (hop : ∀ o s, V.inv s → W.pre o s → V.Safe (fun r u => W.exec o s r u) (h o) s)
    (hp : W.Safe post p s) : V.Safe post (p.subst h) s := by
  induction p generalizing s with
  | ret a => exact fun t ht hi => hp t (hrely s t ht) (hinv t hi)
  | act o k ih =>
      refine Safe.intro fun t ht hi => ?_
      obtain ⟨hpre, hk⟩ := hp t (hrely s t ht) (hinv t hi)
      exact Safe.bind ((hop o t hi hpre).mono fun r u _ hu => ih r (hk r u hu).2.2)
  | spin => exact fun t ht hi => hwait t (hp t (hrely s t ht) (hinv t hi))

/-- Left alone from here on, a safe program that never waits reaches its end,
along steps that each keep the guarantee. -/
theorem Safe.ends {g : (o : I.Op) → σ → I.Res o × σ} (hg : ∀ o s, V.exec o s (g o s).1 (g o s).2)
    (hwait : ∀ t, ¬ V.wait t) {R : σ → σ → Prop} (hrefl : ∀ s, R s s) (htrans : ∀ s t u, R s t → R t u → R s u)
    (hguar : ∀ s t, V.guar s t → R s t) (h : V.Safe post p s) (hi : V.inv s) :
    ∃ a t, V.inv t ∧ R s t ∧ post a t := by
  induction p generalizing s with
  | ret a => exact ⟨a, s, hi, hrefl s, h s (V.rely_refl s) hi⟩
  | act o k ih =>
      obtain ⟨hinv, hg', hs⟩ := (h s (V.rely_refl s) hi).2 _ _ (hg o s)
      obtain ⟨a, t, hit, hR, hpost⟩ := ih _ hs hinv
      exact ⟨a, t, hit, htrans _ _ _ (hguar _ _ hg') hR, hpost⟩
  | spin => exact absurd (h s (V.rely_refl s) hi) (hwait s)

/-- The view of a thread that nothing interferes with. -/
def alone (g : (o : I.Op) → σ → I.Res o × σ) : View I σ where
  exec o s r t := (r, t) = g o s
  inv _ := True
  pre _ _ := True
  wait _ := True
  rely s t := t = s
  guar _ _ := True
  rely_refl _ := rfl
  rely_trans h h' := h'.trans h

/-- Alone, a program is safe when its run ends well. -/
theorem safe_alone {g : (o : I.Op) → σ → I.Res o × σ} :
    (alone g).Safe post p s ↔ ∀ a t, p.run g s = some (a, t) → post a t := by
  induction p generalizing s with
  | ret a =>
      constructor
      · rintro h a t ⟨⟩
        exact h s rfl trivial
      · rintro h t rfl -
        exact h a _ rfl
  | act o k ih =>
      constructor
      · intro h
        exact (ih _).mp ((h s rfl trivial).2 _ _ rfl).2.2
      · rintro h t rfl -
        refine ⟨trivial, ?_⟩
        rintro r u hu
        obtain ⟨rfl, rfl⟩ := Prod.mk.inj hu
        exact ⟨trivial, trivial, (ih _).mpr h⟩
  | spin => simp [Safe, Prog.run, alone]

end View

/-! ## interleaved threads -/

/-- Threads `ι` that run calls over the interface `I` on a shared state.
`start` and `finish` say when a call may begin and how beginning and ending
show in the shared state; `env` is what the world around the threads does. -/
structure Machine (ι : Type) (I : Iface) (σ Call Ret : Type) where
  body : ι → Call → σ → Prog I Ret
  exec : ι → (o : I.Op) → σ → I.Res o → σ → Prop
  start : ι → Call → σ → σ → Prop
  finish : ι → Ret → σ → σ → Prop
  env : σ → σ → Prop

/-- A configuration: the shared state, and for each thread the rest of its
running call, `none` between calls. -/
structure Config (ι : Type) (I : Iface) (σ Ret : Type) where
  shared : σ
  thread : ι → Option (Prog I Ret)

namespace Machine

variable {ι Call Ret : Type}

/-- One step of the machine. -/
inductive Step [DecidableEq ι] (M : Machine ι I σ Call Ret) : Config ι I σ Ret → Config ι I σ Ret → Prop where
  | env {c s'} : M.env c.shared s' → Step M c ⟨s', c.thread⟩
  | start {c s'} (i : ι) (call : Call) : c.thread i = none → M.start i call c.shared s' →
      Step M c ⟨s', Function.update c.thread i (some (M.body i call s'))⟩
  | act {c s'} (i : ι) {o : I.Op} {k : I.Res o → Prog I Ret} (r : I.Res o) :
      c.thread i = some (.act o k) → M.exec i o c.shared r s' →
      Step M c ⟨s', Function.update c.thread i (some (k r))⟩
  | finish {c s'} (i : ι) {a : Ret} : c.thread i = some (.ret a) → M.finish i a c.shared s' →
      Step M c ⟨s', Function.update c.thread i none⟩

/-- The configuration in which no call is running. -/
def quiet (s : σ) : Config ι I σ Ret := ⟨s, fun _ => none⟩

/-- The configurations some interleaving leads to from the shared state `s₀`
with no call running. -/
def Reachable [DecidableEq ι] (M : Machine ι I σ Call Ret) (s₀ : σ) (c : Config ι I σ Ret) : Prop :=
  Relation.ReflTransGen M.Step (quiet s₀) c

section Runs

variable [DecidableEq ι] {M : Machine ι I σ Call Ret} {s₀ s s' : σ} {T : ι → Option (Prog I Ret)}

theorem Reachable.start (h : M.Reachable s₀ ⟨s, T⟩) (i : ι) (call : Call) (hi : T i = none)
    (hst : M.start i call s s') :
    M.Reachable s₀ ⟨s', Function.update T i (some (M.body i call s'))⟩ :=
  h.tail (.start i call hi hst)

theorem Reachable.act (h : M.Reachable s₀ ⟨s, T⟩) (i : ι) {o : I.Op} {k : I.Res o → Prog I Ret}
    (r : I.Res o) (hi : T i = some (.act o k)) (he : M.exec i o s r s') :
    M.Reachable s₀ ⟨s', Function.update T i (some (k r))⟩ :=
  h.tail (.act i r hi he)

theorem Reachable.finish (h : M.Reachable s₀ ⟨s, T⟩) (i : ι) {a : Ret} (hi : T i = some (.ret a))
    (hf : M.finish i a s s') : M.Reachable s₀ ⟨s', Function.update T i none⟩ :=
  h.tail (.finish i hi hf)

/-- Let thread `i` alone perform the first part of its program to the end. -/
theorem Reachable.run_bind {α : Type} {g : (o : I.Op) → σ → I.Res o × σ} {i : ι}
    (hg : ∀ o s, M.exec i o s (g o s).1 (g o s).2) {p : Prog I α} {k : α → Prog I Ret} {a : α}
    (h : M.Reachable s₀ ⟨s, Function.update T i (some (p >>= k))⟩) (hrun : p.run g s = some (a, s')) :
    M.Reachable s₀ ⟨s', Function.update T i (some (k a))⟩ := by
  induction p generalizing s with
  | ret b =>
      cases hrun
      exact h
  | act o c ih =>
      have hstep := h.act i (g o s).1 (Function.update_self ..) (hg o s)
      rw [Function.update_idem] at hstep
      exact ih _ hstep hrun
  | spin => cases hrun

/-- Let thread `i` alone perform its program to the end. -/
theorem Reachable.run {g : (o : I.Op) → σ → I.Res o × σ} {i : ι}
    (hg : ∀ o s, M.exec i o s (g o s).1 (g o s).2) {p : Prog I Ret} {a : Ret}
    (h : M.Reachable s₀ ⟨s, Function.update T i (some p)⟩) (hrun : p.run g s = some (a, s')) :
    M.Reachable s₀ ⟨s', Function.update T i (some (.ret a))⟩ := by
  rw [← Prog.bind_ret p] at h
  exact h.run_bind hg hrun

/-- Let thread `i` alone perform its next `n` operations, answered by a
handler that some operations allow, when these are among them. -/
theorem Reachable.advance_of {g : (o : I.Op) → σ → I.Res o × σ} {ok : I.Op → Bool} {i : ι}
    (hg : ∀ o s, ok o = true → M.exec i o s (g o s).1 (g o s).2) (n : Nat) {p : Prog I Ret}
    (h : M.Reachable s₀ ⟨s, Function.update T i (some p)⟩) (hp : p.nextAre ok g n s = true) :
    M.Reachable s₀ ⟨(p.advance g n s).2, Function.update T i (some (p.advance g n s).1)⟩ := by
  induction n generalizing p s with
  | zero => cases p <;> exact h
  | succ n ih =>
      cases p with
      | act o k =>
          have hok := Bool.and_eq_true_iff.mp hp
          have hstep := h.act i (g o s).1 (Function.update_self ..) (hg o s hok.1)
          rw [Function.update_idem] at hstep
          exact ih hstep hok.2
      | ret a => exact h
      | spin => exact h

/-- Let thread `i` alone perform its next `n` operations, answered by a
handler its operations allow. -/
theorem Reachable.advance {g : (o : I.Op) → σ → I.Res o × σ} {i : ι}
    (hg : ∀ o s, M.exec i o s (g o s).1 (g o s).2) (n : Nat) {p : Prog I Ret}
    (h : M.Reachable s₀ ⟨s, Function.update T i (some p)⟩) :
    M.Reachable s₀ ⟨(p.advance g n s).2, Function.update T i (some (p.advance g n s).1)⟩ :=
  h.advance_of (fun o s _ => hg o s) n (Prog.nextAre_true g n p s)

end Runs

/-- A proof outline: an invariant, and for each thread what it relies on,
what it guarantees, what holds when a call returns, when it has used up its
iterations and while the thread is between calls. -/
structure Outline (M : Machine ι I σ Call Ret) where
  inv : σ → Prop
  pre : ι → I.Op → σ → Prop := fun _ _ _ => True
  wait : ι → σ → Prop := fun _ _ => True
  rely : ι → σ → σ → Prop
  guar : ι → σ → σ → Prop
  post : ι → Ret → σ → Prop
  idle : ι → σ → Prop
  rely_refl : ∀ i s, rely i s s
  rely_trans : ∀ i {s t u}, rely i s t → rely i t u → rely i s u
  guar_rely : ∀ {i j s t}, i ≠ j → inv s → guar i s t → rely j s t
  env_rely : ∀ {s t}, inv s → M.env s t → inv t ∧ ∀ i, rely i s t
  idle_stable : ∀ {i s t}, idle i s → rely i s t → inv t → idle i t
  finish_ok : ∀ {i a s t}, inv s → post i a s → M.finish i a s t → inv t ∧ guar i s t ∧ idle i t

namespace Outline

variable {M : Machine ι I σ Call Ret} (O : Outline M)

/-- The view of thread `i`. -/
def view (i : ι) : View I σ where
  exec := M.exec i
  inv := O.inv
  pre := O.pre i
  wait := O.wait i
  rely := O.rely i
  guar := O.guar i
  rely_refl := O.rely_refl i
  rely_trans := O.rely_trans i

/-- Every call that begins in an idle thread is safe. -/
def Starts : Prop :=
  ∀ i call s t, O.inv s → O.idle i s → M.start i call s t →
    O.inv t ∧ O.guar i s t ∧ (O.view i).Safe (O.post i) (M.body i call t) t

/-- A configuration all of whose threads are idle or safe. -/
def Good (c : Config ι I σ Ret) : Prop :=
  O.inv c.shared ∧ ∀ i, (c.thread i = none → O.idle i c.shared) ∧
    ∀ p, c.thread i = some p → (O.view i).Safe (O.post i) p c.shared

/-- A step of thread `i` that keeps the guarantee leaves the others good. -/
theorem good_update [DecidableEq ι] {c : Config ι I σ Ret} (hc : O.Good c) {i : ι} {s' : σ} {x : Option (Prog I Ret)}
    (hinv : O.inv s') (hg : O.guar i c.shared s') (hnone : x = none → O.idle i s')
    (hsome : ∀ p, x = some p → (O.view i).Safe (O.post i) p s') :
    O.Good ⟨s', Function.update c.thread i x⟩ := by
  refine ⟨hinv, fun j => ?_⟩
  by_cases hj : j = i
  · subst hj
    simp only [Function.update_self]
    exact ⟨hnone, hsome⟩
  · have hr : O.rely j c.shared s' := O.guar_rely (Ne.symm hj) hc.1 hg
    simp only [Function.update_of_ne hj]
    exact ⟨fun h => O.idle_stable ((hc.2 j).1 h) hr hinv,
      fun p h => ((hc.2 j).2 p h).stable (V := O.view j) hr⟩

/-- **Step rule**: a step from a good configuration leads to a good one. -/
theorem good_step [DecidableEq ι] (hs : O.Starts) {c c' : Config ι I σ Ret} (hc : O.Good c)
    (h : M.Step c c') : O.Good c' := by
  cases h with
  | env he =>
      obtain ⟨hinv, hr⟩ := O.env_rely hc.1 he
      exact ⟨hinv, fun j => ⟨fun h => O.idle_stable ((hc.2 j).1 h) (hr j) hinv,
        fun p h => ((hc.2 j).2 p h).stable (V := O.view j) (hr j)⟩⟩
  | start i call hi hst =>
      obtain ⟨hinv, hg, hsafe⟩ := hs i call _ _ hc.1 ((hc.2 i).1 hi) hst
      exact O.good_update hc hinv hg (by simp) (by rintro p ⟨⟩; exact hsafe)
  | act i r hi he =>
      obtain ⟨-, hk⟩ := (hc.2 i).2 _ hi _ (O.rely_refl i _) hc.1
      obtain ⟨hinv, hg, hsafe⟩ := hk r _ he
      exact O.good_update hc hinv hg (by simp) (by rintro p ⟨⟩; exact hsafe)
  | finish i hi hf =>
      obtain ⟨hinv, hg, hidle⟩ := O.finish_ok hc.1 ((hc.2 i).2 _ hi _ (O.rely_refl i _) hc.1) hf
      exact O.good_update hc hinv hg (fun _ => hidle) (by simp)

/-- A step from a good configuration is a move of the world or keeps the
guarantee of the thread that takes it. -/
theorem step_guar [DecidableEq ι] (hs : O.Starts) {c c' : Config ι I σ Ret} (hc : O.Good c)
    (h : M.Step c c') : M.env c.shared c'.shared ∨ ∃ i, O.guar i c.shared c'.shared := by
  cases h with
  | env he => exact .inl he
  | start i call hi hst => exact .inr ⟨i, (hs i call _ _ hc.1 ((hc.2 i).1 hi) hst).2.1⟩
  | act i r hi he =>
      obtain ⟨-, hk⟩ := (hc.2 i).2 _ hi _ (O.rely_refl i _) hc.1
      exact .inr ⟨i, (hk r _ he).2.1⟩
  | finish i hi hf =>
      exact .inr ⟨i, (O.finish_ok hc.1 ((hc.2 i).2 _ hi _ (O.rely_refl i _) hc.1) hf).2.1⟩

/-- While a thread is about to issue an operation, a step is that operation, or
one that the thread relies on. -/
theorem step_cases [DecidableEq ι] (hs : O.Starts) {c c' : Config ι I σ Ret} (hc : O.Good c) (h : M.Step c c')
    {i : ι} {o : I.Op} {k : I.Res o → Prog I Ret} (hi : c.thread i = some (.act o k)) :
    (c'.thread i = some (.act o k) ∧ O.rely i c.shared c'.shared) ∨
      ∃ r, M.exec i o c.shared r c'.shared ∧ c'.thread i = some (k r) := by
  -- A step of another thread leaves the program of thread `i` alone.
  have hother {j : ι} {s' : σ} {x : Option (Prog I Ret)} (hj : j ≠ i) (hg : O.guar j c.shared s') :
      Function.update c.thread j x i = some (.act o k) ∧ O.rely i c.shared s' :=
    ⟨by rw [Function.update_of_ne (Ne.symm hj), hi], O.guar_rely hj hc.1 hg⟩
  cases h with
  | env he => exact .inl ⟨hi, (O.env_rely hc.1 he).2 i⟩
  | start j call hj hst =>
      have hji : j ≠ i := fun heq => by rw [heq, hi] at hj; cases hj
      exact .inl (hother hji (hs j call _ _ hc.1 ((hc.2 j).1 hj) hst).2.1)
  | act j r hj he =>
      by_cases hji : j = i
      · subst hji
        rw [hi] at hj
        cases hj
        exact .inr ⟨r, he, Function.update_self ..⟩
      · obtain ⟨-, hk⟩ := (hc.2 j).2 _ hj _ (O.rely_refl j _) hc.1
        exact .inl (hother hji (hk r _ he).2.1)
  | finish j hj hf =>
      have hji : j ≠ i := fun heq => by rw [heq, hi] at hj; cases hj
      exact .inl (hother hji (O.finish_ok hc.1 ((hc.2 j).2 _ hj _ (O.rely_refl j _) hc.1) hf).2.1)

/-- **Run rule**: every configuration that any interleaving reaches is good. -/
theorem good [DecidableEq ι] (hs : O.Starts) {s₀ : σ} (hinv : O.inv s₀) (hidle : ∀ i, O.idle i s₀)
    {c : Config ι I σ Ret} (h : M.Reachable s₀ c) : O.Good c := by
  induction h with
  | refl => exact ⟨hinv, fun i => ⟨fun _ => hidle i, by simp [quiet]⟩⟩
  | tail _ hstep ih => exact O.good_step hs ih hstep

variable {O}

/-- In a good configuration the operation a thread is about to issue has its
precondition. -/
theorem Good.pre {c : Config ι I σ Ret} (hc : O.Good c) {i : ι} {o : I.Op}
    {k : I.Res o → Prog I Ret} (hi : c.thread i = some (.act o k)) : O.pre i o c.shared :=
  ((hc.2 i).2 _ hi _ (O.rely_refl i _) hc.1).1

/-- In a good configuration a call that has used up its iterations waits as
the outline says. -/
theorem Good.wait {c : Config ι I σ Ret} (hc : O.Good c) {i : ι} (hi : c.thread i = some .spin) :
    O.wait i c.shared :=
  (hc.2 i).2 _ hi _ (O.rely_refl i _) hc.1

/-- In a good configuration a call about to return has its postcondition. -/
theorem Good.post {c : Config ι I σ Ret} (hc : O.Good c) {i : ι} {a : Ret}
    (hi : c.thread i = some (.ret a)) : O.post i a c.shared :=
  (hc.2 i).2 _ hi _ (O.rely_refl i _) hc.1

end Outline

/-! ## machines that share nothing -/

section Beside

variable {κ τ Call' Ret' : Type} [DecidableEq ι] [DecidableEq κ]

/-- One step of two machines next to each other, on states of their own. -/
inductive Beside (M : Machine ι I σ Call Ret) (N : Machine κ J τ Call' Ret') :
    Config ι I σ Ret × Config κ J τ Ret' → Config ι I σ Ret × Config κ J τ Ret' → Prop where
  | left {c c' d} : M.Step c c' → Beside M N (c, d) (c', d)
  | right {c d d'} : N.Step d d' → Beside M N (c, d) (c, d')

variable {M : Machine ι I σ Call Ret} {N : Machine κ J τ Call' Ret'} {s : σ} {t : τ}

/-- A run of both is a run of each. -/
theorem Beside.reachable {p : Config ι I σ Ret × Config κ J τ Ret'}
    (h : Relation.ReflTransGen (Beside M N) (quiet s, quiet t) p) : M.Reachable s p.1 ∧ N.Reachable t p.2 := by
  induction h with
  | refl => exact ⟨.refl, .refl⟩
  | tail _ hstep ih =>
      cases hstep with
      | left hstep => exact ⟨ih.1.tail hstep, ih.2⟩
      | right hstep => exact ⟨ih.1, ih.2.tail hstep⟩

/-- A run of the first machine, while the second has not begun. -/
theorem Beside.of_left {c : Config ι I σ Ret} (h : M.Reachable s c) :
    Relation.ReflTransGen (Beside M N) (quiet s, quiet t) (c, quiet t) := by
  induction h with
  | refl => exact .refl
  | tail _ hstep ih => exact ih.tail (.left hstep)

/-- A run of the second machine, while the first has not begun. -/
theorem Beside.of_right {d : Config κ J τ Ret'} (h : N.Reachable t d) :
    Relation.ReflTransGen (Beside M N) (quiet s, quiet t) (quiet s, d) := by
  induction h with
  | refl => exact .refl
  | tail _ hstep ih => exact ih.tail (.right hstep)

end Beside

end Machine

end Rely
