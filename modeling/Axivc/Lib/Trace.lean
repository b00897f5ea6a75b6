import Axivc.Lib.Prog

/-!
# Axivc.Lib.Trace

Runs of a program with the record of what it did.

`Prog.Ran exec p s tr x t` says that `p`, run alone from the state `s` with
operations that behave as `exec` allows, may issue the operations of `tr` with
the answers given there, end with `x` — the result, or `none` at `spin` — and
leave the state `t`.  It is computed by recursion on the program, so that a
fact about every run is read off the program text one operation at a time.
`Prog.Leads p tr q` is a run up to some operation, whatever the operations do.
-/

/-- An operation and its answer. -/
abbrev Iface.Event (I : Iface) : Type := Σ o : I.Op, I.Res o

namespace Prog

variable {I : Iface} {α β : Type} {σ : Type}

/-- The runs of a program. -/
def Ran (exec : (o : I.Op) → σ → I.Res o → σ → Prop) : Prog I α → σ → List I.Event → Option α → σ → Prop
  | .ret a, s, tr, x, t => tr = [] ∧ x = some a ∧ t = s
  | .act o k, s, tr, x, t => ∃ r u tr', exec o s r u ∧ (k r).Ran exec u tr' x t ∧ tr = ⟨o, r⟩ :: tr'
  | .spin, s, tr, x, t => tr = [] ∧ x = none ∧ t = s

section Runs

variable {exec : (o : I.Op) → σ → I.Res o → σ → Prop} {s t u : σ} {tr tr' : List I.Event}

theorem ran_ret (a : α) (s : σ) : (Prog.ret a : Prog I α).Ran exec s [] (some a) s := ⟨rfl, rfl, rfl⟩

/-- One operation, then the rest. -/
theorem Ran.act {o : I.Op} {k : I.Res o → Prog I α} {r : I.Res o} {x : Option α} (he : exec o s r u)
    (hk : (k r).Ran exec u tr x t) : (Prog.act o k).Ran exec s (⟨o, r⟩ :: tr) x t :=
  ⟨r, u, tr, he, hk, rfl⟩

/-- Where every operation is answered, every program has a run. -/
theorem exists_ran (hexec : ∀ o s, ∃ r u, exec o s r u) (p : Prog I α) (s : σ) : ∃ tr x t, p.Ran exec s tr x t := by
  induction p generalizing s with
  | ret a => exact ⟨[], some a, s, ran_ret a s⟩
  | act o k ih =>
      obtain ⟨r, u, he⟩ := hexec o s
      obtain ⟨tr, x, t, hk⟩ := ih r u
      exact ⟨_, x, t, .act he hk⟩
  | spin => exact ⟨[], none, s, rfl, rfl, rfl⟩

/-- The run a handler gives. -/
theorem ran_of_run {g : (o : I.Op) → σ → I.Res o × σ} (hg : ∀ o s, exec o s (g o s).1 (g o s).2) {p : Prog I α} {a : α}
    (h : p.run g s = some (a, t)) : ∃ tr, p.Ran exec s tr (some a) t := by
  induction p generalizing s with
  | ret b =>
      cases h
      exact ⟨[], ran_ret _ _⟩
  | act o k ih =>
      obtain ⟨tr, hk⟩ := ih _ h
      exact ⟨_, .act (hg o s) hk⟩
  | spin => cases h

/-- One program, then the rest. -/
theorem Ran.bind {p : Prog I α} {f : α → Prog I β} {a : α} {x : Option β} (hp : p.Ran exec s tr (some a) u)
    (hf : (f a).Ran exec u tr' x t) : (p >>= f).Ran exec s (tr ++ tr') x t := by
  induction p generalizing s tr with
  | ret b =>
      obtain ⟨rfl, hab, rfl⟩ := hp
      cases hab
      exact hf
  | act o k ih =>
      obtain ⟨r, v, tr₁, he, hk, rfl⟩ := hp
      exact .act he (ih r hk)
  | spin =>
      obtain ⟨-, hab, -⟩ := hp
      cases hab

/-- A run of a sequence is a run of the first part, which ends, and one of the
second. -/
theorem Ran.of_bind {p : Prog I α} {f : α → Prog I β} {x : Option β} (h : (p >>= f).Ran exec s tr x t)
    (hp : p.Returns) :
    ∃ a u tr₁ tr₂, p.Ran exec s tr₁ (some a) u ∧ (f a).Ran exec u tr₂ x t ∧ tr = tr₁ ++ tr₂ := by
  induction p generalizing s tr with
  | ret a => exact ⟨a, s, [], tr, ran_ret a s, h, rfl⟩
  | act o k ih =>
      obtain ⟨r, u, tr', he, hk, rfl⟩ := h
      obtain ⟨a, v, tr₁, tr₂, hran, hrest, rfl⟩ := ih r hk (hp r)
      exact ⟨a, v, ⟨o, r⟩ :: tr₁, tr₂, .act he hran, hrest, rfl⟩
  | spin => exact hp.elim

/-- A result that is only given another form. -/
theorem Ran.of_map {p : Prog I α} {g : α → β} {x : Option β} (h : (p >>= fun a => .ret (g a)).Ran exec s tr x t) :
    ∃ y, p.Ran exec s tr y t ∧ x = y.map g := by
  induction p generalizing s tr with
  | ret a =>
      obtain ⟨rfl, rfl, rfl⟩ := h
      exact ⟨some a, ran_ret a t, rfl⟩
  | act o k ih =>
      obtain ⟨r, u, tr', he, hk, rfl⟩ := h
      obtain ⟨y, hran, rfl⟩ := ih r hk
      exact ⟨y, .act he hran, rfl⟩
  | spin =>
      obtain ⟨rfl, rfl, rfl⟩ := h
      exact ⟨none, ⟨rfl, rfl, rfl⟩, rfl⟩

/-- A run issues operations of the program only. -/
theorem Ran.each {Q : I.Op → Prop} {p : Prog I α} {x : Option α} (h : p.Ran exec s tr x t) (hp : p.Each Q) :
    ∀ e ∈ tr, Q e.1 := by
  induction p generalizing s tr with
  | ret a =>
      obtain ⟨rfl, -, -⟩ := h
      simp
  | act o k ih =>
      obtain ⟨r, u, tr', he, hk, rfl⟩ := h
      simp only [List.mem_cons, forall_eq_or_imp]
      exact ⟨hp.1, ih r hk (hp.2 r)⟩
  | spin =>
      obtain ⟨rfl, -, -⟩ := h
      simp

/-- A run ends as the program may. -/
theorem Ran.ends {Q : α → Prop} {p : Prog I α} {a : α} (h : p.Ran exec s tr (some a) t)
    (hp : p.Ends Q) : Q a := by
  induction p generalizing s tr with
  | ret b =>
      obtain ⟨-, hab, -⟩ := h
      cases hab
      exact hp
  | act o k ih =>
      obtain ⟨r, u, tr', he, hk, rfl⟩ := h
      exact ih r hk (hp r)
  | spin =>
      obtain ⟨-, hab, -⟩ := h
      cases hab

/-- What the operations of a program keep, a run of it keeps. -/
theorem Ran.keeps {Q : I.Op → Prop} {P : σ → Prop} {p : Prog I α} {x : Option α} (h : p.Ran exec s tr x t)
    (hp : p.Each Q) (hstep : ∀ o s r t, Q o → exec o s r t → P s → P t) (hs : P s) : P t := by
  induction p generalizing s tr with
  | ret a =>
      obtain ⟨-, -, rfl⟩ := h
      exact hs
  | act o k ih =>
      obtain ⟨r, u, tr', he, hk, rfl⟩ := h
      exact ih r hk (hp.2 r) (hstep o s r u hp.1 he hs)
  | spin =>
      obtain ⟨-, -, rfl⟩ := h
      exact hs

/-- A run that begins with a program of which all this is known. -/
theorem Ran.of_meets {Q : I.Op → Prop} {P : α → Prop} {p : Prog I α} {f : α → Prog I β} {x : Option β} (h : (p >>= f).Ran exec s tr x t)
    (hp : p.Meets Q P) :
    ∃ a u tr₁ tr₂, P a ∧ (∀ e ∈ tr₁, Q e.1) ∧ p.Ran exec s tr₁ (some a) u ∧ (f a).Ran exec u tr₂ x t ∧
      tr = tr₁ ++ tr₂ := by
  obtain ⟨a, u, tr₁, tr₂, hran, hrest, rfl⟩ := h.of_bind hp.returns
  exact ⟨a, u, tr₁, tr₂, hran.ends hp.ends, hran.each hp.each, hran, hrest, rfl⟩

/-- A run of a sequence, of which the first part may not end. -/
theorem Ran.of_bind_or {p : Prog I α} {f : α → Prog I β} {x : Option β} (h : (p >>= f).Ran exec s tr x t) :
    (∃ a u tr₁ tr₂, p.Ran exec s tr₁ (some a) u ∧ (f a).Ran exec u tr₂ x t ∧ tr = tr₁ ++ tr₂) ∨
      (p.Ran exec s tr none t ∧ x = none) := by
  induction p generalizing s tr with
  | ret a => exact .inl ⟨a, s, [], tr, ran_ret a s, h, rfl⟩
  | act o k ih =>
      obtain ⟨r, u, tr', he, hk, rfl⟩ := h
      obtain ⟨a, v, tr₁, tr₂, hran, hrest, rfl⟩ | ⟨hran, rfl⟩ := ih r hk
      · exact .inl ⟨a, v, ⟨o, r⟩ :: tr₁, tr₂, .act he hran, hrest, rfl⟩
      · exact .inr ⟨.act he hran, rfl⟩
  | spin =>
      obtain ⟨rfl, rfl, rfl⟩ := h
      exact .inr ⟨⟨rfl, rfl, rfl⟩, rfl⟩

/-- Where every operation is implemented by one step of another kind, on a part
of a larger state, a run is a run on that part. -/
theorem Ran.of_subst {J : Iface} {τ : Type} {exec' : (o : J.Op) → τ → J.Res o → τ → Prop}
    {h : (o : I.Op) → Prog J (I.Res o)} {embed : I.Event → J.Event} {get : τ → σ} {R : τ → τ → Prop}
    (hrefl : ∀ s, R s s) (htrans : ∀ s t u, R s t → R t u → R s u) (hreturns : ∀ o, (h o).Returns)
    (hop : ∀ o s tr x t, (h o).Ran exec' s tr x t →
      ∃ r, x = some r ∧ tr = [embed ⟨o, r⟩] ∧ exec o (get s) r (get t) ∧ R s t)
    {p : Prog I α} {s t : τ} {tr : List J.Event} {x : Option α} (hp : (p.subst h).Ran exec' s tr x t) :
    ∃ tr', p.Ran exec (get s) tr' x (get t) ∧ tr = tr'.map embed ∧ R s t := by
  induction p generalizing s tr with
  | ret a =>
      obtain ⟨rfl, rfl, rfl⟩ := hp
      exact ⟨[], ran_ret a _, rfl, hrefl _⟩
  | act o k ih =>
      obtain ⟨r, u, tr₁, tr₂, hran, hrest, rfl⟩ := Ran.of_bind (f := fun r => (k r).subst h) hp (hreturns o)
      obtain ⟨r', hr, rfl, hdo, hR⟩ := hop o s tr₁ (some r) u hran
      cases hr
      obtain ⟨tr', hk, rfl, hR'⟩ := ih r hrest
      exact ⟨⟨o, r⟩ :: tr', .act hdo hk, rfl, htrans _ _ _ hR hR'⟩
  | spin =>
      obtain ⟨rfl, rfl, rfl⟩ := hp
      exact ⟨[], ⟨rfl, rfl, rfl⟩, rfl, hrefl _⟩

/-! ## every run -/

/-- Whatever the answers to its operations are, `p` ends, with a trace and a
result that satisfy `Q`. -/
def EndsWith : Prog I α → (List I.Event → α → Prop) → Prop
  | .ret a, Q => Q [] a
  | .act o k, Q => ∀ r, (k r).EndsWith fun tr a => Q (⟨o, r⟩ :: tr) a
  | .spin, _ => False

theorem EndsWith.mono {Q Q' : List I.Event → α → Prop} {p : Prog I α} (h : p.EndsWith Q)
    (hQ : ∀ tr a, Q tr a → Q' tr a) : p.EndsWith Q' := by
  induction p generalizing Q Q' with
  | ret a => exact hQ [] a h
  | act o k ih => exact fun r => ih r (h r) fun tr a => hQ _ a
  | spin => exact h

/-- The first part ends as the second part needs. -/
theorem EndsWith.bind {Q : List I.Event → β → Prop} {p : Prog I α} {f : α → Prog I β}
    (h : p.EndsWith fun tr a => (f a).EndsWith fun tr' b => Q (tr ++ tr') b) : (p >>= f).EndsWith Q := by
  induction p generalizing Q with
  | ret a => exact h
  | act o k ih => exact fun r => ih r (h r)
  | spin => exact h.elim

/-- Every run is one of them. -/
theorem Ran.endsWith {Q : List I.Event → α → Prop} {p : Prog I α} {x : Option α} (h : p.Ran exec s tr x t)
    (hp : p.EndsWith Q) : ∃ a, x = some a ∧ Q tr a := by
  induction p generalizing s tr Q with
  | ret a =>
      obtain ⟨rfl, rfl, -⟩ := h
      exact ⟨a, rfl, hp⟩
  | act o k ih =>
      obtain ⟨r, u, tr', -, hk, rfl⟩ := h
      have hrest := ih r hk (hp r)
      exact hrest
  | spin => exact hp.elim

end Runs

/-! ## runs that are not over -/

/-- Answered as in the trace, the program comes to what is left of it. -/
inductive Leads : Prog I α → List I.Event → Prog I α → Prop where
  | refl {p} : Leads p [] p
  | act {o : I.Op} {k : I.Res o → Prog I α} {r : I.Res o} {tr q} : Leads (k r) tr q → Leads (.act o k) (⟨o, r⟩ :: tr) q

/-- One more operation. -/
theorem Leads.snoc {p : Prog I α} {tr : List I.Event} {o : I.Op} {k : I.Res o → Prog I α} (h : p.Leads tr (.act o k))
    (r : I.Res o) : p.Leads (tr ++ [⟨o, r⟩]) (k r) := by
  generalize hq : Prog.act o k = q at h
  induction h with
  | refl =>
      cases hq
      exact .act .refl
  | act _ ih => exact .act (ih hq)

/-- The next `n` operations of a program, with the answers of a handler. -/
def events (h : (o : I.Op) → σ → I.Res o × σ) : Nat → Prog I α → σ → List I.Event
  | n + 1, .act o k, s => ⟨o, (h o s).1⟩ :: (k (h o s).1).events h n (h o s).2
  | _, _, _ => []

/-- What is left of a program issues operations of the program, and so does the
trace. -/
theorem Leads.each {Q : I.Op → Prop} {p q : Prog I α} {tr : List I.Event} (h : p.Leads tr q) (hp : p.Each Q) :
    q.Each Q ∧ ∀ e ∈ tr, Q e.1 := by
  induction h with
  | refl => exact ⟨hp, by simp⟩
  | act _ ih =>
      obtain ⟨hq, htr⟩ := ih (hp.2 _)
      simp only [List.mem_cons, forall_eq_or_imp]
      exact ⟨hq, hp.1, htr⟩

/-- Whatever the answers are, the program does not end but with a trace and a
result that satisfy `Q`. -/
def Yields : Prog I α → (List I.Event → α → Prop) → Prop
  | .ret a, Q => Q [] a
  | .act o k, Q => ∀ r, (k r).Yields fun tr a => Q (⟨o, r⟩ :: tr) a
  | .spin, _ => True

theorem Yields.mono {Q Q' : List I.Event → α → Prop} {p : Prog I α} (h : p.Yields Q)
    (hQ : ∀ tr a, Q tr a → Q' tr a) : p.Yields Q' := by
  induction p generalizing Q Q' with
  | ret a => exact hQ [] a h
  | act o k ih => exact fun r => ih r (h r) fun tr a => hQ _ a
  | spin => trivial

/-- The first part ends as the second part needs. -/
theorem Yields.bind {Q : List I.Event → β → Prop} {p : Prog I α} {f : α → Prog I β}
    (h : p.Yields fun tr a => (f a).Yields fun tr' b => Q (tr ++ tr') b) : (p >>= f).Yields Q := by
  induction p generalizing Q with
  | ret a => exact h
  | act o k ih => exact fun r => ih r (h r)
  | spin => trivial

theorem Leads.yields {Q : List I.Event → α → Prop} {p : Prog I α} {tr : List I.Event} {a : α}
    (h : p.Leads tr (.ret a)) (hp : p.Yields Q) : Q tr a := by
  generalize hq : Prog.ret a = q at h
  induction h generalizing Q with
  | refl =>
      cases hq
      exact hp
  | act _ ih =>
      have hrest := ih (hp _) hq
      exact hrest

end Prog
