import Mathlib.Logic.Relation

/-!
# Axivc.Lib.Prog

Sequential programs over an interface of operations, in resumption form.

A program either returns, or performs one operation and goes on with its
answer.  Nothing is said here about what an operation does: a *handler*
gives the operations a meaning on some state, and the same program text is
run by different handlers — alone on a state (`run`), or step by step among
other programs (`Axivc.Lib.Rely`).

Loops without a bound of their own take the number of iterations they are
granted as an argument and end in `spin` once it is used up: a program that
has reached `spin` is one that has not returned yet.
-/

/-- An interface: the operations, and the type of the answer to each. -/
structure Iface where
  Op : Type
  Res : Op → Type

/-- A program over the interface `I` with results in `α`. -/
inductive Prog (I : Iface) (α : Type) : Type where
  | ret (a : α)
  | act (o : I.Op) (k : I.Res o → Prog I α)
  | spin

namespace Prog

variable {I J : Iface} {α β : Type} {σ : Type}

/-! ## sequencing -/

/-- Sequencing: run `p`, then `f` on its result. -/
def bind : Prog I α → (α → Prog I β) → Prog I β
  | .ret a, f => f a
  | .act o k, f => .act o fun r => (k r).bind f
  | .spin, _ => .spin

instance : Monad (Prog I) where
  pure := .ret
  bind := bind

/-- A single operation as a program. -/
def op (o : I.Op) : Prog I (I.Res o) := .act o .ret

@[simp] theorem pure_eq_ret (a : α) : (pure a : Prog I α) = .ret a := rfl

@[simp] theorem ret_bind (a : α) (f : α → Prog I β) : (Prog.ret a >>= f) = f a := rfl

@[simp] theorem act_bind (o : I.Op) (k : I.Res o → Prog I α) (f : α → Prog I β) :
    (Prog.act o k >>= f) = .act o fun r => k r >>= f := rfl

@[simp] theorem spin_bind (f : α → Prog I β) : ((.spin : Prog I α) >>= f) = .spin := rfl

@[simp] theorem op_eq (o : I.Op) : (op o : Prog I (I.Res o)) = .act o .ret := rfl

theorem bind_ret (p : Prog I α) : (p >>= .ret) = p := by
  induction p with
  | ret a => rfl
  | act o k ih => exact congrArg (Prog.act o) (funext ih)
  | spin => rfl

theorem bind_assoc {γ : Type} (p : Prog I α) (f : α → Prog I β) (g : β → Prog I γ) :
    (p >>= f >>= g) = p >>= fun a => f a >>= g := by
  induction p with
  | ret a => rfl
  | act o k ih => exact congrArg (Prog.act o) (funext ih)
  | spin => rfl

/-! ## programs that always return -/

/-- `p` returns whatever the answers to its operations are: no sequence of
answers leads it to `spin`. -/
def Returns : Prog I α → Prop
  | .ret _ => True
  | .act _ k => ∀ r, (k r).Returns
  | .spin => False

theorem Returns.bind {p : Prog I α} {f : α → Prog I β} (hp : p.Returns)
    (hf : ∀ a, (f a).Returns) : (p >>= f).Returns := by
  induction p with
  | ret a => exact hf a
  | act o k ih => exact fun r => ih r (hp r)
  | spin => exact hp.elim

/-! ## the results of a program -/

/-- Whatever the answers to its operations are, `p` returns nothing but
results that satisfy `Q`. -/
def Ends (Q : α → Prop) : Prog I α → Prop
  | .ret a => Q a
  | .act _ k => ∀ r, (k r).Ends Q
  | .spin => True

theorem Ends.bind {Q : α → Prop} {Q' : β → Prop} {p : Prog I α} {f : α → Prog I β} (hp : p.Ends Q)
    (hf : ∀ a, Q a → (f a).Ends Q') : (p >>= f).Ends Q' := by
  induction p with
  | ret a => exact hf a hp
  | act o k ih => exact fun r => ih r (hp r)
  | spin => trivial

theorem Ends.mono {Q Q' : α → Prop} {p : Prog I α} (hp : p.Ends Q) (h : ∀ a, Q a → Q' a) : p.Ends Q' := by
  induction p with
  | ret a => exact h a hp
  | act o k ih => exact fun r => ih r (hp r)
  | spin => trivial

/-! ## the operations of a program -/

/-- Every operation the program may issue satisfies `Q`. -/
def Each (Q : I.Op → Prop) : Prog I α → Prop
  | .ret _ => True
  | .act o k => Q o ∧ ∀ r, (k r).Each Q
  | .spin => True

theorem Each.bind {Q : I.Op → Prop} {p : Prog I α} {f : α → Prog I β} (hp : p.Each Q)
    (hf : ∀ a, (f a).Each Q) : (p >>= f).Each Q := by
  induction p with
  | ret a => exact hf a
  | act o k ih => exact ⟨hp.1, fun r => ih r (hp.2 r)⟩
  | spin => trivial

theorem each_true (p : Prog I α) : p.Each fun _ => True := by
  induction p with
  | ret a => trivial
  | act o k ih => exact ⟨trivial, ih⟩
  | spin => trivial

/-! ## all of these at once -/

/-- Whatever the answers are, `p` returns, has issued operations of `Q` only,
and returns a result of `P`. -/
structure Meets (Q : I.Op → Prop) (P : α → Prop) (p : Prog I α) : Prop where
  returns : p.Returns
  each : p.Each Q
  ends : p.Ends P

theorem Meets.ret {Q : I.Op → Prop} {P : α → Prop} {a : α} (h : P a) : Meets Q P (Prog.ret a : Prog I α) :=
  ⟨trivial, trivial, h⟩

theorem Meets.act {Q : I.Op → Prop} {P : α → Prop} {o : I.Op} {k : I.Res o → Prog I α} (ho : Q o)
    (hk : ∀ r, Meets Q P (k r)) : Meets Q P (.act o k) :=
  ⟨fun r => (hk r).returns, ⟨ho, fun r => (hk r).each⟩, fun r => (hk r).ends⟩

/-- Sequencing. -/
theorem Meets.bind {Q : I.Op → Prop} {P : α → Prop} {P' : β → Prop} {p : Prog I α} {f : α → Prog I β}
    (hp : Meets Q P p) (hf : ∀ a, P a → Meets Q P' (f a)) : Meets Q P' (p >>= f) := by
  induction p with
  | ret a => exact hf a hp.ends
  | act o k ih => exact .act hp.each.1 fun r => ih r ⟨hp.returns r, hp.each.2 r, hp.ends r⟩
  | spin => exact hp.returns.elim

/-! ## running alone -/

/-- Run a program on a state, each operation answered by the handler; `none`
when the program is still running at `spin`. -/
def run (h : (o : I.Op) → σ → I.Res o × σ) : Prog I α → σ → Option (α × σ)
  | .ret a, s => some (a, s)
  | .act o k, s => (k (h o s).1).run h (h o s).2
  | .spin, _ => none

@[simp] theorem run_ret (h : (o : I.Op) → σ → I.Res o × σ) (a : α) (s : σ) :
    (Prog.ret a).run h s = some (a, s) := rfl

@[simp] theorem run_act (h : (o : I.Op) → σ → I.Res o × σ) (o : I.Op)
    (k : I.Res o → Prog I α) (s : σ) :
    (Prog.act o k).run h s = (k (h o s).1).run h (h o s).2 := rfl

/-- Running a sequence runs the second part from where the first part ended. -/
theorem run_bind (h : (o : I.Op) → σ → I.Res o × σ) (p : Prog I α) (f : α → Prog I β) (s : σ) :
    (p >>= f).run h s = (p.run h s).bind fun r => (f r.1).run h r.2 := by
  induction p generalizing s with
  | ret a => rfl
  | act o k ih => exact ih _ _
  | spin => rfl

/-- Running on a part of a larger state. -/
theorem run_lens {τ : Type} {g : (o : I.Op) → σ → I.Res o × σ} {g' : (o : I.Op) → τ → I.Res o × τ}
    (put : σ → τ) (hg : ∀ o s, g' o (put s) = ((g o s).1, put (g o s).2)) {p : Prog I α} {s s' : σ} {a : α}
    (h : p.run g s = some (a, s')) : p.run g' (put s) = some (a, put s') := by
  induction p generalizing s with
  | ret b =>
      cases h
      rfl
  | act o k ih =>
      rw [run_act, hg]
      exact ih _ h
  | spin => cases h

/-- A program that always returns has a result on every state. -/
theorem Returns.run_isSome {p : Prog I α} (hp : p.Returns)
    (h : (o : I.Op) → σ → I.Res o × σ) (s : σ) : ∃ r, p.run h s = some r := by
  induction p generalizing s with
  | ret a => exact ⟨_, rfl⟩
  | act o k ih => exact ih _ (hp _) _
  | spin => exact hp.elim

/-- Run the next `n` operations of a program. -/
def advance (h : (o : I.Op) → σ → I.Res o × σ) : Nat → Prog I α → σ → Prog I α × σ
  | n + 1, .act o k, s => (k (h o s).1).advance h n (h o s).2
  | _, p, s => (p, s)

/-- The next `n` operations of a program are all among `ok`. -/
def nextAre (ok : I.Op → Bool) (h : (o : I.Op) → σ → I.Res o × σ) : Nat → Prog I α → σ → Bool
  | n + 1, .act o k, s => ok o && (k (h o s).1).nextAre ok h n (h o s).2
  | _, _, _ => true

theorem nextAre_true (h : (o : I.Op) → σ → I.Res o × σ) (n : Nat) (p : Prog I α) (s : σ) :
    p.nextAre (fun _ => true) h n s = true := by
  induction n generalizing p s with
  | zero => cases p <;> rfl
  | succ n ih =>
      cases p with
      | act o k => exact ih _ _
      | ret a => rfl
      | spin => rfl

/-! ## implementing one interface by another -/

/-- Replace every operation by a program over another interface. -/
def subst (h : (o : I.Op) → Prog J (I.Res o)) : Prog I α → Prog J α
  | .ret a => .ret a
  | .act o k => h o >>= fun r => (k r).subst h
  | .spin => .spin

@[simp] theorem subst_ret (h : (o : I.Op) → Prog J (I.Res o)) (a : α) :
    (Prog.ret a).subst h = .ret a := rfl

@[simp] theorem subst_act (h : (o : I.Op) → Prog J (I.Res o)) (o : I.Op)
    (k : I.Res o → Prog I α) :
    (Prog.act o k).subst h = h o >>= fun r => (k r).subst h := rfl

@[simp] theorem subst_spin (h : (o : I.Op) → Prog J (I.Res o)) :
    (.spin : Prog I α).subst h = .spin := rfl

theorem subst_bind (h : (o : I.Op) → Prog J (I.Res o)) (p : Prog I α) (f : α → Prog I β) :
    (p >>= f).subst h = p.subst h >>= fun a => (f a).subst h := by
  induction p with
  | ret a => rfl
  | act o k ih =>
      simp only [act_bind, subst_act, ih]
      exact (bind_assoc _ _ _).symm
  | spin => rfl

theorem Each.subst {Q : I.Op → Prop} {Q' : J.Op → Prop} {h : (o : I.Op) → Prog J (I.Res o)}
    (hh : ∀ o, Q o → (h o).Each Q') {p : Prog I α} (hp : p.Each Q) : (p.subst h).Each Q' := by
  induction p with
  | ret a => trivial
  | act o k ih => exact (hh o hp.1).bind fun r => ih r (hp.2 r)
  | spin => trivial

/-- When the program of every operation runs as the handler `g'` says, the
whole program runs as it does over `g'`. -/
theorem run_subst {h : (o : I.Op) → Prog J (I.Res o)} {g : (o : J.Op) → σ → J.Res o × σ}
    {g' : (o : I.Op) → σ → I.Res o × σ} (hg : ∀ o s, (h o).run g s = some (g' o s))
    (p : Prog I α) (s : σ) : (p.subst h).run g s = p.run g' s := by
  induction p generalizing s with
  | ret a => rfl
  | act o k ih => rw [subst_act, run_bind, hg, Option.bind_some, ih, run_act]
  | spin => rfl

/-! ## call after call -/

/-- A step that always succeeds from good states, and leads to good states,
can be taken any number of times. -/
theorem run_steps {α : Type} {step : σ → α → Option σ} {P : σ → Prop}
    (hstep : ∀ s a, P s → ∃ t, step s a = some t ∧ P t) (as : List α) {s : σ} (hs : P s) :
    ∃ t, as.foldlM step s = some t ∧ P t := by
  induction as generalizing s with
  | nil => exact ⟨s, rfl, hs⟩
  | cons a as ih =>
      obtain ⟨t, ht, hP⟩ := hstep s a hs
      obtain ⟨u, hu, hP'⟩ := ih hP
      exact ⟨u, by rw [List.foldlM_cons, ht]; exact hu, hP'⟩

end Prog
