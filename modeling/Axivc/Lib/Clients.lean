import Axivc.Lib.Rely
import Axivc.Lib.Trace

/-!
# Axivc.Lib.Clients

Programs whose operations are calls of machines.

A machine runs calls at single steps; a client runs one call after another,
with operations of its own between them.  `Clients` are any number of such
programs over a family of machines that share nothing: a step is a step of one
of the machines, in a call that some client waits for, or an operation of a
client's own.  So every run of the clients is a run of each machine, and what
holds in every run of a machine holds here as well (`Orderly.reachable`).

Each client keeps a record of what it has been answered and of what its calls
have done.  `Orderly` says that the record is true to the program texts.
-/

namespace Rely

open Prog

/-- Programs over the interface `J`, some of whose operations are calls. -/
structure Clients (κ : Type) (Call Ret : κ → Type) (J : Iface) (Job Out : Type) where
  body : Job → Prog J Out
  /-- the call that an operation is, if it is one -/
  calls : J.Op → Option (Σ x, Call x)
  /-- what a client makes of the result of a call -/
  gives : (o : J.Op) → (x : κ) → Ret x → J.Res o → Prop

namespace Clients

/-- A client at work: what is left of its program, what it has been answered,
and what its calls have done. -/
structure Client {κ : Type} (I : κ → Iface) (J : Iface) (Job Out : Type) where
  job : Job
  rest : Prog J Out
  done : List J.Event
  log : List (Σ x, (I x).Event)

/-- The machines and their clients. -/
structure World (ι : Type) {κ : Type} (I : κ → Iface) (σ Ret : κ → Type) (J : Iface) (Job Out : Type) where
  below : (x : κ) → Config ι (I x) (σ x) (Ret x)
  client : ι → Option (Client I J Job Out)

variable {ι κ : Type} {I : κ → Iface} {σ Call Ret : κ → Type} {J : Iface} {Job Out : Type}

/-- One step.  Client `i` is thread `i` of each machine. -/
inductive Step [DecidableEq ι] [DecidableEq κ] (C : Clients κ Call Ret J Job Out) (M : (x : κ) → Machine ι (I x) (σ x) (Call x) (Ret x)) :
    World ι I σ Ret J Job Out → World ι I σ Ret J Job Out → Prop where
  | env {c} (x : κ) {s'} : (M x).env (c.below x).shared s' →
      Step C M c ⟨Function.update c.below x ⟨s', (c.below x).thread⟩, c.client⟩
  | begin {c} (i : ι) (job : Job) : c.client i = none →
      Step C M c ⟨c.below, Function.update c.client i (some ⟨job, C.body job, [], []⟩)⟩
  | own {c} (i : ι) {t : Client I J Job Out} {o : J.Op} {k : J.Res o → Prog J Out} (r : J.Res o) : c.client i = some t →
      t.rest = .act o k → C.calls o = none →
      Step C M c ⟨c.below, Function.update c.client i (some ⟨t.job, k r, t.done ++ [⟨o, r⟩], t.log⟩)⟩
  | call {c} (i : ι) {t : Client I J Job Out} {o : J.Op} {k : J.Res o → Prog J Out} {x : κ} {call : Call x} {s'} :
      c.client i = some t → t.rest = .act o k → C.calls o = some ⟨x, call⟩ → (c.below x).thread i = none →
      (M x).start i call (c.below x).shared s' →
      Step C M c ⟨Function.update c.below x
        ⟨s', Function.update (c.below x).thread i (some ((M x).body i call s'))⟩, c.client⟩
  | act {c} (i : ι) (x : κ) {t : Client I J Job Out} {o : (I x).Op} {k : (I x).Res o → Prog (I x) (Ret x)}
      (r : (I x).Res o) {s'} : c.client i = some t → (c.below x).thread i = some (.act o k) →
      (M x).exec i o (c.below x).shared r s' →
      Step C M c ⟨Function.update c.below x ⟨s', Function.update (c.below x).thread i (some (k r))⟩,
        Function.update c.client i (some ⟨t.job, t.rest, t.done, t.log ++ [⟨x, o, r⟩]⟩)⟩
  | answer {c} (i : ι) {t : Client I J Job Out} {o : J.Op} {k : J.Res o → Prog J Out} {x : κ} {call : Call x} {a : Ret x}
      (r : J.Res o) {s'} : c.client i = some t → t.rest = .act o k → C.calls o = some ⟨x, call⟩ →
      (c.below x).thread i = some (.ret a) → (M x).finish i a (c.below x).shared s' → C.gives o x a r →
      Step C M c ⟨Function.update c.below x ⟨s', Function.update (c.below x).thread i none⟩,
        Function.update c.client i (some ⟨t.job, k r, t.done ++ [⟨o, r⟩], t.log⟩)⟩
  | finish {c} (i : ι) {t : Client I J Job Out} {b : Out} : c.client i = some t → t.rest = .ret b →
      Step C M c ⟨c.below, Function.update c.client i none⟩

/-- No client is at work. -/
def quiet (s : (x : κ) → σ x) : World ι I σ Ret J Job Out := ⟨fun x => Machine.quiet (s x), fun _ => none⟩

/-- What some interleaving leads to. -/
def Reachable [DecidableEq ι] [DecidableEq κ] (C : Clients κ Call Ret J Job Out) (M : (x : κ) → Machine ι (I x) (σ x) (Call x) (Ret x))
    (s : (x : κ) → σ x) (c : World ι I σ Ret J Job Out) : Prop :=
  Relation.ReflTransGen (C.Step M) (quiet s) c

/-! ## true records -/

variable {C : Clients κ Call Ret J Job Out} {M : (x : κ) → Machine ι (I x) (σ x) (Call x) (Ret x)} {s : (x : κ) → σ x}
  {c c' : World ι I σ Ret J Job Out} {i : ι} {done : List J.Event} {log : List (Σ x, (I x).Event)}

/-- The log is what the calls among `done` have done, one after the other. -/
def Logged (C : Clients κ Call Ret J Job Out) (M : (x : κ) → Machine ι (I x) (σ x) (Call x) (Ret x)) (i : ι) :
    List J.Event → List (Σ x, (I x).Event) → Prop
  | [], log => log = []
  | ⟨o, r⟩ :: done, log =>
      match C.calls o with
      | none => Logged C M i done log
      | some ⟨x, call⟩ => ∃ s a tr log', ((M x).body i call s).Leads tr (.ret a) ∧ C.gives o x a r ∧
          Logged C M i done log' ∧ log = tr.map (Sigma.mk x) ++ log'

theorem Logged.own (h : C.Logged M i done log) {o : J.Op} (ho : C.calls o = none) (r : J.Res o) :
    C.Logged M i (done ++ [⟨o, r⟩]) log := by
  induction done generalizing log with
  | nil => simpa [Logged, ho] using h
  | cons e done ih =>
      obtain ⟨o', r'⟩ := e
      simp only [List.cons_append, Logged] at h ⊢
      split at h
      · exact ih h
      · obtain ⟨s, a, tr, log', hlead, hgives, hlog, rfl⟩ := h
        exact ⟨s, a, tr, log', hlead, hgives, ih hlog, rfl⟩

theorem Logged.call (h : C.Logged M i done log) {o : J.Op} {x : κ} {call : Call x} (ho : C.calls o = some ⟨x, call⟩)
    {s : σ x} {a : Ret x} {tr : List (I x).Event} (hlead : ((M x).body i call s).Leads tr (.ret a)) {r : J.Res o}
    (hgives : C.gives o x a r) : C.Logged M i (done ++ [⟨o, r⟩]) (log ++ tr.map (Sigma.mk x)) := by
  induction done generalizing log with
  | nil =>
      rw [show log = [] from h]
      simp only [List.nil_append, Logged, ho]
      exact ⟨s, a, tr, [], hlead, hgives, rfl, by simp⟩
  | cons e done ih =>
      obtain ⟨o', r'⟩ := e
      simp only [List.cons_append, Logged] at h ⊢
      split at h
      · exact ih h
      · obtain ⟨s', a', tr', log', hlead', hgives', hlog, rfl⟩ := h
        exact ⟨s', a', tr', _, hlead', hgives', ih hlog, by simp⟩

/-- A call of client `i` that is running: the client waits for it, and the log
ends with what the call has done. -/
structure Calling (C : Clients κ Call Ret J Job Out) (M : (x : κ) → Machine ι (I x) (σ x) (Call x) (Ret x)) (i : ι)
    (t : Client I J Job Out) (x : κ) (p : Prog (I x) (Ret x)) : Prop where
  waits : ∃ o k call s before tr, t.rest = .act o k ∧ C.calls o = some ⟨x, call⟩ ∧
    ((M x).body i call s).Leads tr p ∧ C.Logged M i t.done before ∧ t.log = before ++ tr.map (Sigma.mk x)

/-- The clients in every run. -/
structure Orderly [DecidableEq ι] (C : Clients κ Call Ret J Job Out) (M : (x : κ) → Machine ι (I x) (σ x) (Call x) (Ret x))
    (s : (x : κ) → σ x) (c : World ι I σ Ret J Job Out) : Prop where
  reachable : ∀ x, (M x).Reachable (s x) (c.below x)
  rest : ∀ i t, c.client i = some t → (C.body t.job).Leads t.done t.rest
  calling : ∀ i x p, (c.below x).thread i = some p → ∃ t, c.client i = some t ∧ C.Calling M i t x p
  logged : ∀ i t, c.client i = some t → (∀ x, (c.below x).thread i = none) → C.Logged M i t.done t.log

theorem Orderly.quiet [DecidableEq ι] (s : (x : κ) → σ x) : C.Orderly M s (quiet s) where
  reachable _ := .refl
  rest _ _ h := by cases h
  calling _ _ _ h := by cases h
  logged _ _ h := by cases h

section Runs

variable [DecidableEq ι]

/-- A client that waits for no call of the machine `x` is not in one. -/
theorem Orderly.idle (h : C.Orderly M s c) {t : Client I J Job Out} {x : κ} (hi : c.client i = some t)
    (hwaits : ∀ o k call, t.rest = .act o k → C.calls o ≠ some ⟨x, call⟩) : (c.below x).thread i = none := by
  cases hp : (c.below x).thread i with
  | none => rfl
  | some p =>
      obtain ⟨t', ht', hcalling⟩ := h.calling i x p hp
      cases hi.symm.trans ht'
      obtain ⟨o, k, call, s, before, tr, hrest, hcalls, -⟩ := hcalling.waits
      exact absurd hcalls (hwaits o k call hrest)

/-- A client that waits for a call of one machine is in no call of another. -/
theorem Orderly.idle_elsewhere (h : C.Orderly M s c) {t : Client I J Job Out} {o : J.Op} {k : J.Res o → Prog J Out} {x y : κ}
    {call : Call x} (hi : c.client i = some t) (hrest : t.rest = .act o k) (hcalls : C.calls o = some ⟨x, call⟩) (hy : y ≠ x) :
    (c.below y).thread i = none := by
  refine h.idle hi fun o' k' call' ho heq => ?_
  cases hrest.symm.trans ho
  cases hcalls.symm.trans heq
  exact hy rfl

/-- No call runs for a client that is not at work. -/
theorem Orderly.idle_of_none (h : C.Orderly M s c) (hi : c.client i = none) (x : κ) : (c.below x).thread i = none := by
  cases hp : (c.below x).thread i with
  | none => rfl
  | some p =>
      obtain ⟨t, ht, -⟩ := h.calling i x p hp
      cases hi.symm.trans ht

/-- A step of a client that is in no call. -/
theorem Orderly.of_client (h : C.Orderly M s c) (hidle : ∀ x, (c.below x).thread i = none)
    {z : Option (Client I J Job Out)} (hrest : ∀ t, z = some t → (C.body t.job).Leads t.done t.rest)
    (hlogged : ∀ t, z = some t → C.Logged M i t.done t.log) :
    C.Orderly M s ⟨c.below, Function.update c.client i z⟩ where
  reachable := h.reachable
  rest j t ht := by
    by_cases hj : j = i
    · subst hj
      exact hrest t (by simpa only [Function.update_self] using ht)
    · exact h.rest j t (by simpa only [Function.update_of_ne hj] using ht)
  calling j x p hp := by
    by_cases hj : j = i
    · subst hj
      cases (hidle x).symm.trans hp
    · simpa only [Function.update_of_ne hj] using h.calling j x p hp
  logged j t ht hnone := by
    by_cases hj : j = i
    · subst hj
      exact hlogged t (by simpa only [Function.update_self] using ht)
    · exact h.logged j t (by simpa only [Function.update_of_ne hj] using ht) hnone

variable [DecidableEq κ]

/-- A step of the machine `x` in a call of client `i`. -/
theorem Orderly.of_thread (h : C.Orderly M s c) {x : κ} {s' : σ x} {q : Option (Prog (I x) (Ret x))} {t : Client I J Job Out}
    (hreachable : (M x).Reachable (s x) ⟨s', Function.update (c.below x).thread i q⟩)
    (hothers : ∀ y, y ≠ x → (c.below y).thread i = none) (hrest : (C.body t.job).Leads t.done t.rest)
    (hcalling : ∀ p, q = some p → C.Calling M i t x p) (hlogged : q = none → C.Logged M i t.done t.log) :
    C.Orderly M s ⟨Function.update c.below x ⟨s', Function.update (c.below x).thread i q⟩,
      Function.update c.client i (some t)⟩ where
  reachable y := by
    obtain rfl | hy := eq_or_ne y x
    · simpa only [Function.update_self] using hreachable
    · simpa only [Function.update_of_ne hy] using h.reachable y
  rest j t' ht' := by
    by_cases hj : j = i
    · subst hj
      simp only [Function.update_self] at ht'
      cases ht'
      exact hrest
    · exact h.rest j t' (by simpa only [Function.update_of_ne hj] using ht')
  calling j y p hp := by
    by_cases hj : j = i
    · subst hj
      simp only [Function.update_self]
      obtain rfl | hy := eq_or_ne y x
      · simp only [Function.update_self] at hp
        exact ⟨t, rfl, hcalling p hp⟩
      · simp only [Function.update_of_ne hy] at hp
        cases (hothers y hy).symm.trans hp
    · simp only [Function.update_of_ne hj]
      obtain rfl | hy := eq_or_ne y x
      · simp only [Function.update_self, Function.update_of_ne hj] at hp
        exact h.calling j y p hp
      · simp only [Function.update_of_ne hy] at hp
        exact h.calling j y p hp
  logged j t' ht' hnone := by
    by_cases hj : j = i
    · subst hj
      simp only [Function.update_self] at ht'
      cases ht'
      have hx := hnone x
      simp only [Function.update_self] at hx
      exact hlogged hx
    · refine h.logged j t' (by simpa only [Function.update_of_ne hj] using ht') fun y => ?_
      have hy := hnone y
      obtain rfl | hyx := eq_or_ne y x
      · simpa only [Function.update_self, Function.update_of_ne hj] using hy
      · simpa only [Function.update_of_ne hyx] using hy

/-- **Step rule** of clients. -/
theorem Orderly.step (h : C.Orderly M s c) (hstep : C.Step M c c') : C.Orderly M s c' := by
  cases hstep with
  | @env x s' he =>
      have hthread (y : κ) : (Function.update c.below x ⟨s', (c.below x).thread⟩ y).thread = (c.below y).thread := by
        obtain rfl | hy := eq_or_ne y x
        · rw [Function.update_self]
        · rw [Function.update_of_ne hy]
      refine ⟨fun y => ?_, h.rest, fun j y p hp => ?_, fun j t ht hidle => h.logged j t ht fun y => ?_⟩
      · obtain rfl | hy := eq_or_ne y x
        · simp only [Function.update_self]
          exact (h.reachable y).tail (.env he)
        · simpa only [Function.update_of_ne hy] using h.reachable y
      · exact h.calling j y p (by rw [← hthread]; exact hp)
      · rw [← hthread]
        exact hidle y
  | begin i job hi =>
      refine h.of_client (h.idle_of_none hi) ?_ ?_
      · rintro t ⟨⟩
        exact .refl
      · rintro t ⟨⟩
        rfl
  | own i r hi hrest hcalls =>
      have hidle (x : κ) := h.idle (x := x) hi fun o k call ho => by
        cases hrest.symm.trans ho
        simp [hcalls]
      refine h.of_client hidle ?_ ?_
      · rintro t ⟨⟩
        have hlead := h.rest i _ hi
        rw [hrest] at hlead
        exact hlead.snoc r
      · rintro t ⟨⟩
        exact (h.logged i _ hi hidle).own hcalls r
  | finish i hi hrest =>
      refine h.of_client (fun x => h.idle hi fun o k call ho => ?_) (by simp) (by simp)
      cases hrest.symm.trans ho
  | @call i t o k x call s' hi hrest hcalls hidle hstart =>
      have hothers (y : κ) (hy : y ≠ x) := h.idle_elsewhere hi hrest hcalls hy
      have hall (y : κ) : (c.below y).thread i = none := by
        obtain rfl | hy := eq_or_ne y x
        · exact hidle
        · exact hothers y hy
      rw [← Function.update_eq_self i c.client, hi]
      refine h.of_thread ((h.reachable x).start i call hidle hstart) hothers (h.rest i t hi) ?_ (by simp)
      rintro p ⟨⟩
      exact ⟨o, k, call, s', t.log, [], hrest, hcalls, .refl, h.logged i t hi hall, by simp⟩
  | @act i x t o k r s' hi hp hexec =>
      obtain ⟨t', ht', ⟨o', k', call, s₁, before, tr, hrest, hcalls, hlead, hlogged, hlog⟩⟩ := h.calling i x _ hp
      cases hi.symm.trans ht'
      have hothers (y : κ) (hy : y ≠ x) := h.idle_elsewhere hi hrest hcalls hy
      refine h.of_thread ((h.reachable x).act i r hp hexec) hothers (h.rest i t hi) ?_ (by simp)
      rintro p ⟨⟩
      exact ⟨o', k', call, s₁, before, _, hrest, hcalls, hlead.snoc r, hlogged, by simp [hlog]⟩
  | @answer i t o k x call a r s' hi hrest hcalls hret hfinish hgives =>
      obtain ⟨t', ht', ⟨o', k', call', s₁, before, tr, hrest', hcalls', hlead, hlogged, hlog⟩⟩ := h.calling i x _ hret
      cases hi.symm.trans ht'
      cases hrest.symm.trans hrest'
      cases hcalls.symm.trans hcalls'
      have hothers (y : κ) (hy : y ≠ x) := h.idle_elsewhere hi hrest hcalls hy
      have hdone := h.rest i t hi
      rw [hrest] at hdone
      refine h.of_thread ((h.reachable x).finish i hret hfinish) hothers (hdone.snoc r) (by simp) fun _ => ?_
      rw [hlog]
      exact hlogged.call hcalls hlead hgives

/-- **Run rule** of clients. -/
theorem orderly (h : C.Reachable M s c) : C.Orderly M s c := by
  induction h with
  | refl => exact .quiet s
  | tail _ hstep ih => exact ih.step hstep

/-! ## a run on given inputs -/

/-- Some run leads to this state and these threads of the machine `x`, and these
clients. -/
def Comes (C : Clients κ Call Ret J Job Out) (M : (x : κ) → Machine ι (I x) (σ x) (Call x) (Ret x)) (s : (x : κ) → σ x)
    (x : κ) (u : σ x) (T : ι → Option (Prog (I x) (Ret x))) (client : ι → Option (Client I J Job Out)) : Prop :=
  ∃ c, C.Reachable M s c ∧ c.below x = ⟨u, T⟩ ∧ c.client = client

variable {x : κ} {u u' : σ x} {T : ι → Option (Prog (I x) (Ret x))} {client : ι → Option (Client I J Job Out)} {t : Client I J Job Out}

theorem Comes.init (s : (x : κ) → σ x) (x : κ) : C.Comes M s x (s x) (fun _ => none) fun _ => none :=
  ⟨_, .refl, rfl, rfl⟩

theorem Comes.begin (h : C.Comes M s x u T client) (i : ι) (job : Job) (hi : client i = none) :
    C.Comes M s x u T (Function.update client i (some ⟨job, C.body job, [], []⟩)) := by
  obtain ⟨c, hc, hbelow, rfl⟩ := h
  exact ⟨_, hc.tail (.begin i job hi), hbelow, rfl⟩

theorem Comes.own (h : C.Comes M s x u T client) {o : J.Op} {k : J.Res o → Prog J Out} (r : J.Res o)
    (hi : client i = some t) (hrest : t.rest = .act o k) (hcalls : C.calls o = none) :
    C.Comes M s x u T (Function.update client i (some ⟨t.job, k r, t.done ++ [⟨o, r⟩], t.log⟩)) := by
  obtain ⟨c, hc, hbelow, rfl⟩ := h
  exact ⟨_, hc.tail (.own i r hi hrest hcalls), hbelow, rfl⟩

theorem Comes.call (h : C.Comes M s x u T client) {o : J.Op} {k : J.Res o → Prog J Out} {call : Call x}
    (hi : client i = some t) (hrest : t.rest = .act o k) (hcalls : C.calls o = some ⟨x, call⟩) (hidle : T i = none)
    (hstart : (M x).start i call u u') :
    C.Comes M s x u' (Function.update T i (some ((M x).body i call u'))) client := by
  obtain ⟨c, hc, hbelow, rfl⟩ := h
  refine ⟨_, hc.tail (.call i hi hrest hcalls (by rw [hbelow]; exact hidle) (by rw [hbelow]; exact hstart)), ?_, rfl⟩
  simp only [Function.update_self, hbelow]

theorem Comes.act (h : C.Comes M s x u T client) {o : (I x).Op} {k : (I x).Res o → Prog (I x) (Ret x)} (r : (I x).Res o)
    (hi : client i = some t) (hp : T i = some (.act o k)) (hexec : (M x).exec i o u r u') :
    C.Comes M s x u' (Function.update T i (some (k r)))
      (Function.update client i (some ⟨t.job, t.rest, t.done, t.log ++ [⟨x, o, r⟩]⟩)) := by
  obtain ⟨c, hc, hbelow, rfl⟩ := h
  refine ⟨_, hc.tail (.act i x r hi (by rw [hbelow]; exact hp) (by rw [hbelow]; exact hexec)), ?_, rfl⟩
  simp only [Function.update_self, hbelow]

theorem Comes.answer (h : C.Comes M s x u T client) {o : J.Op} {k : J.Res o → Prog J Out} {call : Call x} {a : Ret x} (r : J.Res o)
    (hi : client i = some t) (hrest : t.rest = .act o k) (hcalls : C.calls o = some ⟨x, call⟩) (hret : T i = some (.ret a))
    (hfinish : (M x).finish i a u u') (hgives : C.gives o x a r) :
    C.Comes M s x u' (Function.update T i none)
      (Function.update client i (some ⟨t.job, k r, t.done ++ [⟨o, r⟩], t.log⟩)) := by
  obtain ⟨c, hc, hbelow, rfl⟩ := h
  refine ⟨_, hc.tail (.answer i r hi hrest hcalls (by rw [hbelow]; exact hret) (by rw [hbelow]; exact hfinish) hgives), ?_, rfl⟩
  simp only [Function.update_self, hbelow]

/-- Let a call perform its next `n` operations, answered by a handler that some
operations allow, when these are among them. -/
theorem Comes.advance {g : (o : (I x).Op) → σ x → (I x).Res o × σ x} {ok : (I x).Op → Bool}
    (hg : ∀ o s, ok o = true → (M x).exec i o s (g o s).1 (g o s).2) (n : Nat) {p : Prog (I x) (Ret x)}
    (h : C.Comes M s x u (Function.update T i (some p)) (Function.update client i (some t)))
    (hp : p.nextAre ok g n u = true) :
    C.Comes M s x (p.advance g n u).2 (Function.update T i (some (p.advance g n u).1))
      (Function.update client i (some ⟨t.job, t.rest, t.done, t.log ++ (p.events g n u).map (Sigma.mk x)⟩)) := by
  induction n generalizing p u t with
  | zero => cases p <;> simpa [Prog.advance, Prog.events] using h
  | succ n ih =>
      cases p with
      | act o k =>
          have hok := Bool.and_eq_true_iff.mp hp
          have hstep := h.act (g o u).1 (Function.update_self ..) (Function.update_self ..) (hg o u hok.1)
          rw [Function.update_idem, Function.update_idem] at hstep
          have hrest := ih hstep hok.2
          simpa [Prog.advance, Prog.events] using hrest
      | ret a => simpa [Prog.advance, Prog.events] using h
      | spin => simpa [Prog.advance, Prog.events] using h

end Runs

end Clients

end Rely
