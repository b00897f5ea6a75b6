import Axivc.Lib.Rely

/-!
# Axivc.UioIrq

The interrupt line of `uio_ivshmem.c`.

The interrupt handler masks the line and records it in `irq_disabled`; user
space unmasks it, or masks it itself, through `irqcontrol`.  Both change the
flag under a spinlock, but `irqcontrol` calls `enable_irq` or
`disable_irq_nosync` after it has dropped the lock, and a handler may come in
between.  `Balanced` keeps the account: the depth of the line is what the flag
says, plus what `irqcontrol` has still to take back, less what it has still to
add.

A step is a section under the lock, a read of a register, or a call into the
interrupt core.
-/

namespace Axivc

namespace Uio

open Prog Rely

/-! ## the driver -/

/-- `IVSHMEM_EVENT_PENDING` -/
def eventPending : UInt32 := 1

/-- The line as the interrupt core keeps it, and the flag of the device. -/
structure State where
  depth : Nat
  irqDisabled : Bool

namespace State

/-- The device has been probed. -/
def init : State := ⟨0, false⟩

/-- `disable_irq_nosync` -/
def disableIrqNosync (s : State) : State := { s with depth := s.depth + 1 }

/-- `enable_irq`; at depth `0` the interrupt core warns and does nothing. -/
def enableIrq (s : State) : State := { s with depth := s.depth - 1 }

/-- The section of the handler under the lock. -/
def maskOnce (s : State) : State :=
  if !s.irqDisabled then { s.disableIrqNosync with irqDisabled := true } else s

/-- The section of `irqcontrol` under the lock: `enable`, `disable`, and the
flag. -/
def switch (s : State) (irqOn : Int32) : (Bool × Bool) × State :=
  if irqOn ≠ 0 ∧ s.irqDisabled then ((true, false), { s with irqDisabled := false })
  else if irqOn = 0 ∧ !s.irqDisabled then ((false, true), { s with irqDisabled := true })
  else ((false, false), s)

end State

/-- The steps of the driver. -/
inductive Op where
  | readEventStatus
  /-- under the lock -/
  | maskOnce
  /-- under the lock -/
  | switch (irqOn : Int32)
  | enableIrq
  | disableIrqNosync

@[reducible] def iface : Iface where
  Op := Op
  Res
    | .readEventStatus => UInt32
    | .switch _ => Bool × Bool
    | _ => Unit

abbrev call (o : Op) : Prog iface (iface.Res o) := op (I := iface) o

/-- `irqreturn_t` -/
inductive IrqReturn where
  | none
  | handled

/-- What the two functions return. -/
inductive Ret where
  | irq (result : IrqReturn)
  | control (err : Int32)

/-- `ivshmem_uio_irq_handler` -/
def ivshmemUioIrqHandler : Prog iface Ret := do
  let status : UInt32 ← call .readEventStatus
  if status &&& eventPending = 0 then
    pure (.irq .none)
  else
    call .maskOnce
    pure (.irq .handled)

/-- `ivshmem_uio_irqcontrol` -/
def ivshmemUioIrqcontrol (irqOn : Int32) : Prog iface Ret := do
  let (enable, disable) ← call (.switch irqOn)
  if enable then
    call .enableIrq
    pure (.control 0)
  else if disable then
    call .disableIrqNosync
    pure (.control 0)
  else pure (.control 0)

/-! ## the machine -/

/-- The UIO core serialises the calls of `irqcontrol`; handlers run on any
number of processors. -/
inductive Thread where
  | control
  | handler (n : Nat)
  deriving DecidableEq

inductive Call where
  | irqHandler
  | irqcontrol (irqOn : Int32)

/-- The program of a call. -/
def body : Call → Prog iface Ret
  | .irqHandler => ivshmemUioIrqHandler
  | .irqcontrol irqOn => ivshmemUioIrqcontrol irqOn

/-- A step, when the event register holds `status`. -/
def perform (status : UInt32) : (o : Op) → State → iface.Res o × State
  | .readEventStatus, s => (status, s)
  | .maskOnce, s => ((), s.maskOnce)
  | .switch irqOn, s => s.switch irqOn
  | .enableIrq, s => ((), s.enableIrq)
  | .disableIrqNosync, s => ((), s.disableIrqNosync)

/-- A call begins: the interrupt core runs handlers at depth `0` only. -/
def Begins : Thread → Call → State → Prop
  | .handler _, .irqHandler, s => s.depth = 0
  | .control, .irqcontrol _, _ => True
  | _, _, _ => False

/-- Handlers and calls of `irqcontrol`, at single steps. -/
def machine : Machine Thread iface State Call Ret where
  body _ call _ := body call
  exec _ o s r t := ∃ status, (r, t) = perform status o s
  start i call s t := Begins i call s ∧ t = s
  finish _ _ s t := t = s
  env _ _ := False

/-! ## the account -/

/-- Where a call of `irqcontrol` is. -/
inductive Controls : Prog iface Ret → Prop where
  | called (irqOn : Int32) : Controls (ivshmemUioIrqcontrol irqOn)
  | enabling : Controls (.act .enableIrq fun _ => .ret (.control 0))
  | disabling : Controls (.act .disableIrqNosync fun _ => .ret (.control 0))
  | done : Controls (.ret (.control 0))

/-- Where a handler is. -/
inductive Handles : Prog iface Ret → Prop where
  | called : Handles ivshmemUioIrqHandler
  | masking : Handles (.act .maskOnce fun _ => .ret (.irq .handled))
  | done (result : IrqReturn) : Handles (.ret (.irq result))

/-- The depth is what the flag says; and what `irqcontrol` is about to do is
not yet done. -/
def Accounts : Option (Prog iface Ret) → State → Prop
  | some (.act .enableIrq _), s => s.depth = (if s.irqDisabled then 1 else 0) + 1
  | some (.act .disableIrqNosync _), s => s.irqDisabled = true ∧ s.depth = 0
  | _, s => s.depth = if s.irqDisabled then 1 else 0

/-- The invariant of the line. -/
structure Balanced (c : Config Thread iface State Ret) : Prop where
  control : ∀ p, c.thread .control = some p → Controls p
  handlers : ∀ n p, c.thread (.handler n) = some p → Handles p
  account : Accounts (c.thread .control) c.shared

/-- A handler that comes in between keeps the account: it masks the line once
more only when the flag is clear, and sets it. -/
theorem Accounts.maskOnce {x : Option (Prog iface Ret)} {s : State} (h : Accounts x s) : Accounts x s.maskOnce := by
  cases hflag : s.irqDisabled with
  | true => simpa [State.maskOnce, hflag] using h
  | false =>
      unfold Accounts at h ⊢
      split at h
      · simp_all [State.maskOnce, State.disableIrqNosync]
      · simp_all
      · simp_all [State.maskOnce, State.disableIrqNosync]

theorem ivshmemUioIrqcontrol_eq (irqOn : Int32) : ivshmemUioIrqcontrol irqOn =
    .act (.switch irqOn) fun decision =>
      if decision.1 then .act .enableIrq fun _ => .ret (.control 0)
      else if decision.2 then .act .disableIrqNosync fun _ => .ret (.control 0)
      else .ret (.control 0) := rfl

/-- A step of `irqcontrol`. -/
theorem Controls.step {o : Op} {k : iface.Res o → Prog iface Ret} {s t : State} {r : iface.Res o} {status : UInt32}
    (h : Controls (.act o k)) (hs : Accounts (some (.act o k)) s) (he : (r, t) = perform status o s) :
    Controls (k r) ∧ Accounts (some (k r)) t := by
  generalize hp : (Prog.act o k : Prog iface Ret) = p at h
  cases h with
  | called irqOn =>
      rw [ivshmemUioIrqcontrol_eq] at hp
      cases hp
      have hs : s.depth = if s.irqDisabled then 1 else 0 := hs
      simp only [perform, State.switch] at he
      split at he
      · next hon =>
        cases he
        exact ⟨.enabling, by simp [Accounts, hs, hon.2]⟩
      · split at he
        · next hoff =>
          cases he
          exact ⟨.disabling, by simpa [Accounts, hs] using hoff.2⟩
        · cases he
          exact ⟨.done, hs⟩
  | enabling =>
      cases hp
      cases he
      have hs : s.depth = (if s.irqDisabled then 1 else 0) + 1 := hs
      exact ⟨.done, by simp [Accounts, State.enableIrq, hs]⟩
  | disabling =>
      cases hp
      cases he
      obtain ⟨hflag, hdepth⟩ := hs
      exact ⟨.done, by simp [Accounts, State.disableIrqNosync, hflag, hdepth]⟩
  | done => cases hp

/-- A step of a handler. -/
theorem Handles.step {o : Op} {k : iface.Res o → Prog iface Ret} {s t : State} {r : iface.Res o} {status : UInt32}
    (h : Handles (.act o k)) (he : (r, t) = perform status o s) : Handles (k r) ∧ (t = s ∨ t = s.maskOnce) := by
  generalize hp : (Prog.act o k : Prog iface Ret) = p at h
  cases h with
  | called =>
      cases hp
      cases he
      refine ⟨?_, .inl rfl⟩
      change Handles (ite (status &&& eventPending = 0) _ _)
      split
      · exact .done .none
      · exact .masking
  | masking =>
      cases hp
      cases he
      exact ⟨.done .handled, .inr rfl⟩
  | done result => cases hp

/-- A step of a handler leaves `irqcontrol` alone. -/
theorem Balanced.handler {c : Config Thread iface State Ret} (h : Balanced c) (n : Nat) {t : State}
    {x : Option (Prog iface Ret)} (ht : t = c.shared ∨ t = c.shared.maskOnce) (hx : ∀ p, x = some p → Handles p) :
    Balanced ⟨t, Function.update c.thread (.handler n) x⟩ where
  control p hp := by
    have hp : c.thread .control = some p := by simpa using hp
    exact h.control p hp
  handlers m p hp := by
    by_cases hm : m = n
    · subst hm
      exact hx p (by simpa using hp)
    · have hp : c.thread (.handler m) = some p := by simpa [hm] using hp
      exact h.handlers m p hp
  account := by
    suffices haccount : Accounts (c.thread .control) t by simpa using haccount
    obtain rfl | rfl := ht
    · exact h.account
    · exact h.account.maskOnce

/-- A step of `irqcontrol` leaves the handlers alone. -/
theorem Balanced.controls {c : Config Thread iface State Ret} (h : Balanced c) {t : State} {x : Option (Prog iface Ret)}
    (hx : ∀ p, x = some p → Controls p) (ht : Accounts x t) : Balanced ⟨t, Function.update c.thread .control x⟩ where
  control p hp := hx p (by simpa using hp)
  handlers n p hp := by
    have hp : c.thread (.handler n) = some p := by simpa using hp
    exact h.handlers n p hp
  account := by simpa using ht

/-- **Step**: the account stays right. -/
theorem Balanced.step {c c' : Config Thread iface State Ret} (h : Balanced c) (hstep : machine.Step c c') : Balanced c' := by
  cases hstep with
  | env he => exact he.elim
  | start i call hi hst =>
      obtain ⟨hbegins, rfl⟩ := hst
      cases i with
      | control =>
          cases call with
          | irqHandler => exact hbegins.elim
          | irqcontrol irqOn =>
              have hquiet := h.account
              rw [hi] at hquiet
              exact h.controls (by rintro p ⟨⟩; exact .called irqOn) hquiet
      | handler n =>
          cases call with
          | irqHandler => exact h.handler n (.inl rfl) (by rintro p ⟨⟩; exact .called)
          | irqcontrol irqOn => exact hbegins.elim
  | act i r hi he =>
      obtain ⟨status, he⟩ := he
      cases i with
      | control =>
          have haccount := h.account
          rw [hi] at haccount
          obtain ⟨hcontrols, haccount⟩ := (h.control _ hi).step haccount he
          exact h.controls (by rintro p ⟨⟩; exact hcontrols) haccount
      | handler n =>
          obtain ⟨hhandles, ht⟩ := (h.handlers n _ hi).step he
          exact h.handler n ht (by rintro p ⟨⟩; exact hhandles)
  | finish i hi hf =>
      cases hf
      cases i with
      | control =>
          have haccount := h.account
          rw [hi] at haccount
          exact h.controls (by simp) haccount
      | handler n => exact h.handler n (.inl rfl) (by simp)

theorem balanced_of_reachable {c : Config Thread iface State Ret} (h : machine.Reachable .init c) : Balanced c := by
  induction h with
  | refl => exact ⟨by simp [Machine.quiet], by simp [Machine.quiet], rfl⟩
  | tail _ hstep ih => exact ih.step hstep

/-! ## the line -/

theorem Accounts.depth_le {x : Option (Prog iface Ret)} {s : State} (h : Accounts x s) : s.depth ≤ 2 := by
  unfold Accounts at h
  split at h
  · split at h <;> omega
  · omega
  · split at h <;> omega

/-- A handler does not enable the line. -/
theorem not_handles_enableIrq {k : iface.Res .enableIrq → Prog iface Ret} : ¬ Handles (.act .enableIrq k) := by
  intro h
  generalize hp : (Prog.act .enableIrq k : Prog iface Ret) = p at h
  cases h with
  | called | masking | done => cases hp

/-- To enable the line while nothing comes in between. -/
theorem run_ivshmemUioIrqcontrol {s : State} (h : Accounts none s) {irqOn : Int32} (hon : irqOn ≠ 0) (status : UInt32) :
    (ivshmemUioIrqcontrol irqOn).run (perform status) s = some (.control 0, ⟨0, false⟩) := by
  have hdepth : s.depth = if s.irqDisabled then 1 else 0 := h
  obtain ⟨depth, irqDisabled⟩ := s
  cases irqDisabled with
  | true =>
      have hdepth : depth = 1 := hdepth
      simp [ivshmemUioIrqcontrol_eq, Prog.run, perform, State.switch, State.enableIrq, hon, hdepth]
  | false =>
      have hdepth : depth = 0 := hdepth
      simp [ivshmemUioIrqcontrol_eq, perform, State.switch, hon, hdepth]

/-- The line is never enabled at depth `0`, and never more than twice disabled;
between two calls of `irqcontrol` it is disabled once if the flag is set and
enabled otherwise, and the next call that is to enable it does so. -/
structure LineOk (c : Config Thread iface State Ret) : Prop where
  legal : ∀ i k, c.thread i = some (.act .enableIrq k) → c.shared.depth ≠ 0
  bounded : c.shared.depth ≤ 2
  settled : c.thread .control = none → c.shared.depth = if c.shared.irqDisabled then 1 else 0
  enabled : c.thread .control = none → ∀ irqOn status, irqOn ≠ 0 →
    (ivshmemUioIrqcontrol irqOn).run (perform status) c.shared = some (.control 0, ⟨0, false⟩)

/-- **The interrupt line stays balanced** in every interleaving of handlers and
calls of `irqcontrol`. -/
theorem irq_line_balanced {c : Config Thread iface State Ret} (h : machine.Reachable .init c) : LineOk c := by
  have hbalanced := balanced_of_reachable h
  have hquiet (hidle : c.thread .control = none) : Accounts none c.shared := hidle ▸ hbalanced.account
  refine ⟨fun i k hi => ?_, hbalanced.account.depth_le, hquiet, fun hidle irqOn status hon => ?_⟩
  · cases i with
    | control =>
        have hdepth := hbalanced.account
        rw [hi] at hdepth
        simp only [Accounts] at hdepth
        omega
    | handler n => exact absurd (hbalanced.handlers n _ hi) not_handles_enableIrq
  · exact run_ivshmemUioIrqcontrol (hquiet hidle) hon status

/-- Two handlers have begun; the first masks the line, and the second masks it
again between the section of `irqcontrol` and its `enable_irq`. -/
theorem irq_line_balanced_masked_twice : ∃ c : Config Thread iface State Ret, machine.Reachable .init c ∧
    c.shared = ⟨2, true⟩ ∧ (∃ k, c.thread .control = some (.act .enableIrq k)) ∧ LineOk c := by
  have hidle : machine.Reachable .init ⟨.init, fun _ => none⟩ := .refl
  have hfirst := hidle.start (.handler 0) .irqHandler rfl ⟨(rfl : State.init.depth = 0), rfl⟩
  have hsecond := hfirst.start (.handler 1) .irqHandler rfl ⟨(rfl : State.init.depth = 0), rfl⟩
  have hpending := hsecond.act (.handler 0) (1 : UInt32) rfl ⟨1, rfl⟩
  have hmasked := hpending.act (.handler 0) () rfl ⟨0, rfl⟩
  have hcalled := hmasked.start .control (.irqcontrol 1) rfl ⟨trivial, rfl⟩
  have hswitched := hcalled.act .control (true, false) rfl ⟨0, rfl⟩
  have hpending := hswitched.act (.handler 1) (1 : UInt32) rfl ⟨1, rfl⟩
  have hmasked := hpending.act (.handler 1) () rfl ⟨0, rfl⟩
  exact ⟨_, hmasked, rfl, ⟨_, rfl⟩, irq_line_balanced hmasked⟩

end Uio

end Axivc
