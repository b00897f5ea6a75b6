import Axivc.DeviceRead
import Axivc.SendRuns

/-!
# Axivc.RecvRuns

What `axivc_recv_message` does, in any run of calls, and two properties of an
endpoint as a whole.

* `restart_was_interrupted` — who asks for a restart: a call whose own sleep
  was interrupted, or a read that finds the receiver poisoned by an earlier
  one;
* `progress_announced` — a call on an endpoint that notifies its publisher
  neither sleeps nor returns with ring progress it has not announced.
-/

namespace Axivc

open Prog Rely

/-! ## within the lock -/

/-- The call popped `slots`. -/
def CallLog.pop {Call S : Type} (g : CallLog Call S) (slots : List Slot) : CallLog Call S :=
  { g with pending := g.pending || !slots.isEmpty }

@[simp] theorem CallLog.pop_nil {Call S : Type} (g : CallLog Call S) : g.pop [] = g := by simp [CallLog.pop]

/-- The half between calls: only an interrupted sleep poisons it with
`-ERESTARTSYS`. -/
def ReceiveOk (s : HalfState Receiver) : Prop := s.half.state = .failed .ERESTARTSYS → s.signalled = true

/-- What the parts of a call keep. -/
structure RecvKept (target : NotifyTarget) (g : CallLog RecvArgs Receiver)
    (t : HalfState Receiver × CallLog RecvArgs Receiver) : Prop where
  ok : ReceiveOk t.1
  found : t.2.found = g.found
  announced : t.2.Announced target

section Inside

variable {α : Type} {target : NotifyTarget} {s : HalfState Receiver} {g : CallLog RecvArgs Receiver}
  {post : α → HalfState Receiver × CallLog RecvArgs Receiver → Prop}

/-- What a receiver that has popped `slots` since `s` leaves: peeks do not show
in the log, a pop does. -/
def Popped (s : HalfState Receiver × CallLog RecvArgs Receiver) (slots : List Slot) (_ : Option (Option Slot))
    (t : HalfState Receiver × CallLog RecvArgs Receiver) : Prop :=
  t = (s.1, s.2.pop slots)

theorem Popped.refl (s : HalfState Receiver × CallLog RecvArgs Receiver) : Popped s [] none s := by
  simp [Popped]

theorem endpoint_popLog : PopLog (endpointView RecvArgs Receiver target) atomicRing Popped where
  stable h hr _ := by
    obtain rfl := hr
    exact h
  peek h := endpoint_act rfl trivial fun _ _ => endpoint_ret h
  pop {s slots slot t} h := by
    subst h
    refine endpoint_act rfl trivial fun _ _ => endpoint_ret ?_
    change ((s.1, { s.2.pop slots with pending := true }) : HalfState Receiver × CallLog RecvArgs Receiver) = _
    simp [CallLog.pop]

/-- A call on the receiver: its record is stored, its pops are logged. -/
theorem endpoint_onReceiver {β : Type} {f : Receiver → Prog (endpointIface ringIface Receiver) (Receiver × β)}
    {k : β → Prog (endpointIface ringIface Receiver) α} {R : List Slot → Receiver × β → Prop}
    (hf : ∀ x, (endpointView RecvArgs Receiver target).Safe
      (fun r t => ∃ slots, t = (x.1, x.2.pop slots) ∧ R slots r) (f s.half) x)
    (hk : ∀ slots rx b, R slots (rx, b) → (endpointView RecvArgs Receiver target).Safe post (k b)
      ({ s with half := rx }, g.pop slots)) :
    (endpointView RecvArgs Receiver target).Safe post (onReceiver f >>= k) (s, g) := by
  rw [onReceiver, Prog.bind_assoc]
  refine endpoint_load ?_
  refine View.Safe.bind (View.Safe.bind ((hf _).mono ?_))
  rintro ⟨rx, b⟩ _ - ⟨slots, rfl, hR⟩
  exact endpoint_act rfl trivial fun _ _ => endpoint_ret (hk slots rx b hR)

/-- What a call may return, by its log. -/
def RestartInterrupted (a : Except Errno Nat) (g : CallLog RecvArgs Receiver) : Prop :=
  a = .error .ERESTARTSYS → g.interrupted = true

theorem endpoint_poison (e : Errno) (hf : e = .ERESTARTSYS → s.signalled = true ∧ g.interrupted = true)
    (ha : g.Announced target) :
    (endpointView RecvArgs Receiver target).Safe (fun a t => RecvKept target g t ∧ RestartInterrupted a t.2)
      (poison (R := ringIface) e) (s, g) := by
  rw [← Prog.bind_ret (poison e)]
  refine endpoint_onReceiver (R := fun slots r => slots = [] ∧ r = (messageReceiverPoison s.half e, .error e))
    (fun x => endpoint_ret ⟨[], by simp, rfl, rfl⟩) ?_
  rintro _ _ _ ⟨rfl, heq⟩
  obtain ⟨rfl, rfl⟩ := Prod.mk.inj heq
  rw [CallLog.pop_nil]
  refine endpoint_ret ⟨⟨fun hstate => ?_, rfl, ha⟩, fun he => ?_⟩
  · cases hstate
    exact (hf rfl).1
  · cases he
    exact (hf rfl).2

/-- What a read leaves, by its result. -/
theorem ReadResult.announced {rx rx' : Receiver} {n : Nat} {slots : List Slot} {seen : Option (Option Slot)}
    {result : Except Errno ReceiveProgress} (h : ReadResult rx n slots seen rx' result)
    (hnf : ∀ e, rx.state ≠ .failed e) :
    rx'.state ≠ .failed .ERESTARTSYS ∧
    (∀ e, result = .error e → e ≠ .ERESTARTSYS ∧ (slots = [] ∨ e = .ECONNRESET)) ∧
    ∀ progress, result = .ok progress → progress.consumedSlots = slots.length ∧
      (progress.complete = false → ∀ e, rx'.state ≠ .failed e) := by
  cases h with
  | failed hf => exact absurd hf (hnf _)
  | empty _ htakes => exact ⟨htakes.keeps_going hnf _, by simp, by simp [htakes.keeps_going hnf]⟩
  | deferred _ htakes => exact ⟨htakes.keeps_going hnf _, by simp, by simp [htakes.keeps_going hnf]⟩
  | complete _ _ hex => exact ⟨Receiver.commit_not_failed hex _, by simp, by simp⟩
  | aborted hex => exact ⟨Receiver.commit_not_failed hex _, by simp, by simp⟩
  | short => exact ⟨hnf _, by simp, by simp⟩
  | protocol hstate hex =>
      rcases Receiver.examine_error hstate hex with rfl | rfl <;> simp

/-- The loop of `axivc_recv_message`. -/
theorem endpoint_recvLoop (messageLen : UInt64) (received : Nat) (deadline : UInt64) (iterations : Nat)
    (hnf : ∀ e, s.half.state ≠ .failed e) (ha : g.Announced target) :
    (endpointView RecvArgs Receiver target).Safe (fun a t => RecvKept target g t ∧ RestartInterrupted a t.2)
      (recvLoop atomicRing target messageLen received deadline iterations) (s, g) := by
  induction iterations generalizing s g received deadline with
  | zero => exact fun _ _ _ => trivial
  | succ iterations ih =>
      rw [recvLoop]
      refine endpoint_onReceiver (R := fun slots r => ∃ seen, ReadResult s.half fragmentCapacity slots seen r.1 r.2)
        (fun x => ?_) ?_
      · refine (safe_messageTryRead endpoint_popLog fragmentCapacity (Popped.refl x)).mono ?_
        rintro r t - ⟨slots, seen, rfl, hr⟩
        exact ⟨slots, by simp, seen, hr⟩
      rintro slots rx result ⟨seen, hr⟩
      obtain ⟨hok, herror, hprogress⟩ := hr.announced hnf
      have hok' : ReceiveOk { s with half := rx } := fun h => absurd h hok
      cases result with
      | error e =>
          obtain ⟨he, hslots⟩ := herror e rfl
          have hne : RestartInterrupted (.error e) (g.pop slots) := fun h => absurd (by cases h; rfl) he
          dsimp only
          split
          · refine endpoint_notifyPublisher (endpoint_ret ⟨⟨hok', by simp [CallLog.pop],
              CallLog.announced_notify _ target⟩, fun h => ?_⟩)
            rw [CallLog.notify_interrupted]
            exact hne h
          · next hreset =>
              obtain rfl := hslots.resolve_right hreset
              exact endpoint_ret ⟨⟨hok', rfl, by rwa [CallLog.pop_nil]⟩, hne⟩
      | ok progress =>
          obtain ⟨hcount, hgoes⟩ := hprogress progress rfl
          refine endpoint_afterProgress fun deadline => ?_
          generalize hg' : (if progress.consumedSlots ≠ 0 then (g.pop slots).notify target else g.pop slots) = g'
          obtain ⟨ha', hfound⟩ : g'.Announced target ∧ g'.found = g.found := by
            subst hg'
            split
            · exact ⟨CallLog.announced_notify _ target, by simp [CallLog.pop]⟩
            · next hzero =>
                have hnil : slots = [] := List.length_eq_zero_iff.mp (by omega)
                rw [hnil, CallLog.pop_nil]
                exact ⟨ha, rfl⟩
          have hkept {a : Except Errno Nat} {t : HalfState Receiver × CallLog RecvArgs Receiver} :
              (RecvKept target g' t ∧ RestartInterrupted a t.2) → RecvKept target g t ∧ RestartInterrupted a t.2 :=
            fun h => ⟨⟨h.1.ok, h.1.found.trans hfound, h.1.announced⟩, h.2⟩
          refine endpoint_copyAnyToUser fun uncopied => ?_
          by_cases hfault : uncopied ≠ 0
          · rw [if_pos hfault]
            exact (endpoint_poison .EFAULT (by simp) ha').mono fun _ _ _ => hkept
          rw [if_neg hfault]
          by_cases hcomplete : progress.complete = true
          · rw [if_pos hcomplete]
            refine endpoint_ret (hkept ⟨⟨hok', rfl, ha'⟩, ?_⟩)
            split <;> simp [RestartInterrupted]
          rw [if_neg hcomplete]
          have hnf' := hgoes (by simpa using hcomplete)
          by_cases hzero : progress.consumedSlots ≠ 0
          · rw [if_pos hzero]
            exact (ih _ deadline (s := { s with half := rx }) hnf' ha').mono fun _ _ _ => hkept
          rw [if_neg hzero]
          refine endpoint_jiffies fun now => ?_
          by_cases hlate : timeAfterEq now deadline
          · rw [if_pos hlate]
            exact (endpoint_poison .ETIMEDOUT (by simp) ha').mono fun _ _ _ => hkept
          rw [if_neg hlate]
          refine endpoint_msleepInterruptible ha' fun left => ?_
          by_cases hleft : left ≠ 0
          · rw [if_pos hleft]
            refine (endpoint_poison .ERESTARTSYS (fun _ => ?_) ?_).mono ?_
            · simp [hleft]
            · exact ha'
            · rintro a t - ⟨⟨hok, hfound', hann⟩, hrestart⟩
              exact hkept ⟨⟨hok, hfound', hann⟩, hrestart⟩
          · rw [if_neg hleft]
            refine (ih _ deadline (s := ⟨rx, s.signalled || left != 0⟩)
              (g := { g' with interrupted := g'.interrupted || left != 0 }) hnf' ha').mono ?_
            rintro a t - ⟨⟨hok, hfound', hann⟩, hrestart⟩
            exact hkept ⟨⟨hok, hfound', hann⟩, hrestart⟩

/-- `axivc_recv_message` between lock and unlock. -/
theorem endpoint_recvLocked (iterations : Nat) (count : UInt64) (hs : ReceiveOk s) (ha : g.Announced target) :
    (endpointView RecvArgs Receiver target).Safe (fun a t => RecvKept target g t ∧
        (a = .error .ERESTARTSYS → t.2.interrupted = true ∨ s.half.state = .failed .ERESTARTSYS))
      (recvLocked atomicRing target iterations count) (s, g) := by
  refine endpoint_onReceiver (R := fun slots r => slots = [] ∧ ∃ seen, PeekResult s.half seen r.1 r.2)
    (fun x => ?_) ?_
  · refine (safe_messagePeekMeta endpoint_popLog (Popped.refl x)).mono ?_
    rintro r t - ⟨seen, rfl, hr⟩
    exact ⟨[], rfl, rfl, seen, hr⟩
  rintro _ rx result ⟨rfl, seen, hr⟩
  rw [CallLog.pop_nil]
  -- The rest of the call once there is a message to receive.
  have hrest (found : MessageMeta) (hnf : ∀ e, s.half.state ≠ .failed e) :
      (endpointView RecvArgs Receiver target).Safe (fun a t => RecvKept target g t ∧
        (a = .error .ERESTARTSYS → t.2.interrupted = true ∨ s.half.state = .failed .ERESTARTSYS))
      (if found.len > count then pure (.error .EMSGSIZE)
        else do
          let deadline ← deadlineAfter transferTimeoutMs
          recvLoop atomicRing target found.len 0 deadline iterations) (s, g) := by
    split
    · exact endpoint_ret ⟨⟨hs, rfl, ha⟩, fun h => nomatch h⟩
    · refine endpoint_deadlineAfter fun deadline => ?_
      exact (endpoint_recvLoop found.len 0 deadline iterations hnf ha).mono fun a t _ h => ⟨h.1, fun he => .inl (h.2 he)⟩
  cases hr with
  | failed hf => exact endpoint_ret ⟨⟨hs, rfl, ha⟩, fun h => .inr (by cases h; exact hf)⟩
  | empty => exact endpoint_ret ⟨⟨hs, rfl, ha⟩, fun h => nomatch h⟩
  | protocol hidle hex =>
      have hnr := Receiver.examine_error (by simp [hidle]) hex
      refine endpoint_ret ⟨⟨fun h => ?_, rfl, ha⟩, fun h => ?_⟩
      · cases h
        simp at hnr
      · cases h
        simp at hnr
  | receiving hrecv => exact hrest _ (by simp [hrecv])
  | available hidle => exact hrest _ (by simp [hidle])

end Inside

/-! ## every run -/

/-- What a call of `axivc_recv_message` that returns `a` has done. -/
structure RecvReturns (target : NotifyTarget) (a : Except Errno Nat) (g : CallLog RecvArgs Receiver) : Prop where
  announced : g.Announced target
  restart : a = .error .ERESTARTSYS → g.interrupted = true ∨
    ∃ found, g.found = some found ∧ found.half.state = .failed .ERESTARTSYS ∧ found.signalled = true

/-- The configurations of the sending half. -/
abbrev SendConfig : Type := Config Nat (endpointIface ringIface Transmit)
  (Guarded (HalfState Transmit) (CallLog SendArgs Transmit)) (Except Errno Nat)

/-- The configurations of the receiving half. -/
abbrev RecvConfig : Type := Config Nat (endpointIface ringIface Receiver)
  (Guarded (HalfState Receiver) (CallLog RecvArgs Receiver)) (Except Errno Nat)

/-- A run of any number of calls on both halves of an endpoint just
initialised. -/
def EndpointReachable (target : NotifyTarget) (c : SendConfig × RecvConfig) : Prop :=
  Relation.ReflTransGen (Machine.Beside (sendMachine target) (recvMachine target))
    (Machine.quiet (Monitor.initial ⟨transmitInit, false⟩), Machine.quiet (Monitor.initial ⟨messageReceiverInit, false⟩)) c

section Runs

variable {target : NotifyTarget}

/-- The outline of `recvMachine`. -/
abbrev recvOutline (target : NotifyTarget) : Machine.Outline (recvMachine target) :=
  (endpointMonitor RecvArgs Receiver target).outline _ _ ReceiveOk (SleepsAnnounced target) (RecvReturns target)

theorem recvMessage_safe (call : RecvArgs) (i : Nat) (s : Guarded (HalfState Receiver) (CallLog RecvArgs Receiver))
    (hown : s.owner ≠ some i) (hlog : s.log i = some (.fresh call)) :
    ((recvOutline target).view i).Safe ((recvOutline target).post i)
      (recvMessage atomicRing target call.iterations call.count) s := by
  unfold recvMessage
  split
  · intro t ht _
    exact ⟨fun h => hown (ht.owner.mp h), _, ht.log.trans hlog, fun _ => rfl, by simp⟩
  · refine Monitor.safe_locked hown hlog ⟨rfl, fun _ _ => rfl⟩ endpoint_unlock
      (fun _ => rfl) (fun r h hallowed htakes => ?_) fun r h htakes hJ => ?_
    · obtain rfl : r = .error .EINTR := by
        rcases hallowed with rfl | rfl
        · rfl
        · cases htakes
      exact ⟨.error .EINTR, rfl, fun _ => rfl, by simp⟩
    · obtain rfl : r = .ok () := by
        match r, htakes with
        | .ok (), _ => rfl
      refine ⟨recvLocked atomicRing target call.iterations call.count, rfl, ?_⟩
      refine (endpoint_recvLocked call.iterations call.count hJ fun _ => rfl).mono ?_
      rintro a ⟨t, g⟩ - ⟨hkept, hrestart⟩
      refine ⟨hkept.ok, trivial, fun _ => ⟨hkept.announced, fun ha => (hrestart ha).imp_right fun hfailed => ?_⟩⟩
      exact ⟨h, hkept.found, hfailed, hJ hfailed⟩

theorem recv_good {c : RecvConfig}
    (hc : (recvMachine target).Reachable (Monitor.initial ⟨messageReceiverInit, false⟩) c) :
    (recvOutline target).Good c :=
  Monitor.reachable recvMessage_safe (by simp [ReceiveOk, messageReceiverInit]) hc

/-- The first frame of a message of two bytes. -/
def halfSlot : Slot := ⟨frameBytes 1 2 true false false [42], length_frameBytes _ _ _ _ _ (by decide)⟩

/-- A read is interrupted in the middle of a message; the next one returns its
error again. -/
theorem poisoned_read_restarts : ∃ c : RecvConfig,
    (recvMachine ⟨true, 3, 7⟩).Reachable (Monitor.initial ⟨messageReceiverInit, false⟩) c ∧
    c.thread 1 = some (.ret (.error .ERESTARTSYS)) ∧
    (c.shared.log 1).map CallLog.interrupted = some false := by
  have hquiet : (recvMachine ⟨true, 3, 7⟩).Reachable (Monitor.initial ⟨messageReceiverInit, false⟩)
      ⟨Monitor.initial ⟨messageReceiverInit, false⟩, fun _ => none⟩ := Relation.ReflTransGen.refl
  have hstarted := hquiet.start 0 ⟨2, 8⟩ rfl ⟨rfl, rfl⟩
  -- The first slot of the message is there, the second never comes.
  have hpopped := hstarted.advance (World.exec_perform ⟨false, some halfSlot, 0⟩ ⟨true, 3, 7⟩ 0) 9
  have hslept := hpopped.advance (World.exec_perform ⟨false, none, 1⟩ ⟨true, 3, 7⟩ 0) 20
  have hreturned : (recvMachine ⟨true, 3, 7⟩).Reachable (Monitor.initial ⟨messageReceiverInit, false⟩) _ :=
    hslept.finish 0 (a := .error .ERESTARTSYS) rfl rfl
  have hagain := hreturned.start 1 ⟨1, 8⟩ rfl ⟨rfl, rfl⟩
  have hreplayed := hagain.advance (World.exec_perform ⟨false, none, 0⟩ ⟨true, 3, 7⟩ 1) 10
  exact ⟨_, hreplayed, rfl, rfl⟩

/-- **A restart was asked for by a signal.**  In any run of any number of calls
on an endpoint, a write about to return `-ERESTARTSYS` had a sleep of its own
interrupted; a read about to return it had one interrupted, or found the
receiver poisoned with it, and then a sleep of an earlier read was
interrupted. -/
theorem restart_was_interrupted (target : NotifyTarget) (c : SendConfig × RecvConfig)
    (hc : EndpointReachable target c) (i : Nat) :
    (c.1.thread i = some (.ret (.error .ERESTARTSYS)) →
      ∃ g, c.1.shared.log i = some g ∧ g.interrupted = true) ∧
    (c.2.thread i = some (.ret (.error .ERESTARTSYS)) →
      ∃ g, c.2.shared.log i = some g ∧ (g.interrupted = true ∨
        ∃ found, g.found = some found ∧ found.half.state = .failed .ERESTARTSYS ∧ found.signalled = true)) := by
  obtain ⟨hsend, hrecv⟩ := Machine.Beside.reachable hc
  refine ⟨fun h => ?_, fun h => ?_⟩
  · obtain ⟨-, g, hlog, hret⟩ := (send_good hsend).post h
    exact ⟨g, hlog, hret.restart rfl⟩
  · obtain ⟨-, g, hlog, hret⟩ := (recv_good hrecv).post h
    exact ⟨g, hlog, hret.restart rfl⟩

/-- Instance: a read that finds the receiver poisoned. -/
theorem restart_was_interrupted_earlier : ∃ c, EndpointReachable ⟨true, 3, 7⟩ c ∧
    c.2.thread 1 = some (.ret (.error .ERESTARTSYS)) ∧ ∃ g found, c.2.shared.log 1 = some g ∧
      g.found = some found ∧ found.signalled = true := by
  obtain ⟨c, hc, hret, hnot⟩ := poisoned_read_restarts
  obtain ⟨g, hlog, hcases⟩ :=
    (restart_was_interrupted ⟨true, 3, 7⟩ (_, c) (Machine.Beside.of_right hc) 1).2 hret
  rw [hlog, Option.map_some, Option.some.injEq] at hnot
  obtain ⟨found, hfound, -, hsignalled⟩ := hcases.resolve_left (by simp [hnot])
  exact ⟨(_, c), Machine.Beside.of_right hc, hret, g, found, hlog, hfound, hsignalled⟩

/-- A read can ask for a restart although none of its own sleeps was
interrupted. -/
theorem restart_without_signal : ¬ ∀ target c, EndpointReachable target c → ∀ i,
    (c.1.thread i = some (.ret (.error .ERESTARTSYS)) → ∃ g, c.1.shared.log i = some g ∧ g.interrupted = true) ∧
    (c.2.thread i = some (.ret (.error .ERESTARTSYS)) → ∃ g, c.2.shared.log i = some g ∧ g.interrupted = true) := by
  intro h
  obtain ⟨c, hc, hret, hnot⟩ := poisoned_read_restarts
  obtain ⟨g, hlog, hint⟩ := (h ⟨true, 3, 7⟩ (_, c) (Machine.Beside.of_right hc) 1).2 hret
  rw [hlog, Option.map_some, hint] at hnot
  cases hnot

/-- **Ring progress is announced.**  In any run of any number of calls on an
endpoint that notifies its publisher, a call that is about to sleep, to wait
for its lock or to return has issued a notification for that publisher and
key since it last moved the tail or the head cursor. -/
theorem progress_announced (target : NotifyTarget) (hnotify : target.notifyPublisher = true)
    (c : SendConfig × RecvConfig) (hc : EndpointReachable target c) (i : Nat) :
    (∀ g, c.1.shared.log i = some g →
      (∀ ms k, c.1.thread i = some (.act (.msleep ms) k) → g.pending = false) ∧
      (∀ ms k, c.1.thread i = some (.act (.msleepInterruptible ms) k) → g.pending = false) ∧
      (∀ k, c.1.thread i = some (.act .mutexLockInterruptible k) → g.pending = false) ∧
      ∀ a, c.1.thread i = some (.ret a) → g.pending = false) ∧
    ∀ g, c.2.shared.log i = some g →
      (∀ ms k, c.2.thread i = some (.act (.msleep ms) k) → g.pending = false) ∧
      (∀ ms k, c.2.thread i = some (.act (.msleepInterruptible ms) k) → g.pending = false) ∧
      (∀ k, c.2.thread i = some (.act .mutexLockInterruptible k) → g.pending = false) ∧
      ∀ a, c.2.thread i = some (.ret a) → g.pending = false := by
  obtain ⟨hsend, hrecv⟩ := Machine.Beside.reachable hc
  have hsend := send_good hsend
  have hrecv := recv_good hrecv
  refine ⟨fun g hlog => ⟨fun ms k h => hsend.pre h g hlog hnotify, fun ms k h => hsend.pre h g hlog hnotify,
    fun k h => hsend.pre h g hlog hnotify, fun a h => ?_⟩, fun g hlog => ⟨fun ms k h => hrecv.pre h g hlog hnotify,
    fun ms k h => hrecv.pre h g hlog hnotify, fun k h => hrecv.pre h g hlog hnotify, fun a h => ?_⟩⟩
  · obtain ⟨-, g', hlog', hret⟩ := hsend.post h
    obtain rfl : g = g' := Option.some.inj (hlog.symm.trans hlog')
    exact hret.announced hnotify
  · obtain ⟨-, g', hlog', hret⟩ := hrecv.post h
    obtain rfl : g = g' := Option.some.inj (hlog.symm.trans hlog')
    exact hret.announced hnotify

/-- Instance: a read that has taken a slot is about to sleep. -/
theorem progress_announced_read : ∃ c, EndpointReachable ⟨true, 3, 7⟩ c ∧
    (∃ k, c.2.thread 0 = some (.act (.msleepInterruptible pollIntervalMs) k)) ∧
    ∃ g, c.2.shared.log 0 = some g ∧ g.pending = false := by
  have hquiet : (recvMachine ⟨true, 3, 7⟩).Reachable (Monitor.initial ⟨messageReceiverInit, false⟩)
      ⟨Monitor.initial ⟨messageReceiverInit, false⟩, fun _ => none⟩ := Relation.ReflTransGen.refl
  have hstarted := hquiet.start 0 ⟨2, 8⟩ rfl ⟨rfl, rfl⟩
  have hpopped := hstarted.advance (World.exec_perform ⟨false, some halfSlot, 0⟩ ⟨true, 3, 7⟩ 0) 9
  have hasleep := hpopped.advance (World.exec_perform ⟨false, none, 1⟩ ⟨true, 3, 7⟩ 0) 10
  have hannounced := (progress_announced ⟨true, 3, 7⟩ rfl (_, _) (Machine.Beside.of_right hasleep) 0).2 _ rfl
  exact ⟨_, Machine.Beside.of_right hasleep, ⟨_, rfl⟩, _, rfl, hannounced.2.1 _ _ rfl⟩

end Runs

end Axivc
