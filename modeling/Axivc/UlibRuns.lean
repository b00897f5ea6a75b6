import Mathlib.Data.Finset.Card
import Mathlib.Data.Finset.Image
import Mathlib.Order.Interval.Finset.Nat
import Axivc.Ulib

/-!
# Axivc.UlibRuns

Sequences of calls of the user-space library on one manager.

A client holds the manager until it is consumed, and the endpoints that have
been returned to it and that it has not torn down.  It tears down what it
holds and nothing else; between two calls the rest of the process may do
anything to memory that is not the client's, and to `errno`.

`Counted` is the invariant: the manager counts the endpoints the client holds.
It cannot overflow, because endpoints that exist at one time have different
addresses.
-/

namespace Axivc

namespace Ulib

open Prog

/-! ## clients -/

/-- The calls on one manager. -/
inductive Call where
  | subscribe (publisherId channelKey : UInt64)
  | publish (channelKey channelSize : UInt64)
  | unsubscribe (subscriber : Ptr)
  | unpublish (publisher : Ptr)
  | closeManager
  deriving DecidableEq

/-- What a call returns. -/
inductive Return where
  | handle (p : Ptr)
  | status (status : Int)
  deriving DecidableEq

/-- The program of a call. -/
def Call.program (manager : Ptr) : Call → Prog libc Return
  | .subscribe publisherId channelKey => ivcSubscribe manager publisherId channelKey >>= fun p => .ret (.handle p)
  | .publish channelKey channelSize => ivcPublish manager channelKey channelSize >>= fun p => .ret (.handle p)
  | .unsubscribe subscriber => ivcUnsubscribe subscriber >>= fun n => .ret (.status n)
  | .unpublish publisher => ivcUnpublish publisher >>= fun n => .ret (.status n)
  | .closeManager => ivcCloseManager manager >>= fun n => .ret (.status n)

/-- A client: the memory, the endpoints it holds, and whether it still holds
the manager. -/
structure Client where
  state : State
  live : Finset (Kind × Ptr)
  held : Bool

namespace Client

/-- The calls a client may make: on a manager that has not been consumed, and
teardowns of endpoints that have not been torn down. -/
def Allows (c : Client) : Call → Prop
  | .subscribe _ _ | .publish _ _ | .closeManager => c.held = true
  | .unsubscribe subscriber => (.subscriber, subscriber) ∈ c.live
  | .unpublish publisher => (.publisher, publisher) ∈ c.live

/-- The endpoints a client holds after a call. -/
def liveAfter (c : Client) : Call → Return → Finset (Kind × Ptr)
  | .subscribe _ _, .handle p => if p = 0 then c.live else insert (.subscriber, p) c.live
  | .publish _ _, .handle p => if p = 0 then c.live else insert (.publisher, p) c.live
  | .unsubscribe subscriber, _ => c.live.erase (.subscriber, subscriber)
  | .unpublish publisher, _ => c.live.erase (.publisher, publisher)
  | _, _ => c.live

/-- A client after a call; the manager is consumed when its memory is freed. -/
def after (c : Client) (manager : Ptr) (call : Call) (r : Return) (t : State) : Client where
  state := t
  live := c.liveAfter call r
  held := c.held && (t.heap manager).isSome

end Client

/-- A client that has opened the manager. -/
def Client.Opens (manager : Ptr) (c : Client) : Prop :=
  manager ≠ 0 ∧ c.live = ∅ ∧ c.held = true ∧ ∃ s tr, ivcOpenManager.Ran Does s tr (some manager) c.state

/-- A call of the client, or what the rest of the process does in between. -/
inductive Step (manager : Ptr) : Client → Client → Prop where
  | call {c : Client} {call : Call} {tr : List libc.Event} {r : Return} {t : State} (hallows : c.Allows call)
      (hran : (call.program manager).Ran Does c.state tr (some r) t) : Step manager c (c.after manager call r t)
  | between {c : Client} {t : State} (hmanager : c.held = true → t.heap manager = c.state.heap manager)
      (hlive : ∀ k p, (k, p) ∈ c.live → t.heap p = c.state.heap p) : Step manager c { c with state := t }

/-! ## the invariant -/

/-- The endpoints are there, and belong to the manager. -/
def Owned (manager : Ptr) (heap : Ptr → Option Block) (live : Finset (Kind × Ptr)) : Prop :=
  ∀ k p, (k, p) ∈ live → p ≠ 0 ∧ ∃ e, heap p = some (.endpoint k e) ∧ e.manager = manager

/-- The manager counts the endpoints the client holds. -/
structure Counted (manager : Ptr) (c : Client) : Prop where
  nonnull : manager ≠ 0
  count : c.held = true → ∃ m, c.state.heap manager = some (.manager m) ∧ 0 ≤ m.fd ∧
    m.activeEndpoints.toNat = c.live.card
  owned : Owned manager c.state.heap c.live
  consumed : c.held = false → c.live = ∅

/-- An address is one endpoint's. -/
theorem Owned.kind_eq {manager : Ptr} {heap : Ptr → Option Block} {live : Finset (Kind × Ptr)}
    (h : Owned manager heap live) {k k' : Kind} {p : Ptr} (hk : (k, p) ∈ live) (hk' : (k', p) ∈ live) : k = k' := by
  obtain ⟨-, e, he, -⟩ := h k p hk
  obtain ⟨-, e', he', -⟩ := h k' p hk'
  rw [he] at he'
  simp only [Option.some.injEq, Block.endpoint.injEq] at he'
  exact he'.1

/-- Endpoints are fewer than there are addresses. -/
theorem Owned.card_lt {manager : Ptr} {heap : Ptr → Option Block} {live : Finset (Kind × Ptr)}
    (h : Owned manager heap live) : live.card < 2 ^ 64 := by
  have hmaps : ∀ x ∈ live, x.2.toNat ∈ Finset.Ico 1 (2 ^ 64) := by
    intro x hx
    have hne := (h x.1 x.2 hx).1
    have hpos : x.2.toNat ≠ 0 := by
      intro hzero
      exact hne (UInt64.toNat_inj.mp hzero)
    have hlt := x.2.toNat_lt
    simp only [Finset.mem_Ico]
    omega
  have hinj : Set.InjOn (fun x : Kind × Ptr => x.2.toNat) live := by
    rintro ⟨k, p⟩ hk ⟨k', p'⟩ hk' heq
    obtain rfl : p = p' := UInt64.toNat_inj.mp heq
    rw [h.kind_eq hk hk']
  have hcard := Finset.card_le_card_of_injOn _ hmaps hinj
  rw [Nat.card_Ico] at hcard
  omega

/-- Memory of the client that has not changed. -/
theorem Owned.frame {manager : Ptr} {heap heap' : Ptr → Option Block} {live : Finset (Kind × Ptr)}
    (h : Owned manager heap live) (hsame : ∀ k p, (k, p) ∈ live → heap' p = heap p) : Owned manager heap' live := by
  intro k p hp
  rw [hsame k p hp]
  exact h k p hp

section Steps

variable {manager : Ptr} {c : Client} {m : Manager} {k : Kind} {t : State}

/-- The addresses of endpoints. -/
theorem Counted.ne_of_mem (h : Counted manager c) (hm : c.state.heap manager = some (.manager m)) {p : Ptr}
    (hp : (k, p) ∈ c.live) : p ≠ manager := by
  rintro rfl
  obtain ⟨-, e, he, -⟩ := h.owned k p hp
  rw [he] at hm
  cases hm

theorem Counted.ne_of_free (h : Counted manager c) {endpoint p : Ptr} (hfree : c.state.heap endpoint = none)
    (hp : (k, p) ∈ c.live) : p ≠ endpoint := by
  rintro rfl
  obtain ⟨-, e, he, -⟩ := h.owned k p hp
  rw [he] at hfree
  cases hfree

/-- A call that has left memory as it was. -/
theorem Counted.unchanged (h : Counted manager c) (hheap : t.heap = c.state.heap) (hheld : c.held = true) :
    Counted manager ⟨t, c.live, c.held && (t.heap manager).isSome⟩ := by
  obtain ⟨m, hm, hfd, hcount⟩ := h.count hheld
  have hstill : (c.held && (t.heap manager).isSome) = true := by simp [hheld, hheap, hm]
  refine ⟨h.nonnull, fun _ => ⟨m, by rw [hheap, hm], hfd, hcount⟩, ?_, fun hnot => ?_⟩
  · rw [hheap]
    exact h.owned
  · rw [hstill] at hnot
    cases hnot

/-- `ivc_subscribe` and `ivc_publish`. -/
theorem Counted.opened (h : Counted manager c) (hheld : c.held = true) (hm : c.state.heap manager = some (.manager m))
    (hfd : 0 ≤ m.fd) (hcount : m.activeEndpoints.toNat = c.live.card) {channel : Channel} {effs : List libc.Event}
    {endpoint : Ptr} (hopened : Opened k manager m channel c.state effs endpoint t) :
    Counted manager
      ⟨t, if endpoint = 0 then c.live else insert (k, endpoint) c.live, c.held && (t.heap manager).isSome⟩ := by
  cases hopened with
  | noMemory hheap => exact h.unchanged hheap hheld
  | refused _ _ _ hheap _ => exact h.unchanged hheap hheld
  | notOpened _ _ _ _ _ _ hheap _ => exact h.unchanged hheap hheld
  | opened _ value fd e hne hfree hmanager hchannel hefd hheap =>
      rw [if_neg hne]
      have hnew : (k, endpoint) ∉ c.live := fun hmem => h.ne_of_free hfree hmem rfl
      have hother : endpoint ≠ manager := by
        rintro rfl
        rw [hfree] at hm
        cases hm
      have howned : Owned manager t.heap (insert (k, endpoint) c.live) := by
        intro k' p hp
        obtain hp | hp := Finset.mem_insert.mp hp
        · cases hp
          exact ⟨hne, e, by rw [hheap, Function.update_of_ne hother, Function.update_self], hmanager⟩
        · rw [hheap, Function.update_of_ne (h.ne_of_mem hm hp), Function.update_of_ne (h.ne_of_free hfree hp)]
          exact h.owned k' p hp
      have hcard := Finset.card_insert_of_notMem hnew
      have hlt := howned.card_lt
      have hnow : t.heap manager = some (.manager m.retain) := by rw [hheap, Function.update_self]
      refine ⟨h.nonnull, fun _ => ⟨m.retain, hnow, hfd, ?_⟩, howned, fun hnot => ?_⟩
      · change (m.activeEndpoints + 1).toNat = (insert (k, endpoint) c.live).card
        rw [UInt64.toNat_add, hcount, hcard]
        rw [hcard] at hlt
        exact Nat.mod_eq_of_lt hlt
      · simp [hheld, hnow] at hnot

/-- `ivc_unsubscribe` and `ivc_unpublish`. -/
theorem Counted.tornDown (h : Counted manager c) (hheld : c.held = true) (hm : c.state.heap manager = some (.manager m))
    (hfd : 0 ≤ m.fd) (hcount : m.activeEndpoints.toNat = c.live.card) {effs : List libc.Event} {status : Int}
    {endpoint : Ptr} {e : Endpoint} (hlive : (k, endpoint) ∈ c.live) (hmanager : e.manager = manager)
    (htorn : TornDown k endpoint e m c.state effs status t) :
    Counted manager ⟨t, c.live.erase (k, endpoint), c.held && (t.heap manager).isSome⟩ := by
  obtain ⟨closed, removed, arg, -, hheap⟩ := htorn
  rw [hmanager] at hheap
  have hother := h.ne_of_mem hm hlive
  have hnow : t.heap manager = some (.manager m.release) := by
    rw [hheap, Function.update_of_ne hother.symm, Function.update_self]
  refine ⟨h.nonnull, fun _ => ⟨m.release, hnow, hfd, ?_⟩, ?_, fun hnot => ?_⟩
  · have hpos : 0 < c.live.card := Finset.card_pos.mpr ⟨_, hlive⟩
    have hone : (1 : UInt64) ≤ m.activeEndpoints := by
      rw [UInt64.le_iff_toNat_le, hcount]
      exact hpos
    change (m.activeEndpoints - 1).toNat = (c.live.erase (k, endpoint)).card
    rw [UInt64.toNat_sub_of_le _ _ hone, hcount, Finset.card_erase_of_mem hlive]
    rfl
  · intro k' p hp
    obtain ⟨hne, hmem⟩ := Finset.mem_erase.mp hp
    have hp' : p ≠ endpoint := by
      rintro rfl
      exact hne (by rw [h.owned.kind_eq hmem hlive])
    rw [hheap, Function.update_of_ne hp', Function.update_of_ne (h.ne_of_mem hm hmem)]
    exact h.owned k' p hmem
  · simp [hheld, hnow] at hnot

/-- `ivc_close_manager`. -/
theorem Counted.closed (h : Counted manager c) (hheld : c.held = true) (hm : c.state.heap manager = some (.manager m))
    (hcount : m.activeEndpoints.toNat = c.live.card) {effs : List libc.Event} {status : Int}
    (hclosed : Closed manager m c.state effs status t) :
    Counted manager ⟨t, c.live, c.held && (t.heap manager).isSome⟩ ∧ (t.heap manager = none ↔ c.live = ∅) := by
  cases hclosed with
  | busy hactive hheap =>
      refine ⟨h.unchanged hheap hheld, ?_⟩
      have hlive : c.live ≠ ∅ := by
        intro hempty
        rw [hempty, Finset.card_empty] at hcount
        exact hactive (UInt64.toNat_inj.mp hcount)
      simp [hheap, hm, hlive]
  | closed r hactive hreports hheap =>
      have hempty : c.live = ∅ := by
        rw [hactive] at hcount
        exact Finset.card_eq_zero.mp hcount.symm
      have hgone : t.heap manager = none := by rw [hheap, Function.update_self]
      refine ⟨⟨h.nonnull, fun hstill => ?_, ?_, fun _ => hempty⟩, by simp [hgone, hempty]⟩
      · simp [hgone] at hstill
      · rw [Owned, hempty]
        simp

end Steps

/-! ## calls -/

/-- How a call ends: what `Opened`, `TornDown` and `Closed` say of it. -/
def CallEnds (manager : Ptr) (c : Client) (m : Manager) (effs : List libc.Event) (t : State) : Call → Return → Prop
  | .subscribe publisherId channelKey, .handle p =>
      Opened .subscriber manager m (.subscribed publisherId channelKey) c.state effs p t
  | .publish channelKey channelSize, .handle p =>
      Opened .publisher manager m (.published channelKey channelSize) c.state effs p t
  | .unsubscribe subscriber, .status n => ∃ e, c.state.heap subscriber = some (.endpoint .subscriber e) ∧
      e.manager = manager ∧ TornDown .subscriber subscriber e m c.state effs n t
  | .unpublish publisher, .status n => ∃ e, c.state.heap publisher = some (.endpoint .publisher e) ∧
      e.manager = manager ∧ TornDown .publisher publisher e m c.state effs n t
  | .closeManager, .status n => Closed manager m c.state effs n t ∧ (t.heap manager = none ↔ c.live = ∅)
  | _, _ => False

section Calls

variable {manager : Ptr} {c : Client} {k : Kind} {tr : List libc.Event} {t : State}

theorem Counted.openEndpoint (h : Counted manager c) (hheld : c.held = true) {channel : Channel} {x : Option Ptr}
    (hran : (openEndpoint k manager channel).Ran Does c.state tr x t) :
    ∃ p m, x = some p ∧ c.state.heap manager = some (.manager m) ∧ Opened k manager m channel c.state (effects tr) p t ∧
      Counted manager ⟨t, if p = 0 then c.live else insert (k, p) c.live, c.held && (t.heap manager).isSome⟩ := by
  obtain ⟨m, hm, hfd, hcount⟩ := h.count hheld
  obtain ⟨p, rfl, hopened⟩ := opened_of_ran h.nonnull hm hfd hran
  exact ⟨p, m, rfl, hm, hopened, h.opened hheld hm hfd hcount hopened⟩

/-- The manager of an endpoint is there, and counts it. -/
theorem Counted.closeEndpoint (h : Counted manager c) {endpoint : Ptr} (hlive : (k, endpoint) ∈ c.live) {x : Option Int}
    (hran : (closeEndpoint k endpoint).Ran Does c.state tr x t) :
    ∃ n m, x = some n ∧ c.state.heap manager = some (.manager m) ∧
      (∃ e, c.state.heap endpoint = some (.endpoint k e) ∧ e.manager = manager ∧
        TornDown k endpoint e m c.state (effects tr) n t) ∧
      Counted manager ⟨t, c.live.erase (k, endpoint), c.held && (t.heap manager).isSome⟩ := by
  obtain ⟨hendpoint, e, he, rfl⟩ := h.owned k endpoint hlive
  have hheld : c.held = true := by
    by_contra hnot
    rw [h.consumed (by simpa using hnot)] at hlive
    simp at hlive
  obtain ⟨m, hm, hfd, hcount⟩ := h.count hheld
  have hactive : m.activeEndpoints ≠ 0 := by
    intro hzero
    rw [hzero] at hcount
    exact Finset.card_ne_zero_of_mem hlive hcount.symm
  obtain ⟨n, rfl, htorn⟩ := tornDown_of_ran hendpoint he h.nonnull hm hactive hran
  exact ⟨n, m, rfl, hm, ⟨e, he, rfl, htorn⟩, h.tornDown hheld hm hfd hcount hlive rfl htorn⟩

/-- Every call that is allowed ends as described, and the count stays right. -/
theorem Counted.call (h : Counted manager c) {call : Call} (hallows : c.Allows call) {x : Option Return}
    (hran : (call.program manager).Ran Does c.state tr x t) :
    ∃ r m, x = some r ∧ c.state.heap manager = some (.manager m) ∧ CallEnds manager c m (effects tr) t call r ∧
      Counted manager (c.after manager call r t) := by
  cases call with
  | subscribe publisherId channelKey =>
      obtain ⟨y, hcall, rfl⟩ := Ran.of_map hran
      obtain ⟨p, m, rfl, hm, hopened, hcounted⟩ := h.openEndpoint hallows hcall
      exact ⟨.handle p, m, rfl, hm, hopened, hcounted⟩
  | publish channelKey channelSize =>
      obtain ⟨y, hcall, rfl⟩ := Ran.of_map hran
      obtain ⟨p, m, rfl, hm, hopened, hcounted⟩ := h.openEndpoint hallows hcall
      exact ⟨.handle p, m, rfl, hm, hopened, hcounted⟩
  | unsubscribe subscriber =>
      obtain ⟨y, hcall, rfl⟩ := Ran.of_map hran
      obtain ⟨n, m, rfl, hm, htorn, hcounted⟩ := h.closeEndpoint hallows hcall
      exact ⟨.status n, m, rfl, hm, htorn, hcounted⟩
  | unpublish publisher =>
      obtain ⟨y, hcall, rfl⟩ := Ran.of_map hran
      obtain ⟨n, m, rfl, hm, htorn, hcounted⟩ := h.closeEndpoint hallows hcall
      exact ⟨.status n, m, rfl, hm, htorn, hcounted⟩
  | closeManager =>
      obtain ⟨m, hm, hfd, hcount⟩ := h.count hallows
      obtain ⟨y, hcall, rfl⟩ := Ran.of_map hran
      obtain ⟨n, rfl, hclosed⟩ := closed_of_ran h.nonnull hm hfd hcall
      obtain ⟨hcounted, hgone⟩ := h.closed hallows hm hcount hclosed
      exact ⟨.status n, m, rfl, hm, ⟨hclosed, hgone⟩, hcounted⟩

end Calls

/-! ## sequences of calls -/

theorem Counted.of_opens {manager : Ptr} {c : Client} (h : c.Opens manager) : Counted manager c := by
  obtain ⟨hne, hempty, hheld, s, tr, hran⟩ := h
  obtain ⟨fd, hm⟩ := ran_ivcOpenManager hne hran
  refine ⟨hne, fun _ => ⟨⟨fd, 0⟩, hm, Int.natCast_nonneg fd, by rw [hempty]; rfl⟩, ?_, fun hnot => ?_⟩
  · rw [Owned, hempty]
    simp
  · rw [hheld] at hnot
    cases hnot

theorem Counted.step {manager : Ptr} {c c' : Client} (h : Counted manager c) (hstep : Step manager c c') :
    Counted manager c' := by
  cases hstep with
  | call hallows hran =>
      obtain ⟨r, m, hr, -, -, hcounted⟩ := h.call hallows hran
      cases hr
      exact hcounted
  | between hmanager hlive =>
      refine ⟨h.nonnull, fun hheld => ?_, h.owned.frame hlive, h.consumed⟩
      obtain ⟨m, hm, hrest⟩ := h.count hheld
      exact ⟨m, (hmanager hheld).trans hm, hrest⟩

/-- The invariant of every sequence of calls. -/
theorem counted_of_reachable {manager : Ptr} {c₀ c : Client} (h₀ : c₀.Opens manager)
    (h : Relation.ReflTransGen (Step manager) c₀ c) : Counted manager c := by
  induction h with
  | refl => exact .of_opens h₀
  | tail _ hstep ih => exact ih.step hstep

/-- No call reports an underflow. -/
theorem CallEnds.no_underflow {manager : Ptr} {c : Client} {m : Manager} {effs : List libc.Event} {t : State} {call : Call}
    {r : Return} (h : CallEnds manager c m effs t call r) (operation : String) :
    ∀ e ∈ effs, e.1 ≠ .fprintf (.underflow operation) := by
  have hreport (c : Option ErrorCode) : ∀ e ∈ report c, e.1 ≠ .fprintf (.underflow operation) := by
    cases c <;> simp [report]
  have hopened {k : Kind} {channel : Channel} {p : Ptr} (h : Opened k manager m channel c.state effs p t) :
      ∀ e ∈ effs, e.1 ≠ .fprintf (.underflow operation) := by
    cases h <;> simp
  have htorn {k : Kind} {endpoint : Ptr} {e : Endpoint} {n : Int} (h : TornDown k endpoint e m c.state effs n t) :
      ∀ e ∈ effs, e.1 ≠ .fprintf (.underflow operation) := by
    obtain ⟨closed, removed, arg, -, -⟩ := h
    exact List.forall_mem_append.mpr ⟨by simp, hreport _⟩
  have hclosed {n : Int} (h : Closed manager m c.state effs n t) :
      ∀ e ∈ effs, e.1 ≠ .fprintf (.underflow operation) := by
    cases h with
    | busy => simp
    | closed => exact List.forall_mem_append.mpr ⟨by simp, hreport _⟩
  cases call with
  | subscribe | publish =>
      cases r with
      | handle p => exact hopened h
      | status n => cases h
  | unsubscribe | unpublish =>
      cases r with
      | handle p => cases h
      | status n =>
          obtain ⟨e, -, -, h⟩ := h
          exact htorn h
  | closeManager =>
      cases r with
      | handle p => cases h
      | status n => exact hclosed h.1

/-- **The count of endpoints is exact**, whichever calls of the C library fail.
The manager counts the endpoints returned and not torn down, and is consumed
with none left; every call ends in one of the ways of `CallEnds`, and none
takes the branch of an underflow. -/
theorem endpoints_counted {manager : Ptr} {c₀ c : Client} (h₀ : c₀.Opens manager)
    (h : Relation.ReflTransGen (Step manager) c₀ c) :
    (c.held = true → ∃ m, c.state.heap manager = some (.manager m) ∧ m.activeEndpoints.toNat = c.live.card) ∧
      (c.held = false → c.live = ∅) ∧
      ∀ call, c.Allows call → ∀ tr x t, (call.program manager).Ran Does c.state tr x t →
        (∃ r m, x = some r ∧ c.state.heap manager = some (.manager m) ∧ CallEnds manager c m (effects tr) t call r) ∧
          ∀ operation, ∀ e ∈ tr, e.1 ≠ .fprintf (.underflow operation) := by
  have hcounted := counted_of_reachable h₀ h
  refine ⟨fun hheld => ?_, hcounted.consumed, fun call hallows tr x t hran => ?_⟩
  · obtain ⟨m, hm, -, hcount⟩ := hcounted.count hheld
    exact ⟨m, hm, hcount⟩
  · obtain ⟨r, m, hx, hm, hends, -⟩ := hcounted.call hallows hran
    refine ⟨⟨r, m, hx, hm, hends⟩, fun operation e he heq => ?_⟩
    have hmem : e ∈ effects tr := List.mem_filter.mpr ⟨he, by rw [heq]; rfl⟩
    exact hends.no_underflow operation e hmem heq

/-! ## a teardown in which two steps fail -/

/-- A C library with two allocations; system calls end as they are told, and
printing clears `errno`. -/
def perform (answer : Op → SysRet) : (o : Op) → State → libc.Res o × State
  | .malloc, s =>
      if s.heap 1 = none then (1, { s with heap := Function.update s.heap 1 (some (.manager ⟨-1, 0⟩)) })
      else if s.heap 2 = none then (2, { s with heap := Function.update s.heap 2 (some (.manager ⟨-1, 0⟩)) })
      else (0, s)
  | .free p, s => ((), { s with heap := Function.update s.heap p none })
  | .loadManager p, s =>
      match s.heap p with
      | some (.manager m) => (m, s)
      | _ => (⟨-1, 0⟩, s)
  | .storeManager p m, s => ((), { s with heap := Function.update s.heap p (some (.manager m)) })
  | .loadEndpoint _ p, s =>
      match s.heap p with
      | some (.endpoint _ e) => (e, s)
      | _ => (⟨0, Channel.arg (.published 0 0), -1, 0, 0⟩, s)
  | .storeEndpoint k p e, s => ((), { s with heap := Function.update s.heap p (some (.endpoint k e)) })
  | .openFile path, s => (answer (.openFile path), { s with errno := (answer (.openFile path)).code })
  | .ioctl fd request arg, s =>
      ((answer (.ioctl fd request arg), arg), { s with errno := (answer (.ioctl fd request arg)).code })
  | .close fd, s => (answer (.close fd), { s with errno := (answer (.close fd)).code })
  | .perror _, s => ((), { s with errno := 0 })
  | .fprintf _, s => ((), { s with errno := 0 })
  | .loadErrno, s => (s.errno, s)
  | .storeErrno e, s => ((), { s with errno := e })

theorem does_perform (answer : Op → SysRet) (o : Op) (s : State) :
    Does o s (perform answer o s).1 (perform answer o s).2 := by
  have hcode (r : SysRet) : r.Leaves s { s with errno := r.code } := by
    refine ⟨rfl, ?_⟩
    rintro c rfl
    rfl
  cases o with
  | malloc =>
      simp only [perform, Does]
      split
      · next hfree => exact .inr ⟨by simp, hfree, _, rfl⟩
      · split
        · next hfree => exact .inr ⟨by simp, hfree, _, rfl⟩
        · exact .inl ⟨rfl, rfl⟩
  | loadManager p =>
      intro m hm
      simp [perform, hm]
  | loadEndpoint k p =>
      intro e he
      simp [perform, he]
  | openFile path => exact hcode _
  | close fd => exact hcode _
  | ioctl fd request arg => exact ⟨rfl, hcode _⟩
  | loadErrno => exact ⟨rfl, rfl⟩
  | free | storeManager | storeEndpoint => exact fun _ => rfl
  | perror | fprintf | storeErrno => rfl

/-- `close` and the `ioctl` of the teardown fail. -/
def refusing : Op → SysRet
  | .close _ => .fails ⟨5, by decide⟩
  | .ioctl _ .unsubscribeChannel _ => .fails ⟨22, by decide⟩
  | _ => .ok 3

/-- The state in which a program ends. -/
def State.after {α : Type} (s : State) (p : Prog libc α) : State :=
  ((p.run (perform refusing) s).map Prod.snd).getD s

/-- The memory of a client that has opened the manager. -/
def opening : State := State.after ⟨0, fun _ => none⟩ ivcOpenManager

/-- The memory of a client that has subscribed. -/
def subscribing : State := opening.after (ivcSubscribe 1 7 9)

/-- A subscriber whose teardown fails at both calls: the error is that of
`close`. -/
theorem endpoints_counted_teardown_fails : ∃ c₀ c : Client, c₀.Opens 1 ∧ Relation.ReflTransGen (Step 1) c₀ c ∧
    c.live = {(.subscriber, 2)} ∧ (∃ m, c.state.heap 1 = some (.manager m) ∧ m.activeEndpoints.toNat = 1) ∧
      ∃ tr t, ((Call.unsubscribe 2).program 1).Ran Does c.state tr (some (.status (-1))) t ∧ t.errno = 5 ∧
        ∀ operation, ∀ e ∈ tr, e.1 ≠ .fprintf (.underflow operation) := by
  have hopen : ivcOpenManager.run (perform refusing) ⟨0, fun _ => none⟩ = some (1, opening) := rfl
  have hsubscribe : ((Call.subscribe 7 9).program 1).run (perform refusing) opening = some (.handle 2, subscribing) :=
    rfl
  have hteardown : ((Call.unsubscribe 2).program 1).run (perform refusing) subscribing =
      some (.status (-1), subscribing.after (ivcUnsubscribe 2)) := rfl
  have herrno : (subscribing.after (ivcUnsubscribe 2)).errno = 5 := rfl
  obtain ⟨tr₀, hopen⟩ := ran_of_run (does_perform refusing) hopen
  obtain ⟨tr₁, hsubscribe⟩ := ran_of_run (does_perform refusing) hsubscribe
  obtain ⟨tr₂, hteardown⟩ := ran_of_run (does_perform refusing) hteardown
  have h₀ : (⟨opening, ∅, true⟩ : Client).Opens 1 := ⟨by decide, rfl, rfl, _, _, hopen⟩
  have hreach : Relation.ReflTransGen (Step 1) ⟨opening, ∅, true⟩
      (Client.after ⟨opening, ∅, true⟩ 1 (.subscribe 7 9) (.handle 2) subscribing) := .single (.call rfl hsubscribe)
  obtain ⟨hcount, -, hcalls⟩ := endpoints_counted h₀ hreach
  obtain ⟨-, hunderflow⟩ := hcalls (.unsubscribe 2) (Finset.mem_insert_self _ _) _ _ _ hteardown
  exact ⟨_, _, h₀, hreach, rfl, hcount rfl, tr₂, _, hteardown, herrno, hunderflow⟩

end Ulib

end Axivc
