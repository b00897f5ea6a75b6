import Mathlib.Algebra.GroupWithZero.Nat
import Axivc.UlibRuns

/-!
# Axivc.UlibIo

Sending and receiving through the user-space library (`ivc_ulib.c`).

A call of the library is one call of the device or none: an argument that is
refused leaves the device alone, and a short write is an error, because to send
the rest would be to send another message.  The counters of an endpoint are
kept modulo `2 ^ 64`, the values the calls return are `int`s.

`Received` and `Sent` say everything a call can do, `traffic_counted` is about
any sequence of calls.
-/

namespace Axivc

namespace Ulib

open Prog

/-! ## calls of the C library -/

def EIO : Int32 := 5

def EMSGSIZE : Int32 := 90

def EOPNOTSUPP : Int32 := 95

/-- `INT_MAX` -/
def intMax : UInt64 := 0x7fffffff

/-- The bytes of a buffer, as many as a `size_t` counts. -/
abbrev Data : Type := { bytes : List UInt8 // bytes.length < 2 ^ 64 }

/-- `count` -/
def Data.count (data : Data) : UInt64 := .ofNat data.1.length

/-- What the calls print. -/
inductive IoMessage where
  | invalidRecv (k : Kind)
  | recvTooLarge (k : Kind)
  | recvFailed (k : Kind)
  | invalidSend (k : Kind)
  | emptySend
  | sendTooLarge (k : Kind)
  | sendFailed (k : Kind)
  | shortSend (k : Kind) (sent : Int32) (count : UInt64)

/-- The endpoint in a message. -/
def Kind.name : Kind → String
  | .subscriber => "subscriber"
  | .publisher => "publisher"

def Kind.capitalName : Kind → String
  | .subscriber => "Subscriber"
  | .publisher => "Publisher"

def IoMessage.text : IoMessage → String
  | .invalidRecv k => "Invalid arguments for ivc_" ++ k.name ++ "_recv\n"
  | .recvTooLarge k => k.capitalName ++ " receive buffer is too large\n"
  | .recvFailed k => "Failed to receive on " ++ k.name ++ " device"
  | .invalidSend k => "Invalid arguments for ivc_" ++ k.name ++ "_send\n"
  | .emptySend => "Empty IVC messages are not representable by the read/write device ABI\n"
  | .sendTooLarge k => k.capitalName ++ " message is too large\n"
  | .sendFailed k => "Failed to send on " ++ k.name ++ " device"
  | .shortSend k sent count =>
      k.capitalName ++ " device returned a short message send: " ++ toString sent ++ "/" ++ toString count ++ "\n"

/-- How a `read` ends. -/
inductive ReadRet where
  | ok (data : List UInt8)
  | fails (e : ErrorCode)

/-- The value it returns. -/
def ReadRet.ret : ReadRet → Int
  | .ok data => data.length
  | .fails _ => -1

/-- What it leaves in the buffer. -/
def ReadRet.data : ReadRet → List UInt8
  | .ok data => data
  | .fails _ => []

/-- The calls of the C library, with those on an open device. -/
inductive IoOp where
  | lib (o : Op)
  | read (fd : Int) (count : UInt64)
  | write (fd : Int) (data : List UInt8)
  | perror (message : IoMessage)
  | fprintf (message : IoMessage)

@[reducible] def ioLib : Iface where
  Op := IoOp
  Res
    | .lib o => libc.Res o
    | .read _ _ => ReadRet
    | .write _ _ => SysRet
    | _ => Unit

abbrev io (o : IoOp) : Prog ioLib (ioLib.Res o) := op (I := ioLib) o

/-- What they do: no more is read than was asked for, and no more written than
was given. -/
def IoDoes : (o : IoOp) → State → ioLib.Res o → State → Prop
  | .lib o, s, r, t => Does o s r t
  | .read _ count, s, r, t => r.data.length ≤ count.toNat ∧ t.heap = s.heap ∧ ∀ e, r = .fails e → t.errno = e
  | .write _ data, s, r, t => r.ret ≤ data.length ∧ r.Leaves s t
  | .perror _, s, _, t | .fprintf _, s, _, t => t.heap = s.heap

/-! ## the programs -/

/-- An argument is refused. -/
def refuse {α : Type} (errno : Int32) (message : IoMessage) (a : α) : Prog ioLib α := do
  io (.lib (.storeErrno errno))
  io (.fprintf message)
  pure a

/-- What a receive does with what the device has returned. -/
def afterRead (k : Kind) (endpoint : Ptr) (r : ReadRet) : Prog ioLib (Int32 × List UInt8) :=
  let bytesReceived := Int32.ofInt r.ret
  if bytesReceived < 0 then do
    io (.perror (.recvFailed k))
    pure (bytesReceived, r.data)
  else do
    let e : Endpoint ← io (.lib (.loadEndpoint k endpoint))
    io (.lib (.storeEndpoint k endpoint { e with bytesReceived := e.bytesReceived + bytesReceived.toInt64.toUInt64 }))
    pure (bytesReceived, r.data)

/-- The common text of `ivc_subscriber_recv` and `ivc_publisher_recv`: what it
returns, and what it leaves in the buffer. -/
def endpointRecv (k : Kind) (endpoint buf : Ptr) (count : UInt64) : Prog ioLib (Int32 × List UInt8) :=
  if endpoint = 0 ∨ buf = 0 ∨ count = 0 then refuse EINVAL (.invalidRecv k) (-1, [])
  else if count > intMax then refuse EMSGSIZE (.recvTooLarge k) (-1, [])
  else do
    let e : Endpoint ← io (.lib (.loadEndpoint k endpoint))
    let r : ReadRet ← io (.read e.fd count)
    afterRead k endpoint r

/-- What a send does with what the device has returned. -/
def afterWrite (k : Kind) (endpoint : Ptr) (data : Data) (r : SysRet) : Prog ioLib Int32 :=
  let bytesSent := Int32.ofInt r.ret
  if bytesSent < 0 then do
    io (.perror (.sendFailed k))
    pure (-1)
  else if bytesSent ≠ data.count.toUInt32.toInt32 then
    refuse EIO (.shortSend k bytesSent data.count) (-1)
  else do
    let e : Endpoint ← io (.lib (.loadEndpoint k endpoint))
    io (.lib (.storeEndpoint k endpoint { e with bytesSent := e.bytesSent + bytesSent.toInt64.toUInt64 }))
    pure bytesSent

/-- The common text of `ivc_subscriber_send` and `ivc_publisher_send`. -/
def endpointSend (k : Kind) (endpoint buf : Ptr) (data : Data) : Prog ioLib Int32 :=
  if endpoint = 0 ∨ buf = 0 then refuse EINVAL (.invalidSend k) (-1)
  else if data.count = 0 then refuse EOPNOTSUPP .emptySend (-1)
  else if data.count > intMax then refuse EMSGSIZE (.sendTooLarge k) (-1)
  else do
    -- One device write is one Message V1 message.  Retrying a short write
    -- would create another logical message instead of completing this one.
    let e : Endpoint ← io (.lib (.loadEndpoint k endpoint))
    let r : SysRet ← io (.write e.fd data.1)
    afterWrite k endpoint data r

/-- `ivc_subscriber_recv` -/
def ivcSubscriberRecv (subscriber buf : Ptr) (count : UInt64) : Prog ioLib (Int32 × List UInt8) :=
  endpointRecv .subscriber subscriber buf count

/-- `ivc_publisher_recv` -/
def ivcPublisherRecv (publisher buf : Ptr) (count : UInt64) : Prog ioLib (Int32 × List UInt8) :=
  endpointRecv .publisher publisher buf count

/-- `ivc_subscriber_send` -/
def ivcSubscriberSend (subscriber buf : Ptr) (data : Data) : Prog ioLib Int32 :=
  endpointSend .subscriber subscriber buf data

/-- `ivc_publisher_send` -/
def ivcPublisherSend (publisher buf : Ptr) (data : Data) : Prog ioLib Int32 :=
  endpointSend .publisher publisher buf data

/-! ## numbers -/

section Numbers

variable {n : Nat}

theorem toInt_ofInt_natCast (hn : n ≤ intMax.toNat) : (Int32.ofInt n).toInt = n := by
  have hn : n ≤ 2147483647 := hn
  exact Int32.toInt_ofInt_of_le (by omega) (by omega)

/-- The length of what has been moved is not negative as an `int`. -/
theorem not_ofInt_natCast_neg (hn : n ≤ intMax.toNat) : ¬ Int32.ofInt n < 0 := by
  rw [Int32.lt_iff_toInt_lt, toInt_ofInt_natCast hn]
  exact Int.not_lt.mpr (Int.natCast_nonneg n)

theorem ofInt_neg_one_neg : Int32.ofInt (-1) < 0 := by decide

/-- `(uint64_t)` of a length. -/
theorem toUInt64_ofInt_natCast (hn : n ≤ intMax.toNat) : (Int32.ofInt n).toInt64.toUInt64 = UInt64.ofNat n := by
  have hnonneg : 0 ≤ (Int32.ofInt n).toInt64 := by
    rw [Int64.le_iff_toInt_le, Int32.toInt_toInt64, toInt_ofInt_natCast hn]
    exact Int.natCast_nonneg n
  have hlt : n < 2 ^ 64 := by
    have hn : n ≤ 2147483647 := hn
    omega
  rw [← UInt64.toNat_inj, Int64.toNat_toUInt64_of_le hnonneg, UInt64.toNat_ofNat_of_lt' hlt, Int64.toNatClampNeg,
    Int32.toInt_toInt64, toInt_ofInt_natCast hn, Int.toNat_natCast]

/-- `(int)count` -/
theorem toInt32_ofNat (n : Nat) : (UInt64.ofNat n).toUInt32.toInt32 = Int32.ofInt n := by
  rw [UInt64.toUInt32_ofNat', UInt32.toInt32_ofNat', Int32.ofInt_eq_ofNat]

end Numbers

/-! ## what a call does -/

/-- A call of the device. -/
def IoOp.onDevice : IoOp → Bool
  | .read _ _ | .write _ _ => true
  | _ => false

/-- The calls of the device in a run, in their order. -/
def deviceCalls (tr : List ioLib.Event) : List ioLib.Event := tr.filter fun e => e.1.onDevice

/-- How a receive ends: the arguments are refused and the device is left alone,
or the device is read once. -/
inductive Received (k : Kind) (endpoint buf : Ptr) (count : UInt64) (e : Endpoint) (s : State) :
    List ioLib.Event → Int32 × List UInt8 → State → Prop where
  | refused {t : State} (harg : buf = 0 ∨ count = 0 ∨ count > intMax) (hheap : t.heap = s.heap) :
      Received k endpoint buf count e s [] (-1, []) t
  | failed {t : State} (c : ErrorCode) (hheap : t.heap = s.heap) :
      Received k endpoint buf count e s [⟨.read e.fd count, .fails c⟩] (-1, []) t
  | received {t : State} (data : List UInt8) (n : Int32) (hcount : data.length ≤ count.toNat) (hn : n.toInt = data.length)
      (hheap : t.heap = Function.update s.heap endpoint
        (some (.endpoint k { e with bytesReceived := e.bytesReceived + .ofNat data.length }))) :
      Received k endpoint buf count e s [⟨.read e.fd count, .ok data⟩] (n, data) t

/-- How a send ends: the arguments are refused and the device is left alone, or
the message is written once; it counts when the device has taken all of it. -/
inductive Sent (k : Kind) (endpoint buf : Ptr) (data : Data) (e : Endpoint) (s : State) :
    List ioLib.Event → Int32 → State → Prop where
  | refused {t : State} (harg : buf = 0 ∨ data.1 = [] ∨ data.count > intMax) (hheap : t.heap = s.heap) :
      Sent k endpoint buf data e s [] (-1) t
  | failed {t : State} (r : SysRet) (hr : r ≠ .ok data.1.length) (hheap : t.heap = s.heap) :
      Sent k endpoint buf data e s [⟨.write e.fd data.1, r⟩] (-1) t
  | sent {t : State} (n : Int32) (hn : n.toInt = data.1.length)
      (hheap : t.heap = Function.update s.heap endpoint
        (some (.endpoint k { e with bytesSent := e.bytesSent + .ofNat data.1.length }))) :
      Sent k endpoint buf data e s [⟨.write e.fd data.1, .ok data.1.length⟩] n t

section Calls

variable {α : Type} {k : Kind} {endpoint buf : Ptr} {e : Endpoint} {s t : State} {tr : List ioLib.Event}

theorem deviceCalls_once {o : Op} {r : libc.Res o} {event : ioLib.Event} (hevent : event.1.onDevice = true)
    (htr : deviceCalls tr = []) : deviceCalls (⟨.lib o, r⟩ :: event :: tr) = [event] := by
  have htr : tr.filter (fun e => IoOp.onDevice e.1) = [] := htr
  have hlib : IoOp.onDevice (.lib o) = false := rfl
  simp [deviceCalls, hlib, hevent, htr]

theorem Ran.of_refuse {errno : Int32} {message : IoMessage} {a : α} {x : Option α}
    (h : (refuse errno message a).Ran IoDoes s tr x t) : deviceCalls tr = [] ∧ x = some a ∧ t.heap = s.heap := by
  obtain ⟨_, u, tr₁, hstore, ⟨_, v, tr₂, hprint, ⟨rfl, rfl, rfl⟩, rfl⟩, rfl⟩ := h
  obtain rfl : u = { s with errno := errno } := hstore
  exact ⟨rfl, rfl, hprint⟩

/-- The endpoint is read again after the call of the device, and one of its
counters stored. -/
theorem Ran.of_count {e' : Endpoint → Endpoint} {a : α} {x : Option α} (he : s.heap endpoint = some (.endpoint k e))
    (h : (io (.lib (.loadEndpoint k endpoint)) >>= fun e : Endpoint =>
      io (.lib (.storeEndpoint k endpoint (e' e))) >>= fun _ => pure a).Ran IoDoes s tr x t) :
    deviceCalls tr = [] ∧ x = some a ∧ t.heap = Function.update s.heap endpoint (some (.endpoint k (e' e))) := by
  obtain ⟨e₁, u, tr₁, hload, ⟨_, v, tr₂, hstore, ⟨rfl, rfl, rfl⟩, rfl⟩, rfl⟩ := h
  obtain ⟨rfl, rfl⟩ := hload e he
  have hstored := hstore (by rw [he]; simp)
  exact ⟨rfl, rfl, by rw [hstored]⟩

/-- **Everything `ivc_subscriber_recv` and `ivc_publisher_recv` can do.** -/
theorem received_of_ran {count : UInt64} {x : Option (Int32 × List UInt8)} (hne : endpoint ≠ 0)
    (he : s.heap endpoint = some (.endpoint k e)) (h : (endpointRecv k endpoint buf count).Ran IoDoes s tr x t) :
    ∃ r, x = some r ∧ Received k endpoint buf count e s (deviceCalls tr) r t := by
  rw [endpointRecv] at h
  split at h
  · next harg =>
    obtain ⟨htr, rfl, hheap⟩ := Ran.of_refuse h
    rw [htr]
    exact ⟨_, rfl, .refused ((harg.resolve_left hne).imp_right .inl) hheap⟩
  · split at h
    · next hlarge =>
      obtain ⟨htr, rfl, hheap⟩ := Ran.of_refuse h
      rw [htr]
      exact ⟨_, rfl, .refused (.inr (.inr hlarge)) hheap⟩
    · next hsmall =>
      have hmax : count.toNat ≤ intMax.toNat := UInt64.le_iff_toNat_le.mp (UInt64.not_lt.mp hsmall)
      obtain ⟨e₁, u, tr₁, hload, ⟨r, v, tr₂, ⟨hcount, hread, -⟩, h, rfl⟩, rfl⟩ := h
      obtain ⟨rfl, rfl⟩ := hload e he
      cases r with
      | fails c =>
          have h : (afterRead k endpoint (.fails c)).Ran IoDoes v tr₂ x t := h
          rw [afterRead, ReadRet.ret, if_pos ofInt_neg_one_neg] at h
          obtain ⟨_, w, tr₃, hprint, ⟨rfl, rfl, rfl⟩, rfl⟩ := h
          exact ⟨_, rfl, .failed c (Eq.trans hprint hread)⟩
      | ok data =>
          have hdata : data.length ≤ intMax.toNat := Nat.le_trans hcount hmax
          have h : (afterRead k endpoint (.ok data)).Ran IoDoes v tr₂ x t := h
          rw [afterRead, ReadRet.ret, if_neg (not_ofInt_natCast_neg hdata)] at h
          obtain ⟨htr, rfl, hheap⟩ := Ran.of_count (by rw [hread]; exact he) h
          refine ⟨_, rfl, ?_⟩
          rw [deviceCalls_once rfl htr]
          refine .received data _ hcount (toInt_ofInt_natCast hdata) ?_
          rw [hheap, hread, toUInt64_ofInt_natCast hdata]

theorem Data.toNat_count (data : Data) : data.count.toNat = data.1.length := UInt64.toNat_ofNat_of_lt' data.2

/-- **Everything `ivc_subscriber_send` and `ivc_publisher_send` can do.** -/
theorem sent_of_ran {data : Data} {x : Option Int32} (hne : endpoint ≠ 0) (he : s.heap endpoint = some (.endpoint k e))
    (h : (endpointSend k endpoint buf data).Ran IoDoes s tr x t) :
    ∃ n, x = some n ∧ Sent k endpoint buf data e s (deviceCalls tr) n t := by
  rw [endpointSend] at h
  split at h
  · next harg =>
    obtain ⟨htr, rfl, hheap⟩ := Ran.of_refuse h
    rw [htr]
    exact ⟨_, rfl, .refused (.inl (harg.resolve_left hne)) hheap⟩
  · split at h
    · next hempty =>
      obtain ⟨htr, rfl, hheap⟩ := Ran.of_refuse h
      rw [htr]
      have hlength := data.toNat_count
      rw [hempty] at hlength
      exact ⟨_, rfl, .refused (.inr (.inl (List.eq_nil_of_length_eq_zero hlength.symm))) hheap⟩
    · split at h
      · next hlarge =>
        obtain ⟨htr, rfl, hheap⟩ := Ran.of_refuse h
        rw [htr]
        exact ⟨_, rfl, .refused (.inr (.inr hlarge)) hheap⟩
      · next hsmall =>
        have hmax : data.1.length ≤ intMax.toNat := by
          rw [← data.toNat_count]
          exact UInt64.le_iff_toNat_le.mp (UInt64.not_lt.mp hsmall)
        obtain ⟨e₁, u, tr₁, hload, ⟨r, v, tr₂, ⟨hcount, hheap, -⟩, h, rfl⟩, rfl⟩ := h
        obtain ⟨rfl, rfl⟩ := hload e he
        have h : (afterWrite k endpoint data r).Ran IoDoes v tr₂ x t := h
        cases r with
        | fails c =>
            rw [afterWrite, SysRet.ret, if_pos ofInt_neg_one_neg] at h
            obtain ⟨_, w, tr₃, hprint, ⟨rfl, rfl, rfl⟩, rfl⟩ := h
            exact ⟨_, rfl, .failed _ (by simp) (Eq.trans hprint hheap)⟩
        | ok value =>
            have hvalue : value ≤ intMax.toNat := Nat.le_trans (Int.ofNat_le.mp hcount) hmax
            rw [afterWrite, SysRet.ret, if_neg (not_ofInt_natCast_neg hvalue), Data.count, toInt32_ofNat] at h
            by_cases hfull : value = data.1.length
            · rw [hfull, if_neg (not_not_intro rfl)] at h
              obtain ⟨htr, rfl, hstored⟩ := Ran.of_count (by rw [hheap]; exact he) h
              refine ⟨_, rfl, ?_⟩
              rw [deviceCalls_once rfl htr, hfull]
              refine .sent _ (toInt_ofInt_natCast hmax) ?_
              rw [hstored, hheap, toUInt64_ofInt_natCast hmax]
            · have hshort : Int32.ofInt value ≠ Int32.ofInt data.1.length := by
                intro heq
                have hint := congrArg Int32.toInt heq
                rw [toInt_ofInt_natCast hvalue, toInt_ofInt_natCast hmax] at hint
                exact hfull (Int.ofNat_inj.mp hint)
              rw [if_pos hshort] at h
              obtain ⟨htr, rfl, hrefused⟩ := Ran.of_refuse h
              refine ⟨_, rfl, ?_⟩
              rw [deviceCalls_once rfl htr]
              exact .failed _ (by simpa using hfull) (hrefused.trans hheap)

end Calls

/-! ## sequences of calls -/

/-- A process and the calls its endpoint has made of the device. -/
structure Traffic where
  state : State
  calls : List ioLib.Event

/-- The bytes that have been read. -/
def bytesRead : ioLib.Event → Nat
  | ⟨.read _ _, .ok data⟩ => data.length
  | _ => 0

/-- The bytes of a message that has been written as a whole. -/
def bytesWritten : ioLib.Event → Nat
  | ⟨.write _ data, .ok value⟩ => if value = data.length then data.length else 0
  | _ => 0

/-- A call on the endpoint, or what the rest of the process does in between. -/
inductive IoStep (k : Kind) (endpoint : Ptr) : Traffic → Traffic → Prop where
  | recv {c : Traffic} {buf : Ptr} {count : UInt64} {tr : List ioLib.Event} {r : Int32 × List UInt8} {t : State}
      (hran : (endpointRecv k endpoint buf count).Ran IoDoes c.state tr (some r) t) :
      IoStep k endpoint c ⟨t, c.calls ++ deviceCalls tr⟩
  | send {c : Traffic} {buf : Ptr} {data : Data} {tr : List ioLib.Event} {n : Int32} {t : State}
      (hran : (endpointSend k endpoint buf data).Ran IoDoes c.state tr (some n) t) :
      IoStep k endpoint c ⟨t, c.calls ++ deviceCalls tr⟩
  | between {c : Traffic} {t : State} (hheap : t.heap endpoint = c.state.heap endpoint) :
      IoStep k endpoint c { c with state := t }

/-- The endpoint is the one that was opened, up to its counters, which count
what has been read and written. -/
def Tallied (k : Kind) (endpoint : Ptr) (e₀ : Endpoint) (c : Traffic) : Prop :=
  ∃ e, c.state.heap endpoint = some (.endpoint k e) ∧
    e = { e₀ with bytesReceived := e.bytesReceived, bytesSent := e.bytesSent } ∧
    e.bytesReceived = e₀.bytesReceived + .ofNat (c.calls.map bytesRead).sum ∧
    e.bytesSent = e₀.bytesSent + .ofNat (c.calls.map bytesWritten).sum

section Traffic

variable {k : Kind} {endpoint : Ptr} {e₀ : Endpoint} {c c' : Traffic}

/-- A call that has left the endpoint as it was, and of which nothing counts. -/
theorem Tallied.unchanged (h : Tallied k endpoint e₀ c) {t : State} {calls : List ioLib.Event}
    (hheap : t.heap = c.state.heap) (hread : (calls.map bytesRead).sum = 0) (hwritten : (calls.map bytesWritten).sum = 0) :
    Tallied k endpoint e₀ ⟨t, c.calls ++ calls⟩ := by
  obtain ⟨e, he, hsame, hreceived, hsent⟩ := h
  refine ⟨e, by rw [hheap]; exact he, hsame, ?_, ?_⟩
  · rw [List.map_append, List.sum_append, hread]
    exact hreceived
  · rw [List.map_append, List.sum_append, hwritten]
    exact hsent

theorem bytesWritten_eq_zero {fd : Int} {data : List UInt8} {r : SysRet} (hr : r ≠ .ok data.length) :
    bytesWritten ⟨.write fd data, r⟩ = 0 := by
  cases r with
  | ok value =>
      have hshort : value ≠ data.length := fun heq => hr (by rw [heq])
      exact if_neg hshort
  | fails c => rfl

theorem Tallied.step (h : Tallied k endpoint e₀ c) (hne : endpoint ≠ 0) (hstep : IoStep k endpoint c c') :
    Tallied k endpoint e₀ c' := by
  have hbefore := h
  obtain ⟨e, he, hsame, hreceived, hsent⟩ := h
  cases hstep with
  | recv hran =>
      obtain ⟨r, hr, hcall⟩ := received_of_ran hne he hran
      cases hr
      generalize deviceCalls _ = calls at hcall ⊢
      cases hcall with
      | refused _ hheap => exact hbefore.unchanged hheap rfl rfl
      | failed c hheap => exact hbefore.unchanged hheap rfl rfl
      | received data n _ _ hheap =>
          refine ⟨_, by rw [hheap, Function.update_self], by rw [hsame], ?_, ?_⟩
          · simp only [List.map_append, List.sum_append, UInt64.ofNat_add, ← UInt64.add_assoc, ← hreceived]
            rfl
          · rw [List.map_append, List.sum_append]
            exact hsent
  | send hran =>
      obtain ⟨n, hn, hcall⟩ := sent_of_ran hne he hran
      cases hn
      generalize deviceCalls _ = calls at hcall ⊢
      cases hcall with
      | refused _ hheap => exact hbefore.unchanged hheap rfl rfl
      | failed r hr hheap => exact hbefore.unchanged hheap rfl (by simp [bytesWritten_eq_zero hr])
      | sent n _ hheap =>
          refine ⟨_, by rw [hheap, Function.update_self], by rw [hsame], ?_, ?_⟩
          · rw [List.map_append, List.sum_append]
            exact hreceived
          · simp only [List.map_append, List.sum_append, UInt64.ofNat_add, ← UInt64.add_assoc, ← hsent]
            simp [bytesWritten]
  | between hheap => exact ⟨e, hheap.trans he, hsame, hreceived, hsent⟩

/-- **The counters of an endpoint count what the device has moved**, in every
sequence of calls and whatever the device answers: every call is one call of
the device or none, and ends as `Received` and `Sent` say; the counters are the
bytes read, and the bytes of the messages written as a whole, modulo `2 ^ 64`. -/
theorem traffic_counted (hne : endpoint ≠ 0) {c₀ : Traffic} (he₀ : c₀.state.heap endpoint = some (.endpoint k e₀))
    (hcalls : c₀.calls = []) (h : Relation.ReflTransGen (IoStep k endpoint) c₀ c) :
    ∃ e, c.state.heap endpoint = some (.endpoint k e) ∧
      e = { e₀ with bytesReceived := e.bytesReceived, bytesSent := e.bytesSent } ∧
      e.bytesReceived.toNat = (e₀.bytesReceived.toNat + (c.calls.map bytesRead).sum) % 2 ^ 64 ∧
      e.bytesSent.toNat = (e₀.bytesSent.toNat + (c.calls.map bytesWritten).sum) % 2 ^ 64 ∧
      (∀ buf count tr x t, (endpointRecv k endpoint buf count).Ran IoDoes c.state tr x t →
        ∃ r, x = some r ∧ Received k endpoint buf count e c.state (deviceCalls tr) r t) ∧
      ∀ buf data tr x t, (endpointSend k endpoint buf data).Ran IoDoes c.state tr x t →
        ∃ n, x = some n ∧ Sent k endpoint buf data e c.state (deviceCalls tr) n t := by
  have htallied : Tallied k endpoint e₀ c := by
    induction h with
    | refl => exact ⟨e₀, he₀, rfl, by simp [hcalls], by simp [hcalls]⟩
    | tail _ hstep ih => exact ih.step hne hstep
  have hsum (a : UInt64) (n : Nat) : (a + .ofNat n).toNat = (a.toNat + n) % 2 ^ 64 := by
    rw [UInt64.toNat_add, UInt64.toNat_ofNat', Nat.add_mod_mod]
  obtain ⟨e, he, hsame, hreceived, hsent⟩ := htallied
  refine ⟨e, he, hsame, by rw [hreceived, hsum], by rw [hsent, hsum], ?_, ?_⟩
  · intro buf count tr x t hran
    exact received_of_ran hne he hran
  · intro buf data tr x t hran
    exact sent_of_ran hne he hran

end Traffic

/-- A device that has three bytes to read, and takes `taken` bytes of a
message. -/
def ioPerform (taken : Nat) : (o : IoOp) → State → ioLib.Res o × State
  | .lib o, s => perform refusing o s
  | .read _ count, s => (.ok ([1, 2, 3].take count.toNat), s)
  | .write _ data, s => (.ok (min taken data.length), s)
  | .perror _, s => ((), s)
  | .fprintf _, s => ((), s)

theorem does_ioPerform (taken : Nat) (o : IoOp) (s : State) :
    IoDoes o s (ioPerform taken o s).1 (ioPerform taken o s).2 := by
  cases o with
  | lib o => exact does_perform refusing o s
  | read fd count =>
      refine ⟨?_, rfl, fun e he => ?_⟩
      · simp [ioPerform, ReadRet.data, List.length_take]
      · cases he
  | write fd data =>
      refine ⟨?_, rfl, fun e he => ?_⟩
      · simp [ioPerform, SysRet.ret]
      · cases he
  | perror message => rfl
  | fprintf message => rfl

/-- The memory after a call. -/
def State.afterIo {α : Type} (s : State) (p : Prog ioLib α) : State :=
  ((p.run (ioPerform 2) s).map Prod.snd).getD s

/-- The memory of a client that has subscribed and received. -/
def receiving : State := subscribing.afterIo (endpointRecv .subscriber 2 100 16)

/-- A message of five bytes. -/
def message : Data := ⟨[9, 9, 9, 9, 9], by decide⟩

/-- A message of three bytes is received, and one of five sent of which the
device takes two: the second is not counted. -/
theorem traffic_counted_short : ∃ c₀ c : Traffic, Relation.ReflTransGen (IoStep .subscriber 2) c₀ c ∧
    (c.calls.map bytesRead).sum = 3 ∧ (c.calls.map bytesWritten).sum = 0 ∧ c.calls.length = 2 ∧
    ∃ e, c.state.heap 2 = some (.endpoint .subscriber e) ∧ e.bytesReceived.toNat = 3 ∧ e.bytesSent.toNat = 0 := by
  have hrecv : (endpointRecv .subscriber 2 100 16).run (ioPerform 2) subscribing = some ((3, [1, 2, 3]), receiving) := rfl
  have hsend : (endpointSend .subscriber 2 100 message).run (ioPerform 2) receiving =
      some (-1, receiving.afterIo (endpointSend .subscriber 2 100 message)) := rfl
  obtain ⟨tr₁, hrecv⟩ := ran_of_run (does_ioPerform 2) hrecv
  obtain ⟨tr₂, hsend⟩ := ran_of_run (does_ioPerform 2) hsend
  have hopened : ∃ e, subscribing.heap 2 = some (.endpoint .subscriber e) ∧ e.bytesReceived = 0 ∧ e.bytesSent = 0 :=
    ⟨_, rfl, rfl, rfl⟩
  have hopened' : ∃ e, receiving.heap 2 = some (.endpoint .subscriber e) := ⟨_, rfl⟩
  obtain ⟨e₀, he₀, hzero, hzero'⟩ := hopened
  obtain ⟨e₁, he₁⟩ := hopened'
  have hread : ((deviceCalls tr₁).map bytesRead).sum = 3 ∧ ((deviceCalls tr₁).map bytesWritten).sum = 0 ∧
      (deviceCalls tr₁).length = 1 := by
    obtain ⟨r, hr, hcall⟩ := received_of_ran (by decide) he₀ hrecv
    generalize deviceCalls tr₁ = calls at hcall ⊢
    cases hr
    cases hcall with
    | received data n => exact ⟨rfl, rfl, rfl⟩
  have hwritten : ((deviceCalls tr₂).map bytesRead).sum = 0 ∧ ((deviceCalls tr₂).map bytesWritten).sum = 0 ∧
      (deviceCalls tr₂).length = 1 := by
    obtain ⟨n, hn, hcall⟩ := sent_of_ran (by decide) he₁ hsend
    generalize deviceCalls tr₂ = calls at hcall ⊢
    cases hn
    cases hcall with
    | refused harg => exact absurd harg (by decide)
    | failed r hr => exact ⟨rfl, by simp [bytesWritten_eq_zero hr], rfl⟩
    | sent n hn => exact absurd hn (by decide)
  have hrun : Relation.ReflTransGen (IoStep .subscriber 2) ⟨subscribing, []⟩
      ⟨receiving.afterIo (endpointSend .subscriber 2 100 message), [] ++ deviceCalls tr₁ ++ deviceCalls tr₂⟩ :=
    .tail (.single (.recv hrecv)) (.send hsend)
  obtain ⟨e, he, -, hreceived, hsent, -⟩ := traffic_counted (by decide) he₀ rfl hrun
  rw [hzero] at hreceived
  rw [hzero'] at hsent
  have hmap (f : ioLib.Event → Nat) : (([] ++ deviceCalls tr₁ ++ deviceCalls tr₂).map f).sum =
      ((deviceCalls tr₁).map f).sum + ((deviceCalls tr₂).map f).sum := by simp
  refine ⟨_, _, hrun, ?_, ?_, ?_, e, he, ?_, ?_⟩
  · rw [hmap, hread.1, hwritten.1]
  · rw [hmap, hread.2.1, hwritten.2.1]
  · simp [hread.2.2, hwritten.2.2]
  · rw [hreceived, hmap, hread.1, hwritten.1]
    rfl
  · rw [hsent, hmap, hread.2.1, hwritten.2.1]
    rfl

end Ulib

end Axivc
