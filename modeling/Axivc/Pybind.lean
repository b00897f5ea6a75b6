import Axivc.UlibIo

/-!
# Axivc.Pybind

The Python bindings (`ivc_pybind.cpp`).

A Python object owns a C++ object, and the interpreter destroys objects when
and in the order it likes: a `Manager` may go before the `Subscriber`s and
`Publisher`s that were made with it.  Each of them shares the ownership of one
`ManagerPointerManager`, which opens the manager of the library when it is made
and closes it when the last owner goes.

The library asks its callers to tear down what they hold, once, and to close a
manager when its endpoints are gone (`Axivc.UlibRuns`).  `objects_counted` says
that no Python program can break that.
-/

namespace Axivc

namespace Pybind

open Prog Ulib

/-! ## C++ -/

/-- A `ManagerPointerManager` and the number of its owners. -/
structure Shared where
  manager : Ptr
  useCount : Nat

/-- The memory of the C library, and the blocks that are shared. -/
structure Process where
  memory : State
  shared : Nat → Option Shared

/-- The error that is set (`py::set_error`) or thrown. -/
inductive PyError where
  | runtimeError (message : String)
  | valueError (message : String)

/-- The calls of the library, and the operations on shared pointers. -/
inductive CxxOp where
  | io (o : IoOp)
  | makeShared (manager : Ptr)
  | copyPtr (b : Nat)
  | getManager (b : Nat)
  /-- one owner less; the answer says whether it was the last -/
  | dropPtr (b : Nat)
  | destroy (b : Nat)
  /-- the memory of a `std::vector` or a `std::string` -/
  | buffer (count : UInt64)

@[reducible] def cxx : Iface where
  Op := CxxOp
  Res
    | .io o => ioLib.Res o
    | .makeShared _ => Nat
    | .getManager _ | .buffer _ => Ptr
    | .dropPtr _ => Bool
    | _ => Unit

abbrev cxxCall (o : CxxOp) : Prog cxx (cxx.Res o) := op (I := cxx) o

/-- A call of the library. -/
def call {α : Type} (p : Prog ioLib α) : Prog cxx α := p.subst fun o => cxxCall (.io o)

/-- A call of the library that does not use an open device. -/
def plainCall {α : Type} (p : Prog libc α) : Prog cxx α := call (p.subst fun o => io (.lib o))

/-- What they do.  Nothing is said of a block that has been destroyed. -/
def CxxDoes : (o : CxxOp) → Process → cxx.Res o → Process → Prop
  | .io o, s, r, t => IoDoes o s.memory r t.memory ∧ t.shared = s.shared
  | .makeShared manager, s, b, t =>
      s.shared b = none ∧ t = { s with shared := Function.update s.shared b (some ⟨manager, 1⟩) }
  | .copyPtr b, s, _, t => ∀ m n, s.shared b = some ⟨m, n⟩ →
      t = { s with shared := Function.update s.shared b (some ⟨m, n + 1⟩) }
  | .getManager b, s, p, t => ∀ m n, s.shared b = some ⟨m, n⟩ → p = m ∧ t = s
  | .dropPtr b, s, last, t => ∀ m n, s.shared b = some ⟨m, n⟩ →
      last = decide (n = 1) ∧ t = { s with shared := Function.update s.shared b (some ⟨m, n - 1⟩) }
  | .destroy b, s, _, t => s.shared b ≠ none → t = { s with shared := Function.update s.shared b none }
  | .buffer _, s, p, t => p ≠ 0 ∧ t = s

/-- The constructor of `ManagerPointerManager`, and of `Manager`. -/
def managerInit : Prog cxx (Except PyError Nat) := do
  let manager : Ptr ← plainCall ivcOpenManager
  if manager = 0 then
    pure (.error (.runtimeError "Failed to open IVC manager"))
  else
    let b : Nat ← cxxCall (.makeShared manager)
    pure (.ok b)

/-- The destructor of `ManagerPointerManager`. -/
def managerDtor (b : Nat) : Prog cxx Unit := do
  let manager : Ptr ← cxxCall (.getManager b)
  if manager ≠ 0 then
    let _status ← plainCall (ivcCloseManager manager)
    cxxCall (.destroy b)
  else cxxCall (.destroy b)

/-- A `shared_ptr` goes out of scope. -/
def releasePtr (b : Nat) : Prog cxx Unit := do
  let last : Bool ← cxxCall (.dropPtr b)
  if last then managerDtor b else pure ()

/-- The text of the exception of a constructor. -/
def failedText : Kind → String
  | .subscriber => "Failed to subscribe to channel"
  | .publisher => "Failed to publish channel"

/-- The common text of the constructors of `Subscriber` and `Publisher`.  When
one throws, the member that has been constructed is destroyed. -/
def endpointInit (k : Kind) (b : Nat) (create : Ptr → Prog libc Ptr) : Prog cxx (Except PyError Ptr) := do
  cxxCall (.copyPtr b)
  let manager : Ptr ← cxxCall (.getManager b)
  let endpoint : Ptr ← plainCall (create manager)
  if endpoint = 0 then
    releasePtr b
    pure (.error (.runtimeError (failedText k)))
  else pure (.ok endpoint)

/-- The common text of the destructors: the body, then the members. -/
def endpointDel (b : Nat) (teardown : Prog libc Int) : Prog cxx Unit := do
  let _status ← plainCall teardown
  releasePtr b

/-- The common text of `recv`. -/
def endpointRecvBytes (k : Kind) (receive : Ptr → UInt64 → Prog ioLib (Int32 × List UInt8)) (maxBytes : UInt64) :
    Prog cxx (Except PyError (List UInt8)) := do
  if maxBytes = 0 then
    pure (.error (.valueError "max_bytes must be greater than zero"))
  else if maxBytes > intMax then
    pure (.error (.valueError "max_bytes must not exceed INT_MAX"))
  else
    let buffer : Ptr ← cxxCall (.buffer maxBytes)
    let received : Int32 × List UInt8 ← call (receive buffer maxBytes)
    if received.1 < 0 then
      pure (.error (.runtimeError ("Failed to receive on " ++ k.name ++ " device")))
    else if received.1 = 0 then
      pure (.ok [])
    else pure (.ok received.2)

/-- The common text of `send`. -/
def endpointSendBytes (k : Kind) (send : Ptr → Data → Prog ioLib Int32) (data : Data) : Prog cxx (Except PyError Int32) := do
  let buffer : Ptr ← cxxCall (.buffer data.count)
  let bytesSent : Int32 ← call (send buffer data)
  if bytesSent < 0 then
    pure (.error (.runtimeError ("Failed to send on " ++ k.name ++ " device")))
  else pure (.ok bytesSent)

/-! ## Python -/

/-- What a Python program does with the objects of the module. -/
inductive PyCall where
  | newManager
  | newSubscriber (b : Nat) (publisherId channelKey : UInt64)
  | newPublisher (b : Nat) (channelKey channelSize : UInt64)
  | delManager (b : Nat)
  | delSubscriber (b : Nat) (subscriber : Ptr)
  | delPublisher (b : Nat) (publisher : Ptr)
  | recv (b : Nat) (k : Kind) (endpoint : Ptr) (maxBytes : UInt64)
  | send (b : Nat) (k : Kind) (endpoint : Ptr) (data : Data)

inductive PyRet where
  | manager (result : Except PyError Nat)
  | endpoint (result : Except PyError Ptr)
  | gone
  | bytes (result : Except PyError (List UInt8))
  | sent (result : Except PyError Int32)

/-- The program of a call. -/
def PyCall.program : PyCall → Prog cxx PyRet
  | .newManager => managerInit >>= fun r => .ret (.manager r)
  | .newSubscriber b publisherId channelKey =>
      endpointInit .subscriber b (ivcSubscribe · publisherId channelKey) >>= fun r => .ret (.endpoint r)
  | .newPublisher b channelKey channelSize =>
      endpointInit .publisher b (ivcPublish · channelKey channelSize) >>= fun r => .ret (.endpoint r)
  | .delManager b => releasePtr b >>= fun _ => .ret .gone
  | .delSubscriber b subscriber => endpointDel b (ivcUnsubscribe subscriber) >>= fun _ => .ret .gone
  | .delPublisher b publisher => endpointDel b (ivcUnpublish publisher) >>= fun _ => .ret .gone
  | .recv _ .subscriber endpoint maxBytes =>
      endpointRecvBytes .subscriber (ivcSubscriberRecv endpoint) maxBytes >>= fun r => .ret (.bytes r)
  | .recv _ .publisher endpoint maxBytes =>
      endpointRecvBytes .publisher (ivcPublisherRecv endpoint) maxBytes >>= fun r => .ret (.bytes r)
  | .send _ .subscriber endpoint data =>
      endpointSendBytes .subscriber (ivcSubscriberSend endpoint) data >>= fun r => .ret (.sent r)
  | .send _ .publisher endpoint data =>
      endpointSendBytes .publisher (ivcPublisherSend endpoint) data >>= fun r => .ret (.sent r)

/-- A Python program: the process, the blocks whose `Manager` it has, and the
`Subscriber`s and `Publisher`s of each block. -/
structure Interp where
  process : Process
  managers : Finset Nat
  endpoints : Nat → Finset (Kind × Ptr)

namespace Interp

/-- The calls a program can make: on objects it has. -/
def Allows (x : Interp) : PyCall → Prop
  | .newManager => True
  | .newSubscriber b _ _ | .newPublisher b _ _ | .delManager b => b ∈ x.managers
  | .delSubscriber b subscriber => (.subscriber, subscriber) ∈ x.endpoints b
  | .delPublisher b publisher => (.publisher, publisher) ∈ x.endpoints b
  | .recv b k endpoint _ | .send b k endpoint _ => (k, endpoint) ∈ x.endpoints b

/-- The endpoints of a block change. -/
def setEndpoints (x : Interp) (t : Process) (b : Nat) (live : Finset (Kind × Ptr)) : Interp :=
  { x with process := t, endpoints := Function.update x.endpoints b live }

/-- The program after a call. -/
def after (x : Interp) (t : Process) : PyCall → PyRet → Interp
  | .newManager, .manager (.ok b) => { x with process := t, managers := insert b x.managers }
  | .newSubscriber b _ _, .endpoint (.ok p) => x.setEndpoints t b (insert (.subscriber, p) (x.endpoints b))
  | .newPublisher b _ _, .endpoint (.ok p) => x.setEndpoints t b (insert (.publisher, p) (x.endpoints b))
  | .delManager b, _ => { x with process := t, managers := x.managers.erase b }
  | .delSubscriber b p, _ => x.setEndpoints t b ((x.endpoints b).erase (.subscriber, p))
  | .delPublisher b p, _ => x.setEndpoints t b ((x.endpoints b).erase (.publisher, p))
  | _, _ => { x with process := t }

/-- The module has been imported. -/
def init (s : State) : Interp := ⟨⟨s, fun _ => none⟩, ∅, fun _ => ∅⟩

end Interp

/-- A call that ends. -/
def Called (x y : Interp) : Prop :=
  ∃ c tr r t, x.Allows c ∧ c.program.Ran CxxDoes x.process tr (some r) t ∧ y = x.after t c r

/-- A call, or what the rest of the process does in between: it leaves the
memory of the managers and endpoints alone. -/
inductive Step : Interp → Interp → Prop where
  | call {x y : Interp} (hcall : Called x y) : Step x y
  | between {x : Interp} {t : State}
      (hmanagers : ∀ b m n, x.process.shared b = some ⟨m, n⟩ → t.heap m = x.process.memory.heap m)
      (hendpoints : ∀ b k p, (k, p) ∈ x.endpoints b → t.heap p = x.process.memory.heap p) :
      Step x { x with process := { x.process with memory := t } }

/-! ## calls of the library -/

/-- The library reports that it is not used as it asks to be used. -/
def CxxOp.isMisuse : CxxOp → Bool
  | .io (.lib (.fprintf _)) | .io (.fprintf (.invalidRecv _)) | .io (.fprintf (.recvTooLarge _))
  | .io (.fprintf (.invalidSend _)) => true
  | _ => false

/-- A step of the library as one of the process. -/
def ioEvent (e : ioLib.Event) : cxx.Event := ⟨.io e.1, e.2⟩

def libEvent (e : libc.Event) : ioLib.Event := ⟨.lib e.1, e.2⟩

/-- It does so nowhere in a run. -/
def Polite (tr : List cxx.Event) : Prop := ∀ e ∈ tr, CxxOp.isMisuse e.1 = false

section Calls

variable {α β : Type} {s t : Process} {tr : List cxx.Event}

theorem Polite.append {tr tr' : List cxx.Event} (h : Polite tr) (h' : Polite tr') : Polite (tr ++ tr') :=
  List.forall_mem_append.mpr ⟨h, h'⟩

/-- A step that is no call of the library. -/
theorem polite_single {e : cxx.Event} (h : CxxOp.isMisuse e.1 = false) : Polite [e] := by
  intro e' he
  obtain rfl := List.mem_singleton.mp he
  exact h

/-- A step of a call of the library. -/
theorem Ran.of_io {o : IoOp} {x : Option (ioLib.Res o)} (h : (cxxCall (.io o)).Ran CxxDoes s tr x t) :
    ∃ r, x = some r ∧ tr = [ioEvent ⟨o, r⟩] ∧ IoDoes o s.memory r t.memory ∧ t.shared = s.shared := by
  obtain ⟨r, u, tr', ⟨hdo, hshared⟩, ⟨rfl, rfl, rfl⟩, rfl⟩ := h
  exact ⟨r, rfl, rfl, hdo, hshared⟩

theorem Ran.of_lib {o : Op} {s t : State} {tr : List ioLib.Event} {x : Option (libc.Res o)}
    (h : (io (.lib o)).Ran IoDoes s tr x t) : ∃ r, x = some r ∧ tr = [libEvent ⟨o, r⟩] ∧ Does o (id s) r (id t) ∧ True := by
  obtain ⟨r, u, tr', hdo, ⟨rfl, rfl, rfl⟩, rfl⟩ := h
  exact ⟨r, rfl, rfl, hdo, trivial⟩

/-- A call of the library changes its memory only. -/
theorem Ran.of_call {p : Prog ioLib α} {x : Option α} (h : (call p).Ran CxxDoes s tr x t) :
    ∃ tr', p.Ran IoDoes s.memory tr' x t.memory ∧ tr = tr'.map ioEvent ∧ t.shared = s.shared := by
  have hreturns (o : IoOp) : (cxxCall (.io o)).Returns := fun _ => trivial
  refine Ran.of_subst (R := fun s t : Process => t.shared = s.shared) (fun _ => rfl) (fun _ _ _ h h' => Eq.trans h' h)
    hreturns (fun o s tr x t h => ?_) h
  exact Ran.of_io h

theorem Ran.of_plainCall {p : Prog libc α} {x : Option α} (h : (plainCall p).Ran CxxDoes s tr x t) :
    ∃ tr', p.Ran Does s.memory tr' x t.memory ∧ tr = tr'.map (ioEvent ∘ libEvent) ∧ t.shared = s.shared := by
  have hreturns (o : Op) : (io (.lib o)).Returns := fun _ => trivial
  obtain ⟨tr₁, hran, rfl, hshared⟩ := Ran.of_call h
  have hlib : ∃ tr', p.Ran Does (id s.memory) tr' x (id t.memory) ∧ tr₁ = tr'.map libEvent ∧ True := by
    refine Ran.of_subst (R := fun _ _ => True) (fun _ => trivial) (fun _ _ _ _ _ => trivial) hreturns
      (fun o s tr x t h => ?_) hran
    exact Ran.of_lib h
  obtain ⟨tr₂, hplain, rfl, -⟩ := hlib
  exact ⟨tr₂, hplain, List.map_map, hshared⟩

/-- A call of the library that always ends, and then the rest. -/
theorem Ran.of_plainCall_bind {p : Prog libc α} {f : α → Prog cxx β} {x : Option β} {Q : α → List libc.Event → State → Prop}
    (hp : ∀ tr y u, p.Ran Does s.memory tr y u → ∃ a, y = some a ∧ Q a tr u)
    (h : (plainCall p >>= f).Ran CxxDoes s tr x t) :
    ∃ a u tr₁ tr₂, Q a tr₁ u.memory ∧ u.shared = s.shared ∧ (f a).Ran CxxDoes u tr₂ x t ∧
      tr = tr₁.map (ioEvent ∘ libEvent) ++ tr₂ := by
  obtain ⟨a, u, tr₁, tr₂, hcall, hrest, rfl⟩ | ⟨hcall, -⟩ := Ran.of_bind_or h
  · obtain ⟨tr', hlib, rfl, hshared⟩ := Ran.of_plainCall hcall
    obtain ⟨a', ha, hQ⟩ := hp _ _ _ hlib
    cases ha
    exact ⟨a, u, tr', tr₂, hQ, hshared, hrest, rfl⟩
  · obtain ⟨tr', hlib, -, -⟩ := Ran.of_plainCall hcall
    obtain ⟨a', ha, -⟩ := hp _ _ _ hlib
    cases ha

theorem Ran.of_call_bind {p : Prog ioLib α} {f : α → Prog cxx β} {x : Option β} {Q : α → List ioLib.Event → State → Prop}
    (hp : ∀ tr y u, p.Ran IoDoes s.memory tr y u → ∃ a, y = some a ∧ Q a tr u)
    (h : (call p >>= f).Ran CxxDoes s tr x t) :
    ∃ a u tr₁ tr₂, Q a tr₁ u.memory ∧ u.shared = s.shared ∧ (f a).Ran CxxDoes u tr₂ x t ∧
      tr = tr₁.map ioEvent ++ tr₂ := by
  obtain ⟨a, u, tr₁, tr₂, hcall, hrest, rfl⟩ | ⟨hcall, -⟩ := Ran.of_bind_or h
  · obtain ⟨tr', hio, rfl, hshared⟩ := Ran.of_call hcall
    obtain ⟨a', ha, hQ⟩ := hp _ _ _ hio
    cases ha
    exact ⟨a, u, tr', tr₂, hQ, hshared, hrest, rfl⟩
  · obtain ⟨tr', hio, -, -⟩ := Ran.of_call hcall
    obtain ⟨a', ha, -⟩ := hp _ _ _ hio
    cases ha

/-- A run of the library in a call. -/
theorem ran_plainCall {p : Prog libc α} {x : Option α} {m : State} {tr : List libc.Event} (h : p.Ran Does s.memory tr x m) :
    (plainCall p).Ran CxxDoes s (tr.map (ioEvent ∘ libEvent)) x { s with memory := m } := by
  induction p generalizing s tr with
  | ret a =>
      obtain ⟨rfl, rfl, rfl⟩ := h
      exact ⟨rfl, rfl, rfl⟩
  | act o k ih =>
      obtain ⟨r, u, tr₁, hdo, hk, rfl⟩ := h
      exact ⟨r, { s with memory := u }, _, ⟨hdo, rfl⟩, ih r hk, rfl⟩
  | spin =>
      obtain ⟨rfl, rfl, rfl⟩ := h
      exact ⟨rfl, rfl, rfl⟩

/-- A call of the library that prints no report of misuse. -/
theorem polite_of_effects {tr : List libc.Event} (h : ∀ e ∈ effects tr, ∀ message, e.1 ≠ .fprintf message) :
    Polite (tr.map (ioEvent ∘ libEvent)) := by
  intro e he
  obtain ⟨⟨o, r⟩, hmem, rfl⟩ := List.mem_map.mp he
  cases o
  case fprintf message => exact absurd rfl (h _ (List.mem_filter.mpr ⟨hmem, rfl⟩) message)
  all_goals rfl

end Calls

/-! ## the invariant -/

/-- The number of objects that own a block. -/
def Interp.uses (x : Interp) (b : Nat) : Nat := (if b ∈ x.managers then 1 else 0) + (x.endpoints b).card

/-- The library's view of a block. -/
def Interp.client (x : Interp) (b : Nat) : Client := ⟨x.process.memory, x.endpoints b, true⟩

theorem Interp.uses_setEndpoints (x : Interp) (t : Process) (b : Nat) (live : Finset (Kind × Ptr)) :
    (x.setEndpoints t b live).uses b = (if b ∈ x.managers then 1 else 0) + live.card := by
  change (if b ∈ x.managers then 1 else 0) + (Function.update x.endpoints b live b).card = _
  rw [Function.update_self]

theorem Interp.client_setEndpoints (x : Interp) (t : Process) (b : Nat) (live : Finset (Kind × Ptr)) :
    (x.setEndpoints t b live).client b = ⟨t.memory, live, true⟩ := by
  simp [Interp.setEndpoints, Interp.client]

/-- The memory of a block: its manager and its endpoints. -/
def Interp.Owns (x : Interp) (b : Nat) (p : Ptr) : Prop :=
  (∃ n, x.process.shared b = some ⟨p, n⟩) ∨ ∃ k, (k, p) ∈ x.endpoints b

open Classical in
/-- The memory that is no object's. -/
noncomputable def Interp.rest (x : Interp) (p : Ptr) : Option Block :=
  if ∃ b, x.Owns b p then none else x.process.memory.heap p

/-- A block is there while it has owners and counts them, `extra` of them in
the call that runs; its manager is the library's, and counts its endpoints. -/
structure Kept (extra : Nat → Nat) (rest : Ptr → Option Block) (x : Interp) : Prop where
  owned : ∀ b, x.process.shared b = none → x.uses b = 0
  count : ∀ b m n, x.process.shared b = some ⟨m, n⟩ → n = x.uses b + extra b ∧ 0 < n
  counted : ∀ b m n, x.process.shared b = some ⟨m, n⟩ → Counted m (x.client b)
  distinct : ∀ b b' m n n', x.process.shared b = some ⟨m, n⟩ → x.process.shared b' = some ⟨m, n'⟩ → b = b'
  others : x.rest = rest

section Kept

variable {extra : Nat → Nat} {rest : Ptr → Option Block} {x y : Interp} {b b' : Nat} {p m m' : Ptr} {n n' : Nat}

/-- A block has its manager. -/
theorem Kept.manager (h : Kept extra rest x) (hb : x.process.shared b = some ⟨m, n⟩) :
    ∃ r, x.process.memory.heap m = some (.manager r) ∧ 0 ≤ r.fd ∧ r.activeEndpoints.toNat = (x.endpoints b).card :=
  (h.counted b m n hb).count rfl

/-- An endpoint has a block. -/
theorem Kept.block (h : Kept extra rest x) {k : Kind} {p : Ptr} (hp : (k, p) ∈ x.endpoints b) :
    ∃ m n, x.process.shared b = some ⟨m, n⟩ := by
  cases hb : x.process.shared b with
  | some sh => exact ⟨sh.manager, sh.useCount, rfl⟩
  | none =>
      have hzero := h.owned b hb
      have hpos := Finset.card_pos.mpr ⟨_, hp⟩
      rw [Interp.uses] at hzero
      omega

/-- What a block owns is allocated. -/
theorem Kept.allocated (h : Kept extra rest x) {p : Ptr} (hp : x.Owns b p) : x.process.memory.heap p ≠ none := by
  obtain ⟨n, hb⟩ | ⟨k, hk⟩ := hp
  · obtain ⟨r, hr, -⟩ := h.manager hb
    rw [hr]
    simp
  · obtain ⟨m, n, hb⟩ := h.block hk
    obtain ⟨-, e, he, -⟩ := (h.counted b m n hb).owned k p hk
    have he : x.process.memory.heap p = _ := he
    rw [he]
    simp

/-- Two blocks own nothing together. -/
theorem Kept.disjoint (h : Kept extra rest x) {p : Ptr} (hp : x.Owns b p) (hp' : x.Owns b' p) : b = b' := by
  obtain ⟨n, hb⟩ | ⟨k, hk⟩ := hp
  · obtain ⟨n', hb'⟩ | ⟨k', hk'⟩ := hp'
    · exact h.distinct b b' p n n' hb hb'
    · obtain ⟨r, hr, -⟩ := h.manager hb
      obtain ⟨m', n', hb'⟩ := h.block hk'
      obtain ⟨-, e, he, -⟩ := (h.counted b' m' n' hb').owned k' p hk'
      exact absurd (hr.symm.trans he) (by simp)
  · obtain ⟨m, n, hb⟩ := h.block hk
    obtain ⟨-, e, he, hmanager⟩ := (h.counted b m n hb).owned k p hk
    obtain ⟨n', hb'⟩ | ⟨k', hk'⟩ := hp'
    · obtain ⟨r, hr, -⟩ := h.manager hb'
      exact absurd (hr.symm.trans he) (by simp)
    · obtain ⟨m', n', hb'⟩ := h.block hk'
      obtain ⟨-, e', he', hmanager'⟩ := (h.counted b' m' n' hb').owned k' p hk'
      have hsame := Option.some.inj (he.symm.trans he')
      obtain rfl : e = e' := (Block.endpoint.inj hsame).2
      exact h.distinct b b' m n n' hb (by rw [← hmanager, hmanager']; exact hb')

/-- What changes hands or is written is the memory of one block: it had it or
has taken what was free, and it still has it or has freed it. -/
def Interp.Within (x : Interp) (b : Nat) (y : Interp) : Prop :=
  ∀ p, (x.Owns b p ∨ x.process.memory.heap p = none) ∧ (y.Owns b p ∨ y.process.memory.heap p = none) ∨
    (x.Owns b p ↔ y.Owns b p) ∧ y.process.memory.heap p = x.process.memory.heap p

theorem Interp.rest_of_owns (h : x.Owns b p) : x.rest p = none := if_pos ⟨b, h⟩

theorem Interp.rest_of_free (h : x.process.memory.heap p = none) : x.rest p = none := by
  rw [Interp.rest, h, ite_self]

theorem Interp.rest_congr (howns : (∃ c, y.Owns c p) ↔ ∃ c, x.Owns c p)
    (hheap : y.process.memory.heap p = x.process.memory.heap p) : y.rest p = x.rest p := by
  rw [Interp.rest, Interp.rest, hheap]
  by_cases hx : ∃ c, x.Owns c p
  · rw [if_pos hx, if_pos (howns.mpr hx)]
  · rw [if_neg hx, if_neg (howns.not.mpr hx)]

/-- The memory that is no object's stays as it is. -/
theorem Interp.Within.rest_eq (ht : x.Within b y) (hshared : ∀ c, c ≠ b → y.process.shared c = x.process.shared c)
    (hendpoints : ∀ c, c ≠ b → y.endpoints c = x.endpoints c) : y.rest = x.rest := by
  funext p
  obtain ⟨hx, hy⟩ | ⟨howns, hheap⟩ := ht p
  · rw [hx.elim Interp.rest_of_owns Interp.rest_of_free, hy.elim Interp.rest_of_owns Interp.rest_of_free]
  · have hiff : (∃ c, y.Owns c p) ↔ ∃ c, x.Owns c p := by
      refine exists_congr fun c => ?_
      by_cases hc : c = b
      · rw [hc, howns]
      · rw [Interp.Owns, Interp.Owns, hshared c hc, hendpoints c hc]
    exact Interp.rest_congr hiff hheap

theorem Kept.frame (h : Kept extra rest x) (ht : x.Within b y) (hne : b' ≠ b) (hp : x.Owns b' p) :
    y.process.memory.heap p = x.process.memory.heap p := by
  obtain ⟨hown | hfree, -⟩ | ⟨-, hheap⟩ := ht p
  · exact absurd (h.disjoint hp hown) hne
  · exact absurd hfree (h.allocated hp)
  · exact hheap

/-- The other blocks keep their count. -/
theorem Kept.counted_of_ne (h : Kept extra rest x) (ht : x.Within b y) (hne : b' ≠ b)
    (hb' : x.process.shared b' = some ⟨m', n'⟩) : Counted m' ⟨y.process.memory, x.endpoints b', true⟩ :=
  (h.counted b' m' n' hb').step (.between (fun _ => h.frame ht hne (.inl ⟨n', hb'⟩))
    fun k _ hp => h.frame ht hne (.inr ⟨k, hp⟩))

/-- A change of memory that is no block's. -/
theorem Kept.between (h : Kept extra rest x) {t : Process} (hshared : t.shared = x.process.shared)
    (hheap : ∀ b p, x.Owns b p → t.memory.heap p = x.process.memory.heap p) :
    Kept extra { x with process := t }.rest { x with process := t } := by
  refine ⟨fun b hb => h.owned b (hshared ▸ hb), fun b m n hb => h.count b m n (hshared ▸ hb), fun b m n hb => ?_,
    fun b b' m n n' hb hb' => h.distinct b b' m n n' (hshared ▸ hb) (hshared ▸ hb'), rfl⟩
  have hb : x.process.shared b = some ⟨m, n⟩ := hshared ▸ hb
  exact (h.counted b m n hb).step (.between (fun _ => hheap b m (.inl ⟨n, hb⟩)) fun k p hp => hheap b p (.inr ⟨k, hp⟩))

theorem Kept.same (h : Kept extra rest x) {t : Process} (hshared : t.shared = x.process.shared)
    (hheap : t.memory.heap = x.process.memory.heap) : Kept extra rest { x with process := t } := by
  have hothers : ({ x with process := t } : Interp).rest = x.rest := by
    funext p
    refine Interp.rest_congr ?_ (congrFun hheap p)
    simp only [Interp.Owns, hshared]
  have hkept := h.between hshared fun _ p _ => congrFun hheap p
  rw [hothers, h.others] at hkept
  exact hkept

/-- A change of one block, and of memory that keeps away from the others. -/
theorem Kept.of_block (h : Kept extra rest x) {extra' : Nat → Nat} (hextra : ∀ c, c ≠ b → extra' c = extra c)
    (hshared : ∀ c, c ≠ b → y.process.shared c = x.process.shared c)
    (hmanagers : ∀ c, c ≠ b → (c ∈ y.managers ↔ c ∈ x.managers)) (hendpoints : ∀ c, c ≠ b → y.endpoints c = x.endpoints c)
    (ht : x.Within b y) (hnone : y.process.shared b = none → y.uses b = 0)
    (hsome : ∀ m n, y.process.shared b = some ⟨m, n⟩ → (n = y.uses b + extra' b ∧ 0 < n) ∧ Counted m (y.client b) ∧
      ((∃ n', x.process.shared b = some ⟨m, n'⟩) ∨ x.process.memory.heap m = none)) : Kept extra' rest y := by
  have huses (c : Nat) (hc : c ≠ b) : y.uses c = x.uses c := by
    rw [Interp.uses, Interp.uses, hendpoints c hc, if_congr (hmanagers c hc) rfl rfl]
  -- The manager of the block is not the manager of another one.
  have hother (c : Nat) (hc : c ≠ b) (m : Ptr) (n n' : Nat) (hcs : x.process.shared c = some ⟨m, n'⟩)
      (hbs : y.process.shared b = some ⟨m, n⟩) : False := by
    obtain ⟨n'', hb⟩ | hfree := (hsome m n hbs).2.2
    · exact hc (h.distinct c b m n' n'' hcs hb)
    · exact h.allocated (.inl ⟨n', hcs⟩) hfree
  refine ⟨fun c hc => ?_, fun c m n hc => ?_, fun c m n hc => ?_, fun c c' m n n' hc hc' => ?_,
    (ht.rest_eq hshared hendpoints).trans h.others⟩
  · by_cases hcb : c = b
    · exact hcb ▸ hnone (hcb ▸ hc)
    · rw [huses c hcb]
      exact h.owned c (hshared c hcb ▸ hc)
  · by_cases hcb : c = b
    · subst hcb
      exact (hsome m n hc).1
    · rw [huses c hcb, hextra c hcb]
      exact h.count c m n (hshared c hcb ▸ hc)
  · by_cases hcb : c = b
    · subst hcb
      exact (hsome m n hc).2.1
    · have hcounted := h.counted_of_ne ht hcb (hshared c hcb ▸ hc)
      rw [← hendpoints c hcb] at hcounted
      exact hcounted
  · by_cases hcb : c = b <;> by_cases hcb' : c' = b
    · rw [hcb, hcb']
    · subst hcb
      exact (hother c' hcb' m n n' (hshared c' hcb' ▸ hc') hc).elim
    · subst hcb'
      exact (hother c hcb m n' n (hshared c hcb ▸ hc) hc').elim
    · rw [hshared c hcb] at hc
      rw [hshared c' hcb'] at hc'
      exact h.distinct c c' m n n' hc hc'

/-- A block keeps its manager. -/
theorem Kept.put (h : Kept extra rest x) (hb : x.process.shared b = some ⟨m, n⟩) {extra' : Nat → Nat}
    (hextra : ∀ c, c ≠ b → extra' c = extra c) (hmanagers : ∀ c, c ≠ b → (c ∈ y.managers ↔ c ∈ x.managers))
    (hendpoints : ∀ c, c ≠ b → y.endpoints c = x.endpoints c)
    (hshared : y.process.shared = Function.update x.process.shared b (some ⟨m, n'⟩)) (ht : x.Within b y)
    (hcount : n' = y.uses b + extra' b) (hpos : 0 < n') (hcounted : Counted m (y.client b)) : Kept extra' rest y := by
  refine h.of_block hextra (fun c hc => ?_) hmanagers hendpoints ht (fun hnone => ?_) fun m₁ n₁ hsome => ?_
  · rw [hshared, Function.update_of_ne hc]
  · rw [hshared, Function.update_self] at hnone
    cases hnone
  · rw [hshared, Function.update_self] at hsome
    cases hsome
    exact ⟨⟨hcount, hpos⟩, hcounted, .inl ⟨n, hb⟩⟩

/-- A block that has its manager owns it. -/
theorem Interp.owns_iff (hb : x.process.shared b = some ⟨m, n⟩) : x.Owns b p ↔ p = m ∨ ∃ k, (k, p) ∈ x.endpoints b := by
  rw [Interp.Owns, hb]
  simp [eq_comm]

theorem Interp.owns_setEndpoints {t : Process} {live : Finset (Kind × Ptr)} (hb : t.shared b = some ⟨m, n⟩) :
    (x.setEndpoints t b live).Owns b p ↔ p = m ∨ ∃ k, (k, p) ∈ live := by
  have howns := Interp.owns_iff (x := x.setEndpoints t b live) (p := p) hb
  have hlive : (x.setEndpoints t b live).endpoints b = live := Function.update_self ..
  rw [howns, hlive]

/-- A block that keeps what it has, and writes no other memory. -/
theorem within_of_keeps (hb : x.process.shared b = some ⟨m, n⟩) (hb' : y.process.shared b = some ⟨m, n'⟩)
    (hendpoints : y.endpoints b = x.endpoints b)
    (hheap : ∀ p, y.process.memory.heap p ≠ x.process.memory.heap p → x.Owns b p) : x.Within b y := by
  intro p
  have howns : x.Owns b p ↔ y.Owns b p := by
    rw [Interp.owns_iff hb, Interp.owns_iff hb', hendpoints]
  by_cases hsame : y.process.memory.heap p = x.process.memory.heap p
  · exact .inr ⟨howns, hsame⟩
  · have hp := hheap p hsame
    exact .inl ⟨.inl hp, .inl (howns.mp hp)⟩

/-- A block goes. -/
theorem Kept.drop (h : Kept extra rest x) {extra' : Nat → Nat} (hextra : ∀ c, c ≠ b → extra' c = extra c)
    (hmanagers : ∀ c, c ≠ b → (c ∈ y.managers ↔ c ∈ x.managers)) (hendpoints : ∀ c, c ≠ b → y.endpoints c = x.endpoints c)
    (hshared : y.process.shared = Function.update x.process.shared b none) (ht : x.Within b y)
    (huses : y.uses b = 0) : Kept extra' rest y := by
  refine h.of_block hextra (fun c hc => ?_) hmanagers hendpoints ht (fun _ => huses) fun m₁ n₁ hsome => ?_
  · rw [hshared, Function.update_of_ne hc]
  · rw [hshared, Function.update_self] at hsome
    cases hsome

end Kept

/-! ## owners come and go -/

/-- One owner more, of the block `b`. -/
def oneMore (b : Nat) : Nat → Nat := fun c => if c = b then 1 else 0

/-- No owner but the objects. -/
def noMore : Nat → Nat := fun _ => 0

section Owners

variable {rest : Ptr → Option Block} {x : Interp} {b : Nat} {m : Ptr} {n : Nat} {tr : List cxx.Event} {t : Process}

/-- A manager without endpoints is closed, which is not refused. -/
theorem closed_of_counted {s u : State} (hcounted : Counted m ⟨s, ∅, true⟩) {tr : List libc.Event} {y : Option Int}
    (h : (ivcCloseManager m).Ran Does s tr y u) :
    ∃ status, y = some status ∧ Polite (tr.map (ioEvent ∘ libEvent)) ∧ u.heap = Function.update s.heap m none := by
  obtain ⟨record, hrecord, hfd, hactive⟩ := hcounted.count rfl
  obtain ⟨status, rfl, hends⟩ := closed_of_ran hcounted.nonnull hrecord hfd h
  refine ⟨status, rfl, ?_⟩
  suffices hquiet : (∀ e ∈ effects tr, ∀ message, e.1 ≠ .fprintf message) ∧ u.heap = Function.update s.heap m none from
    ⟨polite_of_effects hquiet.1, hquiet.2⟩
  generalize effects tr = effs at hends ⊢
  cases hends with
  | busy hbusy => exact absurd (UInt64.toNat_inj.mp hactive) hbusy
  | closed r _ _ hheap =>
      refine ⟨?_, hheap⟩
      cases firstFailure [r] <;> simp [report]

/-- The destructor of a block that has no owner. -/
theorem Ran.of_managerDtor {p : Process} (hb : p.shared b = some ⟨m, n⟩) (hcounted : Counted m ⟨p.memory, ∅, true⟩)
    {r : Option Unit} (hran : (managerDtor b).Ran CxxDoes p tr r t) :
    r = some () ∧ Polite tr ∧ t.shared = Function.update p.shared b none ∧
      t.memory.heap = Function.update p.memory.heap m none := by
  obtain ⟨manager, u, tr₁, hget, hran, rfl⟩ := hran
  obtain ⟨rfl, rfl⟩ := hget m n hb
  have hran : (if manager ≠ 0 then plainCall (ivcCloseManager manager) >>= fun _ => cxxCall (.destroy b)
    else cxxCall (.destroy b)).Ran CxxDoes u tr₁ r t := hran
  rw [if_pos hcounted.nonnull] at hran
  obtain ⟨status, v, tr₂, tr₃, ⟨hpolite, hheap⟩, hshared, hrest, rfl⟩ :=
    Ran.of_plainCall_bind (fun _ _ _ h => closed_of_counted hcounted h) hran
  obtain ⟨_, w, tr₄, hdestroy, ⟨rfl, rfl, rfl⟩, rfl⟩ := hrest
  have hgone := hdestroy (by rw [hshared, hb]; simp)
  refine ⟨rfl, ?_, ?_, ?_⟩
  · exact (polite_single rfl).append (hpolite.append (polite_single rfl))
  · rw [hgone, hshared]
  · rw [hgone]
    exact hheap

/-- **A shared pointer goes**: the manager is closed when it was the last, and
closing it is never refused. -/
theorem Kept.releasePtr (h : Kept (oneMore b) rest x) (hb : x.process.shared b = some ⟨m, n⟩) {r : Option Unit}
    (hran : (releasePtr b).Ran CxxDoes x.process tr r t) :
    r = some () ∧ Polite tr ∧ Kept noMore rest { x with process := t } := by
  obtain ⟨hcount, hpos⟩ := h.count b m n hb
  have hextra (c : Nat) (hc : c ≠ b) : noMore c = oneMore b c := (if_neg hc).symm
  rw [oneMore, if_pos rfl] at hcount
  obtain ⟨last, u, tr₁, hdrop, hran, rfl⟩ := hran
  obtain ⟨rfl, rfl⟩ := hdrop m n hb
  by_cases hlast : n = 1
  · rw [decide_eq_true hlast] at hran
    have hran : (Pybind.managerDtor b).Ran CxxDoes _ tr₁ r t := hran
    have huses : x.uses b = 0 := by omega
    have hempty : x.endpoints b = ∅ := by
      rw [Interp.uses] at huses
      exact Finset.card_eq_zero.mp (by omega)
    have hcounted := h.counted b m n hb
    rw [Interp.client, hempty] at hcounted
    obtain ⟨rfl, hpolite, hshared, hheap⟩ := 
      Ran.of_managerDtor (p := ⟨x.process.memory, Function.update x.process.shared b (some ⟨m, n - 1⟩)⟩)
        (Function.update_self ..) hcounted hran
    refine ⟨rfl, ?_, h.drop hextra (fun _ _ => Iff.rfl) (fun _ _ => rfl) ?_ (fun p => ?_) huses⟩
    · exact (polite_single rfl).append hpolite
    · rw [hshared, Function.update_idem]
    · by_cases hpm : p = m
      · subst hpm
        exact .inl ⟨.inl (.inl ⟨n, hb⟩), .inr (by rw [hheap, Function.update_self])⟩
      · refine .inr ⟨iff_of_false ?_ ?_, by rw [hheap, Function.update_of_ne hpm]⟩
        · simp [Interp.owns_iff hb, hpm, hempty]
        · simp [Interp.Owns, hshared, hempty]
  · rw [decide_eq_false hlast] at hran
    obtain ⟨rfl, rfl, rfl⟩ := hran
    refine ⟨rfl, polite_single rfl, ?_⟩
    refine h.put hb hextra (fun _ _ => Iff.rfl) (fun _ _ => rfl) rfl
      (within_of_keeps hb (Function.update_self ..) rfl fun _ hne => absurd rfl hne) ?_ (by omega) (h.counted b m n hb)
    change n - 1 = x.uses b + 0
    omega

/-- What `ivc_subscribe` and `ivc_publish` do to the memory of the process. -/
theorem opened_of_counted {k : Kind} {channel : Channel} {s u : State} {live : Finset (Kind × Ptr)}
    (hcounted : Counted m ⟨s, live, true⟩) {tr : List libc.Event} {y : Option Ptr}
    (h : (openEndpoint k m channel).Ran Does s tr y u) :
    ∃ p, y = some p ∧ Polite (tr.map (ioEvent ∘ libEvent)) ∧
      Counted m ⟨u, if p = 0 then live else insert (k, p) live, true⟩ ∧ (p = 0 → u.heap = s.heap) ∧
      (p ≠ 0 → s.heap p = none) ∧ ∀ q, q ≠ m → q ≠ p → u.heap q = s.heap q := by
  obtain ⟨p, record, rfl, hm, hopened, hafter⟩ := hcounted.openEndpoint rfl h
  have hm : s.heap m = some (.manager record) := hm
  refine ⟨p, rfl, ?_⟩
  have hlive (hsome : (u.heap m).isSome = true) : Counted m ⟨u, if p = 0 then live else insert (k, p) live, true⟩ := by
    rw [hsome] at hafter
    exact hafter
  suffices hends : (∀ e ∈ effects tr, ∀ message, e.1 ≠ .fprintf message) ∧ (u.heap m).isSome = true ∧
      (p = 0 → u.heap = s.heap) ∧ (p ≠ 0 → s.heap p = none) ∧ ∀ q, q ≠ m → q ≠ p → u.heap q = s.heap q from
    ⟨polite_of_effects hends.1, hlive hends.2.1, hends.2.2⟩
  generalize effects tr = effs at hopened ⊢
  have hsame (hheap : u.heap = s.heap) : (u.heap m).isSome = true ∧ ((0 : Ptr) = 0 → u.heap = s.heap) ∧
      ((0 : Ptr) ≠ 0 → s.heap 0 = none) ∧ ∀ q, q ≠ m → q ≠ 0 → u.heap q = s.heap q :=
    ⟨by rw [hheap, hm]; rfl, fun _ => hheap, fun hne => absurd rfl hne, fun q _ _ => congrFun hheap q⟩
  cases hopened with
  | noMemory hheap => exact ⟨by simp, hsame hheap⟩
  | refused _ _ _ hheap _ => exact ⟨by simp, hsame hheap⟩
  | notOpened _ _ _ _ _ _ hheap _ => exact ⟨by simp, hsame hheap⟩
  | opened _ value fd e hne hfree hmanager hchannel hefd hheap =>
      refine ⟨by simp, by rw [hheap, Function.update_self]; rfl, fun hp => absurd hp hne, fun _ => hfree, ?_⟩
      intro q hqm hqp
      rw [hheap, Function.update_of_ne hqm, Function.update_of_ne hqp]

/-- What `ivc_unsubscribe` and `ivc_unpublish` do to the memory of the process. -/
theorem tornDown_of_counted {k : Kind} {p : Ptr} {s u : State} {live : Finset (Kind × Ptr)}
    (hcounted : Counted m ⟨s, live, true⟩) (hp : (k, p) ∈ live) {tr : List libc.Event} {y : Option Int}
    (h : (closeEndpoint k p).Ran Does s tr y u) :
    ∃ status, y = some status ∧ Polite (tr.map (ioEvent ∘ libEvent)) ∧ Counted m ⟨u, live.erase (k, p), true⟩ ∧
      u.heap p = none ∧ ∀ q, q ≠ m → q ≠ p → u.heap q = s.heap q := by
  obtain ⟨status, record, rfl, hm, ⟨e, he, hmanager, htorn⟩, hafter⟩ := hcounted.closeEndpoint hp h
  have hm : s.heap m = some (.manager record) := hm
  have hne : m ≠ p := (hcounted.ne_of_mem hm hp).symm
  refine ⟨status, rfl, ?_⟩
  have hlive (hsome : (u.heap m).isSome = true) : Counted m ⟨u, live.erase (k, p), true⟩ := by
    rw [hsome] at hafter
    exact hafter
  suffices hends : (∀ e ∈ effects tr, ∀ message, e.1 ≠ .fprintf message) ∧ (u.heap m).isSome = true ∧
      u.heap p = none ∧ ∀ q, q ≠ m → q ≠ p → u.heap q = s.heap q from
    ⟨polite_of_effects hends.1, hlive hends.2.1, hends.2.2⟩
  generalize effects tr = effs at htorn ⊢
  obtain ⟨closed, removed, arg, -, hheap⟩ := htorn
  rw [hmanager] at hheap
  refine ⟨?_, ?_, ?_, fun q hqm hqp => ?_⟩
  · cases firstFailure [closed, removed] <;> simp [report]
  · rw [hheap, Function.update_of_ne hne, Function.update_self]
    rfl
  · rw [hheap, Function.update_self]
  · rw [hheap, Function.update_of_ne hqp, Function.update_of_ne hqm]

/-- An object of a block keeps it alive. -/
theorem Kept.exists_block {extra : Nat → Nat} (h : Kept extra rest x) (huses : x.uses b ≠ 0) :
    ∃ m n, x.process.shared b = some ⟨m, n⟩ := by
  cases hb : x.process.shared b with
  | some sh => exact ⟨sh.manager, sh.useCount, rfl⟩
  | none => exact absurd (h.owned b hb) huses

/-- The constructors of `Subscriber` and `Publisher`. -/
theorem Kept.endpointInit (h : Kept noMore rest x) (hb : b ∈ x.managers) {k : Kind} {channel : Channel}
    {r : Option (Except PyError Ptr)} (hran : (endpointInit k b (openEndpoint k · channel)).Ran CxxDoes x.process tr r t) :
    ∃ result, r = some result ∧ Polite tr ∧
      (∀ e, result = .error e → Kept noMore rest { x with process := t }) ∧
      ∀ p, result = .ok p →
        Kept noMore rest (x.setEndpoints t b (insert (k, p) (x.endpoints b))) := by
  have huses : x.uses b ≠ 0 := by
    rw [Interp.uses, if_pos hb]
    omega
  obtain ⟨m, n, hm⟩ := h.exists_block huses
  obtain ⟨hcount, hpos⟩ := h.count b m n hm
  have hcount : n = x.uses b := hcount
  obtain ⟨_, u, tr₁, hcopy, hran, rfl⟩ := hran
  obtain rfl := hcopy m n hm
  obtain ⟨manager, v, tr₂, hget, hran, rfl⟩ := hran
  obtain ⟨rfl, rfl⟩ := hget m (n + 1) (Function.update_self ..)
  obtain ⟨p, w, tr₃, tr₄, ⟨hpolite, hcounted, hsame, hfree, hheap⟩, hshared, hrest, rfl⟩ :=
    Ran.of_plainCall_bind (s := ⟨x.process.memory, Function.update x.process.shared b (some ⟨manager, n + 1⟩)⟩)
      (fun _ _ _ hcall => opened_of_counted (h.counted b manager n hm) hcall) hran
  have hbegun : Polite [⟨.copyPtr b, ()⟩, ⟨.getManager b, manager⟩] := by
    simp [Polite, CxxOp.isMisuse]
  have hextra (c : Nat) (hc : c ≠ b) : oneMore b c = noMore c := if_neg hc
  have hblock : w.shared b = some ⟨manager, n + 1⟩ := by
    rw [hshared]
    exact Function.update_self ..
  have hrest : (if p = 0 then Pybind.releasePtr b >>= fun _ => pure (.error (.runtimeError (failedText k)))
    else pure (.ok p)).Ran CxxDoes w tr₄ r t := hrest
  by_cases hp : p = 0
  · rw [if_pos hp] at hcounted hrest
    have hkept : Kept (oneMore b) rest { x with process := w } := by
      refine h.put hm hextra (fun _ _ => Iff.rfl) (fun _ _ => rfl) hshared
        (within_of_keeps hm hblock rfl fun q hq => absurd (congrFun (hsame hp) q) hq) ?_ (Nat.succ_pos n) hcounted
      rw [oneMore, if_pos rfl, hcount]
      rfl
    obtain ⟨y, hreleased, rfl⟩ := Ran.of_map hrest
    obtain ⟨rfl, hpolite', hkept'⟩ := hkept.releasePtr hblock hreleased
    refine ⟨_, rfl, hbegun.append (hpolite.append hpolite'), fun _ _ => hkept', fun _ hok => ?_⟩
    cases hok
  · rw [if_neg hp] at hcounted hrest
    obtain ⟨rfl, rfl, rfl⟩ := hrest
    refine ⟨_, rfl, ?_, fun _ herror => ?_, fun q hok => ?_⟩
    · rw [List.append_nil]
      exact hbegun.append hpolite
    · cases herror
    · cases hok
      have hnew : (k, p) ∉ x.endpoints b := fun hmem => (h.counted b manager n hm).ne_of_free (hfree hp) hmem rfl
      refine h.put hm (fun _ _ => rfl) (fun _ _ => Iff.rfl) (fun c hc => Function.update_of_ne hc ..) hshared
        (fun q => ?_) ?_ (Nat.succ_pos n) ?_
      · rw [Interp.owns_iff hm, Interp.owns_setEndpoints hblock]
        by_cases hqm : q = manager
        · exact .inl ⟨.inl (.inl hqm), .inl (.inl hqm)⟩
        · by_cases hqp : q = p
          · exact .inl ⟨.inr (hqp ▸ hfree hp), .inl (.inr ⟨k, hqp ▸ Finset.mem_insert_self ..⟩)⟩
          · refine .inr ⟨?_, hheap q hqm hqp⟩
            simp [hqp]
      · rw [hcount, Interp.uses_setEndpoints, Finset.card_insert_of_notMem hnew]
        rfl
      · rw [Interp.client_setEndpoints]
        exact hcounted

/-- The destructors of `Subscriber` and `Publisher`. -/
theorem Kept.endpointDel (h : Kept noMore rest x) {k : Kind} {p : Ptr} (hp : (k, p) ∈ x.endpoints b) {r : Option Unit}
    (hran : (endpointDel b (closeEndpoint k p)).Ran CxxDoes x.process tr r t) :
    r = some () ∧ Polite tr ∧
      Kept noMore rest (x.setEndpoints t b ((x.endpoints b).erase (k, p))) := by
  obtain ⟨m, n, hm⟩ := h.block hp
  obtain ⟨hcount, hpos⟩ := h.count b m n hm
  obtain ⟨status, u, tr₁, tr₂, ⟨hpolite, hafter, hfreed, hheap⟩, hshared, hrest, rfl⟩ :=
    Ran.of_plainCall_bind (fun _ _ _ hcall => tornDown_of_counted (h.counted b m n hm) hp hcall) hran
  have hkept : Kept (oneMore b) rest (x.setEndpoints u b ((x.endpoints b).erase (k, p))) := by
    refine h.put hm (fun c hc => if_neg hc) (fun _ _ => Iff.rfl) (fun c hc => Function.update_of_ne hc ..)
      (hshared.trans (Function.update_eq_self_iff.mpr hm.symm).symm) ?_ ?_ hpos ?_
    · intro q
      rw [Interp.owns_iff hm, Interp.owns_setEndpoints (hshared ▸ hm)]
      by_cases hqm : q = m
      · exact .inl ⟨.inl (.inl hqm), .inl (.inl hqm)⟩
      · by_cases hqp : q = p
        · exact .inl ⟨.inl (.inr ⟨k, hqp ▸ hp⟩), .inr (hqp ▸ hfreed)⟩
        · refine .inr ⟨?_, hheap q hqm hqp⟩
          simp [hqp]
    · have hcard := Finset.card_erase_add_one hp
      have hcount : n = x.uses b := hcount
      rw [Interp.uses] at hcount
      rw [Interp.uses_setEndpoints, oneMore, if_pos rfl, Nat.add_assoc, hcard, hcount]
    · rw [Interp.client_setEndpoints]
      exact hafter
  obtain ⟨rfl, hpolite', hkept'⟩ := hkept.releasePtr (hshared ▸ hm) hrest
  exact ⟨rfl, hpolite.append hpolite', hkept'⟩

/-- The destructor of `Manager`. -/
theorem Kept.managerDel (h : Kept noMore rest x) (hb : b ∈ x.managers) {r : Option Unit}
    (hran : (Pybind.releasePtr b).Ran CxxDoes x.process tr r t) :
    r = some () ∧ Polite tr ∧ Kept noMore rest { x with process := t, managers := x.managers.erase b } := by
  have huses : x.uses b = (x.endpoints b).card + 1 := by
    rw [Interp.uses, if_pos hb, Nat.add_comm]
  obtain ⟨m, n, hm⟩ := h.exists_block (b := b) (by omega)
  obtain ⟨hcount, hpos⟩ := h.count b m n hm
  have hkept : Kept (oneMore b) rest { x with managers := x.managers.erase b } := by
    refine h.put hm (fun c hc => if_neg hc) (fun c hc => ?_) (fun _ _ => rfl)
      (Function.update_eq_self_iff.mpr hm.symm).symm (within_of_keeps hm hm rfl fun _ hne => absurd rfl hne) ?_ hpos
      (h.counted b m n hm)
    · exact ⟨Finset.mem_of_mem_erase, Finset.mem_erase_of_ne_of_mem hc⟩
    · have hcount : n = x.uses b := hcount
      rw [Interp.uses, if_neg (Finset.notMem_erase b x.managers), oneMore, if_pos rfl, hcount, huses, Nat.zero_add]
  exact hkept.releasePtr hm hran

/-- What `ivc_open_manager` does to the memory of the process. -/
theorem openedManager_of_ran {s u : State} {tr : List libc.Event} {y : Option Ptr} (h : ivcOpenManager.Ran Does s tr y u) :
    ∃ p, y = some p ∧ Polite (tr.map (ioEvent ∘ libEvent)) ∧
      ((p = 0 ∧ u.heap = s.heap) ∨
        (p ≠ 0 ∧ s.heap p = none ∧ ∃ fd : Nat, u.heap = Function.update s.heap p (some (.manager ⟨fd, 0⟩)))) := by
  have hquiet (hnone : ∀ e ∈ effects tr, ∀ message, e.1 ≠ .fprintf message) := polite_of_effects hnone
  rw [ivcOpenManager] at h
  obtain ⟨p, v, tr₁, htr₁, h, ⟨rfl, hv⟩ | ⟨hp, hfree, b, hv⟩⟩ := Ran.of_malloc h
  · obtain ⟨w, tr₂, htr₂, hw, rfl, rfl, rfl⟩ := Ran.of_perror h
    exact ⟨0, rfl, hquiet (by rw [htr₁, htr₂]; simp [effects]), .inl ⟨rfl, hw.trans hv⟩⟩
  · rw [if_neg hp] at h
    obtain ⟨r, w, tr₂, htr₂, ⟨hw, -⟩, h⟩ := Ran.of_openFile h
    obtain ⟨w', tr₃, htr₃, hw', h⟩ := Ran.of_storeManager h (by rw [hw, hv, Function.update_self]; simp)
    rw [hw, hv, Function.update_idem] at hw'
    cases r with
    | ok fd =>
        rw [if_neg (by simp [SysRet.ret])] at h
        obtain ⟨rfl, rfl, rfl⟩ := h
        refine ⟨p, rfl, hquiet ?_, .inr ⟨hp, hfree, fd, hw'⟩⟩
        rw [htr₁, htr₂, htr₃]
        simp [effects]
    | fails c =>
        rw [if_pos (by simp [SysRet.ret])] at h
        obtain ⟨tr₄, htr₄, h⟩ := Ran.of_loadErrno h
        obtain ⟨y', tr₅, htr₅, hy, h⟩ := Ran.of_perror h
        obtain ⟨z, tr₆, htr₆, hz, h⟩ := Ran.of_free h (by rw [hy, hw', Function.update_self]; simp)
        obtain ⟨tr₇, htr₇, rfl, rfl, rfl⟩ := Ran.of_storeErrno h
        refine ⟨0, rfl, hquiet ?_, .inl ⟨rfl, ?_⟩⟩
        · rw [htr₁, htr₂, htr₃, htr₄, htr₅, htr₆, htr₇]
          simp [effects]
        · rw [hz, hy, hw', update_free hfree]

/-- The constructor of `Manager`. -/
theorem Kept.managerInit (h : Kept noMore rest x) {r : Option (Except PyError Nat)}
    (hran : managerInit.Ran CxxDoes x.process tr r t) :
    ∃ result, r = some result ∧ Polite tr ∧ (∀ e, result = .error e → Kept noMore rest { x with process := t }) ∧
      ∀ b, result = .ok b → Kept noMore rest { x with process := t, managers := insert b x.managers } := by
  obtain ⟨p, u, tr₁, tr₂, ⟨hpolite, hheap⟩, hshared, hrest, rfl⟩ :=
    Ran.of_plainCall_bind (fun _ _ _ hcall => openedManager_of_ran hcall) hran
  have hrest : (if p = 0 then pure (.error (.runtimeError "Failed to open IVC manager"))
    else cxxCall (.makeShared p) >>= fun b => pure (.ok b)).Ran CxxDoes u tr₂ r t := hrest
  obtain ⟨rfl, hheap⟩ | ⟨hp, hfree, fd, hheap⟩ := hheap
  · rw [if_pos rfl] at hrest
    obtain ⟨rfl, rfl, rfl⟩ := hrest
    refine ⟨_, rfl, ?_, fun _ _ => ?_, fun _ hok => ?_⟩
    · rw [List.append_nil]
      exact hpolite
    · exact h.same hshared hheap
    · cases hok
  · rw [if_neg hp] at hrest
    obtain ⟨b, v, tr₃, ⟨hnew, rfl⟩, ⟨rfl, rfl, rfl⟩, rfl⟩ := hrest
    refine ⟨_, rfl, hpolite.append (polite_single rfl), fun _ herror => ?_, fun c hok => ?_⟩
    · cases herror
    · cases hok
      have hb : x.process.shared b = none := hshared ▸ hnew
      have huses := h.owned b hb
      rw [Interp.uses] at huses
      have hempty : x.endpoints b = ∅ := Finset.card_eq_zero.mp (by omega)
      have hcounted : Counted p ⟨u.memory, x.endpoints b, true⟩ := by
        rw [hempty]
        refine ⟨hp, fun _ => ⟨⟨fd, 0⟩, ?_, Int.natCast_nonneg fd, rfl⟩, fun _ _ hmem => ?_, fun _ => rfl⟩
        · change u.memory.heap p = _
          rw [hheap, Function.update_self]
        · exact absurd hmem (Finset.notMem_empty _)
      refine h.of_block (b := b) (fun _ _ => rfl) (fun c hc => ?_) (fun c hc => ?_) (fun _ _ => rfl) (fun q => ?_)
        (fun hnone => ?_) fun m' n' hsome => ?_
      · exact (Function.update_of_ne hc ..).trans (congrFun hshared c)
      · rw [Finset.mem_insert]
        exact or_iff_right hc
      · have hblock : Function.update u.shared b (some ⟨p, 1⟩) b = some ⟨p, 1⟩ := Function.update_self ..
        by_cases hqp : q = p
        · exact .inl ⟨.inr (hqp ▸ hfree), .inl (.inl ⟨1, hqp ▸ hblock⟩)⟩
        · refine .inr ⟨iff_of_false ?_ ?_, ?_⟩
          · simp [Interp.Owns, hb, hempty]
          · rw [Interp.owns_iff hblock]
            simp [hqp, hempty]
          · change u.memory.heap q = _
            rw [hheap, Function.update_of_ne hqp]
      · have hnone : Function.update u.shared b (some ⟨p, 1⟩) b = none := hnone
        rw [Function.update_self] at hnone
        cases hnone
      · have hsome : Function.update u.shared b (some ⟨p, 1⟩) b = some ⟨m', n'⟩ := hsome
        rw [Function.update_self] at hsome
        cases hsome
        refine ⟨⟨?_, Nat.one_pos⟩, hcounted, .inr hfree⟩
        rw [Interp.uses, if_pos (Finset.mem_insert_self b x.managers), hempty]
        rfl

end Owners

/-! ## data -/

section Data

variable {rest : Ptr → Option Block} {x : Interp} {b : Nat} {k : Kind} {p buf : Ptr} {tr : List cxx.Event} {t : Process}

/-- An endpoint whose counters have moved. -/
theorem counted_setEndpoint {m : Ptr} {s u : State} {live : Finset (Kind × Ptr)} (hcounted : Counted m ⟨s, live, true⟩)
    (hp : (k, p) ∈ live) {e e' : Endpoint} (he : s.heap p = some (.endpoint k e)) (hmanager : e'.manager = e.manager)
    (hheap : u.heap = Function.update s.heap p (some (.endpoint k e'))) : Counted m ⟨u, live, true⟩ := by
  obtain ⟨record, hm, hcount⟩ := hcounted.count rfl
  have hne := hcounted.ne_of_mem hm hp
  refine ⟨hcounted.nonnull, fun _ => ⟨record, ?_, hcount⟩, fun k' q hq => ?_, fun hnot => ?_⟩
  · change u.heap m = _
    rw [hheap, Function.update_of_ne hne.symm]
    exact hm
  · obtain ⟨hnonnull, e₁, he₁, hmanager₁⟩ := hcounted.owned k' q hq
    refine ⟨hnonnull, ?_⟩
    change ∃ e, u.heap q = _ ∧ _
    rw [hheap]
    by_cases hqp : q = p
    · subst hqp
      have hsame := Option.some.inj (he₁.symm.trans he)
      obtain ⟨rfl, rfl⟩ := Block.endpoint.inj hsame
      exact ⟨e', Function.update_self .., hmanager.trans hmanager₁⟩
    · rw [Function.update_of_ne hqp]
      exact ⟨e₁, he₁, hmanager₁⟩
  · cases hnot

/-- A call on an endpoint that moves its counters, or nothing. -/
theorem Kept.moved (h : Kept noMore rest x) (hp : (k, p) ∈ x.endpoints b) {e e' : Endpoint}
    (he : x.process.memory.heap p = some (.endpoint k e)) (hmanager : e'.manager = e.manager)
    (hshared : t.shared = x.process.shared) (hheap : t.memory.heap = x.process.memory.heap ∨
      t.memory.heap = Function.update x.process.memory.heap p (some (.endpoint k e'))) :
    Kept noMore rest { x with process := t } := by
  obtain hheap | hheap := hheap
  · exact h.same hshared hheap
  · obtain ⟨m, n, hm⟩ := h.block hp
    obtain ⟨hcount, hpos⟩ := h.count b m n hm
    refine h.put hm (fun _ _ => rfl) (fun _ _ => Iff.rfl) (fun _ _ => rfl)
      (hshared.trans (Function.update_eq_self_iff.mpr hm.symm).symm)
      (within_of_keeps hm (hshared ▸ hm) rfl fun q hq => ?_) hcount hpos
      (counted_setEndpoint (h.counted b m n hm) hp he hmanager hheap)
    by_cases hqp : q = p
    · exact .inr ⟨k, hqp ▸ hp⟩
    · rw [hheap, Function.update_of_ne hqp] at hq
      exact absurd rfl hq

theorem Kept.endpoint (h : Kept noMore rest x) (hp : (k, p) ∈ x.endpoints b) :
    p ≠ 0 ∧ ∃ e, x.process.memory.heap p = some (.endpoint k e) := by
  obtain ⟨m, n, hm⟩ := h.block hp
  obtain ⟨hne, e, he, -⟩ := (h.counted b m n hm).owned k p hp
  exact ⟨hne, e, he⟩

/-- The operations of a call of the library that is no misuse. -/
def IsPolite (o : IoOp) : Prop := CxxOp.isMisuse (.io o) = false

theorem polite_of_each {tr : List ioLib.Event} (h : ∀ e ∈ tr, IsPolite e.1) : Polite (tr.map ioEvent) := by
  intro e he
  obtain ⟨e', hmem, rfl⟩ := List.mem_map.mp he
  exact h e' hmem

theorem each_endpointRecv {count : UInt64} (hp : p ≠ 0) (hbuf : buf ≠ 0) (hzero : count ≠ 0) (hmax : ¬ count > intMax) :
    (endpointRecv k p buf count).Each IsPolite := by
  rw [endpointRecv, if_neg (by simp [hp, hbuf, hzero]), if_neg hmax]
  refine ⟨rfl, fun e => ⟨rfl, fun r => ?_⟩⟩
  change (afterRead k p r).Each IsPolite
  rw [afterRead]
  split
  · exact ⟨rfl, fun _ => trivial⟩
  · exact ⟨rfl, fun _ => ⟨rfl, fun _ => trivial⟩⟩

theorem each_endpointSend {data : Data} (hp : p ≠ 0) (hbuf : buf ≠ 0) : (endpointSend k p buf data).Each IsPolite := by
  rw [endpointSend, if_neg (by simp [hp, hbuf])]
  split
  · exact ⟨rfl, fun _ => ⟨rfl, fun _ => trivial⟩⟩
  · split
    · exact ⟨rfl, fun _ => ⟨rfl, fun _ => trivial⟩⟩
    · refine ⟨rfl, fun e => ⟨rfl, fun r => ?_⟩⟩
      change (afterWrite k p data r).Each IsPolite
      rw [afterWrite]
      split
      · exact ⟨rfl, fun _ => trivial⟩
      · split
        · exact ⟨rfl, fun _ => ⟨rfl, fun _ => trivial⟩⟩
        · exact ⟨rfl, fun _ => ⟨rfl, fun _ => trivial⟩⟩

/-- A receive of an endpoint that is there moves its counters at most. -/
theorem moved_of_recv {s u : State} {e : Endpoint} (hne : p ≠ 0) (hbuf : buf ≠ 0) (he : s.heap p = some (.endpoint k e))
    {count : UInt64} (hzero : count ≠ 0) (hmax : ¬ count > intMax) {tr : List ioLib.Event}
    {y : Option (Int32 × List UInt8)} (h : (endpointRecv k p buf count).Ran IoDoes s tr y u) :
    ∃ a, y = some a ∧ Polite (tr.map ioEvent) ∧ ∃ e' : Endpoint, e'.manager = e.manager ∧
      (u.heap = s.heap ∨ u.heap = Function.update s.heap p (some (.endpoint k e'))) := by
  have hpolite := polite_of_each (h.each (each_endpointRecv hne hbuf hzero hmax))
  obtain ⟨a, rfl, hreceived⟩ := received_of_ran hne he h
  generalize deviceCalls tr = calls at hreceived
  cases hreceived with
  | refused _ hheap => exact ⟨_, rfl, hpolite, e, rfl, .inl hheap⟩
  | failed _ hheap => exact ⟨_, rfl, hpolite, e, rfl, .inl hheap⟩
  | received data n _ _ hheap =>
      exact ⟨_, rfl, hpolite, { e with bytesReceived := e.bytesReceived + .ofNat data.length }, rfl, .inr hheap⟩

theorem moved_of_send {s u : State} {e : Endpoint} (hne : p ≠ 0) (hbuf : buf ≠ 0) (he : s.heap p = some (.endpoint k e))
    {data : Data} {tr : List ioLib.Event} {y : Option Int32} (h : (endpointSend k p buf data).Ran IoDoes s tr y u) :
    ∃ a, y = some a ∧ Polite (tr.map ioEvent) ∧ ∃ e' : Endpoint, e'.manager = e.manager ∧
      (u.heap = s.heap ∨ u.heap = Function.update s.heap p (some (.endpoint k e'))) := by
  have hpolite := polite_of_each (h.each (each_endpointSend hne hbuf))
  obtain ⟨a, rfl, hsent⟩ := sent_of_ran hne he h
  generalize deviceCalls tr = calls at hsent
  cases hsent with
  | refused _ hheap => exact ⟨_, rfl, hpolite, e, rfl, .inl hheap⟩
  | failed _ _ hheap => exact ⟨_, rfl, hpolite, e, rfl, .inl hheap⟩
  | sent n _ hheap =>
      exact ⟨_, rfl, hpolite, { e with bytesSent := e.bytesSent + .ofNat data.1.length }, rfl, .inr hheap⟩

/-- `recv` -/
theorem Kept.recv (h : Kept noMore rest x) (hp : (k, p) ∈ x.endpoints b) {maxBytes : UInt64}
    {r : Option (Except PyError (List UInt8))}
    (hran : (endpointRecvBytes k (endpointRecv k p) maxBytes).Ran CxxDoes x.process tr r t) :
    ∃ result, r = some result ∧ Polite tr ∧ Kept noMore rest { x with process := t } := by
  obtain ⟨hne, e, he⟩ := h.endpoint hp
  rw [endpointRecvBytes] at hran
  split at hran
  · obtain ⟨rfl, rfl, rfl⟩ := hran
    exact ⟨_, rfl, by simp [Polite], h⟩
  · next hzero =>
    split at hran
    · obtain ⟨rfl, rfl, rfl⟩ := hran
      exact ⟨_, rfl, by simp [Polite], h⟩
    · next hmax =>
      obtain ⟨buffer, u, tr₁, ⟨hbuffer, rfl⟩, hran, rfl⟩ := hran
      obtain ⟨received, v, tr₂, tr₃, ⟨hpolite, e', hmanager, hheap⟩, hshared, hrest, rfl⟩ :=
        Ran.of_call_bind (s := x.process) (fun _ _ _ hcall => moved_of_recv hne hbuffer he hzero hmax hcall) hran
      have hkept := h.moved hp he hmanager hshared hheap
      have htrace : Polite (⟨.buffer maxBytes, buffer⟩ :: (tr₂.map ioEvent ++ [])) :=
        (polite_single rfl).append (hpolite.append (by simp [Polite]))
      have hrest : Prog.Ran CxxDoes
        (if received.1 < 0 then .ret (.error (.runtimeError ("Failed to receive on " ++ k.name ++ " device")))
          else if received.1 = 0 then .ret (.ok []) else .ret (.ok received.2)) v tr₃ r t := hrest
      split at hrest
      · obtain ⟨rfl, rfl, rfl⟩ := hrest
        exact ⟨_, rfl, htrace, hkept⟩
      · split at hrest <;>
        · obtain ⟨rfl, rfl, rfl⟩ := hrest
          exact ⟨_, rfl, htrace, hkept⟩

/-- `send` -/
theorem Kept.send (h : Kept noMore rest x) (hp : (k, p) ∈ x.endpoints b) {data : Data} {r : Option (Except PyError Int32)}
    (hran : (endpointSendBytes k (endpointSend k p) data).Ran CxxDoes x.process tr r t) :
    ∃ result, r = some result ∧ Polite tr ∧ Kept noMore rest { x with process := t } := by
  obtain ⟨hne, e, he⟩ := h.endpoint hp
  obtain ⟨buffer, u, tr₁, ⟨hbuffer, rfl⟩, hran, rfl⟩ := hran
  obtain ⟨bytesSent, v, tr₂, tr₃, ⟨hpolite, e', hmanager, hheap⟩, hshared, hrest, rfl⟩ :=
    Ran.of_call_bind (s := x.process) (fun _ _ _ hcall => moved_of_send hne hbuffer he hcall) hran
  have hkept := h.moved hp he hmanager hshared hheap
  have htrace : Polite (⟨.buffer data.count, buffer⟩ :: (tr₂.map ioEvent ++ [])) :=
    (polite_single rfl).append (hpolite.append (by simp [Polite]))
  have hrest : Prog.Ran CxxDoes
    (if bytesSent < 0 then .ret (.error (.runtimeError ("Failed to send on " ++ k.name ++ " device")))
      else .ret (.ok bytesSent)) v tr₃ r t := hrest
  split at hrest <;>
  · obtain ⟨rfl, rfl, rfl⟩ := hrest
    exact ⟨_, rfl, htrace, hkept⟩

end Data

/-! ## programs -/

section Programs

variable {rest : Ptr → Option Block} {s : State} {x y : Interp}

theorem kept_init (s : State) : Kept noMore s.heap (.init s) := by
  refine ⟨fun _ _ => rfl, fun _ _ _ hb => ?_, fun _ _ _ hb => ?_, fun _ _ _ _ _ hb => ?_, ?_⟩
  · cases hb
  · cases hb
  · cases hb
  · funext p
    have hnone : ¬ ∃ b, (Interp.init s).Owns b p := by simp [Interp.Owns, Interp.init]
    rw [Interp.rest, if_neg hnone]
    rfl

/-- **Every call a program can make** ends, is a proper use of the library, and
keeps the counts. -/
theorem Kept.call (h : Kept noMore rest x) {c : PyCall} (hallows : x.Allows c) {tr : List cxx.Event} {r : Option PyRet}
    {t : Process} (hran : c.program.Ran CxxDoes x.process tr r t) :
    ∃ ret, r = some ret ∧ Polite tr ∧ Kept noMore rest (x.after t c ret) := by
  cases c with
  | newManager =>
      obtain ⟨y, hcall, rfl⟩ := Ran.of_map hran
      obtain ⟨result, rfl, hpolite, herror, hok⟩ := h.managerInit hcall
      refine ⟨_, rfl, hpolite, ?_⟩
      cases result with
      | error e => exact herror e rfl
      | ok b => exact hok b rfl
  | newSubscriber b publisherId channelKey =>
      obtain ⟨y, hcall, rfl⟩ := Ran.of_map hran
      obtain ⟨result, rfl, hpolite, herror, hok⟩ := h.endpointInit hallows hcall
      refine ⟨_, rfl, hpolite, ?_⟩
      cases result with
      | error e => exact herror e rfl
      | ok p => exact hok p rfl
  | newPublisher b channelKey channelSize =>
      obtain ⟨y, hcall, rfl⟩ := Ran.of_map hran
      obtain ⟨result, rfl, hpolite, herror, hok⟩ := h.endpointInit hallows hcall
      refine ⟨_, rfl, hpolite, ?_⟩
      cases result with
      | error e => exact herror e rfl
      | ok p => exact hok p rfl
  | delManager b =>
      obtain ⟨y, hcall, rfl⟩ := Ran.of_map hran
      obtain ⟨rfl, hpolite, hkept⟩ := h.managerDel hallows hcall
      exact ⟨_, rfl, hpolite, hkept⟩
  | delSubscriber b subscriber =>
      obtain ⟨y, hcall, rfl⟩ := Ran.of_map hran
      obtain ⟨rfl, hpolite, hkept⟩ := h.endpointDel hallows hcall
      exact ⟨_, rfl, hpolite, hkept⟩
  | delPublisher b publisher =>
      obtain ⟨y, hcall, rfl⟩ := Ran.of_map hran
      obtain ⟨rfl, hpolite, hkept⟩ := h.endpointDel hallows hcall
      exact ⟨_, rfl, hpolite, hkept⟩
  | recv b k endpoint maxBytes =>
      cases k <;>
      · obtain ⟨y, hcall, rfl⟩ := Ran.of_map hran
        obtain ⟨result, rfl, hpolite, hkept⟩ := h.recv hallows hcall
        exact ⟨_, rfl, hpolite, hkept⟩
  | send b k endpoint data =>
      cases k <;>
      · obtain ⟨y, hcall, rfl⟩ := Ran.of_map hran
        obtain ⟨result, rfl, hpolite, hkept⟩ := h.send hallows hcall
        exact ⟨_, rfl, hpolite, hkept⟩

theorem Kept.called (h : Kept noMore rest x) (hcall : Called x y) : Kept noMore rest y := by
  obtain ⟨c, tr, r, t, hallows, hran, rfl⟩ := hcall
  obtain ⟨ret, hret, -, hkept⟩ := h.call hallows hran
  cases hret
  exact hkept

theorem kept_of_steps (h : Relation.ReflTransGen Step (.init s) x) : Kept noMore x.rest x := by
  induction h with
  | refl => exact (kept_init s).between rfl fun _ _ _ => rfl
  | tail _ hstep ih =>
      cases hstep with
      | call hcall =>
          have hkept := ih.called hcall
          exact hkept.between rfl fun _ _ _ => rfl
      | between hmanagers hendpoints =>
          refine ih.between rfl fun b p hp => ?_
          obtain ⟨n, hb⟩ | ⟨k, hk⟩ := hp
          · exact hmanagers b p n hb
          · exact hendpoints b k p hk

theorem kept_of_calls (h : Relation.ReflTransGen Called (.init s) x) : Kept noMore s.heap x := by
  induction h with
  | refl => exact kept_init s
  | tail _ hcall ih => exact ih.called hcall

/-- A block without objects is gone. -/
theorem Kept.gone (h : Kept noMore rest x) {b : Nat} (huses : x.uses b = 0) : x.process.shared b = none := by
  cases hb : x.process.shared b with
  | none => rfl
  | some sh =>
      obtain ⟨hcount, hpos⟩ := h.count b sh.manager sh.useCount hb
      rw [huses] at hcount
      exact absurd hcount (Nat.pos_iff_ne_zero.mp hpos)

/-- When there are no objects, all memory is no object's. -/
theorem Kept.heap_eq (h : Kept noMore rest x) (huses : ∀ b, x.uses b = 0) : x.process.memory.heap = rest := by
  have howns (p : Ptr) : ¬ ∃ b, x.Owns b p := by
    rintro ⟨b, ⟨n, hb⟩ | ⟨k, hk⟩⟩
    · rw [h.gone (huses b)] at hb
      cases hb
    · obtain ⟨m, n, hb⟩ := h.block hk
      rw [h.gone (huses b)] at hb
      cases hb
  rw [← h.others]
  funext p
  rw [Interp.rest, if_neg (howns p)]

/-- **Python objects own their manager**, in whatever order a program makes and
drops them: a block is there exactly as long as one of its objects, and counts
them; its manager is open and counts its endpoints.  Every call a program can
make on the objects it has ends, is a proper use of the library, which never
refuses to close a manager, and leaves alone the memory that is no object's.  A
program that only makes calls and has dropped its objects has given all memory
back. -/
theorem objects_counted (h : Relation.ReflTransGen Step (.init s) x) :
    (∀ b, x.process.shared b = none ↔ x.uses b = 0) ∧
    (∀ b m n, x.process.shared b = some ⟨m, n⟩ → n = x.uses b ∧ Counted m (x.client b)) ∧
    (∀ c tr r t, x.Allows c → c.program.Ran CxxDoes x.process tr r t →
      ∃ ret, r = some ret ∧ Polite tr ∧ (x.after t c ret).rest = x.rest) ∧
    (Relation.ReflTransGen Called (.init s) x → (∀ b, x.uses b = 0) → x.process.memory.heap = s.heap) := by
  have hkept := kept_of_steps h
  refine ⟨fun b => ⟨hkept.owned b, hkept.gone⟩, fun b m n hb => ?_, fun c tr r t hallows hran => ?_, fun hcalls => ?_⟩
  · exact ⟨(hkept.count b m n hb).1, hkept.counted b m n hb⟩
  · obtain ⟨ret, rfl, hpolite, hafter⟩ := hkept.call hallows hran
    exact ⟨ret, rfl, hpolite, hafter.others⟩
  · exact (kept_of_calls hcalls).heap_eq

end Programs

/-- One block with the manager 1. -/
def blocks (n : Nat) : Nat → Option Shared := Function.update (fun _ => none) 0 (some ⟨1, n⟩)

theorem update_blocks (n n' : Nat) : Function.update (blocks n) 0 (some ⟨1, n'⟩) = blocks n' := Function.update_idem ..

theorem blocks_zero {m : Ptr} {n n' : Nat} (h : blocks n 0 = some ⟨m, n'⟩) : m = 1 ∧ n' = n := by
  cases h
  exact ⟨rfl, rfl⟩

/-- The memory when the subscriber is gone. -/
def unsubscribing : State := subscribing.after (ivcUnsubscribe 2)

/-- A program that has a subscriber and no manager, and then drops it. -/
theorem objects_counted_manager_first : ∃ x y : Interp,
    Relation.ReflTransGen Called (.init ⟨0, fun _ => none⟩) x ∧ x.managers = ∅ ∧ x.endpoints 0 = {(.subscriber, 2)} ∧
      (∃ m, x.process.memory.heap 1 = some (.manager m) ∧ m.activeEndpoints.toNat = 1) ∧
    Called x y ∧ (∀ b, y.uses b = 0) ∧ y.process.memory.heap = fun _ => none := by
  have hopen : ivcOpenManager.run (perform refusing) ⟨0, fun _ => none⟩ = some (1, opening) := rfl
  have hsubscribe : (ivcSubscribe 1 7 9).run (perform refusing) opening = some (2, subscribing) := rfl
  have hunsubscribe : (ivcUnsubscribe 2).run (perform refusing) subscribing = some (-1, unsubscribing) := rfl
  have hclose : (ivcCloseManager 1).run (perform refusing) unsubscribing =
    some (-1, unsubscribing.after (ivcCloseManager 1)) := rfl
  obtain ⟨tr₁, hopen⟩ := ran_of_run (does_perform refusing) hopen
  obtain ⟨tr₂, hsubscribe⟩ := ran_of_run (does_perform refusing) hsubscribe
  obtain ⟨tr₃, hunsubscribe⟩ := ran_of_run (does_perform refusing) hunsubscribe
  obtain ⟨tr₄, hclose⟩ := ran_of_run (does_perform refusing) hclose
  have hopen := ran_plainCall (s := ⟨⟨0, fun _ => none⟩, fun _ => none⟩) hopen
  have hsubscribe := ran_plainCall (s := ⟨opening, blocks 2⟩) hsubscribe
  have hunsubscribe := ran_plainCall (s := ⟨subscribing, blocks 1⟩) hunsubscribe
  have hclose := ran_plainCall (s := ⟨unsubscribing, blocks 0⟩) hclose
  let first : Interp := ⟨⟨opening, blocks 1⟩, {0}, fun _ => ∅⟩
  let both : Interp := first.setEndpoints ⟨subscribing, blocks 2⟩ 0 (insert (.subscriber, 2) ∅)
  let second : Interp := { both with process := ⟨subscribing, blocks 1⟩, managers := both.managers.erase 0 }
  have hmake : Called (.init ⟨0, fun _ => none⟩) first := by
    have hran : managerInit.Ran CxxDoes ⟨⟨0, fun _ => none⟩, fun _ => none⟩ _ (some (.ok 0)) ⟨opening, blocks 1⟩ :=
      hopen.bind ⟨0, _, _, ⟨rfl, rfl⟩, ran_ret _ _, rfl⟩
    exact ⟨.newManager, _, _, _, trivial, hran.bind (ran_ret _ _), rfl⟩
  have hjoin : Called first both := by
    have hcopy : CxxDoes (.copyPtr 0) ⟨opening, blocks 1⟩ () ⟨opening, blocks 2⟩ := by
      intro m n h
      obtain ⟨rfl, rfl⟩ := blocks_zero h
      rw [update_blocks]
    have hget : CxxDoes (.getManager 0) ⟨opening, blocks 2⟩ (1 : Ptr) ⟨opening, blocks 2⟩ :=
      fun m n h => ⟨(blocks_zero h).1.symm, rfl⟩
    have hran : (endpointInit .subscriber 0 (ivcSubscribe · 7 9)).Ran CxxDoes ⟨opening, blocks 1⟩ _ (some (.ok 2))
        ⟨subscribing, blocks 2⟩ :=
      .act hcopy (.act hget (hsubscribe.bind (ran_ret _ _)))
    exact ⟨.newSubscriber 0 7 9, _, _, _, Finset.mem_singleton_self 0, hran.bind (ran_ret _ _), rfl⟩
  have hdrop (n : Nat) (s : State) : CxxDoes (.dropPtr 0) ⟨s, blocks n⟩ (decide (n = 1)) ⟨s, blocks (n - 1)⟩ := by
    intro m n' h
    obtain ⟨rfl, rfl⟩ := blocks_zero h
    rw [update_blocks]
    exact ⟨rfl, rfl⟩
  have hleave : Called both second := by
    have hran : (releasePtr 0).Ran CxxDoes ⟨subscribing, blocks 2⟩ _ (some ()) ⟨subscribing, blocks 1⟩ :=
      .act (hdrop 2 subscribing) (ran_ret _ _)
    exact ⟨.delManager 0, _, _, _, Finset.mem_singleton_self 0, hran.bind (ran_ret _ _), rfl⟩
  have hend : ∃ t : Process, Called second (second.setEndpoints t 0 ((second.endpoints 0).erase (.subscriber, 2))) := by
    have hget : CxxDoes (.getManager 0) ⟨unsubscribing, blocks 0⟩ (1 : Ptr) ⟨unsubscribing, blocks 0⟩ :=
      fun m n h => ⟨(blocks_zero h).1.symm, rfl⟩
    have hdtor : (managerDtor 0).Ran CxxDoes ⟨unsubscribing, blocks 0⟩ _ (some ()) _ :=
      .act hget (hclose.bind (.act (fun _ => rfl) (ran_ret _ _)))
    have hran : (endpointDel 0 (ivcUnsubscribe 2)).Ran CxxDoes ⟨subscribing, blocks 1⟩ _ (some ()) _ :=
      hunsubscribe.bind (.act (hdrop 1 unsubscribing) hdtor)
    exact ⟨_, .delSubscriber 0 2, _, _, _, Finset.mem_singleton_self _, hran.bind (ran_ret _ _), rfl⟩
  obtain ⟨t, hend⟩ := hend
  have hcalls : Relation.ReflTransGen Called (.init ⟨0, fun _ => none⟩) second := .tail (.tail (.single hmake) hjoin) hleave
  have hsteps {x : Interp} (h : Relation.ReflTransGen Called (.init ⟨0, fun _ => none⟩) x) :
    Relation.ReflTransGen Step (.init ⟨0, fun _ => none⟩) x := Relation.ReflTransGen.mono (fun _ _ => Step.call) _ _ h
  have hgone (b : Nat) : (second.setEndpoints t 0 ((second.endpoints 0).erase (.subscriber, 2))).uses b = 0 := by
    simp [Interp.uses, Interp.setEndpoints, second, both, first]
  refine ⟨second, _, hcalls, rfl, rfl, ?_, hend, hgone, ?_⟩
  · obtain ⟨-, hmanagers, -⟩ := objects_counted (hsteps hcalls)
    obtain ⟨m, hm, -, hactive⟩ := (hmanagers 0 1 1 rfl).2.count rfl
    exact ⟨m, hm, hactive⟩
  · obtain ⟨-, -, -, hfreed⟩ := objects_counted (hsteps (hcalls.tail hend))
    exact hfreed (hcalls.tail hend) hgone

end Pybind

end Axivc
