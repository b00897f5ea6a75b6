import Axivc.Lib.Clients
import Axivc.RegistryTenure

/-!
# Axivc.RegistryIoctl

`axivc_manager_ioctl`, and the driver as its users see it.

An ioctl copies its argument in, makes one call of the registry and, if it has
opened a channel, copies the name of the device out.  When the copy out faults
the channel is closed again, by its key: with any number of ioctls and of calls
on files in flight, that is a call like any other, which may be refused, or
find another record.

The ioctls are the clients of the two sides (`Axivc.Lib.Clients`), so that
every run of theirs is a run of the registry.
-/

namespace Axivc

namespace Registry

open Prog Rely

/-! ## arguments -/

/-- The two sides. -/
inductive Kind where
  | publisher
  | subscriber
  deriving DecidableEq

/-- `ivc_publish_arg_t` -/
structure PublishArg where
  channelKey : UInt64
  channelSize : UInt64
  deviceName : String

/-- `ivc_subscribe_arg_t` -/
structure SubscribeArg where
  targetPublisherId : UInt64
  channelKey : UInt64
  deviceName : String

namespace Kind

/-- What names a channel. -/
@[reducible] def Chan : Kind → Type
  | publisher => UInt64
  | subscriber => UInt64 × UInt64

instance : (x : Kind) → DecidableEq x.Chan
  | publisher => inferInstanceAs (DecidableEq UInt64)
  | subscriber => inferInstanceAs (DecidableEq (UInt64 × UInt64))

instance : (x : Kind) → Inhabited x.Chan
  | publisher => inferInstanceAs (Inhabited UInt64)
  | subscriber => inferInstanceAs (Inhabited (UInt64 × UInt64))

def side : (x : Kind) → Side x.Chan
  | publisher => publisherSide
  | subscriber => subscriberSide

/-- The argument of an ioctl. -/
@[reducible] def Arg : Kind → Type
  | publisher => PublishArg
  | subscriber => SubscribeArg

def channel : (x : Kind) → x.Arg → x.Chan
  | publisher, arg => arg.channelKey
  | subscriber, arg => (arg.targetPublisherId, arg.channelKey)

/-- The size that is asked for; a subscriber asks for none. -/
def size : (x : Kind) → x.Arg → UInt64
  | publisher, arg => arg.channelSize
  | subscriber, _ => 0

/-- `device_name` is filled in. -/
def named : (x : Kind) → x.Arg → String → x.Arg
  | publisher, arg, name => { arg with deviceName := name }
  | subscriber, arg, name => { arg with deviceName := name }

@[simp] theorem channel_named (x : Kind) (arg : x.Arg) (name : String) : x.channel (x.named arg name) = x.channel arg := by
  cases x <;> rfl

end Kind

/-! ## the programs -/

/-- The calls on a file of a device. -/
inductive FileCall where
  | openFile (f v : Nat)
  | fileIo (f v n : Nat)
  | releaseFile (f v : Nat)

def FileCall.call {Chan : Type} : FileCall → Call Chan
  | openFile f v => .openFile f v
  | fileIo f v n => .fileIo f v n
  | releaseFile f v => .releaseFile f v

/-- The operations of an ioctl: the copies, which may fault, and the calls of
the registry. -/
inductive IoctlOp where
  | copyFromUser (x : Kind)
  | copyToUser (x : Kind) (arg : x.Arg)
  | openChannel (x : Kind) (chan : x.Chan) (expectedShmSize : UInt64) (iterations : Nat)
  | closeChannel (x : Kind) (chan : x.Chan)
  | file (x : Kind) (call : FileCall)

/-- The answers; `copy_to_user` answers whether it has faulted. -/
@[reducible] def ioctlIface : Iface where
  Op := IoctlOp
  Res
    | .copyFromUser x => Option x.Arg
    | .copyToUser _ _ => Bool
    | .openChannel .. => Except Errno String
    | .closeChannel .. => Except Errno Unit
    | .file .. => Ret

abbrev ask (o : IoctlOp) : Prog ioctlIface (ioctlIface.Res o) := op (I := ioctlIface) o

/-- `_IOW` of the generic `ioctl.h` -/
def iow (type nr size : UInt32) : UInt32 := (1 : UInt32) <<< 30 ||| size <<< 16 ||| type <<< 8 ||| nr

/-- `IVC_PUBLISH_CHANNEL`; both arguments have 80 bytes -/
def publishRequest : UInt32 := iow 0 0 80

/-- `IVC_UNPUBLISH_CHANNEL` -/
def unpublishRequest : UInt32 := iow 0 1 80

/-- `IVC_SUBSCRIBE_CHANNEL` -/
def subscribeRequest : UInt32 := iow 0 2 80

/-- `IVC_UNSUBSCRIBE_CHANNEL` -/
def unsubscribeRequest : UInt32 := iow 0 3 80

/-- The branches `IVC_PUBLISH_CHANNEL` and `IVC_SUBSCRIBE_CHANNEL`. -/
def openIoctl (x : Kind) (iterations : Nat) : Prog ioctlIface (Except Errno Unit) := do
  let copied : Option x.Arg ← ask (.copyFromUser x)
  match copied with
  | none => pure (.error .EFAULT)
  | some arg =>
      let opened : Except Errno String ← ask (.openChannel x (x.channel arg) (x.size arg) iterations)
      match opened with
      | .error e => pure (.error e)
      | .ok name =>
          let arg := x.named arg name
          let fault : Bool ← ask (.copyToUser x arg)
          if fault then
            let _ : Except Errno Unit ← ask (.closeChannel x (x.channel arg))
            pure (.error .EFAULT)
          else
            pure (.ok ())

/-- The branches `IVC_UNPUBLISH_CHANNEL` and `IVC_UNSUBSCRIBE_CHANNEL`. -/
def closeIoctl (x : Kind) : Prog ioctlIface (Except Errno Unit) := do
  let copied : Option x.Arg ← ask (.copyFromUser x)
  match copied with
  | none => pure (.error .EFAULT)
  | some arg => ask (.closeChannel x (x.channel arg))

/-- `axivc_manager_ioctl` -/
def axivcManagerIoctl (ioctl : UInt32) (iterations : Nat) : Prog ioctlIface (Except Errno Unit) :=
  if ioctl = publishRequest then openIoctl .publisher iterations
  else if ioctl = unpublishRequest then closeIoctl .publisher
  else if ioctl = subscribeRequest then openIoctl .subscriber iterations
  else if ioctl = unsubscribeRequest then closeIoctl .subscriber
  else pure (.error .EINVAL)

/-- What a user of the driver does. -/
inductive Job where
  | ioctl (ioctl : UInt32) (iterations : Nat)
  | file (x : Kind) (call : FileCall)

/-- What comes of it. -/
inductive Outcome where
  | ioctl (result : Except Errno Unit)
  | file (result : Ret)

/-- The users of the driver, and the calls they make. -/
def users : Clients Kind (fun x => Call x.Chan) (fun _ => Ret) ioctlIface Job Outcome where
  body
    | .ioctl ioctl iterations => axivcManagerIoctl ioctl iterations >>= fun result => .ret (.ioctl result)
    | .file x call => ask (.file x call) >>= fun result => .ret (.file result)
  calls
    | .openChannel x chan size iterations => some ⟨x, .openChannel chan size iterations⟩
    | .closeChannel x chan => some ⟨x, .closeChannel chan⟩
    | .file x call => some ⟨x, call.call⟩
    | .copyFromUser _ | .copyToUser _ _ => none
  gives
    | .openChannel .., _, result, r => result = .opened r
    | .closeChannel .., _, result, r => result = .closed r
    | .file .., _, result, r => result = r
    | .copyFromUser _, _, _, _ | .copyToUser _ _, _, _, _ => False

/-- The two sides. -/
def sides (rules : (x : Kind) → Rules x.Chan) (x : Kind) :
    Machine Nat (iface x.Chan) (State x.Chan) (Call x.Chan) Ret :=
  machine x.side (rules x)

/-! ## where an ioctl is -/

/-- What an ioctl, or a call on a file, has been answered, and what is left of
it. -/
inductive Stage : List ioctlIface.Event → Prog ioctlIface Outcome → Prop where
  | invalid : Stage [] (.ret (.ioctl (.error .EINVAL)))
  | reads {x k} : Stage [] (.act (.copyFromUser x) k)
  | unread {x : Kind} : Stage [⟨.copyFromUser x, (none : Option x.Arg)⟩] (.ret (.ioctl (.error .EFAULT)))
  | opens {x : Kind} {arg : x.Arg} {iterations k} :
      Stage [⟨.copyFromUser x, some arg⟩] (.act (.openChannel x (x.channel arg) (x.size arg) iterations) k)
  | refused {x : Kind} {arg : x.Arg} {iterations} {e : Errno} :
      Stage [⟨.copyFromUser x, some arg⟩, ⟨.openChannel x (x.channel arg) (x.size arg) iterations, .error e⟩]
        (.ret (.ioctl (.error e)))
  | writes {x : Kind} {arg : x.Arg} {iterations} {name : String} {k} :
      Stage [⟨.copyFromUser x, some arg⟩, ⟨.openChannel x (x.channel arg) (x.size arg) iterations, .ok name⟩]
        (.act (.copyToUser x (x.named arg name)) k)
  | opened {x : Kind} {arg : x.Arg} {iterations} {name : String} :
      Stage [⟨.copyFromUser x, some arg⟩, ⟨.openChannel x (x.channel arg) (x.size arg) iterations, .ok name⟩,
        ⟨.copyToUser x (x.named arg name), false⟩] (.ret (.ioctl (.ok ())))
  | rollsBack {x : Kind} {arg : x.Arg} {iterations} {name : String} {k} :
      Stage [⟨.copyFromUser x, some arg⟩, ⟨.openChannel x (x.channel arg) (x.size arg) iterations, .ok name⟩,
        ⟨.copyToUser x (x.named arg name), true⟩] (.act (.closeChannel x (x.channel arg)) k)
  | rolledBack {x : Kind} {arg : x.Arg} {iterations} {name : String} {r : Except Errno Unit} :
      Stage [⟨.copyFromUser x, some arg⟩, ⟨.openChannel x (x.channel arg) (x.size arg) iterations, .ok name⟩,
        ⟨.copyToUser x (x.named arg name), true⟩, ⟨.closeChannel x (x.channel arg), r⟩]
        (.ret (.ioctl (.error .EFAULT)))
  | closes {x : Kind} {arg : x.Arg} {k} : Stage [⟨.copyFromUser x, some arg⟩] (.act (.closeChannel x (x.channel arg)) k)
  | closed {x : Kind} {arg : x.Arg} {r : Except Errno Unit} :
      Stage [⟨.copyFromUser x, some arg⟩, ⟨.closeChannel x (x.channel arg), r⟩] (.ret (.ioctl r))
  | works {x call k} : Stage [] (.act (.file x call) k)
  | worked {x call} {r : Ret} : Stage [⟨.file x call, r⟩] (.ret (.file r))

theorem stage_of_openIoctl {x : Kind} {iterations : Nat} {done : List ioctlIface.Event} {q : Prog ioctlIface Outcome}
    (h : (openIoctl x iterations >>= fun result => .ret (.ioctl result)).Leads done q) : Stage done q := by
  cases h with
  | refl => exact .reads
  | @act _ _ copied _ _ h =>
      cases copied with
      | none =>
          cases h
          exact .unread
      | some arg =>
          cases h with
          | refl => exact .opens
          | @act _ _ result _ _ h =>
              cases result with
              | error e =>
                  cases h
                  exact .refused
              | ok name =>
                  cases h with
                  | refl => exact .writes
                  | @act _ _ fault _ _ h =>
                      cases fault with
                      | false =>
                          cases h
                          exact .opened
                      | true =>
                          change Leads (I := ioctlIface) (.act (.closeChannel x (x.channel (x.named arg name))) _) _ _ at h
                          rw [Kind.channel_named] at h
                          cases h with
                          | refl => exact .rollsBack
                          | act h =>
                              cases h
                              exact .rolledBack

theorem stage_of_closeIoctl {x : Kind} {done : List ioctlIface.Event} {q : Prog ioctlIface Outcome}
    (h : (closeIoctl x >>= fun result => .ret (.ioctl result)).Leads done q) : Stage done q := by
  cases h with
  | refl => exact .reads
  | @act _ _ copied _ _ h =>
      cases copied with
      | none =>
          cases h
          exact .unread
      | some arg =>
          cases h with
          | refl => exact .closes
          | act h =>
              cases h
              exact .closed

/-- What the text says. -/
theorem stage_of_leads {job : Job} {done : List ioctlIface.Event} {q : Prog ioctlIface Outcome}
    (h : (users.body job).Leads done q) : Stage done q := by
  cases job with
  | ioctl ioctl iterations =>
      change (axivcManagerIoctl ioctl iterations >>= _).Leads done q at h
      rw [axivcManagerIoctl] at h
      split at h
      · exact stage_of_openIoctl h
      split at h
      · exact stage_of_closeIoctl h
      split at h
      · exact stage_of_openIoctl h
      split at h
      · exact stage_of_closeIoctl h
      · cases h
        exact .invalid
  | file x call =>
      cases h with
      | refl => exact .works
      | act h =>
          cases h
          exact .worked

/-! ## what the calls do -/

section Texts

variable {Chan : Type}

/-- The steps of a call: it opens and closes the channel it is about, one that
opens a channel closes none, one that closes a channel lists no record. -/
def Call.issues (o : Op Chan) : Call Chan → Prop
  | .openChannel chan _ _ =>
      match o with
      | .hvcOpen chan' _ => chan' = chan
      | .beginRemoval _ => False
      | _ => True
  | .closeChannel chan =>
      match o with
      | .beginRemoval chan' => chan' = chan
      | .hvcOpen _ _ | .listAddTail _ => False
      | _ => True
  | _ =>
      match o with
      | .hvcOpen _ _ | .listAddTail _ | .beginRemoval _ | .kfree _ => False
      | _ => True

theorem each_quiet {call : Call Chan} {α : Type} {p : Prog (iface Chan) α} (h : p.Each Quiet) :
    p.Each fun o => call.issues o := by
  induction p with
  | ret a => trivial
  | act o k ih =>
      refine ⟨?_, fun r => ih r (h.2 r)⟩
      have ho := h.1
      cases call <;> cases o <;> first | exact ho.elim | trivial
  | spin => trivial

/-- What a call to open a channel has done when it returns: it has listed a
record if it succeeds, and none if it fails. -/
def Lists (tr : List (iface Chan).Event) : Except Errno String → Prop
  | .ok _ => ∃ v, ⟨.listAddTail v, ()⟩ ∈ tr
  | .error _ => ∀ v, ⟨.listAddTail v, ()⟩ ∉ tr

/-- What a call to close a channel has done when it succeeds. -/
def Takes (chan : Chan) (tr : List (iface Chan).Event) : Except Errno Unit → Prop
  | .ok _ => ∃ w, ⟨.beginRemoval chan, .taken w⟩ ∈ tr ∧ ⟨.kfree w, ()⟩ ∈ tr
  | .error _ => True

theorem yields_closeChannel (chan : Chan) : (closeChannel chan).Yields (Takes chan) := by
  intro found
  cases found with
  | missing => trivial
  | busy => trivial
  | taken w =>
      intro verdict
      change Yields (I := iface Chan) (ite (hvcFailed verdict = true) _ _) _
      split
      · exact fun _ => trivial
      · intro _ _ m _ _
        exact ⟨w, by simp, by simp⟩

/-- Other steps do not matter. -/
theorem Lists.cons {o : Op Chan} (ho : ∀ v, o ≠ .listAddTail v) {r : (iface Chan).Res o} {tr : List (iface Chan).Event}
    {result : Except Errno String} (h : Lists tr result) : Lists (⟨o, r⟩ :: tr) result := by
  cases result with
  | ok name =>
      obtain ⟨v, hv⟩ := h
      exact ⟨v, List.mem_cons_of_mem _ hv⟩
  | error e =>
      intro v hv
      obtain heq | hv := List.mem_cons.mp hv
      · cases heq
        exact ho v rfl
      · exact h v hv

theorem yields_act {o : Op Chan} {k : (iface Chan).Res o → Prog (iface Chan) (Except Errno String)}
    (ho : ∀ v, o ≠ .listAddTail v) (h : ∀ r, (k r).Yields Lists) : Yields (I := iface Chan) (.act o k) Lists :=
  fun r => (h r).mono fun _ _ hlists => hlists.cons ho

theorem yields_quiet {p : Prog (iface Chan) (Except Errno Unit)} {f : Except Errno Unit → Prog (iface Chan) (Except Errno String)}
    (hp : p.Each Quiet) (hf : ∀ a, (f a).Yields Lists) : (p >>= f).Yields Lists := by
  induction p with
  | ret a => exact hf a
  | act o k ih =>
      refine yields_act (fun v hv => ?_) fun r => ih r (hp.2 r)
      have hquiet := hp.1
      rw [hv] at hquiet
      exact hquiet
  | spin => trivial

theorem yields_error (e : Errno) : Yields (I := iface Chan) (.ret (.error e)) Lists := by
  intro v hv
  cases hv

theorem yields_unmapRegion (m : Nat) (chan : Chan) (e : Errno) : (unmapRegion m chan e).Yields Lists :=
  yields_act (by simp) fun _ => yields_act (by simp) fun _ => yields_error e

theorem yields_createVdev (side : Side Chan) (chan : Chan) (m : Nat) (shmBase shmSize : UInt64) :
    (createVdev side chan m shmBase shmSize).Yields Lists := by
  refine yields_act (by simp) fun vdev => ?_
  cases vdev with
  | none => exact yields_unmapRegion m chan .ENOMEM
  | some v =>
      refine yields_act (by simp) fun id => ?_
      cases id with
      | none => exact yields_act (by simp) fun _ => yields_unmapRegion m chan .ENOSPC
      | some id =>
          iterate 7 refine yields_act (by simp) fun _ => ?_
          refine yields_act (by simp) fun result => ?_
          cases result with
          | error e => exact yields_act (by simp) fun _ => yields_act (by simp) fun _ => yields_unmapRegion m chan e
          | ok x => exact fun _ _ => ⟨v, List.mem_cons_self⟩

theorem yields_openChannel (side : Side Chan) (chan : Chan) (size : UInt64) (iterations : Nat) :
    (openChannel side chan size iterations).Yields Lists := by
  have hfails (e : Errno) : Yields (I := iface Chan) (.act .kfreeOutput fun _ => .ret (.error e)) Lists :=
    yields_act (by simp) fun _ => yields_error e
  refine yields_act (by simp) fun allocated => ?_
  cases allocated with
  | false => exact yields_error .ENOMEM
  | true =>
      refine yields_act (by simp) fun shmBasePtr => yields_act (by simp) fun shmSizePtr => ?_
      change Yields (I := iface Chan) (ite (shmBasePtr = ~~~0 ∨ shmSizePtr = ~~~0) _ _) _
      split
      · exact hfails .EFAULT
      · refine yields_act (by simp) fun verdict => ?_
        change Yields (I := iface Chan) (ite (hvcFailed verdict = true) _ _) _
        split
        · exact hfails Errno.EIO
        · refine yields_act (by simp) fun output => yields_act (by simp) fun _ => yields_act (by simp) fun mapping => ?_
          cases mapping with
          | none => exact yields_act (by simp) fun _ => yields_error .ENOMEM
          | some m =>
              refine yields_quiet (side.quiet chan m output.2 iterations) fun prepared => ?_
              cases prepared with
              | error e => exact yields_unmapRegion m chan e
              | ok x => exact yields_createVdev side chan m output.1 output.2

theorem each_unmapRegion (m : Nat) (chan : Chan) (e : Errno) (size : UInt64) (iterations : Nat) :
    (unmapRegion m chan e).Each fun o => (Call.openChannel chan size iterations).issues o :=
  ⟨trivial, fun _ => ⟨trivial, fun _ => trivial⟩⟩

theorem each_createVdev (side : Side Chan) (chan : Chan) (m : Nat) (shmBase shmSize size : UInt64) (iterations : Nat) :
    (createVdev side chan m shmBase shmSize).Each fun o => (Call.openChannel chan size iterations).issues o := by
  have hunmap (e : Errno) := each_unmapRegion m chan e size iterations
  refine ⟨trivial, fun vdev => ?_⟩
  cases vdev with
  | none => exact hunmap .ENOMEM
  | some v =>
      refine ⟨trivial, fun id => ?_⟩
      cases id with
      | none => exact ⟨trivial, fun _ => hunmap .ENOSPC⟩
      | some id =>
          iterate 7 refine ⟨trivial, fun _ => ?_⟩
          refine ⟨trivial, fun result => ?_⟩
          cases result with
          | error e => exact ⟨trivial, fun _ => ⟨trivial, fun _ => hunmap e⟩⟩
          | ok x => exact ⟨trivial, fun _ => ⟨trivial, fun _ => trivial⟩⟩

theorem each_openChannel (side : Side Chan) (chan : Chan) (size : UInt64) (iterations : Nat) :
    (openChannel side chan size iterations).Each fun o => (Call.openChannel chan size iterations).issues o := by
  refine ⟨trivial, fun allocated => ?_⟩
  cases allocated with
  | false => trivial
  | true =>
      refine ⟨trivial, fun shmBasePtr => ⟨trivial, fun shmSizePtr => ?_⟩⟩
      change Each (I := iface Chan) _ (ite (shmBasePtr = ~~~0 ∨ shmSizePtr = ~~~0) _ _)
      split
      · exact ⟨trivial, fun _ => trivial⟩
      · refine ⟨rfl, fun verdict => ?_⟩
        change Each (I := iface Chan) _ (ite (hvcFailed verdict = true) _ _)
        split
        · exact ⟨trivial, fun _ => trivial⟩
        · refine ⟨trivial, fun output => ⟨trivial, fun _ => ⟨trivial, fun mapping => ?_⟩⟩⟩
          cases mapping with
          | none => exact ⟨trivial, fun _ => trivial⟩
          | some m =>
              refine (each_quiet (side.quiet chan m output.2 iterations)).bind fun prepared => ?_
              cases prepared with
              | error e => exact each_unmapRegion m chan e size iterations
              | ok x => exact each_createVdev side chan m output.1 output.2 size iterations

theorem each_closeChannel (chan : Chan) :
    (closeChannel chan).Each fun o => (Call.closeChannel chan).issues o := by
  refine ⟨rfl, fun found => ?_⟩
  cases found with
  | missing | busy => trivial
  | taken w =>
      refine ⟨trivial, fun verdict => ?_⟩
      change Each (I := iface Chan) _ (ite (hvcFailed verdict = true) _ _)
      split
      · exact ⟨trivial, fun _ => trivial⟩
      · exact ⟨trivial, fun _ => ⟨trivial, fun _ => ⟨trivial, fun _ => ⟨trivial, fun _ => ⟨trivial, fun _ => trivial⟩⟩⟩⟩⟩

theorem each_useEndpoint (call : Call Chan) (v n : Nat) (hcall : call.issues (.useEndpoint v)) :
    (useEndpoint v n).Each fun o => call.issues o := by
  induction n with
  | zero => trivial
  | succ n ih => exact ⟨hcall, fun _ => ih⟩

/-- A call issues the steps of its kind. -/
theorem each_body (side : Side Chan) (call : Call Chan) : (body side call).Each fun o => call.issues o := by
  cases call with
  | openChannel chan size iterations => exact (each_openChannel side chan size iterations).bind fun _ => trivial
  | closeChannel chan => exact (each_closeChannel chan).bind fun _ => trivial
  | openFile f v => exact ⟨trivial, fun _ => trivial⟩
  | fileIo f v n =>
      refine ⟨trivial, fun active => ?_⟩
      cases active with
      | false => trivial
      | true =>
          have huse := each_useEndpoint (.fileIo f v n : Call Chan) v n trivial
          refine Each.bind (p := useEndpoint v n >>= fun _ => pure (Except.ok ())) ?_ fun _ => trivial
          exact huse.bind fun _ => trivial
  | releaseFile f v => exact ⟨trivial, fun _ => trivial⟩

/-- A call to open a channel, with its result. -/
theorem yields_body_openChannel (side : Side Chan) (chan : Chan) (size : UInt64) (iterations : Nat) :
    (body side (.openChannel chan size iterations)).Yields fun tr a => ∃ r, a = .opened r ∧ Lists tr r := by
  refine Yields.bind ((yields_openChannel side chan size iterations).mono fun tr r h => ?_)
  exact ⟨r, rfl, by simpa using h⟩

/-- A call to close a channel, with its result. -/
theorem yields_body_closeChannel (side : Side Chan) (chan : Chan) :
    (body side (.closeChannel chan)).Yields fun tr a => ∃ r, a = .closed r ∧ Takes chan tr r := by
  refine Yields.bind ((yields_closeChannel chan).mono fun tr r h => ?_)
  exact ⟨r, rfl, by simpa using h⟩

end Texts

/-! ## what the ioctls leave behind -/

/-- The driver and its users. -/
abbrev Users : Type :=
  Clients.World Nat (fun x : Kind => iface x.Chan) (fun x => State x.Chan) (fun _ => Ret) ioctlIface Job Outcome

/-- A user at work. -/
abbrev User : Type := Clients.Client (fun x : Kind => iface x.Chan) ioctlIface Job Outcome

namespace User

/-- It has put record `v` on the list. -/
def lists (t : User) (x : Kind) (v : Nat) : Prop := ⟨x, .listAddTail v, ()⟩ ∈ t.log

/-- It has marked record `w`, to take it down. -/
def takes (t : User) (x : Kind) (chan : x.Chan) (w : Nat) : Prop := ⟨x, .beginRemoval chan, .taken w⟩ ∈ t.log

/-- It has freed record `w`. -/
def frees (t : User) (x : Kind) (w : Nat) : Prop := ⟨x, .kfree w, ()⟩ ∈ t.log

/-- It has copied in an argument. -/
def read (t : User) (x : Kind) (arg : x.Arg) : Prop := ⟨.copyFromUser x, some arg⟩ ∈ t.done

end User

/-- What has become of the records a user has had to do with, and the channel
it holds. -/
structure Traced {x : Kind} (s : State x.Chan) (i : Nat) (t : User) : Prop where
  held : ∀ chan, (s.held i).channel = some chan → ∃ arg, t.read x arg ∧ x.channel arg = chan
  listed : ∀ v, t.lists x v → ∃ arg, t.read x arg ∧
    ((s.heap v).key = some (x.channel arg) ∨ (s.heap v).isWithdrawn = true)
  taken : ∀ v w chan, t.lists x v → t.takes x chan w → w = v ∨ (s.heap v).isWithdrawn = true
  freed : ∀ w, t.frees x w → (s.heap w).isWithdrawn = true

/-- A step of somebody else, or one that is not of the side. -/
theorem Traced.mono {x : Kind} {s s' : State x.Chan} {i : Nat} {t t' : User} (h : Traced s i t)
    (hheld : ∀ chan, (s'.held i).channel = some chan → (s.held i).channel = some chan)
    (hheap : ∀ v, (s.heap v).Follows (s'.heap v)) (hdone : t.done ⊆ t'.done)
    (hlog : ∀ e : (iface x.Chan).Event, ⟨x, e⟩ ∈ t'.log → ⟨x, e⟩ ∈ t.log) : Traced s' i t' where
  held chan hchan := by
    obtain ⟨arg, harg, heq⟩ := h.held chan (hheld chan hchan)
    exact ⟨arg, hdone harg, heq⟩
  listed v hv := by
    obtain ⟨arg, harg, hkey | hwithdrawn⟩ := h.listed v (hlog _ hv)
    · exact ⟨arg, hdone harg, (hheap v).key _ hkey⟩
    · exact ⟨arg, hdone harg, .inr ((hheap v).withdrawn hwithdrawn)⟩
  taken v w chan hv hw := (h.taken v w chan (hlog _ hv) (hlog _ hw)).imp_right (hheap v).withdrawn
  freed w hw := (hheap w).withdrawn (h.freed w (hlog _ hw))

/-- The call that runs for a user is about the channel of its argument. -/
theorem stage_calls {done : List ioctlIface.Event} {o : IoctlOp} {k : ioctlIface.Res o → Prog ioctlIface Outcome} {x : Kind}
    {call : Call x.Chan} (h : Stage done (.act o k)) (hcalls : users.calls o = some ⟨x, call⟩) :
    (∃ arg iterations, done = [⟨.copyFromUser x, some arg⟩] ∧ call = .openChannel (x.channel arg) (x.size arg) iterations) ∨
    (∃ arg, call = .closeChannel (x.channel arg) ∧
      ∀ arg' : x.Arg, (⟨.copyFromUser x, some arg'⟩ : ioctlIface.Event) ∈ done → arg' = arg) ∨
    ∃ file : FileCall, call = file.call := by
  cases h with
  | reads => cases hcalls
  | writes => cases hcalls
  | opens =>
      cases hcalls
      exact .inl ⟨_, _, rfl, rfl⟩
  | rollsBack =>
      cases hcalls
      refine .inr (.inl ⟨_, rfl, fun arg' harg => ?_⟩)
      simpa using harg
  | closes =>
      cases hcalls
      refine .inr (.inl ⟨_, rfl, fun arg' harg => ?_⟩)
      simpa using harg
  | works =>
      cases hcalls
      exact .inr (.inr ⟨_, rfl⟩)

/-- The beginning of a call gives it no channel. -/
theorem begins_channel {Chan : Type} {i j : Nat} {s t : State Chan} {call : Call Chan} (h : Begins i s t call) {chan : Chan}
    (hj : (t.held j).channel = some chan) : (s.held j).channel = some chan := by
  have hnothing (ht : t = s.onHeld i fun _ => .nothing) : (s.held j).channel = some chan := by
    by_cases hji : j = i
    · rw [ht, hji, onHeld_self] at hj
      cases hj
    · rwa [ht, onHeld_of_ne s _ hji] at hj
  cases call with
  | openChannel chan size iterations => exact hnothing h
  | closeChannel chan => exact hnothing h
  | openFile f v =>
      obtain ⟨-, -, rfl⟩ := h
      exact hj
  | fileIo f v n =>
      obtain ⟨io, -, rfl⟩ := h
      exact hj
  | releaseFile f v =>
      obtain ⟨-, rfl⟩ := h
      exact hj

theorem ends_held {Chan : Type} (i : Nat) (s : State Chan) (r : Ret) : (ends i s r).held = s.held := by
  cases r with
  | opened | closed | fileReleased => rfl
  | fileOpened f v result => cases result <;> rfl
  | fileDone f v result =>
      rw [ends]
      split <;> rfl

section Runs

variable {rules : (x : Kind) → Rules x.Chan} {c c' : Users} {i : Nat} {t : User}

/-- One step of a call of user `i`, seen from the side it works on. -/
theorem Traced.act (ho : users.Orderly (sides rules) (fun _ => .init) c) (hon : ∀ x, (rules x).Honest) (hi : c.client i = some t) {x : Kind}
    (h : Traced (c.below x).shared i t) {o : Op x.Chan} {k : (iface x.Chan).Res o → Prog (iface x.Chan) Ret}
    (hp : (c.below x).thread i = some (.act o k)) {r : (iface x.Chan).Res o} {s' : State x.Chan}
    (hexec : (sides rules x).exec i o (c.below x).shared r s') :
    Traced s' i ⟨t.job, t.rest, t.done, t.log ++ [⟨x, o, r⟩]⟩ := by
  have hc : (outline x.side (rules x)).Good (c.below x) := good_of_reachable (ho.reachable x)
  have hfollows := act_follows hc (hon x) hp hexec
  -- the call, and where its user is
  obtain ⟨t', ht', ⟨o', k', call, s₁, before, tr, hrest, hcalls, hlead, hlogged, hlog⟩⟩ := ho.calling i x _ hp
  cases hi.symm.trans ht'
  have hstage := stage_of_leads (ho.rest i t hi)
  rw [hrest] at hstage
  obtain ⟨hrestIssues, htrIssues⟩ := hlead.each (each_body x.side call)
  have hissues : call.issues o := hrestIssues.1
  have hcase := stage_calls hstage hcalls
  refine ⟨fun chan hchan => ?_, fun v hv => ?_, fun v w chan hv hw => ?_, fun w hw => ?_⟩
  · -- a channel that it holds it has held before, or has opened now
    obtain hold | ⟨size, rfl⟩ := after_channel (by rw [← hexec.2]; exact hchan)
    · exact h.held chan hold
    · obtain ⟨arg, iterations, hdone, rfl⟩ | ⟨arg, rfl, -⟩ | ⟨file, rfl⟩ := hcase
      · refine ⟨arg, ?_, hissues.symm⟩
        simp [User.read, hdone]
      · exact hissues.elim
      · cases file <;> exact hissues.elim
  · obtain hv | hv := List.mem_append.mp hv
    · obtain ⟨arg, harg, hkey | hwithdrawn⟩ := h.listed v hv
      · exact ⟨arg, harg, (hfollows v).key _ hkey⟩
      · exact ⟨arg, harg, .inr ((hfollows v).withdrawn hwithdrawn)⟩
    · cases List.mem_singleton.mp hv
      obtain ⟨chan, hchan, hkey⟩ := key_of_listAddTail hc (hon x) hp hexec
      obtain ⟨arg, harg, rfl⟩ := h.held chan hchan
      exact ⟨arg, harg, .inl hkey⟩
  · obtain hold | hnew := List.mem_append.mp hv <;> obtain hold' | hnew' := List.mem_append.mp hw
    · exact (h.taken v w chan hold hold').imp_right (hfollows v).withdrawn
    · -- it takes down a record now, and has listed one before
      cases List.mem_singleton.mp hnew'
      obtain ⟨arg, harg, hkey | hwithdrawn⟩ := h.listed v hold
      · obtain ⟨arg', iterations, -, rfl⟩ | ⟨arg', rfl, huniq⟩ | ⟨file, rfl⟩ := hcase
        · exact hissues.elim
        · have hchan : chan = x.channel arg := by rw [hissues, huniq arg harg]
          exact .inl (eq_of_walk hc.1 (hon x) (hchan ▸ hexec.1.symm) hkey)
        · cases file <;> exact hissues.elim
      · exact .inr ((hfollows v).withdrawn hwithdrawn)
    · -- it lists a record now, and has not taken one down
      cases List.mem_singleton.mp hnew
      obtain ⟨arg', iterations, hdone, rfl⟩ | ⟨arg', rfl, -⟩ | ⟨file, rfl⟩ := hcase
      · have hbefore : before = [] := by
          rw [hdone] at hlogged
          exact hlogged
        have hmem : (⟨.beginRemoval chan, .taken w⟩ : (iface x.Chan).Event) ∈ tr := by
          have hin : (⟨x, .beginRemoval chan, .taken w⟩ : Σ x : Kind, (iface x.Chan).Event) ∈ t.log := hold'
          rw [hlog, hbefore, List.nil_append, List.mem_map] at hin
          obtain ⟨e, he, heq⟩ := hin
          cases heq
          exact he
        exact (htrIssues _ hmem).elim
      · exact hissues.elim
      · cases file <;> exact hissues.elim
    · cases List.mem_singleton.mp hnew
      cases List.mem_singleton.mp hnew'
  · obtain hw | hw := List.mem_append.mp hw
    · exact (hfollows w).withdrawn (h.freed w hw)
    · cases List.mem_singleton.mp hw
      obtain ⟨-, rfl⟩ := hexec
      have hself : (after i (c.below x).shared (.kfree w) ()).heap w = .freed := by
        rw [after_kfree]
        exact Function.update_self ..
      rw [hself]
      rfl

/-- Every step keeps the traces of every user. -/
theorem traced_step (ho : users.Orderly (sides rules) (fun _ => .init) c) (hon : ∀ x, (rules x).Honest)
    (h : ∀ i t, c.client i = some t → ∀ x, Traced (c.below x).shared i t) (hstep : users.Step (sides rules) c c') :
    ∀ i t, c'.client i = some t → ∀ x, Traced (c'.below x).shared i t := by
  have hgood (x : Kind) : (outline x.side (rules x)).Good (c.below x) := good_of_reachable (ho.reachable x)
  cases hstep with
  | env x he => exact he.elim
  | begin i job hi =>
      intro j t ht x
      by_cases hj : j = i
      · subst hj
        simp only [Function.update_self, Option.some.injEq] at ht
        subst ht
        have hidle := ((hgood x).2 j).1 (ho.idle_of_none hi x)
        refine ⟨fun chan hchan => ?_, fun v hv => ?_, fun v w chan hv => ?_, fun w hw => ?_⟩
        · rw [hidle.channel] at hchan
          cases hchan
        · cases hv
        · cases hv
        · cases hw
      · simp only [Function.update_of_ne hj] at ht
        exact h j t ht x
  | @own i t o k r hi hrest hcalls =>
      intro j t' ht' x
      by_cases hj : j = i
      · subst hj
        simp only [Function.update_self, Option.some.injEq] at ht'
        subst ht'
        exact (h j t hi x).mono (fun _ hchan => hchan) (fun _ => .refl _) (List.subset_append_left ..) fun _ he => he
      · simp only [Function.update_of_ne hj] at ht'
        exact h j t' ht' x
  | finish i hi hrest =>
      intro j t ht x
      by_cases hj : j = i
      · subst hj
        simp only [Function.update_self] at ht
        cases ht
      · simp only [Function.update_of_ne hj] at ht
        exact h j t ht x
  | @call i t o k x call s' hi hrest hcalls hidle hstart =>
      intro j t' ht' y
      obtain rfl | hy := eq_or_ne y x
      · simp only [Function.update_self]
        refine (h j t' ht' y).mono (fun _ hchan => begins_channel hstart hchan) (fun v => ?_) (List.Subset.refl _) fun _ he => he
        rw [begins_heap hstart]
        exact .refl _
      · simp only [Function.update_of_ne hy]
        exact h j t' ht' y
  | @act i x t o k r s' hi hp hexec =>
      intro j t' ht' y
      obtain ⟨-, hk⟩ := ((hgood x).2 i).2 _ hp _ (Kept.refl i _) (hgood x).1
      obtain ⟨-, hmoves, -⟩ := hk r s' hexec
      by_cases hj : j = i
      · subst hj
        simp only [Function.update_self, Option.some.injEq] at ht'
        subst ht'
        obtain rfl | hy := eq_or_ne y x
        · simp only [Function.update_self]
          exact (h j t hi y).act ho hon hi hp hexec
        · simp only [Function.update_of_ne hy]
          refine (h j t hi y).mono (fun _ hchan => hchan) (fun _ => .refl _) (List.Subset.refl _) fun e he => ?_
          obtain he | he := List.mem_append.mp he
          · exact he
          · cases List.mem_singleton.mp he
            exact absurd rfl hy
      · simp only [Function.update_of_ne hj] at ht'
        obtain rfl | hy := eq_or_ne y x
        · simp only [Function.update_self]
          have hkept := hmoves.kept j hj
          refine (h j t' ht' y).mono (fun _ hchan => ?_) (act_follows (hgood y) (hon y) hp hexec) (List.Subset.refl _)
            fun _ he => he
          rwa [hkept.held] at hchan
        · simp only [Function.update_of_ne hy]
          exact h j t' ht' y
  | @answer i t o k x call a r s' hi hrest hcalls hret hfinish hgives =>
      intro j t' ht' y
      cases hfinish
      have hkeep (h : Traced (c.below y).shared j t') : Traced (Function.update c.below x
          ⟨ends i (c.below x).shared a, Function.update (c.below x).thread i none⟩ y).shared j t' := by
        obtain rfl | hy := eq_or_ne y x
        · simp only [Function.update_self]
          refine h.mono (fun _ hchan => ?_) (fun v => ?_) (List.Subset.refl _) fun _ he => he
          · rwa [ends_held] at hchan
          · rw [ends_heap]
            exact .refl _
        · simp only [Function.update_of_ne hy]
          exact h
      refine hkeep ?_
      by_cases hj : j = i
      · subst hj
        simp only [Function.update_self, Option.some.injEq] at ht'
        subst ht'
        exact (h j t hi y).mono (fun _ hchan => hchan) (fun _ => .refl _) (List.subset_append_left ..) fun _ he => he
      · simp only [Function.update_of_ne hj] at ht'
        exact h j t' ht' y

/-- **The traces of the users** in every run. -/
theorem traced_of_reachable (hon : ∀ x, (rules x).Honest) (h : users.Reachable (sides rules) (fun _ => .init) c) :
    ∀ i t, c.client i = some t → ∀ x, Traced (c.below x).shared i t := by
  induction h with
  | refl =>
      intro i t ht
      cases ht
  | tail hrun hstep ih => exact traced_step (Clients.orderly hrun) hon ih hstep

/-- What a finished call to open a channel has left in the log. -/
theorem logged_openChannel {x : Kind} {chan : x.Chan} {size : UInt64} {iterations : Nat} {r : Except Errno String}
    {done : List ioctlIface.Event} {log : List (Σ x : Kind, (iface x.Chan).Event)}
    (h : users.Logged (sides rules) i (⟨.openChannel x chan size iterations, r⟩ :: done) log) :
    ∃ tr log', Lists tr r ∧ users.Logged (sides rules) i done log' ∧ log = tr.map (Sigma.mk x) ++ log' := by
  obtain ⟨s, a, tr, log', hlead, hgives, hlogged, hlog⟩ := h
  obtain ⟨r', hr', hlists⟩ := hlead.yields (yields_body_openChannel x.side chan size iterations)
  cases hgives.symm.trans hr'
  exact ⟨tr, log', hlists, hlogged, hlog⟩

/-- What a finished call to close a channel has left in the log. -/
theorem logged_closeChannel {x : Kind} {chan : x.Chan} {r : Except Errno Unit} {done : List ioctlIface.Event}
    {log : List (Σ x : Kind, (iface x.Chan).Event)}
    (h : users.Logged (sides rules) i (⟨.closeChannel x chan, r⟩ :: done) log) :
    ∃ tr log', Takes chan tr r ∧ (∀ v, ⟨.listAddTail v, ()⟩ ∉ tr) ∧ users.Logged (sides rules) i done log' ∧
      log = tr.map (Sigma.mk x) ++ log' := by
  obtain ⟨s, a, tr, log', hlead, hgives, hlogged, hlog⟩ := h
  obtain ⟨r', hr', htakes⟩ := hlead.yields (yields_body_closeChannel x.side chan)
  cases hgives.symm.trans hr'
  refine ⟨tr, log', htakes, fun v hv => ?_, hlogged, hlog⟩
  exact (hlead.each (each_body x.side (.closeChannel chan))).2 _ hv

/-- An event of a side in what a call has done. -/
theorem mem_map_mk {x y : Kind} {e : (iface y.Chan).Event} {tr : List (iface x.Chan).Event}
    (h : (⟨y, e⟩ : Σ x : Kind, (iface x.Chan).Event) ∈ tr.map (Sigma.mk x)) : ∃ hy : y = x, hy ▸ e ∈ tr := by
  obtain ⟨e', he', heq⟩ := List.mem_map.mp h
  cases heq
  exact ⟨rfl, he'⟩

end Runs

/-- The accounts of a user. -/
structure Accounts (c : Users) (i : Nat) (t : User) : Prop where
  /-- out of a call, it holds nothing -/
  clean : ∀ x, (c.below x).thread i = none → Clean i (c.below x).shared
  /-- an ioctl that lists a record and takes one down takes down its own, unless
  the channel of its own has been withdrawn by another -/
  own : ∀ x v w chan, t.lists x v → t.takes x chan w → w = v ∨ ((c.below x).shared.heap v).isWithdrawn = true
  /-- an ioctl that fails has listed no record, but one whose name it could not
  copy out; the channel of that one is withdrawn, unless the driver has refused
  to close it -/
  failed : ∀ e x v, t.rest = .ret (.ioctl (.error e)) → t.lists x v → e = .EFAULT ∧
    ∃ arg name r, ⟨.copyToUser x (x.named arg name), true⟩ ∈ t.done ∧ ⟨.closeChannel x (x.channel arg), r⟩ ∈ t.done ∧
      ((∃ e', r = .error e') ∨ ((c.below x).shared.heap v).isWithdrawn = true)
  /-- an ioctl that succeeds has listed a record and copied its name out, or has
  taken one down -/
  succeeded : t.rest = .ret (.ioctl (.ok ())) → ∃ x arg, t.read x arg ∧
    ((∃ v name size iterations, t.lists x v ∧ ⟨.openChannel x (x.channel arg) size iterations, .ok name⟩ ∈ t.done ∧
        ⟨.copyToUser x (x.named arg name), false⟩ ∈ t.done) ∨
      ∃ w, t.takes x (x.channel arg) w ∧ ((c.below x).shared.heap w).isWithdrawn = true)

section Accounts

variable {rules : (x : Kind) → Rules x.Chan} {c : Users} {i : Nat} {t : User}

/-- An ioctl that fails. -/
theorem failed_of_traced (hstage : Stage t.done t.rest) (hlogged : users.Logged (sides rules) i t.done t.log)
    (htraced : ∀ x, Traced (c.below x).shared i t) {e : Errno} {x : Kind} {v : Nat}
    (hrest : t.rest = .ret (.ioctl (.error e))) (hv : t.lists x v) :
    e = .EFAULT ∧ ∃ arg name r, ⟨.copyToUser x (x.named arg name), true⟩ ∈ t.done ∧
      ⟨.closeChannel x (x.channel arg), r⟩ ∈ t.done ∧
      ((∃ e', r = .error e') ∨ ((c.below x).shared.heap v).isWithdrawn = true) := by
  obtain ⟨job, rest, done, log⟩ := t
  cases hrest
  cases hstage with
  | invalid =>
      cases hlogged
      cases hv
  | unread =>
      cases hlogged
      cases hv
  | refused =>
      obtain ⟨tr, log', hlists, hrest, rfl⟩ := logged_openChannel hlogged
      cases hrest
      rw [List.append_nil] at hv
      obtain ⟨rfl, hv⟩ := mem_map_mk hv
      exact absurd hv (hlists v)
  | @rolledBack y arg iterations name r =>
      obtain ⟨tr, log', -, hrest, rfl⟩ := logged_openChannel hlogged
      obtain ⟨tr', log'', htakes, hnone, hrest', rfl⟩ := logged_closeChannel hrest
      cases hrest'
      have hx : x = y := by
        obtain hv | hv := List.mem_append.mp hv
        · exact (mem_map_mk hv).1
        · rw [List.append_nil] at hv
          exact (mem_map_mk hv).1
      subst hx
      refine ⟨rfl, arg, name, r, by simp, by simp, ?_⟩
      cases r with
      | error e' => exact .inl ⟨e', rfl⟩
      | ok u =>
          obtain ⟨w, hw, hfree⟩ := htakes
          have hmem (e : (iface x.Chan).Event) (he : e ∈ tr') : (⟨x, e⟩ : Σ x : Kind, (iface x.Chan).Event) ∈
              tr.map (Sigma.mk x) ++ (tr'.map (Sigma.mk x) ++ []) := by
            rw [List.append_nil]
            exact List.mem_append_right _ (List.mem_map_of_mem he)
          obtain rfl | hwithdrawn := (htraced x).taken v w _ hv (hmem _ hw)
          · exact .inr ((htraced x).freed w (hmem _ hfree))
          · exact .inr hwithdrawn
  | @closed y arg r =>
      obtain ⟨tr, log', -, hnone, hrest, rfl⟩ := logged_closeChannel hlogged
      cases hrest
      rw [List.append_nil] at hv
      obtain ⟨rfl, hv⟩ := mem_map_mk hv
      exact absurd hv (hnone v)

/-- An ioctl that succeeds. -/
theorem succeeded_of_traced (hstage : Stage t.done t.rest) (hlogged : users.Logged (sides rules) i t.done t.log)
    (htraced : ∀ x, Traced (c.below x).shared i t) (hrest : t.rest = .ret (.ioctl (.ok ()))) :
    ∃ x arg, t.read x arg ∧
      ((∃ v name size iterations, t.lists x v ∧ ⟨.openChannel x (x.channel arg) size iterations, .ok name⟩ ∈ t.done ∧
          ⟨.copyToUser x (x.named arg name), false⟩ ∈ t.done) ∨
        ∃ w, t.takes x (x.channel arg) w ∧ ((c.below x).shared.heap w).isWithdrawn = true) := by
  obtain ⟨job, rest, done, log⟩ := t
  cases hrest
  cases hstage with
  | @opened x arg iterations name =>
      obtain ⟨tr, log', ⟨v, hv⟩, -, rfl⟩ := logged_openChannel hlogged
      refine ⟨x, arg, by simp [User.read], .inl ⟨v, name, x.size arg, iterations, ?_, by simp, by simp⟩⟩
      exact List.mem_append_left _ (List.mem_map_of_mem hv)
  | @closed x arg =>
      obtain ⟨tr, log', ⟨w, hw, hfree⟩, -, -, rfl⟩ := logged_closeChannel hlogged
      have hmem (e : (iface x.Chan).Event) (he : e ∈ tr) : (⟨x, e⟩ : Σ x : Kind, (iface x.Chan).Event) ∈
          tr.map (Sigma.mk x) ++ log' := List.mem_append_left _ (List.mem_map_of_mem he)
      exact ⟨x, arg, by simp [User.read], .inr ⟨w, hmem _ hw, (htraced x).freed w (hmem _ hfree)⟩⟩

/-- **Every ioctl accounts for what it has done**, whatever ioctls and calls on
files run beside it and whichever copies fault, when the hypervisor's failures
are legible: the registry agrees with the hypervisor; an ioctl that fails leaves
no channel open, unless its copy out has faulted and the driver has refused to
close the channel again; and the channel it closes then is its own, unless
somebody else has withdrawn that. -/
theorem ioctls_accounted {c : Users}
    (h : users.Reachable (sides fun x => (hypervisor : Rules x.Chan).legible) (fun _ => .init) c) :
    (∀ x, Agrees (c.below x)) ∧ ∀ i t, c.client i = some t → Accounts c i t := by
  have ho := Clients.orderly h
  have hgood (x : Kind) : (outline x.side (hypervisor : Rules x.Chan).legible).Good (c.below x) :=
    good_of_reachable (ho.reachable x)
  refine ⟨fun x => agrees_of_good (hgood x) honest_legible, fun i t hi => ?_⟩
  have hstage := stage_of_leads (ho.rest i t hi)
  have htraced := traced_of_reachable (fun _ => honest_legible) h i t hi
  -- a user that is about to return is in no call
  have hlogged (r : Outcome) (hrest : t.rest = .ret r) :
      users.Logged (sides fun x => (hypervisor : Rules x.Chan).legible) i t.done t.log := by
    refine ho.logged i t hi fun x => ho.idle hi fun o k call ho => ?_
    cases hrest.symm.trans ho
  refine ⟨fun x hidle => ?_, fun x v w chan => (htraced x).taken v w chan, fun e x v hrest => ?_, fun hrest => ?_⟩
  · exact (((hgood x).2 i).1 hidle).clean (hgood x).1.shape
  · exact failed_of_traced hstage (hlogged _ hrest) htraced hrest
  · exact succeeded_of_traced hstage (hlogged _ hrest) htraced hrest

theorem body_publish (iterations : Nat) :
    users.body (.ioctl publishRequest iterations) = openIoctl .publisher iterations >>= fun result => .ret (.ioctl result) := by
  change (axivcManagerIoctl publishRequest iterations >>= _) = _
  rw [axivcManagerIoctl, if_pos rfl]

theorem body_unpublish (iterations : Nat) :
    users.body (.ioctl unpublishRequest iterations) = closeIoctl .publisher >>= fun result => .ret (.ioctl result) := by
  change (axivcManagerIoctl unpublishRequest iterations >>= _) = _
  rw [axivcManagerIoctl, if_neg (by decide), if_pos rfl]

/-- Key `7` is published, unpublished and published again before the first
publisher finds that it cannot copy the name out: it closes the channel of the
second one. -/
theorem ioctls_accounted_reopened : ∃ (c : Users) (t : User), c.client 0 = some t ∧ t.lists .publisher 0 ∧
    t.takes .publisher 7 1 ∧ ((c.below .publisher).shared.heap 0).isWithdrawn = true := by
  have hfits (v : Nat) : (⟨1, 0, v, v⟩ : Course).Fits (hypervisor : Rules UInt64).legible :=
    { opens := fun K chan => by
        by_cases hmem : chan ∈ K
        · rw [if_pos hmem]
          exact ⟨fun hzero => by simp at hzero, by simp [Legible]⟩
        · rw [if_neg hmem]
          exact ⟨fun _ => hmem, by simp [Legible]⟩
      closes := fun _ _ => ⟨trivial, by simp [Legible]⟩
      rollsBack := fun _ _ => rfl }
  have hexec (i v : Nat) (o : Op UInt64) (s : State UInt64) (ho : o.isFree = true) :
      (sides (fun x => (hypervisor : Rules x.Chan).legible) .publisher).exec i o s
        ((⟨1, 0, v, v⟩ : Course).perform i o s).1 ((⟨1, 0, v, v⟩ : Course).perform i o s).2 :=
    Course.exec_perform publisherSide (hfits v) i o s ho
  have hinit := Clients.Comes.init (C := users) (M := sides fun x => (hypervisor : Rules x.Chan).legible)
    (fun _ => .init) .publisher
  -- user 0 publishes key 7
  have hbegun := hinit.begin 0 (.ioctl publishRequest 0) rfl
  rw [body_publish] at hbegun
  have hread := hbegun.own (i := 0) (some (⟨7, 4096, ""⟩ : PublishArg)) rfl rfl rfl
  have hcalled := hread.call (i := 0) rfl rfl rfl rfl rfl
  have hpublished := Clients.Comes.advance (hexec 0 0) 20 hcalled rfl
  have hopened := hpublished.answer (i := 0) _ rfl rfl rfl rfl rfl rfl
  -- user 1 unpublishes it
  have hbegun := hopened.begin 1 (.ioctl unpublishRequest 0) rfl
  rw [body_unpublish] at hbegun
  have hread := hbegun.own (i := 1) (some (⟨7, 0, ""⟩ : PublishArg)) rfl rfl rfl
  have hcalled := hread.call (i := 1) rfl rfl rfl rfl rfl
  have hwithdrawn := Clients.Comes.advance (hexec 1 0) 2 hcalled rfl
  -- no file has been opened
  have hderegistered := hwithdrawn.act (i := 1) () rfl rfl ⟨fun f file hf => (by cases hf), rfl⟩
  have hunmapped := Clients.Comes.advance (hexec 1 0) 3 hderegistered rfl
  have hfreed := hunmapped.act (i := 1) () rfl rfl ⟨trivial, rfl⟩
  -- user 2 publishes key 7 again
  have hbegun := hfreed.begin 2 (.ioctl publishRequest 0) rfl
  rw [body_publish] at hbegun
  have hread := hbegun.own (i := 2) (some (⟨7, 4096, ""⟩ : PublishArg)) rfl rfl rfl
  have hcalled := hread.call (i := 2) rfl rfl rfl rfl rfl
  have hpublished := Clients.Comes.advance (hexec 2 1) 20 hcalled rfl
  -- the copy of user 0 faults
  have hfault := hpublished.own (i := 0) true rfl rfl rfl
  have hcalled := hfault.call (i := 0) rfl rfl rfl rfl rfl
  have htaken := Clients.Comes.advance (hexec 0 0) 1 hcalled rfl
  obtain ⟨c, hc, hbelow, hclient⟩ := htaken
  have h0 := (congrFun hclient 0).trans (Function.update_self ..)
  have haccounts := (ioctls_accounted hc).2 0 _ h0
  have hown := haccounts.own .publisher 0 1 7 (List.mem_of_getElem? (i := 18) rfl) (List.mem_of_getElem? (i := 20) rfl)
  exact ⟨c, _, h0, List.mem_of_getElem? (i := 18) rfl, List.mem_of_getElem? (i := 20) rfl, hown.resolve_left (by simp)⟩

end Accounts

end Registry

end Axivc
