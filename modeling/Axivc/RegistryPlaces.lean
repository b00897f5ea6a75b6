import Axivc.RegistryRuns
import Mathlib.Data.Set.Card

/-!
# Axivc.RegistryPlaces

The places of the registry: the counter of a side is the number of its listed
devices and of the calls that are about to list one.

A call reserves a place in one section under the lock and settles it in
another, by listing its device or by giving the place back, with the
registration of the device in between.  `HasPlace` reads off the text of what
is left of a call that it has a place to settle; `places_accounted` counts
these calls in every reachable configuration.
-/

namespace Axivc

namespace Registry

open Prog Rely

/-! ## the place of a call -/

section Text

variable {Chan α β : Type}

/-- The steps that settle a place: the device is listed, or the place is given
back. -/
def Op.settles : Op Chan → Bool
  | .unreserve | .listAddTail _ => true
  | _ => false

/-- A call has reserved a place and has neither listed its device nor given the
place back: whatever answers it gets, one of the two is still to come. -/
def HasPlace : Prog (iface Chan) α → Prop
  | .ret _ => False
  | .act o k => o.settles = true ∨ ∀ r, HasPlace (k r)
  | .spin => False

/-- Whether a call has a place after a step. -/
def Op.place (b : Bool) : (o : Op Chan) → (iface Chan).Res o → Bool
  | .reserve, some _ => true
  | .unreserve, _ | .listAddTail _, _ => false
  | _, _ => b

/-- The step is one for a call with, or without, a place. -/
def Op.inOrder (b : Bool) : Op Chan → Prop
  | .reserve => b = false
  | .unreserve | .listAddTail _ => b = true
  | _ => True

/-- There was no place left. -/
def Op.refused : (o : Op Chan) → (iface Chan).Res o → Prop
  | .reserve, none => True
  | _, _ => False

/-- The program reserves, lists and gives back in order, never stops with a
place, and returns what `Q` says when there is no place left. -/
def InOrder (Q : α → Prop) : Bool → Prog (iface Chan) α → Prop
  | b, .ret _ => b = false
  | b, .act o k => o.inOrder b ∧ ∀ r, (o.refused r → (k r).Ends Q) ∧ InOrder Q (o.place b r) (k r)
  | b, .spin => b = false

variable {Q : α → Prop} {Q' : β → Prop} {b : Bool}

theorem InOrder.bind {p : Prog (iface Chan) α} {f : α → Prog (iface Chan) β} (hp : InOrder Q b p)
    (hQ : ∀ a, Q a → (f a).Ends Q') (hf : ∀ a, InOrder Q' false (f a)) : InOrder Q' b (p >>= f) := by
  induction p generalizing b with
  | ret a =>
      cases hp
      exact hf a
  | act o k ih =>
      refine ⟨hp.1, fun r => ⟨fun hr => ?_, ih r (hp.2 r).2⟩⟩
      exact ((hp.2 r).1 hr).bind hQ
  | spin => exact hp

/-- Steps that leave the registry alone come before anything else. -/
theorem InOrder.quiet_bind {p : Prog (iface Chan) α} {f : α → Prog (iface Chan) β} (hp : p.Each Quiet)
    (hf : ∀ a, InOrder Q' false (f a)) : InOrder Q' false (p >>= f) := by
  induction p with
  | ret a => exact hf a
  | act o k ih =>
      have hrest (r : (iface Chan).Res o) : InOrder Q' false (k r >>= f) := ih r (hp.2 r)
      cases o
      case regionInitPublisher | regionValidate | jiffies | msecsToJiffies | msleepInterruptible =>
        exact ⟨trivial, fun r => ⟨False.elim, hrest r⟩⟩
      all_goals exact hp.1.elim
  | spin => rfl

theorem Op.place_of_inOrder {o : Op Chan} (ho : o.inOrder true) (hs : o.settles = false) (r : (iface Chan).Res o) :
    o.place true r = true := by
  cases o
  case reserve => cases ho
  case unreserve | listAddTail => cases hs
  all_goals rfl

/-- Some answer leaves a call without a place where it is. -/
theorem Op.exists_place_false {o : Op Chan} (ho : o.inOrder false) : ∃ r, o.place false r = false := by
  cases o
  case reserve => exact ⟨none, rfl⟩
  case unreserve | listAddTail => cases ho
  case regionInitPublisher | regionValidate | miscRegister | activate => exact ⟨.ok (), rfl⟩
  case beginRemoval => exact ⟨.missing, rfl⟩
  case loadName => exact ⟨"", rfl⟩
  case loadOutput => exact ⟨((0 : UInt64), (0 : UInt64)), rfl⟩
  case msleepInterruptible => exact ⟨(0 : Nat), rfl⟩
  case kva2pa | hvcOpen | hvcRollback | hvcClose | jiffies | msecsToJiffies => exact ⟨(0 : UInt64), rfl⟩
  case kzallocOutput | loadActive => exact ⟨false, rfl⟩
  case memremap | kzallocVdev | loadMapped => exact ⟨none, rfl⟩
  all_goals exact ⟨(), rfl⟩

/-- The text of a call in order says whether it has a place. -/
theorem InOrder.hasPlace_iff {p : Prog (iface Chan) α} (h : InOrder Q b p) : HasPlace p ↔ b = true := by
  induction p generalizing b with
  | ret a =>
      cases h
      simp [HasPlace]
  | act o k ih =>
      obtain ⟨ho, hk⟩ := h
      cases b with
      | true =>
          refine iff_of_true ?_ rfl
          cases hs : o.settles with
          | true => exact .inl hs
          | false => exact .inr fun r => (ih r (hk r).2).mpr (Op.place_of_inOrder ho hs r)
      | false =>
          refine iff_of_false ?_ (by simp)
          rintro (hs | hall)
          · cases o
            case unreserve | listAddTail => cases ho
            all_goals cases hs
          · obtain ⟨r, hr⟩ := Op.exists_place_false ho
            have hplace := (ih r (hk r).2).mp (hall r)
            rw [hr] at hplace
            cases hplace
  | spin =>
      cases h
      simp [HasPlace]

end Text

/-! ## the calls -/

section Calls

variable {Chan α : Type}

/-- A call that has no place does nothing about places. -/
theorem inOrder_ret {Q : α → Prop} (a : α) : InOrder Q false (.ret a : Prog (iface Chan) α) := rfl

/-- The refusal of a call. -/
def NoSpace : Except Errno String → Prop := (· = .error .ENOSPC)

theorem inOrder_unmapRegion (m : Nat) (chan : Chan) (e : Errno) : InOrder NoSpace false (unmapRegion m chan e) :=
  ⟨trivial, fun _ => ⟨False.elim, trivial, fun _ => ⟨False.elim, rfl⟩⟩⟩

theorem inOrder_registerVdev (side : Side Chan) (chan : Chan) (m : Nat) (shmBase shmSize : UInt64) (v id : Nat) :
    InOrder NoSpace true (registerVdev side chan m shmBase shmSize v id) := by
  -- a store neither settles the place nor is refused
  have hstore {field : VdevStore Chan} {p : Prog (iface Chan) (Except Errno String)} (hp : InOrder NoSpace true p) :
      InOrder NoSpace true (call (.store v field) >>= fun _ => p) :=
    ⟨trivial, fun _ => ⟨False.elim, hp⟩⟩
  unfold registerVdev
  iterate 7 apply hstore
  refine ⟨trivial, fun result => ⟨False.elim, ?_⟩⟩
  cases result with
  | error e => exact ⟨rfl, fun _ => ⟨False.elim, trivial, fun _ => ⟨False.elim, inOrder_unmapRegion m chan e⟩⟩⟩
  | ok u => exact ⟨rfl, fun _ => ⟨False.elim, trivial, fun _ => ⟨False.elim, rfl⟩⟩⟩

theorem inOrder_createVdev (side : Side Chan) (chan : Chan) (m : Nat) (shmBase shmSize : UInt64) :
    InOrder NoSpace false (createVdev side chan m shmBase shmSize) := by
  refine ⟨trivial, fun allocated => ⟨False.elim, ?_⟩⟩
  cases allocated with
  | none => exact inOrder_unmapRegion m chan .ENOMEM
  | some v =>
      refine ⟨rfl, fun id => ?_⟩
      cases id with
      | none => exact ⟨fun _ _ _ _ => rfl, trivial, fun _ => ⟨False.elim, inOrder_unmapRegion m chan .ENOSPC⟩⟩
      | some id => exact ⟨False.elim, inOrder_registerVdev side chan m shmBase shmSize v id⟩

theorem inOrder_mapChannel (side : Side Chan) (chan : Chan) (iterations : Nat) (shmBase shmSize : UInt64) :
    InOrder NoSpace false (mapChannel side chan iterations shmBase shmSize) := by
  refine ⟨trivial, fun mapped => ⟨False.elim, ?_⟩⟩
  cases mapped with
  | none => exact ⟨trivial, fun _ => ⟨False.elim, rfl⟩⟩
  | some m =>
      change InOrder NoSpace false (side.prepare chan m shmSize iterations >>= _)
      refine InOrder.quiet_bind (side.quiet chan m shmSize iterations) fun result => ?_
      cases result with
      | error e => exact inOrder_unmapRegion m chan e
      | ok u => exact inOrder_createVdev side chan m shmBase shmSize

theorem inOrder_openChannel (side : Side Chan) (chan : Chan) (size : UInt64) (iterations : Nat) :
    InOrder NoSpace false (openChannel side chan size iterations) := by
  refine ⟨trivial, fun allocated => ⟨False.elim, ?_⟩⟩
  cases allocated with
  | false => exact inOrder_ret _
  | true =>
      refine ⟨trivial, fun shmBasePtr => ⟨False.elim, trivial, fun shmSizePtr => ⟨False.elim, ?_⟩⟩⟩
      change InOrder NoSpace false (ite (shmBasePtr = ~~~0 ∨ shmSizePtr = ~~~0) _ _)
      split
      · exact ⟨trivial, fun _ => ⟨False.elim, rfl⟩⟩
      · refine ⟨trivial, fun verdict => ⟨False.elim, ?_⟩⟩
        change InOrder NoSpace false (ite (hvcFailed verdict = true) _ _)
        split
        · exact ⟨trivial, fun _ => ⟨False.elim, rfl⟩⟩
        · exact ⟨trivial, fun output => ⟨False.elim, trivial, fun _ =>
            ⟨False.elim, inOrder_mapChannel side chan iterations output.1 output.2⟩⟩⟩

theorem inOrder_closeChannel {Q : Except Errno Unit → Prop} (chan : Chan) : InOrder Q false (closeChannel chan) := by
  refine ⟨trivial, fun found => ⟨False.elim, ?_⟩⟩
  cases found with
  | missing | busy => exact inOrder_ret _
  | taken v =>
      refine ⟨trivial, fun verdict => ⟨False.elim, ?_⟩⟩
      change InOrder Q false (ite (hvcFailed verdict = true) _ _)
      split
      · exact ⟨trivial, fun _ => ⟨False.elim, rfl⟩⟩
      · exact ⟨trivial, fun _ => ⟨False.elim, trivial, fun _ => ⟨False.elim, trivial, fun _ =>
          ⟨False.elim, trivial, fun _ => ⟨False.elim, trivial, fun _ => ⟨False.elim, rfl⟩⟩⟩⟩⟩⟩

theorem inOrder_useEndpoint {Q : Unit → Prop} (v n : Nat) : InOrder Q false (useEndpoint v n : Prog (iface Chan) Unit) := by
  induction n with
  | zero => exact inOrder_ret _
  | succ n ih => exact ⟨trivial, fun _ => ⟨False.elim, ih⟩⟩

/-- A call of a side that finds no place left is refused with `-ENOSPC`. -/
def Refused : Ret → Prop := (· = .opened (.error .ENOSPC))

theorem inOrder_body (side : Side Chan) (call : Call Chan) : InOrder Refused false (body side call) := by
  cases call with
  | openChannel chan size iterations =>
      refine (inOrder_openChannel side chan size iterations).bind (fun result hresult => ?_) fun _ => inOrder_ret _
      exact congrArg Ret.opened hresult
  | closeChannel chan => exact (inOrder_closeChannel (Q := fun _ => False) chan).bind (fun _ h => h.elim) fun _ => inOrder_ret _
  | openFile f v => exact ⟨trivial, fun _ => ⟨False.elim, inOrder_ret _⟩⟩
  | fileIo f v n =>
      refine ⟨trivial, fun active => ⟨False.elim, ?_⟩⟩
      cases active with
      | false => exact inOrder_ret _
      | true =>
          have huse : InOrder (fun _ => False) false (useEndpoint v n : Prog (iface Chan) Unit) := inOrder_useEndpoint v n
          exact (huse.bind (fun _ h => h.elim) fun _ => inOrder_ret (Q := fun _ => False) _).bind (fun _ h => h.elim)
            fun _ => inOrder_ret _
  | releaseFile f v => exact ⟨trivial, fun _ => ⟨False.elim, inOrder_ret _⟩⟩

end Calls

/-! ## the book of places -/

section Book

variable {Chan : Type}

/-- The beginning and the end of a call leave the book alone. -/
theorem begins_reserved {i : Nat} {s t : State Chan} {call : Call Chan} (h : Begins i s t call) :
    t.reserved = s.reserved := by
  cases call with
  | openChannel chan size iterations => rw [show t = _ from h]; rfl
  | closeChannel chan => rw [show t = _ from h]; rfl
  | openFile f v =>
      obtain ⟨-, -, rfl⟩ := h
      rfl
  | fileIo f v n =>
      obtain ⟨io, -, rfl⟩ := h
      rfl
  | releaseFile f v =>
      obtain ⟨-, rfl⟩ := h
      rfl

theorem ends_reserved (i : Nat) (s : State Chan) (r : Ret) : (ends i s r).reserved = s.reserved := by
  cases r with
  | opened | closed | fileReleased => rfl
  | fileOpened f v result => cases result <;> rfl
  | fileDone f v result =>
      simp only [ends]
      split <;> rfl

/-- The book of places says of every thread what is left to it. -/
def Booked (c : Config Nat (iface Chan) (State Chan) Ret) : Prop :=
  ∀ i, (c.thread i = none → i ∉ c.shared.reserved) ∧
    ∀ p, c.thread i = some p → InOrder Refused (decide (i ∈ c.shared.reserved)) p

theorem Booked.update {c : Config Nat (iface Chan) (State Chan) Ret} (h : Booked c) {i : Nat} {t : State Chan} {x : Option (Prog (iface Chan) Ret)}
    (hothers : ∀ j, j ≠ i → (j ∈ t.reserved ↔ j ∈ c.shared.reserved)) (hnone : x = none → i ∉ t.reserved)
    (hsome : ∀ p, x = some p → InOrder Refused (decide (i ∈ t.reserved)) p) :
    Booked ⟨t, Function.update c.thread i x⟩ := by
  intro j
  by_cases hj : j = i
  · subst hj
    simp only [Function.update_self]
    exact ⟨hnone, hsome⟩
  · simp only [Function.update_of_ne hj, hothers j hj]
    exact h j

variable [DecidableEq Chan] [Inhabited Chan]

/-- The book of places after a step of call `i`. -/
theorem after_reserved (i : Nat) (s : State Chan) (o : Op Chan) (r : (iface Chan).Res o) :
    (after i s o r).reserved =
      if o.place (decide (i ∈ s.reserved)) r then insert i s.reserved else s.reserved.erase i := by
  -- most steps leave the book alone
  have hsame {t : State Chan} (ht : t.reserved = s.reserved) :
      t.reserved = if decide (i ∈ s.reserved) then insert i s.reserved else s.reserved.erase i := by
    by_cases hi : i ∈ s.reserved
    · simp [ht, hi]
    · simp [ht, hi]
  cases o
  case reserve =>
    cases r with
    | none => exact hsame rfl
    | some id => rfl
  case unreserve => rfl
  case listAddTail v => exact (onVdev_held ..).2
  case memremap | kzallocVdev =>
    cases r with
    | none => exact hsame rfl
    | some n => exact hsame rfl
  case miscRegister | activate =>
    cases r with
    | error e => exact hsame rfl
    | ok u => exact hsame (onVdev_held ..).2
  case beginRemoval =>
    cases r with
    | missing | busy => exact hsame rfl
    | taken v => exact hsame (onVdev_held ..).2
  case memunmap m =>
    rw [after_memunmap]
    split
    · exact hsame (onVdev_held ..).2
    · exact hsame rfl
  case hvcClose chan =>
    rw [after_hvcClose]
    split
    · exact hsame (onVdev_held ..).2
    · exact hsame rfl
  case store | endRemoval | miscDeregister | listDel | deactivate => exact hsame (onVdev_held ..).2
  all_goals exact hsame rfl

variable {side : Side Chan} {rules : Rules Chan} {c c' : Config Nat (iface Chan) (State Chan) Ret}

/-- **Step**: the book stays right. -/
theorem Booked.step (h : Booked c) (hstep : (machine side rules).Step c c') : Booked c' := by
  cases hstep with
  | env he => exact he.elim
  | start i call hi hst =>
      have hsame := begins_reserved hst
      refine h.update (fun j _ => by rw [hsame]) (by simp) ?_
      rintro p ⟨⟩
      have hi := (h i).1 hi
      rw [hsame, decide_eq_false hi]
      exact inOrder_body side call
  | act i r hi he =>
      obtain ⟨-, rfl⟩ := he
      have hbook := after_reserved i c.shared _ r
      refine h.update (fun j hj => ?_) (by simp) ?_
      · rw [hbook]
        split <;> simp [hj]
      · rintro p ⟨⟩
        have hrest := (((h i).2 _ hi).2 r).2
        rw [hbook]
        cases hplace : Op.place (decide (i ∈ c.shared.reserved)) _ r with
        | true => simpa [hplace] using hrest
        | false => simpa [hplace] using hrest
  | finish i hi hf =>
      cases hf
      refine h.update (fun j _ => by rw [ends_reserved]) (fun _ => ?_) (by simp)
      rw [ends_reserved]
      have hdone : decide (i ∈ c.shared.reserved) = false := (h i).2 _ hi
      exact of_decide_eq_false hdone

theorem booked_of_reachable (h : (machine side rules).Reachable .init c) : Booked c := by
  induction h with
  | refl =>
      intro i
      refine ⟨fun _ => Finset.notMem_empty i, ?_⟩
      rintro p ⟨⟩
  | tail _ hstep ih => exact ih.step hstep

end Book

/-! ## the counter -/

/-- The calls that have reserved a place and have neither listed their device
nor given the place back. -/
def places {Chan : Type} (c : Config Nat (iface Chan) (State Chan) Ret) : Set Nat :=
  {i | ∃ p, c.thread i = some p ∧ HasPlace p}

/-- The counter of a side counts: it is between `0` and `MAX_VDEVS`, the number
of the listed devices and of the calls that are to list one; a call that asks
for a place is refused, with `-ENOSPC`, exactly when all places are held; and
between calls the listed devices hold all that are held. -/
structure Accounted {Chan : Type} [DecidableEq Chan] (rules : Rules Chan)
    (c : Config Nat (iface Chan) (State Chan) Ret) : Prop where
  finite : (places c).Finite
  count : c.shared.count = c.shared.list.length + (places c).ncard
  bounds : 0 ≤ c.shared.count ∧ c.shared.count ≤ maxVdevs
  refused : ∀ i k id, c.thread i = some (.act .reserve k) → Allowed rules c.shared .reserve id →
    (id = none ↔ c.shared.list.length + (places c).ncard = maxVdevs)
  noSpace : ∀ i k, c.thread i = some (.act .reserve k) → (k none).Ends (· = .opened (.error .ENOSPC))
  settled : (∀ i, c.thread i = none) → c.shared.count = c.shared.list.length

variable {Chan : Type} [DecidableEq Chan] [Inhabited Chan]

/-- The calls with a place are those in the book. -/
theorem places_eq {side : Side Chan} {rules : Rules Chan} {c : Config Nat (iface Chan) (State Chan) Ret}
    (h : (machine side rules).Reachable .init c) : places c = c.shared.reserved := by
  have hbooked := booked_of_reachable h
  ext i
  constructor
  · rintro ⟨p, hi, hplace⟩
    have hmem := ((hbooked i).2 p hi).hasPlace_iff.mp hplace
    exact of_decide_eq_true hmem
  · intro hmem
    cases hi : c.thread i with
    | none => exact absurd hmem ((hbooked i).1 hi)
    | some p => exact ⟨p, hi, ((hbooked i).2 p hi).hasPlace_iff.mpr (decide_eq_true hmem)⟩

/-- **Device accounting never drifts**, on either side, in every run, with any
answers of the kernel and of the hypervisor. -/
theorem places_accounted (side : Side Chan) (rules : Rules Chan) {c : Config Nat (iface Chan) (State Chan) Ret}
    (h : (machine side rules).Reachable .init c) : Accounted rules c := by
  have hplaces : places c = c.shared.reserved := places_eq h
  have hcard : (places c).ncard = c.shared.reserved.card := by rw [hplaces, Set.ncard_coe_finset]
  obtain ⟨hcount, hbound⟩ := (good_of_reachable h).1.counts
  refine ⟨?_, ?_, ⟨?_, hbound⟩, fun i k id hi hid => ?_, fun i k hi => ?_, fun hidle => ?_⟩
  · rw [hplaces]
    exact Finset.finite_toSet _
  · rw [hcard]
    exact hcount
  · omega
  · have hid : id = if c.shared.count ≥ maxVdevs then none else some c.shared.nextId := hid
    rw [hid, hcard]
    split
    · simp only [true_iff]
      omega
    · simp only [reduceCtorEq, false_iff]
      omega
  · exact (((booked_of_reachable h i).2 _ hi).2 none).1 trivial
  · have hnone : places c = ∅ := by
      refine Set.eq_empty_of_forall_notMem fun i hi => ?_
      obtain ⟨p, hp, -⟩ := hi
      rw [hidle i] at hp
      cases hp
    rw [hcount, ← hcard, hnone]
    simp

/-- Key `7` is published, and a call for key `8` has its place. -/
theorem places_accounted_reserved : ∃ c : Config Nat (iface UInt64) (State UInt64) Ret,
    (machine publisherSide (hypervisor : Rules UInt64)).Reachable .init c ∧ c.shared.list = [0] ∧ 1 ∈ places c ∧
      c.shared.count = 2 ∧ Accounted (hypervisor : Rules UInt64) c := by
  have hfits (v : Nat) : (⟨1, 1, v, v⟩ : Course).Fits (hypervisor : Rules UInt64) := fits_hypervisor (by simp)
  have hpublished := Course.reachable publisherSide (hfits 0) (i := 0) (.openChannel 7 4096 0) 20 .refl rfl rfl rfl
  have hreserved := Course.reachable publisherSide (hfits 1) (i := 1) (.openChannel 8 4096 0) 10 hpublished rfl rfl rfl
  refine ⟨_, hreserved, rfl, ?_, rfl, places_accounted publisherSide _ hreserved⟩
  rw [places_eq hreserved]
  exact Finset.mem_insert_self ..

end Registry

end Axivc
