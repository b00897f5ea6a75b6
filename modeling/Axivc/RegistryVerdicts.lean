import Axivc.Lib.Trace
import Axivc.RegistryRuns

/-!
# Axivc.RegistryVerdicts

What a call makes of the hypervisor's verdict.

A hypercall answers 64 bits.  The calls that open and close channels keep them
in an `int` and look at the low half; the rollback of a failed call and the
notification of a publisher look at all of them.  `verdict_believed` says for
which verdicts the two readings agree, and that for the others a refused call
goes on to map memory, or to remove a device that is still open.
-/

namespace Axivc

namespace Registry

open Prog Rely

/-! ## believing a verdict -/

section Believes

variable {Chan : Type}

/-- A hypervisor that may answer anything. -/
def anyVerdict : Rules Chan where
  opens _ _ _ := True
  closes _ _ _ := True
  rollsBack _ _ _ := True
  frees _ _ := True

/-- `if (hvc_..(..))` in `axivc_rollback_publish` and
`axivc_rollback_subscribe`, `u64 err; .. if (err)` in `axivc_notify_publisher`:
the whole verdict decides. -/
def hvcWarns (verdict : UInt64) : Bool := verdict ≠ 0

/-- The verdict on a channel that is to be opened or closed. -/
def verdictOf : (iface Chan).Event → Option UInt64
  | ⟨.hvcOpen _ _, verdict⟩ => some verdict
  | ⟨.hvcClose _, verdict⟩ => some verdict
  | _ => none

/-- The steps that act on a granted request: memory is mapped, a device is
registered and listed; a device is deregistered, taken off the list, unmapped
and freed. -/
def Op.commits : Op Chan → Bool
  | .memremap _ _ | .miscRegister _ | .listAddTail _ | .miscDeregister _ | .listDel _ | .memunmap _ | .kfree _ => true
  | _ => false

/-- The record in a cell. -/
def Cell.record : Cell Chan → Option (Vdev Chan)
  | .live d _ => some d
  | _ => none

/-- The list, the counter, the records with their flags, and the mappings are
as before. -/
structure Unchanged (s t : State Chan) : Prop where
  list : t.list = s.list
  count : t.count = s.count
  mapped : t.mapped = s.mapped
  records : ∀ v, (t.heap v).record = (s.heap v).record

variable [DecidableEq Chan] [Inhabited Chan]

/-- The steps of call `i` while no other call runs. -/
def stepsAlone (i : Nat) (o : Op Chan) (s : State Chan) (r : (iface Chan).Res o) (t : State Chan) : Prop :=
  Allowed anyVerdict s o r ∧ t = after i s o r

/-- In every run from `s` in which the hypervisor answers `verdict`, the call
`p` acts on the request only if the verdict is `0`; on any other it returns
`-EIO` and leaves everything as it was. -/
structure Believes {α : Type} (p : Prog (iface Chan) (Except Errno α)) (s : State Chan) (verdict : UInt64) : Prop where
  granted : ∀ i tr x t, p.Ran (stepsAlone i) s tr x t → tr.findSome? verdictOf = some verdict →
    (∃ e ∈ tr, e.1.commits = true) → verdict = 0
  refused : ∀ i tr x t, p.Ran (stepsAlone i) s tr x t → tr.findSome? verdictOf = some verdict → verdict ≠ 0 →
    x = some (.error Errno.EIO) ∧ Unchanged s t

/-- A record of the channel can be removed: it is neither open nor being
removed, and no open callback is running on its device. -/
def Removable (s : State Chan) (chan : Chan) : Prop :=
  ∃ v, s.walk chan = .taken v ∧ ∀ f file, s.files f = some file → file.vdev = v → file.stage.isRunning = false

variable {s : State Chan} {verdict : UInt64}

/-- The verdict `0` is believed. -/
theorem believes_zero {α : Type} (p : Prog (iface Chan) (Except Errno α)) (s : State Chan) : Believes p s 0 where
  granted _ _ _ _ _ _ _ := rfl
  refused _ _ _ _ _ _ h := absurd rfl h

/-- A refusal that is read as one. -/
theorem openChannel_refused (side : Side Chan) (chan : Chan) (size : UInt64) (iterations : Nat)
    (hfailed : hvcFailed verdict = true) {i : Nat} {tr : List (iface Chan).Event} {x : Option (Except Errno String)}
    {t : State Chan} (h : (openChannel side chan size iterations).Ran (stepsAlone i) s tr x t)
    (hverdict : tr.findSome? verdictOf = some verdict) :
    (∀ e ∈ tr, e.1.commits = false) ∧ x = some (.error Errno.EIO) ∧ Unchanged s t := by
  obtain ⟨allocated, u, tr, ⟨-, rfl⟩, h, rfl⟩ := h
  cases allocated with
  | false =>
      obtain ⟨rfl, -, -⟩ := h
      cases hverdict
  | true =>
      obtain ⟨shmBasePtr, u, tr, ⟨-, rfl⟩, ⟨shmSizePtr, u, tr', ⟨-, rfl⟩, h, rfl⟩, rfl⟩ := h
      change Ran _ (ite (shmBasePtr = ~~~0 ∨ shmSizePtr = ~~~0) _ _) _ _ _ _ at h
      split at h
      · obtain ⟨_, _, tr, _, ⟨rfl, _, _⟩, rfl⟩ := h
        cases hverdict
      · obtain ⟨answer, u, tr, ⟨-, rfl⟩, h, rfl⟩ := h
        have hanswer : answer = verdict := Option.some.inj hverdict
        subst hanswer
        change Ran _ (ite (hvcFailed answer = true) _ _) _ _ _ _ at h
        rw [if_pos hfailed] at h
        obtain ⟨-, u, tr, ⟨-, rfl⟩, ⟨rfl, rfl, rfl⟩, rfl⟩ := h
        refine ⟨?_, rfl, rfl, rfl, rfl, fun _ => rfl⟩
        simp [Op.commits]

/-- Memory that cannot be mapped. -/
theorem mapChannel_enomem (side : Side Chan) (chan : Chan) (iterations : Nat) (shmBase shmSize : UInt64) (s : State Chan) :
    ∃ tr t, (mapChannel side chan iterations shmBase shmSize).Ran (stepsAlone 0) s tr (some (.error .ENOMEM)) t ∧
      ∃ e ∈ tr, e.1.commits = true := by
  have hmap : Allowed anyVerdict s (.memremap shmBase shmSize) none := by
    intro n hn
    cases hn
  have hrolled : (rollbackChannel chan .ENOMEM).Ran (stepsAlone 0) (after 0 s (.memremap shmBase shmSize) none)
      [⟨.hvcRollback chan, (0 : UInt64)⟩] (some (.error .ENOMEM)) (after 0 _ (.hvcRollback chan) (0 : UInt64)) :=
    .act ⟨trivial, rfl⟩ (ran_ret _ _)
  have hran : (mapChannel side chan iterations shmBase shmSize).Ran (stepsAlone 0) s
      (⟨.memremap shmBase shmSize, none⟩ :: [⟨.hvcRollback chan, (0 : UInt64)⟩]) (some (.error .ENOMEM)) _ :=
    .act ⟨hmap, rfl⟩ hrolled
  exact ⟨_, _, hran, _, List.mem_cons_self, rfl⟩

/-- A refusal that is read as a success: the call maps memory, and reports
`-ENOMEM` when that fails. -/
theorem openChannel_misled (side : Side Chan) (chan : Chan) (size : UInt64) (iterations : Nat) (s : State Chan)
    (hfailed : hvcFailed verdict = false) : ∃ tr t,
    (openChannel side chan size iterations).Ran (stepsAlone 0) s tr (some (.error .ENOMEM)) t ∧
      tr.findSome? verdictOf = some verdict ∧ ∃ e ∈ tr, e.1.commits = true := by
  obtain ⟨tr, t, hran, e, he, hcommits⟩ :=
    mapChannel_enomem side chan iterations 0 0 (after 0 s (.hvcOpen chan size) verdict)
  have hrest : (ite (hvcFailed verdict = true) (call .kfreeOutput >>= fun _ => pure (.error Errno.EIO))
      (call .loadOutput >>= fun output : UInt64 × UInt64 => call .kfreeOutput >>= fun _ =>
        mapChannel side chan iterations output.1 output.2)).Ran (stepsAlone 0)
        (after 0 s (.hvcOpen chan size) verdict)
        (⟨.loadOutput, ((0 : UInt64), (0 : UInt64))⟩ :: ⟨.kfreeOutput, ()⟩ :: tr) (some (.error .ENOMEM)) t := by
    rw [if_neg (by simp [hfailed])]
    exact .act ⟨trivial, rfl⟩ (.act ⟨trivial, rfl⟩ hran)
  refine ⟨_, t, .act (r := true) ⟨trivial, rfl⟩ (.act (r := (0 : UInt64)) ⟨trivial, rfl⟩
    (.act (r := (0 : UInt64)) ⟨trivial, rfl⟩ (.act (r := verdict) ⟨trivial, rfl⟩ hrest))), rfl, e, ?_, hcommits⟩
  simp [he]

theorem hvcFailed_eq_false (hlow : verdict.toUInt32 = 0) : hvcFailed verdict = false := decide_eq_false (not_not_intro hlow)

/-- To open a channel. -/
theorem believes_openChannel_iff (side : Side Chan) (chan : Chan) (size : UInt64) (iterations : Nat) (s : State Chan) :
    Believes (openChannel side chan size iterations) s verdict ↔ Legible verdict := by
  constructor
  · intro h hne hlow
    obtain ⟨tr, t, hran, hverdict, hcommits⟩ :=
      openChannel_misled side chan size iterations s (hvcFailed_eq_false hlow)
    exact hne (h.granted 0 tr _ t hran hverdict hcommits)
  · intro hlegible
    by_cases hzero : verdict = 0
    · rw [hzero]
      exact believes_zero _ s
    · have hfailed : hvcFailed verdict = true := (hvcFailed_iff hlegible).mpr hzero
      refine ⟨fun i tr x t hran hverdict hcommits => ?_, fun i tr x t hran hverdict _ => ?_⟩
      · obtain ⟨e, he, hcommits⟩ := hcommits
        rw [(openChannel_refused side chan size iterations hfailed hran hverdict).1 e he] at hcommits
        cases hcommits
      · exact (openChannel_refused side chan size iterations hfailed hran hverdict).2

/-! ## closing a channel -/

/-- What a call does with the verdict on a channel to be closed. -/
def afterClose (v : Nat) (verdict : UInt64) : Prog (iface Chan) (Except Errno Unit) :=
  if hvcFailed verdict then do
    call (.endRemoval v)
    pure (.error Errno.EIO)
  else do
    call (.miscDeregister v)
    call (.listDel v)
    let m : Option Nat ← call (.loadMapped v)
    call (.memunmap m)
    call (.kfree v)
    pure (.ok ())

/-- The state when the verdict has come. -/
def answered (i v : Nat) (chan : Chan) (verdict : UInt64) (s : State Chan) : State Chan :=
  after i (after i s (.beginRemoval chan) (.taken v)) (.hvcClose chan) verdict

/-- A call that has asked the hypervisor has taken a record. -/
theorem closeChannel_asked {chan : Chan} {i : Nat} {tr : List (iface Chan).Event} {x : Option (Except Errno Unit)}
    {t : State Chan} (h : (closeChannel chan).Ran (stepsAlone i) s tr x t)
    (hverdict : tr.findSome? verdictOf = some verdict) :
    ∃ v tr', s.walk chan = .taken v ∧ tr = ⟨.beginRemoval chan, .taken v⟩ :: ⟨.hvcClose chan, verdict⟩ :: tr' ∧
      (afterClose v verdict).Ran (stepsAlone i) (answered i v chan verdict s) tr' x t := by
  obtain ⟨found, u, tr, ⟨hfound, rfl⟩, h, rfl⟩ := h
  cases found with
  | missing | busy =>
      obtain ⟨rfl, _, _⟩ := h
      cases hverdict
  | taken v =>
      obtain ⟨answer, u, tr, ⟨-, rfl⟩, h, rfl⟩ := h
      have hanswer : answer = verdict := Option.some.inj hverdict
      subst hanswer
      exact ⟨v, tr, hfound.symm, rfl, h⟩

/-- The mark set and taken back, with a refusal in between. -/
theorem unchanged_of_refused {chan : Chan} {i v : Nat} (htaken : s.walk chan = .taken v) (hfailed : hvcFailed verdict = true) :
    Unchanged s (after i (answered i v chan verdict s) (.endRemoval v) ()) := by
  obtain ⟨-, d, p, hd, -, hremoving⟩ := first_of_walk htaken
  have hmarked : (after i s (.beginRemoval chan) (.taken v)) =
      { s with heap := Function.update s.heap v (.live { d with removing := true } (.removing i)) }.onHeld i fun h =>
        { h with vdev := some v } := by
    rw [after_beginRemoval, onVdev_live hd]
  have hanswered : answered i v chan verdict s =
      { after i s (.beginRemoval chan) (.taken v) with
        keys := if verdict = 0 then s.keys.erase chan else s.keys } := by
    rw [answered, after_hvcClose, hfailed, hmarked]
    rfl
  have hlive : (answered i v chan verdict s).heap v = .live { d with removing := true } (.removing i) := by
    rw [hanswered, hmarked]
    exact Function.update_self ..
  rw [after_endRemoval, onVdev_live hlive, hanswered, hmarked]
  refine ⟨rfl, rfl, rfl, fun w => ?_⟩
  by_cases hw : w = v
  · subst hw
    simp [State.onHeld, hd, Cell.record, ← hremoving]
  · simp [State.onHeld, hw]

/-- The files are as they were when the verdict has come. -/
theorem answered_files (i v : Nat) (chan : Chan) (verdict : UInt64) (s : State Chan) :
    (answered i v chan verdict s).files = s.files := by
  have honVdev (u : State Chan) (w : Nat) (f : Vdev Chan → Vdev Chan) (g : Phase → Phase) :
      (u.onVdev w f g).files = u.files := by
    rw [State.onVdev]
    split <;> rfl
  rw [answered, after_hvcClose]
  split
  · exact (honVdev _ _ _ _).trans (honVdev _ _ _ _)
  · exact honVdev _ _ _ _

/-- A refusal that is read as a success: the device is taken down. -/
theorem closeChannel_misled {chan : Chan} (hremovable : Removable s chan) (hfailed : hvcFailed verdict = false) :
    ∃ tr t, (closeChannel chan).Ran (stepsAlone 0) s tr (some (.ok ())) t ∧
      tr.findSome? verdictOf = some verdict ∧ ∃ e ∈ tr, e.1.commits = true := by
  obtain ⟨v, htaken, hfiles⟩ := hremovable
  have hquiet : Allowed anyVerdict (answered 0 v chan verdict s) (.miscDeregister v) () := by
    intro f file hf
    rw [answered_files] at hf
    exact hfiles f file hf
  have hloaded (u : State Chan) : ∃ m, Allowed anyVerdict u (.loadMapped v) m := by
    cases hu : u.heap v with
    | live d p =>
        refine ⟨d.mappedShmBase, fun e q he => ?_⟩
        rw [hu] at he
        cases he
        rfl
    | unused | freed =>
        refine ⟨none, fun e q he => ?_⟩
        rw [hu] at he
        cases he
  obtain ⟨m, hm⟩ := hloaded (after 0 (after 0 (answered 0 v chan verdict s) (.miscDeregister v) ()) (.listDel v) ())
  have hrest : ∃ tr t, (afterClose v verdict).Ran (stepsAlone 0) (answered 0 v chan verdict s)
      (⟨.miscDeregister v, ()⟩ :: tr) (some (.ok ())) t := by
    rw [afterClose, if_neg (by simp [hfailed])]
    exact ⟨_, _, .act ⟨hquiet, rfl⟩ (.act (r := ()) ⟨trivial, rfl⟩ (.act (r := m) ⟨hm, rfl⟩
      (.act (r := ()) ⟨trivial, rfl⟩ (.act (r := ()) ⟨trivial, rfl⟩ (ran_ret _ _)))))⟩
  obtain ⟨tr, t, hran⟩ := hrest
  have hclose : (closeChannel chan).Ran (stepsAlone 0) s
      (⟨.beginRemoval chan, .taken v⟩ :: ⟨.hvcClose chan, verdict⟩ :: ⟨.miscDeregister v, ()⟩ :: tr) (some (.ok ())) t :=
    .act ⟨htaken.symm, rfl⟩ (.act ⟨trivial, rfl⟩ hran)
  exact ⟨_, t, hclose, rfl, ⟨.miscDeregister v, ()⟩, by simp, rfl⟩

/-- To close a channel: nothing is asked when there is no record to remove. -/
theorem believes_closeChannel_iff (chan : Chan) (s : State Chan) :
    Believes (closeChannel chan) s verdict ↔ Legible verdict ∨ ¬ Removable s chan := by
  constructor
  · intro h
    by_contra hnot
    rw [not_or, not_not] at hnot
    obtain ⟨hlegible, hremovable⟩ := hnot
    obtain ⟨hne, hlow⟩ : verdict ≠ 0 ∧ verdict.toUInt32 = 0 := by simpa [Legible] using hlegible
    obtain ⟨tr, t, hran, hverdict, hcommits⟩ := closeChannel_misled hremovable (hvcFailed_eq_false hlow)
    exact hne (h.granted 0 tr _ t hran hverdict hcommits)
  · intro h
    by_cases hzero : verdict = 0
    · rw [hzero]
      exact believes_zero _ s
    · -- the call that has been answered returns `-EIO`
      have hrefused {i : Nat} {tr : List (iface Chan).Event} {x : Option (Except Errno Unit)} {t : State Chan}
          (hran : (closeChannel chan).Ran (stepsAlone i) s tr x t) (hverdict : tr.findSome? verdictOf = some verdict) :
          (∀ e ∈ tr, e.1.commits = false) ∧ x = some (.error Errno.EIO) ∧ Unchanged s t := by
        obtain ⟨v, tr', htaken, rfl, hrest⟩ := closeChannel_asked hran hverdict
        cases hfailed : hvcFailed verdict with
        | true =>
            rw [afterClose, if_pos hfailed] at hrest
            obtain ⟨-, u, tr, ⟨-, rfl⟩, ⟨rfl, rfl, rfl⟩, rfl⟩ := hrest
            exact ⟨by simp [Op.commits], rfl, unchanged_of_refused htaken hfailed⟩
        | false =>
            rw [afterClose, if_neg (by simp [hfailed])] at hrest
            obtain ⟨_, u, tr, ⟨hquiet, _⟩, _, _⟩ := hrest
            refine (h.resolve_left fun hlegible => ?_) ⟨v, htaken, ?_⟩ |>.elim
            · rw [(hvcFailed_iff hlegible).mpr hzero] at hfailed
              cases hfailed
            · rw [← answered_files i v chan verdict s]
              exact hquiet
      refine ⟨fun i tr x t hran hverdict hcommits => ?_, fun i tr x t hran hverdict _ => (hrefused hran hverdict).2⟩
      obtain ⟨e, he, hcommits⟩ := hcommits
      rw [(hrefused hran hverdict).1 e he] at hcommits
      cases hcommits

/-- The two readings of a verdict agree. -/
theorem hvcFailed_eq_hvcWarns_iff : hvcFailed verdict = hvcWarns verdict ↔ Legible verdict := by
  by_cases hzero : verdict = 0
  · subst hzero
    exact iff_of_true rfl fun h => absurd rfl h
  · simp [hvcFailed, hvcWarns, Legible, hzero]

/-- **The driver believes a verdict of the hypervisor exactly when it is `0` or
its low half is not**: on either side and in every state, to open a channel; to
close one, if there is a record to remove; and this is when it agrees with the
code that looks at the whole verdict. -/
theorem verdict_believed (side : Side Chan) (s : State Chan) (verdict : UInt64) :
    (∀ chan size iterations, Believes (openChannel side chan size iterations) s verdict ↔ Legible verdict) ∧
    (∀ chan, Believes (closeChannel chan) s verdict ↔ Legible verdict ∨ ¬ Removable s chan) ∧
    (hvcFailed verdict = hvcWarns verdict ↔ Legible verdict) :=
  ⟨fun chan size iterations => believes_openChannel_iff side chan size iterations s,
    fun chan => believes_closeChannel_iff chan s, hvcFailed_eq_hvcWarns_iff⟩

end Believes

/-- The hypervisor refuses to publish key `7` with the verdict `2 ^ 32`, and the
driver maps memory. -/
theorem refusal_mapped : ¬ Believes (ivcPublishChannel 7 4096) State.init 0x100000000 := by
  intro h
  have hlegible := (believes_openChannel_iff publisherSide 7 4096 0 State.init).mp h
  exact hlegible (by decide) (by decide)

end Registry

end Axivc
