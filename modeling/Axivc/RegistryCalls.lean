import Axivc.RegistryOpen
import Axivc.RegistryClose

/-!
# Axivc.RegistryCalls

The calls of the registry, step after step among the others.

`outline` puts the steps together: what a call needs of the record it works on
(`Ready`, and that it is allocated), what it holds when it returns (`Post`).
`safe_body` follows the text of every call under any interference that `Kept`
allows.
-/

namespace Axivc

namespace Registry

open Prog Rely

/-! ## what is taken for granted -/

/-- The driver reads verdicts as they are meant; a channel that is open cannot
be opened again, and a failed call gets its channel taken back. -/
structure Rules.Honest {Chan : Type} (rules : Rules Chan) : Prop where
  opens : ∀ K chan verdict, rules.opens K chan verdict →
    (hvcFailed verdict = true ↔ verdict ≠ 0) ∧ (verdict = 0 → chan ∉ K)
  closes : ∀ K chan verdict, rules.closes K chan verdict → (hvcFailed verdict = true ↔ verdict ≠ 0)
  rollsBack : ∀ K chan verdict, rules.rollsBack K chan verdict → verdict = 0

/-- No record is freed whose name a call has still to copy. -/
def Rules.Patient {Chan : Type} (rules : Rules Chan) : Prop :=
  ∀ s v, rules.frees s v → ∀ j, (s.held j).naming ≠ some v

/-! ## what a step needs -/

/-- The records a step reads or writes; a step on the list may come to any
record on it. -/
def Op.touches {Chan : Type} (s : State Chan) : Op Chan → List Nat
  | .store v _ | .miscRegister v | .loadName v | .kfree v | .endRemoval v | .miscDeregister v | .loadMapped v
  | .activate _ v | .loadActive v | .useEndpoint v | .deactivate _ v => [v]
  | .listAddTail v | .listDel v => v :: s.list
  | .beginRemoval _ => s.list
  | _ => []

/-- A record in a phase that call `i` controls. -/
def Has {Chan : Type} (v : Nat) (p : Phase) (Q : Vdev Chan → Prop) (s : State Chan) : Prop := ∃ d, s.heap v = .live d p ∧ Q d

theorem Has.isLive {Chan : Type} {s : State Chan} {v : Nat} {p : Phase} {Q : Vdev Chan → Prop} (h : Has v p Q s) : (s.heap v).isLive = true := by
  obtain ⟨d, hv, -⟩ := h
  rw [hv]
  rfl

section Calls

variable {Chan : Type} [DecidableEq Chan]

/-- What call `i` has reached when it takes one of its last steps, or a step of
a file. -/
def Ready (i : Nat) (s : State Chan) : Op Chan → Prop
  | .kfree v => (s.heap v).thread = some i ∧ (s.heap v).isRegistered = false
  | .memunmap m => ∀ v, (s.held i).vdev = some v → ∃ d, s.heap v = .live d (.unlisted i) ∧ m = d.mappedShmBase
  | .endRemoval v => ∃ d, s.heap v = .live d (.removing i) ∧ s.list.find? (s.hasChannel d.channel) = some v
  | .activate f v => s.files f = some ⟨v, .opening i⟩
  | .loadActive v | .useEndpoint v => ∃ f io, s.files f = some ⟨v, .usable io⟩ ∧ i ∈ io
  | .deactivate f v => s.files f = some ⟨v, .releasing i⟩
  | _ => True

/-- What a step needs: the records are allocated. -/
structure Pre (patient : Prop) (i : Nat) (o : Op Chan) (s : State Chan) : Prop where
  live : ∀ v ∈ o.touches s, (∀ w, o = .loadName w → patient) → (s.heap v).isLive = true
  ready : Ready i s o

/-- What a call to open a channel returns. -/
def Opened (patient : Prop) (i : Nat) (result : Except Errno String) (s : State Chan) : Prop :=
  Holds i none none none false s ∧
    ∀ name, result = .ok name → patient → name = snprintf ("/dev/" ++ (s.held i).registered)

/-- A call returns: it holds nothing, and its file is where the call has left
it. -/
def Post (patient : Prop) (i : Nat) : Ret → State Chan → Prop
  | .opened result, s => Opened patient i result s
  | .fileOpened f v (.ok _), s => Holds i none none none false s ∧ s.files f = some ⟨v, .acquired i⟩
  | .fileOpened f v (.error _), s => Holds i none none none false s ∧ s.files f = some ⟨v, .opening i⟩
  | .fileDone f v _, s => Holds i none none none false s ∧ ∃ io, s.files f = some ⟨v, .usable io⟩ ∧ i ∈ io
  | _, s => Holds i none none none false s

variable {honest patient : Prop} {i v f : Nat} {s t : State Chan}

theorem Has.stable {p : Phase} {Q : Vdev Chan → Prop} (h : Has v p Q s) (hp : p.thread = some i)
    (hQ : ∀ d a, Q d → Q { d with active := a }) (hk : Kept i s t) : Has v p Q t := by
  obtain ⟨d, hv, hd⟩ := h
  obtain ⟨a, ht⟩ := hk.vdev v d p hv hp
  exact ⟨_, ht, hQ d a hd⟩

/-- Call `i` leads record `v` through its last phases. -/
def Closes (i v : Nat) (p : Phase) (Q : Vdev Chan → Prop) (s : State Chan) : Prop :=
  Holds i none none (some v) false s ∧ Has v p Q s

theorem Closes.stable {p : Phase} {Q : Vdev Chan → Prop} (h : Closes i v p Q s) (hp : p.thread = some i)
    (hQ : ∀ d a, Q d → Q { d with active := a }) (hk : Kept i s t) : Closes i v p Q t :=
  ⟨h.1.stable hk, h.2.stable hp hQ hk⟩

/-- A record that call `i` has marked stays marked, and stays the first of its
channel. -/
theorem first_stable {chan : Chan} (h : Closes i v (.removing i) (fun d => d.channel = chan) s ∧
      s.list.find? (s.hasChannel chan) = some v) (hk : Kept i s t) :
    Closes i v (.removing i) (fun d => d.channel = chan) t ∧ t.list.find? (t.hasChannel chan) = some v := by
  refine ⟨h.1.stable rfl (fun _ _ h => h) hk, hk.first v chan ?_ h.2⟩
  obtain ⟨⟨-, d, hd, -⟩, -⟩ := h
  rw [hd]
  rfl

/-! ## the beginning and the end of a call -/

/-- A call that opens or closes a channel begins with empty hands. -/
theorem begin_call (h : Inv honest patient s) (hh : Holds i none none none false s) :
    Inv honest patient (s.onHeld i fun _ => .nothing) ∧ Moves i s (s.onHeld i fun _ => .nothing) ∧
      Holds i none none none false (s.onHeld i fun _ => .nothing) := by
  obtain ⟨hinv, hmoves⟩ := step_pools h (i := i) (f := fun _ => .nothing) hh.vdev.symm rfl
    (h.mappings.congr (mapOwner_same hh.mapping.symm) fun _ => Iff.rfl)
    (fun hon => (h.keys hon).congr (keyOwner_same hh.channel.symm) fun _ => Iff.rfl)
  refine ⟨hinv, hmoves, ?_, ?_, ?_, ?_, hh.reserved⟩
  all_goals rw [onHeld_self]; rfl

/-- The open callback has returned. -/
theorem finish_open (h : Inv honest patient s) {stage : FileStage} (hf : s.files f = some ⟨v, stage⟩)
    (hstage : stage = .opening i ∨ stage = .acquired i) {x : Option File}
    (hopen : openDevice x = openDevice (some ⟨v, stage⟩))
    (hquiet : ∀ file, x = some file → file.stage.isRunning = false) :
    Inv honest patient (s.setFile f x) ∧ Moves i s (s.setFile f x) := by
  have hrun : stage.isRunning = true := by
    obtain rfl | rfl := hstage <;> rfl
  obtain ⟨d, p, hv, -⟩ := h.live_of_running hf hrun
  refine step_stage h hv (by rw [hf, hopen]) (fun file hx hr => ?_) (fun j w hj => ?_) (fun j w io hj hio => ?_)
  · rw [hquiet file hx] at hr
    cases hr
  · obtain rfl | rfl := hstage <;> simp [hf, Ne.symm hj]
  · rw [hf] at hio
    cases hio
    obtain hstage | hstage := hstage <;> cases hstage

/-- A call that works on an open file comes or goes. -/
theorem step_io (h : Inv honest patient s) {io : Finset Nat} (hf : s.files f = some ⟨v, .usable io⟩)
    (io' : Finset Nat) (hio : ∀ j, j ≠ i → j ∈ io → j ∈ io') :
    Inv honest patient (s.setFile f (some ⟨v, .usable io'⟩)) ∧ Moves i s (s.setFile f (some ⟨v, .usable io'⟩)) := by
  obtain ⟨d, p, hv, -⟩ := h.live_of_open (f := f) (v := v) (by rw [hf]; rfl)
  refine step_stage h hv (by rw [hf]; rfl) (by rintro file ⟨⟩ ⟨⟩) (fun j w hj => by simp [hf]) (fun j w ios hj hios hmem => ?_)
  rw [hf] at hios
  cases hios
  exact ⟨io', rfl, hio j hj hmem⟩

/-- A call ends. -/
theorem finish_ok (h : Inv honest patient s) {r : Ret} (hpost : Post patient i r s) :
    Inv honest patient (ends i s r) ∧ Moves i s (ends i s r) ∧ Holds i none none none false (ends i s r) := by
  cases r with
  | opened result => exact ⟨h, .refl i s, hpost.1⟩
  | closed result => exact ⟨h, .refl i s, hpost⟩
  | fileReleased => exact ⟨h, .refl i s, hpost⟩
  | fileOpened f v result =>
      cases result with
      | ok u =>
          obtain ⟨hh, hf⟩ := hpost
          obtain ⟨hinv, hmoves⟩ := finish_open h hf (.inr rfl) (x := some ⟨v, .usable ∅⟩) rfl (by rintro file ⟨⟩; rfl)
          exact ⟨hinv, hmoves, hh.setFile⟩
      | error e =>
          obtain ⟨hh, hf⟩ := hpost
          obtain ⟨hinv, hmoves⟩ := finish_open h hf (.inl rfl) (x := none) rfl (by simp)
          exact ⟨hinv, hmoves, hh.setFile⟩
  | fileDone f v result =>
      obtain ⟨hh, io, hf, hmem⟩ := hpost
      have hends : ends i s (.fileDone f v result) = s.setFile f (some ⟨v, .usable (io.erase i)⟩) := by
        simp only [ends, hf]
      rw [hends]
      obtain ⟨hinv, hmoves⟩ := step_io h hf (i := i) (io.erase i) fun j hj hmem => Finset.mem_erase.mpr ⟨hj, hmem⟩
      exact ⟨hinv, hmoves, hh.setFile⟩

variable [Inhabited Chan]

/-- The outline of a side. -/
def outline (side : Side Chan) (rules : Rules Chan) : Machine.Outline (machine side rules) where
  inv := Inv rules.Honest rules.Patient
  pre i o s := Pre rules.Patient i o s
  rely := Kept
  guar := Moves
  post := Post rules.Patient
  idle i s := Holds i none none none false s
  rely_refl := Kept.refl
  rely_trans _ := Kept.trans
  guar_rely hne _ hg := hg.kept _ (Ne.symm hne)
  env_rely _ h := h.elim
  idle_stable h hk _ := h.stable hk
  finish_ok h hpost hfinish := by
    cases hfinish
    exact finish_ok h hpost

/-! ## one step of a call -/

variable {side : Side Chan} {rules : Rules Chan} {α : Type} {post : α → State Chan → Prop}

/-- A step, entered with an assertion that the others keep. -/
theorem safe_step {o : Op Chan} {k : (iface Chan).Res o → Prog (iface Chan) α} (P : State Chan → Prop) (hP : P s)
    (hstable : ∀ t u, P t → Kept i t u → P u)
    (hpre : ∀ t, P t → Inv rules.Honest rules.Patient t → Pre rules.Patient i o t)
    (hstep : ∀ t r, P t → Inv rules.Honest rules.Patient t → Allowed rules t o r →
      Inv rules.Honest rules.Patient (after i t o r) ∧ Moves i t (after i t o r) ∧
        ((outline side rules).view i).Safe post (k r) (after i t o r)) :
    ((outline side rules).view i).Safe post (.act o k) s := by
  refine View.safe_act P hP (fun t u ht hk _ => hstable t u ht hk) fun t ht hi => ⟨hpre t ht hi, ?_⟩
  rintro r u ⟨hallowed, rfl⟩
  exact hstep t r ht hi hallowed

/-- A step that changes nothing. -/
theorem safe_quiet {o : Op Chan} {k : (iface Chan).Res o → Prog (iface Chan) α} (P : State Chan → Prop) (hP : P s)
    (hstable : ∀ t u, P t → Kept i t u → P u) (hafter : ∀ t r, after i t o r = t)
    (hpre : ∀ t, P t → Inv rules.Honest rules.Patient t → Pre rules.Patient i o t)
    (hk : ∀ t r, P t → Inv rules.Honest rules.Patient t → Allowed rules t o r →
      ((outline side rules).view i).Safe post (k r) t) :
    ((outline side rules).view i).Safe post (.act o k) s := by
  refine safe_step P hP hstable hpre fun t r ht hi hallowed => ?_
  rw [hafter]
  exact ⟨hi, .refl i _, hk t r ht hi hallowed⟩

/-! ## opening a channel -/

variable {chan : Chan} {m : Nat}

/-- A call that fails after its hypercall. -/
theorem safe_rollbackChannel (hh : Holds i (some chan) none none false s) (e : Errno) :
    ((outline side rules).view i).Safe (Opened rules.Patient i) (rollbackChannel chan e) s := by
  refine safe_step (Holds i (some chan) none none false) hh (fun _ _ h hk => h.stable hk)
    (fun _ _ _ => ⟨by simp [Op.touches], trivial⟩) fun t verdict ht hi hallowed => ?_
  obtain ⟨hinv, hmoves, hholds⟩ := step_hvcRollback hi ht fun hon => hon.rollsBack _ _ _ hallowed
  exact ⟨hinv, hmoves, fun u hu _ => ⟨hholds.stable hu, by simp⟩⟩

/-- A call that fails after it has mapped the region. -/
theorem safe_unmapRegion (hh : Holds i (some chan) (some m) none false s) (e : Errno) :
    ((outline side rules).view i).Safe (Opened rules.Patient i) (unmapRegion m chan e) s := by
  refine safe_step (Holds i (some chan) (some m) none false) hh (fun _ _ h hk => h.stable hk)
    (fun t ht _ => ⟨by simp [Op.touches], fun v hv => ?_⟩) fun t r ht hi _ => ?_
  · rw [ht.vdev] at hv
    cases hv
  · obtain ⟨hinv, hmoves, hholds⟩ := step_memunmap hi ht
    exact ⟨hinv, hmoves, safe_rollbackChannel hholds e⟩

/-- A call whose device could not be registered, or that finds no place, frees
its record. -/
theorem safe_kfree_new (hh : Holds i (some chan) (some m) (some v) false s)
    (hv : Has v (.building i) (fun _ => True) s) (e : Errno) :
    ((outline side rules).view i).Safe (Opened rules.Patient i)
      (.act (.kfree v) fun _ => unmapRegion m chan e) s := by
  refine safe_step (fun t => Holds i (some chan) (some m) (some v) false t ∧ Has v (.building i) (fun _ => True) t) ⟨hh, hv⟩
    (fun _ _ h hk => ⟨h.1.stable hk, h.2.stable rfl (fun _ _ _ => trivial) hk⟩) (fun t ht hi => ?_) fun t r ht hi _ => ?_
  · obtain ⟨d, hd, -⟩ := ht.2
    exact ⟨by simp [Op.touches, ht.2.isLive], by rw [hd]; rfl, by rw [hd]; rfl⟩
  · obtain ⟨d, hd, -⟩ := ht.2
    obtain ⟨hinv, hmoves, hholds⟩ := step_kfree_new hi ht.1 hd
    exact ⟨hinv, hmoves, safe_unmapRegion hholds e⟩

/-- A store into a new record. -/
theorem safe_store {Q R : Vdev Chan → Prop} {field : VdevStore Chan} {k : Unit → Prog (iface Chan) α}
    (hh : Holds i (some chan) (some m) (some v) true s) (hv : Has v (.building i) Q s)
    (hQ : ∀ d a, Q d → Q { d with active := a }) (hR : ∀ d, Q d → R (d.store field))
    (hk : ∀ t, Holds i (some chan) (some m) (some v) true t → Has v (.building i) R t →
      ((outline side rules).view i).Safe post (k ()) t) :
    ((outline side rules).view i).Safe post (call (.store v field) >>= k) s := by
  refine safe_step (fun t => Holds i (some chan) (some m) (some v) true t ∧ Has v (.building i) Q t) ⟨hh, hv⟩
    (fun _ _ h hk => ⟨h.1.stable hk, h.2.stable rfl hQ hk⟩) (fun t ht _ => ⟨by simp [Op.touches, ht.2.isLive], trivial⟩)
    fun t r ht hi _ => ?_
  obtain ⟨d, hd, hq⟩ := ht.2
  obtain ⟨hinv, hmoves, hholds, hheap⟩ := step_store hi ht.1 hd field
  exact ⟨hinv, hmoves, hk _ hholds ⟨_, hheap, hR d hq⟩⟩

/-- The last two steps: the record is listed, and its name is copied. -/
theorem safe_listAddTail {name : String} (hh : Holds i (some chan) (some m) (some v) true s)
    (hname : (s.held i).registered = name)
    (hv : Has v (.registered i) (fun d => d.channel = chan ∧ d.mappedShmBase = some m ∧ d.name = name) s) :
    ((outline side rules).view i).Safe (Opened rules.Patient i)
      (.act (.listAddTail v) fun _ => .act (.loadName v) fun name => .ret (.ok (snprintf ("/dev/" ++ name)))) s := by
  refine safe_step (fun t => Holds i (some chan) (some m) (some v) true t ∧ (t.held i).registered = name ∧
      Has v (.registered i) (fun d => d.channel = chan ∧ d.mappedShmBase = some m ∧ d.name = name) t) ⟨hh, hname, hv⟩
    (fun _ _ h hk => ⟨h.1.stable hk, by rw [hk.held]; exact h.2.1, h.2.2.stable rfl (fun _ _ hd => hd) hk⟩)
    (fun t ht hi => ⟨fun w hw _ => ?_, trivial⟩) fun t r ht hi _ => ?_
  · obtain rfl | hw := List.mem_cons.mp hw
    · exact ht.2.2.isLive
    · exact hi.live_of_listed hw
  · obtain ⟨hholds, hreg, d, hd, hchan, hm, hdname⟩ := ht
    obtain ⟨hinv, hmoves, hcopies⟩ := step_listAddTail hi hholds hd hchan hm (hreg.trans hdname.symm)
    refine ⟨hinv, hmoves, safe_step (Copies i v) hcopies (fun _ _ h hk => h.stable hk) (fun u hu hi => ⟨fun w hw hp => ?_, trivial⟩)
      fun u name hu hi hallowed => ?_⟩
    · obtain rfl := List.mem_singleton.mp hw
      obtain ⟨d, p, hd, -, -⟩ := hi.names (hp w rfl) i w hu.naming
      rw [hd]
      rfl
    · obtain ⟨hinv, hmoves, hholds, hreg⟩ := step_loadName hi hu name
      refine ⟨hinv, hmoves, fun w hw _ => ⟨hholds.stable hw, ?_⟩⟩
      rintro _ ⟨⟩ hp
      obtain ⟨d, p, hd, -, hdname⟩ := hi.names hp i v hu.naming
      rw [hw.held, hreg, hallowed d p hd, hdname]

/-- A new record is filled in and registered. -/
theorem safe_registerVdev {shmBase shmSize : UInt64} {id : Nat} (hh : Holds i (some chan) (some m) (some v) true s)
    (hv : Has v (.building i) (fun _ => True) s) :
    ((outline side rules).view i).Safe (Opened rules.Patient i) (registerVdev side chan m shmBase shmSize v id) s := by
  -- name, id, key
  refine safe_store (R := fun _ => True) hh hv (fun _ _ h => h) (fun _ h => h) fun t hh hv => ?_
  refine safe_store (R := fun _ => True) hh hv (fun _ _ h => h) (fun _ h => h) fun t hh hv => ?_
  refine safe_store (R := fun d => d.channel = chan) hh hv (fun _ _ h => h) (fun _ _ => rfl) fun t hh hv => ?_
  -- shm_base, shm_size, mapped_shm_base
  refine safe_store (R := fun d => d.channel = chan) hh hv (fun _ _ h => h) (fun _ h => h) fun t hh hv => ?_
  refine safe_store (R := fun d => d.channel = chan) hh hv (fun _ _ h => h) (fun _ h => h) fun t hh hv => ?_
  refine safe_store (R := fun d => d.channel = chan ∧ d.mappedShmBase = some m) hh hv (fun _ _ h => h)
    (fun _ h => ⟨h, rfl⟩) fun t hh hv => ?_
  -- the endpoint
  refine safe_store (R := fun d => d.channel = chan ∧ d.mappedShmBase = some m) hh hv (fun _ _ h => h)
    (fun _ h => h) fun t hh hv => ?_
  refine safe_step (fun u => Holds i (some chan) (some m) (some v) true u ∧
      Has v (.building i) (fun d => d.channel = chan ∧ d.mappedShmBase = some m) u) ⟨hh, hv⟩
    (fun _ _ h hk => ⟨h.1.stable hk, h.2.stable rfl (fun _ _ h => h) hk⟩)
    (fun t ht _ => ⟨by simp [Op.touches, ht.2.isLive], trivial⟩) fun u result hu hi _ => ?_
  obtain ⟨hholds, d, hd, hchan, hm⟩ := hu
  cases result with
  | ok x =>
      obtain ⟨hinv, hmoves, hholds, hheap, hname⟩ := step_miscRegister hi hholds hd
      exact ⟨hinv, hmoves, safe_listAddTail hholds hname ⟨d, hheap, hchan, hm, rfl⟩⟩
  | error e =>
      refine ⟨hi, .refl i _, ?_⟩
      refine safe_step (fun u => Holds i (some chan) (some m) (some v) true u ∧ Has v (.building i) (fun _ => True) u)
        ⟨hholds, d, hd, trivial⟩ (fun _ _ h hk => ⟨h.1.stable hk, h.2.stable rfl (fun _ _ h => h) hk⟩)
        (fun t ht _ => ⟨by simp [Op.touches], trivial⟩) fun w r hw hi _ => ?_
      obtain ⟨hinv, hmoves, hholds⟩ := step_unreserve hi hw.1
      exact ⟨hinv, hmoves, safe_kfree_new hholds hw.2 e⟩

/-- A record and a place are obtained for a prepared region. -/
theorem safe_createVdev {shmBase shmSize : UInt64} (hh : Holds i (some chan) (some m) none false s) :
    ((outline side rules).view i).Safe (Opened rules.Patient i) (createVdev side chan m shmBase shmSize) s := by
  refine safe_step (Holds i (some chan) (some m) none false) hh (fun _ _ h hk => h.stable hk)
    (fun _ _ _ => ⟨by simp [Op.touches], trivial⟩) fun t v ht hi hallowed => ?_
  cases v with
  | none => exact ⟨hi, .refl i _, safe_unmapRegion ht .ENOMEM⟩
  | some v =>
      obtain ⟨hinv, hmoves, hholds, hheap⟩ := step_kzallocVdev hi ht (hallowed v rfl)
      refine ⟨hinv, hmoves, ?_⟩
      refine safe_step (fun u => Holds i (some chan) (some m) (some v) false u ∧ Has v (.building i) (fun _ => True) u)
        ⟨hholds, _, hheap, trivial⟩ (fun _ _ h hk => ⟨h.1.stable hk, h.2.stable rfl (fun _ _ h => h) hk⟩)
        (fun _ _ _ => ⟨by simp [Op.touches], trivial⟩) fun u id hu hi hallowed => ?_
      cases id with
      | none =>
          exact ⟨hi, .refl i _, safe_kfree_new hu.1 hu.2 .ENOSPC⟩
      | some id =>
          obtain ⟨hinv, hmoves, hholds⟩ := step_reserve hi hu.1 hallowed
          exact ⟨hinv, hmoves, safe_registerVdev hholds hu.2⟩

/-- Preparing the region leaves the registry alone. -/
theorem safe_prepare {size : UInt64} {iterations : Nat} (hh : Holds i (some chan) (some m) none false s) :
    ((outline side rules).view i).Safe (fun _ => Holds i (some chan) (some m) none false)
      (side.prepare chan m size iterations) s := by
  refine View.Safe.of_each (fun _ => trivial) (fun _ _ h hk _ => h.stable hk) (Q := Quiet) (fun o t ho => ?_)
    (fun o t r u ho ht hi hu => ?_) (side.quiet chan m size iterations) hh
  · cases o <;> first | exact ho.elim | exact ⟨by simp [Op.touches], trivial⟩
  · obtain ⟨-, rfl⟩ := hu
    have hafter : after i t o r = t := by
      cases o <;> first | exact ho.elim | rfl
    rw [hafter]
    exact ⟨hi, .refl i _, ht⟩

/-- The region is mapped and prepared. -/
theorem safe_mapChannel {shmBase shmSize : UInt64} {iterations : Nat} (hh : Holds i (some chan) none none false s) :
    ((outline side rules).view i).Safe (Opened rules.Patient i) (mapChannel side chan iterations shmBase shmSize) s := by
  refine safe_step (Holds i (some chan) none none false) hh (fun _ _ h hk => h.stable hk)
    (fun _ _ _ => ⟨by simp [Op.touches], trivial⟩) fun t m ht hi hallowed => ?_
  cases m with
  | none => exact ⟨hi, .refl i _, safe_rollbackChannel ht .ENOMEM⟩
  | some m =>
      obtain ⟨hinv, hmoves, hholds⟩ := step_memremap shmBase shmSize hi ht (hallowed m rfl)
      refine ⟨hinv, hmoves, View.Safe.bind (p := side.prepare chan m shmSize iterations)
        ((safe_prepare hholds).mono fun result u _ hu => ?_)⟩
      cases result with
      | error e => exact safe_unmapRegion hu e
      | ok x => exact safe_createVdev hu

/-- `ivc_publish_channel`, `ivc_subscribe_channel` -/
theorem safe_openChannel {expectedShmSize : UInt64} {iterations : Nat} (hh : Holds i none none none false s) :
    ((outline side rules).view i).Safe (Opened rules.Patient i)
      (openChannel side chan expectedShmSize iterations) s := by
  have hstable (t u : State Chan) (h : Holds i none none none false t) (hk : Kept i t u) :
      Holds i none none none false u := h.stable hk
  have hpre (o : Op Chan) (ho : ∀ t, o.touches t = [] ∧ Ready i t o) (t : State Chan) : Pre rules.Patient i o t :=
    ⟨by simp [(ho t).1], (ho t).2⟩
  have hfailed (e : Errno) (t : State Chan) (ht : Holds i none none none false t) :
      ((outline side rules).view i).Safe (Opened rules.Patient i) (.ret (.error e)) t :=
    fun u hu _ => ⟨ht.stable hu, by simp⟩
  have hfree (e : Errno) (t : State Chan) (ht : Holds i none none none false t) :
      ((outline side rules).view i).Safe (Opened rules.Patient i) (.act .kfreeOutput fun _ => .ret (.error e)) t :=
    safe_quiet _ ht hstable (fun _ _ => rfl) (fun t _ _ => hpre .kfreeOutput (fun _ => ⟨rfl, trivial⟩) t)
      fun u _ hu _ _ => hfailed e u hu
  refine safe_quiet _ hh hstable (fun _ _ => rfl) (fun t _ _ => hpre .kzallocOutput (fun _ => ⟨rfl, trivial⟩) t)
    fun t allocated ht _ _ => ?_
  cases allocated with
  | false => exact hfailed .ENOMEM t ht
  | true =>
      refine safe_quiet _ ht hstable (fun _ _ => rfl) (fun t _ _ => hpre .kva2pa (fun _ => ⟨rfl, trivial⟩) t)
        fun t shmBasePtr ht _ _ => ?_
      refine safe_quiet _ ht hstable (fun _ _ => rfl) (fun t _ _ => hpre .kva2pa (fun _ => ⟨rfl, trivial⟩) t)
        fun t shmSizePtr ht _ _ => ?_
      change View.Safe _ _ (ite (shmBasePtr = ~~~0 ∨ shmSizePtr = ~~~0) _ _) t
      split
      · exact hfree .EFAULT t ht
      · refine safe_step (Holds i none none none false) ht hstable (fun t _ _ => hpre (.hvcOpen chan expectedShmSize) (fun _ => ⟨rfl, trivial⟩) t)
          fun t verdict ht hi hallowed => ?_
        obtain ⟨hinv, hmoves, hholds⟩ := step_hvcOpen expectedShmSize hi ht fun hon => hon.opens _ _ _ hallowed
        refine ⟨hinv, hmoves, ?_⟩
        change View.Safe _ _ (ite (hvcFailed verdict = true) _ _) _
        split
        · next hfail =>
          rw [if_pos hfail] at hholds
          exact hfree Errno.EIO _ hholds
        · next hok =>
          rw [if_neg hok] at hholds
          refine safe_quiet (Holds i (some chan) none none false) hholds (fun _ _ h hk => h.stable hk) (fun _ _ => rfl)
            (fun t _ _ => hpre .loadOutput (fun _ => ⟨rfl, trivial⟩) t) fun t output ht _ _ => ?_
          refine safe_quiet (Holds i (some chan) none none false) ht (fun _ _ h hk => h.stable hk) (fun _ _ => rfl)
            (fun t _ _ => hpre .kfreeOutput (fun _ => ⟨rfl, trivial⟩) t) fun t _ ht _ _ => ?_
          exact safe_mapChannel ht

/-! ## closing a channel -/

/-- One of the last steps. -/
theorem safe_closing {o : Op Chan} {k : (iface Chan).Res o → Prog (iface Chan) α} {p : Phase} {Q : Vdev Chan → Prop}
    (hc : Closes i v p Q s) (hp : p.thread = some i) (hQ : ∀ d a, Q d → Q { d with active := a })
    (htouches : ∀ t, ∀ w ∈ o.touches t, w = v ∨ w ∈ t.list)
    (hready : ∀ t, Closes i v p Q t → Ready i t o)
    (hstep : ∀ t r d, Holds i none none (some v) false t → t.heap v = .live d p → Q d →
      Inv rules.Honest rules.Patient t → Allowed rules t o r →
      Inv rules.Honest rules.Patient (after i t o r) ∧ Moves i t (after i t o r) ∧
        ((outline side rules).view i).Safe post (k r) (after i t o r)) :
    ((outline side rules).view i).Safe post (.act o k) s := by
  refine safe_step (Closes i v p Q) hc (fun _ _ h hk => h.stable hp hQ hk)
    (fun t ht hi => ⟨fun w hw _ => ?_, hready t ht⟩) fun t r ht hi hallowed => ?_
  · obtain rfl | hw := htouches t w hw
    · exact ht.2.isLive
    · exact hi.live_of_listed hw
  · obtain ⟨hholds, d, hd, hq⟩ := ht
    exact hstep t r d hholds hd hq hi hallowed

/-- The device is gone: its record is taken off the list, unmapped and freed. -/
theorem safe_dismantle (hc : Closes i v (.withdrawn i) (fun _ => True) s) :
    ((outline side rules).view i).Safe (fun _ => Holds i none none none false)
      (do
        call (.miscDeregister v)
        call (.listDel v)
        let m : Option Nat ← call (.loadMapped v)
        call (.memunmap m)
        call (.kfree v)
        pure (.ok ()) : Prog (iface Chan) (Except Errno Unit)) s := by
  refine safe_closing hc rfl (fun _ _ h => h) (by simp [Op.touches]) (fun _ _ => trivial)
    fun t _ d hh hd _ hi hallowed => ?_
  obtain ⟨hinv, hmoves, hh, hd⟩ := step_miscDeregister hi hh hd hallowed
  refine ⟨hinv, hmoves, ?_⟩
  refine safe_closing (Q := fun _ => True) ⟨hh, d, hd, trivial⟩ rfl (fun _ _ h => h) (by simp [Op.touches])
    (fun _ _ => trivial) fun t _ d hh hd _ hi _ => ?_
  obtain ⟨hinv, hmoves, hh, hd⟩ := step_listDel hi hh hd
  refine ⟨hinv, hmoves, ?_⟩
  refine safe_closing (Q := fun _ => True) ⟨hh, d, hd, trivial⟩ rfl (fun _ _ h => h) (by simp [Op.touches])
    (fun _ _ => trivial) fun t m d hh hd _ hi hallowed => ?_
  refine ⟨hi, .refl i t, ?_⟩
  -- the mapping is the one in the record
  have hm : m = d.mappedShmBase := hallowed d _ hd
  refine safe_closing (Q := fun d => d.mappedShmBase = m) ⟨hh, d, hd, hm.symm⟩ rfl (fun _ _ h => h) (by simp [Op.touches])
    (fun u hu w hw => ?_) fun t _ d hh hd hm hi _ => ?_
  · obtain ⟨hholds, d, hd, hm⟩ := hu
    rw [hholds.vdev] at hw
    cases hw
    exact ⟨d, hd, hm.symm⟩
  · rw [← hm]
    obtain ⟨hinv, hmoves, hh, hd⟩ := step_memunmap_vdev hi hh hd
    refine ⟨hinv, hmoves, ?_⟩
    refine safe_closing (Q := fun _ => True) ⟨hh, d, hd, trivial⟩ rfl (fun _ _ h => h) (by simp [Op.touches])
      (fun u hu => ?_) fun t _ d hh hd _ hi hallowed => ?_
    · obtain ⟨-, d, hd, -⟩ := hu
      exact ⟨by rw [hd]; rfl, by rw [hd]; rfl⟩
    · obtain ⟨hinv, hmoves, hh⟩ := step_kfree hi hh hd fun hp => hp t v hallowed
      exact ⟨hinv, hmoves, fun u hu _ => hh.stable hu⟩

/-- `ivc_unpublish_channel`, `ivc_unsubscribe_channel` -/
theorem safe_closeChannel (hh : Holds i none none none false s) :
    ((outline side rules).view i).Safe (fun _ => Holds i none none none false) (closeChannel chan) s := by
  have hfailed (e : Errno) (t : State Chan) (ht : Holds i none none none false t) :
      ((outline side rules).view i).Safe (fun _ => Holds i none none none false)
        (.ret (.error e) : Prog (iface Chan) (Except Errno Unit)) t := fun u hu _ => ht.stable hu
  refine safe_step (Holds i none none none false) hh (fun _ _ h hk => h.stable hk)
    (fun t _ hi => ⟨fun w hw _ => hi.live_of_listed hw, trivial⟩) fun t found ht hi hallowed => ?_
  cases found with
  | missing => exact ⟨hi, .refl i t, hfailed .ENOENT t ht⟩
  | busy => exact ⟨hi, .refl i t, hfailed .EBUSY t ht⟩
  | taken v =>
      obtain ⟨hinv, hmoves, hholds, ⟨d, hd, hchan⟩, hfirst⟩ := step_beginRemoval hi ht hallowed.symm
      refine ⟨hinv, hmoves, ?_⟩
      -- While the lock is free the record stays marked, and stays the first of its channel.
      refine safe_step (fun u => Closes i v (.removing i) (fun d => d.channel = chan) u ∧
          u.list.find? (u.hasChannel chan) = some v) ⟨⟨hholds, d, hd, hchan⟩, hfirst⟩ (fun u w hu hk => ?_)
        (fun _ _ _ => ⟨by simp [Op.touches], trivial⟩) fun u verdict hu hi hallowed => ?_
      · exact first_stable hu hk
      · obtain ⟨hclosing, hfirst⟩ := hu
        cases hfail : hvcFailed verdict with
        | true =>
            rw [after_hvcClose_failed hfail]
            refine ⟨hi, .refl i u, ?_⟩
            change View.Safe _ _ (ite (hvcFailed verdict = true) _ _) _
            rw [if_pos hfail]
            refine safe_step (fun u => Closes i v (.removing i) (fun d => d.channel = chan) u ∧
                u.list.find? (u.hasChannel chan) = some v) ⟨hclosing, hfirst⟩ (fun u w hu hk => first_stable hu hk)
              (fun w hw _ => ⟨?_, ?_⟩) fun w _ hw hi _ => ?_
            · simp [Op.touches, hw.1.2.isLive]
            · obtain ⟨⟨-, d, hd, hchan⟩, hfirst⟩ := hw
              exact ⟨d, hd, by rw [hchan]; exact hfirst⟩
            · obtain ⟨⟨hholds, d, hd, -⟩, -⟩ := hw
              obtain ⟨hinv, hmoves, hholds⟩ := step_endRemoval hi hholds hd
              exact ⟨hinv, hmoves, hfailed Errno.EIO _ hholds⟩
        | false =>
            obtain ⟨hholds, d, hd, hchan⟩ := hclosing
            obtain ⟨hinv, hmoves, hholds, hd⟩ := step_hvcClose hi hholds hd hchan hfail fun hon => by
              simpa [hfail] using hon.closes _ _ _ hallowed
            refine ⟨hinv, hmoves, ?_⟩
            change View.Safe _ _ (ite (hvcFailed verdict = true) _ _) _
            rw [if_neg (by simp [hfail])]
            exact safe_dismantle ⟨hholds, d, hd, trivial⟩

/-! ## files -/

/-- `axivc_publisher_open`, `axivc_subscriber_open` -/
theorem safe_openFile (hh : Holds i none none none false s) (hf : s.files f = some ⟨v, .opening i⟩) :
    ((outline side rules).view i).Safe (fun result => Post rules.Patient i (.fileOpened f v result)) (openFile f v) s := by
  refine safe_step (fun t => Holds i none none none false t ∧ t.files f = some ⟨v, .opening i⟩) ⟨hh, hf⟩
    (fun _ _ h hk => ⟨h.1.stable hk, (hk.running f v).1 h.2⟩) (fun t ht hi => ?_) fun t result ht hi hallowed => ?_
  · obtain ⟨d, p, hd, -⟩ := hi.live_of_running ht.2 rfl
    exact ⟨by simp [Op.touches, hd, Cell.isLive], ht.2⟩
  · cases result with
    | error e => exact ⟨hi, .refl i t, fun u hu _ => ⟨ht.1.stable hu, (hu.running f v).1 ht.2⟩⟩
    | ok x =>
        obtain ⟨hinv, hmoves, hfile⟩ := step_activate hi ht.2 hallowed.symm
        refine ⟨hinv, hmoves, fun u hu _ => ⟨?_, (hu.running f v).2.1 hfile⟩⟩
        exact ((ht.1.onVdev _ _).setFile).stable hu

/-- A step of a call that reads or writes. -/
theorem safe_io {o : Op Chan} {k : (iface Chan).Res o → Prog (iface Chan) α} {io : Finset Nat}
    (hh : Holds i none none none false s) (hf : s.files f = some ⟨v, .usable io⟩) (hi : i ∈ io)
    (hafter : ∀ t r, after i t o r = t) (htouches : ∀ t, o.touches t = [v])
    (hready : ∀ t, Ready i t o ↔ ∃ f io, t.files f = some ⟨v, .usable io⟩ ∧ i ∈ io)
    (hk : ∀ t r io, Holds i none none none false t → t.files f = some ⟨v, .usable io⟩ → i ∈ io →
      ((outline side rules).view i).Safe post (k r) t) :
    ((outline side rules).view i).Safe post (.act o k) s := by
  refine safe_quiet (fun t => Holds i none none none false t ∧ ∃ io, t.files f = some ⟨v, .usable io⟩ ∧ i ∈ io)
    ⟨hh, io, hf, hi⟩ (fun t u h hk => ⟨h.1.stable hk, ?_⟩) hafter (fun t ht hi => ?_) fun t r ht _ _ => ?_
  · obtain ⟨-, io, hf, hi⟩ := h
    exact hk.io f v io hf hi
  · obtain ⟨-, io, hf, hmem⟩ := ht
    obtain ⟨d, p, hd, -⟩ := hi.live_of_open (f := f) (v := v) (by rw [hf]; rfl)
    exact ⟨by simp [htouches, hd, Cell.isLive], (hready t).mpr ⟨f, io, hf, hmem⟩⟩
  · obtain ⟨hh, io, hf, hi⟩ := ht
    exact hk t r io hh hf hi

theorem safe_useEndpoint (n : Nat) {io : Finset Nat} (hh : Holds i none none none false s)
    (hf : s.files f = some ⟨v, .usable io⟩) (hi : i ∈ io) :
    ((outline side rules).view i).Safe (fun _ => Post rules.Patient i (.fileDone f v (.ok ())))
      (useEndpoint v n) s := by
  induction n generalizing s io with
  | zero =>
      intro t ht _
      exact ⟨hh.stable ht, ht.io f v io hf hi⟩
  | succ n ih =>
      exact safe_io hh hf hi (fun _ _ => rfl) (fun _ => rfl) (fun _ => Iff.rfl) fun t _ io hh hf hi => ih hh hf hi

/-- `axivc_publisher_read`, `axivc_publisher_write`, `axivc_subscriber_read`,
`axivc_subscriber_write` -/
theorem safe_fileIo {n : Nat} {io : Finset Nat} (hh : Holds i none none none false s)
    (hf : s.files f = some ⟨v, .usable io⟩) (hi : i ∈ io) :
    ((outline side rules).view i).Safe (fun result => Post rules.Patient i (.fileDone f v result)) (fileIo v n) s := by
  refine safe_io hh hf hi (fun _ _ => rfl) (fun _ => rfl) (fun _ => Iff.rfl) fun t active io hh hf hi => ?_
  cases active with
  | false => exact fun u hu _ => ⟨hh.stable hu, hu.io f v io hf hi⟩
  | true =>
      refine View.Safe.bind (p := useEndpoint v n) ((safe_useEndpoint n hh hf hi).mono fun _ u _ hpost w hw _ => ?_)
      obtain ⟨hh, io, hf, hi⟩ := hpost
      exact ⟨hh.stable hw, hw.io f v io hf hi⟩

/-- `axivc_publisher_release`, `axivc_subscriber_release` -/
theorem safe_releaseFile (hh : Holds i none none none false s) (hf : s.files f = some ⟨v, .releasing i⟩) :
    ((outline side rules).view i).Safe (fun _ => Holds i none none none false) (releaseFile f v) s := by
  refine safe_step (fun t => Holds i none none none false t ∧ t.files f = some ⟨v, .releasing i⟩) ⟨hh, hf⟩
    (fun _ _ h hk => ⟨h.1.stable hk, (hk.running f v).2.2 h.2⟩) (fun t ht hi => ?_) fun t _ ht hi _ => ?_
  · obtain ⟨d, p, hd, -⟩ := hi.live_of_open (f := f) (v := v) (by rw [ht.2]; rfl)
    exact ⟨by simp [Op.touches, hd, Cell.isLive], ht.2⟩
  · obtain ⟨hinv, hmoves⟩ := step_deactivate hi ht.2
    exact ⟨hinv, hmoves, fun u hu _ => ((ht.1.onVdev _ _).setFile).stable hu⟩

/-! ## the run rule -/

/-- Every call that begins is safe. -/
theorem outline_starts (side : Side Chan) (rules : Rules Chan) : (outline side rules).Starts := by
  intro i call s t h hidle hbegins
  cases call with
  | openChannel chan size iterations =>
      cases hbegins
      obtain ⟨hinv, hmoves, hh⟩ := begin_call h hidle
      exact ⟨hinv, hmoves, View.Safe.bind ((safe_openChannel hh).mono fun r u _ hpost w hw _ =>
        ⟨hpost.1.stable hw, fun name hname hp => by rw [hw.held]; exact hpost.2 name hname hp⟩)⟩
  | closeChannel chan =>
      cases hbegins
      obtain ⟨hinv, hmoves, hh⟩ := begin_call h hidle
      exact ⟨hinv, hmoves, View.Safe.bind ((safe_closeChannel hh).mono fun r u _ hpost w hw _ => hpost.stable hw)⟩
  | openFile f v =>
      obtain ⟨⟨d, p, hv, hreg⟩, hnone, rfl⟩ := hbegins
      obtain ⟨hinv, hmoves⟩ := step_stage h hv (i := i) (f := f) (x := some ⟨v, .opening i⟩) (by rw [hnone]; rfl)
        (by rintro file ⟨⟩ _; exact ⟨rfl, hreg⟩) (by simp [hnone]) (by simp [hnone])
      refine ⟨hinv, hmoves, View.Safe.bind ((safe_openFile hidle.setFile (Function.update_self ..)).mono
        fun r u _ hpost w hw _ => ?_)⟩
      cases r with
      | ok x => exact ⟨hpost.1.stable hw, (hw.running f v).2.1 hpost.2⟩
      | error e => exact ⟨hpost.1.stable hw, (hw.running f v).1 hpost.2⟩
  | fileIo f v n =>
      obtain ⟨io, hf, rfl⟩ := hbegins
      obtain ⟨hinv, hmoves⟩ := step_io h hf (i := i) (insert i io) fun j _ hmem => Finset.mem_insert_of_mem hmem
      exact ⟨hinv, hmoves, View.Safe.bind ((safe_fileIo hidle.setFile (Function.update_self ..)
        (Finset.mem_insert_self i io)).mono fun r u _ hpost w hw _ =>
          ⟨hpost.1.stable hw, by obtain ⟨-, io, hf, hi⟩ := hpost; exact hw.io f v io hf hi⟩)⟩
  | releaseFile f v =>
      obtain ⟨hf, rfl⟩ := hbegins
      obtain ⟨d, p, hv, -⟩ := h.live_of_open (f := f) (v := v) (by rw [hf]; rfl)
      obtain ⟨hinv, hmoves⟩ := step_stage h hv (i := i) (f := f) (x := some ⟨v, .releasing i⟩) (by rw [hf]; rfl)
        (by rintro file ⟨⟩ ⟨⟩) (by simp [hf]) (by simp [hf])
      exact ⟨hinv, hmoves, View.Safe.bind ((safe_releaseFile hidle.setFile (Function.update_self ..)).mono
        fun r u _ hpost w hw _ => hpost.stable hw)⟩

/-- Every configuration that any interleaving of calls reaches is good. -/
theorem good_of_reachable {c : Config Nat (iface Chan) (State Chan) Ret}
    (h : (machine side rules).Reachable .init c) : (outline side rules).Good c :=
  (outline side rules).good (outline_starts side rules) (inv_init _ _) holds_init h

end Calls

end Registry

end Axivc
