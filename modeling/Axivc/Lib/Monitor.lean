import Axivc.Lib.Rely

/-!
# Axivc.Lib.Monitor

Calls that work on one record under one lock.

Each call is a thread of its own: it obtains the lock, works on the record,
gives the lock back and returns.  A call keeps a log of its own, of what it
did and was answered.  `Monitor.inside` is the view from within the lock,
where nothing interferes; `Monitor.safe_locked` turns a proof from within
into one for the machine in which any number of calls interleave, and
`Monitor.reachable` says what then holds in every run.
-/

namespace Rely

variable {I : Iface} {S G Call Ret : Type}

/-- The record, the holder of the lock, and the log of every call so far. -/
structure Guarded (S G : Type) where
  record : S
  owner : Option Nat
  log : Nat → Option G

/-- How operations act on a record under a lock. -/
structure Monitor (I : Iface) (S G : Type) where
  /-- whether the answer to an operation is that the lock has been obtained -/
  takes : (o : I.Op) → I.Res o → Bool
  /-- whether the operation gives the lock back -/
  gives : I.Op → Bool
  /-- the answers an operation can have on a record -/
  allows : (o : I.Op) → S → I.Res o → Prop
  /-- the record after an operation, by its answer -/
  act : (o : I.Op) → I.Res o → S → S
  /-- the log of a call after an operation, by its answer and the record before it -/
  note : (o : I.Op) → I.Res o → S → G → G

namespace Monitor

variable (M : Monitor I S G)

/-- The state after an operation of call `i`, by its answer. -/
def after (i : Nat) (o : I.Op) (r : I.Res o) (s : Guarded S G) : Guarded S G where
  record := M.act o r s.record
  owner := if M.takes o r then some i else if M.gives o then none else s.owner
  log := Function.update s.log i ((s.log i).map (M.note o r s.record))

/-- An operation of call `i`. -/
structure Exec (i : Nat) (o : I.Op) (s : Guarded S G) (r : I.Res o) (t : Guarded S G) : Prop where
  allowed : M.allows o s.record r
  free : M.takes o r = true → s.owner = none
  eq : t = M.after i o r s

/-- Any number of calls. -/
def machine (body : Call → Prog I Ret) (fresh : Call → G) : Machine Nat I (Guarded S G) Call Ret where
  body _ call _ := body call
  exec := M.Exec
  start i call s t := s.log i = none ∧ t = { s with log := Function.update s.log i (some (fresh call)) }
  finish _ _ s t := t = s
  env _ _ := False

/-- No call has been made. -/
def initial (record : S) : Guarded S G := ⟨record, none, fun _ => none⟩

/-- The view from within the lock: the record and the call's own log. -/
def inside (P : I.Op → G → Prop) : View I (S × G) where
  exec o s r t := M.allows o s.1 r ∧ M.takes o r = false ∧ t = (M.act o r s.1, M.note o r s.1 s.2)
  inv _ := True
  pre o s := M.gives o = false ∧ P o s.2
  wait _ := True
  rely s t := t = s
  guar _ _ := True
  rely_refl _ := rfl
  rely_trans h h' := h'.trans h

/-- What no other call changes: the log of call `i`, and under the lock the
record. -/
structure Kept (i : Nat) (s t : Guarded S G) : Prop where
  log : t.log i = s.log i
  owner : t.owner = some i ↔ s.owner = some i
  record : s.owner = some i → t.record = s.record

theorem Kept.refl (i : Nat) (s : Guarded S G) : Kept i s s := ⟨rfl, Iff.rfl, fun _ => rfl⟩

theorem Kept.trans {i : Nat} {s t u : Guarded S G} (h : Kept i s t) (h' : Kept i t u) : Kept i s u :=
  ⟨h'.log.trans h.log, h'.owner.trans h.owner, fun ho => (h'.record (h.owner.mpr ho)).trans (h.record ho)⟩

section Outline

variable (body : Call → Prog I Ret) (fresh : Call → G) (J : S → Prop) (P : I.Op → G → Prop) (Q : Ret → G → Prop)

/-- The outline: `J` holds of the record while the lock is free, `P` of the log
of a call when it issues an operation, `Q` of it when the call returns. -/
def outline : Machine.Outline (M.machine body fresh) where
  inv s := s.owner = none → J s.record
  pre i o s := ∀ g, s.log i = some g → P o g
  rely := Kept
  guar i s t := ∀ j, j ≠ i → Kept j s t
  post i a s := s.owner ≠ some i ∧ ∃ g, s.log i = some g ∧ Q a g
  idle i s := s.owner ≠ some i
  rely_refl := Kept.refl
  rely_trans _ {_ _ _} h h' := h.trans h'
  guar_rely hij _ h := h _ (Ne.symm hij)
  env_rely _ h := h.elim
  idle_stable h hr _ := fun ho => h (hr.owner.mp ho)
  finish_ok hi hpost hf := by
    obtain rfl := hf
    exact ⟨hi, fun j _ => .refl j _, hpost.1⟩

variable {M body fresh J P Q} {i : Nat} {s t : Guarded S G} {g : G}

/-- Others keep their logs in any case, and the lock. -/
theorem Exec.kept {o : I.Op} {r : I.Res o} (h : M.Exec i o s r t) (hown : s.owner = some i ∨
      (M.gives o = false ∧ M.act o r s.record = s.record)) : ∀ j, j ≠ i → Kept j s t := by
  intro j hj
  obtain ⟨-, hfree, rfl⟩ := h
  rcases hown with hown | ⟨hgives, hrec⟩
  · refine ⟨Function.update_of_ne hj .., ⟨fun ht => ?_, fun hs => absurd (hs.symm.trans hown) (by simpa using hj)⟩,
      fun hs => absurd (hs.symm.trans hown) (by simpa using hj)⟩
    unfold after at ht
    dsimp only at ht
    split at ht
    · exact absurd (Option.some.inj ht).symm hj
    · split at ht
      · cases ht
      · exact ht
  · refine ⟨Function.update_of_ne hj .., ?_, fun _ => hrec⟩
    unfold after
    cases htakes : M.takes o r with
    | true =>
        rw [hfree htakes]
        simp [hj.symm]
    | false => simp [hgives]

/-- The log of the call itself. -/
theorem Exec.log_self {o : I.Op} {r : I.Res o} (h : M.Exec i o s r t) (hlog : s.log i = some g) :
    t.log i = some (M.note o r s.record g) := by
  rw [h.eq]
  change Function.update s.log i _ i = _
  rw [Function.update_self, hlog, Option.map_some]

/-- **Within the lock**: what holds when nothing interferes holds in the
machine. -/
theorem safe_inside {α : Type} {post : α → S × G → Prop} {p : Prog I α} (hown : s.owner = some i)
    (hlog : s.log i = some g) (h : (M.inside P).Safe post p (s.record, g)) :
    ((M.outline body fresh J P Q).view i).Safe
      (fun a t => t.owner = some i ∧ ∃ g, t.log i = some g ∧ post a (t.record, g)) p s := by
  induction p generalizing s g with
  | ret a =>
      intro t ht _
      have hpost := h _ rfl trivial
      rw [← ht.record hown] at hpost
      exact ⟨ht.owner.mpr hown, g, ht.log.trans hlog, hpost⟩
  | act o k ih =>
      intro t ht hi
      obtain ⟨⟨hgives, hP⟩, hk⟩ := h _ rfl trivial
      have hown' := ht.owner.mpr hown
      have hlog' := ht.log.trans hlog
      refine ⟨fun g' hg' => ?_, fun r u hu => ?_⟩
      · obtain rfl : g = g' := Option.some.inj (hlog'.symm.trans hg')
        exact hP
      · have htakes : M.takes o r = false := by
          by_contra htakes
          have hfree := hu.free (by simpa using htakes)
          rw [hown'] at hfree
          cases hfree
        have hu_owner : u.owner = some i := by
          rw [hu.eq, after, htakes, hgives]
          exact hown'
        refine ⟨fun hnone => ?_, hu.kept (.inl hown'), ih r hu_owner (hu.log_self hlog') ?_⟩
        · rw [hu_owner] at hnone
          cases hnone
        · have hallowed := hu.allowed
          rw [hu.eq]
          change (M.inside P).Safe post (k r) (M.act o r t.record, M.note o r t.record g)
          rw [ht.record hown] at hallowed ⊢
          exact (hk r _ ⟨hallowed, htakes, rfl⟩).2.2
  | spin => exact fun _ _ _ => trivial

/-- **A call** of the usual form: it obtains the lock or returns at once, and
with the lock it does its work, gives the lock back and returns. -/
theorem safe_locked {lock unlock : I.Op} {k : I.Res lock → Prog I Ret} (hown : s.owner ≠ some i)
    (hlog : s.log i = some g) (hlock : M.gives lock = false ∧ ∀ r h, M.act lock r h = h)
    (hunlock : M.gives unlock = true ∧ (∀ r, M.takes unlock r = false) ∧ ∀ r h, M.act unlock r h = h)
    (hP : P lock g)
    (hno : ∀ r h, M.allows lock h r → M.takes lock r = false → ∃ a, k r = .ret a ∧ Q a (M.note lock r h g))
    (hyes : ∀ r h, M.takes lock r = true → J h →
      ∃ inner : Prog I Ret, k r = (inner >>= fun a => .act unlock fun _ => .ret a) ∧
        (M.inside P).Safe (fun a t => J t.1 ∧ P unlock t.2 ∧ ∀ r, Q a (M.note unlock r t.1 t.2)) inner
          (h, M.note lock r h g)) :
    ((M.outline body fresh J P Q).view i).Safe ((M.outline body fresh J P Q).post i) (.act lock k) s := by
  intro t ht hi
  have hown' : t.owner ≠ some i := fun h => hown (ht.owner.mp h)
  have hlog' := ht.log.trans hlog
  refine ⟨fun g' hg' => ?_, fun r u hu => ?_⟩
  · obtain rfl : g = g' := Option.some.inj (hlog'.symm.trans hg')
    exact hP
  have hrec : u.record = t.record := by
    rw [hu.eq]
    exact hlock.2 r t.record
  have hkept := hu.kept (.inr ⟨hlock.1, hlock.2 r t.record⟩)
  have hlog_u := hu.log_self hlog'
  cases htakes : M.takes lock r with
  | false =>
      have howner : u.owner = t.owner := by
        rw [hu.eq, after, htakes, hlock.1]
        rfl
      obtain ⟨a, hka, hq⟩ := hno r _ hu.allowed htakes
      refine ⟨fun hnone => ?_, hkept, ?_⟩
      · rw [hrec]
        exact hi (howner.symm.trans hnone)
      · rw [hka]
        intro v hv _
        exact ⟨fun h => hown' (howner ▸ hv.owner.mp h), _, hv.log.trans hlog_u, hq⟩
  | true =>
      have howner : u.owner = some i := by
        rw [hu.eq, after, htakes]
        rfl
      obtain ⟨inner, hka, hsafe⟩ := hyes r t.record htakes (hi (hu.free htakes))
      refine ⟨fun hnone => ?_, hkept, ?_⟩
      · rw [howner] at hnone
        cases hnone
      · rw [hka]
        refine View.Safe.bind ((safe_inside howner hlog_u (by rw [hrec]; exact hsafe)).mono ?_)
        rintro a v - ⟨hv, gv, hgv, hJ, hPv, hQ⟩ w hw _
        have hw_owner := hw.owner.mpr hv
        have hw_log := hw.log.trans hgv
        refine ⟨fun g' hg' => ?_, fun r' x hx => ?_⟩
        · obtain rfl : gv = g' := Option.some.inj (hw_log.symm.trans hg')
          exact hPv
        have hx_rec : x.record = v.record := by
          rw [hx.eq]
          exact (hunlock.2.2 r' w.record).trans (hw.record hv)
        have hx_owner : x.owner = none := by
          rw [hx.eq, after, hunlock.2.1, hunlock.1]
          rfl
        refine ⟨fun _ => by rw [hx_rec]; exact hJ, hx.kept (.inl hw_owner), fun y hy _ => ⟨fun h => ?_, _,
          hy.log.trans (hx.log_self hw_log), ?_⟩⟩
        · rw [hy.owner, hx_owner] at h
          cases h
        · rw [hw.record hv]
          exact hQ r'

/-- **Every run** of calls that are each safe. -/
theorem reachable (hcalls : ∀ call i s, s.owner ≠ some i → s.log i = some (fresh call) →
      ((M.outline body fresh J P Q).view i).Safe ((M.outline body fresh J P Q).post i) (body call) s)
    {record : S} (hrecord : J record) {c : Config Nat I (Guarded S G) Ret}
    (hc : (M.machine body fresh).Reachable (initial record) c) : (M.outline body fresh J P Q).Good c := by
  refine (M.outline body fresh J P Q).good ?_ (fun _ => hrecord) (fun i => by simp [outline, initial]) hc
  rintro i call s t hi hidle ⟨hnone, rfl⟩
  refine ⟨hi, fun j hj => ⟨Function.update_of_ne hj .., Iff.rfl, fun _ => rfl⟩, ?_⟩
  exact hcalls call i _ hidle (Function.update_self ..)

end Outline

end Monitor

end Rely
