import Axivc.RegistryRuns

/-!
# Axivc.RegistryTenure

How long a record stands for its channel.

From its listing on, a record stands for one channel at the hypervisor, until
some call withdraws the channel; from then on it stands for none, for ever.
No step of any call says otherwise (`act_follows`).  Of two records one only
can stand for a channel, so a call that finds a record of the channel has found
that one, or the channel of that one has been withdrawn before.
-/

namespace Axivc

namespace Registry

open Prog Rely

/-! ## the end of a tenure -/

/-- The channel of the record has been withdrawn. -/
def Phase.isWithdrawn : Phase → Bool
  | withdrawn _ | deregistered _ | unlisted _ | unmapped _ => true
  | _ => false

/-- The channel of the record has been withdrawn. -/
def Cell.isWithdrawn {Chan : Type} : Cell Chan → Bool
  | .live _ p => p.isWithdrawn
  | .freed => true
  | .unused => false

/-- What a step may make of a memory cell: the channel stays or is withdrawn,
and what is withdrawn stays so. -/
structure Cell.Follows {Chan : Type} (a b : Cell Chan) : Prop where
  key : ∀ chan, a.key = some chan → b.key = some chan ∨ b.isWithdrawn = true
  withdrawn : a.isWithdrawn = true → b.isWithdrawn = true

variable {Chan : Type}

namespace Cell

theorem Follows.refl (a : Cell Chan) : a.Follows a := ⟨fun _ h => .inl h, fun h => h⟩

/-- A channel that is withdrawn. -/
theorem follows_of_withdrawn {a b : Cell Chan} (h : b.isWithdrawn = true) : a.Follows b := ⟨fun _ _ => .inr h, fun _ => h⟩

/-- A record in another phase, or with other contents, of the same channel. -/
theorem follows_of_key {a b : Cell Chan} (hkey : b.key = a.key) (ha : a.isWithdrawn = false) : a.Follows b where
  key chan h := .inl (hkey.trans h)
  withdrawn h := by rw [ha] at h; cases h

/-- A cell that has not been listed may become anything. -/
theorem follows_of_new {a : Cell Chan} (b : Cell Chan) (hkey : a.key = none) (ha : a.isWithdrawn = false) : a.Follows b where
  key chan h := by rw [hkey] at h; cases h
  withdrawn h := by rw [ha] at h; cases h

end Cell

/-- A record that stands for a channel, or has, is on the list or gone. -/
theorem Phase.onList_or_isGone {p : Phase} (h : p.hasKey = true ∨ p.isWithdrawn = true) : p.onList = true ∨ p.isGone = true := by
  cases p <;> simp_all [Phase.hasKey, Phase.isWithdrawn, Phase.onList, Phase.isGone]

variable {s t : State Chan} {v w : Nat}

theorem State.onVdev_heap_of_ne (s : State Chan) (f : Vdev Chan → Vdev Chan) (g : Phase → Phase) (h : v ≠ w) :
    (s.onVdev w f g).heap v = s.heap v := by
  rw [State.onVdev]
  split
  · exact Function.update_of_ne h ..
  · rfl

theorem onVdev_heap_self {d : Vdev Chan} {p : Phase} (hd : s.heap w = .live d p) (f : Vdev Chan → Vdev Chan) (g : Phase → Phase) :
    (s.onVdev w f g).heap w = .live (f d) (g p) := by
  rw [onVdev_live hd]
  exact Function.update_self ..

/-- A change of one record. -/
theorem follows_onVdev {u : State Chan} (hu : u.heap = s.heap) (w v : Nat) {f : Vdev Chan → Vdev Chan} {g : Phase → Phase}
    (h : ∀ d p, s.heap w = .live d p → (Cell.live d p).Follows (.live (f d) (g p))) :
    (s.heap v).Follows ((u.onVdev w f g).heap v) := by
  rw [← hu] at h ⊢
  by_cases hv : v = w
  · subst hv
    cases hd : u.heap v with
    | live d p =>
        rw [onVdev_heap_self hd]
        exact h d p hd
    | unused | freed =>
        rw [State.onVdev, hd]
        dsimp only
        rw [hd]
        exact .refl _
  · rw [State.onVdev_heap_of_ne u f g hv]
    exact .refl _

/-- A change after which the channel of the record is withdrawn. -/
theorem follows_withdrawn {u : State Chan} (hu : u.heap = s.heap) (w v : Nat) {f : Vdev Chan → Vdev Chan} {g : Phase → Phase}
    (h : ∀ p, (g p).isWithdrawn = true) : (s.heap v).Follows ((u.onVdev w f g).heap v) :=
  follows_onVdev hu w v fun _ p _ => Cell.follows_of_withdrawn (h p)

/-- With the books in balance before and after, a record keeps its channel. -/
theorem channel_of_ledgers {d : Vdev Chan} {p : Phase} {f : Vdev Chan → Vdev Chan} (hs : Ledger s.keyOwner (· ∈ s.keys))
    (ht : Ledger (s.onVdev w f id).keyOwner (· ∈ (s.onVdev w f id).keys)) (hd : s.heap w = .live d p) (hp : p.hasKey = true) :
    (f d).channel = d.channel := by
  have hkey : s.keyOwner (.device w) = some d.channel := by
    simp [State.keyOwner, hd, Cell.key, hp]
  have hkey' : (s.onVdev w f id).keyOwner (.device w) = some (f d).channel := by
    rw [State.keyOwner, onVdev_heap_self hd]
    exact if_pos hp
  -- Somebody has the old channel now, and nobody but this record has had it.
  obtain ⟨o, ho⟩ := (ht.held d.channel).mp (by rw [onVdev_live hd]; exact hs.mem hkey)
  have howner : o = .device w := by
    cases o with
    | call j =>
        rw [State.keyOwner, (onVdev_held s w f id).1] at ho
        exact hs.unique ho hkey
    | device u =>
        by_cases hu : u = w
        · rw [hu]
        · rw [State.keyOwner, State.onVdev_heap_of_ne s f id hu] at ho
          exact hs.unique ho hkey
  rw [howner, hkey'] at ho
  exact Option.some.inj ho

/-- The walk finds the record that stands for the channel, if there is one. -/
theorem eq_of_walk [DecidableEq Chan] {honest patient : Prop} (h : Inv honest patient s) (hon : honest) {chan : Chan} (hw : s.walk chan = .taken w)
    (hv : (s.heap v).key = some chan) : w = v := by
  obtain ⟨d, hd, -, hchan, -⟩ := walk_taken h hw
  have hkey : s.keyOwner (.device w) = some chan := by simp [State.keyOwner, hd, Cell.key, Phase.hasKey, hchan]
  have hkey' : s.keyOwner (.device v) = some chan := hv
  have howner := (h.keys hon).unique hkey hkey'
  exact Owner.device.inj howner

section Steps

variable [DecidableEq Chan] [Inhabited Chan] {side : Side Chan} {rules : Rules Chan}
  {c c' : Config Nat (iface Chan) (State Chan) Ret} {i : Nat}

/-- A record that is listed, or has been, is not registered or listed again. -/
theorem not_listed_again {honest patient : Prop} {o : Op Chan} {r : (iface Chan).Res o} {d : Vdev Chan} {p : Phase}
    (hs : Shape s) (ht : Inv honest patient (after i s o r)) (hmoves : Moves i s (after i s o r)) (hd : s.heap w = .live d p)
    (hgone : ((after i s o r).heap w).isGone = false)
    (hlist : p.onList = true → w ∈ s.list → ¬ Shape (after i s o r)) :
    p.hasKey = false ∧ p.isWithdrawn = false := by
  by_contra hnot
  have hold : p.hasKey = true ∨ p.isWithdrawn = true := by
    cases hk : p.hasKey <;> cases hw : p.isWithdrawn <;> simp_all
  obtain hon | hg := Phase.onList_or_isGone hold
  · refine hlist hon ?_ ht.shape
    rw [hs.listed, hd]
    exact hon
  · have hstays := hmoves.gone w (by rw [hd]; exact hg)
    rw [hgone] at hstays
    cases hstays

/-- The state after a record has been listed. -/
theorem after_listAddTail_live (i : Nat) {d : Vdev Chan} {p : Phase} (hd : s.heap w = .live d p) :
    after i s (.listAddTail w) () =
      { s with
        list := s.list ++ [w]
        reserved := s.reserved.erase i
        heap := Function.update s.heap w (.live d .listed)
        held := Function.update s.held i
          { s.held i with channel := none, mapping := none, vdev := none, naming := some w } } := by
  simp [after_listAddTail, State.onVdev, State.onHeld, hd]

/-- A record that is put on the list has not been there. -/
theorem not_listed_before {honest patient : Prop} {d : Vdev Chan} {p : Phase} (hs : Shape s)
    (ht : Inv honest patient (after i s (.listAddTail w) ())) (hmoves : Moves i s (after i s (.listAddTail w) ()))
    (hd : s.heap w = .live d p) : p.hasKey = false ∧ p.isWithdrawn = false := by
  have hafter := after_listAddTail_live i hd
  have hself : (after i s (.listAddTail w) ()).heap w = .live d .listed := by
    rw [hafter]
    exact Function.update_self ..
  refine not_listed_again hs ht hmoves hd (by rw [hself]; rfl) fun _ hw hshape => ?_
  have hnodup := hshape.nodup
  rw [hafter, List.nodup_append] at hnodup
  exact hnodup.2.2 w hw w (by simp) rfl

/-- A step of a call, seen from one record. -/
theorem act_follows (hc : (outline side rules).Good c) (hon : rules.Honest) {o : Op Chan} {k : (iface Chan).Res o → Prog (iface Chan) Ret}
    (hi : c.thread i = some (.act o k)) {r : (iface Chan).Res o} (hexec : (machine side rules).exec i o c.shared r t) (v : Nat) :
    (c.shared.heap v).Follows (t.heap v) := by
  obtain ⟨hpre, hk⟩ := (hc.2 i).2 _ hi _ (Kept.refl i _) hc.1
  obtain ⟨hinv, hmoves, -⟩ := hk r t hexec
  obtain ⟨hallowed, rfl⟩ := hexec
  have hquiet (h : (after i c.shared o r).heap = c.shared.heap) :
      (c.shared.heap v).Follows ((after i c.shared o r).heap v) := by
    rw [h]
    exact .refl _
  cases o
  case kzallocVdev =>
    cases r with
    | none => exact hquiet rfl
    | some w =>
        rw [after_kzallocVdev]
        change (c.shared.heap v).Follows (Function.update c.shared.heap w _ v)
        by_cases hv : v = w
        · rw [hv, hallowed w rfl]
          exact Cell.follows_of_new _ rfl rfl
        · rw [Function.update_of_ne hv]
          exact .refl _
  case store w field =>
    refine follows_onVdev rfl w v fun d p hd => ?_
    by_cases hp : p.hasKey = true
    · refine Cell.follows_of_key ?_ (by cases p <;> first | rfl | cases hp)
      simp [Cell.key, hp, channel_of_ledgers (hc.1.keys hon) (hinv.keys hon) hd hp]
    · exact ⟨fun chan h => by simp [Cell.key, hp] at h, fun h => h⟩
  case miscRegister w =>
    cases r with
    | error e => exact hquiet rfl
    | ok x =>
        refine follows_onVdev rfl w v fun d p hd => ?_
        have hself : (after i c.shared (.miscRegister w) (.ok ())).heap w = .live d (.registered i) := onVdev_heap_self hd ..
        obtain ⟨hkey, hwithdrawn⟩ := not_listed_again hc.1.shape hinv hmoves hd (by rw [hself]; rfl) fun _ hw hshape => by
          have hon := (hshape.listed w).mp (by rw [after_miscRegister, onVdev_live hd]; exact hw)
          rw [hself] at hon
          cases hon
        exact Cell.follows_of_new _ (by simp [Cell.key, hkey]) hwithdrawn
  case listAddTail w =>
    refine follows_onVdev (by rfl) w v fun d p hd => ?_
    obtain ⟨hkey, hwithdrawn⟩ := not_listed_before hc.1.shape hinv hmoves hd
    exact Cell.follows_of_new _ (by simp [Cell.key, hkey]) hwithdrawn
  case memunmap m =>
    cases hheld : (c.shared.held i).vdev with
    | none => exact hquiet (by rw [after_memunmap, hheld]; rfl)
    | some w =>
        rw [after_memunmap, hheld]
        exact follows_withdrawn (by rfl) w v fun _ => by rfl
  case kfree w =>
    rw [after_kfree]
    change (c.shared.heap v).Follows (Function.update c.shared.heap w .freed v)
    by_cases hv : v = w
    · rw [hv, Function.update_self]
      exact Cell.follows_of_withdrawn rfl
    · rw [Function.update_of_ne hv]
      exact .refl _
  case beginRemoval chan =>
    cases r with
    | missing | busy => exact hquiet rfl
    | taken w =>
        obtain ⟨d, hd, -⟩ := walk_taken hc.1 hallowed.symm
        refine follows_onVdev rfl w v fun d' p hd' => ?_
        cases hd.symm.trans hd'
        exact Cell.follows_of_key rfl rfl
  case hvcClose chan =>
    rw [after_hvcClose]
    split
    · exact follows_withdrawn (by rfl) _ v fun _ => by rfl
    · exact .refl _
  case endRemoval w =>
    obtain ⟨d, hd, -⟩ := hpre.ready
    refine follows_onVdev rfl w v fun d' p hd' => ?_
    cases hd.symm.trans hd'
    exact Cell.follows_of_key rfl rfl
  case miscDeregister w => exact follows_withdrawn (by rfl) w v fun _ => by rfl
  case listDel w => exact follows_withdrawn (by rfl) w v fun _ => by rfl
  case activate f w =>
    cases r with
    | error e => exact hquiet rfl
    | ok x => exact follows_onVdev rfl w v fun d p _ => ⟨fun _ h => .inl h, fun h => h⟩
  case deactivate f w => exact follows_onVdev rfl w v fun d p _ => ⟨fun _ h => .inl h, fun h => h⟩
  case memremap | reserve => cases r <;> exact hquiet rfl
  all_goals exact hquiet rfl

/-- A record that is put on the list stands for the channel that the call has
opened. -/
theorem key_of_listAddTail (hc : (outline side rules).Good c) (hon : rules.Honest) {k : Unit → Prog (iface Chan) Ret}
    (hi : c.thread i = some (.act (.listAddTail w) k)) (hexec : (machine side rules).exec i (.listAddTail w) c.shared () t) :
    ∃ chan, (c.shared.held i).channel = some chan ∧ (t.heap w).key = some chan := by
  obtain ⟨hpre, hk⟩ := (hc.2 i).2 _ hi _ (Kept.refl i _) hc.1
  obtain ⟨hinv, hmoves, -⟩ := hk () t hexec
  obtain ⟨-, rfl⟩ := hexec
  have hlive := hpre.live w (by simp [Op.touches]) (by simp)
  cases hd : c.shared.heap w with
  | live d p =>
      have hafter := after_listAddTail_live i hd
      have hself : (after i c.shared (.listAddTail w) ()).heap w = .live d .listed := by
        rw [hafter]
        exact Function.update_self ..
      have hkey : (after i c.shared (.listAddTail w) ()).keyOwner (.device w) = some d.channel := by
        rw [State.keyOwner, hself]
        rfl
      refine ⟨d.channel, ?_, hkey⟩
      have hmem := (hinv.keys hon).mem hkey
      rw [hafter] at hmem
      -- Whoever had the channel before has passed it on to the record.
      obtain ⟨o, ho⟩ := ((hc.1.keys hon).held d.channel).mp hmem
      have hpassed (hsame : (after i c.shared (.listAddTail w) ()).keyOwner o = c.shared.keyOwner o) : o = .device w :=
        (hinv.keys hon).unique (hsame.trans ho) hkey
      cases o with
      | call j =>
          by_cases hj : j = i
          · rw [← hj]
            exact ho
          · have howner := hpassed (by rw [hafter]; simp [State.keyOwner, Function.update_of_ne hj])
            cases howner
      | device u =>
          by_cases hu : u = w
          · have hnew := (not_listed_before hc.1.shape hinv hmoves hd).1
            rw [hu, State.keyOwner, hd, Cell.key, hnew] at ho
            cases ho
          · have howner := hpassed (by rw [hafter]; simp [State.keyOwner, Function.update_of_ne hu])
            exact absurd (Owner.device.inj howner) hu
  | unused | freed =>
      rw [hd] at hlive
      cases hlive

/-- A call has no channel but one it has opened. -/
theorem after_channel {o : Op Chan} {r : (iface Chan).Res o} {chan : Chan}
    (h : ((after i s o r).held i).channel = some chan) : (s.held i).channel = some chan ∨ ∃ size, o = .hvcOpen chan size := by
  have hvdev (u : State Chan) (w : Nat) (f : Vdev Chan → Vdev Chan) (g : Phase → Phase) : (u.onVdev w f g).held = u.held :=
    (onVdev_held u w f g).1
  cases o
  case hvcOpen ch size =>
    rw [after_hvcOpen, onHeld_self] at h
    dsimp only at h
    split at h
    · exact .inl h
    · cases h
      exact .inr ⟨size, rfl⟩
  case listAddTail | hvcRollback =>
    simp only [after, onHeld_self] at h
    cases h
  case memunmap m =>
    rw [after_memunmap] at h
    split at h <;> simp only [hvdev, onHeld_self] at h <;> exact .inl h
  case hvcClose ch =>
    rw [after_hvcClose] at h
    split at h <;> simp only [hvdev] at h <;> exact .inl h
  case memremap | kzallocVdev | reserve | miscRegister | beginRemoval | activate =>
    cases r <;> simp only [after, onHeld_self, hvdev, State.setFile] at h <;> exact .inl h
  all_goals
    simp only [after, onHeld_self, hvdev, State.setFile] at h
    exact .inl h

end Steps

/-- The beginning and the end of a call leave the records alone. -/
theorem begins_heap {i : Nat} {call : Call Chan} (h : Begins i s t call) : t.heap = s.heap := by
  cases call with
  | openChannel chan size iterations => rw [show t = _ from h]; rfl
  | closeChannel chan => rw [show t = _ from h]; rfl
  | openFile f v => rw [h.2.2]; rfl
  | fileIo f v n =>
      obtain ⟨io, -, rfl⟩ := h
      rfl
  | releaseFile f v => rw [h.2]; rfl

theorem ends_heap (i : Nat) (s : State Chan) (r : Ret) : (ends i s r).heap = s.heap := by
  cases r with
  | fileOpened f v result => cases result <;> rfl
  | fileDone f v result =>
      rw [ends]
      split <;> rfl
  | opened result | closed result | fileReleased => rfl

end Registry

end Axivc
