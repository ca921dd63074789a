import Rustfs.Store.DataMovement

/-! When an entry may be deleted after a movement: what the step of every version has to have
written. -/
namespace Rustfs.DataMovement

open Option Retry StoreCall Step

theorem safelyDeletes_moveEntry_iff {src : ℕ} {e : Entry} {s : FileInfo → Step}
    {vs : List FileInfo} {cs ls : FileInfo → Prop} (hcounts : ∀ v, (s v).counts = true ↔ cs v)
    (hlands : ∀ v, (s v).counts = true → (((∃ w ∈ (s v).write, CopyOf src v w) ∨
      v.deleted = true ∧ vs.length = 1) ↔ ls v)) (h : e.versions = some vs) :
    SafelyDeletes src e (some (moveEntry s vs)) ↔ ((∀ v ∈ vs, cs v) → ∀ v ∈ vs, ls v) := by
  simp only [← hcounts, ← moveEntry_deletes_iff, SafelyDeletes, h, mem_some_iff, forall_eq']
  refine forall_congr' fun hdel => forall_congr' fun v => forall_congr' fun hv => ?_
  rw [← hlands v (moveEntry_deletes_iff.mp hdel v hv)]
  simp only [moveEntry_writes hdel hv]

namespace Mover

variable (m : Mover) (entry : Entry) (n : ℕ)

/-- The attempt copies the version itself: the source set returns it for its id, which without an
id is the set's latest version, and the pool chosen for it is not the source. -/
def RightCopy (version : FileInfo) (a : Attempt) : Prop :=
  ∃ fi ∈ SetDisks.findVersion a.stored version.versionId,
    fi.versionId = version.versionId ∧ some (fi.modTime.getD m.rt.now) = version.modTime ∧
      a.call.AvoidsPool m.src
        (ObjectInfo.fromFileInfo fi (encodeDirObject entry.name) false).isMultipart

variable {m entry n} {version : FileInfo} {a : Attempt} {oi : ObjectInfo} {w : Write}

theorem moveObject_eq_ok (h : m.moveObject a oi = .ok w) :
    w.versionId = oi.versionId ∧ w.modTime = some (oi.modTime.getD m.rt.now) ∧
      w.deleted = false ∧ (w.pool ≠ m.src ↔ a.call.AvoidsPool m.src oi.isMultipart) := by
  unfold moveObject at h
  split at h
  · cases h
  split_ifs at h with hmulti
  · obtain ⟨hpool, hput⟩ := handleMultipartUpload_eq_ok h
    have hne : w.pool ≠ m.src ↔ a.call.AvoidsPool m.src true :=
      uploadPool_ne_src_iff rfl hpool
    rw [poolPut_eq_ok hput, hmulti]
    exact ⟨rfl, rfl, rfl, hne⟩
  · obtain ⟨hpool, hput⟩ := handlePutObject_eq_ok h
    have hne : w.pool ≠ m.src ↔ a.call.AvoidsPool m.src false :=
      putPool_ne_src_iff rfl hpool
    rw [poolPut_eq_ok hput, Bool.eq_false_iff.mpr hmulti]
    exact ⟨rfl, rfl, rfl, hne⟩

theorem tryMove_copyOf_iff {i : Bool} (hv : version.deleted = false)
    (h : m.tryMove entry i m.moveObject version a = .done w) :
    CopyOf m.src version w ↔ m.RightCopy entry version a := by
  unfold tryMove at h
  split at h
  · split at h <;> cases h
  rename_i oi hread
  split at h
  · split at h <;> cases h
  rename_i w' hmove
  obtain rfl := Retry.Outcome.done.inj h
  obtain ⟨hfound, hoi⟩ := SetDisks.getObjectReader_eq_ok hread
  obtain ⟨fi, hfi⟩ := ne_none_iff_exists'.mp hfound
  obtain ⟨-, rfl⟩ := hoi fi hfi
  obtain ⟨hid, htime, hdel, hpool⟩ := moveObject_eq_ok hmove
  simp only [RightCopy, hfi, mem_some_iff, exists_eq_left', ← hpool]
  constructor
  · rintro ⟨hne, hid', htime', -⟩
    exact ⟨hid.symm.trans hid', htime.symm.trans htime', hne⟩
  · rintro ⟨hid', htime', hne⟩
    exact ⟨hne, hid.trans hid', htime.trans htime', hdel.trans hv.symm⟩

section

variable {attempt : Attempt → Retry.Outcome Write} {ts : List Attempt}

theorem objectStep_counts_iff :
    (objectStep (run attempt ts)).counts = true ↔
      ∃ a ∈ settling attempt ts, ∃ w, attempt a = .done w := by
  have h : (objectStep (run attempt ts)).counts = true ↔ ∃ w, run attempt ts = .done w := by
    cases run attempt ts <;> simp [objectStep, counts]
  simp only [h, run_eq_done_iff]
  constructor
  · rintro ⟨w, a, ha, hw⟩
    exact ⟨a, ha, w, hw⟩
  · rintro ⟨a, ha, w, hw⟩
    exact ⟨w, a, ha, hw⟩

theorem mem_objectStep_write :
    w ∈ (objectStep (run attempt ts)).write ↔ ∃ a ∈ settling attempt ts, attempt a = .done w := by
  rw [← run_eq_done_iff]
  cases run attempt ts <;> simp [objectStep, write, eq_comm]

/-- An object that counts as moved is written as it is, exactly if the attempt that settled it
copied the right version to the right place. -/
theorem objectStep_copyOf_iff {P : Attempt → Prop}
    (hP : ∀ a w, attempt a = .done w → (CopyOf m.src version w ↔ P a))
    (h : (objectStep (run attempt ts)).counts = true) :
    (∃ w ∈ (objectStep (run attempt ts)).write, CopyOf m.src version w) ↔
      ∀ a ∈ settling attempt ts, P a := by
  obtain ⟨a, ha, w, hw⟩ := objectStep_counts_iff.mp h
  rw [mem_def] at ha
  simp only [mem_objectStep_write, ha, mem_some_iff, exists_eq_left', forall_eq', hw]
  rw [← hP a w hw]
  simp

end

theorem markerStep_counts_iff {res : Except StorageError (Option Write)} :
    (markerStep res).counts = true ↔ ∃ w, res = .ok w := by
  cases res with
  | ok w => simp [markerStep, counts]
  | error e =>
    simp only [markerStep, reduceCtorEq, exists_false, iff_false]
    split <;> simp [counts]

variable (m entry n)

/-- The copy of an object comes to a good end. -/
def CopyDone (attempt : FileInfo → Attempt → Retry.Outcome Write) (version : FileInfo) : Prop :=
  ∃ a ∈ Retry.settling (attempt version) (m.attempts version), ∃ w, attempt version a = .done w

/-- `rebalance_entry` counts the version, in an entry of `n` versions. -/
def RebalanceCounts (version : FileInfo) : Prop :=
  version.isRemote m.rt = false ∧
    if version.deleted then
      n = 1 ∨ ∃ fi, SetDisks.deleteObject m.rt.now (m.calls version).set m.bucket entry.name
        (m.markerOptions version) = .ok fi
    else m.CopyDone (m.tryRebalance entry) version

/-- What `rebalance_entry` counts is in another pool: the version is an object, which was copied
as it is, or it is a delete marker and the only version. -/
def RebalanceLands (version : FileInfo) : Prop :=
  if version.deleted then n = 1
  else ∀ a ∈ Retry.settling (m.tryRebalance entry version) (m.attempts version),
    m.RightCopy entry version a

/-- `decommission_entry` counts the version, in an entry of `n` versions. -/
def DecommissionCounts (rcfg : Option String) (version : FileInfo) : Prop :=
  if version.deleted then
    n = 1 ∧ rcfg = none ∨ ∃ res, (m.calls version).call.handleDeleteObject m.bucket entry.name
      (m.markerOptions version) (m.calls version).set m.rt.now = .ok res
  else m.CopyDone (m.tryDecommission entry) version

/-- What `decommission_entry` counts is in another pool: an object was copied as it is, and a
delete marker, unless it is the only version, has a time and was left under its own id. -/
def DecommissionLands (version : FileInfo) : Prop :=
  if version.deleted then
    n = 1 ∨ version.modTime.isSome ∧ (m.calls version).call.LeavesMarker m.bucket entry.name
      (m.markerOptions version) (m.calls version).set
  else ∀ a ∈ Retry.settling (m.tryDecommission entry version) (m.attempts version),
    m.RightCopy entry version a

variable {m entry n}

theorem rebalanceStep_counts_iff :
    (m.rebalanceStep entry n version).counts = true ↔ m.RebalanceCounts entry n version := by
  unfold rebalanceStep RebalanceCounts
  cases version.isRemote m.rt with
  | true => simp [counts]
  | false =>
  cases hdel : version.deleted with
  | false => simp [objectStep_counts_iff, CopyDone]
  | true =>
    by_cases hn : n = 1
    · simp [hn, counts]
    · cases SetDisks.deleteObject m.rt.now (m.calls version).set m.bucket entry.name
        (m.markerOptions version) <;> simp [hn, markerStep_counts_iff, Except.map]

theorem rebalanceStep_lands_iff (h : (m.rebalanceStep entry n version).counts = true) :
    ((∃ w ∈ (m.rebalanceStep entry n version).write, CopyOf m.src version w) ∨
        version.deleted = true ∧ n = 1) ↔ m.RebalanceLands entry n version := by
  obtain ⟨hremote, hcounts⟩ := rebalanceStep_counts_iff.mp h
  unfold RebalanceLands
  cases hdel : version.deleted with
  | false =>
    unfold rebalanceStep at h ⊢
    simp only [hremote, hdel, Bool.false_and, Bool.false_eq_true, if_false, false_and,
      or_false] at h ⊢
    exact objectStep_copyOf_iff (fun a w hw => tryMove_copyOf_iff hdel hw) h
  | true =>
    by_cases hn : n = 1
    · simp [hn]
    simp only [hdel, if_true, hn, false_or] at hcounts
    obtain ⟨fi, hfi⟩ := hcounts
    have hstep : m.rebalanceStep entry n version = .moved (Write.ofDelete m.src fi) := by
      simp [rebalanceStep, hremote, hdel, hn, hfi, markerStep, Except.map]
    -- what is written for the marker is written into the source pool
    simp only [hstep, write, hn, and_false, or_false, if_true, iff_false]
    rintro ⟨w, hw, hcopy⟩
    exact hcopy.pool (Write.pool_of_mem_ofDelete hw)

theorem decommissionStep_counts_iff {r : Option String} :
    (m.decommissionStep entry n r version).counts = true ↔
      m.DecommissionCounts entry n r version := by
  unfold decommissionStep DecommissionCounts
  cases hdel : version.deleted with
  | false => simp [objectStep_counts_iff, CopyDone]
  | true =>
    by_cases hn : n = 1 ∧ r = none
    · simp [hn, counts]
    · rw [if_neg (by simpa using hn), if_pos rfl, if_pos rfl, markerStep_counts_iff, or_iff_right hn]

theorem decommissionStep_lands_iff {r : Option String}
    (h : (m.decommissionStep entry n r version).counts = true) :
    ((∃ w ∈ (m.decommissionStep entry n r version).write, CopyOf m.src version w) ∨
        version.deleted = true ∧ n = 1) ↔ m.DecommissionLands entry n version := by
  unfold DecommissionLands
  cases hdel : version.deleted with
  | false =>
    unfold decommissionStep at h ⊢
    simp only [hdel, Bool.false_and, Bool.false_eq_true, if_false, false_and, or_false] at h ⊢
    exact objectStep_copyOf_iff (fun a w hw => tryMove_copyOf_iff hdel hw) h
  | true =>
    by_cases hn : n = 1
    · simp [hn]
    have hcounts := decommissionStep_counts_iff.mp h
    simp only [DecommissionCounts, hdel, if_true, hn, false_and, false_or] at hcounts
    obtain ⟨res, hres⟩ := hcounts
    have hstep : m.decommissionStep entry n r version = .moved res := by
      simp [decommissionStep, hdel, hn, hres, markerStep]
    obtain ⟨htime, hleaves⟩ := handleDeleteObject_leaves_iff rfl rfl rfl hres
    simp only [hstep, write, hn, and_false, or_false, false_or, if_true, ← hleaves]
    constructor
    · rintro ⟨w, hw, hcopy⟩
      have hsome := (htime w hw).symm.trans hcopy.modTime
      exact ⟨by simp [← hsome], w, hw, hcopy.pool, hcopy.versionId, hcopy.deleted.trans hdel⟩
    · rintro ⟨hsome, w, hw, hpool, hid, hmark⟩
      refine ⟨w, hw, hpool, hid, ?_, hmark.trans hdel.symm⟩
      obtain ⟨t, ht⟩ := isSome_iff_exists.mp hsome
      simpa [markerOptions, ht] using htime w hw

/-- Both movements delete an entry without losing a version exactly if what they count has
arrived in another pool. -/
theorem entryDeletion_safe_iff (m : Mover) (entry : Entry) (rebalanceDone : Bool)
    (rcfg : Option String) :
    (SafelyDeletes m.src entry (m.rebalanceEntry entry rebalanceDone) ↔
      (entry.isDir = false → rebalanceDone = false → ∀ versions ∈ entry.versions,
        (∀ v ∈ versions, m.RebalanceCounts entry versions.length v) →
          ∀ v ∈ versions, m.RebalanceLands entry versions.length v)) ∧
    (SafelyDeletes m.src entry (m.decommissionEntry entry rcfg) ↔
      (entry.isDir = false → ∀ versions ∈ entry.versions,
        (∀ v ∈ versions, m.DecommissionCounts entry versions.length rcfg v) →
          ∀ v ∈ versions, m.DecommissionLands entry versions.length v)) := by
  constructor
  · unfold rebalanceEntry
    cases entry.isDir with
    | true => simp [SafelyDeletes]
    | false =>
    cases rebalanceDone with
    | true => simp [SafelyDeletes]
    | false =>
    cases hvs : entry.versions with
    | none => simp [SafelyDeletes]
    | some versions =>
      simpa using safelyDeletes_moveEntry_iff (fun _ => rebalanceStep_counts_iff)
        (fun _ => rebalanceStep_lands_iff) hvs
  · unfold decommissionEntry
    cases entry.isDir with
    | true => simp [SafelyDeletes]
    | false =>
    cases hvs : entry.versions with
    | none => simp [SafelyDeletes]
    | some versions =>
      simpa using safelyDeletes_moveEntry_iff (fun _ => decommissionStep_counts_iff)
        (fun _ => decommissionStep_lands_iff) hvs

section

/-- Pool 0 is being emptied, and pool 1 has space; no pool in use has the object. -/
def secondPool : StoreCall where
  suspended := (· == 0)
  rebalancing := (· == 0)
  infos := [.error (.objectNotFound "bucket" "object"), .error (.objectNotFound "bucket" "object")]
  uploads := [.ok false, .ok false]
  available := some 1

/-- The versions `stored` in pool 0 are moved, and nothing fails. -/
def smoothMover (stored : List FileInfo) : Mover where
  rt := { now := 30, parseRfc3339 := fun _ => none, displayTime := fun _ => "", parseUuid := fun _ => none }
  src := 0
  bucket := "bucket"
  calls v :=
    { attempts := fun _ => { stored := stored, call := secondPool }
      call := secondPool
      set := { held := .ok v, freshId := 9 } }

def versionAt (id : Option Uuid) (modTime : Time) : FileInfo :=
  { versionId := id, modTime := some modTime }

def markerAt (id : Option Uuid) (modTime : Time) : FileInfo :=
  { versionId := id, modTime := some modTime, deleted := true }

def entryOf (versions : List FileInfo) : Entry := { name := "object", versions := some versions }

def markedVersions : List FileInfo := [markerAt (some 2) 20, versionAt (some 1) 10]

def nullVersions : List FileInfo := [versionAt (some 1) 20, versionAt none 10]

/-- Rebalancing an object under a delete marker deletes the marker, which it wrote back into the
source pool; decommissioning an object with an older null version deletes the null version, in
whose place the newer version was copied again. -/
theorem entryDeletion_loses_versions :
    ¬ SafelyDeletes 0 (entryOf markedVersions)
        ((smoothMover markedVersions).rebalanceEntry (entryOf markedVersions) false) ∧
      ¬ SafelyDeletes 0 (entryOf nullVersions)
        ((smoothMover nullVersions).decommissionEntry (entryOf nullVersions) none) := by
  constructor
  · intro h
    have hrun : (smoothMover markedVersions).rebalanceEntry (entryOf markedVersions) false =
        some ⟨true, [(markerAt (some 2) 20, ⟨0, some 2, some 20, true⟩),
          (versionAt (some 1) 10, ⟨1, some 1, some 10, false⟩)]⟩ := rfl
    obtain ⟨w, hw, hcopy⟩ | hsole :=
      h _ hrun rfl _ rfl (markerAt (some 2) 20) (by simp [markedVersions])
    · obtain rfl : w = ⟨0, some 2, some 20, true⟩ := by simpa [markerAt, versionAt] using hw
      exact hcopy.pool rfl
    · simp [markedVersions] at hsole
  · intro h
    have hrun : (smoothMover nullVersions).decommissionEntry (entryOf nullVersions) none =
        some ⟨true, [(versionAt (some 1) 20, ⟨1, some 1, some 20, false⟩),
          (versionAt none 10, ⟨1, some 1, some 20, false⟩)]⟩ := rfl
    obtain ⟨w, hw, hcopy⟩ | hsole := h _ hrun rfl _ rfl (versionAt none 10) (by simp [nullVersions])
    · obtain rfl : w = ⟨1, some 1, some 20, false⟩ := by simpa [versionAt] using hw
      cases hcopy.versionId
    · simp [nullVersions] at hsole

end

end Mover

end Rustfs.DataMovement
