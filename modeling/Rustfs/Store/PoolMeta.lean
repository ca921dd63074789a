import Mathlib.Data.List.Nodup
import Rustfs.Filemeta.Restore
import Rustfs.Lib.Run
import Rustfs.Path

/-! What the store remembers about its pools: the state of a decommission, its counters and its queue. -/
namespace Rustfs

open Option

structure DecomBucketInfo where
  name : String
  bucketPrefix : String := ""
  deriving DecidableEq

/-- `Display`: the path that a bucket and a prefix in it make. -/
def DecomBucketInfo.display (b : DecomBucketInfo) : String := Path.pathJoin b.name b.bucketPrefix

structure PoolSpaceInfo where
  free : ℕ
  total : ℕ

structure PoolDecommissionInfo where
  startTime : Option Time := none
  startSize : ℕ := 0
  totalSize : ℕ := 0
  currentSize : ℕ := 0
  complete : Bool := false
  failed : Bool := false
  canceled : Bool := false
  queuedBuckets : List String := []
  decommissionedBuckets : List String := []
  bucket : String := ""
  bucketPrefix : String := ""
  object : String := ""
  itemsDecommissioned : ℕ := 0
  itemsDecommissionFailed : ℕ := 0
  bytesDone : ℕ := 0
  bytesFailed : ℕ := 0
  deriving DecidableEq

namespace PoolDecommissionInfo

variable (d : PoolDecommissionInfo) (bucket : String)

def isBucketDecommissioned : Bool := d.decommissionedBuckets.contains bucket

/-- A bucket is queued unless the queue has it, or has a bucket that is done. -/
def bucketPush (bucket : DecomBucketInfo) : PoolDecommissionInfo :=
  if d.queuedBuckets.any fun b => d.isBucketDecommissioned b || b == bucket.display then d
  else
    { d with
      queuedBuckets := d.queuedBuckets ++ [bucket.display]
      bucket := bucket.name
      bucketPrefix := bucket.bucketPrefix }

def bucketPop : PoolDecommissionInfo :=
  let d' := { d with decommissionedBuckets := d.decommissionedBuckets ++ [bucket] }
  if d.queuedBuckets.contains bucket then
    let d' := { d' with queuedBuckets := d.queuedBuckets.erase bucket }
    if d.bucket == bucket then { d' with bucket := "", bucketPrefix := "", object := "" } else d'
  else d'

def countItem (size : ℕ) (failed : Bool) : PoolDecommissionInfo :=
  if failed then
    { d with
      itemsDecommissionFailed := d.itemsDecommissionFailed + 1
      bytesFailed := d.bytesFailed + size }
  else
    { d with
      itemsDecommissioned := d.itemsDecommissioned + 1
      bytesDone := d.bytesDone + size }

@[simp] theorem bucketPop_decommissionedBuckets :
    (d.bucketPop bucket).decommissionedBuckets = d.decommissionedBuckets ++ [bucket] := by
  unfold bucketPop
  split
  · split <;> rfl
  · rfl

@[simp] theorem bucketPop_complete : (d.bucketPop bucket).complete = d.complete := by
  unfold bucketPop
  split
  · split <;> rfl
  · rfl

@[simp] theorem bucketPop_itemsDecommissionFailed :
    (d.bucketPop bucket).itemsDecommissionFailed = d.itemsDecommissionFailed := by
  unfold bucketPop
  split
  · split <;> rfl
  · rfl

/-- The decommission works: none of its ends is reached. -/
def running : Bool := !d.complete && !d.failed && !d.canceled

end PoolDecommissionInfo

structure PoolStatus where
  id : ℕ
  cmdLine : String
  lastUpdate : Time
  decommission : Option PoolDecommissionInfo := none

structure PoolMeta where
  pools : List PoolStatus

namespace PoolMeta

variable (pm : PoolMeta) (idx : ℕ)

def info : Option PoolDecommissionInfo := pm.pools[idx]?.bind (·.decommission)

/-- The decommission of pool `idx`, where there is one, is replaced. -/
def update (f : PoolDecommissionInfo → PoolDecommissionInfo) : PoolMeta where
  pools := pm.pools.modify idx fun p => { p with decommission := p.decommission.map f }

/-- The decommission of pool `idx` reaches an end it has not reached yet, at the time `now`. -/
def settle (reached : PoolDecommissionInfo → Bool)
    (mark : PoolDecommissionInfo → PoolDecommissionInfo) (now : Time) : PoolMeta where
  pools := pm.pools.modify idx fun p =>
    match p.decommission with
    | some d =>
      if reached d then p
      else { p with lastUpdate := now, decommission := some (mark { d with startTime := none }) }
    | none => p

def decommissionCancel : Time → PoolMeta :=
  pm.settle idx (·.canceled) fun d => { d with canceled := true, failed := false, complete := false }

def decommissionFailed : Time → PoolMeta :=
  pm.settle idx (·.failed) fun d => { d with canceled := false, failed := true, complete := false }

def decommissionComplete : Time → PoolMeta :=
  pm.settle idx (·.complete) fun d => { d with canceled := false, failed := false, complete := true }

/-- A decommission is started; `none` is "decommission already running". -/
def decommission (pi : PoolSpaceInfo) (now : Time) : Option PoolMeta :=
  if (pm.info idx).any (·.running) then none
  else
    some { pools := pm.pools.modify idx fun p =>
            { p with
              lastUpdate := now
              decommission := some
                { startTime := some now, startSize := pi.free, totalSize := pi.total
                  currentSize := pi.free } } }

def queueBuckets (bks : List DecomBucketInfo) : PoolMeta :=
  pm.update idx fun d => bks.foldl PoolDecommissionInfo.bucketPush d

def pendingBuckets : List DecomBucketInfo :=
  ((pm.info idx).elim [] (·.queuedBuckets)).map fun bk =>
    let (name, bucketPrefix) := Path.path2BucketObject bk
    { name := name, bucketPrefix := bucketPrefix }

def isBucketDecommissioned (bucket : String) : Bool :=
  (pm.info idx).any (·.isBucketDecommissioned bucket)

def bucketDone (bucket : String) : PoolMeta := pm.update idx (·.bucketPop bucket)

def countItem (size : ℕ) (failed : Bool) : PoolMeta := pm.update idx (·.countItem size failed)

def trackCurrentBucketObject (bucket object : String) : PoolMeta :=
  pm.update idx fun d => { d with object := object, bucket := bucket }

/-- `update_after`, as far as it changes the state: the time is taken down after `duration`
seconds. -/
def updateAfter (duration : ℤ) (now : Time) : PoolMeta where
  pools := pm.pools.modify idx fun p =>
    if p.decommission.isSome ∧ unixTimestamp now - unixTimestamp p.lastUpdate > duration then
      { p with lastUpdate := now }
    else p

variable {pm idx}

@[simp] theorem info_update (f : PoolDecommissionInfo → PoolDecommissionInfo) :
    (pm.update idx f).info idx = (pm.info idx).map f := by
  simp only [info, update, List.getElem?_modify_eq]
  cases pm.pools[idx]? <;> rfl

@[simp] theorem info_updateAfter (d : ℤ) (now : Time) :
    (pm.updateAfter idx d now).info idx = pm.info idx := by
  simp only [info, updateAfter, List.getElem?_modify_eq]
  cases pm.pools[idx]? with
  | none => rfl
  | some p =>
    simp only [map_eq_map, map_some, bind_some]
    split <;> rfl

theorem info_settle (r : PoolDecommissionInfo → Bool)
    (m : PoolDecommissionInfo → PoolDecommissionInfo) (now : Time) :
    (pm.settle idx r m now).info idx =
      (pm.info idx).map fun d => if r d then d else m { d with startTime := none } := by
  simp only [info, settle, List.getElem?_modify_eq]
  cases pm.pools[idx]? with
  | none => rfl
  | some p =>
    simp only [map_eq_map, map_some, bind_some]
    cases hd : p.decommission with
    | none => simp [hd]
    | some d =>
      simp only [map_some]
      split <;> simp [hd]

end PoolMeta

open List PoolDecommissionInfo

/-! What the queue of a decommission goes through. -/

/-- The name and the prefix can be read off the text that the queue holds. -/
def DecomBucketInfo.ReadsBack (b : DecomBucketInfo) : Prop :=
  Path.path2BucketObject b.display = (b.name, b.bucketPrefix)

/-- Of the buckets queued so far each waits in the queue, once, or is done. -/
structure PoolDecommissionInfo.Tracks (d : PoolDecommissionInfo) (queued : List DecomBucketInfo) :
    Prop where
  nodup : d.queuedBuckets.Nodup
  waiting : ∀ q ∈ d.queuedBuckets, q ∉ d.decommissionedBuckets ∧ ∃ b ∈ queued, b.display = q
  readsBack : ∀ b ∈ queued, b.ReadsBack
  known : ∀ b ∈ queued, b.display ∈ d.queuedBuckets ∨ b.display ∈ d.decommissionedBuckets

namespace PoolDecommissionInfo

variable {d : PoolDecommissionInfo} {qs : List DecomBucketInfo} {b : DecomBucketInfo}

theorem Tracks.pop (h : d.Tracks qs) (bucket : String) : (d.bucketPop bucket).Tracks qs := by
  have hqueue : (d.bucketPop bucket).queuedBuckets = d.queuedBuckets.erase bucket := by
    unfold bucketPop
    split_ifs with hmem
    · rfl
    · rfl
    · exact (erase_of_not_mem (by simpa using hmem)).symm
  have hmem (q : String) : q ∈ (d.bucketPop bucket).queuedBuckets ↔ q ≠ bucket ∧ q ∈ d.queuedBuckets :=
    hqueue ▸ h.nodup.mem_erase_iff
  refine ⟨hqueue ▸ h.nodup.erase _, fun q hq => ?_, h.readsBack, fun b hb => ?_⟩
  · obtain ⟨hne, hq⟩ := (hmem q).mp hq
    simpa [hne] using h.waiting q hq
  · have := h.known b hb
    rw [hmem, bucketPop_decommissionedBuckets, mem_append, mem_singleton]
    tauto

@[simp] theorem bucketPush_decommissionedBuckets :
    (d.bucketPush b).decommissionedBuckets = d.decommissionedBuckets := by
  unfold bucketPush
  split <;> rfl

/-- A bucket that is not done joins those in the queue. -/
theorem Tracks.push (h : d.Tracks qs) (hb : b.ReadsBack)
    (hnew : b.display ∉ d.decommissionedBuckets) : (d.bucketPush b).Tracks (qs ++ [b]) := by
  have hqueue : (d.bucketPush b).queuedBuckets.Nodup ∧ ∀ q,
      q ∈ (d.bucketPush b).queuedBuckets ↔ q ∈ d.queuedBuckets ∨ q = b.display := by
    unfold bucketPush
    split_ifs with hstop
    · -- None that waits is done, so the queue has the bucket itself.
      obtain ⟨q, hq, heq⟩ : ∃ q ∈ d.queuedBuckets, q ∈ d.decommissionedBuckets ∨ q = b.display := by
        simpa [isBucketDecommissioned] using hstop
      obtain rfl := heq.resolve_left (h.waiting q hq).1
      exact ⟨h.nodup, fun q => ⟨.inl, fun hq' => hq'.elim id (· ▸ hq)⟩⟩
    · refine ⟨h.nodup.append (nodup_singleton _) ?_, by simp⟩
      simpa using fun hq => hstop (any_eq_true.mpr ⟨_, hq, by simp⟩)
  obtain ⟨-, hwaiting, hreads, hknown⟩ := h
  constructor <;> grind [bucketPush_decommissionedBuckets]

theorem Tracks.pushAll {bks : List DecomBucketInfo} (h : d.Tracks qs)
    (hbks : ∀ b ∈ bks, b.ReadsBack ∧ b.display ∉ d.decommissionedBuckets) :
    (bks.foldl bucketPush d).Tracks (qs ++ bks) := by
  induction bks generalizing d qs with
  | nil => simpa using h
  | cons b bks ih =>
    obtain ⟨⟨hb, hnew⟩, hrest⟩ := forall_mem_cons.mp hbks
    simpa using ih (h.push hb hnew) (by simpa using hrest)

end PoolDecommissionInfo

namespace PoolMeta

/-- The calls that change the queue. -/
inductive QueueCall where
  | queueBuckets (bks : List DecomBucketInfo)
  | bucketDone (bucket : String)

variable (idx : ℕ)

/-- A call, with all that was queued up to it. -/
def queueStep : PoolMeta × List DecomBucketInfo → QueueCall → PoolMeta × List DecomBucketInfo
  | (pm, queued), .queueBuckets bks => (pm.queueBuckets idx bks, queued ++ bks)
  | (pm, queued), .bucketDone bucket => (pm.bucketDone idx bucket, queued)

/-- Every bucket that was queued is pending or done, and none is pending twice. -/
def Accounts (s : PoolMeta × List DecomBucketInfo) : Prop :=
  (∀ b ∈ s.2, b ∈ s.1.pendingBuckets idx ∨ s.1.isBucketDecommissioned idx b.display = true) ∧
    (s.1.pendingBuckets idx).Nodup

/-- Only buckets are queued that are not done and whose text can be read back. -/
def QueuesNew (s : PoolMeta × List DecomBucketInfo) : QueueCall → Prop
  | .queueBuckets bks =>
    ∀ b ∈ bks, b.ReadsBack ∧ s.1.isBucketDecommissioned idx b.display = false
  | .bucketDone _ => True

variable {idx} {pm : PoolMeta} {d : PoolDecommissionInfo}

theorem queueStep_tracks (s : PoolMeta × List DecomBucketInfo) (c : QueueCall)
    (h : ∃ d, s.1.info idx = some d ∧ d.Tracks s.2) (hnew : QueuesNew idx s c) :
    ∃ d, (queueStep idx s c).1.info idx = some d ∧ d.Tracks (queueStep idx s c).2 := by
  obtain ⟨d, hd, h⟩ := h
  cases c with
  | queueBuckets bks =>
    refine ⟨bks.foldl bucketPush d, by simp [queueStep, queueBuckets, hd], h.pushAll ?_⟩
    simpa [QueuesNew, isBucketDecommissioned, hd, PoolDecommissionInfo.isBucketDecommissioned] using hnew
  | bucketDone bucket => exact ⟨d.bucketPop bucket, by simp [queueStep, bucketDone, hd], h.pop bucket⟩

/-- A decommission that begins with an empty queue loses no bucket while none is queued that is
done. -/
theorem queueCalls_account {calls : List QueueCall} (hd : pm.info idx = some d)
    (hempty : d.queuedBuckets = []) (hnew : Run.Along (queueStep idx) (QueuesNew idx) (pm, []) calls) :
    Accounts idx (calls.foldl (queueStep idx) (pm, [])) := by
  have hbegin : d.Tracks [] := ⟨by simp [hempty], by simp [hempty], by simp, by simp⟩
  obtain ⟨d', hd', h⟩ := Run.invariant queueStep_tracks hnew ⟨d, hd, hbegin⟩
  generalize calls.foldl (queueStep idx) (pm, []) = s at hd' h
  have hpending : s.1.pendingBuckets idx = d'.queuedBuckets.map fun q =>
      ⟨(Path.path2BucketObject q).1, (Path.path2BucketObject q).2⟩ := by
    simp [pendingBuckets, hd']
  have hback : ∀ b ∈ s.2, Path.path2BucketObject b.display = (b.name, b.bucketPrefix) := h.readsBack
  rw [Accounts, hpending]
  refine ⟨fun b hb => (h.known b hb).imp (fun hq => ?_) fun hdone => ?_, ?_⟩
  · exact mem_map.mpr ⟨_, hq, by rw [hback b hb]⟩
  · simpa [isBucketDecommissioned, hd', PoolDecommissionInfo.isBucketDecommissioned] using hdone
  · refine h.nodup.map_on fun q hq q' hq' heq => ?_
    obtain ⟨-, b, hb, rfl⟩ := h.waiting q hq
    obtain ⟨-, b', hb', rfl⟩ := h.waiting q' hq'
    rw [hback b hb, hback b' hb'] at heq
    exact congrArg DecomBucketInfo.display heq

/-- A pool whose decommission has begun. -/
def begun : PoolMeta where
  pools := [{ id := 0, cmdLine := "", lastUpdate := default, decommission := some {} }]

theorem queueCalls_account_begun : Accounts 0 ([QueueCall.queueBuckets [⟨"a", ""⟩, ⟨"b", "c"⟩],
    .bucketDone "a"].foldl (queueStep 0) (begun, [])) :=
  queueCalls_account (d := {}) rfl rfl (by
    simp only [Run.Along, QueuesNew, DecomBucketInfo.ReadsBack]
    decide +kernel)

/-- A bucket that is queued again after it was done keeps the next one out. -/
theorem queueCalls_lose : ¬Accounts 0 ([QueueCall.queueBuckets [⟨"a", ""⟩], .bucketDone "a",
    .queueBuckets [⟨"a", ""⟩], .queueBuckets [⟨"b", ""⟩]].foldl (queueStep 0) (begun, [])) := by
  rintro ⟨h, -⟩
  have := h ⟨"b", ""⟩
  revert this
  decide +kernel

end PoolMeta

end Rustfs
