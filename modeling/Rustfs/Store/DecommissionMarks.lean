import Rustfs.Store.Decommission

/-! What the mark at the end of a decommission says about the run: the counter of failed items over
every interleaving of the workers, and the mark that is read off it. -/
namespace Rustfs.Decommission

open DataMovement List BucketCalls RunCalls PoolDecommissionInfo Turn

def Event.isFailure : Event → Bool
  | .countItem _ failed => failed
  | _ => false

variable (idx : ℕ)

/-- A copy of a version of the entry fails, and is counted. -/
def ListedEntry.CountsFailure (bucket : String) (le : ListedEntry) : Prop :=
  ∃ e ∈ le.events idx bucket, e.isFailure = true

/-- The entry is not moved as it should be: its metadata cannot be read, a copy fails, or its
deletion from the source set does. -/
def ListedEntry.Fails (bucket : String) (le : ListedEntry) : Prop :=
  le.entry.isDir = false ∧
    (le.entry.versions = none ∨ le.CountsFailure idx bucket ∨
      (∃ run ∈ (le.mover idx bucket).decommissionEntry le.entry none, run.deletes = true) ∧
        le.deleteFailure ≠ none)

namespace BucketCalls

variable (bucket : DecomBucketInfo) (calls : BucketCalls)

def entries : List ListedEntry := calls.workers.flatMap handedEntries

/-- The work on the bucket returns without an error. -/
def Returns : Prop := calls.failure bucket = none ∧ calls.ends = true

/-- The bucket is listed to its end on every set. -/
def Listed : Prop :=
  calls.failure bucket = none ∧ ∀ turns ∈ calls.workers, Retry.run Turn.outcome turns = .done true

def failures : ℕ := (calls.threads idx bucket).flatten.countP Event.isFailure

end BucketCalls

/-- The buckets that are worked on, if those in `done` are done before: a path that stands in the
queue twice is worked on once. -/
def workedOn : List String → List DecomBucketInfo → List DecomBucketInfo
  | _, [] => []
  | done, b :: rest =>
    if b.display ∈ done then workedOn (done ++ [b.display]) rest
    else b :: workedOn (done ++ [b.display]) rest

namespace RunCalls

variable (calls : RunCalls) (pm : PoolMeta)

def buckets : List DecomBucketInfo := workedOn [] (pm.pendingBuckets idx)

/-- Every queued bucket is listed to its end and no item fails, now or before the run. -/
def Clean : Prop :=
  (∀ info ∈ pm.info idx, info.itemsDecommissionFailed = 0) ∧
    ∀ b ∈ buckets idx pm, (calls.bucket b.display).Listed b ∧
      ∀ le ∈ (calls.bucket b.display).entries, ¬ le.Fails idx b.name

/-- Every queued bucket returns without an error. -/
def Returns : Prop := ∀ b ∈ buckets idx pm, (calls.bucket b.display).Returns b

/-- A failed copy is counted, now or before the run. -/
def CountsFailure : Prop :=
  (∃ info ∈ pm.info idx, info.itemsDecommissionFailed ≠ 0) ∨
    ∃ b ∈ buckets idx pm, ∃ le ∈ (calls.bucket b.display).entries, le.CountsFailure idx b.name

/-- The pool is marked complete only after a clean run, and after a clean run it is not marked
failed. -/
def MarkedRight (singlePool : Bool) : Prop :=
  (∀ info ∈ (calls.doDecommissionInRoutine idx singlePool pm).info idx,
      info.complete = true → calls.Clean idx pm) ∧
    (calls.Clean idx pm →
      ∀ info ∈ (calls.doDecommissionInRoutine idx singlePool pm).info idx, info.failed = false)

end RunCalls

/-- What work on the buckets can do to a decommission: `failures` more items have failed, and no
end is reached. -/
structure Later (d d' : PoolDecommissionInfo) (failures : ℕ) : Prop where
  complete : d.complete = false → d'.complete = false
  done : d'.decommissionedBuckets = d.decommissionedBuckets
  failed : d'.itemsDecommissionFailed = d.itemsDecommissionFailed + failures

theorem Later.trans {d d' d'' : PoolDecommissionInfo} {m n : ℕ} (h : Later d d' m)
    (h' : Later d' d'' n) : Later d d'' (m + n) where
  complete := h'.complete ∘ h.complete
  done := h'.done.trans h.done
  failed := by rw [h'.failed, h.failed, Nat.add_assoc]

section

variable {idx} {pm : PoolMeta} {d : PoolDecommissionInfo}

section

variable (h : pm.info idx = some d)
include h

theorem later_decommissionCancel (now : Time) :
    ∃ d', (pm.decommissionCancel idx now).info idx = some d' ∧ Later d d' 0 := by
  rw [PoolMeta.decommissionCancel, PoolMeta.info_settle, h, Option.map_some]
  refine ⟨_, rfl, ?_⟩
  split
  · exact ⟨id, rfl, rfl⟩
  · exact ⟨fun _ => rfl, rfl, rfl⟩

theorem later_apply (e : Event) :
    ∃ d', (e.apply idx pm).info idx = some d' ∧ Later d d' (if e.isFailure then 1 else 0) := by
  cases e with
  | countItem size failed =>
    refine ⟨d.countItem size failed, by simp [Event.apply, PoolMeta.countItem, h], ?_⟩
    cases failed
    · exact ⟨id, rfl, rfl⟩
    · exact ⟨id, rfl, rfl⟩
  | track bucket object now =>
    refine ⟨{ d with object := object, bucket := bucket }, ?_, id, rfl, rfl⟩
    simp [Event.apply, PoolMeta.trackCurrentBucketObject, h]
  | cancel now => exact later_decommissionCancel h now

theorem later_foldl_apply (es : List Event) :
    ∃ d', (es.foldl (Event.apply idx) pm).info idx = some d' ∧
      Later d d' (es.countP Event.isFailure) := by
  induction es generalizing pm d with
  | nil => exact ⟨d, h, id, rfl, rfl⟩
  | cons e es ih =>
    obtain ⟨d₁, h₁, hlater₁⟩ := later_apply h e
    obtain ⟨d₂, h₂, hlater₂⟩ := ih h₁
    refine ⟨d₂, h₂, ?_⟩
    rw [countP_cons, Nat.add_comm]
    exact hlater₁.trans hlater₂

end

theorem decommissionPool_snd_eq_ok_iff {c : BucketCalls} {b : DecomBucketInfo} :
    (c.decommissionPool idx b pm).2 = .ok ↔ c.Returns b := by
  unfold decommissionPool BucketCalls.Returns
  cases c.failure b <;> simp

/-- Whatever the schedule, the failed items of all workers are counted once. -/
theorem info_decommissionPool (cs : BucketCalls) (b : DecomBucketInfo) (h : pm.info idx = some d) :
    ∃ d', (cs.decommissionPool idx b pm).1.info idx = some d' ∧
      (d.complete = false → d'.complete = false) ∧
        ((cs.decommissionPool idx b pm).2 = .ok → Later d d' (cs.failures idx b)) := by
  unfold decommissionPool
  cases cs.failure b with
  | some e => exact ⟨d, h, id, nofun⟩
  | none =>
    rw [failures, ← (Interleave.merge_perm cs.schedule (cs.threads idx b)).countP_eq]
    obtain ⟨d', h', hlater⟩ := later_foldl_apply h (Interleave.merge cs.schedule (cs.threads idx b))
    exact ⟨d', h', hlater.complete, fun _ => hlater⟩

/-- Where the loop over the buckets stops, no end is reached. If it returns without an error, all
buckets it worked on did, and their failed items are counted. -/
theorem background_spec (cs : RunCalls) (bs : List DecomBucketInfo) (h : pm.info idx = some d) :
    let worked := workedOn d.decommissionedBuckets bs
    let res := cs.background idx pm bs
    (res.2 = .ok ↔ ∀ b ∈ worked, (cs.bucket b.display).Returns b) ∧
      ∃ d', res.1.info idx = some d' ∧ (d.complete = false → d'.complete = false) ∧
        (res.2 = .ok → d'.itemsDecommissionFailed = d.itemsDecommissionFailed +
          (worked.map fun b => (cs.bucket b.display).failures idx b).sum) := by
  induction bs generalizing pm d with
  | nil => exact ⟨by simp [background, workedOn], d, h, id, fun _ => rfl⟩
  | cons b bs ih =>
    have hpop : ∀ {pm : PoolMeta} {d : PoolDecommissionInfo}, pm.info idx = some d →
        (pm.bucketDone idx b.display).info idx = some (d.bucketPop b.display) := by
      intro pm d h
      simp [PoolMeta.bucketDone, h]
    have hskip : pm.isBucketDecommissioned idx b.display = true ↔
        b.display ∈ d.decommissionedBuckets := by
      simp [PoolMeta.isBucketDecommissioned, isBucketDecommissioned, h]
    by_cases hmem : b.display ∈ d.decommissionedBuckets
    · simpa [background, workedOn, hskip.mpr hmem, hmem] using ih (hpop h)
    have hnext : pm.isBucketDecommissioned idx b.display = false :=
      Bool.eq_false_iff.mpr (mt hskip.mp hmem)
    simp only [background, workedOn, hnext, Bool.false_eq_true, if_false, hmem,
      forall_mem_cons, map_cons, sum_cons]
    have hok : ((cs.bucket b.display).decommissionPool idx b pm).2 = .ok ↔
        (cs.bucket b.display).Returns b := decommissionPool_snd_eq_ok_iff
    obtain ⟨d₁, h₁, hcomplete₁, hlater⟩ := info_decommissionPool (cs.bucket b.display) b h
    revert hok h₁ hlater
    generalize (cs.bucket b.display).decommissionPool idx b pm = pooled
    obtain ⟨pm₁, ending⟩ := pooled
    intro hok h₁ hlater
    cases ending with
    | ok =>
      have hret := hok.mp rfl
      have hlater := hlater rfl
      obtain ⟨hiff, d', h', hcomplete, hfailed⟩ := ih (hpop h₁)
      simp only [bucketPop_decommissionedBuckets, hlater.done] at hiff hfailed
      refine ⟨by simp [hiff, hret], d', h', ?_, ?_⟩
      · intro hc
        exact hcomplete (by simp [hcomplete₁ hc])
      · intro hres
        rw [hfailed hres, bucketPop_itemsDecommissionFailed, hlater.failed, Nat.add_assoc]
    | err e | running =>
      have hret : ¬ (cs.bucket b.display).Returns b := fun hr => by cases hok.mpr hr
      exact ⟨by simp [hret], d₁, h₁, hcomplete₁, fun h => by cases h⟩

theorem failures_eq_zero_iff (c : BucketCalls) (b : DecomBucketInfo) :
    c.failures idx b = 0 ↔ ∀ le ∈ c.entries, ¬ le.CountsFailure idx b.name := by
  simp only [failures, countP_eq_zero, threads, flatten_cons,
    mem_append, BucketCalls.entries, ListedEntry.CountsFailure, not_exists, not_and]
  constructor
  · intro hall le hle e he
    obtain ⟨turns, hturns, hle⟩ := mem_flatMap.mp hle
    refine hall e (.inr (mem_flatten.mpr ⟨_, mem_map.mpr ⟨turns, hturns, rfl⟩, ?_⟩))
    exact mem_flatMap.mpr ⟨le, hle, he⟩
  · rintro hall e (he | he)
    · obtain ⟨now, -, rfl⟩ := mem_map.mp he
      simp [Event.isFailure]
    · obtain ⟨_, hl, he⟩ := mem_flatten.mp he
      obtain ⟨turns, hturns, rfl⟩ := mem_map.mp hl
      obtain ⟨le, hle, he⟩ := mem_flatMap.mp he
      exact hall le (mem_flatMap.mpr ⟨turns, hturns, hle⟩) e he

variable {c : RunCalls}

theorem countsFailure_iff (h : pm.info idx = some d) :
    c.CountsFailure idx pm ↔ d.itemsDecommissionFailed +
      ((buckets idx pm).map fun b => (c.bucket b.display).failures idx b).sum ≠ 0 := by
  have hsum : ((buckets idx pm).map fun b =>
      (c.bucket b.display).failures idx b).sum ≠ 0 ↔
      ∃ b ∈ buckets idx pm, ∃ le ∈ (c.bucket b.display).entries, le.CountsFailure idx b.name := by
    rw [Ne, List.sum_eq_zero_iff_forall_eq_nat]
    simp only [forall_mem_map, failures_eq_zero_iff]
    push Not
    rfl
  simp only [RunCalls.CountsFailure, h, Option.mem_some_iff, exists_eq_left', ← hsum]
  omega

theorem Clean.returns (hclean : c.Clean idx pm) : c.Returns idx pm := by
  intro b hb
  obtain ⟨hfail, hlisted⟩ := (hclean.2 b hb).1
  refine ⟨hfail, all_eq_true.mpr ?_⟩
  intro turns hturns
  simp [hlisted turns hturns, Retry.Outcome.isAgain]

theorem Clean.not_countsFailure (hclean : c.Clean idx pm) : ¬ c.CountsFailure idx pm := by
  rintro (⟨info, hinfo, hne⟩ | ⟨b, hb, le, hle, hcounts⟩)
  · exact hne (hclean.1 info hinfo)
  · refine (hclean.2 b hb).2 le hle ⟨?_, .inr (.inl hcounts)⟩
    obtain ⟨e, he, -⟩ := hcounts
    by_contra hdir
    simp [ListedEntry.events, hdir] at he

section

variable (h : pm.info idx = some d)
include h

theorem info_decommissionFailed (now : Time) :
    ∃ d', (pm.decommissionFailed idx now).info idx = some d' ∧ d'.failed = true ∧
      (d.complete = false → d'.complete = false) := by
  rw [PoolMeta.decommissionFailed, PoolMeta.info_settle, h, Option.map_some]
  refine ⟨_, rfl, ?_⟩
  split
  · exact ⟨‹_›, id⟩
  · exact ⟨rfl, fun _ => rfl⟩

theorem info_decommissionComplete (now : Time) :
    ∃ d', (pm.decommissionComplete idx now).info idx = some d' ∧ d'.complete = true := by
  rw [PoolMeta.decommissionComplete, PoolMeta.info_settle, h, Option.map_some]
  refine ⟨_, rfl, ?_⟩
  split
  · assumption
  · rfl

theorem later_cancels (cs : List Time) :
    ∃ d', (cs.foldl (fun pm now => pm.decommissionCancel idx now) pm).info idx = some d' ∧
      Later d d' 0 := by
  have hlater := later_foldl_apply h (cs.map .cancel)
  rw [foldl_map, countP_eq_zero.mpr (by simp [Event.isFailure])] at hlater
  exact hlater

end

/-- A decommission that is started, with its buckets queued, is not complete and has no bucket done. -/
theorem started_of_decommission {pm' : PoolMeta} {space : PoolSpaceInfo} {now : Time}
    (hidx : idx < pm.pools.length) (h : pm.decommission idx space now = some pm')
    (bks : List DecomBucketInfo) :
    ∃ d, (pm'.queueBuckets idx bks).info idx = some d ∧ d.complete = false ∧
      d.decommissionedBuckets = [] := by
  have hpush : ∀ d : PoolDecommissionInfo, d.complete = false → d.decommissionedBuckets = [] →
      (bks.foldl bucketPush d).complete = false ∧
        (bks.foldl bucketPush d).decommissionedBuckets = [] := by
    induction bks with
    | nil => exact fun d hcomplete hdone => ⟨hcomplete, hdone⟩
    | cons b bks ih =>
      intro d hcomplete hdone
      refine ih (d.bucketPush b) ?_ ?_
      all_goals
        unfold bucketPush
        split <;> assumption
  unfold PoolMeta.decommission at h
  split at h
  · cases h
  · cases h
    let d : PoolDecommissionInfo :=
      { startTime := some now, startSize := space.free, totalSize := space.total
        currentSize := space.free }
    refine ⟨bks.foldl bucketPush d, ?_, hpush d rfl rfl⟩
    rw [PoolMeta.queueBuckets, PoolMeta.info_update]
    simp [PoolMeta.info, hidx, d]

/-- The mark is right only for a run that is neither clean nor counts a failure, or does not come
to its end: the two marks are set the wrong way round. -/
theorem markedRight_iff (calls : RunCalls) (h : pm.info idx = some d)
    (hcomplete : d.complete = false) (hdone : d.decommissionedBuckets = []) :
    calls.MarkedRight idx pm false ↔
      ¬ (calls.Returns idx pm ∧ (calls.Clean idx pm ∨ calls.CountsFailure idx pm)) := by
  obtain ⟨hret, d₁, h₁, hcomplete₁, hfailed⟩ := background_spec calls (pm.pendingBuckets idx) h
  rw [hdone] at hret hfailed
  change _ ↔ calls.Returns idx pm at hret
  unfold RunCalls.MarkedRight doDecommissionInRoutine decommissionInBackground
  revert hret h₁ hfailed
  generalize calls.background idx pm (pm.pendingBuckets idx) = res
  obtain ⟨pm₁, ending⟩ := res
  intro h₁ hfailed hret
  have hc₁ := hcomplete₁ hcomplete
  cases ending with
  | running =>
    have hno : ¬ calls.Returns idx pm := fun hr => by cases hret.mpr hr
    have hunclean : ¬ calls.Clean idx pm := mt Clean.returns hno
    simp [h₁, hc₁, hno, hunclean]
  | err e =>
    have hno : ¬ calls.Returns idx pm := fun hr => by cases hret.mpr hr
    have hunclean : ¬ calls.Clean idx pm := mt Clean.returns hno
    obtain ⟨d₂, h₂, -, hc₂⟩ := info_decommissionFailed h₁ calls.now
    simp [decommissionFailed, h₂, hc₂ hc₁, hno, hunclean]
  | ok =>
    obtain ⟨d₂, h₂, hlater⟩ := later_cancels h₁ calls.cancels
    have hcounts : calls.CountsFailure idx pm ↔ d₂.itemsDecommissionFailed ≠ 0 := by
      rw [countsFailure_iff h, hlater.failed, hfailed rfl]
      rfl
    by_cases hzero : d₂.itemsDecommissionFailed = 0
    · obtain ⟨d₃, h₃, hfail, hc₃⟩ := info_decommissionFailed h₂ calls.now
      have hc₃ := hc₃ (hlater.complete hc₁)
      simp [decommissionFailed, h₂, h₃, hzero, hfail, hc₃, hret.mp rfl, hcounts]
    · obtain ⟨d₃, h₃, hc₃⟩ := info_decommissionComplete h₂ calls.now
      have hunclean : ¬ calls.Clean idx pm :=
        fun hclean => Clean.not_countsFailure hclean (hcounts.mpr hzero)
      simp [completeDecommission, h₂, h₃, hzero, hc₃, hret.mp rfl, hcounts, hunclean,
        Nat.pos_iff_ne_zero]

end

section

/-- Pool 0 of two is being decommissioned, with one bucket in the queue. -/
def startedMeta : PoolMeta where
  pools :=
    [{ id := 0, cmdLine := "first", lastUpdate := 0, decommission := some { queuedBuckets := ["bucket"] } },
      { id := 1, cmdLine := "second", lastUpdate := 0 }]

/-- A pool of one set, whose worker takes the given turns. -/
def runOf (turns : List Turn) : RunCalls where
  bucket _ := { workers := [turns] }
  now := 1

/-- An entry with one version, which cannot be read. -/
def unreadableEntry : ListedEntry where
  entry := { name := "object", versions := some [{ versionId := some 1, modTime := some 0 }] }
  rt := { now := 0, parseRfc3339 := fun _ => none, displayTime := fun _ => "", parseUuid := fun _ => none }
  calls _ :=
    { attempts := fun _ =>
        { stored := [], readFailure := some .erasureReadQuorum, call := { infos := [] } }
      call := { infos := [] }
      set := { held := .error .fileNotFound, freshId := 0 } }

/-- A run that lists its bucket to the end without an entry is marked failed, and one in which an
item fails is marked complete. -/
theorem marks_swapped :
    ¬ (runOf [{ result := .ok true }]).MarkedRight 0 startedMeta false ∧
      ¬ (runOf [{ entries := [unreadableEntry], result := .ok true }]).MarkedRight
        0 startedMeta false := by
  constructor
  · rintro ⟨-, hclean⟩
    have hmark : ((runOf [{ result := .ok true }]).doDecommissionInRoutine 0 false
        startedMeta).info 0 = some { failed := true, decommissionedBuckets := ["bucket"] } := rfl
    have hfalse := hclean ⟨by simp [startedMeta, PoolMeta.info], fun b _ => ?_⟩ _ hmark
    · cases hfalse
    · simp [runOf, BucketCalls.Listed, BucketCalls.failure, BucketCalls.entries, handedEntries,
        Retry.run, Retry.tried, outcome, handed]
  · rintro ⟨hcomplete, -⟩
    have hmark : ((runOf [{ entries := [unreadableEntry], result := .ok true }]).doDecommissionInRoutine
        0 false startedMeta).info 0 =
          some { complete := true, decommissionedBuckets := ["bucket"], object := ""
                 itemsDecommissionFailed := 1 } := rfl
    have hclean := hcomplete _ hmark rfl
    refine (hclean.2 ⟨"bucket", ""⟩ (mem_of_mem_head? rfl)).2 unreadableEntry (by
      simp [runOf, BucketCalls.entries, handedEntries, Retry.tried, outcome, handed]) ?_
    exact ⟨rfl, .inr (.inl ⟨.countItem 0 true, mem_of_mem_head? rfl, rfl⟩)⟩

/-- A run that is cancelled before it lists its bucket is marked failed, and may be. -/
theorem markedRight_cancelled :
    (runOf [{ cancelled := true, result := .ok true }]).MarkedRight 0 startedMeta false := by
  refine (markedRight_iff _ rfl rfl rfl).mpr ?_
  rintro ⟨-, hclean | hcounts⟩
  · have hlisted := (hclean.2 ⟨"bucket", ""⟩ (mem_of_mem_head? rfl)).1.2
    simp [runOf, Retry.run, outcome] at hlisted
  · obtain ⟨info, hinfo, hne⟩ | ⟨b, -, le, hle, -⟩ := hcounts
    · cases hinfo
      exact hne rfl
    · simp [runOf, BucketCalls.entries, handedEntries, Retry.tried, outcome, handed] at hle

end

end Rustfs.Decommission
