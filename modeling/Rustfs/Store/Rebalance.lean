import Mathlib.Data.List.Basic
import Mathlib.Data.Nat.Notation
import Rustfs.Filemeta.FileInfo
import Rustfs.Lib.Run

/-! The rebalance metadata in memory, which the workers of the pools update and every save replaces. -/
namespace Rustfs.Rebalance

structure RebalanceStats where
  buckets : List String := []
  rebalancedBuckets : List String := []
  bucket : String := ""
  object : String := ""
  numObjects : ℕ := 0
  numVersions : ℕ := 0
  bytes : ℕ := 0
  endTime : Option ℕ := none
  deriving DecidableEq

namespace RebalanceStats

variable (self : RebalanceStats) (bucket name : String) (isLatest : Bool) (fi : FileInfo)

/-- As an unsigned number of 64 bits; the product is one of 64 bits with a sign. -/
def onDiskSize : ℕ :=
  if fi.deleted then 0
  else (Int.tdiv (Int.bmod (fi.size * (fi.erasure.dataBlocks + fi.erasure.parityBlocks)) (2 ^ 64))
    fi.erasure.dataBlocks % 2 ^ 64).toNat

/-- Without data blocks the division panics after the first two counters. -/
def update : RebalanceStats :=
  let counted := { self with
    numObjects := if isLatest then (self.numObjects + 1) % 2 ^ 64 else self.numObjects
    numVersions := (self.numVersions + 1) % 2 ^ 64 }
  if fi.deleted || fi.erasure.dataBlocks != 0 then
    { counted with bytes := (self.bytes + onDiskSize fi) % 2 ^ 64, bucket := bucket, object := name }
  else counted

/-- The effect of `bucket_rebalance_done`. -/
def bucketDone : RebalanceStats :=
  { self with
    buckets := self.buckets.filter (· != bucket)
    rebalancedBuckets := self.rebalancedBuckets ++ self.buckets.filter (· == bucket) }

/-- No counter overflows in `update`. -/
def Fits : Prop :=
  (isLatest = true → self.numObjects + 1 < 2 ^ 64) ∧ self.numVersions + 1 < 2 ^ 64 ∧
    ((fi.deleted || fi.erasure.dataBlocks != 0) = true → self.bytes + onDiskSize fi < 2 ^ 64)

/-- Buckets recorded as rebalanced stay so and no counter decreases. -/
structure Advances (s t : RebalanceStats) : Prop where
  rebalancedBuckets : s.rebalancedBuckets ⊆ t.rebalancedBuckets
  numObjects : s.numObjects ≤ t.numObjects
  numVersions : s.numVersions ≤ t.numVersions
  bytes : s.bytes ≤ t.bytes

variable {self bucket name isLatest fi} {s t u : RebalanceStats}

theorem Advances.refl : s.Advances s := ⟨List.Subset.refl _, le_rfl, le_rfl, le_rfl⟩

theorem Advances.trans (h : s.Advances t) (h' : t.Advances u) : s.Advances u :=
  ⟨List.Subset.trans h.1 h'.1, h.2.trans h'.2, h.3.trans h'.3, h.4.trans h'.4⟩

theorem onDiskSize_lt : onDiskSize fi < 2 ^ 64 := by
  unfold onDiskSize
  split <;> omega

theorem advances_update_iff : self.Advances (self.update bucket name isLatest fi) ↔ self.Fits isLatest fi := by
  have hsize := @onDiskSize_lt fi
  constructor
  · rintro ⟨-, hobjects, hversions, hbytes⟩
    unfold update at hobjects hversions hbytes
    refine ⟨fun hlatest => ?_, ?_, fun hcounts => ?_⟩ <;> grind
  · rintro ⟨hobjects, hversions, hbytes⟩
    unfold update
    constructor <;> grind [List.Subset.refl]

theorem advances_bucketDone : self.Advances (self.bucketDone bucket) :=
  ⟨List.subset_append_left _ _, le_rfl, le_rfl, le_rfl⟩

end RebalanceStats

/-- What is written to `rebalance.bin`. -/
structure RebalanceMeta where
  stoppedAt : Option ℕ := none
  poolStats : List RebalanceStats := []
  deriving DecidableEq

/-- The metadata in memory; its token is never written. -/
structure LiveMeta extends RebalanceMeta where
  cancel : Option ℕ := none

inductive RebalSaveOpt where
  | stats | stoppedAt

/-- What a `save_rebalance_stats` has done so far. -/
inductive Phase where
  | loaded | patched | installed | ended
  deriving DecidableEq

structure SaveCall where
  pool : ℕ
  opt : RebalSaveOpt
  phase : Phase
  metadata : RebalanceMeta

/-- The change of the loaded metadata; an index out of range panics. -/
def SaveCall.patch (self : SaveCall) (live : Option LiveMeta) (now : ℕ) : SaveCall :=
  match self.opt with
  | .stoppedAt =>
    { self with phase := .patched, metadata := { self.metadata with stoppedAt := some now } }
  | .stats =>
    let stats := self.metadata.poolStats
    let copied := live.elim (some stats) fun rbm => do
      let own ← rbm.poolStats[self.pool]?
      if self.pool < stats.length then some (stats.set self.pool own) else none
    copied.elim { self with phase := .ended } fun stats =>
      { self with
        phase := .patched
        metadata := { self.metadata with
          poolStats := stats.modify self.pool fun own => { own with endTime := some now } } }

/-- `saved` is the content of `rebalance.bin`. -/
structure ECStore where
  rebalanceMeta : Option LiveMeta
  saved : Option RebalanceMeta
  calls : List SaveCall := []

/-- What happens under one lock, or at one access to `rebalance.bin`. -/
inductive Event where
  | updatePoolStats (pool : ℕ) (bucket name : String) (isLatest : Bool) (fi : FileInfo)
  | bucketRebalanceDone (pool : ℕ) (bucket : String)
  | load (pool : ℕ) (opt : RebalSaveOpt) (fails : Bool)
  | patch (call now : ℕ)
  | install (call : ℕ)
  | persist (call : ℕ) (fails : Bool)

namespace ECStore

variable (self : ECStore)

def onPool (pool : ℕ) (f : RebalanceStats → RebalanceStats) : ECStore :=
  { self with rebalanceMeta := self.rebalanceMeta.map fun live =>
    { live with poolStats := live.poolStats.modify pool f } }

/-- The call with this number, where it is in this phase. -/
def callIn (call : ℕ) (phase : Phase) : Option SaveCall :=
  self.calls[call]?.filter (·.phase = phase)

def step : Event → ECStore
  | .updatePoolStats pool bucket name isLatest fi => self.onPool pool (·.update bucket name isLatest fi)
  | .bucketRebalanceDone pool bucket => self.onPool pool (·.bucketDone bucket)
  | .load pool opt fails =>
    -- A missing file is no failure but empty metadata.
    if fails then self
    else { self with calls := self.calls ++ [⟨pool, opt, .loaded, self.saved.getD {}⟩] }
  | .patch call now => (self.callIn call .loaded).elim self fun c =>
    { self with calls := self.calls.set call (c.patch self.rebalanceMeta now) }
  | .install call => (self.callIn call .patched).elim self fun c =>
    { self with
      rebalanceMeta := some { toRebalanceMeta := c.metadata }
      calls := self.calls.set call { c with phase := .installed } }
  | .persist call fails => (self.callIn call .installed).elim self fun c =>
    { self with
      saved := if fails || c.metadata.poolStats.isEmpty then self.saved else some c.metadata
      calls := self.calls.set call { c with phase := .ended } }

/-- The progress of no pool goes backwards, and a token that is there stays. -/
def Advances (s t : ECStore) : Prop :=
  ∀ live ∈ s.rebalanceMeta, ∃ live' ∈ t.rebalanceMeta,
    (∀ token ∈ live.cancel, live'.cancel = some token) ∧
    ∀ pool : ℕ, ∀ stats ∈ live.poolStats[pool]?, ∃ stats' ∈ live'.poolStats[pool]?, stats.Advances stats'

/-- No counter overflows, and no call of `save_rebalance_stats` is about to replace the metadata. -/
def Safe : Event → Prop
  | .updatePoolStats pool _ _ isLatest fi =>
    ∀ live ∈ self.rebalanceMeta, ∀ stats ∈ live.poolStats[pool]?, stats.Fits isLatest fi
  | .install call => self.callIn call .patched = none
  | _ => True

/-- A token was installed. -/
def Started : Prop := ∃ live ∈ self.rebalanceMeta, live.cancel.isSome

variable {self} {s t u : ECStore} {e : Event} {events : List Event}

theorem Advances.of_eq (h : t.rebalanceMeta = s.rebalanceMeta) : s.Advances t := fun live hlive =>
  ⟨live, h ▸ hlive, fun _ htoken => htoken, fun _ stats hstats => ⟨stats, hstats, .refl⟩⟩

theorem Advances.trans (h : s.Advances t) (h' : t.Advances u) : s.Advances u := by
  intro live hlive
  obtain ⟨live', hlive', htoken, hstats⟩ := h live hlive
  obtain ⟨live'', hlive'', htoken', hstats'⟩ := h' live' hlive'
  refine ⟨live'', hlive'', fun token hcancel => htoken' token (htoken token hcancel), fun pool stats hs => ?_⟩
  obtain ⟨stats', hs', hadv⟩ := hstats pool stats hs
  obtain ⟨stats'', hs'', hadv'⟩ := hstats' pool stats' hs'
  exact ⟨stats'', hs'', hadv.trans hadv'⟩

theorem Started.advances (hs : s.Started) (h : s.Advances t) : t.Started := by
  obtain ⟨live, hlive, hcancel⟩ := hs
  obtain ⟨token, htoken⟩ := Option.isSome_iff_exists.mp hcancel
  obtain ⟨live', hlive', hkeeps, -⟩ := h live hlive
  exact ⟨live', hlive', by simp [hkeeps token htoken]⟩

theorem advances_onPool_iff {pool : ℕ} {f : RebalanceStats → RebalanceStats} :
    s.Advances (s.onPool pool f) ↔
      ∀ live ∈ s.rebalanceMeta, ∀ stats ∈ live.poolStats[pool]?, stats.Advances (f stats) := by
  constructor
  · intro h live hlive stats hstats
    obtain ⟨live', hlive', -, hall⟩ := h live hlive
    obtain rfl : { live with poolStats := live.poolStats.modify pool f } = live' := by
      simpa [onPool, Option.mem_def.mp hlive] using hlive'
    obtain ⟨stats', hstats', hadv⟩ := hall pool stats hstats
    obtain rfl : f stats = stats' := by simpa [Option.mem_def.mp hstats] using hstats'
    exact hadv
  · intro h live hlive
    refine ⟨_, Option.mem_map_of_mem _ hlive, fun _ htoken => htoken, fun q stats hstats => ?_⟩
    by_cases hq : pool = q
    · subst hq
      exact ⟨f stats, by simp_all, h live hlive stats hstats⟩
    · exact ⟨stats, by simp_all, .refl⟩

/-- An installed metadata has no token, so a step that installs one is never harmless. -/
theorem advances_step_iff (hs : s.Started) : s.Advances (s.step e) ↔ s.Safe e := by
  cases e with
  | updatePoolStats pool bucket name isLatest fi =>
    exact advances_onPool_iff.trans (by simp only [RebalanceStats.advances_update_iff, Safe])
  | bucketRebalanceDone pool bucket =>
    exact iff_of_true (advances_onPool_iff.mpr fun _ _ _ _ => RebalanceStats.advances_bucketDone) trivial
  | load pool opt fails => exact iff_of_true (.of_eq (by cases fails <;> rfl)) trivial
  | patch call now =>
    exact iff_of_true (.of_eq (by cases h : s.callIn call .loaded <;> simp [step, h])) trivial
  | persist call fails =>
    exact iff_of_true (.of_eq (by cases h : s.callIn call .installed <;> simp [step, h])) trivial
  | install call =>
    cases h : s.callIn call .patched with
    | none => exact iff_of_true (.of_eq (by simp [step, h])) h
    | some c =>
      refine iff_of_false (fun hadv => ?_) (by simp [Safe, h])
      have := hs.advances hadv
      simp [Started, step, h] at this

theorem advances_run (hs : s.Started) (h : Run.Along step Safe s events) :
    s.Advances (events.foldl step s) ∧ (events.foldl step s).Started := by
  refine Run.invariant (I := fun t => s.Advances t ∧ t.Started) ?_ h ⟨.of_eq rfl, hs⟩
  intro t e ⟨hadv, ht⟩ hsafe
  have hstep := (advances_step_iff ht).mpr hsafe
  exact ⟨hadv.trans hstep, ht.advances hstep⟩

/-- The progress goes forward between any two moments of a run, and the token stays, if and only if
no counter overflows and no call gets as far as replacing the metadata. -/
theorem progress_advances_iff (hs : s.Started) :
    (∀ before between after, events = before ++ between ++ after →
      (before.foldl step s).Advances ((before ++ between).foldl step s)) ↔
    Run.Along step Safe s events := by
  constructor
  · intro h
    induction events generalizing s with
    | nil => trivial
    | cons e events ih =>
      have hstep : s.Advances (s.step e) := h [] [e] events rfl
      exact ⟨(advances_step_iff hs).mp hstep, ih (hs.advances hstep) fun before between after heq =>
        h (e :: before) between after (by rw [heq]; rfl)⟩
  · rintro h before between after rfl
    obtain ⟨hbefore, hbetween⟩ := Run.along_append.mp (Run.along_append.mp h).1
    rw [List.foldl_append]
    exact (advances_run (advances_run hs hbefore).2 hbetween).1

end ECStore

/-- Two pools with one bucket. -/
def twoPools : ECStore where
  rebalanceMeta := some { poolStats := [{ buckets := ["a"] }, { buckets := ["a"] }], cancel := some 1 }
  saved := some { poolStats := [{ buckets := ["a"] }, { buckets := ["a"] }] }

theorem progress_advances_unsaved : twoPools.Started ∧ ∀ before between after,
    [Event.bucketRebalanceDone 0 "a", .load 1 .stats true] = before ++ between ++ after →
      (before.foldl ECStore.step twoPools).Advances ((before ++ between).foldl ECStore.step twoPools) :=
  ⟨⟨_, rfl, rfl⟩, (ECStore.progress_advances_iff ⟨_, rfl, rfl⟩).mpr ⟨trivial, trivial, trivial⟩⟩

/-- The save of the second pool forgets the bucket of the first, and the token. -/
theorem save_loses_progress :
    ((twoPools.step (.bucketRebalanceDone 0 "a")).rebalanceMeta.map fun live =>
        (live.cancel, live.poolStats.map (·.rebalancedBuckets))) = some (some 1, [["a"], []]) ∧
      (([.bucketRebalanceDone 0 "a", .load 1 .stats false, .patch 0 7, .install 0].foldl ECStore.step
        twoPools).rebalanceMeta.map fun live =>
          (live.cancel, live.poolStats.map (·.rebalancedBuckets))) = some (none, [[], []]) := by
  decide +kernel

end Rustfs.Rebalance
