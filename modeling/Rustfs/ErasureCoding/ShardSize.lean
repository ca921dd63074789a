import Rustfs.ErasureCoding.ShardStream
import Rustfs.Filemeta.FileInfo

/-! The length of a shard file and the end of a range in it, by formulas that look at no shard. -/
namespace Rustfs

open Blocks ErasureCode Nat

namespace Machine

/-- `as i64` -/
def asI64 (n : ℕ) : ℤ := Int.bmod n (2 ^ 64)

/-- `as usize` -/
def asUsize (n : ℤ) : ℕ := (n % 2 ^ 64).toNat

/-- `calc_shard_size` in `usize`, where sums and products wrap. -/
def calcShardSize (n dataShards : ℕ) : ℕ := (divCeil n dataShards + 1) % 2 ^ 64 / 2 * 2

def shardFileSize (blockSize dataShards : ℕ) (total : ℤ) : ℤ :=
  if total = 0 then 0
  else if total < 0 then total
  else
    let n := total.toNat
    let full := n / blockSize * calcShardSize blockSize dataShards % 2 ^ 64
    asI64 ((full + calcShardSize (n % blockSize) dataShards) % 2 ^ 64)

end Machine

/-- `shard_file_size` of the coder in machine words; `shardFileSize` is what it is meant to be. -/
def Erasure.machineShardFileSize (e : Erasure) : ℤ → ℤ := Machine.shardFileSize e.blockSize e.dataShards

def Erasure.machineShardFileOffset (e : Erasure) (start length total : ℕ) : ℕ :=
  let shardSize := Machine.calcShardSize e.blockSize e.dataShards
  let fileSize := Machine.asUsize (e.machineShardFileSize (Machine.asI64 total))
  let endShard := (start + length) % 2 ^ 64 / e.blockSize
  let till := (endShard * shardSize % 2 ^ 64 + shardSize) % 2 ^ 64
  if till > fileSize then fileSize else till

namespace ErasureInfo

def machineShardFileSize (ei : ErasureInfo) : ℤ → ℤ := Machine.shardFileSize ei.blockSize ei.dataBlocks

/-- The coder that the set layer opens for the layout of an object. -/
def coder (ei : ErasureInfo) : Erasure := ⟨ei.dataBlocks, ei.parityBlocks, ei.blockSize⟩

end ErasureInfo

namespace Erasure

variable {c : Codec} {e : Erasure} {data : Bytes} {i stop : ℕ}

/-- Shard `i` of the blocks before `stop`, one after the other. -/
def shardBytes (c : Codec) (e : Erasure) (data : Bytes) (i stop : ℕ) : Bytes :=
  (List.range stop).flatMap fun b => blockShard c e data b i

theorem shardFileSize_nonneg (e : Erasure) (n : ℕ) : 0 ≤ e.shardFileSize n := by
  unfold shardFileSize
  split
  · exact Int.le_refl 0
  · rw [if_neg (by omega)]
    exact Int.natCast_nonneg _

/-- Without a hash the frames are the shards themselves. -/
theorem length_shardBytes (he : e.WellFormed) (hc : c.Lawful e.dataShards e.parityShards)
    (hi : i < e.totalShardCount) (hstop : stop ≤ e.blockCount data) :
    (shardBytes c e data i stop).length =
      min (stop * e.shardSize) (e.shardFileSize data.length).toNat := by
  have hbare : frames .zeros .none c e data i 0 stop = shardBytes c e data i stop := by
    rw [frames, shardBytes, List.range_eq_range']
    rfl
  rw [← hbare, length_frames_zero he hc hi hstop]
  simp [HashAlgorithm.size]

/-- All blocks together reach the end of the file. -/
theorem shardFileSize_le (he : e.WellFormed) (d : Bytes) :
    (e.shardFileSize d.length).toNat ≤ e.blockCount d * e.shardSize := by
  have hmono : calcShardSize (d.length % e.blockSize) e.dataShards ≤ e.shardSize :=
    calcShardSize_mono (mod_lt _ he.blockSize_pos).le
  rw [shardFileSize_natCast he, blockCount, divCeil_eq he.blockSize_pos, add_mul]
  split
  case isTrue hz =>
    rw [hz, calcShardSize, divCeil_zero he.dataShards_pos]
    omega
  case isFalse => omega

theorem shardFileOffset_eq_min (e : Erasure) (s l t : ℕ) :
    e.shardFileOffset s l t =
      min (((s + l) / e.blockSize + 1) * e.shardSize) (e.shardFileSize t).toNat := by
  rw [shardFileOffset, succ_mul]
  split <;> omega

/-- The bytes of the block of any position in a range lie before the end computed for the range. -/
theorem length_shardBytes_le_shardFileOffset (he : e.WellFormed)
    (hc : c.Lawful e.dataShards e.parityShards) (hi : i < e.totalShardCount) {s l p : ℕ}
    (hend : p < s + l) (hp : p < data.length) :
    (shardBytes c e data i (p / e.blockSize + 1)).length ≤ e.shardFileOffset s l data.length := by
  have hblock : p / e.blockSize < e.blockCount data :=
    (lt_blockCount he).2 (lt_of_le_of_lt (div_mul_le_self p e.blockSize) hp)
  have hle : p / e.blockSize ≤ (s + l) / e.blockSize := Nat.div_le_div_right hend.le
  have hmul := Nat.mul_le_mul_right e.shardSize (Nat.succ_le_succ hle)
  rw [length_shardBytes he hc hi hblock, shardFileOffset_eq_min]
  exact min_le_min_right _ hmul

theorem machine_calcShardSize {n k : ℕ} (h : calcShardSize n k < 2 ^ 64) :
    Machine.calcShardSize n k = calcShardSize n k := by
  rw [calcShardSize] at h
  rw [Machine.calcShardSize, calcShardSize, mod_eq_of_lt]
  omega

theorem asI64_of_lt {n : ℕ} (h : n < 2 ^ 63) : Machine.asI64 n = n :=
  Int.bmod_eq_of_le (by omega) (by omega)

/-- A size that fits is computed without wrapping. -/
theorem machineShardFileSize_natCast (he : e.WellFormed) {n : ℕ} (hfit : e.shardFileSize n < 2 ^ 63) :
    e.machineShardFileSize n = e.shardFileSize n := by
  have hsize : e.shardFileSize n = _ :=
    (Int.toNat_of_nonneg (shardFileSize_nonneg e n)).symm.trans
      (congrArg Nat.cast (shardFileSize_natCast he n))
  rw [hsize] at hfit ⊢
  have hlast := machine_calcShardSize (n := n % e.blockSize) (k := e.dataShards) (by omega)
  have hfull : n / e.blockSize * Machine.calcShardSize e.blockSize e.dataShards =
      n / e.blockSize * e.shardSize := by
    rcases (n / e.blockSize).eq_zero_or_pos with hzero | hpos
    · rw [hzero, Nat.zero_mul, Nat.zero_mul]
    · have hle := Nat.le_mul_of_pos_left e.shardSize hpos
      rw [machine_calcShardSize (lt_of_le_of_lt hle (by omega)), shardSize]
  rw [machineShardFileSize, Machine.shardFileSize]
  split
  case isTrue hzero =>
    obtain rfl : n = 0 := by omega
    simp [calcShardSize, divCeil_zero he.dataShards_pos]
  case isFalse =>
    rw [if_neg (by omega)]
    dsimp only
    rw [Int.toNat_natCast, hfull, hlast, mod_eq_of_lt (a := _ * _) (by omega), mod_eq_of_lt (by omega),
      asI64_of_lt (by omega)]

/-- Nor does the end of a range wrap where it fits. -/
theorem machineShardFileOffset_eq (he : e.WellFormed) {n s l : ℕ} (hn : n < 2 ^ 63)
    (hfit : e.shardFileSize n < 2 ^ 63) (hend : s + l < 2 ^ 64)
    (htill : (s + l) / e.blockSize * e.shardSize + e.shardSize < 2 ^ 64) :
    e.machineShardFileOffset s l n = e.shardFileOffset s l n := by
  have hnonneg := shardFileSize_nonneg e n
  have hshard : Machine.calcShardSize e.blockSize e.dataShards = e.shardSize :=
    machine_calcShardSize (lt_of_le_of_lt (Nat.le_add_left _ _) htill)
  have hfile : Machine.asUsize (e.shardFileSize n) = (e.shardFileSize n).toNat := by
    rw [Machine.asUsize, Int.emod_eq_of_lt hnonneg (by omega)]
  rw [machineShardFileOffset, shardFileOffset, asI64_of_lt hn, machineShardFileSize_natCast he hfit,
    hfile, hshard, mod_eq_of_lt hend]
  rw [mod_eq_of_lt (a := _ * _) (by omega), mod_eq_of_lt htill]

/-- For a shard file of less than `2 ^ 63` bytes the formulas are exact. -/
theorem shardFileSize_exact (he : e.WellFormed) (hc : c.Lawful e.dataShards e.parityShards)
    (data : Bytes) (hlen : data.length < 2 ^ 63)
    (hfit : ∀ i < e.totalShardCount, (shardBytes c e data i (e.blockCount data)).length < 2 ^ 63) :
    (∀ b < e.blockCount data, ∃ shards len, encodeData c e (block e.blockSize data b) = .ok shards ∧
      shards.length = e.totalShardCount ∧ ∀ s ∈ shards, s.length = len) ∧
    (∀ i < e.totalShardCount,
      e.machineShardFileSize data.length = (shardBytes c e data i (e.blockCount data)).length) ∧
    (∀ ei : ErasureInfo, ei.coder = e →
      ∀ total, ei.machineShardFileSize total = e.machineShardFileSize total) ∧
    ∀ start length, start + length < 2 ^ 64 →
      (start + length) / e.blockSize * e.shardSize + e.shardSize < 2 ^ 64 →
      e.machineShardFileOffset start length data.length ≤ e.machineShardFileSize data.length ∧
      ∀ i < e.totalShardCount, ∀ p, start ≤ p → p < start + length → p < data.length →
        (shardBytes c e data i (p / e.blockSize + 1)).length ≤
          e.machineShardFileOffset start length data.length := by
  have hnonneg := shardFileSize_nonneg e data.length
  have hall : ∀ i < e.totalShardCount,
      e.shardFileSize data.length = (shardBytes c e data i (e.blockCount data)).length := by
    intro i hi
    have hle := shardFileSize_le he data
    rw [length_shardBytes he hc hi le_rfl]
    omega
  have hsize : e.shardFileSize data.length < 2 ^ 63 := by
    have hpos : 0 < e.totalShardCount := Nat.add_pos_left he.dataShards_pos _
    rw [hall 0 hpos]
    exact_mod_cast hfit 0 hpos
  rw [machineShardFileSize_natCast he hsize]
  refine ⟨fun b hb => ?_, hall, ?_, fun start length hend htill => ?_⟩
  · obtain ⟨os, rs, henc⟩ := encoded_block he hc hb
    refine ⟨os ++ rs, _, henc.encodes, ?_, henc.shard_length⟩
    rw [List.length_append, henc.originals, henc.recovery, totalShardCount]
  · rintro ei rfl total
    rfl
  · rw [machineShardFileOffset_eq he hlen hsize hend htill]
    refine ⟨?_, fun i hi p _ hp => length_shardBytes_le_shardFileOffset he hc hi hp⟩
    rw [shardFileOffset_eq_min]
    omega

/-- A full block and one byte of the next, in two data shards and a parity shard. -/
theorem shardFileSize_two_blocks : ∃ data : Bytes, (⟨2, 1, 4⟩ : Erasure).WellFormed ∧
    xorParity.Lawful 2 1 ∧ (shardBytes xorParity ⟨2, 1, 4⟩ data 2 2).length = 4 := by
  have he : (⟨2, 1, 4⟩ : Erasure).WellFormed := ⟨by decide, by decide⟩
  refine ⟨[1, 2, 3, 4, 5], he, xorParity_lawful, ?_⟩
  have hsize := (shardFileSize_exact he xorParity_lawful [1, 2, 3, 4, 5] (by decide) (by decide)).2.1
    2 (by decide)
  exact Int.ofNat_inj.mp (hsize.symm.trans (by decide))

/-- In bytes that each fill a block the size of a shard file leaves `i64`, and a range its `usize`. -/
theorem shardFileSize_wraps :
    (⟨1, 0, 1⟩ : Erasure).shardFileSize (2 ^ 62) = 2 ^ 63 ∧
      (⟨1, 0, 1⟩ : Erasure).machineShardFileSize (2 ^ 62) = -2 ^ 63 ∧
      (⟨1, 0, 1⟩ : Erasure).shardFileOffset 1 (2 ^ 64 - 1) 4 = 8 ∧
      (⟨1, 0, 1⟩ : Erasure).machineShardFileOffset 1 (2 ^ 64 - 1) 4 = 2 := by
  decide

end Erasure

end Rustfs
