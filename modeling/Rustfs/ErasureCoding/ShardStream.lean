import Rustfs.ErasureCoding.Bitrot
import Rustfs.ErasureCoding.Erasure

/-! The file kept for one shard: the frames of its block shards, and where each block starts. -/
namespace Rustfs.Erasure

open Blocks ErasureCode Source List Nat

/-- Shard `i` of a block. -/
def shardAt (c : Codec) (e : Erasure) (data : Bytes) (i : ℕ) : Bytes :=
  match encodeData c e data with
  | .ok shards => shards.getD i []
  | .error _ => []

def blockCount (e : Erasure) (data : Bytes) : ℕ := divCeil data.length e.blockSize

/-- Shard `i` of block `b` of the data. -/
def blockShard (c : Codec) (e : Erasure) (data : Bytes) (b i : ℕ) : Bytes :=
  shardAt c e (block e.blockSize data b) i

/-- The frames of shard `i` for `n` blocks from block `b` on. -/
def frames (h : Hasher) (alg : HashAlgorithm) (c : Codec) (e : Erasure) (data : Bytes)
    (i b n : ℕ) : Bytes :=
  (List.range' b n).flatMap fun j => frame h alg (blockShard c e data j i)

/-- All that is stored for shard `i`. -/
def shardStream (h : Hasher) (alg : HashAlgorithm) (c : Codec) (e : Erasure) (data : Bytes)
    (i : ℕ) : Bytes :=
  frames h alg c e data i 0 (e.blockCount data)

variable {h : Hasher} {alg : HashAlgorithm} {c : Codec} {e : Erasure} {d : Bytes}
  {os rs : List Bytes} {i b n stop : ℕ}

section

variable (he : e.WellFormed)
include he

theorem lt_blockCount : b < e.blockCount d ↔ b * e.blockSize < d.length :=
  lt_divCeil_iff he.blockSize_pos

theorem blockCount_nil : e.blockCount [] = 0 := divCeil_zero he.blockSize_pos

/-- Blocks before the last one are full. -/
theorem full_of_succ_lt (hb : b + 1 < e.blockCount d) : (b + 1) * e.blockSize ≤ d.length :=
  le_of_lt ((lt_blockCount he).1 hb)

theorem encoded_block (hc : c.Lawful e.dataShards e.parityShards)
    (hb : b < e.blockCount d) : ∃ os rs, Encoded c e (block e.blockSize d b) os rs :=
  encodeData_ok he hc (block_ne_nil he.blockSize_pos ((lt_blockCount he).1 hb))

end

theorem Encoded.get_shardAt (henc : Encoded c e d os rs) (hi : i < e.totalShardCount) :
    (os ++ rs)[i]? = some (shardAt c e d i) := by
  have hlen : i < (os ++ rs).length := by
    rw [length_append, henc.originals, henc.recovery]
    exact hi
  rw [shardAt, henc.encodes, getElem?_eq_getElem hlen]
  simp only [getD_eq_getElem?_getD, getElem?_eq_getElem hlen, Option.getD_some]

section

variable (he : e.WellFormed) (hc : c.Lawful e.dataShards e.parityShards)
include he hc

theorem length_blockShard (hb : b < e.blockCount d) (hi : i < e.totalShardCount) :
    (blockShard c e d b i).length = calcShardSize (block e.blockSize d b).length e.dataShards := by
  obtain ⟨os, rs, henc⟩ := encoded_block he hc hb
  exact henc.shard_length _ (mem_of_getElem? (henc.get_shardAt hi))

theorem length_blockShard_full
    (hb : (b + 1) * e.blockSize ≤ d.length) (hi : i < e.totalShardCount) :
    (blockShard c e d b i).length = e.shardSize := by
  have hlt : b < e.blockCount d := by
    have hpos := he.blockSize_pos
    rw [lt_blockCount he]
    rw [Nat.succ_mul] at hb
    omega
  rw [length_blockShard he hc hlt hi, length_block_full hb, shardSize]

variable (hb : b < e.blockCount d) (hi : i < e.totalShardCount)
include hb hi

theorem length_blockShard_le : (blockShard c e d b i).length ≤ e.shardSize := by
  rw [length_blockShard he hc hb hi, shardSize]
  refine calcShardSize_mono ?_
  rw [length_block]
  exact min_le_left _ _

theorem blockShard_ne_nil : blockShard c e d b i ≠ [] := by
  rw [← length_pos_iff, length_blockShard he hc hb hi]
  refine calcShardSize_pos he.dataShards_pos (length_pos_iff.2 ?_)
  exact block_ne_nil he.blockSize_pos ((lt_blockCount he).1 hb)

end

@[simp] theorem frames_zero : frames h alg c e d i b 0 = [] := rfl

theorem frames_succ : frames h alg c e d i b (n + 1) =
    frame h alg (blockShard c e d b i) ++ frames h alg c e d i (b + 1) n := by
  rw [frames, range'_succ, flatMap_cons]
  rfl

theorem frames_add (n m : ℕ) : frames h alg c e d i b (n + m) =
    frames h alg c e d i b n ++ frames h alg c e d i (b + n) m := by
  rw [frames, ← range'_append_1, flatMap_append]
  rfl

section

variable (h alg) (he : e.WellFormed) (hc : c.Lawful e.dataShards e.parityShards)
  (hi : i < e.totalShardCount)
include he hc hi

/-- Frames of full blocks all have one length. -/
theorem length_frames_full (hb : (b + n) * e.blockSize ≤ d.length) :
    (frames h alg c e d i b n).length = n * (alg.size + e.shardSize) := by
  induction n generalizing b with
  | zero => simp
  | succ n ih =>
    have hb' : (b + 1) * e.blockSize ≤ d.length :=
      le_trans (mul_le_mul_right _ (by omega)) hb
    rw [frames_succ, length_append, length_frame, length_blockShard_full he hc hb' hi,
      ih (by rw [add_right_comm]; exact hb), Nat.succ_mul]
    omega

/-- Where block `b` starts in the stored file. -/
theorem drop_shardStream (hb : b * e.blockSize ≤ d.length) (hle : b ≤ e.blockCount d) :
    (shardStream h alg c e d i).drop (b * (alg.size + e.shardSize)) =
      frames h alg c e d i b (e.blockCount d - b) := by
  have hsplit : e.blockCount d = b + (e.blockCount d - b) := by omega
  rw [shardStream, hsplit, frames_add, zero_add,
    drop_left' (length_frames_full h alg he hc hi (by simpa using hb)), ← hsplit]

end

theorem shardFileSize_natCast (he : e.WellFormed) (n : ℕ) : (e.shardFileSize n).toNat =
    n / e.blockSize * e.shardSize + calcShardSize (n % e.blockSize) e.dataShards := by
  rw [shardFileSize]
  by_cases hn : n = 0
  · subst hn
    simp [calcShardSize, divCeil_zero he.dataShards_pos]
  · rw [if_neg (by omega), if_neg (by omega)]
    exact Int.toNat_natCast _

/-- The last block, where it is not full. -/
theorem length_block_last (he : e.WellFormed) :
    (block e.blockSize d (d.length / e.blockSize)).length = d.length % e.blockSize := by
  have hmod := mod_lt d.length he.blockSize_pos
  have hdiv := div_add_mod' d.length e.blockSize
  rw [length_block]
  omega

/-- The shard bytes of the blocks before `stop`, hashes left out. -/
theorem length_frames_zero (he : e.WellFormed) (hc : c.Lawful e.dataShards e.parityShards)
    (hi : i < e.totalShardCount) (hstop : stop ≤ e.blockCount d) :
    (frames h alg c e d i 0 stop).length =
      stop * alg.size + min (stop * e.shardSize) (e.shardFileSize d.length).toNat := by
  have hpos := he.blockSize_pos
  rw [shardFileSize_natCast he]
  by_cases hfull : stop ≤ d.length / e.blockSize
  · have hle : stop * e.blockSize ≤ d.length := (le_div_iff_mul_le hpos).1 hfull
    have hmul : stop * e.shardSize ≤ d.length / e.blockSize * e.shardSize :=
      mul_le_mul_right _ hfull
    rw [length_frames_full h alg he hc hi (by simpa using hle), mul_add]
    omega
  · -- the last block is there and is not full
    have hlt : d.length / e.blockSize < e.blockCount d := by omega
    have hbs := (lt_blockCount he).1 hlt
    have hdiv := div_add_mod' d.length e.blockSize
    have hmod := mod_lt d.length hpos
    obtain rfl : stop = d.length / e.blockSize + 1 := by
      refine Nat.le_antisymm (Nat.le_of_not_lt fun hlt' => ?_) (by omega)
      have hge := (lt_blockCount he).1 (Nat.lt_of_lt_of_le hlt' hstop)
      rw [Nat.succ_mul] at hge
      omega
    have hlast := length_blockShard he hc hlt hi
    have hle : calcShardSize (d.length % e.blockSize) e.dataShards ≤ e.shardSize :=
      calcShardSize_mono (le_of_lt hmod)
    rw [length_block_last he] at hlast
    rw [frames_add, length_append, frames_succ, frames_zero, append_nil, length_frame,
      zero_add, hlast, length_frames_full h alg he hc hi (by rw [zero_add]; omega), mul_add,
      Nat.succ_mul,
      Nat.succ_mul]
    omega

/-- A reader that stands at the frame of block `b` of shard `i` and has the frames of the blocks
before `stop`; its stream is a part of what is stored, not past its end. -/
structure Serves (h : Hasher) (alg : HashAlgorithm) (c : Codec) (e : Erasure) (data : Bytes)
    (i b stop : ℕ) (r : BitrotReader) : Prop where
  algo : r.hashAlgo = alg
  size : r.shardSize = e.shardSize
  content : ∃ s, Clean r.inner s ∧ frames h alg c e data i b (stop - b) <+: s ∧
    s <+: frames h alg c e data i b (e.blockCount data - b)

/-- A reader that stands at a block hands over its shard and stands at the next block. -/
theorem Serves.read (hs : Serves h alg c e d i b stop r) (hb : b < stop)
    (hstop : stop ≤ e.blockCount d) (hn : n ≤ e.shardSize) (hle : (blockShard c e d b i).length ≤ n)
    (hend : (blockShard c e d b i).length = n ∨ b + 1 = e.blockCount d) :
    ∃ r', r.read h n = (.ok (blockShard c e d b i), r') ∧ Serves h alg c e d i (b + 1) stop r' := by
  obtain rfl := hs.algo
  obtain ⟨s, hclean, ⟨t, ht⟩, hall⟩ := hs.content
  obtain ⟨m, hm⟩ : ∃ m, stop - b = m + 1 := ⟨stop - b - 1, by omega⟩
  obtain ⟨m', hm'⟩ : ∃ m, e.blockCount d - b = m + 1 := ⟨e.blockCount d - b - 1, by omega⟩
  rw [hm, frames_succ, append_assoc] at ht
  subst ht
  rw [hm', frames_succ, prefix_append_right_inj] at hall
  have hrest : (blockShard c e d b i).length = n ∨
      frames h r.hashAlgo c e d i (b + 1) m ++ t = [] := by
    refine hend.imp_right fun hlast => ?_
    obtain rfl : m' = 0 := by omega
    simpa using hall
  obtain ⟨inner, hread, hclean'⟩ := BitrotReader.read_frame hclean (hs.size ▸ hn) hle hrest
  refine ⟨_, hread, rfl, hs.size, _, hclean', ?_, ?_⟩
  · rw [show stop - (b + 1) = m by omega]
    exact prefix_append _ _
  · rw [show e.blockCount d - (b + 1) = m' by omega]
    exact hall

end Rustfs.Erasure
