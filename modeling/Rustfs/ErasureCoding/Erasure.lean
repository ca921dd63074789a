import Rustfs.Disk.Error
import Rustfs.Lib.Blocks
import Rustfs.Lib.ErasureCode

/-! The block codec: data padded into equal shards, parity added, missing data shards restored. -/
namespace Rustfs

open Blocks ErasureCode List Nat

/-- `Erasure`, as `Erasure::new` builds it: an encoder is there when there are parity shards. -/
structure Erasure where
  dataShards : ℕ
  parityShards : ℕ
  blockSize : ℕ
  deriving Repr, DecidableEq

/-- The shard length for `n` bytes: rounded up, and then up to an even number (`& !1`). -/
def calcShardSize (n dataShards : ℕ) : ℕ := (divCeil n dataShards + 1) / 2 * 2

namespace Erasure

/-- What the block arithmetic needs, division by zero being a panic. -/
structure WellFormed (e : Erasure) : Prop where
  dataShards_pos : 0 < e.dataShards
  blockSize_pos : 0 < e.blockSize

variable (e : Erasure)

def totalShardCount : ℕ := e.dataShards + e.parityShards

def shardSize : ℕ := calcShardSize e.blockSize e.dataShards

def shardFileSize (total : ℤ) : ℤ :=
  if total = 0 then 0
  else if total < 0 then total
  else
    let n := total.toNat
    (n / e.blockSize * e.shardSize + calcShardSize (n % e.blockSize) e.dataShards : ℕ)

def shardFileOffset (start length total : ℕ) : ℕ :=
  let fileSize := (e.shardFileSize total).toNat
  let till := (start + length) / e.blockSize * e.shardSize + e.shardSize
  if till > fileSize then fileSize else till

def encoderText : CodecError → String
  | .create t => "Failed to create SIMD encoder: " ++ t
  | .addOriginal i t => "Failed to add shard " ++ toString i ++ ": " ++ t
  | .addRecovery _ t => "Failed to add recovery shard for reconstruction: " ++ t
  | .run t => "SIMD encoding failed: " ++ t

def decoderText : CodecError → String
  | .create t => "Failed to create SIMD decoder: " ++ t
  | .addOriginal _ t => "Failed to add original shard for reconstruction: " ++ t
  | .addRecovery _ t => "Failed to add recovery shard for reconstruction: " ++ t
  | .run t => "SIMD decode error: " ++ t

/-- Copy the recovery shards over the slots behind the data shards; `copy_from_slice` panics on
another length. -/
def copyRecovery : List Bytes → List Bytes → Except Failure (List Bytes)
  | [], _ => .ok []
  | slots, [] => .ok slots
  | s :: slots, r :: rs =>
    if s.length = r.length then (copyRecovery slots rs).map (r :: ·) else .error .panic

variable (c : Codec)

/-- `encode_with_simd`. -/
def encodeWithSimd (e : Erasure) (len : ℕ) (shards : List Bytes) : Except Failure (List Bytes) :=
  match c.encode e.dataShards e.parityShards len (shards.take e.dataShards) with
  | .error err => .error (.err (.plain .other (encoderText err)))
  | .ok rs => (copyRecovery (shards.drop e.dataShards) rs).map (shards.take e.dataShards ++ ·)

/-- The data, resized with zeros to the length of all shards and cut into them. -/
def slices (per : ℕ) (data : Bytes) : List Bytes :=
  let need := per * e.totalShardCount
  let buffer := (data ++ List.replicate (need - data.length) 0).take need
  (List.range e.totalShardCount).map (block per buffer)

/-- `encode_data`. A shard length of zero is a panic in `chunks_exact_mut`. -/
def encodeData (e : Erasure) (data : Bytes) : Except Failure (List Bytes) :=
  if e.dataShards = 0 then .error .panic
  else
    let per := calcShardSize data.length e.dataShards
    if per = 0 then .error .panic
    else if 0 < e.parityShards then encodeWithSimd c e per (slices e per data)
    else .ok (slices e per data)

/-- `reconstruct_with_simd`: only the places of missing data shards are filled. -/
def reconstruct (e : Erasure) (shards : List (Option Bytes)) :
    Except IoError (List (Option Bytes)) :=
  match shards.findSome? (Option.map List.length) with
  | none => .error (.plain .other "No valid shards found for reconstruction")
  | some len =>
    match c.decode e.dataShards e.parityShards len (received (shards.take e.dataShards))
        (received (shards.drop e.dataShards)) with
    | .error err => .error (.plain .other (decoderText err))
    | .ok restored =>
      .ok (shards.zipIdx.map fun (s, i) =>
        match s with
        | some b => some b
        | none =>
          if i < e.dataShards then (restored.find? fun p => p.1 == i).map Prod.snd else none)

/-- `decode_data`. -/
def decodeData (e : Erasure) (shards : List (Option Bytes)) :
    Except IoError (List (Option Bytes)) :=
  if 0 < e.parityShards then reconstruct c e shards else .ok shards

theorem two_dvd_calcShardSize (n k : ℕ) : 2 ∣ calcShardSize n k := ⟨_, mul_comm _ _⟩

theorem divCeil_le_calcShardSize (n k : ℕ) : divCeil n k ≤ calcShardSize n k := by
  rw [calcShardSize]
  omega

theorem le_calcShardSize_mul {k : ℕ} (hk : 0 < k) (n : ℕ) : n ≤ calcShardSize n k * k :=
  le_trans (le_divCeil_mul hk n) (mul_le_mul_right k (divCeil_le_calcShardSize n k))

theorem calcShardSize_pos {n k : ℕ} (hk : 0 < k) (hn : 0 < n) : 0 < calcShardSize n k := by
  by_contra h
  have hle := le_calcShardSize_mul hk n
  rw [Nat.eq_zero_of_not_pos h, Nat.zero_mul] at hle
  omega

theorem calcShardSize_mono {n n' k : ℕ} (h : n ≤ n') : calcShardSize n k ≤ calcShardSize n' k := by
  have hdiv : divCeil n k ≤ divCeil n' k := Nat.div_le_div_right (by omega)
  rw [calcShardSize, calcShardSize]
  omega

theorem copyRecovery_ok {len : ℕ} {ss rs : List Bytes} (hs : ∀ s ∈ ss, s.length = len)
    (hr : ∀ r ∈ rs, r.length = len) (hlen : rs.length = ss.length) :
    copyRecovery ss rs = .ok rs := by
  induction ss generalizing rs with
  | nil =>
    obtain rfl := length_eq_zero_iff.1 hlen
    rfl
  | cons s ss ih =>
    cases rs with
    | nil => simp at hlen
    | cons r rs =>
      rw [copyRecovery, hs s mem_cons_self, hr r mem_cons_self, if_pos rfl,
        ih (fun s hs' => hs s (mem_cons_of_mem _ hs'))
          (fun r hr' => hr r (mem_cons_of_mem _ hr')) (by simpa using hlen)]
      rfl

variable {c : Codec} {e : Erasure} {d : Bytes} {os rs : List Bytes} {per : ℕ}

theorem length_slices : (slices e per d).length = e.totalShardCount := by
  simp [slices]

theorem slices_shard_length : ∀ s ∈ slices e per d, s.length = per := by
  intro s hs
  obtain ⟨i, hi, rfl⟩ := mem_map.1 hs
  apply length_block_full
  have hle : (i + 1) * per ≤ per * e.totalShardCount := by
    rw [mul_comm]
    exact mul_le_mul_left per (mem_range.1 hi)
  rw [length_take, length_append, length_replicate]
  omega

/-- The data shards start with the data. -/
theorem slices_data (h : d.length ≤ per * e.dataShards) :
    ((slices e per d).take e.dataShards).flatten.take d.length = d := by
  have htotal : d.length ≤ per * e.totalShardCount :=
    le_trans h (mul_le_mul_left _ (le_add_right _ _))
  have hrange : (List.range e.totalShardCount).take e.dataShards = List.range e.dataShards := by
    rw [take_range, totalShardCount, min_eq_left (le_add_right _ _)]
  have hmin : min (min d.length (e.dataShards * per)) (per * e.totalShardCount) = d.length := by
    rw [mul_comm e.dataShards]
    omega
  rw [slices, ← map_take, hrange, flatten_blocks, take_take, take_take, hmin, take_left]

/-- The shards of one block: `os` the data shards and `rs` the parity shards. -/
structure Encoded (c : Codec) (e : Erasure) (data : Bytes) (os rs : List Bytes) : Prop where
  encodes : encodeData c e data = .ok (os ++ rs)
  originals : os.length = e.dataShards
  recovery : rs.length = e.parityShards
  shard_length : ∀ s ∈ os ++ rs, s.length = calcShardSize data.length e.dataShards
  data_eq : os.flatten.take data.length = data
  codeword : 0 < e.parityShards →
    Codeword c e.dataShards e.parityShards (calcShardSize data.length e.dataShards) os rs

/-- Every block of at least one byte is encoded. -/
theorem encodeData_ok (he : e.WellFormed) (hc : c.Lawful e.dataShards e.parityShards)
    (hd : d ≠ []) : ∃ os rs, Encoded c e d os rs := by
  have hk := he.dataShards_pos
  have hpos := calcShardSize_pos hk (length_pos_iff.2 hd)
  have hle := le_calcShardSize_mul hk d.length
  generalize hper : calcShardSize d.length e.dataShards = per at hpos hle
  have hrun : encodeData c e d = if 0 < e.parityShards then
      encodeWithSimd c e per (slices e per d) else .ok (slices e per d) := by
    rw [encodeData, if_neg (by omega), hper, if_neg (by omega)]
  generalize hos : (slices e per d).take e.dataShards = os at *
  have hos_len : os.length = e.dataShards := by
    simp [← hos, length_slices, totalShardCount]
  have hos_mem : ∀ o ∈ os, o.length = per := fun o ho =>
    slices_shard_length o (mem_of_mem_take (hos ▸ ho))
  have hdata : os.flatten.take d.length = d := hos ▸ slices_data hle
  by_cases hm : 0 < e.parityShards
  · obtain ⟨rs, henc, hrs, hrs_mem⟩ :=
      hc.encode_ok hm per os hpos (hper ▸ two_dvd_calcShardSize _ _) hos_len hos_mem
    have hcopy : copyRecovery ((slices e per d).drop e.dataShards) rs = .ok rs :=
      copyRecovery_ok (fun s hs => slices_shard_length s (mem_of_mem_drop hs)) hrs_mem
        (by simp [hrs, length_slices, totalShardCount])
    refine ⟨os, rs, ?_, hos_len, hrs, ?_, hdata, fun _ => hper ▸ ⟨hos_len, hos_mem, henc⟩⟩
    · rw [hrun, if_pos hm, encodeWithSimd, hos, henc]
      simp only [hcopy]
      rfl
    · rw [hper]
      exact fun s hs => (mem_append.1 hs).elim (hos_mem s) (hrs_mem s)
  · have hm0 : e.parityShards = 0 := by omega
    have hall : os = slices e per d := by
      rw [← hos, take_of_length_le]
      simp [length_slices, totalShardCount, hm0]
    refine ⟨os, [], ?_, hos_len, by simp [hm0], ?_, hdata, fun h => (hm h).elim⟩
    · rw [hrun, if_neg hm, append_nil, hall]
    · rw [hper, append_nil]
      exact hos_mem

/-- Decoding restores every data shard and leaves the parity places as they are. -/
theorem decodeData_ok (hk : 0 < e.dataShards) (hc : c.Lawful e.dataShards e.parityShards)
    (hd : d ≠ []) (henc : Encoded c e d os rs) {ss : List (Option Bytes)}
    (hview : View ss (os ++ rs)) (hav : e.dataShards ≤ available ss) :
    decodeData c e ss = .ok (os.map some ++ ss.drop e.dataShards) := by
  have hlen : ss.length = e.dataShards + e.parityShards := by
    rw [hview.length_eq, length_append, henc.originals, henc.recovery]
  by_cases hm : 0 < e.parityShards
  · have hper := calcShardSize_pos (n := d.length) hk (length_pos_iff.2 hd)
    obtain ⟨restored, hdec, hget⟩ := hc.restores hm _ os rs ss hper
      (two_dvd_calcShardSize _ _) (henc.codeword hm) hview hav
    rw [decodeData, if_pos hm, reconstruct, hview.findSome_length henc.shard_length (by omega)]
    simp only [hdec]
    congr 1
    apply ext_getElem?
    intro i
    rw [getElem?_map, getElem?_zipIdx]
    by_cases hi : i < e.dataShards
    · obtain ⟨o, ho⟩ : ∃ o, os[i]? = some o := ⟨_, getElem?_eq_getElem (henc.originals ▸ hi)⟩
      obtain ⟨s, hs⟩ : ∃ s, ss[i]? = some s := ⟨_, getElem?_eq_getElem (by omega)⟩
      rw [getElem?_append_left (by simpa [henc.originals] using hi), getElem?_map, ho, hs]
      cases s with
      | none => simp [hi, hget i o hs ho]
      | some b =>
        have hb := hview.get hs
        rw [getElem?_append_left (henc.originals ▸ hi), ho] at hb
        simpa using hb.symm
    · rw [getElem?_append_right (by simpa [henc.originals] using hi), getElem?_drop]
      have hidx : e.dataShards + (i - (os.map some).length) = i := by
        rw [length_map, henc.originals]
        omega
      rw [hidx]
      cases hs : ss[i]? with
      | none => rfl
      | some s => cases s <;> simp [hi]
  · have hm0 : e.parityShards = 0 := by omega
    have hrs : rs = [] := length_eq_zero_iff.1 (henc.recovery.trans hm0)
    have hall := hview.eq_map_some (by rw [← hview.length_eq, hlen, hm0]; exact hav)
    rw [decodeData, if_neg hm, hall, hrs]
    simp [← henc.originals]

end Erasure

end Rustfs
