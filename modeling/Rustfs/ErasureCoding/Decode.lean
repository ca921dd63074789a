import Rustfs.ErasureCoding.Encode

/-! Reading a range back: as many shards as needed per block, restored and cut to the range. -/
namespace Rustfs

open Blocks ErasureCode Source ErrorReduce List Nat

/-- What one round of reads leaves for a reader: a shard, an error or neither if it was not
needed, and the reader itself. -/
structure ReadSlot where
  shard : Option Bytes
  err : Option DiskError
  reader : Option BitrotReader
  deriving Repr, DecidableEq

structure ParallelReader where
  readers : List (Option BitrotReader)
  offset : ℕ
  shardSize : ℕ
  shardFileSize : ℕ
  dataShards : ℕ
  deriving Repr, DecidableEq

namespace ParallelReader

def new (readers : List (Option BitrotReader)) (e : Erasure) (offset total : ℕ) :
    ParallelReader where
  readers := readers
  offset := offset / e.blockSize * e.shardSize
  shardSize := e.shardSize
  shardFileSize := (e.shardFileSize total).toNat
  dataShards := e.dataShards

/-- The buffer size of every read. The offset is never moved, so neither is this size. -/
def readSize (p : ParallelReader) : ℕ :=
  if p.offset + p.shardSize > p.shardFileSize then p.shardFileSize - p.offset else p.shardSize

def unread (readers : List (Option BitrotReader)) : List ReadSlot :=
  readers.map fun r => ⟨none, none, r⟩

/-- The reads of one round. The first `need` readers are started and one more for each failure, so
whatever the order of completion, a reader is read when fewer than `need` before it succeed. -/
def scan (h : Hasher) (n : ℕ) : ℕ → List (Option BitrotReader) → List ReadSlot
  | 0, readers => unread readers
  | _ + 1, [] => []
  | need + 1, none :: readers => ⟨none, some .fileNotFound, none⟩ :: scan h n (need + 1) readers
  | need + 1, some r :: readers =>
    match r.read h n with
    | (.ok b, r') => ⟨some b, none, some r'⟩ :: scan h n need readers
    | (.error e, r') => ⟨none, some e.toDisk, some r'⟩ :: scan h n (need + 1) readers

@[simp] theorem scan_zero (h : Hasher) (n : ℕ) (rs : List (Option BitrotReader)) :
    scan h n 0 rs = unread rs := by
  cases rs <;> rfl

theorem length_scan (h : Hasher) (n need : ℕ) (rs : List (Option BitrotReader)) :
    (scan h n need rs).length = rs.length := by
  fun_induction scan h n need rs with
  | case1 rs => simp [unread]
  | case2 => rfl
  | case3 need rs ih => simp [ih]
  | case4 need r rs b r' hread ih => simp [ih]
  | case5 need r rs e r' hread ih => simp [ih]

/-- `ParallelReader::read`. -/
def read (h : Hasher) (p : ParallelReader) : List ReadSlot × ParallelReader :=
  let slots :=
    if p.readSize = 0 then unread p.readers
    else if p.dataShards ≤ p.readers.length then scan h p.readSize p.dataShards p.readers
    else unread p.readers
  (slots, { p with readers := slots.map ReadSlot.reader })

def canDecode (p : ParallelReader) (shards : List (Option Bytes)) : Bool :=
  p.dataShards ≤ available shards

end ParallelReader

/-- `get_data_block_len`. -/
def getDataBlockLen (shards : List (Option Bytes)) (dataBlocks : ℕ) : ℕ :=
  ((shards.take dataBlocks).map fun s => (s.map List.length).getD 0).sum

/-- The loop of `write_data_blocks`: skip `offset` bytes, then write `left` bytes. -/
def writeLoop : Sink → List (Option Bytes) → ℕ → ℕ → ℕ → Except IoError ℕ × Sink
  | w, [], _, _, total => (.ok total, w)
  | w, none :: _, _, _, _ => (.error (.plain .unexpectedEof "Missing data block"), w)
  | w, some b :: rest, offset, left, total =>
    if offset ≥ b.length then writeLoop w rest (offset - b.length) left total
    else
      let slice := b.drop offset
      if left < slice.length then
        match w.writeAll (slice.take left) with
        | (.error e, w') => (.error e, w')
        | (.ok _, w') => (.ok (total + left), w')
      else
        match w.writeAll slice with
        | (.error e, w') => (.error e, w')
        | (.ok _, w') => writeLoop w' rest 0 (left - slice.length) (total + slice.length)

/-- `write_data_blocks`. -/
def writeDataBlocks (w : Sink) (blocks : List (Option Bytes)) (dataBlocks offset length : ℕ) :
    Except IoError ℕ × Sink :=
  if getDataBlockLen blocks dataBlocks < length then
    (.error (.plain .unexpectedEof "Not enough data blocks to write"), w)
  else writeLoop w (blocks.take dataBlocks) offset length 0

namespace Erasure

/-- The offset and the length of the part of the range that falls into block `i`. -/
def segment (e : Erasure) (offset length i : ℕ) : ℕ × ℕ :=
  let start := offset / e.blockSize
  let stop := (offset + length) / e.blockSize
  if start = stop then (offset % e.blockSize, length)
  else if i = start then (offset % e.blockSize, e.blockSize - offset % e.blockSize)
  else if i = stop then (0, (offset + length) % e.blockSize)
  else (0, e.blockSize)

/-- The error kept while going on: the caller queues a heal for it. -/
def markErr (order : ErrOrder) (retErr : Option IoError)
    (errs : List (Option DiskError)) : Option IoError :=
  match retErr, (reduceErrs order errs []).2 with
  | none, some err =>
    if err = .fileNotFound ∨ err = .fileCorrupt then some (.ofDisk err) else none
  | retErr, _ => retErr

/-- The blocks from `i` on, `n` of them at most. -/
def decodeLoop (h : Hasher) (order : ErrOrder) (c : Codec) (e : Erasure)
    (offset length : ℕ) : ℕ → ℕ → ParallelReader → Sink → ℕ → Option IoError →
      (ℕ × Option IoError) × Sink
  | 0, _, _, w, written, retErr => ((written, retErr), w)
  | n + 1, i, reader, w, written, retErr =>
    let seg := e.segment offset length i
    if seg.2 = 0 then ((written, retErr), w)
    else
      let round := reader.read h
      let shards := round.1.map ReadSlot.shard
      let retErr := markErr order retErr (round.1.map ReadSlot.err)
      if ¬reader.canDecode shards then ((written, some (.ofDisk .erasureReadQuorum)), w)
      else
        match decodeData c e shards with
        | .error err => ((written, some err), w)
        | .ok shards =>
          match writeDataBlocks w shards e.dataShards seg.1 seg.2 with
          | (.error err, w') => ((written, some err), w')
          | (.ok m, w') =>
            decodeLoop h order c e offset length n (i + 1) round.2 w' (written + m) retErr

/-- `Erasure::decode`: the bytes written, an error, and the writer as it is left. -/
def decode (h : Hasher) (order : ErrOrder) (c : Codec) (e : Erasure) (w : Sink)
    (readers : List (Option BitrotReader)) (offset length total : ℕ) :
    (ℕ × Option IoError) × Sink :=
  if readers.length ≠ e.totalShardCount then
    ((0, some (.plain .invalidInput "Invalid number of readers")), w)
  else if offset + length > total then
    ((0, some (.plain .invalidInput "offset + length exceeds total length")), w)
  else if length = 0 then ((0, none), w)
  else
    let start := offset / e.blockSize
    let stop := (offset + length) / e.blockSize
    let r := decodeLoop h order c e offset length (stop - start + 1) start
      (.new readers e offset total) w 0 none
    if r.1.2.isSome then r
    else if r.1.1 < length then ((r.1.1, some (.ofDisk .lessData)), r.2)
    else r

variable {h : Hasher} {alg : HashAlgorithm} {order : ErrOrder} {c : Codec}
  {e : Erasure} {d : Bytes} {i b n stop need bad offset l : ℕ}
  {readers : List (Option BitrotReader)} {mask : List Bool}

/-- The buffer takes a shard of every block from the first one on, and is longer than a shard only
for the last block. -/
theorem readSize_spec (rs : List (Option BitrotReader)) (he : e.WellFormed) (hc : c.Lawful e.dataShards e.parityShards)
    (hoff : offset < d.length) (hb : offset / e.blockSize ≤ b) (hcount : b < e.blockCount d)
    (hi : i < e.totalShardCount) :
    (ParallelReader.new rs e offset d.length).readSize ≤ e.shardSize ∧
    (blockShard c e d b i).length ≤
      (ParallelReader.new rs e offset d.length).readSize ∧
    ((blockShard c e d b i).length =
      (ParallelReader.new rs e offset d.length).readSize ∨ b + 1 = e.blockCount d) := by
  have hpos := he.blockSize_pos
  have hdiv := div_add_mod' d.length e.blockSize
  have hmod := mod_lt d.length hpos
  have hblt := (lt_blockCount he).1 hcount
  simp only [ParallelReader.readSize, ParallelReader.new, shardFileSize_natCast he]
  have hfirst : offset / e.blockSize ≤ d.length / e.blockSize :=
    Nat.div_le_div_right (Nat.le_of_lt hoff)
  rcases Nat.lt_or_eq_of_le hfirst with hlt | heq
  · have hmul : (offset / e.blockSize + 1) * e.shardSize ≤
        d.length / e.blockSize * e.shardSize := mul_le_mul_right _ hlt
    rw [succ_mul] at hmul
    rw [if_neg (by omega)]
    refine ⟨le_refl _, length_blockShard_le he hc hcount hi, ?_⟩
    by_cases hfull : (b + 1) * e.blockSize ≤ d.length
    · exact .inl (length_blockShard_full he hc hfull hi)
    · have hnot : ¬b + 1 < e.blockCount d := fun hlt' => hfull (full_of_succ_lt he hlt')
      exact .inr (by omega)
  · have hbq : b = d.length / e.blockSize := by
      refine le_antisymm ?_ (heq ▸ hb)
      rw [le_div_iff_mul_le hpos]
      omega
    have hlen : (blockShard c e d b i).length =
        calcShardSize (d.length % e.blockSize) e.dataShards := by
      rw [length_blockShard he hc hcount hi, hbq, length_block_last he]
    have hle : calcShardSize (d.length % e.blockSize) e.dataShards ≤ e.shardSize :=
      calcShardSize_mono (Nat.le_of_lt hmod)
    rw [heq, hlen]
    split <;> omega

/-- The readers from shard `i` on, up to the one with which `need` have answered: each is missing,
fails on every read, or serves block `b`. `bad` of them do not serve; the mask has those that do. -/
inductive Lined (h : Hasher) (alg : HashAlgorithm) (c : Codec) (e : Erasure) (data : Bytes)
    (b stop : ℕ) : ℕ → ℕ → ℕ → List Bool → List (Option BitrotReader) → Prop
  | done {i : ℕ} {readers : List (Option BitrotReader)} :
      Lined h alg c e data b stop 0 i 0 (readers.map fun _ => false) readers
  | missing {need i bad : ℕ} {mask : List Bool} {readers : List (Option BitrotReader)}
      (hrest : Lined h alg c e data b stop (need + 1) (i + 1) bad mask readers) :
      Lined h alg c e data b stop (need + 1) i (bad + 1) (false :: mask) (none :: readers)
  | failing {need i bad : ℕ} {mask : List Bool} {r : BitrotReader}
      {readers : List (Option BitrotReader)} (hr : r.Failing h)
      (hrest : Lined h alg c e data b stop (need + 1) (i + 1) bad mask readers) :
      Lined h alg c e data b stop (need + 1) i (bad + 1) (false :: mask) (some r :: readers)
  | serving {need i bad : ℕ} {mask : List Bool} {r : BitrotReader}
      {readers : List (Option BitrotReader)} (hr : Serves h alg c e data i b stop r)
      (hrest : Lined h alg c e data b stop need (i + 1) bad mask readers) :
      Lined h alg c e data b stop (need + 1) i bad (true :: mask) (some r :: readers)

theorem Lined.need_add_bad_le (hl : Lined h alg c e d b stop need i bad mask readers) :
    need + bad ≤ readers.length := by
  induction hl with
  | done => exact zero_le _
  | missing _ ih | failing _ _ ih | serving _ _ ih =>
    rw [length_cons]
    omega

/-- What a round of reads for block `b` has brought in, for the readers from shard `i` on. -/
structure Round (h : Hasher) (alg : HashAlgorithm) (c : Codec) (e : Erasure) (data : Bytes)
    (b stop need i bad : ℕ) (mask : List Bool) (slots : List ReadSlot) : Prop where
  lined : Lined h alg c e data (b + 1) stop need i bad mask (slots.map ReadSlot.reader)
  read : (slots.map fun s => s.shard.isSome) = mask
  view : View (slots.map ReadSlot.shard)
    ((List.range' i slots.length).map (blockShard c e data b))
  available : available (slots.map ReadSlot.shard) = need
  errs : (slots.map ReadSlot.err).count none + bad = slots.length

theorem round_unread (i : ℕ) : Round h alg c e d b stop 0 i 0 (readers.map fun _ => false)
    (ParallelReader.unread readers) := by
  refine ⟨?_, ?_, ?_, ?_, ?_⟩
  · have hreaders : (ParallelReader.unread readers).map ReadSlot.reader = readers := by
      simp [ParallelReader.unread, Function.comp_def]
    rw [hreaders]
    exact .done
  · simp [ParallelReader.unread, Function.comp_def]
  · refine view_iff.2 ⟨by simp, fun j x hj => ?_⟩
    simp only [ParallelReader.unread, map_map, getElem?_map, Option.map_eq_some_iff,
      Function.comp_apply, reduceCtorEq, and_false, exists_const] at hj
  · simp [ParallelReader.unread, ErasureCode.available]
  · rw [add_zero, count_eq_length.2]
    · simp
    · simp [ParallelReader.unread]

theorem Round.cons {s : ReadSlot} {ss : List ReadSlot} {need' bad' : ℕ} {m : Bool}
    (hr : Round h alg c e d b stop need (i + 1) bad mask ss)
    (hlined : Lined h alg c e d (b + 1) stop need (i + 1) bad mask (ss.map ReadSlot.reader) →
      Lined h alg c e d (b + 1) stop need' i bad' (m :: mask)
        (s.reader :: ss.map ReadSlot.reader)) (hm : s.shard.isSome = m)
    (hshard : s.shard = none ∧ need' = need ∨
      s.shard = some (blockShard c e d b i) ∧ need' = need + 1)
    (herr : s.err = none ∧ bad' = bad ∨ s.err ≠ none ∧ bad' = bad + 1) :
    Round h alg c e d b stop need' i bad' (m :: mask) (s :: ss) := by
  refine ⟨hlined hr.lined, by rw [map_cons, hr.read, hm], ?_, ?_, ?_⟩
  · rw [map_cons, length_cons, range'_succ, map_cons]
    refine .cons ?_ hr.view
    rcases hshard with ⟨hs, -⟩ | ⟨hs, -⟩
    · exact .inl hs
    · exact .inr hs
  · have hav := hr.available
    unfold ErasureCode.available at hav ⊢
    rcases hshard with ⟨hs, rfl⟩ | ⟨hs, rfl⟩ <;> simp [hs, hav]
  · have herrs := hr.errs
    rw [map_cons, count_cons, length_cons]
    rcases herr with ⟨hs, rfl⟩ | ⟨hs, rfl⟩
    · simp [hs]
      omega
    · simp [hs]
      omega

/-- One round of reads: `need` shards of block `b`, and the readers that were read stand at the next
block. -/
theorem Lined.scan (hl : Lined h alg c e d b stop need i bad mask readers) (hb : b < stop)
    (hstop : stop ≤ e.blockCount d) (hlen : i + readers.length = e.totalShardCount)
    (hn : ∀ j, j < e.totalShardCount → n ≤ e.shardSize ∧ (blockShard c e d b j).length ≤ n ∧
      ((blockShard c e d b j).length = n ∨ b + 1 = e.blockCount d)) :
    Round h alg c e d b stop need i bad mask (ParallelReader.scan h n need readers) := by
  induction hl with
  | done =>
    rw [ParallelReader.scan_zero]
    exact round_unread _
  | missing hrest ih =>
    refine (ih (by simpa [Nat.add_assoc, add_comm 1] using hlen)).cons .missing rfl ?_ ?_
    · exact .inl ⟨rfl, rfl⟩
    · exact .inr ⟨by simp, rfl⟩
  | @failing need i bad mask r readers hr hrest ih =>
    obtain ⟨err, r', hread, hr'⟩ := hr.read n
    rw [ParallelReader.scan, hread]
    refine (ih (by simpa [Nat.add_assoc, add_comm 1] using hlen)).cons (.failing hr') rfl ?_ ?_
    · exact .inl ⟨rfl, rfl⟩
    · exact .inr ⟨by simp, rfl⟩
  | @serving need i bad mask r readers hr hrest ih =>
    obtain ⟨h1, h2, h3⟩ := hn i (by rw [length_cons] at hlen; omega)
    obtain ⟨r', hread, hr'⟩ := hr.read hb hstop h1 h2 h3
    rw [ParallelReader.scan, hread]
    refine (ih (by simpa [Nat.add_assoc, add_comm 1] using hlen)).cons (.serving hr') rfl ?_ ?_
    · exact .inr ⟨rfl, rfl⟩
    · exact .inl ⟨rfl, rfl⟩

theorem sink_writeAll_healthy {w : Sink} (hw : w.Healthy) (x : Bytes) :
    ∃ script, w.writeAll x = (.ok (), ⟨w.content ++ x, script⟩) ∧ ∀ s ∈ script, s = .ok := by
  obtain ⟨content, script⟩ := w
  cases script with
  | nil => exact ⟨[], rfl, by simp⟩
  | cons step rest =>
    obtain rfl := hw step mem_cons_self
    exact ⟨rest, rfl, fun s hs => hw s (mem_cons_of_mem _ hs)⟩

/-- The loop writes `l` bytes of the shards' concatenation, from `offset` on. -/
theorem writeLoop_ok {w : Sink} (hw : w.Healthy) (os : List Bytes) (offset l t : ℕ)
    (hle : offset + l ≤ os.flatten.length) :
    ∃ w', writeLoop w (os.map some) offset l t = (.ok (t + l), w') ∧ w'.Healthy ∧
      w'.content = w.content ++ (os.flatten.drop offset).take l := by
  induction os generalizing w offset l t with
  | nil =>
    obtain ⟨rfl, rfl⟩ : offset = 0 ∧ l = 0 := by simpa using hle
    exact ⟨w, rfl, hw, by simp⟩
  | cons o os ih =>
    rw [flatten_cons, length_append] at hle
    rw [map_cons, writeLoop, flatten_cons]
    by_cases hskip : offset ≥ o.length
    · rw [if_pos hskip, drop_append, drop_of_length_le hskip, nil_append]
      exact ih hw _ _ _ (by omega)
    · rw [if_neg hskip, drop_append_of_le_length (by omega)]
      by_cases hlast : l < (o.drop offset).length
      · obtain ⟨script, hwrite, hscript⟩ := sink_writeAll_healthy hw ((o.drop offset).take l)
        rw [if_pos hlast, hwrite]
        exact ⟨_, rfl, hscript, by rw [take_append_of_le_length (by omega)]⟩
      · obtain ⟨script, hwrite, hscript⟩ := sink_writeAll_healthy hw (o.drop offset)
        have hlen : (o.drop offset).length = o.length - offset := length_drop
        obtain ⟨w', hrun, hw', hcont⟩ := ih (w := ⟨w.content ++ o.drop offset, script⟩) hscript 0
          (l - (o.drop offset).length) (t + (o.drop offset).length) (by omega)
        rw [if_neg hlast, hwrite]
        refine ⟨w', ?_, hw', ?_⟩
        · simp only [hrun]
          rw [Nat.add_assoc, Nat.add_sub_cancel' (by omega)]
        · rw [hcont, take_append, take_of_length_le (i := l) (by omega),
            append_assoc, drop_zero]

theorem getDataBlockLen_map (os : List Bytes) (r : List (Option Bytes)) :
    getDataBlockLen (os.map some ++ r) os.length = os.flatten.length := by
  rw [getDataBlockLen, take_left' (by simp), map_map, length_flatten]
  rfl

/-- A part of a block is written from its restored data shards. -/
theorem writeDataBlocks_ok {w : Sink} (hw : w.Healthy) {os rs : List Bytes} {blk : Bytes}
    (henc : Encoded c e blk os rs) (r : List (Option Bytes)) (hle : offset + l ≤ blk.length) :
    ∃ w', writeDataBlocks w (os.map some ++ r) e.dataShards offset l =
        (.ok l, w') ∧ w'.Healthy ∧ w'.content = w.content ++ (blk.drop offset).take l := by
  have hflat : offset + l ≤ os.flatten.length := by
    have hlen := congrArg List.length henc.data_eq
    rw [length_take] at hlen
    omega
  obtain ⟨w', hrun, hw', hcont⟩ := writeLoop_ok hw os offset l 0 hflat
  refine ⟨w', ?_, hw', ?_⟩
  · rw [writeDataBlocks, ← henc.originals, getDataBlockLen_map, if_neg (by omega),
      take_left' (by simp), hrun, zero_add]
  · have hcut : ((os.flatten.take blk.length).drop offset).take l =
        (os.flatten.drop offset).take l := by
      rw [drop_take, take_take, min_eq_left (by omega)]
    rw [hcont, ← hcut, henc.data_eq]

/-- The part of the range in block `i`, in positions of the data. -/
theorem segment_eq (he : e.WellFormed) (hi : offset / e.blockSize ≤ i)
    (hi' : i ≤ (offset + l) / e.blockSize) :
    e.segment offset l i =
      (max offset (i * e.blockSize) - i * e.blockSize,
        min (offset + l) ((i + 1) * e.blockSize) - max offset (i * e.blockSize)) := by
  have hpos := he.blockSize_pos
  have hd₁ := div_add_mod' offset e.blockSize
  have hd₂ := div_add_mod' (offset + l) e.blockSize
  have hm₁ := mod_lt offset hpos
  have hm₂ := mod_lt (offset + l) hpos
  rw [segment]
  by_cases hsame : offset / e.blockSize = (offset + l) / e.blockSize
  · obtain rfl : i = offset / e.blockSize := by omega
    rw [if_pos hsame, succ_mul]
    rw [← hsame] at hd₂
    simp only [Prod.mk.injEq]
    omega
  · have hlt : offset / e.blockSize < (offset + l) / e.blockSize := by omega
    have hmul : (offset / e.blockSize + 1) * e.blockSize ≤
        (offset + l) / e.blockSize * e.blockSize := mul_le_mul_right _ hlt
    rw [succ_mul] at hmul
    rw [if_neg hsame]
    by_cases hfirst : i = offset / e.blockSize
    · subst hfirst
      rw [if_pos rfl, succ_mul]
      simp only [Prod.mk.injEq]
      omega
    · rw [if_neg hfirst]
      have hmul₁ : (offset / e.blockSize + 1) * e.blockSize ≤ i * e.blockSize :=
        mul_le_mul_right _ (by omega)
      rw [succ_mul] at hmul₁ ⊢
      by_cases hlast : i = (offset + l) / e.blockSize
      · subst hlast
        rw [if_pos rfl]
        simp only [Prod.mk.injEq]
        omega
      · have hmul₂ : (i + 1) * e.blockSize ≤ (offset + l) / e.blockSize * e.blockSize :=
          mul_le_mul_right _ (by omega)
        rw [succ_mul] at hmul₂
        rw [if_neg hlast]
        simp only [Prod.mk.injEq]
        omega

end Erasure

end Rustfs
