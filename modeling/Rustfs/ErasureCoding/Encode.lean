import Rustfs.ErasureCoding.ShardStream

/-! Encoding a stream: blocks are read and encoded by a task, and written to all writers. -/
namespace Rustfs

open Blocks ErasureCode Source ErrorReduce List Nat

/-- `read_full` of the source: like `fill`, but an early end is an error unless bytes were read. -/
def readFull (s : Source IoError) (n : ℕ) : Except IoError Bytes × Source IoError :=
  match s.fill n with
  | (b, .full, rest) => (.ok b, rest)
  | (b, .eof, rest) =>
    if b = [] then (.error (.plain .unexpectedEof "early EOF"), rest) else (.ok b, rest)
  | (b, .failed e, rest) =>
    if b = [] ∨ e.kind = .invalidData then (.error e, rest)
    else
      (.error (.plain .unexpectedEof
        ("read " ++ toString b.length ++ " bytes, error: " ++ e.display)), rest)

/-- A writer of the set, and the error it was given up with. -/
structure WriterSlot where
  writer : Option BitrotWriter
  err : Option DiskError
  deriving Repr, DecidableEq

structure MultiWriter where
  slots : List WriterSlot
  writeQuorum : ℕ
  deriving Repr, DecidableEq

namespace MultiWriter

def new (writers : List (Option BitrotWriter)) (writeQuorum : ℕ) : MultiWriter :=
  ⟨writers.map fun w => ⟨w, none⟩, writeQuorum⟩

def errs (mw : MultiWriter) : List (Option DiskError) := mw.slots.map WriterSlot.err

def writers (mw : MultiWriter) : List (Option BitrotWriter) := mw.slots.map WriterSlot.writer

/-- `write_shard`: a short write drops the writer, an error keeps it beside its error. -/
def writeShard (h : Hasher) (writer : Option BitrotWriter) (shard : Bytes) : WriterSlot :=
  match writer with
  | none => ⟨none, some .diskNotFound⟩
  | some w =>
    match w.write h shard with
    | (.ok n, w') => if n < shard.length then ⟨none, some .shortWrite⟩ else ⟨some w', none⟩
    | (.error e, w') => ⟨some w', some e.toDisk⟩

/-- A slot with an error is passed over. -/
def writeSlot (h : Hasher) (slot : WriterSlot) (shard : Bytes) : WriterSlot :=
  if slot.err.isSome then slot else writeShard h slot.writer shard

def quorumText (errs : List (Option DiskError)) (reduced : Option DiskError) : String :=
  let offline := "(offline-disks=" ++ toString (countErrs errs .diskNotFound) ++ "/" ++
    toString errs.length ++ ")"
  match reduced with
  | some e => "Failed to write data: " ++ e.display ++ " " ++ offline
  | none => "Failed to write data:  " ++ offline ++ ": " ++
    ", ".intercalate (errs.map fun e => (e.map DiskError.display).getD "<nil>")

/-- `MultiWriter::write`. -/
def write (h : Hasher) (order : ErrOrder) (mw : MultiWriter)
    (data : List Bytes) : Except Failure Unit × MultiWriter :=
  if data.length ≠ mw.slots.length then (.error .panic, mw)
  else
    let mw' := { mw with slots := List.zipWith (writeSlot h) mw.slots data }
    if mw'.errs.count none ≥ mw.writeQuorum then (.ok (), mw')
    else
      let reduced := reduceWriteQuorumErrs order mw'.errs objectOpIgnoredErrs mw.writeQuorum
      (.error (.err (.plain .other (quorumText mw'.errs reduced))), mw')

variable (h : Hasher) (o : ErrOrder) {mw : MultiWriter} {d : List Bytes}

theorem write_snd (hlen : d.length = mw.slots.length) : (mw.write h o d).2 =
    { mw with slots := List.zipWith (writeSlot h) mw.slots d } := by
  rw [write, if_neg (by simp [hlen])]
  dsimp only
  split <;> rfl

/-- A write succeeds when a quorum of the writers is without error after it. -/
theorem write_ok_iff (hlen : d.length = mw.slots.length) :
    (mw.write h o d).1 = .ok () ↔ mw.writeQuorum ≤ (mw.write h o d).2.errs.count none := by
  rw [write_snd h o hlen, write, if_neg (by simp [hlen])]
  dsimp only
  split_ifs with hq
  · simpa using hq
  · simpa using hq

end MultiWriter

namespace Erasure

/-- The task of `encode`: the blocks it sends, and what it returns. The fuel is enough when it
exceeds the bytes of the source. -/
def produce (c : Codec) (e : Erasure) :
    ℕ → Source IoError → ℕ → List (List Bytes) × Except Failure (Source IoError × ℕ)
  | 0, _, _ => ([], .error .panic)
  | fuel + 1, s, total =>
    match readFull s e.blockSize with
    | (.ok b, rest) =>
      if b = [] then ([], .ok (rest, total))
      else
        match encodeData c e b with
        | .error f => ([], .error f)
        | .ok shards =>
          let r := produce c e fuel rest (total + b.length)
          (shards :: r.1, r.2)
    | (.error err, rest) =>
      if err.kind = .unexpectedEof then
        match err with
        | .checksumMismatch _ text => ([], .error (.err (.plain .invalidData text)))
        | _ => ([], .ok (rest, total))
      else ([], .error (.err err))

/-- The loop that writes the blocks received; the first error ends it. -/
def consume (h : Hasher) (order : ErrOrder) :
    MultiWriter → List (List Bytes) → Except Failure Unit × MultiWriter
  | mw, [] => (.ok (), mw)
  | mw, blk :: rest =>
    if blk = [] then (.ok (), mw)
    else
      match mw.write h order blk with
      | (.error f, mw') => (.error f, mw')
      | (.ok _, mw') => consume h order mw' rest

/-- The bytes a source still has. -/
def sourceSize (s : Source IoError) : ℕ :=
  (s.map fun | .chunk b => b.length | .fail _ => 0).sum

/-- `Erasure::encode`: the result and the writers as they are left. -/
def encode (h : Hasher) (order : ErrOrder) (c : Codec) (e : Erasure)
    (s : Source IoError) (writers : List (Option BitrotWriter)) (quorum : ℕ) :
    Except Failure (Source IoError × ℕ) × MultiWriter :=
  let task := produce c e (sourceSize s + 1) s 0
  match consume h order (.new writers quorum) task.1 with
  | (.error f, mw) => (.error f, mw)
  | (.ok _, mw) => (task.2, mw)

variable {h : Hasher} {alg : HashAlgorithm} {order : ErrOrder} {c : Codec}
  {e : Erasure} {d : Bytes} {s : Source IoError} {i b : ℕ}

/-- All shards of block `b`. -/
def blockShards (c : Codec) (e : Erasure) (data : Bytes) (b : ℕ) : List Bytes :=
  (List.range e.totalShardCount).map (blockShard c e data b)

theorem get_blockShards (hi : i < e.totalShardCount) :
    (blockShards c e d b)[i]? = some (blockShard c e d b i) := by
  simp [blockShards, hi]

theorem Encoded.eq_blockShards {os rs : List Bytes}
    (henc : Encoded c e (block e.blockSize d b) os rs) : os ++ rs = blockShards c e d b := by
  apply ext_getElem?
  intro i
  by_cases hi : i < e.totalShardCount
  · rw [henc.get_shardAt hi, get_blockShards hi]
    rfl
  · have hlen : (os ++ rs).length = e.totalShardCount := by
      rw [length_append, henc.originals, henc.recovery, totalShardCount]
    rw [getElem?_eq_none (by omega), getElem?_eq_none (by simp [blockShards]; omega)]

theorem encodeData_block (he : e.WellFormed) (hc : c.Lawful e.dataShards e.parityShards)
    (hb : b < e.blockCount d) :
    encodeData c e (block e.blockSize d b) = .ok (blockShards c e d b) := by
  obtain ⟨os, rs, henc⟩ := encoded_block he hc hb
  rw [henc.encodes, henc.eq_blockShards]

theorem readFull_clean {c : Bytes} {n : ℕ} (hs : Clean s c) (hn : 0 < n) :
    ∃ s', Clean s' (c.drop n) ∧
      readFull s n = if c = [] then (.error (.plain .unexpectedEof "early EOF"), s')
        else (.ok (c.take n), s') := by
  obtain ⟨h1, h2, h3⟩ := fill_clean hs n
  refine ⟨_, h3, ?_⟩
  by_cases hnil : c = []
  · subst hnil
    rw [take_nil] at h1
    rw [if_neg (by simpa using ne_of_gt hn)] at h2
    rw [readFull, show s.fill n = ([], .eof, (s.fill n).2.2) from Prod.ext h1 (Prod.ext h2 rfl)]
    simp
  · rw [if_neg hnil]
    by_cases hfull : n ≤ c.length
    · rw [if_pos hfull] at h2
      rw [readFull, show s.fill n = (c.take n, .full, (s.fill n).2.2) from
        Prod.ext h1 (Prod.ext h2 rfl)]
    · rw [if_neg hfull] at h2
      have hne : c.take n ≠ [] := by
        rw [take_of_length_le (by omega)]
        exact hnil
      rw [readFull, show s.fill n = (c.take n, .eof, (s.fill n).2.2) from
        Prod.ext h1 (Prod.ext h2 rfl)]
      simp only [if_neg hne]

theorem sourceSize_clean {c : Bytes} (hs : Clean s c) : sourceSize s = c.length := by
  induction hs with
  | nil => rfl
  | chunk hb hs ih => simp [sourceSize, ← ih]

theorem produce_block {f t : ℕ} {blk : Bytes} {r : Source IoError} {ss : List Bytes}
    (hread : readFull s e.blockSize = (.ok blk, r)) (hne : blk ≠ [])
    (henc : encodeData c e blk = .ok ss) :
    produce c e (f + 1) s t =
      (ss :: (produce c e f r (t + blk.length)).1, (produce c e f r (t + blk.length)).2) := by
  simp only [produce, hread, if_neg hne, henc]

theorem produce_eof {f t : ℕ} {text : String} {r : Source IoError}
    (hread : readFull s e.blockSize = (.error (.plain .unexpectedEof text), r)) :
    produce c e (f + 1) s t = ([], .ok (r, t)) := by
  simp only [produce, hread, IoError.kind, if_true]

/-- From a source that stands at block `b` the task sends the remaining blocks in order. -/
theorem produce_clean (he : e.WellFormed) (hc : c.Lawful e.dataShards e.parityShards) {f : ℕ}
    (hfuel : d.length - b * e.blockSize < f) (hs : Clean s (d.drop (b * e.blockSize)))
    (t : ℕ) : ∃ s', produce c e f s t =
      ((List.range' b (e.blockCount d - b)).map (blockShards c e d),
        .ok (s', t + (d.length - b * e.blockSize))) := by
  induction f generalizing b s t with
  | zero => omega
  | succ f ih =>
    have hpos := he.blockSize_pos
    obtain ⟨s', hs', hread⟩ := readFull_clean hs hpos
    by_cases hb : b < e.blockCount d
    · have hlt := (lt_blockCount he).1 hb
      have hne : d.drop (b * e.blockSize) ≠ [] := by
        rw [← length_pos_iff, length_drop]
        omega
      rw [if_neg hne] at hread
      rw [drop_drop, ← succ_mul] at hs'
      obtain ⟨s'', hrec⟩ := ih (b := b + 1) (by rw [succ_mul]; omega) hs'
        (t + (block e.blockSize d b).length)
      have hcount : e.blockCount d - b = e.blockCount d - (b + 1) + 1 := by omega
      have htotal : t + (block e.blockSize d b).length +
          (d.length - (b + 1) * e.blockSize) = t + (d.length - b * e.blockSize) := by
        rw [length_block, succ_mul]
        omega
      refine ⟨s'', ?_⟩
      rw [← block] at hread
      rw [produce_block hread (block_ne_nil hpos hlt) (encodeData_block he hc hb), hrec, hcount,
        range'_succ, map_cons, htotal]
    · have hge : d.length ≤ b * e.blockSize := by
        rw [lt_blockCount he] at hb
        omega
      rw [if_pos (drop_of_length_le hge)] at hread
      refine ⟨s', ?_⟩
      rw [produce_eof hread, show e.blockCount d - b = 0 by omega,
        show d.length - b * e.blockSize = 0 by omega]
      rfl

/-- A writer that holds the frames of shard `i` of the blocks before `b`, and takes the next. -/
structure Stored (h : Hasher) (alg : HashAlgorithm) (c : Codec) (e : Erasure) (data : Bytes)
    (i b : ℕ) (w : BitrotWriter) : Prop where
  algo : w.hashAlgo = alg
  size : w.shardSize = e.shardSize
  healthy : w.inner.Healthy
  content : w.inner.content = frames h alg c e data i 0 b
  unfinished : b < e.blockCount data → w.finished = false

section

variable (o : ErrOrder) (he : e.WellFormed)
  (hc : c.Lawful e.dataShards e.parityShards)
include he hc

/-- A writer takes its shard of the next block. -/
theorem Stored.write {w : BitrotWriter} (hw : Stored h alg c e d i b w) (hb : b < e.blockCount d)
    (hi : i < e.totalShardCount) :
    ∃ w', w.write h (blockShard c e d b i) = (.ok (blockShard c e d b i).length, w') ∧
      Stored h alg c e d i (b + 1) w' := by
  obtain ⟨inner, hrun, hin, hcont⟩ := BitrotWriter.write_ready (h := h)
    ⟨hw.healthy, hw.unfinished hb⟩ (blockShard_ne_nil he hc hb hi)
    (hw.size ▸ length_blockShard_le he hc hb hi)
  refine ⟨_, hrun, hw.algo, hw.size, hin, ?_, fun hb' => ?_⟩
  · rw [hcont, hw.content, hw.algo, frames_add, frames_succ, Nat.zero_add, frames_zero, append_nil]
  · rw [hw.size, length_blockShard_full he hc (full_of_succ_lt he hb') hi]
    simp

theorem Stored.writeSlot {s : WriterSlot} {w : BitrotWriter} (hslot : s = ⟨some w, none⟩)
    (hw : Stored h alg c e d i b w) (hb : b < e.blockCount d)
    (hi : i < e.totalShardCount) :
    ∃ w', MultiWriter.writeSlot h s (blockShard c e d b i) = ⟨some w', none⟩ ∧
      Stored h alg c e d i (b + 1) w' := by
  obtain ⟨w', hwrite, hw'⟩ := hw.write he hc hb hi
  refine ⟨w', ?_, hw'⟩
  subst hslot
  simp [MultiWriter.writeSlot, MultiWriter.writeShard, hwrite]

/-- Every writer is there, without error, and holds the blocks before `b`. -/
def Holding (h : Hasher) (alg : HashAlgorithm) (c : Codec) (e : Erasure) (data : Bytes) (b : ℕ)
    (slots : List WriterSlot) : Prop :=
  slots.length = e.totalShardCount ∧
    ∀ (i : ℕ) (slot : WriterSlot), slots[i]? = some slot →
      ∃ w, slot = ⟨some w, none⟩ ∧ Stored h alg c e data i b w

/-- One block is written to all writers. -/
theorem Holding.write {mw : MultiWriter}
    (hmw : Holding h alg c e d b mw.slots) (hb : b < e.blockCount d)
    (hq : mw.writeQuorum ≤ e.totalShardCount) :
    ∃ slots, mw.write h o (blockShards c e d b) = (.ok (), ⟨slots, mw.writeQuorum⟩) ∧
      Holding h alg c e d (b + 1) slots := by
  have hlen : (blockShards c e d b).length = mw.slots.length := by
    rw [hmw.1]
    simp [blockShards]
  generalize hslots : List.zipWith (MultiWriter.writeSlot h) mw.slots (blockShards c e d b) = slots
  have hlen' : slots.length = e.totalShardCount := by
    rw [← hslots, length_zipWith, hlen, min_self, hmw.1]
  have hget : ∀ (i : ℕ) (slot : WriterSlot), slots[i]? = some slot →
      ∃ w, slot = ⟨some w, none⟩ ∧ Stored h alg c e d i (b + 1) w := by
    intro i slot hi
    have hlt : i < e.totalShardCount := hlen' ▸ (List.getElem?_eq_some_iff.1 hi).1
    obtain ⟨old, hold⟩ : ∃ old, mw.slots[i]? = some old :=
      ⟨_, getElem?_eq_getElem (hmw.1 ▸ hlt)⟩
    obtain ⟨w, hw, hst⟩ := hmw.2 i old hold
    obtain ⟨w', hrun, hst'⟩ := hst.writeSlot he hc hw hb hlt
    rw [← hslots, getElem?_zipWith, hold, get_blockShards hlt] at hi
    exact ⟨w', (Option.some.inj hi).symm.trans hrun, hst'⟩
  have hnil : (slots.map WriterSlot.err).count none = e.totalShardCount := by
    rw [count_eq_length.2, length_map, hlen']
    intro err herr
    obtain ⟨slot, hmem, rfl⟩ := mem_map.1 herr
    obtain ⟨i, hi⟩ := mem_iff_getElem?.1 hmem
    obtain ⟨w, rfl, -⟩ := hget i slot hi
    rfl
  have hsnd : (mw.write h o (blockShards c e d b)).2 = ⟨slots, mw.writeQuorum⟩ := by
    rw [MultiWriter.write_snd h o hlen, hslots]
  refine ⟨slots, Prod.ext ((MultiWriter.write_ok_iff h o hlen).2 ?_) hsnd, hlen', hget⟩
  rw [hsnd, MultiWriter.errs, hnil]
  exact hq

/-- All remaining blocks are written to all writers. -/
theorem Holding.consume {mw : MultiWriter} {n : ℕ}
    (hmw : Holding h alg c e d b mw.slots)
    (hn : b + n = e.blockCount d) (hq : mw.writeQuorum ≤ e.totalShardCount) :
    ∃ slots, consume h o mw ((List.range' b n).map (blockShards c e d)) =
        (.ok (), ⟨slots, mw.writeQuorum⟩) ∧ Holding h alg c e d (e.blockCount d) slots := by
  induction n generalizing b mw with
  | zero => exact ⟨mw.slots, rfl, hn ▸ hmw⟩
  | succ n ih =>
    obtain ⟨slots, hrun, hslots⟩ := hmw.write o he hc (by omega) hq
    have hmw' : Holding h alg c e d (b + 1) (MultiWriter.mk slots mw.writeQuorum).slots := hslots
    obtain ⟨slots', hrun', hslots'⟩ := ih hmw' (by omega) hq
    refine ⟨slots', ?_, hslots'⟩
    have hne : blockShards c e d b ≠ [] := by
      have hpos := he.dataShards_pos
      simp only [blockShards, ne_eq, map_eq_nil_iff, range_eq_nil, totalShardCount]
      omega
    rw [range'_succ, map_cons, Erasure.consume, if_neg hne, hrun]
    exact hrun'

end

/-- A new writer for every shard, into memory. -/
def freshWriters (e : Erasure) (alg : HashAlgorithm) : List (Option BitrotWriter) :=
  List.replicate e.totalShardCount (some (.new (.inlineBuffer []) e.shardSize alg))

theorem holding_fresh (h : Hasher) (alg : HashAlgorithm) (c : Codec) (d : Bytes) (q : ℕ) :
    Holding h alg c e d 0 (MultiWriter.new (freshWriters e alg) q).slots := by
  refine ⟨by simp [MultiWriter.new, freshWriters], fun i slot hi => ?_⟩
  have hmem := mem_of_getElem? hi
  simp only [MultiWriter.new, freshWriters, map_replicate] at hmem
  obtain rfl := eq_of_mem_replicate hmem
  exact ⟨_, rfl, rfl, rfl, trivial, rfl, fun _ => rfl⟩

/-- Writers that all work get exactly the stream of their shard. -/
theorem encode_clean (o : ErrOrder) (he : e.WellFormed)
    (hc : c.Lawful e.dataShards e.parityShards) (hs : Clean s d) {ws : List (Option BitrotWriter)} {q : ℕ} (hq : q ≤ e.totalShardCount)
    (hw : Holding h alg c e d 0 (MultiWriter.new ws q).slots) :
    ∃ s' slots, encode h o c e s ws q = (.ok (s', d.length), ⟨slots, q⟩) ∧
      Holding h alg c e d (e.blockCount d) slots := by
  have hfuel : d.length - 0 * e.blockSize < sourceSize s + 1 := by
    rw [sourceSize_clean hs]
    omega
  obtain ⟨s', hprod⟩ := produce_clean he hc hfuel (by simpa using hs) 0
  obtain ⟨slots, hcons, hslots⟩ := hw.consume o he hc (n := e.blockCount d) (by omega) hq
  refine ⟨s', slots, ?_, hslots⟩
  rw [encode, hprod]
  simp only [Nat.sub_zero, Nat.zero_mul, Nat.zero_add]
  rw [hcons]
  rfl

end Erasure

end Rustfs
