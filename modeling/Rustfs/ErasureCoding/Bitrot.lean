import Rustfs.Disk.Error
import Rustfs.Lib.Blocks
import Rustfs.Lib.Stream

/-! Bitrot framing: every shard of a block is stored behind its hash and checked when read. -/
namespace Rustfs

open List

inductive HashAlgorithm where
  | sha256
  | highwayHash256
  | highwayHash256S
  | blake2b512
  | md5
  | none
  deriving Repr, DecidableEq

def HashAlgorithm.size : HashAlgorithm → ℕ
  | .sha256 | .highwayHash256 | .highwayHash256S | .blake2b512 => 32
  | .md5 => 16
  | .none => 0

/-- The hash functions, whose results are arrays of the size of the algorithm. -/
structure Hasher where
  hashEncode : HashAlgorithm → Bytes → Bytes
  length_hashEncode : ∀ a d, (hashEncode a d).length = a.size

attribute [simp] Hasher.length_hashEncode

/-- Hashes of zeros only; for the algorithm without a hash this is the function of the source. -/
def Hasher.zeros : Hasher := ⟨fun a _ => List.replicate a.size 0, fun _ _ => length_replicate⟩

/-- The outcome of one call on a sink: all is taken, or an error after some bytes were taken. -/
inductive WriteStep where
  | ok
  | fail (e : IoError) (taken : ℕ)
  deriving Repr, DecidableEq

/-- A file or network stream being written, with the outcomes of the calls to come. -/
structure Sink where
  content : Bytes
  script : List WriteStep
  deriving Repr, DecidableEq

def Sink.writeAll (s : Sink) (b : Bytes) : Except IoError Unit × Sink :=
  match s.script with
  | [] => (.ok (), ⟨s.content ++ b, []⟩)
  | .ok :: rest => (.ok (), ⟨s.content ++ b, rest⟩)
  | .fail e taken :: rest => (.error e, ⟨s.content ++ b.take taken, rest⟩)

def Sink.Healthy (s : Sink) : Prop := ∀ w ∈ s.script, w = .ok

inductive CustomWriter where
  | inlineBuffer (data : Bytes)
  | other (sink : Sink)
  deriving Repr, DecidableEq

namespace CustomWriter

def content : CustomWriter → Bytes
  | .inlineBuffer data => data
  | .other sink => sink.content

def writeAll : CustomWriter → Bytes → Except IoError Unit × CustomWriter
  | .inlineBuffer data, b => (.ok (), .inlineBuffer (data ++ b))
  | .other sink, b => ((sink.writeAll b).1, .other (sink.writeAll b).2)

/-- Flushing a memory buffer does nothing; on a stream it is a call like any other. -/
def flush : CustomWriter → Except IoError Unit × CustomWriter
  | .inlineBuffer data => (.ok (), .inlineBuffer data)
  | .other sink => ((sink.writeAll []).1, .other (sink.writeAll []).2)

/-- No call still to come fails. -/
def Healthy : CustomWriter → Prop
  | .inlineBuffer _ => True
  | .other sink => sink.Healthy

theorem writeAll_healthy {w : CustomWriter} (h : w.Healthy) (b : Bytes) :
    (w.writeAll b).1 = .ok () ∧ (w.writeAll b).2.content = w.content ++ b ∧
      (w.writeAll b).2.Healthy := by
  cases w with
  | inlineBuffer data => exact ⟨rfl, rfl, trivial⟩
  | other sink =>
    obtain ⟨content, script⟩ := sink
    cases script with
    | nil => exact ⟨rfl, rfl, fun w hw => h w hw⟩
    | cons step rest =>
      obtain rfl := h step mem_cons_self
      exact ⟨rfl, rfl, fun w hw => h w (mem_cons_of_mem _ hw)⟩

theorem flush_healthy {w : CustomWriter} (h : w.Healthy) :
    w.flush.1 = .ok () ∧ w.flush.2.content = w.content ∧ w.flush.2.Healthy := by
  cases w with
  | inlineBuffer data => exact ⟨rfl, rfl, trivial⟩
  | other sink => simpa [flush, writeAll, content] using writeAll_healthy h []

end CustomWriter

/-- What the writer stores for one shard of a block. -/
def frame (h : Hasher) (alg : HashAlgorithm) (b : Bytes) : Bytes := h.hashEncode alg b ++ b

@[simp] theorem length_frame (h : Hasher) (alg : HashAlgorithm) (b : Bytes) :
    (frame h alg b).length = alg.size + b.length := by
  simp [frame]

structure BitrotWriter where
  inner : CustomWriter
  hashAlgo : HashAlgorithm
  shardSize : ℕ
  finished : Bool
  deriving Repr, DecidableEq

namespace BitrotWriter

def new (inner : CustomWriter) (shardSize : ℕ) (algo : HashAlgorithm) : BitrotWriter :=
  ⟨inner, algo, shardSize, false⟩

def exceedsText (n shardSize : ℕ) : String :=
  "data size " ++ toString n ++ " exceeds shard size " ++ toString shardSize

/-- The two `write_all` calls and the flush of one block, stopping at the first error. The test
of the source for an empty hash is left out: a hash has the size of its algorithm. -/
def writeFrame (h : Hasher) (w : BitrotWriter) (buf : Bytes) : Except IoError ℕ × BitrotWriter :=
  let r₁ := if 0 < w.hashAlgo.size then w.inner.writeAll (h.hashEncode w.hashAlgo buf)
    else (.ok (), w.inner)
  match r₁.1 with
  | .error e => (.error e, { w with inner := r₁.2 })
  | .ok _ =>
    let r₂ := r₁.2.writeAll buf
    match r₂.1 with
    | .error e => (.error e, { w with inner := r₂.2 })
    | .ok _ =>
      let r₃ := r₂.2.flush
      match r₃.1 with
      | .error e => (.error e, { w with inner := r₃.2 })
      | .ok _ => (.ok buf.length, { w with inner := r₃.2 })

/-- `BitrotWriter::write`: an empty buffer is accepted and stores nothing, a short one is the
last one. -/
def write (h : Hasher) (w : BitrotWriter) (buf : Bytes) : Except IoError ℕ × BitrotWriter :=
  if buf = [] then (.ok 0, w)
  else if w.finished then
    (.error (.plain .invalidInput "bitrot writer already finished"), w)
  else if w.shardSize < buf.length then
    (.error (.plain .invalidInput (exceedsText buf.length w.shardSize)), w)
  else writeFrame h { w with finished := w.finished || decide (buf.length < w.shardSize) } buf

/-- A writer on which every block of the right size will succeed. -/
structure Ready (w : BitrotWriter) : Prop where
  healthy : w.inner.Healthy
  unfinished : w.finished = false

variable {h : Hasher} {w : BitrotWriter} {buf : Bytes}

theorem writeFrame_healthy (hw : w.inner.Healthy) (buf : Bytes) :
    ∃ inner, writeFrame h w buf = (.ok buf.length, { w with inner }) ∧ inner.Healthy ∧
      inner.content = w.inner.content ++ frame h w.hashAlgo buf := by
  obtain ⟨mid, hmid, hc₁, hr₁⟩ : ∃ mid : CustomWriter, mid.Healthy ∧
      mid.content = w.inner.content ++ h.hashEncode w.hashAlgo buf ∧
      (if 0 < w.hashAlgo.size then w.inner.writeAll (h.hashEncode w.hashAlgo buf)
        else (.ok (), w.inner)) = (.ok (), mid) := by
    by_cases hs : 0 < w.hashAlgo.size
    · obtain ⟨h1, h2, h3⟩ := CustomWriter.writeAll_healthy hw (h.hashEncode w.hashAlgo buf)
      exact ⟨_, h3, h2, by rw [if_pos hs, ← h1]⟩
    · have hnil : h.hashEncode w.hashAlgo buf = [] :=
        length_eq_zero_iff.1 (by rw [h.length_hashEncode]; omega)
      exact ⟨w.inner, hw, by rw [hnil, append_nil], by rw [if_neg hs]⟩
  obtain ⟨h1, h2, h3⟩ := CustomWriter.writeAll_healthy hmid buf
  obtain ⟨f1, f2, f3⟩ := CustomWriter.flush_healthy h3
  refine ⟨_, ?_, f3, ?_⟩
  · rw [writeFrame, hr₁]
    simp only [h1, f1]
  · rw [f2, h2, hc₁, frame, append_assoc]

theorem write_nil (h : Hasher) (w : BitrotWriter) : write h w [] = (.ok 0, w) := rfl

/-- A block of at most the shard size is framed; only a full one leaves the writer open. -/
theorem write_ready (hw : w.Ready) (hne : buf ≠ []) (hle : buf.length ≤ w.shardSize) :
    ∃ inner, write h w buf = (.ok buf.length,
        { w with inner, finished := decide (buf.length < w.shardSize) }) ∧
      inner.Healthy ∧ inner.content = w.inner.content ++ frame h w.hashAlgo buf := by
  obtain ⟨inner, hrun, hin, hcont⟩ := writeFrame_healthy (h := h)
    (w := { w with finished := decide (buf.length < w.shardSize) }) hw.healthy buf
  refine ⟨inner, ?_, hin, hcont⟩
  rw [write, if_neg hne, hw.unfinished, if_neg Bool.false_ne_true, if_neg (by omega),
    Bool.false_or, hrun]

end BitrotWriter

structure BitrotReader where
  inner : Source IoError
  hashAlgo : HashAlgorithm
  shardSize : ℕ
  deriving Repr, DecidableEq

namespace BitrotReader

open Source

def new (inner : Source IoError) (shardSize : ℕ) (algo : HashAlgorithm) : BitrotReader :=
  ⟨inner, algo, shardSize⟩

/-- `AsyncReadExt::read_exact`. -/
def readExact (s : Source IoError) (n : ℕ) : Except IoError Bytes × Source IoError :=
  match s.fill n with
  | (b, .full, rest) => (.ok b, rest)
  | (_, .eof, rest) => (.error (.plain .unexpectedEof "early eof"), rest)
  | (_, .failed e, rest) => (.error e, rest)

/-- The loop that reads up to `n` bytes of data; the end of the stream ends it early. -/
def readData (s : Source IoError) (n : ℕ) : Except IoError Bytes × Source IoError :=
  match s.fill n with
  | (b, .full, rest) => (.ok b, rest)
  | (b, .eof, rest) => (.ok b, rest)
  | (_, .failed e, rest) => (.error e, rest)

/-- `BitrotReader::read` into a buffer of `n` bytes. -/
def read (h : Hasher) (r : BitrotReader) (n : ℕ) : Except IoError Bytes × BitrotReader :=
  if r.shardSize < n then
    (.error (.plain .invalidInput (BitrotWriter.exceedsText n r.shardSize)), r)
  else
    let r₁ := if 0 < r.hashAlgo.size then readExact r.inner r.hashAlgo.size else (.ok [], r.inner)
    match r₁.1 with
    | .error e => (.error e, { r with inner := r₁.2 })
    | .ok hash =>
      let r₂ := readData r₁.2 n
      match r₂.1 with
      | .error e => (.error e, { r with inner := r₂.2 })
      | .ok data =>
        if 0 < r.hashAlgo.size ∧ h.hashEncode r.hashAlgo data ≠ hash then
          (.error (.plain .invalidData "bitrot hash mismatch"), { r with inner := r₂.2 })
        else (.ok data, { r with inner := r₂.2 })

variable {h : Hasher} {r : BitrotReader} {b rest : Bytes} {n : ℕ} {s : Source IoError}

theorem readExact_clean {c : Bytes} (hs : Clean s (b ++ c)) :
    ∃ s', readExact s b.length = (.ok b, s') ∧ Clean s' c := by
  obtain ⟨h1, h2, h3⟩ := fill_clean hs b.length
  rw [take_left] at h1
  rw [if_pos (by simp)] at h2
  rw [drop_left] at h3
  refine ⟨(s.fill b.length).2.2, ?_, h3⟩
  rw [readExact, show s.fill b.length = (b, .full, (s.fill b.length).2.2) from
    Prod.ext h1 (Prod.ext h2 rfl)]

theorem readData_clean {c : Bytes} (hs : Clean s c) :
    ∃ s', readData s n = (.ok (c.take n), s') ∧ Clean s' (c.drop n) := by
  obtain ⟨h1, h2, h3⟩ := fill_clean hs n
  refine ⟨(s.fill n).2.2, ?_, h3⟩
  rw [readData, show s.fill n = (c.take n, if n ≤ c.length then .full else .eof, (s.fill n).2.2) from
    Prod.ext h1 (Prod.ext h2 rfl)]
  by_cases hfull : n ≤ c.length <;> simp [hfull]

/-- A frame is read back, if the buffer has its size or the stream ends with it. -/
theorem read_frame (hs : Clean r.inner (frame h r.hashAlgo b ++ rest)) (hn : n ≤ r.shardSize)
    (hb : b.length ≤ n) (hend : b.length = n ∨ rest = []) :
    ∃ inner, read h r n = (.ok b, { r with inner }) ∧ Clean inner rest := by
  obtain ⟨mid, hmid, hr₁⟩ : ∃ mid : Source IoError, Clean mid (b ++ rest) ∧
      (if 0 < r.hashAlgo.size then readExact r.inner r.hashAlgo.size else (.ok [], r.inner)) =
        (.ok (h.hashEncode r.hashAlgo b), mid) := by
    rw [frame, append_assoc] at hs
    by_cases hz : 0 < r.hashAlgo.size
    · obtain ⟨s', hread, hclean⟩ := readExact_clean hs
      rw [h.length_hashEncode] at hread
      exact ⟨s', hclean, by rw [if_pos hz, hread]⟩
    · have hnil : h.hashEncode r.hashAlgo b = [] :=
        length_eq_zero_iff.1 (by rw [h.length_hashEncode]; omega)
      rw [hnil] at hs ⊢
      exact ⟨r.inner, hs, by rw [if_neg hz]⟩
  obtain ⟨s', hread, hclean⟩ := readData_clean (n := n) hmid
  have htake : (b ++ rest).take n = b ∧ (b ++ rest).drop n = rest := by
    rcases hend with rfl | rfl
    · exact ⟨take_left, drop_left⟩
    · rw [append_nil]
      exact ⟨take_of_length_le hb, drop_of_length_le hb⟩
  rw [htake.1] at hread
  rw [htake.2] at hclean
  refine ⟨s', ?_, hclean⟩
  rw [read, if_neg (by omega), hr₁]
  simp only [hread, ne_eq, not_true_eq_false, and_false, if_false]

/-- The reader after reads into buffers of the given sizes. -/
def after (h : Hasher) (r : BitrotReader) (sizes : List ℕ) : BitrotReader :=
  sizes.foldl (fun r n => (read h r n).2) r

/-- A reader that fails on every read, however many are made. -/
def Failing (h : Hasher) (r : BitrotReader) : Prop :=
  ∀ sizes n, ∃ e, (read h (after h r sizes) n).1 = .error e

theorem Failing.read (hr : Failing h r) (n : ℕ) :
    ∃ e r', r.read h n = (.error e, r') ∧ Failing h r' := by
  obtain ⟨e, he⟩ := hr [] n
  exact ⟨e, (r.read h n).2, Prod.ext he rfl, fun sizes m => hr (n :: sizes) m⟩

end BitrotReader

/-- What a disk answers to `read_file_stream` for a bucket, a path, an offset and a length. -/
abbrev ReadFileStream := String → String → ℕ → ℕ → Except DiskError (Source IoError)

/-- A memory cursor hands over what is left from its position in one piece. -/
def cursor (data : Bytes) (position : ℕ) : Source IoError :=
  if data.drop position = [] then [] else [.chunk (data.drop position)]

theorem cursor_clean (d : Bytes) (p : ℕ) : Source.Clean (cursor d p) (d.drop p) := by
  rw [cursor]
  split
  · rename_i hnil
    rw [hnil]
    exact .nil
  · rename_i hne
    exact Source.clean_singleton _ hne

/-- `create_bitrot_reader`: offset and length are moved by the hashes before them. -/
def createBitrotReader (inlineData : Option Bytes) (disk : Option ReadFileStream)
    (bucket path : String) (offset length shardSize : ℕ) (algo : HashAlgorithm) :
    Except DiskError (Option BitrotReader) :=
  let length := divCeil length shardSize * algo.size + length
  let offset := divCeil offset shardSize * algo.size + offset
  match inlineData, disk with
  | some data, _ => .ok (some (.new (cursor data offset) shardSize algo))
  | none, some readFileStream =>
    (readFileStream bucket path offset (length - offset)).map fun rd =>
      some (.new rd shardSize algo)
  | none, none => .ok none

/-- `create_bitrot_writer`; `createFile` is the disk's answer for the framed length. -/
def createBitrotWriter (isInlineBuffer : Bool) (createFile : Option (ℤ → Except DiskError Sink))
    (length : ℤ) (shardSize : ℕ) (algo : HashAlgorithm) : Except DiskError BitrotWriter :=
  if isInlineBuffer then .ok (.new (.inlineBuffer []) shardSize algo)
  else
    match createFile with
    | none => .error .diskNotFound
    | some create =>
      let length : ℤ := if length > 0 then
        (divCeil length.toNat shardSize * algo.size + length.toNat : ℕ) else 0
      (create length).map fun file => .new (.other file) shardSize algo

end Rustfs
