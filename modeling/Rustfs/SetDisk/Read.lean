import Rustfs.ErasureCoding.ReadBack
import Rustfs.Error
import Rustfs.SetDisk.Metadata

/-! Reading a range of an object of several parts from the disks of a set. -/
namespace Rustfs.SetDisks

open Blocks ErasureCode Erasure ErrorReduce Parts List Option Nat Finset

/-- `as usize` on a 64-bit target. -/
def asUsize (z : ℤ) : ℕ := (z % 2 ^ 64).toNat

/-- A subtraction of `usize` as release builds compute it. -/
def usizeSub (a b : ℕ) : ℕ := (a + 2 ^ 64 - b) % 2 ^ 64

def partPath (object : String) (f : FileInfo) (number : ℕ) : String :=
  object ++ "/" ++ Uuid.display (f.dataDir.getD 0) ++ "/part." ++ toString number

def openReaders (e : Erasure) (bucket object : String) (s : Shuffled ReadFileStream)
    (part : ObjectPartInfo) (partOffset partLength : ℕ) :
    List (Except DiskError (Option BitrotReader)) :=
  let tillOffset := e.shardFileOffset partOffset partLength part.size
  let readOffset := partOffset / e.blockSize * e.shardSize
  (s.disks.zip s.files).map fun x =>
    createBitrotReader x.2.data x.1 bucket (partPath object x.2 part.number) readOffset tillOffset
      e.shardSize .highwayHash256

def readerOf : Except DiskError (Option BitrotReader) → Option BitrotReader
  | .ok r => r
  | .error _ => none

def openErr : Except DiskError (Option BitrotReader) → Option DiskError
  | .ok (some _) => none
  | .ok none => some .diskNotFound
  | .error e => some e

/-- One turn of the part loop. The heal requests it queues do not change what is read. -/
def streamPart (h : Hasher) (order : ErrOrder) (c : Codec) (e : Erasure)
    (bucket object : String) (s : Shuffled ReadFileStream) (part : ObjectPartInfo)
    (partOffset partLength : ℕ) (w : Sink) : Except ObjectFailure Unit × Sink :=
  -- a division by zero, or `files[idx]` out of bounds
  if e.dataShards = 0 ∨ e.blockSize = 0 ∨ s.files.length < s.disks.length then (.error .panic, w)
  else
    let opened := openReaders e bucket object s part partOffset partLength
    let errors := opened.map openErr
    if nilCount errors < e.dataShards then
      match reduceReadQuorumErrs order errors objectOpIgnoredErrs e.dataShards with
      | some err => (.error (.err ((StorageError.ofDisk err).toObjectErr [bucket, object])), w)
      -- the source appends the list of errors to this text
      | none => (.error (.err (.other "not enough disks to read: ")), w)
    else
      let r := e.decode h order c w (opened.map readerOf) partOffset partLength part.size
      match r.1.2 with
      | none => (.ok (), r.2)
      | some err =>
        let deErr := err.toDisk
        if r.1.1 = partLength ∧ (deErr = .fileNotFound ∨ deErr = .fileCorrupt) then (.ok (), r.2)
        else (.error (.err (.ofDisk deErr)), r.2)

/-- The part loop, with the pieces it asked the disks for. -/
def streamParts (h : Hasher) (order : ErrOrder) (c : Codec) (e : Erasure)
    (bucket object : String) (s : Shuffled ReadFileStream) (parts : List ObjectPartInfo)
    (length : ℕ) : List ℕ → ℕ → ℕ → Sink → (Except ObjectFailure Unit × Sink) × List Piece
  | [], _, _, w => ((.ok (), w), [])
  | j :: js, partOffset, totalRead, w =>
    if totalRead = length then ((.ok (), w), [])
    else
      match parts[j]? with
      | none => ((.error .panic, w), [])
      | some part =>
        let partLength := min (part.size - partOffset) (length - totalRead)
        let r := streamPart h order c e bucket object s part partOffset partLength w
        match r.1 with
        | .error f => ((.error f, r.2), [⟨j, partOffset, partLength⟩])
        | .ok _ =>
          let rest := streamParts h order c e bucket object s parts length js 0
            (totalRead + partLength) r.2
          (rest.1, ⟨j, partOffset, partLength⟩ :: rest.2)

/-- `get_object_with_fileinfo`, with the pieces of the parts that it visits. -/
def getObjectWithFileinfo (h : Hasher) (order : ErrOrder) (c : Codec)
    (bucket object : String) (offset : ℕ) (length : ℤ) (w : Sink) (fi : FileInfo)
    (files : List FileInfo) (disks : List (Option ReadFileStream)) :
    (Except ObjectFailure Unit × Sink) × List Piece :=
  match shuffleDisksAndPartsMetadataByIndex disks files fi with
  | none => ((.error .panic, w), [])
  | some s =>
    let totalSize := asUsize fi.size
    let length := if length < 0 then usizeSub totalSize offset else length.toNat
    if offset > totalSize ∨ offset + length > totalSize then
      ((.error (.err (.other "offset out of range")), w), [])
    else
      match fi.toPartOffset offset with
      | none => ((.error (.err (.other "part not found")), w), [])
      | some (partIndex, partOffset) =>
        let endOffset := if length > 0 then offset + (length - 1) else offset
        match fi.toPartOffset endOffset with
        | none => ((.error (.err (.other "part not found")), w), [])
        | some (lastPartIndex, _) =>
          streamParts h order c (erasureOf fi) bucket object s fi.parts length
            (List.range' partIndex (lastPartIndex + 1 - partIndex)) partOffset 0 w

variable {h : Hasher} {order : ErrOrder} {c : Codec} {bucket object : String}
  {fi : FileInfo} {files : List FileInfo} {disks : List (Option ReadFileStream)}
  {contents : List Bytes} {content : Bytes} {bad : Finset ℕ} {part : ObjectPartInfo}
  {s : Shuffled ReadFileStream} {e : Erasure} {i j m n lo hi offset length : ℕ}

/-- A disk that gives nothing: it is absent, its metadata could not be read, or every stream it
opens fails. -/
def Lost (h : Hasher) (fi : FileInfo) (disk : Option ReadFileStream) (f : FileInfo) : Prop :=
  disk = none ∨ (¬ f.isValid ∧ fi.modTime ≠ none) ∨
    (f.data = none ∧ ∃ d, disk = some d ∧ ∀ bucket path off len s, d bucket path off len = .ok s →
      ∀ size alg, (BitrotReader.new s size alg).Failing h)

/-- An object whose parts were encoded and framed by the writer, on disks of which those in `bad`
give nothing. -/
structure StoredParts (h : Hasher) (c : Codec) (bucket object : String) (fi : FileInfo)
    (files : List FileInfo) (disks : List (Option ReadFileStream)) (contents : List Bytes)
    (bad : Finset ℕ) : Prop where
  wellFormed : (erasureOf fi).WellFormed
  lawful : c.Lawful (erasureOf fi).dataShards (erasureOf fi).parityShards
  distribution : IsDistribution fi.erasure.distribution (erasureOf fi).totalShardCount
  length_disks : disks.length = (erasureOf fi).totalShardCount
  length_files : files.length = (erasureOf fi).totalShardCount
  sizes : fi.parts.map ObjectPartInfo.size = contents.map List.length
  size : fi.size = contents.flatten.length
  size_lt : fi.size < 2 ^ 63
  card : bad.card ≤ (erasureOf fi).parityShards
  lost : ∀ k ∈ bad, ∀ disk f, disks[k]? = some disk → files[k]? = some f → Lost h fi disk f
  stored : ∀ (k : ℕ) disk f, k ∉ bad → disks[k]? = some disk → files[k]? = some f →
    Consistent fi.erasure.distribution k disk f ∧
    ∀ (j : ℕ) part content, fi.parts[j]? = some part → contents[j]? = some content →
      Keeps f.data disk bucket (partPath object f part.number)
        (shardStream h .highwayHash256 c (erasureOf fi) content (f.erasure.index - 1))

variable {disk : Option ReadFileStream} {path : String} {alg : HashAlgorithm}

/-- A reader can be opened for any piece of a stored part, and for an empty part. -/
theorem opensAt_of_keeps (he : e.WellFormed) (hc : c.Lawful e.dataShards e.parityShards)
    (hi : i < e.totalShardCount) (hle : offset + length ≤ content.length)
    (hne : 0 < length ∨ content = []) {inlineData : Option Bytes}
    (hk : Keeps inlineData disk bucket path (shardStream h alg c e content i)) :
    ∃ r, createBitrotReader inlineData disk bucket path (offset / e.blockSize * e.shardSize)
        (e.shardFileOffset offset length content.length) e.shardSize alg = .ok (some r) ∧
      OpensAt e alg (shardStream h alg c e content i) offset length content.length r := by
  rcases hne with hpos | rfl
  · obtain ⟨r, hr, -⟩ := serves_opened he hc hi hpos hle hk
    exact ⟨r, hr, _, _, _, _, hk, hr⟩
  · have hz : offset = 0 ∧ length = 0 := by simpa using hle
    obtain ⟨rfl, rfl⟩ := hz
    have htill : e.shardFileOffset 0 0 0 = 0 := by
      rw [shardFileOffset]
      split_ifs with hge
      · rfl
      · simpa [shardFileSize] using hge
    have hopen : ∃ r, createBitrotReader inlineData disk bucket path (0 / e.blockSize * e.shardSize)
        (e.shardFileOffset 0 0 0) e.shardSize alg = .ok (some r) := by
      rcases hk with rfl | ⟨rfl, d, rfl, hd⟩
      · exact ⟨_, rfl⟩
      · obtain ⟨s, -, hs, -⟩ := hd 0 0 (zero_le _)
        refine ⟨.new s e.shardSize alg, ?_⟩
        simp [createBitrotReader, htill, divCeil_zero (shardSize_pos he), hs, Except.map]
    obtain ⟨r, hr⟩ := hopen
    exact ⟨r, hr, _, _, _, _, hk, hr⟩

theorem countP_le_nilCount {es : List (Option DiskError)}
    (hgood : ∀ j, j < es.length → i + j ∉ bad → es[j]? = some none) :
    (List.range' i es.length).countP (· ∉ bad) ≤ nilCount es := by
  induction es generalizing i with
  | nil => simp
  | cons err es ih =>
    have hrest : (List.range' (i + 1) es.length).countP (· ∉ bad) ≤ nilCount es := by
      refine ih fun j hj hmem => ?_
      rw [add_assoc, add_comm 1] at hmem
      simpa using hgood (j + 1) (by simpa using hj) hmem
    unfold nilCount at hrest ⊢
    rw [length_cons, range'_succ, countP_cons]
    by_cases hi : i ∈ bad
    · have := count_le_count_cons (a := none) (b := err) (l := es)
      simp only [hi, not_true_eq_false, decide_false, Bool.false_eq_true, if_false]
      omega
    · obtain rfl : err = none := by simpa using hgood 0 (by simp) hi
      simp only [hi, not_false_eq_true, decide_true, if_true, count_cons_self]
      omega

variable {r : BitrotReader}

theorem readerOf_eq_some {x : Except DiskError (Option BitrotReader)} :
    readerOf x = some r ↔ x = .ok (some r) := by
  cases x <;> simp [readerOf]

/-- A reader over a stream that fails is one that fails. -/
theorem failing_of_create {d : ReadFileStream} {off len size : ℕ}
    (hfail : ∀ off len s, d bucket path off len = .ok s → (BitrotReader.new s size alg).Failing h)
    (hr : createBitrotReader none (some d) bucket path off len size alg = .ok (some r)) :
    r.Failing h := by
  simp only [createBitrotReader] at hr
  cases hread : d bucket path (divCeil off size * alg.size + off)
      (divCeil len size * alg.size + len - (divCeil off size * alg.size + off)) with
  | error err => simp [hread, Except.map] at hr
  | ok rd =>
    obtain rfl : BitrotReader.new rd size alg = r := by simpa [hread, Except.map] using hr
    exact hfail _ _ rd hread

theorem getElem?_openReaders {f : FileInfo}
    (hd : s.disks[i]? = some disk) (hf : s.files[i]? = some f) :
    (openReaders e bucket object s part offset length)[i]? =
      some (createBitrotReader f.data disk bucket (partPath object f part.number)
        (offset / e.blockSize * e.shardSize) (e.shardFileOffset offset length part.size)
        e.shardSize .highwayHash256) := by
  have hz : (s.disks.zip s.files)[i]? = some (disk, f) := getElem?_zip_eq_some.2 ⟨hd, hf⟩
  simp only [openReaders, getElem?_map, hz, map_some]

variable {w : Sink}

namespace StoredParts

variable (hst : StoredParts h c bucket object fi files disks contents bad)
include hst

theorem part_size (hpart : fi.parts[j]? = some part) (hcontent : contents[j]? = some content) :
    part.size = content.length := by
  have := congrArg (·[j]?) hst.sizes
  simpa [hpart, hcontent] using this

/-- The shards of the disks in `bad`. -/
theorem exists_badShards : ∃ bad' : Finset ℕ, bad'.card ≤ (erasureOf fi).parityShards ∧
    ∀ k i, fi.erasure.distribution[k]? = some (i + 1) → (i ∈ bad' ↔ k ∈ bad) := by
  refine ⟨(bad.filter (· < fi.erasure.distribution.length)).image
    fun k => fi.erasure.distribution.getD k 0 - 1, ?_, fun k i hk => ?_⟩
  · refine le_trans card_image_le (le_trans ?_ hst.card)
    exact card_le_card (filter_subset _ _)
  · have hlt := (List.getElem?_eq_some_iff.1 hk).1
    rw [mem_image]
    constructor
    · rintro ⟨k', hk', heq⟩
      obtain ⟨hmem, hlt'⟩ := mem_filter.1 hk'
      obtain ⟨b, hb⟩ : ∃ b, fi.erasure.distribution[k']? = some b :=
        ⟨_, getElem?_eq_getElem hlt'⟩
      have hpos := hst.distribution.bounds hb
      rw [getD_eq_getElem?_getD, hb, getD_some] at heq
      obtain rfl : b = i + 1 := by omega
      rwa [hst.distribution.injective hk hb]
    · intro hmem
      refine ⟨k, mem_filter.2 ⟨hmem, hlt⟩, ?_⟩
      rw [getD_eq_getElem?_getD, hk]
      rfl

/-- The disk whose place is shard `i`. -/
theorem exists_disk (hi : i < (erasureOf fi).totalShardCount) : ∃ (k : ℕ) (disk : _) (f : _),
    disks[k]? = some disk ∧ files[k]? = some f ∧ fi.erasure.distribution[k]? = some (i + 1) := by
  obtain ⟨k, hk, hb⟩ := hst.distribution.surjective hi
  exact ⟨k, _, _, getElem?_eq_getElem (by rw [hst.length_disks]; exact hk),
    getElem?_eq_getElem (by rw [hst.length_files]; exact hk), hb⟩

variable {bad' : Finset ℕ}

section

variable (hs : ByShard fi disks files (erasureOf fi).totalShardCount s)
  (hbad' : ∀ k i, fi.erasure.distribution[k]? = some (i + 1) → (i ∈ bad' ↔ k ∈ bad))
  (hin : i < (erasureOf fi).totalShardCount)
include hs hbad' hin

/-- The reader of a shard whose disk is not in `bad`. -/
theorem opened_good (hpart : fi.parts[j]? = some part) (hcontent : contents[j]? = some content)
    (hle : offset + length ≤ content.length) (hne : 0 < length ∨ content = []) (hmem : i ∉ bad') :
    ∃ r,
      (openReaders (erasureOf fi) bucket object s part offset length)[i]? = some (.ok (some r)) ∧
      OpensAt (erasureOf fi) .highwayHash256
        (shardStream h .highwayHash256 c (erasureOf fi) content i) offset length
        content.length r := by
  obtain ⟨k, disk, f, hd, hf, hb⟩ := hst.exists_disk hin
  obtain ⟨hcons, hkeeps⟩ := hst.stored k disk f (fun hk => hmem ((hbad' k i hb).2 hk)) hd hf
  obtain ⟨hsd, hsf⟩ := hs.consistent k disk f _ hd hf hb hcons
  have hidx : f.erasure.index = i + 1 := by simpa [hb] using hcons.2.2.symm
  have hk := hkeeps j part content hpart hcontent
  rw [hidx] at hk
  obtain ⟨r, hr, ho⟩ := opensAt_of_keeps hst.wellFormed hst.lawful hin hle hne hk
  refine ⟨r, ?_, ho⟩
  rw [getElem?_openReaders (i := i) hsd hsf, hst.part_size hpart hcontent, hr]

/-- The reader of a shard whose disk is in `bad`, where one was opened. -/
theorem opened_bad (hmem : i ∈ bad')
    (hr : (openReaders (erasureOf fi) bucket object s part offset length)[i]? =
      some (.ok (some r))) : r.Failing h := by
  obtain ⟨k, disk, f, hd, hf, hb⟩ := hst.exists_disk hin
  have hl := hst.lost k ((hbad' k i hb).1 hmem) disk f hd hf
  rcases hs.other k disk f _ hd hf hb with ⟨hsd, hsf, hsome, hv⟩ | ⟨hsd, hsf⟩
  · rw [getElem?_openReaders (i := i) hsd hsf, some_inj] at hr
    rcases hl with rfl | ⟨hnv, hmod⟩ | ⟨hnone, d, rfl, hfail⟩
    · simp at hsome
    · exact absurd hv (by simp [hnv, hmod])
    · rw [hnone] at hr
      exact failing_of_create (fun off len s hs => hfail _ _ off len s hs _ _) hr
  · rw [getElem?_openReaders (i := i) hsd hsf, some_inj] at hr
    simp [createBitrotReader] at hr

end

/-- One part: a piece of it is written from the disks that are left. -/
theorem streamPart_ok (order : ErrOrder) (o l : ℕ)
    (hs : ByShard fi disks files (erasureOf fi).totalShardCount s)
    (hpart : fi.parts[j]? = some part) (hcontent : contents[j]? = some content)
    (hle : o + l ≤ content.length) (hne : 0 < l ∨ content = []) (hw : w.Healthy) :
    ∃ w', streamPart h order c (erasureOf fi) bucket object s part o l w = (.ok (), w') ∧
      w'.content = w.content ++ slice content o (o + l) ∧ w'.Healthy := by
  obtain ⟨bad', hcard, hbad'⟩ := hst.exists_badShards
  have hguard : ¬((erasureOf fi).dataShards = 0 ∨ (erasureOf fi).blockSize = 0 ∨
      s.files.length < s.disks.length) := by
    have h₁ := hst.wellFormed.dataShards_pos
    have h₂ := hst.wellFormed.blockSize_pos
    rw [hs.length_disks, hs.length_files]
    omega
  have hlen : (openReaders (erasureOf fi) bucket object s part o l).length =
      (erasureOf fi).totalShardCount := by
    simp [openReaders, hs.length_disks, hs.length_files]
  have hgood := fun i hi => hst.opened_good (i := i) hs hbad' hi hpart hcontent hle hne
  have hlost : ∀ i, i < (erasureOf fi).totalShardCount → i ∈ bad' → ∀ r,
      (openReaders (erasureOf fi) bucket object s part o l)[i]? = some (.ok (some r)) →
      r.Failing h := fun i hi hmem r hr => hst.opened_bad hs hbad' hi hmem hr
  rw [streamPart, if_neg hguard]
  generalize openReaders (erasureOf fi) bucket object s part o l = opened at *
  have hnil : ¬ nilCount (opened.map openErr) < (erasureOf fi).dataShards := by
    have hcount : (List.range' 0 (opened.map openErr).length).countP (· ∉ bad') ≤
        nilCount (opened.map openErr) := by
      refine countP_le_nilCount fun i hi hmem => ?_
      rw [length_map, hlen] at hi
      rw [zero_add] at hmem
      obtain ⟨r, hr, -⟩ := hgood i hi hmem
      simp [hr, openErr]
    rw [← range_eq_range', length_map, hlen] at hcount
    have := le_countP_not_mem bad' (erasureOf fi).totalShardCount
    unfold totalShardCount at this hcount
    omega
  have hbad : ∀ i ∈ bad', ∀ r, (opened.map readerOf)[i]? = some (some r) → r.Failing h := by
    intro i hmem r hr
    rw [getElem?_map, map_eq_some_iff] at hr
    obtain ⟨x, hx, hr⟩ := hr
    rw [readerOf_eq_some.1 hr] at hx
    exact hlost i (hlen ▸ (List.getElem?_eq_some_iff.1 hx).1) hmem r hx
  have hopen : ∀ i, i < (erasureOf fi).totalShardCount → i ∉ bad' → ∃ r,
      (opened.map readerOf)[i]? = some (some r) ∧ OpensAt (erasureOf fi) .highwayHash256
        (shardStream h .highwayHash256 c (erasureOf fi) content i) o l
        content.length r := by
    intro i hi hmem
    obtain ⟨r, hr, ho⟩ := hgood i hi hmem
    exact ⟨r, by simp [hr, readerOf], ho⟩
  obtain ⟨err, w', hrun, hcont, hw', hmark, -⟩ := decode_stored order hst.wellFormed hst.lawful hle
    hcard (by rw [length_map, hlen]) hbad hopen hw
  rw [if_neg hnil, hst.part_size hpart hcontent, hrun]
  refine ⟨w', ?_, hcont, hw'⟩
  rcases hmark with rfl | rfl | rfl
  · rfl
  · simp [IoError.toDisk]
  · simp [IoError.toDisk]

/-- The part loop over `m` parts from part `j` on, none of which begins behind the window. -/
theorem streamParts_ok (o : ErrOrder) (lo hi : ℕ)
    (hs : ByShard fi disks files (erasureOf fi).totalShardCount s) (hlt : lo < hi)
    (hstart : 0 < m → start (contents.map List.length) (j + m - 1) < hi)
    (hlen : j + m ≤ contents.length)
    (hlo : lo < start (contents.map List.length) (j + 1) ∨ lo ≤ start (contents.map List.length) j)
    (hw : w.Healthy) : ∃ w', streamParts h o c (erasureOf fi) bucket object s fi.parts (hi - lo)
        (List.range' j m) (max lo (start (contents.map List.length) j) -
          start (contents.map List.length) j)
        (min hi (max lo (start (contents.map List.length) j)) - lo) w =
        ((.ok (), w'), (List.range' j m).map (piece (contents.map List.length) lo hi)) ∧
      w'.content = w.content ++
        slice contents.flatten (min hi (max lo (start (contents.map List.length) j)))
          (min hi (max lo (start (contents.map List.length) (j + m)))) := by
  generalize hsz : contents.map List.length = sizes at *
  induction m generalizing j w with
  | zero => exact ⟨w, rfl, by rw [add_zero, slice_self, append_nil]⟩
  | succ m ih =>
    obtain ⟨content, hcontent⟩ : ∃ content, contents[j]? = some content :=
      ⟨_, getElem?_eq_getElem (by omega)⟩
    obtain ⟨part, hpart⟩ : ∃ part, fi.parts[j]? = some part := by
      have hl := congrArg List.length hst.sizes
      simp only [length_map] at hl
      exact ⟨_, getElem?_eq_getElem (by omega)⟩
    have hsize : sizes[j]? = some content.length := by simp [← hsz, hcontent]
    have hnext := start_succ hsize
    have hj : start sizes j < hi :=
      lt_of_le_of_lt (start_mono (by omega)) (hstart (by omega))
    obtain ⟨n, hn⟩ : ∃ n, n = min hi (start sizes (j + 1)) - max lo (start sizes j) := ⟨_, rfl⟩
    have hlength : min (part.size - (max lo (start sizes j) - start sizes j))
        (hi - lo - (min hi (max lo (start sizes j)) - lo)) = n := by
      rw [hst.part_size hpart hcontent]
      omega
    have hne : 0 < n ∨ content = [] := by
      rw [← length_eq_zero_iff]
      omega
    obtain ⟨w', hrun, hcont, hw'⟩ := hst.streamPart_ok o (max lo (start sizes j) - start sizes j)
      n hs hpart hcontent (by omega) hne hw
    have hoff : 0 = max lo (start sizes (j + 1)) - start sizes (j + 1) := by omega
    have hread : min hi (max lo (start sizes j)) - lo + n =
        min hi (max lo (start sizes (j + 1))) - lo := by omega
    have hadd : j + 1 + m = j + (m + 1) := by omega
    obtain ⟨w'', hrest, hcont'⟩ := ih (j := j + 1) (w := w') (by omega) hw'
      (fun _ => by rw [hadd]; exact hstart (by omega)) (.inr (by omega))
    refine ⟨w'', ?_, ?_⟩
    · rw [range'_succ, streamParts, if_neg (by omega), hpart]
      dsimp only
      rw [hlength, hrun]
      rw [hread, hoff, hrest, hn]
      rfl
    · have hmono : start sizes (j + 1) ≤ start sizes (j + 1 + m) := start_mono (by omega)
      have hslice := slice_flatten hcontent (a := max lo (start sizes j) - start sizes j)
        (b := max lo (start sizes j) - start sizes j + n) (by omega)
      have hfrom : start sizes j + (max lo (start sizes j) - start sizes j) =
          min hi (max lo (start sizes j)) := by omega
      have hto : start sizes j + (max lo (start sizes j) - start sizes j + n) =
          min hi (max lo (start sizes (j + 1))) := by omega
      rw [hsz, hfrom, hto] at hslice
      rw [hcont', hcont, ← hslice, append_assoc, slice_append (by omega) (by omega), hadd]

end StoredParts

/-- Where an offset inside the object is located. The first part is taken for offset zero even
where it is empty. -/
theorem toPartOffset_spec (fi : FileInfo) {o : ℕ} (h : o < (fi.parts.map ObjectPartInfo.size).sum) :
    ∃ j r m, fi.toPartOffset o = some (j, r) ∧
      (fi.parts.map ObjectPartInfo.size)[j]? = some m ∧
      start (fi.parts.map ObjectPartInfo.size) j + r = o ∧ (r < m ∨ o = 0) ∧ (o = 0 → j = 0) := by
  rw [FileInfo.toPartOffset]
  generalize fi.parts.map ObjectPartInfo.size = sizes at *
  by_cases ho : o = 0
  · subst ho
    cases sizes with
    | nil => simp at h
    | cons m sizes => exact ⟨0, 0, m, rfl, rfl, rfl, .inr rfl, fun _ => rfl⟩
  · obtain ⟨j, r, m, hloc, hm, hr, hsum⟩ := locate_spec h
    exact ⟨j, r, m, by rw [if_neg ho, hloc], hm, hsum, .inl hr, fun h => absurd h ho⟩

namespace StoredParts

variable (hst : StoredParts h c bucket object fi files disks contents bad)
include hst

theorem asUsize_size : asUsize fi.size = contents.flatten.length := by
  have hlt := hst.size_lt
  rw [hst.size] at hlt ⊢
  unfold asUsize
  omega

theorem sum_sizes : (fi.parts.map ObjectPartInfo.size).sum = contents.flatten.length := by
  rw [hst.sizes, length_flatten]

section

variable (order) {length : ℤ}
  (hn : n = if length < 0 then contents.flatten.length - offset else length.toNat)
  (hle : offset + n ≤ contents.flatten.length)
include hn hle

/-- A range inside the object passes the checks before the part loop. -/
theorem getObject_eq (w : Sink) : ∃ s, ByShard fi disks files (erasureOf fi).totalShardCount s ∧
      getObjectWithFileinfo h order c bucket object offset length w fi files disks =
        match fi.toPartOffset offset with
        | none => ((.error (.err (.other "part not found")), w), [])
        | some (partIndex, partOffset) =>
          match fi.toPartOffset (if n > 0 then offset + (n - 1) else offset) with
          | none => ((.error (.err (.other "part not found")), w), [])
          | some (lastPartIndex, _) =>
            streamParts h order c (erasureOf fi) bucket object s fi.parts n
              (List.range' partIndex (lastPartIndex + 1 - partIndex)) partOffset 0 w := by
  obtain ⟨s, hrun, hs⟩ :=
    shuffleByIndex_spec hst.distribution hst.length_disks hst.length_files
  have hsize := hst.size_lt
  rw [hst.size] at hsize
  have hlength : (if length < 0 then usizeSub contents.flatten.length offset else length.toNat) =
      n := by
    rw [hn, usizeSub]
    split <;> omega
  have hrange : ¬(offset > contents.flatten.length ∨ offset + n > contents.flatten.length) := by
    omega
  refine ⟨s, hs, ?_⟩
  rw [getObjectWithFileinfo, hrun]
  simp only [hst.asUsize_size, hlength, if_neg hrange]

/-- A range that is not empty: the parts from `first` to `last` are visited. -/
theorem getObject_visits (hpos : 0 < n) (hw : w.Healthy) : ∃ first r m last r' m' w',
      (contents.map List.length)[first]? = some m ∧
      start (contents.map List.length) first + r = offset ∧ (r < m ∨ offset = 0) ∧
      (offset = 0 → first = 0) ∧
      (contents.map List.length)[last]? = some m' ∧
      start (contents.map List.length) last + r' + 1 = offset + n ∧
      (r' < m' ∨ offset + n = 1) ∧ (offset + n = 1 → last = 0) ∧
      getObjectWithFileinfo h order c bucket object offset length w fi files disks =
        ((.ok (), w'), (List.range' first (last + 1 - first)).map
          (piece (contents.map List.length) offset (offset + n))) ∧
      w'.content = w.content ++ slice contents.flatten offset
        (min (offset + n) (max offset (start (contents.map List.length) (last + 1)))) := by
  obtain ⟨s, hs, hget⟩ := hst.getObject_eq order hn hle w
  have hsum := hst.sum_sizes
  obtain ⟨first, r, m, hloc, hm, hfirst, hr, hzero⟩ :=
    toPartOffset_spec fi (o := offset) (by omega)
  obtain ⟨last, r', m', hloc', hm', hlast, hr', hzero'⟩ :=
    toPartOffset_spec fi (o := offset + (n - 1)) (by omega)
  rw [hloc, if_pos hpos, hloc'] at hget
  rw [hst.sizes] at hm hfirst hm' hlast
  have hnext := start_succ hm
  have hnext' := start_succ hm'
  have hle' : first ≤ last := by
    rcases hr' with hr' | hz
    · by_contra hno
      have hmono : start (contents.map List.length) (last + 1) ≤
          start (contents.map List.length) first := start_mono (by omega)
      omega
    · omega
  have hlen := (List.getElem?_eq_some_iff.1 hm').1
  rw [length_map] at hlen
  have hadd : first + (last + 1 - first) = last + 1 := by omega
  obtain ⟨w', hrun, hcont⟩ := hst.streamParts_ok order offset (offset + n) (j := first)
    (m := last + 1 - first) hs (by omega) (fun _ => by rw [hadd, Nat.add_sub_cancel]; omega)
    (by omega) (by omega) hw
  have hmax : max offset (start (contents.map List.length) first) = offset := by omega
  have hmin : min (offset + n) offset = offset := by omega
  rw [hmax, hmin, Nat.sub_self, Nat.add_sub_cancel_left,
    show offset - start (contents.map List.length) first = r by omega] at hrun
  rw [hmax, hmin, hadd] at hcont
  exact ⟨first, r, m, last, r', m', w', hm, hfirst, hr, hzero, hm', by omega, by omega, by omega,
    hget.trans hrun, hcont⟩

end

/-- An empty range visits no part. Behind the last byte there is no part to begin with. -/
theorem getObject_empty (order : ErrOrder) {l : ℤ}
    (hn : 0 = if l < 0 then contents.flatten.length - offset else l.toNat)
    (hle : offset ≤ contents.flatten.length) (w : Sink) :
    getObjectWithFileinfo h order c bucket object offset l w fi files disks =
      ((if offset = contents.flatten.length ∧ 0 < offset then
        .error (.err (.other "part not found")) else .ok (), w), []) := by
  obtain ⟨s, -, hget⟩ := hst.getObject_eq order hn hle w
  rw [if_neg (lt_irrefl 0)] at hget
  rw [hget]
  have hsum := hst.sum_sizes
  by_cases hend : offset = contents.flatten.length ∧ 0 < offset
  · rw [if_pos hend, FileInfo.toPartOffset, if_neg (by omega), locate_eq_none (by omega)]
  · rw [if_neg hend]
    obtain ⟨p, hp⟩ : ∃ p, fi.toPartOffset offset = some p := by
      by_cases hz : offset = 0
      · exact ⟨(0, 0), if_pos hz⟩
      · obtain ⟨j, r, -, hloc, -⟩ := toPartOffset_spec fi (o := offset) (by omega)
        exact ⟨(j, r), hloc⟩
    rw [hp]
    dsimp only
    cases List.range' p.1 (p.1 + 1 - p.1) with
    | nil => rfl
    | cons j js => rw [streamParts, if_pos rfl]

/-- What is written is the range, and the pieces read are those of the parts it overlaps, exactly
when the range is empty, begins behind the start of the object, or the first part is not empty.
The call succeeds, but for the empty range at the end of an object that is not empty. -/
theorem getObject_exact_iff (order : ErrOrder) {length : ℤ}
    (hn : n = if length < 0 then contents.flatten.length - offset else length.toNat)
    (hle : offset + n ≤ contents.flatten.length) {w : Sink} (hw : w.Healthy) :
    ∃ w' visits, getObjectWithFileinfo h order c bucket object offset length w fi files disks =
        ((if offset = contents.flatten.length ∧ 0 < offset then
          .error (.err (.other "part not found")) else .ok (), w'), visits) ∧
      ((w'.content = w.content ++ (contents.flatten.drop offset).take n ∧
          visits = pieces (contents.map List.length) offset (offset + n)) ↔
        (n = 0 ∨ 0 < offset ∨ contents[0]? ≠ some [])) := by
  rcases Nat.eq_zero_or_pos n with rfl | hpos
  · refine ⟨w, [], hst.getObject_empty order hn hle w, fun _ => .inl rfl, fun _ => ?_⟩
    rw [take_zero, append_nil, add_zero, pieces_empty]
    exact ⟨rfl, rfl⟩
  · obtain ⟨first, r, m, last, r', m', w', hm, hfirst, hr, hzero, hm', hlast, hr', hzero', hget,
      hcont⟩ := hst.getObject_visits order hn hle hpos hw
    rw [if_neg (by omega)]
    refine ⟨w', _, hget, ?_, ?_⟩
    · rintro ⟨-, hvisits⟩
      by_contra hno
      obtain ⟨-, hoff, hempty⟩ : n ≠ 0 ∧ offset = 0 ∧ contents[0]? = some [] := by
        simpa [not_or] using hno
      -- part 0 is visited first, and does not overlap
      have hmem : piece (contents.map List.length) offset (offset + n) 0 ∈
          pieces (contents.map List.length) offset (offset + n) := by
        rw [← hvisits, hzero hoff]
        exact mem_map_of_mem (mem_range'_1.2 (by omega))
      obtain ⟨j, hj, hjp⟩ := mem_map.1 hmem
      obtain rfl : j = 0 := congrArg Piece.part hjp
      have hover := of_decide_eq_true (mem_filter.1 hj).2
      have hfst : (contents.map List.length)[0]? = some 0 := by simp [hempty]
      have hend := hover.2.2
      rw [start_succ hfst] at hend
      simp at hend
    · intro hcond
      have hfst : offset = 0 → ∃ l, (contents.map List.length)[0]? = some (l + 1) := by
        intro hz
        rw [hzero hz, getElem?_map] at hm
        obtain ⟨content, hcontent, rfl⟩ := map_eq_some_iff.1 hm
        have hne : content ≠ [] := by
          rintro rfl
          rcases hcond with h | h | h
          · omega
          · omega
          · exact h hcontent
        exact ⟨content.length - 1, by
          have := length_pos_iff.2 hne
          rw [getElem?_map, hcontent, map_some, Nat.sub_add_cancel this]⟩
      have hrm : r < m := by
        rcases hr with hr | hz
        · exact hr
        · obtain ⟨l, hl⟩ := hfst hz
          rw [hzero hz, hl] at hm
          have := some.inj hm
          omega
      have hrm' : r' < m' := by
        rcases hr' with hr' | hz
        · exact hr'
        · obtain ⟨l, hl⟩ := hfst (by omega)
          rw [hzero' hz, hl] at hm'
          have := some.inj hm'
          omega
      have hend := start_succ hm'
      rw [pieces_eq hfirst hm hrm hlast hm' hrm' (by omega)]
      refine ⟨?_, rfl⟩
      rw [hcont, show min (offset + n) (max offset (start (contents.map List.length) (last + 1))) =
        offset + n by omega, Blocks.slice, Nat.add_sub_cancel_left]

end StoredParts

/-- A disk that holds the given files. -/
def diskOf (stored : List (String × Bytes)) : ReadFileStream := fun _ path off _ =>
  .ok (cursor ((stored.lookup path).getD []) off)

theorem holdsFile_diskOf {ss : List (String × Bytes)} {f : Bytes}
    (hfile : ss.lookup path = some f) : HoldsFile (diskOf ss) bucket path f := by
  intro off len _
  refine ⟨_, f.drop off, rfl, ?_, take_prefix _ _, prefix_refl _⟩
  rw [hfile]
  exact cursor_clean f off

/-- The metadata of an object of two parts on two disks, one of them for parity. -/
def twoParts (a b : Bytes) (index : ℕ) : FileInfo where
  modTime := some 0
  size := (a ++ b).length
  parts := [⟨"", 1, a.length, 0, none⟩, ⟨"", 2, b.length, 0, none⟩]
  erasure := ⟨1, 1, 2, index, [1, 2]⟩

/-- The parity disk of such an object. -/
def twoPartsDisk (a b : Bytes) : ReadFileStream :=
  diskOf [(partPath "o" (twoParts a b 2) 1,
      shardStream .zeros .highwayHash256 repetition ⟨1, 1, 2⟩ a 1),
    (partPath "o" (twoParts a b 2) 2,
      shardStream .zeros .highwayHash256 repetition ⟨1, 1, 2⟩ b 1)]

theorem storedParts_twoParts (a b : Bytes) (hlt : (a ++ b).length < 2 ^ 63) :
    StoredParts .zeros repetition "b" "o" (twoParts a b 1) [twoParts a b 1, twoParts a b 2]
      [none, some (twoPartsDisk a b)] [a, b] {0} where
  wellFormed := ⟨one_pos, two_pos⟩
  lawful := repetition_lawful 1
  distribution := List.Perm.refl _
  length_disks := rfl
  length_files := rfl
  sizes := rfl
  size := by simp [twoParts]
  size_lt := by
    have : (twoParts a b 1).size = (a ++ b).length := rfl
    omega
  card := le_refl 1
  lost := by
    intro k hk disk f hdisk _
    obtain rfl := Finset.mem_singleton.1 hk
    exact .inl (by simpa using hdisk.symm)
  stored := by
    intro k disk f hk hdisk hf
    obtain rfl : k = 1 := by
      have := (List.getElem?_eq_some_iff.1 hdisk).1
      rw [Finset.mem_singleton] at hk
      simp only [length_cons, length_nil] at this
      omega
    obtain rfl : some (twoPartsDisk a b) = disk := by simpa using hdisk
    obtain rfl : twoParts a b 2 = f := by simpa using hf
    refine ⟨⟨rfl, rfl, rfl⟩, fun j part content hpart hcontent => ?_⟩
    refine .inr ⟨rfl, _, rfl, holdsFile_diskOf ?_⟩
    have hne : partPath "o" (twoParts a b 2) 2 ≠ partPath "o" (twoParts a b 2) 1 := by
      show partPath "o" {} 2 ≠ partPath "o" {} 1
      decide
    match j with
    | 0 =>
      obtain rfl : _ = part := some.inj hpart
      obtain rfl : a = content := some.inj hcontent
      exact lookup_cons_self
    | 1 =>
      obtain rfl : _ = part := some.inj hpart
      obtain rfl : b = content := some.inj hcontent
      rw [lookup_cons, beq_false_of_ne hne]
      exact lookup_cons_self
    | j + 2 => simp at hcontent

/-- The two bytes around the border of two parts, read from the parity disk. -/
theorem getObject_across_parts :
    ∃ w' visits, getObjectWithFileinfo .zeros .insertion repetition "b" "o" 1 2 ⟨[], []⟩
        (twoParts [1, 2] [3, 4] 1) [twoParts [1, 2] [3, 4] 1, twoParts [1, 2] [3, 4] 2]
        [none, some (twoPartsDisk [1, 2] [3, 4])] = ((.ok (), w'), visits) ∧
      w'.content = [2, 3] ∧ visits = [⟨0, 1, 1⟩, ⟨1, 0, 1⟩] := by
  have hn : 2 = if (2 : ℤ) < 0 then [[1, 2], [3, 4]].flatten.length - 1 else (2 : ℤ).toNat := rfl
  have hw : Sink.Healthy ⟨[], []⟩ := by simp [Sink.Healthy]
  obtain ⟨w', visits, hget, hexact⟩ :=
    (storedParts_twoParts [1, 2] [3, 4] (by decide)).getObject_exact_iff .insertion hn
      (by decide) hw
  obtain ⟨hcontent, hvisits⟩ := hexact.2 (.inr (.inl one_pos))
  exact ⟨w', visits, hget, hcontent, hvisits⟩

/-- The first byte of an object whose first part is empty is not written: only the empty part is
visited. -/
theorem getObject_empty_first_part :
    StoredParts .zeros repetition "b" "o" (twoParts [] [3, 4] 1)
      [twoParts [] [3, 4] 1, twoParts [] [3, 4] 2] [none, some (twoPartsDisk [] [3, 4])]
      [[], [3, 4]] {0} ∧
    getObjectWithFileinfo .zeros .insertion repetition "b" "o" 0 1 ⟨[], []⟩
        (twoParts [] [3, 4] 1) [twoParts [] [3, 4] 1, twoParts [] [3, 4] 2]
        [none, some (twoPartsDisk [] [3, 4])] =
      ((.ok (), ⟨[], []⟩), [⟨0, 0, 0⟩]) ∧
    ([[], [3, 4]].flatten.drop 0).take 1 = ([3] : Bytes) :=
  ⟨storedParts_twoParts _ _ (by decide), rfl, rfl⟩

end Rustfs.SetDisks
