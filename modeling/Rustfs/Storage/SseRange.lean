import Rustfs.Storage.SseMultipart

/-! Reading a range of bytes of an encrypted object. -/
namespace Rustfs.Sse

open Rio Machine List Option DecryptionMaterial Reading Nat

variable {Key Blob Md5 : Type} {S : Suite Key}

/-- The range of a request. -/
inductive Range where
  | int (first : UInt64) (last : Option UInt64)
  | suffix (length : UInt64)

/-- `HTTPRangeSpec`. -/
structure RangeSpec where
  isSuffixLength : Bool
  start : ℤ
  endPos : ℤ

/-- `as i64`. -/
def asI64 (n : UInt64) : ℤ :=
  if n.toNat < 2 ^ 63 then n.toNat else n.toNat - 2 ^ 64

namespace Range

def spec : Range → RangeSpec
  | .int first last => ⟨false, asI64 first, last.elim (-1) asI64⟩
  | .suffix length => ⟨true, asI64 length, -1⟩

/-- Offset and length of the bytes that the range stands for, where it can be satisfied. -/
def resolve (size : ℕ) : Range → Option (ℕ × ℕ)
  | .int first none => if first.toNat < size then some (first.toNat, size - first.toNat) else none
  | .int first (some last) =>
    if first.toNat < size ∧ first.toNat ≤ last.toNat then
      some (first.toNat, min (last.toNat + 1) size - first.toNat)
    else none
  | .suffix length =>
    if 0 < length.toNat ∧ 0 < size then
      some (size - min length.toNat size, min length.toNat size)
    else none

end Range

namespace RangeSpec

/-- The length of a suffix; the smallest `i64` has no negation. -/
def suffixLen (rs : RangeSpec) : Option ℤ :=
  if rs.start < 0 then
    if rs.start = -2 ^ 63 then none else some (-rs.start)
  else some rs.start

def getLength (rs : RangeSpec) (resSize : ℤ) : Option ℤ :=
  if resSize < 0 then none
  else if rs.isSuffixLength then
    rs.suffixLen.map fun specified => if specified > resSize then resSize else specified
  else if rs.start ≥ resSize then none
  else if rs.endPos > -1 then
    some ((if resSize ≤ rs.endPos then resSize - 1 else rs.endPos) - rs.start + 1)
  else if rs.endPos = -1 then some (resSize - rs.start)
  else none

def getOffsetLength (rs : RangeSpec) (resSize : ℤ) : Option (ℕ × ℤ) :=
  (rs.getLength resSize).bind fun len =>
    if rs.isSuffixLength then
      rs.suffixLen.map fun suffix => ((max (resSize - suffix) 0).toNat, len)
    else some ((rs.start % 2 ^ 64).toNat, len)

end RangeSpec

/-- An encrypted object; `multipart` is true of one that was uploaded in parts. -/
structure Object (Blob Md5 : Type) where
  metadata : Metadata Blob Md5
  data : Bytes
  parts : List PartInfo
  plaintext : Bytes
  multipart : Bool

/-- The object that completing an upload stores. -/
def completedObject (metadata : Metadata Blob Md5) (parts : List Part) : Object Blob Md5 :=
  ⟨completed metadata parts, storeds parts, infos parts, plaintexts parts, true⟩

/-- The compressing and the decompressing reader. The latter delivers bytes, and ends or fails. -/
structure Codec where
  compress : Bytes → Bytes
  decompress : Bytes → Bytes × Bool

/-- The ways an encrypted object is stored; what is compressed is compressed before it is encrypted. -/
inductive Wrote (S : Suite Key) (codec : Codec) (env : Env Key Blob Md5) (bucket key : String)
    (source : KeySource Key Blob) : Object Blob Md5 → Prop where
  | put {plaintext stored : Bytes} {m : EncryptionMaterial Key Blob Md5}
      (hm : putMaterial env bucket key source plaintext.length = some m)
      (hstored : Encrypts S m.key m.nonce plaintext stored) :
      Wrote S codec env bucket key source
        ⟨m.metadata, stored, [⟨1, stored.length⟩], plaintext, false⟩
  | compressedPut {plaintext stored : Bytes} {m : EncryptionMaterial Key Blob Md5}
      (hlong : 4096 < plaintext.length)
      (hm : putMaterial env bucket key source plaintext.length = some m)
      (hstored : Encrypts S m.key m.nonce (codec.compress plaintext) stored) :
      Wrote S codec env bucket key source
        ⟨{ m.metadata with compression := some plaintext.length }, stored, [⟨1, stored.length⟩],
          plaintext, false⟩
  | multipart {metadata : Metadata Blob Md5} {parts : List Part}
      (hcreate : createMetadata env source = some metadata) (hne : parts ≠ [])
      (hparts : ∀ p ∈ parts, Uploaded S env bucket key source metadata p) :
      Wrote S codec env bucket key source (completedObject metadata parts)
  | compressedMultipart {metadata : Metadata Blob Md5} {parts : List Part} {texts : List Bytes}
      (hcreate : createMetadata env source = some metadata) (hne : parts ≠ [])
      (hparts : ∀ p ∈ parts, Uploaded S env bucket key source metadata p)
      (htexts : parts.map (·.plaintext) = texts.map codec.compress) :
      Wrote S codec env bucket key source
        ⟨{ metadata with
            encryptionOriginalSize := some texts.flatten.length
            compression := some texts.flatten.length },
          storeds parts, infos parts, texts.flatten, true⟩

structure Response where
  contentLength : ℤ
  contentRange : ℤ × ℤ × ℤ
  body : Bytes

/-- The stream that `GetObjectReader::new` opens for a range. The range of a compressed object is one
of what its stored bytes decompress to; encryption is not looked at. -/
def Object.opened (codec : Codec) (obj : Object Blob Md5) (rs : RangeSpec) : Option Bytes :=
  match obj.metadata.compression with
  | none => (rs.getOffsetLength obj.data.length).map fun (off, len) =>
      (obj.data.drop off).take len.toNat
  | some actualSize => (rs.getOffsetLength actualSize).bind fun (off, len) =>
      let (text, complete) := codec.decompress obj.data
      if off < actualSize ∧ (off + len.toNat ≤ text.length ∨ complete ∧ off ≤ text.length) then
        some ((text.drop off).take len.toNat)
      else none

/-- The response to a request with a range. The range is resolved twice, for what is read and, against
the actual size, for what is reported. -/
def Gets [DecidableEq Md5] (S : Suite Key) (codec : Codec) (env : Env Key Blob Md5)
    (bucket key : String) (source : KeySource Key Blob) (obj : Object Blob Md5) (rs : RangeSpec)
    (sizes : ℕ → ℕ) (resp : Response) : Prop :=
  ∃ stream start length m, obj.opened codec rs = some stream ∧
    rs.getOffsetLength (obj.metadata.getActualSize obj.data.length) = some (start, length) ∧
    sseDecryption env bucket key obj.metadata source.customerKey obj.parts = .ok (some m) ∧
    m.Reads S sizes stream length resp.body resp.contentLength ∧
    resp.contentRange =
      ((start : ℤ), (start : ℤ) + length - 1, obj.metadata.getActualSize obj.data.length)

/-- The response that the plaintext calls for. -/
def Response.Correct (resp : Response) (plaintext : Bytes) (off len : ℕ) : Prop :=
  resp.body = (plaintext.drop off).take len ∧ resp.contentLength = len ∧
    resp.contentRange = ((off : ℤ), (off : ℤ) + len - 1, (plaintext.length : ℤ))

/-- Some response to the range is the one the plaintext calls for. -/
def GetsCorrect [DecidableEq Md5] (S : Suite Key) (codec : Codec) (env : Env Key Blob Md5)
    (bucket key : String) (source : KeySource Key Blob) (obj : Object Blob Md5) (rs : RangeSpec)
    (sizes : ℕ → ℕ) (off len : ℕ) : Prop :=
  ∃ resp, Gets S codec env bucket key source obj rs sizes resp ∧ resp.Correct obj.plaintext off len

/-- The object is not compressed, the range is the whole plaintext, and what is read for it is all of
the stored data; the end marker of a single stream may be missing. A single stream is read so where
it was put with a managed key. -/
def ReadsWhole (source : KeySource Key Blob) (obj : Object Blob Md5) (rs : RangeSpec) : Prop :=
  obj.metadata.compression = none ∧ rs.getOffsetLength obj.plaintext.length = some (0, (obj.plaintext.length : ℤ)) ∧
    if obj.multipart then
      2 ≤ obj.parts.length ∧ rs.getOffsetLength obj.data.length = some (0, (obj.data.length : ℤ))
    else
      source.customerKey.isNone ∧ (rs.getOffsetLength obj.data.length = some (0, (obj.data.length : ℤ)) ∨
        rs.getOffsetLength obj.data.length = some (0, (obj.data.length : ℤ) - 8))

/-- The stored data is read as one stream, and not from its beginning. With a managed key the range is
the whole plaintext, and with a customer's key the object is an upload of one part. -/
structure FromMiddle (source : KeySource Key Blob) (obj : Object Blob Md5) (rs : RangeSpec)
    (off len : ℕ) : Prop where
  one_part : obj.parts.length = 1
  middle : ∃ offset length, rs.getOffsetLength obj.data.length = some (offset, length) ∧ offset ≠ 0
  of_managed : source.customerKey.isNone → off = 0 ∧ len = obj.plaintext.length
  of_customer : source.customerKey.isSome → obj.multipart

section

variable {r : Range} {size off len : ℕ} {o : ℕ} {length : ℤ}

theorem Range.resolve_int {f : UInt64} {last : Option UInt64}
    (h : (Range.int f last).resolve size = some (off, len)) :
    off = f.toNat ∧ off < size ∧ 0 < len ∧
      off + len = last.elim size fun l => min (l.toNat + 1) size := by
  cases last with
  | none =>
    obtain ⟨hfirst, heq⟩ := ite_none_right_eq_some.mp h
    cases heq
    exact ⟨rfl, hfirst, by omega, by simp only [Option.elim]; omega⟩
  | some last =>
    obtain ⟨⟨hfirst, hlast⟩, heq⟩ := ite_none_right_eq_some.mp h
    cases heq
    exact ⟨rfl, hfirst, by omega, by simp only [Option.elim]; omega⟩

theorem Range.resolve_suffix {n : UInt64} (h : (Range.suffix n).resolve size = some (off, len)) :
    0 < len ∧ len = min n.toNat size ∧ off + len = size := by
  obtain ⟨⟨hn, hsize⟩, heq⟩ := ite_none_right_eq_some.mp h
  cases heq
  omega

theorem Range.resolve_le (h : r.resolve size = some (off, len)) : 0 < len ∧ off + len ≤ size := by
  cases r with
  | int first last =>
    obtain ⟨_, _, hpos, hend⟩ := Range.resolve_int h
    refine ⟨hpos, hend ▸ ?_⟩
    cases last with
    | none => exact le_refl _
    | some last => exact min_le_right _ _
  | suffix n =>
    obtain ⟨hpos, _, hend⟩ := Range.resolve_suffix h
    exact ⟨hpos, le_of_eq hend⟩

theorem asI64_of_lt {n : UInt64} (h : n.toNat < 2 ^ 63) : asI64 n = n.toNat := if_pos h

/-- What the code makes of a range of numbered bytes that can be satisfied. -/
theorem getOffsetLength_int {f : UInt64} {last : Option UInt64} {s : ℤ}
    (hfirst : f.toNat < 2 ^ 63)
    (h : (Range.int f last).spec.getOffsetLength s = some (o, length)) :
    o = f.toNat ∧ (length = s - f.toNat ∧ last.elim (-1) asI64 = -1 ∨
      -1 < last.elim (-1) asI64 ∧ length = min (last.elim (-1) asI64) (s - 1) - f.toNat + 1) := by
  obtain ⟨l, hlength, hsome⟩ := bind_eq_some_iff.mp h
  simp only [Range.spec, asI64_of_lt hfirst, Bool.false_eq_true, if_false, some.injEq,
    Prod.mk.injEq] at hsome
  obtain ⟨rfl, rfl⟩ := hsome
  refine ⟨by omega, ?_⟩
  simp only [RangeSpec.getLength, Range.spec, asI64_of_lt hfirst, Bool.false_eq_true,
    if_false] at hlength
  split at hlength
  · cases hlength
  · split at hlength
    · cases hlength
    · split at hlength
      · cases hlength
        refine .inr ⟨‹_›, ?_⟩
        split <;> omega
      · split at hlength
        · cases hlength
          exact .inl ⟨rfl, ‹_›⟩
        · cases hlength

theorem suffixLen_of_lt {n : UInt64} (h : n.toNat < 2 ^ 63) :
    (Range.suffix n).spec.suffixLen = some (n.toNat : ℤ) := by
  simp only [RangeSpec.suffixLen, Range.spec, asI64_of_lt h]
  rw [if_neg (by omega)]

theorem getOffsetLength_suffix {n : UInt64} {s : ℤ}
    (h : (Range.suffix n).spec.getOffsetLength s = some (o, length)) :
    length ≤ s ∧ (length = s → n.toNat < 2 ^ 63 → s ≤ n.toNat) := by
  obtain ⟨l, hlength, hsome⟩ := bind_eq_some_iff.mp h
  obtain ⟨suffix, hsuffix, hpair⟩ := map_eq_some_iff.mp hsome
  cases hpair
  unfold RangeSpec.getLength at hlength
  split at hlength
  · cases hlength
  · obtain ⟨specified, hspecified, rfl⟩ := map_eq_some_iff.mp hlength
    refine ⟨by split <;> omega, fun hwhole hn => ?_⟩
    cases (suffixLen_of_lt hn).symm.trans hspecified
    split at hwhole <;> omega

variable (hsize : size < 2 ^ 63)
include hsize

variable (h : r.resolve size = some (off, len))
include h

theorem Range.resolve_whole
    (hcode : r.spec.getOffsetLength size = some (0, (size : ℤ))) : off = 0 ∧ len = size := by
  cases r with
  | suffix n =>
    obtain ⟨_, hlong⟩ := getOffsetLength_suffix hcode
    obtain ⟨_, hlen, hend⟩ := Range.resolve_suffix h
    omega
  | int first last =>
    obtain ⟨hoff, hlt, _, hend⟩ := Range.resolve_int h
    obtain ⟨hzero, hlast⟩ := getOffsetLength_int (by omega) hcode
    cases last with
    | none =>
      simp only [Option.elim] at hend
      omega
    | some last =>
      have hmax := last.toNat_lt
      simp only [Option.elim, asI64] at hend hlast
      split at hlast <;> omega

theorem Range.length_le {s : ℕ}
    (hcode : r.spec.getOffsetLength s = some (o, length)) : length ≤ s := by
  cases r with
  | suffix n => exact (getOffsetLength_suffix hcode).1
  | int first last =>
    obtain ⟨hoff, hlt, _⟩ := Range.resolve_int h
    have hint := getOffsetLength_int (by omega) hcode
    omega

end

section

variable {env : Env Key Blob Md5} {bucket object : String} {source : KeySource Key Blob}
  {m : EncryptionMaterial Key Blob Md5} {plaintext stored : Bytes} {ss : ℕ → ℕ}
  {rs : RangeSpec} {r : Response} {codec : Codec}

theorem sseDecryption_put [DecidableEq Md5] (hunwraps : Unwraps env source) {s : ℕ}
    (hm : putMaterial env bucket object source s = some m) (p : PartInfo) :
    sseDecryption env bucket object m.metadata source.customerKey [p] =
      .ok (some ⟨m.key, m.nonce, some (s : ℤ), false, [p]⟩) := by
  cases source with
  | customer customerKey =>
    cases hm
    simp only [sseDecryption, applySsecEncryptionMaterial, KeySource.customerKey]
    rw [if_neg (by simp)]
    rfl
  | managed dek =>
    cases hm
    have hmax : max (s : ℤ) 0 = s := by omega
    simp only [sseDecryption, hunwraps dek rfl, hmax]
    rfl

theorem compression_put {s : ℤ} (hm : putMaterial env bucket object source s = some m) :
    m.metadata.compression = none := by
  cases source <;> cases hm <;> rfl

theorem compression_completed {m : Metadata Blob Md5} (h : createMetadata env source = some m)
    (ps : List Part) : (completedObject m ps).metadata.compression = none := by
  cases source <;> cases h <;> rfl

theorem getActualSize_completed {m : Metadata Blob Md5} (h : createMetadata env source = some m)
    (ps : List Part) (stored : ℤ) : (completed m ps).getActualSize stored = (plaintexts ps).length := by
  have hplain : (completed m ps).compression = none := compression_completed h ps
  rw [Metadata.getActualSize, hplain]
  rfl

theorem getActualSize_put {s : ℕ} (hm : putMaterial env bucket object source s = some m)
    (stored : ℤ) :
    m.metadata.getActualSize stored = if source.customerKey.isNone then (s : ℤ) else stored := by
  cases source with
  | customer customerKey =>
    cases hm
    rfl
  | managed dek =>
    cases hm
    simp [Metadata.getActualSize, KeySource.customerKey]

theorem Encrypts.length_le {key : Key} {n : Nonce} (h : Encrypts S key n plaintext stored) :
    plaintext.length + 8 ≤ stored.length := by
  obtain ⟨blocks, _, rfl, rfl⟩ := h.exists_blocks
  exact Suite.flatten_le_stream key n blocks

/-- The first bytes of a stream from which its plaintext is read: all of them, or all but the end
marker. -/
theorem Encrypts.done_take_iff {key : Key} {nonce : Nonce}
    (hopens : ∀ key nonce p, S.Opens key nonce p)
    (hstored : Encrypts S key nonce plaintext stored) {n : ℕ} (hn : n ≤ stored.length) :
    Ends step (start (.new (Cursor.mk (stored.take n)) key nonce :
      DecryptReader S Cursor) ss) (.done plaintext) ↔
      n = stored.length ∨ n + 8 = stored.length := by
  obtain ⟨blocks, hblocks, rfl, rfl⟩ := hstored.exists_blocks
  have hreadable : Reading.Readable S key nonce blocks := fun b hb => ⟨hblocks b hb, hopens _ _ _⟩
  have hlength : (S.stream key nonce blocks).length =
      (blocks.map (S.block key nonce)).flatten.length + 8 := by
    rw [Suite.stream, length_append]
    rfl
  constructor
  · intro h
    by_cases hall : n = (S.stream key nonce blocks).length
    · exact .inl hall
    obtain ⟨result, hcut, hends⟩ := ends_truncated hreadable ss (m := n) (by omega)
    have hresult := (hends 0 []).unique h
    rcases hcut with hhung | ⟨j, hj, hjn, hdone⟩
    · rw [hhung] at hresult
      cases hresult
    · -- blocks are not empty, so the block where the data ends is the last one
      rw [hdone, nil_append, Outcome.done.injEq] at hresult
      have hsplit := congrArg List.flatten (take_append_drop j blocks)
      rw [flatten_append, hresult, append_right_eq_self, flatten_eq_nil_iff] at hsplit
      have hlast : blocks.drop j = [] := eq_nil_iff_forall_not_mem.mpr fun b hb =>
        (hblocks b (mem_of_mem_drop hb)).1 (hsplit b hb)
      rw [take_of_length_le (drop_eq_nil_iff.mp hlast)] at hjn
      exact .inr (by omega)
  · rintro (hall | hmarker)
    · rw [hall, take_length]
      exact ends_cursor hreadable ss
    · have htake : (S.stream key nonce blocks).take n = (blocks.map (S.block key nonce)).flatten := by
        rw [Suite.stream]
        exact take_left' (by omega)
      rw [htake]
      exact ends_without_marker hreadable ss 0 []

section

variable {key : Key} {base : Nonce} {ps : List Part}

theorem DecryptsParts.unique {i : List PartInfo} {d b body' : Bytes}
    (h : DecryptsParts S key base ss i d b)
    (h' : DecryptsParts S key base ss i d body') : b = body' := by
  induction h generalizing body' with
  | nil =>
    cases h'
    rfl
  | skip hsize _ ih =>
    cases h' with
    | skip _ hrest' => exact ih hrest'
    | segment hsize' => exact absurd hsize hsize'
  | segment hsize _ hsegment _ ih =>
    cases h' with
    | skip hsize' => exact absurd hsize' hsize
    | segment _ _ hsegment' hrest' =>
      cases hsegment.unique hsegment'
      rw [ih hrest']

/-- All of the parts have to be there. -/
theorem DecryptsParts.storeds_le {d b : Bytes} (h : DecryptsParts S key base ss (infos ps) d b) :
    (storeds ps).length ≤ d.length := by
  induction ps generalizing d b with
  | nil => exact zero_le _
  | cons p ps ih =>
    have hlength : (storeds (p :: ps)).length = p.stored.length + (storeds ps).length :=
      length_append
    cases h with
    | skip hsize hrest =>
      have := ih hrest
      simp only at hsize
      omega
    | segment hsize hexact _ hrest =>
      have := ih hrest
      simp only [length_drop] at hexact this
      omega

theorem plaintexts_le_storeds
    (hparts : ∀ p ∈ ps, Encrypts S key (derivePartNonce base p.number) p.plaintext p.stored) :
    (plaintexts ps).length ≤ (storeds ps).length := by
  induction ps with
  | nil => exact le_refl _
  | cons p ps ih =>
    have hrest := ih fun p' hp' => hparts p' (by simp [hp'])
    have hfirst := (hparts p (by simp)).length_le
    simp only [plaintexts, storeds, map_cons, flatten_cons, length_append] at hrest ⊢
    omega

end

theorem gets_iff [DecidableEq Md5] {obj : Object Blob Md5} {m : DecryptionMaterial Key}
    (hplain : obj.metadata.compression = none)
    (hm : sseDecryption env bucket object obj.metadata source.customerKey obj.parts =
      .ok (some m)) :
    Gets S codec env bucket object source obj rs ss r ↔
      ∃ off len start length, rs.getOffsetLength obj.data.length = some (off, len) ∧
        rs.getOffsetLength (obj.metadata.getActualSize obj.data.length) = some (start, length) ∧
        m.Reads S ss ((obj.data.drop off).take len.toNat) length r.body r.contentLength ∧
        r.contentRange =
          ((start : ℤ), (start : ℤ) + length - 1, obj.metadata.getActualSize obj.data.length) := by
  constructor
  · rintro ⟨stream, start, length, m', hopened, hreport, hm', hrest⟩
    cases hm.symm.trans hm'
    rw [Object.opened, hplain] at hopened
    obtain ⟨⟨off, len⟩, hread, rfl⟩ := map_eq_some_iff.mp hopened
    exact ⟨off, len, start, length, hread, hreport, hrest⟩
  · rintro ⟨off, len, start, length, hread, hreport, hrest⟩
    refine ⟨_, start, length, m, ?_, hreport, hm, hrest⟩
    rw [Object.opened, hplain]
    exact map_eq_some_iff.mpr ⟨(off, len), hread, rfl⟩

theorem Response.Correct.length_body {off len : ℕ} (h : r.Correct plaintext off len)
    (hle : off + len ≤ plaintext.length) : r.body.length = len := by
  rw [h.1, length_take, length_drop]
  omega

theorem Response.Correct.body_whole (h : r.Correct plaintext 0 plaintext.length) :
    r.body = plaintext := by
  rw [h.1, drop_zero, take_length]

section

variable [DecidableEq Md5] {range : Range} {off len : ℕ} {p : PartInfo}

/-- The length of an object that was put is always reported whole. -/
theorem put_length (hunwraps : Unwraps env source)
    (hm : putMaterial env bucket object source plaintext.length = some m)
    (h : GetsCorrect S codec env bucket object source ⟨m.metadata, stored, [p], plaintext, false⟩
      range.spec ss off len) : len = plaintext.length := by
  obtain ⟨r, hgets, hcorrect⟩ := h
  obtain ⟨_, _, _, _, _, _, hreads, _⟩ := (gets_iff (compression_put hm) (sseDecryption_put hunwraps hm p)).mp hgets
  obtain ⟨_, hcontent, _⟩ := (reads_single rfl).mp hreads
  have := hcontent.symm.trans hcorrect.2.1
  simp only [getD_some] at this
  omega

section

variable (hopens : ∀ key nonce p, S.Opens key nonce p) (hunwraps : Unwraps env source)
  (hm : putMaterial env bucket object source plaintext.length = some m)
  (hstored : Encrypts S m.key m.nonce plaintext stored)
include hopens hunwraps hm hstored

theorem put_correct (hsize : stored.length < 2 ^ 63)
    (hresolve : range.resolve plaintext.length = some (off, len))
    (h : GetsCorrect S codec env bucket object source ⟨m.metadata, stored, [p], plaintext, false⟩
      range.spec ss off len) :
    ReadsWhole source ⟨m.metadata, stored, [p], plaintext, false⟩ range.spec ∨
      FromMiddle source ⟨m.metadata, stored, [p], plaintext, false⟩ range.spec off len := by
  obtain rfl := put_length hunwraps hm h
  obtain ⟨r, hgets, hcorrect⟩ := h
  obtain ⟨offset, length, start, reported, hread, hreport, hreads, hrange⟩ :=
    (gets_iff (compression_put hm) (sseDecryption_put hunwraps hm p)).mp hgets
  obtain ⟨hends, _, _⟩ := (reads_single rfl).mp hreads
  have hlonger := hstored.length_le
  obtain ⟨hpos, hle⟩ := Range.resolve_le hresolve
  obtain rfl : off = 0 := by omega
  have hranges := hrange.symm.trans hcorrect.2.2
  simp only [Prod.mk.injEq, getActualSize_put hm] at hranges hreport
  cases source with
  | customer customerKey =>
    have htotal : (stored.length : ℤ) = plaintext.length := hranges.2.2
    omega
  | managed dek =>
    by_cases hmiddle : offset = 0
    · subst hmiddle
      have hcut : length ≤ stored.length := Range.length_le (by omega) hresolve hread
      rw [hcorrect.body_whole, drop_zero, hstored.done_take_iff hopens (by omega)] at hends
      have hwhole : reported = plaintext.length ∧ start = 0 := by omega
      refine .inl ⟨compression_put hm, ?_, rfl, ?_⟩
      · rw [hwhole.1, hwhole.2] at hreport
        exact hreport
      · rcases hends with hall | hmarker
        · obtain rfl : length = (stored.length : ℤ) := by omega
          exact .inl hread
        · obtain rfl : length = (stored.length : ℤ) - 8 := by omega
          exact .inr hread
    · exact .inr ⟨rfl, ⟨offset, length, hread, hmiddle⟩, fun _ => ⟨rfl, rfl⟩, nofun⟩

theorem correct_put (h : ReadsWhole source ⟨m.metadata, stored, [p], plaintext, false⟩ range.spec) :
    GetsCorrect S codec env bucket object source ⟨m.metadata, stored, [p], plaintext, false⟩ range.spec
      ss 0 plaintext.length := by
  obtain ⟨-, hreport, hmanaged, hread⟩ := h
  have hactual : m.metadata.getActualSize stored.length = plaintext.length := by
    rw [getActualSize_put hm, if_pos hmanaged]
  have hlonger := hstored.length_le
  have hread' : ∃ n : ℕ, n ≤ stored.length ∧ (n = stored.length ∨ n + 8 = stored.length) ∧
      range.spec.getOffsetLength stored.length = some (0, (n : ℤ)) := by
    rcases hread with hall | hmarker
    · exact ⟨stored.length, le_refl _, .inl rfl, hall⟩
    · refine ⟨stored.length - 8, sub_le _ _, .inr (by omega), ?_⟩
      rw [cast_sub (by omega)]
      exact hmarker
  obtain ⟨n, hn, hcut, hread'⟩ := hread'
  refine ⟨⟨plaintext.length, (0, plaintext.length - 1, plaintext.length), plaintext⟩, ?_, ?_⟩
  · refine (gets_iff (compression_put hm) (sseDecryption_put hunwraps hm p)).mpr ⟨0, n, 0, plaintext.length, hread', ?_⟩
    refine ⟨by rw [hactual]; exact hreport, ?_, ?_⟩
    · refine (reads_single rfl).mpr ⟨?_, rfl, Int.le_refl _⟩
      exact (hstored.done_take_iff hopens hn).mpr hcut
    · simp [hactual]
  · exact ⟨by simp, rfl, by simp⟩

end

end

section

variable [DecidableEq Md5] {range : Range} {off len : ℕ} {m : Metadata Blob Md5}
  {ps : List Part}

/-- An upload of one part is opened with the nonce of the upload, which is not the part's. -/
theorem one_part_correct {p : Part}
    (hclosed : ∀ key nonce nonce' p, nonce ≠ nonce' →
      S.decrypt key nonce' (S.encrypt key nonce p) = none)
    (hunwraps : Unwraps env source) (hcreate : createMetadata env source = some m)
    (hp : Uploaded S env bucket object source m p)
    (hresolve : range.resolve p.plaintext.length = some (off, len))
    (h : GetsCorrect S codec env bucket object source (completedObject m [p]) range.spec ss off
      len) : FromMiddle source (completedObject m [p]) range.spec off len := by
  have hplain : (completedObject m [p]).plaintext = p.plaintext := append_nil _
  have hdata : (completedObject m [p]).data = p.stored := append_nil _
  obtain ⟨r, hgets, hcorrect⟩ := h
  obtain ⟨offset, length, start, reported, hread, _, hreads, _⟩ :=
    (gets_iff (compression_completed hcreate [p])
      (sseDecryption_completed bucket object [p] hunwraps hcreate)).mp hgets
  obtain ⟨hends, hcontent, _⟩ := (reads_single rfl).mp hreads
  obtain ⟨hpos, hle⟩ := Range.resolve_le hresolve
  rw [hplain] at hcorrect
  refine ⟨rfl, ⟨offset, length, hread, ?_⟩, ?_, fun _ => rfl⟩
  · rintro rfl
    rw [hdata, drop_zero] at hends
    have hbody := (hp.encrypts hunwraps hcreate).done_other_nonce hclosed
      (derivePartNonce_number_ne _ p) (ne_nil_of_length_pos (by omega)) hends
    have hlength := hcorrect.length_body hle
    rw [hbody, length_nil] at hlength
    omega
  · intro hmanaged
    cases source with
    | customer customerKey => cases hmanaged
    | managed dek =>
      have hlen : ((completedObject m [p]).plaintext.length : ℤ) = len :=
        hcontent.symm.trans hcorrect.2.1
      rw [hplain] at hlen ⊢
      omega

section

variable (hopens : ∀ key nonce p, S.Opens key nonce p) (hunwraps : Unwraps env source)
  (hcreate : createMetadata env source = some m)
  (hparts : ∀ p ∈ ps, Uploaded S env bucket object source m p)
include hopens hunwraps hcreate hparts

/-- Parts are decrypted only from all of the stored data. -/
theorem parts_correct
    (hmany : 2 ≤ ps.length) (hsize : (storeds ps).length < 2 ^ 63)
    (hresolve : range.resolve (plaintexts ps).length = some (off, len))
    (h : GetsCorrect S codec env bucket object source (completedObject m ps) range.spec ss off
      len) : ReadsWhole source (completedObject m ps) range.spec := by
  obtain ⟨r, hgets, hcorrect⟩ := h
  obtain ⟨offset, length, start, reported, hread, hreport, hreads, hrange⟩ :=
    (gets_iff (compression_completed hcreate ps)
      (sseDecryption_completed bucket object ps hunwraps hcreate)).mp hgets
  obtain ⟨hdecrypts, hcontent⟩ := (reads_multipart (decide_eq_true hmany)).mp hreads
  have hencrypts := fun p hp => (hparts p hp).encrypts hunwraps hcreate
  have hlonger := plaintexts_le_storeds hencrypts
  obtain ⟨hpos, hfits⟩ := Range.resolve_le hresolve
  have hle : length ≤ (storeds ps).length := Range.length_le (by omega) hresolve hread
  have hall := hdecrypts.storeds_le
  rw [length_take, length_drop] at hall
  change (storeds ps).length ≤ min length.toNat ((storeds ps).length - offset) at hall
  obtain ⟨rfl, rfl⟩ : offset = 0 ∧ length = (storeds ps).length := by omega
  have hbody : r.body = plaintexts ps := hdecrypts.unique (by
    simpa [completedObject] using decryptsParts_uploaded hopens hencrypts)
  have hlength := hcorrect.length_body hfits
  have hranges := hrange.symm.trans hcorrect.2.2
  obtain ⟨rfl, rfl⟩ : off = 0 ∧ len = (plaintexts ps).length := by
    rw [hbody] at hlength
    omega
  obtain ⟨rfl, rfl⟩ : start = 0 ∧ reported = (plaintexts ps).length := by
    simp only [Prod.mk.injEq] at hranges
    omega
  refine ⟨compression_completed hcreate ps, ?_, (length_map _).symm ▸ hmany, hread⟩
  change range.spec.getOffsetLength ((completed m ps).getActualSize _) = _ at hreport
  rwa [getActualSize_completed hcreate] at hreport

theorem correct_parts (h : ReadsWhole source (completedObject m ps) range.spec) :
    GetsCorrect S codec env bucket object source (completedObject m ps) range.spec ss 0
      (plaintexts ps).length := by
  obtain ⟨-, hreport, hmany, hread⟩ := h
  have hactual : (completedObject m ps).metadata.getActualSize (completedObject m ps).data.length =
      (plaintexts ps).length := getActualSize_completed hcreate ps _
  have hmany' : 2 ≤ ps.length := (length_map _) ▸ hmany
  refine ⟨⟨(plaintexts ps).length, (0, (plaintexts ps).length - 1, (plaintexts ps).length),
    plaintexts ps⟩, ?_, ?_⟩
  · refine (gets_iff (compression_completed hcreate ps)
      (sseDecryption_completed bucket object ps hunwraps hcreate)).mpr
      ⟨0, (storeds ps).length, 0, (plaintexts ps).length, hread, hactual ▸ hreport, ?_, ?_⟩
    · refine (reads_multipart (decide_eq_true hmany')).mpr ⟨?_, rfl⟩
      simpa [completedObject] using
        decryptsParts_uploaded hopens fun p hp => (hparts p hp).encrypts hunwraps hcreate
    · simp [hactual]
  · exact ⟨by simp [completedObject], rfl, by simp [completedObject]⟩

end

end

/-- A range is answered right where it is the whole plaintext and all of the stored data is read, and
nowhere else, except perhaps where one stream is read from its middle or encrypted bytes decompress
to something that is. -/
theorem range_correct [DecidableEq Md5] {obj : Object Blob Md5} {range : Range} {off len : ℕ}
    (hopens : ∀ key nonce p, S.Opens key nonce p)
    (hclosed : ∀ key nonce nonce' p, nonce ≠ nonce' →
      S.decrypt key nonce' (S.encrypt key nonce p) = none)
    (hunwraps : Unwraps env source) (hwrote : Wrote S codec env bucket object source obj)
    (hsize : obj.data.length < 2 ^ 63)
    (hresolve : range.resolve obj.plaintext.length = some (off, len)) (sizes : ℕ → ℕ) :
    (ReadsWhole source obj range.spec →
      GetsCorrect S codec env bucket object source obj range.spec sizes off len) ∧
    (GetsCorrect S codec env bucket object source obj range.spec sizes off len →
      ReadsWhole source obj range.spec ∨ FromMiddle source obj range.spec off len ∨
        obj.metadata.compression.isSome) := by
  cases hwrote with
  | compressedPut => exact ⟨fun h => absurd h.1 (some_ne_none _), fun _ => .inr (.inr rfl)⟩
  | compressedMultipart => exact ⟨fun h => absurd h.1 (some_ne_none _), fun _ => .inr (.inr rfl)⟩
  | @put plaintext stored m hm hstored =>
    refine ⟨fun h => ?_, fun h => ?_⟩
    rotate_left
    · exact (put_correct hopens hunwraps hm hstored hsize hresolve h).imp_right .inl
    have hlonger := hstored.length_le
    have hplain : plaintext.length < 2 ^ 63 := by
      simp only at hsize
      omega
    obtain ⟨rfl, rfl⟩ := Range.resolve_whole hplain hresolve h.2.1
    exact correct_put hopens hunwraps hm hstored h
  | @multipart metadata parts hcreate hne hparts =>
    have hlonger := plaintexts_le_storeds fun p hp => (hparts p hp).encrypts hunwraps hcreate
    have hplain : (plaintexts parts).length < 2 ^ 63 := by
      simp only [completedObject] at hsize
      omega
    constructor
    · intro h
      obtain ⟨rfl, rfl⟩ := Range.resolve_whole hplain hresolve h.2.1
      exact correct_parts hopens hunwraps hcreate hparts h
    · intro h
      by_cases hmany : 2 ≤ parts.length
      · exact .inl (parts_correct hopens hunwraps hcreate hparts hmany hsize hresolve h)
      · obtain ⟨p, rfl⟩ : ∃ p, parts = [p] := by
          rw [← length_eq_one_iff]
          have := length_pos_iff.mpr hne
          omega
        have hone : plaintexts [p] = p.plaintext := append_nil _
        exact .inr (.inl (one_part_correct hclosed hunwraps hcreate (hparts p (by simp))
          (hone ▸ hresolve) h))

end

/-- Nothing is made shorter. -/
def plainCodec : Codec := ⟨id, fun b => (b, true)⟩

def plainMaterial (plaintext : Bytes) : EncryptionMaterial Unit Unit Unit where
  key := ()
  nonce := ⟨0, 0⟩
  metadata := { plainManaged with encryptionOriginalSize := some (max (plaintext.length : ℤ) 0) }

/-- The object that is put with this key. -/
def plainObject (plaintext stored : Bytes) : Object Unit Unit :=
  ⟨(plainMaterial plaintext).metadata, stored, [⟨1, stored.length⟩], plaintext, false⟩

theorem exists_encrypts (p : Bytes) : ∃ stored, Encrypts taggedSuite () ⟨0, 0⟩ p stored := by
  obtain ⟨_, _, _, hdelivers⟩ := EncryptReader.delivers_stream (S := taggedSuite)
    (Cursor.delivers p) () ⟨0, 0⟩
  exact ⟨_, Cursor, _, _, Cursor.delivers p, hdelivers⟩

theorem wrote_plainObject {p s : Bytes} (h : Encrypts taggedSuite () ⟨0, 0⟩ p s) :
    Wrote taggedSuite plainCodec plainEnv "bucket" "key" plainDek (plainObject p s) :=
  .put (m := plainMaterial p) rfl h

theorem length_stored_byte {n : Nonce} {x : UInt8} {s : Bytes}
    (h : Encrypts taggedSuite () n [x] s) : s.length = 34 := by
  obtain ⟨blocks, hblocks, hflat, rfl⟩ := h.exists_blocks
  obtain ⟨before, after, rfl, hbefore, hafter⟩ := flatten_eq_singleton_iff.mp hflat
  have hempty : ∀ bs : List Bytes, (∀ b ∈ bs, b = []) → (∀ b ∈ bs, IsBlock b) → bs = [] :=
    fun bs hnil hbs => eq_nil_iff_forall_not_mem.mpr fun b hb => (hbs b hb).1 (hnil b hb)
  rw [hempty before hbefore fun b hb => hblocks b (by simp [hb]),
    hempty after hafter fun b hb => hblocks b (by simp [hb])]
  rfl

/-- All of an object of two parts is read. -/
theorem two_parts_correct : ∃ parts : List Part,
    (∀ p ∈ parts, ManagedUploaded p) ∧ plaintexts parts = [1, 2] ∧
      GetsCorrect taggedSuite plainCodec plainEnv "bucket" "key" plainDek
        (completedObject plainManaged parts) (Range.int 0 none).spec (fun _ => 0) 0 2 := by
  obtain ⟨-, p, _, hp, hup⟩ := exists_uploaded 1 (by decide) (by decide) [1]
  obtain ⟨-, q, _, hq, huq⟩ := exists_uploaded 3 (by decide) (by decide) [2]
  have hplain : plaintexts [p, q] = [1, 2] := by simp [plaintexts, hp, hq]
  have hlength : (storeds [p, q]).length = 68 := by
    have hencrypts := hup.encrypts (unwraps_plainEnv _) rfl
    have hencrypts' := huq.encrypts (unwraps_plainEnv _) rfl
    rw [hp] at hencrypts
    rw [hq] at hencrypts'
    simp [storeds, length_stored_byte hencrypts, length_stored_byte hencrypts']
  have hresolve : (Range.int 0 none).resolve (plaintexts [p, q]).length = some (0, 2) := by
    rw [hplain]
    rfl
  refine ⟨[p, q], mem_two hup huq, hplain, ?_⟩
  refine (range_correct taggedSuite_opens taggedSuite_closed (unwraps_plainEnv _)
    (.multipart rfl (by simp) (mem_two hup huq)) ?_ hresolve _).1 ⟨rfl, ?_, le_refl 2, ?_⟩
  · change (storeds [p, q]).length < _
    rw [hlength]
    decide
  · change (Range.int 0 none).spec.getOffsetLength (plaintexts [p, q]).length =
      some (0, ((plaintexts [p, q]).length : ℤ))
    rw [hplain]
    rfl
  · change (Range.int 0 none).spec.getOffsetLength (storeds [p, q]).length =
      some (0, ((storeds [p, q]).length : ℤ))
    rw [hlength]
    rfl

/-- The first byte of two: the length of both is reported. -/
theorem first_byte_not_correct : ∃ stored, Wrote taggedSuite plainCodec plainEnv "bucket" "key"
      plainDek (plainObject [1, 2] stored) ∧ (Range.int 0 (some 0)).resolve 2 = some (0, 1) ∧
      ¬ GetsCorrect taggedSuite plainCodec plainEnv "bucket" "key" plainDek
        (plainObject [1, 2] stored) (Range.int 0 (some 0)).spec (fun _ => 0) 0 1 := by
  obtain ⟨stored, hstored⟩ := exists_encrypts [1, 2]
  refine ⟨stored, wrote_plainObject hstored, rfl, fun h => ?_⟩
  have hlength := put_length (m := plainMaterial [1, 2]) (unwraps_plainEnv _) rfl h
  cases hlength

end Rustfs.Sse
