import Rustfs.Storage.Sse

/-! Encrypted multipart uploads, and reading the completed object. -/
namespace Rustfs.Sse

open Rio Machine List Reading DecryptionMaterial Cursor

variable {Key Blob Md5 : Type} {S : Suite Key} {key : Key} {nonce : Nonce}
  {plaintext s : Bytes} {ss : ℕ → ℕ}

/-- The encrypting reader, over some reader of the plaintext, hands over these bytes. -/
def Encrypts (S : Suite Key) (key : Key) (nonce : Nonce) (plaintext stored : Bytes) : Prop :=
  ∃ (R : Type) (_ : AsyncRead R) (source : R), Delivers source plaintext ∧
    Delivers (EncryptReader.new source key nonce : EncryptReader S R) stored

section

variable (h : Encrypts S key nonce plaintext s)
include h

theorem Encrypts.exists_blocks :
    ∃ blocks : List Bytes, (∀ b ∈ blocks, IsBlock b) ∧ blocks.flatten = plaintext ∧
      s = S.stream key nonce blocks := by
  obtain ⟨R, _, source, hsource, hstored⟩ := h
  obtain ⟨blocks, hblocks, hflat, hdelivers⟩ := EncryptReader.delivers_stream hsource key nonce
  exact ⟨blocks, hblocks, hflat, hstored.unique hdelivers⟩

theorem Encrypts.length_pos : s.length ≠ 0 := by
  obtain ⟨blocks, _, _, rfl⟩ := h.exists_blocks
  have hlong := eight_le_stream (S := S) key nonce blocks
  omega

theorem Encrypts.reads_back (hopens : ∀ key nonce p, S.Opens key nonce p) :
    Ends step (start (.new (mk s) key nonce : DecryptReader S Cursor) ss) (.done plaintext) := by
  obtain ⟨blocks, hblocks, rfl, rfl⟩ := h.exists_blocks
  exact ends_cursor (fun b hb => ⟨hblocks b hb, hopens _ _ _⟩) ss

end

/-- One part of an upload, with what is stored of it. -/
structure Part where
  number : ℕ
  plaintext : Bytes
  stored : Bytes
  number_pos : 1 ≤ number
  number_lt : number < 2147483648

def plaintexts (parts : List Part) : Bytes := (parts.map (·.plaintext)).flatten

/-- The data of the completed object. -/
def storeds (parts : List Part) : Bytes := (parts.map (·.stored)).flatten

def infos (parts : List Part) : List PartInfo := parts.map fun p => ⟨p.number, p.stored.length⟩

/-- What `complete_multipart_upload` stores: the size of the plaintext is added. -/
def completed (metadata : Metadata Blob Md5) (parts : List Part) : Metadata Blob Md5 :=
  { metadata with encryptionOriginalSize := some (plaintexts parts).length }

namespace KeySource

def dataKey : KeySource Key Blob → Key
  | .customer key => key
  | .managed dek => dek.key

/-- The key that is sent with a request to read. -/
def customerKey : KeySource Key Blob → Option Key
  | .customer key => some key
  | .managed _ => none

def baseNonce (env : Env Key Blob Md5) (bucket key : String) : KeySource Key Blob → Nonce
  | .customer _ => generateSsecNonce env bucket key
  | .managed dek => dek.nonce

/-- The size that reading the object as one stream is limited to, if the metadata has one. -/
def sizeOf (size : ℤ) : KeySource Key Blob → Option ℤ
  | .customer _ => none
  | .managed _ => some size

end KeySource

/-- The part was encrypted with the material of its upload. -/
def Uploaded (S : Suite Key) (env : Env Key Blob Md5) (bucket key : String)
    (source : KeySource Key Blob) (metadata : Metadata Blob Md5) (p : Part) : Prop :=
  ∃ fresh m, partMaterial env bucket key source metadata fresh p.plaintext.length p.number =
    some m ∧ Encrypts S m.key m.nonce p.plaintext p.stored

/-- Reading the completed object gives this plaintext. -/
def Returns [DecidableEq Md5] (S : Suite Key) (env : Env Key Blob Md5) (bucket key : String)
    (source : KeySource Key Blob) (metadata : Metadata Blob Md5) (parts : List Part)
    (sizes : ℕ → ℕ) (plaintext : Bytes) : Prop :=
  ∃ m size, sseDecryption env bucket key (completed metadata parts) source.customerKey
      (infos parts) = .ok (some m) ∧
    m.Reads S sizes (storeds parts) ((completed metadata parts).getActualSize (storeds parts).length)
      plaintext size

section

variable {env : Env Key Blob Md5} {bucket object : String} {source : KeySource Key Blob}
  {metadata : Metadata Blob Md5} {parts : List Part} {p : Part}

/-- What the provider promises: a data key it handed out is unwrapped again. -/
def Unwraps (env : Env Key Blob Md5) (source : KeySource Key Blob) : Prop :=
  ∀ dek, source = .managed dek → env.decryptSseDek dek.blob = some dek.key

theorem Uploaded.encrypts (hunwraps : Unwraps env source)
    (hcreate : createMetadata env source = some metadata)
    (h : Uploaded S env bucket object source metadata p) :
    Encrypts S source.dataKey (derivePartNonce (source.baseNonce env bucket object) p.number)
      p.plaintext p.stored := by
  obtain ⟨fresh, m, hm, hencrypts⟩ := h
  cases source with
  | customer customerKey =>
    cases hm
    exact hencrypts
  | managed dek =>
    cases hcreate
    simp only [partMaterial, applyManagedEncryptionMaterial, if_pos p.number_pos,
      hunwraps dek rfl, Option.map_some] at hm
    cases hm
    exact hencrypts

theorem sseDecryption_completed [DecidableEq Md5] (b o : String) (ps : List Part)
    (hunwraps : Unwraps env source) (hcreate : createMetadata env source = some metadata) :
    sseDecryption env b o (completed metadata ps) source.customerKey (infos ps) =
      .ok (some ⟨source.dataKey, source.baseNonce env b o,
        source.sizeOf (plaintexts ps).length, 1 < ps.length, infos ps⟩) := by
  have hlen : (infos ps).length = ps.length := length_map _
  cases source with
  | customer customerKey =>
    cases hcreate
    simp only [sseDecryption, completed, applySsecPrepareEncryptionMaterial,
      KeySource.customerKey, hlen]
    rw [if_neg (by simp)]
    rfl
  | managed dek =>
    cases hcreate
    simp only [sseDecryption, completed, KeySource.customerKey, hunwraps dek rfl, hlen]
    rfl

/-- Part by part, the whole object is decrypted. -/
theorem decryptsParts_uploaded {key : Key} {b : Nonce} (hopens : ∀ key nonce p, S.Opens key nonce p)
    (hparts : ∀ p ∈ parts,
      Encrypts S key (derivePartNonce b p.number) p.plaintext p.stored) :
    DecryptsParts S key b ss (infos parts) (storeds parts) (plaintexts parts) := by
  induction parts with
  | nil => exact .nil
  | cons p parts ih =>
    have hp := hparts p (by simp)
    have hstoreds : storeds (p :: parts) = p.stored ++ storeds parts := rfl
    refine .segment hp.length_pos ?_ ?_ ?_
    · rw [hstoreds, length_append]
      exact Nat.le_add_right _ _
    · rw [hstoreds, take_left]
      exact hp.reads_back hopens
    · rw [hstoreds, drop_left]
      exact ih fun p' hp' => hparts p' (by simp [hp'])

/-- The nonce of a part is not the nonce of the upload. -/
theorem derivePartNonce_number_ne (b : Nonce) (p : Part) : derivePartNonce b p.number ≠ b := by
  have hpos := p.number_pos
  have hlt := p.number_lt
  have hne : derivePartNonce b p.number ≠ derivePartNonce b 0 :=
    derivePartNonce_ne b (by omega)
  rwa [derivePartNonce_zero] at hne

section

variable (hclosed : ∀ key nonce nonce' p, nonce ≠ nonce' →
  S.decrypt key nonce' (S.encrypt key nonce p) = none)
include hclosed

/-- Under another nonce no byte comes out of the beginning of a stream. -/
theorem Encrypts.done_other_nonce {n' : Nonce} (hnonce : nonce ≠ n')
    (hstored : Encrypts S key nonce plaintext s) (hne : plaintext ≠ []) {n : ℕ} {body : Bytes}
    (h : Ends step (start (.new (mk (s.take n)) key n' :
      DecryptReader S Cursor) ss) (.done body)) : body = [] := by
  obtain ⟨blocks, hblocks, rfl, rfl⟩ := hstored.exists_blocks
  cases blocks with
  | nil => exact absurd rfl hne
  | cons b blocks =>
    have hb := hblocks b (by simp)
    rw [Suite.stream_cons] at h
    by_cases hcut : n < (S.block key nonce b).length
    · have hresult := (ends_first_block hb hcut ss 0 []).unique h
      split at hresult
      · cases hresult
        rfl
      · cases hresult
    · rw [take_append, take_of_length_le (Nat.le_of_not_lt hcut)] at h
      have hfails := ends_other_nonce hb (hclosed key _ n' b hnonce)
        ((S.stream key nonce blocks).take (n - (S.block key nonce b).length)) ss
      cases hfails.unique h

/-- The whole object is one stream, and opened with the nonce of the upload. -/
theorem reads_single_iff {key : Key} {base : Nonce} (ss : ℕ → ℕ)
    (hp : Encrypts S key (derivePartNonce base p.number) p.plaintext p.stored) :
    Ends step (start (.new (mk p.stored) key base : DecryptReader S Cursor)
      ss) (.done p.plaintext) ↔ p.plaintext = [] := by
  constructor
  · intro h
    by_contra hne
    rw [← take_length (l := p.stored)] at h
    exact hne (hp.done_other_nonce hclosed (derivePartNonce_number_ne base p) hne h)
  · intro hempty
    obtain ⟨blocks, hblocks, hflat, hstored⟩ := hp.exists_blocks
    cases blocks with
    | nil =>
      have hnone : Reading.Readable S key base [] := by simp [Reading.Readable]
      rw [hstored, hempty]
      exact ends_cursor hnone ss
    | cons b blocks =>
      have hb := hblocks b (by simp)
      rw [hempty, flatten_cons, append_eq_nil_iff] at hflat
      exact absurd hflat.1 hb.1

theorem returns_single_iff [DecidableEq Md5] (hunwraps : Unwraps env source)
    (hcreate : createMetadata env source = some metadata)
    (hp : Uploaded S env bucket object source metadata p) (ss : ℕ → ℕ) :
    Returns S env bucket object source metadata [p] ss p.plaintext ↔ p.plaintext = [] := by
  have hmaterial := sseDecryption_completed bucket object [p] hunwraps hcreate
  have hsingle := reads_single_iff hclosed ss (hp.encrypts hunwraps hcreate)
  have hplain : plaintexts [p] = p.plaintext := append_nil _
  have hstored : storeds [p] = p.stored := append_nil _
  rw [← hsingle]
  constructor
  · rintro ⟨m, size, hm, hreads⟩
    cases hmaterial.symm.trans hm
    rw [reads_single rfl, hstored] at hreads
    exact hreads.1
  · intro hends
    have hempty := hsingle.mp hends
    refine ⟨_, 0, hmaterial, ?_⟩
    rw [reads_single rfl, hstored]
    refine ⟨hends, ?_, by simp [hempty]⟩
    cases source with
    | customer customerKey =>
      cases hcreate
      simp [KeySource.sizeOf, Metadata.getActualSize, completed, applySsecPrepareEncryptionMaterial,
        hplain, hempty]
    | managed dek => simp [KeySource.sizeOf, hplain, hempty]

end

/-- The concatenation of the parts comes back, except for an upload of a single part that is not
empty. -/
theorem multipart_returns_iff [DecidableEq Md5] (hopens : ∀ key nonce p, S.Opens key nonce p)
    (hclosed : ∀ key nonce nonce' p, nonce ≠ nonce' →
      S.decrypt key nonce' (S.encrypt key nonce p) = none)
    (hunwraps : Unwraps env source) (hcreate : createMetadata env source = some metadata)
    (hne : parts ≠ []) (hparts : ∀ p ∈ parts, Uploaded S env bucket object source metadata p)
    (sizes : ℕ → ℕ) :
    Returns S env bucket object source metadata parts sizes (plaintexts parts) ↔
      2 ≤ parts.length ∨ plaintexts parts = [] := by
  by_cases hmany : 2 ≤ parts.length
  · have hmaterial := sseDecryption_completed bucket object parts hunwraps hcreate
    refine iff_of_true ⟨_, (plaintexts parts).length, hmaterial, ?_⟩ (.inl hmany)
    exact (reads_multipart (decide_eq_true hmany)).mpr
      ⟨decryptsParts_uploaded hopens fun p hp => (hparts p hp).encrypts hunwraps hcreate, rfl⟩
  · obtain ⟨p, rfl⟩ : ∃ p, parts = [p] := by
      rw [← length_eq_one_iff]
      have := length_pos_iff.mpr hne
      omega
    have hplain : plaintexts [p] = p.plaintext := append_nil _
    rw [hplain, or_iff_right hmany]
    exact returns_single_iff hclosed hunwraps hcreate (hparts p (by simp)) sizes

end

/-- Twelve bytes of a nonce and four zeros. -/
def nonceTag (n : Nonce) : Bytes :=
  let head := n.head.toNat
  let suffix := n.suffix.toNat
  [UInt8.ofNat head, UInt8.ofNat (head / 256), UInt8.ofNat (head / 65536),
    UInt8.ofNat (head / 16777216), UInt8.ofNat (head / 4294967296),
    UInt8.ofNat (head / 1099511627776), UInt8.ofNat (head / 281474976710656),
    UInt8.ofNat (head / 72057594037927936), UInt8.ofNat suffix, UInt8.ofNat (suffix / 256),
    UInt8.ofNat (suffix / 65536), UInt8.ofNat (suffix / 16777216), 0, 0, 0, 0]

theorem nonceTag_injective {n n' : Nonce} (h : nonceTag n = nonceTag n') : n = n' := by
  have hbyte : ∀ {x y : ℕ}, UInt8.ofNat x = UInt8.ofNat y → x % 256 = y % 256 := by
    intro x y hxy
    simpa only [UInt8.toNat_ofNat'] using congrArg UInt8.toNat hxy
  simp only [nonceTag, List.cons.injEq, and_true] at h
  obtain ⟨h0, h1, h2, h3, h4, h5, h6, h7, s0, s1, s2, s3⟩ := h
  have hhead := n.head.isLt
  have hhead' := n'.head.isLt
  have hsuffix := n.suffix.isLt
  have hsuffix' := n'.suffix.isLt
  have ehead : n.head.toNat = n'.head.toNat := by
    have := hbyte h0; have := hbyte h1; have := hbyte h2; have := hbyte h3
    have := hbyte h4; have := hbyte h5; have := hbyte h6; have := hbyte h7
    omega
  have esuffix : n.suffix.toNat = n'.suffix.toNat := by
    have := hbyte s0; have := hbyte s1; have := hbyte s2; have := hbyte s3
    omega
  exact Nonce.ext (BitVec.eq_of_toNat_eq ehead) (BitVec.eq_of_toNat_eq esuffix)

/-- A cipher whose tag is the nonce. -/
def taggedSuite : Suite Unit where
  encrypt _ nonce plaintext := plaintext ++ nonceTag nonce
  decrypt _ nonce ciphertext :=
    if ciphertext.drop (ciphertext.length - 16) = nonceTag nonce then
      some (ciphertext.take (ciphertext.length - 16))
    else none
  length_encrypt _ _ plaintext := by simp [nonceTag]
  crc32 _ := 0

theorem taggedSuite_decrypt (key : Unit) (n n' : Nonce) (p : Bytes) :
    taggedSuite.decrypt key n' (taggedSuite.encrypt key n p) =
      if nonceTag n = nonceTag n' then some p else none := by
  have hlen : (p ++ nonceTag n).length - 16 = p.length := by simp [nonceTag]
  simp only [taggedSuite, hlen, drop_left, take_left]

theorem taggedSuite_opens (key : Unit) (n : Nonce) (p : Bytes) : taggedSuite.Opens key n p := by
  rw [Aead.Opens, taggedSuite_decrypt, if_pos rfl]

theorem taggedSuite_closed (key : Unit) (n n' : Nonce) (p : Bytes) (h : n ≠ n') :
    taggedSuite.decrypt key n' (taggedSuite.encrypt key n p) = none := by
  rw [taggedSuite_decrypt, if_neg fun htag => h (nonceTag_injective htag)]

def plainEnv : Env Unit Unit Unit := ⟨fun _ => 0, id, some⟩

/-- A data key from a provider that wraps it as it is. -/
def plainDek : KeySource Unit Unit := .managed ⟨(), ⟨0, 0⟩, ()⟩

theorem unwraps_plainEnv (source : KeySource Unit Unit) : Unwraps plainEnv source := fun _ _ => rfl

/-- A part of an upload with the only key there is. -/
def PlainUploaded (p : Part) : Prop :=
  Uploaded taggedSuite plainEnv "bucket" "key" (.customer ()) { customerKeyMd5 := some () } p

/-- What is stored for an upload with a data key. -/
def plainManaged : Metadata Unit Unit where
  encryptionKey := some ()
  encryptionIv := some ⟨0, 0⟩
  encryptionOriginalSize := some 0

def ManagedUploaded (p : Part) : Prop :=
  Uploaded taggedSuite plainEnv "bucket" "key" plainDek plainManaged p

theorem exists_uploaded (n : ℕ) (hpos : 1 ≤ n) (hlt : n < 2147483648) (plaintext : Bytes) :
    (∃ p : Part, p.number = n ∧ p.plaintext = plaintext ∧ PlainUploaded p) ∧
      ∃ p : Part, p.number = n ∧ p.plaintext = plaintext ∧ ManagedUploaded p := by
  obtain ⟨blocks, _, _, hdelivers⟩ := EncryptReader.delivers_stream (S := taggedSuite)
    (delivers plaintext) () (derivePartNonce ⟨0, 0⟩ n)
  have hmanaged : partMaterial plainEnv "bucket" "key" plainDek plainManaged ⟨(), ⟨0, 0⟩, ()⟩
      plaintext.length n = some ⟨(), derivePartNonce ⟨0, 0⟩ n, _⟩ := if_pos hpos
  constructor
  · exact ⟨⟨n, plaintext, _, hpos, hlt⟩, rfl, rfl, ⟨(), ⟨0, 0⟩, ()⟩, _, rfl, Cursor, _, _,
      delivers plaintext, hdelivers⟩
  · exact ⟨⟨n, plaintext, _, hpos, hlt⟩, rfl, rfl, ⟨(), ⟨0, 0⟩, ()⟩, _, hmanaged, Cursor, _, _,
      delivers plaintext, hdelivers⟩

theorem mem_two {P : Part → Prop} {p q : Part} (hp : P p) (hq : P q) : ∀ part ∈ [p, q], P part := by
  intro part hpart
  rcases mem_pair.mp hpart with rfl | rfl
  · exact hp
  · exact hq

/-- Uploads of two parts, with a customer's key and with one of the provider. -/
theorem two_parts_return :
    (∃ parts : List Part, plaintexts parts = [1, 2] ∧ (∀ p ∈ parts, PlainUploaded p) ∧
      Returns taggedSuite plainEnv "bucket" "key" (.customer ()) { customerKeyMd5 := some () } parts
        (fun _ => 0) [1, 2]) ∧
    ∃ parts : List Part, plaintexts parts = [1, 2] ∧ (∀ p ∈ parts, ManagedUploaded p) ∧
      Returns taggedSuite plainEnv "bucket" "key" plainDek plainManaged parts (fun _ => 0) [1, 2] := by
  obtain ⟨⟨p, _, hp, hup⟩, p', _, hp', hup'⟩ := exists_uploaded 1 (by decide) (by decide) [1]
  obtain ⟨⟨q, _, hq, huq⟩, q', _, hq', huq'⟩ := exists_uploaded 3 (by decide) (by decide) [2]
  have hplain : plaintexts [p, q] = [1, 2] := by simp [plaintexts, hp, hq]
  have hplain' : plaintexts [p', q'] = [1, 2] := by simp [plaintexts, hp', hq']
  refine ⟨⟨[p, q], hplain, mem_two hup huq, ?_⟩, [p', q'], hplain', mem_two hup' huq', ?_⟩
  · rw [← hplain]
    exact (multipart_returns_iff taggedSuite_opens taggedSuite_closed (unwraps_plainEnv _) rfl
      (by simp) (mem_two hup huq) _).mpr (.inl (by simp))
  · rw [← hplain']
    exact (multipart_returns_iff taggedSuite_opens taggedSuite_closed (unwraps_plainEnv _) rfl
      (by simp) (mem_two hup' huq') _).mpr (.inl (by simp))

/-- A single part that is not empty does not come back. -/
theorem one_part_does_not_return : ∃ p : Part, p.number = 1 ∧ p.plaintext = [1] ∧
    PlainUploaded p ∧ ¬ Returns taggedSuite plainEnv "bucket" "key" (.customer ())
      { customerKeyMd5 := some () } [p] (fun _ => 0) [1] := by
  obtain ⟨⟨p, hnumber, hp, hup⟩, -⟩ := exists_uploaded 1 (by decide) (by decide) [1]
  refine ⟨p, hnumber, hp, hup, ?_⟩
  have hiff := returns_single_iff taggedSuite_closed (unwraps_plainEnv _) rfl hup fun _ => 0
  rw [hp] at hiff
  exact fun h => absurd (hiff.mp h) (by simp)

end Rustfs.Sse
