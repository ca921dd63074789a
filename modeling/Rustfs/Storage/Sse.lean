import Rustfs.Rio.Memory

/-! Keys and nonces of server-side encryption, the metadata an encrypted object is stored with, and
how it is read. -/
namespace Rustfs.Sse

open Rio Machine

variable {Key Blob Md5 : Type}

/-- What the storage layer calls: the digests, and the provider of data keys. -/
structure Env (Key Blob Md5 : Type) where
  md5 : String → BitVec 128
  keyMd5 : Key → Md5
  decryptSseDek : Blob → Option Key

/-- The first twelve bytes of the digest of bucket and key. -/
def generateSsecNonce (env : Env Key Blob Md5) (bucket key : String) : Nonce :=
  let digest := env.md5 (bucket ++ "-" ++ key)
  ⟨digest.extractLsb' 64 64, digest.extractLsb' 32 32⟩

/-- A data key that the provider handed out, with the nonce and the wrapped key. -/
structure Dek (Key Blob : Type) where
  key : Key
  nonce : Nonce
  blob : Blob

/-- The headers about encryption in an object's metadata, and the size of a compressed object before
that, which stands there too or is summed over the parts. -/
structure Metadata (Blob Md5 : Type) where
  customerKeyMd5 : Option Md5 := none
  customerOriginalSize : Option ℤ := none
  encryptionKey : Option Blob := none
  encryptionIv : Option Nonce := none
  encryptionOriginalSize : Option ℤ := none
  compression : Option ℤ := none

structure EncryptionMaterial (Key Blob Md5 : Type) where
  key : Key
  nonce : Nonce
  metadata : Metadata Blob Md5

/-- Where the key comes from: the customer, or the provider. -/
inductive KeySource (Key Blob : Type) where
  | customer (key : Key)
  | managed (dek : Dek Key Blob)

section

variable (env : Env Key Blob Md5)

def applySsecPrepareEncryptionMaterial (customerKey : Key) : Metadata Blob Md5 :=
  { customerKeyMd5 := some (env.keyMd5 customerKey) }

variable (bucket key : String)

def applySsecEncryptionMaterial (customerKey : Key) (contentSize : ℤ)
    (partNumber : Option ℕ) : EncryptionMaterial Key Blob Md5 :=
  let base := generateSsecNonce env bucket key
  { key := customerKey
    nonce := partNumber.elim base (derivePartNonce base)
    metadata := { customerKeyMd5 := some (env.keyMd5 customerKey)
                  customerOriginalSize := some contentSize } }

/-- `dek` is what the provider hands out if it is asked for a new data key. -/
def applyManagedEncryptionMaterial (dek : Dek Key Blob) (contentSize : ℤ) (partNumber : Option ℕ)
    (partKey : Option Blob) (partNonce : Option Nonce) :
    Option (EncryptionMaterial Key Blob Md5) :=
  let material (key : Key) (nonce : Nonce) (blob : Blob) : EncryptionMaterial Key Blob Md5 :=
    { key, nonce
      metadata := { encryptionKey := some blob
                    encryptionIv := some nonce
                    encryptionOriginalSize := some (max contentSize 0) } }
  match partNumber, partNonce, partKey with
  | some number, some base, some blob =>
    if 1 ≤ number then
      (env.decryptSseDek blob).map fun key => material key (derivePartNonce base number) blob
    else some (material dek.key dek.nonce dek.blob)
  | _, _, _ => some (material dek.key dek.nonce dek.blob)

variable (source : KeySource Key Blob)

/-- The material a whole object is put with. -/
def putMaterial (contentSize : ℤ) : Option (EncryptionMaterial Key Blob Md5) :=
  match source with
  | .customer customerKey => some (applySsecEncryptionMaterial env bucket key customerKey contentSize none)
  | .managed dek => applyManagedEncryptionMaterial env dek contentSize none none none

/-- What `create_multipart_upload` stores. -/
def createMetadata : Option (Metadata Blob Md5) :=
  match source with
  | .customer customerKey => some (applySsecPrepareEncryptionMaterial env customerKey)
  | .managed dek => (applyManagedEncryptionMaterial env dek 0 none none none).map (·.metadata)

/-- The material one part is uploaded with; `fresh` is a data key the provider hands out when it is
asked once more. -/
def partMaterial (metadata : Metadata Blob Md5)
    (fresh : Dek Key Blob) (contentSize : ℤ) (number : ℕ) :
    Option (EncryptionMaterial Key Blob Md5) :=
  match source with
  | .customer customerKey =>
    some (applySsecEncryptionMaterial env bucket key customerKey contentSize (some number))
  | .managed _ => applyManagedEncryptionMaterial env fresh contentSize (some number)
      metadata.encryptionKey metadata.encryptionIv

end

section

/-- A part of a stored object. -/
structure PartInfo where
  number : ℕ
  size : ℕ

inductive SseError where
  | noCustomerKey
  | keyMd5Mismatch
  | missingIv
  | decryptDataKey

structure DecryptionMaterial (Key : Type) where
  key : Key
  nonce : Nonce
  originalSize : Option ℤ
  isMultipart : Bool
  parts : List PartInfo

/-- `sse_decryption`; an object has one part or more, and more than one only after a multipart
upload. -/
def sseDecryption [DecidableEq Md5] (env : Env Key Blob Md5) (bucket key : String)
    (metadata : Metadata Blob Md5) (customerKey : Option Key) (parts : List PartInfo) :
    Except SseError (Option (DecryptionMaterial Key)) :=
  match metadata.customerKeyMd5, customerKey with
  | some _, none => .error .noCustomerKey
  | some stored, some provided =>
    if env.keyMd5 provided ≠ stored then .error .keyMd5Mismatch
    else .ok (some ⟨provided, generateSsecNonce env bucket key, metadata.customerOriginalSize,
      1 < parts.length, parts⟩)
  | none, _ =>
    match metadata.encryptionKey, metadata.encryptionIv with
    | none, _ => .ok none
    | some _, none => .error .missingIv
    | some blob, some iv =>
      match env.decryptSseDek blob with
      | none => .error .decryptDataKey
      | some dek => .ok (some ⟨dek, iv, metadata.encryptionOriginalSize, 1 < parts.length, parts⟩)

/-- `get_actual_size` of an object that is stored in `size` bytes. -/
def Metadata.getActualSize (metadata : Metadata Blob Md5) (size : ℤ) : ℤ :=
  match metadata.compression with
  | some actualSize => actualSize
  | none => metadata.encryptionOriginalSize.getD size

/-- `decrypt_multipart_managed_stream` gives this plaintext: each part is read in full and decrypted
with a nonce of its own. An error leaves it without a plaintext. -/
inductive DecryptsParts (S : Suite Key) (key : Key) (baseNonce : Nonce) (sizes : ℕ → ℕ) :
    List PartInfo → Bytes → Bytes → Prop where
  | nil {stored : Bytes} : DecryptsParts S key baseNonce sizes [] stored []
  | skip {p : PartInfo} {parts : List PartInfo} {stored plaintext : Bytes} (hsize : p.size = 0)
      (hrest : DecryptsParts S key baseNonce sizes parts stored plaintext) :
      DecryptsParts S key baseNonce sizes (p :: parts) stored plaintext
  | segment {p : PartInfo} {parts : List PartInfo} {stored segment plaintext : Bytes}
      (hsize : p.size ≠ 0) (hexact : p.size ≤ stored.length)
      (hsegment : Ends Reading.step (Reading.start (.new (Cursor.mk (stored.take p.size)) key
        (derivePartNonce baseNonce p.number) : DecryptReader S Cursor) sizes) (.done segment))
      (hrest : DecryptsParts S key baseNonce sizes parts (stored.drop p.size) plaintext) :
      DecryptsParts S key baseNonce sizes (p :: parts) stored (segment ++ plaintext)

/-- `wrap_reader` gives this plaintext and this size. A stream that is longer than its size fails. -/
def DecryptionMaterial.Reads (S : Suite Key) (m : DecryptionMaterial Key) (sizes : ℕ → ℕ)
    (stored : Bytes) (actualSize : ℤ) (plaintext : Bytes) (size : ℤ) : Prop :=
  if m.isMultipart then
    DecryptsParts S m.key m.nonce sizes m.parts stored plaintext ∧ size = plaintext.length
  else
    Ends Reading.step (Reading.start (.new (Cursor.mk stored) m.key m.nonce :
      DecryptReader S Cursor) sizes) (.done plaintext) ∧
      size = m.originalSize.getD actualSize ∧ plaintext.length ≤ size

variable {S : Suite Key} {m : DecryptionMaterial Key} {sizes : ℕ → ℕ} {s p : Bytes}
  {a size : ℤ}

theorem DecryptionMaterial.reads_multipart (h : m.isMultipart = true) :
    m.Reads S sizes s a p size ↔
      DecryptsParts S m.key m.nonce sizes m.parts s p ∧ size = p.length := by
  rw [Reads, if_pos h]

theorem DecryptionMaterial.reads_single (h : m.isMultipart = false) :
    m.Reads S sizes s a p size ↔
      Ends Reading.step (Reading.start (.new (Cursor.mk s) m.key m.nonce :
        DecryptReader S Cursor) sizes) (.done p) ∧
        size = m.originalSize.getD a ∧ p.length ≤ size := by
  rw [Reads, if_neg (by simp [h])]

end
end Rustfs.Sse
