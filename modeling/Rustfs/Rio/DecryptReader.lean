import Rustfs.Lib.Run
import Rustfs.Rio.EncryptReader

/-! The reader that decrypts such a stream, and a consumer that reads it to the end. -/
namespace Rustfs.Rio

open Machine

variable {Key R : Type}

inductive ReadError where
  | inner
  | invalidEncryptedBlockLength
  | decryptError
  | plaintextLengthMismatch
  | crc32Mismatch
  deriving DecidableEq

/-- `DecryptReader`. `buffer` is the plaintext not served yet, `headerBuf` the part of a header
read so far, and `ciphertextBuf` the part of a payload read so far with the length of the whole. -/
structure DecryptReader (S : Suite Key) (R : Type) where
  inner : R
  key : Key
  baseNonce : Nonce
  currentNonce : Nonce
  multipartMode : Bool
  currentPart : ℕ
  buffer : Bytes
  finished : Bool
  headerBuf : Bytes
  ciphertextBuf : Option (Bytes × ℕ)

/-- Where a call of `poll_read` is: at the top of its loop, or reading the payload after a header
with this checksum. -/
inductive Position where
  | top
  | payload (crc : BitVec 32)
  deriving DecidableEq

/-- What one turn of the loop ends with. `asleep` is `Poll::Pending` where the inner reader was not
pending: it has not been told whom to wake. -/
inductive Turn (S : Suite Key) (R : Type) where
  | again (position : Position) (d : DecryptReader S R)
  | pending (d : DecryptReader S R)
  | asleep
  | ready (bytes : Bytes) (d : DecryptReader S R)
  | failed (e : ReadError)
  | panicked

namespace DecryptReader

variable {S : Suite Key}

def new (inner : R) (key : Key) (nonce : Nonce) : DecryptReader S R :=
  ⟨inner, key, nonce, nonce, false, 0, [], false, [], none⟩

def newMultipart (inner : R) (key : Key) (baseNonce : Nonce) : DecryptReader S R :=
  ⟨inner, key, baseNonce, derivePartNonce baseNonce 1, true, 1, [], false, [], none⟩

/-- What follows when a header is complete. -/
def headerTurn (d : DecryptReader S R) (h : Bytes) : Turn S R :=
  if headerTyp h = 255 then
    if d.multipartMode then
      .again .top { d with
        currentPart := d.currentPart + 1
        currentNonce := derivePartNonce d.baseNonce (d.currentPart + 1)
        headerBuf := [], ciphertextBuf := none }
    else .again .top { d with finished := true, headerBuf := [], ciphertextBuf := none }
  else if headerLen h = 0 then
    .again .top { d with finished := true, headerBuf := [], ciphertextBuf := none }
  else if headerLen h < 4 then .failed .invalidEncryptedBlockLength
  else
    -- a buffer left by an earlier poll is kept, and this header's length not used
    .again (.payload (headerCrc h))
      { d with headerBuf := [], ciphertextBuf := some (d.ciphertextBuf.getD ([], headerLen h - 4)) }

/-- What becomes of an opened ciphertext: its length and its checksum are compared. -/
def opened (d : DecryptReader S R) (crc : BitVec 32) (plaintextLen size : ℕ) :
    Option Bytes → Turn S R
  | none => .failed .decryptError
  | some plaintext =>
    if plaintext.length ≠ plaintextLen then .failed .plaintextLengthMismatch
    else if S.crc32 plaintext ≠ crc then .failed .crc32Mismatch
    else .ready (plaintext.take size) { d with buffer := plaintext.drop size, ciphertextBuf := none }

/-- What follows when a payload is complete. -/
def openTurn (d : DecryptReader S R) (crc : BitVec 32) (payload : Bytes) (size : ℕ) : Turn S R :=
  if payload.length < 16 then .panicked
  else if (uvarint (payload.take 16)).2 < 0 then .panicked
  else d.opened crc (uvarint (payload.take 16)).1 size
    (S.decrypt d.key d.currentNonce (payload.drop (uvarint (payload.take 16)).2.toNat))

/-- What becomes of one read of the inner reader at the top of the loop. -/
def headerRead (d : DecryptReader S R) : Poll × R → Turn S R
  | (.pending, inner) => .pending { d with inner }
  | (.error, _) => .failed .inner
  | (.ready b, inner) =>
    if b = [] then .ready [] { d with inner, finished := true }
    else if d.headerBuf.length + b.length < 8 then .asleep
    else headerTurn { d with inner } (d.headerBuf ++ b)

/-- What becomes of one read of the inner reader inside a payload. -/
def payloadRead (d : DecryptReader S R) (crc : BitVec 32) (got : Bytes) (total : ℕ) :
    Poll × R → Turn S R
  | (.pending, inner) => .pending { d with inner }
  | (.error, _) => .failed .inner
  | (.ready b, inner) =>
    if b = [] then .asleep
    else .again (.payload crc) { d with inner, ciphertextBuf := some (got ++ b, total) }

variable [AsyncRead R]

/-- One turn of the loop of `poll_read`, with at most one read of the inner reader. -/
def turn (d : DecryptReader S R) (position : Position) (size : ℕ) : Turn S R :=
  match position with
  | .top =>
    if d.buffer ≠ [] then .ready (d.buffer.take size) { d with buffer := d.buffer.drop size }
    else if d.finished then .ready [] d
    else d.headerRead (AsyncRead.pollRead d.inner (8 - d.headerBuf.length))
  | .payload crc =>
    match d.ciphertextBuf with
    | none => .panicked
    | some (got, total) =>
      if got.length < total then
        d.payloadRead crc got total (AsyncRead.pollRead d.inner (total - got.length))
      else d.openTurn crc got size

end DecryptReader

/-- How reading to the end ends. A consumer that is told `Poll::Pending` waits to be woken. -/
inductive Outcome where
  | done (plaintext : Bytes)
  | failed (e : ReadError)
  | hung
  | panicked
  deriving DecidableEq

/-- A consumer that polls again and again, each time with room for at least one byte, until it is
given no bytes. -/
structure Reading (S : Suite Key) (R : Type) where
  position : Position
  reader : DecryptReader S R
  sizes : ℕ → ℕ
  polls : ℕ
  out : Bytes

namespace Reading

variable {S : Suite Key}

def start (d : DecryptReader S R) (sizes : ℕ → ℕ) : Reading S R := ⟨.top, d, sizes, 0, []⟩

/-- How the consumer goes on after a turn of the loop. -/
def after (c : Reading S R) : Turn S R → Reading S R ⊕ Outcome
  | .again position reader => .inl { c with position, reader }
  | .pending reader => .inl { c with position := .top, reader, polls := c.polls + 1 }
  | .asleep => .inr .hung
  | .ready bytes reader =>
    if bytes = [] then .inr (.done c.out)
    else .inl { c with position := .top, reader, polls := c.polls + 1, out := c.out ++ bytes }
  | .failed e => .inr (.failed e)
  | .panicked => .inr .panicked

variable [AsyncRead R]

def step (c : Reading S R) : Reading S R ⊕ Outcome :=
  c.after (c.reader.turn c.position (c.sizes c.polls + 1))

end Reading
end Rustfs.Rio
