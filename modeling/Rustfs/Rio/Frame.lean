import Rustfs.Lib.AsyncRead

/-! The block format of encrypted streams: a header of eight bytes, the length of the plaintext as a
varint, and the ciphertext; a header of its own kind at the end. -/
namespace Rustfs.Rio

open List UInt8

/-- Twelve bytes, the last four of them read as a big-endian number. -/
@[ext] structure Nonce where
  head : BitVec 64
  suffix : BitVec 32
  deriving DecidableEq

variable (base : Nonce)

/-- The sum wraps around. -/
def derivePartNonce (partNumber : ℕ) : Nonce :=
  { base with suffix := base.suffix + BitVec.ofNat 32 partNumber }

theorem derivePartNonce_ne {n n' : ℕ} (h : n % 4294967296 ≠ n' % 4294967296) :
    derivePartNonce base n ≠ derivePartNonce base n' := by
  intro heq
  have hsuffix := congrArg (fun nonce => nonce.suffix.toNat) heq
  simp only [derivePartNonce, BitVec.toNat_add, BitVec.toNat_ofNat] at hsuffix
  omega

theorem derivePartNonce_eq_iff {base' : Nonce} {n n' : ℕ} :
    derivePartNonce base n = derivePartNonce base' n' ↔ base.head = base'.head ∧
      base.suffix + BitVec.ofNat 32 n = base'.suffix + BitVec.ofNat 32 n' := by
  simp [derivePartNonce, Nonce.ext_iff]

theorem derivePartNonce_zero : derivePartNonce base 0 = base := by
  simp [derivePartNonce]

/-- An authenticated cipher with tags of sixteen bytes. -/
structure Aead (Key : Type) where
  encrypt : Key → Nonce → Bytes → Bytes
  decrypt : Key → Nonce → Bytes → Option Bytes
  length_encrypt : ∀ key nonce plaintext,
    (encrypt key nonce plaintext).length = plaintext.length + 16

/-- What was sealed opens again. -/
def Aead.Opens {Key : Type} (A : Aead Key) (key : Key) (nonce : Nonce) (plaintext : Bytes) : Prop :=
  A.decrypt key nonce (A.encrypt key nonce plaintext) = some plaintext

/-- `put_uvarint` for a `u64`, which takes at most nine bytes with the high bit set. -/
def putUvarint : ℕ → ℕ → Bytes
  | 0, x => [UInt8.ofNat x]
  | more + 1, x =>
    if 128 ≤ x then UInt8.ofNat (x % 128 + 128) :: putUvarint more (x / 128)
    else [UInt8.ofNat x]

/-- The loop of `uvarint` at index `i`; `scale` is `2 ^ (7 * i)`. -/
def uvarintLoop (i scale x : ℕ) : Bytes → ℕ × ℤ
  | [] => (0, 0)
  | b :: rest =>
    if i = 10 then (0, -(i + 1))
    else if b.toNat < 128 then
      if i = 9 ∧ 1 < b.toNat then (0, -(i + 1)) else (x + scale * b.toNat, i + 1)
    else uvarintLoop (i + 1) (scale * 128) (x + scale * (b.toNat % 128)) rest

def uvarint (buf : Bytes) : ℕ × ℤ := uvarintLoop 0 1 0 buf

theorem uvarint_putUvarint {x : ℕ} (hx : x < 16384) (r : Bytes) :
    uvarint (putUvarint 9 x ++ r) = (x, ((putUvarint 9 x).length : ℤ)) := by
  unfold putUvarint
  split
  · rename_i hbig
    have hfirst : (UInt8.ofNat (x % 128 + 128)).toNat = x % 128 + 128 := by
      rw [toNat_ofNat']
      omega
    have hsecond : (UInt8.ofNat (x / 128)).toNat = x / 128 := by
      rw [toNat_ofNat']
      omega
    unfold putUvarint
    rw [if_neg (by omega)]
    simp only [uvarint, cons_append, nil_append, uvarintLoop, hfirst, hsecond]
    rw [if_neg (by omega), if_neg (by omega), if_neg (by omega), if_pos (by omega),
      if_neg (by omega)]
    simp only [Prod.mk.injEq]
    exact ⟨by omega, rfl⟩
  · rename_i hsmall
    have hbyte : (UInt8.ofNat x).toNat = x := by
      rw [toNat_ofNat']
      omega
    simp only [uvarint, cons_append, nil_append, uvarintLoop, hbyte]
    rw [if_neg (by omega), if_pos (by omega), if_neg (by omega)]
    simp

theorem length_putUvarint_le {x : ℕ} (hx : x < 16384) : (putUvarint 9 x).length ≤ 2 := by
  unfold putUvarint
  split
  · unfold putUvarint
    rw [if_neg (by omega)]
    simp
  · simp

/-- The first two or three bytes of a number, the lowest first. -/
def leByte (x i : ℕ) : UInt8 :=
  match i with
  | 0 => UInt8.ofNat x
  | 1 => UInt8.ofNat (x / 256)
  | 2 => UInt8.ofNat (x / 65536)
  | _ => UInt8.ofNat (x / 16777216)

variable (typ : UInt8) (len : ℕ) (crc : BitVec 32)

/-- A header: the type, the length in three bytes and the checksum in four. -/
def header : Bytes :=
  [typ, leByte len 0, leByte len 1, leByte len 2,
    leByte crc.toNat 0, leByte crc.toNat 1, leByte crc.toNat 2, leByte crc.toNat 3]

def endHeader : Bytes := [255, 0, 0, 0, 0, 0, 0, 0]

def headerTyp (h : Bytes) : UInt8 := h.getD 0 0

def headerLen (h : Bytes) : ℕ :=
  (h.getD 1 0).toNat + (h.getD 2 0).toNat * 256 + (h.getD 3 0).toNat * 65536

def headerCrc (h : Bytes) : BitVec 32 :=
  BitVec.ofNat 32 ((h.getD 4 0).toNat + (h.getD 5 0).toNat * 256 + (h.getD 6 0).toNat * 65536 +
    (h.getD 7 0).toNat * 16777216)

@[simp] theorem length_header : (header typ len crc).length = 8 := rfl

@[simp] theorem headerTyp_header : headerTyp (header typ len crc) = typ := rfl

theorem headerLen_header {len : ℕ} (hlen : len < 16777216) (typ : UInt8) (crc : BitVec 32) :
    headerLen (header typ len crc) = len := by
  simp only [headerLen, header, leByte, getD_cons_succ, getD_cons_zero, toNat_ofNat']
  omega

theorem headerCrc_header : headerCrc (header typ len crc) = crc := by
  have hcrc := crc.isLt
  apply BitVec.eq_of_toNat_eq
  simp only [headerCrc, header, leByte, getD_cons_succ, getD_cons_zero,
    toNat_ofNat', BitVec.toNat_ofNat]
  omega

/-- A cipher and a checksum; the checksum is that of another crate. -/
structure Suite (Key : Type) extends Aead Key where
  crc32 : Bytes → BitVec 32

variable {Key : Type}

namespace Suite

variable (S : Suite Key)

/-- What follows the header of a block. -/
def payload (key : Key) (nonce : Nonce) (plaintext : Bytes) : Bytes :=
  putUvarint 9 plaintext.length ++ S.encrypt key nonce plaintext

/-- One encrypted block. The length in the header counts four bytes more than follow. -/
def block (key : Key) (nonce : Nonce) (plaintext : Bytes) : Bytes :=
  header 0 ((S.payload key nonce plaintext).length + 4) (S.crc32 plaintext) ++
    S.payload key nonce plaintext

/-- What is written for a stream whose plaintext is read in these blocks. -/
def stream (key : Key) (nonce : Nonce) (blocks : List Bytes) : Bytes :=
  (blocks.map (S.block key nonce)).flatten ++ endHeader

variable {S} {key : Key} {n : Nonce} {p : Bytes} {blocks : List Bytes}

theorem stream_cons (b : Bytes) (bs : List Bytes) :
    S.stream key n (b :: bs) = S.block key n b ++ S.stream key n bs := by
  simp [stream]

theorem length_payload : (S.payload key n p).length =
    (putUvarint 9 p.length).length + (p.length + 16) := by
  rw [payload, length_append, S.length_encrypt]

theorem sixteen_le_payload : 16 ≤ (S.payload key n p).length := by
  rw [length_payload]
  omega

/-- A stream is longer than its plaintext, by the end marker at least. -/
theorem flatten_le_stream (key : Key) (n : Nonce) (bs : List Bytes) :
    bs.flatten.length + 8 ≤ (S.stream key n bs).length := by
  induction bs with
  | nil => exact Nat.le_refl _
  | cons b bs ih =>
    have hpayload : (S.payload key n b).length = _ := length_payload
    rw [stream_cons, flatten_cons, length_append, length_append, block, length_append]
    omega

theorem block_ne_nil : S.block key n p ≠ [] := by
  simp [block, header]

end Suite

/-- A block of plaintext as the reader makes them: not empty, and at most eight kibibytes. -/
def IsBlock (b : Bytes) : Prop := b ≠ [] ∧ b.length ≤ 8192

end Rustfs.Rio
