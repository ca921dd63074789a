import Rustfs.Lib.Crc

/-! Checksums that are combined part by part into the one of the whole object. -/
namespace Rustfs.Rio

open List Nat Crc

/-- The loop over the bits of `vec`; a word is zero after 64 shifts. A row is taken from the iterator
for a bit that is set, and one more is passed over for every bit. -/
def timesLoop : ℕ → List ℕ → ℕ → ℕ → ℕ
  | 0, _, _, sum => sum
  | fuel + 1, rows, vec, sum =>
    if vec = 0 then sum
    else if vec % 2 = 1 then timesLoop fuel (rows.drop 2) (vec / 2) (sum ^^^ rows.headD 0)
    else timesLoop fuel (rows.drop 1) (vec / 2) sum

def gf2MatrixTimes (mat : List ℕ) (vec : ℕ) : ℕ := timesLoop 64 mat vec 0

def gf2MatrixSquare (mat : List ℕ) : List ℕ := mat.map (gf2MatrixTimes mat)

/-- The operator for one zero bit. -/
def oneZeroBit (rows poly : ℕ) : List ℕ := poly :: (List.range (rows - 1)).map fun i => 1 <<< i

/-- The loop over the bits of `len2`, of which an `i64` has fewer than 64. -/
def combineLoop : ℕ → List ℕ → ℕ → ℕ → ℕ
  | 0, _, crc1n, _ => crc1n
  | fuel + 1, odd, crc1n, len2 =>
    let even := gf2MatrixSquare odd
    let crc1n := if len2 % 2 = 1 then gf2MatrixTimes even crc1n else crc1n
    let len2 := len2 / 2
    if len2 = 0 then crc1n
    else
      let odd := gf2MatrixSquare even
      let crc1n := if len2 % 2 = 1 then gf2MatrixTimes odd crc1n else crc1n
      let len2 := len2 / 2
      if len2 = 0 then crc1n else combineLoop fuel odd crc1n len2

/-- What `crc32_combine` and `crc64_combine` do with their number of rows. -/
def crcCombine (rows poly crc1 crc2 : ℕ) (len2 : ℤ) : ℕ :=
  if len2 ≤ 0 then crc1
  else
    let even := gf2MatrixSquare (oneZeroBit rows poly)
    let odd := gf2MatrixSquare even
    combineLoop 32 odd crc1 len2.toNat ^^^ crc2

def crc32Combine (poly crc1 crc2 : BitVec 32) (len2 : ℤ) : BitVec 32 :=
  .ofNat 32 (crcCombine 32 poly.toNat crc1.toNat crc2.toNat len2)

def crc64Combine (poly crc1 crc2 : BitVec 64) (len2 : ℤ) : BitVec 64 :=
  .ofNat 64 (crcCombine 64 poly.toNat crc1.toNat crc2.toNat len2)

/-- The flags of a checksum type. -/
structure ChecksumType where
  flags : BitVec 32
  deriving DecidableEq

namespace ChecksumType

def trailing : ChecksumType := ⟨1#32 <<< 0⟩
def sha256 : ChecksumType := ⟨1#32 <<< 1⟩
def sha1 : ChecksumType := ⟨1#32 <<< 2⟩
def crc32 : ChecksumType := ⟨1#32 <<< 3⟩
def crc32c : ChecksumType := ⟨1#32 <<< 4⟩
def invalid : ChecksumType := ⟨1#32 <<< 5⟩
def crc64Nvme : ChecksumType := ⟨1#32 <<< 8⟩
def none : ChecksumType := ⟨0#32⟩

def baseTypeMask : BitVec 32 :=
  sha256.flags ||| sha1.flags ||| crc32.flags ||| crc32c.flags ||| crc64Nvme.flags

def is (self t : ChecksumType) : Bool :=
  if t = none then self = none else self.flags &&& t.flags = t.flags

variable (self : ChecksumType)

def base : ChecksumType := ⟨self.flags &&& baseTypeMask⟩

def rawByteLen : ℕ :=
  if self.base = crc32 ∨ self.base = crc32c then 4
  else if self.base = sha1 then 20
  else if self.base = sha256 then 32
  else if self.base = crc64Nvme then 8
  else 0

def canMerge : Bool := self.is crc64Nvme || self.is crc32c || self.is crc32

def toString : String :=
  if self.base = crc32 then "CRC32"
  else if self.base = crc32c then "CRC32C"
  else if self.base = sha1 then "SHA1"
  else if self.base = sha256 then "SHA256"
  else if self.base = crc64Nvme then "CRC64NVME"
  else if self.base = none then ""
  else "invalid"

end ChecksumType

/-- The types that can be merged. -/
inductive CrcKind where
  | crc32
  | crc32c
  | crc64Nvme

namespace CrcKind

/-- The number of bytes of a value. -/
def bytes : CrcKind → ℕ
  | .crc32 | .crc32c => 4
  | .crc64Nvme => 8

def flag : CrcKind → ChecksumType
  | .crc32 => .crc32
  | .crc32c => .crc32c
  | .crc64Nvme => .crc64Nvme

/-- The polynomial with its bits reflected. -/
def poly : (k : CrcKind) → BitVec (8 * k.bytes)
  | .crc32 => 0xEDB88320#32
  | .crc32c => 0x82F63B78#32
  | .crc64Nvme => (0xad93d23594c93659#64).reverse

def combine : (k : CrcKind) → BitVec (8 * k.bytes) → BitVec (8 * k.bytes) → ℤ →
    BitVec (8 * k.bytes)
  | .crc32, crc1, crc2, size => crc32Combine (poly .crc32) crc1 crc2 size
  | .crc32c, crc1, crc2, size => crc32Combine (poly .crc32c) crc1 crc2 size
  | .crc64Nvme, crc1, crc2, size => crc64Combine (poly .crc64Nvme) crc1 crc2 size

end CrcKind

structure Checksum where
  checksumType : ChecksumType
  encoded : String := ""
  raw : Bytes := []

inductive AddPartError where
  | message (text : String)
  /-- An index of `raw` out of bounds. -/
  | panicked

namespace Checksum

def valid (self : Checksum) : Bool :=
  if self.checksumType = .invalid then false
  else if self.encoded.isEmpty || self.checksumType.is .trailing then
    self.checksumType.is .none || self.checksumType.is .trailing
  else self.checksumType.rawByteLen = self.raw.length

/-- The value in the first bytes of `raw`. -/
def value (self : Checksum) (k : CrcKind) : Except AddPartError (BitVec (8 * k.bytes)) :=
  if self.raw.length < k.bytes then .error .panicked
  else .ok (.ofNat _ (fromBeBytes (self.raw.take k.bytes)))

/-- The kind that `add_part` combines for a base type. -/
def kindOf (base : ChecksumType) : Option CrcKind :=
  if base = .crc32 then some .crc32
  else if base = .crc32c then some .crc32c
  else if base = .crc64Nvme then some .crc64Nvme
  else none

/-- `encode` is base64. -/
def addPart (encode : Bytes → String) (self other : Checksum) (size : ℤ) :
    Except AddPartError Checksum := do
  if !other.checksumType.canMerge then throw (.message "checksum type cannot be merged")
  if size = 0 then return self
  if !self.checksumType.is other.checksumType.base then
    throw (.message s!"checksum type does not match got {self.checksumType.toString} and {other.checksumType.toString}")
  if self.raw.isEmpty then return { self with raw := other.raw, encoded := other.encoded }
  if !self.valid then throw (.message "invalid base checksum")
  if !other.valid then throw (.message "invalid part checksum")
  match kindOf self.checksumType.base with
  | none => throw (.message s!"unknown checksum type: {self.checksumType.toString}")
  | some k =>
    let crc1 ← self.value k
    let crc2 ← other.value k
    let raw := toBeBytes k.bytes (k.combine crc1 crc2 size).toNat
    return { self with raw, encoded := encode raw }

end Checksum

section

variable {rows mat : List ℕ} {fuel h m sum : ℕ}

theorem timesLoop_nil (f vec sum : ℕ) : timesLoop f [] vec sum = sum := by
  induction f generalizing vec sum with
  | zero => rfl
  | succ f ih =>
    simp only [timesLoop, drop_nil, headD_nil, xor_zero, ih, ite_self]

theorem timesLoop_ones (m : ℕ) : timesLoop (fuel + 1) rows (2 ^ (m + 1) - 1) sum =
    timesLoop fuel (rows.drop 2) (2 ^ m - 1) (sum ^^^ rows.headD 0) := by
  have hpos : 0 < 2 ^ m := Nat.two_pow_pos m
  have hhalf : (2 ^ (m + 1) - 1) / 2 = 2 ^ m - 1 := by omega
  rw [timesLoop, if_neg (by omega), if_pos (by omega), hhalf]

/-- Half as many ones as there are rows use them all up. -/
theorem timesLoop_ones_half (hrows : rows.length ≤ 2 * h) (hm : h ≤ m) :
    timesLoop fuel rows (2 ^ m - 1) sum = timesLoop fuel rows (2 ^ h - 1) sum := by
  induction fuel generalizing rows h m sum with
  | zero => rfl
  | succ fuel ih =>
    cases h with
    | zero =>
      obtain rfl : rows = [] := length_eq_zero_iff.mp (by omega)
      rw [timesLoop_nil, timesLoop_nil]
    | succ h =>
      obtain ⟨m, rfl⟩ : ∃ m', m = m' + 1 := ⟨m - 1, by omega⟩
      rw [timesLoop_ones, timesLoop_ones]
      exact ih (by rw [length_drop]; omega) (by omega)

theorem length_gf2MatrixSquare (mat : List ℕ) : (gf2MatrixSquare mat).length = mat.length :=
  length_map _

/-- Values that no matrix of this size tells apart are combined to the same. -/
theorem combineLoop_congr {s crc crc' len2 : ℕ}
    (hsame : ∀ mat : List ℕ, mat.length = s → gf2MatrixTimes mat crc = gf2MatrixTimes mat crc')
    (hmat : mat.length = s) (hpos : 0 < len2) (hfuel : len2 < 4 ^ fuel) :
    combineLoop fuel mat crc len2 = combineLoop fuel mat crc' len2 := by
  induction fuel generalizing mat len2 with
  | zero => omega
  | succ fuel ih =>
    have heven := (length_gf2MatrixSquare mat).trans hmat
    have hodd := (length_gf2MatrixSquare _).trans heven
    have hquarter : len2 / 2 / 2 < 4 ^ fuel := by
      rw [Nat.div_div_eq_div_mul]
      exact Nat.div_lt_of_lt_mul (by rwa [pow_succ, mul_comm] at hfuel)
    unfold combineLoop
    by_cases h1 : len2 % 2 = 1
    · simp only [if_pos h1, hsame _ heven]
    · have hmore : len2 / 2 ≠ 0 := by omega
      simp only [if_neg h1, if_neg hmore]
      by_cases h2 : len2 / 2 % 2 = 1
      · simp only [if_pos h2, hsame _ hodd]
      · have hmore' : len2 / 2 / 2 ≠ 0 := by omega
        simp only [if_neg h2, if_neg hmore']
        exact ih hodd (by omega) hquarter

/-- All ones and half of them: a matrix with a row for each does not tell them apart. -/
theorem crcCombine_ones (h p crc2 : ℕ) {len2 : ℤ} (hpos : 0 < len2)
    (hlen : len2 < 9223372036854775808) (hh : 0 < h) :
    crcCombine (2 * h) p (2 ^ (2 * h) - 1) crc2 len2 =
      crcCombine (2 * h) p (2 ^ h - 1) crc2 len2 := by
  have hmat : (gf2MatrixSquare (gf2MatrixSquare (oneZeroBit (2 * h) p))).length = 2 * h := by
    rw [length_gf2MatrixSquare, length_gf2MatrixSquare, oneZeroBit, length_cons,
      length_map, length_range]
    omega
  have hfuel : len2.toNat < 4 ^ 32 := by
    have : (4 : ℕ) ^ 32 = 18446744073709551616 := by norm_num
    omega
  have hsame : ∀ mat : List ℕ, mat.length = 2 * h →
      gf2MatrixTimes mat (2 ^ (2 * h) - 1) = gf2MatrixTimes mat (2 ^ h - 1) :=
    fun mat hmat => timesLoop_ones_half (by omega) (by omega)
  unfold crcCombine
  rw [if_neg (by omega), if_neg (by omega)]
  exact congrArg (· ^^^ crc2) (combineLoop_congr hsame hmat (by omega) hfuel)

end

namespace CrcKind

variable {k : CrcKind}

/-- Ones in the lower half. -/
def half (k : CrcKind) : BitVec (8 * k.bytes) := .ofNat _ (2 ^ (4 * k.bytes) - 1)

theorem allOnes_ne_half (k : CrcKind) : BitVec.allOnes (8 * k.bytes) ≠ k.half := by
  cases k <;> exact fun h => absurd (congrArg BitVec.toNat h) (by decide)

theorem combine_zero (crc1 crc2 : BitVec (8 * k.bytes)) : k.combine crc1 crc2 0 = crc1 := by
  have hvalue : ∀ w : ℕ, ∀ v : BitVec w, BitVec.ofNat w v.toNat = v := by
    intro w v
    rw [BitVec.ofNat_toNat, BitVec.setWidth_eq]
  cases k <;> exact hvalue _ _

theorem combine_ones (crc2 : BitVec (8 * k.bytes)) {s : ℤ} (hpos : 0 < s)
    (hsize : s < 9223372036854775808) :
    k.combine (BitVec.allOnes _) crc2 s = k.combine k.half crc2 s := by
  cases k with
  | crc32 | crc32c => exact congrArg (BitVec.ofNat 32) (crcCombine_ones 16 _ _ hpos hsize (by decide))
  | crc64Nvme => exact congrArg (BitVec.ofNat 64) (crcCombine_ones 32 _ _ hpos hsize (by decide))

theorem msb_poly (k : CrcKind) : k.poly.msb = true := by
  cases k <;> decide +kernel

/-- The check value of a byte string. -/
def crc (k : CrcKind) (data : Bytes) : BitVec (8 * k.bytes) := Crc.crc k.poly data

theorem eight_le (k : CrcKind) : 8 ≤ 8 * k.bytes := by
  cases k <;> decide

theorem isRemainder_crc (k : CrcKind) : Crc.IsRemainder k.poly k.crc :=
  (isRemainder_iff k.eight_le k.poly k.crc).mpr fun _ => rfl

-- the check values of the digits from 1 to 9
example : ([.crc32, .crc32c, .crc64Nvme].map fun k : CrcKind =>
    (k.crc [49, 50, 51, 52, 53, 54, 55, 56, 57]).toNat) =
      [0xCBF43926, 0xE3069283, 0xAE8B14860A799888] := by decide +kernel

theorem exists_crc {n : ℕ} (hn : k.bytes ≤ n) (v : BitVec (8 * k.bytes)) :
    ∃ data : Bytes, data.length = n ∧ k.crc data = v := by
  let zeros : Bytes := List.replicate (n - k.bytes) 0
  obtain ⟨bytes, hlength, hfeed⟩ := exists_feed rfl k.msb_poly
    (feed k.poly (BitVec.allOnes _) zeros) (v ^^^ BitVec.allOnes _)
  refine ⟨zeros ++ bytes, ?_, ?_⟩
  · rw [length_append, hlength, length_replicate]
    omega
  · rw [crc, Crc.crc, Crc.feed_append, hfeed, BitVec.xor_assoc, BitVec.xor_self, BitVec.xor_zero]

/-- Different values stay different, whatever is appended. -/
theorem crc_append_injective {d data' r : Bytes}
    (h : k.crc (d ++ r) = k.crc (data' ++ r)) : k.crc d = k.crc data' := by
  unfold crc at h
  rw [crc_append, crc_append, BitVec.xor_left_inj] at h
  exact (shift_injective k.msb_poly).iterate _ h

/-- Appending bytes to some string is not what combining does. -/
theorem exists_combine_ne {d : Bytes} (hne : d ≠ []) (hsize : d.length < 9223372036854775808) :
    ∃ first : Bytes, k.combine (k.crc first) (k.crc d) d.length ≠ k.crc (first ++ d) := by
  by_contra hall
  push Not at hall
  obtain ⟨ones, _, hones⟩ := k.exists_crc (le_refl _) (BitVec.allOnes _)
  obtain ⟨halves, _, hhalves⟩ := k.exists_crc (le_refl _) k.half
  have hpos := length_pos_iff.mpr hne
  have hsame : k.combine (BitVec.allOnes _) (k.crc d) d.length = _ :=
    k.combine_ones (k.crc d) (by omega) (by omega)
  rw [← hones, ← hhalves, hall ones, hall halves] at hsame
  have hequal := crc_append_injective hsame
  rw [hones, hhalves] at hequal
  exact k.allOnes_ne_half hequal

end CrcKind

section

variable {k : CrcKind} {t : ChecksumType} {encode : Bytes → String}

namespace Checksum

/-- The checksum with this value, as a hasher gives it. -/
def ofValue (encode : Bytes → String) (t : ChecksumType) (k : CrcKind) (v : BitVec (8 * k.bytes)) :
    Checksum :=
  { checksumType := t
    encoded := encode (toBeBytes k.bytes v.toNat)
    raw := toBeBytes k.bytes v.toNat }

/-- The parts are added one after another. -/
def addParts (encode : Bytes → String) (self : Checksum)
    (crc : (k : CrcKind) → Bytes → BitVec (8 * k.bytes)) (t : ChecksumType) (k : CrcKind) :
    List Bytes → Except AddPartError Checksum :=
  List.foldlM (fun c part => c.addPart encode (ofValue encode t k (crc k part)) part.length) self

/-- Adding the parts gives the checksum of all of them together. -/
def AddsUp (encode : Bytes → String) (crc : (k : CrcKind) → Bytes → BitVec (8 * k.bytes))
    (t : ChecksumType) (k : CrcKind) (parts : List Bytes) : Prop :=
  addParts encode { checksumType := t } crc t k parts =
    .ok (ofValue encode t k (crc k parts.flatten))

theorem value_ofValue (v : BitVec (8 * k.bytes)) : (ofValue encode t k v).value k = .ok v := by
  have hlength : (ofValue encode t k v).raw.length = k.bytes := length_toBeBytes _ _
  have hpow : 256 ^ k.bytes = 2 ^ (8 * k.bytes) := by
    rw [pow_mul]
    rfl
  rw [value, if_neg (by omega), take_of_length_le (by omega)]
  congr 1
  refine BitVec.eq_of_toNat_eq ?_
  rw [BitVec.toNat_ofNat, ofValue, fromBeBytes_toBeBytes, hpow, mod_mod, mod_eq_of_lt v.isLt]

theorem toBeBytes_ne_nil (v : BitVec (8 * k.bytes)) : toBeBytes k.bytes v.toNat ≠ [] := by
  refine ne_nil_of_length_pos ?_
  rw [length_toBeBytes]
  cases k <;> decide

theorem ofValue_injective {v u : BitVec (8 * k.bytes)}
    (h : ofValue encode t k v = ofValue encode t k u) : v = u := by
  have hvalue : (ofValue encode t k v).value k = .ok v := value_ofValue v
  rw [h, value_ofValue] at hvalue
  cases hvalue
  rfl

/-- The values are combined one after another. -/
def combineParts (k : CrcKind) (v : BitVec (8 * k.bytes)) (parts : List Bytes) : BitVec (8 * k.bytes) :=
  parts.foldl (fun v part => k.combine v (k.crc part) part.length) v

theorem combineParts_empty {ps : List Bytes} (hempty : ∀ part ∈ ps, part = [])
    (v : BitVec (8 * k.bytes)) : combineParts k v ps = v := by
  induction ps with
  | nil => rfl
  | cons part ps ih =>
    obtain rfl := hempty part (by simp)
    rw [combineParts, foldl_cons, length_nil, cast_zero, CrcKind.combine_zero]
    exact ih fun part hpart => hempty part (by simp [hpart])

/-- One part that is not empty is enough to lose the difference. -/
theorem combineParts_ones {ps : List Bytes} (hne : ∃ part ∈ ps, part ≠ [])
    (hsize : ∀ part ∈ ps, part.length < 9223372036854775808) :
    combineParts k (BitVec.allOnes _) ps = combineParts k k.half ps := by
  induction ps with
  | nil => simp at hne
  | cons part ps ih =>
    have hlt := hsize part (by simp)
    rw [combineParts, combineParts, foldl_cons, foldl_cons]
    by_cases hzero : part = []
    · subst hzero
      rw [length_nil, cast_zero, CrcKind.combine_zero, CrcKind.combine_zero]
      exact ih (by simpa using hne) fun part hpart => hsize part (by simp [hpart])
    · have hpos := length_pos_iff.mpr hzero
      rw [CrcKind.combine_ones _ (by omega) (by omega)]

section

variable (ht : t.base = k.flag) (htrailing : t.is .trailing = false)
  (hencode : ∀ raw ≠ [], encode raw ≠ "") (v u : BitVec (8 * k.bytes)) {bs a : List Bytes}
include ht

theorem is_flag : t.is k.flag = true := by
  have hflags : t.flags &&& k.flag.flags = k.flag.flags := by
    rw [← ht, ChecksumType.base, ← BitVec.and_assoc, BitVec.and_self]
  have hne : k.flag ≠ .none := by cases k <;> decide
  rw [ChecksumType.is, if_neg hne, hflags]
  exact decide_eq_true rfl

theorem canMerge_of_base : t.canMerge = true := by
  have hflag := is_flag ht
  cases k <;> simp_all [ChecksumType.canMerge, CrcKind.flag]

theorem rawByteLen_of_base : t.rawByteLen = k.bytes := by
  rw [ChecksumType.rawByteLen, ht]
  cases k <;> rfl

theorem addPart_zero (self : Checksum) :
    self.addPart encode (ofValue encode t k u) 0 = .ok self := by
  have hmerge : (ofValue encode t k u).checksumType.canMerge = true := canMerge_of_base ht
  unfold addPart
  simp only [hmerge]
  rfl

theorem addPart_first {s : ℤ} (hsize : s ≠ 0) :
    ({ checksumType := t } : Checksum).addPart encode (ofValue encode t k u) s =
      .ok (ofValue encode t k u) := by
  have hmerge : (ofValue encode t k u).checksumType.canMerge = true := canMerge_of_base ht
  have his : t.is (ofValue encode t k u).checksumType.base = true := ht ▸ is_flag ht
  unfold addPart
  simp only [hmerge, hsize, his]
  rfl

theorem addParts_empty (self : Checksum) {ps rs : List Bytes} (hempty : ∀ part ∈ ps, part = []) :
    addParts encode self CrcKind.crc t k (ps ++ rs) = addParts encode self CrcKind.crc t k rs := by
  induction ps with
  | nil => rfl
  | cons part ps ih =>
    obtain rfl := hempty part (by simp)
    rw [cons_append, addParts, foldlM_cons]
    simp only [length_nil, cast_zero, addPart_zero ht]
    exact ih fun part hpart => hempty part (by simp [hpart])

include htrailing hencode

theorem valid_ofValue : (ofValue encode t k v).valid = true := by
  have hinvalid : t ≠ .invalid := by
    rintro rfl
    cases k <;> exact absurd ht (by decide)
  have hencoded : (ofValue encode t k v).encoded.isEmpty = false := by
    simpa [ofValue] using hencode _ (toBeBytes_ne_nil v)
  have htype : (ofValue encode t k v).checksumType = t := rfl
  rw [valid, htype, if_neg hinvalid, hencoded, htrailing, if_neg (by decide),
    rawByteLen_of_base ht]
  exact decide_eq_true (length_toBeBytes _ _).symm

theorem addPart_ofValue {s : ℤ} (hsize : s ≠ 0) :
    (ofValue encode t k v).addPart encode (ofValue encode t k u) s =
      .ok (ofValue encode t k (k.combine v u s)) := by
  have hmerge := canMerge_of_base ht
  have his := is_flag ht
  have hv := valid_ofValue ht htrailing hencode v
  have hu := valid_ofValue ht htrailing hencode u
  have hkind : kindOf t.base = some k := by
    rw [ht]
    cases k <;> rfl
  have hraw : (ofValue encode t k v).raw.isEmpty = false := by
    simpa [ofValue] using toBeBytes_ne_nil v
  have htype : ∀ v, (ofValue encode t k v).checksumType = t := fun _ => rfl
  unfold addPart
  simp only [htype, hmerge, hsize, ht ▸ his, hraw, hv, hu, hkind, value_ofValue]
  rfl

theorem addParts_ofValue (ps : List Bytes) :
    addParts encode (ofValue encode t k v) CrcKind.crc t k ps =
      .ok (ofValue encode t k (combineParts k v ps)) := by
  induction ps generalizing v with
  | nil => rfl
  | cons part ps ih =>
    have hstep : (ofValue encode t k v).addPart encode (ofValue encode t k (k.crc part)) part.length =
        .ok (ofValue encode t k (k.combine v (k.crc part) part.length)) := by
      by_cases hzero : (part.length : ℤ) = 0
      · rw [hzero, addPart_zero ht, CrcKind.combine_zero]
      · exact addPart_ofValue ht htrailing hencode v _ hzero
    rw [addParts, foldlM_cons, hstep]
    exact ih _

/-- The first part that is not empty is taken as it is, and the others are combined with it. -/
theorem addParts_first {p : Bytes} (hbefore : ∀ p ∈ bs, p = []) (hpart : p ≠ []) :
    addParts encode { checksumType := t } CrcKind.crc t k (bs ++ p :: a) =
      .ok (ofValue encode t k (combineParts k (k.crc p) a)) := by
  have hsize : (p.length : ℤ) ≠ 0 := by
    have := length_pos_iff.mpr hpart
    omega
  rw [addParts_empty ht _ hbefore, addParts, foldlM_cons, addPart_first ht _ hsize]
  exact addParts_ofValue ht htrailing hencode _ a

theorem addsUp_first {p : Bytes} (hbefore : ∀ p ∈ bs, p = []) (hpart : p ≠ []) :
    AddsUp encode CrcKind.crc t k (bs ++ p :: a) ↔
      combineParts k (k.crc p) a = k.crc (p ++ a.flatten) := by
  have hflatten : (bs ++ p :: a).flatten = p ++ a.flatten := by
    rw [flatten_append, flatten_eq_nil_iff.mpr hbefore, nil_append, flatten_cons]
  rw [AddsUp, addParts_first ht htrailing hencode hbefore hpart, hflatten]
  constructor
  · intro h
    exact ofValue_injective (Except.ok.inj h)
  · intro h
    rw [h]

/-- A part that is as long as its checksum can be such that it does not add up with others. -/
theorem exists_not_addsUp {n : ℕ} (hn : k.bytes ≤ n)
    (hbefore : ∀ part ∈ bs, part = []) (hafter : ∃ part ∈ a, part ≠ [])
    (hsize : ∀ part ∈ a, part.length < 9223372036854775808) :
    ∃ part : Bytes, part.length = n ∧ ¬ AddsUp encode CrcKind.crc t k (bs ++ part :: a) := by
  by_contra hall
  push Not at hall
  have hpos : 0 < k.bytes := by cases k <;> decide
  obtain ⟨ones, hlength, hones⟩ := k.exists_crc hn (BitVec.allOnes _)
  obtain ⟨halves, hlength', hhalves⟩ := k.exists_crc hn k.half
  have hsame : combineParts k (BitVec.allOnes _) a = _ := combineParts_ones hafter hsize
  rw [← hones, ← hhalves,
    (addsUp_first ht htrailing hencode hbefore (ne_nil_of_length_pos (by omega))).mp
      (hall ones hlength),
    (addsUp_first ht htrailing hencode hbefore (ne_nil_of_length_pos (by omega))).mp
      (hall halves hlength')] at hsame
  have hequal := CrcKind.crc_append_injective hsame
  rw [hones, hhalves] at hequal
  exact k.allOnes_ne_half hequal

end

/-- Combining is appending only where nothing is appended: for every string that is not empty there is
one before it for which it is not. Parts add up if one of them is not empty, and otherwise not as a
rule. -/
theorem combine_iff_empty (crc : (k : CrcKind) → Bytes → BitVec (8 * k.bytes))
    (hcrc : ∀ k, Crc.IsRemainder k.poly (crc k)) (hencode : ∀ raw ≠ [], encode raw ≠ "")
    (ht : t.base = k.flag) (htrailing : t.is .trailing = false) :
    (∀ data : Bytes, data.length < 9223372036854775808 →
      ((∀ first : Bytes, k.combine (crc k first) (crc k data) data.length = crc k (first ++ data)) ↔
        data = [])) ∧
    (∀ (before after : List Bytes) (n : ℕ), (∀ part ∈ before, part = []) →
      (∀ part ∈ after, part.length < 9223372036854775808) → k.bytes ≤ n →
      ((∀ part : Bytes, part.length = n → AddsUp encode crc t k (before ++ part :: after)) ↔
        ∀ part ∈ after, part = [])) ∧
    (∀ (before after : List Bytes) (part : Bytes), (∀ part ∈ before, part = []) → part ≠ [] →
      (∀ part ∈ after, part = []) → AddsUp encode crc t k (before ++ part :: after)) ∧
    (∀ parts : List Bytes, (∀ part ∈ parts, part = []) → ¬ AddsUp encode crc t k parts) := by
  obtain rfl : crc = CrcKind.crc := by
    funext k data
    exact (isRemainder_iff k.eight_le k.poly (crc k)).mp (hcrc k) data
  have hone : ∀ (before after : List Bytes) (part : Bytes), (∀ part ∈ before, part = []) →
      part ≠ [] → (∀ part ∈ after, part = []) →
      AddsUp encode CrcKind.crc t k (before ++ part :: after) := by
    intro before after part hbefore hpart hafter
    rw [addsUp_first ht htrailing hencode hbefore hpart, combineParts_empty hafter,
      flatten_eq_nil_iff.mpr hafter, append_nil]
  refine ⟨fun data hsize => ⟨fun h => ?_, ?_⟩, fun before after n hbefore hsize hn => ⟨fun h => ?_,
    fun hafter part hpart => ?_⟩, hone, fun parts hparts h => ?_⟩
  · by_contra hne
    obtain ⟨first, hfirst⟩ := k.exists_combine_ne hne hsize
    exact hfirst (h first)
  · rintro rfl first
    rw [length_nil, cast_zero, CrcKind.combine_zero, append_nil]
  · by_contra hne
    push Not at hne
    obtain ⟨part, hpart, hbad⟩ := exists_not_addsUp ht htrailing hencode hn hbefore hne hsize
    exact hbad (h part hpart)
  · have hpos : 0 < k.bytes := by cases k <;> decide
    exact hone before after part hbefore (ne_nil_of_length_pos (by omega)) hafter
  · -- nothing was ever set
    have hnone : addParts encode { checksumType := t } CrcKind.crc t k (parts ++ []) =
      .ok { checksumType := t } := addParts_empty ht _ hparts
    rw [append_nil] at hnone
    have hraw := congrArg Checksum.raw (Except.ok.inj (hnone.symm.trans h))
    exact toBeBytes_ne_nil _ hraw.symm

/-- Any text stands for a value. -/
def anyText (raw : Bytes) : String := if raw = [] then "" else "="

theorem one_part_adds_up : AddsUp anyText CrcKind.crc ⟨520#32⟩ .crc32 [[], [1, 2], []] :=
  (combine_iff_empty CrcKind.crc CrcKind.isRemainder_crc (by simp [anyText]) (by decide)
    (by decide)).2.2.1 [[]] [[]] [1, 2] (by simp) (by simp) (by simp)

theorem two_zeros_not_combined : Crc.IsRemainder CrcKind.crc32.poly CrcKind.crc32.crc ∧
    CrcKind.crc32.combine (CrcKind.crc32.crc [0]) (CrcKind.crc32.crc [0]) 1 ≠
      CrcKind.crc32.crc [0, 0] := by
  refine ⟨CrcKind.isRemainder_crc _, fun h => ?_⟩
  exact absurd (congrArg BitVec.toNat h) (by decide +kernel)

end Checksum

end

end Rustfs.Rio
