import Rustfs.Storage.Sse

/-! Which blocks share a nonce under one key. -/
namespace Rustfs.Sse

open Rio

variable {Key Blob Md5 : Type}

/-- One run of the encrypting reader: a whole object, or one part of an upload. `fresh` is a data key
the provider hands out when it is asked once more. -/
structure Write (Key Blob : Type) where
  bucket : String
  key : String
  source : KeySource Key Blob
  part : Option ℕ
  fresh : Dek Key Blob
  blocks : List Bytes

namespace Write

variable (env : Env Key Blob Md5)

def material (w : Write Key Blob) : Option (EncryptionMaterial Key Blob Md5) :=
  match w.part with
  | none => putMaterial env w.bucket w.key w.source w.blocks.flatten.length
  | some number => (createMetadata env w.source).bind fun metadata =>
      partMaterial env w.bucket w.key w.source metadata w.fresh w.blocks.flatten.length number

/-- What the cipher is asked to seal: with which key and nonce, and which block. -/
def seals (w : Write Key Blob) : List (Key × Nonce × Bytes) :=
  (w.material env).elim [] fun m => w.blocks.map fun b => (m.key, m.nonce, b)

/-- The nonce of an upload, to which the number of a part is added. -/
def baseNonce (w : Write Key Blob) : Nonce :=
  match w.source with
  | .customer _ => generateSsecNonce env w.bucket w.key
  | .managed dek => dek.nonce

variable {env} {w w' : Write Key Blob}

/-- A part's nonce is the upload's, moved on by the number of the part. -/
theorem nonce_of_part {n : ℕ} (hpart : w.part = some n) (hnumber : 1 ≤ n)
    {m : EncryptionMaterial Key Blob Md5} (hm : w.material env = some m) :
    m.nonce = derivePartNonce (w.baseNonce env) n := by
  unfold material at hm
  rw [hpart] at hm
  unfold baseNonce
  cases hsource : w.source with
  | customer customerKey =>
    rw [hsource] at hm
    cases hm
    rfl
  | managed dek =>
    rw [hsource] at hm
    simp only [createMetadata, partMaterial, applyManagedEncryptionMaterial, Option.map_some,
      Option.bind_some, if_pos hnumber] at hm
    obtain ⟨key, _, rfl⟩ := Option.map_eq_some_iff.mp hm
    rfl

/-- With a customer's key a whole object has the nonce that a part of number zero would have. -/
theorem nonce_of_customer {customerKey : Key} (hsource : w.source = .customer customerKey)
    {m : EncryptionMaterial Key Blob Md5} (hm : w.material env = some m) :
    m.key = customerKey ∧
      m.nonce = derivePartNonce (generateSsecNonce env w.bucket w.key) (w.part.getD 0) := by
  unfold material at hm
  rw [hsource] at hm
  cases hpart : w.part with
  | none =>
    rw [hpart] at hm
    cases hm
    exact ⟨rfl, (derivePartNonce_zero _).symm⟩
  | some number =>
    rw [hpart] at hm
    cases hm
    exact ⟨rfl, rfl⟩

theorem mem_seals {s : Key × Nonce × Bytes} (hs : s ∈ w.seals env) :
    ∃ m, w.material env = some m ∧ s.1 = m.key ∧ s.2.1 = m.nonce ∧ s.2.2 ∈ w.blocks := by
  unfold seals at hs
  cases hm : w.material env with
  | none =>
    rw [hm] at hs
    exact absurd hs List.not_mem_nil
  | some m =>
    rw [hm] at hs
    obtain ⟨b, hb, rfl⟩ := List.mem_map.mp hs
    exact ⟨m, rfl, rfl, rfl, hb⟩

/-- The parts of one upload have nonces of their own. The blocks of one stream share theirs. With a
customer's key two writes share one exactly if the digests of their names begin alike, and end alike
when the numbers of the parts are added. -/
theorem nonces_of_writes :
    (∀ {w w' : Write Key Blob} {n n' : ℕ}, w.bucket = w'.bucket → w.key = w'.key →
      w.source = w'.source → w.part = some n → w'.part = some n' → 1 ≤ n → 1 ≤ n' →
      n % 4294967296 ≠ n' % 4294967296 →
      ∀ s ∈ w.seals env, ∀ s' ∈ w'.seals env, s.2.1 ≠ s'.2.1) ∧
    (∀ {w : Write Key Blob}, ∀ s ∈ w.seals env, ∀ s' ∈ w.seals env,
      s.1 = s'.1 ∧ s.2.1 = s'.2.1) ∧
    ∀ {w w' : Write Key Blob} {customerKey : Key}, w.source = .customer customerKey →
      w'.source = .customer customerKey → ∀ s ∈ w.seals env, ∀ s' ∈ w'.seals env, s.1 = s'.1 ∧
      (s.2.1 = s'.2.1 ↔
        (generateSsecNonce env w.bucket w.key).head = (generateSsecNonce env w'.bucket w'.key).head ∧
        (generateSsecNonce env w.bucket w.key).suffix + BitVec.ofNat 32 (w.part.getD 0) =
          (generateSsecNonce env w'.bucket w'.key).suffix + BitVec.ofNat 32 (w'.part.getD 0)) := by
  refine ⟨?_, ?_, ?_⟩
  · intro w w' n n' hbucket hkey hsource hn hn' hpos hpos' hdiffer s hs s' hs'
    obtain ⟨m, hm, _, hnonce, _⟩ := mem_seals hs
    obtain ⟨m', hm', _, hnonce', _⟩ := mem_seals hs'
    have hbase : w.baseNonce env = w'.baseNonce env := by
      unfold baseNonce
      rw [hbucket, hkey, hsource]
    rw [hnonce, hnonce', nonce_of_part hn hpos hm, nonce_of_part hn' hpos' hm', hbase]
    exact derivePartNonce_ne _ hdiffer
  · intro w s hs s' hs'
    obtain ⟨m, hm, hkey, hnonce, _⟩ := mem_seals hs
    obtain ⟨m', hm', hkey', hnonce', _⟩ := mem_seals hs'
    cases hm.symm.trans hm'
    exact ⟨hkey.trans hkey'.symm, hnonce.trans hnonce'.symm⟩
  · intro w w' customerKey hsource hsource' s hs s' hs'
    obtain ⟨m, hm, hk, hnonce, _⟩ := mem_seals hs
    obtain ⟨m', hm', hk', hnonce', _⟩ := mem_seals hs'
    obtain ⟨hmk, hmn⟩ := nonce_of_customer hsource hm
    obtain ⟨hmk', hmn'⟩ := nonce_of_customer hsource' hm'
    rw [hk, hk', hnonce, hnonce', hmk, hmk', hmn, hmn']
    exact ⟨rfl, derivePartNonce_eq_iff _⟩

theorem nonces_of_first_two_parts :
    ∀ s ∈ seals (⟨fun _ => 0, id, some⟩ : Env Unit Unit Unit)
      ⟨"bucket", "key", .customer (), some 1, ⟨(), ⟨0, 0⟩, ()⟩, [[1]]⟩,
    ∀ s' ∈ seals (⟨fun _ => 0, id, some⟩ : Env Unit Unit Unit)
      ⟨"bucket", "key", .customer (), some 2, ⟨(), ⟨0, 0⟩, ()⟩, [[2]]⟩, s.2.1 ≠ s'.2.1 :=
  nonces_of_writes.1 rfl rfl rfl rfl rfl (by decide) (by decide) (by decide)

/-- An object of two blocks, encrypted with a customer's key. -/
def twoBlocks : Write Unit Unit :=
  ⟨"bucket", "key", .customer (), none, ⟨(), ⟨0, 0⟩, ()⟩, [[1], [2]]⟩

/-- Two different blocks of one stream are sealed with one nonce. -/
theorem twoBlocks_share_nonce :
    ((), ⟨0, 0⟩, [1]) ∈ twoBlocks.seals (⟨fun _ => 0, id, some⟩ : Env Unit Unit Unit) ∧
      ((), ⟨0, 0⟩, [2]) ∈ twoBlocks.seals (⟨fun _ => 0, id, some⟩ : Env Unit Unit Unit) := by
  decide

end Write
end Rustfs.Sse
