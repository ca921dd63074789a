import Rustfs.Rio.Memory

/-! What a stream that is read without an error is made of. -/
namespace Rustfs.Rio

open Machine List

variable {Key R : Type} {S : Suite Key}

/-- An ideal cipher: under this key it opens what was sealed for one of these streams, and nothing
else. A stream is its nonce and the blocks its plaintext was read in. -/
structure Ideal (S : Suite Key) (key : Key) (streams : Set (Nonce × List Bytes)) : Prop where
  blocks : ∀ {nonce blocks b}, (nonce, blocks) ∈ streams → b ∈ blocks → IsBlock b
  opens : ∀ {nonce blocks b}, (nonce, blocks) ∈ streams → b ∈ blocks → S.Opens key nonce b
  authentic : ∀ {nonce ciphertext b}, S.decrypt key nonce ciphertext = some b →
    ∃ blocks, (nonce, blocks) ∈ streams ∧ b ∈ blocks

/-- The reader is at this part, the first being zero, of a stream whose parts have these nonces. -/
def DecryptReader.At (nonces : ℕ → Nonce) (i : ℕ) (d : DecryptReader S R) : Prop :=
  d.currentNonce = nonces i ∧ (d.multipartMode = true →
    d.currentPart = i + 1 ∧ ∀ k, nonces k = derivePartNonce d.baseNonce (k + 1))

/-- What a turn of the loop does with the plaintext at hand: it is kept or a first part of it handed
over, or there was none and a ciphertext was opened, with the nonce of the part. -/
def Turn.Accounts (nonces : ℕ → Nonce) (i : ℕ) (d : DecryptReader S R) : Turn S R → Prop
  | .again position d' => d'.key = d.key ∧ d'.buffer = d.buffer ∧ (position ≠ .top → d.buffer = []) ∧
      ∃ k, i ≤ k ∧ d'.At nonces k
  | .pending d' => d'.key = d.key ∧ d'.buffer = d.buffer ∧ d'.At nonces i
  | .ready bytes d' => d'.key = d.key ∧ (bytes = [] → d.buffer = []) ∧ d'.At nonces i ∧
      (bytes ++ d'.buffer = d.buffer ∨ d.buffer = [] ∧
        ∃ ciphertext, S.decrypt d.key (nonces i) ciphertext = some (bytes ++ d'.buffer))
  | _ => True

namespace DecryptReader

variable {d : DecryptReader S R} {nonces : ℕ → Nonce} {i : ℕ}

/-- Only the end of a part takes the reader to another nonce. -/
theorem At.next (hat : d.At nonces i) (hmode : d.multipartMode = true) :
    ({ d with
      currentPart := d.currentPart + 1
      currentNonce := derivePartNonce d.baseNonce (d.currentPart + 1)
      headerBuf := [], ciphertextBuf := none } : DecryptReader S R).At nonces (i + 1) := by
  obtain ⟨hpart, hnonces⟩ := hat.2 hmode
  refine ⟨?_, fun _ => ⟨by rw [← hpart], hnonces⟩⟩
  rw [hnonces, hpart]

section

variable (hat : d.At nonces i)
include hat

section

variable (hbuffer : d.buffer = [])
include hbuffer

theorem headerTurn_accounts (h : Bytes) : (d.headerTurn h).Accounts nonces i d := by
  unfold headerTurn
  split
  · split
    · rename_i hmode
      exact ⟨rfl, rfl, fun h => absurd rfl h, i + 1, i.le_succ, hat.next hmode⟩
    · exact ⟨rfl, rfl, fun h => absurd rfl h, i, le_rfl, hat⟩
  · split
    · exact ⟨rfl, rfl, fun h => absurd rfl h, i, le_rfl, hat⟩
    · split
      · trivial
      · exact ⟨rfl, rfl, fun _ => hbuffer, i, le_rfl, hat⟩

theorem opened_accounts {c : Bytes} (crc : BitVec 32) (len s : ℕ) :
    (d.opened crc len s (S.decrypt d.key d.currentNonce c)).Accounts nonces i d := by
  rw [hat.1]
  cases hdecrypt : S.decrypt d.key (nonces i) c with
  | none => trivial
  | some plaintext =>
    unfold opened
    dsimp only
    split
    · trivial
    · split
      · trivial
      · have hparts := congrArg some (take_append_drop s plaintext).symm
        exact ⟨rfl, fun _ => hbuffer, hat, .inr ⟨hbuffer, c, hdecrypt.trans hparts⟩⟩

theorem openTurn_accounts (crc : BitVec 32) (p : Bytes)
    (s : ℕ) : (d.openTurn crc p s).Accounts nonces i d := by
  unfold openTurn
  split
  · trivial
  · split
    · trivial
    · exact opened_accounts hat hbuffer _ _ _

theorem headerRead_accounts (a : Poll × R) : (d.headerRead a).Accounts nonces i d := by
  rcases a with ⟨a, inner⟩
  cases a with
  | pending => exact ⟨rfl, rfl, hat⟩
  | error => trivial
  | ready b =>
    unfold headerRead
    dsimp only
    split
    · exact ⟨rfl, fun _ => hbuffer, hat, .inl rfl⟩
    · split
      · trivial
      · exact headerTurn_accounts (d := { d with inner }) hat hbuffer _

theorem payloadRead_accounts (crc : BitVec 32) (got : Bytes)
    (t : ℕ) (a : Poll × R) : (d.payloadRead crc got t a).Accounts nonces i d := by
  rcases a with ⟨a, inner⟩
  cases a with
  | pending => exact ⟨rfl, rfl, hat⟩
  | error => trivial
  | ready b =>
    unfold payloadRead
    dsimp only
    split
    · trivial
    · exact ⟨rfl, rfl, fun _ => hbuffer, i, le_rfl, hat⟩

end

theorem turn_accounts [AsyncRead R] {p : Position} (hposition : p ≠ .top → d.buffer = []) (s : ℕ) :
    (d.turn p (s + 1)).Accounts nonces i d := by
  cases p with
  | top =>
    simp only [turn]
    split
    · rename_i hbuffer
      refine ⟨rfl, fun htake => ?_, hat, .inl (take_append_drop _ _)⟩
      simpa using htake
    · rename_i hbuffer
      have hbuffer := not_not.mp hbuffer
      split
      · exact ⟨rfl, fun _ => hbuffer, hat, .inl rfl⟩
      · exact headerRead_accounts hat hbuffer _
  | payload crc =>
    have hbuffer := hposition (by simp)
    simp only [turn]
    split
    · trivial
    · split
      · exact payloadRead_accounts hat hbuffer _ _ _ _
      · exact openTurn_accounts hat hbuffer _ _ _

end

end DecryptReader

section

variable {ss : Set (Nonce × List Bytes)} {ns : ℕ → Nonce} {i : ℕ} {bs b : Bytes}

/-- The block was sealed with this nonce for one of these streams. -/
def SealedIn (streams : Set (Nonce × List Bytes)) (nonce : Nonce) (block : Bytes) : Prop :=
  ∃ blocks, (nonce, blocks) ∈ streams ∧ block ∈ blocks

/-- The bytes are blocks of parts up to this one, in the order of the parts, each sealed with the
nonce of its part. -/
def MadeOf (streams : Set (Nonce × List Bytes)) (nonces : ℕ → Nonce) (i : ℕ) (bytes : Bytes) : Prop :=
  ∃ blocks : List (ℕ × Bytes), (blocks.map Prod.snd).flatten = bytes ∧
    (blocks.map Prod.fst).Pairwise (· ≤ ·) ∧
    ∀ p ∈ blocks, p.1 ≤ i ∧ SealedIn streams (nonces p.1) p.2

theorem MadeOf.mono {k : ℕ} (h : MadeOf ss ns i bs) (hik : i ≤ k) : MadeOf ss ns k bs := by
  obtain ⟨blocks, hbytes, horder, hblocks⟩ := h
  exact ⟨blocks, hbytes, horder, fun p hp => ⟨(hblocks p hp).1.trans hik, (hblocks p hp).2⟩⟩

theorem MadeOf.snoc (h : MadeOf ss ns i bs) (hb : SealedIn ss (ns i) b) :
    MadeOf ss ns i (bs ++ b) := by
  obtain ⟨blocks, rfl, horder, hblocks⟩ := h
  refine ⟨blocks ++ [(i, b)], by simp, ?_, fun p hp => ?_⟩
  · rw [map_append, pairwise_append]
    refine ⟨horder, by simp, fun k hk l hl => ?_⟩
    obtain ⟨p, hp, rfl⟩ := mem_map.mp hk
    obtain rfl : l = i := by simpa using hl
    exact (hblocks p hp).1
  · rcases mem_append.mp hp with hp | hp
    · exact hblocks p hp
    · rw [mem_singleton.mp hp]
      exact ⟨le_rfl, hb⟩

end

namespace Reading

variable {key : Key} {nonce : Nonce} {streams : Set (Nonce × List Bytes)} {nonces : ℕ → Nonce}
  {i : ℕ} {c c' : Reading S R}

/-- What was handed over, with what is at hand, is made of blocks of the streams. -/
structure Sound (key : Key) (streams : Set (Nonce × List Bytes)) (nonces : ℕ → Nonce) (i : ℕ)
    (c : Reading S R) : Prop where
  key : c.reader.key = key
  served : c.position ≠ .top → c.reader.buffer = []
  at_part : c.reader.At nonces i
  madeOf : MadeOf streams nonces i (c.out ++ c.reader.buffer)

variable [AsyncRead R]

theorem sound_step (hideal : Ideal S key streams) (h : Sound key streams nonces i c)
    (hstep : step c = .inl c') : ∃ k, Sound key streams nonces k c' := by
  have hturn := DecryptReader.turn_accounts h.at_part h.served (c.sizes c.polls)
  rw [step] at hstep
  generalize c.reader.turn c.position (c.sizes c.polls + 1) = t at hturn hstep
  cases t with
  | again position d =>
    cases hstep
    obtain ⟨hkey, hbuffer, hserved, k, hik, hat⟩ := hturn
    exact ⟨k, hkey.trans h.key, fun hp => hbuffer.trans (hserved hp), hat,
      hbuffer ▸ h.madeOf.mono hik⟩
  | pending d =>
    cases hstep
    obtain ⟨hkey, hbuffer, hat⟩ := hturn
    exact ⟨i, hkey.trans h.key, fun hp => absurd rfl hp, hat, hbuffer ▸ h.madeOf⟩
  | ready bytes d =>
    obtain ⟨hkey, _, hat, hbytes⟩ := hturn
    unfold after at hstep
    dsimp only at hstep
    split at hstep
    · cases hstep
    · cases hstep
      refine ⟨i, hkey.trans h.key, fun hp => absurd rfl hp, hat, ?_⟩
      rw [append_assoc]
      have hmade := h.madeOf
      rcases hbytes with hbytes | ⟨hempty, ciphertext, hdecrypt⟩
      · rwa [hbytes]
      · rw [hempty, append_nil] at hmade
        rw [h.key] at hdecrypt
        exact hmade.snoc (hideal.authentic hdecrypt)
  | asleep | failed e | panicked => cases hstep

theorem buffer_eq_nil_of_done {out : Bytes} (h : Sound key streams nonces i c)
    (hstop : step c = .inr (.done out)) : out = c.out ∧ c.reader.buffer = [] := by
  have hturn := DecryptReader.turn_accounts h.at_part h.served (c.sizes c.polls)
  rw [step] at hstop
  generalize c.reader.turn c.position (c.sizes c.polls + 1) = t at hturn hstop
  cases t with
  | ready bytes d =>
    unfold after at hstop
    dsimp only at hstop
    split_ifs at hstop with hbytes
    cases hstop
    exact ⟨rfl, hturn.2.1 hbytes⟩
  | again position d | pending d | asleep | failed e | panicked => cases hstop

/-- Whatever is read without an error is a sequence of blocks that were encrypted under the key. -/
theorem madeOf_of_done (hideal : Ideal S key streams) {d : DecryptReader S R} (hkey : d.key = key)
    (hbuffer : d.buffer = []) (hat : d.At nonces 0) {ss : ℕ → ℕ} {out : Bytes}
    (h : Ends step (start d ss) (.done out)) : ∃ k, MadeOf streams nonces k out := by
  have hstart : ∃ i, Sound key streams nonces i (start d ss) :=
    ⟨0, hkey, fun hp => absurd rfl hp, hat, [], by simp [start, hbuffer], by simp, by simp⟩
  have hsteps : ∀ c c' : Reading S R, (∃ i, Sound key streams nonces i c) → step c = .inl c' →
      ∃ i, Sound key streams nonces i c' := by
    rintro c c' ⟨i, hsound⟩ hstep
    exact sound_step hideal hsound hstep
  obtain ⟨c, ⟨k, hsound⟩, hstop⟩ := h.last hsteps hstart
  obtain ⟨rfl, hempty⟩ := buffer_eq_nil_of_done hsound hstop
  have hmade := hsound.madeOf
  rw [hempty, append_nil] at hmade
  exact ⟨k, hmade⟩

/-- What is read without an error is made of blocks that were encrypted under the key with the
reader's nonce, or that of the part they are in, and such blocks are read in any order and number. -/
theorem read_is_made_of_blocks (hideal : Ideal S key streams) :
    (∀ (inner : R) (base : Nonce) (sizes : ℕ → ℕ) (out : Bytes),
      (Ends step (start (.new inner key base : DecryptReader S R) sizes) (.done out) →
        ∃ blocks : List Bytes, blocks.flatten = out ∧ ∀ b ∈ blocks, SealedIn streams base b) ∧
      (Ends step (start (.newMultipart inner key base : DecryptReader S R) sizes) (.done out) →
        ∃ parts, MadeOf streams (fun i => derivePartNonce base (i + 1)) parts out)) ∧
    ∀ (nonce : Nonce) (blocks : List Bytes) (sizes : ℕ → ℕ),
      (∀ b ∈ blocks, SealedIn streams nonce b) →
      Ends step (start (.new (Cursor.mk (S.stream key nonce blocks)) key nonce :
        DecryptReader S Cursor) sizes) (.done blocks.flatten) := by
  refine ⟨fun inner base sizes out => ⟨fun h => ?_, fun h => ?_⟩, ?_⟩
  · have hmade : ∃ k, MadeOf streams (fun _ => base) k out :=
      madeOf_of_done hideal rfl rfl ⟨rfl, fun hmode => absurd hmode Bool.false_ne_true⟩ h
    obtain ⟨_, blocks, hout, _, hblocks⟩ := hmade
    refine ⟨_, hout, fun b hb => ?_⟩
    obtain ⟨p, hp, rfl⟩ := mem_map.mp hb
    exact (hblocks p hp).2
  · exact madeOf_of_done hideal rfl rfl ⟨rfl, fun _ => ⟨rfl, fun _ => rfl⟩⟩ h
  · intro nonce blocks sizes hblocks
    refine ends_cursor (fun b hb => ?_) sizes
    obtain ⟨bs, hstream, hmem⟩ := hblocks b hb
    exact ⟨hideal.blocks hstream hmem, hideal.opens hstream hmem⟩

/-- A cipher that opens the two blocks of one stream. -/
def twoBlockSuite : Suite Unit where
  encrypt _ _ plaintext := plaintext ++ List.replicate 16 0
  decrypt _ nonce ciphertext :=
    if nonce = ⟨0, 0⟩ ∧ ciphertext = 1 :: List.replicate 16 0 then some [1]
    else if nonce = ⟨0, 0⟩ ∧ ciphertext = 2 :: List.replicate 16 0 then some [2]
    else none
  length_encrypt := length_zeroTag
  crc32 _ := 0

theorem twoBlockSuite_ideal : Ideal twoBlockSuite () {(⟨0, 0⟩, [[1], [2]])} where
  blocks := by
    rintro nonce blocks b ⟨rfl, rfl⟩ hb
    rcases mem_pair.mp hb with rfl | rfl
    all_goals exact ⟨by simp, by decide⟩
  opens := by
    rintro nonce blocks b ⟨rfl, rfl⟩ hb
    rcases mem_pair.mp hb with rfl | rfl
    · rfl
    · rfl
  authentic := by
    intro nonce ciphertext b h
    refine ⟨[[1], [2]], ?_⟩
    unfold twoBlockSuite at h
    dsimp only at h
    split at h
    · rename_i hguard
      cases h
      rw [hguard.1]
      exact ⟨rfl, by simp⟩
    · split_ifs at h with hguard
      cases h
      rw [hguard.1]
      exact ⟨rfl, by simp⟩

theorem two_blocks_read : ∃ blocks : List Bytes, blocks.flatten = [2, 1, 2] ∧
    ∀ b ∈ blocks, SealedIn {((⟨0, 0⟩ : Nonce), [[1], [2]])} ⟨0, 0⟩ b := by
  obtain ⟨hmade, hread⟩ := read_is_made_of_blocks (R := Cursor) twoBlockSuite_ideal
  have hmem : ∀ b ∈ ([[2], [1], [2]] : List Bytes), b ∈ ([[1], [2]] : List Bytes) := by decide
  exact (hmade _ ⟨0, 0⟩ _ _).1 (hread ⟨0, 0⟩ [[2], [1], [2]] (fun _ => 0)
    fun b hb => ⟨_, rfl, hmem b hb⟩)

/-- The blocks of the only stream change places, and the read does not fail. -/
theorem swapped_blocks_read :
    Ideal twoBlockSuite () {(⟨0, 0⟩, [[1], [2]])} ∧
      Ends step (start (.new (Cursor.mk (twoBlockSuite.block () ⟨0, 0⟩ [2] ++
        twoBlockSuite.block () ⟨0, 0⟩ [1] ++ endHeader)) () ⟨0, 0⟩ :
        DecryptReader twoBlockSuite Cursor) fun _ => 4) (.done [2, 1]) ∧
      ¬ ∃ s ∈ ({(⟨0, 0⟩, [[1], [2]])} : Set (Nonce × List Bytes)), s.2.flatten = [2, 1] := by
  refine ⟨twoBlockSuite_ideal, ends_of_runFor (n := 9) (by decide +kernel), ?_⟩
  rintro ⟨s, rfl, h⟩
  exact absurd h (by decide)

end Reading
end Rustfs.Rio
