import Mathlib.Data.Finset.Card
import Rustfs.ErasureCoding.DecodeRange

/-! What `encode` stored is read back by `decode`, through readers opened at a block. -/
namespace Rustfs.Erasure

open Blocks ErasureCode Source ErrorReduce List Nat

variable {h : Hasher} {alg : HashAlgorithm} {order : ErrOrder} {c : Codec}
  {e : Erasure} {data file : Bytes} {i stop offset length : ℕ}
  {readers : List (Option BitrotReader)} {bucket path : String}

/-- A disk that has the file: a stream of it starts at the offset asked for, has at least the
length asked for, and ends no later than the file. -/
def HoldsFile (disk : ReadFileStream) (bucket path : String) (file : Bytes) : Prop :=
  ∀ off len, off + len ≤ file.length → ∃ s content, disk bucket path off len = .ok s ∧
    Clean s content ∧ (file.drop off).take len <+: content ∧ content <+: file.drop off

/-- The file is in the metadata, or on the disk. -/
def Keeps (inlineData : Option Bytes) (disk : Option ReadFileStream) (bucket path : String)
    (file : Bytes) : Prop :=
  inlineData = some file ∨
    inlineData = none ∧ ∃ d, disk = some d ∧ HoldsFile d bucket path file

theorem shardSize_pos (he : e.WellFormed) : 0 < e.shardSize :=
  calcShardSize_pos he.dataShards_pos he.blockSize_pos

/-- Block `b` starts inside the data exactly when its shard starts inside the shard bytes. -/
theorem mul_shardSize_lt_iff (he : e.WellFormed) (d : Bytes) (b : ℕ) :
    b * e.shardSize < (e.shardFileSize d.length).toNat ↔ b * e.blockSize < d.length := by
  have hbs := he.blockSize_pos
  have hss := shardSize_pos he
  have hdiv := div_add_mod' d.length e.blockSize
  have hmod := mod_lt d.length hbs
  rw [shardFileSize_natCast he]
  generalize hq : d.length / e.blockSize = q at *
  have hle : calcShardSize (d.length % e.blockSize) e.dataShards ≤ e.shardSize :=
    calcShardSize_mono (le_of_lt hmod)
  have hstep : ∀ {m n : ℕ} (size : ℕ), m < n → m * size + size ≤ n * size := by
    intro m n size hlt
    rw [← succ_mul]
    exact Nat.mul_le_mul_right _ hlt
  rcases lt_trichotomy b q with hb | rfl | hb
  · have h1 := hstep e.shardSize hb
    have h2 := hstep e.blockSize hb
    omega
  · by_cases hr : d.length % e.blockSize = 0
    · have : calcShardSize 0 e.dataShards = 0 := by
        rw [calcShardSize, divCeil_zero he.dataShards_pos]
      rw [hr, this]
      omega
    · have := calcShardSize_pos he.dataShards_pos (pos_of_ne_zero hr)
      omega
  · have h1 := hstep e.shardSize hb
    have h2 := hstep e.blockSize hb
    omega

theorem divCeil_shardFileSize (he : e.WellFormed) :
    divCeil (e.shardFileSize data.length).toNat e.shardSize = e.blockCount data := by
  refine eq_of_forall_lt_iff fun b => ?_
  rw [lt_divCeil_iff (shardSize_pos he), mul_shardSize_lt_iff he, lt_blockCount he]

section

variable (h alg) (he : e.WellFormed) (hc : c.Lawful e.dataShards e.parityShards)
  (hi : i < e.totalShardCount)
include he hc hi

theorem length_shardStream : (shardStream h alg c e data i).length =
      e.blockCount data * alg.size + (e.shardFileSize data.length).toNat := by
  have hle := le_divCeil_mul (shardSize_pos he) (e.shardFileSize data.length).toNat
  rw [divCeil_shardFileSize he] at hle
  rw [shardStream, length_frames_zero he hc hi (le_refl _), min_eq_right hle]

variable (hpos : 0 < length) (hle : offset + length ≤ data.length)
include hpos hle

/-- What is asked of a disk for a range: it is in the file and reaches to the range's last block. -/
theorem shardFileOffset_spec :
    (frames h alg c e data i 0 (divCeil (offset + length) e.blockSize)).length ≤
        divCeil (e.shardFileOffset offset length data.length) e.shardSize * alg.size +
          e.shardFileOffset offset length data.length ∧
      divCeil (e.shardFileOffset offset length data.length) e.shardSize * alg.size +
          e.shardFileOffset offset length data.length ≤ (shardStream h alg c e data i).length := by
  have hbs := he.blockSize_pos
  have hss := shardSize_pos he
  have htill : e.shardFileOffset offset length data.length =
      min ((offset + length) / e.blockSize * e.shardSize + e.shardSize)
        (e.shardFileSize data.length).toNat := by
    rw [shardFileOffset]
    split <;> omega
  generalize e.shardFileOffset offset length data.length = till at *
  rw [length_frames_zero he hc hi (divCeil_mono hle), length_shardStream h alg he hc hi]
  generalize hstop : divCeil (offset + length) e.blockSize = stop
  have hstop0 : 0 < stop := hstop ▸ (lt_divCeil_iff hbs).2 (by omega)
  have hlast : (stop - 1) * e.blockSize < offset + length :=
    (lt_divCeil_iff hbs).1 (by omega)
  have hidx : stop - 1 ≤ (offset + length) / e.blockSize :=
    (le_div_iff_mul_le hbs).2 (le_of_lt hlast)
  have hmul : (stop - 1) * e.shardSize ≤ (offset + length) / e.blockSize * e.shardSize :=
    Nat.mul_le_mul_right _ hidx
  have hstart : (stop - 1) * e.shardSize < till := by
    have := (mul_shardSize_lt_iff he data (stop - 1)).2 (by omega)
    omega
  have hsucc : stop * e.shardSize = (stop - 1) * e.shardSize + e.shardSize := by
    rw [← succ_mul]
    congr 1
    omega
  have hblocks : stop ≤ divCeil till e.shardSize := by
    have := (lt_divCeil_iff hss).2 hstart
    omega
  have hblocks' : divCeil till e.shardSize ≤ e.blockCount data := by
    rw [← divCeil_shardFileSize he]
    exact divCeil_mono (by omega)
  constructor
  · exact Nat.add_le_add (Nat.mul_le_mul_right _ hblocks) (by omega)
  · exact Nat.add_le_add (Nat.mul_le_mul_right _ hblocks') (by omega)

variable {h alg}

/-- A reader opened for a range of a stored shard file stands at the first block of the range and
has its blocks. -/
theorem serves_opened {inlineData : Option Bytes} {disk : Option ReadFileStream}
    (hk : Keeps inlineData disk bucket path (shardStream h alg c e data i)) :
    ∃ r, createBitrotReader inlineData disk bucket path (offset / e.blockSize * e.shardSize)
        (e.shardFileOffset offset length data.length) e.shardSize alg = .ok (some r) ∧
      Serves h alg c e data i (offset / e.blockSize) (divCeil (offset + length) e.blockSize) r := by
  have hbs := he.blockSize_pos
  obtain ⟨hreach, hinside⟩ := shardFileOffset_spec h alg he hc hi hpos hle
  generalize hstop : divCeil (offset + length) e.blockSize = stop at *
  generalize hlen : divCeil (e.shardFileOffset offset length data.length) e.shardSize * alg.size +
    e.shardFileOffset offset length data.length = len at *
  generalize hb : offset / e.blockSize = b
  have hbstop : b ≤ stop := by
    rw [← hstop, ← hb]
    have := (lt_divCeil_iff hbs (a := offset + length)).2
      (lt_of_le_of_lt (div_mul_le_self offset e.blockSize) (by omega))
    omega
  have hcount : stop ≤ e.blockCount data := hstop ▸ divCeil_mono hle
  have hbytes : b * e.blockSize ≤ data.length := by
    rw [← hb]
    exact le_trans (div_mul_le_self _ _) (by omega)
  have hoff : divCeil (b * e.shardSize) e.shardSize * alg.size + b * e.shardSize =
      b * (alg.size + e.shardSize) := by
    rw [divCeil_mul (shardSize_pos he), mul_add]
  have hdrop := drop_shardStream h alg he hc hi hbytes (by omega)
  have hsplit : ∀ n, b ≤ n → frames h alg c e data i 0 n =
      frames h alg c e data i 0 b ++ frames h alg c e data i b (n - b) := by
    intro n hn
    have hadd : frames h alg c e data i 0 (b + (n - b)) = _ := frames_add b (n - b)
    rwa [Nat.add_sub_cancel' hn, Nat.zero_add] at hadd
  have hlen0 := length_frames_full h alg (b := 0) (n := b) he hc hi (by simpa using hbytes)
  rw [hsplit stop hbstop, length_append, hlen0] at hreach
  have hneed : frames h alg c e data i b (stop - b) <+:
      frames h alg c e data i b (e.blockCount data - b) := by
    rw [show e.blockCount data - b = (stop - b) + (e.blockCount data - stop) by omega, frames_add]
    exact prefix_append _ _
  rcases hk with rfl | ⟨rfl, d, rfl, hd⟩
  · refine ⟨_, rfl, rfl, rfl, _, cursor_clean _ _, ?_⟩
    rw [hoff, hdrop]
    exact ⟨hneed, prefix_refl _⟩
  · obtain ⟨s, content, hread, hclean, htake, hprefix⟩ :=
      hd (b * (alg.size + e.shardSize)) (len - b * (alg.size + e.shardSize)) (by omega)
    rw [hdrop] at htake hprefix
    refine ⟨.new s e.shardSize alg, ?_, rfl, rfl, content, hclean, ?_, hprefix⟩
    · simp only [createBitrotReader, hoff, hlen, hread]
      rfl
    · exact List.IsPrefix.trans (prefix_take_iff.2 ⟨hneed, by omega⟩) htake

/-- A reader opened for a range of a shard file, as a read of an object opens it. -/
def OpensAt (e : Erasure) (alg : HashAlgorithm) (file : Bytes) (offset length total : ℕ)
    (r : BitrotReader) : Prop :=
  ∃ inlineData disk bucket path, Keeps inlineData disk bucket path file ∧
    createBitrotReader inlineData disk bucket path (offset / e.blockSize * e.shardSize)
      (e.shardFileOffset offset length total) e.shardSize alg = .ok (some r)

theorem OpensAt.serves {r : BitrotReader}
    (ho : OpensAt e alg (shardStream h alg c e data i) offset length data.length r) :
    Serves h alg c e data i (offset / e.blockSize) (divCeil (offset + length) e.blockSize) r := by
  obtain ⟨inlineData, disk, bucket, path, hk, hcreate⟩ := ho
  obtain ⟨r', hcreate', hserves⟩ := serves_opened he hc hi hpos hle hk
  rw [hcreate] at hcreate'
  obtain rfl : r = r' := by simpa using hcreate'
  exact hserves

end

/-- Readers that serve, but for a chosen set that is missing or failing, are lined up. -/
theorem lined_of_choice {b n : ℕ} {bad : Finset ℕ}
    (hgood : ∀ j, j < readers.length → i + j ∉ bad →
      ∃ r, readers[j]? = some (some r) ∧ Serves h alg c e data (i + j) b stop r)
    (hbad : ∀ j r, i + j ∈ bad → readers[j]? = some (some r) → r.Failing h)
    (hneed : n ≤ (List.range' i readers.length).countP (· ∉ bad)) :
    ∃ f mask, Lined h alg c e data b stop n i f mask readers ∧
      f ≤ (List.range' i readers.length).countP (· ∈ bad) := by
  induction readers generalizing i n with
  | nil =>
    obtain rfl : n = 0 := by simpa using hneed
    exact ⟨0, _, .done, zero_le _⟩
  | cons r readers ih =>
    cases n with
    | zero => exact ⟨0, _, .done, zero_le _⟩
    | succ n =>
      have hgood' : ∀ j, j < readers.length → i + 1 + j ∉ bad →
          ∃ r, readers[j]? = some (some r) ∧ Serves h alg c e data (i + 1 + j) b stop r := by
        intro j hj hmem
        rw [add_assoc, add_comm 1] at hmem ⊢
        simpa using hgood (j + 1) (by simpa using hj) hmem
      have hbad' : ∀ j r, i + 1 + j ∈ bad → readers[j]? = some (some r) → r.Failing h := by
        intro j r hmem hj
        rw [add_assoc, add_comm 1] at hmem
        exact hbad (j + 1) r hmem (by simpa using hj)
      rw [length_cons, range'_succ, countP_cons] at hneed ⊢
      by_cases hi : i ∈ bad
      · have hneed' : n + 1 ≤ (List.range' (i + 1) readers.length).countP (· ∉ bad) := by
          simpa [hi] using hneed
        obtain ⟨f, mask, hl, hf⟩ := ih hgood' hbad' hneed'
        refine ⟨f + 1, false :: mask, ?_, by simpa [hi] using hf⟩
        cases r with
        | none => exact .missing hl
        | some r => exact .failing (hbad 0 r hi rfl) hl
      · have hneed' : n ≤ (List.range' (i + 1) readers.length).countP (· ∉ bad) := by
          simpa [hi] using hneed
        obtain ⟨f, mask, hl, hf⟩ := ih hgood' hbad' hneed'
        obtain ⟨r', hr', hserves⟩ := hgood 0 (by simp) hi
        obtain rfl : r = some r' := by simpa using hr'
        exact ⟨f, _, .serving hserves hl, by simpa [hi] using hf⟩

theorem countP_mem_le_card (bad : Finset ℕ) (n : ℕ) :
    (List.range n).countP (· ∈ bad) ≤ bad.card := by
  rw [countP_eq_length_filter, ← toFinset_card_of_nodup (nodup_range.filter _)]
  refine Finset.card_le_card fun j hj => ?_
  simpa using (mem_filter.1 (mem_toFinset.1 hj)).2

/-- All positions but those of a small set are outside of it. -/
theorem le_countP_not_mem (bad : Finset ℕ) (n : ℕ) :
    n ≤ (List.range n).countP (· ∉ bad) + bad.card := by
  have hcount := countP_mem_le_card bad n
  have hall := length_eq_countP_add_countP (l := List.range n) (· ∈ bad)
  simp only [length_range, decide_eq_true_eq] at hall
  omega

/-- With at most as many readers missing or failing as there are parity shards, the range is
written. -/
theorem decode_stored (o : ErrOrder) (he : e.WellFormed)
    (hc : c.Lawful e.dataShards e.parityShards) (hle : offset + length ≤ data.length)
    {bad : Finset ℕ} (hcard : bad.card ≤ e.parityShards) (hlen : readers.length = e.totalShardCount)
    (hbad : ∀ i ∈ bad, ∀ r, readers[i]? = some (some r) → r.Failing h)
    (hopen : ∀ i, i < e.totalShardCount → i ∉ bad → ∃ r, readers[i]? = some (some r) ∧
      OpensAt e alg (shardStream h alg c e data i) offset length data.length r)
    {w : Sink} (hw : w.Healthy) :
    ∃ err w', decode h o c e w readers offset length data.length = ((length, err), w') ∧
      w'.content = w.content ++ slice data offset (offset + length) ∧
      w'.Healthy ∧ IsMark err ∧ (2 * bad.card ≤ e.totalShardCount → err = none) := by
  have hcount := countP_mem_le_card bad readers.length
  by_cases hzero : length = 0
  · have hl : 0 < length → Lined h alg c e data (offset / e.blockSize)
        (divCeil (offset + length) e.blockSize) e.dataShards 0 0 [] readers :=
      fun hpos => absurd hzero (ne_of_gt hpos)
    obtain ⟨err, w', hrun, hcont, hw', hm, hn⟩ := decode_lined o he hc hle hl hlen hw
    exact ⟨err, w', hrun, hcont, hw', hm, fun _ => hn (by omega)⟩
  · have hpos : 0 < length := pos_of_ne_zero hzero
    have hall := le_countP_not_mem bad readers.length
    have hgood : ∀ j, j < readers.length → 0 + j ∉ bad → ∃ r, readers[j]? = some (some r) ∧
        Serves h alg c e data (0 + j) (offset / e.blockSize)
          (divCeil (offset + length) e.blockSize) r := by
      intro j hj hmem
      rw [Nat.zero_add] at hmem ⊢
      obtain ⟨r, hr, ho⟩ := hopen j (hlen ▸ hj) hmem
      exact ⟨r, hr, ho.serves he hc (hlen ▸ hj) hpos hle⟩
    have hbad' : ∀ j r, 0 + j ∈ bad → readers[j]? = some (some r) → r.Failing h := by
      intro j r hmem hj
      rw [Nat.zero_add] at hmem
      exact hbad j hmem r hj
    have hneed : e.dataShards ≤ (List.range' 0 readers.length).countP (· ∉ bad) := by
      rw [← range_eq_range']
      unfold totalShardCount at hlen
      omega
    obtain ⟨f, mask, hl, hf⟩ := lined_of_choice hgood hbad' hneed
    rw [← range_eq_range'] at hf
    obtain ⟨err, w', hrun, hcont, hw', hm, hn⟩ := decode_lined o he hc hle (fun _ => hl) hlen hw
    exact ⟨err, w', hrun, hcont, hw', hm, fun hhalf => hn (by omega)⟩

/-- What a writer holds after `encode` is the stream of its shard. -/
theorem encode_writer (he : e.WellFormed) (hc : c.Lawful e.dataShards e.parityShards)
    {s : Source IoError} (hs : Clean s data) {q : ℕ} (hq : q ≤ e.totalShardCount)
    {w : BitrotWriter} (hw : (encode h order c e s (freshWriters e alg) q).2.writers[i]? =
      some (some w)) : w.inner.content = shardStream h alg c e data i := by
  obtain ⟨s', slots, hrun, -, hhold⟩ := encode_clean order he hc hs hq
    (holding_fresh h alg c data q)
  rw [hrun, MultiWriter.writers, getElem?_map, Option.map_eq_some_iff] at hw
  obtain ⟨slot, hslot, hsw⟩ := hw
  obtain ⟨w', rfl, hst⟩ := hhold i slot hslot
  obtain rfl : w' = w := by simpa using hsw
  exact hst.content

/-- Any range of what `encode` stored is read back when at most as many readers as there are parity
shards are missing or fail on every read. An error beside the complete data only reports a missing
or corrupt file to the caller, and only where more than half of the readers are not usable. -/
theorem decode_encode (he : e.WellFormed) (hc : c.Lawful e.dataShards e.parityShards)
    {s : Source IoError} (hs : Clean s data) {quorum : ℕ} (hq : quorum ≤ e.totalShardCount)
    (hle : offset + length ≤ data.length) {bad : Finset ℕ} (hcard : bad.card ≤ e.parityShards)
    (hlen : readers.length = e.totalShardCount)
    (hbad : ∀ i ∈ bad, ∀ r, readers[i]? = some (some r) → r.Failing h)
    (hopen : ∀ i, i < e.totalShardCount → i ∉ bad → ∃ w r,
      (encode h order c e s (freshWriters e alg) quorum).2.writers[i]? = some (some w) ∧
      readers[i]? = some (some r) ∧
      OpensAt e alg w.inner.content offset length data.length r)
    {out : Sink} (hout : out.Healthy) :
    ∃ err out', decode h order c e out readers offset length data.length = ((length, err), out') ∧
      out'.content = out.content ++ (data.drop offset).take length ∧
      (err = none ∨ err = some (.disk .fileNotFound) ∨ err = some (.disk .fileCorrupt)) ∧
      (2 * bad.card ≤ e.totalShardCount → err = none) := by
  have hopen' : ∀ i, i < e.totalShardCount → i ∉ bad → ∃ r, readers[i]? = some (some r) ∧
      OpensAt e alg (shardStream h alg c e data i) offset length data.length r := by
    intro i hi hmem
    obtain ⟨w, r, hw, hr, ho⟩ := hopen i hi hmem
    rw [encode_writer he hc hs hq hw] at ho
    exact ⟨r, hr, ho⟩
  obtain ⟨err, out', hrun, hcont, -, hmark, hnone⟩ :=
    decode_stored order he hc hle hcard hlen hbad hopen' hout
  refine ⟨err, out', hrun, ?_, hmark, hnone⟩
  rw [hcont, slice, Nat.add_sub_cancel_left]

/-- The middle of four bytes in two blocks, with the data reader missing. -/
theorem decode_encode_one_missing :
    ∃ err out', decode .zeros .insertion repetition ⟨1, 1, 2⟩ ⟨[], []⟩
        [none, some ⟨[.chunk [1, 2, 3, 4]], .none, 2⟩] 1 2 4 = ((2, err), out') ∧
      out'.content = [2, 3] ∧
      (err = none ∨ err = some (.disk .fileNotFound) ∨ err = some (.disk .fileCorrupt)) ∧
      (2 * Finset.card {0} ≤ Erasure.totalShardCount ⟨1, 1, 2⟩ → err = none) := by
  have hs : Clean ([.chunk [1, 2, 3, 4]] : Source IoError) [1, 2, 3, 4] :=
    clean_singleton _ (by decide)
  have hopen : ∀ i, i < Erasure.totalShardCount ⟨1, 1, 2⟩ → i ∉ ({0} : Finset ℕ) → ∃ w r,
      (encode .zeros .insertion repetition ⟨1, 1, 2⟩ [.chunk [1, 2, 3, 4]]
        (freshWriters ⟨1, 1, 2⟩ .none) 2).2.writers[i]? = some (some w) ∧
      [none, some ⟨[.chunk [1, 2, 3, 4]], .none, 2⟩][i]? = some (some r) ∧
      OpensAt ⟨1, 1, 2⟩ .none w.inner.content 1 2 4 r := by
    intro i hi hmem
    obtain rfl : i = 1 := by
      rw [Finset.mem_singleton] at hmem
      have : i < 2 := hi
      omega
    exact ⟨_, _, rfl, rfl, some [1, 2, 3, 4], none, "", "", .inl rfl, rfl⟩
  refine decode_encode ⟨by decide, by decide⟩ (repetition_lawful 1) hs (by decide) (by decide)
    (by decide) rfl (fun i hi r hr => ?_) hopen (by simp [Sink.Healthy])
  obtain rfl := Finset.mem_singleton.1 hi
  simp at hr

/-- Three of four readers missing, as many as there are parity shards: all is written, and the
missing files are reported. And a reader that fails after the first block is replaced by one that
still stands at the first block. -/
theorem decode_not_as_stored :
    (encode .zeros .insertion repetition ⟨1, 3, 2⟩ [.chunk [1, 2]]
        (freshWriters ⟨1, 3, 2⟩ .none) 4).2.writers.map (Option.map fun w => w.inner.content) =
      List.replicate 4 (some [1, 2]) ∧
    decode .zeros .insertion repetition ⟨1, 3, 2⟩ ⟨[], []⟩
        [none, none, none, some ⟨[.chunk [1, 2]], .none, 2⟩] 0 2 2 =
      ((2, some (.disk .fileNotFound)), ⟨[1, 2], []⟩) ∧
    (encode .zeros .insertion repetition ⟨1, 1, 2⟩ [.chunk [1, 2, 3, 4]]
        (freshWriters ⟨1, 1, 2⟩ .none) 2).2.writers.map (Option.map fun w => w.inner.content) =
      List.replicate 2 (some [1, 2, 3, 4]) ∧
    decode .zeros .insertion repetition ⟨1, 1, 2⟩ ⟨[], []⟩
        [some ⟨[.chunk [1, 2], .fail (.plain .other "read error")], .none, 2⟩,
          some ⟨[.chunk [1, 2, 3, 4]], .none, 2⟩] 0 4 4 =
      ((4, none), ⟨[1, 2, 1, 2], []⟩) := by
  decide

end Rustfs.Erasure
