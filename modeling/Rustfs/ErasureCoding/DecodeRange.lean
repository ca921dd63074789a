import Rustfs.ErasureCoding.Decode

/-! What `decode` writes and returns for a range, block by block. -/
namespace Rustfs.Erasure

open Blocks ErasureCode Source ErrorReduce Nat ParallelReader ReadSlot List

variable {h : Hasher} {alg : HashAlgorithm} {o : ErrOrder} {c : Codec}
  {e : Erasure} {d : Bytes} {i b n stop bad offset l : ℕ}
  {r : List (Option BitrotReader)} {mask : List Bool}

/-- One call of the parallel reader, at any block from the first one of the range on. -/
theorem read_round (he : e.WellFormed) (hc : c.Lawful e.dataShards e.parityShards)
    (hoff : offset < d.length) (hl : Lined h alg c e d b stop e.dataShards 0 bad mask r)
    (hlen : r.length = e.totalShardCount) (hfirst : offset / e.blockSize ≤ b)
    (hb : b < stop) (hstop : stop ≤ e.blockCount d) :
    ∃ slots, (new r e offset d.length).read h =
        (slots, new (slots.map reader) e offset d.length) ∧
      slots.length = e.totalShardCount ∧
      Round h alg c e d b stop e.dataShards 0 bad mask slots := by
  have hsize := fun i hi => readSize_spec (c := c) (i := i) r he hc hoff hfirst
    (lt_of_lt_of_le hb hstop) hi
  have hround := hl.scan hb hstop (by omega) hsize
  have hpos : (new r e offset d.length).readSize ≠ 0 := by
    have hk := he.dataShards_pos
    have hi : 0 < e.totalShardCount := lt_of_lt_of_le hk (le_add_right _ _)
    have hne := blockShard_ne_nil he hc (lt_of_lt_of_le hb hstop) hi
    have := (hsize 0 hi).2.1
    have := length_pos_iff.2 hne
    omega
  refine ⟨_, ?_, ?_, hround⟩
  · have hk : (new r e offset d.length).dataShards ≤ r.length :=
      hlen ▸ le_add_right _ _
    rw [ParallelReader.read, if_neg hpos]
    exact if_pos hk ▸ rfl
  · rw [length_scan, hlen]

/-- The error that `decode` may hand back beside all the bytes. -/
def IsMark (err : Option IoError) : Prop :=
  err = none ∨ err = some (.disk .fileNotFound) ∨ err = some (.disk .fileCorrupt)

theorem markErr_isMark {r : Option IoError} (hr : IsMark r)
    (errs : List (Option DiskError)) : IsMark (markErr o r errs) := by
  unfold markErr
  split
  · split_ifs with herr
    · rcases herr with rfl | rfl
      · exact .inr (.inl rfl)
      · exact .inr (.inr rfl)
    · exact .inl rfl
  · exact hr

/-- Where the errors do not outnumber the successes there is no mark. -/
theorem markErr_none {es : List (Option DiskError)} (herrs : es.count none + bad = es.length)
    (hbad : 2 * bad ≤ es.length) : markErr o none es = none := by
  rcases reduceErrs_cases o es [] with ⟨hred, -⟩ | ⟨err, hred, -, -, hlt, -⟩ | ⟨hred, -⟩
  · simp [markErr, hred]
  · have hle := nilCount_add_countErrs_le es err
    unfold nilCount at hlt hle
    omega
  · simp [markErr, hred, DiskError.other]

/-- The position in the data up to which the range is written before block `i`. -/
def position (e : Erasure) (offset length i : ℕ) : ℕ :=
  min (offset + length) (max offset (i * e.blockSize))

section

variable (o) (he : e.WellFormed) (hc : c.Lawful e.dataShards e.parityShards)
include he hc

section

variable {w : Sink} (hpos : 0 < l) (hle : offset + l ≤ d.length) (hfirst : offset / e.blockSize ≤ i)
  (hl : Lined h alg c e d i (divCeil (offset + l) e.blockSize) e.dataShards 0 bad mask r)
  (hlen : r.length = e.totalShardCount) (hw : w.Healthy)
include hpos hle hfirst hl hlen hw

/-- One block of the range: its part is written, and the readers stand at the next block. -/
theorem decodeLoop_step (hlt : i * e.blockSize < offset + l) (written : ℕ) (re : Option IoError) :
    ∃ slots w', decodeLoop h o c e offset l (n + 1) i
          (.new r e offset d.length) w written re =
        decodeLoop h o c e offset l n (i + 1)
          (.new (slots.map reader) e offset d.length) w'
          (written + (e.position offset l (i + 1) - e.position offset l i))
          (markErr o re (slots.map err)) ∧
      Round h alg c e d i (divCeil (offset + l) e.blockSize) e.dataShards 0 bad mask slots ∧
      slots.length = e.totalShardCount ∧ w'.Healthy ∧
      w'.content = w.content ++ slice d (e.position offset l i) (e.position offset l (i + 1)) := by
  have hbs := he.blockSize_pos
  have hdiv := div_add_mod' offset e.blockSize
  have hmod := mod_lt offset hbs
  have hnext : offset < (i + 1) * e.blockSize := by
    have hmul : (offset / e.blockSize + 1) * e.blockSize ≤ (i + 1) * e.blockSize :=
      mul_le_mul_right _ (by omega)
    rw [succ_mul (offset / e.blockSize)] at hmul
    omega
  have hp : e.position offset l i = max offset (i * e.blockSize) := by
    rw [position]
    omega
  have hp' : e.position offset l (i + 1) = min (offset + l) ((i + 1) * e.blockSize) := by
    rw [position]
    omega
  have hi' : i ≤ (offset + l) / e.blockSize :=
    (le_div_iff_mul_le hbs).2 (le_of_lt hlt)
  have hstop : divCeil (offset + l) e.blockSize ≤ e.blockCount d :=
    Nat.div_le_div_right (by omega)
  have hb : i < divCeil (offset + l) e.blockSize := (lt_divCeil_iff hbs).2 hlt
  have hcount : i < e.blockCount d := lt_of_lt_of_le hb hstop
  obtain ⟨slots, hread, hslots, hround⟩ := read_round he hc (by omega) hl hlen hfirst hb hstop
  obtain ⟨os, rs, henc⟩ := encoded_block he hc hcount
  have hview : View (slots.map shard) (os ++ rs) := by
    have := hround.view
    rwa [hslots, ← range_eq_range', ← blockShards, ← henc.eq_blockShards] at this
  have hdec := decodeData_ok he.dataShards_pos hc (block_ne_nil hbs ((lt_blockCount he).1 hcount))
    henc hview (le_of_eq hround.available.symm)
  have hseg := segment_eq he hfirst hi'
  have hfit : max offset (i * e.blockSize) - i * e.blockSize +
      (min (offset + l) ((i + 1) * e.blockSize) - max offset (i * e.blockSize)) ≤
      (block e.blockSize d i).length := by
    rw [length_block]
    rw [succ_mul] at hnext ⊢
    omega
  obtain ⟨w', hwrite, hw', hcont⟩ := writeDataBlocks_ok hw henc
    ((slots.map shard).drop e.dataShards) hfit
  refine ⟨slots, w', ?_, hround, hslots, hw', ?_⟩
  · have hne : (e.segment offset l i).2 ≠ 0 := by
      rw [hseg, succ_mul]
      rw [succ_mul] at hnext
      omega
    have hcan : (new r e offset d.length).canDecode (slots.map shard) = true := by
      simp [canDecode, new, hround.available]
    rw [decodeLoop, if_neg hne, hread]
    simp only [hcan, not_true_eq_false, if_false, hdec]
    rw [hseg]
    simp only [hwrite, hp, hp']
  · rw [hcont, hp, hp', slice_block (le_max_right _ _) (min_le_right _ _)]

/-- The loop over the blocks of the range, from block `i` on. -/
theorem decodeLoop_ok (hn : i + n = (offset + l) / e.blockSize + 1) {re : Option IoError}
    (hmark : IsMark re) (hnone : 2 * bad ≤ e.totalShardCount → re = none) :
    ∃ err w', decodeLoop h o c e offset l n i (.new r e offset d.length) w
          (e.position offset l i - offset) re = ((l, err), w') ∧
      w'.content = w.content ++ slice d (e.position offset l i) (offset + l) ∧
      w'.Healthy ∧ IsMark err ∧ (2 * bad ≤ e.totalShardCount → err = none) := by
  induction n generalizing i r w re with
  | zero =>
    have hp : e.position offset l i = offset + l := by
      have hd := lt_div_mul_add he.blockSize_pos (a := offset + l)
      have : i * e.blockSize = (offset + l) / e.blockSize * e.blockSize + e.blockSize := by
        rw [← succ_mul]
        congr 1
      rw [position]
      omega
    exact ⟨re, w, by rw [decodeLoop, hp, Nat.add_sub_cancel_left],
      by rw [hp, slice_self, append_nil], hw, hmark, hnone⟩
  | succ n ih =>
    by_cases hlt : i * e.blockSize < offset + l
    · obtain ⟨slots, w', hrun, hround, hslots, hw', hcont⟩ :=
        decodeLoop_step o (n := n) he hc hpos hle hfirst hl hlen hw hlt
          (e.position offset l i - offset) re
      have hmono : offset ≤ e.position offset l i ∧
          e.position offset l i ≤ e.position offset l (i + 1) ∧
          e.position offset l (i + 1) ≤ offset + l := by
        simp only [position, succ_mul]
        omega
      have hnone' : 2 * bad ≤ e.totalShardCount → markErr o re (slots.map err) = none := by
        intro hb
        rw [hnone hb]
        exact markErr_none (by rw [length_map]; exact hround.errs)
          (by rw [length_map, hslots]; exact hb)
      obtain ⟨err, w'', hrest, hcont', hw'', hm, hnn⟩ := ih (i := i + 1) (by omega)
        hround.lined (by rw [length_map, hslots]) hw' (by omega) (markErr_isMark hmark _) hnone'
      refine ⟨err, w'', ?_, ?_, hw'', hm, hnn⟩
      · rw [hrun, ← hrest]
        congr 1
        omega
      · rw [hcont', hcont, append_assoc, slice_append hmono.2.1 hmono.2.2]
    · have hp : e.position offset l i = offset + l := by
        rw [position]
        omega
      have hseg : (e.segment offset l i).2 = 0 := by
        rw [segment_eq he hfirst (by omega)]
        simp only
        omega
      refine ⟨re, w, ?_, ?_, hw, hmark, hnone⟩
      · rw [decodeLoop, if_pos hseg, hp, Nat.add_sub_cancel_left]
      · rw [hp, slice_self, append_nil]

end

/-- Reading a range through readers that are lined up at its first block. -/
theorem decode_lined (hle : offset + l ≤ d.length)
    (hl : 0 < l → Lined h alg c e d (offset / e.blockSize)
      (divCeil (offset + l) e.blockSize) e.dataShards 0 bad mask r)
    (hlen : r.length = e.totalShardCount) {w : Sink} (hw : w.Healthy) :
    ∃ err w', decode h o c e w r offset l d.length = ((l, err), w') ∧
      w'.content = w.content ++ slice d offset (offset + l) ∧
      w'.Healthy ∧ IsMark err ∧ (2 * bad ≤ e.totalShardCount → err = none) := by
  rw [decode, if_neg (by simp [hlen]), if_neg (by omega)]
  by_cases hzero : l = 0
  · subst hzero
    exact ⟨none, w, if_pos rfl, by rw [add_zero, slice_self, append_nil], hw, .inl rfl,
      fun _ => rfl⟩
  · have hstart : offset / e.blockSize ≤ (offset + l) / e.blockSize :=
      Nat.div_le_div_right (by omega)
    have hp : e.position offset l (offset / e.blockSize) = offset := by
      have := div_mul_le_self offset e.blockSize
      rw [position]
      omega
    obtain ⟨err, w', hrun, hcont, hw', hm, hnn⟩ := decodeLoop_ok o
      (n := (offset + l) / e.blockSize - offset / e.blockSize + 1) he hc (by omega) hle
      (le_refl _) (hl (by omega)) hlen hw (by omega) (.inl rfl) (fun _ => rfl)
    rw [hp, Nat.sub_self] at hrun
    rw [hp] at hcont
    refine ⟨err, w', ?_, hcont, hw', hm, hnn⟩
    rw [if_neg hzero]
    simp only [hrun]
    cases err with
    | none => simp
    | some x => simp

end

end Rustfs.Erasure
