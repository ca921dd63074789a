import Rustfs.ErasureCoding.ReadBack

/-! Healing: the blocks are read and restored, and written to the writers that ask for them. -/
namespace Rustfs.Erasure

open Blocks ErasureCode Source ErrorReduce List Nat MultiWriter

/-- The blocks of `heal`, each written through a new multi-writer whose quorum is all the writers
there are, and at least one. The list of errors in the text of the first error is left out. -/
def healLoop (h : Hasher) (order : ErrOrder) (c : Codec) (e : Erasure) :
    ℕ → ParallelReader → List (Option BitrotWriter) →
      Except Failure Unit × List (Option BitrotWriter)
  | 0, _, writers => (.ok (), writers)
  | n + 1, reader, writers =>
    let round := reader.read h
    let availableShards := (round.1.map ReadSlot.err).count none
    if availableShards < e.dataShards then
      (.error (.err (.plain .other
        ("can not reconstruct data: not enough available shards (need " ++ toString e.dataShards ++
          ", have " ++ toString availableShards ++ ")"))), writers)
    else
      match decodeData c e (round.1.map ReadSlot.shard) with
      | .error err => (.error (.err err), writers)
      | .ok shards =>
        let writeQuorum := max (writers.countP Option.isSome) 1
        match (MultiWriter.new writers writeQuorum).write h order
            (shards.map fun s => s.getD []) with
        | (.error f, mw) => (.error f, mw.writers)
        | (.ok _, mw) => healLoop h order c e n round.2 mw.writers

/-- `Erasure::heal`: the result and the writers as they are left. -/
def heal (h : Hasher) (order : ErrOrder) (c : Codec) (e : Erasure)
    (writers : List (Option BitrotWriter)) (readers : List (Option BitrotReader)) (total : ℕ) :
    Except Failure Unit × List (Option BitrotWriter) :=
  if writers.length ≠ e.totalShardCount then
    (.error (.err (.plain .other "invalid argument")), writers)
  else
    let endBlock := total / e.blockSize + if total % e.blockSize = 0 then 0 else 1
    healLoop h order c e endBlock (.new readers e 0 total) writers

variable {h : Hasher} {alg : HashAlgorithm} {order : ErrOrder} {c : Codec}
  {e : Erasure} {data : Bytes} {i b n need bad : ℕ} {readers : List (Option BitrotReader)}
  {writers : List (Option BitrotWriter)} {mask : List Bool}

/-- The readers that are read: those that are there and have fewer than `need` before them. -/
def usedMask : ℕ → List (Option BitrotReader) → List Bool
  | 0, readers => readers.map fun _ => false
  | _ + 1, [] => []
  | need + 1, none :: readers => false :: usedMask (need + 1) readers
  | need + 1, some _ :: readers => true :: usedMask need readers

theorem get_usedMask (n : ℕ) (rs : List (Option BitrotReader)) (i : ℕ) :
    (usedMask n rs)[i]?.getD false = true ↔
      (∃ r, rs[i]? = some (some r)) ∧ (rs.take i).countP Option.isSome < n := by
  fun_induction usedMask n rs generalizing i with
  | case1 rs =>
    rw [getElem?_map]
    cases rs[i]? <;> simp
  | case2 => simp
  | case3 n rs ih =>
    cases i with
    | zero => simp
    | succ i => simpa using ih i
  | case4 n r rs ih =>
    cases i with
    | zero => simp
    | succ i =>
      have := ih i
      simp only [getElem?_cons_succ, take_succ_cons, countP_cons_of_pos,
        Option.isSome_some] at this ⊢
      rw [this]
      exact and_congr_right fun _ => by omega

/-- Readers that are missing or serve are lined up, and those read are known beforehand. -/
theorem lined_of_present {s : ℕ} (hserve : ∀ j r, readers[j]? = some (some r) →
      Serves h alg c e data (i + j) b s r) (hneed : need ≤ readers.countP Option.isSome) :
    ∃ bad, Lined h alg c e data b s need i bad (usedMask need readers) readers := by
  induction readers generalizing i need with
  | nil =>
    obtain rfl : need = 0 := by simpa using hneed
    exact ⟨0, .done⟩
  | cons r readers ih =>
    have hserve' : ∀ j r, readers[j]? = some (some r) →
        Serves h alg c e data (i + 1 + j) b s r := by
      intro j r hj
      rw [add_assoc, add_comm 1]
      exact hserve (j + 1) r (by simpa using hj)
    cases need with
    | zero => exact ⟨0, .done⟩
    | succ need =>
      cases r with
      | none =>
        have hneed' : need + 1 ≤ readers.countP Option.isSome := by simpa using hneed
        obtain ⟨bad, hl⟩ := ih hserve' hneed'
        exact ⟨bad + 1, .missing hl⟩
      | some r =>
        have hneed' : need ≤ readers.countP Option.isSome := by simpa using hneed
        obtain ⟨bad, hl⟩ := ih hserve' hneed'
        exact ⟨bad, .serving (hserve 0 r rfl) hl⟩

/-- The shards a writer gets: those of the data, and the parity shards that were read. -/
def healed (e : Erasure) (mask : List Bool) (i : ℕ) : Prop :=
  i < e.dataShards ∨ mask[i]?.getD false = true

instance (e : Erasure) (mask : List Bool) (i : ℕ) : Decidable (healed e mask i) :=
  inferInstanceAs (Decidable (_ ∨ _))

/-- What is written for shard `i` of block `b`: the shard, or nothing. -/
theorem get_healed_shards {stop : ℕ} {ss : List ReadSlot} {os rs : List Bytes}
    (henc : Encoded c e (block e.blockSize data b) os rs)
    (hround : Round h alg c e data b stop need 0 bad mask ss)
    (hslots : ss.length = e.totalShardCount) (hi : i < e.totalShardCount) :
    ((os.map some ++ (ss.map ReadSlot.shard).drop e.dataShards).map fun s => s.getD [])[i]? =
      some (if healed e mask i then blockShard c e data b i else []) := by
  by_cases hk : i < e.dataShards
  · have hget := henc.get_shardAt hi
    rw [getElem?_append_left (henc.originals ▸ hk)] at hget
    rw [if_pos (.inl hk), getElem?_map, getElem?_append_left (by simpa [henc.originals]),
      getElem?_map, hget]
    rfl
  · have hidx : e.dataShards + (i - (os.map some).length) = i := by
      rw [length_map, henc.originals]
      omega
    obtain ⟨slot, hslot⟩ : ∃ slot, ss[i]? = some slot :=
      ⟨_, getElem?_eq_getElem (hslots ▸ hi)⟩
    have hmask : mask[i]? = some slot.shard.isSome := by
      rw [← hround.read, getElem?_map, hslot]
      rfl
    have hview : ∀ x, slot.shard = some x → x = blockShard c e data b i := by
      intro x hx
      have hget := hround.view.get (i := i) (b := x) (by simp [hslot, hx])
      rw [hslots, getElem?_map, getElem?_range' hi] at hget
      simpa using hget.symm
    rw [getElem?_map, getElem?_append_right (by simpa [henc.originals] using hk),
      getElem?_drop, hidx, getElem?_map, hslot]
    cases hs : slot.shard with
    | none => simp [healed, hk, hmask, hs]
    | some x => simp [healed, hk, hmask, hs, hview x hs]

/-- The writers after the blocks before `b`: those that are given their shards hold them, the others
are as they were. -/
def Healing (h : Hasher) (alg : HashAlgorithm) (c : Codec) (e : Erasure) (data : Bytes)
    (mask : List Bool) (b : ℕ) (writers : List (Option BitrotWriter)) : Prop :=
  writers.length = e.totalShardCount ∧ ∀ (i : ℕ) (w : BitrotWriter), writers[i]? = some (some w) →
    Stored h alg c e data i (if healed e mask i then b else 0) w

/-- The writers of `heal` as they are created: empty, working, for shards of the right size. -/
def Requests (e : Erasure) (alg : HashAlgorithm) (writers : List (Option BitrotWriter)) : Prop :=
  writers.length = e.totalShardCount ∧ ∀ (i : ℕ) (w : BitrotWriter), writers[i]? = some (some w) →
    ∃ inner, w = .new inner e.shardSize alg ∧ inner.Healthy ∧ inner.content = []

theorem Requests.healing (hw : Requests e alg writers) (h : Hasher) (c : Codec) (d : Bytes)
    (mask : List Bool) : Healing h alg c e d mask 0 writers := by
  refine ⟨hw.1, fun i w hi => ?_⟩
  obtain ⟨inner, rfl, hin, hcont⟩ := hw.2 i w hi
  rw [ite_self]
  exact ⟨rfl, rfl, hin, hcont, fun _ => rfl⟩

theorem countP_isSome_eq {ws ws' : List (Option BitrotWriter)}
    (hm : ws'.map Option.isSome = ws.map Option.isSome) :
    ws'.countP Option.isSome = ws.countP Option.isSome := by
  have hcount := congrArg (List.count true) hm
  simpa [List.count, countP_map, Function.comp_def] using hcount

section

variable (o : ErrOrder) (he : e.WellFormed)
  (hc : c.Lawful e.dataShards e.parityShards)
include he hc

/-- One writer of one block: it stays, without error, and holds what it is given. -/
theorem healing_slot {w : Option BitrotWriter} (hb : b < e.blockCount data)
    (hi : i < e.totalShardCount) {s : WriterSlot} (hslot : s = writeSlot h ⟨w, none⟩
      (if healed e mask i then blockShard c e data b i else []))
    (hw : ∀ w', w = some w' → Stored h alg c e data i (if healed e mask i then b else 0) w') :
    s.err.isNone = w.isSome ∧ s.writer.isSome = w.isSome ∧
      ∀ w', s.writer = some w' →
        Stored h alg c e data i (if healed e mask i then b + 1 else 0) w' := by
  cases w with
  | none =>
    subst hslot
    exact ⟨rfl, rfl, nofun⟩
  | some w =>
    have hst := hw w rfl
    by_cases hh : healed e mask i
    · rw [if_pos hh] at hst hslot ⊢
      obtain ⟨w', hrun, hst'⟩ := hst.writeSlot he hc rfl hb hi
      rw [hrun] at hslot
      subst hslot
      refine ⟨rfl, rfl, fun w'' hw'' => ?_⟩
      obtain rfl : w' = w'' := by simpa using hw''
      exact hst'
    · rw [if_neg hh] at hst hslot ⊢
      subst hslot
      refine ⟨rfl, rfl, fun w'' hw'' => ?_⟩
      obtain rfl : w = w'' := by
        simpa [writeSlot, writeShard, BitrotWriter.write_nil] using hw''
      exact hst

/-- One block is written. Writers stay where they are; the write succeeds if there is one. -/
theorem Healing.write
    (hw : Healing h alg c e data mask b writers) (hb : b < e.blockCount data) {ss : List Bytes}
    (hlen : ss.length = e.totalShardCount)
    (hs : ∀ i, i < e.totalShardCount →
      ss[i]? = some (if healed e mask i then blockShard c e data b i else [])) :
    ∃ r mw, (new writers (max (writers.countP Option.isSome) 1)).write h o ss =
        (r, mw) ∧
      Healing h alg c e data mask (b + 1) mw.writers ∧
      mw.writers.map Option.isSome = writers.map Option.isSome ∧
      (0 < writers.countP Option.isSome → r = .ok ()) := by
  obtain ⟨hwlen, hst⟩ := hw
  generalize hmw : new writers (max (writers.countP Option.isSome) 1) = mw
  have hget : ∀ i : ℕ, mw.slots[i]? = writers[i]?.map fun w => WriterSlot.mk w none := by
    intro i
    rw [← hmw, new, getElem?_map]
  have hmlen : ss.length = mw.slots.length := by
    simp [← hmw, new, hlen, hwlen]
  have hsnd := write_snd h o hmlen
  generalize hslots : List.zipWith (writeSlot h) mw.slots ss = slots at hsnd
  have hslen : slots.length = writers.length := by
    rw [← hslots, length_zipWith, ← hmlen, hlen, hwlen, min_self]
  have hslot : ∀ (i : ℕ) (slot : WriterSlot), slots[i]? = some slot →
      ∃ w, writers[i]? = some w ∧ slot.err.isNone = w.isSome ∧ slot.writer.isSome = w.isSome ∧
        ∀ w', slot.writer = some w' →
          Stored h alg c e data i (if healed e mask i then b + 1 else 0) w' := by
    intro i slot hi
    have hlt : i < writers.length := hslen ▸ (List.getElem?_eq_some_iff.1 hi).1
    obtain ⟨w, hwi⟩ : ∃ w, writers[i]? = some w := ⟨_, getElem?_eq_getElem hlt⟩
    rw [hwlen] at hlt
    rw [← hslots, getElem?_zipWith, hget, hwi, hs i hlt] at hi
    exact ⟨w, hwi, healing_slot he hc hb hlt (Option.some.inj hi).symm
      fun w' hw' => hst i w' (hwi.trans (congrArg some hw'))⟩
  have hmap : ∀ f : WriterSlot → Bool, (∀ (i : ℕ) (slot : WriterSlot) (w : Option BitrotWriter),
      slots[i]? = some slot → writers[i]? = some w → f slot = w.isSome) →
      slots.map f = writers.map Option.isSome := by
    intro f hf
    refine ext_getElem? fun i => ?_
    rw [getElem?_map, getElem?_map]
    cases hi : slots[i]? with
    | none =>
      have : writers[i]? = none := by simpa [hslen] using hi
      rw [this]
      rfl
    | some slot =>
      obtain ⟨w, hwi, -⟩ := hslot i slot hi
      rw [hwi, Option.map_some, Option.map_some, hf i slot w hi hwi]
  have hwriters : slots.map (fun s => s.writer.isSome) = writers.map Option.isSome := by
    refine hmap _ fun i slot w hi hwi => ?_
    obtain ⟨w', hwi', -, hsome, -⟩ := hslot i slot hi
    rw [hsome, Option.some.inj (hwi'.symm.trans hwi)]
  have hnil : (slots.map WriterSlot.err).count none = writers.countP Option.isSome := by
    have herrs : slots.map (fun s => s.err.isNone) = writers.map Option.isSome := by
      refine hmap _ fun i slot w hi hwi => ?_
      obtain ⟨w', hwi', hnone, -⟩ := hslot i slot hi
      rw [hnone, Option.some.inj (hwi'.symm.trans hwi)]
    have hcount := congrArg (List.count true) herrs
    simpa [List.count, countP_map, Function.comp_def] using hcount
  refine ⟨_, ⟨slots, mw.writeQuorum⟩, Prod.ext rfl hsnd, ⟨?_, fun i w hi => ?_⟩, ?_, fun hpos => ?_⟩
  · rw [MultiWriter.writers, length_map, hslen, hwlen]
  · rw [MultiWriter.writers, getElem?_map, Option.map_eq_some_iff] at hi
    obtain ⟨slot, hi, hsw⟩ := hi
    obtain ⟨-, -, -, -, hstored⟩ := hslot i slot hi
    exact hstored w hsw
  · rw [MultiWriter.writers, map_map]
    exact hwriters
  · rw [write_ok_iff h o hmlen, hsnd, errs, hnil, ← hmw]
    exact Nat.max_le.2 ⟨Nat.le_refl _, hpos⟩

/-- The blocks from block `b` on. -/
theorem healLoop_spec
    (hn : b + n = e.blockCount data)
    (hl : Lined h alg c e data b (e.blockCount data) e.dataShards 0 bad mask readers)
    (hlen : readers.length = e.totalShardCount) (hw : Healing h alg c e data mask b writers) :
    ∃ r writers', healLoop h o c e n (.new readers e 0 data.length) writers = (r, writers') ∧
      writers'.map Option.isSome = writers.map Option.isSome ∧
      (0 < writers.countP Option.isSome →
        r = .ok () ∧ Healing h alg c e data mask (e.blockCount data) writers') := by
  induction n generalizing b readers writers with
  | zero => exact ⟨_, _, rfl, rfl, fun _ => ⟨rfl, hn ▸ hw⟩⟩
  | succ n ih =>
    have hb : b < e.blockCount data := by omega
    have hdata : 0 < data.length := by
      have := (lt_blockCount he).1 hb
      omega
    obtain ⟨slots, hread, hslots, hround⟩ := read_round he hc hdata hl hlen
      (by simp) hb (Nat.le_refl _)
    obtain ⟨os, rs, henc⟩ := encoded_block he hc hb
    have hview : View (slots.map ReadSlot.shard) (os ++ rs) := by
      have := hround.view
      rwa [hslots, ← range_eq_range', ← blockShards, ← henc.eq_blockShards] at this
    have hdec := decodeData_ok he.dataShards_pos hc
      (block_ne_nil he.blockSize_pos ((lt_blockCount he).1 hb)) henc hview
      (le_of_eq hround.available.symm)
    have henough : ¬(slots.map ReadSlot.err).count none < e.dataShards := by
      have hle := hround.lined.need_add_bad_le
      have herrs := hround.errs
      rw [length_map] at hle
      omega
    obtain ⟨r, mw, hrun, hw', hmask, hok⟩ := hw.write o he hc hb
      (by simp [henc.originals, hslots, totalShardCount])
      (fun i hi => get_healed_shards henc hround hslots hi)
    rw [healLoop, hread]
    simp only [if_neg henough, hdec, hrun]
    cases r with
    | error f => exact ⟨_, _, rfl, hmask, fun hpos => by cases hok hpos⟩
    | ok u =>
      obtain ⟨r', writers', hrest, hmask', hok'⟩ := ih (b := b + 1) (by omega) hround.lined
        (by rw [length_map, hslots]) hw'
      refine ⟨r', writers', hrest, hmask'.trans hmask, fun hpos => hok' ?_⟩
      rw [countP_isSome_eq hmask]
      exact hpos

/-- Where block data is read at all, what a writer holds in the end is its shard stream if it is
healed, and nothing if not. -/
theorem heal_spec
    (hreaders : ∀ (i : ℕ) (r : BitrotReader), readers[i]? = some (some r) →
      OpensAt e alg (shardStream h alg c e data i) 0 data.length data.length r)
    (hlen : readers.length = e.totalShardCount)
    (hmissing : readers.countP Option.isNone ≤ e.parityShards) (hw : Requests e alg writers) :
    ∃ r writers', heal h o c e writers readers data.length = (r, writers') ∧
      writers'.map Option.isSome = writers.map Option.isSome ∧
      (0 < writers.countP Option.isSome → r = .ok ()) ∧
      ∀ (i : ℕ) (w : BitrotWriter), writers'[i]? = some (some w) → w.inner.content =
        if healed e (usedMask e.dataShards readers) i then shardStream h alg c e data i else [] := by
  rw [heal, if_neg (by simp [hw.1]), ← divCeil_eq he.blockSize_pos]
  change ∃ r writers', healLoop h o c e (e.blockCount data) _ _ = _ ∧ _
  by_cases hd : data = []
  · subst hd
    rw [blockCount_nil he]
    refine ⟨_, _, rfl, rfl, fun _ => rfl, fun i w hi => ?_⟩
    obtain ⟨inner, rfl, -, hcont⟩ := hw.2 i w hi
    rw [shardStream, blockCount_nil he, frames_zero, ite_self]
    exact hcont
  · have hpos : 0 < data.length := length_pos_iff.2 hd
    have hserve : ∀ (j : ℕ) (r : BitrotReader), readers[j]? = some (some r) →
        Serves h alg c e data (0 + j) 0 (e.blockCount data) r := by
      intro j r hj
      have hlt : j < e.totalShardCount := hlen ▸ (List.getElem?_eq_some_iff.1 hj).1
      have hs := (hreaders j r hj).serves he hc hlt hpos (by omega)
      rw [Nat.zero_add, Nat.zero_div] at hs
      rwa [Nat.zero_add]
    have hneed : e.dataShards ≤ readers.countP Option.isSome := by
      have hall := length_eq_countP_add_countP (l := readers) Option.isNone
      have hsome : readers.countP (fun r => !r.isNone) = readers.countP Option.isSome := by simp
      rw [hlen, totalShardCount] at hall
      simp only [Bool.not_eq_true, Bool.decide_eq_false] at hall
      omega
    obtain ⟨bad, hl⟩ := lined_of_present hserve hneed
    obtain ⟨r, writers', hrun, hmask, hok⟩ := healLoop_spec o he hc
      (Nat.zero_add _) hl hlen (hw.healing h c data _)
    refine ⟨r, writers', hrun, hmask, fun hp => (hok hp).1, fun i w hi => ?_⟩
    have hp : 0 < writers.countP Option.isSome := by
      rw [← countP_isSome_eq hmask]
      exact countP_pos_iff.2 ⟨some w, mem_of_getElem? hi, rfl⟩
    have hcont := ((hok hp).2.2 i w hi).content
    rw [hcont, shardStream]
    split <;> rfl

theorem shardStream_eq_nil
    (hi : i < e.totalShardCount) : shardStream h alg c e data i = [] ↔ data = [] := by
  constructor
  · intro hnil
    by_contra hd
    have hlt := (mul_shardSize_lt_iff he data 0).2 (by rw [zero_mul]; exact length_pos_iff.2 hd)
    have hlen : (shardStream h alg c e data i).length = _ := length_shardStream h alg he hc hi
    rw [hnil, length_nil] at hlen
    omega
  · rintro rfl
    rw [shardStream, blockCount_nil he, frames_zero]

end

/-- Healing writes to every writer the stream that `encode` would have written exactly when there is
no data, or every parity shard asked for is itself read: its reader is there, and fewer readers than
there are data shards come before it. With a writer to serve, it reports success in any case. -/
theorem heal_restores_iff (he : e.WellFormed) (hc : c.Lawful e.dataShards e.parityShards)
    {s : Source IoError} (hs : Clean s data) {quorum : ℕ} (hq : quorum ≤ e.totalShardCount)
    (hreaders : ∀ (i : ℕ) (r : BitrotReader), readers[i]? = some (some r) → ∃ w,
      (encode h order c e s (freshWriters e alg) quorum).2.writers[i]? = some (some w) ∧
      OpensAt e alg w.inner.content 0 data.length data.length r)
    (hlen : readers.length = e.totalShardCount)
    (hmissing : readers.countP Option.isNone ≤ e.parityShards) (hw : Requests e alg writers) :
    (0 < writers.countP Option.isSome →
      (heal h order c e writers readers data.length).1 = .ok ()) ∧
    ((∀ (i : ℕ) (w₀ : BitrotWriter), writers[i]? = some (some w₀) → ∃ w w',
        (heal h order c e writers readers data.length).2[i]? = some (some w) ∧
        (encode h order c e s (freshWriters e alg) quorum).2.writers[i]? = some (some w') ∧
        w.inner.content = w'.inner.content) ↔
      data = [] ∨ ∀ (i : ℕ) (w₀ : BitrotWriter), writers[i]? = some (some w₀) →
        e.dataShards ≤ i → (∃ r, readers[i]? = some (some r)) ∧
          (readers.take i).countP Option.isSome < e.dataShards) := by
  have hreaders' : ∀ (i : ℕ) (r : BitrotReader), readers[i]? = some (some r) →
      OpensAt e alg (shardStream h alg c e data i) 0 data.length data.length r := by
    intro i r hi
    obtain ⟨w, hwi, ho⟩ := hreaders i r hi
    rwa [encode_writer he hc hs hq hwi] at ho
  obtain ⟨r, writers', hrun, hmask, hok, hcont⟩ :=
    heal_spec order he hc hreaders' hlen hmissing hw
  obtain ⟨s', slots, henc, hslen, hhold⟩ := encode_clean order he hc hs hq
    (holding_fresh h alg c data quorum)
  rw [hrun]
  refine ⟨hok, ?_⟩
  -- every writer asked for is still there, and `encode` has one with the stream of its shard
  have hget : ∀ (i : ℕ) (w₀ : BitrotWriter), writers[i]? = some (some w₀) →
      i < e.totalShardCount ∧ (∃ w, writers'[i]? = some (some w)) ∧
      ∃ w', (encode h order c e s (freshWriters e alg) quorum).2.writers[i]? = some (some w') := by
    intro i w₀ hi
    have hlt : i < e.totalShardCount := hw.1 ▸ (List.getElem?_eq_some_iff.1 hi).1
    refine ⟨hlt, ?_, ?_⟩
    · have hm := congrArg (fun l => l[i]?) hmask
      simp only [getElem?_map, hi, Option.map_some, Option.isSome_some,
        Option.map_eq_some_iff] at hm
      obtain ⟨w, hwi, hsome⟩ := hm
      obtain ⟨w, rfl⟩ := Option.isSome_iff_exists.1 hsome
      exact ⟨w, hwi⟩
    · obtain ⟨slot, hslot⟩ : ∃ slot, slots[i]? = some slot :=
        ⟨_, getElem?_eq_getElem (hslen ▸ hlt)⟩
      obtain ⟨w', rfl, -⟩ := hhold i slot hslot
      refine ⟨w', ?_⟩
      rw [henc, MultiWriter.writers, getElem?_map, hslot]
      rfl
  constructor
  · intro hall
    by_cases hd : data = []
    · exact .inl hd
    · refine .inr fun i w₀ hi hk => ?_
      obtain ⟨w, w', hwi, hwi', heq⟩ := hall i w₀ hi
      rw [hcont i w hwi, encode_writer he hc hs hq hwi'] at heq
      by_contra hnot
      rw [← get_usedMask] at hnot
      rw [if_neg (fun hh => hh.elim (fun hlt => absurd hlt (not_lt.2 hk)) hnot)] at heq
      exact hd ((shardStream_eq_nil he hc (hget i w₀ hi).1).1 heq.symm)
  · intro hcond i w₀ hi
    obtain ⟨hlt, ⟨w, hwi⟩, ⟨w', hwi'⟩⟩ := hget i w₀ hi
    refine ⟨w, w', hwi, hwi', ?_⟩
    rw [hcont i w hwi, encode_writer he hc hs hq hwi']
    rcases hcond with hd | hcond
    · rw [(shardStream_eq_nil he hc hlt).2 hd, ite_self]
    · by_cases hk : i < e.dataShards
      · rw [if_pos (.inl hk)]
      · rw [if_pos (.inr ((get_usedMask _ _ _).2 (hcond i w₀ hi (not_lt.1 hk))))]

/-- A missing data shard is healed. -/
theorem heal_restores_data_shard : ∃ w w',
    (heal .zeros .insertion repetition ⟨1, 1, 2⟩ [some (.new (.inlineBuffer []) 2 .none), none]
        [none, some ⟨[.chunk [1, 2]], .none, 2⟩] 2).2[0]? = some (some w) ∧
      (encode .zeros .insertion repetition ⟨1, 1, 2⟩ [.chunk [1, 2]] (freshWriters ⟨1, 1, 2⟩ .none)
        2).2.writers[0]? = some (some w') ∧
      w.inner.content = w'.inner.content := by
  have hwriters : ∀ (i : ℕ) (w : BitrotWriter),
      [some (BitrotWriter.new (.inlineBuffer []) 2 .none), none][i]? = some (some w) → i = 0 ∧
        w = .new (.inlineBuffer []) 2 .none := by
    intro i w hi
    rcases i with _ | _ | i <;> simp_all
  have hs : Clean ([.chunk [1, 2]] : Source IoError) [1, 2] := clean_singleton _ (by decide)
  have hreaders : ∀ (i : ℕ) (r : BitrotReader),
      [none, some ⟨[.chunk [1, 2]], .none, 2⟩][i]? = some (some r) → ∃ w,
        (encode .zeros .insertion repetition ⟨1, 1, 2⟩ [.chunk [1, 2]]
          (freshWriters ⟨1, 1, 2⟩ .none) 2).2.writers[i]? = some (some w) ∧
        OpensAt ⟨1, 1, 2⟩ .none w.inner.content 0 2 2 r := by
    intro i r hi
    obtain ⟨rfl, rfl⟩ : i = 1 ∧ r = ⟨[.chunk [1, 2]], .none, 2⟩ := by
      rcases i with _ | _ | i <;> simp_all
    exact ⟨_, rfl, some [1, 2], none, "", "", .inl rfl, rfl⟩
  refine ((heal_restores_iff ⟨by decide, by decide⟩ (repetition_lawful 1) hs (by decide) hreaders
    rfl (by decide) ⟨rfl, fun i w hi => ?_⟩).2.2 (.inr fun i w hi hk => ?_)) 0 _ rfl
  · obtain ⟨-, rfl⟩ := hwriters i w hi
    exact ⟨_, rfl, trivial, rfl⟩
  · obtain ⟨rfl, -⟩ := hwriters i w hi
    exact absurd hk (by decide)

/-- A parity shard that is missing is healed with nothing, and success is reported. -/
theorem heal_missing_parity :
    heal .zeros .insertion repetition ⟨1, 1, 2⟩ [none, some (.new (.inlineBuffer []) 2 .none)]
        [some ⟨[.chunk [1, 2]], .none, 2⟩, none] 2 =
      (.ok (), [none, some (.new (.inlineBuffer []) 2 .none)]) ∧
    (encode .zeros .insertion repetition ⟨1, 1, 2⟩ [.chunk [1, 2]] (freshWriters ⟨1, 1, 2⟩ .none)
        2).2.writers = List.replicate 2 (some (.new (.inlineBuffer [1, 2]) 2 .none)) := by
  decide

end Rustfs.Erasure
