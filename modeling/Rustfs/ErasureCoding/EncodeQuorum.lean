import Rustfs.ErasureCoding.Encode

/-! Which writers take every block, and that `encode` succeeds only with a quorum of them. -/
namespace Rustfs

open Blocks ErasureCode Source ErrorReduce List BitrotWriter WriterSlot

/-- Writes that all succeed, one after the other. -/
def BitrotWriter.takeAll (h : Hasher) : BitrotWriter → List Bytes → Option BitrotWriter
  | w, [] => some w
  | w, b :: bs =>
    match w.write h b with
    | (.ok n, w') => if n < b.length then none else takeAll h w' bs
    | (.error _, _) => none

namespace MultiWriter

variable {h : Hasher} {s : List WriterSlot} {slot : WriterSlot} {blocks : List (List Bytes)}
  {col blk : List Bytes} {ws : List (Option BitrotWriter)} {i q : ℕ}

/-- A writer that is there and takes every shard it is given. -/
def tookAll (h : Hasher) (writer : Option BitrotWriter) (col : List Bytes) : Bool :=
  (writer.bind (BitrotWriter.takeAll h · col)).isSome

/-- The shards of writer `i`, one of every block. -/
def column (blocks : List (List Bytes)) (i : ℕ) : List Bytes :=
  blocks.map fun blk => (blk[i]?).getD []

/-- How many writers take every block. -/
def takers (h : Hasher) (writers : List (Option BitrotWriter)) (blocks : List (List Bytes)) : ℕ :=
  (writers.mapIdx fun i w => tookAll h w (column blocks i)).count true

def slotAfter (h : Hasher) (slot : WriterSlot) (col : List Bytes) : WriterSlot :=
  col.foldl (writeSlot h) slot

def slotsAfter (h : Hasher) (slots : List WriterSlot) (blocks : List (List Bytes)) :
    List WriterSlot :=
  blocks.foldl (List.zipWith (writeSlot h)) slots

theorem writeSlot_of_err (he : slot.err.isSome) (b : Bytes) : writeSlot h slot b = slot :=
  if_pos he

theorem slotAfter_of_err (he : slot.err.isSome) (col : List Bytes) : slotAfter h slot col = slot := by
  induction col with
  | nil => rfl
  | cons b col ih =>
    rw [slotAfter, foldl_cons, writeSlot_of_err he]
    exact ih

/-- A writer is without error after its shards exactly when it took them all. -/
theorem slotAfter_err_iff (w : BitrotWriter) (col : List Bytes) :
    (slotAfter h ⟨some w, none⟩ col).err = none ↔ tookAll h (some w) col := by
  induction col generalizing w with
  | nil => simp [slotAfter, tookAll, takeAll]
  | cons b col ih =>
    have hstep : slotAfter h ⟨some w, none⟩ (b :: col) =
        slotAfter h (writeShard h (some w) b) col := rfl
    rw [hstep, writeShard]
    cases hw : w.write h b with
    | mk res w' =>
      cases res with
      | error e =>
        rw [slotAfter_of_err rfl]
        simp [tookAll, takeAll, hw]
      | ok n =>
        by_cases hn : n < b.length
        · dsimp only
          rw [if_pos hn, slotAfter_of_err rfl]
          simp [tookAll, takeAll, hw, hn]
        · dsimp only
          rw [if_neg hn, ih w']
          simp [tookAll, takeAll, hw, hn]

/-- Where there is a block, a missing writer gets an error as well. -/
theorem slotAfter_new_err_iff (writer : Option BitrotWriter) (hne : col ≠ []) :
    (slotAfter h ⟨writer, none⟩ col).err = none ↔ tookAll h writer col := by
  cases writer with
  | some w => exact slotAfter_err_iff w col
  | none =>
    obtain ⟨b, col, rfl⟩ := exists_cons_of_ne_nil hne
    have hstep : slotAfter h ⟨none, none⟩ (b :: col) =
        slotAfter h ⟨none, some .diskNotFound⟩ col := rfl
    rw [hstep, slotAfter_of_err rfl]
    simp [tookAll]

/-- Each writer sees its own column of the blocks. -/
theorem getElem?_slotsAfter (hlen : ∀ blk ∈ blocks, blk.length = s.length) (i : ℕ) :
    (slotsAfter h s blocks)[i]? = s[i]?.map (slotAfter h · (column blocks i)) := by
  induction blocks generalizing s with
  | nil => simp [slotsAfter, slotAfter, column]
  | cons blk blocks ih =>
    have hblk := hlen blk mem_cons_self
    have hrest : ∀ blk' ∈ blocks, blk'.length = (List.zipWith (writeSlot h) s blk).length := by
      intro blk' hmem
      rw [length_zipWith, hblk, Nat.min_self]
      exact hlen blk' (mem_cons_of_mem _ hmem)
    have hstep : slotsAfter h s (blk :: blocks) =
        slotsAfter h (List.zipWith (writeSlot h) s blk) blocks := rfl
    rw [hstep, ih hrest, getElem?_zipWith]
    by_cases hi : i < s.length
    · rw [getElem?_eq_getElem hi, getElem?_eq_getElem (hblk ▸ hi)]
      simp [slotAfter, column, hblk ▸ hi]
    · rw [getElem?_eq_none (Nat.le_of_not_lt hi)]
      rfl

theorem count_errs_zipWith_le (ss : List WriterSlot) (blk : List Bytes) :
    ((List.zipWith (writeSlot h) ss blk).map err).count none ≤ (ss.map err).count none := by
  induction ss generalizing blk with
  | nil => simp
  | cons slot ss ih =>
    cases blk with
    | nil => simp
    | cons b blk =>
      have hrest := ih blk
      rw [zipWith_cons_cons, map_cons, map_cons, count_cons, count_cons]
      cases herr : slot.err with
      | none =>
        simp only [beq_self_eq_true, if_true]
        split <;> omega
      | some e =>
        rw [writeSlot_of_err (by rw [herr]; rfl), herr]
        simpa using hrest

/-- The writers without error only get fewer. -/
theorem count_errs_slotsAfter_le (ss : List WriterSlot) (bs : List (List Bytes)) :
    ((slotsAfter h ss bs).map err).count none ≤ (ss.map err).count none := by
  induction bs generalizing ss with
  | nil => exact Nat.le_refl _
  | cons blk bs ih => exact Nat.le_trans (ih _) (count_errs_zipWith_le ss blk)

/-- The writers without error after all blocks are those that took every block. -/
theorem count_errs_eq_takers (hne : blocks ≠ []) (hlen : ∀ blk ∈ blocks, blk.length = ws.length) :
    ((slotsAfter h (MultiWriter.new ws q).slots blocks).map err).count none =
      takers h ws blocks := by
  have hlen' : ∀ blk ∈ blocks, blk.length = (MultiWriter.new ws q).slots.length := by
    simpa [MultiWriter.new] using hlen
  have hcol : ∀ i, column blocks i ≠ [] := by simpa [column] using hne
  have hlist : (slotsAfter h (MultiWriter.new ws q).slots blocks).map (·.err.isNone) =
      ws.mapIdx fun i w => tookAll h w (column blocks i) := by
    refine ext_getElem? fun i => ?_
    rw [getElem?_map, getElem?_slotsAfter hlen', getElem?_mapIdx]
    cases hw : ws[i]? with
    | none => simp [MultiWriter.new, hw]
    | some w =>
      have := slotAfter_new_err_iff (h := h) w (hcol i)
      simp only [MultiWriter.new, getElem?_map, hw, Option.map_some, Option.some_inj]
      rw [Bool.eq_iff_iff, Option.isNone_iff_eq_none]
      exact this
  rw [takers, ← hlist, List.count, List.count, countP_map, countP_map]
  congr 1
  funext slot
  cases hs : slot.err <;> simp [hs]

/-- Without blocks every writer that is there took them all. -/
theorem takers_nil (h : Hasher) (ws : List (Option BitrotWriter)) :
    takers h ws [] = ws.countP Option.isSome := by
  have hlist : (ws.mapIdx fun i w => tookAll h w (column [] i)) = ws.map Option.isSome := by
    refine ext_getElem? fun i => ?_
    rw [getElem?_mapIdx, getElem?_map]
    congr 1
    funext w
    cases w <;> rfl
  rw [takers, hlist, List.count, countP_map]
  congr 1
  funext w
  cases w <;> rfl

theorem length_slots_write (h : Hasher) (o : ErrOrder) (mw : MultiWriter)
    (ds : List Bytes) : (mw.write h o ds).2.slots.length = mw.slots.length := by
  by_cases hlen : ds.length = mw.slots.length
  · rw [write_snd h o hlen]
    simp [hlen]
  · rw [write, if_pos hlen]

end MultiWriter

namespace Erasure

open MultiWriter

variable (h : Hasher) (o : ErrOrder) (mw : MultiWriter) {c : Codec} {e : Erasure}
  {s : Source IoError} {blocks : List (List Bytes)} {ws : List (Option BitrotWriter)} {q : ℕ}

/-- The writing loop succeeds when a quorum is left after the last block, and then every block was
given to every writer without error. -/
theorem consume_ok_iff (hlen : ∀ blk ∈ blocks, blk.length = mw.slots.length)
    (hne : ∀ blk ∈ blocks, blk ≠ []) :
    ((consume h o mw blocks).1 = .ok () ↔
      blocks = [] ∨ mw.writeQuorum ≤
        ((slotsAfter h mw.slots blocks).map err).count none) ∧
    ((consume h o mw blocks).1 = .ok () →
      (consume h o mw blocks).2 = ⟨slotsAfter h mw.slots blocks, mw.writeQuorum⟩) := by
  induction blocks generalizing mw with
  | nil => exact ⟨by simp [consume], fun _ => rfl⟩
  | cons blk blocks ih =>
    have hblk := hlen blk mem_cons_self
    have hsnd := write_snd h o hblk
    have hok := write_ok_iff h o hblk
    rw [consume, if_neg (hne blk mem_cons_self)]
    have hstep : slotsAfter h mw.slots (blk :: blocks) =
        slotsAfter h (List.zipWith (writeSlot h) mw.slots blk) blocks := rfl
    rw [hstep]
    have hle := count_errs_slotsAfter_le (h := h) (List.zipWith (writeSlot h) mw.slots blk) blocks
    cases hw : mw.write h o blk with
    | mk res mw' =>
      rw [hw] at hsnd hok
      obtain rfl : mw' = _ := hsnd
      cases res with
      | error f =>
        have hlt : ¬ mw.writeQuorum ≤ _ := fun hq => by simpa using hok.2 hq
        dsimp only [MultiWriter.errs] at hlt ⊢
        simp only [reduceCtorEq, false_iff, false_implies, and_true, cons_ne_nil, false_or]
        omega
      | ok u =>
        have hge := hok.1 rfl
        have hrest := ih { mw with slots := List.zipWith (writeSlot h) mw.slots blk }
          (fun blk' hmem => ?_) (fun blk' hmem => hne blk' (mem_cons_of_mem _ hmem))
        · dsimp only [MultiWriter.errs] at hge hrest ⊢
          refine ⟨hrest.1.trans ?_, hrest.2⟩
          constructor
          · rintro (rfl | hq)
            · exact .inr hge
            · exact .inr hq
          · rintro (hnil | hq)
            · exact absurd hnil (cons_ne_nil _ _)
            · exact .inr hq
        · rw [length_zipWith, hblk, Nat.min_self]
          exact hlen blk' (mem_cons_of_mem _ hmem)

theorem length_slots_consume (bs : List (List Bytes)) :
    (consume h o mw bs).2.slots.length = mw.slots.length := by
  induction bs generalizing mw with
  | nil => rfl
  | cons blk bs ih =>
    have hw := length_slots_write h o mw blk
    rw [consume]
    split
    · rfl
    · cases hwrite : mw.write h o blk with
      | mk res mw' =>
        rw [hwrite] at hw
        cases res with
        | error f => exact hw
        | ok u => exact (ih mw').trans hw

/-- The blocks a stream is cut into. -/
def streamBlocks (c : Codec) (e : Erasure) (s : Source IoError) : List (List Bytes) :=
  (produce c e (sourceSize s + 1) s 0).1

/-- What the task that reads the stream returns. -/
def streamResult (c : Codec) (e : Erasure) (s : Source IoError) :
    Except Failure (Source IoError × ℕ) :=
  (produce c e (sourceSize s + 1) s 0).2

theorem sourceSize_fill (s : Source IoError) (n : ℕ) :
    (s.fill n).1.length + sourceSize (s.fill n).2.2 ≤ sourceSize s := by
  fun_induction Source.fill s n with
  | case1 => simp
  | case2 | case3 | case4 => simp [sourceSize]
  | case5 b bs rest n hlt =>
    simp only [sourceSize, map_cons, sum_cons, length_take, length_drop]
    omega
  | case6 b bs rest n hge r ih =>
    simp only [sourceSize, map_cons, sum_cons, length_append, r] at ih ⊢
    omega

theorem sourceSize_readFull {n : ℕ} {b : Bytes} {r : Source IoError}
    (hread : readFull s n = (.ok b, r)) : b.length + sourceSize r ≤ sourceSize s := by
  have hfill := sourceSize_fill s n
  unfold readFull at hread
  split at hread
  · rename_i b' rest' heq
    rw [heq] at hfill
    obtain ⟨rfl, rfl⟩ : b' = b ∧ rest' = r := by simpa using hread
    exact hfill
  · rename_i b' rest' heq
    rw [heq] at hfill
    split at hread
    · simp at hread
    · obtain ⟨rfl, rfl⟩ : b' = b ∧ rest' = r := by simpa using hread
      exact hfill
  · split at hread <;> simp at hread

/-- The fuel of `encode` is enough: more of it changes nothing. -/
theorem produce_fuel {f fuel' : ℕ} (hfuel : sourceSize s < f) (hfuel' : sourceSize s < fuel')
    (t : ℕ) : produce c e f s t = produce c e fuel' s t := by
  induction f generalizing fuel' s t with
  | zero => omega
  | succ f ih =>
    obtain ⟨fuel', rfl⟩ := Nat.exists_eq_add_of_lt hfuel'
    rw [produce, produce]
    cases hread : readFull s e.blockSize with
    | mk res rest =>
      cases res with
      | error err => rfl
      | ok b =>
        dsimp only
        by_cases hb : b = []
        · rw [if_pos hb, if_pos hb]
        · have hpos := length_pos_iff.2 hb
          have hsize := sourceSize_readFull hread
          have hlt' : sourceSize rest < sourceSize s + fuel' := by omega
          rw [if_neg hb, if_neg hb, ih (by omega) hlt']

/-- Every block has a shard for every writer. -/
theorem length_of_mem_produce (he : e.WellFormed) (hc : c.Lawful e.dataShards e.parityShards)
    {f t : ℕ} {blk : List Bytes} (hmem : blk ∈ (produce c e f s t).1) :
    blk.length = e.totalShardCount := by
  induction f generalizing s t with
  | zero => simp [produce] at hmem
  | succ f ih =>
    rw [produce] at hmem
    cases hread : readFull s e.blockSize with
    | mk res rest =>
      rw [hread] at hmem
      cases res with
      | error err =>
        dsimp only at hmem
        split at hmem
        · split at hmem <;> simp at hmem
        · simp at hmem
      | ok b =>
        dsimp only at hmem
        split_ifs at hmem with hb
        · simp at hmem
        · obtain ⟨os, rs, henc⟩ := encodeData_ok he hc hb
          rw [henc.encodes] at hmem
          rcases mem_cons.1 hmem with rfl | hmem
          · rw [length_append, henc.originals, henc.recovery, totalShardCount]
          · exact ih hmem

theorem encode_eq : encode h o c e s ws q =
    match consume h o (.new ws q) (streamBlocks c e s) with
    | (.error f, mw) => (.error f, mw)
    | (.ok _, mw) => (streamResult c e s, mw) := rfl

variable (c e s ws q) in
theorem length_writers_encode : (encode h o c e s ws q).2.writers.length = ws.length := by
  have hlen := length_slots_consume h o (.new ws q) (streamBlocks c e s)
  rw [encode_eq, MultiWriter.writers, length_map]
  cases hrun : consume h o (.new ws q) (streamBlocks c e s) with
  | mk res mw =>
    rw [hrun] at hlen
    cases res <;> simpa [MultiWriter.new] using hlen

variable (s q) in
/-- `encode` succeeds when the stream is read to its end and a quorum of the writers takes every
block of it. -/
theorem encode_ok_iff (he : e.WellFormed) (hc : c.Lawful e.dataShards e.parityShards)
    (hlen : ws.length = e.totalShardCount) {x : Source IoError × ℕ} :
    (encode h o c e s ws q).1 = .ok x ↔
      streamResult c e s = .ok x ∧
        (streamBlocks c e s = [] ∨ q ≤ takers h ws (streamBlocks c e s)) := by
  have hblk : ∀ blk ∈ streamBlocks c e s, blk.length = ws.length := fun blk hmem =>
    (length_of_mem_produce he hc hmem).trans hlen.symm
  have hne : ∀ blk ∈ streamBlocks c e s, blk ≠ [] := by
    intro blk hmem hnil
    have hpos := he.dataShards_pos
    have := hblk blk hmem
    rw [hlen, totalShardCount, hnil, length_nil] at this
    omega
  have hslots : (MultiWriter.new ws q).slots.length = ws.length := by
    simp [MultiWriter.new]
  obtain ⟨hiff, -⟩ := consume_ok_iff h o (.new ws q)
    (fun blk hmem => (hblk blk hmem).trans hslots.symm) hne
  have hquorum : (streamBlocks c e s = [] ∨ q ≤ takers h ws (streamBlocks c e s)) ↔
      (consume h o (.new ws q) (streamBlocks c e s)).1 = .ok () := by
    rw [hiff]
    by_cases hnil : streamBlocks c e s = []
    · simp [hnil]
    · rw [count_errs_eq_takers hnil hblk]
      rfl
  rw [encode_eq, hquorum]
  cases hrun : consume h o (.new ws q) (streamBlocks c e s) with
  | mk res mw => cases res <;> simp

end Erasure

end Rustfs
