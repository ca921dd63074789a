import Rustfs.Error
import Rustfs.SetDisk.Metadata

/-! The read and write quorum of an object, from the parities that its metadata names. -/
namespace Rustfs.SetDisks

open ErrorReduce Tally List

/-- The parity that the metadata of a disk stands for in a set of `n`; half of the disks for a delete
marker and for an object without content. -/
def parityOf (n : ℕ) (f : FileInfo) : ℤ :=
  if f.deleted || f.size == 0 then (n / 2 : ℕ) else f.erasure.parityBlocks

def listObjectParities (metas : List FileInfo) (errs : List (Option DiskError)) : List ℤ :=
  List.zipWith
    (fun f err => if err.isSome || !f.isValid then -1 else parityOf metas.length f) metas errs

/-- How many disks must name a parity before it is taken. -/
def parityQuorum (n defaultParityCount : ℕ) (parity : ℤ) : ℤ :=
  if 0 < defaultParityCount ∧ parity = 0 then (n / 2 : ℕ) + 1 else n - parity

/-- One turn of the loop over the counted parities, with the greatest count and its parity so far. -/
def commonParityStep (n defaultParityCount : ℕ) (s : ℕ × ℤ) (e : ℤ × ℕ) : ℕ × ℤ :=
  if e.1 = -1 then s
  else if (e.2 : ℤ) < parityQuorum n defaultParityCount e.1 then s
  else if e.2 > s.1 then (e.2, e.1)
  else s

def commonParity (order : IterOrder (ℤ × ℕ)) (parities : List ℤ) (defaultParityCount : ℕ) : ℤ :=
  let s := (order.run (tally parities)).foldl (commonParityStep parities.length defaultParityCount)
    (0, 0)
  if s.1 = 0 then -1 else s.2

/-- The read and the write quorum. -/
def objectQuorumFromMeta (errOrder : ErrOrder) (order : IterOrder (ℤ × ℕ))
    (metas : List FileInfo) (errs : List (Option DiskError)) (defaultParityCount : ℕ) :
    Except DiskError (ℤ × ℤ) :=
  let expectedRquorum := if defaultParityCount = 0 then metas.length else metas.length / 2
  match reduceReadQuorumErrs errOrder errs objectOpIgnoredErrs expectedRquorum with
  | some err => .error err
  | none =>
    if defaultParityCount = 0 then .ok (metas.length, metas.length)
    else
      let parityBlocks := commonParity order (listObjectParities metas errs) defaultParityCount
      if parityBlocks < 0 then .error .erasureReadQuorum
      else
        let dataBlocks := metas.length - parityBlocks
        let writeQuorum := if dataBlocks = parityBlocks then dataBlocks + 1 else dataBlocks
        .ok (dataBlocks, writeQuorum)

variable {order order' : IterOrder (ℤ × ℕ)} {ps : List ℤ} {p q : ℤ} {n dpc : ℕ}

/-- A parity that enough disks name. -/
def Qualifies (parities : List ℤ) (dpc : ℕ) (p : ℤ) : Prop :=
  p ∈ parities ∧ p ≠ -1 ∧ parityQuorum parities.length dpc p ≤ parities.count p

variable (n dpc) in
/-- The loop has met no entry that qualifies, or holds one of them. -/
theorem foldl_commonParityStep (es : List (ℤ × ℕ)) (s : ℕ × ℤ) :
    let r := es.foldl (commonParityStep n dpc) s
    (r = s ∧ ∀ e ∈ es, e.1 ≠ -1 → parityQuorum n dpc e.1 ≤ e.2 → e.2 ≤ s.1) ∨
      ∃ e ∈ es, e.1 ≠ -1 ∧ parityQuorum n dpc e.1 ≤ e.2 ∧ r = (e.2, e.1) ∧ s.1 < e.2 := by
  induction es using List.reverseRecOn with
  | nil => simp
  | append_singleton es e ih =>
    rw [foldl_append, foldl_cons, foldl_nil, commonParityStep]
    generalize es.foldl (commonParityStep n dpc) s = r at ih
    have hkeep : ¬(e.1 ≠ -1 ∧ parityQuorum n dpc e.1 ≤ e.2 ∧ r.1 < e.2) →
        (r = s ∧ ∀ d ∈ es ++ [e], d.1 ≠ -1 → parityQuorum n dpc d.1 ≤ d.2 → d.2 ≤ s.1) ∨
          ∃ d ∈ es ++ [e], d.1 ≠ -1 ∧ parityQuorum n dpc d.1 ≤ d.2 ∧ r = (d.2, d.1) ∧ s.1 < d.2 := by
      intro hnot
      rcases ih with ⟨rfl, hnone⟩ | ⟨d, hd, hrest⟩
      · refine .inl ⟨rfl, forall_mem_append.mpr ⟨hnone, forall_mem_singleton.mpr ?_⟩⟩
        exact fun hdefined hquorum => not_lt.mp fun hmore => hnot ⟨hdefined, hquorum, hmore⟩
      · exact .inr ⟨d, mem_append_left _ hd, hrest⟩
    split_ifs with h₁ h₂ h₃
    · exact hkeep fun h => h.1 h₁
    · exact hkeep fun h => by omega
    · refine .inr ⟨e, by simp, h₁, by omega, rfl, ?_⟩
      rcases ih with ⟨rfl, -⟩ | ⟨d, -, -, -, rfl, hmore⟩
      · exact h₃
      · exact hmore.trans h₃
    · exact hkeep fun h => h₃ h.2.2

/-- What is found qualifies; nothing is found only if nothing does. -/
theorem commonParity_cases (o : IterOrder (ℤ × ℕ)) (ps : List ℤ) (dpc : ℕ) :
    (commonParity o ps dpc = -1 ∧ ∀ p, ¬ Qualifies ps dpc p) ∨
      Qualifies ps dpc (commonParity o ps dpc) := by
  unfold commonParity
  rcases foldl_commonParityStep ps.length dpc (o.run (tally ps)) (0, 0) with
    ⟨hsame, hnone⟩ | ⟨⟨p, c⟩, hmem, hdefined, hquorum, hlast, hpos⟩
  · refine .inl ⟨by rw [hsame]; rfl, fun p hp => ?_⟩
    obtain ⟨hmem, hdefined, hquorum⟩ := hp
    have hentry : (p, ps.count p) ∈ o.run (tally ps) := by simp [hmem]
    have hzero := hnone _ hentry hdefined hquorum
    have hcount : 0 < ps.count p := count_pos_iff.mpr hmem
    omega
  · right
    rw [IterOrder.mem_run, mem_tally] at hmem
    obtain ⟨hmem, rfl⟩ := hmem
    rw [hlast]
    rw [if_neg (by omega)]
    exact ⟨hmem, hdefined, hquorum⟩

/-- No parity is above half of the disks. -/
def Halved (parities : List ℤ) : Prop :=
  ∀ p ∈ parities, p = -1 ∨ (0 ≤ p ∧ 2 * p ≤ parities.length)

/-- Two parities that both qualify would need more disks than there are. -/
theorem qualifies_unique (hhalf : Halved ps) (hp : Qualifies ps dpc p)
    (hq : Qualifies ps dpc q) : p = q := by
  obtain ⟨hpmem, hpdef, hpcount⟩ := hp
  obtain ⟨hqmem, hqdef, hqcount⟩ := hq
  have hplow := (hhalf p hpmem).resolve_left hpdef
  have hqlow := (hhalf q hqmem).resolve_left hqdef
  by_contra hne
  have hsum := count_add_count_le hne ps
  unfold parityQuorum at hpcount hqcount
  split_ifs at hpcount hqcount <;> omega

theorem commonParity_order (hhalf : Halved ps) :
    commonParity order ps dpc = commonParity order' ps dpc := by
  rcases commonParity_cases order ps dpc with ⟨hnone, hall⟩ | hsome
  · rcases commonParity_cases order' ps dpc with ⟨hnone', -⟩ | hsome'
    · rw [hnone, hnone']
    · exact absurd hsome' (hall _)
  · rcases commonParity_cases order' ps dpc with ⟨-, hall'⟩ | hsome'
    · exact absurd hsome (hall' _)
    · exact qualifies_unique hhalf hsome hsome'

section

variable {ms : List FileInfo} {es : List (Option DiskError)} {errOrder : ErrOrder}

/-- The disks that answered with valid metadata of a parity. -/
def carriers (metas : List FileInfo) (errs : List (Option DiskError)) (p : ℤ) : ℕ :=
  (metas.zip errs).countP fun x => x.2.isNone && x.1.isValid && parityOf metas.length x.1 == p

theorem length_listObjectParities (h : es.length = ms.length) :
    (listObjectParities ms es).length = ms.length := by
  rw [listObjectParities, length_zipWith, h, min_self]

theorem count_listObjectParities (hp : p ≠ -1) :
    (listObjectParities ms es).count p = carriers ms es p := by
  unfold listObjectParities carriers
  rw [List.count, ← map_uncurry_zip_eq_zipWith, countP_map]
  refine countP_congr fun x _ => ?_
  obtain ⟨f, err⟩ := x
  have hne : ¬ (-1 : ℤ) = p := fun h => hp h.symm
  cases err <;> cases hv : f.isValid <;> simp [Function.uncurry_apply_pair, hv, hne]

/-- The layout of every version that has one takes up the whole set. -/
def LaidOut (metas : List FileInfo) : Prop :=
  ∀ f ∈ metas, f.isValid = true → f.deleted = false →
    f.erasure.dataBlocks + f.erasure.parityBlocks = metas.length

theorem halved_listObjectParities (h : es.length = ms.length) (hlayout : LaidOut ms) :
    Halved (listObjectParities ms es) := by
  intro p hp
  rw [length_listObjectParities h]
  unfold listObjectParities at hp
  rw [← map_uncurry_zip_eq_zipWith] at hp
  obtain ⟨⟨f, err⟩, hx, rfl⟩ := mem_map.mp hp
  have hf : f ∈ ms := (of_mem_zip hx).1
  dsimp only [Function.uncurry_apply_pair]
  split
  · exact .inl rfl
  case isFalse hok =>
    right
    have hvalid : f.isValid = true := by simp_all
    unfold parityOf
    split
    · omega
    case isFalse hsized =>
      have hlive : f.deleted = false := by simp_all
      have hsum := hlayout f hf hvalid hlive
      have hge : f.erasure.dataBlocks ≥ f.erasure.parityBlocks := by
        simp only [FileInfo.isValid, hlive, Bool.false_or, Bool.and_eq_true, decide_eq_true_eq]
          at hvalid
        exact hvalid.1.1
      omega

/-- The order of the counted errors does not decide whether there is a quorum of answers. -/
theorem reduceReadQuorumErrs_eq_none_iff (eo : ErrOrder)
    {i : List DiskError} {q : ℕ} :
    reduceReadQuorumErrs eo es i q = none ↔
      q ≤ nilCount es ∧ 0 < nilCount es ∧
        ∀ e, isIgnoredErr i e = false → countErrs es e ≤ nilCount es := by
  unfold reduceReadQuorumErrs reduceQuorumErrs
  rcases reduceErrs_cases eo es i with
    ⟨h, hpos, hle⟩ | ⟨e, h, -, hcounted, hlt, -⟩ | ⟨h, hzero, -⟩
  · simp only [h, hpos, true_and]
    by_cases hquorum : q ≤ nilCount es
    · simp only [ge_iff_le, hquorum, if_true, true_and, true_iff]
      exact hle
    · simp [hquorum]
  · have hnot : ¬ ∀ e, isIgnoredErr i e = false → countErrs es e ≤ nilCount es :=
      fun hall => absurd (hall e hcounted) (by omega)
    simp only [h, hnot, and_false, iff_false]
    split <;> simp
  · simp only [h, hzero, Nat.lt_irrefl, false_and, and_false, iff_false]
    split <;> simp

variable {d : ℕ} {r w : ℤ}

/-- What a call that gives quorums has gone through. -/
theorem objectQuorumFromMeta_cases
    (h : objectQuorumFromMeta errOrder order ms es d = .ok (r, w)) :
    reduceReadQuorumErrs errOrder es objectOpIgnoredErrs
        (if d = 0 then ms.length else ms.length / 2) = none ∧
      ((d = 0 ∧ r = ms.length ∧ w = ms.length) ∨
        (0 < d ∧ ∃ p, Qualifies (listObjectParities ms es) d p ∧
          0 ≤ p ∧ r = ms.length - p ∧ w = if r = p then r + 1 else r)) := by
  unfold objectQuorumFromMeta at h
  dsimp only at h
  split at h
  · cases h
  case h_2 hreduce =>
    refine ⟨hreduce, ?_⟩
    by_cases hzero : d = 0
    · rw [if_pos hzero] at h
      cases h
      exact .inl ⟨hzero, rfl, rfl⟩
    rw [if_neg hzero] at h
    rcases commonParity_cases order (listObjectParities ms es) d with
      ⟨hnone, -⟩ | hqualifies
    · rw [hnone] at h
      cases h
    · split at h
      · cases h
      case isFalse hnonneg =>
        cases h
        exact .inr ⟨Nat.pos_of_ne_zero hzero, _, hqualifies, not_lt.mp hnonneg, rfl, rfl⟩

theorem nilCount_eq_length_iff : nilCount es = es.length ↔ ∀ e ∈ es, e = none := by
  rw [nilCount, count_eq_length]
  exact forall₂_congr fun e _ => eq_comm

/-- The quorums overlap and do not depend on the order of a map. Where there is parity, a read quorum
of disks answered with the parity it comes from, or a majority if that parity is zero; without parity
all disks answered. -/
theorem objectQuorumFromMeta_spec (errOrder : ErrOrder) (order : IterOrder (ℤ × ℕ))
    (metas : List FileInfo) (errs : List (Option DiskError)) (defaultParityCount : ℕ) (r w : ℤ)
    (herrs : errs.length = metas.length) (hlayout : LaidOut metas)
    (h : objectQuorumFromMeta errOrder order metas errs defaultParityCount = .ok (r, w)) :
    r + w > metas.length ∧ 2 * w > metas.length ∧
      (defaultParityCount = 0 → r = metas.length ∧ w = metas.length ∧ ∀ e ∈ errs, e = none) ∧
      (0 < defaultParityCount → ∃ p : ℤ, r = metas.length - p ∧
        (p ≠ 0 → r ≤ carriers metas errs p) ∧ (p = 0 → metas.length / 2 < carriers metas errs 0)) ∧
      ∀ errOrder' order',
        objectQuorumFromMeta errOrder' order' metas errs defaultParityCount = .ok (r, w) := by
  obtain ⟨hreduce, hcases⟩ := objectQuorumFromMeta_cases h
  have hhalf := halved_listObjectParities herrs hlayout
  have hlen := length_listObjectParities herrs
  have horder : ∀ errOrder' order',
      objectQuorumFromMeta errOrder' order' metas errs defaultParityCount = .ok (r, w) := by
    intro errOrder' order'
    have hreduce' := (reduceReadQuorumErrs_eq_none_iff errOrder').mpr
      ((reduceReadQuorumErrs_eq_none_iff errOrder).mp hreduce)
    have hparity : commonParity order' (listObjectParities metas errs) defaultParityCount =
        commonParity order (listObjectParities metas errs) defaultParityCount :=
      commonParity_order hhalf
    unfold objectQuorumFromMeta at h ⊢
    simp only [hreduce, hreduce', hparity] at h ⊢
    exact h
  rcases hcases with ⟨hzero, rfl, rfl⟩ | ⟨hpos, p, ⟨hmem, hdefined, hquorum⟩, hnonneg, rfl, hw⟩
  · rw [if_pos hzero] at hreduce
    obtain ⟨hall, hone, -⟩ := (reduceReadQuorumErrs_eq_none_iff errOrder).mp hreduce
    have hle : nilCount errs ≤ errs.length := count_le_length
    have hnone := nilCount_eq_length_iff.mp (show nilCount errs = errs.length by omega)
    exact ⟨by omega, by omega, fun _ => ⟨rfl, rfl, hnone⟩, fun h => by omega, horder⟩
  · have hlow := (hhalf p hmem).resolve_left hdefined
    rw [hlen] at hlow hquorum
    rw [count_listObjectParities hdefined] at hquorum
    have hwrite : (metas.length - p : ℤ) + w > metas.length ∧ 2 * w > metas.length := by
      split at hw <;> omega
    refine ⟨hwrite.1, hwrite.2, fun h => by omega, fun _ => ⟨p, rfl, fun hp => ?_, fun hp => ?_⟩,
      horder⟩
    · rwa [parityQuorum, if_neg fun hz => hp hz.2] at hquorum
    · subst hp
      rw [parityQuorum, if_pos ⟨hpos, rfl⟩] at hquorum
      omega

/-- Metadata on one of four disks, with a parity. -/
def ofFour (parityBlocks index : ℕ) : FileInfo :=
  { size := 1,
    erasure := { dataBlocks := 4 - parityBlocks, parityBlocks, index, distribution := [1, 2, 3, 4] } }

theorem objectQuorumFromMeta_ofFour :
    LaidOut [ofFour 2 1, ofFour 2 2, ofFour 2 3, {}] ∧
      objectQuorumFromMeta .insertion .insertion [ofFour 2 1, ofFour 2 2, ofFour 2 3, {}]
        [none, none, none, some .diskNotFound] 2 = .ok (2, 3) ∧
      (2 : ℤ) + 3 > 4 ∧ ∀ errOrder order,
        objectQuorumFromMeta errOrder order [ofFour 2 1, ofFour 2 2, ofFour 2 3, {}]
          [none, none, none, some .diskNotFound] 2 = .ok (2, 3) := by
  have hlayout : LaidOut [ofFour 2 1, ofFour 2 2, ofFour 2 3, {}] := by
    unfold LaidOut
    decide
  have hrun : objectQuorumFromMeta .insertion .insertion [ofFour 2 1, ofFour 2 2, ofFour 2 3, {}]
      [none, none, none, some .diskNotFound] 2 = .ok (2, 3) := by decide
  obtain ⟨hsum, -, -, -, horder⟩ := objectQuorumFromMeta_spec _ _ _ _ _ _ _ rfl hlayout hrun
  exact ⟨hlayout, hrun, hsum, horder⟩

/-- An object without parity that one disk has lost, and a set without parity whose only disk holds
no metadata. -/
theorem objectQuorumFromMeta_short :
    (LaidOut [ofFour 0 1, ofFour 0 2, ofFour 0 3, {}] ∧
      objectQuorumFromMeta .insertion .insertion [ofFour 0 1, ofFour 0 2, ofFour 0 3, {}]
        [none, none, none, some .diskNotFound] 2 = .ok (4, 4) ∧
      carriers [ofFour 0 1, ofFour 0 2, ofFour 0 3, {}] [none, none, none, some .diskNotFound] 0 = 3) ∧
    (LaidOut [{}] ∧ objectQuorumFromMeta .insertion .insertion [{}] [none] 0 = .ok (1, 1) ∧
      ∀ p, carriers [{}] [none] p = 0) := by
  refine ⟨⟨?_, by decide, by decide⟩, ?_, by decide, fun p => rfl⟩ <;> unfold LaidOut <;> decide

end

end Rustfs.SetDisks
