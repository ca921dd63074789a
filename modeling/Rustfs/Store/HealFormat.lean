import Mathlib.Data.List.ReduceOption
import Rustfs.Store.Init

/-! Healing the formats of a pool: the reference format, and the ids that drives are given. -/
namespace Rustfs

open Tally StoreInit List

/-- The format that the drives of a pool refer to: its number of drives is that of more than half
of them, and it is the first with that number. -/
def Reference (formats : List (Option FormatV3)) (r : FormatV3) : Prop :=
  0 < r.drives ∧
    formats.length / 2 < formats.reduceOption.countP (fun f => f.drives = r.drives) ∧
    formats.reduceOption.find? (fun f => f.drives = r.drives) = some r

/-- A drive with the deployment id and the set layout of `r`. -/
def Agrees (r f : FormatV3) : Prop := f.id = r.id ∧ f.erasure.sets = r.erasure.sets

instance (r f : FormatV3) : Decidable (Agrees r f) := inferInstanceAs (Decidable (_ ∧ _))

section

variable {o : IterOrder (ℕ × ℕ)} {formats : List (Option FormatV3)} {r : FormatV3}

theorem countP_drives_eq_count (n : ℕ) (fs : List FormatV3) :
    fs.countP (fun f => f.drives = n) = (fs.map FormatV3.drives).count n := by
  rw [List.count, countP_map]
  exact countP_congr fun f _ => by simp

/-- The counts of the source single out the number of drives of more than half. -/
theorem getFormatErasureInQuorum_ok_iff : getFormatErasureInQuorum o formats = .ok r ↔
    ∃ f, Reference formats f ∧ r = { f with erasure := { f.erasure with this := Uuid.nil } } := by
  have hlen : (formats.reduceOption.map FormatV3.drives).length ≤ formats.length := by
    rw [length_map]
    exact reduceOption_length_le formats
  unfold getFormatErasureInQuorum
  dsimp only
  constructor
  · intro h
    cases hbest : maxBy (o.run (tally (formats.reduceOption.map FormatV3.drives))) with
    | none => simp [hbest] at h
    | some best =>
      obtain ⟨hmem, -⟩ := maxBy_spec hbest
      obtain ⟨n, c⟩ := best
      obtain ⟨-, rfl⟩ := mem_tally.1 (o.mem_run.1 hmem)
      simp only [hbest, Option.getD_some] at h
      split_ifs at h with hquorum
      rw [not_or, Nat.not_le] at hquorum
      split at h
      · cases h
      · rename_i f hf
        have hn : f.drives = n := by simpa using find?_some hf
        subst hn
        refine ⟨f, ⟨Nat.pos_of_ne_zero hquorum.1, ?_, hf⟩, (Except.ok.inj h).symm⟩
        rw [countP_drives_eq_count]
        exact hquorum.2
  · rintro ⟨f, ⟨hpos, hcount, hfind⟩, rfl⟩
    rw [countP_drives_eq_count] at hcount
    rw [maxBy_run_tally_of_majority o hlen hcount, Option.getD_some, if_neg (by omega)]
    simp only [hfind]

end

/-- A drive of the pool when healing looks at it: what loading its format gives, whether its
information came with an endpoint, the id on it when the format does not load, whether it could be
opened, and its answer to a new format. -/
structure HealDrive where
  load : Except DiskError FormatV3
  hasInfo : Bool := true
  hidden : Option Uuid := none
  opened : Bool := true
  save : Option DiskError := none

/-- The drive id that is on the drive. -/
def HealDrive.carried (d : HealDrive) : Option Uuid :=
  match d.load with
  | .ok f => some f.erasure.this
  | .error _ => d.hidden

structure HealPool where
  setCount : ℕ
  setDriveCount : ℕ
  drives : List HealDrive
  order : IterOrder (ℕ × ℕ)
  dryRun : Bool := false

namespace HealPool

variable (p : HealPool) (ref : FormatV3)

def loads : List (Except DiskError FormatV3) := p.drives.map HealDrive.load

/-- A new format whose every field is overwritten with that of the reference. -/
def proposedFormat (i j : ℕ) : FormatV3 :=
  { ref with
    erasure := { ref.erasure with this := (ref.erasure.sets.getD i []).getD j Uuid.nil } }

/-- The turn for the `j`-th drive of the `i`-th set; `none` when an index is out of bounds. -/
def healSlot (newFormats : List (List (Option FormatV3))) (s : ℕ × ℕ) :
    Option (List (List (Option FormatV3))) :=
  match p.drives[s.1 * p.setDriveCount + s.2]? with
  | none => none
  | some d =>
    if d.load = .error .unformattedDisk then
      if s.1 < p.setCount ∧ s.2 < p.setDriveCount then
        some (newFormats.modify s.1 fun set => set.set s.2 (some (proposedFormat ref s.1 s.2)))
      else none
    else if d.load.toOption.isSome ∧ d.hasInfo ∧ ¬(s.1 < p.setCount ∧ s.2 < p.setDriveCount) then
      none
    else some newFormats

/-- The slots of the reference, set by set. -/
def refSlots : List (ℕ × ℕ) :=
  ref.erasure.sets.zipIdx.flatMap fun q => (List.range q.1.length).map fun j => (q.2, j)

def newHealFormatSets : Option (List (List (Option FormatV3))) :=
  (refSlots ref).foldlM (p.healSlot ref)
    (List.replicate p.setCount (List.replicate p.setDriveCount none))

end HealPool

/-- The formats that `heal_format` saves, by the position of the drive, and the error it reports. -/
structure HealRun where
  saved : List (Option FormatV3)
  result : Except ObjectFailure (Option StorageError)

namespace HealPool

variable (p : HealPool)

/-- `tmp_new_formats` after the save of each format: those of drives that took it stay. -/
def savedFormats (newFormats : List (List (Option FormatV3))) : List (Option FormatV3) :=
  (List.range (p.setCount * p.setDriveCount)).map fun k =>
    match (newFormats.getD (k / p.setDriveCount) []).getD (k % p.setDriveCount) none,
        p.drives[k]? with
    | some fm, some d => if d.opened ∧ d.save = none then some fm else none
    | _, _ => none

def healFormat : HealRun :=
  let formats := formatsOf p.loads
  let errs := errsOf p.loads
  match checkFormatErasureValues formats p.setDriveCount with
  | .error e => { saved := [], result := .ok (some e) }
  | .ok () =>
    match getFormatErasureInQuorum p.order formats with
    | .error e => { saved := [], result := .ok (some e) }
    | .ok refFormat =>
      if ErrorReduce.countErrs errs .unformattedDisk = 0 then
        { saved := [], result := .ok (some .noHealRequired) }
      else
        match p.newHealFormatSets refFormat with
        | none => { saved := [], result := .error .panic }
        | some newFormats =>
          { saved := if p.dryRun then [] else p.savedFormats newFormats
            result := .ok none }

/-- The drive id on the drive at position `k` after healing. -/
def idAfter (k : ℕ) : Option Uuid :=
  match p.healFormat.saved.getD k none with
  | some fm => some fm.erasure.this
  | none => (p.drives[k]?).bind HealDrive.carried

/-- No index of the slot `s` of the reference is out of bounds. -/
def SlotFits (s : ℕ × ℕ) : Prop :=
  ∃ d, p.drives[s.1 * p.setDriveCount + s.2]? = some d ∧
    (d.load = .error .unformattedDisk ∨ d.load.toOption.isSome ∧ d.hasInfo = true →
      s.1 < p.setCount ∧ s.2 < p.setDriveCount)

/-- The drive at position `k` has no format. -/
def Unformatted (k : ℕ) : Prop := ∃ d, p.drives[k]? = some d ∧ d.load = .error .unformattedDisk

/-- A table with one cell for each drive of each set. -/
def Shaped (t : List (List (Option FormatV3))) : Prop :=
  t.length = p.setCount ∧ ∀ row ∈ t, row.length = p.setDriveCount

def cell (t : List (List (Option FormatV3))) (i j : ℕ) : Option FormatV3 := (t.getD i []).getD j none

@[simp] theorem proposedFormat_this (ref : FormatV3) (i j : ℕ) :
    (proposedFormat ref i j).erasure.this = (ref.erasure.sets.getD i []).getD j Uuid.nil := rfl

variable {p} {ref : FormatV3} {t t' : List (List (Option FormatV3))} {s : ℕ × ℕ}

theorem cell_modify (ht : p.Shaped t) (x : Option FormatV3) (i j : ℕ) {a b : ℕ}
    (h : a < p.setCount ∧ b < p.setDriveCount) :
    cell (t.modify a fun row => row.set b x) i j = if (i, j) = (a, b) then x else cell t i j := by
  have ha : a < t.length := ht.1 ▸ h.1
  have hrow : t[a].length = p.setDriveCount := ht.2 _ (getElem_mem ha)
  by_cases hia : i = a
  · subst hia
    have hi : (t.modify i fun row => row.set b x).getD i [] = t[i].set b x := by
      simp [getD_eq_getElem?_getD, getElem?_eq_getElem ha]
    have ht : t.getD i [] = t[i] := by simp [getD_eq_getElem?_getD, ha]
    rw [cell, hi, cell, ht]
    by_cases hjb : j = b
    · subst hjb
      simp [getD_eq_getElem?_getD, hrow, h.2]
    · simp [getD_eq_getElem?_getD, getElem?_set_ne (Ne.symm hjb), hjb]
  · simp [cell, hia, Ne.symm hia]

theorem shaped_modify (ht : p.Shaped t) (x : Option FormatV3) (a b : ℕ) :
    p.Shaped (t.modify a fun row => row.set b x) := by
  refine ⟨by simpa using ht.1, fun row hrow => ?_⟩
  obtain ⟨i, hi, rfl⟩ := mem_iff_getElem.1 hrow
  rw [getElem_modify]
  split
  · simpa using ht.2 _ (getElem_mem _)
  · exact ht.2 _ (getElem_mem _)

theorem healSlot_isSome_iff : (p.healSlot ref t s).isSome ↔ p.SlotFits s := by
  unfold healSlot SlotFits
  cases hd : p.drives[s.1 * p.setDriveCount + s.2]? with
  | none => simp
  | some d =>
    by_cases hunf : d.load = .error .unformattedDisk
    · simp [hunf]
    · simp only [hunf, if_false]
      split <;> simp_all

/-- After the turns of `l` the cells of its unformatted drives are filled, the others as before. -/
def Filled (p : HealPool) (ref : FormatV3) (l : List (ℕ × ℕ)) (t t' : List (List (Option FormatV3))) :
    Prop :=
  ∀ i j, ((i, j) ∈ l ∧ p.Unformatted (i * p.setDriveCount + j) →
      cell t' i j = some (proposedFormat ref i j)) ∧
    (¬((i, j) ∈ l ∧ p.Unformatted (i * p.setDriveCount + j)) → cell t' i j = cell t i j)

theorem healSlot_spec (ht : p.Shaped t) (h : p.healSlot ref t s = some t') :
    p.Shaped t' ∧ p.Filled ref [s] t t' := by
  obtain ⟨a, b⟩ := s
  unfold healSlot at h
  cases hd : p.drives[a * p.setDriveCount + b]? with
  | none => simp [hd] at h
  | some d =>
    have hunf : p.Unformatted (a * p.setDriveCount + b) ↔ d.load = .error .unformattedDisk := by
      simp [Unformatted, hd]
    simp only [hd] at h
    split at h
    · rename_i hload
      split_ifs at h with hfit
      cases h
      refine ⟨shaped_modify ht _ _ _, fun i j => ?_⟩
      rw [cell_modify ht _ i j hfit, mem_singleton]
      by_cases hs : (i, j) = (a, b)
      · cases hs
        simp [hunf, hload]
      · simp [hs]
    · rename_i hload
      split at h
      · cases h
      · cases h
        refine ⟨ht, fun i j => ⟨?_, fun _ => rfl⟩⟩
        rintro ⟨hs, hu⟩
        cases mem_singleton.1 hs
        exact absurd (hunf.1 hu) hload

theorem healSlots_isSome_iff {l : List (ℕ × ℕ)} :
    (l.foldlM (p.healSlot ref) t).isSome ↔ ∀ s ∈ l, p.SlotFits s := by
  induction l generalizing t with
  | nil => simp
  | cons s l ih =>
    have hfirst : (p.healSlot ref t s).isSome ↔ p.SlotFits s := healSlot_isSome_iff
    rw [foldlM_cons, forall_mem_cons, ← hfirst]
    cases hs : p.healSlot ref t s with
    | none => simp
    | some t' => simpa using ih

theorem healSlots_spec {l : List (ℕ × ℕ)} (ht : p.Shaped t)
    (h : l.foldlM (p.healSlot ref) t = some t') : p.Filled ref l t t' := by
  induction l generalizing t with
  | nil =>
    obtain rfl : t = t' := by simpa using h
    exact fun i j => ⟨fun hs => by simp at hs, fun _ => rfl⟩
  | cons s l ih =>
    rw [foldlM_cons] at h
    cases hs : p.healSlot ref t s with
    | none => simp [hs] at h
    | some u =>
      obtain ⟨hu, hfirst⟩ := healSlot_spec ht hs
      have hrest := ih hu (by simpa [hs] using h)
      intro i j
      by_cases hl : (i, j) ∈ l ∧ p.Unformatted (i * p.setDriveCount + j)
      · exact ⟨fun _ => (hrest i j).1 hl, fun hn => (hn ⟨mem_cons_of_mem _ hl.1, hl.2⟩).elim⟩
      · rw [(hrest i j).2 hl, mem_cons]
        have := hfirst i j
        rw [mem_singleton] at this
        refine ⟨fun hx => this.1 ⟨hx.1.resolve_right fun hm => hl ⟨hm, hx.2⟩, hx.2⟩,
          fun hx => this.2 fun hy => hx ⟨.inl hy.1, hy.2⟩⟩

theorem mem_refSlots {i j : ℕ} :
    (i, j) ∈ refSlots ref ↔ j < (ref.erasure.sets.getD i []).length := by
  rw [refSlots, mem_flatMap, getD_eq_getElem?_getD]
  constructor
  · rintro ⟨⟨set, n⟩, hset, hmem⟩
    simp only [mem_map, mem_range, Prod.mk.injEq] at hmem
    obtain ⟨j, hj, rfl, rfl⟩ := hmem
    rw [mk_mem_zipIdx_iff_getElem?.1 hset]
    exact hj
  · intro hj
    cases hset : ref.erasure.sets[i]? with
    | none => simp [hset] at hj
    | some set =>
      refine ⟨(set, i), mk_mem_zipIdx_iff_getElem?.2 hset, ?_⟩
      simpa [hset] using hj

theorem shaped_replicate :
    p.Shaped (List.replicate p.setCount (List.replicate p.setDriveCount none)) := by
  refine ⟨length_replicate, fun row hrow => ?_⟩
  rw [eq_of_mem_replicate hrow, length_replicate]

theorem cell_replicate (m n i j : ℕ) :
    cell (List.replicate m (List.replicate n none)) i j = none := by
  simp only [cell, getD_eq_getElem?_getD, getElem?_replicate]
  split
  · rw [Option.getD_some, getElem?_replicate]
    split <;> rfl
  · rfl

theorem newHealFormatSets_isSome_iff :
    (p.newHealFormatSets ref).isSome ↔ ∀ s ∈ refSlots ref, p.SlotFits s :=
  healSlots_isSome_iff

/-- The cells that are filled, and with what. -/
theorem newHealFormatSets_cell (h : p.newHealFormatSets ref = some t) {i j : ℕ} {fm : FormatV3} :
    cell t i j = some fm ↔ (i, j) ∈ refSlots ref ∧ p.Unformatted (i * p.setDriveCount + j) ∧
      proposedFormat ref i j = fm := by
  have hfill := healSlots_spec shaped_replicate h i j
  by_cases hslot : (i, j) ∈ refSlots ref ∧ p.Unformatted (i * p.setDriveCount + j)
  · rw [hfill.1 hslot, Option.some.injEq]
    simp [hslot]
  · rw [hfill.2 hslot, cell_replicate, ← and_assoc]
    simp [hslot]

theorem savedFormats_getD {k : ℕ} {fm : FormatV3} : (p.savedFormats t).getD k none = some fm ↔
    k < p.setCount * p.setDriveCount ∧ cell t (k / p.setDriveCount) (k % p.setDriveCount) = some fm ∧
      ∃ d, p.drives[k]? = some d ∧ d.opened = true ∧ d.save = none := by
  rw [savedFormats, getD_eq_getElem?_getD, getElem?_map]
  by_cases hk : k < p.setCount * p.setDriveCount
  · rw [getElem?_range hk]
    simp only [Option.map_some, Option.getD_some, hk, true_and, cell]
    split
    · rename_i fm' d hfm hd
      rw [hfm, hd]
      split <;> simp_all
    · rename_i hno
      refine iff_of_false (by simp) ?_
      rintro ⟨hfm, d, hd, -⟩
      exact hno _ _ hfm hd
  · simp [hk]

variable (p)

/-- Healing gives the drive at position `k` the id that the reference has in its slot. -/
def Gives (k : ℕ) (id : Uuid) : Prop :=
  p.dryRun = false ∧
    checkFormatErasureValues (formatsOf p.loads) p.setDriveCount = .ok () ∧
    (∃ d, p.drives[k]? = some d ∧ d.load = .error .unformattedDisk ∧ d.opened = true ∧
      d.save = none) ∧
    ∃ r, Reference (formatsOf p.loads) r ∧ (∀ s ∈ refSlots r, p.SlotFits s) ∧
      (r.erasure.sets.getD (k / p.setDriveCount) [])[k % p.setDriveCount]? = some id

/-- The drive at position `k` keeps its id. -/
def Keeps (k : ℕ) (id : Uuid) : Prop :=
  (¬∃ id', p.Gives k id') ∧ ∃ d, p.drives[k]? = some d ∧ d.carried = some id

variable {p}

/-- All references of one pool have the same set layout. -/
theorem reference_sets_eq {r r' : FormatV3} (h : Reference (formatsOf p.loads) r)
    (h' : Reference (formatsOf p.loads) r') : r.erasure.sets = r'.erasure.sets := by
  have hr : getFormatErasureInQuorum p.order (formatsOf p.loads) = .ok _ :=
    getFormatErasureInQuorum_ok_iff.2 ⟨r, h, rfl⟩
  rw [getFormatErasureInQuorum_ok_iff.2 ⟨r', h', rfl⟩] at hr
  exact congrArg (fun f => f.erasure.sets) (Except.ok.inj hr).symm

theorem countErrs_of_unformatted {k : ℕ} (h : p.Unformatted k) :
    ErrorReduce.countErrs (errsOf p.loads) .unformattedDisk ≠ 0 := by
  obtain ⟨d, hd, hload⟩ := h
  rw [ErrorReduce.countErrs, Ne, count_eq_zero, not_not, errsOf, loads, map_map, mem_map]
  exact ⟨d, mem_of_getElem? hd, by simp [hload, errOf]⟩

/-- A filled cell of the table is a slot of the reference with an unformatted drive, and its index is
within the pool. -/
theorem proposed_iff {r : FormatV3} (h : p.newHealFormatSets ref = some t)
    (hsets : ref.erasure.sets = r.erasure.sets) {k : ℕ} {id : Uuid} :
    (k < p.setCount * p.setDriveCount ∧
      ∃ fm, cell t (k / p.setDriveCount) (k % p.setDriveCount) = some fm ∧ fm.erasure.this = id) ↔
    p.Unformatted k ∧
      (r.erasure.sets.getD (k / p.setDriveCount) [])[k % p.setDriveCount]? = some id := by
  have hk : k / p.setDriveCount * p.setDriveCount + k % p.setDriveCount = k := Nat.div_add_mod' _ _
  have hfits := newHealFormatSets_isSome_iff.1 (Option.isSome_of_eq_some h)
  constructor
  · rintro ⟨-, fm, hcell, rfl⟩
    obtain ⟨hslot, hunf, rfl⟩ := (newHealFormatSets_cell h).1 hcell
    rw [hk] at hunf
    refine ⟨hunf, ?_⟩
    rw [mem_refSlots] at hslot
    rw [← hsets, proposedFormat_this]
    generalize ref.erasure.sets.getD (k / p.setDriveCount) [] = set at hslot ⊢
    simp [hslot]
  · rintro ⟨hunf, hid⟩
    obtain ⟨hlt, hget⟩ := List.getElem?_eq_some_iff.1 hid
    have hslot : (k / p.setDriveCount, k % p.setDriveCount) ∈ refSlots ref := by
      rw [mem_refSlots, hsets]
      exact hlt
    obtain ⟨d, hd, hload⟩ := hunf
    obtain ⟨d', hd', hfit⟩ := hfits _ hslot
    rw [hk, hd, Option.some.injEq] at hd'
    subst hd'
    obtain ⟨hi, hj⟩ := hfit (.inl hload)
    refine ⟨(Nat.div_lt_iff_lt_mul (Nat.zero_lt_of_lt hj)).1 hi,
      proposedFormat ref (k / p.setDriveCount) (k % p.setDriveCount), ?_, ?_⟩
    · exact (newHealFormatSets_cell h).2 ⟨hslot, hk.symm ▸ ⟨d, hd, hload⟩, rfl⟩
    · rw [proposedFormat_this, hsets, getD_eq_getElem?_getD, hid, Option.getD_some]

theorem healFormat_saved_iff {k : ℕ} {id : Uuid} :
    (∃ fm, p.healFormat.saved.getD k none = some fm ∧ fm.erasure.this = id) ↔ p.Gives k id := by
  unfold healFormat Gives
  dsimp only
  cases hcheck : checkFormatErasureValues (formatsOf p.loads) p.setDriveCount with
  | error e => simp
  | ok u =>
    cases hget : getFormatErasureInQuorum p.order (formatsOf p.loads) with
    | error e =>
      have hnone : ∀ r, ¬Reference (formatsOf p.loads) r := by
        intro r hr
        rw [getFormatErasureInQuorum_ok_iff.2 ⟨r, hr, rfl⟩] at hget
        cases hget
      simp [hnone]
    | ok ref =>
      obtain ⟨r, hr, rfl⟩ := getFormatErasureInQuorum_ok_iff.1 hget
      dsimp only
      set ref : FormatV3 := { r with erasure := { r.erasure with this := Uuid.nil } } with href
      constructor
      · rintro ⟨fm, hfm, rfl⟩
        split at hfm
        · simp at hfm
        · cases hnew : p.newHealFormatSets ref with
          | none => simp [hnew] at hfm
          | some t =>
            cases hdry : p.dryRun with
            | true => simp [hnew, hdry] at hfm
            | false =>
              simp only [hnew, hdry, Bool.false_eq_true, if_false] at hfm
              obtain ⟨hk, hcell, d, hd, hopen, hsave⟩ := savedFormats_getD.1 hfm
              obtain ⟨⟨d', hd', hload⟩, hid⟩ := (proposed_iff hnew rfl).1 ⟨hk, fm, hcell, rfl⟩
              obtain rfl : d' = d := Option.some.inj (hd'.symm.trans hd)
              exact ⟨rfl, rfl, ⟨d', hd', hload, hopen, hsave⟩, r, hr,
                newHealFormatSets_isSome_iff.1 (Option.isSome_of_eq_some hnew), hid⟩
      · rintro ⟨hdry, -, ⟨d, hd, hload, hopen, hsave⟩, r', hr', hfits, hid⟩
        have hsets : r.erasure.sets = r'.erasure.sets := reference_sets_eq hr hr'
        have hslots : refSlots ref = refSlots r' := by
          rw [refSlots, refSlots, ← hsets]
        obtain ⟨t, hnew⟩ : ∃ t, p.newHealFormatSets ref = some t :=
          Option.isSome_iff_exists.1 (newHealFormatSets_isSome_iff.2 (hslots ▸ hfits))
        obtain ⟨hk, fm, hcell, hthis⟩ := (proposed_iff hnew hsets).2 ⟨⟨d, hd, hload⟩, hid⟩
        refine ⟨fm, ?_, hthis⟩
        rw [if_neg (countErrs_of_unformatted ⟨d, hd, hload⟩)]
        simp only [hnew, hdry, Bool.false_eq_true, if_false]
        exact savedFormats_getD.2 ⟨hk, hcell, d, hd, hopen, hsave⟩

theorem idAfter_iff {k : ℕ} {id : Uuid} : p.idAfter k = some id ↔ p.Gives k id ∨ p.Keeps k id := by
  have hgives : ∀ id', p.Gives k id' ↔
      ∃ fm, p.healFormat.saved.getD k none = some fm ∧ fm.erasure.this = id' := fun id' =>
    healFormat_saved_iff.symm
  simp only [idAfter, Keeps, hgives]
  cases p.healFormat.saved.getD k none with
  | some fm => simp
  | none => simp [Option.bind_eq_some_iff]

variable (p)

/-- The ids that drives keep and the ids that healing gives are all different. -/
def DistinctIds : Prop :=
  (∀ a b id, a ≠ b → p.Keeps a id → ¬p.Keeps b id) ∧
    (∀ a b id, a ≠ b → p.Gives a id → ¬p.Gives b id) ∧
    ∀ a b id, a ≠ b → p.Gives a id → ¬p.Keeps b id

theorem idAfter_distinct_iff :
    (∀ a b id, a ≠ b → p.idAfter a = some id → p.idAfter b ≠ some id) ↔ p.DistinctIds := by
  simp only [ne_eq, idAfter_iff]
  constructor
  · intro h
    refine ⟨fun a b id hab ha hb => ?_, fun a b id hab ha hb => ?_, fun a b id hab ha hb => ?_⟩
    · exact h a b id hab (.inr ha) (.inr hb)
    · exact h a b id hab (.inl ha) (.inl hb)
    · exact h a b id hab (.inl ha) (.inr hb)
  · rintro ⟨hkeeps, hgives, hmixed⟩ a b id hab (ha | ha) (hb | hb)
    · exact hgives a b id hab ha hb
    · exact hmixed a b id hab ha hb
    · exact hmixed b a id (Ne.symm hab) hb ha
    · exact hkeeps a b id hab ha hb

/-- Among formats that pass the check, the reference format is that of more than half of the drives
and healing leaves no id on two drives exactly when the number of drives, by which formats are
counted, tells apart deployments and layouts, and the ids that are kept and given are different. -/
theorem healFormat_agrees_iff :
    (checkFormatErasureValues (formatsOf p.loads) p.setDriveCount = .ok () →
      (∀ r, getFormatErasureInQuorum p.order (formatsOf p.loads) = .ok r →
        p.drives.length / 2 < (formatsOf p.loads).reduceOption.countP (fun f => Agrees r f)) ∧
      ∀ a b id, a ≠ b → p.idAfter a = some id → p.idAfter b ≠ some id) ↔
    (checkFormatErasureValues (formatsOf p.loads) p.setDriveCount = .ok () →
      (∀ r, Reference (formatsOf p.loads) r →
        p.drives.length / 2 < (formatsOf p.loads).reduceOption.countP (fun f => Agrees r f)) ∧
      p.DistinctIds) := by
  rw [idAfter_distinct_iff]
  refine imp_congr_right fun _ => and_congr_left fun _ => ⟨fun h r hr => ?_, fun h r hr => ?_⟩
  · have hcount := h _ (getFormatErasureInQuorum_ok_iff.2 ⟨r, hr, rfl⟩)
    exact hcount
  · obtain ⟨f, hf, rfl⟩ := getFormatErasureInQuorum_ok_iff.1 hr
    exact h f hf

/-- A format of deployment `id`, of the drive `this` in the one set of the pool. -/
def oneSetFormat (id this : Uuid) (set : List Uuid) : FormatV3 :=
  { version := .v1, format := .erasure, id := id
    erasure := { version := .v3, this := this, sets := [set], distributionAlgo := .v3 } }

/-- Two drives of different deployments. -/
def mixedPool : HealPool where
  setCount := 1
  setDriveCount := 2
  drives := [{ load := .ok (oneSetFormat 1 11 [11, 12]) }, { load := .ok (oneSetFormat 2 22 [21, 22]) }]
  order := .insertion

/-- A new drive in the first place, and the drive that was there in the second. -/
def swappedPool : HealPool where
  setCount := 1
  setDriveCount := 3
  drives := [{ load := .error .unformattedDisk }, { load := .ok (oneSetFormat 1 11 [11, 12, 13]) },
    { load := .ok (oneSetFormat 1 13 [11, 12, 13]) }]
  order := .insertion

/-- One drive of two decides the reference format, and a drive out of its place has its id given to
the new drive there. -/
theorem healFormat_duplicates :
    (checkFormatErasureValues (formatsOf mixedPool.loads) 2 = .ok () ∧
      getFormatErasureInQuorum mixedPool.order (formatsOf mixedPool.loads) =
        .ok (oneSetFormat 1 Uuid.nil [11, 12]) ∧
      (formatsOf mixedPool.loads).reduceOption.countP
        (fun f => Agrees (oneSetFormat 1 Uuid.nil [11, 12]) f) = 1) ∧
    (checkFormatErasureValues (formatsOf swappedPool.loads) 3 = .ok () ∧
      swappedPool.idAfter 0 = some 11 ∧ swappedPool.idAfter 1 = some 11) :=
  ⟨⟨rfl, rfl, rfl⟩, rfl, rfl, rfl⟩

end HealPool

end Rustfs
