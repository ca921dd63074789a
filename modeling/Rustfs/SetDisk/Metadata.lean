import Rustfs.ErasureCoding.Erasure
import Rustfs.Filemeta.FileInfo

/-! The disks of a set and their metadata, put in the order of the shards they hold. -/
namespace Rustfs.SetDisks

open List

variable {D : Type} {ds : List ℕ} {disks : List (Option D)} {files : List FileInfo}
  {r : FileInfo → Bool} {a : ℕ → FileInfo → Bool} {fi : FileInfo} {n k b : ℕ}

/-- The coding that the metadata of a version names. -/
def erasureOf (fi : FileInfo) : Erasure :=
  ⟨fi.erasure.dataBlocks, fi.erasure.parityBlocks, fi.erasure.blockSize⟩

/-- Disks and metadata by shard, with the number of disks that were left out. -/
structure Shuffled (D : Type) where
  disks : List (Option D)
  files : List FileInfo
  inconsistent : ℕ

/-- One turn of a shuffle: disk `k` goes to the place its distribution names, unless there is no
disk or its metadata is refused. `none` is an index out of bounds. -/
def shuffleSlot (ready : FileInfo → Bool) (agrees : ℕ → FileInfo → Bool) (distribution : List ℕ)
    (disks : List (Option D)) (files : List FileInfo) (s : Shuffled D) (k : ℕ) :
    Option (Shuffled D) :=
  match disks[k]? with
  | none => none
  | some none => some { s with inconsistent := s.inconsistent + 1 }
  | some (some d) =>
    match files[k]? with
    | none => none
    | some f =>
      if ready f then
        match distribution[k]? with
        | none => none
        | some b =>
          if agrees b f then
            if 0 < b ∧ b ≤ s.disks.length ∧ b ≤ s.files.length then
              some { s with
                disks := s.disks.set (b - 1) (some d), files := s.files.set (b - 1) f }
            else none
          else some { s with inconsistent := s.inconsistent + 1 }
      else some { s with inconsistent := s.inconsistent + 1 }

def shuffleSlots (ready : FileInfo → Bool) (agrees : ℕ → FileInfo → Bool) (distribution : List ℕ)
    (disks : List (Option D)) (files : List FileInfo) (n : ℕ) : Option (Shuffled D) :=
  (List.range n).foldlM (shuffleSlot ready agrees distribution disks files)
    ⟨List.replicate disks.length none, List.replicate files.length {}, 0⟩

def shuffleDisksAndPartsMetadata (disks : List (Option D)) (files : List FileInfo) (fi : FileInfo) :
    Option (Shuffled D) :=
  shuffleSlots (fun f => fi.modTime.isNone || f.isValid) (fun _ _ => true)
    fi.erasure.distribution disks files disks.length

def shuffleDisksAndPartsMetadataByIndex (disks : List (Option D)) (files : List FileInfo)
    (fi : FileInfo) : Option (Shuffled D) :=
  match shuffleSlots FileInfo.isValid (fun b f => b == f.erasure.index) fi.erasure.distribution
      disks files files.length with
  | none => none
  | some s =>
    if s.inconsistent < fi.erasure.parityBlocks then some s
    else shuffleDisksAndPartsMetadata disks files fi

/-- Every place is named once. -/
def IsDistribution (distribution : List ℕ) (n : ℕ) : Prop :=
  distribution.Perm (List.range' 1 n)

namespace IsDistribution

variable (h : IsDistribution ds n)
include h

theorem length_eq : ds.length = n := by
  simpa using List.Perm.length_eq h

theorem bounds (hb : ds[k]? = some b) : 0 < b ∧ b ≤ n := by
  have hmem := (List.Perm.mem_iff h).1 (mem_of_getElem? hb)
  rw [List.mem_range'_1] at hmem
  omega

theorem injective {k' : ℕ} (hb : ds[k]? = some b) (hb' : ds[k']? = some b) : k = k' := by
  have hnd : ds.Nodup := h.nodup_iff.2 nodup_range'
  obtain ⟨hk, hkb⟩ := List.getElem?_eq_some_iff.1 hb
  obtain ⟨hk', hkb'⟩ := List.getElem?_eq_some_iff.1 hb'
  exact (List.Nodup.getElem_inj_iff hnd).1 (hkb.trans hkb'.symm)

theorem surjective {i : ℕ} (hi : i < n) : ∃ k, k < n ∧ ds[k]? = some (i + 1) := by
  have hmem : i + 1 ∈ ds := h.mem_iff.2 (List.mem_range'_1.2 (by omega))
  obtain ⟨k, hk⟩ := getElem?_of_mem hmem
  have := (List.getElem?_eq_some_iff.1 hk).1
  exact ⟨k, by rwa [h.length_eq] at this, hk⟩

end IsDistribution

/-- What a shuffle leaves at the place of a disk. -/
def slotOf (ready : FileInfo → Bool) (agrees : ℕ → FileInfo → Bool) (disk : Option D) (f : FileInfo)
    (b : ℕ) : Option D × FileInfo :=
  if disk.isSome && ready f && agrees b f then (disk, f) else (none, {})

/-- After the turns of the first `t` disks their places are filled, the others still empty. -/
structure Placed (ready : FileInfo → Bool) (agrees : ℕ → FileInfo → Bool) (distribution : List ℕ)
    (disks : List (Option D)) (files : List FileInfo) (t : ℕ) (s : Shuffled D) : Prop where
  length_disks : s.disks.length = disks.length
  length_files : s.files.length = files.length
  slot : ∀ (k : ℕ) disk f b, disks[k]? = some disk → files[k]? = some f → distribution[k]? = some b →
    s.disks[b - 1]? = some (if k < t then (slotOf ready agrees disk f b).1 else none) ∧
    s.files[b - 1]? = some (if k < t then (slotOf ready agrees disk f b).2 else {})

variable {s : Shuffled D}

/-- A turn that leaves everything in place, for a disk that is left out. -/
theorem Placed.skip {t c : ℕ} (h : Placed r a ds disks files t s)
    (hskip : ∀ disk f b, disks[t]? = some disk → files[t]? = some f → ds[t]? = some b →
      slotOf r a disk f b = (none, {})) :
    Placed r a ds disks files (t + 1) { s with inconsistent := c } := by
  refine ⟨h.length_disks, h.length_files, fun k disk f b hk hf hb => ?_⟩
  obtain ⟨hd, hfile⟩ := h.slot k disk f b hk hf hb
  rcases Nat.lt_trichotomy k t with hlt | rfl | hgt
  · simp only [hlt, if_true] at hd hfile
    have : k < t + 1 := by omega
    simp only [this, if_true]
    exact ⟨hd, hfile⟩
  · have hlt : k < k + 1 := by omega
    simp only [Nat.lt_irrefl, if_false] at hd hfile
    simp only [hlt, if_true, hskip disk f b hk hf hb]
    exact ⟨hd, hfile⟩
  · have h₁ : ¬ k < t := by omega
    have h₂ : ¬ k < t + 1 := by omega
    simp only [h₁, if_false] at hd hfile
    simp only [h₂, if_false]
    exact ⟨hd, hfile⟩

section

variable (hd : IsDistribution ds n) (hn : disks.length = n) (hf : files.length = n)
include hd hn hf

theorem placed_init : Placed r a ds disks files 0
      ⟨List.replicate disks.length none, List.replicate files.length {}, 0⟩ := by
  refine ⟨by simp, by simp, fun k disk f b _ _ hb => ?_⟩
  have hbounds := hd.bounds hb
  have h₁ : b - 1 < disks.length := by omega
  have h₂ : b - 1 < files.length := by omega
  simp [h₁, h₂]

/-- A turn that puts the disk at its place; the places of the others are other ones. -/
theorem Placed.put {t : ℕ} {d : D} {f : FileInfo}
    (h : Placed r a ds disks files t s) (hdisk : disks[t]? = some (some d))
    (hfile : files[t]? = some f) (hb : ds[t]? = some b)
    (hused : slotOf r a (some d) f b = (some d, f)) :
    Placed r a ds disks files (t + 1)
      { s with disks := s.disks.set (b - 1) (some d), files := s.files.set (b - 1) f } := by
  have hlen := h.length_disks
  have hlen' := h.length_files
  have hbounds := hd.bounds hb
  refine ⟨by simpa using hlen, by simpa using hlen', fun k disk f' b' hk hf' hb' => ?_⟩
  by_cases hkt : k = t
  · subst hkt
    obtain rfl : some d = disk := by simpa [hdisk] using hk
    obtain rfl : f = f' := by simpa [hfile] using hf'
    obtain rfl : b = b' := by simpa [hb] using hb'
    have hlt : k < k + 1 := by omega
    have h₁ : b - 1 < s.disks.length := by omega
    have h₂ : b - 1 < s.files.length := by omega
    simp [hlt, hused, h₁, h₂]
  · have hbne : b - 1 ≠ b' - 1 := by
      have hbounds' := hd.bounds hb'
      intro heq
      obtain rfl : b = b' := by omega
      exact hkt (hd.injective hb' hb)
    have hiff : k < t + 1 ↔ k < t := by omega
    obtain ⟨hold, hold'⟩ := h.slot k disk f' b' hk hf' hb'
    simp only [hiff, getElem?_set_ne hbne]
    exact ⟨hold, hold'⟩

theorem Placed.step {t : ℕ} (h : Placed r a ds disks files t s) (ht : t < n) :
    ∃ s', shuffleSlot r a ds disks files s t = some s' ∧
      Placed r a ds disks files (t + 1) s' := by
  obtain ⟨disk, hdisk⟩ : ∃ disk, disks[t]? = some disk := ⟨_, getElem?_eq_getElem (by omega)⟩
  obtain ⟨f, hfile⟩ : ∃ f, files[t]? = some f := ⟨_, getElem?_eq_getElem (by omega)⟩
  have hlt : t < ds.length := by rw [hd.length_eq]; omega
  obtain ⟨b, hb⟩ : ∃ b, ds[t]? = some b := ⟨_, getElem?_eq_getElem hlt⟩
  have hbounds := hd.bounds hb
  have hlen := h.length_disks
  have hlen' := h.length_files
  have hin : 0 < b ∧ b ≤ s.disks.length ∧ b ≤ s.files.length := by omega
  have hskip : slotOf r a disk f b = (none, {}) → ∀ disk' f' b',
      disks[t]? = some disk' → files[t]? = some f' → ds[t]? = some b' →
      slotOf r a disk' f' b' = (none, {}) := by
    intro hs disk' f' b' h₁ h₂ h₃
    rw [hdisk, Option.some_inj] at h₁
    rw [hfile, Option.some_inj] at h₂
    rw [hb, Option.some_inj] at h₃
    rwa [← h₁, ← h₂, ← h₃]
  unfold shuffleSlot
  simp only [hdisk, hfile, hb, if_pos hin]
  cases disk with
  | none => exact ⟨_, rfl, h.skip (hskip rfl)⟩
  | some d =>
    cases hr : r f with
    | false => exact ⟨_, rfl, h.skip (hskip (by simp [slotOf, hr]))⟩
    | true =>
      cases ha : a b f with
      | false => exact ⟨_, rfl, h.skip (hskip (by simp [slotOf, ha]))⟩
      | true => exact ⟨_, rfl, h.put hd hn hf hdisk hfile hb (by simp [slotOf, hr, ha])⟩

variable (r a) in
theorem shuffleSlots_spec : ∃ s, shuffleSlots r a ds disks files n = some s ∧
      Placed r a ds disks files n s := by
  have hrun : ∀ t, t ≤ n → ∃ s, (List.range t).foldlM (shuffleSlot r a ds disks files)
      ⟨List.replicate disks.length none, List.replicate files.length {}, 0⟩ = some s ∧
      Placed r a ds disks files t s := by
    intro t ht
    induction t with
    | zero => exact ⟨_, rfl, placed_init hd hn hf⟩
    | succ t ih =>
      obtain ⟨s, hrun, hp⟩ := ih (by omega)
      obtain ⟨s', hstep, hp'⟩ := hp.step hd hn hf (by omega)
      refine ⟨s', ?_, hp'⟩
      rw [range_succ, foldlM_append, hrun]
      simpa using hstep
  exact hrun n (Nat.le_refl n)

end

/-- A disk that takes part holds metadata of the distribution's own place. -/
def Consistent (distribution : List ℕ) (k : ℕ) (disk : Option D) (f : FileInfo) : Prop :=
  disk.isSome ∧ f.isValid ∧ distribution[k]? = some f.erasure.index

/-- A consistent disk stands at its shard, and any other disk there or nowhere. -/
structure ByShard (fi : FileInfo) (disks : List (Option D)) (files : List FileInfo) (n : ℕ)
    (s : Shuffled D) : Prop where
  length_disks : s.disks.length = n
  length_files : s.files.length = n
  consistent : ∀ (k : ℕ) disk f b, disks[k]? = some disk → files[k]? = some f →
    fi.erasure.distribution[k]? = some b → Consistent fi.erasure.distribution k disk f →
    s.disks[b - 1]? = some disk ∧ s.files[b - 1]? = some f
  other : ∀ (k : ℕ) disk f b, disks[k]? = some disk → files[k]? = some f →
    fi.erasure.distribution[k]? = some b →
    (s.disks[b - 1]? = some disk ∧ s.files[b - 1]? = some f ∧ disk.isSome ∧
        (f.isValid ∨ fi.modTime = none)) ∨
      (s.disks[b - 1]? = some none ∧ s.files[b - 1]? = some ({} : FileInfo))

theorem Placed.byShard (hp : Placed r a fi.erasure.distribution disks files n s)
    (hn : disks.length = n) (hf : files.length = n) (hvalid : ∀ f, f.isValid → r f)
    (hready : ∀ f, r f → f.isValid ∨ fi.modTime = none)
    (hagrees : ∀ f : FileInfo, a f.erasure.index f) : ByShard fi disks files n s := by
  have hslot : ∀ (k : ℕ) disk f b, disks[k]? = some disk → files[k]? = some f →
      fi.erasure.distribution[k]? = some b →
      s.disks[b - 1]? = some (slotOf r a disk f b).1 ∧
      s.files[b - 1]? = some (slotOf r a disk f b).2 := by
    intro k disk f b hk hfk hb
    obtain ⟨hkn, -⟩ := List.getElem?_eq_some_iff.1 hk
    rw [hn] at hkn
    simpa only [hkn, if_true] using hp.slot k disk f b hk hfk hb
  refine ⟨hp.length_disks.trans hn, hp.length_files.trans hf, ?_, ?_⟩
  · rintro k disk f b hk hfk hb ⟨hsome, hv, hidx⟩
    obtain rfl : b = f.erasure.index := by simpa [hb] using hidx
    have hused : slotOf r a disk f f.erasure.index = (disk, f) := by
      rw [slotOf, hsome, hvalid f hv, hagrees]
      rfl
    simpa only [hused] using hslot k disk f _ hk hfk hb
  · intro k disk f b hk hfk hb
    obtain ⟨h₁, h₂⟩ := hslot k disk f b hk hfk hb
    rw [slotOf] at h₁ h₂
    by_cases hused : (disk.isSome && r f && a b f) = true
    · rw [if_pos hused] at h₁ h₂
      simp only [Bool.and_eq_true] at hused
      exact .inl ⟨h₁, h₂, hused.1.1, hready f hused.1.2⟩
    · rw [if_neg hused] at h₁ h₂
      exact .inr ⟨h₁, h₂⟩

/-- Both shuffles put the consistent disks at their shards. -/
theorem shuffleByIndex_spec (hd : IsDistribution fi.erasure.distribution n)
    (hn : disks.length = n) (hf : files.length = n) :
    ∃ s, shuffleDisksAndPartsMetadataByIndex disks files fi = some s ∧
      ByShard fi disks files n s := by
  obtain ⟨s, hrun, hp⟩ :=
    shuffleSlots_spec FileInfo.isValid (fun b f => b == f.erasure.index) hd hn hf
  obtain ⟨s', hrun', hp'⟩ :=
    shuffleSlots_spec (fun f => fi.modTime.isNone || f.isValid) (fun _ _ => true) hd hn hf
  unfold shuffleDisksAndPartsMetadataByIndex shuffleDisksAndPartsMetadata
  rw [hf, hn, hrun]
  dsimp only
  split
  · exact ⟨s, rfl, hp.byShard hn hf (fun _ h => h) (fun _ h => .inl h) (by simp)⟩
  · refine ⟨s', hrun', hp'.byShard hn hf (by simp +contextual) (fun f h => ?_) (by simp)⟩
    simpa [or_comm] using h

end Rustfs.SetDisks
