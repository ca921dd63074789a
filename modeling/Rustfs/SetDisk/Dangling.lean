import Rustfs.Filemeta.Restore
import Rustfs.SetDisk.Quorum

/-! Objects of which too much is lost to be read again, and their removal. -/
namespace Rustfs.SetDisks

open List

def checkPartSuccess : ℕ := 1
def checkPartFileNotFound : ℕ := 4

/-- An error that says that the disk has lost the metadata. -/
def isLostMeta (err : Option DiskError) : Bool :=
  err == some .fileNotFound || err == some .fileVersionNotFound

def isLostPart (result : ℕ) : Bool := result == checkPartFileNotFound

def danglingMetaErrsCount (errs : List (Option DiskError)) : ℕ × ℕ :=
  (errs.countP isLostMeta, errs.countP fun err => err.isSome && !isLostMeta err)

def danglingPartErrsCount (results : List ℕ) : ℕ × ℕ :=
  (results.countP isLostPart,
    results.countP fun result => result != checkPartSuccess && !isLostPart result)

/-- The counts of the part that most disks have lost. -/
def worstPart (parts : List (List ℕ)) : ℕ × ℕ :=
  parts.foldl (fun worst results =>
    if (danglingPartErrsCount results).1 > worst.1 then danglingPartErrsCount results else worst) (0, 0)

section

variable (rt : Runtime) (order : IterOrder (List ℕ)) (metas : List FileInfo)
  (errs : List (Option DiskError)) (dataErrsByPart : List (List ℕ))

def isObjectDangling : FileInfo × Bool :=
  let metaErrs := danglingMetaErrsCount errs
  let partErrs := worstPart (order.run dataErrsByPart)
  let validMeta := (metas.find? FileInfo.isValid).getD {}
  if !validMeta.isValid then (validMeta, decide (partErrs.1 > (metas.length + 1) / 2))
  else if metaErrs.2 > 0 || partErrs.2 > 0 then (validMeta, false)
  else if validMeta.deleted then (validMeta, decide (metaErrs.1 > (errs.length + 1) / 2))
  else if metaErrs.1 > 0 && metaErrs.1 > validMeta.erasure.parityBlocks then (validMeta, true)
  else if !validMeta.isRemote rt && partErrs.1 > 0 && partErrs.1 > validMeta.erasure.parityBlocks then
    (validMeta, true)
  else (validMeta, false)

end

/-- How an object is spread over `n` disks. -/
structure Layout (n : ℕ) where
  dataBlocks : ℕ
  parityBlocks : ℕ
  total : dataBlocks + parityBlocks = n

variable {n : ℕ}

def Layout.Fits (l : Layout n) (f : FileInfo) : Prop :=
  f.erasure.dataBlocks = l.dataBlocks ∧ f.erasure.parityBlocks = l.parityBlocks

/-- Which disks supply something later on: those that lost it never do, any other may. -/
def Future {α : Type} (lost : α → Bool) (now : List α) (supplies : List Bool) : Prop :=
  List.Forall₂ (fun state supply => lost state = true → supply = false) now supplies

section

variable {α : Type} {lost : α → Bool} {now : List α} {ss : List Bool}

theorem Future.count_le (h : Future lost now ss) :
    ss.count true + now.countP lost ≤ now.length := by
  induction h with
  | nil => simp
  | @cons state supply now ss hstate _ ih =>
    cases hlost : lost state with
    | true =>
      obtain rfl : supply = false := hstate hlost
      simp only [count_cons_of_ne (by decide : false ≠ true), countP_cons_of_pos hlost,
        length_cons]
      omega
    | false =>
      have hmore := count_cons (a := true) (b := supply) (l := ss)
      rw [countP_cons_of_neg (by simp [hlost]), length_cons, hmore]
      split <;> omega

/-- With more losses than the parity, too few disks are left in every future. -/
theorem Future.count_lt (l : Layout n) (h : Future lost now ss)
    (hn : now.length = n) (hlost : l.parityBlocks < now.countP lost) : ss.count true < l.dataBlocks := by
  have hcount := h.count_le
  have htotal := l.total
  omega

end

theorem worstPart_cases (ps : List (List ℕ)) :
    (worstPart ps).1 = 0 ∨ ∃ results ∈ ps, worstPart ps = danglingPartErrsCount results := by
  induction ps using List.reverseRecOn with
  | nil => exact .inl rfl
  | append_singleton ps results ih =>
    rw [worstPart, foldl_append, foldl_cons, foldl_nil]
    split
    · exact .inr ⟨results, by simp, rfl⟩
    · rcases ih with hzero | ⟨other, hmem, heq⟩
      · exact .inl hzero
      · exact .inr ⟨other, by simp [hmem], heq⟩

variable {rt : Runtime} {order : IterOrder (List ℕ)} {metas : List FileInfo}
  {errs : List (Option DiskError)} {dataErrsByPart : List (List ℕ)} {m : FileInfo}

theorem isObjectDangling_cases (h : isObjectDangling rt order metas errs dataErrsByPart = (m, true)) :
    (m = {} ∧ (∀ f ∈ metas, f.isValid = false) ∧
      (metas.length + 1) / 2 < (worstPart (order.run dataErrsByPart)).1) ∨
    (m ∈ metas ∧ m.isValid = true ∧ (danglingMetaErrsCount errs).2 = 0 ∧
      ((m.deleted = true ∧ (errs.length + 1) / 2 < (danglingMetaErrsCount errs).1) ∨
        (m.deleted = false ∧ m.erasure.parityBlocks < (danglingMetaErrsCount errs).1) ∨
        (m.deleted = false ∧
          m.erasure.parityBlocks < (worstPart (order.run dataErrsByPart)).1))) := by
  unfold isObjectDangling at h
  cases hfind : metas.find? FileInfo.isValid with
  | none =>
    simp only [hfind, Option.getD_none] at h
    rw [if_pos (by decide), Prod.mk.injEq, decide_eq_true_eq] at h
    exact .inl ⟨h.1.symm, fun f hf => by simpa using find?_eq_none.mp hfind f hf, h.2⟩
  | some f =>
    have hmem := mem_of_find?_eq_some hfind
    have hvalid := find?_some hfind
    simp only [hfind, Option.getD_some, hvalid, Bool.not_true, Bool.false_eq_true, if_false] at h
    split_ifs at h with hother hdeleted hmeta hpart
    · simp at h
    all_goals
      simp only [Bool.or_eq_true, decide_eq_true_eq, not_or, Nat.not_lt, Nat.le_zero] at hother
      obtain ⟨rfl, hlost⟩ := Prod.mk.inj h
      refine .inr ⟨hmem, hvalid, hother.1, ?_⟩
    · exact .inl ⟨hdeleted, by simpa using hlost⟩
    · simp only [Bool.and_eq_true, decide_eq_true_eq] at hmeta
      exact .inr (.inl ⟨by simpa using hdeleted, hmeta.2⟩)
    · simp only [Bool.and_eq_true, decide_eq_true_eq] at hpart
      exact .inr (.inr ⟨by simpa using hdeleted, hpart.2⟩)
    · simp at hlost

theorem exists_lost_part {k : ℕ} (h : k < (worstPart (order.run dataErrsByPart)).1) :
    ∃ results ∈ dataErrsByPart, k < results.countP isLostPart := by
  rcases worstPart_cases (order.run dataErrsByPart) with hzero | ⟨results, hmem, heq⟩
  · omega
  · rw [heq] at h
    exact ⟨results, order.mem_run.mp hmem, h⟩

/-- An object that is called dangling cannot be read in any future in which the disks that lost it do
not find it again, whatever the others come back with; where no metadata is valid, as long as half of
the disks are no fewer than the parity. -/
theorem isObjectDangling_lost (l : Layout n) (hmetas : metas.length = n) (herrs : errs.length = n)
    (hparts : ∀ results ∈ dataErrsByPart, results.length = n)
    (hlayout : ∀ f ∈ metas, f.isValid = true → f.deleted = false → l.Fits f)
    (hparity : (∀ f ∈ metas, f.isValid = false) → l.parityBlocks ≤ l.dataBlocks)
    (h : isObjectDangling rt order metas errs dataErrsByPart = (m, true)) :
    (m.deleted = true → n < 2 * errs.countP isLostMeta) ∧
    (m.deleted = false →
      (∀ supplies, Future isLostMeta errs supplies → supplies.count true < l.dataBlocks) ∨
      ∃ results ∈ dataErrsByPart, ∀ supplies, Future isLostPart results supplies →
        supplies.count true < l.dataBlocks) ∧
    (m.isValid = true → ∀ err ∈ errs, err.isSome = true → isLostMeta err = true) := by
  have hlostPart : l.parityBlocks < (worstPart (order.run dataErrsByPart)).1 →
      ∃ results ∈ dataErrsByPart, ∀ supplies, Future isLostPart results supplies →
        supplies.count true < l.dataBlocks := by
    intro hworst
    obtain ⟨results, hmem, hcount⟩ := exists_lost_part hworst
    exact ⟨results, hmem, fun _ hfuture => hfuture.count_lt l (hparts results hmem) hcount⟩
  rcases isObjectDangling_cases h with ⟨rfl, hinvalid, hworst⟩ | ⟨hmem, hvalid, hnone, hwhy⟩
  · -- without metadata half of the disks stand for the parity, which is no more than that
    have htotal := l.total
    have hparity := hparity hinvalid
    refine ⟨fun hdeleted => by simp at hdeleted, fun _ => .inr (hlostPart (by omega)), fun hvalid => ?_⟩
    simp [FileInfo.isValid] at hvalid
  · have hactionable : ∀ err ∈ errs, err.isSome = true → isLostMeta err = true := by
      intro err herr hsome
      have hnot := countP_eq_zero.mp hnone err herr
      simpa [hsome] using hnot
    rcases hwhy with ⟨hdeleted, hlost⟩ | ⟨hdeleted, hlost⟩ | ⟨hdeleted, hlost⟩
    · refine ⟨fun _ => ?_, fun hnot => by simp [hdeleted] at hnot, fun _ => hactionable⟩
      rw [danglingMetaErrsCount] at hlost
      omega
    all_goals
      rw [(hlayout m hmem hvalid hdeleted).2] at hlost
      refine ⟨fun hmarker => by simp [hdeleted] at hmarker, fun _ => ?_, fun _ => hactionable⟩
    · exact .inl fun _ hfuture => hfuture.count_lt l herrs hlost
    · exact .inr (hlostPart hlost)

def twoAndTwo : Layout 4 := ⟨2, 2, rfl⟩

/-- An object of which three of four disks have lost the metadata. -/
theorem isObjectDangling_threeOfFour : ∃ (rt : Runtime) (errs : List (Option DiskError)),
    errs = [none, some .fileNotFound, some .fileNotFound, some .fileVersionNotFound] ∧
    isObjectDangling rt .insertion [ofFour 2 1, {}, {}, {}] errs [] = (ofFour 2 1, true) ∧
    ((∀ supplies, Future isLostMeta errs supplies → supplies.count true < 2) ∨
      ∃ results ∈ ([] : List (List ℕ)), ∀ supplies, Future isLostPart results supplies →
        supplies.count true < 2) := by
  have hfits : ∀ f ∈ [ofFour 2 1, {}, {}, {}], f.isValid = true → f.deleted = false →
      twoAndTwo.Fits f := by
    intro f hf hvalid _
    simp only [mem_cons, not_mem_nil, or_false] at hf
    rcases hf with rfl | rfl | rfl | rfl
    · exact ⟨rfl, rfl⟩
    all_goals simp [FileInfo.isValid] at hvalid
  have hrun : isObjectDangling ⟨0, fun _ => none, fun _ => "", fun _ => none⟩ .insertion
      [ofFour 2 1, {}, {}, {}]
      [none, some .fileNotFound, some .fileNotFound, some .fileVersionNotFound] [] =
        (ofFour 2 1, true) := rfl
  exact ⟨_, _, rfl, hrun, (isObjectDangling_lost twoAndTwo rfl rfl (by simp) hfits
    (fun _ => le_rfl) hrun).2.1 rfl⟩

/-- One shard of four is enough, but three lost ones make the object dangling. -/
theorem isObjectDangling_oneOfFour :
    ∃ (l : Layout 4) (rt : Runtime) (errs : List (Option DiskError)), l.dataBlocks = 1 ∧
      errs = replicate 4 (some .diskNotFound) ∧
      isObjectDangling rt .insertion (replicate 4 {}) errs [[4, 4, 4, 1]] = ({}, true) ∧
      Future isLostMeta errs (replicate 4 true) ∧
      Future isLostPart [4, 4, 4, 1] [false, false, false, true] := by
  refine ⟨⟨1, 3, rfl⟩, ⟨0, fun _ => none, fun _ => "", fun _ => none⟩, _, rfl, rfl, rfl, ?_, ?_⟩
  · exact .cons (by decide) (.cons (by decide) (.cons (by decide) (.cons (by decide) .nil)))
  · exact .cons (by decide) (.cons (by decide) (.cons (by decide) (.cons (by decide) .nil)))

end Rustfs.SetDisks
