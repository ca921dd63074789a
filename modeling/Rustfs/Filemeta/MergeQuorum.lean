import Rustfs.Filemeta.Merge

/-! What a strict merge gives has a quorum of the lists behind it. -/
namespace Rustfs

open List

namespace FileMeta

variable {B : Type}

/-- How many of the lists hold a version with this header. -/
def holders (lists : Streams B) (h : FileMetaVersionHeader) : ℕ :=
  lists.countP fun l => l.any (·.header == h)

/-- The streams are what is left of the lists. -/
abbrev Within (lists streams : Streams B) : Prop :=
  List.Forall₂ List.Sublist streams lists

section

variable {ls streams : Streams B} {h : FileMetaVersionHeader}
  {o : CountOrder} {ts rs done : List (FileMetaShallowVersion B)}
  {latest : FileMetaShallowVersion B} {count q : ℕ} {strict : Bool} {table : List (FileMetaVersionHeader × ℕ)}

theorem countP_tops_le (ss : Streams B) (h : FileMetaVersionHeader) :
    (tops ss).countP (·.header == h) ≤ holders ss h := by
  induction ss with
  | nil => simp [tops, holders]
  | cons l ss ih =>
    cases l with
    | nil => simpa [holders] using ih
    | cons v l =>
      rw [tops_cons_cons, holders, countP_cons, countP_cons, ← holders]
      by_cases hv : v.header = h
      · simpa [hv] using ih
      · simp only [beq_iff_eq, hv, if_false]
        omega

theorem Within.holders_le (hw : Within ls streams) (h : FileMetaVersionHeader) :
    holders streams h ≤ holders ls h := by
  induction hw with
  | nil => exact le_rfl
  | @cons l l' streams ls hsub _ ih =>
    rw [holders, holders, countP_cons, countP_cons, ← holders, ← holders]
    have hany : l.any (·.header == h) → l'.any (·.header == h) := by
      simp only [any_eq_true]
      exact fun ⟨v, hv, heq⟩ => ⟨v, hsub.subset hv, heq⟩
    split <;> split <;> simp_all
    omega

/-- What the table prefers is on top as often as the table says. -/
theorem settle_count (htable : ∀ p ∈ table, (∃ t ∈ ts, t.header = p.1) ∧
    p.2 ≤ ts.countP (·.header == p.1)) (hc : count ≤ ts.countP (·.header == latest.header)) :
    (settle true ts table latest count).2 ≤
      ts.countP (·.header == (settle true ts table latest count).1.header) := by
  induction table generalizing latest count with
  | nil => exact hc
  | cons p table ih =>
    obtain ⟨k, v⟩ := p
    have htable' := fun p hp => htable p (mem_cons_of_mem _ hp)
    obtain ⟨⟨t, ht, htk⟩, hv⟩ := htable (k, v) mem_cons_self
    unfold settle
    split
    · exact ih htable' hc
    · split
      · exact ih htable' hc
      · refine ih htable' ?_
        rcases lastCounted_cases true k ts latest with ⟨-, hk⟩ | ⟨-, hnone⟩
        · have hk : (lastCounted true k ts latest).header = k := hk
          rwa [hk]
        · exact absurd htk (hnone t ht)

theorem mem_table {keep : FileMetaShallowVersion B → Bool} {p : FileMetaVersionHeader × ℕ}
    (hp : p ∈ Tally.tally ((ts.filter keep).map fun a => a.header.counted true)) :
    (∃ t ∈ ts, t.header = p.1) ∧ p.2 ≤ ts.countP (·.header == p.1) := by
  obtain ⟨k, v⟩ := p
  obtain ⟨hk, rfl⟩ := Tally.mem_tally.mp hp
  obtain ⟨t, ht, htk⟩ := mem_map.mp hk
  refine ⟨⟨t, (mem_filter.mp ht).1, htk⟩, ?_⟩
  rw [count_eq_countP, countP_map]
  exact List.Sublist.countP_le filter_sublist

/-- In a strict merge the count is of tops with the very header. -/
theorem scanTops_count (hts : ts = done ++ rs)
    (hc : count ≤ done.countP (·.header == latest.header)) :
    (scanTops true o ts false rs latest count).2 ≤
      ts.countP (·.header == (scanTops true o ts false rs latest count).1.header) := by
  induction rs generalizing done latest count with
  | nil => simpa [scanTops, hts] using hc
  | cons ver rs ih =>
    have hts' : ts = (done ++ [ver]) ++ rs := by simpa using hts
    have hmono : ∀ h, done.countP (·.header == h) ≤ (done ++ [ver]).countP (·.header == h) :=
      fun h => by simp
    unfold scanTops
    split
    · next heq =>
      refine ih hts' ?_
      simpa [heq] using hc
    · split
      · refine ih hts' ?_
        simp
      · simp only [Bool.not_true, Bool.and_false, Bool.false_and, Bool.false_eq_true, if_false]
        split
        · exact settle_count (fun p hp => mem_table (o.mem_run.mp hp)) (Nat.zero_le _)
        · exact ih hts' (hc.trans (hmono _))

theorem consistentFrom_some {c : Bool} (hc : consistentFrom (some h) c streams) :
    c ∧ ∀ t ∈ tops streams, t.header = h := by
  induction streams generalizing c with
  | nil => exact ⟨hc, by simp [tops]⟩
  | cons l streams ih =>
    cases l with
    | nil => exact absurd (ih hc).1 (by simp)
    | cons v l =>
      obtain ⟨hv, hrest⟩ := ih hc
      simp only [Bool.and_eq_true, beq_iff_eq] at hv
      refine ⟨hv.1, fun t ht => ?_⟩
      rcases mem_cons.mp ht with rfl | ht
      · exact hv.2
      · exact hrest t ht

/-- In a consistent round all tops have one header. -/
theorem consistentFrom_none {c : Bool} (hc : consistentFrom none c streams)
    {t : FileMetaShallowVersion B} (ht : t ∈ tops streams) :
    ∀ t' ∈ tops streams, t'.header = t.header := by
  induction streams generalizing c with
  | nil => simp [tops]
  | cons l streams ih =>
    cases l with
    | nil => exact ih hc ht
    | cons v l =>
      have hall : ∀ t' ∈ tops ((v :: l) :: streams), t'.header = v.header := by
        intro t' ht'
        rcases mem_cons.mp ht' with rfl | ht'
        · rfl
        · exact (consistentFrom_some hc).2 t' ht'
      exact fun t' ht' => (hall t' ht').trans (hall t ht).symm

/-- A version that a strict round merges is on top of a quorum of streams. -/
theorem quorum_le_of_chosen [Inhabited B] {v : FileMetaShallowVersion B} (hq : q ≤ (tops streams).length)
    (hv : (chosen q true o streams).2 = some v) : q ≤ holders streams v.header := by
  refine le_trans ?_ (countP_tops_le streams v.header)
  unfold chosen at hv
  split at hv
  · next hc =>
    have hmem : v ∈ tops streams := mem_of_mem_head? hv
    have hall : (tops streams).countP (·.header == v.header) = (tops streams).length :=
      countP_eq_length.mpr fun t ht => by simpa using consistentFrom_none hc hmem t ht
    omega
  · dsimp only at hv
    split at hv
    · next hcount =>
      cases hv
      cases ht : tops streams with
      | nil => simp [latestTop, ht, scanTops] at hcount ⊢; omega
      | cons t rs =>
        obtain ⟨l, hl, heq⟩ := latestTop_cons true o ht
        rw [heq] at hcount ⊢
        refine hcount.trans (scanTops_count (show t :: rs = [t] ++ rs from rfl) ?_)
        simp [hl]
    · cases hv

theorem Within.map_eraseP (hw : Within ls streams) (p : FileMetaShallowVersion B → Bool) :
    Within ls (streams.map (List.eraseP p)) := by
  induction hw with
  | nil => exact .nil
  | cons hsub _ ih => exact .cons (eraseP_sublist.trans hsub) ih

theorem within_refl (ls : Streams B) : Within ls ls :=
  forall₂_same.mpr fun _ _ => List.Sublist.refl _

theorem holders_mergeRound_le [Inhabited B] (s : Merging B) (h : FileMetaVersionHeader) :
    holders (mergeRound q strict o s).streams h ≤ holders s.streams h :=
  ((within_refl s.streams).map_eraseP _).holders_le h

/-- What is merged so far has a quorum in the lists. -/
structure Supported (quorum : ℕ) (lists : Streams B) (s : Merging B) :
    Prop where
  within : Within lists s.streams
  merged : ∀ v ∈ s.merged, quorum ≤ holders lists v.header

theorem Supported.mergeRound [Inhabited B] {s : Merging B} (hs : Supported q ls s)
    (hq : q ≤ (tops s.streams).length) : Supported q ls (mergeRound q true o s) := by
  refine ⟨hs.within.map_eraseP _, fun v hv => ?_⟩
  rcases mem_append.mp hv with hv | hv
  · exact hs.merged v hv
  · exact (quorum_le_of_chosen hq (Option.mem_toList.mp hv)).trans (hs.within.holders_le _)

end

end FileMeta

end Rustfs
