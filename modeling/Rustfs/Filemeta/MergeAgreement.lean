import Rustfs.Filemeta.MergeQuorum
import Rustfs.Filemeta.NewestFirst

/-! Lists that agree on their versions merge to those that a quorum holds, each once. -/
namespace Rustfs

open List FileMetaVersionHeader

namespace FileMeta

variable {B : Type} [Inhabited B]

/-- Versions of one id have one header, in whatever lists they are. -/
def Agree (lists : Streams B) : Prop :=
  ∀ l ∈ lists, ∀ l' ∈ lists, ∀ v ∈ l, ∀ v' ∈ l',
    v.header.versionId = v'.header.versionId → v.header = v'.header

variable {s : Merging B}

section

variable {ls ss : Streams B} {h : FileMetaVersionHeader}
  {o : CountOrder} {ts rs done : List (FileMetaShallowVersion B)}
  {latest : FileMetaShallowVersion B} {count quorum : ℕ} {strict : Bool}

/-- The header sorts before those of all the tops, and so many of them have it. -/
structure Best (ts : List (FileMetaShallowVersion B)) (h : FileMetaVersionHeader) (n : ℕ) : Prop where
  mem : ∃ t ∈ ts, t.header = h
  max : ∀ t ∈ ts, ¬ t.header.sortsBefore h
  count : n = ts.countP (·.header == h)

omit [Inhabited B] in
/-- When tops of one id have one header, the scan finds the best of them. -/
theorem scanTops_best (hagree : ∀ a ∈ ts, ∀ b ∈ ts,
      a.header.versionId = b.header.versionId → a.header = b.header)
    (hts : ts = done ++ rs) (hb : Best done latest.header count) :
    Best ts (scanTops strict o ts false rs latest count).1.header
      (scanTops strict o ts false rs latest count).2 := by
  induction rs generalizing done latest count with
  | nil => simpa [scanTops, hts] using hb
  | cons ver rs ih =>
    have hts' : ts = (done ++ [ver]) ++ rs := by simpa using hts
    obtain ⟨t, ht, htl⟩ := hb.mem
    have hsame : ver.header.versionId = latest.header.versionId → ver.header = latest.header := by
      intro hid
      rw [← htl] at hid ⊢
      exact hagree ver (by simp [hts]) t (by simp [hts, ht]) hid
    have hmatch : ver.header.matchesNotStrict latest.header → ver.header = latest.header :=
      fun hm => hsame (versionId_of_matchesNotStrict hm)
    unfold scanTops
    split
    · next heq =>
      refine ih hts' ⟨⟨t, by simp [ht], htl⟩, ?_, ?_⟩
      · exact forall_mem_append.mpr ⟨hb.max, forall_mem_singleton.mpr (heq ▸ not_sortsBefore_self)⟩
      · simp [hb.count, heq]
    · next hne =>
      have hnm : ver.header.matchesNotStrict latest.header = false :=
        Bool.eq_false_iff.mpr fun hm => hne (hmatch hm)
      have hnid : (ver.header.versionId == latest.header.versionId) = false :=
        beq_eq_false_iff_ne.mpr fun hid => hne (hsame hid)
      simp only [hnm, hnid, Bool.and_false, Bool.false_eq_true, if_false, ite_self, Bool.false_or]
      split
      · next hsb =>
        have hfresh : done.countP (·.header == ver.header) = 0 := by
          refine countP_eq_zero.mpr fun x hx heq => hb.max x hx ?_
          rwa [beq_iff_eq.mp heq]
        have hmax : ∀ x ∈ done, ¬ x.header.sortsBefore ver.header := fun x hx hxv =>
          hb.max x hx (sortsBefore_trans hxv hsb)
        exact ih hts' ⟨⟨ver, by simp, rfl⟩,
          forall_mem_append.mpr ⟨hmax, forall_mem_singleton.mpr not_sortsBefore_self⟩, by simp [hfresh]⟩
      · next hsb =>
        exact ih hts' ⟨⟨t, by simp [ht], htl⟩,
          forall_mem_append.mpr ⟨hb.max, forall_mem_singleton.mpr hsb⟩, by simp [hb.count, hne]⟩

/-- Lists that agree on their versions, each newest first and with each id once. -/
structure Orderly (lists : Streams B) : Prop where
  agree : Agree lists
  newestFirst : ∀ l ∈ lists, NewestFirst l
  distinct : ∀ l ∈ lists, (l.map fun v => v.header.versionId).Nodup

variable {l : List (FileMetaShallowVersion B)}

section
omit [Inhabited B]

theorem Within.exists_list (hw : Within ls ss) (hl : l ∈ ss) : ∃ l' ∈ ls, l.Sublist l' := by
  induction hw with
  | nil => simp at hl
  | cons hsub _ ih =>
    rcases mem_cons.mp hl with rfl | hl
    · exact ⟨_, mem_cons_self, hsub⟩
    · obtain ⟨l', hl', hsub⟩ := ih hl
      exact ⟨l', mem_cons_of_mem _ hl', hsub⟩

theorem Orderly.within (ho : Orderly ls) (hw : Within ls ss) : Orderly ss := by
  refine ⟨fun l hl l' hl' v hv v' hv' => ?_, fun l hl => ?_, fun l hl => ?_⟩
  · obtain ⟨k, hk, hsub⟩ := hw.exists_list hl
    obtain ⟨k', hk', hsub'⟩ := hw.exists_list hl'
    exact ho.agree k hk k' hk' v (hsub.subset hv) v' (hsub'.subset hv')
  · obtain ⟨k, hk, hsub⟩ := hw.exists_list hl
    exact (ho.newestFirst k hk).sublist hsub
  · obtain ⟨k, hk, hsub⟩ := hw.exists_list hl
    exact (ho.distinct k hk).sublist (hsub.map _)

theorem eraseP_congr {p q : FileMetaShallowVersion B → Bool}
    (hpq : ∀ v ∈ l, p v = q v) : l.eraseP p = l.eraseP q := by
  induction l with
  | nil => rfl
  | cons v l ih =>
    simp only [eraseP_cons, hpq v mem_cons_self, ih fun x hx => hpq x (mem_cons_of_mem _ hx)]

end

theorem modTime_trans_not_gt {a b c : Option Time} (hab : a ≤ b) (hbc : Ord.compare b c ≠ .gt) :
    Ord.compare a c ≠ .gt := by
  intro hgt
  have hca := le_of_compare_gt hgt
  have hac := modTime_le_trans hab (compare_modTime_le hbc)
  obtain rfl : a = c := by
    cases a <;> cases c <;> simp_all
    exact le_antisymm hac hca
  simp at hgt

variable {v : FileMetaShallowVersion B}

section

variable {ms : List (FileMetaShallowVersion B)} (ho : Orderly ss)
  (hfresh : ∀ l ∈ ss, ∀ v ∈ l, ∀ m ∈ ms, v.header.versionId ≠ m.header.versionId)

include ho hfresh

omit [Inhabited B] in
/-- Only the version settled on goes from the streams. -/
theorem gone_iff {n : ℕ} (hb : Best (tops ss) latest.header n)
    {new : Option (FileMetaShallowVersion B)} (hnew : ∀ v ∈ new, v.header = latest.header)
    (hl : l ∈ ss) (hv : v ∈ l) : gone latest (ms ++ new.toList) v = (v.header == latest.header) := by
  by_cases heq : v.header = latest.header
  · simp [gone, heq]
  · obtain ⟨t, ht, htl⟩ := hb.mem
    obtain ⟨k, hk, htop⟩ := mem_tops.mp ht
    have hid : v.header.versionId ≠ latest.header.versionId := fun hid =>
      heq (htl ▸ ho.agree l hl k hk v hv t (mem_of_mem_head? htop) (htl ▸ hid))
    have hold : Ord.compare v.header.modTime latest.header.modTime ≠ .gt := by
      cases l with
      | nil => simp at hv
      | cons t' l =>
        have hmax := hb.max t' (mem_tops.mpr ⟨_, hl, rfl⟩)
        refine modTime_trans_not_gt ?_ (modTime_not_gt hmax)
        rcases mem_cons.mp hv with rfl | hv
        · exact modTime_le_refl _
        · exact rel_of_pairwise_cons (ho.newestFirst _ hl) hv
    have hnone : ∀ m ∈ ms ++ new.toList, v.header.versionId ≠ m.header.versionId := by
      intro m hm
      rcases mem_append.mp hm with hm | hm
      · exact hfresh l hl v hv m hm
      · exact hnew m (Option.mem_toList.mp hm) ▸ hid
    have hany : (ms ++ new.toList).any (fun m => v.header.versionId == m.header.versionId) = false :=
      any_eq_false.mpr fun m hm => by simpa using hnone m hm
    rw [gone, hany, beq_eq_false_iff_ne.mpr hold, beq_eq_false_iff_ne.mpr hid.symm]
    simp

/-- A round takes the best of the tops from the streams, and merges it when it has a quorum. -/
theorem round_orderly (hq : quorum ≤ (tops ss).length) (hne : tops ss ≠ []) :
    ∃ h n, Best (tops ss) h n ∧
      ss.map (List.eraseP (gone (chosen quorum strict o ss).1
        (ms ++ (chosen quorum strict o ss).2.toList))) =
        ss.map (List.eraseP (·.header == h)) ∧
      (n < quorum ∧ (chosen quorum strict o ss).2 = none ∨
        quorum ≤ n ∧ ∃ v, v.header = h ∧ (chosen quorum strict o ss).2 = some v) := by
  obtain ⟨t, rs, ht⟩ := exists_cons_of_ne_nil hne
  unfold chosen
  split
  · next hc =>
    have hmem : t ∈ tops ss := ht ▸ mem_cons_self
    have hall := consistentFrom_none hc hmem
    refine ⟨t.header, (tops ss).length, ⟨⟨t, hmem, rfl⟩, fun t' ht' => ?_, ?_⟩, ?_,
      .inr ⟨hq, t, rfl, by simp [ht]⟩⟩
    · exact hall t' ht' ▸ not_sortsBefore_self
    · exact (countP_eq_length.mpr fun t' ht' => by simpa using hall t' ht').symm
    · refine map_congr_left fun l hl => ?_
      cases l with
      | nil => rfl
      | cons t' l =>
        have htop := hall t' (mem_tops.mpr ⟨_, hl, rfl⟩)
        rw [eraseP_cons_of_pos (by simp [gone, ht, htop]), eraseP_cons_of_pos (by simp [htop])]
  · obtain ⟨l, hl, heq⟩ := latestTop_cons strict o ht
    have hagree : ∀ a ∈ t :: rs, ∀ b ∈ t :: rs,
        a.header.versionId = b.header.versionId → a.header = b.header := by
      intro a ha b hb
      obtain ⟨k, hk, hka⟩ := mem_tops.mp (ht ▸ ha)
      obtain ⟨k', hk', hkb⟩ := mem_tops.mp (ht ▸ hb)
      exact ho.agree k hk k' hk' a (mem_of_mem_head? hka) b (mem_of_mem_head? hkb)
    have hbest : Best (tops ss) (latestTop strict o ss).1.header (latestTop strict o ss).2 := by
      rw [heq, ht]
      refine scanTops_best hagree (show t :: rs = [t] ++ rs from rfl)
        ⟨⟨t, by simp, hl.symm⟩, ?_, by simp [hl]⟩
      intro x hx
      rw [mem_singleton.mp hx, hl]
      exact not_sortsBefore_self
    refine ⟨_, _, hbest, map_congr_left fun l hl => eraseP_congr fun v hv => ?_, ?_⟩
    · refine gone_iff ho hfresh hbest (fun v hv => ?_) hl hv
      dsimp only at hv
      split at hv <;> simp_all
    · dsimp only
      split
      · next hn => exact .inr ⟨hn, _, rfl, rfl⟩
      · next hn => exact .inl ⟨by omega, rfl⟩

end

/-- The streams are left of the lists, and the versions merged are gone from them. -/
structure Untangled (lists : Streams B) (s : Merging B) : Prop where
  within : Within lists s.streams
  fresh : ∀ l ∈ s.streams, ∀ v ∈ l, ∀ m ∈ s.merged, v.header.versionId ≠ m.header.versionId
  distinct : (s.merged.map fun v => v.header.versionId).Nodup

variable (o strict) in
theorem Untangled.round (ho : Orderly ls) (hs : Untangled ls s)
    (hq : quorum ≤ (tops s.streams).length) (hne : tops s.streams ≠ []) :
    ∃ h n, Best (tops s.streams) h n ∧
      (mergeRound quorum strict o s).streams = s.streams.map (List.eraseP (·.header == h)) ∧
      (n < quorum ∧ (mergeRound quorum strict o s).merged = s.merged ∨
        quorum ≤ n ∧ ∃ v, v.header = h ∧
          (mergeRound quorum strict o s).merged = s.merged ++ [v]) := by
  obtain ⟨h, n, hb, hstreams, hnew⟩ := round_orderly (ho.within hs.within) hs.fresh hq hne
  refine ⟨h, n, hb, hstreams, ?_⟩
  rcases hnew with ⟨hn, hnone⟩ | ⟨hn, v, hv, hsome⟩
  · exact .inl ⟨hn, by simp [mergeRound, hnone]⟩
  · exact .inr ⟨hn, v, hv, by simp [mergeRound, hsome]⟩

theorem Untangled.mergeRound (ho : Orderly ls) (hs : Untangled ls s)
    (hq : quorum ≤ (tops s.streams).length) (hne : tops s.streams ≠ []) :
    Untangled ls (mergeRound quorum strict o s) := by
  have hos := ho.within hs.within
  obtain ⟨h, n, hb, hstreams, hnew⟩ := hs.round o strict ho hq hne
  obtain ⟨t, ht, rfl⟩ := hb.mem
  obtain ⟨k, hk, htop⟩ := mem_tops.mp ht
  have htk := mem_of_mem_head? htop
  have hfresh : ∀ l ∈ (FileMeta.mergeRound quorum strict o s).streams, ∀ v ∈ l,
      (∀ m ∈ s.merged, v.header.versionId ≠ m.header.versionId) ∧
        v.header.versionId ≠ t.header.versionId := by
    intro l hl v hv
    rw [hstreams] at hl
    obtain ⟨l', hl', rfl⟩ := mem_map.mp hl
    have hvl := eraseP_subset hv
    refine ⟨hs.fresh l' hl' v hvl, fun hid => ?_⟩
    rw [eraseP_eq_filter_of_nodup (fun a b ha hb => by rw [beq_iff_eq.mp ha, beq_iff_eq.mp hb])
      (hos.distinct l' hl')] at hv
    simp [hos.agree l' hl' k hk v hvl t htk hid] at hv
  refine ⟨hstreams ▸ hs.within.map_eraseP _, fun l hl v hv m hm => ?_, ?_⟩
  · obtain ⟨hold, hid⟩ := hfresh l hl v hv
    rcases hnew with ⟨-, heq⟩ | ⟨-, w, hw, heq⟩ <;> rw [heq] at hm
    · exact hold m hm
    · rcases mem_append.mp hm with hm | hm
      · exact hold m hm
      · rwa [mem_singleton.mp hm, hw]
  · rcases hnew with ⟨-, heq⟩ | ⟨-, w, hw, heq⟩ <;> rw [heq]
    · exact hs.distinct
    · rw [map_append, nodup_append]
      refine ⟨hs.distinct, by simp, fun a ha b hb => ?_⟩
      obtain ⟨m, hm, rfl⟩ := mem_map.mp ha
      obtain rfl : b = w.header.versionId := mem_singleton.mp hb
      exact hw ▸ (hs.fresh k hk t htk m hm).symm

end

section

variable {lists : Streams B} {quorum : ℕ} {strict : Bool}
  {os : ℕ → CountOrder} {h : FileMetaVersionHeader}

omit [Inhabited B] in
theorem tops_ne_nil {ss : Streams B} (hq : 1 ≤ quorum)
    (htops : quorum ≤ (tops ss).length) : tops ss ≠ [] :=
  ne_nil_of_length_pos (by omega)

variable (strict os) in
/-- A merge of several lists is the loop, and it ends. -/
theorem exists_mergeWithin (hq : 1 ≤ quorum) (ls : Streams B) :
    ∃ out, (∀ fuel, ls.flatten.length < fuel →
      mergeWithin quorum strict 0 os fuel ls = some out) ∧
      (ls.length < quorum ∧ out = [] ∨ ls = [out] ∧ quorum = 1 ∨
        1 < ls.length ∧ ∃ fuel, mergeLoop quorum (strict || quorum == 1) 0 os fuel 0 { streams := ls } =
          some out) := by
  have hmax : max quorum 1 = quorum := max_eq_left hq
  by_cases hlen : ls.length < quorum
  · exact ⟨[], fun fuel _ => by simp [mergeWithin, hmax, hlen], .inl ⟨hlen, rfl⟩⟩
  · have hne : ls ≠ [] := ne_nil_of_length_pos (by omega)
    match ls, hlen, hne with
    | [only], hlen, _ =>
      have hlen : ¬ 1 < quorum := hlen
      exact ⟨only, fun fuel _ => by simp [mergeWithin, hmax, hlen], .inr (.inl ⟨rfl, by omega⟩)⟩
    | a :: b :: ls, hlen, _ =>
      obtain ⟨out, hout⟩ : ∃ out, mergeLoop quorum (strict || quorum == 1) 0 os
          ((a :: b :: ls).flatten.length + 1) 0 { streams := a :: b :: ls } = some out :=
        exists_mergeLoop hq (Nat.lt_succ_self _)
      refine ⟨out, fun fuel hfuel => ?_, .inr (.inr ⟨by simp, _, hout⟩)⟩
      have hloop := mergeLoop_mono hout hfuel
      rw [mergeWithin, hmax, if_neg (by simpa using hlen)]
      · exact hloop
      · simp

/-- A version that a round merges has the header of a top. -/
theorem isTop_of_chosen {o : CountOrder}
    {ss : Streams B} {v : FileMetaShallowVersion B} (hne : tops ss ≠ [])
    (hv : (chosen quorum strict o ss).2 = some v) : IsTop (tops ss) v := by
  unfold chosen at hv
  split at hv
  · exact ⟨v, mem_of_mem_head? hv, rfl⟩
  · dsimp only at hv
    split at hv
    · cases hv
      exact latestTop_isTop strict o hne
    · cases hv

/-- No round begins with an id on top of a stream that was merged before; a single list that is given
back as it is has no id twice. -/
def NoneAgain (quorum : ℕ) (orders : ℕ → CountOrder)
    (lists : Streams B) : Prop :=
  (∀ only, lists = [only] → quorum = 1 → (only.map fun v => v.header.versionId).Nodup) ∧
  (1 < lists.length → ∀ n, Running quorum true orders lists (n + 1) →
    ∀ t ∈ tops (mergeState quorum true orders lists n).streams,
    ∀ m ∈ (mergeState quorum true orders lists n).merged, t.header.versionId ≠ m.header.versionId)

theorem NoneAgain.nodup (h : NoneAgain quorum os lists) (hq : 1 ≤ quorum) (hlen : 1 < lists.length)
    {n : ℕ} (hrun : Running quorum true os lists n) :
    ((mergeState quorum true os lists n).merged.map fun v => v.header.versionId).Nodup := by
  induction n with
  | zero => exact nodup_nil
  | succ n ih =>
    have ih := ih (hrun.mono (Nat.le_succ n))
    have hne := tops_ne_nil hq (hrun n (Nat.lt_succ_self n))
    rw [mergeState, mergeRound]
    dsimp only
    cases hv : (chosen quorum true (os n) (mergeState quorum true os lists n).streams).2 with
    | none => simpa using ih
    | some v =>
      obtain ⟨t, ht, heq⟩ := isTop_of_chosen hne hv
      rw [Option.toList_some, map_append, nodup_append]
      refine ⟨ih, by simp, fun a ha b hb => ?_⟩
      obtain ⟨m, hm, rfl⟩ := mem_map.mp ha
      obtain rfl : b = v.header.versionId := mem_singleton.mp hb
      exact heq ▸ (h.2 hlen n hrun t ht m hm).symm

theorem Orderly.untangled (ho : Orderly lists) (hq : 1 ≤ quorum) {n : ℕ}
    (hrun : Running quorum strict os lists n) : Untangled lists (mergeState quorum strict os lists n) :=
  hrun.invariant (fun _ _ hs htops => hs.mergeRound ho htops (tops_ne_nil hq htops))
    ⟨within_refl lists, by simp, by simp⟩

theorem Orderly.noneAgain (ho : Orderly lists) (hq : 1 ≤ quorum) : NoneAgain quorum os lists := by
  refine ⟨fun only heq _ => ho.distinct only (by simp [heq]), fun _ n hrun t ht m hm => ?_⟩
  obtain ⟨l, hl, htop⟩ := mem_tops.mp ht
  have hs := ho.untangled hq (hrun.mono (Nat.le_succ n))
  exact hs.fresh l hl t (mem_of_mem_head? htop) m hm

/-- A version of this id, written at this time. -/
def writtenAt (id : Uuid) (t : Time) : FileMetaShallowVersion Unit :=
  ⟨{ versionId := some id, modTime := some t, versionType := .object }, ()⟩

instance (l : List (FileMetaShallowVersion B)) : Decidable (NewestFirst l) :=
  decidable_of_iff _ isSortedByModTime_iff

/-- Three disks, one of which has a version more. -/
def lagging : Streams Unit :=
  [[writtenAt 1 10], [writtenAt 2 20, writtenAt 1 10], [writtenAt 1 10]]

/-- Five disks; one has another version 1 than the others, and two have a version 2 above it. -/
def conflicting : Streams Unit :=
  [[writtenAt 1 10], [writtenAt 1 5], [writtenAt 1 5], [writtenAt 2 7, writtenAt 1 5],
    [writtenAt 2 7, writtenAt 1 5]]

/-- Lists that agree on their versions, each in the order of the headers. -/
structure Sorted (lists : Streams B) : Prop where
  agree : Agree lists
  sorted : ∀ l ∈ lists, l.Pairwise fun a b => a.header.sortsBefore b.header

section
omit [Inhabited B]

theorem Sorted.orderly (hs : Sorted lists) : Orderly lists := by
  refine ⟨hs.agree, fun l hl => ?_, fun l hl => ?_⟩
  · refine (hs.sorted l hl).imp fun {a b} hab => compare_modTime_le fun hgt => ?_
    refine not_sortsBefore_self (sortsBefore_trans hab ?_)
    exact sortsBefore_of_newer hgt
  · refine pairwise_map.mpr ((hs.sorted l hl).imp_of_mem fun {a b} ha hb hab hid => ?_)
    rw [hs.agree l hl l hl a ha b hb hid] at hab
    exact not_sortsBefore_self hab

variable {s : Streams B}

theorem Sorted.within (hs : Sorted lists) (hw : Within lists s) : Sorted s := by
  refine ⟨(hs.orderly.within hw).agree, fun l hl => ?_⟩
  obtain ⟨k, hk, hsub⟩ := hw.exists_list hl
  exact (hs.sorted k hk).sublist hsub

/-- The best of the tops stands nowhere below a top. -/
theorem holders_eq_countP (hs : ∀ l ∈ s, l.Pairwise fun a b => a.header.sortsBefore b.header)
    (hmax : ∀ t ∈ tops s, ¬ t.header.sortsBefore h) :
    holders s h = (tops s).countP (·.header == h) := by
  induction s with
  | nil => rfl
  | cons l s ih =>
    have ih := ih (fun l hl => hs l (mem_cons_of_mem _ hl)) fun t ht => by
      obtain ⟨k, hk, htop⟩ := mem_tops.mp ht
      exact hmax t (mem_tops.mpr ⟨k, mem_cons_of_mem _ hk, htop⟩)
    rw [holders] at ih ⊢
    cases l with
    | nil => simpa using ih
    | cons v l =>
      have hbelow : l.any (·.header == h) = false := by
        refine any_eq_false.mpr fun w hw heq => ?_
        refine hmax v (mem_tops.mpr ⟨_, mem_cons_self, rfl⟩) ?_
        exact beq_iff_eq.mp heq ▸ rel_of_pairwise_cons (hs _ mem_cons_self) hw
      rw [tops_cons_cons, countP_cons, countP_cons, ih, any_cons, hbelow, Bool.or_false]

theorem holders_eraseP {x : FileMetaVersionHeader}
    (hne : h ≠ x) : holders (s.map (List.eraseP (·.header == x))) h = holders s h := by
  rw [holders, holders, countP_map]
  refine countP_congr fun l _ => ?_
  simp only [Function.comp_apply, any_eq_true, beq_iff_eq]
  refine exists_congr fun v => and_congr_left fun hv => ?_
  exact mem_eraseP_of_neg (by simpa [hv] using hne)

theorem holders_le_tops (ss : Streams B)
    (h : FileMetaVersionHeader) : holders ss h ≤ (tops ss).length := by
  induction ss with
  | nil => exact le_rfl
  | cons l ss ih =>
    rw [holders] at ih ⊢
    cases l with
    | nil => simpa using ih
    | cons v l =>
      rw [tops_cons_cons, countP_cons, length_cons]
      split <;> omega

end

/-- A round keeps what a quorum of the streams hold in a quorum of them, or merges it. -/
theorem Untangled.kept {o : CountOrder} (hl : Sorted lists)
    (hs : Untangled lists s) (hq : quorum ≤ (tops s.streams).length) (hne : tops s.streams ≠ [])
    (hheld : quorum ≤ holders s.streams h) :
    quorum ≤ holders (FileMeta.mergeRound quorum strict o s).streams h ∨
      ∃ v ∈ (FileMeta.mergeRound quorum strict o s).merged, v.header = h := by
  obtain ⟨x, n, hb, hstreams, hnew⟩ := hs.round o strict hl.orderly hq hne
  by_cases hx : h = x
  · subst hx
    have hcount := holders_eq_countP (hl.within hs.within).sorted hb.max
    rcases hnew with ⟨hn, -⟩ | ⟨-, v, hv, heq⟩
    · have := hb.count
      omega
    · exact .inr ⟨v, by simp [heq], hv⟩
  · exact .inl (by rwa [hstreams, holders_eraseP hx])

/-- No round leaves a header that a quorum of the streams hold with fewer of them, unless it is merged
then. A single list is given back as it is. -/
def KeepsHeld (quorum : ℕ) (strict : Bool) (orders : ℕ → CountOrder)
    (lists : Streams B) : Prop :=
  1 < lists.length → ∀ n h, quorum ≤ holders (mergeState quorum strict orders lists n).streams h →
    quorum ≤ holders (mergeState quorum strict orders lists (n + 1)).streams h ∨
      ∃ v ∈ (mergeState quorum strict orders lists (n + 1)).merged, v.header = h

theorem holders_antitone (h : FileMetaVersionHeader) :
    Antitone fun n => holders (mergeState quorum strict os lists n).streams h :=
  antitone_nat_of_succ_le fun _ => holders_mergeRound_le _ h

theorem running_of_holders {n : ℕ}
    (hheld : quorum ≤ holders (mergeState quorum strict os lists n).streams h) :
    Running quorum strict os lists (n + 1) := by
  intro k hk
  exact hheld.trans ((holders_antitone h (Nat.lt_succ_iff.mp hk)).trans (holders_le_tops _ h))

theorem Sorted.keepsHeld (hl : Sorted lists) (hq : 1 ≤ quorum) : KeepsHeld quorum strict os lists := by
  intro _ n h hheld
  have hrun := running_of_holders hheld
  have hs := hl.orderly.untangled hq (hrun.mono (Nat.le_succ n))
  have htops := hrun n (Nat.lt_succ_self n)
  exact hs.kept hl htops (tops_ne_nil hq htops) hheld

/-- What a quorum of the lists hold is held on to until it is merged. -/
theorem KeepsHeld.held (hkeeps : KeepsHeld quorum strict os lists) (hlen : 1 < lists.length)
    (hheld : quorum ≤ holders lists h) (n : ℕ) :
    quorum ≤ holders (mergeState quorum strict os lists n).streams h ∨
      ∃ v ∈ (mergeState quorum strict os lists n).merged, v.header = h := by
  induction n with
  | zero => exact .inl hheld
  | succ n ih =>
    rcases ih with hheld | ⟨v, hv, hvh⟩
    · exact hkeeps hlen n h hheld
    · exact .inr ⟨v, mem_append_left _ hv, hvh⟩

/-- A strict merge merges a header only while a quorum of the streams hold it. -/
theorem merged_of_later {k n : ℕ} (hkn : k ≤ n) (hrun : Running quorum true os lists n)
    (hv : ∃ v ∈ (mergeState quorum true os lists n).merged, v.header = h) :
    quorum ≤ holders (mergeState quorum true os lists k).streams h ∨
      ∃ v ∈ (mergeState quorum true os lists k).merged, v.header = h := by
  induction n, hkn using Nat.le_induction with
  | base => exact .inr hv
  | succ n hkn ih =>
    obtain ⟨v, hv, rfl⟩ := hv
    rcases mem_append.mp hv with hv | hv
    · exact ih (hrun.mono (Nat.le_succ n)) ⟨v, hv, rfl⟩
    · have hheld := quorum_le_of_chosen (hrun n (Nat.lt_succ_self n)) (Option.mem_toList.mp hv)
      exact .inl (hheld.trans (holders_antitone _ hkn))

/-- Three disks; one has another version 1 than the others. -/
def stale : Streams Unit :=
  [[writtenAt 1 10], [writtenAt 1 10], [writtenAt 1 20]]

end

end FileMeta

end Rustfs
