import Mathlib.Algebra.Order.BigOperators.Group.List
import Mathlib.Data.List.Sublists
import Rustfs.Filemeta.FileMeta
import Rustfs.Lib.Tally

/-! Merging the version lists that several disks have of one object. -/
namespace Rustfs

open List

namespace FileMetaVersionHeader

def hasEc (h : FileMetaVersionHeader) : Bool := decide (h.ecM > 0) && decide (h.ecN > 0)

def matchesEc (h o : FileMetaVersionHeader) : Bool :=
  if h.hasEc && o.hasEc then h.ecN == o.ecN && h.ecM == o.ecM else true

def matchesNotStrict (h o : FileMetaVersionHeader) : Bool :=
  let ok := h.versionId == o.versionId && h.versionType == o.versionType && h.matchesEc o
  if h.versionId.isNone then ok && h.modTime == o.modTime else ok

def freeVersion (h : FileMetaVersionHeader) : Bool := h.flags &&& 1 != 0

/-- Newer first; then the lower type, the greater id and the greater flags. -/
def sortsBefore (h o : FileMetaVersionHeader) : Bool :=
  if h = o then false
  else if h.modTime ≠ o.modTime then Ord.compare h.modTime o.modTime == .gt
  else if h.versionType ≠ o.versionType then Ord.compare h.versionType o.versionType == .lt
  else
    match Ord.compare h.versionId o.versionId with
    | .gt => true
    | .lt => false
    | .eq => if h.flags ≠ o.flags then Ord.compare h.flags o.flags == .gt else false

/-- The header as it is counted: without its signature when the merge is not strict. -/
def counted (strict : Bool) (h : FileMetaVersionHeader) : FileMetaVersionHeader :=
  if strict then h else { h with signature := [0, 0, 0, 0] }

variable {h o p : FileMetaVersionHeader}

/-- The comparison behind `sorts_before`. -/
def mergeOrder : FileMetaVersionHeader → FileMetaVersionHeader → Ordering :=
  compareLex (compareOn modTime) (compareLex (fun h o => compareOn versionType o h)
    (compareLex (compareOn versionId) (compareOn flags)))

instance : Std.TransCmp mergeOrder := by
  have : Std.TransCmp fun h o => compareOn versionType o h := Std.TransCmp.opposite
  unfold mergeOrder
  infer_instance

theorem sortsBefore_iff : h.sortsBefore o ↔ mergeOrder h o = .gt := by
  simp only [sortsBefore, mergeOrder, compareLex, compareOn, Ordering.then_eq_gt,
    Std.compare_eq_iff_eq]
  split_ifs with heq hm ht
  · simp [heq]
  · simp [hm]
  · simp [not_not.mp hm, Ne.symm ht, Std.OrientedCmp.gt_iff_lt (a := o.versionType)]
  all_goals
    rw [not_not] at hm ht
    rw [← Std.compare_eq_iff_eq (a := h.versionId)]
    cases Ord.compare h.versionId o.versionId <;> simp_all

theorem sortsBefore_trans (hho : h.sortsBefore o) (hop : o.sortsBefore p) : h.sortsBefore p := by
  rw [sortsBefore_iff] at *
  exact Std.TransCmp.gt_trans hho hop

theorem sortsBefore_of_newer (hm : Ord.compare h.modTime o.modTime = .gt) : h.sortsBefore o := by
  rw [sortsBefore_iff, mergeOrder, compareLex, compareOn, hm]
  rfl

theorem not_sortsBefore_self : ¬ h.sortsBefore h := by
  simp [sortsBefore]

/-- What does not sort before a header is not newer. -/
theorem modTime_not_gt (hn : ¬ h.sortsBefore o) : Ord.compare h.modTime o.modTime ≠ .gt :=
  fun hgt => hn (sortsBefore_of_newer hgt)

theorem versionId_of_matchesNotStrict (hm : h.matchesNotStrict o) : h.versionId = o.versionId := by
  unfold matchesNotStrict at hm
  split at hm <;> simp_all

end FileMetaVersionHeader

instance {B : Type} [Inhabited B] : Inhabited (FileMetaShallowVersion B) := ⟨{}, default⟩

namespace FileMeta

variable {B : Type} [Inhabited B]

/-- The version lists of several disks. -/
abbrev Streams (B : Type) : Type := List (List (FileMetaShallowVersion B))

/-- The order in which a map hands over how often each header was met. -/
abbrev CountOrder : Type := IterOrder (FileMetaVersionHeader × ℕ)

/-- The streams, what is merged from them so far, and how many of it are not free versions. -/
structure Merging (B : Type) where
  streams : Streams B
  merged : List (FileMetaShallowVersion B) := []
  nVersions : ℕ := 0

def tops (streams : Streams B) : List (FileMetaShallowVersion B) :=
  streams.filterMap List.head?

omit [Inhabited B] in
@[simp] theorem tops_nil_cons (ss : Streams B) :
    tops ([] :: ss) = tops ss := rfl

omit [Inhabited B] in
@[simp] theorem tops_cons_cons (v : FileMetaShallowVersion B) (l : List (FileMetaShallowVersion B))
    (ss : Streams B) :
    tops ((v :: l) :: ss) = v :: tops ss := rfl

/-- Whether all streams have one top; an empty stream counts only after one with a top. -/
def consistentFrom : Option FileMetaVersionHeader → Bool →
    Streams B → Bool
  | _, consistent, [] => consistent
  | topSig, _, [] :: streams => consistentFrom topSig false streams
  | none, _, (v :: _) :: streams => consistentFrom (some v.header) true streams
  | some topSig, consistent, (v :: _) :: streams =>
    consistentFrom (some topSig) (consistent && v.header == topSig) streams

/-- The last top with a header that is counted as the key. -/
def lastCounted (strict : Bool) (k : FileMetaVersionHeader) (ts : List (FileMetaShallowVersion B))
    (latest : FileMetaShallowVersion B) : FileMetaShallowVersion B :=
  ts.foldl (fun latest a => if a.header.counted strict = k then a else latest) latest

/-- The top the table prefers: the greater count, then the header that sorts before. -/
def settle (strict : Bool) (tops : List (FileMetaShallowVersion B)) :
    List (FileMetaVersionHeader × ℕ) → FileMetaShallowVersion B → ℕ → FileMetaShallowVersion B × ℕ
  | [], latest, count => (latest, count)
  | (k, v) :: table, latest, count =>
    if v < count then settle strict tops table latest count
    else if v = count ∧ latest.header.sortsBefore k then settle strict tops table latest count
    else
      settle strict tops table (lastCounted strict k tops latest) v

section

variable (quorum : ℕ) (strict : Bool) (order : CountOrder)

/-- The scan of the tops for the latest version and how many have it. -/
def scanTops (tops : List (FileMetaShallowVersion B)) : Bool → List (FileMetaShallowVersion B) →
    FileMetaShallowVersion B → ℕ → FileMetaShallowVersion B × ℕ
  | _, [], latest, count => (latest, count)
  | first, ver :: rest, latest, count =>
    if ver.header = latest.header then scanTops tops false rest latest (count + 1)
    else if first || ver.header.sortsBefore latest.header then
      scanTops tops false rest ver
        (if first || count == 0 then 1
        else if !strict && ver.header.matchesNotStrict latest.header then count + 1
        else 1)
    else if decide (count > 0) && !strict && ver.header.matchesNotStrict latest.header then
      scanTops tops false rest latest (count + 1)
    else if decide (count > 0) && ver.header.versionId == latest.header.versionId then
      settle strict tops
        (order.run (Tally.tally ((tops.filter fun a => a.header.versionId == ver.header.versionId).map
          fun a => a.header.counted strict))) latest 0
    else scanTops tops false rest latest count

/-- The first version of a stream for which this holds is taken out of it. -/
def gone (latest : FileMetaShallowVersion B) (merged : List (FileMetaShallowVersion B))
    (ver : FileMetaShallowVersion B) : Bool :=
  Ord.compare ver.header.modTime latest.header.modTime == .gt || ver.header == latest.header ||
    latest.header.versionId == ver.header.versionId ||
    merged.any fun m => ver.header.versionId == m.header.versionId

/-- The latest of the tops, with its count. -/
def latestTop (streams : Streams B) : FileMetaShallowVersion B × ℕ :=
  scanTops strict order (tops streams) true (tops streams) default 0

/-- The version a round settles on, and the one it merges. -/
def chosen (streams : Streams B) :
    FileMetaShallowVersion B × Option (FileMetaShallowVersion B) :=
  if consistentFrom none true streams then (default, (tops streams).head?)
  else
    let latest := latestTop strict order streams
    (latest.1, if latest.2 ≥ quorum then some latest.1 else none)

def mergeRound (s : Merging B) : Merging B :=
  let choice := chosen quorum strict order s.streams
  let merged := s.merged ++ choice.2.toList
  { streams := s.streams.map (List.eraseP (gone choice.1 merged))
    merged
    nVersions := s.nVersions + choice.2.toList.countP (!·.header.freeVersion) }

end

variable (quorum : ℕ) (strict : Bool) (requested : ℕ)
  (orders : ℕ → CountOrder)

/-- The loop; `none` when the rounds allowed are used up. -/
def mergeLoop : ℕ → ℕ → Merging B → Option (List (FileMetaShallowVersion B))
  | 0, _, _ => none
  | fuel + 1, n, s =>
    if (tops s.streams).length < quorum then some s.merged
    else
      let s := mergeRound quorum strict (orders n) s
      if requested > 0 ∧ requested = s.nVersions then some (s.merged ++ s.streams.headD [])
      else mergeLoop fuel (n + 1) s

/-- The state after so many rounds. -/
def mergeState (versions : Streams B) : ℕ → Merging B
  | 0 => { streams := versions }
  | n + 1 => mergeRound quorum strict (orders n) (mergeState versions n)

/-- So many rounds are run. -/
def Running (versions : Streams B) (n : ℕ) : Prop :=
  ∀ k < n, quorum ≤ (tops (mergeState quorum strict orders versions k).streams).length

/-- The merge in at most `fuel` rounds. -/
def mergeWithin (fuel : ℕ) (versions : Streams B) :
    Option (List (FileMetaShallowVersion B)) :=
  let quorum := max quorum 1
  if versions.length < quorum ∨ versions = [] then some []
  else
    match versions with
    | [only] => some only
    | versions =>
      mergeLoop quorum (strict || quorum == 1) requested orders fuel 0 { streams := versions }

section

variable {strict} {o : CountOrder}
  {ts rs done : List (FileMetaShallowVersion B)} {latest : FileMetaShallowVersion B} {c : ℕ}
  {table : List (FileMetaVersionHeader × ℕ)} {ss : Streams B}

/-- One of the tops has the header of the version. -/
def IsTop (ts : List (FileMetaShallowVersion B)) (v : FileMetaShallowVersion B) : Prop :=
  ∃ t ∈ ts, t.header = v.header

section
omit [Inhabited B]

theorem lastCounted_cases (s : Bool) (k : FileMetaVersionHeader) (ts : List (FileMetaShallowVersion B))
    (l : FileMetaShallowVersion B) :
    (lastCounted s k ts l ∈ ts ∧ (lastCounted s k ts l).header.counted s = k) ∨
    (lastCounted s k ts l = l ∧ ∀ t ∈ ts, t.header.counted s ≠ k) := by
  induction ts using List.reverseRecOn with
  | nil => exact .inr ⟨rfl, by simp⟩
  | append_singleton ts t ih =>
    have hlast : lastCounted s k (ts ++ [t]) l =
        if t.header.counted s = k then t else lastCounted s k ts l := by simp [lastCounted]
    rw [hlast]
    split_ifs with ht
    · exact .inl ⟨by simp, ht⟩
    · rcases ih with ⟨hmem, hk⟩ | ⟨heq, hall⟩
      · exact .inl ⟨mem_append_left _ hmem, hk⟩
      · exact .inr ⟨heq, forall_mem_append.mpr ⟨hall, by simpa using ht⟩⟩

theorem settle_isTop (h : IsTop ts latest) : IsTop ts (settle strict ts table latest c).1 := by
  induction table generalizing latest c with
  | nil => exact h
  | cons p table ih =>
    obtain ⟨k, v⟩ := p
    unfold settle
    split
    · exact ih h
    · split
      · exact ih h
      · refine ih ?_
        rcases lastCounted_cases strict k ts latest with ⟨hmem, -⟩ | ⟨heq, -⟩
        · exact ⟨_, hmem, rfl⟩
        · rwa [heq]

/-- The scan ends with the header of one of the tops. -/
theorem scanTops_isTop (hrest : rs ⊆ ts) (h : IsTop ts latest) :
    IsTop ts (scanTops strict o ts false rs latest c).1 := by
  induction rs generalizing latest c with
  | nil => exact h
  | cons ver rs ih =>
    have hrest' : rs ⊆ ts := fun t ht => hrest (mem_cons_of_mem _ ht)
    have hver : IsTop ts ver := ⟨ver, hrest mem_cons_self, rfl⟩
    unfold scanTops
    split_ifs
    · exact ih hrest' h
    all_goals first
      | exact ih hrest' hver
      | exact ih hrest' h
      | exact settle_isTop h

end

variable (strict o) in
theorem latestTop_cons {t : FileMetaShallowVersion B} (h : tops ss = t :: rs) :
    ∃ l : FileMetaShallowVersion B, l.header = t.header ∧
      latestTop strict o ss = scanTops strict o (t :: rs) false rs l 1 := by
  rw [latestTop, h, scanTops]
  split
  · next heq => exact ⟨default, heq.symm, rfl⟩
  · exact ⟨t, rfl, by simp⟩

variable (strict o) in
theorem latestTop_isTop (h : tops ss ≠ []) : IsTop (tops ss) (latestTop strict o ss).1 := by
  cases ht : tops ss with
  | nil => exact absurd ht h
  | cons t rs =>
    obtain ⟨l, hl, heq⟩ := latestTop_cons strict o ht
    rw [heq]
    exact scanTops_isTop (subset_cons_self _ _) ⟨t, mem_cons_self, hl.symm⟩

end

section

variable {quorum strict} {o : CountOrder}
  {ss : Streams B} {s : Merging B}

omit [Inhabited B] in
theorem mem_tops {t : FileMetaShallowVersion B} : t ∈ tops ss ↔ ∃ l ∈ ss, l.head? = some t := by
  simp [tops, mem_filterMap]

variable (quorum strict o) in
/-- The version a round settles on or merges goes from a stream it stands on top of. -/
theorem exists_gone (ms : List (FileMetaShallowVersion B)) (h : tops ss ≠ []) :
    ∃ t ∈ tops ss, gone (chosen quorum strict o ss).1
      (ms ++ (chosen quorum strict o ss).2.toList) t := by
  unfold chosen
  split
  · cases ht : tops ss with
    | nil => exact absurd ht h
    | cons t rest => exact ⟨t, mem_cons_self, by simp [gone]⟩
  · obtain ⟨t, ht, heq⟩ := latestTop_isTop strict o h
    exact ⟨t, ht, by simp [gone, heq]⟩

omit [Inhabited B] in
theorem length_flatten_eraseP_lt {p : FileMetaShallowVersion B → Bool} (h : ∃ t ∈ tops ss, p t) :
    (ss.map (List.eraseP p)).flatten.length < ss.flatten.length := by
  obtain ⟨t, ht, hp⟩ := h
  obtain ⟨l, hl, htop⟩ := mem_tops.mp ht
  have hmem : t ∈ l := mem_of_mem_head? htop
  have hlt : (l.eraseP p).length < l.length := by
    have hpos := length_pos_of_mem hmem
    have := length_eraseP_of_mem hmem hp
    omega
  have := sum_lt_sum (length ∘ eraseP p) length (fun _ _ => eraseP_sublist.length_le) ⟨l, hl, hlt⟩
  rwa [length_flatten, length_flatten, map_map]

variable (quorum strict o) in
/-- Every round takes at least one version from the streams. -/
theorem length_mergeRound_lt (h : tops s.streams ≠ []) :
    (mergeRound quorum strict o s).streams.flatten.length < s.streams.flatten.length :=
  length_flatten_eraseP_lt (exists_gone quorum strict o s.merged h)

end

section

variable {quorum strict requested orders} {f n : ℕ} {s : Merging B}
  {out : List (FileMetaShallowVersion B)}

/-- The loop ends after at most one round for each version in the streams. -/
theorem exists_mergeLoop (hq : 1 ≤ quorum) (hfuel : s.streams.flatten.length < f) :
    ∃ out, mergeLoop quorum strict requested orders f n s = some out := by
  induction f generalizing n s with
  | zero => omega
  | succ f ih =>
    unfold mergeLoop
    split
    · exact ⟨_, rfl⟩
    · next htops =>
      have hne : tops s.streams ≠ [] := fun h => by simp [h] at htops; omega
      dsimp only
      split
      · exact ⟨_, rfl⟩
      · refine ih ?_
        have := length_mergeRound_lt quorum strict (orders n) hne
        omega

theorem mergeLoop_mono (h : mergeLoop quorum strict requested orders f n s = some out) {f' : ℕ}
    (hle : f ≤ f') : mergeLoop quorum strict requested orders f' n s = some out := by
  induction f generalizing f' n s with
  | zero => simp [mergeLoop] at h
  | succ f ih =>
    obtain ⟨f', rfl⟩ : ∃ k, f' = k + 1 := ⟨f' - 1, by omega⟩
    unfold mergeLoop at h ⊢
    split
    · next htops => simpa [htops] using h
    · next htops =>
      simp only [if_neg htops] at h
      dsimp only at h ⊢
      split
      · next hreq => simpa [if_pos hreq] using h
      · next hreq =>
        simp only [if_neg hreq] at h
        exact ih h (by omega)

variable {versions : Streams B}

theorem Running.succ (h : Running quorum strict orders versions n)
    (hn : quorum ≤ (tops (mergeState quorum strict orders versions n).streams).length) :
    Running quorum strict orders versions (n + 1) := by
  intro k hk
  rcases Nat.lt_succ_iff_lt_or_eq.mp hk with hk | rfl
  · exact h k hk
  · exact hn

theorem Running.mono (h : Running quorum strict orders versions n) {k : ℕ} (hk : k ≤ n) :
    Running quorum strict orders versions k :=
  fun _ hm => h _ (hm.trans_le hk)

/-- What every round keeps holds after all the rounds that are run. -/
theorem Running.invariant {P : Merging B → Prop}
    (hstep : ∀ n s, P s → quorum ≤ (tops s.streams).length →
      P (mergeRound quorum strict (orders n) s)) (hs : P { streams := versions })
    (h : Running quorum strict orders versions n) : P (mergeState quorum strict orders versions n) := by
  induction n with
  | zero => exact hs
  | succ n ih => exact hstep n _ (ih (h.mono (Nat.le_succ n))) (h n (Nat.lt_succ_self n))

/-- The loop ends with the first state in which a quorum of streams is wanting. -/
theorem mergeLoop_ends (hrun : Running quorum strict orders versions n)
    (h : mergeLoop quorum strict 0 orders f n (mergeState quorum strict orders versions n) = some out) :
    ∃ n, Running quorum strict orders versions n ∧
      (tops (mergeState quorum strict orders versions n).streams).length < quorum ∧
      out = (mergeState quorum strict orders versions n).merged := by
  induction f generalizing n with
  | zero => simp [mergeLoop] at h
  | succ f ih =>
    unfold mergeLoop at h
    split at h
    · next htops => exact ⟨n, hrun, htops, by simpa using h.symm⟩
    · next htops => exact ih (hrun.succ (by omega)) (by simpa [mergeState] using h)

end

end FileMeta

end Rustfs
