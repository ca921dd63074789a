import Rustfs.Filemeta.Metacache
import Rustfs.Lib.Run
import Rustfs.Path

/-! Merging the listings of several sets into one stream of entries. -/
namespace Rustfs.MergeEntries

open List Option

variable {B : Type} [Inhabited B]

/-- What comes through each of several channels. -/
abbrev Inputs (B : Type) : Type := List (List (MetaCacheEntry B))

/-- The channels, each with the entry received last and those still to come, and the count of those
that were found closed. -/
structure Channels (B : Type) where
  queues : Inputs B
  nDone : ℕ

namespace Channels

def top (c : Channels B) (idx : ℕ) : Option (MetaCacheEntry B) := c.queues[idx]?.bind List.head?

/-- The next entry of a channel becomes its top. -/
def selectFrom (c : Channels B) (idx : ℕ) : Channels B :=
  let rest := (c.queues[idx]?.getD []).tail
  { queues := c.queues.set idx rest, nDone := if rest.isEmpty then c.nDone + 1 else c.nDone }

/-- All channels have given their first entry. -/
def receive (inChannels : Inputs B) : Channels B :=
  ⟨inChannels, inChannels.countP (·.isEmpty)⟩

end Channels

/-- The best of the tops so far, and the channels to merge with it. -/
structure Search (B : Type) where
  chans : Channels B
  best : Option (MetaCacheEntry B)
  bestIdx : ℕ := 0
  toMerge : List ℕ := []

def Search.take (s : Search B) (entry : MetaCacheEntry B) (idx : ℕ) : Search B :=
  { s with best := some entry, bestIdx := idx, toMerge := [] }

/-- The top of another channel is compared with the best. -/
def Search.consider (s : Search B) (otherIdx : ℕ) : Search B :=
  match s.chans.top otherIdx with
  | none => s
  | some other =>
    match s.best with
    | none => { s with best := some other, bestIdx := otherIdx }
    | some best =>
      let cleans := Path.clean best.name == Path.clean other.name
      let dirMatches := best.isDir && other.isDir
      let suffixMatches := (best.name.toList.getLast? == some '/') == (other.name.toList.getLast? == some '/')
      if cleans && dirMatches && suffixMatches then { s with toMerge := s.toMerge ++ [otherIdx] }
      else if cleans && !dirMatches then
        if other.isDir then { s with chans := s.chans.selectFrom otherIdx }
        else s.take other otherIdx
      else if best.name > other.name then s.take other otherIdx
      else s

/-- So many tops after the first have been compared with the best. -/
def searched (c : Channels B) (n : ℕ) : Search B :=
  (List.range' 1 n).foldl Search.consider { chans := c, best := c.top 0 }

def search (c : Channels B) : Search B := searched c (c.queues.length - 1)

/-- The search with the metadata found for the best and the versions collected with it. -/
structure Joining (B : Type) where
  search : Search B
  hasXl : Option (FileMeta B)
  versions : FileMeta.Streams B

section

variable (load : Bytes → Option (FileMeta B)) (marshal : FileMeta B → Option Bytes)
  (orders : ℕ → FileMeta.CountOrder) (readQuorum : ℕ)

def Joining.join (j : Joining B) (idx : ℕ) : Joining B :=
  let s := j.search
  match s.chans.top idx with
  | none => j
  | some entry =>
    match entry.xlMeta load with
    | none => { j with search := { s with chans := s.chans.selectFrom idx } }
    | some xl2 =>
      let s' := { s with chans := s.chans.selectFrom s.bestIdx }
      let versions := j.versions ++ [xl2.versions]
      if j.hasXl.isNone then
        { search := { s' with bestIdx := idx, best := some entry }, hasXl := some xl2, versions }
      else { j with search := s', versions }

/-- What `merge_file_meta_versions` gives for the copies, strictly and without a limit. -/
def merged (versions : FileMeta.Streams B) : List (FileMetaShallowVersion B) :=
  (FileMeta.mergeWithin readQuorum true 0 orders (versions.flatten.length + 1) versions).getD []

/-- The tops to merge are joined into the best entry. -/
def Search.joinTops (s : Search B) : Search B :=
  match s.best with
  | none => s
  | some entry =>
    if s.toMerge.isEmpty then s
    else
      let hasXl := entry.xlMeta load
      let j := s.toMerge.foldl (Joining.join load) ⟨s, hasXl, (hasXl.map FileMeta.versions).toList⟩
      match j.hasXl with
      | none => j.search
      | some xl =>
        if j.versions.isEmpty then j.search
        else
          let xl := { xl with versions := merged orders readQuorum j.versions }
          match marshal xl with
          | none => j.search
          | some metadata =>
            { j.search with
              best := j.search.best.map fun b => { b with metadata, cached := some xl } }

/-- The channels, the name sent last, and all that was sent. -/
structure State (B : Type) where
  chans : Channels B
  last : String := ""
  out : List (MetaCacheEntry B) := []

def State.round (st : State B) : State B :=
  let s := (search st.chans).joinTops load marshal orders readQuorum
  let chans := s.chans.selectFrom s.bestIdx
  match s.best with
  | some best =>
    if best.name > st.last then { chans, last := best.name, out := st.out ++ [best] }
    else { st with chans }
  | none => { st with chans }

/-- The loop; `none` when the rounds allowed are used up. -/
def rounds : ℕ → State B → Option (List (MetaCacheEntry B))
  | 0, _ => none
  | fuel + 1, st =>
    if st.chans.nDone = st.chans.queues.length then some st.out
    else rounds fuel (st.round load marshal orders readQuorum)

/-- All that is sent to the out channel, in at most `fuel` rounds. -/
def mergeEntryChannels (fuel : ℕ) (inChannels : Inputs B) :
    Option (List (MetaCacheEntry B)) :=
  match inChannels with
  | [] => some []
  | [only] => some only
  | inChannels => rounds load marshal orders readQuorum fuel { chans := .receive inChannels }

end

section

omit [Inhabited B]

variable {c c₀ : Channels B} {s : Search B} {P Q : MetaCacheEntry B → Prop} {e b : MetaCacheEntry B}
  {idx k : ℕ}

def Channels.total (c : Channels B) : ℕ := c.queues.flatten.length

theorem Channels.queue_of_top (h : c.top idx = some e) : ∃ q, c.queues[idx]? = some (e :: q) := by
  obtain ⟨q, hq, hhead⟩ := bind_eq_some_iff.mp h
  obtain ⟨t, rfl⟩ := head?_eq_some_iff.mp hhead
  exact ⟨t, hq⟩

theorem Channels.top_congr {i : ℕ} (h : c.queues[i]? = c₀.queues[i]?) : c.top i = c₀.top i := by
  rw [top, h, top]

theorem Channels.forall_top_succ {P : ℕ → MetaCacheEntry B → Prop} (htop : c.top k = some b)
    (h : ∀ i < k, ∀ e, c.top i = some e → P i e) (hk : P k b) :
    ∀ i < k + 1, ∀ e, c.top i = some e → P i e := by
  intro i hi e he
  rcases Nat.lt_succ_iff_lt_or_eq.mp hi with hi | rfl
  · exact h i hi e he
  · exact some.inj (htop.symm.trans he) ▸ hk

/-- Of the channels some have moved on by an entry, for which this holds; closed ones are counted. -/
structure Moved (P : MetaCacheEntry B → Prop) (c₀ c : Channels B) : Prop where
  length : c.queues.length = c₀.queues.length
  queue : ∀ i : ℕ, c.queues[i]? = c₀.queues[i]? ∨
    ∃ e q, c₀.queues[i]? = some (e :: q) ∧ c.queues[i]? = some q ∧ P e
  count : c.nDone = c.queues.countP (·.isEmpty)
  total : c.total ≤ c₀.total

theorem Moved.imp (h : Moved P c₀ c) (hPQ : ∀ e, P e → Q e) : Moved Q c₀ c := by
  refine ⟨h.length, fun i => ?_, h.count, h.total⟩
  rcases h.queue i with hq | ⟨e, q, hq, hq', he⟩
  · exact .inl hq
  · exact .inr ⟨e, q, hq, hq', hPQ e he⟩

theorem Moved.suffix (h : Moved P c₀ c) {q : List (MetaCacheEntry B)} (hq : c.queues[idx]? = some q) :
    ∃ q₀, c₀.queues[idx]? = some q₀ ∧ q <:+ q₀ := by
  rcases h.queue idx with hsame | ⟨e, q', hq₀, hq', -⟩
  · exact ⟨q, hsame ▸ hq, suffix_refl q⟩
  · obtain rfl : q = q' := some.inj (hq.symm.trans hq')
    exact ⟨e :: q, hq₀, suffix_cons e q⟩

/-- What is left of a channel is all of it, or all but its top. -/
theorem Moved.left (h : Moved P c₀ c) {q₀ : List (MetaCacheEntry B)}
    (hq₀ : c₀.queues[idx]? = some q₀) :
    ∃ q, c.queues[idx]? = some q ∧ (q = q₀ ∨ ∃ e, q₀ = e :: q ∧ P e) := by
  rcases h.queue idx with hsame | ⟨e, q, hq, hq', he⟩
  · exact ⟨q₀, hsame.trans hq₀, .inl rfl⟩
  · exact ⟨q, hq', .inr ⟨e, some.inj (hq₀.symm.trans hq), he⟩⟩

/-- A channel that has not moved yet moves on. -/
theorem Moved.selectFrom (h : Moved P c₀ c) (hq : c.queues[idx]? = c₀.queues[idx]?)
    (htop : c₀.top idx = some e) (he : P e) :
    Moved P c₀ (c.selectFrom idx) ∧ (c.selectFrom idx).total < c₀.total ∧
      ∀ i ≠ idx, (c.selectFrom idx).queues[i]? = c.queues[i]? := by
  obtain ⟨q, hq₀⟩ := Channels.queue_of_top htop
  rw [hq₀] at hq
  have hlt : idx < c.queues.length := (List.getElem?_eq_some_iff.mp hq).1
  have hrest : (c.queues[idx]?.getD []).tail = q := by simp [hq]
  have hqueues : (c.selectFrom idx).queues = c.queues.set idx q := by
    rw [Channels.selectFrom, hrest]
  have hother : ∀ i ≠ idx, (c.selectFrom idx).queues[i]? = c.queues[i]? := fun i hi => by
    rw [hqueues, getElem?_set_ne hi.symm]
  have htotal : (c.selectFrom idx).total + 1 = c.total := by
    rw [Channels.total, hqueues]
    exact (Interleave.flatten_set_perm hq).length_eq
  have hle := h.total
  refine ⟨⟨?_, fun i => ?_, ?_, by omega⟩, by omega, hother⟩
  · rw [hqueues, length_set, h.length]
  · by_cases hi : i = idx
    · subst hi
      exact .inr ⟨e, q, hq₀, by rw [hqueues, getElem?_set_self hlt], he⟩
    · rw [hother i hi]
      exact h.queue i
  · have hget : c.queues[idx] = e :: q := (List.getElem?_eq_some_iff.mp hq).2
    rw [hqueues, countP_set hlt, hget, ← h.count, Channels.selectFrom, hrest]
    cases q <;> simp

/-- Two entries of one cleaned name: those of one kind have one name, and a directory meets an object
that is not after it. -/
def Agree (x y : MetaCacheEntry B) : Prop :=
  (x.isDir = y.isDir → x.name = y.name ∧ x.isObject = y.isObject) ∧
    (x.isDir = false → y.isDir = true → x.isObject = true ∧ x.name ≤ y.name)

instance (x y : MetaCacheEntry B) : Decidable (Agree x y) :=
  inferInstanceAs (Decidable (_ ∧ _))

/-- The best and a top that it is compared with agree if they have one cleaned name. -/
def Search.Tidy (s : Search B) (k : ℕ) : Prop :=
  ∀ b ∈ s.best, ∀ o ∈ s.chans.top k, Path.clean b.name = Path.clean o.name → Agree b o ∧ Agree o b

instance (s : Search B) (k : ℕ) : Decidable (s.Tidy k) :=
  inferInstanceAs (Decidable (∀ b ∈ s.best, ∀ o ∈ s.chans.top k, _ → _))

/-- So do all that are compared in a search. -/
def TidySearch (c : Channels B) : Prop := ∀ n < c.queues.length - 1, (searched c n).Tidy (1 + n)

instance (c : Channels B) : Decidable (TidySearch c) :=
  inferInstanceAs (Decidable (∀ n < c.queues.length - 1, _))

/-- A directory, and an object of its cleaned name among the tops. -/
def DroppedFor (c : Channels B) (e : MetaCacheEntry B) : Prop :=
  e.isDir = true ∧ ∃ j o, c.top j = some o ∧ o.isObject = true ∧ Path.clean o.name = Path.clean e.name

/-- The best of the first tops: none is before it, and of the objects of its name it is the last. -/
structure IsBest (c₀ : Channels B) (k : ℕ) (s : Search B) (b : MetaCacheEntry B) : Prop where
  top : c₀.top s.bestIdx = some b
  lt : s.bestIdx < k
  queue : s.chans.queues[s.bestIdx]? = c₀.queues[s.bestIdx]?
  least : ∀ i < k, ∀ e, c₀.top i = some e → b.name ≤ e.name
  object : ∀ i < k, ∀ e, c₀.top i = some e → e.isDir = false → e.name = b.name →
    b.isDir = false ∧ e.isObject = b.isObject ∧ i ≤ s.bestIdx
  toMerge : ∀ i ∈ s.toMerge, i < k ∧ i ≠ s.bestIdx ∧ s.chans.queues[i]? = c₀.queues[i]? ∧
    ∃ e, c₀.top i = some e ∧ e.isDir = true ∧ e.name = b.name
  nodup : s.toMerge.Nodup
  isDir : s.toMerge ≠ [] → b.isDir = true

/-- The search has seen the first tops. -/
structure Found (c₀ : Channels B) (k : ℕ) (s : Search B) : Prop where
  moved : Moved (DroppedFor c₀) c₀ s.chans
  ahead : ∀ i : ℕ, k ≤ i → s.chans.queues[i]? = c₀.queues[i]?
  noBest : s.best = none → s.toMerge = [] ∧ ∀ i < k, c₀.top i = none
  isBest : ∀ b, s.best = some b → IsBest c₀ k s b

/-- The next top becomes the best. -/
theorem Found.take (h : Found c₀ k s) {o : MetaCacheEntry B} (htop : c₀.top k = some o)
    (hleast : ∀ i < k, ∀ e, c₀.top i = some e → o.name ≤ e.name)
    (hobject : ∀ i < k, ∀ e, c₀.top i = some e → e.isDir = false → e.name = o.name →
      o.isDir = false ∧ e.isObject = o.isObject) : Found c₀ (k + 1) (s.take o k) := by
  refine ⟨h.moved, fun i hi => h.ahead i (by omega), by simp [Search.take], fun b hb => ?_⟩
  obtain rfl : o = b := by simpa [Search.take] using hb
  refine ⟨htop, Nat.lt_succ_self k, h.ahead k le_rfl, Channels.forall_top_succ htop hleast le_rfl,
    Channels.forall_top_succ htop ?_ fun hdir _ => ⟨hdir, rfl, le_rfl⟩, by simp [Search.take],
    by simp [Search.take], by simp [Search.take]⟩
  intro i hi e he hdir hname
  obtain ⟨hodir, hsame⟩ := hobject i hi e he hdir hname
  exact ⟨hodir, hsame, hi.le⟩

/-- The best stays; the next top is left, dropped or kept to be merged. -/
theorem Found.keep (h : Found c₀ k s) (hbest : s.best = some b) {o : MetaCacheEntry B}
    (htop : c₀.top k = some o) (hle : b.name ≤ o.name)
    (hobject : o.isDir = false → o.name ≠ b.name) {s' : Search B}
    (hsame : s'.best = s.best ∧ s'.bestIdx = s.bestIdx) (hmoved : Moved (DroppedFor c₀) c₀ s'.chans)
    (hqueue : ∀ i ≠ k, s'.chans.queues[i]? = s.chans.queues[i]?)
    (hmerge : s'.toMerge = s.toMerge ∨ s'.toMerge = s.toMerge ++ [k] ∧ b.isDir = true ∧
      o.isDir = true ∧ o.name = b.name ∧ s'.chans = s.chans) : Found c₀ (k + 1) s' := by
  obtain ⟨hsame, hidx⟩ := hsame
  have hb := h.isBest b hbest
  have hlt := hb.lt
  refine ⟨hmoved, fun i hi => (hqueue i (by omega)).trans (h.ahead i (by omega)),
    by simp [hsame, hbest], fun b' hb' => ?_⟩
  obtain rfl : b = b' := some.inj (hbest.symm.trans (hsame ▸ hb'))
  refine ⟨hidx ▸ hb.top, by omega, ?_, Channels.forall_top_succ htop hb.least hle,
    Channels.forall_top_succ htop (hidx ▸ hb.object) fun hdir hname => absurd hname (hobject hdir),
    ?_, ?_, ?_⟩
  · rw [hidx, hqueue _ hlt.ne, hb.queue]
  · have hold : ∀ i ∈ s.toMerge, i < k + 1 ∧ i ≠ s'.bestIdx ∧ s'.chans.queues[i]? = c₀.queues[i]? ∧
        ∃ e, c₀.top i = some e ∧ e.isDir = true ∧ e.name = b.name := by
      intro i hi
      obtain ⟨hik, hne, hq, he⟩ := hb.toMerge i hi
      exact ⟨by omega, hidx ▸ hne, (hqueue i hik.ne).trans hq, he⟩
    intro i hi
    rcases hmerge with heq | ⟨heq, -, hdir, hname, hchans⟩ <;> rw [heq] at hi
    · exact hold i hi
    · rcases mem_append.mp hi with hi | hi
      · exact hold i hi
      · obtain rfl := mem_singleton.mp hi
        exact ⟨Nat.lt_succ_self i, by omega, hchans ▸ h.ahead i le_rfl, o, htop, hdir, hname⟩
  · rcases hmerge with heq | ⟨heq, -⟩ <;> rw [heq]
    · exact hb.nodup
    · refine nodup_append.mpr ⟨hb.nodup, by simp, fun i hi j hj hij => ?_⟩
      have := (hb.toMerge i hi).1
      simp at hj
      omega
  · rcases hmerge with heq | ⟨-, hdir, -⟩
    · rw [heq]
      exact hb.isDir
    · exact fun _ => hdir

theorem Found.skip (h : Found c₀ k s) (htop : c₀.top k = none) : Found c₀ (k + 1) s := by
  have hlt : ∀ {i}, i < k + 1 → ∀ e, c₀.top i = some e → i < k := by
    intro i hi e he
    rcases Nat.lt_succ_iff_lt_or_eq.mp hi with hi | rfl
    · exact hi
    · rw [htop] at he
      cases he
  refine ⟨h.moved, fun i hi => h.ahead i (by omega),
    fun hnone => ⟨(h.noBest hnone).1, fun i hi => ?_⟩, fun b hb => ?_⟩
  · rcases Nat.lt_succ_iff_lt_or_eq.mp hi with hi | rfl
    · exact (h.noBest hnone).2 i hi
    · exact htop
  · have hb := h.isBest b hb
    exact ⟨hb.top, by have := hb.lt; omega, hb.queue, fun i hi e he => hb.least i (hlt hi e he) e he,
      fun i hi e he => hb.object i (hlt hi e he) e he,
      fun i hi => ⟨by have := (hb.toMerge i hi).1; omega, (hb.toMerge i hi).2⟩, hb.nodup, hb.isDir⟩

theorem Found.consider (h : Found c₀ k s) (htidy : s.Tidy k) : Found c₀ (k + 1) (s.consider k) := by
  unfold Search.Tidy at htidy
  rw [Channels.top_congr (h.ahead k le_rfl)] at htidy
  unfold Search.consider
  rw [Channels.top_congr (h.ahead k le_rfl)]
  split
  · next htop => exact h.skip htop
  · next other htop =>
    split
    · next hnone =>
      obtain ⟨hmerge, hbefore⟩ := h.noBest hnone
      have htake := h.take htop (fun i hi e he => by simp [hbefore i hi] at he)
        (fun i hi e he => by simp [hbefore i hi] at he)
      rwa [Search.take, ← hmerge] at htake
    · next b hbest =>
      have hb := h.isBest b hbest
      have htidy := htidy b hbest other htop
      dsimp only
      split
      · next hcond =>
        obtain ⟨⟨hclean, hbdir, hodir⟩, -⟩ : (Path.clean b.name = Path.clean other.name ∧
            b.isDir = true ∧ other.isDir = true) ∧ _ := by
          simpa [and_assoc] using hcond
        have hname := ((htidy hclean).1.1 (hbdir.trans hodir.symm)).1
        exact h.keep hbest htop hname.le (by simp [hodir]) ⟨rfl, rfl⟩ h.moved (fun _ _ => rfl)
          (.inr ⟨rfl, hbdir, hodir, hname.symm, rfl⟩)
      · split
        · next hcond =>
          obtain ⟨hclean, hdirs⟩ : Path.clean b.name = Path.clean other.name ∧
              (b.isDir = false ∨ other.isDir = false) := by
            simpa using hcond
          split
          · next hodir =>
            have hbdir : b.isDir = false := hdirs.resolve_right (by simp [hodir])
            obtain ⟨hbobject, hle⟩ := (htidy hclean).1.2 hbdir hodir
            obtain ⟨hmoved, -, hother⟩ := h.moved.selectFrom (h.ahead k le_rfl) htop
              ⟨hodir, _, b, hb.top, hbobject, hclean⟩
            exact h.keep hbest htop hle (by simp [hodir]) ⟨rfl, rfl⟩ hmoved hother (.inl rfl)
          · next hodir =>
            have hodir : other.isDir = false := by simpa using hodir
            have htidy := (htidy hclean).2
            have hle : other.name ≤ b.name := by
              cases hbdir : b.isDir with
              | true => exact (htidy.2 hodir hbdir).2
              | false => exact (htidy.1 (hodir.trans hbdir.symm)).1.le
            refine h.take htop (fun i hi e he => hle.trans (hb.least i hi e he)) ?_
            intro i hi e he hdir hname
            have hnames := le_antisymm (hname.trans_le hle) (hb.least i hi e he)
            obtain ⟨hbdir, hsame, -⟩ := hb.object i hi e he hdir hnames
            exact ⟨hodir, hsame.trans (htidy.1 (hodir.trans hbdir.symm)).2.symm⟩
        · next hcond =>
          split
          · next hgt =>
            refine h.take htop (fun i hi e he => hgt.le.trans (hb.least i hi e he)) ?_
            intro i hi e he _ hname
            exact absurd (hname ▸ hb.least i hi e he) (not_le.mpr hgt)
          · next hgt =>
            refine h.keep hbest htop (not_lt.mp hgt) (fun hodir hname => hcond ?_) ⟨rfl, rfl⟩ h.moved
              (fun _ _ => rfl) (.inl rfl)
            simp [hname, hodir]

theorem found_search (hc : c₀.nDone = c₀.queues.countP (·.isEmpty)) (htidy : TidySearch c₀)
    (hne : c₀.queues ≠ []) : Found c₀ c₀.queues.length (search c₀) := by
  have hstart : Found c₀ 1 { chans := c₀, best := c₀.top 0 } := by
    refine ⟨⟨rfl, fun i => .inl rfl, hc, le_rfl⟩, fun i _ => rfl, fun hnone => ⟨rfl, fun i hi => ?_⟩,
      fun b hb => ?_⟩
    · obtain rfl : i = 0 := by omega
      exact hnone
    · have hzero : ∀ {i}, i < 1 → ∀ e, c₀.top i = some e → e = b ∧ i = 0 := by
        intro i hi e he
        obtain rfl : i = 0 := by omega
        exact ⟨some.inj (he.symm.trans hb), rfl⟩
      refine ⟨hb, Nat.one_pos, rfl, fun i hi e he => ?_, fun i hi e he hdir _ => ?_, by simp, by simp,
        by simp⟩
      · rw [(hzero hi e he).1]
      · obtain ⟨rfl, rfl⟩ := hzero hi e he
        exact ⟨hdir, rfl, le_rfl⟩
  have hrun : ∀ n ≤ c₀.queues.length - 1, Found c₀ (1 + n) (searched c₀ n) := by
    intro n
    induction n with
    | zero => exact fun _ => hstart
    | succ n ih =>
      intro hn
      rw [searched, range'_1_concat, foldl_append]
      exact (ih (by omega)).consider (htidy n (by omega))
  have hpos := length_pos_of_ne_nil hne
  have := hrun (c₀.queues.length - 1) le_rfl
  rwa [show 1 + (c₀.queues.length - 1) = c₀.queues.length by omega] at this

section

variable {l : Bytes → Option (FileMeta B)} {marshal : FileMeta B → Option Bytes}
  {orders : ℕ → FileMeta.CountOrder} {r : ℕ}

theorem xlMeta_of_isDir (h : e.isDir = true) : e.xlMeta l = none := by
  simp [MetaCacheEntry.xlMeta, h]

/-- An entry that a round passes: it has the name of the best, or is dropped for an object. -/
def Passed (c₀ : Channels B) (b e : MetaCacheEntry B) : Prop := e.name = b.name ∨ DroppedFor c₀ e

variable (l) in
/-- The directories to merge have no metadata, and are passed one by one. -/
theorem foldl_join_dirs {idxs : List ℕ} (hmoved : Moved (Passed c₀ b) c₀ s.chans)
    (hidxs : ∀ i ∈ idxs, s.chans.queues[i]? = c₀.queues[i]? ∧
      ∃ e, c₀.top i = some e ∧ e.isDir = true ∧ e.name = b.name) (hnodup : idxs.Nodup) :
    ∃ chans, idxs.foldl (Joining.join l) ⟨s, none, []⟩ = ⟨{ s with chans }, none, []⟩ ∧
      Moved (Passed c₀ b) c₀ chans ∧ ∀ i ∉ idxs, chans.queues[i]? = s.chans.queues[i]? := by
  induction idxs generalizing s with
  | nil => exact ⟨s.chans, rfl, hmoved, fun _ _ => rfl⟩
  | cons i idxs ih =>
    obtain ⟨hi, hnodup⟩ := nodup_cons.mp hnodup
    obtain ⟨hq, e, htop, hdir, hname⟩ := hidxs i mem_cons_self
    obtain ⟨hmoved', -, hother⟩ := hmoved.selectFrom hq htop (.inl hname)
    have hjoin : Joining.join l ⟨s, none, []⟩ i =
        ⟨{ s with chans := s.chans.selectFrom i }, none, []⟩ := by
      simp only [Joining.join, Channels.top_congr hq, htop, xlMeta_of_isDir hdir]
    rw [foldl_cons, hjoin]
    have hidxs' : ∀ j ∈ idxs, (s.chans.selectFrom i).queues[j]? = c₀.queues[j]? ∧
        ∃ e, c₀.top j = some e ∧ e.isDir = true ∧ e.name = b.name := by
      intro j hj
      obtain ⟨hqj, he⟩ := hidxs j (mem_cons_of_mem _ hj)
      exact ⟨(hother j fun h => hi (h ▸ hj)).trans hqj, he⟩
    obtain ⟨chans, heq, hm, hsame⟩ := ih (s := { s with chans := s.chans.selectFrom i }) hmoved'
      hidxs' hnodup
    refine ⟨chans, heq, hm, fun j hj => ?_⟩
    rw [hsame j fun h => hj (mem_cons_of_mem _ h)]
    exact hother j fun h => hj (h ▸ mem_cons_self)

variable (l marshal orders r) in
/-- What a round does: it takes the least of the tops, of the objects of that name the last one,
and passes only entries of its name and directories that an object stands for. -/
theorem search_joinTops [Inhabited B] (hc : c₀.nDone = c₀.queues.countP (·.isEmpty))
    (htidy : TidySearch c₀) (hsome : ∃ i e, c₀.top i = some e) :
    ∃ idx b chans, (search c₀).joinTops l marshal orders r =
        { chans, best := some b, bestIdx := idx, toMerge := (search c₀).toMerge } ∧
      c₀.top idx = some b ∧ (∀ i e, c₀.top i = some e → b.name ≤ e.name) ∧
      (∀ i e, c₀.top i = some e → e.isDir = false → e.name = b.name →
        b.isDir = false ∧ e.isObject = b.isObject ∧ i ≤ idx) ∧
      Moved (Passed c₀ b) c₀ chans ∧ chans.queues[idx]? = c₀.queues[idx]? := by
  have hlt : ∀ {i e}, c₀.top i = some e → i < c₀.queues.length := by
    intro i e h
    obtain ⟨q, hq⟩ := Channels.queue_of_top h
    exact (List.getElem?_eq_some_iff.mp hq).1
  obtain ⟨i₀, e₀, h₀⟩ := hsome
  have hf := found_search hc htidy (ne_nil_of_length_pos (by have := hlt h₀; omega))
  generalize search c₀ = s at hf ⊢
  cases hbest : s.best with
  | none =>
    rw [(hf.noBest hbest).2 i₀ (hlt h₀)] at h₀
    cases h₀
  | some b =>
    have hb := hf.isBest b hbest
    have hmoved : Moved (Passed c₀ b) c₀ s.chans := hf.moved.imp fun _ => .inr
    have hleast : ∀ i e, c₀.top i = some e → b.name ≤ e.name := fun i e h => hb.least i (hlt h) e h
    have hobject : ∀ i e, c₀.top i = some e → e.isDir = false → e.name = b.name →
        b.isDir = false ∧ e.isObject = b.isObject ∧ i ≤ s.bestIdx := fun i e h => hb.object i (hlt h) e h
    unfold Search.joinTops
    rw [hbest]
    dsimp only
    split
    · refine ⟨s.bestIdx, b, s.chans, ?_, hb.top, hleast, hobject, hmoved, hb.queue⟩
      rw [← hbest]
    · next hmerge =>
      have hdir : b.isDir = true := hb.isDir (by simpa using hmerge)
      obtain ⟨chans, heq, hm, hsame⟩ := foldl_join_dirs l hmoved
        (fun i hi => (hb.toMerge i hi).2.2) hb.nodup
      simp only [xlMeta_of_isDir hdir, map_none, toList_none, heq]
      refine ⟨s.bestIdx, b, chans, ?_, hb.top, hleast, hobject, hm, ?_⟩
      · rw [← hbest]
      · rw [hsame _ fun h => (hb.toMerge _ h).2.1 rfl, hb.queue]

end

end

end Rustfs.MergeEntries
