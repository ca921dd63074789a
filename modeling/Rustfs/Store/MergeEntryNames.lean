import Rustfs.Store.MergeEntries

/-! What a merge of several listings sends: the names in order, and which copy of an object. -/
namespace Rustfs.MergeEntries

open List Option MetaCacheEntry

variable {B : Type} [Inhabited B]

section

variable {load : Bytes → Option (FileMeta B)} {marshal : FileMeta B → Option Bytes}
  {orders : ℕ → FileMeta.CountOrder} {readQuorum : ℕ}
  {ins : Inputs B} {st : State B}

/-- Each listing is in the order of the names. -/
def Increasing (ins : Inputs B) : Prop :=
  ∀ l ∈ ins, l.Pairwise fun a b => a.name < b.name

variable (load marshal orders readQuorum) in
/-- One round of the loop, or its end. -/
def State.step (st : State B) : State B ⊕ List (MetaCacheEntry B) :=
  if st.chans.nDone = st.chans.queues.length then .inr st.out
  else .inl (st.round load marshal orders readQuorum)

variable (load marshal orders readQuorum) in
/-- In every round, entries of one cleaned name that are compared agree. -/
def TidyRounds (st : State B) : Prop :=
  Machine.Along (State.step load marshal orders readQuorum) (fun st => TidySearch st.chans) st

/-- An object of the cleaned name of this directory is listed. -/
def StandsFor (ins : Inputs B) (e : MetaCacheEntry B) : Prop :=
  e.isDir = true ∧ ∃ l ∈ ins, ∃ o ∈ l, o.isObject = true ∧ Path.clean o.name = Path.clean e.name

/-- The entry is the last listed object of its name, or no object has its name. -/
def LastOf (ins : Inputs B) (i : ℕ) (e : MetaCacheEntry B) : Prop :=
  ∀ (j : ℕ) l, ins[j]? = some l → ∀ x ∈ l, x.isDir = false → x.name = e.name →
    e.isDir = false ∧ x.isObject = e.isObject ∧ j ≤ i

/-- What holds between the rounds. -/
structure Progress (ins : Inputs B) (st : State B) : Prop where
  length : st.chans.queues.length = ins.length
  suffix : ∀ (i : ℕ) l, ins[i]? = some l → ∃ q, st.chans.queues[i]? = some q ∧ q <:+ l
  count : st.chans.nDone = st.chans.queues.countP (·.isEmpty)
  increasing : (st.out.map MetaCacheEntry.name).Pairwise (· < ·)
  le_last : ∀ e ∈ st.out, e.name ≤ st.last
  last : st.last = "" ∨ ∃ e ∈ st.out, e.name = st.last
  ahead : ∀ q ∈ st.chans.queues, ∀ e ∈ q, st.last ≤ e.name
  passed : ∀ (i : ℕ) l, ins[i]? = some l → ∀ e ∈ l, (∃ q, st.chans.queues[i]? = some q ∧ e ∈ q) ∨
    e.name = "" ∨ (∃ o ∈ st.out, o.name = e.name) ∨ StandsFor ins e
  origin : ∀ e ∈ st.out, e.name ≠ "" ∧ ∃ (i : ℕ) (l : _), ins[i]? = some l ∧ e ∈ l ∧ LastOf ins i e

variable {i : ℕ} {e : MetaCacheEntry B}

section
omit [Inhabited B]

variable (h : Progress ins st) (hins : Increasing ins)
include h

theorem Progress.mem_of_top (htop : st.chans.top i = some e) :
    ∃ l q, ins[i]? = some l ∧ e ∈ l ∧ st.chans.queues[i]? = some (e :: q) ∧ (e :: q) <:+ l := by
  obtain ⟨q, hq⟩ := Channels.queue_of_top htop
  have hi : i < ins.length := h.length ▸ (List.getElem?_eq_some_iff.mp hq).1
  obtain ⟨q', hq', hsuffix⟩ := h.suffix i ins[i] (getElem?_eq_getElem hi)
  obtain rfl : e :: q = q' := some.inj (hq.symm.trans hq')
  exact ⟨_, q, getElem?_eq_getElem hi, hsuffix.subset mem_cons_self, hq, hsuffix⟩

/-- What is passed in a round has the name that is sent, or stands for an object. -/
theorem Progress.passed_of_moved {b : MetaCacheEntry B} {c : Channels B}
    (hm : Moved (Passed st.chans b) st.chans c) {out : List (MetaCacheEntry B)} (hout : st.out ⊆ out)
    (hb : b.name = "" ∨ ∃ o ∈ out, o.name = b.name) :
    ∀ (i : ℕ) l, ins[i]? = some l → ∀ e ∈ l, (∃ q, c.queues[i]? = some q ∧ e ∈ q) ∨ e.name = "" ∨
      (∃ o ∈ out, o.name = e.name) ∨ StandsFor ins e := by
  intro i l hl e he
  rcases h.passed i l hl e he with ⟨q₀, hq₀, heq⟩ | hempty | ⟨o, ho, hname⟩ | hstands
  · obtain ⟨q, hq, rfl | ⟨e₀, rfl, hpass⟩⟩ := hm.left hq₀
    · exact .inl ⟨q, hq, heq⟩
    · rcases mem_cons.mp heq with rfl | heq
      · rcases hpass with hname | ⟨hdir, j, o, ho, hobj, hclean⟩
        · rw [hname]
          exact .inr (hb.imp_right .inl)
        · obtain ⟨l', -, hl', hol', -⟩ := h.mem_of_top ho
          exact .inr (.inr (.inr ⟨hdir, l', mem_of_getElem? hl', o, hol', hobj, hclean⟩))
      · exact .inl ⟨q, hq, heq⟩
  · exact .inr (.inl hempty)
  · exact .inr (.inr (.inl ⟨o, hout ho, hname⟩))
  · exact .inr (.inr (.inr hstands))

include hins

variable {q : List (MetaCacheEntry B)} {x : MetaCacheEntry B}

/-- What is left of a listing is not before its top. -/
theorem Progress.top_le (hq : st.chans.queues[i]? = some q) (hx : x ∈ q) :
    ∃ e, st.chans.top i = some e ∧ (e = x ∨ e.name < x.name) := by
  cases q with
  | nil => simp at hx
  | cons e q =>
    have htop : st.chans.top i = some e := by simp [Channels.top, hq]
    refine ⟨e, htop, ?_⟩
    rcases mem_cons.mp hx with rfl | hx
    · exact .inl rfl
    · obtain ⟨l, q', hl, -, hq', hsuffix⟩ := h.mem_of_top htop
      obtain rfl : q = q' := by simpa using hq.symm.trans hq'
      have hsorted := (hins l (mem_of_getElem? hl)).sublist hsuffix.sublist
      exact .inr (rel_of_pairwise_cons hsorted hx)

variable {b : MetaCacheEntry B}

/-- The best of the tops is before all that is left. -/
theorem Progress.least (hleast : ∀ i e, st.chans.top i = some e → b.name ≤ e.name)
    (hq : st.chans.queues[i]? = some q) (hx : x ∈ q) : b.name ≤ x.name := by
  obtain ⟨e, htop, rfl | hlt⟩ := h.top_le hins hq hx
  · exact hleast i e htop
  · exact (hleast i e htop).trans hlt.le

/-- When a name is sent, the last object of it among the tops is the last one listed. -/
theorem Progress.lastOf {idx : ℕ} (hleast : ∀ i e, st.chans.top i = some e → b.name ≤ e.name)
    (hobject : ∀ i e, st.chans.top i = some e → e.isDir = false → e.name = b.name →
      b.isDir = false ∧ e.isObject = b.isObject ∧ i ≤ idx) (hgt : st.last < b.name) (hne : b.name ≠ "") : LastOf ins idx b := by
  intro j l hl x hx hdir hname
  rcases h.passed j l hl x hx with ⟨q, hq, hxq⟩ | hempty | ⟨o, ho, honame⟩ | hstands
  · obtain ⟨e, htop, rfl | hlt⟩ := h.top_le hins hq hxq
    · exact hobject j e htop hdir hname
    · exact absurd (hname ▸ hlt) (not_lt.mpr (hleast j e htop))
  · exact absurd (hname.symm.trans hempty) hne
  · have := h.le_last o ho
    rw [honame, hname] at this
    exact absurd hgt (not_lt.mpr this)
  · exact absurd hstands.1 (by simp [hdir])

end

variable (load marshal orders readQuorum) in
theorem Progress.round (h : Progress ins st) (hins : Increasing ins) (htidy : TidySearch st.chans)
    (hsome : ∃ i e, st.chans.top i = some e) :
    Progress ins (st.round load marshal orders readQuorum) ∧
      (st.round load marshal orders readQuorum).chans.total < st.chans.total := by
  obtain ⟨idx, b, chans, heq, htop, hleast, hobject, hmoved, hidx⟩ :=
    search_joinTops load marshal orders readQuorum h.count htidy hsome
  obtain ⟨hm, htotal, -⟩ := hmoved.selectFrom hidx htop (.inl rfl)
  obtain ⟨lb, -, hlb, hblb, -⟩ := h.mem_of_top htop
  have hsuffix : ∀ (i : ℕ) l, ins[i]? = some l →
      ∃ q, (chans.selectFrom idx).queues[i]? = some q ∧ q <:+ l := by
    intro i l hl
    obtain ⟨q₀, hq₀, hs⟩ := h.suffix i l hl
    obtain ⟨q, hq, rfl | ⟨e, rfl, -⟩⟩ := hm.left hq₀
    · exact ⟨q, hq, hs⟩
    · exact ⟨q, hq, (suffix_cons e q).trans hs⟩
  have hleft : ∀ q ∈ (chans.selectFrom idx).queues, ∀ e ∈ q, b.name ≤ e.name ∧ st.last ≤ e.name := by
    intro q hq e he
    obtain ⟨i, hi⟩ := mem_iff_getElem?.mp hq
    obtain ⟨q₀, hq₀, hs⟩ := hm.suffix hi
    exact ⟨h.least hins hleast hq₀ (hs.subset he),
      h.ahead q₀ (mem_of_getElem? hq₀) e (hs.subset he)⟩
  have hlen : (chans.selectFrom idx).queues.length = ins.length := hm.length.trans h.length
  unfold State.round
  rw [heq]
  dsimp only
  split
  · next hgt =>
    have hgt : st.last < b.name := hgt
    have hne : b.name ≠ "" := fun h => not_lt_empty _ (h ▸ hgt)
    refine ⟨⟨hlen, hsuffix, hm.count, ?_, ?_, .inr ⟨b, by simp, rfl⟩,
      fun q hq e he => (hleft q hq e he).1,
      h.passed_of_moved hm (subset_append_left _ _) (.inr ⟨b, by simp, rfl⟩), ?_⟩, htotal⟩
    · rw [map_append, pairwise_append]
      refine ⟨h.increasing, by simp, fun x hx y hy => ?_⟩
      obtain ⟨o, ho, rfl⟩ := mem_map.mp hx
      obtain rfl : y = b.name := by simpa using hy
      exact (h.le_last o ho).trans_lt hgt
    · exact forall_mem_append.mpr ⟨fun e he => (h.le_last e he).trans hgt.le,
        forall_mem_singleton.mpr le_rfl⟩
    · exact forall_mem_append.mpr ⟨h.origin, forall_mem_singleton.mpr
        ⟨hne, idx, lb, hlb, hblb, h.lastOf hins hleast hobject hgt hne⟩⟩
  · next hgt =>
    -- the name was sent before
    have hb : b.name = st.last := by
      refine le_antisymm (not_lt.mp hgt) ?_
      obtain ⟨q, hq⟩ := Channels.queue_of_top htop
      exact h.ahead _ (mem_of_getElem? hq) b mem_cons_self
    exact ⟨⟨hlen, hsuffix, hm.count, h.increasing, h.le_last, h.last,
      fun q hq e he => (hleft q hq e he).2, h.passed_of_moved hm (Subset.refl _) (hb ▸ h.last),
      h.origin⟩, htotal⟩

variable (load marshal orders readQuorum) in
/-- The loop ends when all the listings are passed. -/
theorem rounds_progress (h : Progress ins st) (hins : Increasing ins)
    (htidy : TidyRounds load marshal orders readQuorum st) :
    ∃ st', Progress ins st' ∧ (∀ q ∈ st'.chans.queues, q = []) ∧ ∀ fuel, st.chans.total < fuel →
      rounds load marshal orders readQuorum fuel st = some st'.out := by
  induction hn : st.chans.total using Nat.strong_induction_on generalizing st with
  | _ n ih =>
    subst hn
    by_cases hdone : st.chans.nDone = st.chans.queues.length
    · refine ⟨st, h, fun q hq => ?_, fun fuel hfuel => ?_⟩
      · have hall := countP_eq_length.mp (h.count.symm.trans hdone)
        exact isEmpty_iff.mp (hall q hq)
      · rw [show fuel = fuel - 1 + 1 by omega, rounds, if_pos hdone]
    · have hsome : ∃ i e, st.chans.top i = some e := by
        by_contra hno
        refine hdone (h.count.trans (countP_eq_length.mpr fun q hq => ?_))
        obtain ⟨i, hi⟩ := mem_iff_getElem?.mp hq
        cases q with
        | nil => rfl
        | cons e q => exact absurd ⟨i, e, by simp [Channels.top, hi]⟩ hno
      obtain ⟨hround, hlt⟩ := h.round load marshal orders readQuorum hins htidy.here hsome
      obtain ⟨st', hst', hall, hrun⟩ := ih _ hlt hround (htidy.next (if_neg hdone)) rfl
      refine ⟨st', hst', hall, fun fuel hfuel => ?_⟩
      rw [show fuel = fuel - 1 + 1 by omega, rounds, if_neg hdone]
      exact hrun _ (by omega)

omit [Inhabited B] in
theorem progress_receive (ins : Inputs B) :
    Progress ins { chans := .receive ins } := by
  refine ⟨rfl, fun i l hl => ⟨l, hl, suffix_refl l⟩, rfl, by simp, by simp, .inl rfl, ?_,
    fun i l hl e he => .inl ⟨l, hl, he⟩, by simp⟩
  exact fun q _ e _ => not_lt.mp (not_lt_empty e.name)

/-- The objects of a name, in the order of the channels. -/
def copies (ins : Inputs B) (name : String) : List (MetaCacheEntry B) :=
  ins.filterMap (List.find? fun e => e.name == name && e.isObject)

variable (load orders readQuorum) in
/-- The versions that the copies of a name merge to. -/
def mergedVersions (ins : Inputs B) (name : String) :
    List (FileMetaShallowVersion B) :=
  merged orders readQuorum ((copies ins name).filterMap fun e => (e.xlMeta load).map FileMeta.versions)

variable (load orders readQuorum) in
/-- The names come in order, each once, but for directories that an object stands for, and the
objects in several listings with all their versions. -/
structure MergesAll (ins : Inputs B) (out : List (MetaCacheEntry B)) : Prop where
  increasing : (out.map MetaCacheEntry.name).Pairwise (· < ·)
  origin : ∀ o ∈ out, ∃ l ∈ ins, ∃ e ∈ l, e.name = o.name
  names : ∀ l ∈ ins, ∀ e ∈ l, (∃ o ∈ out, o.name = e.name) ∨ StandsFor ins e
  versions : ∀ name, 2 ≤ (copies ins name).length → ∃ o ∈ out, o.name = name ∧
    (o.xlMeta load).map FileMeta.versions = some (mergedVersions load orders readQuorum ins name)

variable (load orders readQuorum) in
/-- Of an object in several listings, the last copy has the merged versions already. -/
def LastCopyMerged (ins : Inputs B) : Prop :=
  ∀ name, 2 ≤ (copies ins name).length → ∀ e ∈ (copies ins name).getLast?,
    (e.xlMeta load).map FileMeta.versions = some (mergedVersions load orders readQuorum ins name)

section
omit [Inhabited B]

theorem getLast?_filterMap {α β : Type} {f : α → Option β} {l : List α} {a : α} {b : β}
    (hi : l[i]? = some a) (hf : f a = some b) (hlast : ∀ j x, l[j]? = some x → i < j → f x = none) :
    (l.filterMap f).getLast? = some b := by
  obtain ⟨hlt, rfl⟩ := List.getElem?_eq_some_iff.mp hi
  have hrest : (l.drop (i + 1)).filterMap f = [] := by
    refine filterMap_eq_nil_iff.mpr fun x hx => ?_
    obtain ⟨j, hj⟩ := mem_iff_getElem?.mp hx
    rw [getElem?_drop] at hj
    exact hlast _ x hj (by omega)
  rw [← take_append_drop (i + 1) l, filterMap_append, hrest, append_nil,
    take_succ_eq_append_getElem hlt, filterMap_append]
  simp [hf]

theorem isDir_of_isObject (h : e.isObject = true) : e.isDir = false := by
  simp_all [isObject, isDir]

/-- The last object of its name is the last copy of it. -/
theorem LastOf.getLast?_copies (hins : Increasing ins) {l : List (MetaCacheEntry B)} (h : LastOf ins i e)
    (hl : ins[i]? = some l) (he : e ∈ l)
    (hobject : e.isObject = true) : (copies ins e.name).getLast? = some e := by
  refine getLast?_filterMap hl ?_ fun j l' hl' hij => ?_
  · have hsome : (l.find? fun x => x.name == e.name && x.isObject).isSome := by
      rw [find?_isSome]
      exact ⟨e, he, by simp [hobject]⟩
    obtain ⟨x, hx⟩ := isSome_iff_exists.mp hsome
    have hname : x.name = e.name := by
      have := find?_some hx
      simp_all
    have hnodup : (l.map name).Nodup :=
      pairwise_map.mpr ((hins l (mem_of_getElem? hl)).imp fun hlt => hlt.ne)
    rw [hx, inj_on_of_nodup_map hnodup (mem_of_find?_eq_some hx) he hname]
  · refine find?_eq_none.mpr fun x hx hcond => ?_
    obtain ⟨hname, hobj⟩ : x.name = e.name ∧ x.isObject = true := by simpa using hcond
    have := (h j l' hl' x hx (isDir_of_isObject hobj) hname).2.2
    omega

theorem exists_copy {n : String} (h : 2 ≤ (copies ins n).length) :
    ∃ (i : ℕ) (l : _), ins[i]? = some l ∧ ∃ e ∈ l, e.name = n ∧ e.isObject = true := by
  obtain ⟨e, he⟩ := exists_mem_of_length_pos (by omega : 0 < (copies ins n).length)
  obtain ⟨l, hl, hfind⟩ := mem_filterMap.mp he
  obtain ⟨i, hi⟩ := mem_iff_getElem?.mp hl
  exact ⟨i, l, hi, e, mem_of_find?_eq_some hfind, by simpa using find?_some hfind⟩

/-- Once all is passed, what was sent for a name with copies is the last of them. -/
theorem Progress.getLast?_copies (h : Progress ins st) (hins : Increasing ins) {o : MetaCacheEntry B}
    (ho : o ∈ st.out) (hcopies : 2 ≤ (copies ins o.name).length) :
    (copies ins o.name).getLast? = some o := by
  obtain ⟨-, i, l, hl, hol, hlast⟩ := h.origin o ho
  obtain ⟨j, l', hl', x, hx, hname, hobj⟩ := exists_copy hcopies
  have hsame := (hlast j l' hl' x hx (isDir_of_isObject hobj) hname).2.1
  exact hlast.getLast?_copies hins hl hol (hsame.symm.trans hobj)

end

theorem Progress.mergesAll_iff (h : Progress ins st) (hins : Increasing ins)
    (hall : ∀ q ∈ st.chans.queues, q = []) :
    MergesAll load orders readQuorum ins st.out ↔
      (∀ l ∈ ins, ∀ e ∈ l, e.name ≠ "") ∧ LastCopyMerged load orders readQuorum ins := by
  constructor
  · intro hm
    refine ⟨fun l hl e he hname => ?_, fun name hcopies e he => ?_⟩
    · rcases hm.names l hl e he with ⟨o, ho, honame⟩ | ⟨hdir, -⟩
      · exact (h.origin o ho).1 (honame.trans hname)
      · simp [isDir, hname] at hdir
    · obtain ⟨o, ho, rfl, hvers⟩ := hm.versions name hcopies
      obtain rfl : o = e := some.inj ((h.getLast?_copies hins ho hcopies).symm.trans he)
      exact hvers
  · rintro ⟨hnames, hlast⟩
    have hsent : ∀ l ∈ ins, ∀ e ∈ l, (∃ o ∈ st.out, o.name = e.name) ∨ StandsFor ins e := by
      intro l hl e he
      obtain ⟨i, hi⟩ := mem_iff_getElem?.mp hl
      rcases h.passed i l hi e he with ⟨q, hq, heq⟩ | hempty | hsent
      · simp [hall q (mem_of_getElem? hq)] at heq
      · exact absurd hempty (hnames l hl e he)
      · exact hsent
    refine ⟨h.increasing, fun o ho => ?_, hsent, fun name hcopies => ?_⟩
    · obtain ⟨-, i, l, hl, hol, -⟩ := h.origin o ho
      exact ⟨l, mem_of_getElem? hl, o, hol, rfl⟩
    · obtain ⟨i, l, hl, x, hx, rfl, hobj⟩ := exists_copy hcopies
      rcases hsent l (mem_of_getElem? hl) x hx with ⟨o, ho, hname⟩ | ⟨hdir, -⟩
      · rw [← hname] at hcopies ⊢
        exact ⟨o, ho, rfl, hlast _ hcopies o (h.getLast?_copies hins ho hcopies)⟩
      · simp [isDir_of_isObject hobj] at hdir

omit [Inhabited B] in
theorem length_copies_le (ins : Inputs B) (n : String) :
    (copies ins n).length ≤ ins.length :=
  length_filterMap_le _ _

variable (load marshal orders readQuorum) in
/-- A merge of listings in which entries that are compared agree ends, and gives all the names with
all the versions exactly when no name is empty and every object in several listings has the merged
versions in the last one. -/
theorem mergeEntryChannels_iff (hins : Increasing ins)
    (htidy : TidyRounds load marshal orders readQuorum { chans := .receive ins }) :
    ∃ out, (∀ fuel, ins.flatten.length < fuel →
        mergeEntryChannels load marshal orders readQuorum fuel ins = some out) ∧
      (MergesAll load orders readQuorum ins out ↔
        (1 < ins.length → ∀ l ∈ ins, ∀ e ∈ l, e.name ≠ "") ∧
          LastCopyMerged load orders readQuorum ins) := by
  have hfew (hlen : ins.length ≤ 1) : ∀ name, ¬ 2 ≤ (copies ins name).length := fun name h => by
    have := length_copies_le ins name
    omega
  match ins, hins, htidy with
  | [], _, _ =>
    refine ⟨[], fun _ _ => rfl, iff_of_true ⟨by simp, by simp, by simp, ?_⟩ ⟨by simp, ?_⟩⟩
    all_goals exact fun name h => absurd h (hfew (by simp) name)
  | [only], hins, _ =>
    refine ⟨only, fun _ _ => rfl, iff_of_true ⟨?_, ?_, ?_, ?_⟩ ⟨by simp, ?_⟩⟩
    · exact pairwise_map.mpr (hins only (by simp))
    · exact fun o ho => ⟨only, by simp, o, ho, rfl⟩
    · intro l hl e he
      rw [mem_singleton.mp hl] at he
      exact .inl ⟨e, he, rfl⟩
    all_goals exact fun name h => absurd h (hfew (by simp) name)
  | a :: b :: ins, hins, htidy =>
    obtain ⟨st, hst, hall, hrun⟩ := rounds_progress load marshal orders readQuorum
      (progress_receive (a :: b :: ins)) hins htidy
    refine ⟨st.out, hrun, ?_⟩
    rw [hst.mergesAll_iff hins hall]
    simp

/-- An object with one version of this id, written at this time. -/
def objectEntry (name : String) (id : Uuid) (t : Time) : MetaCacheEntry Unit :=
  { name, metadata := [0],
    cached := some { versions := [⟨{ versionId := some id, modTime := some t }, ()⟩] } }

/-- An object `x`, and one `x/` that comes to the top only when `x` has been sent. -/
def apart : List (List (MetaCacheEntry Unit)) :=
  [[objectEntry "x" 1 10], [objectEntry "x-1" 2 20, objectEntry "x/" 3 30]]

theorem mergeEntryChannels_apart : ∃ out,
    mergeEntryChannels (fun _ => none) (fun _ => none) (fun _ => .insertion) 1 4 apart = some out ∧
      MergesAll (fun _ => none) (fun _ => .insertion) 1 apart out := by
  have hins : Increasing apart := by
    unfold Increasing
    decide
  have htidy : TidyRounds (fun _ => none) (fun _ => none) (fun _ => .insertion) 1
      { chans := .receive apart } := Machine.along_of_alongFor (n := 4) (by decide +kernel)
  obtain ⟨out, hrun, hiff⟩ := mergeEntryChannels_iff _ _ _ _ hins htidy
  refine ⟨out, hrun 4 (by decide), hiff.mpr ⟨fun _ => by decide, fun name h => absurd h ?_⟩⟩
  by_cases hx : name = "x"
  · subst hx
    decide
  · have hlen := length_copies_le [[objectEntry "x-1" 2 20, objectEntry "x/" 3 30]] name
    have hcopies : copies apart name = copies [[objectEntry "x-1" 2 20, objectEntry "x/" 3 30]] name := by
      simp [copies, apart, objectEntry, Ne.symm hx]
    rw [hcopies]
    exact not_le.mpr (Nat.lt_succ_of_le hlen)

/-- An object in two channels comes with the versions of one of them only, and an object `a` is
lost when a later channel has an object `a/`. -/
theorem mergeEntryChannels_loses :
    (mergeEntryChannels (fun _ => none) (fun _ => none) (fun _ => .insertion) 1 4
        [[objectEntry "a" 1 10], [objectEntry "a" 2 20]] = some [objectEntry "a" 2 20] ∧
      (mergedVersions (fun _ => none) (fun _ => .insertion) 1
        [[objectEntry "a" 1 10], [objectEntry "a" 2 20]] "a").map (·.header.versionId) =
        [some 2, some 1]) ∧
    mergeEntryChannels (fun _ => none) (fun _ => none) (fun _ => .insertion) 1 4
      [[objectEntry "a" 1 10], [objectEntry "a/" 2 20]] = some [objectEntry "a/" 2 20] := by
  decide

end

end Rustfs.MergeEntries
