import Rustfs.CacheValue.ListPathRaw

/-! The calls a listing makes when no reader fails, and when they cover all that the readers hold. -/
namespace Rustfs.ListPathRaw

open List MetaCacheEntry MetacacheReader

variable {B : Type} (load : Bytes → Option (FileMeta B)) (ds : ℕ)

section

variable {load} {readers : Readers B} {ps : List (Option (MetaCacheEntry B))}

namespace Delivery

/-- The name the call is about. -/
def name : Delivery B → String
  | agreedFn entry => entry.name
  | partialFn entries _ => ((entries.filterMap id).head?.map MetaCacheEntry.name).getD ""
  | finishedFn _ => ""

variable (load) in
/-- The call has the entry of the reader: in its place, or by the one entry they agree on. -/
def Has (i : ℕ) (e : MetaCacheEntry B) : Delivery B → Prop
  | agreedFn entry => entry.name = e.name ∧ (entry = e ∨ (entry.matchesOther load e true).2)
  | partialFn entries _ => entries[i]? = some (some e)
  | finishedFn _ => False

end Delivery

variable (load) in
/-- A call that gives the entries with the least name. -/
structure Gives (ps : List (Option (MetaCacheEntry B))) (d : Delivery B) : Prop where
  mem : ∃ e, some e ∈ ps ∧ e.name = d.name
  has : ∀ i e, ps[i]? = some (some e) → e.name = d.name → d.Has load i e
  of_has : ∀ i e, i < ps.length → d.Has load i e →
    e.name = d.name ∧ ∃ e', ps[i]? = some (some e') ∧ e'.name = d.name

variable {s : Scan B}

theorem Seen.gives_agreed (hs : Seen load ps s) (hne : s.current.name ≠ "")
    (hagree : s.agree = ps.length) : Gives load ps (.agreedFn s.current) := by
  have hall : ∀ p ∈ ps, ∃ e, p = some e ∧ e.name = s.current.name ∧
      (s.current = e ∨ (s.current.matchesOther load e true).2) := by
    intro p hp
    obtain ⟨e, rfl, hmatch⟩ := hs.agreed hagree p hp
    refine ⟨e, rfl, ?_, hmatch⟩
    rcases hmatch with rfl | hmatch
    · rfl
    · exact (name_eq_of_matchesOther _ _ _ hmatch).symm
  refine ⟨⟨_, hs.mem hne, rfl⟩, fun i e hi hname => ?_, fun i e hi hhas => ⟨hhas.1.symm, ?_⟩⟩
  · obtain ⟨e', heq, -, hmatch⟩ := hall _ (mem_of_getElem? hi)
    cases heq
    exact ⟨hname.symm, hmatch⟩
  · obtain ⟨e', heq, hname, -⟩ := hall _ (getElem_mem hi)
    exact ⟨e', by rw [getElem?_eq_getElem hi, heq], hname⟩

theorem Seen.gives_partial (hs : Seen load ps s) (hne : s.current.name ≠ "")
    (es : List (Option PeekError)) : Gives load ps (.partialFn s.topEntries es) := by
  have hin : ∀ (i : ℕ) (e : MetaCacheEntry B), s.topEntries[i]? = some (some e) ↔
      ps[i]? = some (some e) ∧ e.name = s.current.name := by
    intro i e
    rw [hs.tops, getElem?_map]
    cases hp : ps[i]? with
    | none => simp
    | some p => simp [Option.filter_eq_some_iff]
  have hname : (Delivery.partialFn s.topEntries es).name = s.current.name := by
    have hmem : s.current ∈ s.topEntries.filterMap id := by
      obtain ⟨i, hi⟩ := mem_iff_getElem?.mp (hs.mem hne)
      exact mem_filterMap.mpr ⟨_, mem_of_getElem? ((hin i _).mpr ⟨hi, rfl⟩), rfl⟩
    cases hf : s.topEntries.filterMap id with
    | nil =>
      rw [hf] at hmem
      simp at hmem
    | cons e rest =>
      have he : some e ∈ s.topEntries := by
        obtain ⟨p, hp, rfl⟩ := mem_filterMap.mp (hf ▸ mem_cons_self : e ∈ s.topEntries.filterMap id)
        exact hp
      obtain ⟨i, hi⟩ := mem_iff_getElem?.mp he
      rw [Delivery.name, hf]
      exact ((hin i e).mp hi).2
  refine ⟨⟨_, hs.mem hne, hname.symm⟩, fun i e hi he => (hin i e).mpr ⟨hi, he.trans hname⟩, fun i e _ hhas => ?_⟩
  obtain ⟨hi, he⟩ := (hin i e).mp hhas
  exact ⟨he.trans hname.symm, e, hi, he.trans hname.symm⟩

def streams (readers : Readers B) : List (List (MetaCacheEntry B)) := readers.map (·.1.rest)

theorem peek_current {r : MetacacheReader B} {e : MetaCacheEntry B} (h : r.rest.head? = some e) :
    (r.peek.2.skip 1).rest = r.rest.tail := by
  obtain ⟨rest, ending, current⟩ := r
  cases rest with
  | nil => cases h
  | cons => rfl

theorem peek_rest (r : MetacacheReader B) : r.peek.2.rest = r.rest.tail := by
  obtain ⟨rest, ending, current⟩ := r
  cases rest with
  | nil => cases ending <;> rfl
  | cons => rfl

theorem peek_ending (r : MetacacheReader B) : r.peek.2.ending = r.ending := by
  obtain ⟨rest, ending, current⟩ := r
  cases rest with
  | nil => cases ending <;> rfl
  | cons => rfl

/-- The readers that gave an entry to the call skip it. -/
def skipTops (readers : Readers B) (tops : List (Option (MetaCacheEntry B))) : Readers B :=
  (readers.zip tops).map fun r => (if r.2.isSome then r.1.1.skip 1 else r.1.1, r.1.2)

/-- After a round every reader is an entry further, whether it was given or not. -/
theorem skipTops_advanced (hq : Quiet readers) {ts : List (Option (MetaCacheEntry B))}
    (htops : List.Forall₂ (fun top p => top = none ∨ top = p) ts (heads readers)) :
    Quiet (skipTops (advanced readers) ts) ∧
      streams (skipTops (advanced readers) ts) = (streams readers).map List.tail := by
  induction readers generalizing ts with
  | nil => exact ⟨by simp [skipTops, advanced, Quiet], by simp [skipTops, advanced, streams]⟩
  | cons r readers ih =>
    obtain ⟨top, tops', htop, htops', rfl⟩ := forall₂_cons_right_iff.mp htops
    obtain ⟨hq', hstreams⟩ := ih (fun r hr => hq r (mem_cons_of_mem _ hr)) htops'
    have hrest : (if top.isSome then r.1.peek.2.skip 1 else r.1.peek.2).rest = r.1.rest.tail := by
      split
      · next hsome =>
        obtain ⟨e, rfl⟩ := Option.isSome_iff_exists.mp hsome
        exact peek_current (htop.resolve_left (by simp)).symm
      · exact peek_rest r.1
    have hend : endsQuietly (if top.isSome then r.1.peek.2.skip 1 else r.1.peek.2).ending := by
      have := (hq r mem_cons_self).2
      rw [← peek_ending] at this
      split <;> exact this
    refine ⟨fun x hx => ?_, congrArg₂ List.cons hrest hstreams⟩
    rcases mem_cons.mp hx with rfl | hx
    · exact ⟨rfl, hend⟩
    · exact hq' x hx

theorem length_flatten_tail_lt {α : Type} {ls : List (List α)} (h : ∃ l ∈ ls, l ≠ []) :
    (ls.map List.tail).flatten.length < ls.flatten.length := by
  obtain ⟨l, hl, hne⟩ := h
  have hlt : l.tail.length < l.length := by
    have := length_pos_of_ne_nil hne
    rw [length_tail]
    omega
  have := sum_lt_sum (length ∘ List.tail) length (fun l _ => (tail_sublist l).length_le) ⟨l, hl, hlt⟩
  rwa [length_flatten, length_flatten, map_map]

variable (load) in
/-- The calls of a listing without errors: in every round all the streams move on. -/
inductive Run : List (List (MetaCacheEntry B)) → List (Delivery B) → Prop
  | done {ls} (h : ∀ l ∈ ls, l = []) : Run ls []
  | round {ls d out} (h : Gives load (ls.map List.head?) d) (hrun : Run (ls.map List.tail) out) :
    Run ls (d :: out)

theorem heads_eq (rs : Readers B) : heads rs = (streams rs).map List.head? := by
  simp [heads, streams]

/-- The call a round makes. -/
def Scan.call (s : Scan B) (n : ℕ) : Delivery B :=
  if s.agree = n then .agreedFn s.current else .partialFn s.topEntries (List.replicate n none)

theorem Counted.eq_length (hs : Counted ps s) : s.atEof = ps.length ↔ ∀ p ∈ ps, p = none := by
  rw [hs.atEof, countP_eq_length]
  simp

theorem Counted.isSome_of_agree (hs : Counted ps s) (h : s.agree = ps.length) :
    ∀ p ∈ ps, p.isSome :=
  countP_eq_length.mp (le_antisymm countP_le_length (h ▸ hs.agree_le))

variable (load) in
/-- A round when no reader fails: it ends the listing, or makes one call and goes on with all the
readers one entry further. -/
theorem rounds_quiet (hq : Quiet readers) :
    (∀ l ∈ streams readers, l = []) ∧
      (∀ fuel, rounds load ds (fuel + 1) readers = some ([], .ok ())) ∨
    (∃ l ∈ streams readers, l ≠ []) ∧ ∃ next, Quiet next ∧
      streams next = (streams readers).map List.tail ∧
      ∀ fuel, rounds load ds (fuel + 1) readers = (rounds load ds fuel next).map fun out =>
        (((heads readers).foldl (Scan.take load) {}).call readers.length :: out.1, out.2) := by
  obtain ⟨s, hscan⟩ : ∃ s, (heads readers).foldl (Scan.take load) {} = s := ⟨_, rfl⟩
  have hs : Counted (heads readers) s := hscan ▸ counted_foldl (heads readers)
  obtain ⟨hfnf, hvnf, herr⟩ := hs.quiet
  have hlen : (heads readers).length = readers.length := by simp [heads]
  have hadv : (advanced readers).length = readers.length := by simp [advanced]
  have herrs : (advanced readers).map Prod.snd = List.replicate readers.length none := by
    simp [advanced, Function.comp_def]
  have hround : ∀ fuel, rounds load ds (fuel + 1) readers =
      if s.atEof = readers.length then some ([], .ok ())
      else if s.agree = readers.length then
        (rounds load ds fuel ((advanced readers).map fun r => (r.1.skip 1, r.2))).map fun out =>
          (.agreedFn s.current :: out.1, out.2)
      else
        (rounds load ds fuel (skipTops (advanced readers) s.topEntries)).map fun out =>
          (.partialFn s.topEntries (List.replicate readers.length none) :: out.1, out.2) := by
    intro fuel
    rw [rounds, scanReaders_quiet hq, hscan]
    simp only [hfnf, hvnf, herr, herrs, hadv, skipTops, gt_iff_lt, lt_self_iff_false, decide_false,
      Bool.false_and, Bool.false_eq_true, if_false, Nat.add_zero]
  have hnone : (∀ p ∈ heads readers, p = none) ↔ ∀ l ∈ streams readers, l = [] := by
    simp [heads_eq]
  by_cases hend : s.atEof = readers.length
  · left
    exact ⟨hnone.mp (hs.eq_length.mp (hend.trans hlen.symm)), fun fuel => by rw [hround, if_pos hend]⟩
  · right
    refine ⟨?_, ?_⟩
    · by_contra hall
      refine hend ((hs.eq_length.mpr (hnone.mpr fun l hl => ?_)).trans hlen)
      exact not_not.mp fun hne => hall ⟨l, hl, hne⟩
    · by_cases hagree : s.agree = readers.length
      · have hsome := hs.isSome_of_agree (hagree.trans hlen.symm)
        have hskip : (advanced readers).map (fun r => (r.1.skip 1, r.2)) =
            skipTops (advanced readers) (heads readers) := by
          rw [skipTops, advanced, heads, zip_map', map_map, map_map]
          refine map_congr_left fun r hr => ?_
          simp [hsome _ (mem_map_of_mem hr)]
        obtain ⟨hq', hstreams⟩ := skipTops_advanced hq (forall₂_same.mpr fun _ _ => .inr rfl)
        refine ⟨_, hq', hstreams, fun fuel => ?_⟩
        rw [hround, if_neg hend, if_pos hagree, hskip, hscan, Scan.call, if_pos hagree]
      · obtain ⟨hq', hstreams⟩ := skipTops_advanced hq hs.tops
        refine ⟨_, hq', hstreams, fun fuel => ?_⟩
        rw [hround, if_neg hend, if_neg hagree, hscan, Scan.call, if_neg hagree]

theorem Seen.gives (hs : Seen load ps s) (hps : ∃ e, some e ∈ ps) :
    Gives load ps (s.call ps.length) := by
  obtain ⟨e, he⟩ := hps
  unfold Scan.call
  split
  · next hagree => exact hs.gives_agreed (hs.least e he).1 hagree
  · exact hs.gives_partial (hs.least e he).1 _

variable (load) in
/-- A listing of readers that do not fail ends, whatever `min_disks` is. -/
theorem rounds_run (hq : Quiet readers) (hnames : ∀ l ∈ streams readers, ∀ e ∈ l, e.name ≠ "") :
    ∃ out, (∀ fuel, (streams readers).flatten.length < fuel →
      rounds load ds fuel readers = some (out, .ok ())) ∧ Run load (streams readers) out := by
  induction hn : (streams readers).flatten.length using Nat.strong_induction_on
    generalizing readers with
  | _ n ih =>
    subst hn
    rcases rounds_quiet load ds hq with ⟨hall, hend⟩ | ⟨hne, next, hq', hstreams, hround⟩
    · refine ⟨[], fun fuel h => ?_, .done hall⟩
      rw [show fuel = fuel - 1 + 1 by omega]
      exact hend _
    · have hlt := length_flatten_tail_lt hne
      rw [← hstreams] at hlt
      obtain ⟨out, hout, hrun⟩ := ih _ hlt hq' (by
        intro l hl e he
        rw [hstreams] at hl
        obtain ⟨l', hl', rfl⟩ := mem_map.mp hl
        exact hnames l' hl' e (mem_of_mem_tail he)) rfl
      have hheads : ∀ e, some e ∈ heads readers → e.name ≠ "" := by
        intro e he
        rw [heads_eq] at he
        obtain ⟨l, hl, hle⟩ := mem_map.mp he
        exact hnames l hl e (mem_of_mem_head? hle)
      have hsome : ∃ e, some e ∈ heads readers := by
        obtain ⟨l, hl, hne⟩ := hne
        obtain ⟨e, t, rfl⟩ := exists_cons_of_ne_nil hne
        exact ⟨e, heads_eq readers ▸ mem_map_of_mem hl⟩
      have hseen : Seen load (heads readers) _ := seen_heads hheads
      have hgives := hseen.gives hsome
      rw [show (heads readers).length = readers.length by simp [heads], heads_eq] at hgives
      refine ⟨_, fun fuel h => ?_, .round hgives (hstreams ▸ hrun)⟩
      rw [show fuel = fuel - 1 + 1 by omega, hround, hout _ (by omega), heads_eq]
      rfl

end

section

variable {load} {ls : List (List (MetaCacheEntry B))} {out : List (Delivery B)} {d : Delivery B}
  {e : MetaCacheEntry B} {l : List (MetaCacheEntry B)} {i : ℕ}

/-- Of any two streams, one has the names the other starts with. -/
def Comparable (ls : List (List (MetaCacheEntry B))) : Prop :=
  ∀ a ∈ ls, ∀ b ∈ ls, a.map MetaCacheEntry.name <+: b.map MetaCacheEntry.name ∨
    b.map MetaCacheEntry.name <+: a.map MetaCacheEntry.name

variable (load) in
/-- When all streams start with an entry without a name, the last one's matches the others. -/
def BlankMatches (ls : List (List (MetaCacheEntry B))) : Prop :=
  (∀ l ∈ ls, ∃ e ∈ l.head?, e.name = "") → ∀ c ∈ ls.getLast?.bind List.head?,
    ∀ l ∈ ls, ∀ e ∈ l.head?, c = e ∨ (c.matchesOther load e true).2

def Increasing (ls : List (List (MetaCacheEntry B))) : Prop :=
  ∀ l ∈ ls, l.Pairwise fun a b => a.name < b.name

variable (load) in
/-- The names come in order, each once, and with the entry of every reader that holds it. -/
structure Delivers (ls : List (List (MetaCacheEntry B))) (out : List (Delivery B)) : Prop where
  increasing : (out.map Delivery.name).Pairwise (· < ·)
  held : ∀ i l, ls[i]? = some l → ∀ e ∈ l, ∃ d ∈ out, d.name = e.name ∧ d.Has load i e

theorem Increasing.tail (h : Increasing ls) : Increasing (ls.map List.tail) := by
  intro l hl
  obtain ⟨l', hl', rfl⟩ := mem_map.mp hl
  exact (h l' hl').tail

/-- A name that is given comes from one of the streams. -/
theorem Run.exists_mem (h : Run load ls out) (hd : d ∈ out) : ∃ l ∈ ls, ∃ e ∈ l, e.name = d.name := by
  induction h with
  | done => simp at hd
  | @round ls d' out hg _ ih =>
    rcases mem_cons.mp hd with rfl | hd
    · obtain ⟨e, he, hname⟩ := hg.mem
      obtain ⟨l, hl, hhead⟩ := mem_map.mp he
      exact ⟨l, hl, e, mem_of_mem_head? hhead, hname⟩
    · obtain ⟨l, hl, e, he, hname⟩ := ih hd
      obtain ⟨l', hl', rfl⟩ := mem_map.mp hl
      exact ⟨l', hl', e, mem_of_mem_tail he, hname⟩

/-- A call has the entry of a reader only where the stream has its name. -/
theorem Run.mem_of_has (h : Run load ls out) (hd : d ∈ out) (hl : ls[i]? = some l)
    (hhas : d.Has load i e) : ∃ e' ∈ l, e'.name = e.name := by
  induction h generalizing l with
  | done => simp at hd
  | @round ls d' out hg _ ih =>
    have hi : i < ls.length := (List.getElem?_eq_some_iff.mp hl).1
    rcases mem_cons.mp hd with rfl | hd
    · obtain ⟨hname, e', hhead, hname'⟩ := hg.of_has i e (by simpa using hi) hhas
      have hl' : l.head? = some e' := by simpa [hl] using hhead
      exact ⟨e', mem_of_mem_head? hl', hname'.trans hname.symm⟩
    · obtain ⟨e', he', hname⟩ := ih hd (l := l.tail) (by simp [hl])
      exact ⟨e', mem_of_mem_tail he', hname⟩

theorem prefix_tail_iff {a b : List (MetaCacheEntry B)}
    (h : ∀ x y, a.head? = some x → b.head? = some y → x.name = y.name) :
    (a.tail.map name <+: b.tail.map name ∨
      b.tail.map name <+: a.tail.map name) ↔
    (a.map name <+: b.map name ∨ b.map name <+: a.map name) := by
  cases a with
  | nil => simp
  | cons x a =>
    cases b with
    | nil => simp
    | cons y b =>
      have hxy := h x y rfl rfl
      simp [cons_prefix_cons, hxy]

/-- All streams that are not at their end stand at one name. -/
def SameHeads (ls : List (List (MetaCacheEntry B))) : Prop :=
  ∀ a ∈ ls, ∀ b ∈ ls, ∀ x y, a.head? = some x → b.head? = some y → x.name = y.name

theorem comparable_iff (ls : List (List (MetaCacheEntry B))) :
    Comparable ls ↔ SameHeads ls ∧ Comparable (ls.map List.tail) := by
  have htails (hsame : SameHeads ls) : Comparable (ls.map List.tail) ↔ Comparable ls := by
    simp only [Comparable, forall_mem_map]
    exact forall₂_congr fun a ha => forall₂_congr fun b hb => prefix_tail_iff (hsame a ha b hb)
  refine ⟨fun hc => ?_, fun ⟨hsame, hc⟩ => (htails hsame).mp hc⟩
  have hsame : SameHeads ls := by
    intro a ha b hb x y hx hy
    obtain ⟨s, rfl⟩ := head?_eq_some_iff.mp hx
    obtain ⟨t, rfl⟩ := head?_eq_some_iff.mp hy
    rcases hc _ ha _ hb with hp | hp
    · exact (cons_prefix_cons.mp hp).1
    · exact (cons_prefix_cons.mp hp).1.symm
  exact ⟨hsame, (htails hsame).mpr hc⟩

variable (load) in
/-- The call is about the first entries of all the streams and has them. -/
def HasHeads (ls : List (List (MetaCacheEntry B))) (d : Delivery B) : Prop :=
  ∀ i l e, ls[i]? = some l → l.head? = some e → e.name = d.name ∧ d.Has load i e

theorem HasHeads.sameHeads (h : HasHeads load ls d) : SameHeads ls := by
  intro a ha b hb x y hx hy
  obtain ⟨i, hi⟩ := mem_iff_getElem?.mp ha
  obtain ⟨j, hj⟩ := mem_iff_getElem?.mp hb
  exact (h i a x hi hx).1.trans (h j b y hj hy).1.symm

theorem Gives.hasHeads (hg : Gives load (ls.map List.head?) d) (hsame : SameHeads ls) :
    HasHeads load ls d := by
  intro i l e hl hhead
  obtain ⟨e₀, he₀, hname₀⟩ := hg.mem
  obtain ⟨l₀, hl₀, hhead₀⟩ := mem_map.mp he₀
  have hname := (hsame l (mem_of_getElem? hl) l₀ hl₀ e e₀ hhead hhead₀).trans hname₀
  exact ⟨hname, hg.has i e (by simp [hl, hhead]) hname⟩

/-- All entries are given exactly when the first call has the first ones and the others the rest. -/
theorem delivers_cons_iff (hls : Increasing ls) (hrun : Run load (ls.map List.tail) out) :
    Delivers load ls (d :: out) ↔ HasHeads load ls d ∧ Delivers load (ls.map List.tail) out := by
  have hafter : ∀ l ∈ ls, ∀ h, l.head? = some h → ∀ e ∈ l.tail, h.name < e.name := by
    intro l hl h hh e he
    obtain ⟨t, rfl⟩ := head?_eq_some_iff.mp hh
    exact rel_of_pairwise_cons (hls _ hl) he
  constructor
  · intro hdel
    have hheads : HasHeads load ls d := by
      intro i l e hi hhead
      obtain ⟨d', hd', hname, hhas⟩ := hdel.held i l hi e (mem_of_mem_head? hhead)
      rcases mem_cons.mp hd' with rfl | hd'
      · exact ⟨hname.symm, hhas⟩
      · -- a later call cannot have this entry: its stream has moved on
        obtain ⟨e', he', hname'⟩ := hrun.mem_of_has hd' (l := l.tail) (by simp [hi]) hhas
        exact absurd hname' (hafter l (mem_of_getElem? hi) e hhead e' he').ne'
    refine ⟨hheads, (pairwise_cons.mp hdel.increasing).2, fun i l hl e he => ?_⟩
    obtain ⟨l', hl', rfl⟩ : ∃ l', ls[i]? = some l' ∧ l'.tail = l := by
      simpa using hl
    obtain ⟨d', hd', hname, hhas⟩ := hdel.held i l' hl' e (mem_of_mem_tail he)
    rcases mem_cons.mp hd' with rfl | hd'
    · obtain ⟨h, hh⟩ : ∃ h, l'.head? = some h := by
        cases l' <;> simp_all
      have hlt := hafter l' (mem_of_getElem? hl') h hh e he
      exact absurd ((hheads i l' h hl' hh).1.trans hname) hlt.ne
    · exact ⟨d', hd', hname, hhas⟩
  · rintro ⟨hheads, hdel⟩
    refine ⟨pairwise_cons.mpr ⟨fun name hn => ?_, hdel.increasing⟩, fun i l hl e he => ?_⟩
    · obtain ⟨d', hd', rfl⟩ := mem_map.mp hn
      obtain ⟨l, hl, e, he, hname⟩ := hrun.exists_mem hd'
      obtain ⟨l', hl', rfl⟩ := mem_map.mp hl
      cases l' with
      | nil => simp at he
      | cons h t =>
        obtain ⟨i, hi⟩ := mem_iff_getElem?.mp hl'
        rw [← hname, ← (hheads i _ h hi rfl).1]
        exact hafter _ hl' h rfl e he
    · cases l with
      | nil => simp at he
      | cons h t =>
        rcases mem_cons.mp he with rfl | he
        · obtain ⟨hname, hhas⟩ := hheads i _ e hl rfl
          exact ⟨d, mem_cons_self, hname.symm, hhas⟩
        · obtain ⟨d', hd', hname, hhas⟩ := hdel.held i t (by simp [hl]) e he
          exact ⟨d', mem_cons_of_mem _ hd', hname, hhas⟩

variable (load) in
theorem delivers_of_nil (h : ∀ l ∈ ls, l = []) : Delivers load ls [] ∧ Comparable ls := by
  refine ⟨⟨by simp, fun i l hl e he => ?_⟩, fun a ha b hb => ?_⟩
  · simp [h l (mem_of_getElem? hl)] at he
  · simp [h a ha]

theorem Run.delivers_iff (hrun : Run load ls out) (hls : Increasing ls) :
    Delivers load ls out ↔ Comparable ls := by
  induction hrun with
  | done h =>
    obtain ⟨hdel, hc⟩ := delivers_of_nil load h
    exact iff_of_true hdel hc
  | round hg hrun ih =>
    rw [delivers_cons_iff hls hrun, comparable_iff, ih hls.tail]
    exact and_congr_left' ⟨HasHeads.sameHeads, hg.hasHeads⟩

variable (load) in
/-- Entries without a name never replace one another, and the last one is current. -/
theorem foldl_blank {ps : List (Option (MetaCacheEntry B))} (hps : ∀ e, some e ∈ ps → e.name = "") :
    (ps.foldl (Scan.take load) {}).topEntries = ps ∧
      (ps.foldl (Scan.take load) {}).agree = ps.countP (·.isSome) ∧
      (ps.foldl (Scan.take load) {}).current.name = "" ∧
      ∀ e, ps.getLast? = some (some e) → (ps.foldl (Scan.take load) {}).current = e := by
  induction ps using List.reverseRecOn with
  | nil => simp
  | append_singleton ps p ih =>
    obtain ⟨htops, hagree, hcur, -⟩ := ih fun e he => hps e (mem_append_left _ he)
    rw [foldl_append]
    cases p with
    | none => simp [Scan.take, Scan.miss, htops, hagree, hcur]
    | some e => simp [Scan.take, Scan.see, htops, hagree, hcur, hps e (by simp)]

variable (load) in
theorem hasHeads_blank (hblank : ∀ e, some e ∈ ls.map List.head? → e.name = "") :
    HasHeads load ls (((ls.map List.head?).foldl (Scan.take load) {}).call ls.length) ↔
      BlankMatches load ls := by
  obtain ⟨htops, hagree, hcur, hlast⟩ := foldl_blank load hblank
  have hhead : ∀ l ∈ ls, ∀ e, l.head? = some e → e.name = "" := fun l hl e he =>
    hblank e (he ▸ mem_map_of_mem hl)
  unfold Scan.call
  split
  · next hall =>
    have hfull : ∀ l ∈ ls, ∃ e ∈ l.head?, e.name = "" := by
      intro l hl
      have hcount := countP_eq_length.mp (hagree.symm.trans (hall.trans (length_map _).symm))
      obtain ⟨e, he⟩ := Option.isSome_iff_exists.mp (hcount _ (mem_map_of_mem hl))
      exact ⟨e, he, hhead l hl e he⟩
    have hbind : ∀ c, c ∈ ls.getLast?.bind List.head? →
        ((ls.map List.head?).foldl (Scan.take load) {}).current = c := by
      intro c hc
      obtain ⟨l, hl, hlc⟩ := Option.bind_eq_some_iff.mp hc
      exact hlast c (by rw [getLast?_map, hl]; exact congrArg some hlc)
    constructor
    · intro hhas _ c hc l hl e he
      obtain ⟨i, hi⟩ := mem_iff_getElem?.mp hl
      rw [← hbind c hc]
      exact (hhas i l e hi he).2.2
    · intro hm i l e hi he
      have hl := mem_of_getElem? hi
      have hname := hhead l hl e he
      refine ⟨hname.trans hcur.symm, hcur.trans hname.symm, ?_⟩
      obtain ⟨c, hc⟩ : ∃ c, c ∈ ls.getLast?.bind List.head? := by
        obtain ⟨k, hk⟩ : ∃ k, ls.getLast? = some k :=
          Option.isSome_iff_exists.mp (getLast?_isSome.mpr (ne_nil_of_mem hl))
        obtain ⟨c, hc, -⟩ := hfull k (mem_of_getLast? hk)
        exact ⟨c, by simp [hk, hc]⟩
      rw [hbind c hc]
      exact hm hfull c hc l hl e he
  · next hnot =>
    refine iff_of_true (fun i l e hi he => ?_) fun hfull => ?_
    · have hname := hhead l (mem_of_getElem? hi) e he
      refine ⟨?_, by rw [htops]; simp [Delivery.Has, hi, he]⟩
      rw [hname, htops, Delivery.name]
      cases hf : (ls.map List.head?).filterMap id with
      | nil => rfl
      | cons x xs =>
        have hx : x ∈ (ls.map List.head?).filterMap id := hf ▸ mem_cons_self
        exact (hblank x (by simpa using hx)).symm
    · refine absurd (hagree.trans ((countP_eq_length.mpr fun p hp => ?_).trans (by simp))) hnot
      obtain ⟨l, hl, rfl⟩ := mem_map.mp hp
      obtain ⟨e, he, -⟩ := hfull l hl
      exact Option.isSome_iff_exists.mpr ⟨e, he⟩

theorem Increasing.tail_names (h : Increasing ls) : ∀ l ∈ ls.map List.tail, ∀ e ∈ l, e.name ≠ "" := by
  intro l hl e he hname
  obtain ⟨l', hl', rfl⟩ := mem_map.mp hl
  cases l' with
  | nil => simp at he
  | cons x t =>
    have hlt : x.name < e.name := rel_of_pairwise_cons (h _ hl') he
    exact not_lt_empty _ (hname ▸ hlt)

variable (load) in
/-- The first call has all the first entries: unless they have no name, if they have the same. -/
theorem hasHeads_first_iff (hne : ∃ l ∈ ls, l ≠ []) :
    HasHeads load ls (((ls.map List.head?).foldl (Scan.take load) {}).call ls.length) ↔
      SameHeads ls ∧ BlankMatches load ls := by
  obtain ⟨l₀, hl₀, hne⟩ := hne
  obtain ⟨e₀, t, rfl⟩ := exists_cons_of_ne_nil hne
  have hmem : some e₀ ∈ ls.map List.head? := mem_map_of_mem hl₀
  have hkey (hsame : SameHeads ls) :
      HasHeads load ls (((ls.map List.head?).foldl (Scan.take load) {}).call ls.length) ↔
        BlankMatches load ls := by
    have hnames : ∀ e, some e ∈ ls.map List.head? → e.name = e₀.name := by
      intro e he
      obtain ⟨l, hl, hhead⟩ := mem_map.mp he
      exact hsame l hl _ hl₀ e e₀ hhead rfl
    by_cases hblank : e₀.name = ""
    · exact hasHeads_blank load fun e he => (hnames e he).trans hblank
    · have hseen : Seen load (ls.map List.head?) _ := seen_heads fun e he => hnames e he ▸ hblank
      have hgives := hseen.gives ⟨e₀, hmem⟩
      rw [length_map] at hgives
      refine iff_of_true (hgives.hasHeads hsame) fun hfull => ?_
      obtain ⟨e, he, hname⟩ := hfull _ hl₀
      cases he
      exact absurd hname hblank
  exact ⟨fun h => ⟨h.sameHeads, (hkey h.sameHeads).mp h⟩, fun ⟨hsame, hm⟩ => (hkey hsame).mpr hm⟩

variable (load) in
/-- A listing of readers that do not fail gives all their names with all their entries exactly
when each stream has the names a longer one starts with. -/
theorem listPathRaw_delivers_iff {readers : List (MetacacheReader B)}
    (hquiet : ∀ r ∈ readers, endsQuietly r.ending)
    (hls : Increasing (readers.map MetacacheReader.rest)) (minDisks : ℕ) :
    ∃ out result, (∀ fuel, (readers.map MetacacheReader.rest).flatten.length < fuel →
      listPathRaw load minDisks fuel readers = some (out, result)) ∧
      (Delivers load (readers.map MetacacheReader.rest) out ↔
        Comparable (readers.map MetacacheReader.rest) ∧
          BlankMatches load (readers.map MetacacheReader.rest)) := by
  have hstreams : streams (readers.map fun r => (r, none)) = readers.map rest := by
    simp [streams]
  have hq : Quiet (readers.map fun r => (r, none)) := by simpa [Quiet] using hquiet
  by_cases hempty : readers = []
  · subst hempty
    exact ⟨[], .error .noDrives, fun fuel _ => rfl,
      iff_of_true ⟨by simp, by simp⟩ ⟨by simp [Comparable], by simp [BlankMatches]⟩⟩
  · have hlist : ∀ fuel, listPathRaw load minDisks fuel readers =
        rounds load minDisks fuel (readers.map fun r => (r, none)) := fun fuel => by
      rw [listPathRaw, if_neg (by simpa using hempty)]
    rcases rounds_quiet load minDisks hq with ⟨hall, hend⟩ | ⟨hne, next, hq', htails, hround⟩
    · rw [hstreams] at hall
      obtain ⟨hdel, hc⟩ := delivers_of_nil load hall
      refine ⟨[], .ok (), fun fuel h => ?_, iff_of_true hdel ⟨hc, fun _ c hc => ?_⟩⟩
      · rw [hlist, show fuel = fuel - 1 + 1 by omega]
        exact hend _
      · obtain ⟨l, hl, hlc⟩ := Option.bind_eq_some_iff.mp hc
        simp [hall l (mem_of_getLast? hl)] at hlc
    · obtain ⟨out, hout, hrun⟩ := rounds_run load minDisks hq' (by
        rw [htails, hstreams]
        exact hls.tail_names)
      rw [htails, hstreams] at hout hrun
      rw [hstreams] at hne
      have hlt := length_flatten_tail_lt hne
      have hlen : (readers.map fun r => (r, (none : Option PeekError))).length =
          (readers.map rest).length := by
        simp
      rw [heads_eq, hstreams, hlen] at hround
      generalize hd : Scan.call _ _ = d at hround
      refine ⟨d :: out, .ok (), fun fuel h => ?_, ?_⟩
      · rw [hlist, show fuel = fuel - 1 + 1 by omega, hround, hout _ (by omega)]
        rfl
      · have hc := comparable_iff (readers.map rest)
        rw [delivers_cons_iff hls hrun, hrun.delivers_iff hls.tail, hc, ← hd, hasHeads_first_iff load hne,
          and_assoc, and_comm (a := BlankMatches _ _), and_assoc]

/-- A reader of a disk with directories of these names. -/
def readerOf (names : List String) : MetacacheReader Unit := ⟨names.map fun n => ⟨n, [], none⟩, none, none⟩

/-- A disk that lags behind another one: all that both have is delivered. -/
theorem listPathRaw_delivers_lagging :
    ∃ out result, (∀ fuel, 3 < fuel →
      listPathRaw (fun _ => none) 1 fuel [readerOf ["a/", "b/"], readerOf ["a/"]] =
        some (out, result)) ∧
      Delivers (fun _ => none)
        ([readerOf ["a/", "b/"], readerOf ["a/"]].map MetacacheReader.rest) out := by
  have hquiet : ∀ r ∈ [readerOf ["a/", "b/"], readerOf ["a/"]], endsQuietly r.ending := by decide
  obtain ⟨out, result, hrun, hdelivers⟩ :=
    listPathRaw_delivers_iff (fun _ => none) hquiet (by unfold Increasing; decide) 1
  refine ⟨out, result, hrun, hdelivers.2 ⟨by unfold Comparable; decide, fun hblank => ?_⟩⟩
  obtain ⟨e, he, hname⟩ := hblank _ mem_cons_self
  cases he
  exact absurd hname (by decide)

theorem listPathRaw_loses_later_name :
    (listPathRaw (fun _ => none) 1 3 [readerOf ["a/"], readerOf ["b/"]]).map
      (fun out => out.1.map Delivery.name) = some ["a/"] := by
  decide

end

end Rustfs.ListPathRaw
