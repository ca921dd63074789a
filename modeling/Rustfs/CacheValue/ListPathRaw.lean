import Rustfs.Filemeta.Metacache

/-! Listing a path on several disks: the entries of their streams, name by name. -/
namespace Rustfs.ListPathRaw

open List MetacacheReader

variable {B : Type} (load : Bytes → Option (FileMeta B)) (minDisks : ℕ)

/-- A call of one of the functions the caller gave. -/
inductive Delivery (B : Type) where
  | agreedFn (entry : MetaCacheEntry B)
  | partialFn (entries : List (Option (MetaCacheEntry B))) (errs : List (Option PeekError))
  | finishedFn (errs : List (Option PeekError))

inductive ListError where
  | noDrives
  | volumeNotFound
  | fileNotFound
  | drives (errs : List (Option PeekError))
  deriving DecidableEq

/-- The readers, each with the error it failed with. -/
abbrev Readers (B : Type) := List (MetacacheReader B × Option PeekError)

/-- What a round has seen of the readers before the next one. -/
structure Scan (B : Type) where
  current : MetaCacheEntry B := {}
  topEntries : List (Option (MetaCacheEntry B)) := []
  atEof : ℕ := 0
  fnf : ℕ := 0
  vnf : ℕ := 0
  hasErr : ℕ := 0
  agree : ℕ := 0

namespace Scan

/-- An entry was read: it starts the round, agrees, goes along, is too early or starts it anew. -/
def see (s : Scan B) (entry : MetaCacheEntry B) : Scan B :=
  if s.current.name = "" then
    { s with topEntries := s.topEntries ++ [some entry], current := entry, agree := s.agree + 1 }
  else if (s.current.matchesOther load entry true).2 then
    { s with topEntries := s.topEntries ++ [some entry], agree := s.agree + 1 }
  else if entry.name = s.current.name then { s with topEntries := s.topEntries ++ [some entry] }
  else if entry.name > s.current.name then { s with topEntries := s.topEntries ++ [none] }
  else
    { s with
      topEntries := s.topEntries.map (fun _ => none) ++ [some entry]
      current := entry
      agree := 1 }

/-- No entry was read, and this is why. -/
def miss (s : Scan B) : Option PeekError → Scan B
  | none | some .unexpected | some .ioEof =>
    { s with topEntries := s.topEntries ++ [none], atEof := s.atEof + 1 }
  | some .fileNotFound =>
    { s with topEntries := s.topEntries ++ [none], atEof := s.atEof + 1, fnf := s.fnf + 1 }
  | some .volumeNotFound =>
    { s with
      topEntries := s.topEntries ++ [none]
      atEof := s.atEof + 1
      fnf := s.fnf + 1
      vnf := s.vnf + 1 }
  | some (.other _) => { s with topEntries := s.topEntries ++ [none], hasErr := s.hasErr + 1 }

end Scan

/-- The errors after which a reader is not asked again. -/
def fatal : PeekError → Option PeekError
  | .other text => some (.other text)
  | _ => none

/-- One pass over the readers. -/
def scanReaders : Readers B → Scan B → Readers B × Scan B
  | [], s => ([], s)
  | (r, some err) :: readers, s =>
    let next := scanReaders readers
      { s with topEntries := s.topEntries ++ [none], hasErr := s.hasErr + 1 }
    ((r, some err) :: next.1, next.2)
  | (r, none) :: readers, s =>
    match r.peek with
    | (.ok (some entry), r) =>
      let next := scanReaders readers (s.see load entry)
      ((r, none) :: next.1, next.2)
    | (.ok none, r) =>
      let next := scanReaders readers (s.miss none)
      ((r, none) :: next.1, next.2)
    | (.error err, r) =>
      let next := scanReaders readers (s.miss (some err))
      ((r, fatal err) :: next.1, next.2)

/-- `count >= total - minDisks`; the difference wraps around when `minDisks` is the greater. -/
def reaches (count total : ℕ) : Bool := decide (minDisks ≤ total ∧ total - minDisks ≤ count)

/-- The loop, with the calls it makes; `none` when the rounds allowed are used up. -/
def rounds : ℕ → Readers B → Option (List (Delivery B) × Except ListError Unit)
  | 0, _ => none
  | fuel + 1, before =>
    let readers := (scanReaders load before {}).1
    let s := (scanReaders load before {}).2
    let errs := readers.map Prod.snd
    if s.vnf > 0 && reaches minDisks s.vnf readers.length then some ([], .error .volumeNotFound)
    else if s.fnf > 0 && reaches minDisks s.fnf readers.length then some ([], .error .fileNotFound)
    else if s.hasErr > 0 && decide (minDisks ≤ readers.length ∧ readers.length - minDisks < s.hasErr) then
      some ([.finishedFn errs], .error (.drives errs))
    else if s.atEof + s.hasErr = readers.length then
      some (if s.hasErr > 0 then [.finishedFn errs] else [], .ok ())
    else if s.agree = readers.length then
      (rounds fuel (readers.map fun r => (r.1.skip 1, r.2))).map fun out =>
        (.agreedFn s.current :: out.1, out.2)
    else
      (rounds fuel ((readers.zip s.topEntries).map fun r =>
        (if r.2.isSome then r.1.1.skip 1 else r.1.1, r.1.2))).map fun out =>
          (.partialFn s.topEntries errs :: out.1, out.2)

/-- The listing in at most `fuel` rounds. -/
def listPathRaw (fuel : ℕ) (readers : List (MetacacheReader B)) :
    Option (List (Delivery B) × Except ListError Unit) :=
  if readers.isEmpty then some ([], .error .noDrives)
  else rounds load minDisks fuel (readers.map fun r => (r, none))

section

/-- The stream is read to its end without an error. -/
def endsQuietly : Option PeekError → Bool
  | none | some .unexpected | some .ioEof => true
  | _ => false

def Scan.take (s : Scan B) : Option (MetaCacheEntry B) → Scan B
  | none => s.miss none
  | some entry => s.see load entry

/-- What is left of the readers after one pass. -/
def advanced (readers : Readers B) : Readers B := readers.map fun r => (r.1.peek.2, none)

def heads (readers : Readers B) : List (Option (MetaCacheEntry B)) :=
  readers.map (·.1.rest.head?)

/-- No reader has failed, nor will. -/
def Quiet (readers : Readers B) : Prop :=
  ∀ r ∈ readers, r.2 = none ∧ endsQuietly r.1.ending

variable {load} {rs : Readers B} {s : Scan B} {ps : List (Option (MetaCacheEntry B))}

theorem Scan.miss_quiet {e : Option PeekError} (h : endsQuietly e) : s.miss e = s.miss none := by
  unfold endsQuietly at h
  split at h <;> first | rfl | cases h

theorem scanReaders_quiet (hq : Quiet rs) :
    scanReaders load rs s = (advanced rs, (heads rs).foldl (Scan.take load) s) := by
  induction rs generalizing s with
  | nil => rfl
  | cons r rs ih =>
    obtain ⟨⟨rest, ending, current⟩, err⟩ := r
    obtain ⟨herr, hend⟩ := hq _ mem_cons_self
    obtain rfl : err = none := herr
    have hq' : Quiet rs := fun r hr => hq r (mem_cons_of_mem _ hr)
    cases rest with
    | cons e rest => simp [scanReaders, peek, ih hq', advanced, heads, Scan.take]
    | nil =>
      cases ending with
      | none => simp [scanReaders, peek, ih hq', advanced, heads, Scan.take]
      | some err =>
        have hfatal : fatal err = none := by
          cases err <;> first | rfl | cases hend
        simp [scanReaders, peek, ih hq', advanced, heads, Scan.take, hfatal, Scan.miss_quiet hend]

/-- What a scan without errors counts, and that it keeps only what was read. -/
structure Counted (ps : List (Option (MetaCacheEntry B))) (s : Scan B) : Prop where
  quiet : s.fnf = 0 ∧ s.vnf = 0 ∧ s.hasErr = 0
  atEof : s.atEof = ps.countP (·.isNone)
  agree_le : s.agree ≤ ps.countP (·.isSome)
  tops : List.Forall₂ (fun top p => top = none ∨ top = p) s.topEntries ps

variable {e : MetaCacheEntry B}

theorem Counted.see (hs : Counted ps s) : Counted (ps ++ [some e]) (s.see load e) := by
  have hle := hs.agree_le
  have hadd : ∀ {top : Option (MetaCacheEntry B)}, top = none ∨ top = some e →
      List.Forall₂ (fun top p => top = none ∨ top = p) (s.topEntries ++ [top]) (ps ++ [some e]) :=
    fun htop => rel_append hs.tops (.cons htop .nil)
  unfold Scan.see
  split_ifs
  · exact ⟨hs.quiet, by simp [hs.atEof], by simpa using hle, hadd (.inr rfl)⟩
  · exact ⟨hs.quiet, by simp [hs.atEof], by simpa using hle, hadd (.inr rfl)⟩
  · exact ⟨hs.quiet, by simp [hs.atEof], by simp; omega, hadd (.inr rfl)⟩
  · exact ⟨hs.quiet, by simp [hs.atEof], by simp; omega, hadd (.inl rfl)⟩
  · refine ⟨hs.quiet, by simp [hs.atEof], by simp, rel_append ?_ (.cons (.inr rfl) .nil)⟩
    exact forall₂_map_left_iff.mpr (hs.tops.imp fun _ _ _ => .inl rfl)

theorem counted_foldl (ps : List (Option (MetaCacheEntry B))) :
    Counted ps (ps.foldl (Scan.take load) {}) := by
  induction ps using List.reverseRecOn with
  | nil => exact ⟨⟨rfl, rfl, rfl⟩, rfl, le_rfl, .nil⟩
  | append_singleton ps p ih =>
    rw [foldl_append]
    cases p with
    | none =>
      exact ⟨ih.quiet, by simp [Scan.take, Scan.miss, ih.atEof],
        by simpa [Scan.take, Scan.miss] using ih.agree_le,
        rel_append ih.tops (.cons (.inl rfl) .nil)⟩
    | some e => exact ih.see

variable (load) in
/-- The scan has kept the entries with the least name, and counts them as agreed when they match. -/
structure Seen (ps : List (Option (MetaCacheEntry B))) (s : Scan B) : Prop where
  tops : s.topEntries = ps.map (Option.filter (·.name == s.current.name))
  least : ∀ e, some e ∈ ps → s.current.name ≠ "" ∧ s.current.name ≤ e.name
  mem : s.current.name ≠ "" → some s.current ∈ ps
  agree_le : s.agree ≤ ps.length
  agreed : s.agree = ps.length → ∀ p ∈ ps, ∃ e, p = some e ∧
    (s.current = e ∨ (s.current.matchesOther load e true).2)

theorem seen_nil : Seen load [] ({} : Scan B) :=
  ⟨rfl, by simp, by simp, le_rfl, by simp⟩

section

variable (hs : Seen load ps s)
include hs

theorem Seen.miss : Seen load (ps ++ [none]) (s.miss none) := by
  have hle := hs.agree_le
  refine ⟨?_, ?_, ?_, ?_, ?_⟩
  · simp [Scan.miss, hs.tops]
  · intro e he
    exact hs.least e (by simpa using he)
  · intro hne
    exact mem_append_left _ (hs.mem hne)
  · simp only [Scan.miss, length_append]
    omega
  · intro heq
    simp [Scan.miss] at heq
    omega

/-- An entry that is not before the current one leaves it. -/
theorem Seen.keep (hcur : s.current.name ≠ "") (hle : s.current.name ≤ e.name) {agree : ℕ}
    (hagree : agree = s.agree ∨
      agree = s.agree + 1 ∧ (s.current.matchesOther load e true).2) :
    Seen load (ps ++ [some e])
      { s with
        topEntries := s.topEntries ++ [(some e).filter (·.name == s.current.name)]
        agree } := by
  have hlen := hs.agree_le
  refine ⟨by simp [hs.tops], ?_, ?_, ?_, ?_⟩
  · intro x hx
    rcases mem_append.mp hx with hx | hx
    · exact hs.least x hx
    · obtain rfl : x = e := by simpa using hx
      exact ⟨hcur, hle⟩
  · exact fun hne => mem_append_left _ (hs.mem hne)
  · have htotal : agree ≤ ps.length + 1 := by omega
    simpa using htotal
  · intro heq p hp
    simp only [length_append, length_singleton] at heq
    obtain ⟨rfl, hmatch⟩ := hagree.resolve_left (by omega)
    rcases mem_append.mp hp with hp | hp
    · exact hs.agreed (by omega) p hp
    · exact ⟨e, mem_singleton.mp hp, .inr hmatch⟩

/-- An entry before all the others becomes the current one. -/
theorem Seen.restart (he : e.name ≠ "")
    (hlt : ∀ x, some x ∈ ps → e.name < x.name) {agree : ℕ} (hle : agree ≤ ps.length + 1)
    (hagree : agree = ps.length + 1 → ps = []) :
    Seen load (ps ++ [some e])
      { s with topEntries := ps.map (fun _ => none) ++ [some e], current := e, agree } := by
  have hnone : ∀ p ∈ ps, none = p.filter (·.name == e.name) := by
    rintro (_ | x) hp
    · rfl
    · simp [Option.filter, (hlt x hp).ne']
  refine ⟨?_, ?_, by simp, by simpa using hle, ?_⟩
  · rw [map_append, map_congr_left hnone]
    simp [Option.filter]
  · intro x hx
    rcases mem_append.mp hx with hx | hx
    · exact ⟨he, (hlt x hx).le⟩
    · obtain rfl : x = e := by simpa using hx
      exact ⟨he, le_rfl⟩
  · intro heq p hp
    obtain rfl := hagree (by simpa using heq)
    exact ⟨e, by simpa using hp, .inl rfl⟩

theorem Seen.see (he : e.name ≠ "") : Seen load (ps ++ [some e]) (s.see load e) := by
  have hle := hs.agree_le
  unfold Scan.see
  split
  · next hcur =>
    -- nothing was read before this entry
    have hnone : ∀ p ∈ ps, p = none := by
      rintro (_ | x) hp
      · rfl
      · exact absurd hcur (hs.least x hp).1
    have htops : s.topEntries = ps.map fun _ => none := by
      rw [hs.tops]
      exact map_congr_left fun p hp => by rw [hnone p hp]; rfl
    rw [htops]
    refine hs.restart he (fun x hx => by simpa using hnone _ hx) (by omega) fun heq => ?_
    refine eq_nil_iff_forall_not_mem.mpr fun p hp => ?_
    obtain ⟨x, rfl, -⟩ := hs.agreed (by omega) p hp
    simpa using hnone _ hp
  · next hcur =>
    split
    · next hmatch =>
      have hname := MetaCacheEntry.name_eq_of_matchesOther _ _ _ hmatch
      simpa [Option.filter, hname] using hs.keep hcur hname.le (.inr ⟨rfl, hmatch⟩)
    · split
      · next hname => simpa [Option.filter, hname] using hs.keep hcur hname.ge (.inl rfl)
      · next hne =>
        split
        · next hgt => simpa [Option.filter, hne] using hs.keep hcur hgt.le (.inl rfl)
        · next hgt =>
          have hlt : e.name < s.current.name := lt_of_le_of_ne (not_lt.mp hgt) hne
          have htops : s.topEntries.map (fun _ => (none : Option (MetaCacheEntry B))) =
              ps.map fun _ => none := by
            rw [hs.tops, map_map]
            rfl
          rw [htops]
          refine hs.restart he (fun x hx => hlt.trans_le (hs.least x hx).2) (by omega) fun heq => ?_
          exact eq_nil_of_length_eq_zero (by omega)

end

theorem seen_heads (hnames : ∀ e, some e ∈ ps → e.name ≠ "") :
    Seen load ps (ps.foldl (Scan.take load) {}) := by
  induction ps using List.reverseRecOn with
  | nil => exact seen_nil
  | append_singleton ps p ih =>
    have ih := ih fun e he => hnames e (mem_append_left _ he)
    rw [foldl_append]
    cases p with
    | none => exact ih.miss
    | some e => exact ih.see (hnames e (by simp))

end

end Rustfs.ListPathRaw
