import Mathlib.Data.Fintype.Card
import Rustfs.Lock.Distributed

/-! Two quorums have a client in common, which grants mutual exclusion by itself; and what is left
at the clients of an attempt that failed. -/
namespace Rustfs.DistributedLock

open List Function Prod

open FastLock (LockMode)

variable {Resource Task : Type} {n q : ℕ} [DecidableEq Task]
variable {s u : System Resource Task n} {t : Task} {i : Fin n} {id : LockId Task n}

namespace Phase

def entries : Phase Task n → List (LockId Task n × Fin n)
  | .live entries | .freeing entries | .rolling entries => entries
  | .awaiting entry entries => entry :: entries
  | _ => []

/-- The attempt has sent no release. -/
def unreleased : Phase Task n → Bool
  | .collecting | .live _ => true
  | _ => false

end Phase

omit [DecidableEq Task] in
theorem mem_individualLocks :
    (id, i) ∈ individualLocks s t ↔ s.answer (t, i) = some (.success (some id)) := by
  simp only [individualLocks, mem_filterMap, mem_finRange, true_and,
    Option.map_eq_some_iff, Option.bind_eq_some_iff, mk.injEq]
  constructor
  · rintro ⟨j, id', ⟨a, ha, hid⟩, rfl, rfl⟩
    cases a with
    | success info =>
      cases hid
      exact ha
    | error | failure => exact nomatch hid
  · intro h
    exact ⟨i, id, ⟨_, h, rfl⟩, rfl, rfl⟩

omit [DecidableEq Task] in
/-- Every client is asked once. -/
theorem nodup_individualLocks (s : System Resource Task n) (t : Task) :
    ((individualLocks s t).map snd).Nodup := by
  unfold individualLocks
  rw [map_filterMap]
  refine (nodup_finRange n).filterMap ?_
  intro i j k hi hj
  simp only [Option.map_map, Option.mem_def, Option.map_eq_some_iff, comp_apply] at hi hj
  obtain ⟨_, _, rfl⟩ := hi
  obtain ⟨_, _, rfl⟩ := hj
  rfl

/-! What a step can do to each part of the system. -/

section

variable (h : Step q s u)
include h

theorem request_step (t : Task) :
    u.request t = s.request t ∨
    s.phase t = .idle ∧ s.request t = none ∧ u.decision = s.decision := by
  cases h with
  | @call t' req hphase hrequest =>
    by_cases ht : t = t'
    · subst t'
      exact .inr ⟨hphase, hrequest, rfl⟩
    · exact .inl (update_of_ne ht _ _)
  | _ => exact .inl rfl

theorem decision_step (t : Task) (i : Fin n) :
    u.decision (t, i) = s.decision (t, i) ∨
    s.decision (t, i) = .waiting ∧ (s.request t ≠ none ∨ s.phase t ≠ .idle) := by
  cases h with
  | @granted t' req i' hrequest hwaiting =>
    by_cases hx : (t, i) = (t', i')
    · cases hx
      exact .inr ⟨hwaiting, .inl (by simp [hrequest])⟩
    · exact .inl (update_of_ne hx _ _)
  | @refused t' i' hphase _ hwaiting =>
    by_cases hx : (t, i) = (t', i')
    · cases hx
      exact .inr ⟨hwaiting, .inr (by simp [hphase])⟩
    · exact .inl (update_of_ne hx _ _)
  | _ => exact .inl rfl

/-- A lock that has just been granted is stored. -/
theorem granted_step (hu : u.decision (t, i) = .granted) :
    s.decision (t, i) = .granted ∨ u.storage (i, .granted t i) = s.request t := by
  cases h with
  | @granted t' req i' hrequest hwaiting =>
    by_cases hx : (t, i) = (t', i')
    · cases hx
      exact .inr ((update_self _ _ _).trans hrequest.symm)
    · exact .inl ((update_of_ne hx _ _).symm.trans hu)
  | @refused t' i' hphase _ hwaiting =>
    by_cases hx : (t, i) = (t', i')
    · cases hx
      simp [System.tell] at hu
    · exact .inl ((update_of_ne hx _ _).symm.trans hu)
  | _ => exact .inl hu

theorem decision_granted_step (hgranted : s.decision (t, i) = .granted) :
    u.decision (t, i) = .granted := by
  rcases decision_step h t i with heq | ⟨hwaiting, _⟩
  · exact heq.trans hgranted
  · rw [hgranted] at hwaiting
    exact nomatch hwaiting

theorem storage_step (x : Fin n × LockId Task n) :
    u.storage x = s.storage x ∨
    (∃ t i req, x = (i, .granted t i) ∧ s.decision (t, i) = .waiting ∧ s.request t = some req ∧
      Admits s i req ∧ u.storage x = some req) ∨ x ∈ s.unlocking ∧ u.storage x = none := by
  cases h with
  | @granted t req i hrequest hwaiting hadmits =>
    by_cases hx : x = (i, .granted t i)
    · subst x
      exact .inr (.inl ⟨t, i, req, rfl, hwaiting, hrequest, hadmits, update_self _ _ _⟩)
    · exact .inl (update_of_ne hx _ _)
  | @carriedOut y hy =>
    by_cases hx : x = y
    · subst x
      exact .inr (.inr ⟨hy, update_self _ _ _⟩)
    · exact .inl (update_of_ne hx _ _)
  | _ => exact .inl rfl

end

theorem phase_setPhase (s : System Resource Task n) (t' : Task) (p : Phase Task n) (t : Task) :
    (s.setPhase t' p).phase t = if t = t' then p else s.phase t :=
  update_apply s.phase t' p t

variable {entry : LockId Task n × Fin n} {x : Fin n × LockId Task n}

section

variable (h : Step q s u)
include h

/-- Only a call makes an attempt that has not released anything. -/
theorem unreleased_step (hu : (u.phase t).unreleased = true) : (s.phase t).unreleased = true ∨
    s.phase t = .idle ∧ s.request t = none ∧ u.decision = s.decision := by
  cases h <;> try exact .inl hu
  case call t' req hphase hrequest =>
    rw [phase_setPhase] at hu
    split at hu
    · subst t'
      exact .inr ⟨hphase, hrequest, rfl⟩
    · exact .inl hu
  all_goals
    rw [phase_setPhase] at hu
    split at hu
    · simp_all [Phase.unreleased]
    · exact .inl hu

theorem entries_step (hu : entry ∈ (u.phase t).entries) :
    entry ∈ (s.phase t).entries ∨ entry ∈ individualLocks s t := by
  cases h <;> try exact .inl hu
  case freed t' entries sent hphase _ =>
    rw [phase_setPhase] at hu
    split at hu
    · subst t'
      rw [hphase]
      exact .inl (mem_of_mem_erase hu)
    · exact .inl hu
  all_goals
    rw [phase_setPhase] at hu
    split at hu
    · simp_all [Phase.entries]
    · exact .inl hu

/-- An attempt leaves its first phase by a call. -/
theorem idle_step (hidle : s.phase t = .idle) (hu : u.request t = none) : u.phase t = .idle := by
  cases h <;> try exact hidle
  case call t' req _ _ =>
    have ht : t ≠ t' := by
      rintro rfl
      simp [System.setPhase] at hu
    rw [phase_setPhase, if_neg ht]
    exact hidle
  all_goals
    rw [phase_setPhase]
    split
    · simp_all
    · exact hidle

/-- A release is sent for an entry of an attempt that is past keeping it. -/
theorem unlocking_step (hu : x ∈ u.unlocking) : x ∈ s.unlocking ∨
    ∃ t, (x.2, x.1) ∈ (s.phase t).entries ∧ (u.phase t).unreleased = false := by
  cases h with
  | @sent t entry entries hphase | @freed t entries entry hphase =>
    rcases hu with rfl | hu
    · refine .inr ⟨t, ?_, ?_⟩
      · simp_all [Phase.entries]
      · rw [phase_setPhase, if_pos rfl]
        rfl
    · exact .inl hu
  | carriedOut => exact .inl hu.1
  | _ => exact .inl hu

theorem answer_step {info : Option (LockId Task n)} (hu : u.answer (t, i) = some (.success info)) :
    s.answer (t, i) = some (.success info) ∨ s.decision (t, i) = .granted ∧
      ∀ id, info = some id → id = .granted t i ∨ id = .requested t := by
  cases h with
  | @succeeded t' i' info' hphase hnone hgranted hinfo =>
    by_cases hx : (t, i) = (t', i')
    · cases hx
      simp only [System.tell, update_self, Option.some.injEq, Answer.success.injEq] at hu
      subst info'
      exact .inr ⟨hgranted, hinfo⟩
    · exact .inl ((update_of_ne hx _ _).symm.trans hu)
  | @refused t' i' | @errored t' i' =>
    by_cases hx : (t, i) = (t', i')
    · cases hx
      simp [System.tell] at hu
    · exact .inl ((update_of_ne hx _ _).symm.trans hu)
  | _ => exact .inl hu

theorem answer_mono {a : Answer Task n} (ha : s.answer (t, i) = some a) :
    u.answer (t, i) = some a := by
  have hother : ∀ {t' i'} (b : Option (Answer Task n)), s.answer (t', i') = none →
      update s.answer (t', i') b (t, i) = some a := by
    intro t' i' b hnone
    rw [update_of_ne]
    · exact ha
    · intro hx
      rw [hx, hnone] at ha
      exact nomatch ha
  cases h with
  | refused i' _ hnone | errored i' _ hnone | succeeded i' info _ hnone => exact hother _ hnone
  | _ => exact ha

end

/-! What is known of the requests, the answers and the releases. -/

structure Known (s : System Resource Task n) : Prop where
  uncalled : ∀ {t}, s.request t = none → s.phase t = .idle ∧ ∀ i, s.decision (t, i) = .waiting
  answer : ∀ {t i info}, s.answer (t, i) = some (.success info) →
    s.decision (t, i) = .granted ∧ ∀ id, info = some id → id = .granted t i ∨ id = .requested t
  entry : ∀ {t id i}, (id, i) ∈ (s.phase t).entries →
    s.answer (t, i) = some (.success (some id))
  sent : ∀ {t i}, (i, .granted t i) ∈ s.unlocking →
    s.decision (t, i) = .granted ∧ (s.phase t).unreleased = false

theorem known_step (h : Step q s u) (hs : Known s) : Known u := by
  constructor
  case uncalled =>
    intro t hu
    have hnone : s.request t = none := by
      rcases request_step h t with heq | ⟨_, hnone, _⟩
      · exact heq.symm.trans hu
      · exact hnone
    obtain ⟨hidle, hwaiting⟩ := hs.uncalled hnone
    refine ⟨idle_step h hidle hu, fun i => ?_⟩
    rcases decision_step h t i with heq | ⟨_, hrequest | hphase⟩
    · exact heq.trans (hwaiting i)
    · exact absurd hnone hrequest
    · exact absurd hidle hphase
  case answer =>
    intro t i info hu
    rcases answer_step h hu with hold | ⟨hgranted, hinfo⟩
    · exact ⟨decision_granted_step h (hs.answer hold).1, (hs.answer hold).2⟩
    · exact ⟨decision_granted_step h hgranted, hinfo⟩
  case entry =>
    intro t id i hu
    rcases entries_step h hu with hold | hnew
    · exact answer_mono h (hs.entry hold)
    · exact answer_mono h (mem_individualLocks.mp hnew)
  case sent =>
    intro t i hu
    rcases unlocking_step h hu with hold | ⟨t', hmem, hphase⟩
    · obtain ⟨hgranted, hphase⟩ := hs.sent hold
      refine ⟨decision_granted_step h hgranted, ?_⟩
      rw [← Bool.not_eq_true]
      intro hopen
      rcases unreleased_step h hopen with hopen | ⟨_, hnone, _⟩
      · rw [hphase] at hopen
        exact nomatch hopen
      · rw [(hs.uncalled hnone).2 i] at hgranted
        exact nomatch hgranted
    · obtain ⟨hgranted, hid⟩ := hs.answer (hs.entry hmem)
      rcases hid _ rfl with heq | heq
      · cases heq
        exact ⟨decision_granted_step h hgranted, hphase⟩
      · exact nomatch heq

omit [DecidableEq Task] in
theorem known_initial : Known (initial : System Resource Task n) := by
  refine ⟨fun _ => ⟨rfl, fun _ => rfl⟩, nofun, nofun, ?_⟩
  intro t i h
  exact h.elim

/-! Mutual exclusion. -/

/-- No client stores two locks for one resource unless both are shared. -/
def ClientsExclude (s : System Resource Task n) : Prop :=
  ∀ {i id id' held held'}, s.storage (i, id) = some held → s.storage (i, id') = some held' →
    id ≠ id' → held.resource = held'.resource → held.mode = .shared ∧ held'.mode = .shared

theorem clientsExclude_step (h : Step q s u) (hs : ClientsExclude s) : ClientsExclude u := by
  cases h with
  | @granted t req i hrequest hwaiting hadmits =>
    have hstored : ∀ {j id held},
        update s.storage (i, .granted t i) (some req) (j, id) = some held →
        (j, id) = (i, .granted t i) ∧ held = req ∨ s.storage (j, id) = some held := by
      intro j id held h
      by_cases hx : (j, id) = (i, .granted t i)
      · rw [hx, update_self] at h
        exact .inl ⟨hx, (Option.some.inj h).symm⟩
      · rw [update_of_ne hx] at h
        exact .inr h
    intro j id id' held held' h1 h2 hne hres
    rcases hstored h1 with ⟨hx, rfl⟩ | hold <;> rcases hstored h2 with ⟨hx', rfl⟩ | hold'
    · exact absurd ((mk.inj hx).2.trans (mk.inj hx').2.symm) hne
    · obtain ⟨rfl, _⟩ := mk.inj hx
      obtain ⟨hshared', hshared⟩ := hadmits id' held' hold' hres.symm
      exact ⟨hshared, hshared'⟩
    · obtain ⟨rfl, _⟩ := mk.inj hx'
      exact hadmits id held hold hres
    · exact hs hold hold' hne hres
  | @carriedOut x hx =>
    have hstored : ∀ {y held}, update s.storage x none y = some held →
        s.storage y = some held := by
      intro y held h
      by_cases hy : y = x
      · rw [hy, update_self] at h
        exact nomatch h
      · rw [update_of_ne hy] at h
        exact h
    intro j id id' held held' h1 h2
    exact hs (hstored h1) (hstored h2)
  | _ => exact hs

/-- An attempt that has not released anything has every lock that was granted to it. -/
def Stored (s : System Resource Task n) : Prop :=
  ∀ {t i req}, (s.phase t).unreleased = true → s.decision (t, i) = .granted →
    s.request t = some req → s.storage (i, .granted t i) = some req

theorem stored_step (h : Step q s u) (hk : Known s) (hs : Stored s) : Stored u := by
  intro t i req hphase hgranted hrequest
  rcases unreleased_step h hphase with hopen | ⟨_, hnone, hsame⟩
  · have hrequest' : s.request t = some req := by
      rcases request_step h t with heq | ⟨hidle, _⟩
      · exact heq.symm.trans hrequest
      · rw [hidle] at hopen
        exact nomatch hopen
    rcases granted_step h hgranted with hold | hnew
    · rcases storage_step h (i, .granted t i) with heq | ⟨t', i', _, hx, hwaiting, _⟩ | hgone
      · exact heq.trans (hs hopen hold hrequest')
      · cases hx
        rw [hold] at hwaiting
        exact nomatch hwaiting
      · have hclosed := (hk.sent hgone.1).2
        rw [hopen] at hclosed
        exact nomatch hclosed
    · exact hnew.trans hrequest'
  · rw [hsame, (hk.uncalled hnone).2 i] at hgranted
    exact nomatch hgranted

/-- The entries of a guard are a quorum of different clients. -/
def Quorate (quorum : ℕ) (s : System Resource Task n) : Prop :=
  ∀ {t entries}, s.phase t = .live entries →
    quorum ≤ entries.length ∧ (entries.map Prod.snd).Nodup

theorem quorate_step (h : Step q s u) (hs : Quorate q s) : Quorate q u := by
  intro t entries hu
  cases h <;> try exact hs hu
  case acquired t' _ _ hquorum =>
    rw [phase_setPhase] at hu
    split at hu
    · cases hu
      subst t'
      exact ⟨hquorum, nodup_individualLocks s t⟩
    · exact hs hu
  all_goals
    rw [phase_setPhase] at hu
    split at hu
    · exact nomatch hu
    · exact hs hu

omit [DecidableEq Task] in
/-- Two quorums of clients have one in common. -/
theorem exists_common {l l' : List (LockId Task n × Fin n)} (hl : (l.map snd).Nodup)
    (hl' : (l'.map snd).Nodup) (hlt : n < l.length + l'.length) :
    ∃ i id id', (id, i) ∈ l ∧ (id', i) ∈ l' := by
  have hcard : ∀ {k : List (LockId Task n × Fin n)}, (k.map snd).Nodup →
      (k.map snd).toFinset.card = k.length := by
    intro k hk
    rw [toFinset_card_of_nodup hk, length_map]
  have hinter : ((l.map snd).toFinset ∩ (l'.map snd).toFinset).Nonempty := by
    refine Finset.inter_nonempty_of_card_lt_card_add_card (Finset.subset_univ _)
      (Finset.subset_univ _) ?_
    rw [hcard hl, hcard hl', Finset.card_univ, Fintype.card_fin]
    exact hlt
  obtain ⟨i, hi⟩ := hinter
  simp only [Finset.mem_inter, mem_toFinset, mem_map] at hi
  obtain ⟨⟨⟨id, j⟩, hmem, rfl⟩, ⟨id', j'⟩, hmem', rfl⟩ := hi
  exact ⟨j', id, id', hmem, hmem'⟩

/-! What an attempt that fails leaves behind. -/

def Phase.failing : Phase Task n → Bool
  | .rolling _ | .awaiting _ _ | .failed => true
  | _ => false

/-- A release that the rollback waits for is on its way, or the lock is gone. -/
def Awaited (s : System Resource Task n) : Prop :=
  ∀ {t id i entries}, s.phase t = .awaiting (id, i) entries →
    (i, id) ∈ s.unlocking ∨ s.storage (i, id) = none

/-- A lock that was reported under its id is still to be released, or its release failed, or it is
gone. -/
def Undone (s : System Resource Task n) : Prop :=
  ∀ {t i}, (s.phase t).failing = true → s.answer (t, i) = some (.success (some (.granted t i))) →
    (.granted t i, i) ∈ (s.phase t).entries ∨ s.rollback (t, i) = some (.error ()) ∨
    s.storage (i, .granted t i) = none

variable {es : List (LockId Task n × Fin n)}

section

variable (h : Step q s u)
include h

/-- A lock that has been granted and is gone does not come back. -/
theorem gone_step (hgranted : s.decision (t, i) = .granted)
    (hgone : s.storage (i, .granted t i) = none) : u.storage (i, .granted t i) = none := by
  rcases storage_step h (i, .granted t i) with heq | ⟨t', i', _, hx, hwaiting, _⟩ | ⟨_, hnone⟩
  · exact heq.trans hgone
  · cases hx
    rw [hgranted] at hwaiting
    exact nomatch hwaiting
  · exact hnone

/-- The same for every entry: the id of a request is never stored. -/
theorem gone_entry_step (hk : Known s) (hmem : (id, i) ∈ (s.phase t).entries)
    (hgone : s.storage (i, id) = none) : u.storage (i, id) = none := by
  obtain ⟨hgranted, hid⟩ := hk.answer (hk.entry hmem)
  rcases hid id rfl with rfl | rfl
  · exact gone_step h hgranted hgone
  · rcases storage_step h (i, .requested t) with heq | ⟨_, _, _, hx, _⟩ | ⟨_, hnone⟩
    · exact heq.trans hgone
    · exact nomatch hx
    · exact hnone

/-- A release stays on its way until the client has carried it out. -/
theorem unlocking_mono (hx : x ∈ s.unlocking) : x ∈ u.unlocking ∨ u.storage x = none := by
  cases h with
  | sent | freed => exact .inl (Set.mem_insert_of_mem _ hx)
  | @carriedOut y =>
    by_cases hy : x = y
    · subst y
      exact .inr (update_self _ _ _)
    · exact .inl ⟨hx, hy⟩
  | _ => exact .inl hx

theorem awaiting_step (hu : u.phase t = .awaiting entry es) :
    s.phase t = .awaiting entry es ∨ (entry.2, entry.1) ∈ u.unlocking := by
  cases h <;> try exact .inl hu
  case sent t' entry' entries' hphase =>
    rw [phase_setPhase] at hu
    split at hu
    · cases hu
      exact .inr (Set.mem_insert _ _)
    · exact .inl hu
  all_goals
    rw [phase_setPhase] at hu
    split at hu
    · exact nomatch hu
    · exact .inl hu

theorem awaited_step (hk : Known s) (hs : Awaited s) : Awaited u := by
  intro t id i es hu
  rcases awaiting_step h hu with hold | hsent
  · rcases hs hold with hsent | hgone
    · exact unlocking_mono h hsent
    · refine .inr (gone_entry_step h hk (t := t) ?_ hgone)
      rw [hold]
      exact mem_cons_self
  · exact .inl hsent

/-- The answers are all in when an attempt fails. -/
theorem answer_failing (hu : (u.phase t).failing = true) : u.answer (t, i) = s.answer (t, i) := by
  have hother : ∀ {t' i'} (b : Option (Answer Task n)), s.phase t' = .collecting →
      (s.phase t).failing = true → update s.answer (t', i') b (t, i) = s.answer (t, i) := by
    intro t' i' b hphase hfailing
    rw [update_of_ne]
    intro hx
    obtain ⟨rfl, _⟩ := mk.inj hx
    rw [hphase] at hfailing
    exact nomatch hfailing
  cases h with
  | refused i' hphase | errored i' hphase | succeeded i' info hphase => exact hother _ hphase hu
  | _ => rfl

theorem undone_step (hk : Known s) (ha : Awaited s) (hs : Undone s) : Undone u := by
  intro t i hfailing hanswer
  rw [answer_failing h hfailing] at hanswer
  have hgranted := (hk.answer hanswer).1
  -- what was the case before the step, if the attempt was failing then
  have hbefore : (s.phase t).failing = true → (.granted t i, i) ∈ (s.phase t).entries ∨
      s.rollback (t, i) = some (.error ()) ∨ u.storage (i, .granted t i) = none := by
    intro hf
    rcases hs hf hanswer with hmem | herror | hgone
    · exact .inl hmem
    · exact .inr (.inl herror)
    · exact .inr (.inr (gone_step h hgranted hgone))
  cases h <;> try exact hbefore hfailing
  case short t' _ _ _ =>
    rw [phase_setPhase] at hfailing ⊢
    split_ifs at hfailing with ht
    · subst t'
      rw [if_pos rfl]
      exact .inl (mem_individualLocks.mpr hanswer)
    · rw [if_neg ht]
      exact hbefore hfailing
  case sent t' _ _ hphase | rolled t' hphase =>
    rw [phase_setPhase] at hfailing ⊢
    split_ifs at hfailing with ht
    · subst t'
      rw [hphase] at hbefore
      rw [if_pos rfl]
      exact hbefore rfl
    · rw [if_neg ht]
      exact hbefore hfailing
  case answered t' entry es r hphase hr =>
    rw [phase_setPhase] at hfailing ⊢
    split_ifs at hfailing with ht
    · subst t'
      rw [hphase] at hbefore
      rw [if_pos rfl]
      obtain ⟨id, j⟩ := entry
      by_cases hj : j = i
      · -- the release that has been answered is that of this lock
        subst j
        have hentry : s.answer (t, i) = some (.success (some id)) := by
          refine hk.entry ?_
          rw [hphase]
          exact mem_cons_self
        rw [hanswer] at hentry
        cases hentry
        cases r with
        | error => exact .inr (.inl (update_self _ _ _))
        | ok b => exact .inr (.inr ((ha hphase).resolve_left (hr b rfl)))
      · rcases hbefore rfl with hmem | herror | hgone
        · rcases mem_cons.mp hmem with heq | hmem
          · exact absurd (mk.inj heq).2.symm hj
          · exact .inl hmem
        · refine .inr (.inl ((update_of_ne ?_ _ _).trans herror))
          intro heq
          exact hj (mk.inj heq).2.symm
        · exact .inr (.inr hgone)
    · rw [if_neg ht]
      rcases hbefore hfailing with hmem | herror | hgone
      · exact .inl hmem
      · refine .inr (.inl ((update_of_ne ?_ _ _).trans herror))
        intro heq
        exact ht (mk.inj heq).1
      · exact .inr (.inr hgone)
  all_goals
    rw [phase_setPhase] at hfailing ⊢
    split_ifs at hfailing with ht
    · exact nomatch hfailing
    · rw [if_neg ht]
      exact hbefore hfailing

end

structure Invariant (quorum : ℕ) (s : System Resource Task n) : Prop where
  known : Known s
  exclude : ClientsExclude s
  stored : Stored s
  quorate : Quorate quorum s
  awaited : Awaited s
  undone : Undone s

theorem invariant_reachable (h : Reachable q s) : Invariant q s := by
  induction h with
  | refl =>
    exact ⟨known_initial, nofun, nofun, nofun, nofun, nofun⟩
  | tail _ hstep ih =>
    exact ⟨known_step hstep ih.known, clientsExclude_step hstep ih.exclude,
      stored_step hstep ih.known ih.stored, quorate_step hstep ih.quorate,
      awaited_step hstep ih.known ih.awaited, undone_step hstep ih.known ih.awaited ih.undone⟩

omit [DecidableEq Task] in
/-- A guard has the locks of its entries. -/
theorem Invariant.stored_live (hs : Invariant q s) {req : LockRequest Resource}
    (hreq : s.request t = some req) (hphase : s.phase t = .live es) (hmem : (id, i) ∈ es) :
    s.storage (i, .granted t i) = some req := by
  have hentry : (id, i) ∈ (s.phase t).entries := by
    rw [hphase]
    exact hmem
  refine hs.stored ?_ (hs.known.answer (hs.known.entry hentry)).1 hreq
  rw [hphase]
  rfl

omit [DecidableEq Task] in
/-- Two guards for one resource have a client in common that stores a lock for each. -/
theorem Invariant.mutuallyExclusive (hs : Invariant q s) (hquorum : n < 2 * q) :
    MutuallyExclusive s := by
  rintro t t' req req' hne ⟨hreq, es, hphase⟩ ⟨hreq', entries', hphase'⟩ hres
  obtain ⟨hlen, hnodup⟩ := hs.quorate hphase
  obtain ⟨hlen', hnodup'⟩ := hs.quorate hphase'
  obtain ⟨i, id, id', hmem, hmem'⟩ := exists_common hnodup hnodup' (by omega)
  refine hs.exclude (hs.stored_live hreq hphase hmem) (hs.stored_live hreq' hphase' hmem') ?_ hres
  intro heq
  cases heq
  exact hne rfl

/-- The client's grant reached the attempt under the lock's id, and no release of it failed. -/
def Clean (s : System Resource Task n) (t : Task) (i : Fin n) : Prop :=
  s.answer (t, i) = some (.success (some (.granted t i))) ∧
  s.rollback (t, i) ≠ some (.error ())

/-- Guards exclude each other, and a failed attempt leaves a lock only at a client whose grant did
not reach it under its id or whose release failed. -/
theorem quorum_lock_safe (h : Reachable (withClients n) s) :
    MutuallyExclusive s ∧ ∀ t i, s.phase t = .failed → Keeps s t i → ¬ Clean s t i := by
  have hs := invariant_reachable h
  refine ⟨hs.mutuallyExclusive (lt_two_mul_withClients n), ?_⟩
  rintro t i hfailed hkeeps ⟨hanswer, hrollback⟩
  have hfailing : (s.phase t).failing = true := by
    rw [hfailed]
    rfl
  rcases hs.undone hfailing hanswer with hmem | herror | hgone
  · rw [hfailed] at hmem
    exact nomatch hmem
  · exact hrollback herror
  · exact hkeeps hgone

/-- Of three clients two grant the lock to one attempt and the third to another, which gives it
back and fails. -/
theorem exists_contested : ∃ s : System Unit Bool 3, Reachable (withClients 3) s ∧
    Live s true ⟨(), .exclusive⟩ ∧ s.phase false = .failed := by
  have hown : ∀ (t : Bool) (i : Fin 3) (id : LockId Bool 3), some (.granted t i) = some id →
      id = .granted t i ∨ id = .requested t := fun t i id h => .inl (Option.some.inj h).symm
  have hrun : Reachable (withClients 3) (_ : System Unit Bool 3) :=
    .head (.call (t := true) ⟨(), .exclusive⟩ rfl rfl) <|
    .head (.call (t := false) ⟨(), .exclusive⟩ rfl rfl) <|
    .head (.granted (t := true) 0 rfl rfl nofun) <|
    .head (.granted (t := true) 1 rfl rfl (by simp [Admits, initial, System.setPhase])) <|
    .head (.granted (t := false) 2 rfl rfl (by simp [Admits, initial, System.setPhase])) <|
    .head (.succeeded (t := true) 0 (some (.granted true 0)) rfl rfl rfl (hown _ _)) <|
    .head (.succeeded (t := true) 1 (some (.granted true 1)) rfl rfl rfl (hown _ _)) <|
    .head (.refused (t := true) 2 rfl rfl rfl) <|
    .head (.acquired (t := true) rfl (by decide) (by decide)) <|
    .head (.succeeded (t := false) 2 (some (.granted false 2)) rfl rfl rfl (hown _ _)) <|
    .head (.refused (t := false) 0 rfl rfl rfl) <|
    .head (.refused (t := false) 1 rfl rfl rfl) <|
    .head (.short (t := false) rfl (by decide) (by decide)) <|
    .head (.sent (t := false) rfl) <|
    .head (.carriedOut (2, .granted false 2) (.inl rfl)) <|
    .head (.answered (t := false) (.ok true) rfl fun _ _ h => h.2 rfl) <|
    .head (.rolled (t := false) rfl) .refl
  exact ⟨_, hrun, ⟨rfl, _, rfl⟩, rfl⟩

theorem contested_safe : ∃ s : System Unit Bool 3,
    Live s true ⟨(), .exclusive⟩ ∧ s.phase false = .failed ∧ MutuallyExclusive s ∧
    ∀ t i, s.phase t = .failed → Keeps s t i → ¬ Clean s t i := by
  obtain ⟨s, hrun, hlive, hfailed⟩ := exists_contested
  exact ⟨s, hlive, hfailed, quorum_lock_safe hrun⟩

/-- Of two clients one grants the lock and the other cannot be reached; the release that is to
undo the grant cannot be delivered. -/
theorem failed_attempt_keeps_lock : ∃ s : System Unit Unit 2, Reachable (withClients 2) s ∧
    s.phase () = .failed ∧ Keeps s () 0 := by
  have hrun : Reachable (withClients 2) (_ : System Unit Unit 2) :=
    .head (.call (t := ()) ⟨(), .exclusive⟩ rfl rfl) <|
    .head (.granted (t := ()) 0 rfl rfl nofun) <|
    .head (.succeeded (t := ()) 0 (some (.granted () 0)) rfl rfl rfl
      fun id h => .inl (Option.some.inj h).symm) <|
    .head (.errored (t := ()) 1 rfl rfl) <|
    .head (.short (t := ()) rfl (by decide) (by decide)) <|
    .head (.sent (t := ()) rfl) <|
    .head (.answered (t := ()) (.error ()) rfl nofun) <|
    .head (.rolled (t := ()) rfl) .refl
  exact ⟨_, hrun, rfl, by simp [Keeps, initial, System.setPhase, System.send, System.tell]⟩

/-- Every guard that is given out has its lock stored at a majority of the clients. -/
def Backed (s : System Resource Task n) : Prop :=
  ∀ t req, Live s t req → ∃ clients : List (Fin n), clients.Nodup ∧ n < 2 * clients.length ∧
    ∀ i ∈ clients, s.storage (i, .granted t i) = some req

/-- No failure, rollback or release of another attempt takes from a guard what it stands on. -/
theorem guards_backed (h : Reachable (withClients n) s) : Backed s := by
  have hs := invariant_reachable h
  have hmajority := lt_two_mul_withClients n
  rintro t req ⟨hreq, es, hphase⟩
  obtain ⟨hlen, hnodup⟩ := hs.quorate hphase
  refine ⟨es.map snd, hnodup, by rw [length_map]; omega, fun i hi => ?_⟩
  obtain ⟨⟨id, i⟩, hmem, rfl⟩ := mem_map.mp hi
  exact hs.stored_live hreq hphase hmem

theorem contested_backed : ∃ s : System Unit Bool 3,
    Live s true ⟨(), .exclusive⟩ ∧ s.phase false = .failed ∧ Backed s := by
  obtain ⟨s, hrun, hlive, hfailed⟩ := exists_contested
  exact ⟨s, hlive, hfailed, guards_backed hrun⟩

end Rustfs.DistributedLock
