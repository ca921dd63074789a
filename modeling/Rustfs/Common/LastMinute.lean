import Mathlib.Data.Nat.Notation
import Mathlib.Logic.Function.Iterate
import Mathlib.Tactic.SplitIfs

/-! The latencies of the last minute: a ring with a slot for each second. -/
namespace Rustfs.LastMinute

open Function

@[ext] structure AccElem where
  total : UInt64 := 0
  size : UInt64 := 0
  n : UInt64 := 0

/-- The sums wrap around, as `+` does in a release build. -/
def AccElem.merge (self b : AccElem) : AccElem :=
  ⟨self.total + b.total, self.size + b.size, self.n + b.n⟩

structure LastMinuteLatency where
  totals : Fin 60 → AccElem := fun _ => {}
  lastSec : ℕ := 0

def slot (sec : ℕ) : Fin 60 := Fin.ofNat 60 sec

namespace LastMinuteLatency

variable (self o : LastMinuteLatency)

/-- A turn of the loop of `forward_to`. -/
def tick : LastMinuteLatency :=
  ⟨update self.totals (slot (self.lastSec + 1)) {}, self.lastSec + 1⟩

def forwardTo (t : ℕ) : LastMinuteLatency :=
  if t ≤ self.lastSec then self
  else if 60 ≤ t - self.lastSec then { lastSec := t }
  else tick^[t - self.lastSec] self

def addAll (sec : ℕ) (a : AccElem) : LastMinuteLatency :=
  let w := self.forwardTo sec
  ⟨update w.totals (slot sec) ((w.totals (slot sec)).merge a), sec⟩

/-- The window itself after the call, and the result. When `self` is ahead, a copy of `o` is brought
forward, but it is `o` that is added. -/
def merge : LastMinuteLatency × LastMinuteLatency :=
  let w := if o.lastSec < self.lastSec then self else self.forwardTo o.lastSec
  (w, ⟨fun i => (w.totals i).merge (o.totals i), w.lastSec⟩)

end LastMinuteLatency

open LastMinuteLatency

inductive Call where
  | addAll (sec : ℕ) (a : AccElem)
  | forwardTo (t : ℕ)

def Call.sec : Call → ℕ
  | addAll sec _ => sec
  | forwardTo t => t

def LastMinuteLatency.apply (w : LastMinuteLatency) : Call → LastMinuteLatency
  | .addAll sec a => w.addAll sec a
  | .forwardTo t => w.forwardTo t

/-- The samples of each second, merged. -/
def record (f : ℕ → AccElem) : Call → ℕ → AccElem
  | .addAll sec a => update f sec ((f sec).merge a)
  | .forwardTo _ => f

/-- Calls with seconds that do not decrease. -/
structure History where
  calls : List Call
  ordered : calls.Pairwise (·.sec ≤ ·.sec)

def History.window (h : History) : LastMinuteLatency := h.calls.foldl apply {}

def History.samples (h : History) : ℕ → AccElem := h.calls.foldl record fun _ => {}

/-- No sample is later than the window, and each slot has those of its second among the sixty that
end there. -/
structure Holds (w : LastMinuteLatency) (f : ℕ → AccElem) : Prop where
  past : ∀ s, w.lastSec < s → f s = {}
  slots : ∀ s, s ≤ max w.lastSec 59 → max w.lastSec 59 < s + 60 → w.totals (slot s) = f s

variable {w o : LastMinuteLatency} {f g : ℕ → AccElem} {s s' sec t : ℕ} {a : AccElem}

theorem slot_eq_iff : slot s = slot s' ↔ s % 60 = s' % 60 := by
  simp [slot, Fin.ext_iff]

theorem Holds.tick (h : Holds w f) : Holds w.tick f := by
  refine ⟨fun s hs => h.past s (Nat.lt_of_succ_lt hs), fun s hs hs' => ?_⟩
  dsimp only [LastMinuteLatency.tick] at hs hs' ⊢
  by_cases he : slot s = slot (w.lastSec + 1)
  · rw [he, update_self, h.past s]
    have := slot_eq_iff.mp he
    omega
  · rw [update_of_ne he]
    have : s ≠ w.lastSec + 1 := fun heq => he (heq ▸ rfl)
    exact h.slots s (by omega) (by omega)

theorem Holds.ticks (h : Holds w f) (n : ℕ) :
    Holds (LastMinuteLatency.tick^[n] w) f ∧ (LastMinuteLatency.tick^[n] w).lastSec = w.lastSec + n := by
  induction n with
  | zero => exact ⟨h, rfl⟩
  | succ n ih =>
    rw [iterate_succ_apply']
    exact ⟨ih.1.tick, congrArg (· + 1) ih.2⟩

theorem Holds.forwardTo (h : Holds w f) (t : ℕ) :
    Holds (w.forwardTo t) f ∧ (w.forwardTo t).lastSec = max w.lastSec t := by
  unfold LastMinuteLatency.forwardTo
  split_ifs with hle hfar
  · exact ⟨h, by omega⟩
  · refine ⟨⟨fun s hs => h.past s ?_, fun s hs hs' => (h.past s ?_).symm⟩, ?_⟩
    all_goals dsimp only at *; omega
  · obtain ⟨hw, hlast⟩ := h.ticks (t - w.lastSec)
    exact ⟨hw, by omega⟩

theorem Holds.addAll (h : Holds w f) (hsec : w.lastSec ≤ sec) (a : AccElem) :
    Holds (w.addAll sec a) (update f sec ((f sec).merge a)) := by
  obtain ⟨⟨hpast, hslots⟩, hlast⟩ := h.forwardTo sec
  rw [Nat.max_eq_right hsec] at hlast
  rw [hlast] at hpast hslots
  refine ⟨fun s hs => ?_, fun s hs hs' => ?_⟩
  · have hs : sec < s := hs
    rw [update_of_ne (Nat.ne_of_gt hs), hpast s hs]
  · dsimp only [LastMinuteLatency.addAll] at hs hs' ⊢
    by_cases he : s = sec
    · rw [he, update_self, update_self, hslots sec (by omega) (by omega)]
    · have hne : slot s ≠ slot sec := by
        rw [ne_eq, slot_eq_iff]
        omega
      rw [update_of_ne hne, update_of_ne he, hslots s hs hs']

theorem Holds.apply (h : Holds w f) {c : Call} (hc : w.lastSec ≤ c.sec) :
    Holds (w.apply c) (record f c) ∧ (w.apply c).lastSec = c.sec := by
  cases c with
  | addAll sec a => exact ⟨h.addAll hc a, rfl⟩
  | forwardTo t => exact (h.forwardTo t).imp_right fun hlast => hlast.trans (Nat.max_eq_right hc)

theorem Holds.run {cs : List Call} (h : Holds w f) (hw : ∀ c ∈ cs, w.lastSec ≤ c.sec)
    (hcs : cs.Pairwise (·.sec ≤ ·.sec)) :
    Holds (cs.foldl LastMinuteLatency.apply w) (cs.foldl record f) := by
  induction cs generalizing w f with
  | nil => exact h
  | cons c cs ih =>
    obtain ⟨hlater, hcs⟩ := List.pairwise_cons.mp hcs
    obtain ⟨h', hlast⟩ := h.apply (hw c List.mem_cons_self)
    exact ih h' (fun d hd => hlast ▸ hlater d hd) hcs

theorem History.holds (h : History) : Holds h.window h.samples :=
  Holds.run ⟨fun _ _ => rfl, fun _ _ _ => rfl⟩ (fun _ _ => Nat.zero_le _) h.ordered

theorem AccElem.merge_left_cancel {a b c : AccElem} (h : a.merge b = a.merge c) : b = c := by
  simp_all [AccElem.ext_iff, merge]

/-- Every slot stands for one of the sixty seconds. -/
theorem exists_slot (s : ℕ) (ht : 59 ≤ t) : ∃ s', slot s' = slot s ∧ s' ≤ t ∧ t < s' + 60 :=
  ⟨t - (t + 60 - s % 60) % 60, slot_eq_iff.mpr (by omega), by omega, by omega⟩

/-- The slots of a window that is not ahead are added to those of the other. -/
theorem merged_iff (hw : Holds w f) (ho : Holds o g) (hle : o.lastSec ≤ w.lastSec) :
    Holds ⟨fun i => (w.totals i).merge (o.totals i), w.lastSec⟩ (fun s => (f s).merge (g s)) ↔
      ∀ s, o.lastSec < s + 60 → s + 60 ≤ w.lastSec → g s = {} := by
  constructor
  · intro hm s hs hs'
    by_cases hlate : o.lastSec < s
    · exact ho.past s hlate
    obtain ⟨s', hslot, hs₁, hs₂⟩ := exists_slot s (t := w.lastSec) (by omega)
    have hsum := hm.slots s' (by dsimp only; omega) (by dsimp only; omega)
    dsimp only at hsum
    rw [hw.slots s' (by omega) (by omega), hslot, ho.slots s (by omega) (by omega),
      ho.past s' (by have := slot_eq_iff.mp hslot; omega)] at hsum
    exact AccElem.merge_left_cancel hsum
  · intro h
    refine ⟨fun s hs => ?_, fun s hs hs' => ?_⟩
    · dsimp only at hs ⊢
      rw [hw.past s hs, ho.past s (Nat.lt_of_le_of_lt hle hs)]
      rfl
    dsimp only at hs hs' ⊢
    rw [hw.slots s hs hs']
    by_cases hin : s ≤ max o.lastSec 59
    · rw [ho.slots s hin (by omega)]
    obtain ⟨s', hslot, hs₁, hs₂⟩ := exists_slot s (Nat.le_max_right o.lastSec 59)
    rw [← hslot, ho.slots s' hs₁ hs₂, ho.past s (by omega)]
    by_cases hlate : o.lastSec < s'
    · rw [ho.past s' hlate]
    · rw [h s' (by omega) (by have := slot_eq_iff.mp hslot; omega)]

/-- A window that is behind is merged right as long as none of its samples is over by then. -/
theorem History.merge_iff (h k : History) :
    Holds h.window h.samples ∧
      (h.window.merge k.window).2.lastSec = max h.window.lastSec k.window.lastSec ∧
      Holds (h.window.merge k.window).2 (fun s => (h.samples s).merge (k.samples s)) ↔
    ∀ s, k.window.lastSec < s + 60 → s + 60 ≤ h.window.lastSec → k.samples s = {} := by
  have hself : Holds (h.window.merge k.window).1 h.samples ∧
      (h.window.merge k.window).1.lastSec = max h.window.lastSec k.window.lastSec := by
    unfold LastMinuteLatency.merge
    split_ifs with hlt
    · exact ⟨h.holds, (Nat.max_eq_left (Nat.le_of_lt hlt)).symm⟩
    · exact h.holds.forwardTo _
  obtain ⟨hw, hlast⟩ := hself
  have hmerged := merged_iff hw k.holds (by omega)
  constructor
  · rintro ⟨-, -, hm⟩ s hs hs'
    exact hmerged.mp hm s hs (by omega)
  · intro hk
    exact ⟨h.holds, hlast, hmerged.mpr fun s hs hs' => hk s hs (by omega)⟩

/-- The sample at second 1 is over at second 61, and still counted. -/
theorem merge_keeps_old : ∃ h k : History,
    ¬Holds (h.window.merge k.window).2 (fun s => (h.samples s).merge (k.samples s)) :=
  ⟨⟨[.forwardTo 61], by simp⟩, ⟨[.addAll 1 { n := 1 }], by simp⟩, fun h =>
    absurd (congrArg AccElem.n (h.slots 61 (by decide) (by decide))) (by decide)⟩

end Rustfs.LastMinute
