import Mathlib.Data.List.Basic
import Mathlib.Data.List.Perm.Basic
import Mathlib.Data.Nat.Notation
import Mathlib.Logic.Relation

/-! Runs of a system and conditions on their steps, several threads in any order, attempts, and programs
that go on until they stop. -/
namespace Rustfs.Machine

variable {σ ω : Type} (step : σ → σ ⊕ ω)

/-- The result of a run of at most so many steps. -/
def runFor : ℕ → σ → Option ω
  | 0, _ => none
  | n + 1, s => (step s).elim (runFor n) some

/-- The run from this state stops with this result. -/
inductive Ends : σ → ω → Prop where
  | stop {s : σ} {result : ω} (h : step s = .inr result) : Ends s result
  | more {s s' : σ} {result : ω} (h : step s = .inl s') (hrest : Ends s' result) : Ends s result

/-- Every state of the run meets the condition. -/
def Along (C : σ → Prop) (s : σ) : Prop :=
  ∀ s', Relation.ReflTransGen (fun a b => step a = .inl b) s s' → C s'

/-- The run stops within so many steps, and each of its states passes the test. -/
def alongFor (test : σ → Bool) : ℕ → σ → Bool
  | 0, _ => false
  | n + 1, s => test s && (step s).elim (alongFor test n) fun _ => true

variable {step} {C D I : σ → Prop} {s s' : σ} {result result' : ω}

theorem ends_of_runFor {n : ℕ} (h : runFor step n s = some result) : Ends step s result := by
  induction n generalizing s with
  | zero => exact nomatch h
  | succ n ih =>
    unfold runFor at h
    cases hs : step s with
    | inl s' =>
      rw [hs] at h
      exact .more hs (ih h)
    | inr r =>
      rw [hs] at h
      cases h
      exact .stop hs

theorem Ends.unique (h : Ends step s result) (h' : Ends step s result') : result = result' := by
  induction h with
  | stop hs =>
    cases h' with
    | stop hs' => exact Sum.inr.inj (hs.symm.trans hs')
    | more hs' _ => exact absurd (hs.symm.trans hs') (by simp)
  | more hs _ ih =>
    cases h' with
    | stop hs' => exact absurd (hs.symm.trans hs') (by simp)
    | more hs' hrest =>
      cases hs.symm.trans hs'
      exact ih hrest

/-- What every step keeps holds in the state that stops. -/
theorem Ends.last (h : Ends step s result) (hstep : ∀ s s', I s → step s = .inl s' → I s')
    (hs : I s) : ∃ s', I s' ∧ step s' = .inr result := by
  induction h with
  | stop h => exact ⟨_, hs, h⟩
  | more h _ ih => exact ih (hstep _ _ hs h)

theorem Along.here (h : Along step C s) : C s := h s .refl

theorem Along.next (h : Along step C s) (hs : step s = .inl s') : Along step C s' :=
  fun _ hrun => h _ (.head hs hrun)

theorem Along.mono (h : Along step C s) (hCD : ∀ s, C s → D s) : Along step D s :=
  fun s' hrun => hCD s' (h s' hrun)

theorem along_of_alongFor [DecidablePred C] {n : ℕ}
    (h : alongFor step (fun s => decide (C s)) n s = true) : Along step C s := by
  induction n generalizing s with
  | zero => exact nomatch h
  | succ n ih =>
    obtain ⟨hhere, hnext⟩ := Bool.and_eq_true_iff.mp h
    intro t hrun
    rcases hrun.cases_head with rfl | ⟨u, hu, hrest⟩
    · exact of_decide_eq_true hhere
    · rw [hu] at hnext
      exact ih hnext t hrest

end Rustfs.Machine

namespace Rustfs.Retry

/-- How one attempt ends: with a result, with none but for good, or in another attempt. -/
inductive Outcome (β : Type) where
  | done (b : β)
  | stop
  | again

variable {α β : Type}

def Outcome.isAgain : Outcome β → Bool
  | .again => true
  | _ => false

/-- The first attempt that does not ask for another one decides. -/
def run (attempt : α → Outcome β) : List α → Outcome β
  | [] => .again
  | a :: rest =>
    match attempt a with
    | .again => run attempt rest
    | settled => settled

/-- The attempt that decides. -/
def settling (attempt : α → Outcome β) (tape : List α) : Option α :=
  tape.find? fun a => !(attempt a).isAgain

/-- The attempts that are made. -/
def tried (attempt : α → Outcome β) : List α → List α
  | [] => []
  | a :: rest =>
    match attempt a with
    | .again => a :: tried attempt rest
    | _ => [a]

variable {attempt : α → Outcome β} {tape : List α} {a : α} {b : β}

theorem run_eq_elim : run attempt tape = (settling attempt tape).elim .again attempt := by
  induction tape with
  | nil => rfl
  | cons x tape ih =>
    cases hx : attempt x with
    | again => simpa [run, settling, Outcome.isAgain, hx] using ih
    | done b | stop => simp [run, settling, Outcome.isAgain, hx]

theorem run_eq_done_iff :
    run attempt tape = .done b ↔ ∃ a ∈ settling attempt tape, attempt a = .done b := by
  rw [run_eq_elim]
  cases settling attempt tape <;> simp

end Rustfs.Retry

namespace Rustfs.Interleave

variable {α : Type}

/-- The steps in the order of `schedule`, which names the thread that moves next; what it leaves
over runs thread by thread. -/
def merge : List ℕ → List (List α) → List α
  | [], threads => threads.flatten
  | i :: schedule, threads =>
    match threads[i]? with
    | some (a :: rest) => a :: merge schedule (threads.set i rest)
    | _ => merge schedule threads

variable {t : List (List α)} {i : ℕ} {a : α} {rest : List α}

theorem flatten_set_perm (h : t[i]? = some (a :: rest)) :
    (a :: (t.set i rest).flatten).Perm t.flatten := by
  induction t generalizing i with
  | nil => cases h
  | cons thread t ih =>
    cases i with
    | zero =>
      obtain rfl : thread = a :: rest := by simpa using h
      exact .refl _
    | succ i =>
      simp only [List.set_cons_succ, List.flatten_cons]
      exact List.perm_middle.symm.trans ((ih (by simpa using h)).append_left thread)

/-- Every schedule runs each step of each thread once. -/
theorem merge_perm (ss : List ℕ) (ts : List (List α)) : (merge ss ts).Perm ts.flatten := by
  induction ss generalizing ts with
  | nil => exact .refl _
  | cons i ss ih =>
    unfold merge
    split
    · rename_i a rest h
      exact ((ih _).cons a).trans (flatten_set_perm h)
    · exact ih ts

end Rustfs.Interleave

namespace Rustfs.Run

variable {σ ε : Type} (step : σ → ε → σ)

/-- Every step of the run meets the condition in the state it starts from. -/
def Along (C : σ → ε → Prop) : σ → List ε → Prop
  | _, [] => True
  | s, e :: steps => C s e ∧ Along C (step s e) steps

variable {step} {C : σ → ε → Prop} {I : σ → Prop} {s : σ} {e : ε} {ss steps' : List ε}

theorem along_append :
    Along step C s (ss ++ steps') ↔ Along step C s ss ∧ Along step C (ss.foldl step s) steps' := by
  induction ss generalizing s with
  | nil => simp [Along]
  | cons e ss ih => simp [Along, ih, and_assoc]

/-- A condition on the steps alone may be added. -/
theorem Along.and {D : ε → Prop} (h : Along step C s ss) (hD : ∀ e ∈ ss, D e) :
    Along step (fun s e => C s e ∧ D e) s ss := by
  induction ss generalizing s with
  | nil => trivial
  | cons e ss ih =>
    exact ⟨⟨h.1, hD e (by simp)⟩, ih h.2 fun e' he' => hD e' (by simp [he'])⟩

/-- What the steps of a run keep holds at its end. -/
theorem invariant (hstep : ∀ s e, I s → C s e → I (step s e)) (h : Along step C s ss)
    (hs : I s) : I (ss.foldl step s) := by
  induction ss generalizing s with
  | nil => exact hs
  | cons e ss ih => exact ih h.2 (hstep s e hs h.1)

/-- What every step keeps holds at the end of every run. -/
theorem invariant_of_step (hstep : ∀ s e, I s → I (step s e)) (hs : I s) : I (ss.foldl step s) :=
  List.foldlRecOn ss step hs fun s hs e _ => hstep s e hs

end Rustfs.Run
