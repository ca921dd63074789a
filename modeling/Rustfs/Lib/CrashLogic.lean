import Mathlib.Data.List.Basic

/-! Programs that ask their surroundings, which may stop them at any question, and rules for what
they leave behind when they return and when they are stopped. -/
namespace Rustfs.Crash

variable {σ ε E α β : Type}

/-- A program returns, or its script ends or does not fit while it waits for an answer. -/
inductive Outcome (σ ε ρ : Type) where
  | returned (r : ρ) (s : σ) (rest : List ε)
  | stopped (s : σ) (rest : List ε)

/-- A program over a state, run against the script of the answers it gets. -/
def Prog (σ ε E α : Type) : Type := σ → List ε → Outcome σ ε (Except E α)

namespace Prog

/-- Sequencing, with the early return of an error. -/
def andThen (m : Prog σ ε E α) (k : α → Prog σ ε E β) : Prog σ ε E β := fun s script =>
  match m s script with
  | .returned (.ok a) s' rest => k a s' rest
  | .returned (.error e) s' rest => .returned (.error e) s' rest
  | .stopped s' rest => .stopped s' rest

instance : Monad (Prog σ ε E) where
  pure a := fun s script => .returned (.ok a) s script
  bind := andThen

/-- Waits for the next answer. -/
def ask (f : σ → ε → Option (Except E α × σ)) : Prog σ ε E α
  | s, [] => .stopped s []
  | s, e :: rest =>
    match f s e with
    | some (r, s') => .returned r s' rest
    | none => .stopped s (e :: rest)

def fail (e : E) : Prog σ ε E α := fun s script => .returned (.error e) s script

def read : Prog σ ε E σ := fun s script => .returned (.ok s) s script

def update (f : σ → σ) : Prog σ ε E Unit := fun s script => .returned (.ok ()) (f s) script

/-- Hands the result over as a value, an error included. -/
def attempt (m : Prog σ ε E α) : Prog σ ε E (Except E α) := fun s script =>
  match m s script with
  | .returned r s' rest => .returned (.ok r) s' rest
  | .stopped s' rest => .stopped s' rest

/-- The body again and again, until it says so, at most `fuel` times. -/
def repeatAtMost (body : β → Prog σ ε E (β ⊕ α)) : ℕ → β → Prog σ ε E α
  | 0, _ => fun s script => .stopped s script
  | fuel + 1, b => do
    match ← body b with
    | .inl b' => repeatAtMost body fuel b'
    | .inr a => pure a

/-- A loop whose body asks at least once: the script bounds the number of its turns. -/
def loop (body : β → Prog σ ε E (β ⊕ α)) (b : β) : Prog σ ε E α := fun s script =>
  repeatAtMost body (script.length + 1) b s script

end Prog

open Prog

variable {G : ε → Prop} {C : σ → Prop} {m : Prog σ ε E α} {s : σ}
  {Q Q' : Except E α → σ → Prop}

/-- The program has ended in `Q` or was stopped in `C`, and the answers left over are in `G`. -/
def Outcome.Ends (G : ε → Prop) (C : σ → Prop) (Q : Except E α → σ → Prop) :
    Outcome σ ε (Except E α) → Prop
  | .returned r s rest => Q r s ∧ ∀ e ∈ rest, G e
  | .stopped s rest => C s ∧ ∀ e ∈ rest, G e

/-- From `s`, with answers in `G` only, the program ends in `Q` or is stopped in `C`. -/
def Meets (G : ε → Prop) (C : σ → Prop) (m : Prog σ ε E α) (s : σ)
    (Q : Except E α → σ → Prop) : Prop :=
  ∀ script, (∀ e ∈ script, G e) → (m s script).Ends G C Q

/-- What follows a result: the rest of the program after a value, the end after an error. -/
def After (G : ε → Prop) (C : σ → Prop) (k : α → Prog σ ε E β) (Q : Except E β → σ → Prop) :
    Except E α → σ → Prop
  | .ok a, s => Meets G C (k a) s Q
  | .error e, s => Q (.error e) s

theorem Meets.mono (h : Meets G C m s Q) (hq : ∀ r s', Q r s' → Q' r s') : Meets G C m s Q' := by
  intro script hscript
  have hm := h script hscript
  cases hout : m s script with
  | returned r s' rest =>
    rw [hout] at hm
    exact ⟨hq r s' hm.1, hm.2⟩
  | stopped s' rest =>
    rw [hout] at hm
    exact hm

theorem meets_pure {a : α} (h : Q (.ok a) s) : Meets G C (pure a) s Q :=
  fun _ hscript => ⟨h, hscript⟩

theorem meets_fail {e : E} (h : Q (.error e) s) : Meets G C (fail e) s Q :=
  fun _ hscript => ⟨h, hscript⟩

theorem meets_read {Q : Except E σ → σ → Prop} (h : Q (.ok s) s) : Meets G C read s Q :=
  fun _ hscript => ⟨h, hscript⟩

theorem meets_update {f : σ → σ} {Q : Except E Unit → σ → Prop} (h : Q (.ok ()) (f s)) :
    Meets G C (update f) s Q :=
  fun _ hscript => ⟨h, hscript⟩

theorem meets_bind {k : α → Prog σ ε E β} {Q : Except E β → σ → Prop}
    (h : Meets G C m s (After G C k Q)) : Meets G C (m >>= k) s Q := by
  intro script hscript
  have hm := h script hscript
  change (andThen m k s script).Ends G C Q
  unfold andThen
  cases hout : m s script with
  | returned r s' rest =>
    rw [hout] at hm
    cases r with
    | ok a => exact hm.1 rest hm.2
    | error e => exact hm
  | stopped s' rest =>
    rw [hout] at hm
    exact hm

theorem meets_attempt {Q : Except E (Except E α) → σ → Prop}
    (h : Meets G C m s fun r s' => Q (.ok r) s') : Meets G C (attempt m) s Q := by
  intro script hscript
  have hm := h script hscript
  unfold attempt
  cases hout : m s script with
  | returned r s' rest | stopped s' rest =>
    rw [hout] at hm
    exact hm

/-- At a question the program may be stopped, or gets an answer in `G` that fits. -/
theorem meets_ask {f : σ → ε → Option (Except E α × σ)} (hC : C s)
    (h : ∀ e, G e → ∀ r s', f s e = some (r, s') → Q r s') : Meets G C (ask f) s Q := by
  intro script hscript
  cases script with
  | nil => exact ⟨hC, hscript⟩
  | cons e rest =>
    have he : G e := hscript e (by simp)
    cases hf : f s e with
    | none =>
      simp only [ask, hf]
      exact ⟨hC, hscript⟩
    | some p =>
      simp only [ask, hf]
      exact ⟨h e he p.1 p.2 hf, fun e' he' => hscript e' (by simp [he'])⟩

/-- What the body of a loop keeps, and what it ends with, is what the loop ends with. -/
theorem meets_loop {body : β → Prog σ ε E (β ⊕ α)} {b : β} (I : β → σ → Prop)
    (hC : ∀ b s, I b s → C s)
    (hbody : ∀ b s, I b s → Meets G C (body b) s fun r s' =>
      match r with
      | .ok (.inl b') => I b' s'
      | .ok (.inr a) => Q (.ok a) s'
      | .error e => Q (.error e) s') (h : I b s) : Meets G C (loop body b) s Q := by
  have hrepeat : ∀ fuel b s, I b s → Meets G C (repeatAtMost body fuel b) s Q := by
    intro fuel
    induction fuel with
    | zero => exact fun b s hb script hscript => ⟨hC b s hb, hscript⟩
    | succ fuel ih =>
      intro b s hb
      refine meets_bind ((hbody b s hb).mono ?_)
      intro r s' hr
      match r with
      | .ok (.inl b') => exact ih b' s' hr
      | .ok (.inr a) => exact meets_pure (C := C) hr
      | .error e => exact hr
  exact fun script => hrepeat (script.length + 1) b s h script

/-- Whatever it is answered, the program leaves the state in `J`, also where it is stopped. -/
def Keeps (J : σ → Prop) (m : Prog σ ε E α) : Prop :=
  ∀ s, J s → Meets (fun _ => True) J m s fun _ => J

section

variable {J : σ → Prop}

theorem keeps_pure (a : α) : Keeps J (pure a : Prog σ ε E α) := fun _ hs => meets_pure hs

theorem keeps_fail (e : E) : Keeps J (fail e : Prog σ ε E α) := fun _ hs => meets_fail hs

theorem keeps_read : Keeps J (read : Prog σ ε E σ) := fun _ hs => meets_read hs

theorem keeps_update {f : σ → σ} (h : ∀ s, J s → J (f s)) : Keeps J (update f : Prog σ ε E Unit) :=
  fun s hs => meets_update (h s hs)

theorem keeps_ask {f : σ → ε → Option (Except E α × σ)}
    (h : ∀ s e r s', J s → f s e = some (r, s') → J s') : Keeps J (ask f) :=
  fun s hs => meets_ask hs fun e _ r s' hf => h s e r s' hs hf

theorem keeps_bind {k : α → Prog σ ε E β} (hm : Keeps J m) (hk : ∀ a, Keeps J (k a)) :
    Keeps J (m >>= k) := by
  intro s hs
  refine meets_bind ((hm s hs).mono ?_)
  intro r s' hs'
  cases r with
  | ok a => exact hk a s' hs'
  | error e => exact hs'

theorem keeps_attempt (hm : Keeps J m) : Keeps J (attempt m) :=
  fun s hs => meets_attempt (hm s hs)

theorem keeps_loop {body : β → Prog σ ε E (β ⊕ α)} (hbody : ∀ b, Keeps J (body b)) (b : β) :
    Keeps J (loop body b) := by
  intro s hs
  refine meets_loop (fun _ => J) (fun _ _ h => h) ?_ hs
  intro b s hs
  refine (hbody b s hs).mono ?_
  intro r s' hs'
  match r with
  | .ok (.inl _) => exact hs'
  | .ok (.inr _) => exact hs'
  | .error _ => exact hs'

end

end Rustfs.Crash
