import Mathlib.Data.List.Forall2
import Rustfs.Lib.Stream

/-! Systematic erasure codes: `k` originals, `m` recovery shards, any `k` of them restore. -/
namespace Rustfs.ErasureCode

open List

/-- The call of a codec that failed, with its text. -/
inductive CodecError where
  | create (text : String)
  | addOriginal (i : ℕ) (text : String)
  | addRecovery (i : ℕ) (text : String)
  | run (text : String)
  deriving Repr, DecidableEq

/-- An encoder and a decoder for `k` originals and `m` recovery shards of `len` bytes each. The
decoder gets the shards received, with their indices, and returns originals it restored. -/
structure Codec where
  encode : (k m len : ℕ) → List Bytes → Except CodecError (List Bytes)
  decode : (k m len : ℕ) → List (ℕ × Bytes) → List (ℕ × Bytes) →
    Except CodecError (List (ℕ × Bytes))

variable (shards : List (Option Bytes))

/-- The shards that are there, each with its index. -/
def received : List (ℕ × Bytes) :=
  shards.zipIdx.filterMap fun p => p.1.map fun b => (p.2, b)

/-- How many shards are there. -/
def available : ℕ := (shards.filter Option.isSome).length

/-- The shards that are there are those of the codeword `full`. -/
def View (full : List Bytes) : Prop :=
  List.Forall₂ (fun s f => s = none ∨ s = some f) shards full

/-- `os` are `k` originals of `len` bytes, and `rs` what the encoder made of them. -/
structure Codeword (c : Codec) (k m len : ℕ) (os rs : List Bytes) : Prop where
  originals : os.length = k
  original_length : ∀ o ∈ os, o.length = len
  encoded : c.encode k m len os = .ok rs

/-- The documented contract of a codec, for shards of an even number of bytes. -/
structure Codec.Lawful (c : Codec) (k m : ℕ) : Prop where
  encode_ok : 0 < m → ∀ (len : ℕ) (os : List Bytes), 0 < len → 2 ∣ len → os.length = k →
    (∀ o ∈ os, o.length = len) →
    ∃ rs, c.encode k m len os = .ok rs ∧ rs.length = m ∧ ∀ r ∈ rs, r.length = len
  restores : 0 < m → ∀ (len : ℕ) (os rs : List Bytes) (shards : List (Option Bytes)), 0 < len →
    2 ∣ len → Codeword c k m len os rs → View shards (os ++ rs) → k ≤ available shards →
    ∃ restored, c.decode k m len (received (shards.take k)) (received (shards.drop k)) =
      .ok restored ∧
      ∀ (i : ℕ) (o : Bytes), shards[i]? = some none → os[i]? = some o →
        restored.find? (fun p => p.1 == i) = some (i, o)

variable {shards : List (Option Bytes)} {fs : List Bytes} {i : ℕ} {b : Bytes}

theorem View.length_eq (h : View shards fs) : shards.length = fs.length :=
  List.Forall₂.length_eq h

theorem view_iff : View shards fs ↔ shards.length = fs.length ∧
    ∀ (i : ℕ) (b : Bytes), shards[i]? = some (some b) → fs[i]? = some b := by
  rw [View, forall₂_iff_get]
  refine and_congr_right fun hlen => ⟨fun h i b hi => ?_, fun h i hi hi' => ?_⟩
  · obtain ⟨hlt, heq⟩ := List.getElem?_eq_some_iff.1 hi
    have hfull := h i hlt (hlen ▸ hlt)
    simp only [get_eq_getElem, heq, reduceCtorEq, Option.some.injEq, false_or] at hfull
    exact List.getElem?_eq_some_iff.2 ⟨_, hfull.symm⟩
  · cases hs : shards[i] with
    | none => exact .inl hs
    | some b =>
      have hb := h i b (List.getElem?_eq_some_iff.2 ⟨hi, hs⟩)
      obtain ⟨_, heq⟩ := List.getElem?_eq_some_iff.1 hb
      exact .inr (hs.trans (congrArg some heq.symm))

theorem View.get (h : View shards fs) : shards[i]? = some (some b) → fs[i]? = some b :=
  (view_iff.1 h).2 i b

/-- Where every shard is there, the view is the codeword itself. -/
theorem View.eq_map_some (h : View shards fs) (ha : fs.length ≤ available shards) :
    shards = fs.map some := by
  have hall : ∀ s ∈ shards, s.isSome = true := by
    have hle : shards.length ≤ (shards.filter Option.isSome).length := h.length_eq ▸ ha
    have heq := filter_sublist.eq_of_length_le hle
    intro s hs
    rw [← heq] at hs
    exact (mem_filter.1 hs).2
  induction h with
  | nil => rfl
  | @cons s f shards fs hsf hrest ih =>
    rcases hsf with rfl | rfl
    · simpa using hall none mem_cons_self
    · rw [map_cons, ih ?_ fun s hs => hall s (mem_cons_of_mem _ hs)]
      simpa [available] using ha

/-- The length of the first shard that is there is that of all of them. -/
theorem View.findSome_length {len : ℕ} (h : View shards fs) (hlen : ∀ f ∈ fs, f.length = len)
    (ha : 0 < available shards) : shards.findSome? (Option.map List.length) = some len := by
  induction h with
  | nil => simp [available] at ha
  | @cons s f shards fs hsf hrest ih =>
    rcases hsf with rfl | rfl
    · rw [findSome?_cons]
      exact ih (fun f hf => hlen f (mem_cons_of_mem _ hf)) (by simpa [available] using ha)
    · simp [hlen f mem_cons_self]

theorem mem_received : (i, b) ∈ received shards ↔ shards[i]? = some (some b) := by
  simp only [received, mem_filterMap, Option.map_eq_some_iff, Prod.mk.injEq]
  constructor
  · rintro ⟨⟨s, j⟩, hmem, b', hs, rfl, rfl⟩
    rw [mem_zipIdx_iff_getElem?] at hmem
    rw [hmem, hs]
  · intro h
    exact ⟨(some b, i), mem_zipIdx_iff_getElem?.2 h, b, rfl, rfl, rfl⟩

theorem received_eq_nil : received shards = [] ↔ available shards = 0 := by
  rw [available, length_eq_zero_iff, filter_eq_nil_iff, eq_nil_iff_forall_not_mem]
  constructor
  · intro h s hs
    obtain ⟨i, hi⟩ := mem_iff_getElem?.1 hs
    cases s with
    | none => simp
    | some b => exact (h (i, b) (mem_received.2 hi)).elim
  · rintro h ⟨i, b⟩ hmem
    exact h (some b) (mem_of_getElem? (mem_received.1 hmem)) rfl

/-- One original, and recovery shards that are copies of it. -/
def repetition : Codec where
  encode _ m _ os :=
    match os with
    | [o] => .ok (List.replicate m o)
    | _ => .error (.run "unsupported shard count")
  decode _ _ _ os rs :=
    match os, rs with
    | _ :: _, _ => .ok []
    | [], r :: _ => .ok [(0, r.2)]
    | [], [] => .error (.run "not enough shards")

theorem repetition_lawful (m : ℕ) : repetition.Lawful 1 m := by
  constructor
  · intro _ len os _ _ hos hlen
    obtain ⟨o, rfl⟩ := length_eq_one_iff.1 hos
    refine ⟨List.replicate m o, rfl, length_replicate, fun r hr => ?_⟩
    rw [eq_of_mem_replicate hr]
    exact hlen o mem_cons_self
  · intro _ len os rs shards _ _ hcw hview hav
    obtain ⟨o, rfl⟩ := length_eq_one_iff.1 hcw.originals
    obtain rfl : List.replicate m o = rs := Except.ok.inj hcw.encoded
    cases shards with
    | nil => simp [View] at hview
    | cons s shards =>
      obtain ⟨hs, hrest⟩ : (s = none ∨ s = some o) ∧ View shards (List.replicate m o) := by
        cases hview with
        | cons hs hrest => exact ⟨hs, hrest⟩
      rcases hs with rfl | rfl
      · have hne : received shards ≠ [] := fun h => by
          have h0 := received_eq_nil.1 h
          simp only [available] at hav h0
          simp [h0] at hav
        obtain ⟨⟨j, r⟩, tail, hr⟩ := exists_cons_of_ne_nil hne
        have hmem : (j, r) ∈ received shards := hr ▸ mem_cons_self
        obtain rfl : r = o :=
          eq_of_mem_replicate (mem_of_getElem? (hrest.get (mem_received.1 hmem)))
        refine ⟨[(0, r)], ?_, fun i o' hi ho => ?_⟩
        · rw [drop_one, tail_cons, hr]
          rfl
        · cases i with
          | zero => simpa using ho
          | succ i => simp at ho
      · refine ⟨[], rfl, fun i o' hi ho => ?_⟩
        cases i with
        | zero => simp at hi
        | succ i => simp at ho

def xorBytes (a b : Bytes) : Bytes := List.zipWith (· ^^^ ·) a b

theorem xorBytes_cancel {a b : Bytes} (h : a.length = b.length) : xorBytes b (xorBytes a b) = a := by
  induction a generalizing b with
  | nil => simp [xorBytes]
  | cons x a ih =>
    cases b with
    | nil => simp at h
    | cons y b =>
      have hxy : y ^^^ (x ^^^ y) = x := by
        rw [UInt8.xor_comm x y, ← UInt8.xor_assoc, UInt8.xor_self, UInt8.zero_xor]
      simpa [xorBytes, hxy] using ih (by simpa using h)

theorem xorBytes_comm (a b : Bytes) : xorBytes a b = xorBytes b a := by
  rw [xorBytes, xorBytes, zipWith_comm]
  congr 1
  funext x y
  exact UInt8.xor_comm y x

/-- Two originals and their exclusive or. -/
def xorParity : Codec where
  encode _ _ _ os :=
    match os with
    | [a, b] => .ok [xorBytes a b]
    | _ => .error (.run "unsupported shard count")
  decode _ _ _ os rs :=
    match os, rs with
    | [_, _], _ => .ok []
    | [(i, o)], [r] => .ok [(1 - i, xorBytes o r.2)]
    | _, _ => .error (.run "not enough shards")

theorem xorParity_lawful : xorParity.Lawful 2 1 := by
  constructor
  · intro _ len os _ _ hos hlen
    obtain ⟨a, b, rfl⟩ := length_eq_two.1 hos
    refine ⟨[xorBytes a b], rfl, rfl, fun r hr => ?_⟩
    obtain rfl := mem_singleton.1 hr
    have ha := hlen a (by simp)
    have hb := hlen b (by simp)
    simp [xorBytes, ha, hb]
  · intro _ len os rs shards _ _ hcw hview hav
    obtain ⟨a, b, rfl⟩ := length_eq_two.1 hcw.originals
    obtain rfl : [xorBytes a b] = rs := Except.ok.inj hcw.encoded
    have hab : a.length = b.length :=
      (hcw.original_length a (by simp)).trans (hcw.original_length b (by simp)).symm
    obtain ⟨x, y, z, rfl⟩ := length_eq_three.1 hview.length_eq
    obtain ⟨hx, hy, hz⟩ : (x = none ∨ x = some a) ∧ (y = none ∨ y = some b) ∧
        (z = none ∨ z = some (xorBytes a b)) := by simpa [View] using hview
    rcases hx with rfl | rfl <;> rcases hy with rfl | rfl <;> rcases hz with rfl | rfl <;>
      first | (exfalso; simp [available] at hav; done) | skip
    -- one original is missing and the others are there, or both originals are there
    · refine ⟨[(0, xorBytes b (xorBytes a b))], rfl, fun i o hi ho => ?_⟩
      rw [xorBytes_cancel hab]
      match i with
      | 0 => simpa using ho
      | 1 => simp at hi
      | 2 => simp at ho
    · refine ⟨[(1, xorBytes a (xorBytes a b))], rfl, fun i o hi ho => ?_⟩
      rw [xorBytes_comm a b, xorBytes_cancel hab.symm]
      match i with
      | 0 => simp at hi
      | 1 => simpa using ho
      | 2 => simp at ho
    all_goals
      refine ⟨[], rfl, fun i o hi ho => ?_⟩
      match i with
      | 0 => simp at hi
      | 1 => simp at hi
      | 2 => simp at ho

end Rustfs.ErasureCode
