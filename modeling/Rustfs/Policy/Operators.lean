import Rustfs.Policy.Soundness

/-! What an operator says about several keys, against its opposite, and if a key is missing. -/
namespace Rustfs.Iam

open Trial List Condition InnerFunc StringOp

def InnerFunc.single {T : Type} (e : FuncKeyValue T) : InnerFunc T := ⟨[e], cons_ne_nil _ _⟩

/-- The function of each of its keys alone. -/
def InnerFunc.parts {T : Type} (f : InnerFunc T) : List (InnerFunc T) := f.entries.map single

namespace Condition

def parts : Condition → List Condition
  | string op s => s.parts.map (string op)
  | binaryEquals s => s.parts.map binaryEquals
  | addr op s => s.parts.map (addr op)
  | bool op s => s.parts.map (bool op)
  | numeric op s => s.parts.map (numeric op)
  | date op s => s.parts.map (date op)

/-- What a negated operator negates. -/
def positive : Condition → Option Condition
  | string .notEquals s => some (string .equals s)
  | string .notEqualsIgnoreCase s => some (string .equalsIgnoreCase s)
  | string .notLike s => some (string .like s)
  | addr .notIpAddress s => some (addr .ipAddress s)
  | numeric .notEquals s => some (numeric .equals s)
  | date .notEquals s => some (date .equals s)
  | _ => none

/-- What an operator stands for that leaves a missing key out. -/
def base : Condition → Option Condition
  | numeric .greaterThanIfExists s => some (numeric .greaterThan s)
  | _ => none

/-- The request has a value for every key. -/
def Present (values : Conditions) : Condition → Prop
  | string _ s => ∀ e ∈ s.entries, (firstValue values e.key).isSome
  | binaryEquals s => ∀ e ∈ s.entries, (firstValue values e.key).isSome
  | addr _ s => ∀ e ∈ s.entries, (firstValue values e.key).isSome
  | bool _ s => ∀ e ∈ s.entries, (firstValue values e.key).isSome
  | numeric _ s => ∀ e ∈ s.entries, (firstValue values e.key).isSome
  | date _ s => ∀ e ∈ s.entries, (firstValue values e.key).isSome

variable (env : Env) (forAll : Bool) (values : Conditions)
  (resolver : Option PolicyVariableResolver)

/-- On each key a negated operator says the opposite, and one for keys that exist the same; and
what holds for the keys together holds for each. -/
def Lawful (c : Condition) : Prop :=
  (∀ x ∈ c.parts, ∀ p, x.positive = some p →
    x.evaluateWithResolver env forAll values resolver =
      (!·) <$> p.evaluateWithResolver env forAll values resolver) ∧
  (c.evaluateWithResolver env forAll values resolver = some true →
    ∀ x ∈ c.parts, x.evaluateWithResolver env forAll values resolver = some true) ∧
  ∀ x ∈ c.parts, ∀ p, x.base = some p → x.Present values →
    x.evaluateWithResolver env forAll values resolver =
      p.evaluateWithResolver env forAll values resolver

end Condition

section

variable (env : Env) (values : Conditions) (resolver : Option PolicyVariableResolver)
  (e : FuncKeyValue (List IpNetwork))

/-- The first value of the key that is in one of its networks or is no address. -/
def decisiveValue : Option String :=
  ((values.lookup e.key.name).getD []).find? fun r =>
    match env.parseIpAddr r with
    | none => true
    | some ip => e.values.any (env.netContains · ip)

/-- That value is an address. -/
def Hits : Prop :=
  ∃ r, decisiveValue env values e = some r ∧ (env.parseIpAddr r).isSome

/-- The first key that has such a value hits. -/
def FirstHits (s : AddrFunc) : Prop :=
  ∃ e, (s.entries.find? fun e => (decisiveValue env values e).isSome) = some e ∧ Hits env values e

def hasValue {T : Type} (e : FuncKeyValue T) : Bool := (firstValue values e.key).isSome

/-- The value of the key is a number that passes the comparison. -/
def NumberHolds (op : ℤ → ℤ → Bool) (e : FuncKeyValue ℤ) : Prop :=
  ∃ v rv, firstValue values e.key = some v ∧ parseI64 v = some rv ∧ op rv e.values = true

/-- Where an operator is lawful. -/
def Condition.Regular : Condition → Prop
  | .string .notEquals s | .string .notEqualsIgnoreCase s =>
    ∀ e ∈ s.entries, resolvedValues values resolver e.values = none
  | .addr .ipAddress s => FirstHits env values s → ∀ e ∈ s.entries, Hits env values e
  | .addr .notIpAddress s => (∃ e ∈ s.entries, Hits env values e) → FirstHits env values s
  | .numeric .notEquals s =>
    ∀ e ∈ s.entries, ((firstValue values e.key).bind parseI64).isSome
  | .numeric .greaterThanIfExists s =>
    ((∀ e ∈ s.entries.takeWhile (hasValue values), NumberHolds values (· ≥ ·) e) →
      ∀ e ∈ s.entries, hasValue values e = true → NumberHolds values (· ≥ ·) e) ∧
    ∀ e ∈ s.entries, (firstValue values e.key).bind parseI64 ≠ some e.values
  | .date .notEquals s =>
    ∀ e ∈ s.entries, ((firstValue values e.key).bind env.parseRfc3339).isSome
  | _ => True

end

variable {env : Env} {forAll : Bool} {values : Conditions}
  {resolver : Option PolicyVariableResolver}

section

variable {T : Type} {f : InnerFunc T} {mk : InnerFunc T → Condition}

theorem forall_parts {P : Condition → Prop} :
    (∀ x ∈ f.parts.map mk, P x) ↔ ∀ e ∈ f.entries, P (mk (.single e)) := by
  simp [InnerFunc.parts]

variable (hparts : (mk f).parts = f.parts.map mk) (hbase : ∀ e, (mk (.single e)).base = none)
include hparts hbase

/-- An operator that negates none is lawful if it holds for each key where it holds for all. -/
theorem lawful_plain_iff (hpositive : ∀ e, (mk (.single e)).positive = none) :
    (mk f).Lawful env forAll values resolver ↔
      ((mk f).evaluateWithResolver env forAll values resolver = some true → ∀ e ∈ f.entries,
        (mk (.single e)).evaluateWithResolver env forAll values resolver = some true) := by
  simp [Lawful, hparts, InnerFunc.parts, hpositive, hbase]

/-- One that negates another says the opposite of it on each key, besides. -/
theorem lawful_negated_iff {p : InnerFunc T → Condition}
    (hpositive : ∀ e, (mk (.single e)).positive = some (p (.single e))) :
    (mk f).Lawful env forAll values resolver ↔
      (∀ e ∈ f.entries, (mk (.single e)).evaluateWithResolver env forAll values resolver =
        (!·) <$> (p (.single e)).evaluateWithResolver env forAll values resolver) ∧
      ((mk f).evaluateWithResolver env forAll values resolver = some true → ∀ e ∈ f.entries,
        (mk (.single e)).evaluateWithResolver env forAll values resolver = some true) := by
  simp [Lawful, hparts, InnerFunc.parts, hpositive, hbase]

end

theorem Condition.evaluate_eq_map (c : Condition) :
    c.evaluateWithResolver env forAll values resolver =
      (c.evaluateOperator env forAll values resolver).map (c.isNegate ^^ ·) := by
  rw [evaluateWithResolver]
  cases c.evaluateOperator env forAll values resolver with
  | none => rfl
  | some r => cases c.isNegate <;> simp

section

variable {op : StringOp} {s : StringFunc} {e : FuncKeyValue (HashSet String)}

/-- What an operator says of a key before anything is turned around. -/
def keyEval (env : Env) (forAll : Bool) (values : Conditions)
    (resolver : Option PolicyVariableResolver) (ignoreCase like : Bool)
    (e : FuncKeyValue (HashSet String)) : Option Bool :=
  if like then stringEvalLike values resolver forAll e
  else stringEval env values resolver forAll ignoreCase e

theorem stringEval_eq_none_iff {i : Bool} :
    stringEval env values resolver forAll i e = none ↔
      resolvedValues values resolver e.values = none := by
  rw [stringEval]
  cases resolvedValues values resolver e.values <;> simp

theorem evaluate_string :
    (string op s).evaluateWithResolver env forAll values resolver =
      (s.entries.allM fun e =>
        (keyEval env forAll values resolver op.ignoreCase op.isLike e).map (· ^^ op.negate)).map
        ((string op s).isNegate ^^ ·) :=
  evaluate_eq_map _

theorem evaluate_string_single :
    (string op (.single e)).evaluateWithResolver env forAll values resolver =
      (keyEval env forAll values resolver op.ignoreCase op.isLike e).map
        ((string op (.single e)).isNegate ^^ · ^^ op.negate) := by
  rw [evaluate_string, single, allM_singleton, Option.map_map]
  congr 1
  funext b
  exact (Bool.xor_assoc _ _ _).symm

/-- Where the operator itself is not turned around, the keys are tested one by one. -/
theorem evaluate_string_all (hneg : ∀ s, (string op s).isNegate = false)
    (h : (string op s).evaluateWithResolver env forAll values resolver = some true)
    (he : e ∈ s.entries) :
    (string op (.single e)).evaluateWithResolver env forAll values resolver = some true := by
  rw [evaluate_string, hneg] at h
  rw [evaluate_string_single, hneg]
  simp only [Bool.false_xor, Option.map_id_fun'] at h ⊢
  exact allM_eq_true_iff.mp h e he

/-- The operators that are turned around twice. -/
def Twice (op : StringOp) : Prop := op = .notEquals ∨ op = .notEqualsIgnoreCase

theorem evaluate_twice_single (h : Twice op) :
    (string op (.single e)).evaluateWithResolver env forAll values resolver =
      stringEval env values resolver forAll op.ignoreCase e := by
  rw [evaluate_string_single]
  rcases h with rfl | rfl
  all_goals
    simp only [isNegate, negate, Bool.true_xor, Bool.xor_true, Bool.not_not, Option.map_id_fun']
    rfl

theorem positive_of_twice (h : Twice op) :
    ∃ op', (∀ e, (string op (.single e)).positive = some (string op' (.single e))) ∧ ∀ e,
      (string op' (.single e)).evaluateWithResolver env forAll values resolver =
        stringEval env values resolver forAll op.ignoreCase e := by
  rcases h with rfl | rfl
  all_goals
    refine ⟨_, fun _ => rfl, fun e => ?_⟩
    rw [evaluate_string_single]
    simp only [isNegate, negate, Bool.false_xor, Bool.xor_false, Option.map_id_fun']
    rfl

theorem evaluate_twice_ne_true (h : Twice op)
    (hnone : ∀ e ∈ s.entries, resolvedValues values resolver e.values = none) :
    (string op s).evaluateWithResolver env forAll values resolver ≠ some true := by
  intro htrue
  have hneg : (string op s).isNegate = true := by rcases h with rfl | rfl <;> rfl
  rw [evaluate_string, hneg] at htrue
  obtain ⟨b, hb, hbt⟩ := Option.map_eq_some_iff.mp htrue
  obtain rfl : b = false := by simpa using hbt
  obtain ⟨e, he, hfalse⟩ := exists_of_allM hb
  have hkey : keyEval env forAll values resolver op.ignoreCase op.isLike e = none := by
    rcases h with rfl | rfl <;> exact stringEval_eq_none_iff.mpr (hnone e he)
  rw [hkey] at hfalse
  exact nomatch hfalse

theorem eq_map_not_iff {o : Option Bool} : o = (!·) <$> o ↔ o = none := by
  rcases o with _ | _ | _ <;> simp

/-- Turned around twice, an operator says what it should deny, if it says anything. -/
theorem lawful_twice_iff (h : Twice op) :
    (string op s).Lawful env forAll values resolver ↔
      ∀ e ∈ s.entries, resolvedValues values resolver e.values = none := by
  obtain ⟨op', hpositive, hopposite⟩ := @positive_of_twice env forAll values resolver op h
  rw [lawful_negated_iff rfl (fun _ => rfl) hpositive]
  simp only [hopposite, evaluate_twice_single h, eq_map_not_iff, stringEval_eq_none_iff]
  exact and_iff_left_of_imp fun hnone htrue => absurd htrue (evaluate_twice_ne_true h hnone)

theorem lawful_string (h : ¬Twice op) : (string op s).Lawful env forAll values resolver := by
  have hneg (s : StringFunc) : (string op s).isNegate = false := by
    cases op <;> first | rfl | simp [Twice] at h
  cases op with
  | notEquals => exact absurd (.inl rfl) h
  | notEqualsIgnoreCase => exact absurd (.inr rfl) h
  | equals | equalsIgnoreCase | like =>
    exact (lawful_plain_iff rfl (fun _ => rfl) fun _ => rfl).mpr fun htrue e he =>
      evaluate_string_all hneg htrue he
  | notLike =>
    refine (lawful_negated_iff rfl (fun _ => rfl) fun _ => rfl).mpr
      ⟨fun e _ => ?_, fun htrue e he => evaluate_string_all hneg htrue he⟩
    rw [evaluate_string_single, evaluate_string_single]
    simp [isNegate, negate, ignoreCase, isLike]

end

section

variable {op : AddrOp} {s : AddrFunc} {e : FuncKeyValue (List IpNetwork)}

/-- A trial that ends the loop. -/
def decides (env : Env) (t : String × List IpNetwork) : Bool :=
  match env.parseIpAddr t.1 with
  | none => true
  | some ip => t.2.any (env.netContains · ip)

variable {l : List (String × List IpNetwork)}

theorem addrLoop_cons {t : String × List IpNetwork} :
    addrLoop env (t :: l) =
      if decides env t then (env.parseIpAddr t.1).isSome else addrLoop env l := by
  rw [addrLoop, decides]
  cases env.parseIpAddr t.1 with
  | none => rfl
  | some ip =>
    change (_ || _) = ite (t.2.any (env.netContains · ip) = true) true _
    by_cases hit : t.2.any (env.netContains · ip) = true
    · rw [if_pos hit, hit, Bool.true_or]
    · rw [if_neg hit, (Bool.not_eq_true _).mp hit, Bool.false_or]

theorem addrLoop_iff : addrLoop env l = true ↔
      ∃ t, l.find? (decides env) = some t ∧ (env.parseIpAddr t.1).isSome := by
  induction l with
  | nil => simp [addrLoop]
  | cons t l ih =>
    rw [addrLoop_cons, find?_cons]
    cases decides env t with
    | true => simp
    | false => exact ih

theorem find?_trials :
    (s.trials values).find? (decides env) =
      s.entries.findSome? fun e => (decisiveValue env values e).map (·, e.values) := by
  rw [AddrFunc.trials, find?_flatMap]
  congr 1
  funext e
  rw [find?_map]
  rfl

theorem findSome?_eq_some_find {α β : Type} {f : α → Option β} {l : List α} {b : β} :
    l.findSome? f = some b ↔ ∃ a, l.find? (fun a => (f a).isSome) = some a ∧ f a = some b := by
  induction l with
  | nil => simp
  | cons a l ih =>
    rw [findSome?_cons, find?_cons]
    cases h : f a <;> simp [h, ih]

theorem evaluate_addr_iff : s.evaluate env values = true ↔ FirstHits env values s := by
  rw [AddrFunc.evaluate, addrLoop_iff, find?_trials]
  constructor
  · rintro ⟨t, ht, haddr⟩
    obtain ⟨e, he, hv⟩ := findSome?_eq_some_find.mp ht
    obtain ⟨r, hr, rfl⟩ := Option.map_eq_some_iff.mp hv
    exact ⟨e, by simpa using he, r, hr, haddr⟩
  · rintro ⟨e, he, r, hr, haddr⟩
    exact ⟨(r, e.values), findSome?_eq_some_find.mpr ⟨e, by simpa using he, by rw [hr]; rfl⟩, haddr⟩

theorem firstHits_single : FirstHits env values (.single e) ↔ Hits env values e := by
  constructor
  · rintro ⟨e', he, hits⟩
    obtain rfl : e' = e := by simpa [single] using mem_of_find?_eq_some he
    exact hits
  · rintro ⟨r, hr, haddr⟩
    exact ⟨e, by simp [single, hr], r, hr, haddr⟩

theorem evaluate_ipAddress_iff :
    (addr .ipAddress s).evaluateWithResolver env forAll values resolver = some true ↔
      FirstHits env values s := by
  rw [evaluate_eq_map, ← evaluate_addr_iff]
  simp [evaluateOperator, isNegate]

theorem evaluate_notIpAddress_iff :
    (addr .notIpAddress s).evaluateWithResolver env forAll values resolver = some true ↔
      ¬FirstHits env values s := by
  rw [evaluate_eq_map, ← evaluate_addr_iff]
  simp [evaluateOperator, isNegate]

/-- An operator on addresses is lawful where no key is left out of the search. -/
theorem lawful_addr_iff :
    (addr op s).Lawful env forAll values resolver ↔ (addr op s).Regular env values resolver := by
  cases op with
  | ipAddress =>
    rw [lawful_plain_iff rfl (fun _ => rfl) fun _ => rfl]
    simp only [evaluate_ipAddress_iff, firstHits_single, Regular]
  | notIpAddress =>
    have hopposite : ∀ e ∈ s.entries,
        (addr .notIpAddress (.single e)).evaluateWithResolver env forAll values resolver =
          (!·) <$> (addr .ipAddress (.single e)).evaluateWithResolver env forAll values resolver := by
      intro e _
      rw [evaluate_eq_map, evaluate_eq_map]
      simp [evaluateOperator, isNegate]
    rw [lawful_negated_iff rfl (fun _ => rfl) fun _ => rfl, and_iff_right hopposite]
    simp only [evaluate_notIpAddress_iff, firstHits_single, Regular]
    rw [← not_imp_not]
    simp

end

section

variable {op : NumberOp} {t : ℤ → ℤ → Bool} {s : NumberFunc} {e : FuncKeyValue ℤ}
  {l : List (FuncKeyValue ℤ)}

theorem numberLoop_cons_of_value {es : Bool} {v : String} (hv : firstValue values e.key = some v) :
    numberLoop values t es (e :: l) = true ↔
      NumberHolds values t e ∧ numberLoop values t es l = true := by
  have hhead : NumberHolds values t e ↔ ∃ rv, parseI64 v = some rv ∧ t rv e.values := by
    simp [NumberHolds, hv]
  rw [numberLoop, hv, hhead]
  dsimp only
  cases parseI64 v <;> simp

theorem numberLoop_iff : numberLoop values t false l = true ↔ ∀ e ∈ l, NumberHolds values t e := by
  induction l with
  | nil => simp [numberLoop]
  | cons e l ih =>
    rw [forall_mem_cons, ← ih]
    cases hv : firstValue values e.key with
    | none => simp [numberLoop, NumberHolds, hv]
    | some v => exact numberLoop_cons_of_value hv

/-- The keys after a missing one are not looked at. -/
theorem numberLoop_ifExists_iff : numberLoop values t true l = true ↔
    ∀ e ∈ l.takeWhile (hasValue values), NumberHolds values t e := by
  induction l with
  | nil => simp [numberLoop]
  | cons e l ih =>
    cases hv : firstValue values e.key with
    | none => simp [numberLoop, hasValue, hv]
    | some v =>
      have hkept : hasValue values e = true := by rw [hasValue, hv]; rfl
      rw [takeWhile_cons_of_pos hkept, forall_mem_cons, ← ih]
      exact numberLoop_cons_of_value hv

theorem evaluate_numeric :
    (numeric op s).evaluateWithResolver env forAll values resolver =
      some (numberLoop values op.op op.ifExists s.entries) := by
  rw [evaluate_eq_map]
  simp [evaluateOperator, isNegate, NumberFunc.evaluate]

/-- Where a missing key fails, the block is the conjunction of its keys. -/
theorem evaluate_numeric_all (hop : op.ifExists = false)
    (h : (numeric op s).evaluateWithResolver env forAll values resolver = some true)
    (he : e ∈ s.entries) :
    (numeric op (.single e)).evaluateWithResolver env forAll values resolver = some true := by
  rw [evaluate_numeric, hop, Option.some.injEq, numberLoop_iff] at h
  rw [evaluate_numeric, hop, Option.some.injEq, numberLoop_iff]
  intro x hx
  obtain rfl := mem_singleton.mp hx
  exact h x he

theorem numberLoop_single {es : Bool} :
    numberLoop values t es [e] =
      (firstValue values e.key).elim es fun v => (parseI64 v).elim false (t · e.values) := by
  rw [numberLoop]
  cases firstValue values e.key with
  | none => rfl
  | some v =>
    rw [Option.elim_some]
    dsimp only
    cases parseI64 v <;> simp [numberLoop]

theorem numberLoop_not_iff :
    numberLoop values (· != ·) false [e] = !numberLoop values (· == ·) false [e] ↔
      ((firstValue values e.key).bind parseI64).isSome := by
  rw [numberLoop_single, numberLoop_single]
  cases firstValue values e.key with
  | none => simp
  | some v =>
    rw [Option.elim_some, Option.elim_some, Option.bind_some]
    cases parseI64 v <;> simp [bne]

/-- The comparison of the form for existing keys is the weak one. -/
theorem numberLoop_ge_iff (hv : (firstValue values e.key).isSome) :
    numberLoop values (· ≥ ·) true [e] = numberLoop values (· > ·) false [e] ↔
      (firstValue values e.key).bind parseI64 ≠ some e.values := by
  obtain ⟨v, hv⟩ := Option.isSome_iff_exists.mp hv
  rw [numberLoop_single, numberLoop_single, hv, Option.elim_some, Option.elim_some,
    Option.bind_some]
  cases parseI64 v with
  | none => simp
  | some rv =>
    simp only [Option.elim_some, ne_eq, Option.some.injEq, decide_eq_decide]
    omega

theorem lawful_numeric_notEquals_iff :
    (numeric .notEquals s).Lawful env forAll values resolver ↔
      ∀ e ∈ s.entries, ((firstValue values e.key).bind parseI64).isSome := by
  rw [lawful_negated_iff rfl (fun _ => rfl) fun _ => rfl,
    and_iff_left fun htrue e he => evaluate_numeric_all rfl htrue he]
  refine forall₂_congr fun e _ => ?_
  rw [evaluate_numeric, evaluate_numeric, ← numberLoop_not_iff]
  exact Option.some_inj

theorem evaluate_ifExists_single :
    (numeric .greaterThanIfExists (.single e)).evaluateWithResolver env forAll values
      resolver = some true ↔ (hasValue values e = true → NumberHolds values (· ≥ ·) e) := by
  rw [evaluate_numeric, Option.some.injEq]
  change numberLoop values (· ≥ ·) true [e] = true ↔ _
  rw [numberLoop_ifExists_iff, takeWhile_cons]
  cases hasValue values e <;> simp

theorem lawful_numeric_ifExists_iff :
    (numeric .greaterThanIfExists s).Lawful env forAll values resolver ↔
      (numeric .greaterThanIfExists s).Regular env values resolver := by
  have hblock : (numeric .greaterThanIfExists s).evaluateWithResolver env forAll values
      resolver = some true ↔
        ∀ e ∈ s.entries.takeWhile (hasValue values), NumberHolds values (· ≥ ·) e := by
    rw [evaluate_numeric, Option.some.injEq]
    exact numberLoop_ifExists_iff
  have hbase (e : FuncKeyValue ℤ) :
      (numeric .greaterThanIfExists (.single e)).evaluateWithResolver env forAll values
        resolver = (numeric .greaterThan (.single e)).evaluateWithResolver env forAll
          values resolver ↔
        numberLoop values (· ≥ ·) true [e] = numberLoop values (· > ·) false [e] := by
    rw [evaluate_numeric, evaluate_numeric, Option.some.injEq]
    rfl
  constructor
  · rintro ⟨-, hall, hsame⟩
    refine ⟨fun hheld e he => ?_, fun e he => ?_⟩
    · exact evaluate_ifExists_single.mp (forall_parts.mp (hall (hblock.mpr hheld)) e he)
    · cases hv : firstValue values e.key with
      | none => simp
      | some v =>
        have hpres : (firstValue values e.key).isSome := by rw [hv]; rfl
        rw [← hv]
        refine (numberLoop_ge_iff hpres).mp ((hbase e).mp ?_)
        exact forall_parts.mp hsame e he _ rfl (by simpa [Condition.Present, single])
  · rintro ⟨hheld, hne⟩
    refine ⟨forall_parts.mpr fun e _ p hp => (nomatch hp), fun htrue => ?_, ?_⟩
    · exact forall_parts.mpr fun e he =>
        evaluate_ifExists_single.mpr (hheld (hblock.mp htrue) e he)
    · refine forall_parts.mpr fun e he p hp hpres => ?_
      cases hp
      exact (hbase e).mpr ((numberLoop_ge_iff (hpres e mem_cons_self)).mpr (hne e he))

theorem lawful_numeric_iff :
    (numeric op s).Lawful env forAll values resolver ↔
      (numeric op s).Regular env values resolver := by
  cases op with
  | notEquals => exact lawful_numeric_notEquals_iff
  | greaterThanIfExists => exact lawful_numeric_ifExists_iff
  | equals | lessThan | lessThanEquals | greaterThan | greaterThanEquals =>
    exact iff_of_true ((lawful_plain_iff rfl (fun _ => rfl) fun _ => rfl).mpr fun htrue e he =>
      evaluate_numeric_all rfl htrue he) trivial

end

section

variable {op : DateOp} {s : DateFunc} {e : FuncKeyValue Time}

/-- The test of one key. -/
def dateTest (env : Env) (values : Conditions) (op : DateOp) (e : FuncKeyValue Time) : Bool :=
  ((firstValue values e.key).bind env.parseRfc3339).elim false (op.op e.values)

theorem evaluate_date :
    (date op s).evaluateWithResolver env forAll values resolver =
      some (s.entries.all (dateTest env values op)) := by
  rw [evaluate_eq_map]
  simp only [evaluateOperator, isNegate, DateFunc.evaluate, Bool.false_xor,
    Option.map_some, Option.some.injEq]
  congr 1
  funext e
  rw [dateTest]
  cases (firstValue values e.key).bind env.parseRfc3339 <;> rfl

theorem evaluate_date_single :
    (date op (.single e)).evaluateWithResolver env forAll values resolver =
      some (dateTest env values op e) := by
  rw [evaluate_date, single, all_cons, all_nil, Bool.and_true]

theorem dateTest_not_iff :
    dateTest env values .notEquals e = !dateTest env values .equals e ↔
      ((firstValue values e.key).bind env.parseRfc3339).isSome := by
  rw [dateTest, dateTest]
  cases (firstValue values e.key).bind env.parseRfc3339 <;> simp [DateOp.op, bne]

theorem evaluate_date_all
    (h : (date op s).evaluateWithResolver env forAll values resolver = some true) :
    ∀ e ∈ s.entries,
      (date op (.single e)).evaluateWithResolver env forAll values resolver = some true := by
  rw [evaluate_date, Option.some.injEq, all_eq_true] at h
  intro e he
  rw [evaluate_date_single, h e he]

theorem lawful_date_iff :
    (date op s).Lawful env forAll values resolver ↔ (date op s).Regular env values resolver := by
  cases op with
  | notEquals =>
    rw [lawful_negated_iff rfl (fun _ => rfl) fun _ => rfl, and_iff_left evaluate_date_all]
    refine forall₂_congr fun e _ => ?_
    rw [evaluate_date_single, evaluate_date_single, ← dateTest_not_iff]
    exact Option.some_inj
  | equals | lessThan | lessThanEquals | greaterThan | greaterThanEquals =>
    exact iff_of_true ((lawful_plain_iff rfl (fun _ => rfl) fun _ => rfl).mpr evaluate_date_all)
      trivial

end

theorem lawful_bool {op : BoolOp} {s : BoolFunc} :
    (bool op s).Lawful env forAll values resolver := by
  refine (lawful_plain_iff rfl (fun _ => rfl) fun _ => rfl).mpr fun htrue e he => ?_
  rw [evaluate_eq_map] at htrue ⊢
  cases op with
  | null | bool =>
    simp only [evaluateOperator, isNegate, BoolFunc.evaluateNull,
      BoolFunc.evaluateBool, Bool.false_xor, Option.map_some, Option.some.injEq, all_eq_true]
      at htrue ⊢
    intro x hx
    obtain rfl := mem_singleton.mp hx
    exact htrue x he

/-- The evaluation of bytes panics, so there is nothing to keep. -/
theorem lawful_binaryEquals {s : BinaryFunc} :
    (binaryEquals s).Lawful env forAll values resolver := by
  refine (lawful_plain_iff rfl (fun _ => rfl) fun _ => rfl).mpr fun htrue => ?_
  rw [evaluate_eq_map] at htrue
  exact nomatch htrue

/-- Exactly the regular conditions are evaluated lawfully. -/
theorem Condition.lawful_iff_regular (c : Condition) :
    c.Lawful env forAll values resolver ↔ c.Regular env values resolver := by
  cases c with
  | string op s =>
    cases op with
    | notEquals => exact lawful_twice_iff (.inl rfl)
    | notEqualsIgnoreCase => exact lawful_twice_iff (.inr rfl)
    | equals | equalsIgnoreCase | like | notLike =>
      exact iff_of_true (lawful_string (by simp [Twice])) trivial
  | binaryEquals s => exact iff_of_true lawful_binaryEquals trivial
  | addr op s => exact lawful_addr_iff
  | bool op s => exact iff_of_true lawful_bool trivial
  | numeric op s => exact lawful_numeric_iff
  | date op s => exact lawful_date_iff

/-- The key `aws:username` with the one value `user`. -/
def isUser : StringFunc :=
  .single ⟨⟨.aws .awsUsername, none⟩, ⟨["user"], nodup_singleton _⟩⟩

/-- `StringNotEquals` holds for the one name it should keep out, as `StringEquals` does. -/
theorem stringNotEquals_not_lawful :
    let values : Conditions := AList.singleton "username" ["user"]
    (string .notEquals isUser).evaluateWithResolver plainEnv false values none =
        some true ∧
      (string .equals isUser).evaluateWithResolver plainEnv false values none =
        some true ∧
      ¬(string .notEquals isUser).Lawful plainEnv false values none := by
  refine ⟨by decide +kernel, by decide +kernel, fun h => ?_⟩
  have hnone := (lawful_twice_iff (.inl rfl)).mp h _ mem_cons_self
  exact nomatch hnone

end Rustfs.Iam
