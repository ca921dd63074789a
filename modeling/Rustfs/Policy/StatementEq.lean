import Rustfs.Policy.Statement

/-! Statements that are taken for one another. -/
namespace Rustfs.Iam

open Trial KeepFirst List Bool Condition Equiv Statement Functions

theorem hashSet_equiv {α : Type} [DecidableEq α] : Equiv fun s t : HashSet α => s.eq t where
  refl _ := HashSet.eq_iff.mpr (.refl _)
  symm _ _ h := HashSet.eq_iff.mpr (HashSet.eq_iff.mp h).symm
  trans _ _ _ h h' := HashSet.eq_iff.mpr ((HashSet.eq_iff.mp h).trans (HashSet.eq_iff.mp h'))

theorem innerFunc_equiv {T : Type} {eqv : T → T → Bool} (h : Equiv eqv) :
    Equiv fun l r : InnerFunc T => l.eq eqv r :=
  (((beq.comap FuncKeyValue.key).and (h.comap FuncKeyValue.values)).isEqv).comap
    InnerFunc.entries

namespace Condition

/-- Conditions with the same operator and equal functions. -/
inductive Same : Condition → Condition → Prop where
  | string {op l r} (h : l.eq HashSet.eq r = true) : Same (.string op l) (.string op r)
  | binaryEquals {l r} (h : l.eq (· == ·) r = true) : Same (.binaryEquals l) (.binaryEquals r)
  | addr {op l r} (h : l.eq (· == ·) r = true) : Same (.addr op l) (.addr op r)
  | bool {op l r} (h : l.eq (· == ·) r = true) : Same (.bool op l) (.bool op r)
  | numeric {op l r} (h : l.eq (· == ·) r = true) : Same (.numeric op l) (.numeric op r)
  | date {op l r} (h : l.eq (· == ·) r = true) : Same (.date op l) (.date op r)

theorem eq_iff {x y : Condition} : x.eq y = true ↔ Same x y := by
  constructor
  · intro h
    cases x <;> cases y <;> simp only [eq, and_eq_true, beq_iff_eq, false_eq_true] at h
    case string.string => obtain ⟨rfl, h⟩ := h; exact .string h
    case binaryEquals.binaryEquals => exact .binaryEquals h
    case addr.addr => obtain ⟨rfl, h⟩ := h; exact .addr h
    case bool.bool => obtain ⟨rfl, h⟩ := h; exact .bool h
    case numeric.numeric => obtain ⟨rfl, h⟩ := h; exact .numeric h
    case date.date => obtain ⟨rfl, h⟩ := h; exact .date h
  · intro h
    cases h with
    | binaryEquals h => exact h
    | string h | addr h | bool h | numeric h | date h => simp [eq, h]

theorem equiv : Equiv eq where
  refl x := by
    rw [eq_iff]
    cases x with
    | string => exact .string ((innerFunc_equiv hashSet_equiv).refl _)
    | binaryEquals | addr | bool | numeric | date =>
      constructor
      exact (innerFunc_equiv beq).refl _
  symm x y h := by
    rw [eq_iff] at h ⊢
    cases h with
    | string h => exact .string ((innerFunc_equiv hashSet_equiv).symm _ _ h)
    | binaryEquals h | addr h | bool h | numeric h | date h =>
      constructor
      exact (innerFunc_equiv beq).symm _ _ h
  trans x y z h h' := by
    rw [eq_iff] at h h' ⊢
    cases h with
    | string h =>
      cases h' with | string h' => exact .string ((innerFunc_equiv hashSet_equiv).trans _ _ _ h h')
    | binaryEquals h | addr h | bool h | numeric h | date h =>
      rcases h' with _ | h' | h' | h' | h' | h'
      constructor
      exact (innerFunc_equiv beq).trans _ _ _ h h'

theorem Same.toKey {x y : Condition} (h : Same x y) : x.toKey = y.toKey := by
  cases h with
  | binaryEquals => rfl
  | @string op | @addr op | @bool op | @numeric op | @date op => cases op <;> rfl

end Condition

section

variable {env : Env} {vs : Conditions} {resolver : Option PolicyVariableResolver}

theorem mem_resolvedValues {set : HashSet String} {ts : List String}
    (h : resolvedValues vs resolver set = some ts) (v : String) :
    v ∈ ts ↔ ∃ c ∈ set.toList, ∃ resolved, resolveValue resolver c = some resolved ∧
      ∃ text ∈ resolved, substituteFirst vs text = v := by
  obtain ⟨lists, hlists, hpure⟩ := Option.bind_eq_some_iff.mp h
  cases hpure
  simp only [mem_map, mem_flatten, mem_of_mapM hlists]
  constructor
  · rintro ⟨text, ⟨resolved, ⟨c, hc, hresolved⟩, htext⟩, hv⟩
    exact ⟨c, hc, resolved, hresolved, text, htext, hv⟩
  · rintro ⟨c, hc, resolved, hresolved, text, htext, hv⟩
    exact ⟨text, ⟨resolved, ⟨c, hc, hresolved⟩, htext⟩, hv⟩

/-- Equal sets of values stand for the same texts. -/
theorem mem_resolvedValues_congr {s t : HashSet String} (h : s.eq t = true)
    {ts texts' : List String} (hs : resolvedValues vs resolver s = some ts)
    (ht : resolvedValues vs resolver t = some texts') (v : String) : v ∈ ts ↔ v ∈ texts' := by
  simp only [mem_resolvedValues hs, mem_resolvedValues ht, (HashSet.eq_iff.mp h).mem_iff]

variable {x y : FuncKeyValue (HashSet String)}

theorem stringEval_agree (h : FuncKeyValue.eq HashSet.eq x y = true) (f i : Bool) :
    Agree (stringEval env vs resolver f i x) (stringEval env vs resolver f i y) := by
  obtain ⟨key, s⟩ := x
  obtain ⟨key', t⟩ := y
  obtain ⟨hkey, hset⟩ := and_eq_true_iff.mp h
  obtain rfl : key = key' := beq_iff_eq.mp hkey
  intro a b ha hb
  obtain ⟨texts, htexts, ha⟩ := Option.bind_eq_some_iff.mp ha
  obtain ⟨texts', htexts', hb⟩ := Option.bind_eq_some_iff.mp hb
  have hmem : ∀ v, v ∈ texts.map (if i then env.toLowercase else id) ↔
      v ∈ texts'.map (if i then env.toLowercase else id) := by
    intro v
    simp only [mem_map, mem_resolvedValues_congr hset htexts htexts']
  simp only [hmem] at ha
  exact Option.some.inj (ha.symm.trans hb)

theorem stringEvalLike_agree (h : FuncKeyValue.eq HashSet.eq x y = true) (f : Bool) :
    Agree (stringEvalLike vs resolver f x) (stringEvalLike vs resolver f y) := by
  obtain ⟨key, s⟩ := x
  obtain ⟨key', t⟩ := y
  obtain ⟨hkey, hset⟩ := and_eq_true_iff.mp h
  obtain rfl : key = key' := beq_iff_eq.mp hkey
  have hmatched : ∀ v : String,
      Agree (resolvedValues vs resolver s >>= fun texts => pure (texts.any (isMatch · v)))
        (resolvedValues vs resolver t >>= fun texts => pure (texts.any (isMatch · v))) := by
    intro v a b ha hb
    obtain ⟨texts, htexts, ha⟩ := Option.bind_eq_some_iff.mp ha
    obtain ⟨texts', htexts', hb⟩ := Option.bind_eq_some_iff.mp hb
    cases ha
    cases hb
    rw [Bool.eq_iff_iff]
    simp only [any_eq_true, mem_resolvedValues_congr hset htexts htexts']
  unfold stringEvalLike
  cases vs.lookup key.name with
  | none => exact .refl _
  | some rvalues =>
    cases f with
    | true => exact allM_agree (fun v hv => ⟨v, hv, hmatched v⟩) fun v hv => ⟨v, hv, hmatched v⟩
    | false => exact anyM_agree (fun v hv => ⟨v, hv, hmatched v⟩) fun v hv => ⟨v, hv, hmatched v⟩

theorem stringFunc_agree {l r : StringFunc} (h : l.eq HashSet.eq r = true) (f i like n : Bool) :
    Agree (l.evaluateWithResolver env vs resolver f i like n)
      (r.evaluateWithResolver env vs resolver f i like n) := by
  have hentry : ∀ x y, FuncKeyValue.eq HashSet.eq x y = true →
      Agree (stringTest env vs resolver f i like n x)
        (stringTest env vs resolver f i like n y) := by
    intro x y hxy a b ha hb
    obtain ⟨a', ha', rfl⟩ := Option.map_eq_some_iff.mp ha
    obtain ⟨b', hb', rfl⟩ := Option.map_eq_some_iff.mp hb
    cases like with
    | true => rw [stringEvalLike_agree hxy f _ _ ha' hb']
    | false => rw [stringEval_agree hxy f i _ _ ha' hb']
  obtain ⟨hl, hr⟩ := exists_of_isEqv h
  refine allM_agree (fun x hx => ?_) fun y hy => ?_
  · obtain ⟨y, hy, hxy⟩ := hl x hx
    exact ⟨y, hy, hentry x y hxy⟩
  · obtain ⟨x, hx, hxy⟩ := hr y hy
    exact ⟨x, hx, hentry x y hxy⟩

theorem innerFunc_eq_of_beq {T : Type} [BEq T] [LawfulBEq T] {l r : InnerFunc T}
    (h : l.eq (· == ·) r = true) : l = r := by
  obtain ⟨l, hl⟩ := l
  obtain ⟨r, hr⟩ := r
  have hlist : l = r := by
    change l.isEqv r (FuncKeyValue.eq (· == ·)) = true at h
    clear hl hr
    induction l generalizing r with
    | nil => cases r <;> simp_all
    | cons x l ih =>
      cases r with
      | nil => exact nomatch h
      | cons y r =>
        obtain ⟨key, v⟩ := x
        obtain ⟨key', v'⟩ := y
        rw [isEqv_cons_cons, and_eq_true, FuncKeyValue.eq, and_eq_true, beq_iff_eq, beq_iff_eq] at h
        obtain ⟨⟨hkey, hvalues⟩, hrest⟩ := h
        rw [ih r hrest, show key = key' from hkey, show v = v' from hvalues]
  subst hlist
  rfl

theorem condition_agree {x y : Condition} (h : x.eq y = true) (f : Bool) :
    Agree (x.evaluateWithResolver env f vs resolver)
      (y.evaluateWithResolver env f vs resolver) := by
  rw [eq_iff] at h
  cases h with
  | @string op l r h =>
    intro a b ha hb
    obtain ⟨a', ha', ha⟩ := Option.bind_eq_some_iff.mp ha
    obtain ⟨b', hb', hb⟩ := Option.bind_eq_some_iff.mp hb
    obtain rfl := stringFunc_agree h _ _ _ _ _ _ ha' hb'
    cases op <;> exact Option.some.inj (ha.symm.trans hb)
  | binaryEquals h | addr h | bool h | numeric h | date h =>
    rw [innerFunc_eq_of_beq h]; exact .refl _

end

namespace Functions

/-- Conditions of which no two have the same operator. -/
abbrev Distinct : Type := { l : List Condition // (l.map Condition.toKey).Nodup }

def Distinct.eq (l r : Distinct) : Bool :=
  l.1.length == r.1.length && sameConditions l.1 r.1

theorem Distinct.eq_left {l r : Distinct} (h : l.eq r = true) :
    ∀ x ∈ l.1, ∃ y ∈ r.1, x.eq y = true := by
  obtain ⟨-, hsame⟩ := and_eq_true_iff.mp h
  intro x hx
  simpa using all_eq_true.mp hsame x hx

/-- As many conditions with as many operators: each one is met. -/
theorem Distinct.eq_right {l r : Distinct} (h : l.eq r = true) :
    ∀ y ∈ r.1, ∃ x ∈ l.1, x.eq y = true := by
  have hlen : l.1.length = r.1.length := by simpa using (and_eq_true_iff.mp h).1
  have hkeys : (l.1.map toKey).Subset (r.1.map toKey) := by
    intro key hkey
    obtain ⟨x, hx, rfl⟩ := mem_map.mp hkey
    obtain ⟨y, hy, hxy⟩ := eq_left h x hx
    exact mem_map.mpr ⟨y, hy, (eq_iff.mp hxy).toKey.symm⟩
  have hperm : (l.1.map toKey).Perm (r.1.map toKey) :=
    (subperm_of_subset l.2 hkeys).perm_of_length_le (by simp [hlen])
  intro y hy
  obtain ⟨x, hx, hkey⟩ := mem_map.mp (hperm.mem_iff.mpr (mem_map_of_mem hy))
  obtain ⟨y', hy', hxy⟩ := eq_left h x hx
  have hsame : y' = y :=
    inj_on_of_nodup_map r.2 hy' hy ((eq_iff.mp hxy).toKey.symm.trans hkey)
  exact ⟨x, hx, hsame ▸ hxy⟩

theorem distinct_equiv : Equiv Distinct.eq where
  refl l := by
    refine and_eq_true_iff.mpr ⟨beq_self_eq_true _, all_eq_true.mpr fun x hx => ?_⟩
    exact any_eq_true.mpr ⟨x, hx, equiv.refl x⟩
  symm l r h := by
    have hlen := beq_iff_eq.mp (and_eq_true_iff.mp h).1
    refine and_eq_true_iff.mpr ⟨beq_iff_eq.mpr hlen.symm, all_eq_true.mpr fun y hy => ?_⟩
    obtain ⟨x, hx, hxy⟩ := Distinct.eq_right h y hy
    exact any_eq_true.mpr ⟨x, hx, equiv.symm _ _ hxy⟩
  trans l r u h h' := by
    have hlen := beq_iff_eq.mp (and_eq_true_iff.mp h).1
    have hlen' := beq_iff_eq.mp (and_eq_true_iff.mp h').1
    refine and_eq_true_iff.mpr ⟨beq_iff_eq.mpr (hlen.trans hlen'), all_eq_true.mpr fun x hx => ?_⟩
    obtain ⟨y, hy, hxy⟩ := Distinct.eq_left h x hx
    obtain ⟨z, hz, hyz⟩ := Distinct.eq_left h' y hy
    exact any_eq_true.mpr ⟨z, hz, equiv.trans _ _ _ hxy hyz⟩

theorem eq_eq (f g : Functions) :
    f.eq g = (Distinct.eq ⟨_, f.distinct_any⟩ ⟨_, g.distinct_any⟩ &&
      Distinct.eq ⟨_, f.distinct_all⟩ ⟨_, g.distinct_all⟩ &&
      Distinct.eq ⟨_, f.distinct_normal⟩ ⟨_, g.distinct_normal⟩) := by
  simp only [eq, Distinct.eq]
  ac_rfl

theorem equiv : Equiv eq := by
  have h := ((distinct_equiv.comap fun f : Functions => ⟨_, f.distinct_any⟩).and
    (distinct_equiv.comap fun f : Functions => ⟨_, f.distinct_all⟩)).and
      (distinct_equiv.comap fun f : Functions => ⟨_, f.distinct_normal⟩)
  rwa [show eq = _ from funext fun f => funext fun g => eq_eq f g]

variable {env : Env} {vs : Conditions} {resolver : Option PolicyVariableResolver}

theorem distinct_agree {l r : Distinct} (h : l.eq r = true) (f : Bool) :
    Agree (l.1.allM (Condition.evaluateWithResolver env f vs resolver))
      (r.1.allM (Condition.evaluateWithResolver env f vs resolver)) := by
  refine allM_agree (fun x hx => ?_) fun y hy => ?_
  · obtain ⟨y, hy, hxy⟩ := Distinct.eq_left h x hx
    exact ⟨y, hy, condition_agree hxy f⟩
  · obtain ⟨x, hx, hxy⟩ := Distinct.eq_right h y hy
    exact ⟨x, hx, condition_agree hxy f⟩

/-- Equal conditions do not give different answers. -/
theorem evaluate_agree {f g : Functions} (h : f.eq g = true) :
    Agree (f.evaluateWithResolver env vs resolver) (g.evaluateWithResolver env vs resolver) := by
  rw [eq_eq, and_eq_true, and_eq_true] at h
  exact (distinct_agree h.1.1 false).andThen
    ((distinct_agree h.1.2 true).andThen (distinct_agree h.2 false))

end Functions

namespace Statement

theorem equiv : Equiv eq :=
  ((((beq.comap effect).and (hashSet_equiv.comap actions)).and (hashSet_equiv.comap notActions)).and
      (hashSet_equiv.comap resources)).and (Functions.equiv.comap conditions)

variable {env : Env} {args : Args} {s t : Statement}

section

variable {α : Type} [DecidableEq α] {a b : HashSet α} (h : a.eq b = true)
include h

theorem isEmpty_congr : a.isEmpty = b.isEmpty := by
  rw [HashSet.isEmpty, HashSet.isEmpty, Bool.eq_iff_iff, List.isEmpty_iff, List.isEmpty_iff]
  exact ⟨fun ha => nil_perm.mp (ha ▸ HashSet.eq_iff.mp h),
    fun hb => perm_nil.mp (hb ▸ HashSet.eq_iff.mp h)⟩

theorem any_congr (p : α → Bool) : a.toList.any p = b.toList.any p := by
  rw [Bool.eq_iff_iff]
  simp only [any_eq_true, (HashSet.eq_iff.mp h).mem_iff]

end

theorem isMatch_agree {a b : ResourceSet} (h : a.eq b = true) (r : String)
    (vs : Conditions) (res : Option PolicyVariableResolver) :
    Agree (a.isMatchWithResolver vs res r) (b.isMatchWithResolver vs res r) :=
  anyM_agree_of_mem fun _ => (HashSet.eq_iff.mp h).mem_iff

/-- Equal statements that also leave the same resources out do not decide differently. -/
theorem check_agree (h : s.eq t = true) (hnot : s.notResources.eq t.notResources = true) :
    Agree (s.check env args) (t.check env args) := by
  simp only [eq, and_eq_true] at h
  obtain ⟨⟨⟨⟨-, hact⟩, hnotAct⟩, hres⟩, hcond⟩ := h
  have hout : Agree (s.outsideResources env args) (t.outsideResources env args) := by
    unfold outsideResources
    rw [isEmpty_congr hres]
    split
    · exact .refl _
    · intro a b ha hb
      obtain ⟨a', ha', rfl⟩ := Option.map_eq_some_iff.mp ha
      obtain ⟨b', hb', rfl⟩ := Option.map_eq_some_iff.mp hb
      rw [isMatch_agree hres _ _ _ _ _ ha' hb']
  have hin : Agree (s.inNotResources env args) (t.inNotResources env args) := by
    unfold inNotResources
    rw [isEmpty_congr hnot]
    split
    · exact .refl _
    · exact isMatch_agree hnot _ _ _
  have hhold : Agree (s.conditionsHold env args) (t.conditionsHold env args) :=
    evaluate_agree hcond
  have hadmin : s.isAdmin = t.isAdmin := any_congr hact _
  have hsts : s.isSts = t.isSts := any_congr hact _
  have hkms : s.isKms = t.isKms := any_congr hact _
  have hcheck : Agree (s.checkResources env args) (t.checkResources env args) := by
    intro a b ha hb
    unfold checkResources at ha hb
    rw [hadmin, hsts] at ha
    obtain ⟨o, ho, ha⟩ := Option.bind_eq_some_iff.mp ha
    obtain ⟨o', ho', hb⟩ := Option.bind_eq_some_iff.mp hb
    obtain rfl := hout o o' ho ho'
    split at ha
    · rename_i hstop
      rw [if_pos hstop] at hb
      exact Option.some.inj (ha.symm.trans hb)
    · rename_i hgo
      rw [if_neg hgo] at hb
      obtain ⟨e, he, ha⟩ := Option.bind_eq_some_iff.mp ha
      obtain ⟨e', he', hb⟩ := Option.bind_eq_some_iff.mp hb
      obtain rfl := hin e e' he he'
      split at ha
      · rename_i hstop
        rw [if_pos hstop] at hb
        exact Option.some.inj (ha.symm.trans hb)
      · rename_i hgo'
        rw [if_neg hgo'] at hb
        exact hhold a b ha hb
  unfold check ActionSet.isMatch
  rw [isEmpty_congr hact, isEmpty_congr hres, isEmpty_congr hnot, hadmin, hsts, hkms,
    any_congr hact, any_congr hnotAct]
  split
  · exact .refl _
  · split
    · exact hhold
    · split
      · exact .refl _
      · exact hcheck

end Statement

end Rustfs.Iam
