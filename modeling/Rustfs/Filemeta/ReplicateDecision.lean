import Mathlib.Data.List.DropRight
import Rustfs.Filemeta.Replication
import Rustfs.Lib.Tally

/-! What is decided about each replication target, written as text and read back. -/
namespace Rustfs

open List

structure ReplicateTargetDecision where
  replicate : Bool
  synchronous : Bool
  arn : String
  id : String

abbrev TargetEntry : Type := Sigma fun _ : String => ReplicateTargetDecision

abbrev ReplicateDecision : Type := StrMap ReplicateTargetDecision

def boolText (b : Bool) : List Char := if b then "true".toList else "false".toList

def ReplicateTargetDecision.display (t : ReplicateTargetDecision) : List Char :=
  boolText t.replicate ++
    ';' :: (boolText t.synchronous ++ ';' :: (t.arn.toList ++ ';' :: t.id.toList))

def entryText (e : TargetEntry) : List Char :=
  e.1.toList ++ '=' :: e.2.display

/-- The targets in the order the map gives them. -/
def ReplicateDecision.display (order : IterOrder TargetEntry) (d : ReplicateDecision) : String :=
  String.ofList (((order.run d.entries).flatMap fun e => entryText e ++ [',']).rdropWhile (· == ','))

def parseTarget (p : List Char) : Option (String × ReplicateTargetDecision) :=
  match splitOn '=' p with
  | [key, value] =>
    match splitOn ';' ((value.dropWhile (· == '"')).rdropWhile (· == '"')) with
    | [replicate, synchronous, arn, id] =>
      some (String.ofList key, ⟨replicate == "true".toList, synchronous == "true".toList,
        String.ofList arn, String.ofList id⟩)
    | _ => none
  | _ => none

def parseInto (s : String) (decision : ReplicateDecision) (p : List Char) :
    Except String ReplicateDecision :=
  if p.isEmpty then .ok decision
  else
    match parseTarget p with
    | some (key, t) => .ok (decision.insert key t)
    | none => .error ("invalid replicate decision format: " ++ s)

def parseReplicateDecision (s : String) : Except String ReplicateDecision :=
  if s = "" then .ok ∅ else (splitOn ',' s.toList).foldlM (parseInto s) ∅

/-- The characters that part the targets and their fields, or may stand around them. -/
abbrev separators : List Char := [',', '=', ';', '"']

abbrev Plain (s : String) : Prop := ∀ c ∈ separators, c ∉ s.toList

abbrev PlainEntry (e : TargetEntry) : Prop := Plain e.1 ∧ Plain e.2.arn ∧ Plain e.2.id

variable {x : Char} {xs ys : List Char} {t : ReplicateTargetDecision} {e : TargetEntry}
  {es : List TargetEntry} {decision : ReplicateDecision}

theorem beq_of_notMem (h : x ∉ xs) : ∀ y ∈ xs, (y == x) = false := fun _ hy =>
  beq_eq_false_iff_ne.mpr fun hyx => h (hyx ▸ hy)

theorem splitOn_append_cons (h : x ∉ xs) : splitOn x (xs ++ x :: ys) = xs :: splitOn x ys :=
  splitOnP_append_cons_of_forall_mem (beq_of_notMem h) x (beq_self_eq_true x) ys

theorem splitOn_single (h : x ∉ xs) : splitOn x xs = [xs] := splitOnP_eq_singleton (beq_of_notMem h)

theorem rdropWhile_self (h : x ∉ xs) : xs.rdropWhile (· == x) = xs :=
  rdropWhile_eq_self_iff.mpr fun hne => by simp [beq_of_notMem h _ (getLast_mem hne)]

theorem dropWhile_self (h : x ∉ xs) : xs.dropWhile (· == x) = xs :=
  dropWhile_eq_self_iff.mpr fun hlt => by simp [beq_of_notMem h _ (getElem_mem hlt)]

theorem boolText_plain (b : Bool) : ∀ c ∈ separators, c ∉ boolText b := by
  cases b <;> simp [boolText]

/-- Of the separators only `;` is in the text of a target. -/
theorem entry_plain (h : PlainEntry e) (hx : x ∈ separators) (hne : x ≠ ';') : x ∉ e.2.display := by
  simp [ReplicateTargetDecision.display, boolText_plain _ x hx, h.2.1 x hx, h.2.2 x hx, hne]

theorem parseTarget_entryText (h : PlainEntry e) : parseTarget (entryText e) = some (e.1, e.2) := by
  have hsplit : splitOn ';' e.2.display =
      [boolText e.2.replicate, boolText e.2.synchronous, e.2.arn.toList, e.2.id.toList] := by
    rw [ReplicateTargetDecision.display, splitOn_append_cons (boolText_plain _ _ (by simp)),
      splitOn_append_cons (boolText_plain _ _ (by simp)), splitOn_append_cons (h.2.1 _ (by simp)),
      splitOn_single (h.2.2 _ (by simp))]
  have hquote : '"' ∉ e.2.display := entry_plain h (by simp) (by decide)
  have hequals : '=' ∉ e.2.display := entry_plain h (by simp) (by decide)
  have hbool : ∀ b, (boolText b == "true".toList) = b := by decide
  simp only [parseTarget, entryText, splitOn_append_cons (h.1 '=' (by simp)),
    splitOn_single hequals, dropWhile_self hquote, rdropWhile_self hquote, hsplit, hbool,
    String.ofList_toList]

theorem comma_notMem (h : PlainEntry e) : ',' ∉ entryText e := by
  simp [entryText, h.1 ',' (by simp), entry_plain h (x := ',') (by simp) (by decide)]

theorem splitOn_entries (h : ∀ e ∈ es, PlainEntry e) (he : PlainEntry e) :
    splitOn ',' ((es.flatMap fun e => entryText e ++ [',']) ++ entryText e) =
      (es ++ [e]).map entryText := by
  induction es with
  | nil => exact splitOn_single (comma_notMem he)
  | cons e' es ih =>
    obtain ⟨he', hes⟩ := forall_mem_cons.mp h
    rw [flatMap_cons, append_assoc, append_assoc, singleton_append,
      splitOn_append_cons (comma_notMem he'), ih hes, cons_append, map_cons]

/-- The last comma is taken off, and nothing else. -/
theorem rdropWhile_display (h : PlainEntry e) :
    (((es ++ [e]).flatMap fun e => entryText e ++ [',']).rdropWhile (· == ',')) =
      (es.flatMap fun e => entryText e ++ [',']) ++ entryText e := by
  have hne : entryText e ≠ [] := by simp [entryText]
  rw [flatMap_append, flatMap_singleton, ← append_assoc, rdropWhile_concat_pos _ _ _ rfl,
    rdropWhile_eq_self_iff]
  intro hne'
  rw [getLast_append_of_ne_nil hne' hne, beq_of_notMem (comma_notMem h) _ (getLast_mem hne)]
  exact Bool.false_ne_true

theorem foldlM_entryText {s : String} (h : ∀ e ∈ es, PlainEntry e) :
    (es.map entryText).foldlM (parseInto s) decision =
      .ok (es.foldl (fun d e => d.insert e.1 e.2) decision) := by
  induction es generalizing decision with
  | nil => rfl
  | cons e es ih =>
    obtain ⟨he, hes⟩ := forall_mem_cons.mp h
    rw [map_cons, foldlM_cons, parseInto, parseTarget_entryText he, if_neg (by simp [entryText])]
    exact ih hes

theorem lookup_foldl_insert {key : String} (h : es.NodupKeys) :
    (es.foldl (fun d e => d.insert e.1 e.2) decision).lookup key =
      (dlookup key es).or (decision.lookup key) := by
  induction es generalizing decision with
  | nil => rfl
  | cons e es ih =>
    obtain ⟨hkey, hes⟩ := nodupKeys_cons.mp h
    obtain ⟨k, t⟩ := e
    rw [foldl_cons, ih hes]
    by_cases hk : k = key
    · subst hk
      rw [dlookup_eq_none.mpr hkey, dlookup_cons_eq, AList.lookup_insert]
      rfl
    · rw [dlookup_cons_ne _ _ (Ne.symm hk), AList.lookup_insert_ne (Ne.symm hk)]

/-- The decision is read back as it was written, in whatever order its targets were. -/
theorem parseReplicateDecision_display (order : IterOrder TargetEntry) (d : ReplicateDecision)
    (h : ∀ e ∈ d.entries, PlainEntry e) : ∃ d', parseReplicateDecision (d.display order) = .ok d' ∧
      ∀ key, d'.lookup key = d.lookup key := by
  have hperm := order.perm d.entries
  have hnodup : (order.run d.entries).NodupKeys := (perm_nodupKeys hperm).mpr d.nodupKeys
  have hplain : ∀ e ∈ order.run d.entries, PlainEntry e := fun e he => h e (hperm.subset he)
  refine ⟨(order.run d.entries).foldl (fun d e => d.insert e.1 e.2) ∅, ?_, fun key => ?_⟩
  · have hparse : ∀ s, parseReplicateDecision s = (splitOn ',' s.toList).foldlM (parseInto s) ∅ := by
      intro s
      unfold parseReplicateDecision
      split_ifs with hs
      · simp [hs, parseInto]
      · rfl
    rw [hparse, ReplicateDecision.display, String.toList_ofList]
    rcases eq_nil_or_concat (order.run d.entries) with hnil | ⟨es, e, hes⟩
    · rw [hnil]
      rfl
    · rw [hes, concat_eq_append] at hplain ⊢
      obtain ⟨hes, he⟩ := forall_mem_append.mp hplain
      have he := he e (mem_singleton_self e)
      rw [rdropWhile_display he, splitOn_entries hes he, foldlM_entryText hplain]
  · rw [lookup_foldl_insert hnodup, perm_dlookup key hnodup hperm, AList.lookup_empty,
      Option.or_none, AList.lookup]

/-- A decision about two targets, one of them without an id. -/
theorem parseReplicateDecision_two : ∃ d d' : ReplicateDecision, d.keys = ["b", "a"] ∧
    parseReplicateDecision (d.display .insertion) = .ok d' ∧
    ∀ key, d'.lookup key = d.lookup key := by
  have h := parseReplicateDecision_display .insertion
    (((∅ : ReplicateDecision).insert "a" ⟨true, false, "arn:a", "1"⟩).insert "b" ⟨false, true, "", ""⟩)
    (by simp [PlainEntry, Plain])
  exact ⟨_, _, rfl, h.choose_spec⟩

end Rustfs
