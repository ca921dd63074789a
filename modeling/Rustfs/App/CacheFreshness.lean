import Mathlib.Order.Lattice
import Rustfs.Lib.Run
import Rustfs.Storage.ResponseCache

/-! `GetObject` calls that read one key through the caches of their nodes while others write and
delete it. -/
namespace Rustfs.CacheFreshness

open ResponseCache

/-- A `GetObject` call: the node it comes to, the version it asks for, and whether it asks for all of
the object. -/
structure GetCall where
  node : ℕ := 0
  versionId : Option String := none
  whole : Bool := true

/-- How far a `GetObject` call has come. A body is known by the number of the change to what the call
asks for that it was read after; `floor` is the last change whose call had returned at the start. -/
inductive GetPhase where
  | idle
  | looking (floor : ℕ)
  | reading (floor : ℕ)
  | served (floor body : ℕ) (fill : Option ℕ)
  | failed

/-- A `PutObject`, `CompleteMultipartUpload` or `DeleteObject` call whose change is in the store: its
node, the numbers of the change for the versions it changes, the version id the store gave it, and
what has been done since. A deletion of what was not there has the numbers of what it found. -/
structure Write where
  node : ℕ
  changes : Option String → Option ℕ
  versionId : Option String
  missing : Bool := false
  spawned : Bool := false
  baseInvalidated : Bool := false
  versionInvalidated : Bool := false
  returned : Bool := false

inductive WritePhase where
  | idle
  | changed (w : Write)
  | failed

structure System where
  /-- How often what is read under a version id has changed. -/
  changes : Option String → ℕ
  /-- The last of these changes whose call has returned. -/
  returned : Option String → ℕ
  /-- Every process has a cache of its own. -/
  caches : ℕ → ResponseCache ℕ
  gets : ℕ → GetPhase
  writes : ℕ → WritePhase

/-- The steps of the calls, of the tasks they spawn, and of the cache by itself. -/
inductive Event where
  | getStart (g : ℕ)
  | getLookup (g now : ℕ)
  | getRead (g : ℕ)
  | getReadCached (g size : ℕ)
  | getFail (g : ℕ)
  | getFill (g now : ℕ)
  | writeChange (w node : ℕ) (touched : Option String → Bool) (versionId : Option String)
  | deleteMissing (w node : ℕ) (asked : Option String → Bool)
  | writeFail (w : ℕ)
  | writeSpawn (w : ℕ)
  | invalidateBase (w : ℕ)
  | invalidateVersion (w : ℕ)
  | writeReturn (w : ℕ)
  | evict (node : ℕ) (key : String)

variable (cfg : CacheConfig) (bucket key : String) (calls : ℕ → GetCall) (s : System)

def System.setGet (g : ℕ) (p : GetPhase) : System :=
  { s with gets := Function.update s.gets g p }

def System.setWrite (w : ℕ) (p : WritePhase) : System :=
  { s with writes := Function.update s.writes w p }

def System.setCache (node : ℕ) (cache : ResponseCache ℕ) : System :=
  { s with caches := Function.update s.caches node cache }

/-- The cache key of what a call asks for. -/
def keyOf (versionId : Option String) : String := makeCacheKey bucket key versionId

def step : Event → System
  | .getStart g =>
    match s.gets g with
    | .idle => s.setGet g (.looking (s.returned (calls g).versionId))
    | _ => s
  | .getLookup g now =>
    match s.gets g with
    | .looking floor =>
      if (calls g).whole then
        match (s.caches (calls g).node).getResponse cfg now
            (keyOf bucket key (calls g).versionId) with
        | (some body, cache) => (s.setCache (calls g).node cache).setGet g (.served floor body none)
        | (none, cache) => (s.setCache (calls g).node cache).setGet g (.reading floor)
      else s.setGet g (.reading floor)
    | _ => s
  | .getRead g =>
    match s.gets g with
    | .reading floor => s.setGet g (.served floor (s.changes (calls g).versionId) none)
    | _ => s
  | .getReadCached g size =>
    match s.gets g with
    | .reading floor =>
      if (calls g).whole then
        s.setGet g (.served floor (s.changes (calls g).versionId) (some size))
      else s
    | _ => s
  | .getFail g =>
    match s.gets g with
    | .reading _ => s.setGet g .failed
    | _ => s
  | .getFill g now =>
    match s.gets g with
    | .served floor body (some size) =>
      (s.setCache (calls g).node ((s.caches (calls g).node).putResponse cfg now
        (keyOf bucket key (calls g).versionId) size body)).setGet g (.served floor body none)
    | _ => s
  | .writeChange w node touched versionId =>
    match s.writes w with
    | .idle =>
      { s with changes := fun v => if touched v then s.changes v + 1 else s.changes v }.setWrite w
        (.changed
          { node := node
            changes := fun v => if touched v then some (s.changes v + 1) else none
            versionId := versionId })
    | _ => s
  | .deleteMissing w node asked =>
    match s.writes w with
    | .idle => s.setWrite w (.changed
        { node := node
          changes := fun v => if asked v then some (s.changes v) else none
          versionId := none
          missing := true })
    | _ => s
  | .writeFail w =>
    match s.writes w with
    | .idle => s.setWrite w .failed
    | _ => s
  | .writeSpawn w =>
    match s.writes w with
    | .changed a => if a.missing then s else s.setWrite w (.changed { a with spawned := true })
    | _ => s
  | .invalidateBase w =>
    match s.writes w with
    | .changed a =>
      if a.spawned then
        (s.setCache a.node ((s.caches a.node).invalidate (keyOf bucket key none))).setWrite w
          (.changed { a with baseInvalidated := true })
      else s
    | _ => s
  | .invalidateVersion w =>
    match s.writes w with
    | .changed a =>
      if a.baseInvalidated && a.versionId.isSome then
        (s.setCache a.node ((s.caches a.node).invalidate (keyOf bucket key a.versionId))).setWrite w
          (.changed { a with versionInvalidated := true })
      else s
    | _ => s
  | .writeReturn w =>
    match s.writes w with
    | .changed a =>
      if a.spawned || a.missing then
        { s with returned := fun v => max (s.returned v) ((a.changes v).getD 0) }.setWrite w
          (.changed { a with returned := true })
      else s
    | _ => s
  | .evict node k => s.setCache node ((s.caches node).invalidate k)

/-- The servers start with empty caches and no calls. -/
def initial : System where
  changes _ := 0
  returned _ := 0
  caches _ := .empty
  gets _ := .idle
  writes _ := .idle

/-- The task of the write has invalidated the cache key of this version id, on its node. -/
def Write.Invalidated (a : Write) (v : Option String) : Prop :=
  v = none ∧ a.baseInvalidated = true ∨ v.isSome ∧ v = a.versionId ∧ a.versionInvalidated = true

/-- A write returns when no cache has what it has changed in an older state: its task has invalidated
it, or it is not there. A body is put into a cache while it is the last one. -/
def Sound : Event → Prop
  | .writeReturn w => ∀ a, s.writes w = .changed a → ∀ v n, a.changes v = some n → ∀ node,
      node = a.node ∧ a.Invalidated v ∨
        ∀ body, (s.caches node).Holds (keyOf bucket key v) body → n ≤ body
  | .getFill g _ => ∀ floor body size, s.gets g = .served floor body (some size) →
      body = s.changes (calls g).versionId
  | _ => True

/-- Every body served is as new as the changes whose calls had returned before. -/
def Fresh : Prop :=
  ∀ g floor body fill, s.gets g = .served floor body fill → floor ≤ body

/-- What holds of every state of a sound run: a cached body is as new as every change whose task has
invalidated its key, and as new as every change whose call has returned. -/
structure Inv (s : System) : Prop where
  returned_le : ∀ v, s.returned v ≤ s.changes v
  change_le : ∀ w a v n, s.writes w = .changed a → a.changes v = some n → n ≤ s.changes v
  invalidated : ∀ w a v n body, s.writes w = .changed a → a.changes v = some n → a.Invalidated v →
    (s.caches a.node).Holds (keyOf bucket key v) body → n ≤ body
  cached : ∀ node v body, (s.caches node).Holds (keyOf bucket key v) body → s.returned v ≤ body
  waiting : ∀ g floor, s.gets g = .looking floor ∨ s.gets g = .reading floor →
    floor ≤ s.returned (calls g).versionId
  fresh : Fresh s

section

variable {cfg bucket key calls} {s : System} {g w : ℕ} {e : Event}

theorem keyOf_injective : Function.Injective (keyOf bucket key) := by
  intro v v' h
  cases v with
  | none =>
    cases v' with
    | none => rfl
    | some vid =>
      have hlen := congrArg (fun k => k.toList.length) h
      simp [keyOf, makeCacheKey] at hlen
  | some vid =>
    cases v' with
    | none =>
      have hlen := congrArg (fun k => k.toList.length) h
      simp [keyOf, makeCacheKey] at hlen
    | some vid' =>
      simpa [keyOf, makeCacheKey] using h

theorem inv_initial : Inv bucket key calls initial where
  returned_le _ := Nat.le_refl _
  change_le _ _ _ _ hw := nomatch hw
  invalidated _ _ _ _ _ hw := nomatch hw
  cached _ _ _ h := by
    obtain ⟨cached, hcached, -⟩ := h
    cases hcached
  waiting _ _ h := by rcases h with h | h <;> cases h
  fresh _ _ _ _ h := nomatch h

section

variable (h : Inv bucket key calls s)
include h

/-- A step of a `GetObject` call that waits only for what has returned, and serves nothing older. -/
theorem Inv.setGet {p : GetPhase} (hwait : ∀ floor, p = .looking floor ∨ p = .reading floor →
      floor ≤ s.returned (calls g).versionId)
    (hserve : ∀ floor body fill, p = .served floor body fill → floor ≤ body) :
    Inv bucket key calls (s.setGet g p) where
  returned_le := h.returned_le
  change_le := h.change_le
  invalidated := h.invalidated
  cached := h.cached
  waiting g' floor hg := by
    by_cases hgg : g' = g
    · subst hgg
      exact hwait floor (by simpa [System.setGet] using hg)
    · exact h.waiting g' floor (by simpa [System.setGet, hgg] using hg)
  fresh g' floor body fill hg := by
    by_cases hgg : g' = g
    · subst hgg
      exact hserve floor body fill (by simpa [System.setGet] using hg)
    · exact h.fresh g' floor body fill (by simpa [System.setGet, hgg] using hg)

/-- A cache is changed where what it gets is the last body. -/
theorem Inv.setCache {node : ℕ} {cache : ResponseCache ℕ}
    (hnew : ∀ v body, cache.Holds (keyOf bucket key v) body →
      s.changes v ≤ body ∨ (s.caches node).Holds (keyOf bucket key v) body) :
    Inv bucket key calls (s.setCache node cache) := by
  have hold : ∀ node' v body, ((s.setCache node cache).caches node').Holds (keyOf bucket key v) body →
      s.changes v ≤ body ∨ (s.caches node').Holds (keyOf bucket key v) body := by
    intro node' v body hbody
    by_cases hnode : node' = node
    · subst hnode
      exact hnew v body (by simpa [System.setCache] using hbody)
    · exact .inr (by simpa [System.setCache, hnode] using hbody)
  exact
    { returned_le := h.returned_le
      change_le := h.change_le
      invalidated := fun w a v n body hw hn hdone hbody => by
        rcases hold a.node v body hbody with hle | hbody
        · exact (h.change_le w a v n hw hn).trans hle
        · exact h.invalidated w a v n body hw hn hdone hbody
      cached := fun node' v body hbody => by
        rcases hold node' v body hbody with hle | hbody
        · exact (h.returned_le v).trans hle
        · exact h.cached node' v body hbody
      waiting := h.waiting
      fresh := h.fresh }

theorem Inv.shrink {node : ℕ} {cache : ResponseCache ℕ}
    (hsub : ∀ k body, cache.Holds k body → (s.caches node).Holds k body) :
    Inv bucket key calls (s.setCache node cache) :=
  h.setCache fun _ _ hbody => .inr (hsub _ _ hbody)

/-- A step of a write that has changed what the store has, and has invalidated what it says. -/
theorem Inv.setWrite {p : WritePhase}
    (hp : ∀ a v n, p = .changed a → a.changes v = some n → n ≤ s.changes v ∧
      (a.Invalidated v → ∀ body, (s.caches a.node).Holds (keyOf bucket key v) body → n ≤ body)) :
    Inv bucket key calls (s.setWrite w p) where
  returned_le := h.returned_le
  change_le w' a v n hw' hn := by
    by_cases hww : w' = w
    · subst hww
      exact (hp a v n (by simpa [System.setWrite] using hw') hn).1
    · exact h.change_le w' a v n (by simpa [System.setWrite, hww] using hw') hn
  invalidated w' a v n body hw' hn hdone hbody := by
    by_cases hww : w' = w
    · subst hww
      exact (hp a v n (by simpa [System.setWrite] using hw') hn).2 hdone body hbody
    · exact h.invalidated w' a v n body (by simpa [System.setWrite, hww] using hw') hn hdone hbody
  cached := h.cached
  waiting := h.waiting
  fresh := h.fresh

/-- A write that has begun, with nothing invalidated yet. -/
theorem Inv.begin {a : Write} (hbase : a.baseInvalidated = false)
    (hversion : a.versionInvalidated = false)
    (hle : ∀ v n, a.changes v = some n → n ≤ s.changes v) :
    Inv bucket key calls (s.setWrite w (.changed a)) := by
  refine h.setWrite fun b v n heq hn => ?_
  cases heq
  refine ⟨hle v n hn, fun hdone => ?_⟩
  rcases hdone with ⟨-, hdone⟩ | ⟨-, -, hdone⟩
  · exact nomatch hbase.symm.trans hdone
  · exact nomatch hversion.symm.trans hdone

theorem lookup_inv {now : ℕ} :
    Inv bucket key calls (step cfg bucket key calls s (.getLookup g now)) := by
  unfold step
  dsimp only
  split
  · rename_i floor hg
    have hfloor := h.waiting g floor (.inl hg)
    split
    · split
      · rename_i body cache hres
        have hbody : (s.caches (calls g).node).Holds (keyOf bucket key (calls g).versionId) body :=
          holds_of_getResponse (by rw [hres])
        refine (h.shrink fun k b hb => ?_).setGet (by simp) fun floor' body' fill heq => ?_
        · exact holds_of_getResponse_snd (by rw [hres]; exact hb)
        · cases heq
          exact hfloor.trans (h.cached _ _ _ hbody)
      · rename_i cache hres
        refine (h.shrink fun k b hb => ?_).setGet (fun floor' heq => ?_) (by simp)
        · exact holds_of_getResponse_snd (by rw [hres]; exact hb)
        · rcases heq with heq | heq <;> cases heq
          exact hfloor
    · refine h.setGet (fun floor' heq => ?_) (by simp)
      rcases heq with heq | heq <;> cases heq
      exact hfloor
  · exact h

/-- What a call reads from the store is the last body. -/
theorem read_inv {f : ℕ} (hg : s.gets g = .reading f) (fill : Option ℕ) :
    Inv bucket key calls (s.setGet g (.served f (s.changes (calls g).versionId) fill)) := by
  refine h.setGet (by simp) fun floor' body' fill' heq => ?_
  cases heq
  exact (h.waiting g f (.inr hg)).trans (h.returned_le _)

theorem fill_inv {now : ℕ} (hsound : Sound bucket key calls s (.getFill g now)) :
    Inv bucket key calls (step cfg bucket key calls s (.getFill g now)) := by
  unfold step
  dsimp only
  split
  · rename_i floor body size hg
    have hlast := hsound floor body size hg
    refine (h.setCache fun v b hb => ?_).setGet (by simp) fun floor' body' fill heq => ?_
    · rcases holds_of_putResponse hb with ⟨hkey, rfl⟩ | hb
      · obtain rfl := keyOf_injective hkey
        exact .inl hlast.ge
      · exact .inr hb
    · cases heq
      exact h.fresh g floor body _ hg
  · exact h

theorem change_inv {node : ℕ} {t : Option String → Bool} {vi : Option String} :
    Inv bucket key calls (step cfg bucket key calls s (.writeChange w node t vi)) := by
  unfold step
  dsimp only
  split
  · have hmono : ∀ v, s.changes v ≤ if t v then s.changes v + 1 else s.changes v := by
      intro v
      split
      · exact Nat.le_succ _
      · exact le_rfl
    have hinv : Inv bucket key calls { s with
        changes := fun v => if t v then s.changes v + 1 else s.changes v } :=
      { returned_le := fun v => (h.returned_le v).trans (hmono v)
        change_le := fun w a v n hw hn => (h.change_le w a v n hw hn).trans (hmono v)
        invalidated := h.invalidated
        cached := h.cached
        waiting := h.waiting
        fresh := h.fresh }
    refine hinv.begin rfl rfl fun v n hn => ?_
    obtain ⟨ht, hn⟩ := Option.ite_none_right_eq_some.mp hn
    cases hn
    exact (if_pos ht).ge
  · exact h

theorem missing_inv {node : ℕ} {t : Option String → Bool} :
    Inv bucket key calls (step cfg bucket key calls s (.deleteMissing w node t)) := by
  unfold step
  dsimp only
  split
  · refine h.begin rfl rfl fun v n hn => ?_
    obtain ⟨-, hn⟩ := Option.ite_none_right_eq_some.mp hn
    exact (Option.some.inj hn).ge
  · exact h

theorem invalidate_inv {a a' : Write} {v : Option String} (hw : s.writes w = .changed a)
    (hnode : a'.node = a.node) (hchanges : a'.changes = a.changes)
    (hdone : ∀ v', a'.Invalidated v' → v' = v ∨ a.Invalidated v') :
    Inv bucket key calls ((s.setCache a.node
      ((s.caches a.node).invalidate (keyOf bucket key v))).setWrite w (.changed a')) := by
  have hshrink := h.shrink fun k b
    (hb : ((s.caches a.node).invalidate (keyOf bucket key v)).Holds k b) => (holds_of_invalidate hb).2
  refine hshrink.setWrite fun b v' n heq hn => ?_
  cases heq
  refine ⟨h.change_le w a v' n hw (hchanges ▸ hn), fun hdone' body hbody => ?_⟩
  · obtain ⟨hne, hheld⟩ : keyOf bucket key v' ≠ keyOf bucket key v ∧
        (s.caches a.node).Holds (keyOf bucket key v') body :=
      holds_of_invalidate (by simpa [hnode, System.setCache] using hbody)
    rcases hdone v' hdone' with rfl | hold
    · exact absurd rfl hne
    · exact h.invalidated w a v' n body hw (hchanges ▸ hn) hold hheld

/-- A call returns when no cache has what it has changed in an older state. -/
theorem return_inv (hsound : Sound bucket key calls s (.writeReturn w)) :
    Inv bucket key calls (step cfg bucket key calls s (.writeReturn w)) := by
  unfold step
  dsimp only
  split
  · rename_i a hw
    have hdone := hsound a hw
    split
    · have hinv : Inv bucket key calls { s with
          returned := fun v => max (s.returned v) ((a.changes v).getD 0) } :=
        { returned_le := fun v => by
            cases hn : a.changes v with
            | none => simpa [hn] using h.returned_le v
            | some n => simpa [hn] using ⟨h.returned_le v, h.change_le w a v n hw hn⟩
          change_le := h.change_le
          invalidated := h.invalidated
          cached := fun node v body hbody => by
            cases hn : a.changes v with
            | none => simpa [hn] using h.cached node v body hbody
            | some n =>
              have hle : n ≤ body := by
                rcases hdone v n hn node with ⟨rfl, hinvalidated⟩ | hgone
                · exact h.invalidated w a v n body hw hn hinvalidated hbody
                · exact hgone body hbody
              simpa [hn] using ⟨h.cached node v body hbody, hle⟩
          waiting := fun g floor hg => (h.waiting g floor hg).trans (le_max_left _ _)
          fresh := h.fresh }
      refine hinv.setWrite fun b v n heq hn => ?_
      cases heq
      exact ⟨h.change_le w a v n hw hn, fun hdone' body hbody =>
        h.invalidated w a v n body hw hn hdone' hbody⟩
    · exact h
  · exact h

theorem step_inv (hsound : Sound bucket key calls s e) :
    Inv bucket key calls (step cfg bucket key calls s e) := by
  cases e with
  | getStart g =>
    unfold step
    dsimp only
    split
    · refine h.setGet (fun floor heq => ?_) (by simp)
      rcases heq with heq | heq <;> cases heq
      exact le_rfl
    · exact h
  | getLookup g now => exact lookup_inv h
  | getRead g =>
    unfold step
    dsimp only
    split
    · exact read_inv h ‹_› none
    · exact h
  | getReadCached g size =>
    unfold step
    dsimp only
    split
    · split
      · exact read_inv h ‹_› (some size)
      · exact h
    · exact h
  | getFail g =>
    unfold step
    dsimp only
    split
    · exact h.setGet (by simp) (by simp)
    · exact h
  | getFill g now => exact fill_inv h hsound
  | writeChange w node touched versionId => exact change_inv h
  | deleteMissing w node asked => exact missing_inv h
  | writeFail w =>
    unfold step
    dsimp only
    split
    · exact h.setWrite (by simp)
    · exact h
  | writeSpawn w =>
    unfold step
    dsimp only
    split
    · rename_i a hw
      split
      · exact h
      · refine h.setWrite fun b v n heq hn => ?_
        cases heq
        exact ⟨h.change_le w a v n hw hn, fun hdone body hbody =>
          h.invalidated w a v n body hw hn hdone hbody⟩
    · exact h
  | invalidateBase w =>
    unfold step
    dsimp only
    split
    · rename_i a hw
      split
      · refine invalidate_inv (a := a) h hw rfl rfl fun v' hdone => ?_
        rcases hdone with ⟨hnone, -⟩ | hversion
        · exact .inl hnone
        · exact .inr (.inr hversion)
      · exact h
    · exact h
  | invalidateVersion w =>
    unfold step
    dsimp only
    split
    · rename_i a hw
      split
      · refine invalidate_inv (a := a) h hw rfl rfl fun v' hdone => ?_
        rcases hdone with hbase | ⟨-, heq, -⟩
        · exact .inr (.inl hbase)
        · exact .inl heq
      · exact h
    · exact h
  | writeReturn w => exact return_inv h hsound
  | evict node k => exact h.shrink fun _ _ hb => (holds_of_invalidate hb).2

end

/-- Along every run in which writes return when no cache has an older body and bodies are cached while
they are the last ones, no call serves a body that is older than a change that had returned before. -/
theorem getObject_fresh {steps : List Event}
    (h : Run.Along (step cfg bucket key calls) (Sound bucket key calls) initial steps) :
    Fresh (steps.foldl (step cfg bucket key calls) initial) :=
  (Run.invariant (fun _ _ => step_inv) h inv_initial).fresh

end

section

def plainConfig : CacheConfig := { ttlSecs := 300, hotMinHits := 5, maxObjectSize := 1000 }

/-- A call reads the object, to fill the cache with it. -/
def firstRead : List Event := [.getStart 0, .getLookup 0 0, .getReadCached 0 10]

/-- A call on this node changes the latest version in the store and spawns its invalidation. -/
def changeLatest (node : ℕ) : List Event := [.writeChange 0 node (·.isNone) none, .writeSpawn 0]

/-- Another call comes after the write has returned. -/
def secondGet : List Event := [.getStart 1, .getLookup 1 1]

/-- The object is deleted, and once more on another node. -/
def orderly : List Event :=
  firstRead ++ [.getFill 0 0] ++ changeLatest 0 ++ [.invalidateBase 0, .writeReturn 0] ++
    [.deleteMissing 1 1 (·.isNone), .writeReturn 1] ++ secondGet

theorem getObject_fresh_orderly :
    Fresh (orderly.foldl (step plainConfig "bucket" "key" fun _ => {}) initial) := by
  refine getObject_fresh ⟨trivial, trivial, trivial, ?_, trivial, trivial, trivial, ?_, trivial, ?_,
    trivial, trivial, trivial⟩
  · intro floor body size hg
    cases hg
    rfl
  · intro a ha v n hn node
    cases ha
    obtain rfl : v = none := by
      cases v with
      | none => rfl
      | some vid => cases hn
    cases node with
    | zero => exact .inl ⟨rfl, .inl ⟨rfl, rfl⟩⟩
    | succ node =>
      right
      rintro body ⟨cached, hcached, -⟩
      cases hcached
  · intro a ha v n hn node
    cases ha
    obtain rfl : v = none := by
      cases v with
      | none => rfl
      | some vid => cases hn
    right
    rintro body ⟨cached, hcached, -⟩
    cases node with
    | zero => cases hcached
    | succ node => cases hcached

/-- The invalidation of the write comes after its return. -/
def lateInvalidation : List Event :=
  firstRead ++ [.getFill 0 0] ++ changeLatest 0 ++ [.writeReturn 0] ++ secondGet

/-- The cache is filled with the body that was read before the write. -/
def lateFill : List Event :=
  firstRead ++ changeLatest 0 ++ [.invalidateBase 0, .writeReturn 0, .getFill 0 0] ++ secondGet

/-- The write comes to another node, which has another cache. -/
def otherNode : List Event :=
  firstRead ++ [.getFill 0 0] ++ changeLatest 1 ++ [.invalidateBase 0, .writeReturn 0] ++ secondGet

/-- A second deletion finds nothing to delete, and returns before the first has invalidated. -/
def secondDeletion : List Event :=
  firstRead ++ [.getFill 0 0] ++ changeLatest 0 ++
    [.deleteMissing 1 0 (·.isNone), .writeReturn 1] ++ secondGet

/-- The write of the null version invalidates the key with the text of its id. -/
def otherText : List Event :=
  firstRead ++
    [.getFill 0 0, .writeChange 0 0 (fun _ => true) (some "00000000-0000-0000-0000-000000000000"),
      .writeSpawn 0, .invalidateBase 0, .invalidateVersion 0, .writeReturn 0] ++ secondGet

/-- In each of these runs the old body is served after the write has returned. -/
theorem getObject_stale :
    (∀ run ∈ [lateInvalidation, lateFill, otherNode, secondDeletion],
      ¬Fresh (run.foldl (step plainConfig "bucket" "key" fun _ => {}) initial)) ∧
    ¬Fresh (otherText.foldl
      (step plainConfig "bucket" "key" fun _ => { versionId := some "null" }) initial) := by
  simp only [List.forall_mem_cons]
  refine ⟨⟨fun h => ?_, fun h => ?_, fun h => ?_, fun h => ?_, nofun⟩, fun h => ?_⟩
  all_goals exact absurd (h 1 1 0 none rfl) (by decide)

end

end Rustfs.CacheFreshness
