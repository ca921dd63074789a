import Rustfs.Rio.DecryptReader

/-! Decrypting what was encrypted. -/
namespace Rustfs.Rio

open Machine List DecryptReader AsyncRead Suite

variable {Key R : Type} {S : Suite Key}

namespace DecryptReader

variable {d : DecryptReader S R} {b : Bytes}

def withBuffer (d : DecryptReader S R) (buffer : Bytes) : DecryptReader S R := { d with buffer }

theorem headerTurn_end (hmode : d.multipartMode = false) :
    d.headerTurn endHeader =
      .again .top { d with finished := true, headerBuf := [], ciphertextBuf := none } := by
  have htyp : headerTyp endHeader = 255 := rfl
  unfold headerTurn
  rw [if_pos htyp, hmode]
  rfl

theorem headerTurn_block {key : Key} {n : Nonce} (hb : IsBlock b) :
    d.headerTurn (header 0 ((S.payload key n b).length + 4) (S.crc32 b)) =
      .again (.payload (S.crc32 b)) { d with
        headerBuf := []
        ciphertextBuf := some (d.ciphertextBuf.getD ([], (S.payload key n b).length)) } := by
  have hshort := length_putUvarint_le (x := b.length) (by have := hb.2; omega)
  have hlen : headerLen (header 0 ((S.payload key n b).length + 4) (S.crc32 b)) =
      (S.payload key n b).length + 4 := by
    refine headerLen_header ?_ _ _
    rw [length_payload]
    have := hb.2
    omega
  unfold headerTurn
  rw [headerTyp_header, if_neg (by decide), hlen, if_neg (by omega), if_neg (by omega),
    headerCrc_header, Nat.add_sub_cancel]

/-- The length in a payload is read back, and what follows it goes to the cipher. -/
theorem openTurn_payload {key : Key} {n : Nonce} (hb : IsBlock b) {a : Option Bytes}
    (hanswer : S.decrypt d.key d.currentNonce (S.encrypt key n b) = a) (crc : BitVec 32)
    (s : ℕ) : d.openTurn crc (S.payload key n b) s = d.opened crc b.length s a := by
  have hlen : b.length < 16384 := by
    have := hb.2
    omega
  have hshort := length_putUvarint_le hlen
  have htake : (S.payload key n b).take 16 = putUvarint 9 b.length ++
      (S.encrypt key n b).take (16 - (putUvarint 9 b.length).length) := by
    rw [payload, take_append, take_of_length_le (by omega)]
  have huvarint := uvarint_putUvarint hlen
    ((S.encrypt key n b).take (16 - (putUvarint 9 b.length).length))
  unfold openTurn
  rw [if_neg (Nat.not_lt.mpr sixteen_le_payload), htake, huvarint]
  rw [if_neg (by omega), Int.toNat_natCast, payload, drop_left, hanswer]

theorem opened_some (crc : BitVec 32) (s : ℕ) (hcrc : S.crc32 b = crc) :
    d.opened crc b.length s (some b) =
      .ready (b.take s) { d with buffer := b.drop s, ciphertextBuf := none } := by
  unfold opened
  dsimp only
  rw [if_neg (by simp), if_neg (by simp [hcrc])]

end DecryptReader

namespace Reading

variable [AsyncRead R] {d : DecryptReader S R} {ss : ℕ → ℕ} {polls : ℕ} {out : Bytes}

/-- How many bytes the next turn asks the inner reader for, if it does. -/
def asks (c : Reading S R) : Option ℕ :=
  match c.position with
  | .top =>
    if c.reader.buffer = [] ∧ c.reader.finished = false then some (8 - c.reader.headerBuf.length)
    else none
  | .payload _ => c.reader.ciphertextBuf.bind fun buf =>
    if buf.1.length < buf.2 then some (buf.2 - buf.1.length) else none

/-- The reads are given what a block needs: a header in one piece where there are eight bytes left,
and a payload without a poll that has to be repeated. -/
def Steady (c : Reading S R) : Prop :=
  match c.position with
  | .top => c.asks = some 8 → ∀ {b r bytes},
      AsyncRead.pollRead c.reader.inner 8 = (.ready b, r) →
      Delivers c.reader.inner bytes → 8 ≤ bytes.length → 8 ≤ b.length
  | .payload _ => ∀ {size r}, c.asks = some size →
      AsyncRead.pollRead c.reader.inner size ≠ (.pending, r)

theorem step_serve {b : Bytes} (hbuffer : b ≠ []) :
    step ⟨.top, d.withBuffer b, ss, polls, out⟩ = .inl ⟨.top,
      d.withBuffer (b.drop (ss polls + 1)), ss, polls + 1, out ++ b.take (ss polls + 1)⟩ := by
  have htake : b.take (ss polls + 1) ≠ [] := by
    simpa using hbuffer
  simp only [step, turn]
  rw [if_pos (show (d.withBuffer b).buffer ≠ [] from hbuffer)]
  exact if_neg htake

theorem step_finished (hbuffer : d.buffer = []) (hfinished : d.finished = true) :
    step ⟨.top, d, ss, polls, out⟩ = .inr (.done out) := by
  simp only [step, turn]
  rw [if_neg (by simp [hbuffer]), if_pos hfinished]
  rfl

theorem step_header (hbuffer : d.buffer = []) (hfinished : d.finished = false) :
    step ⟨.top, d, ss, polls, out⟩ = after ⟨.top, d, ss, polls, out⟩
      (d.headerRead (pollRead d.inner (8 - d.headerBuf.length))) := by
  simp only [step, turn]
  rw [if_neg (by simp [hbuffer]), if_neg (by simp [hfinished])]

/-- The buffer is served before anything else happens. -/
theorem ends_serve {r : Bytes → Outcome}
    (h : ∀ ps out, Along step Steady ⟨.top, d.withBuffer [], ss, ps, out⟩ →
      Ends step ⟨.top, d.withBuffer [], ss, ps, out⟩ (r out)) (b : Bytes) (ps : ℕ) (out : Bytes)
    (halong : Along step Steady ⟨.top, d.withBuffer b, ss, ps, out⟩) :
    Ends step ⟨.top, d.withBuffer b, ss, ps, out⟩ (r (out ++ b)) := by
  induction hn : b.length using Nat.strong_induction_on generalizing b ps out with
  | _ n ih =>
    by_cases hempty : b = []
    · subst b
      rw [append_nil]
      exact h ps out halong
    · have hstep := @step_serve _ _ _ _ d ss ps out _ hempty
      have hpos := length_pos_iff.mpr hempty
      have hless : (b.drop (ss ps + 1)).length < n := by
        rw [length_drop]
        omega
      have hends := ih _ hless _ _ _ (halong.next hstep) rfl
      rw [append_assoc, take_append_drop] at hends
      exact .more hstep hends

variable (S) in
/-- Blocks that can be read back. -/
def Readable (key : Key) (nonce : Nonce) (blocks : List Bytes) : Prop :=
  ∀ b ∈ blocks, IsBlock b ∧ S.Opens key nonce b

variable (S) in
/-- The consumer at the top of the loop, with nothing half read. -/
def atTop (key : Key) (nonce : Nonce) (sizes : ℕ → ℕ) (r : R) (polls : ℕ) (out : Bytes) :
    Reading S R :=
  ⟨.top, .new r key nonce, sizes, polls, out⟩

variable (S) in
/-- The consumer inside the payload of block `b`, of which the bytes `got` are read. -/
def inPayload (key : Key) (nonce : Nonce) (sizes : ℕ → ℕ) (r : R) (b got : Bytes) (polls : ℕ)
    (out : Bytes) : Reading S R :=
  ⟨.payload (S.crc32 b), { (.new r key nonce : DecryptReader S R) with
    ciphertextBuf := some (got, (S.payload key nonce b).length) }, sizes, polls, out⟩

variable (S) in
/-- From the top of the loop, a stream of blocks is read to its end. -/
def ReadsStream (key : Key) (nonce : Nonce) (sizes : ℕ → ℕ) (r : R) (bytes : Bytes) : Prop :=
  ∀ blocks, Readable S key nonce blocks → bytes = S.stream key nonce blocks → ∀ polls out,
    Along step Steady (atTop S key nonce sizes r polls out) →
    Ends step (atTop S key nonce sizes r polls out) (.done (out ++ blocks.flatten))

variable (S) in
/-- From the middle of a payload, the block and the stream after it are read to the end. -/
def ReadsPayload (key : Key) (nonce : Nonce) (sizes : ℕ → ℕ) (r : R) (bytes : Bytes) : Prop :=
  ∀ b blocks got rest, Readable S key nonce (b :: blocks) → S.payload key nonce b = got ++ rest →
    bytes = rest ++ S.stream key nonce blocks → ∀ polls out,
    Along step Steady (inPayload S key nonce sizes r b got polls out) →
    Ends step (inPayload S key nonce sizes r b got polls out)
      (.done (out ++ (b ++ blocks.flatten)))

variable {key : Key} {nonce : Nonce} {r : R} {bytes : Bytes}

theorem eight_le_stream (key : Key) (n : Nonce) (bs : List Bytes) :
    8 ≤ (S.stream key n bs).length := by
  rw [stream, length_append]
  exact Nat.le_add_left _ _

/-- A header is read at the top of the loop. -/
theorem readsStream_of_delivers (h : Delivers r bytes)
    (hpending : ∀ {r'}, pollRead r 8 = (.pending, r') →
      ReadsStream S key nonce ss r' bytes)
    (hready : ∀ {b r'}, pollRead r 8 = (.ready b, r') → b ≠ [] →
      ReadsPayload S key nonce ss r' (bytes.drop b.length)) :
    ReadsStream S key nonce ss r bytes := by
  intro blocks hblocks hbytes polls out halong
  have hlong : 8 ≤ bytes.length := hbytes ▸ eight_le_stream key nonce blocks
  rcases hpoll : pollRead r 8 with ⟨answer, r'⟩
  have hstep : step (atTop S key nonce ss r polls out) = after (atTop S key nonce ss r polls out)
        (headerRead (.new r key nonce) (answer, r')) :=
    hpoll ▸ step_header rfl rfl
  cases answer with
  | pending => exact .more hstep (hpending hpoll blocks hblocks hbytes _ _ (halong.next hstep))
  | error =>
    obtain ⟨_, _, _, sound⟩ := h
    exact absurd hpoll (sound (by decide))
  | ready b =>
    have height : 8 ≤ b.length := halong.here rfl hpoll h hlong
    obtain ⟨_, piece, _, _⟩ := h
    obtain ⟨hle, htake, _⟩ := piece (by decide) hpoll
    have hb : b ≠ [] := by
      rintro rfl
      exact absurd height (by decide)
    have hlen : b.length = 8 := Nat.le_antisymm hle height
    have hstep : step (atTop S key nonce ss r polls out) = after (atTop S key nonce ss r polls out)
          (headerTurn (.new r' key nonce) b) := by
      rw [hstep, headerRead, if_neg hb, if_neg (by simp [new, hlen])]
      rfl
    rw [hlen, hbytes] at htake
    cases blocks with
    | nil =>
      have hend : b = endHeader := htake
      rw [hend, headerTurn_end rfl] at hstep
      refine .more hstep (.stop ?_)
      rw [flatten_nil, append_nil]
      exact step_finished rfl rfl
    | cons p blocks =>
      have hp := (hblocks p (by simp)).1
      have hheader : b = header 0 ((S.payload key nonce p).length + 4) (S.crc32 p) := by
        rw [htake, stream_cons, block, append_assoc]
        exact take_left' rfl
      have hrest : bytes.drop b.length = S.payload key nonce p ++ S.stream key nonce blocks := by
        rw [hlen, hbytes, stream_cons, block, append_assoc]
        exact drop_left' rfl
      rw [hheader, headerTurn_block hp] at hstep
      exact .more hstep (hready hpoll hb p blocks [] _ hblocks rfl hrest _ _ (halong.next hstep))

theorem step_payload (ss : ℕ → ℕ) (ps : ℕ) (out : Bytes) (r : R) {b got : Bytes}
    (hmore : got.length < (S.payload key nonce b).length) :
    step (inPayload S key nonce ss r b got ps out) =
      after (inPayload S key nonce ss r b got ps out)
        (payloadRead (inPayload S key nonce ss r b got ps out).reader
          (S.crc32 b) got (S.payload key nonce b).length
          (pollRead r ((S.payload key nonce b).length - got.length))) :=
  congrArg (after _) (if_pos hmore)

theorem step_open (ss : ℕ → ℕ) (ps : ℕ) (out : Bytes) (r : R) {b : Bytes} (hb : IsBlock b)
    (hopens : S.Opens key nonce b) :
    step (inPayload S key nonce ss r b (S.payload key nonce b) ps out) =
      .inl ⟨.top, withBuffer (.new r key nonce) (b.drop (ss ps + 1)), ss,
        ps + 1, out ++ b.take (ss ps + 1)⟩ := by
  have hturn := openTurn_payload
    (d := (inPayload S key nonce ss r b (S.payload key nonce b) ps out).reader) hb hopens
    (S.crc32 b) (ss ps + 1)
  rw [opened_some _ _ rfl] at hturn
  have htake : b.take (ss ps + 1) ≠ [] := by
    simpa using hb.1
  refine (congrArg (after _) ((if_neg (Nat.lt_irrefl _)).trans hturn)).trans ?_
  exact if_neg htake

/-- A payload is read until it is complete, and then opened. -/
theorem readsPayload_of_delivers (h : Delivers r bytes) (htop : ReadsStream S key nonce ss r bytes)
    (hready : ∀ {size b r'}, 0 < size → pollRead r size = (.ready b, r') → b ≠ [] →
      ReadsPayload S key nonce ss r' (bytes.drop b.length)) :
    ReadsPayload S key nonce ss r bytes := by
  intro b blocks got rest hblocks hpayload hbytes polls out halong
  have hlen := congrArg List.length hpayload
  rw [length_append] at hlen
  by_cases hmore : got.length < (S.payload key nonce b).length
  · have hstep := step_payload ss polls out r hmore
    rcases hpoll : pollRead r ((S.payload key nonce b).length - got.length) with ⟨answer, r'⟩
    have hsize : 0 < (S.payload key nonce b).length - got.length := by omega
    rw [hpoll] at hstep
    cases answer with
    | pending => exact absurd hpoll (halong.here (if_pos hmore))
    | error =>
      obtain ⟨_, _, _, sound⟩ := h
      exact absurd hpoll (sound hsize)
    | ready piece =>
      obtain ⟨_, hpieces, _, _⟩ := h
      obtain ⟨hle, htake, hend⟩ := hpieces hsize hpoll
      have hne : piece ≠ [] := by
        intro hnil
        have hlong := eight_le_stream (S := S) key nonce blocks
        have hzero := congrArg List.length (hbytes.symm.trans (hend hnil))
        rw [length_append, length_nil] at hzero
        omega
      have hle' : piece.length ≤ rest.length := by omega
      have hpiece : got ++ rest = (got ++ piece) ++ rest.drop piece.length := by
        rw [hbytes, take_append_of_le_length hle'] at htake
        nth_rewrite 1 [append_assoc, htake, take_append_drop]
        rfl
      have hdrop : bytes.drop piece.length =
          rest.drop piece.length ++ S.stream key nonce blocks := by
        rw [hbytes, drop_append_of_le_length hle']
      rw [payloadRead, if_neg hne] at hstep
      exact .more hstep (hready hsize hpoll hne b blocks (got ++ piece) _ hblocks
        (hpayload.trans hpiece) hdrop _ _ (halong.next hstep))
  · have hrest : rest = [] := length_eq_zero_iff.mp (by omega)
    subst hrest
    rw [append_nil] at hpayload
    subst hpayload
    obtain ⟨hb, hopens⟩ := hblocks b (by simp)
    have hstep := step_open ss polls out r hb hopens
    have hends := ends_serve (htop blocks (fun p hp => hblocks p (by simp [hp])) hbytes) _ _ _
      (halong.next hstep)
    rw [append_assoc out, take_append_drop, append_assoc] at hends
    exact .more hstep hends

/-- A reader that hands over the stream of some blocks is read to their concatenation. -/
theorem ends_of_delivers (h : Delivers r bytes) :
    ReadsStream S key nonce ss r bytes ∧ ReadsPayload S key nonce ss r bytes := by
  induction h with
  | @intro r bytes repeated piece rest sound ihr ihp =>
    have h : Delivers r bytes := .intro repeated piece rest sound
    have htop : ReadsStream S key nonce ss r bytes :=
      readsStream_of_delivers h (fun hpoll => (ihr (by decide) hpoll).1)
        fun hpoll hb => (ihp (by decide) hpoll hb).2
    exact ⟨htop, readsPayload_of_delivers h htop fun hsize hpoll hb => (ihp hsize hpoll hb).2⟩

/-- An answer that the reader does not survive: a poll to be repeated inside a payload, or a piece of
a header. -/
def disturbs (position : Position) (size : ℕ) : Poll → Bool
  | .pending => position ≠ .top
  | .ready b => position = .top ∧ b ≠ [] ∧ b.length < size
  | .error => false

def Undisturbed (c : Reading S R) : Prop :=
  ∀ size ∈ c.asks, disturbs c.position size (AsyncRead.pollRead c.reader.inner size).1 = false

instance : DecidablePred (Undisturbed (S := S) (R := R)) := fun c =>
  inferInstanceAs (Decidable (∀ size ∈ c.asks,
    disturbs c.position size (AsyncRead.pollRead c.reader.inner size).1 = false))

theorem Undisturbed.steady {c : Reading S R} (h : c.Undisturbed) : c.Steady := by
  rcases c with ⟨position, d, ss, polls, out⟩
  cases position with
  | top =>
    intro hasks b r bytes hpoll hdelivers hlong
    have hdisturbs := h 8 hasks
    rw [hpoll] at hdisturbs
    by_contra hshort
    have hb : b ≠ [] := by
      rintro rfl
      obtain ⟨_, piece, _, _⟩ := hdelivers
      rw [(piece (by decide) hpoll).2.2 rfl] at hlong
      exact absurd hlong (by decide)
    simp [disturbs, hb] at hdisturbs
    omega
  | payload crc =>
    intro size r hasks hpoll
    have hdisturbs := h size hasks
    rw [hpoll] at hdisturbs
    simp [disturbs] at hdisturbs

variable (S) in
/-- A consumer of the decrypting reader over the encrypting one, with a channel between them that
splits the bytes as it likes. -/
def overChannel (source : R) (key : Key) (nonce : Nonce) (schedule : List (Option ℕ))
    (sizes : ℕ → ℕ) : Reading S (Split (EncryptReader S R)) :=
  start (.new ⟨.new source key nonce, schedule⟩ key nonce) sizes

/-- What was encrypted is read back, however it is split, where no answer disturbs the reader. -/
theorem decrypt_encrypt_reads_back {source : R} {plaintext : Bytes}
    (hsource : Delivers source plaintext) (hopens : ∀ p, S.Opens key nonce p)
    (schedule : List (Option ℕ)) (sizes : ℕ → ℕ)
    (hcalm : Along step Undisturbed (overChannel S source key nonce schedule sizes)) :
    Ends step (overChannel S source key nonce schedule sizes) (.done plaintext) := by
  obtain ⟨blocks, hblocks, rfl, hdelivers⟩ :=
    EncryptReader.delivers_stream (S := S) hsource key nonce
  have hreads : ReadsStream S key nonce sizes _ _ :=
    (ends_of_delivers (Split.delivers hdelivers schedule)).1
  exact hreads blocks (fun b hb => ⟨hblocks b hb, hopens b⟩) rfl 0 []
    (hcalm.mono fun _ => Undisturbed.steady)

theorem length_zeroTag (_ : Unit) (_ : Nonce) (p : Bytes) :
    (p ++ List.replicate 16 0).length = p.length + 16 := by
  simp

/-- A cipher that only appends sixteen zeros, with no checksum. -/
def plainSuite : Suite Unit where
  encrypt _ _ plaintext := plaintext ++ List.replicate 16 0
  decrypt _ _ ciphertext := some (ciphertext.take (ciphertext.length - 16))
  length_encrypt := length_zeroTag
  crc32 _ := 0

theorem plainSuite_opens (n : Nonce) (p : Bytes) : plainSuite.Opens () n p := by
  simp [Aead.Opens, plainSuite]

theorem one_byte_reads_back :
    Ends step (overChannel plainSuite (Cursor.mk [7]) () ⟨0, 0⟩ [none, some 7, some 3] fun _ => 4)
      (.done [7]) := by
  exact decrypt_encrypt_reads_back (Cursor.delivers [7]) (plainSuite_opens _) _ _
    (along_of_alongFor (n := 20) (by decide +kernel))

/-- A poll to be repeated after the first header makes the rest of the payload a header. -/
theorem pending_in_payload_fails :
    Delivers (Cursor.mk [1]) [1] ∧ (∀ p, plainSuite.Opens () ⟨0, 0⟩ p) ∧
      Ends step (overChannel plainSuite (Cursor.mk [1]) () ⟨0, 0⟩ [some 7, none] fun _ => 4)
        (.failed .invalidEncryptedBlockLength) ∧
      ¬ Ends step (overChannel plainSuite (Cursor.mk [1]) () ⟨0, 0⟩ [some 7, none] fun _ => 4)
        (.done [1]) := by
  have hfails : Ends step (overChannel plainSuite (Cursor.mk [1]) () ⟨0, 0⟩ [some 7, none] fun _ => 4)
      (.failed .invalidEncryptedBlockLength) := ends_of_runFor (n := 3) rfl
  exact ⟨Cursor.delivers [1], plainSuite_opens _, hfails,
    fun h => absurd (hfails.unique h) (by decide)⟩

end Reading
end Rustfs.Rio
