import RustCfml.Lib.Run

/-!
# Resuming a channel

A frame takes its number, is recorded in its channel's history and is delivered, in three steps with
no lock held from one to the next, and a connection that comes back is registered in one step and
replayed to in another. **What is between two of these steps is replayed and delivered**
(`caughtTwice`), or, when a later number was recorded first, neither.

The cursor is the id of whatever frame came last. Not every frame is in the history: a direct send
takes a number of the same counter, and a peer's frame has that peer's name on it, for which
`replaySince` does nothing at all.
-/

namespace RustCfml.Realtime

open StateMachine List

inductive Phase where
  | offline
  | joining
  | live
deriving DecidableEq

/-- The id of a frame a client received: whether this node minted it, and its number. -/
structure EventId where
  own : Bool
  seq : Nat
  /-- How many frames the channel had sent when this one was received. -/
  sentBefore : Nat
deriving DecidableEq

/-- A channel that keeps a history, and one client of it. Its frames go by their numbers. -/
structure Channel where
  seq : Nat
  cap : Nat
  ring : List Nat
  sent : List Nat
  minted : List Nat
  inFlight : List Nat
  phase : Phase
  /-- The last frame the client received, and the one it named when it came back. -/
  last : Option EventId
  cursor : EventId
  /-- What the client received of the channel's frames on this connection, and before. -/
  got : List Nat
  seen : List Nat
  reset : Bool

namespace Channel

/-- A channel before its first frame, and a client of it. -/
@[local simp] def init (cap : Nat) : Channel :=
  ⟨1, cap, [], [], [], [], .live, none, ⟨true, 0, 0⟩, [], [], false⟩

inductive Op where
  /-- `next_id` for a frame of this channel, and for any other frame. -/
  | mint
  | mintOther
  | record (n : Nat)
  | deliver (n : Nat)
  /-- A frame for this client alone, and a peer's frame: neither is in the history. -/
  | direct
  | foreign (seq : Nat)
  | disconnect
  | register
  | replay

/-- `record_history`: the frame goes to the back of the ring, which is cut to the cap. -/
def recordHistory (s : Channel) (n : Nat) : Channel :=
  let ring := s.ring ++ [n]
  { s with ring := ring.drop (ring.length - s.cap), sent := s.sent ++ [n] }

/-- The client receives a frame of this node. -/
def receive (s : Channel) (n : Nat) : Option EventId := some ⟨true, n, s.sent.length⟩

/-- `replay_since`. The frame that tells to reset takes a number, and comes before what is
replayed. -/
def replaySince (s : Channel) : Channel :=
  if s.cursor.own then
    let oldest := s.ring.min?.getD 0
    let frames := s.ring.filter (s.cursor.seq < ·)
    let reset := decide (s.ring ≠ [] ∧ s.cursor.seq < oldest)
    { s with
      reset := reset
      seq := if reset then s.seq + 1 else s.seq
      got := s.got ++ frames
      last := (frames.getLast?.bind s.receive).or s.last }
  else s -- minted by another node: neither reset nor replay

def step (s : Channel) : Op → Channel
  | .mint => { s with minted := s.minted ++ [s.seq], seq := s.seq + 1 }
  | .mintOther => { s with seq := s.seq + 1 }
  | .record n =>
    if n ∈ s.minted then
      { s.recordHistory n with minted := s.minted.erase n, inFlight := s.inFlight ++ [n] }
    else s
  | .deliver n =>
    if n ∈ s.inFlight then
      { s with
        inFlight := s.inFlight.erase n
        got := if s.phase = .offline then s.got else s.got ++ [n]
        last := if s.phase = .offline then s.last else s.receive n }
    else s
  | .direct =>
    { s with seq := s.seq + 1, last := if s.phase = .offline then s.last else s.receive s.seq }
  | .foreign seq =>
    { s with last := if s.phase = .offline then s.last else some ⟨false, seq, s.sent.length⟩ }
  | .disconnect => { s with phase := .offline }
  | .register =>
    match s.phase, s.last with
    | .offline, some last =>
      { s with
        phase := .joining
        cursor := last
        seen := s.seen ++ s.got
        got := []
        reset := false }
    | _, _ => s
  | .replay => if s.phase = .joining then { s.replaySince with phase := .live } else s

/-- What was sent after the last frame received, and not received. -/
def missed (s : Channel) : List Nat :=
  (if s.cursor.own ∧ s.cursor.seq ∈ s.sent then (s.sent.dropWhile (· != s.cursor.seq)).tail
    else s.sent.drop s.cursor.sentBefore).filter (· ∉ s.seen)

/-- A client that is back was told to reset or got just what it missed, as soon as no frame is
between its recording and its delivery. -/
def Resumed (s : Channel) : Prop :=
  s.phase = .live → s.reset = false → s.inFlight = [] → s.got = s.missed

/-- The channel's frames are recorded and delivered in the order of their numbers, and none is
delivered between a registration and its replay, nor on its way at the replay. A client comes back
with the id of one of these frames. -/
def Orderly (s : Channel) : Op → Prop
  | .record n => ∀ m ∈ s.minted.erase n, n < m
  | .deliver n => s.phase ≠ .joining ∧ s.inFlight.head? = some n
  | .register => ∀ id, s.last = some id → id.own = true ∧ id.seq ∈ s.sent
  | .replay => s.inFlight = []
  | _ => True

structure Inv (s : Channel) : Prop where
  cap : 0 < s.cap
  sorted : s.sent.Pairwise (· < ·)
  below : ∀ n ∈ s.sent, 0 < n ∧ n < s.seq ∧ ∀ m ∈ s.minted, n < m
  minted : ∀ m ∈ s.minted, 0 < m ∧ m < s.seq
  seq : 0 < s.seq
  ring : s.ring <:+ s.sent ∧ (s.sent ≠ [] → s.ring ≠ [])
  flying : s.inFlight <:+ s.sent
  received : (s.seen ++ s.got).Pairwise (· < ·) ∧ s.seen ++ s.got ⊆ s.sent
  ahead : s.phase = .live → ∀ n ∈ s.seen ++ s.got, ∀ m ∈ s.inFlight, n < m
  cursor : s.cursor.own = true ∧ (∀ n ∈ s.seen, n ≤ s.cursor.seq) ∧
    (s.cursor.seq ∈ s.sent ∨ s.cursor.seq = 0 ∧ s.cursor.sentBefore = 0)
  last : ∀ id, s.last = some id → id.own = true → id.seq < s.seq ∧ id.seq ∉ s.minted ∧
    (id.seq ∈ s.sent → (s.seen ++ s.got).getLast? = some id.seq)
  fresh : s.phase = .joining → s.got = []
  complete : s.phase = .live → s.reset = false →
    s.got ++ s.inFlight = s.sent.filter (s.cursor.seq < ·)

lemma tail_dropWhile {l : List Nat} (h : l.Pairwise (· < ·)) {c : Nat} (hc : c ∈ l) :
    (l.dropWhile (· != c)).tail = l.filter (c < ·) := by
  induction l with
  | nil => cases hc
  | cons a l ih =>
    obtain ⟨ha, hl⟩ := pairwise_cons.1 h
    by_cases hac : a = c
    · subst hac
      have : l.filter (a < ·) = l := filter_eq_self.2 fun x hx => by simpa using ha x hx
      simp [this]
    · have hc' : c ∈ l := by simpa [Ne.symm hac] using hc
      have hlt := ha c hc'
      simp [hac, ih hl hc', Nat.le_of_lt hlt]

variable {s : Channel}

lemma Inv.resumed (h : s.Inv) : s.Resumed := by
  intro hl hr hf
  have hgot := h.complete hl hr
  rw [hf, append_nil] at hgot
  obtain ⟨hown, hseen, hat⟩ := h.cursor
  have hmissed : s.missed = (s.sent.filter (s.cursor.seq < ·)).filter (· ∉ s.seen) := by
    unfold missed
    split
    next hc => rw [tail_dropWhile h.sorted hc.2]
    next hc =>
      obtain ⟨h0, hb⟩ := hat.resolve_left fun hm => hc ⟨hown, hm⟩
      rw [hb, drop_zero]
      congr 1
      exact (filter_eq_self.2 fun x hx => by simpa [h0] using (h.below x hx).1).symm
  rw [hmissed, hgot]
  refine (filter_eq_self.2 fun x hx => ?_).symm
  have hlt : s.cursor.seq < x := by simpa using (mem_filter.1 hx).2
  have : x ∉ s.seen := fun hs => absurd (hseen x hs) (by omega)
  simpa using this

lemma Inv.record (h : s.Inv) {n : Nat} (hn : n ∈ s.minted) (hg : ∀ m ∈ s.minted.erase n, n < m) :
    (s.step (.record n)).Inv := by
  have hnew : ∀ m ∈ s.sent, m < n := fun m hm => (h.below m hm).2.2 n hn
  obtain ⟨hpos, hseq⟩ := h.minted n hn
  have hrec := h.received
  have hcur := h.cursor
  simp only [step, if_pos hn, recordHistory]
  constructor
  case cap => exact h.cap
  case seq => exact h.seq
  case sorted => simpa [pairwise_append] using ⟨h.sorted, hnew⟩
  case below =>
    intro m hm
    rcases mem_append.1 hm with hm | hm
    · obtain ⟨h1, h2, h3⟩ := h.below m hm
      exact ⟨h1, h2, fun k hk => h3 k (mem_of_mem_erase hk)⟩
    · obtain rfl := mem_singleton.1 hm
      exact ⟨hpos, hseq, hg⟩
  case minted => exact fun m hm => h.minted m (mem_of_mem_erase hm)
  case ring =>
    refine ⟨(drop_suffix _ _).trans ?_, fun _ hnil => ?_⟩
    · obtain ⟨l, hl⟩ := h.ring.1
      exact ⟨l, by rw [← append_assoc, hl]⟩
    · have := drop_eq_nil_iff.1 hnil
      have hc := h.cap
      simp at this
      omega
  case flying =>
    obtain ⟨l, hl⟩ := h.flying
    exact ⟨l, by rw [← append_assoc, hl]⟩
  case received => exact ⟨hrec.1, fun m hm => mem_append_left _ (hrec.2 hm)⟩
  case ahead =>
    intro hl m hm k hk
    rcases mem_append.1 hk with hk | hk
    · exact h.ahead hl m hm k hk
    · obtain rfl := mem_singleton.1 hk
      exact hnew m (hrec.2 hm)
  case cursor => exact ⟨hcur.1, hcur.2.1, hcur.2.2.imp_left (mem_append_left _)⟩
  case last =>
    intro id hid hown
    obtain ⟨h1, h2, h3⟩ := h.last id hid hown
    refine ⟨h1, fun hm => h2 (mem_of_mem_erase hm), fun hm => h3 ?_⟩
    rcases mem_append.1 hm with hm | hm
    · exact hm
    · exact absurd (mem_singleton.1 hm ▸ hn) h2
  case fresh => exact h.fresh
  case complete =>
    intro hl hr
    have hlt : s.cursor.seq < n := by
      rcases hcur.2.2 with hc | hc
      · exact hnew _ hc
      · omega
    rw [filter_append, ← h.complete hl hr]
    simp [hlt]

lemma Inv.deliver (h : s.Inv) {n : Nat} (hj : s.phase ≠ .joining) (hn : s.inFlight.head? = some n) :
    (s.step (.deliver n)).Inv := by
  obtain ⟨rest, hrest⟩ : ∃ rest, s.inFlight = n :: rest := by
    cases hf : s.inFlight with
    | nil => simp [hf] at hn
    | cons m rest =>
      obtain rfl : m = n := by simpa [hf] using hn
      exact ⟨rest, rfl⟩
  have hrec := h.received
  have hfly := h.flying
  have hahead := h.ahead
  have hcomplete := h.complete
  rw [hrest] at hfly hahead hcomplete
  have hflying := (suffix_cons n rest).trans hfly
  have hsort : (n :: rest).Pairwise (· < ·) := h.sorted.sublist hfly.sublist
  have hmem : n ∈ s.inFlight := by simp [hrest]
  have herase : s.inFlight.erase n = rest := by rw [hrest, erase_cons_head]
  simp only [step, if_pos hmem, herase]
  cases hp : s.phase with
  | joining => exact absurd hp hj
  | offline =>
    exact ⟨h.cap, h.sorted, h.below, h.minted, h.seq, h.ring, hflying, hrec, by simp, h.cursor,
      by simpa using h.last, by simp, by simp⟩
  | live =>
    have hsent : n ∈ s.sent := hfly.subset (by simp)
    refine ⟨h.cap, h.sorted, h.below, h.minted, h.seq, h.ring, hflying, ⟨?_, ?_⟩, ?_, h.cursor, ?_,
      by simp, ?_⟩
    · simp only [reduceCtorEq, if_false, ← append_assoc]
      refine pairwise_append.2 ⟨hrec.1, pairwise_singleton _ _, fun a ha b hb => ?_⟩
      obtain rfl := mem_singleton.1 hb
      exact hahead hp a ha b (by simp)
    · simp only [reduceCtorEq, if_false, ← append_assoc]
      exact append_subset.2 ⟨hrec.2, by simpa using hsent⟩
    · intro _ a ha b hb
      simp only [reduceCtorEq, if_false, ← append_assoc] at ha
      rcases mem_append.1 ha with ha | ha
      · exact hahead hp a ha b (by simp [hb])
      · obtain rfl := mem_singleton.1 ha
        exact (pairwise_cons.1 hsort).1 b hb
    · intro id hid _
      obtain rfl : ⟨true, n, s.sent.length⟩ = id := by simpa [receive] using hid
      obtain ⟨_, hlt, hnew⟩ := h.below n hsent
      exact ⟨hlt, fun hm => absurd (hnew n hm) (Nat.lt_irrefl n), fun _ => by simp⟩
    · intro _ hr
      simpa using hcomplete hp hr

lemma Inv.register (h : s.Inv) (hg : s.Orderly .register) : (s.step .register).Inv := by
  simp only [step]
  split
  next last hp hlast =>
    obtain ⟨hown, hin⟩ := hg last hlast
    have hend := (h.last last hlast hown).2.2 hin
    obtain ⟨ys, hys⟩ := getLast?_eq_some_iff.1 hend
    have hrec := h.received
    have hall : ∀ n ∈ s.seen ++ s.got, n ≤ last.seq := by
      intro n hn
      have hsort := hrec.1
      rw [hys] at hn hsort
      rcases mem_append.1 hn with hn | hn
      · exact Nat.le_of_lt ((pairwise_append.1 hsort).2.2 n hn last.seq (by simp))
      · exact (mem_singleton.1 hn).le
    exact ⟨h.cap, h.sorted, h.below, h.minted, h.seq, h.ring,
      h.flying, by simpa using hrec, by simp,
      ⟨hown, hall, .inl hin⟩, by simpa using h.last, fun _ => rfl, by simp⟩
  next => exact h

/-- A number taken for a frame outside the history. -/
lemma Inv.number (h : s.Inv) : Inv { s with seq := s.seq + 1 } := by
  refine ⟨h.cap, h.sorted, fun n hn => ?_, fun m hm => ?_, Nat.succ_pos _, h.ring, h.flying,
    h.received, h.ahead, h.cursor, fun id hid hown => ?_, h.fresh, h.complete⟩
  · obtain ⟨h1, h2, h3⟩ := h.below n hn
    exact ⟨h1, Nat.lt_succ_of_lt h2, h3⟩
  · exact ⟨(h.minted m hm).1, Nat.lt_succ_of_lt (h.minted m hm).2⟩
  · obtain ⟨h1, h2⟩ := h.last id hid hown
    exact ⟨Nat.lt_succ_of_lt h1, h2⟩

/-- A frame outside the history reaches the client. -/
lemma Inv.outside (h : s.Inv) {id : EventId}
    (hid : id.own = true → id.seq < s.seq ∧ id.seq ∉ s.minted ∧ id.seq ∉ s.sent) :
    Inv { s with last := if s.phase = .offline then s.last else some id } := by
  refine ⟨h.cap, h.sorted, h.below, h.minted, h.seq, h.ring, h.flying, h.received, h.ahead,
    h.cursor,
    ?_, h.fresh, h.complete⟩
  intro id' hid' hown
  simp only at hid'
  split at hid'
  · exact h.last id' hid' hown
  · obtain rfl := Option.some.inj hid'
    obtain ⟨h1, h2, h3⟩ := hid hown
    exact ⟨h1, h2, fun hm => absurd hm h3⟩

lemma Inv.last_replay (h : s.Inv) (hgot : s.got = []) (hnum : s.seq ≤ (s.replaySince).seq) :
    ∀ id, (s.replaySince).last = some id → id.own = true →
      id.seq < (s.replaySince).seq ∧ id.seq ∉ (s.replaySince).minted ∧
        (id.seq ∈ (s.replaySince).sent →
          ((s.replaySince).seen ++ (s.replaySince).got).getLast? = some id.seq) := by
  intro id hid hown'
  have hown := h.cursor.1
  simp only [replaySince, hown, if_true] at hid hnum ⊢
  cases hlast : (s.ring.filter (s.cursor.seq < ·)).getLast? with
  | none =>
    have hnil := getLast?_eq_none_iff.1 hlast
    obtain ⟨h1, h2, h3⟩ := h.last id (by simpa [hnil] using hid) hown'
    exact ⟨Nat.lt_of_lt_of_le h1 hnum, h2, fun hm => by simpa [hnil, hgot] using h3 hm⟩
  | some n =>
    obtain rfl : ⟨true, n, s.sent.length⟩ = id := by simpa [hlast, receive] using hid
    have hsent : n ∈ s.sent :=
      h.ring.1.subset (mem_filter.1 (mem_of_getLast? hlast)).1
    obtain ⟨_, hlt, hnew⟩ := h.below n hsent
    exact ⟨Nat.lt_of_lt_of_le hlt hnum, fun hm => absurd (hnew n hm) (Nat.lt_irrefl n), fun _ => by
      simp [hgot, getLast?_append, hlast]⟩

lemma Inv.replay (h : s.Inv) (hf : s.inFlight = []) : (s.step .replay).Inv := by
  simp only [step]
  split
  next hp =>
    have hgot := h.fresh hp
    have hrec := h.received
    obtain ⟨hsuf, hne⟩ := h.ring
    have hsort : s.ring.Pairwise (· < ·) := h.sorted.sublist hsuf.sublist
    have hown := h.cursor.1
    have hnum : s.seq ≤ (s.replaySince).seq := by
      simp only [replaySince, hown, if_true]
      split <;> simp
    simp only [hgot, append_nil] at hrec
    refine ⟨by simpa [replaySince, hown] using h.cap, by simpa [replaySince, hown] using h.sorted,
      ?_, ?_, Nat.lt_of_lt_of_le h.seq hnum, by simpa [replaySince, hown] using h.ring,
      by simpa [replaySince, hown] using h.flying, ?_, by simp [replaySince, hown, hf],
      by simpa [replaySince, hown] using h.cursor, ?_, by simp, ?_⟩
    · intro n hn
      obtain ⟨h1, h2, h3⟩ := h.below n (by simpa [replaySince, hown] using hn)
      exact ⟨h1, Nat.lt_of_lt_of_le h2 hnum, by simpa [replaySince, hown] using h3⟩
    · intro m hm
      obtain ⟨h1, h2⟩ := h.minted m (by simpa [replaySince, hown] using hm)
      exact ⟨h1, Nat.lt_of_lt_of_le h2 hnum⟩
    · simp only [replaySince, hown, if_true, hgot, nil_append]
      refine ⟨pairwise_append.2 ⟨hrec.1, hsort.filter _, fun a ha b hb => ?_⟩,
        append_subset.2 ⟨hrec.2, fun b hb => hsuf.subset (mem_filter.1 hb).1⟩⟩
      have := h.cursor.2.1 a ha
      have : s.cursor.seq < b := by simpa using (mem_filter.1 hb).2
      omega
    · exact h.last_replay hgot hnum
    · intro _ hr
      simp [replaySince, hown, hgot, hf] at hr ⊢
      obtain ⟨l, hl⟩ := hsuf
      -- what is no longer in the ring is older than its oldest frame
      have hold : l.filter (s.cursor.seq < ·) = [] := by
        rw [filter_eq_nil_iff]
        intro x hx
        have hring : s.ring ≠ [] := hne (by rw [← hl]; simp [ne_nil_of_mem hx])
        obtain ⟨m, hm⟩ := Option.ne_none_iff_exists'.1 (mt min?_eq_none_iff.1 hring)
        have hmem := min?_mem hm
        have hxm : x < m := by
          have := h.sorted
          rw [← hl] at this
          exact (pairwise_append.1 this).2.2 x hx m hmem
        have : ¬ s.cursor.seq < m := by simpa [hring, hm] using hr
        simp
        omega
      rw [← hl, filter_append, hold, nil_append]
  next => exact h

lemma Inv.step (h : s.Inv) (op : Op) (hg : s.Orderly op) : (s.step op).Inv := by
  have hnew : s.seq ∉ s.minted ∧ s.seq ∉ s.sent :=
    ⟨fun hm => absurd (h.minted _ hm).2 (Nat.lt_irrefl _),
      fun hm => absurd (h.below _ hm).2.1 (Nat.lt_irrefl _)⟩
  cases op with
  | mint =>
    have hn := h.number
    refine ⟨h.cap, h.sorted, fun n hm => ?_, fun m hm => ?_, hn.seq, h.ring, h.flying, h.received,
      h.ahead, h.cursor, fun id hid hown => ?_, h.fresh, h.complete⟩
    · obtain ⟨h1, h2, h3⟩ := h.below n hm
      refine ⟨h1, Nat.lt_succ_of_lt h2, fun m hm => ?_⟩
      rcases mem_append.1 hm with hm | hm
      · exact h3 m hm
      · rwa [mem_singleton.1 hm]
    · rcases mem_append.1 hm with hm | hm
      · exact hn.minted m hm
      · obtain rfl := mem_singleton.1 hm
        exact ⟨h.seq, Nat.lt_succ_self _⟩
    · obtain ⟨h1, h2, h3⟩ := h.last id hid hown
      refine ⟨Nat.lt_succ_of_lt h1, fun hm => ?_, h3⟩
      rcases mem_append.1 hm with hm | hm
      · exact h2 hm
      · exact absurd (mem_singleton.1 hm) h1.ne
  | mintOther => exact h.number
  | direct => exact h.number.outside fun _ => ⟨Nat.lt_succ_self _, hnew⟩
  | foreign seq => exact h.outside nofun
  | record n =>
    by_cases hn : n ∈ s.minted
    · exact h.record hn hg
    · simpa [Channel.step, hn] using h
  | deliver n => exact h.deliver hg.1 hg.2
  | disconnect =>
    exact ⟨h.cap, h.sorted, h.below, h.minted, h.seq, h.ring, h.flying, h.received, nofun, h.cursor,
      h.last, nofun, nofun⟩
  | register => exact h.register hg
  | replay => exact h.replay hg

/-- In every orderly run the client gets what it missed, or is told. -/
theorem resumed_of_orderly {cap : Nat} (hcap : 0 < cap) {ops : List Op}
    (h : EachStep step Orderly (init cap) ops) : Along step Resumed (init cap) ops :=
  along_of_invariant (fun _ => Inv.resumed) (fun _ op hs hg => hs.step op hg)
    ⟨hcap, .nil, by simp, by simp, Nat.one_pos, by simp, by simp,
      by simp, by simp, by simp, by simp, by simp, by simp⟩ h

def away : List Op :=
  [.mint, .record 1, .deliver 1, .disconnect, .mint, .record 2, .deliver 2, .register, .replay]

theorem resumed_away : 0 < 2 ∧ EachStep step Orderly (init 2) away ∧
    Along step Resumed (init 2) away :=
  have h : EachStep step Orderly (init 2) away :=
    ⟨trivial, by simp [Orderly, step], ⟨by decide, by decide⟩, trivial, trivial,
      by simp [Orderly, step, recordHistory], ⟨by decide, by decide⟩,
      by simp [Orderly, step, recordHistory, receive], rfl, trivial⟩
  ⟨Nat.two_pos, h, resumed_of_orderly Nat.two_pos h⟩

/-- The client comes back between the recording of a frame and its delivery. -/
def comeBack : List Op :=
  [.mint, .record 1, .deliver 1, .disconnect, .mint, .record 2, .register, .replay, .deliver 2]

theorem caughtTwice : ¬ Along step Resumed (init 2) comeBack := by
  intro h
  have hlast : (comeBack.foldl step (init 2)).Resumed := h.2.2.2.2.2.2.2.2.2
  exact absurd (hlast (by decide) (by decide) (by decide)) (by decide)

end Channel

end RustCfml.Realtime
