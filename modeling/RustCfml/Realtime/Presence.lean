import RustCfml.Lib.Run

/-!
# Presence across nodes

A node changes its roster under its lock and publishes the change when it has let go of it, so **two
changes of one entry can be published the wrong way round**, and a peer keeps an entry that is gone
(`crossed_stays`). A departure comes from the membership task and not through the queue of messages:
a message that is handled after it **puts an entry back that nothing removes**.
-/

namespace RustCfml.Realtime

open StateMachine List
open Function (forall_update_iff update update_of_ne update_self)

abbrev Name := List Char

/-- A connection; its id is its node's name, a colon and a UUID. -/
structure Conn where
  node : Name
  uuid : List Char
  noColon : ':' ∉ uuid
deriving DecidableEq

/-- The connection id, by whose beginning `drop_node` knows a node's entries. -/
def Conn.id (c : Conn) : List Char := c.node ++ ':' :: c.uuid

abbrev Entry := Conn × String × String

/-- The messages about rosters that nodes publish (`NodeGone` is not published by any). -/
inductive BrokerMsg where
  | presenceTrack (e : Entry)
  | presenceUntrack (e : Entry)

/-- `apply_broker_msg`, for one entry of the roster. -/
def BrokerMsg.apply (e : Entry) (on : Bool) : BrokerMsg → Bool
  | presenceTrack e' => on || e = e'
  | presenceUntrack e' => on && e ≠ e'

/-- `drop_node`: the entries that stay. -/
def dropNode (node : Name) (e : Entry) (on : Bool) : Bool :=
  on && !(node ++ [':']).isPrefixOf e.1.id

/-- A change made and not published: it is for an entry of the node's own. -/
structure Change where
  entry : Entry
  joins : Bool

def Change.msg (c : Change) : BrokerMsg :=
  if c.joins then .presenceTrack c.entry else .presenceUntrack c.entry

structure Nodes where
  names : List Name
  online : List Name
  connected : List Conn
  /-- The entries of each node's own connections, on its own roster. -/
  tracked : List Entry
  pending : Name → List Change
  queue : Name → Name → List BrokerMsg
  roster : Name → Entry → Bool
  /-- The departures each node has not noticed. -/
  unnoticed : Name → Name → Bool

namespace Nodes

def init (names : List Name) : Nodes :=
  ⟨names, names, [], [], fun _ => [], fun _ _ => [], fun _ _ => false, fun _ _ => false⟩

inductive Op where
  | register (c : Conn)
  | track (e : Entry)
  | untrack (e : Entry)
  | unregister (c : Conn)
  /-- The thread with the node's `i`th unpublished change publishes it. -/
  | publish (node : Name) (i : Nat)
  | deliver (sender receiver : Name)
  | depart (node : Name)
  /-- The receiver's membership task sees the node leave, rightly or not. -/
  | notice (receiver node : Name)

/-- Entries leave their node's roster, and that is still to be published. -/
def leave (s : Nodes) (node : Name) (gone : Entry → Bool) : Nodes :=
  { s with
    tracked := s.tracked.filter fun e => !gone e
    pending := update s.pending node
      (s.pending node ++ (s.tracked.filter gone).map fun e => ⟨e, false⟩) }

def step (s : Nodes) : Op → Nodes
  | .register c => if c.node ∈ s.online then { s with connected := c :: s.connected } else s
  | .track e =>
    if e.1 ∈ s.connected then
      { s with
        tracked := s.tracked.insert e
        pending := update s.pending e.1.node (s.pending e.1.node ++ [⟨e, true⟩]) }
    else s
  | .untrack e => if e.1 ∈ s.connected then s.leave e.1.node (· = e) else s
  | .unregister c =>
    if c ∈ s.connected then
      { s.leave c.node (·.1 = c) with connected := s.connected.filter (· ≠ c) }
    else s
  | .publish node i =>
    match (s.pending node)[i]? with
    | none => s
    | some change =>
      { s with
        pending := update s.pending node ((s.pending node).eraseIdx i)
        queue := update s.queue node fun q => s.queue node q ++ [change.msg] }
  | .deliver sender receiver =>
    match s.queue sender receiver with
    | [] => s
    | msg :: rest =>
      { s with
        queue := update s.queue sender (update (s.queue sender) receiver rest)
        roster := update s.roster receiver fun e => msg.apply e (s.roster receiver e) }
  | .depart node =>
    { s with
      online := s.online.filter (· ≠ node)
      connected := s.connected.filter (·.node ≠ node)
      tracked := s.tracked.filter (·.1.node ≠ node)
      pending := update s.pending node []
      unnoticed := fun q => update (s.unnoticed q) node true }
  | .notice receiver node =>
    { s with
      roster := update s.roster receiver fun e => dropNode node e (s.roster receiver e)
      unnoticed := update s.unnoticed receiver (update (s.unnoticed receiver) node false) }

/-- When everything is delivered and every departure noticed, an entry is on the roster of another
node iff its connection is there and tracked. -/
def Converged (s : Nodes) : Prop :=
  (∀ p, s.pending p = []) → ∀ q ∈ s.online, (∀ p ≠ q, s.queue p q = []) →
    (∀ p ≠ q, s.unnoticed q p = false) → ∀ e : Entry, e.1.node ∈ s.names → e.1.node ≠ q →
      (s.roster q e = true ↔ e.1 ∈ s.connected ∧ e ∈ s.tracked)

/-- The changes of one entry are published in their order; a departure is noticed once the node is
gone and its last message is handled, and no name begins with that node's name and a colon. -/
def Orderly (s : Nodes) : Op → Prop
  | .publish node i => ∀ change, (s.pending node)[i]? = some change →
      ∀ earlier ∈ (s.pending node).take i, earlier.entry ≠ change.entry
  | .notice receiver node =>
    node ∉ s.online ∧ s.queue node receiver = [] ∧ ∀ name ∈ s.names, ¬ node ++ [':'] <+: name
  | _ => True

end Nodes

namespace BrokerMsg

/-- What comes of a roster entry when the messages are applied. -/
def run (e : Entry) (on : Bool) (msgs : List BrokerMsg) : Bool := msgs.foldl (BrokerMsg.apply e) on

/-- The message is about an entry of this node. -/
def Of (p : Name) : BrokerMsg → Prop
  | presenceTrack e => e.1.node = p
  | presenceUntrack e => e.1.node = p

variable {p : Name} {e : Entry} {on : Bool}

lemma run_append (msgs msgs' : List BrokerMsg) :
    run e on (msgs ++ msgs') = run e (run e on msgs) msgs' :=
  foldl_append

lemma node_of_prefix {c : Conn} (h : p ++ [':'] <+: c.id) : c.node = p ∨ p ++ [':'] <+: c.node := by
  have hc : c.node ++ [':'] <+: c.id := ⟨c.uuid, by simp [Conn.id]⟩
  rcases prefix_or_prefix_of_prefix h hc with hpc | hcp
  · rcases prefix_concat_iff.1 hpc with heq | hpre
    · exact .inl (append_cancel_right heq).symm
    · exact .inr hpre
  · rcases prefix_concat_iff.1 hcp with heq | hpre
    · exact .inl (append_cancel_right heq)
    · -- the name and its colon would reach into the UUID
      obtain ⟨x, rfl⟩ := hpre
      obtain ⟨y, hy⟩ := h
      have : c.uuid = x ++ ':' :: y := by simpa [Conn.id] using hy.symm
      exact absurd (by simp [this]) c.noColon

lemma dropNode_of_ne (hp : e.1.node ≠ p) (hname : ¬ p ++ [':'] <+: e.1.node) :
    dropNode p e on = on := by
  have : (p ++ [':']).isPrefixOf e.1.id = false := by
    rw [Bool.eq_false_iff, ne_eq, isPrefixOf_iff_prefix]
    intro hpre
    rcases node_of_prefix hpre with h | h
    · exact hp h
    · exact hname h
  simp [dropNode, this]

lemma dropNode_self : dropNode e.1.node e on = false := by
  have hpre : e.1.node ++ [':'] <+: e.1.id := ⟨e.1.uuid, by simp [Conn.id]⟩
  have : (e.1.node ++ [':']).isPrefixOf e.1.id =
    true := by rwa [← List.isPrefixOf_iff_prefix] at hpre
  simp [dropNode, this]

lemma apply_of_ne {msg : BrokerMsg} (h : msg.Of p) (hp : e.1.node ≠ p) : msg.apply e on = on := by
  cases msg with
  | presenceTrack e' | presenceUntrack e' =>
    have : e ≠ e' := fun he => hp (he ▸ h)
    simp [BrokerMsg.apply, this]

lemma apply_change {c : Change} (h : c.entry ≠ e) : c.msg.apply e on = on := by
  unfold Change.msg
  split <;> simp [BrokerMsg.apply, h.symm]

lemma run_changes {cs : List Change} (h : ∀ c ∈ cs, c.entry ≠ e) :
    run e on (cs.map Change.msg) = on := by
  induction cs generalizing on with
  | nil => rfl
  | cons c cs ih =>
    have hc : c.msg.apply e on = on := apply_change (h c (by simp))
    rw [map_cons, run, foldl_cons, hc]
    exact ih fun d hd => h d (by simp [hd])

lemma run_untracks (es : List Entry) :
    run e on ((es.map fun e => (⟨e, false⟩ : Change)).map Change.msg) = (on && e ∉ es) := by
  induction es generalizing on with
  | nil => simp [run]
  | cons e' es ih =>
    have := @ih (on && e ≠ e')
    simp only [run, map_cons, foldl_cons] at this ⊢
    rw [show (Change.msg ⟨e', false⟩).apply e on = (on && e ≠ e') from rfl, this]
    simp [Bool.and_assoc]

lemma run_publish {msgs : List BrokerMsg} {before after : List Change} {c : Change}
    (h : ∀ d ∈ before, d.entry ≠ c.entry) :
    run e on (msgs ++ [c.msg] ++ (before ++ after).map Change.msg) =
      run e on (msgs ++ (before ++ c :: after).map Change.msg) := by
  have hcons : ∀ b msg l, run e b (msg :: l) = run e (msg.apply e b) l := fun _ _ _ => rfl
  have hnil : ∀ b, run e b [] = b := fun _ => rfl
  simp only [map_append, map_cons, run_append, hcons, hnil]
  by_cases hc : c.entry = e
  · have hbefore : ∀ d ∈ before, d.entry ≠ e := fun d hd => hc ▸ h d hd
    simp [run_changes hbefore]
  · simp [apply_change hc]

end BrokerMsg

namespace Nodes

open BrokerMsg

structure Inv (s : Nodes) : Prop where
  /-- The roster and what is under way give what is tracked. -/
  settled : ∀ e : Entry, e.1.node ∈ s.names → ∀ q, e.1.node ≠ q →
    (run e (s.roster q e) (s.queue e.1.node q ++ (s.pending e.1.node).map Change.msg) = true ∧
      s.unnoticed q e.1.node = false ↔ e ∈ s.tracked)
  sent : ∀ p q, ∀ msg ∈ s.queue p q, msg.Of p
  made : ∀ p, ∀ c ∈ s.pending p, c.entry.1.node = p
  there : ∀ e ∈ s.tracked, e.1 ∈ s.connected
  up : ∀ c ∈ s.connected, c.node ∈ s.online
  gone : ∀ p ∉ s.online, s.pending p = []
  left : ∀ p q, s.unnoticed q p = true → p ∉ s.online

variable {s : Nodes}

lemma Inv.converged (h : s.Inv) : s.Converged := by
  intro hpending q _ hqueue hnoticed e hn hq
  have := h.settled e hn q hq
  rw [hpending, hqueue _ hq, hnoticed _ hq] at this
  have htracked : s.roster q e = true ↔ e ∈ s.tracked := by simpa [run] using this
  exact htracked.trans ⟨fun he => ⟨h.there e he, he⟩, And.right⟩

/-- A node that is there changes its own entries. -/
lemma Inv.change (h : s.Inv) {p : Name} {cs : List Change} {tracked : List Entry}
    {connected : List Conn} (hp : p ∈ s.online) (hcs : ∀ c ∈ cs, c.entry.1.node = p)
    (hown : ∀ (e : Entry) (on : Bool), e.1.node = p → (on = true ↔ e ∈ s.tracked) →
      (run e on (cs.map Change.msg) = true ↔ e ∈ tracked))
    (hother : ∀ e : Entry, e.1.node ≠ p → (e ∈ s.tracked ↔ e ∈ tracked))
    (hthere : ∀ e ∈ tracked, e.1 ∈ connected) (hup : ∀ c ∈ connected, c.node ∈ s.online) :
    Inv { s with tracked, connected, pending := update s.pending p (s.pending p ++ cs) } := by
  refine ⟨fun e hn q hq => ?_, h.sent, (forall_update_iff s.pending
    fun p cs => ∀ c ∈ cs, c.entry.1.node = p).2 ⟨fun c hc => ?_, fun n _ => h.made n⟩, hthere, hup,
    fun n hn => ?_, h.left⟩
  · have hs := h.settled e hn q hq
    by_cases he : e.1.node = p
    · subst he
      have hseen : s.unnoticed q e.1.node = false :=
        Bool.eq_false_iff.2 fun hu => h.left _ _ hu hp
      simp only [hseen, and_true, update_self, map_append, ← append_assoc] at hs ⊢
      rw [run_append]
      exact hown e _ rfl hs
    · simp only [update_of_ne he]
      exact hs.trans (hother e he)
  · rcases mem_append.1 hc with hc | hc
    · exact h.made p c hc
    · exact hcs c hc
  · have : n ≠ p := fun he => hn (he ▸ hp)
    simpa only [update_of_ne this] using h.gone n hn

lemma Inv.leave (h : s.Inv) {p : Name} {gone : Entry → Bool} {connected : List Conn}
    (hp : p ∈ s.online) (hgone : ∀ e, gone e = true → e.1.node = p)
    (hthere : ∀ e ∈ s.tracked, gone e = false → e.1 ∈ connected)
    (hup : ∀ c ∈ connected, c.node ∈ s.online) : Inv { s.leave p gone with connected } := by
  refine h.change hp (fun c hc => ?_) (fun e on _ hon => ?_) (fun e hp => ?_) (fun e he => ?_) hup
  · obtain ⟨e, he, rfl⟩ := mem_map.1 hc
    exact hgone e (mem_filter.1 he).2
  · rw [run_untracks]
    simp +contextual [Nodes.leave, hon]
  · have : gone e = false := Bool.eq_false_iff.2 fun hg => hp (hgone e hg)
    simp [Nodes.leave, this]
  · obtain ⟨hmem, hg⟩ := mem_filter.1 he
    exact hthere e hmem (by simpa using hg)

lemma Inv.publish (h : s.Inv) {node : Name} {i : Nat} (hg : s.Orderly (.publish node i)) :
    (s.step (.publish node i)).Inv := by
  simp only [step]
  split
  next => exact h
  next c hc =>
    obtain ⟨hi, hget⟩ := List.getElem?_eq_some_iff.1 hc
    have hmem : c ∈ s.pending node := mem_of_getElem? hc
    have hsplit : s.pending node = (s.pending node).take i ++ c ::
        (s.pending node).drop (i + 1) := by
      rw [← hget, cons_getElem_drop_succ, take_append_drop]
    refine ⟨fun e hn q hq => ?_, (forall_update_iff s.queue
      fun p row => ∀ q, ∀ msg ∈ row q, msg.Of p).2 ⟨fun q msg hm => ?_, fun p _ => h.sent p⟩,
      (forall_update_iff s.pending fun p cs => ∀ c ∈ cs, c.entry.1.node = p).2
        ⟨fun d hd => h.made node d (mem_of_mem_eraseIdx hd), fun p _ => h.made p⟩, h.there, h.up,
      fun p hp => ?_, h.left⟩
    · have hs := h.settled e hn q hq
      by_cases hp : e.1.node = node
      · subst hp
        simp only [update_self, eraseIdx_eq_take_drop_succ]
        rw [run_publish (hg c hc), ← hsplit]
        exact hs
      · simp only [update_of_ne hp]
        exact hs
    · rcases mem_append.1 hm with hm | hm
      · exact h.sent node q msg hm
      · obtain rfl := mem_singleton.1 hm
        have := h.made node c hmem
        unfold Change.msg
        split <;> exact this
    · have : p ≠ node := fun he => by simp [← he, h.gone p hp] at hmem
      simpa only [update_of_ne this] using h.gone p hp

lemma Inv.deliver (h : s.Inv) (p q : Name) : (s.step (.deliver p q)).Inv := by
  simp only [step]
  split
  next => exact h
  next msg rest hq =>
    have hmsg : msg.Of p := h.sent p q msg (by simp [hq])
    refine ⟨fun e hn r hr => ?_, (forall_update_iff s.queue
      fun p row => ∀ q, ∀ msg ∈ row q, msg.Of p).2 ⟨?_, fun p _ => h.sent p⟩, h.made, h.there, h.up,
      h.gone, h.left⟩
    · have hs := h.settled e hn r hr
      by_cases hrq : r = q
      · subst hrq
        by_cases hp : e.1.node = p
        · subst hp
          rw [hq] at hs
          simp only [update_self]
          exact hs
        · simp only [update_self, update_of_ne hp, apply_of_ne hmsg hp]
          exact hs
      · by_cases hp : e.1.node = p
        · subst hp
          simpa only [update_self, update_of_ne hrq] using hs
        · simpa only [update_of_ne hp, update_of_ne hrq] using hs
    · exact (forall_update_iff (s.queue p) fun _ msgs => ∀ msg ∈ msgs, msg.Of p).2
        ⟨fun m hm => h.sent p q m (by simp [hq, hm]), fun r _ => h.sent p r⟩

lemma Inv.depart (h : s.Inv) (p : Name) : (s.step (.depart p)).Inv := by
  refine ⟨fun e hn q hq => ?_, h.sent,
    (forall_update_iff s.pending fun p cs => ∀ c ∈ cs, c.entry.1.node = p).2
      ⟨nofun, fun p _ => h.made p⟩, fun e he => ?_, fun c hc => ?_, fun n hn => ?_,
        fun n q hu => ?_⟩
  · have hs := h.settled e hn q hq
    by_cases hp : e.1.node = p
    · subst hp
      simp [step]
    · simpa [step, update_of_ne hp, hp] using hs
  · obtain ⟨hmem, hne⟩ := mem_filter.1 he
    exact mem_filter.2 ⟨h.there e hmem, hne⟩
  · obtain ⟨hmem, hne⟩ := mem_filter.1 hc
    exact mem_filter.2 ⟨h.up c hmem, hne⟩
  · by_cases hp : n = p
    · simp [step, hp]
    · have : n ∉ s.online := fun hm => hn (mem_filter.2 ⟨hm, by simpa using hp⟩)
      simpa [step, update_of_ne hp] using h.gone n this
  · by_cases hp : n = p
    · simp [step, hp]
    · have : s.unnoticed q n = true := by simpa [step, update_of_ne hp] using hu
      exact fun hm => h.left n q this (mem_filter.1 hm).1

lemma Inv.notice (h : s.Inv) {q p : Name} (hg : s.Orderly (.notice q p)) :
    (s.step (.notice q p)).Inv := by
  obtain ⟨hoff, hqueue, hnames⟩ := hg
  refine ⟨fun e hn r hr => ?_, h.sent, h.made, h.there, h.up, h.gone, fun n r hu => ?_⟩
  · have hs := h.settled e hn r hr
    by_cases hrq : r = q
    · subst hrq
      by_cases hp : e.1.node = p
      · -- nothing of the node is under way any more
        subst hp
        have htracked : e ∉ s.tracked := fun he => hoff (h.up _ (h.there e he))
        simp [step, hqueue, h.gone _ hoff, run, dropNode_self, htracked]
      · simpa [step, update_of_ne hp, dropNode_of_ne hp (hnames _ hn)] using hs
    · simpa [step, update_of_ne hrq] using hs
  · by_cases hrq : r = q
    · subst hrq
      by_cases hp : n = p
      · exact hp ▸ hoff
      · exact h.left n r (by simpa [step, update_of_ne hp] using hu)
    · exact h.left n r (by simpa [step, update_of_ne hrq] using hu)

lemma Inv.step (h : s.Inv) (op : Op) (hg : s.Orderly op) : (s.step op).Inv := by
  cases op with
  | register c =>
    simp only [Nodes.step]
    split
    next hc =>
      exact ⟨h.settled, h.sent, h.made, fun e he => mem_cons_of_mem _ (h.there e he),
        forall_mem_cons.2 ⟨hc, h.up⟩, h.gone, h.left⟩
    next => exact h
  | track e =>
    simp only [Nodes.step]
    split
    next hc =>
      refine h.change (h.up _ hc) (by simp) (fun e' on _ hon => ?_) (fun e' hp => ?_)
        (fun e' he => ?_) h.up
      · simp [run, Change.msg, BrokerMsg.apply, hon, or_comm]
      · have : e' ≠ e := fun he => hp (he ▸ rfl)
        simp [this]
      · rcases mem_insert_iff.1 he with rfl | he
        · exact hc
        · exact h.there e' he
    next => exact h
  | untrack e =>
    simp only [Nodes.step]
    split
    next hc => exact h.leave (h.up _ hc) (by simp) (fun e' he _ => h.there e' he) h.up
    next => exact h
  | unregister c =>
    simp only [Nodes.step]
    split
    next hc =>
      refine h.leave (h.up _ hc) (by simp) (fun e he hne => mem_filter.2 ⟨h.there e he, ?_⟩)
        fun c' hc' => h.up c' (mem_filter.1 hc').1
      simpa using hne
    next => exact h
  | publish node i => exact h.publish hg
  | deliver p q => exact h.deliver p q
  | depart node => exact h.depart node
  | notice q p => exact h.notice hg

/-- In every orderly run, once nothing is under way, the nodes' rosters show the entries that are
tracked and no others. -/
theorem converged_of_orderly (names : List Name) {ops : List Op}
    (h : EachStep step Orderly (init names) ops) : Along step Converged (init names) ops :=
  along_of_invariant (fun _ => Inv.converged) (fun _ op hs hg => hs.step op hg)
    ⟨by simp [init, run], by simp [init], by simp [init], by simp [init], by simp [init],
      by simp [init], by simp [init]⟩ h

def visitor : Conn := ⟨['a'], ['1'], by decide⟩

def visit : List Op :=
  [.register visitor, .track (visitor, "chat", "ann"), .publish ['a'] 0, .deliver ['a'] ['b'],
    .depart ['a'], .notice ['b'] ['a']]

theorem converged_visit : EachStep step Orderly (init [['a'], ['b']]) visit ∧
    Along step Converged (init [['a'], ['b']]) visit :=
  have h : EachStep step Orderly (init [['a'], ['b']]) visit :=
    ⟨trivial, trivial, by simp [Orderly], trivial, trivial,
      ⟨by decide, by simp [init, step, visitor], by decide⟩, trivial⟩
  ⟨h, converged_of_orderly _ h⟩

/-- The connection goes before its entry was published, and that is published first. -/
def crossed : List Op :=
  [.register visitor, .track (visitor, "chat", "ann"), .unregister visitor, .publish ['a'] 1,
    .publish ['a'] 0, .deliver ['a'] ['b'], .deliver ['a'] ['b']]

theorem crossed_stays : ¬ Along step Converged (init [['a'], ['b']]) crossed := by
  intro h
  have hlast : (crossed.foldl step (init [['a'], ['b']])).Converged := h.2.2.2.2.2.2.2
  have hpending : ∀ p, (crossed.foldl step (init [['a'], ['b']])).pending p = [] := by
    intro p
    by_cases hp : p = ['a'] <;> simp [crossed, init, step, leave, visitor, hp]
  have hqueue : ∀ p ≠ ['b'], (crossed.foldl step (init [['a'], ['b']])).queue p ['b'] = [] := by
    intro p _
    by_cases hp : p = ['a'] <;> simp [crossed, init, step, leave, visitor, hp]
  have := hlast hpending ['b'] (by decide) hqueue (fun _ _ => rfl) (visitor, "chat", "ann")
    (by decide) (by decide)
  exact absurd (this.1 (by decide)).1 (by decide)

end Nodes

end RustCfml.Realtime
