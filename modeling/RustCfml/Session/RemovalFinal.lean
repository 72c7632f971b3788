import RustCfml.Lib.Run
import RustCfml.Session.Cluster

/-!
# When a removed session stays removed

A tombstone keeps old changes of a removed session out of a node, in two ways that each have a
gap. It **expires**: a delta or a whole state that arrives after the minute brings the session
back (`lateDelta_revives`). And it is behind **another lock** than the documents: a removal may
come between the look at the tombstones and the insertion of a change, and a change between the
two halves of a removal.
-/

namespace RustCfml.Session

open StateMachine List Option Function

section

variable {K N : Type} [DecidableEq K]

def NodeState.Since (node : NodeState K) (k : K) (cut : Nat) : Prop := ∀ w ∈ node.doc k, cut ≤ w.id

/-- No read of any node finds a write from before a removal that the node has processed. -/
def Cluster.Final (C : Resolve) (s : Cluster K N) : Prop :=
  ∀ (n : N) (k : K) (nowSecs : Nat) (w : Write), (s.nodes n).get C nowSecs k = some w →
    (s.nodes n).removedBefore k ≤ w.id

/-- A change that finds no tombstone is no older than the removals its node has processed, and no
removal of the session is under way or has been processed since when it goes in. -/
def Act.Undisturbed (node : NodeState K) : Act K → Prop
  | .checkDelta k change => k ∉ node.tombstones → ∀ w ∈ change, node.removedBefore k ≤ w.id
  | .applyDelta k _ seen => node.removedBefore k = seen ∧ ¬node.Removing k
  | .mergeDoc k d =>
    k ∉ node.tombstones → (∀ w ∈ d, node.removedBefore k ≤ w.id) ∧ ¬node.Removing k
  | _ => True

def Cluster.Undisturbed (s : Cluster K N) : ClusterEvent K N → Prop
  | .run n i => ∀ a ∈ s.nextAct n i, a.Undisturbed (s.nodes n)
  | _ => True

/-! ## The invariant -/

/-- What is pending in a thread refers to removals already made, and a change that passed its check
is no older than what the check saw. -/
def Act.Ok (counter : Nat) : Act K → Prop
  | .dropDoc _ cut | .addTombstone _ cut | .sendTombstone _ cut => cut ≤ counter
  | .applyDelta _ change seen => ∀ w ∈ change, seen ≤ w.id
  | .mergeTombstones ts | .mergeDropDocs ts => ∀ t ∈ ts, t.2 ≤ counter
  | _ => True

def ClusterMsg.Ok (counter : Nat) : ClusterMsg K → Prop
  | .delta _ _ => True
  | .tombstone _ cut => cut ≤ counter
  | .state _ ts => ∀ t ∈ ts, t.2 ≤ counter

/-- A half-done removal is always the next thing its thread does, and the document it took has not
come back with anything older. -/
structure Thread.Ok (counter : Nat) (node : NodeState K) (t : List (Act K)) : Prop where
  acts : ∀ a ∈ t, a.Ok counter
  head : ∀ k cut, t.head? = some (.addTombstone k cut) → node.Since k cut
  tail : ∀ k cut, .addTombstone k cut ∉ t.tail

structure NodeState.Ok (counter : Nat) (node : NodeState K) : Prop where
  since : ∀ k, node.Since k (node.removedBefore k)
  known : ∀ k, node.removedBefore k ≤ counter
  threads : ∀ t ∈ node.threads, Thread.Ok counter node t

structure Cluster.Ok (s : Cluster K N) : Prop where
  nodes : ∀ n, (s.nodes n).Ok s.counter
  net : ∀ m ∈ s.net, m.Ok s.counter

omit [DecidableEq K] in
lemma Act.Ok.mono {a : Act K} {m n : Nat} (h : a.Ok m) (hle : m ≤ n) : a.Ok n := by
  cases a with
  | mergeTombstones ts | mergeDropDocs ts => exact fun t ht => (h t ht).trans hle
  | dropDoc k cut | addTombstone k cut | sendTombstone k cut => exact Nat.le_trans h hle
  | _ => exact h

omit [DecidableEq K] in
lemma ClusterMsg.Ok.mono {m : ClusterMsg K} {a b : Nat} (h : m.Ok a) (hle : a ≤ b) : m.Ok b := by
  cases m with
  | delta k change => trivial
  | tombstone k cut => exact Nat.le_trans h hle
  | state sessions ts => exact fun t ht => (h t ht).trans hle

lemma NodeState.Ok.mono {node : NodeState K} {m n : Nat} (h : node.Ok m) (hle : m ≤ n) :
    node.Ok n where
  since := h.since
  known k := (h.known k).trans hle
  threads t ht :=
    ⟨fun a ha => ((h.threads t ht).acts a ha).mono hle, (h.threads t ht).head,
      (h.threads t ht).tail⟩

/-! ## What a lock section does to the documents -/

namespace NodeState

variable {node : NodeState K}

lemma doc_erase (node : NodeState K) (k j : K) :
    ({ node with docs := node.docs.erase k } : NodeState K).doc j
      = if j = k then ∅ else node.doc j := by
  unfold doc
  split
  next h => rw [h, AList.lookup_erase, getD_none]
  next h => rw [AList.lookup_erase_ne h]

lemma doc_insert (node : NodeState K) (k j : K) (d : Doc) :
    ({ node with docs := node.docs.insert k d } : NodeState K).doc j
      = if j = k then d else node.doc j := by
  unfold doc
  split
  next h => rw [h, AList.lookup_insert, getD_some]
  next h => rw [AList.lookup_insert_ne h]

lemma mem_doc_of_get {C : Resolve} {nowSecs : Nat} {k : K} {w : Write}
    (h : node.get C nowSecs k = some w) : w ∈ node.doc k := by
  unfold get at h
  split at h
  next v hv =>
    obtain ⟨d, hd, hread⟩ := bind_eq_some_iff.1 hv
    have hvw : v = w := by
      split at h
      next => exact absurd h (by simp)
      next => exact some.inj h
    rw [doc, hd, getD_some, ← hvw]
    exact C.mem_read hread
  next => exact absurd h (by simp)

end NodeState

namespace NodeState.Ok

variable {counter : Nat} {node : NodeState K}

lemma of_docs (h : node.Ok counter) {node' : NodeState K}
    (hthreads : node'.threads = node.threads) (hremoved : node'.removedBefore = node.removedBefore)
    (hdoc : ∀ k w, w ∈ node'.doc k → w ∈ node.doc k ∨
      node.removedBefore k ≤ w.id ∧ (node.Removing k → counter ≤ w.id)) : node'.Ok counter where
  since k w hw := by
    rw [hremoved]
    exact (hdoc k w hw).elim (h.since k w) And.left
  known k := hremoved ▸ h.known k
  threads t ht := by
    rw [hthreads] at ht
    have hok := h.threads t ht
    refine ⟨hok.acts, fun k cut hhead w hw => ?_, hok.tail⟩
    rcases hdoc k w hw with hold | ⟨-, hnew⟩
    · exact hok.head k cut hhead w hold
    · have hcut : cut ≤ counter := hok.acts _ (mem_of_mem_head? hhead)
      exact hcut.trans (hnew ⟨t, ht, cut, hhead⟩)

lemma erase (h : node.Ok counter) (k : K) :
    ({ node with docs := node.docs.erase k } : NodeState K).Ok counter := by
  refine h.of_docs rfl rfl fun j w hw => Or.inl ?_
  rw [NodeState.doc_erase] at hw
  split at hw
  next => exact absurd hw (Finset.notMem_empty w)
  next => exact hw

lemma process (h : node.Ok counter) {k : K} {cut : Nat} (hcut : cut ≤ counter)
    (hsince : node.Since k cut) : (node.process k cut).Ok counter where
  since j w hw := by
    unfold NodeState.process
    rcases eq_or_ne j k with rfl | hne
    · simp only [update_self]
      exact max_le (h.since j w hw) (hsince w hw)
    · simp only [update_of_ne hne]
      exact h.since j w hw
  known j := by
    unfold NodeState.process
    rcases eq_or_ne j k with rfl | hne
    · simp only [update_self]
      exact max_le (h.known j) hcut
    · simp only [update_of_ne hne]
      exact h.known j
  threads t ht := ⟨(h.threads t ht).acts, (h.threads t ht).head, (h.threads t ht).tail⟩

lemma tombstones (h : node.Ok counter) (ts : AList fun _ : K => Nat) :
    ({ node with tombstones := ts } : NodeState K).Ok counter :=
    h.of_docs rfl rfl fun _ _ hw => Or.inl hw

lemma mergeDrop (ts : List (K × Nat)) (hts : ∀ t ∈ ts, t.2 ≤ counter) (h : node.Ok counter) :
    (ts.foldl (fun node t => ({ node with docs := node.docs.erase t.1 } : NodeState K).process
      t.1 t.2) node).Ok counter := by
  induction ts generalizing node with
  | nil => exact h
  | cons t ts ih =>
    have ht := forall_mem_cons.1 hts
    refine ih ht.2 ((h.erase t.1).process ht.1 fun w hw => ?_)
    rw [NodeState.doc_erase, if_pos rfl] at hw
    exact absurd hw (Finset.notMem_empty w)

lemma insert (h : node.Ok counter) (k : K) (d : Doc) (hd : ∀ w ∈ d, w ∈ node.doc k ∨
      node.removedBefore k ≤ w.id ∧ (node.Removing k → counter ≤ w.id)) :
    ({ node with docs := node.docs.insert k d } : NodeState K).Ok counter := by
  refine h.of_docs rfl rfl fun j w hw => ?_
  rw [NodeState.doc_insert] at hw
  split at hw
  next hj => exact hj ▸ hd w hw
  next => exact Or.inl hw

end NodeState.Ok

section

variable (C : Resolve) {counter : Nat} (clock : Nat) {node : NodeState K}

variable {a : Act K}

lemma Act.exec_node (h : node.Ok counter) (ha : a.Ok counter)
    (hsince : ∀ k cut, a = .addTombstone k cut → node.Since k cut)
    (hu : a.Undisturbed node) : (a.exec C counter clock node).node.Ok counter := by
  cases a with
  | setDoc k data unsent =>
    refine h.insert k _ fun w hw => ?_
    rcases Finset.mem_insert.1 hw with rfl | hold
    · exact Or.inr ⟨h.known k, fun _ => le_rfl⟩
    · exact Or.inl hold
  | removeDoc k | dropDoc k cut => exact h.erase k
  | addTombstone k cut => exact (h.tombstones _).process ha (hsince k cut rfl)
  | mergeDropDocs ts => exact NodeState.Ok.mergeDrop ts ha h
  | applyDelta k change seen =>
    obtain ⟨hseen, hidle⟩ := hu
    refine h.insert k _ fun w hw => (Finset.mem_union.1 hw).imp id fun hnew => ?_
    exact ⟨hseen ▸ ha w hnew, fun hr => absurd hr hidle⟩
  | mergeDoc k d =>
    simp only [exec]
    split
    next => exact h
    next hno =>
      obtain ⟨hfresh, hidle⟩ := hu hno
      refine h.insert k _ fun w hw => (Finset.mem_union.1 hw).imp id fun hnew => ?_
      exact ⟨hfresh w hnew, fun hr => absurd hr hidle⟩
  | gcTombstones | mergeTombstones ts => exact h.tombstones _
  | rotateRead old new unsent | evict k | checkDelta k change =>
    simp only [exec]
    split <;> exact h
  | sendTombstone k cut | collectExpired nowSecs | copyDocs | copyTombstones sessions => exact h

lemma Act.exec_next (ha : a.Ok counter) (hu : a.Undisturbed node) :
    ∀ b ∈ (a.exec C counter clock node).next, b.Ok counter := by
  cases a with
  | removeDoc k => simp [exec, Ok]
  | dropDoc k cut => simpa [exec, Ok] using ha
  | collectExpired nowSecs =>
    simp only [exec, List.mem_map]
    rintro b ⟨e, -, rfl⟩
    trivial
  | checkDelta k change =>
    simp only [exec]
    split
    next => simp
    next hno => simpa [Ok] using hu hno
  | rotateRead old new unsent | evict k | mergeDoc k d =>
    simp only [exec]
    split <;> simp [Ok]
  | _ => simp [exec, Ok]

lemma Act.exec_next_head {k : K} {cut : Nat}
    (hhead : (a.exec C counter clock node).next.head? = some (.addTombstone k cut)) :
    (a.exec C counter clock node).node.doc k = ∅ := by
  cases a with
  | removeDoc j | dropDoc j c =>
    simp only [exec, head?_cons, some.injEq, addTombstone.injEq] at hhead
    simp [exec, NodeState.doc_erase, hhead.1]
  | rotateRead old new unsent | evict j | checkDelta j change | mergeDoc j d =>
    simp only [exec] at hhead
    split at hhead <;> simp at hhead
  | collectExpired nowSecs =>
    simp only [exec, head?_map, map_eq_some_iff] at hhead
    obtain ⟨e, -, he⟩ := hhead
    cases he
  | _ => simp [exec] at hhead

lemma Act.exec_next_tail (k : K) (cut : Nat) :
    .addTombstone k cut ∉ (a.exec C counter clock node).next.tail := by
  cases a with
  | collectExpired nowSecs =>
    intro hmem
    simp only [exec, ← map_tail, List.mem_map] at hmem
    obtain ⟨e, -, he⟩ := hmem
    cases he
  | rotateRead old new unsent | evict j | checkDelta j change | mergeDoc j d =>
    simp only [exec]
    split <;> simp
  | _ => simp [exec]

lemma Act.exec_sent (h : node.Ok counter) (ha : a.Ok counter) :
    ∀ m ∈ (a.exec C counter clock node).sent, m.Ok counter := by
  cases a with
  | setDoc k data unsent => simp [exec, ClusterMsg.Ok]
  | sendTombstone k cut => simpa [exec, ClusterMsg.Ok, Ok] using ha
  | copyTombstones sessions =>
    simp only [exec, mem_singleton, forall_eq, ClusterMsg.Ok, List.mem_map]
    rintro t ⟨k, -, rfl⟩
    exact h.known k
  | rotateRead old new unsent | evict k | checkDelta k change | mergeDoc k d =>
    simp only [exec]
    split <;> simp
  | _ => simp [exec]

end

namespace Cluster

variable {s : Cluster K N}

lemma ok_init : (init : Cluster K N).Ok where
  nodes _ := ⟨fun _ _ _ => Nat.zero_le _, fun _ => le_rfl, fun _ ht => absurd ht not_mem_nil⟩
  net _ hm := absurd hm not_mem_nil

lemma Ok.final (C : Resolve) (h : s.Ok) : s.Final C :=
  fun n k _ w hget => (h.nodes n).since k w (NodeState.mem_doc_of_get hget)

variable [DecidableEq N]

lemma Ok.spawn (h : s.Ok) (n : N) {acts : List (Act K)} (hacts : ∀ a ∈ acts, a.Ok s.counter)
    (hnone : ∀ k cut, .addTombstone k cut ∉ acts) :
    ({ (s.spawn n acts) with counter := s.counter + 1 } : Cluster K N).Ok where
  nodes m := by
    simp only [Cluster.spawn]
    rcases eq_or_ne m n with rfl | hne
    · rw [update_self]
      have hm := (h.nodes m).mono (Nat.le_succ s.counter)
      refine ⟨hm.since, hm.known, fun t ht => ?_⟩
      rcases mem_append.1 ht with hold | hnew
      · exact ⟨(hm.threads t hold).acts, (hm.threads t hold).head, (hm.threads t hold).tail⟩
      · obtain rfl := mem_singleton.1 hnew
        exact ⟨fun a ha => (hacts a ha).mono (Nat.le_succ _),
          fun k cut hh => absurd (mem_of_mem_head? hh) (hnone k cut),
          fun k cut hmem => hnone k cut (mem_of_mem_tail hmem)⟩
    · rw [update_of_ne hne]
      exact (h.nodes m).mono (Nat.le_succ _)
  net m hm := (h.net m hm).mono (Nat.le_succ _)

lemma Ok.runAct (C : Resolve) (h : s.Ok) {n : N} {i : Nat} {a : Act K} {rest : List (Act K)}
    (hi : (s.nodes n).threads[i]? = some (a :: rest)) (hu : a.Undisturbed (s.nodes n)) :
    ({ (s.runAct C n i a rest) with counter := s.counter + 1 } : Cluster K N).Ok := by
  have hthread := (h.nodes n).threads _ (mem_of_getElem? hi)
  have ha : a.Ok s.counter := hthread.acts a mem_cons_self
  have hsince : ∀ k cut, a = .addTombstone k cut → (s.nodes n).Since k cut :=
    fun k cut he => hthread.head k cut (he ▸ rfl)
  have hnode := Act.exec_node C s.clock (h.nodes n) ha hsince hu
  have hnext : ∀ b ∈ (a.exec C s.counter s.clock (s.nodes n)).next, b.Ok s.counter :=
    Act.exec_next C s.clock ha hu
  -- what is left of the thread is in order over the node as the section left it
  have hleft : Thread.Ok s.counter (a.exec C s.counter s.clock (s.nodes n)).node
      ((a.exec C s.counter s.clock (s.nodes n)).next ++ rest) := by
    refine ⟨fun b hb => ?_, fun k cut hh w hw => ?_, fun k cut hmem => ?_⟩
    · rcases mem_append.1 hb with hb | hb
      · exact hnext b hb
      · exact hthread.acts b (mem_cons_of_mem a hb)
    · rw [head?_append] at hh
      rcases or_eq_some_iff.1 hh with hh | ⟨-, hh⟩
      · rw [Act.exec_next_head C s.clock hh] at hw
        exact absurd hw (Finset.notMem_empty w)
      · exact absurd (mem_of_mem_head? hh) (hthread.tail k cut)
    · rw [tail_append] at hmem
      split at hmem
      next => exact hthread.tail k cut (mem_of_mem_tail hmem)
      next =>
        rcases mem_append.1 hmem with hmem | hmem
        · exact Act.exec_next_tail C s.clock k cut hmem
        · exact hthread.tail k cut hmem
  refine ⟨fun m => ?_, fun m hm => ?_⟩
  · simp only [Cluster.runAct]
    rcases eq_or_ne m n with rfl | hne
    · rw [update_self]
      refine NodeState.Ok.mono ⟨hnode.since, hnode.known, fun t ht => ?_⟩ (Nat.le_succ _)
      rcases mem_or_eq_of_mem_set ht with hold | rfl
      · have hok := hnode.threads t hold
        exact ⟨hok.acts, hok.head, hok.tail⟩
      · exact ⟨hleft.acts, hleft.head, hleft.tail⟩
    · rw [update_of_ne hne]
      exact (h.nodes m).mono (Nat.le_succ _)
  · rcases mem_append.1 hm with hold | hnew
    · exact (h.net m hold).mono (Nat.le_succ _)
    · exact (Act.exec_sent C s.clock (h.nodes n) ha m hnew).mono (Nat.le_succ _)

lemma Ok.step (C : Resolve) (h : s.Ok) (e : ClusterEvent K N) (hu : s.Undisturbed e) :
    (s.step C e).Ok := by
  cases e with
  | call n c =>
    refine h.spawn n (fun a ha => ?_) fun k cut hmem => ?_
    · cases c <;> simp only [StoreCall.acts, mem_cons, not_mem_nil, or_false] at ha
      case snapshot => rcases ha with rfl | rfl <;> trivial
      all_goals exact ha ▸ trivial
    · cases c <;> simp [StoreCall.acts] at hmem
  | deliver n j =>
    simp only [Cluster.step]
    split
    next m hm =>
      have hmsg := h.net m (mem_of_getElem? hm)
      refine h.spawn n (fun a ha => ?_) fun k cut hmem => ?_
      · cases m with
        | delta k change => simp_all [ClusterMsg.acts, Act.Ok]
        | tombstone k cut => simp_all [ClusterMsg.acts, Act.Ok, ClusterMsg.Ok]
        | state sessions ts =>
          simp only [ClusterMsg.acts, mem_cons, List.mem_map] at ha
          rcases ha with rfl | rfl | ⟨d, -, rfl⟩
          iterate 2 exact hmsg
          · trivial
      · cases m <;> simp [ClusterMsg.acts] at hmem
    next => exact h
  | run n i =>
    simp only [Cluster.step]
    split
    next a rest hi => exact h.runAct C hi (hu a (by simp [nextAct, hi]))
    next => exact h
  | tick secs => exact ⟨h.nodes, h.net⟩

/-- **A removed session stays removed in every undisturbed run**, on every node. -/
theorem final_of_undisturbed (C : Resolve) {events : List (ClusterEvent K N)}
    (h : EachStep (step C) Undisturbed (init : Cluster K N) events) :
    Along (step C) (Final C) (init : Cluster K N) events :=
  along_of_invariant (fun _ hs => hs.final C) (fun _ e hs hu => hs.step C e hu) ok_init h

omit [DecidableEq K] [DecidableEq N] in
lemma undisturbed_of_nextAct {n : N} {i : Nat} {a : Act K} (hnext : s.nextAct n i = some a)
    (h : a.Undisturbed (s.nodes n)) : s.Undisturbed (.run n i) := by
  rintro b hb
  obtain rfl := some.inj (hnext.symm.trans hb)
  exact h

end Cluster

end

def blogSession : SessionData := ⟨0, 0, 1800, none, [], "blog"⟩

/-- The first node writes session 7 and removes it again; the second hears of the removal and not of
the write. -/
def writeThenRemove : List (ClusterEvent Nat Bool) :=
  [.call false (.set 7 blogSession ∅), .run false 0, .call false (.remove 7), .run false 1,
    .run false 1, .run false 1,
   .deliver true 1, .run true 0, .run true 0]

def promptDelta : List (ClusterEvent Nat Bool) := writeThenRemove ++ [.deliver true 0, .run true 1]

theorem final_promptDelta :
    EachStep (Cluster.step lastWrite) Cluster.Undisturbed Cluster.init promptDelta ∧
      Along (Cluster.step lastWrite) (Cluster.Final lastWrite) Cluster.init promptDelta := by
  have h : EachStep (Cluster.step lastWrite) Cluster.Undisturbed Cluster.init promptDelta := by
    refine ⟨trivial, Cluster.undisturbed_of_nextAct rfl trivial, trivial,
      Cluster.undisturbed_of_nextAct rfl trivial, Cluster.undisturbed_of_nextAct rfl trivial,
      Cluster.undisturbed_of_nextAct rfl trivial, trivial,
      Cluster.undisturbed_of_nextAct rfl trivial, Cluster.undisturbed_of_nextAct rfl trivial,
      trivial, Cluster.undisturbed_of_nextAct rfl fun hno => absurd ?_ hno, trivial⟩
    decide
  exact ⟨h, Cluster.final_of_undisturbed lastWrite h⟩

/-- A minute later the second node drops its tombstone, and then the write arrives. -/
def lateDelta : List (ClusterEvent Nat Bool) :=
  writeThenRemove ++ [.tick 60, .call true .snapshot, .run true 1, .deliver true 0, .run true 2,
    .run true 2]

/-- The second node shows the session again, as it was before the removal. -/
theorem lateDelta_revives :
    ¬(lateDelta.foldl (Cluster.step lastWrite) Cluster.init).Final lastWrite := by
  intro h
  have hread := h true 7 60 ⟨1, blogSession⟩ (by decide)
  exact absurd hread (by decide)

end RustCfml.Session
