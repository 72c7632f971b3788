import RustCfml.Session.MemoryStore

/-!
# Sessions in a gossip cluster

Every node keeps a document per session and a set of **tombstones**: sessions it has seen removed.
Documents and tombstones are behind **two locks**, taken one after the other, so what a node does is
a number of threads of single lock sections (`Act`) that interleave.
-/

namespace RustCfml.Session

/-- One `write_session`, by the number of the step that made it. -/
structure Write where
  id : Nat
  data : SessionData
deriving DecidableEq

/-- An `AutoCommit`: the changes merged into it. -/
abbrev Doc := Finset Write

/-- Which of the concurrent writes a document shows; the documents' library decides. -/
structure Resolve where
  read : Doc → Option Write
  mem_read : ∀ {d : Doc} {w : Write}, read d = some w → w ∈ d

def Newest (d : Doc) (w : Write) : Prop := ∀ v ∈ d, v.id ≤ w.id ∧ (v.id = w.id → v = w)

instance (d : Doc) (w : Write) : Decidable (Newest d w) := by
  unfold Newest
  infer_instance

lemma existsUnique_newest {d : Doc} (h : ∃ w ∈ d, Newest d w) : ∃! w, w ∈ d ∧ Newest d w := by
  obtain ⟨w, hw, hnewest⟩ := h
  refine ⟨w, ⟨hw, hnewest⟩, fun v hv => ?_⟩
  exact (hnewest v hv.1).2 (le_antisymm (hnewest v hv.1).1 (hv.2 w hw).1)

def lastWrite : Resolve where
  read d :=
    if h : ∃ w ∈ d, Newest d w then some (d.choose (Newest d) (existsUnique_newest h)) else none
  mem_read h := by
    split at h
    next hex => exact Option.some.inj h ▸ Finset.choose_mem _ _ _
    next => exact absurd h (by simp)

section

variable (K : Type) [DecidableEq K]

/-- What is on the wire: a change, a removal, or the whole state of a node. -/
inductive ClusterMsg where
  | delta (k : K) (change : Doc)
  | tombstone (k : K) (cut : Nat)
  | state (sessions : List (K × Doc)) (tombstones : List (K × Nat))

/-- One lock section of a thread. -/
inductive Act where
  /-- `set`: a write goes into the document, with whatever else of it was not yet sent. -/
  | setDoc (k : K) (data : SessionData) (unsent : Doc)
  /-- `remove` and `take_expired`: first the document. -/
  | removeDoc (k : K)
  /-- `Tombstone` received: first the document. -/
  | dropDoc (k : K) (cut : Nat)
  /-- Then the tombstone. -/
  | addTombstone (k : K) (cut : Nat)
  | sendTombstone (k : K) (cut : Nat)
  /-- `rotate` reads the old session, then sets the new one and removes the old. -/
  | rotateRead (old new : K) (unsent : Doc)
  /-- `take_expired` collects the expired keys and then goes through them. -/
  | collectExpired (nowSecs : Nat)
  | evict (k : K)
  /-- `Delta` received: is there a tombstone? -/
  | checkDelta (k : K) (change : Doc)
  /-- If not, the change goes in; `seen` is what the node had processed at the check. -/
  | applyDelta (k : K) (change : Doc) (seen : Nat)
  /-- `snapshot`. -/
  | gcTombstones
  | copyDocs
  | copyTombstones (sessions : List (K × Doc))
  /-- `merge_snapshot`. -/
  | mergeTombstones (ts : List (K × Nat))
  | mergeDropDocs (ts : List (K × Nat))
  | mergeDoc (k : K) (d : Doc)

/-- `SharedState`, and the threads at work in it. -/
structure NodeState where
  docs : AList fun _ : K => Doc
  tombstones : AList fun _ : K => Nat
  removedBefore : K → Nat
  threads : List (List (Act K))

structure Cluster (N : Type) where
  nodes : N → NodeState K
  net : List (ClusterMsg K)
  counter : Nat
  clock : Nat

end

def tombstoneTtl : Nat := 60

section

variable {K : Type} [DecidableEq K]

namespace NodeState

def doc (node : NodeState K) (k : K) : Doc := (node.docs.lookup k).getD ∅

def get (C : Resolve) (node : NodeState K) (nowSecs : Nat) (k : K) : Option Write :=
  match (node.docs.lookup k).bind C.read with
  | some w => if w.data.isExpired nowSecs then none else some w
  | none => none

/-- A removal of the session has taken its document and not yet put up its tombstone. -/
def Removing (node : NodeState K) (k : K) : Prop :=
  ∃ t ∈ node.threads, ∃ cut, t.head? = some (Act.addTombstone k cut)

def process (node : NodeState K) (k : K) (cut : Nat) : NodeState K :=
  { node with
    removedBefore := Function.update node.removedBefore k (max (node.removedBefore k) cut) }

end NodeState

/-- What a lock section does: the node afterwards, what its thread goes on with, and what it
sends. -/
structure Effect (K : Type) where
  node : NodeState K
  next : List (Act K)
  sent : List (ClusterMsg K)

def Act.exec (C : Resolve) (counter clock : Nat) (node : NodeState K) : Act K → Effect K
  | .setDoc k data unsent =>
    let w : Write := ⟨counter, data⟩
    let d := insert w (node.doc k)
    ⟨{ node with docs := node.docs.insert k d }, [], [.delta k (insert w (unsent ∩ d))]⟩
  | .removeDoc k =>
    ⟨{ node with docs := node.docs.erase k }, [.addTombstone k counter, .sendTombstone k counter],
      []⟩
  | .dropDoc k cut => ⟨{ node with docs := node.docs.erase k }, [.addTombstone k cut], []⟩
  | .addTombstone k cut =>
    ⟨{ node with tombstones := node.tombstones.insert k clock }.process k cut, [], []⟩
  | .sendTombstone k cut => ⟨node, [], [.tombstone k cut]⟩
  | .rotateRead old new unsent =>
    match (node.docs.lookup old).bind C.read with
    | some w => ⟨node, [.setDoc new w.data unsent, .removeDoc old], []⟩
    | none => ⟨node, [], []⟩
  | .collectExpired nowSecs =>
    let expired := node.docs.entries.filter fun e =>
      (C.read e.2).any fun w => w.data.isExpired nowSecs
    ⟨node, expired.map fun e => .evict e.1, []⟩
  | .evict k =>
    match (node.docs.lookup k).bind C.read with
    | some _ => ⟨node, [.removeDoc k], []⟩
    | none => ⟨node, [], []⟩
  | .checkDelta k change =>
    if k ∈ node.tombstones then ⟨node, [], []⟩
    else ⟨node, [.applyDelta k change (node.removedBefore k)], []⟩
  | .applyDelta k change _ =>
    ⟨{ node with docs := node.docs.insert k (node.doc k ∪ change) }, [], []⟩
  | .gcTombstones =>
    let dead := node.tombstones.entries.filter fun e => ¬clock - e.2 < tombstoneTtl
    ⟨{ node with tombstones := dead.foldl (fun ts e => ts.erase e.1) node.tombstones }, [], []⟩
  | .copyDocs => ⟨node, [.copyTombstones (node.docs.entries.map fun e => (e.1, e.2))], []⟩
  | .copyTombstones sessions =>
    ⟨node, [], [.state sessions (node.tombstones.keys.map fun k => (k, node.removedBefore k))]⟩
  | .mergeTombstones ts =>
    let put := fun (tombs : AList fun _ : K => Nat) (t : K × Nat) =>
      if t.1 ∈ tombs then tombs else tombs.insert t.1 clock
    ⟨{ node with tombstones := ts.foldl put node.tombstones }, [], []⟩
  | .mergeDropDocs ts =>
    ⟨ts.foldl (fun node t => { node with docs := node.docs.erase t.1 }.process t.1 t.2) node, [],
      []⟩
  | .mergeDoc k d =>
    if k ∈ node.tombstones then ⟨node, [], []⟩
    else ⟨{ node with docs := node.docs.insert k (node.doc k ∪ d) }, [], []⟩

inductive StoreCall (K : Type) where
  | set (k : K) (data : SessionData) (unsent : Doc)
  | remove (k : K)
  | rotate (old new : K) (unsent : Doc)
  | takeExpired (nowSecs : Nat)
  | snapshot

def StoreCall.acts : StoreCall K → List (Act K)
  | .set k data unsent => [.setDoc k data unsent]
  | .remove k => [.removeDoc k]
  | .rotate old new unsent => [.rotateRead old new unsent]
  | .takeExpired nowSecs => [.collectExpired nowSecs]
  | .snapshot => [.gcTombstones, .copyDocs]

/-- `apply_session` and `merge_snapshot`. -/
def ClusterMsg.acts : ClusterMsg K → List (Act K)
  | .delta k change => [.checkDelta k change]
  | .tombstone k cut => [.dropDoc k cut]
  | .state sessions ts =>
    .mergeTombstones ts :: .mergeDropDocs ts :: sessions.map fun s => .mergeDoc s.1 s.2

/-- A call, a message that arrives, a thread that takes its next lock section, time. -/
inductive ClusterEvent (K N : Type) where
  | call (n : N) (c : StoreCall K)
  | deliver (n : N) (j : Nat)
  | run (n : N) (i : Nat)
  | tick (secs : Nat)

namespace Cluster

variable {N : Type} [DecidableEq N]

def init : Cluster K N where
  nodes _ := ⟨∅, ∅, fun _ => 0, []⟩
  net := []
  counter := 0
  clock := 0

def spawn (s : Cluster K N) (n : N) (acts : List (Act K)) : Cluster K N :=
  let node := { (s.nodes n) with threads := (s.nodes n).threads ++ [acts] }
  { s with nodes := Function.update s.nodes n node }

def nextAct (s : Cluster K N) (n : N) (i : Nat) : Option (Act K) :=
  ((s.nodes n).threads[i]?).bind List.head?

def runAct (C : Resolve) (s : Cluster K N) (n : N) (i : Nat) (a : Act K) (rest : List (Act K)) :
    Cluster K N :=
  let e := a.exec C s.counter s.clock (s.nodes n)
  let node := { e.node with threads := e.node.threads.set i (e.next ++ rest) }
  { s with nodes := Function.update s.nodes n node, net := s.net ++ e.sent }

def step (C : Resolve) (s : Cluster K N) : ClusterEvent K N → Cluster K N
  | .call n c => { (s.spawn n c.acts) with counter := s.counter + 1 }
  | .deliver n j =>
    match s.net[j]? with
    | some m => { (s.spawn n m.acts) with counter := s.counter + 1 }
    | none => s
  | .run n i =>
    match (s.nodes n).threads[i]? with
    | some (a :: rest) => { (s.runAct C n i a rest) with counter := s.counter + 1 }
    | _ => s
  | .tick secs => { s with clock := s.clock + secs }

end Cluster

end

end RustCfml.Session
