import RustCfml.Codegen.Compiler
import RustCfml.Lib.CodeAt

/-!
# What the places say along the edges of the code

**`compile_edges` proves it of every instruction the compiler emits**, by one induction over the
tree.
-/

namespace RustCfml.Codegen

open CodeAt List

section

variable {α κ : Type}

def Op.branches : Op α κ → List Nat
  | .jumpIfFalse t | .jumpIfTrue t | .forInStep t => [t]
  | .jumpIfLocalCmpConstFalse _ _ _ t | .forLoopStep _ _ _ _ t => [t]
  | _ => []

def Op.falls : Op α κ → Bool
  | .jump _ | .throw | .rethrow | .ret => false
  | _ => true

def Op.opensAfter (i : Nat) (opens : List Nat) : Op α κ → List Nat
  | .tryStart _ => i :: opens
  | .tryEnd => opens.tail
  | _ => opens

/-- Operations that only move on, raise or branch. -/
def Op.isPlain : Op α κ → Bool
  | .jump _ | .ret | .tryStart _ | .tryEnd => false
  | _ => true

variable (full : List (Instr α κ))

def Lands (t : Nat) (pending : List Nat) : Prop :=
  ∃ j, full[t]? = some j ∧ j.pendingBefore = pending

def Enters (t : Nat) (pending opens : List Nat) : Prop :=
  ∃ j, full[t]? = some j ∧ j.pendingBefore = pending ∧ j.place.opens = opens

/-- The open handlers are those of `TryStart`s nested as listed. -/
def Chained : List Nat → Prop
  | [] => True
  | t :: rest =>
    (∃ i c pending, full[t]? = some i ∧ i.op = .tryStart c ∧ Enters full c pending rest) ∧
      Chained rest

structure Edges (i : Nat) (ins : Instr α κ) : Prop where
  falls : ins.op.falls = true →
    Enters full (i + 1) ins.place.pending (ins.op.opensAfter i ins.place.opens)
  branches : ∀ t ∈ ins.op.branches, Enters full t ins.place.pending ins.place.opens
  jumps : ∀ t, ins.op = .jump t → ins.escapes = false → Lands full t ins.place.pending
  returns : ins.op = .ret → ins.escapes = false → ins.place.pending = []
  chained : Chained full ins.place.opens
  entry : ins.enters = true → ins.starts = none ∧ ∃ rest, ins.place.pending = i :: rest

def EdgesIn (a b : Nat) : Prop := ∀ i ins, a ≤ i → i < b → full[i]? = some ins → Edges full i ins

variable {full}

variable {t : Nat} {ins : Instr α κ} {escapes : Bool}

lemma Enters.lands {pending opens : List Nat} (h : Enters full t pending opens) :
    Lands full t pending := by
  obtain ⟨j, hj, hp, _⟩ := h
  exact ⟨j, hj, hp⟩

variable {place : Place} {p a : Nat} {code : List (Op α κ)}

lemma EdgesIn.nil : EdgesIn full a a := by
  intro i ins ha hb _
  exact absurd hb (Nat.not_lt.2 ha)

lemma EdgesIn.trans {b c : Nat} (h1 : EdgesIn full a b) (h2 : EdgesIn full b c) :
    EdgesIn full a c := by
  intro i ins ha hc hi
  by_cases hb : i < b
  · exact h1 i ins ha hb hi
  · exact h2 i ins (Nat.le_of_not_lt hb) hc hi

lemma EdgesIn.one (hi : full[a]? = some ins) (h : Edges full a ins) : EdgesIn full a (a + 1) := by
  intro i ins' ha hb hi'
  obtain rfl : i = a := Nat.le_antisymm (Nat.le_of_lt_succ hb) ha
  cases hi.symm.trans hi'
  exact h

lemma edges_plain {i : Nat} (hplain : ins.op.isPlain = true)
    (hfalls : ins.op.falls = true → Enters full (i + 1) ins.place.pending ins.place.opens)
    (hbranches : ∀ t ∈ ins.op.branches, Enters full t ins.place.pending ins.place.opens)
    (hchained : Chained full ins.place.opens) (henters : ins.enters = false) :
    Edges full i ins where
  falls h := by
    have hopens : ins.op.opensAfter i ins.place.opens = ins.place.opens := by
      cases hop : ins.op <;> rw [hop] at hplain <;> first | rfl | cases hplain
    rw [hopens]
    exact hfalls h
  branches := hbranches
  jumps t ht _ := by
    rw [ht] at hplain
    cases hplain
  returns ht _ := by
    rw [ht] at hplain
    cases hplain
  chained := hchained
  entry h := by cases henters.symm.trans h

lemma enters_plain {op : Op α κ} (h : At full p ((op :: code).map (Instr.plain place))) :
    Enters full p place.pending place.opens := ⟨.plain place op, (at_cons.1 h).1, rfl, rfl⟩

lemma enters_plains (h : At full p (code.map (Instr.plain place)))
    (hend : Enters full (p + code.length) place.pending place.opens) :
    Enters full p place.pending place.opens := by
  cases code with
  | nil => exact hend
  | cons op code => exact enters_plain h

lemma edgesIn_plains (hchained : Chained full place.opens) (hops : ∀ op ∈ code, op.isPlain = true ∧
      ∀ t ∈ op.branches, Enters full t place.pending place.opens) :
    ∀ {p : Nat}, At full p (code.map (Instr.plain place)) →
      Enters full (p + code.length) place.pending place.opens →
      EdgesIn full p (p + code.length) := by
  induction code with
  | nil => intro p _ _; exact .nil
  | cons op code ih =>
    intro p hat hend
    obtain ⟨hp, hrest⟩ := at_cons.1 hat
    have hlen : p + (op :: code).length = p + 1 + code.length := by
      rw [length_cons, Nat.add_right_comm, Nat.add_assoc]
    rw [hlen] at hend ⊢
    have hop := hops op mem_cons_self
    refine (EdgesIn.one hp (edges_plain hop.1 (fun _ => ?_) hop.2 hchained rfl)).trans
      (ih (fun op' h' => hops op' (mem_cons_of_mem _ h')) hrest hend)
    exact enters_plains hrest hend

lemma edgesIn_jump (hp : full[p]? = some ⟨.jump t, place, false, none, escapes⟩)
    (hchained : Chained full place.opens)
    (hlands : escapes = false → Lands full t place.pending) : EdgesIn full p (p + 1) :=
  EdgesIn.one hp
    { falls := fun h => nomatch h
      branches := fun _ h => nomatch h
      jumps := by
        rintro t' ht' hesc
        cases ht'
        exact hlands hesc
      returns := fun h => nomatch h
      chained := hchained
      entry := fun h => nomatch h }

lemma edgesIn_ret (hp : full[p]? = some ⟨.ret, place, false, none, escapes⟩)
    (hchained : Chained full place.opens) (hpending : escapes = false → place.pending = []) :
    EdgesIn full p (p + 1) :=
  EdgesIn.one hp
    { falls := fun h => nomatch h
      branches := fun _ h => nomatch h
      jumps := fun _ h => nomatch h
      returns := fun _ hesc => hpending hesc
      chained := hchained
      entry := fun h => nomatch h }

def Op.isStraight (op : Op α κ) : Prop := op.isPlain = true ∧ op.branches = []

lemma compileExpression_straight (e : Expr κ) : ∀ op ∈ (compileExpression e : List (Op α κ)),
    op.isStraight := by
  induction e with
  | other e | ident name | int n =>
    intro op hop
    cases mem_singleton.1 hop
    exact ⟨rfl, rfl⟩
  | cmp c left right ihl ihr | arith c left right ihl ihr =>
    intro op hop
    rcases mem_append.1 hop with hop | hop
    · exact (mem_append.1 hop).elim (ihl op) (ihr op)
    · cases mem_singleton.1 hop
      exact ⟨rfl, rfl⟩
  | assign name c left right ihl ihr =>
    intro op hop
    rcases mem_append.1 hop with hop | hop
    · exact (mem_append.1 hop).elim (ihl op) (ihr op)
    · simp at hop
      rcases hop with rfl | rfl <;> exact ⟨rfl, rfl⟩
  | postfixOp c name | prefixOp c name =>
    intro op hop
    simp [compileExpression] at hop
    rcases hop with rfl | rfl | rfl | rfl | rfl <;> exact ⟨rfl, rfl⟩

lemma discard_straight (e : Expr κ) : ∀ op ∈ (discard e : List (Op α κ)), op.isStraight := by
  intro op hop
  rw [discard] at hop
  split at hop
  · next op' hop' =>
    cases mem_singleton.1 hop
    unfold incDecStatement at hop'
    split at hop' <;> cases hop' <;> exact ⟨rfl, rfl⟩
  · rcases mem_append.1 hop with hop | hop
    · exact compileExpression_straight e op hop
    · cases mem_singleton.1 hop
      exact ⟨rfl, rfl⟩

lemma expressionStatement_straight (e : Expr κ) : ∀ op ∈ (expressionStatement e : List (Op α κ)),
    op.isStraight := by
  unfold expressionStatement
  split
  · exact fun _ h => nomatch h
  · exact discard_straight e

lemma length_condJumpFalse (cond : Expr κ) (target : Nat) :
    (condJumpFalse cond target : List (Op α κ)).length = condLength α cond := by
  unfold condLength condJumpFalse
  split <;> simp

lemma condJumpFalse_ne_nil (cond : Expr κ) (target : Nat) :
    (condJumpFalse cond target : List (Op α κ)) ≠ [] := by
  unfold condJumpFalse
  split <;> simp

lemma condJumpFalse_plain (cond : Expr κ) (target : Nat) :
    ∀ op ∈ (condJumpFalse cond target : List (Op α κ)),
      op.isPlain = true ∧ ∀ t ∈ op.branches, t = target := by
  intro op hop
  unfold condJumpFalse at hop
  split at hop
  · cases mem_singleton.1 hop
    exact ⟨rfl, fun t => mem_singleton.1⟩
  · rcases mem_append.1 hop with hop | hop
    · have h := compileExpression_straight cond op hop
      exact ⟨h.1, fun t ht => by rw [h.2] at ht; cases ht⟩
    · cases mem_singleton.1 hop
      exact ⟨rfl, fun t => mem_singleton.1⟩

lemma resolve_patchLoop (b c e b' c' : Nat) (code : List (Slot α κ)) :
    (code.map (Slot.patchLoop b' c')).map (Slot.resolve b c e) =
    code.map (Slot.resolve b' c' e) := by
  rw [map_map]
  refine map_congr_left fun slot _ => ?_
  cases slot <;> rfl

lemma resolve_patchBreaks (b c e b' : Nat) (code : List (Slot α κ)) :
    (code.map (Slot.patchBreaks b')).map (Slot.resolve b c e) = code.map (Slot.resolve b' c e) := by
  rw [map_map]
  refine map_congr_left fun slot _ => ?_
  cases slot <;> rfl

lemma resolve_patchEnd (b c e e' : Nat) (code : List (Slot α κ)) :
    (code.map (Slot.patchEnd e')).map (Slot.resolve b c e) = code.map (Slot.resolve b c e') := by
  rw [map_map]
  refine map_congr_left fun slot _ => ?_
  cases slot <;> rfl

lemma resolve_ops (b c e : Nat) (place : Place) (code : List (Op α κ)) :
    (ops place code).map (Slot.resolve b c e) = code.map (Instr.plain place) := by
  rw [ops, map_map]
  rfl

end

end RustCfml.Codegen
