import Mathlib

/-!
# Structured programs with exits

A program is left in one of five ways (`Exit`). `Stmt` are trees over actions, conditions and
**bracketing blocks**: whatever a block does around its body is given by an interpretation
(`Interp`), so the trees serve for locks, transactions and the like.

A finally part is code that a compiler puts in several places: after the body, in the handler, and
**inline before an exit that jumps out**. What is inline is still under the handler, so it may run a
second time: when it throws itself, and after a `rethrow`, which runs the innermost one.
-/

namespace Blocks

inductive Exit (E : Type) where
  | normal
  | returns
  | breaks
  | continues
  | throws (e : E)

/-- The exits that run the finally parts before they jump. -/
def Exit.jumps {E : Type} : Exit E → Bool
  | returns | breaks | continues => true
  | normal | throws _ => false

variable {γ κ β σ E : Type}

abbrev Prog (σ E : Type) := σ → Option (Exit E × σ)

namespace Prog

def skip : Prog σ E := fun s => some (.normal, s)

def seq (p q : Prog σ E) : Prog σ E := fun s =>
  match p s with
  | some (.normal, s') => q s'
  | r => r

def cond (c : σ → Bool × σ) (p q : Prog σ E) : Prog σ E := fun s =>
  if (c s).1 then p (c s).2 else q (c s).2

def loop (c : σ → Bool × σ) (p : Prog σ E) : Nat → Prog σ E
  | 0, _ => none
  | n + 1, s =>
    if (c s).1 then
      match p (c s).2 with
      | some (.normal, s') | some (.continues, s') => loop c p n s'
      | some (.breaks, s') => some (.normal, s')
      | r => r
    else some (.normal, (c s).2)

/-- A function body: `return` ends it. -/
def call (p : Prog σ E) : Prog σ E := fun s =>
  match p s with
  | some (.returns, s') => some (.normal, s')
  | r => r

def tryCatch (p : Prog σ E) (caught : E → σ → σ) (handler : Prog σ E) : Prog σ E := fun s =>
  match p s with
  | some (.throws e, s') => handler (caught e s')
  | r => r

/-- `q`, and then the exit that was under way, unless `q` is left in another way. -/
def andResume (q : Prog σ E) (x : Exit E) : Prog σ E := fun s =>
  match q s with
  | some (.normal, s') => some (x, s')
  | r => r

/-- `fin` where `p` jumps out. -/
def inlined (p fin : Prog σ E) : Prog σ E := fun s =>
  match p s with
  | some (x, s') => if x.jumps then fin.andResume x s' else some (x, s')
  | none => none

/-- `jump` is the finally part as it stands before a jump, `fin` as it stands elsewhere. -/
def tryFinally (p jump fin : Prog σ E) : Prog σ E := fun s =>
  match p.inlined jump s with
  | some (.normal, s') => fin s'
  | some (.throws e, s') => fin.andResume (.throws e) s'
  | r => r

/-- The handler is not under a handler, and what it throws passes the finally part by. -/
def tryAll (p : Prog σ E) (caught : E → σ → σ) (handler jump fin : Prog σ E) : Prog σ E := fun s =>
  match p.inlined jump s with
  | some (.normal, s') => fin s'
  | some (.throws e, s') =>
    match handler.inlined jump (caught e s') with
    | some (.normal, s'') => fin s''
    | r => r
  | r => r

def Ensures (R : σ → σ → Prop) (p : Prog σ E) : Prop := ∀ s x s', p s = some (x, s') → R s s'

end Prog

/-- What may be repeated and left out. -/
structure Steps (R : σ → σ → Prop) : Prop where
  refl : ∀ s, R s s
  trans : ∀ {a b c}, R a b → R b c → R a c

namespace Prog

section

variable {R : σ → σ → Prop} (hR : Steps R) {p q handler jump fin : Prog σ E} {c : σ → Bool × σ}
  {caught : E → σ → σ}

include hR

lemma Ensures.seq (hp : Ensures R p) (hq : Ensures R q) : Ensures R (p.seq q) := by
  intro s x s' h
  rw [Prog.seq] at h
  split at h
  next s1 hs1 => exact hR.trans (hp s _ s1 hs1) (hq s1 x s' h)
  next => exact hp s x s' h

lemma Ensures.cond (hc : ∀ s, R s (c s).2) (hp : Ensures R p) (hq : Ensures R q) :
    Ensures R (Prog.cond c p q) := by
  intro s x s' h
  rw [Prog.cond] at h
  split at h
  · exact hR.trans (hc s) (hp _ x s' h)
  · exact hR.trans (hc s) (hq _ x s' h)

lemma Ensures.loop (hc : ∀ s, R s (c s).2) (hp : Ensures R p) (n : Nat) :
    Ensures R (Prog.loop c p n) := by
  induction n with
  | zero =>
    intro s x s' h
    exact absurd h (by simp [Prog.loop])
  | succ n ih =>
    intro s x s' h
    rw [Prog.loop] at h
    split at h
    next =>
      refine hR.trans (hc s) ?_
      split at h
      next s1 hs1 => exact hR.trans (hp _ _ s1 hs1) (ih s1 x s' h)
      next s1 hs1 => exact hR.trans (hp _ _ s1 hs1) (ih s1 x s' h)
      next s1 hs1 =>
        obtain ⟨-, rfl⟩ := Prod.mk.inj (Option.some.inj h)
        exact hp _ _ s1 hs1
      next => exact hp _ x s' h
    next =>
      obtain ⟨-, rfl⟩ := Prod.mk.inj (Option.some.inj h)
      exact hc s

omit hR in
lemma Ensures.call (hp : Ensures R p) : Ensures R (Prog.call p) := by
  intro s x s' h
  rw [Prog.call] at h
  split at h
  next s1 hs1 =>
    obtain ⟨-, rfl⟩ := Prod.mk.inj (Option.some.inj h)
    exact hp s _ s1 hs1
  next => exact hp s x s' h

lemma Ensures.tryCatch (hcaught : ∀ e s, R s (caught e s)) (hp : Ensures R p)
    (hh : Ensures R handler) : Ensures R (p.tryCatch caught handler) := by
  intro s x s' h
  rw [Prog.tryCatch] at h
  split at h
  next e s1 hs1 => exact hR.trans (hp s _ s1 hs1) (hR.trans (hcaught e s1) (hh _ x s' h))
  next => exact hp s x s' h

omit hR in
lemma Ensures.andResume (hfin : Ensures R fin) (x : Exit E) : Ensures R (fin.andResume x) := by
  intro s y s' h
  rw [Prog.andResume] at h
  split at h
  next s1 hs1 =>
    obtain ⟨-, rfl⟩ := Prod.mk.inj (Option.some.inj h)
    exact hfin s _ s1 hs1
  next => exact hfin s y s' h

lemma Ensures.inlined (hp : Ensures R p) (hj : Ensures R jump) : Ensures R (p.inlined jump) := by
  intro s x s' h
  rw [Prog.inlined] at h
  split at h
  next y s1 hs1 =>
    split at h
    · exact hR.trans (hp s y s1 hs1) (hj.andResume y s1 x s' h)
    · obtain ⟨rfl, rfl⟩ := Prod.mk.inj (Option.some.inj h)
      exact hp s _ _ hs1
  next => exact absurd h (by simp)

lemma Ensures.tryFinally (hp : Ensures R p) (hj : Ensures R jump) (hfin : Ensures R fin) :
    Ensures R (p.tryFinally jump fin) := by
  have hin := hp.inlined hR hj
  intro s x s' h
  rw [Prog.tryFinally] at h
  split at h
  next s1 hs1 => exact hR.trans (hin s _ s1 hs1) (hfin s1 x s' h)
  next e s1 hs1 => exact hR.trans (hin s _ s1 hs1) (hfin.andResume _ s1 x s' h)
  next => exact hin s x s' h

lemma Ensures.tryAll (hcaught : ∀ e s, R s (caught e s)) (hp : Ensures R p)
    (hh : Ensures R handler) (hj : Ensures R jump) (hfin : Ensures R fin) :
    Ensures R (p.tryAll caught handler jump fin) := by
  have hin := hp.inlined hR hj
  have hhandler := hh.inlined hR hj
  intro s x s' h
  rw [Prog.tryAll] at h
  split at h
  next s1 hs1 => exact hR.trans (hin s _ s1 hs1) (hfin s1 x s' h)
  next e s1 hs1 =>
    refine hR.trans (hin s _ s1 hs1) (hR.trans (hcaught e s1) ?_)
    split at h
    next s2 hs2 => exact hR.trans (hhandler _ _ s2 hs2) (hfin s2 x s' h)
    next => exact hhandler _ x s' h
  next => exact hin s x s' h

end

end Prog

inductive Stmt (γ κ β : Type) where
  | skip
  | act (a : γ)
  | rethrow
  | seq (first rest : Stmt γ κ β)
  | ifS (c : κ) (thenB elseB : Stmt γ κ β)
  | whileS (c : κ) (body : Stmt γ κ β)
  | call (body : Stmt γ κ β)
  | tryCatch (body handler : Stmt γ κ β)
  | tryFinally (body fin : Stmt γ κ β)
  | tryAll (body handler fin : Stmt γ κ β)
  | block (b : β) (body : Stmt γ κ β)

structure Interp (γ κ β σ E : Type) where
  act : γ → Prog σ E
  cond : κ → σ → Bool × σ
  caught : E → σ → σ
  /-- The exception that is in hand. -/
  current : σ → E
  block : β → Prog σ E → Prog σ E
  /-- The finally part of the block, if it has one, as a `rethrow` in its body runs it. -/
  final : β → Option (Prog σ E)

variable (I : Interp γ κ β σ E)

/-- `fin` is the innermost finally part that the statement stands in. -/
def Stmt.exec (fuel : Nat) (fin : Prog σ E) : Stmt γ κ β → Prog σ E
  | skip => .skip
  | act a => I.act a
  | rethrow => fin.seq fun s => some (.throws (I.current s), s)
  | seq first rest => (first.exec fuel fin).seq (rest.exec fuel fin)
  | ifS c thenB elseB => .cond (I.cond c) (thenB.exec fuel fin) (elseB.exec fuel fin)
  | whileS c body => .loop (I.cond c) (body.exec fuel fin) fuel
  | call body => .call (body.exec fuel .skip)
  | tryCatch body handler => (body.exec fuel fin).tryCatch I.caught (handler.exec fuel fin)
  | tryFinally body last =>
    (body.exec fuel (last.exec fuel fin)).tryFinally (last.exec fuel .skip) (last.exec fuel fin)
  | tryAll body handler last =>
    (body.exec fuel (last.exec fuel fin)).tryAll I.caught (handler.exec fuel (last.exec fuel fin))
      (last.exec fuel .skip) (last.exec fuel fin)
  | block b body => I.block b (body.exec fuel ((I.final b).getD fin))

theorem Stmt.ensures_exec {R : σ → σ → Prop} (hR : Steps R) (hact : ∀ a, (I.act a).Ensures R)
    (hcond : ∀ c s, R s (I.cond c s).2) (hcaught : ∀ e s, R s (I.caught e s))
    (hblock : ∀ b p, p.Ensures R → (I.block b p).Ensures R)
    (hfinal : ∀ b p, I.final b = some p → p.Ensures R) (fuel : Nat) (st : Stmt γ κ β)
    {fin : Prog σ E} (hfin : fin.Ensures R) : (st.exec I fuel fin).Ensures R := by
  have hskip : (Prog.skip : Prog σ E).Ensures R := by
    intro s x s' h
    obtain ⟨-, rfl⟩ := Prod.mk.inj (Option.some.inj h)
    exact hR.refl s
  induction st generalizing fin with
  | skip => exact hskip
  | act a => exact hact a
  | rethrow =>
    refine .seq hR hfin fun s x s' h => ?_
    obtain ⟨-, rfl⟩ := Prod.mk.inj (Option.some.inj h)
    exact hR.refl s
  | seq _ _ ih1 ih2 => exact .seq hR (ih1 hfin) (ih2 hfin)
  | ifS c _ _ ih1 ih2 => exact .cond hR (hcond c) (ih1 hfin) (ih2 hfin)
  | whileS c _ ih => exact .loop hR (hcond c) (ih hfin) fuel
  | call _ ih => exact .call (ih hskip)
  | tryCatch _ _ ih1 ih2 => exact .tryCatch hR hcaught (ih1 hfin) (ih2 hfin)
  | tryFinally _ _ ih1 ih2 =>
    exact .tryFinally hR (ih1 (ih2 hfin)) (ih2 hskip) (ih2 hfin)
  | tryAll _ _ _ ih1 ih2 ih3 =>
    exact .tryAll hR hcaught (ih1 (ih3 hfin)) (ih2 (ih3 hfin)) (ih3 hskip) (ih3 hfin)
  | block b _ ih =>
    refine hblock b _ (ih ?_)
    cases hb : I.final b with
    | none => exact hfin
    | some p => exact hfinal b p hb

end Blocks
