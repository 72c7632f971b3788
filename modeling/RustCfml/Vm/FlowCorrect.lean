import RustCfml.Vm.Simulation

/-!
# The control-flow compiler is correct

One induction over the tree: the code of a node simulates its meaning, with the exits the
compile-time frames stand for. Loops add an induction on the rounds left, dispatch one over the
cases.
-/

namespace RustCfml.Vm

open Codegen CodeAt List

section

variable {α κ σ : Type} {H : Host α κ σ} {code : List (Instr α κ)} {x : Exits}
  {stack : List CfmlValue} {fuel pos : Nat} {place : Place} {d : Data σ}

lemma simulates_outOfFuel (s : State σ) : Simulates H code x stack 0 s (.pure .outOfFuel) :=
  fun _ => ⟨0, s, le_rfl, reaches_refl s⟩

variable {body : Block α κ} {t mid : Nat} {cond : Expr κ} {v : CfmlValue} {k : Category}

/-- `while` and `for`: the condition at `pos`, the body behind it, `next` at `mid` and the jump back
at `back`. -/
lemma simulates_loop {e : κ} {body next : World σ → Result α κ σ} {back cont : Nat}
    (heval : code[pos]? = some (.plain place (.eval e)))
    (hjump : code[pos + 1]? = some (.plain place (.jumpIfFalse x.next)))
    (hback : code[back]? = some (.plain place (.jump pos))) (hbody : ∀ d, d.stack = stack →
      Simulates H code ⟨mid, some x.next, some cont⟩ stack fuel ⟨pos + 2, [], d⟩ (body d.world))
    (hnext : ∀ d, d.stack = stack →
      Simulates H code ⟨back, x.break?, x.continue?⟩ stack fuel ⟨mid, [], d⟩ (next d.world))
    (hcont : cont = mid ∨ cont = pos ∧ next = fun w => .pure (.done w)) :
    ∀ n ≤ fuel, ∀ d, d.stack = stack → Simulates H code x stack n ⟨pos, [], d⟩
      (loop (test H (.other e)) body next n d.world) := by
  intro n
  induction n with
  | zero => intro _ d _; exact simulates_outOfFuel _
  | succ n ih =>
    intro hn d hd
    have hle : n ≤ fuel := Nat.le_of_succ_le hn
    -- the rest of a round, from `next` on
    have hrest (d : Data σ) (hd : d.stack = stack) : Simulates H code x stack n ⟨mid, [], d⟩
        ((next d.world).bind (Outcome.andThen (loop (test H (.other e)) body next n))) :=
      simulates_andThen ((hnext d hd).mono hle) fun d hd =>
        (simulates_goto hback rfl rfl (ih hle d hd)).mono (Nat.le_add_left n 1)
    have hround : Simulates H code x stack (2 + n) ⟨pos, [], d⟩
        (loop (test H (.other e)) body next (n + 1) d.world) := by
      refine simulates_test false (fun _ => rfl) rfl heval hjump hd fun b d hd => ?_
      cases b with
      | false => exact simulates_done rfl rfl hd
      | true =>
        refine simulates_around ((hbody d hd).mono hle) hrest fun d hd => ?_
        rcases hcont with rfl | ⟨rfl, rfl⟩
        · exact hrest d hd
        · exact ih hle d hd
    exact hround.mono (by omega)

lemma simulates_doLoop {e : κ} {body : World σ → Result α κ σ}
    (heval : code[mid]? = some (.plain place (.eval e)))
    (hjump : code[mid + 1]? = some (.plain place (.jumpIfTrue pos))) (hnext : x.next = mid + 2)
    (hbody : ∀ d, d.stack = stack →
      Simulates H code ⟨mid, some x.next, some mid⟩ stack fuel ⟨pos, [], d⟩ (body d.world)) :
    ∀ n ≤ fuel, ∀ d, d.stack = stack → Simulates H code x stack n ⟨pos, [], d⟩
      (doLoop H (.other e) body n d.world) := by
  intro n
  induction n with
  | zero => intro _ d _; exact simulates_outOfFuel _
  | succ n ih =>
    intro hn d hd
    have hle : n ≤ fuel := Nat.le_of_succ_le hn
    have htest (d : Data σ) (hd : d.stack = stack) : Simulates H code x stack (n + 1) ⟨mid, [], d⟩
        (test H (.other e) d.world fun b w' =>
          if b then doLoop H (.other e) body n w' else .pure (.done w')) := by
      refine Simulates.mono (show n + 1 ≤ 2 + n by omega)
        (simulates_test true (fun _ => rfl) rfl heval hjump hd fun b d hd => ?_)
      cases b with
      | false => exact simulates_done hnext.symm rfl hd
      | true => exact ih hle d hd
    exact simulates_around ((hbody d hd).mono hn) htest htest

lemma simulates_compare {e : κ} {base : List CfmlValue}
    {k : CfmlValue → World σ → Result α κ σ} (hv : d.load (.switchV t) = some v)
    (hload : code[pos]? = some (.plain place (.loadLocal (.switchV t))))
    (heval : code[pos + 1]? = some (.plain place (.eval e)))
    (hcmp : code[pos + 2]? = some (.plain place (.cmp .eq))) (hd : d.stack = base)
    (hk : ∀ u d', d'.stack = .bool (compareValues H .eq v u) :: base →
      d'.load (.switchV t) = some v →
      Simulates H code x stack fuel ⟨pos + 3, [], d'⟩ (k u d'.world)) :
    Simulates H code x stack fuel ⟨pos, [], d⟩ (evaluate H (.other e) d.world k) := by
  have hpush : effect H (.loadLocal (.switchV t)) pos d = .goto (pos + 1) (d.push v) := by
    show Effect.goto (pos + 1) (d.push ((d.load (.switchV t)).getD .null)) = _
    rw [hv, Option.getD_some]
  refine Simulates.mono (Nat.le_add_left fuel 3) ?_
  have hsum : 3 + fuel = 1 + (1 + (1 + fuel)) := by omega
  rw [hsum]
  refine simulates_goto hload rfl hpush (simulates_evaluate (d := d.push v) heval fun u w => ?_)
  refine simulates_goto hcmp rfl rfl (hk u _ ?_ hv)
  show _ :: d.stack = _
  rw [hd]
  rfl

lemma simulates_matchValues {k : Bool → World σ → Result α κ σ} {pos' : Nat} :
    ∀ {values : List (Expr κ)} {found : Bool} {pos : Nat} {d : Data σ},
      values.all Expr.isOther = true → d.load (.switchV t) = some v →
      d.stack = .bool found :: stack →
      At code pos ((values.flatMap fun u =>
        .loadLocal (.switchV t) :: compileExpression u ++ [.cmp .eq, .or]).map
        (Instr.plain place)) →
      pos' = pos + (values.flatMap fun u => (.loadLocal (.switchV t) :: compileExpression u ++
        [.cmp .eq, .or] : List (Op α κ))).length →
      (∀ found d', d'.stack = .bool found :: stack → d'.load (.switchV t) = some v →
        Simulates H code x stack fuel ⟨pos', [], d'⟩ (k found d'.world)) →
      Simulates H code x stack fuel ⟨pos, [], d⟩ (matchValues H v values found d.world k) := by
  intro values
  induction values with
  | nil =>
    intro found pos d _ hv hd _ hpos hk
    have hend : pos' = pos := hpos
    rw [hend] at hk
    exact hk found d hd hv
  | cons u values ih =>
    intro found pos d hother hv hd hat hpos hk
    obtain ⟨hu, hother⟩ := Bool.and_eq_true_iff.1 hother
    cases u with
    | other u =>
      simp [flatMap_cons, compileExpression, at_cons, Nat.add_assoc, Nat.reduceAdd] at hat
      obtain ⟨hload, heval, hcmp, hor, hrest⟩ := hat
      rw [matchValues]
      refine simulates_compare hv hload heval hcmp hd fun u' d' hd' hv' => ?_
      have heff : effect H .or (pos + 3) d' = .goto (pos + 4)
          { d' with stack := .bool (found || compareValues H .eq v u') :: stack } := by
        rw [effect]
        simp only [Data.popped, hd']
        rfl
      refine Simulates.mono (Nat.le_add_left fuel 1) (simulates_goto hor rfl heff ?_)
      refine ih (d := { d' with stack := .bool (found || compareValues H .eq v u') :: stack })
        hother hv' rfl hrest ?_ hk
      rw [hpos, flatMap_cons, length_append]
      simp [compileExpression]
      omega
    | _ => cases hu

/-! ## Nodes -/

/-- The exits of code compiled with these frames, when the slots are resolved to `b` and `c`. -/
def exitsOf (cx : Ctx α κ) (b c next : Nat) : Exits :=
  ⟨next, cx.site.breakDepth.map fun _ => b, cx.site.continueDepth.map fun _ => c⟩

def NodeSim (H : Host α κ σ) (code : List (Instr α κ)) (fuel : Nat) {k : Category}
    (n : Node α κ k) : Prop :=
  ∀ (cx : Ctx α κ) (pos b c e : Nat) (d : Data σ), n.isFlow = true → cx.finallys = [] →
    (k = .elses → e = pos + (compile n cx pos).code.length) →
    At code pos ((compile n cx pos).code.map (Slot.resolve b c e)) →
    Simulates H code (exitsOf cx b c (pos + (compile n cx pos).code.length)) d.stack fuel
      ⟨pos, [], d⟩ ((meaning H fuel n).run d.world)

lemma Simulates.relay {s : State σ} {r : Result α κ σ}
    (h : Simulates H code ⟨mid, x.break?, x.continue?⟩ stack fuel s r)
    (hmid : ∀ d, d.stack = stack →
      ∃ n, Reaches H code n ⟨mid, [], d⟩ [] (.running ⟨x.next, [], d⟩)) :
    Simulates H code x stack fuel s r := by
  intro hopen
  have h := h hopen
  obtain ⟨trace, outcome, opened⟩ := r
  cases outcome with
  | done w =>
    obtain ⟨n, d, hreach, hw, hd⟩ := h
    obtain ⟨m, hm⟩ := hmid d hd
    have hboth := hreach.trans hm
    rw [append_nil] at hboth
    exact ⟨n + m, d, hboth, hw, hd⟩
  | breaks w | continues w | fails e w | outOfFuel => exact h

variable {cx : Ctx α κ} {b c e : Nat} {r : Result α κ σ}

lemma simulates_stmt {inner : List (Slot α κ)}
    (hat : At code pos ((Out.stmt cx inner).code.map (Slot.resolve b c e)))
    (h : At code (pos + 1) (inner.map (Slot.resolve b c e)) →
      Simulates H code (exitsOf cx b c (pos + 1 + inner.length)) d.stack fuel ⟨pos + 1, [], d⟩ r) :
    Simulates H code (exitsOf cx b c (pos + (Out.stmt cx inner).code.length)) d.stack fuel ⟨pos, [],
      d⟩ r := by
  simp only [Out.stmt, map_cons, at_cons, length_cons] at hat ⊢
  rw [Nat.add_comm inner.length 1, ← Nat.add_assoc]
  exact (simulates_goto hat.1 rfl rfl (h hat.2)).mono (Nat.le_add_left fuel 1)

lemma nodeSim_cons {s : Stmt α κ} {rest : Block α κ} (hs : NodeSim H code fuel s)
    (hrest : NodeSim H code fuel rest) : NodeSim H code fuel (.cons s rest) := by
  intro cx pos b c e d hflow hfin _ hat
  obtain ⟨hs', hrest'⟩ := Bool.and_eq_true_iff.1 hflow
  rw [compile] at hat ⊢
  simp only [at_layout] at hat ⊢
  rw [meaning_cons]
  refine simulates_andThen (hs cx pos b c e d hs' hfin (fun h => by cases h) hat.1) fun d' hd' => ?_
  have h :=
    hrest cx.parts (pos + (compile s cx pos).code.length) b c e d' hrest' hfin (fun h => by cases h)
    hat.2
  rw [hd'] at h
  exact h

lemma nodeSim_atom (a : α) : NodeSim H code fuel (.atom a : Stmt α κ) := by
  intro cx pos b c e d _ _ _ hat
  rw [compile] at hat ⊢
  refine simulates_stmt hat fun hat => ?_
  have hins := (at_cons.1 hat).1
  simp only [meaning, Meaning.of]
  cases hexec : H.exec a d.world with
  | mk w raised =>
    cases raised with
    | none =>
      have heff : effect H (.exec a) (pos + 1) d = .goto (pos + 1 + 1) (d.withWorld w) := by
        rw [effect, hexec]
      have hstep := reaches_step (H := H) (s := ⟨pos + 1, [], d⟩) hins
      rw [show effect H (Slot.resolve b c e (.instr (.plain cx.place (.exec a)))).op
        (State.mk (pos + 1) [] d).ip (State.mk (pos + 1) [] d).data = _ from heff] at hstep
      intro _
      exact ⟨1, d.withWorld w, hstep, rfl, rfl⟩
    | some v =>
      have heff :
        effect H (.exec a) (pos + 1) d = raiseNow (d.withWorld w) v := by rw [effect, hexec]
      exact simulates_raise hins heff rfl rfl

variable {escapes : Bool} {inc : Option (Expr κ)} {n : Node α κ k}

lemma arrives_jump {place : Place} (h : code[pos]? = some ⟨.jump t, place, false, none, escapes⟩) :
    Arrives H code ⟨pos, [], d⟩ [] d.stack d.world (some t) :=
    ⟨1, d, reaches_goto h rfl rfl, rfl, rfl⟩

lemma arrives_return {place : Place} (hnull : code[pos]? = some (.plain place .null))
    (hret : code[pos + 1]? = some ⟨.ret, place, false, none, escapes⟩) :
    Arrives H code ⟨pos, [], d⟩ [] d.stack d.world none := by
  have h : Reaches H code 1 ⟨pos, [], d⟩ [] (.running ⟨pos + 1, [], d.push .null⟩) :=
    reaches_goto hnull rfl rfl
  exact ⟨1 + 1, d, h.trans (reaches_step (s := ⟨pos + 1, [], d.push .null⟩) hret), rfl⟩

/-- Without a `finally` on the way, `break` and `continue` are one jump inside a loop and a return
outside. -/
lemma arrives_exit {depth : Option Nat} {jump : Nat → Slot α κ} (hfin : cx.finallys = [])
    (hjump : ∀ n, ∃ place escapes, (jump n).resolve b c e = ⟨.jump t, place, false, none, escapes⟩)
    (hat : At code pos ((match depth with
      | none => breakOutOfClosure cx pos
      | some n => inlineFinallys (cx.above n) cx.site pos ++ [jump n]).map (Slot.resolve b c e))) :
    Arrives H code ⟨pos, [], d⟩ [] d.stack d.world (depth.map fun _ => t) := by
  cases depth with
  | none =>
    simp [breakOutOfClosure, hfin, inlineFinallys, at_cons] at hat
    exact arrives_return hat.1 hat.2.1
  | some n =>
    obtain ⟨place, escapes, heq⟩ := hjump n
    simp [Ctx.above, hfin, take_nil, inlineFinallys, at_cons, heq] at hat
    exact arrives_jump hat.1

lemma nodeSim_breakS : NodeSim H code fuel (.breakS : Stmt α κ) := by
  intro cx pos b c e d _ hfin _ hat
  rw [compile] at hat ⊢
  refine simulates_stmt hat fun hat => ?_
  rw [meaning]
  exact fun _ => arrives_exit hfin (fun _ => ⟨_, _, rfl⟩) hat

lemma nodeSim_continueS : NodeSim H code fuel (.continueS : Stmt α κ) := by
  intro cx pos b c e d _ hfin _ hat
  rw [compile] at hat ⊢
  refine simulates_stmt hat fun hat => ?_
  rw [meaning]
  exact fun _ => arrives_exit hfin (fun _ => ⟨_, _, rfl⟩) hat

lemma condLength_other (cond : κ) : condLength α (.other cond : Expr κ) = 2 := rfl

lemma condJump_other (cond : κ) (t : Nat) :
    (condJumpFalse (.other cond) t : List (Op α κ)) = [.eval cond, .jumpIfFalse t] := rfl

lemma nodeSim_ifS {thenB : Block α κ} {rest : Node α κ .elses} (hthen : NodeSim H code fuel thenB)
    (hrest : NodeSim H code fuel rest) : NodeSim H code fuel (.ifS cond thenB rest) := by
  intro cx pos b c e d hflow hfin _ hat
  obtain ⟨hflow, hrest'⟩ := Bool.and_eq_true_iff.1 hflow
  obtain ⟨hcond, hthen'⟩ := Bool.and_eq_true_iff.1 hflow
  cases cond with
  | other cond =>
    rw [compile] at hat ⊢
    refine simulates_stmt hat fun hat => ?_
    rw [meaning]
    rw [ifCode] at hat ⊢
    cases hno : rest.isNoElse with
    | true =>
      have hnone : rest = .noElse := by cases rest <;> first | rfl | cases hno
      simp only [hno, Bool.not_true, Bool.false_eq_true, if_false, condLength_other, condJump_other,
        resolve_ops, map_cons, map_nil, at_cons, length_ops, at_layout] at hat ⊢
      refine Simulates.mono (Nat.le_add_left fuel 2)
        (simulates_test false (fun _ => rfl) rfl hat.1.1 hat.1.2.1 rfl fun found d' hd' => ?_)
      cases found with
      | true =>
        have h := hthen cx.parts (pos + 1 + 2) b c e d' hthen' hfin (fun h => by cases h) hat.2
        rw [hd'] at h
        exact h
      | false =>
        rw [hnone, meaning]
        exact simulates_done rfl rfl hd'
    | false =>
      simp only [hno, Bool.not_false, if_true, condLength_other, condJump_other, resolve_ops,
        resolve_patchEnd, map_cons, map_nil, at_cons, length_ops, at_layout] at hat ⊢
      obtain ⟨⟨⟨hcondAt, hthenAt⟩, hjumpAt⟩, helseAt⟩ := hat
      refine Simulates.mono (Nat.le_add_left fuel 2)
        (simulates_test false (fun _ => rfl) rfl hcondAt.1 hcondAt.2.1 rfl fun found d' hd' => ?_)
      cases found with
      | true =>
        have h := hthen cx.parts (pos + 1 + 2) b c e d' hthen' hfin (fun h => by cases h) hthenAt
        rw [hd'] at h
        exact Simulates.relay h fun d'' _ => ⟨1, reaches_goto hjumpAt.1 rfl rfl⟩
      | false =>
        have h := hrest cx.parts _ b c _ d' hrest' hfin (fun _ => rfl) helseAt
        rw [hd'] at h
        exact h
  | _ => cases hcond

lemma nodeSim_elseIf {rest : Node α κ .elses} (hbody : NodeSim H code fuel body)
    (hrest : NodeSim H code fuel rest) :
    NodeSim H code fuel (.elseIf cond body rest) := by
  intro cx pos b c e d hflow hfin he hat
  obtain ⟨hflow, hrest'⟩ := Bool.and_eq_true_iff.1 hflow
  obtain ⟨hcond, hbody'⟩ := Bool.and_eq_true_iff.1 hflow
  cases cond with
  | other cond =>
    have he := he rfl
    rw [compile] at hat he ⊢
    simp only [elseIfCode, condLength_other, condJump_other, resolve_ops, map_cons,
      map_nil, at_cons, length_ops, at_layout] at hat he ⊢
    obtain ⟨⟨⟨hcondAt, hbodyAt⟩, hjumpAt⟩, hrestAt⟩ := hat
    rw [meaning]
    refine Simulates.mono (Nat.le_add_left fuel 2)
      (simulates_test false (fun _ => rfl) rfl hcondAt.1 hcondAt.2.1 rfl fun found d' hd' => ?_)
    cases found with
    | true =>
      have h := hbody cx (pos + 2) b c e d' hbody' hfin (fun h => by cases h) hbodyAt
      rw [hd'] at h
      refine Simulates.relay h fun d'' _ => ⟨1, ?_⟩
      rw [← he]
      exact reaches_goto hjumpAt.1 rfl rfl
    | false =>
      have h := hrest cx _ b c e d' hrest' hfin (fun _ => he) hrestAt
      rw [hd'] at h
      exact h
  | _ => cases hcond

lemma nodeSim_whileS (hbody : NodeSim H code fuel body) :
    NodeSim H code fuel (.whileS cond body) := by
  intro cx pos b c e d hflow hfin _ hat
  obtain ⟨hcond, hbody'⟩ := Bool.and_eq_true_iff.1 hflow
  cases cond with
  | other cond =>
    have hcounted : countedBody (.other cond) body = none := rfl
    rw [compile, hcounted] at hat ⊢
    refine simulates_stmt hat fun hat => ?_
    simp only [loopCode, condLength_other, condJump_other, resolve_ops, resolve_patchLoop, map_cons,
      map_nil, at_cons, length_ops, Nat.add_zero, nil_append, at_layout] at hat ⊢
    obtain ⟨⟨hcondAt, hbodyAt⟩, hjumpAt⟩ := hat
    rw [meaning]
    refine simulates_loop hcondAt.1 hcondAt.2.1 hjumpAt.1 (fun d' hd' => ?_)
      (fun d' hd' => simulates_done rfl rfl hd') (.inr ⟨rfl, rfl⟩) fuel le_rfl d rfl
    rw [← hd']
    exact hbody cx.enterLoop (pos + 1 + 2) _ _ e d' hbody' hfin (fun h => by cases h) hbodyAt
  | _ => cases hcond

lemma nodeSim_doS (hbody : NodeSim H code fuel body) : NodeSim H code fuel (.doS body cond) := by
  intro cx pos b c e d hflow hfin _ hat
  obtain ⟨hbody', hcond⟩ := Bool.and_eq_true_iff.1 hflow
  cases cond with
  | other cond =>
    have hcounted : countedBody (.other cond) body = none := rfl
    rw [compile, hcounted] at hat ⊢
    refine simulates_stmt hat fun hat => ?_
    simp only [doCode, compileExpression, resolve_ops, resolve_patchLoop, map_cons,
      map_nil, at_cons, length_ops, cons_append, nil_append, at_layout] at hat ⊢
    obtain ⟨hbodyAt, htestAt⟩ := hat
    rw [meaning]
    refine simulates_doLoop htestAt.1 htestAt.2.1 rfl (fun d' hd' => ?_) fuel le_rfl d rfl
    rw [← hd']
    exact hbody cx.enterLoop (pos + 1) _ _ e d' hbody' hfin (fun h => by cases h) hbodyAt
  | _ => cases hcond

lemma simulates_increment (hinc : inc.all Expr.isOther = true)
    (hat : At code pos (((inc.map discard).getD [] : List (Op α κ)).map (Instr.plain place)))
    (hd : d.stack = stack)
    (hnext : x.next = pos + ((inc.map discard).getD [] : List (Op α κ)).length) :
    Simulates H code x stack fuel ⟨pos, [], d⟩ (increment H inc d.world) := by
  cases inc with
  | none => exact simulates_done hnext.symm rfl hd
  | some inc =>
    cases inc with
    | other inc =>
      have hcode : (Option.map discard (some (.other inc : Expr κ))).getD [] =
        ([.eval inc, .pop] : List (Op α κ)) := rfl
      rw [hcode] at hat hnext
      simp only [map_cons, map_nil, at_cons] at hat
      rw [increment]
      refine Simulates.mono (Nat.le_add_left fuel 2) ?_
      have hsum : 2 + fuel = 1 + (1 + fuel) := by omega
      rw [hsum]
      refine simulates_evaluate hat.1 fun v w => simulates_goto hat.2.1 rfl rfl ?_
      exact simulates_done (s := ⟨pos + 1 + 1, [], d.withWorld w⟩) hnext.symm rfl hd
    | _ => cases hinc

lemma nodeSim_forS {init : Block α κ} {cond : Option (Expr κ)} (hinit : NodeSim H code fuel init)
    (hbody : NodeSim H code fuel body) : NodeSim H code fuel (.forS init cond inc body) := by
  intro cx pos b c e d hflow hfin _ hat
  obtain ⟨hflow, hbody'⟩ := Bool.and_eq_true_iff.1 hflow
  obtain ⟨hflow, hinc⟩ := Bool.and_eq_true_iff.1 hflow
  obtain ⟨hinit', hcond⟩ := Bool.and_eq_true_iff.1 hflow
  cases cond with
  | none =>
    rw [compile] at hat ⊢
    refine simulates_stmt hat fun hat => ?_
    rw [meaning]
    refine simulates_andThen
      (hinit cx.parts (pos + 1) b c e d hinit' hfin (fun h => by cases h) hat)
      fun d' hd' => ?_
    -- the loop is missing from the code, but its result says that it was entered
    intro hopen
    cases hopen
  | some cond =>
    cases cond with
    | other cond =>
      have hcounted : countedFor (.other cond) inc = none := rfl
      rw [compile, hcounted] at hat ⊢
      refine simulates_stmt hat fun hat => ?_
      simp only [loopCode, condLength_other, condJump_other, resolve_ops, resolve_patchLoop,
        map_cons, map_nil, at_cons, length_ops, at_layout] at hat ⊢
      obtain ⟨hinitAt, ⟨hcondAt, hbodyAt⟩, hincAt, hjumpAt⟩ := hat
      rw [meaning]
      refine simulates_andThen
        (hinit cx.parts (pos + 1) b c e d hinit' hfin (fun h => by cases h) hinitAt)
        fun d' hd' => ?_
      refine simulates_loop hcondAt.1 hcondAt.2.1 hjumpAt.1 (fun d'' hd'' => ?_)
        (fun d'' hd'' => simulates_increment hinc hincAt hd'' rfl) (.inl rfl) fuel le_rfl
        d' hd'
      rw [← hd'']
      exact hbody cx.enterLoop _ _ _ e d'' hbody' hfin (fun h => by cases h) hbodyAt
    | _ => cases hcond

lemma effect_jumpIfTrue {found : Bool} (hd : d.stack = .bool found :: stack) :
    effect H (.jumpIfTrue t) pos d =
      .goto (if found = true then t else pos + 1) { d with stack := stack } := by
  rw [effect, branch, hd]
  rfl

/-- Dispatch may enter the cases anywhere: what is left of them is simulated too. -/
def SuffixSim (H : Host α κ σ) (code : List (Instr α κ)) (fuel : Nat) : {k : Category} →
    Node α κ k → Prop
  | _, .case _ _ _ rest => NodeSim H code fuel rest ∧ SuffixSim H code fuel rest
  | _, _ => True

lemma nodeSim_case {value : Expr κ} {values : List (Expr κ)}
    {rest : Node α κ .cases} (hbody : NodeSim H code fuel body) (hrest : NodeSim H code fuel rest) :
    NodeSim H code fuel (.case value values body rest) := by
  intro cx pos b c e d hflow hfin _ hat
  obtain ⟨hflow, hrest'⟩ := Bool.and_eq_true_iff.1 hflow
  obtain ⟨-, hbody'⟩ := Bool.and_eq_true_iff.1 hflow
  rw [compile] at hat ⊢
  simp only [at_layout] at hat ⊢
  rw [meaning]
  refine simulates_andThen (hbody cx pos b c e d hbody' hfin (fun h => by cases h) hat.1)
    fun d' hd' => ?_
  rw [← hd']
  exact hrest cx (pos + (compile body cx pos).code.length)
    b c e d' hrest' hfin (fun h => by cases h) hat.2

lemma simulates_dispatch : (cases : Node α κ .cases) → NodeSim H code fuel cases →
    SuffixSim H code fuel cases →
    ∀ {cx : Ctx α κ} {bodies pos b c e : Nat} {d : Data σ}, cases.isFlow = true → cx.finallys = [] →
      At code bodies ((compile cases cx bodies).code.map (Slot.resolve b c e)) →
      At code pos ((dispatchOps (.switchV t) cases (compile cases cx bodies).starts).map
        (Instr.plain place)) → d.load (.switchV t) = some v →
      Simulates H code (exitsOf cx b c (bodies + (compile cases cx bodies).code.length)) d.stack
        fuel ⟨pos, [], d⟩ ((meaning H fuel cases).dispatch v d.world)
  | .noDefault, hcases, _, cx, bodies, pos, b, c, e, d, hflow, hfin, hbodies, hat, _
  | .default body, hcases, _, cx, bodies, pos, b, c, e, d, hflow, hfin, hbodies, hat, _ => by
    have h := hcases cx bodies b c e d hflow hfin (fun h => by cases h) hbodies
    rw [compile] at hat
    simp only [dispatchOps, headD_cons, map_cons, at_cons] at hat
    rw [meaning] at h ⊢
    exact (simulates_goto hat.1 rfl rfl h).mono (Nat.le_add_left fuel 1)
  | .case value values body rest, hcases, hsuffix, cx, bodies, pos, b, c, e, d, hflow, hfin,
      hbodies, hat, hv => by
    have hrun (d' : Data σ) := hcases cx bodies b c e d' hflow hfin (fun h => by cases h) hbodies
    obtain ⟨hflow, hrest'⟩ := Bool.and_eq_true_iff.1 hflow
    obtain ⟨hflow, -⟩ := Bool.and_eq_true_iff.1 hflow
    obtain ⟨hvalue, hvalues⟩ := Bool.and_eq_true_iff.1 hflow
    rw [compile] at hbodies hat hrun ⊢
    simp only [at_layout] at hbodies hrun ⊢
    cases value with
    | other value =>
      simp only [dispatchOps, caseTest, compileExpression, headD_cons, tail_cons,
        map_cons, map_nil, at_cons, at_layout] at hat
      obtain ⟨⟨⟨⟨⟨hload, heval, -⟩, hcmp, -⟩, hvaluesAt⟩, hjump, -⟩, hrestAt⟩ := hat
      rw [meaning] at hrun ⊢
      refine simulates_compare hv hload heval hcmp rfl fun u d' hd' hv' => ?_
      refine simulates_matchValues hvalues hv' hd' hvaluesAt rfl fun found d'' hd'' hv'' => ?_
      refine Simulates.mono (Nat.le_add_left fuel 1)
        (simulates_goto hjump rfl (effect_jumpIfTrue hd'') ?_)
      cases found with
      | true => exact hrun { d'' with stack := d.stack }
      | false =>
        exact simulates_dispatch (d := { d'' with stack := d.stack }) rest hsuffix.1 hsuffix.2
          hrest' hfin hbodies.2 hrestAt hv''
    | _ => cases hvalue

lemma nodeSim_switchS {scrutinee : Expr κ} {cases : Node α κ .cases}
    (hcases : NodeSim H code fuel cases)
    (hsuffix : SuffixSim H code fuel cases) : NodeSim H code fuel (.switchS scrutinee cases) := by
  intro cx pos b c e d hflow hfin _ hat
  obtain ⟨hscrutinee, hcases'⟩ := Bool.and_eq_true_iff.1 hflow
  cases scrutinee with
  | other scrutinee =>
    rw [compile] at hat ⊢
    refine simulates_stmt hat fun hat => ?_
    simp only [switchSetup, compileExpression, map_append, at_append, resolve_ops,
      resolve_patchBreaks, map_cons,
      map_nil, at_cons, length_append, length_map, length_ops, length_cons, length_nil,
        Nat.zero_add,
      length_dispatchOps _ cases _ [], ← Nat.add_assoc] at hat ⊢
    obtain ⟨⟨⟨⟨heval, -⟩, hdeclare, hstore, -⟩, hdispatchAt⟩, hbodiesAt⟩ := hat
    rw [meaning]
    refine Simulates.mono (Nat.le_add_left fuel 3) ?_
    have hsum : 3 + fuel = 1 + (1 + (1 + fuel)) := by omega
    rw [hsum]
    refine simulates_evaluate heval fun v w => ?_
    refine simulates_goto hdeclare rfl rfl (simulates_goto hstore rfl rfl (simulates_caught ?_))
    refine simulates_dispatch (d := (d.withWorld w).store (.switchV (pos + 1 + 1)) v) cases hcases
      hsuffix hcases' hfin hbodiesAt hdispatchAt ?_
    simp [Data.load, Data.store]
  | _ => cases hscrutinee

lemma nodeSim_nil (hrun : ∀ w, (meaning H fuel n).run w = .pure (.done w))
    (hcode : ∀ cx pos, (compile n cx pos).code = []) : NodeSim H code fuel n := by
  intro cx pos b c e d _ _ _ _
  rw [hrun, hcode]
  exact simulates_done rfl rfl rfl

lemma nodeSim_body (hrun : (meaning H fuel n).run = (meaning H fuel body).run)
    (hcode : ∀ cx pos, (compile n cx pos).code = (compile body cx pos).code)
    (hflow : n.isFlow = body.isFlow) (hbody : NodeSim H code fuel body) :
    NodeSim H code fuel n := by
  intro cx pos b c e d hn hfin _ hat
  rw [hcode] at hat ⊢
  rw [hrun]
  exact hbody cx pos b c e d (hflow ▸ hn) hfin (fun h => by cases h) hat

lemma compile_nodeSim (n : Node α κ k) : NodeSim H code fuel n ∧ SuffixSim H code fuel n := by
  induction n with
  | nil | noElse =>
    exact ⟨nodeSim_nil (fun _ => by rw [meaning]; rfl) fun _ _ => by rw [compile], trivial⟩
  | noDefault =>
    exact ⟨nodeSim_nil (fun _ => by rw [meaning]; rfl) fun _ _ => by rw [compile], trivial⟩
  | cons s rest ihs ihrest => exact ⟨nodeSim_cons ihs.1 ihrest.1, trivial⟩
  | atom a => exact ⟨nodeSim_atom a, trivial⟩
  | breakS => exact ⟨nodeSim_breakS, trivial⟩
  | continueS => exact ⟨nodeSim_continueS, trivial⟩
  | ifS cond thenB rest ihthen ihrest => exact ⟨nodeSim_ifS ihthen.1 ihrest.1, trivial⟩
  | elseIf cond body rest ihbody ihrest => exact ⟨nodeSim_elseIf ihbody.1 ihrest.1, trivial⟩
  | elseB body ih | default body ih =>
    exact ⟨nodeSim_body (by rw [meaning]; rfl) (fun _ _ => by rw [compile]) rfl ih.1, trivial⟩
  | forS init cond inc body ihinit ihbody => exact ⟨nodeSim_forS ihinit.1 ihbody.1, trivial⟩
  | whileS cond body ih => exact ⟨nodeSim_whileS ih.1, trivial⟩
  | doS body cond ih => exact ⟨nodeSim_doS ih.1, trivial⟩
  | switchS scrutinee cases ih => exact ⟨nodeSim_switchS ih.1 ih.2, trivial⟩
  | case value values body rest ihbody ihrest =>
    exact ⟨nodeSim_case ihbody.1 ihrest.1, ihrest⟩
  | _ => exact ⟨fun _ _ _ _ _ _ hflow => (by cases hflow), trivial⟩

/-! ## Whole functions -/

/-- The function does what the result says: it returns or fails with the same events and the same
world, and runs on, with the events so far, where the result ran out of fuel. -/
def Agrees (H : Host α κ σ) (code : List (Instr α κ)) (d : Data σ) (fuel : Nat) (r : Result α κ σ) :
    Prop :=
  match r.outcome with
  | .done w | .breaks w | .continues w =>
    ∃ n d', Reaches H code n (start d) r.trace (.returned .null d') ∧ d'.world = w
  | .fails e w => ∃ n d', Reaches H code n (start d) r.trace (.failed e d') ∧ d'.world = w
  | .outOfFuel => ∃ n s, fuel ≤ n ∧ Reaches H code n (start d) r.trace (.running s)

lemma agrees_of_simulates (hflow : body.isFlow = true)
    (hopen : ((meaning H fuel body).run d.world).openFor = false) :
    Agrees H (compileFunction body) d fuel ((meaning H fuel body).run d.world) := by
  have hat : At (compileFunction body) 0 _ := at_self
  conv at hat => arg 3; rw [compileFunction]
  rw [map_append, at_append, length_map, resolve_ops, map_cons, map_cons, at_cons, at_cons,
    Nat.zero_add] at hat
  obtain ⟨hbody, hnull, hret, -⟩ := hat
  have h :=
    (compile_nodeSim body).1 Ctx.function 0 0 0 0 d hflow rfl (fun h => by cases h) hbody hopen
  rw [Nat.zero_add] at h
  generalize (meaning H fuel body).run d.world = r at h ⊢
  obtain ⟨trace, outcome, opened⟩ := r
  cases outcome with
  | done w =>
    obtain ⟨n, d', hreach, hw, -⟩ := h
    obtain ⟨m, d'', hreturn, hw'⟩ := arrives_return (H := H) (d := d') hnull hret
    have hboth := hreach.trans hreturn
    rw [append_nil] at hboth
    exact ⟨n + m, d'', hboth, hw'.trans hw⟩
  | breaks w | continues w | fails e w | outOfFuel => exact h

/-- **The control-flow compiler is correct** on runs that enter no `for` without a condition: the
function executes the same atomic statements and evaluates the same expressions as the source, in
the same order, and it ends exactly when the source does. -/
theorem compile_flow_correct (H : Host α κ σ) (body : Block α κ) (d : Data σ)
    (hflow : body.isFlow = true)
    (hopen : ∀ fuel, ((meaning H fuel body).run d.world).openFor = false) :
    (∀ fuel, Agrees H (compileFunction body) d fuel ((meaning H fuel body).run d.world)) ∧
      ((∃ fuel, ((meaning H fuel body).run d.world).outcome ≠ .outOfFuel) ↔
        ∃ n, ∀ s, after H (compileFunction body) n (start d) ≠ .running s) := by
  have hagrees (fuel : Nat) := agrees_of_simulates (H := H) hflow (hopen fuel)
  refine ⟨hagrees, ?_, ?_⟩
  · rintro ⟨fuel, hends⟩
    have h := hagrees fuel
    unfold Agrees at h
    split at h
    case h_5 hout => exact absurd hout hends
    all_goals
      obtain ⟨n, d', hreach, -⟩ := h
      exact ⟨n, fun s hs => nomatch hreach.1.symm.trans hs⟩
  · rintro ⟨n, hended⟩
    refine ⟨n, fun hout => ?_⟩
    -- a run still going after `m` turns was going after `n` of them
    have h := hagrees n
    unfold Agrees at h
    rw [hout] at h
    obtain ⟨m, s, hm, hrunning, -⟩ := h
    rw [← Nat.add_sub_cancel' hm, after_add] at hrunning
    cases hn : after H (compileFunction body) n (start d) with
    | running s' => exact hended s' hn
    | returned v d' | failed e d' => rw [hn] at hrunning; cases hrunning

/-- `while (…) { atom; break; }` -/
def onceAround : Block Unit Unit :=
  .cons (.whileS (.other ()) (.cons (.atom ()) (.cons .breakS .nil))) .nil

theorem compile_flow_correct_onceAround :
    Agrees yes (compileFunction onceAround) fresh 1 ((meaning yes 1 onceAround).run fresh.world) ∧
      ∃ n, ∀ s, after yes (compileFunction onceAround) n (start fresh) ≠ .running s := by
  have h := compile_flow_correct yes onceAround fresh rfl fun fuel => by cases fuel <;> rfl
  exact ⟨h.1 1, h.2.1 ⟨1, fun hout => nomatch hout⟩⟩

lemma events_eq_nil (h : ∀ ins ∈ code, opEvents ins.op = []) (trace : List (State σ)) :
    events code trace = [] := by
  refine flatMap_eq_nil_iff.2 fun s _ => ?_
  cases hins : code[s.ip]? with
  | none => rfl
  | some ins => exact h ins (mem_of_getElem? hins)

/-- `for (;;) { atom; break; }` -/
def forEver : Block Unit Unit :=
  .cons (.forS .nil none none (.cons (.atom ()) (.cons .breakS .nil))) .nil

/-- **What goes wrong without a condition**: the source executes the atomic statement once, the
function returns at once without executing anything. -/
theorem for_without_condition_skipped : ((meaning yes 1 forEver).run fresh.world).trace =
    [.exec ()] ∧
      (∃ d, Reaches yes (compileFunction forEver) 3 (start fresh) [] (.returned .null d)) ∧
      ¬ Agrees yes (compileFunction forEver) fresh 1 ((meaning yes 1 forEver).run fresh.world) := by
  refine ⟨rfl, ⟨_, rfl, rfl⟩, ?_⟩
  rintro ⟨n, d', hreach, -⟩
  have hnone : ∀ ins ∈ compileFunction forEver, opEvents ins.op = [] := by
    intro ins hins
    have hcode : compileFunction forEver = [⟨.lineInfo, ⟨[], [], []⟩, false, none, false⟩,
      .plain ⟨[], [], []⟩ .null, .plain ⟨[], [], []⟩ .ret] := rfl
    rw [hcode] at hins
    simp at hins
    rcases hins with rfl | rfl | rfl <;> rfl
  exact nomatch (events_eq_nil hnone _).symm.trans hreach.2

end

end RustCfml.Vm
