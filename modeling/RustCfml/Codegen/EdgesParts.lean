import RustCfml.Codegen.Edges

/-!
# Edges of the code of each statement, from those of its parts
-/

namespace RustCfml.Codegen

open CodeAt List

attribute [local simp] Op.isStraight

attribute [local simp] Op.branches

section

variable {α κ : Type} (full : List (Instr α κ))

/-- A piece of code at `pos`, with `before` pending in front of it and `place` behind it: if it can
go on behind it, its edges are in order and it can be entered. -/
def Piece (pos : Nat) (before : List Nat) (place : Place) (b c e : Nat) (code : List (Slot α κ)) :
    Prop :=
  At full pos (code.map (Slot.resolve b c e)) →
    Enters full (pos + code.length) place.pending place.opens →
      EdgesIn full pos (pos + code.length) ∧ Enters full pos before place.opens

abbrev Part (pos : Nat) (place : Place) (b c e : Nat) (code : List (Slot α κ)) : Prop :=
  Piece full pos place.pending place b c e code

variable {full} {pos b c e : Nat} {place : Place}

lemma length_ops (code : List (Op α κ)) : (ops place code).length = code.length := length_map ..

lemma part_nil : Part full pos place b c e [] := fun _ hend => ⟨.nil, hend⟩

lemma part_append {before : List Nat} {x y : List (Slot α κ)}
    (hx : Piece full pos before place b c e x)
    (hy : Part full (pos + x.length) place b c e y) :
    Piece full pos before place b c e (x ++ y) := by
  intro hat hend
  rw [map_append, at_append, length_map] at hat
  rw [length_append, ← Nat.add_assoc] at hend ⊢
  obtain ⟨hedges, henters⟩ := hy hat.2 hend
  obtain ⟨hedges', henters'⟩ := hx hat.1 henters
  exact ⟨hedges'.trans hedges, henters'⟩

/-! ## Plain operations -/

variable {body : List (Slot α κ)} {t : Nat} {cond : Expr κ} {name : String} {owes : Bool}
  {code : List (Op α κ)} {op : CmpOp}

lemma enters_ops (hne : code ≠ []) (hat : At full pos ((ops place code).map (Slot.resolve b c e))) :
    Enters full pos place.pending place.opens := by
  rw [resolve_ops] at hat
  cases code with
  | nil => exact absurd rfl hne
  | cons op code => exact enters_plain hat

lemma enters_at {op : Op α κ} (h : full[pos]? = some (Instr.plain place op)) :
    Enters full pos place.pending place.opens := ⟨_, h, rfl, rfl⟩

lemma edges_raise (code : List (Op α κ)) (op : Op α κ) (hchained : Chained full place.opens)
    (hops : ∀ op ∈ code, op.isStraight) (hop : op.isStraight) (hfalls : op.falls = false)
    (hat : At full pos ((ops place (code ++ [op])).map (Slot.resolve b c e))) :
    EdgesIn full pos (pos + (code.length + 1)) ∧ Enters full pos place.pending place.opens := by
  refine ⟨?_, enters_ops (by simp) hat⟩
  rw [resolve_ops, map_append, at_append, length_map] at hat
  have hlast := (at_cons.1 hat.2).1
  refine (edgesIn_plains hchained (fun o ho => ⟨(hops o ho).1, ?_⟩) hat.1 (enters_at hlast)).trans
    (EdgesIn.one hlast (edges_plain hop.1 (fun h => ?_) ?_ hchained rfl))
  · rw [(hops o ho).2]
    exact fun _ h => nomatch h
  · cases hfalls.symm.trans h
  · show ∀ t ∈ op.branches, _
    rw [hop.2]
    exact fun _ h => nomatch h

lemma edges_jump (place : Place) (hchained : Chained full place.opens)
    (ht : Lands full t place.pending)
    (hat : At full pos [(Instr.plain place (.jump t) : Instr α κ)]) :
    EdgesIn full pos (pos + 1) ∧ Enters full pos place.pending place.opens :=
  ⟨edgesIn_jump (at_cons.1 hat).1 hchained fun _ => ht, enters_at (at_cons.1 hat).1⟩

lemma forInSetup_straight (name : String) (declared capped : Bool) (iterable : Expr κ) (n : Nat) :
    ∀ op ∈ (forInSetup name declared capped iterable n : List (Op α κ)), op.isStraight := by
  intro op hop
  simp only [forInSetup, append_assoc, mem_append] at hop
  rcases hop with hop | hop
  · exact compileExpression_straight iterable op hop
  · cases declared <;> cases capped <;>
      simp only [if_true, if_false, Bool.false_eq_true, mem_cons, not_mem_nil, or_false, false_or,
        or_assoc] at hop <;>
      (rcases hop with rfl | rfl | rfl | rfl | rfl | rfl | rfl | rfl | rfl | rfl | rfl <;>
        exact ⟨rfl, rfl⟩)

lemma length_forInHead (name : String) (capped : Bool) (n loopEnd : Nat) :
    (forInHead name capped n loopEnd : List (Op α κ)).length =
    (forInHead name capped n 0 : List (Op α κ)).length := by
  cases capped <;> rfl

lemma forInHead_plain (name : String) (capped : Bool) (n loopEnd : Nat) :
    ∀ op ∈ (forInHead name capped n loopEnd : List (Op α κ)), op.isPlain = true ∧ ∀ t ∈ op.branches,
    t = loopEnd := by
  intro op hop
  cases capped <;>
    simp only [forInHead, if_true, if_false, Bool.false_eq_true, cons_append, nil_append,
      mem_cons, not_mem_nil, or_false] at hop <;>
    (rcases hop with rfl | rfl | rfl | rfl | rfl | rfl | rfl | rfl <;>
      exact ⟨rfl, by simp⟩)

lemma caseTest_straight (x : Var) (value : Expr κ) (values : List (Expr κ)) :
    ∀ op ∈ (caseTest x value values : List (Op α κ)), op.isStraight := by
  intro op hop
  simp [caseTest, mem_flatMap] at hop
  rcases hop with rfl | hop | rfl | ⟨v, -, rfl | hop | rfl | rfl⟩
  all_goals first | exact ⟨rfl, rfl⟩ | exact compileExpression_straight _ op hop

lemma edges_dispatchOps (x : Var) (hchained : Chained full place.opens) :
    (cases : Node α κ .cases) → (cx : Ctx α κ) → (bodies pos : Nat) →
    (∀ s ∈ (compile cases cx bodies).starts, Enters full s place.pending place.opens) →
    At full pos ((dispatchOps x cases (compile cases cx bodies).starts).map (Instr.plain place)) →
    EdgesIn full pos (pos + (dispatchOps x cases (compile cases cx bodies).starts).length) ∧
      Enters full pos place.pending place.opens
  | .noDefault, cx, bodies, pos, hstarts, hat
  | .default _, cx, bodies, pos, hstarts, hat => by
    simp only [compile, dispatchOps, forall_mem_cons] at hstarts hat ⊢
    exact edges_jump place hchained hstarts.1.lands hat
  | .case value values body rest, cx, bodies, pos, hstarts, hat => by
    simp [compile] at hstarts
    simp only [compile, dispatchOps, headD_cons, tail_cons, at_layout] at hat ⊢
    obtain ⟨⟨htest, hbranch⟩, hrest⟩ := hat
    obtain ⟨hrestE, hrestS⟩ := edges_dispatchOps x hchained rest cx _ _ hstarts.2 hrest
    have hbranch' := (at_cons.1 hbranch).1
    have htestE := edgesIn_plains hchained (fun op hop =>
      ⟨(caseTest_straight x value values op hop).1, fun t ht => by
        rw [(caseTest_straight x value values op hop).2] at ht; cases ht⟩)
          htest (enters_at hbranch')
    have hbranchE := EdgesIn.one hbranch' (edges_plain rfl (fun _ => hrestS)
      (fun t ht => by cases mem_singleton.1 ht; exact hstarts.1) hchained rfl)
    exact ⟨htestE.trans (hbranchE.trans hrestE), enters_plains htest (enters_at hbranch')⟩

lemma length_dispatchOps (x : Var) : (cases : Node α κ .cases) → (starts starts' : List Nat) →
    (dispatchOps x cases starts).length = (dispatchOps x cases starts').length
  | .noDefault, _, _ | .default _, _, _ => by simp only [dispatchOps, length_cons]
  | .case value values _ rest, starts, starts' => by
    simp only [dispatchOps, length_append, length_cons, length_nil]
    rw [length_dispatchOps x rest starts.tail starts'.tail]

variable {catchIp : Nat} {rest catches : List (Slot α κ)} {limit step : Int64}

lemma enters_tryStart
    (h : full[t]? = some ⟨.tryStart catchIp, place.owing t owes, owes, none, false⟩) :
    Enters full t place.pending place.opens := by
  refine ⟨_, h, ?_, rfl⟩
  cases owes <;> rfl

abbrev LoopBody (full : List (Instr α κ)) (pos : Nat) (place : Place) (e : Nat)
    (body : List (Slot α κ)) :
    Prop :=
  ∀ b' c', Lands full b' place.pending → Lands full c' place.pending →
    Part full pos place b' c' e body

abbrev TryBody (full : List (Instr α κ)) (t : Nat) (place : Place) (owes : Bool) (b c e : Nat)
    (body : List (Slot α κ)) : Prop :=
  Chained full (t :: place.opens) → Part full (t + 1) (place.enter t owes) b c e body

variable (hchained : Chained full place.opens)

include hchained

lemma part_ops (hops : ∀ op ∈ code, op.isPlain = true ∧ ∀ t ∈ op.branches,
      Enters full t place.pending place.opens) :
    Part full pos place b c e (ops place code) := by
  intro hat hend
  rw [resolve_ops] at hat
  rw [length_ops] at hend ⊢
  exact ⟨edgesIn_plains hchained hops hat hend, enters_plains hat hend⟩

lemma part_straight (hops : ∀ op ∈ code, op.isStraight) :
    Part full pos place b c e (ops place code) := by
  refine part_ops hchained fun op hop => ⟨(hops op hop).1, ?_⟩
  rw [(hops op hop).2]
  exact fun _ h => nomatch h

lemma part_condJumpFalse {target : Nat} (htarget : Enters full target place.pending place.opens) :
    Part full pos place b c e (ops place (condJumpFalse cond target)) := by
  refine part_ops hchained fun op hop => ⟨(condJumpFalse_plain cond target op hop).1, ?_⟩
  intro t ht
  rw [(condJumpFalse_plain cond target op hop).2 t ht]
  exact htarget

lemma part_ifCode {hasElse : Bool} {thenCode elseCode : List (Slot α κ)}
    (hthen : Part full (pos + condLength α cond) place b c e thenCode)
    (helse : ∀ e', Lands full e' place.pending →
      Part full (pos + condLength α cond + thenCode.length + 1) place b c e' elseCode) :
    Part full pos place b c e
    (ifCode place cond hasElse (pos + condLength α cond) thenCode elseCode) := by
  intro hat hend
  rw [ifCode] at hat hend ⊢
  cases hasElse with
  | false =>
    simp [length_ops, length_condJumpFalse, at_layout] at hat hend ⊢
    obtain ⟨hthenE, hthenS⟩ := hthen hat.2 hend
    have hcond := part_condJumpFalse hchained hend hat.1
    rw [length_ops, length_condJumpFalse] at hcond
    exact ⟨(hcond hthenS).1.trans hthenE, (hcond hthenS).2⟩
  | true =>
    simp only [if_true, resolve_patchEnd, length_ops, length_condJumpFalse, at_layout] at hat hend ⊢
    obtain ⟨⟨⟨hcondAt, hthenAt⟩, hjumpAt⟩, helseAt⟩ := hat
    obtain ⟨helseE, helseS⟩ := helse _ hend.lands helseAt hend
    obtain ⟨hjumpE, hjumpS⟩ := edges_jump place hchained hend.lands hjumpAt
    obtain ⟨hthenE, hthenS⟩ := hthen hthenAt hjumpS
    have hcond := part_condJumpFalse hchained helseS hcondAt
    rw [length_ops, length_condJumpFalse] at hcond
    exact ⟨(hcond hthenS).1.trans (hthenE.trans (hjumpE.trans helseE)), (hcond hthenS).2⟩

lemma part_elseIfCode (he : Lands full e place.pending)
    (hbody : Part full (pos + condLength α cond) place b c e body)
    (hrest : Part full (pos + condLength α cond + body.length + 1) place b c e rest) :
    Part full pos place b c e (elseIfCode place cond (pos + condLength α cond) body rest) := by
  intro hat hend
  simp only [elseIfCode, length_ops, length_condJumpFalse, at_layout] at hat hend ⊢
  obtain ⟨⟨⟨hcondAt, hbodyAt⟩, hjumpAt⟩, hrestAt⟩ := hat
  obtain ⟨hrestE, hrestS⟩ := hrest hrestAt hend
  obtain ⟨hjumpE, hjumpS⟩ := edges_jump place hchained he hjumpAt
  obtain ⟨hbodyE, hbodyS⟩ := hbody hbodyAt hjumpS
  have hcond := part_condJumpFalse hchained hrestS hcondAt
  rw [length_ops, length_condJumpFalse] at hcond
  exact ⟨(hcond hbodyS).1.trans (hbodyE.trans (hjumpE.trans hrestE)), (hcond hbodyS).2⟩

lemma part_loopCode {continueTo : Nat} {after : List (Op α κ)}
    (hafter : ∀ op ∈ after, op.isStraight)
    (hcontinue : continueTo = pos ∨ continueTo = pos + condLength α cond + body.length)
    (hbody : LoopBody full (pos + condLength α cond) place e body) : Part full pos place b c e
      (loopCode place cond pos (pos + condLength α cond) continueTo body after) := by
  intro hat hend
  simp only [loopCode, resolve_patchLoop, length_ops, length_condJumpFalse, at_layout] at hat hend ⊢
  obtain ⟨⟨hcondAt, hbodyAt⟩, hafterAt⟩ := hat
  have hstart := enters_ops (condJumpFalse_ne_nil cond _) hcondAt
  -- behind the body: `after`, and the jump back to the condition
  rw [ops, map_append] at hafterAt
  rw [map_append, at_append, length_map, length_map] at hafterAt
  obtain ⟨hjumpE, hjumpS⟩ := edges_jump place hchained hstart.lands hafterAt.2
  have hafterP := part_straight hchained hafter hafterAt.1
  rw [length_ops] at hafterP
  obtain ⟨hafterE, hafterS⟩ := hafterP hjumpS
  have hcontinue' : Lands full continueTo place.pending := by
    rcases hcontinue with h | h
    · rw [h]; exact hstart.lands
    · rw [h]; exact hafterS.lands
  obtain ⟨hbodyE, hbodyS⟩ := hbody _ _ hend.lands hcontinue' hbodyAt hafterS
  have hcond := part_condJumpFalse hchained hend hcondAt
  rw [length_ops, length_condJumpFalse] at hcond
  exact ⟨(hcond hbodyS).1.trans (hbodyE.trans (hafterE.trans hjumpE)), hstart⟩

lemma edges_counted {limit : Int32} {step : Int32} (hbody : LoopBody full pos place e body)
    (hbodyAt : At full pos
      (body.map (Slot.resolve (pos + body.length + 1) (pos + body.length) e)))
    (hstepAt : At full (pos + body.length)
      ((ops place [.forLoopStep name limit op step pos]).map (Slot.resolve b c e)))
    (hend : Enters full (pos + body.length + 1) place.pending place.opens) :
    EdgesIn full pos (pos + body.length + 1) ∧ Enters full pos place.pending place.opens := by
  have hstepS := enters_ops (cons_ne_nil _ _) hstepAt
  obtain ⟨hbodyE, hbodyS⟩ := hbody _ _ hend.lands hstepS.lands hbodyAt hstepS
  have hstepP : Part full (pos + body.length) place b c e
      (ops place [.forLoopStep name limit op step pos]) := by
    refine part_ops hchained fun o ho => ?_
    cases mem_singleton.1 ho
    refine ⟨rfl, fun t ht => ?_⟩
    cases mem_singleton.1 ht
    exact hbodyS
  exact ⟨hbodyE.trans (hstepP hstepAt hend).1, hbodyS⟩

lemma part_countedCode (hbody : LoopBody full (pos + 1) place e body) :
    Part full pos place b c e (countedCode place name limit op step pos body) := by
  intro hat hend
  simp only [countedCode, resolve_patchLoop, length_ops, at_layout] at hat hend ⊢
  obtain ⟨⟨hcheckAt, hbodyAt⟩, hstepAt⟩ := hat
  obtain ⟨hbodyE, hbodyS⟩ := edges_counted hchained hbody hbodyAt hstepAt hend
  have hcheckP : Part full pos place b c e (ops place
      [.jumpIfLocalCmpConstFalse name limit.toInt32 op (pos + 1 + body.length + 1)]) := by
    refine part_ops hchained fun o ho => ?_
    cases mem_singleton.1 ho
    refine ⟨rfl, fun t ht => ?_⟩
    cases mem_singleton.1 ht
    exact hend
  obtain ⟨hcheckE, hcheckS⟩ := hcheckP hcheckAt hbodyS
  exact ⟨hcheckE.trans hbodyE, hcheckS⟩

lemma part_countedDoCode (hbody : LoopBody full pos place e body) :
    Part full pos place b c e (countedDoCode place name limit op step pos body) := by
  intro hat hend
  simp only [countedDoCode, resolve_patchLoop, length_ops, at_layout] at hat hend ⊢
  exact edges_counted hchained hbody hat.1 hat.2 hend

lemma part_doCode (hbody : LoopBody full pos place e body) :
    Part full pos place b c e (doCode place cond pos body) := by
  intro hat hend
  simp only [doCode, resolve_patchLoop, length_ops, at_layout] at hat hend ⊢
  obtain ⟨hbodyAt, htestAt⟩ := hat
  have htestS := enters_ops (by simp) htestAt
  obtain ⟨hbodyE, hbodyS⟩ := hbody _ _ hend.lands htestS.lands hbodyAt htestS
  have htestP : Part full (pos + body.length) place b c e
      (ops place (compileExpression cond ++ [.jumpIfTrue pos])) := by
    refine part_ops hchained fun o ho => ?_
    rcases mem_append.1 ho with ho | ho
    · have h := compileExpression_straight cond o ho
      exact ⟨h.1, by rw [h.2]; exact fun _ h => nomatch h⟩
    · cases mem_singleton.1 ho
      refine ⟨rfl, fun t ht => ?_⟩
      cases mem_singleton.1 ht
      exact hbodyS
  have htest := htestP htestAt
  simp [length_ops, ← Nat.add_assoc] at htest
  exact ⟨hbodyE.trans (htest hend).1, hbodyS⟩

lemma part_forInCode {capped : Bool} {n : Nat}
    {bodyPos : Nat} (hpos : bodyPos = pos + (forInHead name capped n 0 : List (Op α κ)).length)
    (hbody : LoopBody full bodyPos place e body) :
    Part full pos place b c e (forInCode place name capped n pos bodyPos body) := by
  intro hat hend
  simp only [forInCode, resolve_patchLoop, length_ops, length_forInHead _ _ _ (_ + 2), ← hpos,
    at_layout] at hat hend ⊢
  obtain ⟨⟨hheadAt, hbodyAt⟩, hbackAt⟩ := hat
  rw [resolve_ops] at hbackAt
  simp [at_cons] at hbackAt
  obtain ⟨hincr, hjump, hload, hexit, -⟩ := hbackAt
  have hstart : Enters full pos place.pending place.opens :=
    enters_ops (by cases capped <;> simp [forInHead]) hheadAt
  obtain ⟨hbodyE, hbodyS⟩ :=
    hbody _ _ (enters_at hload).lands (enters_at hincr).lands hbodyAt (enters_at hincr)
  have hheadP : Part full pos place b c e
      (ops place (forInHead name capped n (bodyPos + body.length + 2))) := by
    refine part_ops hchained fun o ho => ⟨(forInHead_plain _ _ _ _ o ho).1, fun t ht => ?_⟩
    rw [(forInHead_plain _ _ _ _ o ho).2 t ht]
    exact enters_at hload
  have hhead := hheadP hheadAt
  rw [length_ops, length_forInHead, ← hpos] at hhead
  have hincrE := EdgesIn.one hincr
    (edges_plain rfl (fun _ => enters_at hjump) (fun _ h => nomatch h) hchained rfl)
  have hloadE := EdgesIn.one hload
    (edges_plain rfl (fun _ => enters_at hexit) (fun _ h => nomatch h) hchained rfl)
  have hexitE := EdgesIn.one hexit
    (edges_plain rfl (fun _ => hend) (fun _ h => nomatch h) hchained rfl)
  exact ⟨(hhead hbodyS).1.trans (hbodyE.trans (hincrE.trans ((edgesIn_jump hjump hchained
    fun _ => hstart.lands).trans (hloadE.trans hexitE)))), hstart⟩

lemma edges_tryHead {pending : List Nat} (hbody : TryBody full t place owes b c e body)
    (hstartAt : full[t]? = some ⟨.tryStart catchIp, place.owing t owes, owes, none, false⟩)
    (hbodyAt : At full (t + 1) (body.map (Slot.resolve b c e)))
    (hendAt : full[t + 1 + body.length]? = some (.plain (place.enter t owes) .tryEnd))
    (hcatch : Enters full catchIp pending place.opens)
    (hnext : Enters full (t + 1 + body.length + 1) (place.owing t owes).pending place.opens) :
    EdgesIn full t (t + 1 + body.length + 1) ∧ Enters full t place.pending place.opens := by
  have hopen : Chained full (t :: place.opens) :=
    ⟨⟨_, catchIp, pending, hstartAt, rfl, hcatch⟩, hchained⟩
  have hendE : Edges full (t + 1 + body.length) (.plain (place.enter t owes) .tryEnd) :=
    { falls := fun _ => hnext
      branches := fun _ h => nomatch h
      jumps := fun _ h => nomatch h
      returns := fun h => nomatch h
      chained := hopen
      entry := fun h => nomatch h }
  obtain ⟨hbodyE, hbodyS⟩ := hbody hopen hbodyAt (enters_at hendAt)
  have hstartE : Edges full t ⟨.tryStart catchIp, place.owing t owes, owes, none, false⟩ :=
    { falls := fun _ => hbodyS
      branches := fun _ h => nomatch h
      jumps := fun _ h => nomatch h
      returns := fun h => nomatch h
      chained := hchained
      entry := by
        rintro rfl
        exact ⟨rfl, place.pending, rfl⟩ }
  exact ⟨(EdgesIn.one hstartAt hstartE).trans (hbodyE.trans (EdgesIn.one hendAt hendE)),
    enters_tryStart hstartAt⟩

lemma edges_restoreRethrow
    (hat : At full pos ((ops place [.restoreException, .rethrow] : List (Slot α κ)).map
      (Slot.resolve b c e))) :
    EdgesIn full pos (pos + 1 + 1) ∧ Enters full pos place.pending place.opens :=
  edges_raise [.restoreException] .rethrow hchained
    (by simp [Op.isPlain]) ⟨rfl, rfl⟩ rfl hat

lemma part_tryCode (hbody : TryBody full t place false b c e body)
    (hcatches : ∀ e', Lands full e' place.pending →
      Part full (t + 1 + body.length + 2) place b c e' catches) :
    Part full t place b c e (tryCode place t false false body catches [] []) := by
  intro hat hend
  simp only [tryCode, tryStartSlot, Bool.false_eq_true, if_false, append_nil,
    resolve_patchEnd, length_ops, at_layout] at hat hend ⊢
  obtain ⟨⟨⟨⟨⟨hstartAt, hbodyAt⟩, hendAt⟩, hjumpAt⟩, hcatchAt⟩, htailAt⟩ := hat
  obtain ⟨htailE, htailS⟩ := edges_raise [.pop] .rethrow hchained
    (by simp [Op.isPlain]) ⟨rfl, rfl⟩ rfl htailAt
  obtain ⟨hcatchE, hcatchS⟩ := hcatches _ hend.lands hcatchAt htailS
  obtain ⟨hjumpE, hjumpS⟩ := edges_jump (place.owing t false) hchained hend.lands hjumpAt
  obtain ⟨hheadE, hheadS⟩ := edges_tryHead hchained hbody (at_cons.1 hstartAt).1 hbodyAt
    (at_cons.1 hendAt).1 hcatchS hjumpS
  exact ⟨hheadE.trans (hjumpE.trans (hcatchE.trans htailE)), hheadS⟩

lemma part_tryCode_finally {unmatched after : List (Slot α κ)}
    (hbody : TryBody full t place owes b c e body)
    (hcatches : ∀ e', Lands full e' (place.owing t owes).pending →
      Part full (t + 1 + body.length + 2) (place.owing t owes) b c e' catches)
    (hunmatched : Piece full (t + 1 + body.length + 2 + catches.length + 2)
      (place.owing t owes).pending place b c e unmatched)
    (hafter : Piece full (t + 1 + body.length + 2 + catches.length + 2 + unmatched.length + 2)
      (place.owing t owes).pending place b c e after) :
    Part full t place b c e (tryCode place t owes true body catches unmatched after) := by
  intro hat hend
  simp only [tryCode, tryStartSlot, if_true, resolve_patchEnd, length_ops, at_layout] at hat hend ⊢
  obtain ⟨⟨⟨⟨⟨⟨hstartAt, hbodyAt⟩, hendAt⟩, hjumpAt⟩, hcatchAt⟩, ⟨hpopAt, hunmatchedAt⟩, hraiseAt⟩,
    hafterAt⟩ := hat
  obtain ⟨hafterE, hafterS⟩ := hafter hafterAt hend
  obtain ⟨hraiseE, hraiseS⟩ := edges_restoreRethrow hchained hraiseAt
  obtain ⟨hunmatchedE, hunmatchedS⟩ := hunmatched hunmatchedAt hraiseS
  have hpopP (p : Nat) : Part full p (place.owing t owes) b c e (ops _ [.pop, .saveException]) :=
    part_straight hchained (by simp [Op.isPlain])
  obtain ⟨hpopE, hpopS⟩ := hpopP _ hpopAt hunmatchedS
  obtain ⟨hcatchE, hcatchS⟩ := hcatches _ hafterS.lands hcatchAt hpopS
  obtain ⟨hjumpE, hjumpS⟩ := edges_jump (place.owing t owes) hchained hafterS.lands hjumpAt
  obtain ⟨hheadE, hheadS⟩ := edges_tryHead hchained hbody (at_cons.1 hstartAt).1 hbodyAt
    (at_cons.1 hendAt).1 hcatchS hjumpS
  exact ⟨hheadE.trans (hjumpE.trans
    (hcatchE.trans (hpopE.trans (hunmatchedE.trans (hraiseE.trans hafterE))))), hheadS⟩

lemma part_tryOnlyFinallyCode {normal handler : List (Slot α κ)}
    (hbody : TryBody full t place owes b c e body) (hnormal : Piece full (t + 1 + body.length + 1)
      (place.owing t owes).pending place b c e normal)
    (hhandler : Piece full (t + 1 + body.length + 1 + normal.length + 2)
      (place.owing t owes).pending place b c e handler) :
    Part full t place b c e (tryOnlyFinallyCode place t owes body normal handler) := by
  intro hat hend
  simp only [tryOnlyFinallyCode, tryStartSlot, length_ops, at_layout] at hat hend ⊢
  obtain ⟨⟨⟨⟨⟨⟨⟨hstartAt, hbodyAt⟩, hendAt⟩, hnormalAt⟩, hjumpAt⟩, hsaveAt⟩, hhandlerAt⟩,
    hraiseAt⟩ := hat
  obtain ⟨hraiseE, hraiseS⟩ := edges_restoreRethrow hchained hraiseAt
  obtain ⟨hhandlerE, hhandlerS⟩ := hhandler hhandlerAt hraiseS
  have hsaveP (p : Nat) : Part full p (place.owing t owes) b c e (ops _ [.saveException]) :=
    part_straight hchained (by simp [Op.isPlain])
  obtain ⟨hsaveE, hsaveS⟩ := hsaveP _ hsaveAt hhandlerS
  obtain ⟨hjumpE, hjumpS⟩ := edges_jump place hchained hend.lands hjumpAt
  obtain ⟨hnormalE, hnormalS⟩ := hnormal hnormalAt hjumpS
  obtain ⟨hheadE, hheadS⟩ := edges_tryHead hchained hbody (at_cons.1 hstartAt).1 hbodyAt
    (at_cons.1 hendAt).1 hsaveS hnormalS
  exact ⟨hheadE.trans (hnormalE.trans (hjumpE.trans (hsaveE.trans (hhandlerE.trans hraiseE)))),
    hheadS⟩

lemma part_catchCode {type : Option String} {var : String} (he : Lands full e place.pending)
    (hbody : Part full (pos + 4) place b c e body)
    (hrest : Part full (pos + 4 + body.length + 1) place b c e rest) :
    Part full pos place b c e (catchCode place type var pos body rest) := by
  intro hat hend
  simp only [catchCode, length_ops, at_layout] at hat hend ⊢
  obtain ⟨⟨⟨htestAt, hbodyAt⟩, hjumpAt⟩, hrestAt⟩ := hat
  obtain ⟨hrestE, hrestS⟩ := hrest hrestAt hend
  obtain ⟨hjumpE, hjumpS⟩ := edges_jump place hchained he hjumpAt
  obtain ⟨hbodyE, hbodyS⟩ := hbody hbodyAt hjumpS
  have htestP : Part full pos place b c e (ops place [.catchMatch (type.getD "any"),
      .jumpIfFalse (pos + 4 + body.length + 1), .declareLocal (.named var),
          .storeLocal (.named var)]) := by
    refine part_ops hchained fun o ho => ?_
    simp at ho
    rcases ho with rfl | rfl | rfl | rfl
    · exact ⟨rfl, fun _ h => nomatch h⟩
    · refine ⟨rfl, fun t ht => ?_⟩
      cases mem_singleton.1 ht
      exact hrestS
    iterate 2 exact ⟨rfl, fun _ h => nomatch h⟩
  obtain ⟨htestE, htestS⟩ := htestP htestAt hbodyS
  exact ⟨htestE.trans (hbodyE.trans (hjumpE.trans hrestE)), htestS⟩

end

end RustCfml.Codegen
