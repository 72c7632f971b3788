import RustCfml.Codegen.EdgesParts

/-!
# Every instruction the compiler emits has its edges in order

**A copy of a `finally` body is emitted in contexts the tree does not show**, so the stack
carries the property of its emitters (`Emitters`), for every site they may be called with.
-/

namespace RustCfml.Codegen

open CodeAt List

section

variable {α κ : Type}

def owners (fs : List (Finally α κ)) : List Nat := fs.filterMap Finally.owner

def Finally.before (f : Finally α κ) (pending : List Nat) : List Nat := f.owner.toList ++ pending

lemma Finally.start_before (f : Finally α κ) (pending : List Nat) :
    f.start (f.before pending) = pending := by
  unfold Finally.start Finally.before
  cases f.owner <;> rfl

lemma owners_cons (f : Finally α κ) (fs : List (Finally α κ)) (rest : List Nat) :
    owners (f :: fs) ++ rest = f.before (owners fs ++ rest) := by
  unfold owners Finally.before
  rw [filterMap_cons]
  cases f.owner <;> rfl

lemma foldl_start (fs : List (Finally α κ)) (rest : List Nat) :
    fs.foldl (fun pending f => f.start pending) (owners fs ++ rest) = rest := by
  induction fs with
  | nil => rfl
  | cons f fs ih => rw [foldl_cons, owners_cons, Finally.start_before, ih]

variable (full : List (Instr α κ))

/-- An exit through the frame at `depth` runs the bodies above it and lands at `t`. -/
def ExitOk (pending : List Nat) (fs : List (Finally α κ)) (depth t : Nat) : Prop :=
  depth ≤ fs.length ∧
    ∃ later, pending = owners (fs.take (fs.length - depth)) ++ later ∧ Lands full t later

structure SiteOk (site : Site) (fs : List (Finally α κ)) (b c : Nat) : Prop where
  chained : Chained full site.place.opens
  owed : ∃ rest, site.place.pending = owners fs ++ rest ∧ (site.returnEscapes = false → rest = [])
  breaks : ∀ d, site.breakDepth = some d → site.breakEscapes = false →
    ExitOk full site.place.pending fs d b
  continues : ∀ d, site.continueDepth = some d → site.continueEscapes = false →
    ExitOk full site.place.pending fs d c

def EmitOk (f : Finally α κ) (emit : Site → Nat → List (Slot α κ)) (fs : List (Finally α κ)) :
    Prop :=
  ∀ site pos b c e, SiteOk full site fs b c →
    Piece full pos (f.before site.place.pending) site.place b c e (emit site pos)

def Emitters : List (Finally α κ) → Prop
  | [] => True
  | f :: fs => EmitOk full f f.detached [] ∧ EmitOk full f f.popped fs ∧ Emitters fs

variable {full} {pos b c e : Nat}

variable {fs : List (Finally α κ)} {t b' : Nat} {site : Site} {rest : List Nat} {f : Finally α κ}
  {place : Place} {escapes : Bool} {fin body : Block α κ}

lemma Emitters.detached (h : Emitters full fs) : ∀ f ∈ fs, EmitOk full f f.detached [] := by
  induction fs with
  | nil => exact fun _ h => nomatch h
  | cons f fs ih => exact forall_mem_cons.2 ⟨h.1, ih h.2.2⟩

/-! ## Exits -/

lemma SiteOk.detach (hchained : Chained full site.place.opens)
    (hpending : site.place.pending = f.before rest) :
    SiteOk full (site.detach f) ([] : List (Finally α κ)) b c ∧
    (site.detach f).place.pending = rest := by
  have hrest : (site.detach f).place.pending = rest := by
    show f.start site.place.pending = rest
    rw [hpending, Finally.start_before]
  exact ⟨⟨hchained, ⟨rest, hrest, (nomatch ·)⟩, fun _ _ => (nomatch ·), fun _ _ => (nomatch ·)⟩,
    hrest⟩

lemma edges_inlineFinallys (hemit : ∀ f ∈ fs, EmitOk full f f.detached []) (rest : List Nat) :
    ∀ {site : Site}
    {pos : Nat}, Chained full site.place.opens → site.place.pending = owners fs ++ rest →
    At full pos ((inlineFinallys fs site pos).map (Slot.resolve b c e)) →
    Enters full (pos + (inlineFinallys fs site pos).length) rest site.place.opens →
    EdgesIn full pos (pos + (inlineFinallys fs site pos).length) ∧
      Enters full pos site.place.pending site.place.opens := by
  induction fs with
  | nil =>
    intro site pos _ hpending _ hend
    rw [hpending]
    exact ⟨.nil, hend⟩
  | cons f fs ih =>
    intro site pos hchained hpending hat hend
    obtain ⟨hemit1, hemit2⟩ := forall_mem_cons.1 hemit
    rw [owners_cons] at hpending
    obtain ⟨hsite, hrest⟩ := SiteOk.detach hchained hpending
    simp only [inlineFinallys, at_layout] at hat hend ⊢
    obtain ⟨hrestE, hrestS⟩ := ih hemit2 hsite.chained hrest hat.2 hend
    obtain ⟨hfirstE, hfirstS⟩ := hemit1 _ _ _ _ _ hsite hat.1 hrestS
    rw [hrest, ← hpending] at hfirstS
    exact ⟨hfirstE.trans hrestE, hfirstS⟩

lemma pending_afterFinallys (h : place.pending = owners fs ++ rest) :
    (afterFinallys fs place).pending = rest := by
  show fs.foldl _ place.pending = rest
  rw [h, foldl_start]

section

variable (hemit : ∀ f ∈ fs, EmitOk full f f.detached []) (hchained : Chained full site.place.opens)
  (hpending : site.place.pending = owners fs ++ rest)
include hemit hchained hpending

lemma edges_exit (ht : escapes = false → Lands full t rest)
    (hat : At full pos ((inlineFinallys fs site pos).map (Slot.resolve b c e)))
    (hjump : full[pos + (inlineFinallys fs site pos).length]? =
      some ⟨.jump t, afterFinallys fs site.place, false, none, escapes⟩) :
    EdgesIn full pos (pos + (inlineFinallys fs site pos).length + 1) ∧
      Enters full pos site.place.pending site.place.opens := by
  have hrest := pending_afterFinallys hpending
  obtain ⟨hcodeE, hcodeS⟩ := edges_inlineFinallys hemit rest hchained hpending hat
    ⟨_, hjump, hrest, rfl⟩
  refine ⟨hcodeE.trans (edgesIn_jump hjump hchained fun h => ?_), hcodeS⟩
  rw [hrest]
  exact ht h

lemma edges_leave {op : Op α κ} (hescapes : escapes = false → rest = []) (hop : op.isStraight)
    (hat : At full pos ((inlineFinallys fs site pos).map (Slot.resolve b c e)))
    (hload : full[pos + (inlineFinallys fs site pos).length]? =
      some (.plain (afterFinallys fs site.place) op))
    (hret : full[pos + (inlineFinallys fs site pos).length + 1]? =
      some ⟨.ret, afterFinallys fs site.place, false, none, escapes⟩) :
    EdgesIn full pos (pos + (inlineFinallys fs site pos).length + 1 + 1) ∧
      Enters full pos site.place.pending site.place.opens := by
  have hrest := pending_afterFinallys hpending
  obtain ⟨hcodeE, hcodeS⟩ := edges_inlineFinallys hemit rest hchained hpending hat
    ⟨_, hload, hrest, rfl⟩
  have hloadE := EdgesIn.one hload (edges_plain hop.1 (fun _ => ⟨_, hret, rfl, rfl⟩)
    (by rw [show (Instr.plain _ op).op.branches = [] from hop.2]; exact fun _ h => nomatch h)
    hchained rfl)
  refine ⟨hcodeE.trans (hloadE.trans (edgesIn_ret hret hchained fun h => ?_)), hcodeS⟩
  rw [hrest, hescapes h]

end

lemma exists_above {pending : List Nat} {d : Nat} (howed : pending = owners fs ++ rest)
    (hexit : escapes = false → ExitOk full pending fs d t) :
    ∃ later, pending = owners (fs.take (fs.length - d)) ++ later ∧
    (escapes = false → Lands full t later) := by
  cases escapes with
  | false =>
    obtain ⟨-, later, hpending, hlands⟩ := hexit rfl
    exact ⟨later, hpending, fun _ => hlands⟩
  | true =>
    refine ⟨owners (fs.drop (fs.length - d)) ++ rest, ?_, (nomatch ·)⟩
    rw [howed, ← append_assoc, owners, owners, owners, ← filterMap_append, take_append_drop]

variable {cx : Ctx α κ}

lemma returnValue_straight (value : Option (Expr κ)) : ∀ op ∈ (returnValue value : List (Op α κ)),
    op.isStraight := by
  cases value with
  | some value => exact compileExpression_straight value
  | none =>
    intro op hop
    cases mem_singleton.1 hop
    exact ⟨rfl, rfl⟩

lemma part_throwCode {message : Option (Expr κ)} (hchained : Chained full cx.place.opens) :
    Part full pos cx.place b c e (throwCode cx message) := by
  have hthrow : (Op.throw : Op α κ).isStraight := ⟨rfl, rfl⟩
  unfold throwCode
  split
  · next message =>
    refine part_straight hchained (forall_mem_append.2 ⟨compileExpression_straight message, ?_⟩)
    exact forall_mem_singleton.2 hthrow
  · exact part_straight hchained (forall_mem_cons.2 ⟨⟨rfl, rfl⟩, forall_mem_singleton.2 hthrow⟩)

lemma rethrowOps_eq (catchVar : Option String) : ∃ code : List (Op α κ),
    (∀ op ∈ code, op.isStraight) ∧
      rethrowOps catchVar = code ++ [.rethrow] := by
  cases catchVar with
  | none => exact ⟨[], forall_mem_nil _, rfl⟩
  | some x =>
    exact ⟨[.setLastExceptionFromLocal (.named x)], forall_mem_singleton.2 ⟨rfl, rfl⟩, rfl⟩

variable {c' : Nat} {code : List (Slot α κ)} {k : Category}

lemma SiteOk.popFor (h : SiteOk full site (f :: fs) b c) :
    SiteOk full (site.popFor f) fs b' c' := by
  obtain ⟨rest, howed, hescapes⟩ := h.owed
  rw [owners_cons] at howed
  refine ⟨h.chained, ⟨rest, ?_, hescapes⟩, fun _ _ => (nomatch ·), fun _ _ => (nomatch ·)⟩
  show f.start site.place.pending = _
  rw [howed, Finally.start_before]

section

variable (hsite : SiteOk full cx.site cx.finallys b c) (hemit : Emitters full cx.finallys)
include hsite hemit

lemma part_breakOutOfClosure : Part full pos cx.place b c e (breakOutOfClosure cx pos) := by
  intro hat _
  obtain ⟨rest, howed, hescapes⟩ := hsite.owed
  simp [breakOutOfClosure, at_cons, at_layout] at hat ⊢
  exact edges_leave hemit.detached hsite.chained howed hescapes ⟨rfl, rfl⟩ hat.1 hat.2.1 hat.2.2.1

lemma part_exit {depth : Nat} {slot : Slot α κ}
    (hslot : slot.resolve b c e =
      ⟨.jump t, afterFinallys (cx.above depth) cx.place, false, none, escapes⟩)
    (hexit : escapes = false → ExitOk full cx.place.pending cx.finallys depth t) :
    Part full pos cx.place b c e (inlineFinallys (cx.above depth) cx.site pos ++ [slot]) := by
  intro hat _
  obtain ⟨rest, howed, -⟩ := hsite.owed
  obtain ⟨later, hpending, hlands⟩ := exists_above howed hexit
  simp [at_cons, at_layout, hslot] at hat ⊢
  exact edges_exit (fun f hf => hemit.detached f (mem_of_mem_take hf)) hsite.chained
    hpending hlands hat.1 hat.2.1

lemma part_breakCode : Part full pos cx.place b c e (breakCode cx pos) := by
  unfold breakCode
  split
  · exact part_breakOutOfClosure hsite hemit
  · next depth hdepth => exact part_exit hsite hemit rfl (hsite.breaks depth hdepth)

lemma part_continueCode : Part full pos cx.place b c e (continueCode cx pos) := by
  unfold continueCode
  split
  · exact part_breakOutOfClosure hsite hemit
  · next depth hdepth => exact part_exit hsite hemit rfl (hsite.continues depth hdepth)

lemma part_returnCode {value : Option (Expr κ)} :
    Part full pos cx.place b c e (returnCode cx value pos) := by
  intro hat _
  obtain ⟨rest, howed, hescapes⟩ := hsite.owed
  have hvalueP (p : Nat) : Part full p cx.place b c e (ops cx.place (returnValue value)) :=
    part_straight hsite.chained (returnValue_straight value)
  rw [returnCode] at hat ⊢
  cases hfs : cx.finallys with
  | nil =>
    simp [hfs, at_cons, at_layout] at hat ⊢
    obtain ⟨hvalueAt, hret, -⟩ := hat
    obtain ⟨hvalueE, hvalueS⟩ := hvalueP _ hvalueAt ⟨_, hret, rfl, rfl⟩
    refine ⟨hvalueE.trans (edgesIn_ret hret hsite.chained fun h => ?_), hvalueS⟩
    rw [hfs] at howed
    exact howed.trans (hescapes h)
  | cons f fs =>
    rw [← hfs]
    have hne : cx.finallys.isEmpty = false := by rw [hfs]; rfl
    simp only [hne, Bool.false_eq_true, if_false, map_cons, map_nil, at_cons, at_layout] at hat ⊢
    obtain ⟨⟨⟨hvalueAt, hstashAt⟩, hcodeAt⟩, hload, hret, -⟩ := hat
    obtain ⟨hcodeE, hcodeS⟩ := edges_leave hemit.detached hsite.chained howed hescapes ⟨rfl, rfl⟩
      hcodeAt hload hret
    have hstashP (p : Nat) : Part full p cx.place b c e
        (ops cx.place [.declareLocal .retval, .storeLocal .retval]) :=
      part_straight hsite.chained (by simp [Op.isStraight, Op.isPlain, Op.branches])
    obtain ⟨hstashE, hstashS⟩ := hstashP _ hstashAt hcodeS
    obtain ⟨hvalueE, hvalueS⟩ := hvalueP _ hvalueAt hstashS
    exact ⟨hvalueE.trans (hstashE.trans hcodeE), hvalueS⟩

lemma part_rethrowCode : Part full pos cx.place b c e (rethrowCode cx pos) := by
  intro hat _
  obtain ⟨code, hcode, hops⟩ := rethrowOps_eq (α := α) (κ := κ) cx.site.catchVar
  rw [rethrowCode] at hat ⊢
  cases hfs : cx.finallys with
  | nil =>
    simp [hfs, hops, length_ops] at hat ⊢
    exact edges_raise code .rethrow hsite.chained hcode ⟨rfl, rfl⟩ rfl hat
  | cons f fs =>
    rw [hfs] at hsite hemit
    simp only [hfs, hops, length_ops, at_layout] at hat ⊢
    obtain ⟨⟨hsaveAt, hcodeAt⟩, hraiseAt⟩ := hat
    have hchained : Chained full (afterFinallys [f] cx.place).opens := hsite.chained
    obtain ⟨hraiseE, hraiseS⟩ := edges_raise (.restoreException :: code) .rethrow hchained
      (forall_mem_cons.2 ⟨⟨rfl, rfl⟩, hcode⟩) ⟨rfl, rfl⟩ rfl hraiseAt
    obtain ⟨hcodeE, hcodeS⟩ := hemit.2.1 _ _ _ _ _ hsite.popFor hcodeAt hraiseS
    have hbefore : f.before (cx.site.popFor f).place.pending = cx.place.pending := by
      obtain ⟨rest, howed, -⟩ := hsite.owed
      rw [owners_cons] at howed
      show f.before (f.start cx.site.place.pending) = cx.site.place.pending
      rw [howed, Finally.start_before]
    rw [hbefore] at hcodeS
    have hsaveP (p : Nat) : Part full p cx.place b c e (ops cx.place [.saveException]) :=
      part_straight hsite.chained (forall_mem_singleton.2 ⟨rfl, rfl⟩)
    obtain ⟨hsaveE, hsaveS⟩ := hsaveP _ hsaveAt hcodeS
    exact ⟨hsaveE.trans (hcodeE.trans hraiseE), hsaveS⟩

end

/-! ## The induction over the tree -/

/-- The pending list in front of the code of a node: a copy of a `finally` body starts with its
first statement. -/
def Ctx.lead (cx : Ctx α κ) (code : List (Slot α κ)) : List Nat :=
  if code.isEmpty then cx.place.pending else cx.site.mark.toList ++ cx.place.pending

/-- Only statements and blocks start a copy; the parts of an `if` or a `try` may jump to its end. -/
def Entry (full : List (Instr α κ)) (cx : Ctx α κ) (e : Nat) : Category → Prop
  | .stmt | .block => True
  | .cases => cx.site.mark = none
  | .elses | .catches => cx.site.mark = none ∧ Lands full e cx.place.pending

structure OutOk (full : List (Instr α κ)) (cx : Ctx α κ) (pos b c e : Nat) (out : Out α κ) :
    Prop where
  code : Piece full pos (cx.lead out.code) cx.place b c e out.code
  init : Piece full pos (cx.lead out.init) cx.place b c e out.init
  starts : At full pos (out.code.map (Slot.resolve b c e)) →
    Enters full (pos + out.code.length) cx.place.pending cx.place.opens →
    ∀ s ∈ out.starts, Enters full s cx.place.pending cx.place.opens

def NodeOk (full : List (Instr α κ)) {k : Category} (n : Node α κ k) : Prop :=
  ∀ (cx : Ctx α κ) (pos b c e : Nat), SiteOk full cx.site cx.finallys b c →
    Emitters full cx.finallys → Entry full cx e k → OutOk full cx pos b c e (compile n cx pos)

lemma Ctx.lead_of_unmarked (h : cx.site.mark = none) (code : List (Slot α κ)) :
    cx.lead code = cx.place.pending := by
  unfold Ctx.lead
  rw [h]
  split <;> rfl

lemma piece_lead_nil : Piece full pos (cx.lead []) cx.place b c e [] := part_nil

lemma outOk_unmarked (hmark : cx.site.mark = none)
    (h : Part full pos cx.place b c e code) : OutOk full cx pos b c e ⟨code, [], []⟩ where
  code := by
    rw [Ctx.lead_of_unmarked hmark]
    exact h
  init := piece_lead_nil
  starts _ _ _ h := nomatch h

lemma outOk_stmt (hchained : Chained full cx.place.opens)
    (h : Part full (pos + 1) cx.place b c e code) : OutOk full cx pos b c e (.stmt cx code) where
  code := by
    intro hat hend
    simp [Out.stmt, at_cons, Nat.add_right_comm _ _ 1, ← Nat.add_assoc] at hat hend ⊢
    obtain ⟨hcodeE, hcodeS⟩ := h hat.2 hend
    have hline := EdgesIn.one hat.1
      (edges_plain rfl (fun _ => hcodeS) (fun _ h => nomatch h) hchained rfl)
    refine ⟨hline.trans hcodeE, _, hat.1, ?_, rfl⟩
    show Instr.pendingBefore ⟨.lineInfo, cx.place, false, cx.site.mark, false⟩ =
      cx.site.mark.toList ++ cx.place.pending
    cases cx.site.mark <;> rfl
  init := piece_lead_nil
  starts _ _ _ h := nomatch h

lemma outOk_straight {os : List (Op α κ)} (hchained : Chained full cx.place.opens)
    (hops : ∀ op ∈ os, op.isStraight) : OutOk full cx pos b c e (.stmt cx (ops cx.place os)) :=
  outOk_stmt hchained (part_straight hchained hops)

lemma SiteOk.inside (h : SiteOk full site fs b c) (mark : Option Nat) (catchVar : Option String) :
    SiteOk full { site with mark, catchVar } fs b c := ⟨h.chained, h.owed, h.breaks, h.continues⟩

section

variable (h : SiteOk full cx.site cx.finallys b c)
include h

lemma SiteOk.enterLoop (hb : Lands full b' cx.place.pending) (hc : Lands full c' cx.place.pending) :
    SiteOk full cx.enterLoop.site cx.enterLoop.finallys b' c' := by
  have hexit (t : Nat) (ht : Lands full t cx.place.pending) :
      ExitOk full cx.place.pending cx.finallys cx.finallys.length t :=
    ⟨le_rfl, cx.place.pending, by rw [Nat.sub_self]; rfl, ht⟩
  refine ⟨h.chained, h.owed, ?_, ?_⟩
  · rintro d ⟨⟩ _
    exact hexit b' hb
  · rintro d ⟨⟩ _
    exact hexit c' hc

lemma SiteOk.enterSwitch (hb : Lands full b' cx.place.pending) :
    SiteOk full cx.enterSwitch.site cx.enterSwitch.finallys b' c := by
  refine ⟨h.chained, h.owed, ?_, h.continues⟩
  rintro d ⟨⟩ _
  exact ⟨le_rfl, cx.place.pending, by rw [Ctx.enterSwitch, Nat.sub_self]; rfl, hb⟩

lemma SiteOk.at (hpending : place.pending = cx.place.pending)
    (hchained : Chained full place.opens) :
    SiteOk full (cx.at place).site (cx.at place).finallys b c := by
  refine ⟨hchained, ?_, ?_, ?_⟩
  · show ∃ rest, place.pending = _ ∧ _
    rw [hpending]
    exact h.owed
  · show ∀ d, _ → _ → ExitOk full place.pending _ _ _
    rw [hpending]
    exact h.breaks
  · show ∀ d, _ → _ → ExitOk full place.pending _ _ _
    rw [hpending]
    exact h.continues

end

lemma ExitOk.push {pending : List Nat} {d : Nat}
    (h : ExitOk full pending fs d t) : ExitOk full (f.before pending) (f :: fs) d t := by
  obtain ⟨hle, later, hpending, hlands⟩ := h
  refine ⟨Nat.le_succ_of_le hle, later, ?_, hlands⟩
  rw [length_cons, Nat.succ_sub hle, take_succ_cons, owners_cons, ← hpending]

lemma SiteOk.push {owes : Bool} {emit : Ctx α κ → Nat → List (Slot α κ)}
    (h : SiteOk full cx.site cx.finallys b c)
    (hpending : place.pending = (cx.place.owing t owes).pending)
    (hchained : Chained full place.opens) :
    SiteOk full ((Finally.push cx t owes emit).at place).site
      ((Finally.push cx t owes emit).at place).finallys b c := by
  obtain ⟨f, hf⟩ : ∃ f, (Finally.push cx t owes emit).finallys = f :: cx.finallys := ⟨_, rfl⟩
  have hbefore : place.pending = f.before cx.place.pending := by
    cases hf
    rw [hpending]
    cases owes <;> rfl
  refine ⟨hchained, ?_, ?_, ?_⟩
  · obtain ⟨rest, howed, hescapes⟩ := h.owed
    refine ⟨rest, ?_, hescapes⟩
    show place.pending = owners (Finally.push cx t owes emit).finallys ++ rest
    rw [hbefore, hf, owners_cons, ← howed]
    rfl
  · intro d hd hescapes
    show ExitOk full place.pending (Finally.push cx t owes emit).finallys d b
    rw [hbefore, hf]
    exact (h.breaks d hd hescapes).push
  · intro d hd hescapes
    show ExitOk full place.pending (Finally.push cx t owes emit).finallys d c
    rw [hbefore, hf]
    exact (h.continues d hd hescapes).push

lemma exists_compile_stmt (s : Stmt α κ) (cx : Ctx α κ) (pos : Nat) :
    ∃ code, compile s cx pos = .stmt cx code := by
  cases s with
  | assignConst name op k => cases op <;> exact ⟨_, by rw [compile]⟩
  | forS init cond increment body =>
    cases cond with
    | none => exact ⟨_, by rw [compile]⟩
    | some cond => rw [compile]; split <;> exact ⟨_, rfl⟩
  | whileS cond body | doS body cond => rw [compile]; split <;> exact ⟨_, rfl⟩
  | tryFinally body catches fin =>
    rw [compile]
    split <;> exact ⟨_, rfl⟩
  | _ => exact ⟨_, by rw [compile]⟩

lemma isEmpty_compile : (n : Block α κ) → (cx : Ctx α κ) → (pos : Nat) →
    (compile n cx pos).code.isEmpty = n.isNil
  | .nil, cx, pos => by rw [compile]; rfl
  | .cons s rest, cx, pos => by
    obtain ⟨code, hcode⟩ := exists_compile_stmt s cx pos
    rw [compile, hcode]
    rfl

lemma piece_copy (hfin : NodeOk full fin)
    (hsite : SiteOk full cx.site cx.finallys b c) (hemit : Emitters full cx.finallys) :
    Piece full pos (cx.place.owing t (!fin.isNil)).pending cx.place b c e
    (compile fin (cx.copy t) pos).code := by
  have h := (hfin (cx.copy t) pos b c e (hsite.inside _ _) hemit trivial).code
  unfold Ctx.lead at h
  rw [isEmpty_compile] at h
  unfold Place.owing
  cases hnil : fin.isNil <;> rw [hnil] at h <;> exact h

lemma emitters_push (hfin : NodeOk full fin) (hemit : Emitters full cx.finallys) :
    Emitters full (Finally.push cx t (!fin.isNil) fun cx pos =>
      (compile fin cx pos).code).finallys := by
  have hcopy (fs : List (Finally α κ)) (hfs : Emitters full fs) (lexical : List Nat)
      (d p : Site → Nat → List (Slot α κ)) :
      EmitOk full ⟨if !fin.isNil then some t else none, lexical, d, p⟩
        (fun site pos => (compile fin (Ctx.copy ⟨site, fs⟩ t) pos).code) fs := by
    intro site pos b c e hsite
    have h : Piece full pos (site.place.owing t (!fin.isNil)).pending (Ctx.place ⟨site, fs⟩) b c e
        (compile fin (Ctx.copy ⟨site, fs⟩ t) pos).code := piece_copy hfin hsite hfs
    have hbefore : (site.place.owing t (!fin.isNil)).pending =
        (if !fin.isNil then some t else none).toList ++ site.place.pending := by
      unfold Place.owing
      cases fin.isNil <;> rfl
    rw [hbefore] at h
    exact h
  exact ⟨hcopy [] trivial _ _ _, hcopy _ hemit _ _ _, hemit⟩

lemma NodeOk.part {n : Node α κ k} (h : NodeOk full n) (cx : Ctx α κ)
    (hsite : SiteOk full cx.site cx.finallys b c)
    (hemit : Emitters full cx.finallys) (hentry : Entry full cx e k) (hmark : cx.site.mark = none) :
    Part full pos cx.place b c e (compile n cx pos).code := by
  have h := (h cx pos b c e hsite hemit hentry).code
  rw [Ctx.lead_of_unmarked hmark] at h
  exact h

lemma NodeOk.partInit {n : Block α κ} (h : NodeOk full n) (cx : Ctx α κ)
    (hsite : SiteOk full cx.site cx.finallys b c) (hemit : Emitters full cx.finallys)
    (hmark : cx.site.mark = none) : Part full pos cx.place b c e (compile n cx pos).init := by
  have h := (h cx pos b c e hsite hemit trivial).init
  rw [Ctx.lead_of_unmarked hmark] at h
  exact h

lemma nodeOk_cons {s : Stmt α κ} {rest : Block α κ} (hs : NodeOk full s)
    (hrest : NodeOk full rest) : NodeOk full (.cons s rest) := by
  intro cx pos b c e hsite hemit _
  obtain ⟨first, hfirst⟩ := exists_compile_stmt s cx pos
  have hsP := (hs cx pos b c e hsite hemit trivial).code
  have hlead (code : List (Slot α κ)) :
      cx.lead ((compile s cx pos).code ++ code) = cx.lead (compile s cx pos).code := by
    rw [hfirst]
    rfl
  have hparts := hsite.inside none cx.site.catchVar
  rw [compile]
  refine ⟨?_, ?_, fun _ _ _ h => by cases h⟩
  · show Piece full pos (cx.lead (_ ++ _)) cx.place b c e _
    rw [hlead]
    exact part_append hsP (hrest.part cx.parts hparts hemit trivial rfl)
  · show Piece full pos (cx.lead (if rest.isNil then [] else _)) cx.place b c e
      (if rest.isNil then [] else _)
    cases rest.isNil with
    | true => exact piece_lead_nil
    | false =>
      rw [if_neg Bool.false_ne_true, hlead]
      exact part_append hsP (hrest.partInit cx.parts hparts hemit rfl)

lemma nodeOk_case {value : Expr κ} {values : List (Expr κ)} {rest : Node α κ .cases}
    (hbody : NodeOk full body)
    (hrest : NodeOk full rest) : NodeOk full (.case value values body rest) := by
  intro cx pos b c e hsite hemit hmark
  have hbodyP : Part full pos cx.place b c e (compile body cx pos).code :=
    hbody.part cx hsite hemit trivial hmark
  have hrestO := hrest cx (pos + (compile body cx pos).code.length) b c e hsite hemit hmark
  have hrestP := hrestO.code
  rw [Ctx.lead_of_unmarked hmark] at hrestP
  rw [compile]
  refine ⟨?_, piece_lead_nil, ?_⟩
  · rw [Ctx.lead_of_unmarked hmark]
    exact part_append hbodyP hrestP
  · intro hat hend
    simp only [at_layout] at hat hend
    have hrestS := (hrestP hat.2 hend).2
    exact forall_mem_cons.2 ⟨(hbodyP hat.1 hrestS).2, hrestO.starts hat.2 hend⟩

lemma part_switch {scrutinee : Expr κ} {cases : Node α κ .cases} (hcases : NodeOk full cases)
    (hsite : SiteOk full cx.site cx.finallys b c) (hemit : Emitters full cx.finallys)
    (x : Var) {bodiesPos : Nat} (hpos : bodiesPos = pos +
      (switchSetup scrutinee x : List (Op α κ)).length + (dispatchOps x cases []).length) :
    Part full pos cx.place b c e (ops cx.place (switchSetup scrutinee x) ++
        ops cx.place (dispatchOps x cases (compile cases cx.enterSwitch bodiesPos).starts) ++
        (compile cases cx.enterSwitch bodiesPos).code.map (Slot.patchBreaks
          (bodiesPos + (compile cases cx.enterSwitch bodiesPos).code.length))) := by
  intro hat hend
  simp only [map_append, at_append, length_map, length_append, length_ops,
    resolve_patchBreaks, length_dispatchOps x cases _ [], ← Nat.add_assoc, ← hpos] at hat hend ⊢
  obtain ⟨⟨hsetupAt, hdispatchAt⟩, hbodiesAt⟩ := hat
  have hout := hcases cx.enterSwitch bodiesPos _ c e (hsite.enterSwitch hend.lands) hemit rfl
  have hbodiesE := (hout.code hbodiesAt hend).1
  rw [resolve_ops] at hdispatchAt
  obtain ⟨hdispatchE, hdispatchS⟩ := edges_dispatchOps x hsite.chained cases cx.enterSwitch
    bodiesPos _ (hout.starts hbodiesAt hend) hdispatchAt
  rw [length_dispatchOps x cases _ [], ← hpos] at hdispatchE
  have hsetupP : Part full pos cx.place b c e (ops cx.place (switchSetup scrutinee x)) := by
    refine part_straight hsite.chained
      (forall_mem_append.2 ⟨compileExpression_straight scrutinee, ?_⟩)
    exact forall_mem_cons.2 ⟨⟨rfl, rfl⟩, forall_mem_singleton.2 ⟨rfl, rfl⟩⟩
  have hsetup := hsetupP hsetupAt
  rw [length_ops] at hsetup
  exact ⟨(hsetup hdispatchS).1.trans (hdispatchE.trans hbodiesE), (hsetup hdispatchS).2⟩

lemma part_tryFinally {catches : Node α κ .catches} (hbody : NodeOk full body)
    (hcatches : NodeOk full catches)
    (hfin : NodeOk full fin) (hsite : SiteOk full cx.site cx.finallys b c)
    (hemit : Emitters full cx.finallys) :
    OutOk full cx pos b c e (compile (.tryFinally body catches fin) cx pos) := by
  have hinner := emitters_push (t := pos + 1) hfin hemit
  rw [compile]
  split
  · refine outOk_stmt hsite.chained (part_tryOnlyFinallyCode hsite.chained (fun hopen => ?_)
      (piece_copy hfin hsite hemit) (piece_copy hfin hsite hemit))
    exact hbody.part (Ctx.at _ (cx.place.enter (pos + 1) (!fin.isNil))) (hsite.push rfl hopen)
      hinner trivial rfl
  · refine outOk_stmt hsite.chained (part_tryCode_finally hsite.chained (fun hopen => ?_)
      (fun e' he' => ?_) (piece_copy hfin hsite hemit) (piece_copy hfin hsite hemit))
    · exact hbody.part (Ctx.at _ (cx.place.enter (pos + 1) (!fin.isNil))) (hsite.push rfl hopen)
        hinner trivial rfl
    · exact hcatches.part (Ctx.at _ (cx.place.owing (pos + 1) (!fin.isNil)))
        (hsite.push rfl hsite.chained) hinner ⟨rfl, he'⟩ rfl

lemma compile_nodeOk (n : Node α κ k) : NodeOk full n := by
  induction n
  case cons s rest ihs ihrest => exact nodeOk_cons ihs ihrest
  case case value values body rest ihbody ihrest => exact nodeOk_case ihbody ihrest
  all_goals intro cx pos b c e hsite hemit hentry
  case assignConst name op k =>
    cases op <;> rw [compile] <;>
      exact outOk_straight hsite.chained (forall_mem_singleton.2 ⟨rfl, rfl⟩)
  case forS init cond increment body ihinit ihbody =>
    have hinitP (p : Nat) : Part full p cx.place b c e (compile init cx.parts p).code :=
      ihinit.part cx.parts (hsite.inside _ _) hemit trivial rfl
    cases cond with
    | none =>
      rw [compile]
      exact outOk_stmt hsite.chained (hinitP _)
    | some cond =>
      rw [compile]
      split
      · exact outOk_stmt hsite.chained (part_append (hinitP _) (part_countedCode hsite.chained
          fun b' c' hb hc => ihbody.part cx.enterLoop (hsite.enterLoop hb hc) hemit trivial rfl))
      · refine outOk_stmt hsite.chained (part_append (hinitP _) (part_loopCode hsite.chained ?_
          (.inr rfl) fun b' c' hb hc =>
            ihbody.part cx.enterLoop (hsite.enterLoop hb hc) hemit trivial rfl))
        cases increment with
        | none => exact forall_mem_nil _
        | some increment => exact discard_straight increment
  case tryFinally body catches fin ihbody ihcatches ihfin =>
    exact part_tryFinally ihbody ihcatches ihfin hsite hemit
  all_goals rw [compile]
  case nil => exact ⟨piece_lead_nil, piece_lead_nil, fun _ _ _ h => by cases h⟩
  case atom a => exact outOk_straight hsite.chained (forall_mem_singleton.2 ⟨rfl, rfl⟩)
  case expr e' => exact outOk_straight hsite.chained (expressionStatement_straight e')
  case assign name op left right =>
    exact outOk_straight hsite.chained (compileExpression_straight (.assign name op left right))
  case output body ih =>
    exact outOk_stmt hsite.chained (ih.part cx.parts (hsite.inside _ _) hemit trivial rfl)
  case ifS cond thenB rest ihthen ihrest =>
    have hparts := hsite.inside none cx.site.catchVar
    exact outOk_stmt hsite.chained
      (part_ifCode hsite.chained (ihthen.part cx.parts hparts hemit trivial rfl)
      fun e' he' => ihrest.part cx.parts hparts hemit ⟨rfl, he'⟩ rfl)
  case noElse | noCatch => exact outOk_unmarked hentry.1 part_nil
  case elseB body ih => exact outOk_unmarked hentry.1 (ih.part cx hsite hemit trivial hentry.1)
  case elseIf cond body rest ihbody ihrest =>
    exact outOk_unmarked hentry.1 (part_elseIfCode hsite.chained hentry.2
      (ihbody.part cx hsite hemit trivial hentry.1) (ihrest.part cx hsite hemit hentry hentry.1))
  case forIn name declared capped iterable body ih =>
    refine outOk_stmt hsite.chained (part_append
      (part_straight hsite.chained (forInSetup_straight name declared capped iterable _)) ?_)
    rw [length_ops]
    exact part_forInCode hsite.chained rfl fun b' c' hb hc =>
      ih.part cx.enterLoop (hsite.enterLoop hb hc) hemit trivial rfl
  case whileS cond body ih =>
    split
    · exact outOk_stmt hsite.chained (part_countedCode hsite.chained fun b' c' hb hc =>
        ih.partInit cx.enterLoop (hsite.enterLoop hb hc) hemit rfl)
    · exact outOk_stmt hsite.chained (part_loopCode hsite.chained (forall_mem_nil _) (.inl rfl)
        fun b' c' hb hc => ih.part cx.enterLoop (hsite.enterLoop hb hc) hemit trivial rfl)
  case doS body cond ih =>
    split
    · exact outOk_stmt hsite.chained (part_countedDoCode hsite.chained fun b' c' hb hc =>
        ih.partInit cx.enterLoop (hsite.enterLoop hb hc) hemit rfl)
    · exact outOk_stmt hsite.chained (part_doCode hsite.chained fun b' c' hb hc =>
        ih.part cx.enterLoop (hsite.enterLoop hb hc) hemit trivial rfl)
  case switchS scrutinee cases ih =>
    exact outOk_stmt hsite.chained (part_switch ih hsite hemit _ rfl)
  case noDefault =>
    exact ⟨piece_lead_nil, piece_lead_nil, fun _ hend => forall_mem_singleton.2 hend⟩
  case default body ih =>
    have hbody : Part full pos cx.place b c e (compile body cx pos).code :=
      ih.part cx hsite hemit trivial hentry
    refine ⟨?_, piece_lead_nil, fun hat hend => forall_mem_singleton.2 (hbody hat hend).2⟩
    rw [Ctx.lead_of_unmarked hentry]
    exact hbody
  case tryS body catches ihbody ihcatches =>
    exact outOk_stmt hsite.chained (part_tryCode hsite.chained
      (fun hopen => ihbody.part (cx.at (cx.place.enter (pos + 1) false))
        (hsite.at rfl hopen) hemit trivial rfl)
      fun e' he' => ihcatches.part cx.parts (hsite.inside _ _) hemit ⟨rfl, he'⟩ rfl)
  case catchB type var body rest ihbody ihrest =>
    exact outOk_unmarked hentry.1 (part_catchCode hsite.chained hentry.2
      (ihbody.part { cx with site := { cx.site with catchVar := some var } }
        (hsite.inside _ _) hemit trivial hentry.1)
      (ihrest.part cx hsite hemit hentry hentry.1))
  case throwS message => exact outOk_stmt hsite.chained (part_throwCode hsite.chained)
  case rethrow => exact outOk_stmt hsite.chained (part_rethrowCode hsite hemit)
  case returnS value => exact outOk_stmt hsite.chained (part_returnCode hsite hemit)
  case breakS => exact outOk_stmt hsite.chained (part_breakCode hsite hemit)
  case continueS => exact outOk_stmt hsite.chained (part_continueCode hsite hemit)

lemma compileFunction_part (body : Block α κ) :
    EdgesIn (compileFunction body) 0 (compileFunction body).length ∧
      Enters (compileFunction body) 0 [] [] := by
  obtain ⟨full, hfull⟩ : ∃ full, full = compileFunction body := ⟨_, rfl⟩
  have hat : At full 0 (((compile body Ctx.function 0).code ++
      ops ⟨[], [], []⟩ [.null, .ret]).map (Slot.resolve 0 0 0)) := by
    rw [hfull]
    exact at_self
  rw [← hfull]
  have hlen : full.length = (compile body Ctx.function 0).code.length + 1 + 1 := by
    rw [hfull, compileFunction, length_map, length_append, length_ops]
    rfl
  rw [map_append, at_append, length_map, resolve_ops, map_cons, map_cons, at_cons, at_cons,
    Nat.zero_add] at hat
  obtain ⟨hbodyAt, hnull, hret, -⟩ := hat
  have hsite : SiteOk full (Ctx.function : Ctx α κ).site (Ctx.function : Ctx α κ).finallys 0 0 :=
    ⟨trivial, ⟨[], rfl, fun _ => rfl⟩, fun _ => (nomatch ·), fun _ => (nomatch ·)⟩
  have hbodyP : Part full 0 ⟨[], [], []⟩ 0 0 0 (compile body Ctx.function 0).code :=
    (compile_nodeOk body).part Ctx.function hsite trivial trivial rfl
  rw [Part, Piece, Nat.zero_add] at hbodyP
  obtain ⟨hbodyE, hbodyS⟩ := hbodyP hbodyAt (enters_at hnull)
  have hnullE := EdgesIn.one hnull
    (edges_plain rfl (fun _ => enters_at hret) (fun _ h => nomatch h) trivial rfl)
  have hretE := edgesIn_ret hret trivial fun _ => rfl
  rw [hlen]
  exact ⟨hbodyE.trans (hnullE.trans hretE), hbodyS⟩

lemma compile_edges {i : Nat} {ins : Instr α κ}
    (h : (compileFunction body)[i]? = some ins) : Edges (compileFunction body) i ins :=
  (compileFunction_part body).1 i ins (Nat.zero_le i) (List.getElem?_eq_some_iff.1 h).1 h

end

end RustCfml.Codegen
