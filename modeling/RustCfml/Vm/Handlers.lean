import RustCfml.Vm.Run

/-!
# The handler stack of a frame

**The compiler does not keep this.** A `break` or `continue` is a plain jump: out of a `try` body it
leaves the handler behind.
-/

namespace RustCfml.Vm

open Codegen List

section

variable {α κ σ : Type}

def handlerOf (code : List (Instr α κ)) (t : Nat) : Option Nat :=
  match (code[t]?).map Instr.op with
  | some (.tryStart catchIp) => some catchIp
  | _ => none

def Matches (code : List (Instr α κ)) (tries : List Nat) (stack : List Handler) : Prop :=
  tries.map (handlerOf code) = stack.map fun h => some h.catchIp

def Delivered (code : List (Instr α κ)) : List Nat → Status σ → Prop
  | [], ended => ∃ e d, ended = .failed e d
  | t :: _, next => ∃ s, next = .running s ∧ handlerOf code t = some s.ip

structure Disciplined (H : Host α κ σ) (code : List (Instr α κ)) (s : State σ) : Prop where
  handlers : ∀ ins, code[s.ip]? = some ins → Matches code ins.place.lexical s.tryStack
  delivery : ∀ ins, code[s.ip]? = some ins → Raises H s ins →
    Delivered code ins.place.lexical (step H code s)

/-- A step that neither jumps out of a `try` body nor goes on inside a copy of a `finally` body that
stands in one. -/
structure Orderly (H : Host α κ σ) (code : List (Instr α κ)) (s : State σ) : Prop where
  jumps : ∀ ins t j, code[s.ip]? = some ins → ins.op = .jump t → code[t]? = some j →
    j.place.opens = ins.place.opens
  home : ∀ s' j, step H code s = .running s' → code[s'.ip]? = some j →
    j.place.lexical = j.place.opens

variable {H : Host α κ σ} {code : List (Instr α κ)}

/-- The invariant: the instruction's statement stands where the instruction does, and the stack has
the handlers open there. -/
def AtHome (code : List (Instr α κ)) (s : State σ) : Prop :=
  ∀ ins, code[s.ip]? = some ins →
    ins.place.lexical = ins.place.opens ∧ Matches code ins.place.opens s.tryStack

variable {body : Block α κ} {s s' : State σ} {t : Nat} {opens : List Nat} {stack : List Handler}

lemma handlerOf_tryStart {c : Nat} {i : Instr α κ} (hi : code[t]? = some i)
    (hop : i.op = .tryStart c) : handlerOf code t = some c := by
  rw [handlerOf, hi, Option.map_some, hop]

lemma Matches.of_raise {h : Handler} (hchained : Chained code opens)
    (hmatch : Matches code opens (h :: stack)) :
    ∃ t rest pending, opens = t :: rest ∧ handlerOf code t = some h.catchIp ∧
      Enters code h.catchIp pending rest ∧ Matches code rest stack := by
  cases opens with
  | nil => cases hmatch
  | cons t rest =>
    obtain ⟨⟨i, c, pending, hi, hop, hcatch⟩, -⟩ := hchained
    obtain ⟨hhead, htail⟩ := cons.inj hmatch
    have hc : c = h.catchIp := Option.some.inj ((handlerOf_tryStart hi hop).symm.trans hhead)
    rw [hc] at hcatch
    exact ⟨t, rest, pending, rfl, hhead, hcatch, htail⟩

lemma Matches.of_enters {pending : List Nat} (h : Enters code t pending opens)
    (hmatch : Matches code opens stack) :
    ∀ ins, code[t]? = some ins → Matches code ins.place.opens stack := by
  intro ins hins
  obtain ⟨j, hj, -, hopens⟩ := h
  cases hj.symm.trans hins
  rw [hopens]
  exact hmatch

lemma step_matches {ins : Instr α κ} (hins : (compileFunction body)[s.ip]? = some ins)
    (hmatch : Matches (compileFunction body) ins.place.opens s.tryStack)
    (hjumps : ∀ t j, ins.op = .jump t → (compileFunction body)[t]? = some j →
      j.place.opens = ins.place.opens)
    (hstep : step H (compileFunction body) s = .running s') :
    ∀ j, (compileFunction body)[s'.ip]? = some j →
      Matches (compileFunction body) j.place.opens s'.tryStack := by
  have hgoes := step_goes (H := H) hins
  rw [hstep] at hgoes
  cases hgoes with
  | on _ htry hnext =>
    rw [htry]
    exact Matches.of_enters hnext hmatch
  | jumps hop htry _ =>
    intro j hj
    rw [htry, hjumps _ j hop hj]
    exact hmatch
  | opens hop htry hnext =>
    rw [htry]
    refine Matches.of_enters hnext ?_
    rw [Matches, map_cons, map_cons, handlerOf_tryStart hins hop, hmatch]
  | closes _ htry hnext =>
    rw [htry]
    refine Matches.of_enters hnext ?_
    rw [Matches, map_tail, map_tail, hmatch]
  | caught _ htry hip =>
    rw [htry] at hmatch
    obtain ⟨t, rest, pending, -, -, hcatch, hrest⟩ := hmatch.of_raise (compile_edges hins).chained
    rw [hip]
    exact Matches.of_enters hcatch hrest

lemma AtHome.step (hs : AtHome (compileFunction body) s)
    (hordered : Orderly H (compileFunction body) s)
    (hstep : step H (compileFunction body) s = .running s') : AtHome (compileFunction body) s' := by
  intro j hj
  refine ⟨hordered.home s' j hstep hj, ?_⟩
  cases hins : (compileFunction body)[s.ip]? with
  | none =>
    rw [Vm.step, hins] at hstep
    cases hstep
  | some ins =>
    exact step_matches hins (hs ins hins).2 (fun t j hop hj => hordered.jumps ins t j hins hop hj)
      hstep j hj

lemma AtHome.disciplined (hs : AtHome (compileFunction body) s) :
    Disciplined H (compileFunction body) s := by
  have hhandlers : ∀ ins, (compileFunction body)[s.ip]? = some ins →
      Matches (compileFunction body) ins.place.lexical s.tryStack := by
    intro ins hins
    rw [(hs ins hins).1]
    exact (hs ins hins).2
  refine ⟨hhandlers, fun ins hins ⟨e, d, heff⟩ => ?_⟩
  have hmatch := hhandlers ins hins
  rw [Vm.step, hins]
  show Delivered _ _ (Vm.apply s (effect H ins.op s.ip s.data))
  rw [heff, Vm.apply]
  cases hstack : s.tryStack with
  | nil =>
    rw [hstack] at hmatch
    rw [map_eq_nil_iff.1 hmatch]
    exact ⟨_, _, rfl⟩
  | cons h rest =>
    rw [(hs ins hins).1] at hmatch ⊢
    rw [hstack] at hmatch
    obtain ⟨t, _, _, hopens, hhandler, -, -⟩ := hmatch.of_raise (compile_edges hins).chained
    rw [hopens]
    exact ⟨_, rfl, hhandler⟩

lemma atHome_start (body : Block α κ) (d : Data σ) : AtHome (compileFunction body) (start d) := by
  intro ins hins
  suffices h : ins.place = ⟨[], [], []⟩ by
    rw [h]
    exact ⟨rfl, rfl⟩
  cases body with
  | nil =>
    rw [compileFunction, compile] at hins
    cases hins
    rfl
  | cons s rest =>
    obtain ⟨first, hfirst⟩ := exists_compile_stmt s (Ctx.function : Ctx α κ) 0
    rw [compileFunction, compile, hfirst] at hins
    cases hins
    rfl

/-- **Handler discipline over runs.** In a run whose steps neither jump out of a `try` body nor go
on inside an inlined `finally` copy there, every state reached has exactly the handlers of the `try`
bodies around its instruction, and a raise goes to the innermost. -/
theorem disciplined_of_orderly (H : Host α κ σ) (body : Block α κ) (d : Data σ) (n : Nat)
    (hrun : ∀ s ∈ visited H (compileFunction body) n (start d),
      Orderly H (compileFunction body) s) :
    ∀ s ∈ visited H (compileFunction body) (n + 1) (start d),
    Disciplined H (compileFunction body) s := by
  intro s hs
  exact (visited_invariant (fun _ _ hs hordered hstep => hs.step hordered hstep)
    (atHome_start body d) hrun s hs).disciplined

/-- Code where no jump leaves a `try` body and no `finally` copy stands in one. -/
def isTidy (code : List (Instr α κ)) : Bool :=
  code.all fun ins =>
    ins.place.lexical == ins.place.opens &&
      match ins.op with
      | .jump t => (code[t]?).all fun j => j.place.opens == ins.place.opens
      | _ => true

lemma orderly_of_isTidy (h : isTidy code = true) (s : State σ) : Orderly H code s := by
  have hall : ∀ {i : Nat} {ins : Instr α κ}, code[i]? = some ins → _ := fun hi =>
    (all_eq_true.1 h) _ (mem_of_getElem? hi)
  refine ⟨fun ins t j hins hop hj => ?_, fun s' j _ hj => ?_⟩
  · have h := (Bool.and_eq_true_iff.1 (hall hins)).2
    rw [hop] at h
    simp only [hj, Option.all_some] at h
    exact eq_of_beq h
  · exact eq_of_beq (Bool.and_eq_true_iff.1 (hall hj)).1

/-- `try { throw; } catch (any e) { atom } finally { atom }` in a loop. -/
def retry : Block Unit Unit :=
  .cons (.whileS (.other ())
    (.cons (.tryFinally (.cons (.throwS none) .nil)
      (.catchB none "e" (.cons (.atom ()) .nil) .noCatch)
      (.cons (.atom ()) .nil)) .nil)) .nil

theorem disciplined_retry : (visited yes (compileFunction retry) 21 (start fresh)).length = 21 ∧
      ∀ s ∈ visited yes (compileFunction retry) 21 (start fresh),
      Disciplined yes (compileFunction retry) s :=
  ⟨rfl, disciplined_of_orderly yes retry fresh 20 fun s _ => orderly_of_isTidy (by decide) s⟩

/-- The frame is at an instruction, and so is every handler an error may go to. -/
structure Inside (code : List (Instr α κ)) (s : State σ) : Prop where
  ip : s.ip < code.length
  handlers : ∀ h ∈ s.tryStack, h.catchIp < code.length

lemma lt_of_lands {pending : List Nat} (h : Lands code t pending) : t < code.length := by
  obtain ⟨j, hj, -⟩ := h
  exact (List.getElem?_eq_some_iff.1 hj).1

lemma Inside.step (hs : Inside (compileFunction body) s)
    (hjumps : ∀ ins t, (compileFunction body)[s.ip]? = some ins → ins.op = .jump t →
      ins.escapes = false)
    (hstep : step H (compileFunction body) s = .running s') : Inside (compileFunction body) s' := by
  have hins := List.getElem?_eq_getElem hs.ip
  have hgoes := step_goes (H := H) hins
  rw [hstep] at hgoes
  cases hgoes with
  | on _ htry hnext => exact ⟨lt_of_lands hnext.lands, htry ▸ hs.handlers⟩
  | jumps hop htry hlands => exact ⟨lt_of_lands (hlands (hjumps _ _ hins hop)), htry ▸ hs.handlers⟩
  | closes _ htry hnext =>
    exact ⟨lt_of_lands hnext.lands, htry ▸ fun h hh => hs.handlers h (mem_of_mem_tail hh)⟩
  | opens hop htry hnext =>
    refine ⟨lt_of_lands hnext.lands, ?_⟩
    rw [htry]
    refine forall_mem_cons.2 ⟨?_, hs.handlers⟩
    -- the instruction behind `TryStart` stands under the new handler, whose chain leads back to it
    obtain ⟨j, hj, -, hopens⟩ := hnext
    have hchained := (compile_edges hj).chained
    rw [hopens] at hchained
    obtain ⟨⟨i, c, pending, hi, hop', hcatch⟩, -⟩ := hchained
    cases hins.symm.trans hi
    cases hop.symm.trans hop'
    exact lt_of_lands hcatch.lands
  | caught _ htry hip =>
    have hall := hs.handlers
    rw [htry] at hall
    obtain ⟨hcatch, hrest⟩ := forall_mem_cons.1 hall
    exact ⟨hip ▸ hcatch, hrest⟩

/-- **A run does not leave the code**: if no jump out of an inlined `finally` copy is taken, every
position and every handler is inside, so that a function ends at a `Return` or with an error. -/
theorem inside_of_homeward (H : Host α κ σ) (body : Block α κ) (d : Data σ) (n : Nat)
    (hrun : ∀ s ∈ visited H (compileFunction body) n (start d), ∀ ins t,
      (compileFunction body)[s.ip]? = some ins → ins.op = .jump t → ins.escapes = false) :
    ∀ s ∈ visited H (compileFunction body) (n + 1) (start d), Inside (compileFunction body) s :=
  visited_invariant (fun _ _ hs hjumps hstep => hs.step hjumps hstep)
    ⟨lt_of_lands (compileFunction_part body).2.lands, by simp [start]⟩ hrun

theorem inside_retry : (visited yes (compileFunction retry) 21 (start fresh)).length = 21 ∧
    ∀ s ∈ visited yes (compileFunction retry) 21 (start fresh),
    Inside (compileFunction retry) s := by
  refine ⟨rfl, inside_of_homeward yes retry fresh 20 fun s _ ins t hins _ => ?_⟩
  have h : (compileFunction retry).all fun ins => ins.escapes == false := by decide
  exact eq_of_beq (all_eq_true.1 h _ (mem_of_getElem? hins))

def breakThenThrow : Block Unit Unit :=
  .cons (.whileS (.other ())
    (.cons (.tryS (.cons .breakS .nil) (.catchB none "e" .nil .noCatch)) .nil))
    (.cons (.throwS none) .nil)

/-- **What goes wrong**: the handler is still on the stack behind the loop, and the error raised
there goes to the catch clause at 9, inside the loop. -/
theorem break_leaves_handler : let code := compileFunction breakThenThrow
    let s : State Unit := ⟨17, [⟨9, 0⟩], fresh⟩
    let e : CfmlValue := .string "An error occurred"
    after yes code 7 (start fresh) = .running s ∧ ¬ Disciplined yes code s ∧
      (code[17]?.map fun ins => ins.place.lexical) = some [] ∧ after yes code 10 (start fresh) =
        .running ⟨9, [], { fresh with stack := [e], lastException := some e }⟩ := by
  refine ⟨rfl, fun h => ?_, rfl, rfl⟩
  have hmatch : ([] : List (Option Nat)) = [some 9] := h.handlers _ rfl
  cases hmatch

end

end RustCfml.Vm
