import RustCfml.Codegen.CompileEdges
import RustCfml.Vm.Machine

/-!
# Runs of a frame

`after` is the status `n` turns of the loop later and `visited` lists the states whose
instruction those turns execute. `Moves` says once what an operation can do to the position
and the handlers; with `compile_edges` it gives `step_cases`, **all the ways a step of compiled
code can go**, and the properties of runs are read off from that.
-/

namespace RustCfml.Vm

open Codegen List

section

variable {α κ σ : Type} (H : Host α κ σ) (code : List (Instr α κ))

def after : Nat → State σ → Status σ
  | 0, s => .running s
  | n + 1, s =>
    match step H code s with
    | .running s' => after n s'
    | ended => ended

def visited : Nat → State σ → List (State σ)
  | 0, _ => []
  | n + 1, s =>
    s :: match step H code s with
      | .running s' => visited n s'
      | _ => []

/-- A call starts at the first instruction, with no handler of its own. -/
def start (d : Data σ) : State σ := ⟨0, [], d⟩

lemma after_add (n m : Nat) (s : State σ) : after H code (n + m) s =
      match after H code n s with
      | .running s' => after H code m s'
      | ended => ended := by
  induction n generalizing s with
  | zero => rw [Nat.zero_add, after]
  | succ n ih =>
    rw [Nat.add_right_comm, after, after]
    cases step H code s with
    | running s' => exact ih s'
    | returned v d | failed e d => rfl

lemma visited_add (n m : Nat) (s : State σ) : visited H code (n + m) s = visited H code n s ++
        match after H code n s with
        | .running s' => visited H code m s'
        | _ => [] := by
  induction n generalizing s with
  | zero => rw [Nat.zero_add, visited, after, nil_append]
  | succ n ih =>
    rw [Nat.add_right_comm, visited, visited, after]
    cases step H code s with
    | running s' => exact congrArg (s :: ·) (ih s')
    | returned v d | failed e d => rfl

lemma after_one (s : State σ) : after H code 1 s = step H code s := by
  simp only [after]
  cases step H code s <;> rfl

lemma visited_one (s : State σ) : visited H code 1 s = [s] := by
  simp only [visited]
  cases step H code s <;> rfl

lemma after_succ (n : Nat) (s : State σ) : after H code (n + 1) s =
      match after H code n s with
      | .running s' => step H code s'
      | ended => ended := by
  rw [after_add]
  cases after H code n s with
  | running s' => exact after_one H code s'
  | returned v d | failed e d => rfl

lemma visited_succ (n : Nat) (s : State σ) : visited H code (n + 1) s = visited H code n s ++
        match after H code n s with
        | .running s' => [s']
        | _ => [] := by
  rw [visited_add]
  cases after H code n s with
  | running s' => exact congrArg (_ ++ ·) (visited_one H code s')
  | returned v d | failed e d => rfl

lemma visited_invariant {H : Host α κ σ} {code : List (Instr α κ)} {P G : State σ → Prop}
    (hstep : ∀ s s', P s → G s → step H code s = .running s' → P s') :
    ∀ {n : Nat} {s : State σ}, P s → (∀ r ∈ visited H code n s, G r) →
    ∀ r ∈ visited H code (n + 1) s, P r := by
  intro n
  induction n with
  | zero =>
    intro s hs _ r hr
    rw [visited] at hr
    rcases mem_cons.1 hr with rfl | hr
    · exact hs
    · split at hr <;> cases hr
  | succ n ih =>
    intro s hs hguard r hr
    rw [visited] at hr hguard
    rcases mem_cons.1 hr with rfl | hr
    · exact hs
    · have hg := hguard s mem_cons_self
      split at hr
      · next s' hs' =>
        rw [hs'] at hguard
        exact ih (hstep s s' hs hg hs') (forall_mem_cons.1 hguard).2 r hr
      · cases hr

inductive Moves (op : Op α κ) (ip : Nat) : Effect σ → Prop where
  | next {d : Data σ} : op.falls = true → op.isPlain = true → Moves op ip (.goto (ip + 1) d)
  | branch {t : Nat} {d : Data σ} : t ∈ op.branches → Moves op ip (.goto t d)
  | jump {t : Nat} {d : Data σ} : op = .jump t → Moves op ip (.goto t d)
  | opens {c : Nat} {d : Data σ} : op = .tryStart c → Moves op ip (.openHandler c d)
  | closes {d : Data σ} : op = .tryEnd → Moves op ip (.closeHandler d)
  | raises {e : CfmlValue} {d : Data σ} : op.isPlain = true → Moves op ip (.raise e d)
  | returns {v : CfmlValue} {d : Data σ} : op = .ret → Moves op ip (.finish v d)

variable {H} {op : Op α κ} {ip : Nat}

variable {d : Data σ} {t : Nat} {s : State σ} {ins : Instr α κ}

section

variable (hfalls : op.falls = true) (hplain : op.isPlain = true)
include hfalls hplain

lemma moves_pushOrRaise {r : Except CfmlValue CfmlValue} : Moves op ip (pushOrRaise ip d r) := by
  cases r with
  | ok v => exact .next hfalls hplain
  | error e => exact .raises hplain

lemma moves_stepVar {x : Var} {k : Int64} : Moves op ip (stepVar H ip d x k) := by
  unfold stepVar
  split
  · exact .next hfalls hplain
  · exact .raises hplain

lemma moves_ite {p : Prop} [Decidable p] (ht : t ∈ op.branches) :
    Moves op ip (.goto (if p then t else ip + 1) d) := by
  split
  · exact .branch ht
  · exact .next hfalls hplain

lemma moves_branch {jumpsOn : Bool} (ht : t ∈ op.branches) :
    Moves op ip (branch H ip t d jumpsOn) := by
  unfold branch
  split
  · exact .next hfalls hplain
  · split
    · exact moves_ite hfalls hplain ht
    · exact .raises hplain

end

lemma moves_effect (op : Op α κ) (ip : Nat) (d : Data σ) : Moves op ip (effect H op ip d) := by
  cases op with
  | exec a =>
    rw [effect]
    split
    · exact .next rfl rfl
    · exact .raises rfl
  | eval e | arith op | or => exact moves_pushOrRaise rfl rfl
  | loadLocal x =>
    cases x with
    | named name =>
      rw [effect]
      split
      · exact .next rfl rfl
      · exact .raises rfl
    | _ => exact .next rfl rfl
  | increment x | decrement x | addLocalConst x k => exact moves_stepVar rfl rfl
  | jump t => exact .jump rfl
  | jumpIfFalse t | jumpIfTrue t => exact moves_branch rfl rfl mem_cons_self
  | jumpIfLocalCmpConstFalse name c op t =>
    rw [effect]
    split
    · exact .next rfl rfl
    · exact .branch mem_cons_self
  | forLoopStep name limit op step t => exact moves_ite rfl rfl mem_cons_self
  | forInStep t =>
    rw [effect]
    split
    · exact .branch mem_cons_self
    · exact .next rfl rfl
    · exact .raises rfl
  | tryStart c => exact .opens rfl
  | tryEnd => exact .closes rfl
  | throw | rethrow => exact .raises rfl
  | ret => exact .returns rfl
  | restoreException | setLastExceptionFromLocal x =>
    rw [effect]
    split <;> exact .next rfl rfl
  | _ => exact .next rfl rfl

def Raises (H : Host α κ σ) (s : State σ) (ins : Instr α κ) : Prop :=
  ∃ e d, effect H ins.op s.ip s.data = .raise e d

inductive Goes (H : Host α κ σ) (code : List (Instr α κ)) (s : State σ) (ins : Instr α κ) :
    Status σ → Prop where
  | on {s' : State σ} : ins.op.isPlain = true → s'.tryStack = s.tryStack →
      Enters code s'.ip ins.place.pending ins.place.opens → Goes H code s ins (.running s')
  | jumps {s' : State σ} : ins.op = .jump s'.ip → s'.tryStack = s.tryStack →
      (ins.escapes = false → Lands code s'.ip ins.place.pending) → Goes H code s ins (.running s')
  | opens {s' : State σ} {h : Handler} : ins.op = .tryStart h.catchIp →
      s'.tryStack = h :: s.tryStack →
      Enters code s'.ip ins.place.pending (s.ip :: ins.place.opens) →
        Goes H code s ins (.running s')
  | closes {s' : State σ} : ins.op = .tryEnd → s'.tryStack = s.tryStack.tail →
      Enters code s'.ip ins.place.pending ins.place.opens.tail → Goes H code s ins (.running s')
  | caught {s' : State σ} {h : Handler} : Raises H s ins → s.tryStack = h :: s'.tryStack →
      s'.ip = h.catchIp → Goes H code s ins (.running s')
  | uncaught {e : CfmlValue} {d : Data σ} : Raises H s ins → s.tryStack = [] →
      Goes H code s ins (.failed e d)
  | returns {v : CfmlValue} {d : Data σ} : ins.op = .ret →
      (ins.escapes = false → ins.place.pending = []) → Goes H code s ins (.returned v d)

lemma opensAfter_of_isPlain {op : Op α κ} (h : op.isPlain = true) (i : Nat) (opens : List Nat) :
    op.opensAfter i opens = opens := by
  cases op <;> first | rfl | cases h

lemma isPlain_of_branches {op : Op α κ} (h : t ∈ op.branches) : op.isPlain = true := by
  cases op <;> first | rfl | cases h

lemma Raises.isPlain (h : Raises H s ins) : ins.op.isPlain = true := by
  obtain ⟨e, d, heff⟩ := h
  have hmoves : Moves ins.op s.ip (effect H ins.op s.ip s.data) := moves_effect _ _ _
  rw [heff] at hmoves
  cases hmoves with
  | raises hplain => exact hplain

lemma goes_raise {code : List (Instr α κ)} {e : CfmlValue}
    (heff : effect H ins.op s.ip s.data = .raise e d) :
    Goes H code s ins (apply s (.raise e d)) := by
  rw [apply]
  split
  · next h => exact .uncaught ⟨e, d, heff⟩ h
  · next h => exact .caught ⟨e, d, heff⟩ h rfl

lemma step_goes {body : Block α κ} (hins : (compileFunction body)[s.ip]? = some ins) :
    Goes H (compileFunction body) s ins (step H (compileFunction body) s) := by
  have hedges := compile_edges hins
  have hstep :
    step H (compileFunction body) s = apply s (effect H ins.op s.ip s.data) := by rw [step, hins]
  have hmoves : Moves ins.op s.ip (effect H ins.op s.ip s.data) := moves_effect _ _ _
  rw [hstep]
  cases heff : effect H ins.op s.ip s.data with
  | raise e d => exact goes_raise heff
  | finish v d =>
    rw [heff] at hmoves
    cases hmoves with
    | returns hop => exact .returns hop (hedges.returns hop)
  | openHandler c d =>
    rw [heff] at hmoves
    cases hmoves with
    | opens hop =>
      have hfalls := hedges.falls (by rw [hop]; rfl)
      rw [hop] at hfalls
      exact .opens (h := ⟨c, d.stack.length⟩) hop rfl hfalls
  | closeHandler d =>
    rw [heff] at hmoves
    cases hmoves with
    | closes hop =>
      have hfalls := hedges.falls (by rw [hop]; rfl)
      rw [hop] at hfalls
      exact .closes hop rfl hfalls
  | goto t d =>
    rw [heff] at hmoves
    cases hmoves with
    | next hfalls hplain =>
      have h := hedges.falls hfalls
      rw [opensAfter_of_isPlain hplain] at h
      exact .on hplain rfl h
    | branch ht => exact .on (isPlain_of_branches ht) rfl (hedges.branches t ht)
    | jump hop => exact .jumps hop rfl (hedges.jumps t hop)

/-- A host for closed examples: every condition is true and no atomic statement fails. -/
def yes : Host Unit Unit Unit where
  exec _ w := (w, none)
  eval _ w := (w, .ok (.bool true))
  toCondition _ := .ok true
  compare _ _ _ := true
  arith _ _ _ := .ok .null
  numericStep _ _ := .ok .null
  forStep _ _ := .null
  undefined _ := .null
  wrap v := v
  noException := .null
  catches _ _ := true
  forInPrepare v w := (w, v)
  iterLen _ _ := .null
  forInElement _ _ w := (w, .ok none)
  forInExit _ w := w

def fresh : Data Unit := ⟨[], [], ⟨[], ()⟩, none, []⟩

end

end RustCfml.Vm
