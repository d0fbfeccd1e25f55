import CoercionTrace.Monitor.Hook
import CoercionTrace.Proofs.Computation
import CoercionTrace.Proofs.Instrument.Distinct

/-!
# Running generated code

`Code.eval` runs generated code over the variables of a function. Whatever else runs meanwhile, the
text of the program, getters and setters, conversions and the hooks themselves, answers as it likes or
throws. `Code.sound` finds the temporaries of which members were read, and `Code.Guarded` says that
hooks are told of members of these only. Main statement: in a run of guarded code no hook is given a
nullish base, but at the positions left open (`clear_of_guarded`).
-/

namespace CoercionTrace

def HookMethod.keys : HookMethod → List Nat
  | .assign => [1, 3]
  | .arithmeticCheck => [5, 7]
  | _ => []

structure HookCall where
  method : HookMethod
  arguments : List Code
  values : List Value

structure RunState where
  held : String → Value
  /-- What everything else will answer, in turn. When nothing is left, it throws. -/
  answers : List Value
  calls : List HookCall := []

abbrev Evaluation := Computation RunState Unit

namespace Evaluation

def elsewhere : Evaluation Value := do
  match (← get).answers with
  | [] => throw ()
  | v :: rest =>
    modify fun a => { a with answers := rest }
    return v

def onMember (base : String) : Evaluation Value := do
  if ((← get).held base).isNullish then throw () else elsewhere

def keep (v : Value) : Code → Evaluation Unit
  | .variable _ x => modify fun a => { a with held := fun y => if y = x then v else a.held y }
  | .access _ base _ => discard (onMember base)
  | _ => discard elsewhere

def log (call : HookCall) : Evaluation Unit := modify fun a => { a with calls := a.calls ++ [call] }

end Evaluation

open Evaluation

namespace Code

mutual

/-- Run an expression. What the text of a node stores, and the hooks that it calls, belong to the code
that replaced parts of that text. -/
def eval : Code → Evaluation Value
  | .splice _ _ => elsewhere
  | .name _ => elsewhere
  | .identifier _ _ => elsewhere
  | .variable _ x => return (← get).held x
  | .quoted text => return .text text
  | .null => return .null
  | .void => return .undefined
  | .index i => return .number (Number.ofNat i)
  | .access _ base _ => onMember base
  | .store target value => do
    let v ← eval value
    keep v target
    return v
  | .operation _ left right => do
    let _ ← eval left
    let _ ← eval right
    elsewhere
  | .hook _ method arguments => do
    let values ← evalAll arguments
    log ⟨method, arguments, values⟩
    elsewhere
  | .list elements => do
    let _ ← evalAll elements
    elsewhere
  | .sequence parts => return (← evalAll parts).getLastD .undefined

def evalAll : List Code → Evaluation (List Value)
  | [] => return []
  | c :: rest => do
    let v ← eval c
    let vs ← evalAll rest
    return v :: vs

end

/-- The temporaries that hold no nullish value after a store, for members of theirs were read. -/
def settle (known : List String) : Code → List String
  | .variable _ x => known.filter (· ≠ x)
  | .access _ base _ => base :: known
  | _ => known

mutual

def sound : Code → List String → List String
  | .access _ base _, known => base :: known
  | .store target value, known => target.settle (sound value known)
  | .operation _ left right, known => sound right (sound left known)
  | .hook _ _ arguments, known => soundAll arguments known
  | .list elements, known => soundAll elements known
  | .sequence parts, known => soundAll parts known
  | _, known => known

def soundAll : List Code → List String → List String
  | [], known => known
  | c :: rest, known => soundAll rest (sound c known)

end

mutual

/-- Hooks get members by a key only after they were read, or at a position that is left open. -/
def Guarded (openAt : Nat → Prop) : Code → List String → Prop
  | .store _ value, known => Guarded openAt value known
  | .operation _ left right, known => Guarded openAt left known ∧ Guarded openAt right (sound left known)
  | .hook _ method arguments, known => GuardedAll openAt arguments known ∧
    ∀ i ∈ method.keys, ∀ base, arguments[i]? = some (.variable .temporary base) →
      openAt i ∨ (base ∈ soundAll arguments known ∧ base ∉ storedAll arguments)
  | .list elements, known => GuardedAll openAt elements known
  | .sequence parts, known => GuardedAll openAt parts known
  | _, _ => True

def GuardedAll (openAt : Nat → Prop) : List Code → List String → Prop
  | [], _ => True
  | c :: rest, known => Guarded openAt c known ∧ GuardedAll openAt rest (sound c known)

end

variable {openAt : Nat → Prop}

theorem soundAll_append (a b : List Code) (known : List String) :
    soundAll (a ++ b) known = soundAll b (soundAll a known) := by
  induction a generalizing known with
  | nil => rfl
  | cons c rest ih => exact ih _

theorem guardedAll_append {a b : List Code} {known : List String} :
    GuardedAll openAt (a ++ b) known ↔
      GuardedAll openAt a known ∧ GuardedAll openAt b (soundAll a known) := by
  induction a generalizing known with
  | nil => simp [GuardedAll, soundAll]
  | cons c rest ih => simp [GuardedAll, soundAll, ih, and_assoc]

theorem guarded_after {preamble : List Code} {c : Code} {known : List String} :
    Guarded openAt (c.after preamble) known ↔
      GuardedAll openAt preamble known ∧ Guarded openAt c (soundAll preamble known) := by
  cases preamble with
  | nil => simp [after, GuardedAll, soundAll]
  | cons d rest =>
    change GuardedAll openAt (d :: rest ++ [c]) known ↔ _
    rw [guardedAll_append]
    simp [GuardedAll]

theorem mem_settle {x : String} {known : List String} (h : x ∈ known) {target : Code}
    (hx : x ∉ target.destination) : x ∈ target.settle known := by
  unfold settle
  split
  · next y =>
    have hne : x ≠ y := by simpa using hx
    simpa [hne] using h
  · exact List.mem_cons_of_mem _ h
  · exact h

mutual

theorem mem_sound {x : String} : ∀ (c : Code) {known : List String}, x ∈ known → x ∉ c.stored →
    x ∈ sound c known
  | .splice _ _, _, h, _ | .name _, _, h, _ | .identifier _ _, _, h, _ | .variable _ _, _, h, _
  | .quoted _, _, h, _ | .null, _, h, _ | .void, _, h, _ | .index _, _, h, _ => h
  | .access _ _ _, _, h, _ => List.mem_cons_of_mem _ h
  | .store target value, _, h, hx => by
    simp only [stored, List.mem_append, not_or] at hx
    exact mem_settle (mem_sound value h hx.1) hx.2
  | .operation _ left right, _, h, hx => by
    simp only [stored, List.mem_append, not_or] at hx
    exact mem_sound right (mem_sound left h hx.1) hx.2
  | .hook _ _ arguments, _, h, hx => mem_soundAll arguments h hx
  | .list elements, _, h, hx => mem_soundAll elements h hx
  | .sequence parts, _, h, hx => mem_soundAll parts h hx

theorem mem_soundAll {x : String} : ∀ (cs : List Code) {known : List String}, x ∈ known →
    x ∉ storedAll cs → x ∈ soundAll cs known
  | [], _, h, _ => h
  | c :: rest, _, h, hx => by
    simp only [storedAll, List.mem_append, not_or] at hx
    exact mem_soundAll rest (mem_sound c h hx.1) hx.2

end

end Code

def Retains (x : String) (a a' : RunState) : Prop := a'.held x = a.held x

instance (x : String) : IsPreorder RunState (Retains x) where
  refl _ := rfl
  trans _ _ _ h h' := h'.trans h

namespace Evaluation

variable {R : RunState → RunState → Prop} {a a' : RunState} {v : Value} {base : String}

theorem leads_elsewhere [Std.Refl R] (hR : ∀ rest, R a { a with answers := rest }) :
    Leads R elsewhere a := by
  refine Leads.get_bind ?_
  split
  · exact Leads.throw ()
  · exact hR _

theorem leads_onMember [Std.Refl R] (hR : ∀ rest, R a { a with answers := rest }) :
    Leads R (onMember base) a := by
  refine Leads.get_bind ?_
  split
  · exact Leads.throw ()
  · exact leads_elsewhere hR

theorem leads_keep [IsPreorder RunState R] {target : Code} (hR : ∀ rest, R a { a with answers := rest })
    (hstore : ∀ x ∈ target.destination, R a { a with held := fun y => if y = x then v else a.held y }) :
    Leads R (keep v target) a := by
  have hdiscard : ∀ {x : Evaluation Value}, Leads R x a → Leads R (discard x) a :=
    fun hx => Leads.bind hx fun _ _ _ => Leads.pure ()
  unfold keep
  split
  · next use x => exact hstore x List.mem_cons_self
  · exact hdiscard (leads_onMember hR)
  · exact hdiscard (leads_elsewhere hR)

end Evaluation

namespace Code

mutual

theorem eval_retains {x : String} : ∀ (c : Code) (a : RunState), x ∉ c.stored →
    Leads (Retains x) (eval c) a
  | .splice _ _, _, _ | .name _, _, _ | .identifier _ _, _, _ => leads_elsewhere fun _ => rfl
  | .variable _ _, _, _ | .quoted _, _, _ | .null, _, _ | .void, _, _ | .index _, _, _ => rfl
  | .access _ _ _, _, _ => leads_onMember fun _ => rfl
  | .store target value, a, h => by
    simp only [stored, List.mem_append, not_or] at h
    refine (eval_retains value a h.1).bind fun v u _ => Leads.bind ?_ fun _ _ _ => Leads.pure v
    refine leads_keep (fun _ => rfl) fun y hy => if_neg ?_
    rintro rfl
    exact h.2 hy
  | .operation _ left right, a, h => by
    simp only [stored, List.mem_append, not_or] at h
    exact (eval_retains left a h.1).bind fun _ u _ => (eval_retains right u h.2).bind fun _ _ _ =>
      leads_elsewhere fun _ => rfl
  | .hook _ _ arguments, a, h => (evalAll_retains arguments a h).bind fun _ _ _ =>
    Leads.bind rfl fun _ _ _ => leads_elsewhere fun _ => rfl
  | .list elements, a, h => (evalAll_retains elements a h).bind fun _ _ _ =>
    leads_elsewhere fun _ => rfl
  | .sequence parts, a, h => (evalAll_retains parts a h).bind fun _ _ _ => Leads.pure _

theorem evalAll_retains {x : String} : ∀ (cs : List Code) (a : RunState), x ∉ storedAll cs →
    Leads (Retains x) (evalAll cs) a
  | [], _, _ => rfl
  | c :: rest, a, h => by
    simp only [storedAll, List.mem_append, not_or] at h
    exact (eval_retains c a h.1).bind fun _ u _ => (evalAll_retains rest u h.2).bind fun _ _ _ =>
      Leads.pure _

end

end Code

def RunState.Holds (a : RunState) (known : List String) : Prop :=
  ∀ x ∈ known, (a.held x).isNullish = false

namespace Evaluation

variable {a a' : RunState} {v : Value} {base : String} {known : List String}

theorem held_of_elsewhere (h : Yields elsewhere a v a') : a'.held = a.held := by
  replace h := Yields.get_bind_iff.1 h
  split at h
  · exact (Yields.not_throw h).elim
  · cases h
    rfl

theorem held_of_onMember (h : Yields (onMember base) a v a') :
    (a.held base).isNullish = false ∧ a'.held = a.held := by
  replace h := Yields.get_bind_iff.1 h
  split at h
  · exact (Yields.not_throw h).elim
  · next hbase => exact ⟨by simpa using hbase, held_of_elsewhere h⟩

theorem holds_of_onMember (h : Yields (onMember base) a v a') (ha : a.Holds known) :
    a'.Holds (base :: known) := by
  obtain ⟨hbase, hheld⟩ := held_of_onMember h
  rw [RunState.Holds, hheld]
  exact List.forall_mem_cons.2 ⟨hbase, ha⟩

theorem holds_of_elsewhere (h : Yields elsewhere a v a') (ha : a.Holds known) : a'.Holds known := by
  rw [RunState.Holds, held_of_elsewhere h]
  exact ha

theorem holds_of_keep {target : Code} {u : Unit} (h : Yields (keep v target) a u a')
    (ha : a.Holds known) : a'.Holds (target.settle known) := by
  unfold keep at h
  split at h
  · next x =>
    obtain rfl := Yields.modify_iff.1 h
    intro y hy
    obtain ⟨hy, hne⟩ := List.mem_filter.1 hy
    simpa [of_decide_eq_true hne] using ha y hy
  · obtain ⟨_, h⟩ := Yields.discard_iff.1 h
    exact holds_of_onMember h ha
  · next hvariable haccess =>
    obtain ⟨_, h⟩ := Yields.discard_iff.1 h
    rw [Code.settle.eq_3 _ _ hvariable haccess]
    exact holds_of_elsewhere h ha

end Evaluation

namespace Code

variable {a a' : RunState} {known : List String}

mutual

theorem eval_holds : ∀ (c : Code) {a a' : RunState} {known : List String} {v : Value},
    Yields (eval c) a v a' → a.Holds known → a'.Holds (sound c known)
  | .splice _ _, _, _, _, _, h, ha | .name _, _, _, _, _, h, ha | .identifier _ _, _, _, _, _, h, ha =>
    holds_of_elsewhere h ha
  | .variable _ _, _, _, _, _, h, ha | .quoted _, _, _, _, _, h, ha | .null, _, _, _, _, h, ha
  | .void, _, _, _, _, h, ha | .index _, _, _, _, _, h, ha => by
    cases h
    exact ha
  | .access _ _ _, _, _, _, _, h, ha => holds_of_onMember h ha
  | .store target value, _, _, _, _, h, ha => by
    obtain ⟨w, u, hvalue, h⟩ := Yields.bind_iff.1 h
    obtain ⟨_, u', hkeep, h⟩ := Yields.bind_iff.1 h
    obtain ⟨-, rfl⟩ := Yields.pure_iff.1 h
    exact holds_of_keep hkeep (eval_holds value hvalue ha)
  | .operation _ left right, _, _, _, _, h, ha => by
    obtain ⟨_, u, hleft, h⟩ := Yields.bind_iff.1 h
    obtain ⟨_, u', hright, h⟩ := Yields.bind_iff.1 h
    exact holds_of_elsewhere h (eval_holds right hright (eval_holds left hleft ha))
  | .hook _ _ arguments, _, _, _, _, h, ha => by
    obtain ⟨_, u, harguments, h⟩ := Yields.bind_iff.1 h
    obtain ⟨_, u', hlog, h⟩ := Yields.bind_iff.1 h
    obtain rfl := Yields.modify_iff.1 hlog
    have hu := evalAll_holds arguments harguments ha
    exact holds_of_elsewhere h hu
  | .list elements, _, _, _, _, h, ha => by
    obtain ⟨_, u, helements, h⟩ := Yields.bind_iff.1 h
    exact holds_of_elsewhere h (evalAll_holds elements helements ha)
  | .sequence parts, _, _, _, _, h, ha => by
    obtain ⟨_, u, hparts, h⟩ := Yields.bind_iff.1 h
    obtain ⟨-, rfl⟩ := Yields.pure_iff.1 h
    exact evalAll_holds parts hparts ha

theorem evalAll_holds : ∀ (cs : List Code) {a a' : RunState} {known : List String}
    {vs : List Value}, Yields (evalAll cs) a vs a' → a.Holds known → a'.Holds (soundAll cs known)
  | [], _, _, _, _, h, ha => by
    obtain ⟨-, rfl⟩ := Yields.pure_iff.1 h
    exact ha
  | c :: rest, _, _, _, _, h, ha => by
    obtain ⟨_, u, hc, h⟩ := Yields.bind_iff.1 h
    obtain ⟨_, u', hrest, h⟩ := Yields.bind_iff.1 h
    obtain ⟨-, rfl⟩ := Yields.pure_iff.1 h
    exact evalAll_holds rest hrest (eval_holds c hc ha)

end

/-- An argument that is a variable is passed as what the variable holds in the end, if none of the
arguments stores to it. -/
theorem value_of_variable {cs : List Code} {vs : List Value} {i : Nat} {use : NameUse} {x : String}
    (h : Yields (evalAll cs) a vs a') (hi : cs[i]? = some (.variable use x)) (hx : x ∉ storedAll cs) :
    vs[i]? = some (a'.held x) := by
  induction cs generalizing a vs i with
  | nil => cases hi
  | cons c rest ih =>
    obtain ⟨v, u, hc, h⟩ := Yields.bind_iff.1 h
    obtain ⟨ws, u', hrest, h⟩ := Yields.bind_iff.1 h
    obtain ⟨rfl, rfl⟩ := Yields.pure_iff.1 h
    simp only [storedAll, List.mem_append, not_or] at hx
    cases i with
    | zero =>
      obtain rfl := Option.some.inj hi
      cases hc
      exact congrArg some ((evalAll_retains rest _ hx.2).after hrest).symm
    | succ i =>
      have hvalue := ih (i := i) hrest hi hx.2
      exact hvalue

end Code

/-- Where the call names a member by a key, the base of the member is not nullish, or the position is
left open. -/
def HookCall.Clear (openAt : Nat → Prop) (call : HookCall) : Prop :=
  ∀ i ∈ call.method.keys, ∀ base, call.arguments[i]? = some (.variable .temporary base) →
    openAt i ∨ (Monitor.keyArgument call.values i).scope.isNullish = false

def Logs (openAt : Nat → Prop) (a a' : RunState) : Prop :=
  ∀ call ∈ a'.calls, call ∈ a.calls ∨ call.Clear openAt

instance (openAt : Nat → Prop) : IsPreorder RunState (Logs openAt) where
  refl _ _ := .inl
  trans _ _ _ h h' call hcall := (h' call hcall).elim (h call) .inr

namespace Code

variable {openAt : Nat → Prop}

mutual

theorem eval_logs : ∀ (c : Code) {a : RunState} {known : List String}, Guarded openAt c known →
    a.Holds known → Leads (Logs openAt) (eval c) a
  | .splice _ _, _, _, _, _ | .name _, _, _, _, _ | .identifier _ _, _, _, _, _ =>
    leads_elsewhere fun _ _ => .inl
  | .variable _ _, _, _, _, _ | .quoted _, _, _, _, _ | .null, _, _, _, _ | .void, _, _, _, _
  | .index _, _, _, _, _ => fun _ => .inl
  | .access _ _ _, _, _, _, _ => leads_onMember fun _ _ => .inl
  | .store target value, _, _, hg, ha => (eval_logs value hg ha).bind fun v u _ =>
    Leads.bind (leads_keep (fun _ _ => .inl) fun _ _ _ => .inl) fun _ _ _ => Leads.pure v
  | .operation _ left right, _, _, hg, ha => (eval_logs left hg.1 ha).bind fun _ _ hleft =>
    (eval_logs right hg.2 (eval_holds left hleft ha)).bind fun _ _ _ =>
      leads_elsewhere fun _ _ => .inl
  | .hook _ method arguments, a, known, hg, ha => by
    refine (evalAll_logs arguments hg.1 ha).bind fun values u harguments => ?_
    refine Leads.bind ?_ fun _ _ _ => leads_elsewhere fun _ _ => .inl
    intro call hcall
    refine (List.mem_append.1 hcall).imp_right fun hnew => ?_
    obtain rfl := List.mem_singleton.1 hnew
    intro i hi base hbase
    refine (hg.2 i hi base hbase).imp_right fun ⟨hsound, hstored⟩ => ?_
    have hvalue := value_of_variable harguments hbase hstored
    rw [Monitor.keyArgument, Monitor.argument, List.getD_eq_getElem?_getD, hvalue]
    exact evalAll_holds arguments harguments ha base hsound
  | .list elements, _, _, hg, ha => (evalAll_logs elements hg ha).bind fun _ _ _ =>
    leads_elsewhere fun _ _ => .inl
  | .sequence parts, _, _, hg, ha => (evalAll_logs parts hg ha).bind fun _ _ _ => Leads.pure _

theorem evalAll_logs : ∀ (cs : List Code) {a : RunState} {known : List String},
    GuardedAll openAt cs known → a.Holds known → Leads (Logs openAt) (evalAll cs) a
  | [], _, _, _, _ => Leads.pure _
  | c :: rest, _, _, hg, ha => (eval_logs c hg.1 ha).bind fun _ _ hc =>
    (evalAll_logs rest hg.2 (eval_holds c hc ha)).bind fun _ _ _ => Leads.pure _

end

def hookCalls (cs : List Code) (held : String → Value) (answers : List Value) : List HookCall :=
  ((evalAll cs).run { held, answers }).2.calls

theorem clear_of_guarded {cs : List Code} (h : GuardedAll openAt cs []) {held : String → Value}
    {answers : List Value} : ∀ call ∈ hookCalls cs held answers, call.Clear openAt := fun call hcall =>
  (evalAll_logs cs h (by simp [RunState.Holds]) call hcall).resolve_left (by simp)

end Code

end CoercionTrace
