import CoercionTrace.Proofs.Trace.Course

/-!
# Tracers under any use

A tracer takes whatever it is asked, in any order and with any keys, and goes on after a failure. Main
statements: a record or the end of a call that fails changes nothing, but a call that cannot be
entered has used up its announcement and keeps what it made known until then (`failure_effects`); the
global table only grows, and shows something else only at the places that an operation is about, or
those of calls that run (`table_grows`).
-/

namespace CoercionTrace

namespace Tracer

inductive Operation
  | record (target : TraceKey) (value : Value) (source : TraceKey)
  | pushFrame (parameters : List (Option String)) (captured : List String)
  | popFrame
  | announce (arguments : Nat)
  | clearPending
  | clearReturn
  | identify
  deriving DecidableEq

def perform (t : Tracer) : Operation → Tracer
  | .record target value source => ((Tracer.record target value source).run t).2
  | .pushFrame parameters captured => ((Tracer.pushFrame parameters captured).run t).2
  | .popFrame => (Tracer.popFrame.run t).2
  | .announce arguments => t.announce arguments
  | .clearPending => t.clearPending
  | .clearReturn => t.clearReturn
  | .identify => { t with nextId := t.nextId + 1 }

def after (ops : List Operation) : Tracer := ops.foldl perform start

theorem after_append (ops later : List Operation) :
    after (ops ++ later) = later.foldl perform (after ops) :=
  List.foldl_append

inductive Performs (t : Tracer) : Operation → Tracer → Prop
  | recorded {target source : TraceKey} {value : Value} {t' : Tracer} :
      Recorded t target value source t' → Performs t (.record target value source) t'
  | unrecorded {target source : TraceKey} {value : Value} :
      Performs t (.record target value source) t
  | entered {parameters : List (Option String)} {captured : List String} :
      t.stack.top.pendingArguments = none →
      Performs t (.pushFrame parameters captured) (t.begun .empty t.global)
  | bound {parameters : List (Option String)} {captured : List String} {n : Nat}
      {entries : Table Slot TraceItem} {g : Table TraceKey TraceItem} :
      t.stack.top.pendingArguments = some n → t.Binds n captured parameters entries g →
      Performs t (.pushFrame parameters captured) (t.begun entries g)
  | stopped {parameters : List (Option String)} {captured : List String} {n : Nat} {e : TraceError}
      {g : Table TraceKey TraceItem} :
      t.stack.top.pendingArguments = some n → t.Stops n captured parameters e g →
      Performs t (.pushFrame parameters captured) (t.taken g)
  | left {t' : Tracer} : Left t t' → Performs t .popFrame t'
  | stayed : Performs t .popFrame t
  | announced (arguments : Nat) : Performs t (.announce arguments) (t.announce arguments)
  | withdrawn : Performs t .clearPending t.clearPending
  | forgotten : Performs t .clearReturn t.clearReturn
  | identified : Performs t .identify { t with nextId := t.nextId + 1 }

variable {t t' : Tracer} {op : Operation}

theorem performs (t : Tracer) (op : Operation) : Performs t op (t.perform op) := by
  cases op with
  | record target value source =>
    rcases Computation.yields_or_fails (record target value source) t with ⟨_, hy⟩ | ⟨e, hf⟩
    · exact .recorded (recorded_of_yields hy)
    · rw [perform, eq_of_record_fails hf]
      exact .unrecorded
  | pushFrame parameters captured =>
    rw [perform]
    rcases t.pushFrame_outcome parameters captured with
      ⟨hpending, hy⟩ | ⟨n, hpending, ⟨entries, g, hbinds, hy⟩ | ⟨e, g, hstops, hf⟩⟩
    · rw [hy.run]
      exact .entered hpending
    · rw [hy.run]
      exact .bound hpending hbinds
    · rw [hf]
      exact .stopped hpending hstops
  | popFrame =>
    rcases Computation.yields_or_fails popFrame t with ⟨_, hy⟩ | ⟨e, hf⟩
    · exact .left (left_of_yields hy)
    · rw [perform, eq_of_popFrame_fails hf]
      exact .stayed
  | announce arguments => exact .announced arguments
  | clearPending => exact .withdrawn
  | clearReturn => exact .forgotten
  | identify => exact .identified

/-- What is left of an operation that fails. A record and the end of a call leave nothing. A call that
cannot be entered was announced, and is no longer. It has taken an identity, and the table is that of
the call with the parameters before the one whose argument could not be followed. -/
theorem failure_effects (t : Tracer) :
    (∀ target value source e t', Fails (record target value source) t e t' → t' = t) ∧
    (∀ e t', Fails popFrame t e t' → t' = t) ∧
    ∀ parameters captured e t', Fails (pushFrame parameters captured) t e t' →
      t'.stack = t.clearPending.stack ∧ t'.stack ≠ t.stack ∧ t'.nextId = t.nextId + 1 ∧
      ∃ before name after, parameters = before ++ some name :: after ∧ name ∈ captured ∧
        t.clearPending.stack.chase (.argument before.length) = .error e ∧
        ∃ entries, Yields (pushFrame before captured) t t.nextId (t.begun entries t'.global) := by
  refine ⟨fun _ _ _ _ _ => eq_of_record_fails, fun _ _ => eq_of_popFrame_fails, ?_⟩
  intro parameters captured e t' h
  rcases t.pushFrame_outcome parameters captured with
    ⟨-, hy⟩ | ⟨n, hpending, ⟨entries, g, -, hy⟩ | ⟨e', g, hstops, hf⟩⟩
  · exact (hy.not_fails h).elim
  · exact (hy.not_fails h).elim
  · obtain ⟨rfl, rfl⟩ := hf.unique h
    obtain ⟨before, name, after, entries, item, rfl, hcaptured, hbinds, -, -, hchase⟩ := hstops
    refine ⟨rfl, fun hstack => ?_, rfl, before, name, after, rfl, hcaptured, hchase, entries,
      hbinds.yields_pushFrame hpending⟩
    have htop := congrArg (fun s => s.top.pendingArguments) hstack
    rw [hpending] at htop
    cases htop

/-- Two arguments are announced, and the frame in which the program began has the second from its own
caller. The first went to the table when the call was given up. -/
theorem failure_effects_secondArgument :
    let t := after [.record (.here (.argument 0)) (.number .nan) .untraced,
      .record (.here (.argument 1)) (.number .nan) (.here (.argument 1)), .announce 2]
    ∃ e t', Fails (pushFrame [some "p", some "q"] ["p", "q"]) t e t' ∧ t'.stack ≠ t.stack ∧
      t.globalItem? (.of 3 (.name "p")) = none ∧
      t'.globalItem? (.of 3 (.name "p")) = some ⟨.number .nan, .of 2 (.argument 0)⟩ := by
  intro t
  obtain ⟨e, hf⟩ : ∃ e, Fails (pushFrame [some "p", some "q"] ["p", "q"]) t e
      (t.perform (.pushFrame [some "p", some "q"] ["p", "q"])) :=
    Fails.of_toOption (by decide +kernel)
  have h := (failure_effects t).2.2 _ _ _ _ hf
  exact ⟨e, _, hf, h.2.1, by decide +kernel, by decide +kernel⟩

structure Orderly (t : Tracer) : Prop where
  ordered : t.running.Pairwise (· > ·)
  bounds : ∀ id ∈ t.running, globalTraceId < id ∧ id < t.nextId
  next : globalTraceId < t.nextId

theorem Performs.running_cases (h : Performs t op t') :
    (t'.running = t.running ∧ t.nextId ≤ t'.nextId) ∨
    (t'.running = t.nextId :: t.running ∧ t'.nextId = t.nextId + 1) ∨
    (t'.running = t.running.tail ∧ t'.nextId = t.nextId) := by
  cases h with
  | recorded hr => exact .inl ⟨(Step.assigned hr).running_eq, Nat.le_of_eq hr.nextId_eq.symm⟩
  | unrecorded => exact .inl ⟨rfl, Nat.le_refl _⟩
  | entered => exact .inr (.inl ⟨rfl, rfl⟩)
  | bound => exact .inr (.inl ⟨rfl, rfl⟩)
  | stopped => exact .inl ⟨rfl, Nat.le_succ _⟩
  | left hl => exact .inr (.inr ⟨(Step.left hl).running_eq, by cases hl <;> rfl⟩)
  | stayed => exact .inl ⟨rfl, Nat.le_refl _⟩
  | announced => exact .inl ⟨rfl, Nat.le_refl _⟩
  | withdrawn => exact .inl ⟨rfl, Nat.le_refl _⟩
  | forgotten => exact .inl ⟨rfl, Nat.le_refl _⟩
  | identified => exact .inl ⟨rfl, Nat.le_succ _⟩

theorem Orderly.perform (h : t.Orderly) (op : Operation) : (t.perform op).Orderly := by
  rcases (performs t op).running_cases with ⟨hrun, hnext⟩ | ⟨hrun, hnext⟩ | ⟨hrun, hnext⟩
  · refine ⟨hrun ▸ h.ordered, fun id hid => ?_, Nat.lt_of_lt_of_le h.next hnext⟩
    rw [hrun] at hid
    exact ⟨(h.bounds id hid).1, Nat.lt_of_lt_of_le (h.bounds id hid).2 hnext⟩
  · -- a call that begins takes the next identity, which is above all that were given away
    refine ⟨?_, fun id hid => ?_, ?_⟩
    · rw [hrun]
      exact List.pairwise_cons.2 ⟨fun id hid => (h.bounds id hid).2, h.ordered⟩
    · rw [hrun] at hid
      rw [hnext]
      rcases List.mem_cons.1 hid with rfl | hid
      · exact ⟨h.next, Nat.lt_succ_self _⟩
      · exact ⟨(h.bounds id hid).1, Nat.lt_succ_of_lt (h.bounds id hid).2⟩
    · rw [hnext]
      exact Nat.lt_succ_of_lt h.next
  · refine ⟨hrun ▸ h.ordered.tail, fun id hid => ?_, hnext ▸ h.next⟩
    rw [hrun] at hid
    rw [hnext]
    exact h.bounds id (List.mem_of_mem_tail hid)

theorem orderly_after (ops : List Operation) : (after ops).Orderly := by
  induction ops using List.reverseRecOn with
  | nil => exact ⟨by decide, by decide, by decide⟩
  | append_singleton ops op ih =>
    rw [after_append]
    exact ih.perform op

theorem Orderly.distinct (h : t.Orderly) : t.stack.Distinct :=
  h.ordered.imp fun hlt => (Nat.ne_of_lt hlt).symm

theorem Orderly.fresh (h : t.Orderly) : t.nextId ∉ t.running := fun hid =>
  Nat.lt_irrefl _ (h.bounds _ hid).2

def Settled (t : Tracer) (id : TraceId) : Prop := id < t.nextId ∧ id ∉ t.running

theorem Settled.perform {id : TraceId} (h : t.Settled id) (op : Operation) :
    (t.perform op).Settled id := by
  rcases (performs t op).running_cases with ⟨hrun, hnext⟩ | ⟨hrun, hnext⟩ | ⟨hrun, hnext⟩
  · exact ⟨Nat.lt_of_lt_of_le h.1 hnext, hrun ▸ h.2⟩
  · refine ⟨hnext ▸ Nat.lt_succ_of_lt h.1, ?_⟩
    rw [hrun]
    exact List.not_mem_cons_of_ne_of_not_mem (Nat.ne_of_lt h.1) h.2
  · refine ⟨hnext ▸ h.1, ?_⟩
    rw [hrun]
    exact fun hid => h.2 (List.mem_of_mem_tail hid)

theorem Settled.foldl {id : TraceId} (later : List Operation) :
    ∀ {t : Tracer}, t.Settled id → (later.foldl Tracer.perform t).Settled id := by
  induction later with
  | nil => exact fun h => h
  | cons op later ih => exact fun h => ih (h.perform op)

theorem nextId_le_foldl (later : List Operation) :
    ∀ t : Tracer, t.nextId ≤ (later.foldl perform t).nextId := by
  induction later with
  | nil => exact fun t => Nat.le_refl _
  | cons op later ih =>
    refine fun t => Nat.le_trans ?_ (ih _)
    rcases (performs t op).running_cases with ⟨-, hnext⟩ | ⟨-, hnext⟩ | ⟨-, hnext⟩
    · exact hnext
    · exact hnext ▸ Nat.le_succ _
    · exact Nat.le_of_eq hnext.symm

/-- The identities of the global object, of objects, and of calls that are over, or could not be
entered. -/
inductive Outside (ops : List Operation) : TraceId → Prop
  | global : Outside ops globalTraceId
  | object {before later : List Operation} : ops = before ++ .identify :: later →
      Outside ops (after before).nextId
  | call {before later : List Operation} {parameters : List (Option String)}
      {captured : List String} : ops = before ++ .pushFrame parameters captured :: later →
      (after before).nextId ∉ (after ops).running → Outside ops (after before).nextId

theorem Outside.settled {ops : List Operation} {id : TraceId} (h : Outside ops id) :
    (after ops).Settled id := by
  have horderly := orderly_after ops
  cases h with
  | global => exact ⟨horderly.next, fun hid => Nat.lt_irrefl _ (horderly.bounds _ hid).1⟩
  | @object before later hops =>
    rw [hops, after_append]
    exact Settled.foldl later ⟨Nat.lt_succ_self _, (orderly_after before).fresh⟩
  | @call before later parameters captured hops hover =>
    refine ⟨?_, hover⟩
    rw [hops, after_append]
    refine Nat.lt_of_lt_of_le ?_ (nextId_le_foldl later _)
    have hperforms := performs (after before) (.pushFrame parameters captured)
    generalize (after before).perform (.pushFrame parameters captured) = t' at hperforms ⊢
    cases hperforms <;> exact Nat.lt_succ_self _

def AtCall (t : Tracer) (key : TraceKey) : Prop := ∃ id ∈ t.running, ∃ slot, key = .of id slot

def MayChange (t : Tracer) : Operation → TraceKey → Prop
  | .record target _ _, key => key = target ∨ t.AtCall key
  | .pushFrame parameters captured, key => t.AtCall key ∨
    ∃ name ∈ captured, some name ∈ parameters ∧ key = .of t.nextId (.name name)
  | .popFrame, key => t.AtCall key
  | _, _ => False

theorem atCall_of_holds {key : TraceKey} {value : Value} (h : t.stack.Holds key value) :
    t.AtCall key := by
  obtain ⟨f, hf, slot, -, -, hkey, -⟩ := h
  exact ⟨f.callId, List.mem_map_of_mem hf, slot, hkey⟩

theorem Binds.mayChange {n : Nat} {captured : List String} {parameters : List (Option String)}
    {entries : Table Slot TraceItem} {g : Table TraceKey TraceItem}
    (h : t.Binds n captured parameters entries g) (rest : List (Option String)) :
    Grows (fun key _ => t.MayChange (.pushFrame (parameters ++ rest) captured) key) t.global g := by
  refine h.grows.mono fun key value => ?_
  rintro (hholds | ⟨name, i, item, hcaptured, hposition, -, rfl, -⟩)
  · exact .inl (atCall_of_holds hholds)
  · exact .inr ⟨name, hcaptured, List.mem_append_left _ (List.mem_of_getElem? hposition), rfl⟩

theorem Performs.grows (h : Performs t op t') :
    Grows (fun key _ => t.MayChange op key) t.global t'.global := by
  cases h with
  | recorded hr =>
    refine (Step.assigned hr).grows.mono fun key value => ?_
    rintro (hrecorded | hholds | ⟨hcall, -⟩)
    · obtain ⟨he, -⟩ := Event.recorded?_eq_some_iff.1 hrecorded
      exact .inl (Event.assigned.inj he).1.symm
    · exact .inr (atCall_of_holds hholds)
    · cases hcall
  | left hl =>
    refine (Step.left hl).grows.mono fun key value => ?_
    rintro (hrecorded | hholds | ⟨hcall, -⟩)
    · cases hrecorded
    · exact atCall_of_holds hholds
    · cases hcall
  | bound _ hbinds =>
    have hgrows := hbinds.mayChange []
    rw [List.append_nil] at hgrows
    exact hgrows
  | stopped _ hstops =>
    obtain ⟨before, name, rest, _, _, rfl, -, hbinds, -⟩ := hstops
    exact hbinds.mayChange _
  | _ => exact .refl _

theorem Settled.globalItem?_perform {id : TraceId} (h : t.Settled id) {slot : Slot}
    (hop : ∀ value source, op ≠ .record (.of id slot) value source) :
    (t.perform op).globalItem? (.of id slot) = t.globalItem? (.of id slot) := by
  refine (performs t op).grows.find?_eq fun _ hchange => ?_
  have hcall : ¬ t.AtCall (.of id slot) := by
    rintro ⟨c, hc, k, hkey⟩
    cases hkey
    exact h.2 hc
  cases op with
  | record target value source =>
    rcases hchange with rfl | hchange
    · exact hop value source rfl
    · exact hcall hchange
  | pushFrame parameters captured =>
    rcases hchange with hchange | ⟨name, -, -, hkey⟩
    · exact hcall hchange
    · cases hkey
      exact Nat.lt_irrefl _ h.1
  | popFrame => exact hcall hchange
  | _ => exact hchange

theorem Settled.globalItem?_foldl {id : TraceId} {slot : Slot} (later : List Operation) :
    ∀ {t : Tracer}, t.Settled id → (∀ value source, .record (.of id slot) value source ∉ later) →
      (later.foldl Tracer.perform t).globalItem? (.of id slot) = t.globalItem? (.of id slot) := by
  induction later with
  | nil => exact fun _ _ => rfl
  | cons op later ih =>
    intro t h hlater
    rw [List.foldl_cons, ih (h.perform op) fun value source hmem =>
      hlater value source (List.mem_cons_of_mem _ hmem)]
    exact h.globalItem?_perform fun value source hop => hlater value source (hop ▸ List.mem_cons_self)

/-- No place ever leaves the table, and an operation changes what the table shows only at its own
target, at places of calls that run, and at the parameters that nested functions read. For the global
object, for an object, and for a call that is over, only a record there does so. -/
theorem table_grows (ops : List Operation) (op : Operation) (key : TraceKey) :
    ((after ops).globalItem? key ≠ none → (after (ops ++ [op])).globalItem? key ≠ none) ∧
    ((after (ops ++ [op])).globalItem? key ≠ (after ops).globalItem? key →
      (after ops).MayChange op key) ∧
    ∀ id slot later, Outside ops id → (∀ value source, .record (.of id slot) value source ∉ later) →
      (after (ops ++ later)).globalItem? (.of id slot) = (after ops).globalItem? (.of id slot) := by
  have hgrows := (performs (after ops) op).grows
  rw [after_append]
  refine ⟨hgrows.kept key, fun hchanged => ?_, fun id slot later hid hlater => ?_⟩
  · by_contra hnot
    exact hchanged (hgrows.find?_eq fun _ => hnot)
  · rw [after_append]
    exact hid.settled.globalItem?_foldl later hlater

theorem table_grows_endedCall :
    let ops : List Operation := [.pushFrame [] [], .record (.here (.name "x")) (.number .nan) .untraced,
      .record (.of globalTraceId (.name "g")) (.number .nan) (.here (.name "x")), .popFrame]
    let later : List Operation := [.pushFrame [] [],
      .record (.here (.name "x")) .undefined (.here (.argument 0)),
      .record (.of globalTraceId (.name "g")) .undefined (.here (.name "x")), .popFrame]
    let g : TraceKey := .of globalTraceId (.name "g")
    let op : Operation := .record g .null .untraced
    (after (ops ++ [op])).globalItem? g ≠ none ∧ (after ops).MayChange op g ∧
      (after (ops ++ later)).globalItem? (.of 3 (.name "x")) = some ⟨.number .nan, .untraced⟩ := by
  intro ops later g op
  have h := table_grows ops op g
  have hover : Outside ops 3 := Outside.call (show ops = [] ++ _ from rfl) (by decide +kernel)
  refine ⟨h.1 (by decide +kernel), h.2.1 (by decide +kernel), ?_⟩
  rw [h.2.2 3 (.name "x") later hover (by simp [later, TraceKey.of, TraceKey.here])]
  decide +kernel

end Tracer

end CoercionTrace
