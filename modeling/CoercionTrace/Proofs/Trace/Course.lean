import CoercionTrace.Proofs.Trace.Steps

/-!
# The course of a tracer

A log says what happened to a tracer, newest event first. What the tracer shows of its running calls
can be read off the log: the value that a slot keeps, the result of the call made last, and the
arguments that the next call takes over (`Course.agrees`). What an event may put into the table for
the places outside them is `MayPut` (`Step.grows`).
-/

namespace CoercionTrace

inductive Event
  | assigned (target : TraceKey) (value : Value)
  | entered (callId : TraceId)
  | refused (callId : TraceId)
  | left
  /-- A function is about to be called. Of its arguments, so many are announced, if it is not native. -/
  | calling (arguments : Option Nat)
  | called
  deriving DecidableEq

def Event.recorded? (key : TraceKey) : Event → Option Value
  | .assigned target value => if target = key ∧ value.isSuspect = true then some value else none
  | _ => none

theorem Event.recorded?_eq_some_iff {e : Event} {key : TraceKey} {value : Value} :
    e.recorded? key = some value ↔ e = .assigned key value ∧ value.isSuspect = true := by
  cases e with
  | assigned target v => grind [Event.recorded?]
  | _ => simp [Event.recorded?]

def Event.call? : Event → Option TraceId
  | .entered callId | .refused callId => some callId
  | _ => none

def Event.runs : Event → List TraceId → List TraceId
  | .entered callId, ids => callId :: ids
  | .left, ids => ids.tail
  | _, ids => ids

abbrev Log := List Event

namespace Log

/-- The value that was assigned last to a slot of a running call, that many calls below the innermost
one. -/
def assignedAt (slot : Slot) : Log → Nat → Option Value
  | [], _ => none
  | .assigned target value :: log, 0 =>
    if target = .here slot then some value else assignedAt slot log 0
  | .entered _ :: _, 0 => none
  | .entered _ :: log, d + 1 => assignedAt slot log d
  | .left :: log, d => assignedAt slot log (d + 1)
  | _ :: log, d => assignedAt slot log d

/-- What the call that ended last right above the innermost one kept of its result, unless a function
was called since. -/
def lastResult : Log → Option Value
  | .left :: log => (assignedAt .result log 0).bind (Tracer.kept (.here .result))
  | .assigned _ _ :: log | .refused _ :: log | .called :: log => lastResult log
  | .entered _ :: _ | .calling _ :: _ | [] => none

def announced : Log → Option Nat
  | .calling (some arguments) :: _ => some arguments
  | .calling none :: log | .assigned _ _ :: log => announced log
  | .entered _ :: _ | .refused _ :: _ | .left :: _ | .called :: _ | [] => none

def lastRecorded (key : TraceKey) (log : Log) : Option Value := log.findSome? (Event.recorded? key)

def calls (log : Log) : List TraceId := log.filterMap Event.call?

def running (log : Log) (ids : List TraceId) : List TraceId := log.foldr Event.runs ids

def rise : Log → Option Nat
  | [] => some 0
  | .entered _ :: log => (rise log).map (· + 1)
  | .left :: log =>
    match rise log with
    | some (n + 1) => some n
    | _ => none
  | _ :: log => rise log

theorem rise_left {log : Log} {n : Nat} (h : rise (.left :: log) = some n) :
    log.rise = some (n + 1) := by
  rw [rise] at h
  split at h
  · next hrest =>
    cases h
    exact hrest
  · cases h

theorem rise_append {earlier log : Log} {a : Nat} (h : earlier.rise = some a) :
    ∀ {n}, log.rise = some n → rise (log ++ earlier) = some (a + n) := by
  induction log with
  | nil =>
    rintro n ⟨⟩
    exact h
  | cons e log ih =>
    intro n hn
    cases e with
    | entered callId =>
      obtain ⟨n, hrest, rfl⟩ := Option.map_eq_some_iff.1 hn
      exact congrArg (Option.map _) (ih hrest)
    | left =>
      rw [List.cons_append, rise, ih (rise_left hn)]
      rfl
    | _ => exact ih hn

theorem drop_running (ids : List TraceId) (log : Log) :
    ∀ n, log.rise = some n → (log.running ids).drop n = ids := by
  induction log with
  | nil =>
    rintro n ⟨⟩
    rfl
  | cons e log ih =>
    intro n hn
    cases e with
    | entered callId =>
      obtain ⟨n, hrest, rfl⟩ := Option.map_eq_some_iff.1 hn
      exact ih n hrest
    | left => exact (List.drop_tail ..).trans (ih (n + 1) (rise_left hn))
    | _ => exact ih n hn

theorem running_of_rise {log : Log} (h : log.rise = some 0) (ids : List TraceId) :
    log.running ids = ids := drop_running ids log 0 h

theorem mem_running {log : Log} {ids : List TraceId} {id : TraceId} (h : id ∈ log.running ids) :
    id ∈ log.calls ∨ id ∈ ids := by
  induction log with
  | nil => exact .inr h
  | cons e log ih =>
    cases e with
    | entered callId =>
      rcases List.mem_cons.1 h with rfl | h
      · exact .inl List.mem_cons_self
      · exact (ih h).imp_left (List.mem_cons_of_mem _)
    | refused callId => exact (ih h).imp_left (List.mem_cons_of_mem _)
    | left => exact ih (List.mem_of_mem_tail h)
    | _ => exact ih h

-- Of the calls that a log has entered and not left, it says all that is to be said.
theorem assignedAt_append (slot : Slot) (earlier log : Log) :
    ∀ n d, log.rise = some n → d < n → assignedAt slot (log ++ earlier) d = log.assignedAt slot d := by
  induction log with
  | nil =>
    rintro n d ⟨⟩ hd
    cases hd
  | cons e log ih =>
    intro n d hn hd
    cases e with
    | assigned target value =>
      cases d with
      | zero => exact congrArg (ite _ _) (ih n 0 hn hd)
      | succ d => exact ih n (d + 1) hn hd
    | entered callId =>
      obtain ⟨n, hrest, rfl⟩ := Option.map_eq_some_iff.1 hn
      cases d with
      | zero => rfl
      | succ d => exact ih n d hrest (Nat.lt_of_succ_lt_succ hd)
    | left => exact ih (n + 1) (d + 1) (rise_left hn) (Nat.succ_lt_succ hd)
    | _ => cases d <;> exact ih n _ hn hd

theorem lastResult_append (arguments : Option Nat) (earlier log : Log) :
    ∀ n, log.rise = some n → lastResult (log ++ .calling arguments :: earlier) = log.lastResult := by
  induction log with
  | nil => exact fun _ _ => rfl
  | cons e log ih =>
    intro n hn
    cases e with
    | left =>
      have hassigned := assignedAt_append .result (.calling arguments :: earlier) log (n + 1) 0
        (rise_left hn) (Nat.succ_pos n)
      exact congrArg (Option.bind · _) hassigned
    | assigned | refused | called => exact ih n hn
    | entered | calling => rfl

theorem announced_append {earlier log : Log} (h : announced earlier = none)
    (hnone : ∀ n, .calling (some n) ∉ log) : announced (log ++ earlier) = none := by
  induction log with
  | nil => exact h
  | cons e log ih =>
    have hrest := ih fun n hn => hnone n (List.mem_cons_of_mem _ hn)
    cases e with
    | assigned => exact hrest
    | calling arguments =>
      cases arguments with
      | none => exact hrest
      | some n => exact absurd List.mem_cons_self (hnone n)
    | _ => rfl

end Log

def CallStack.entriesAt (s : CallStack) (d : Nat) : Table Slot TraceItem :=
  (s.frames[d]?.map Frame.entries).getD .empty

namespace Tracer

def calling (t : Tracer) : Option Nat → Tracer
  | none => t.clearReturn
  | some arguments => t.clearReturn.announce arguments

inductive Step (t : Tracer) : Event → Tracer → Prop
  | assigned {t' : Tracer} {target source : TraceKey} {value : Value} :
      Recorded t target value source t' → Step t (.assigned target value) t'
  | entered {entries : Table Slot TraceItem} {g : Table TraceKey TraceItem} :
      t.Begins entries g → Step t (.entered t.nextId) (t.begun entries g)
  | refused {g : Table TraceKey TraceItem} : Grows (Enters t.stack t.nextId) t.global g →
      Step t (.refused t.nextId) (t.taken g)
  | left {t' : Tracer} : Left t t' → Step t .left t'
  | calling (arguments : Option Nat) : Step t (.calling arguments) (t.calling arguments)
  | called : Step t .called t.clearPending

inductive Course (t₀ : Tracer) : Log → Tracer → Prop
  | refl : Course t₀ [] t₀
  | identified {log : Log} {t : Tracer} {n : TraceId} : Course t₀ log t → t.nextId ≤ n →
      Course t₀ log { t with nextId := n }
  | step {log : Log} {t t' : Tracer} {e : Event} : Course t₀ log t → Step t e t' →
      Course t₀ (e :: log) t'

variable {t₀ t t' : Tracer} {e : Event} {log : Log}

/-! ## The running calls -/

structure Agrees (log : Log) (t : Tracer) : Prop where
  assigned : ∀ d slot value, slot ≠ .anonymous → log.assignedAt slot d = some value →
    ((t.stack.entriesAt d).find? slot).map TraceItem.value = kept (.here slot) value
  unassigned : ∀ d slot, (∀ name, slot ≠ .name name) → log.assignedAt slot d = none →
    (t.stack.entriesAt d).find? slot = none
  result : t.stack.top.calleeReturn.map TraceItem.value = log.lastResult
  announced : t.stack.top.pendingArguments = log.announced
  /-- An announcement is taken over or withdrawn before another call is the innermost one. -/
  below : ∀ f ∈ t.stack.below, f.pendingArguments = none

theorem entriesAt_onTop (t : Tracer) (g : Frame → Frame) (hg : ∀ f, (g f).entries = f.entries)
    (d : Nat) : (t.onTop g).stack.entriesAt d = t.stack.entriesAt d := by
  cases d with
  | zero => exact hg t.stack.top
  | succ d => rfl

theorem entriesAt_caller {s caller : CallStack} (h : s.caller? = some caller) (d : Nat) :
    caller.entriesAt d = s.entriesAt (d + 1) := by
  rw [caller_eq h]
  rfl

theorem entriesAt_begun (entries : Table Slot TraceItem) (g : Table TraceKey TraceItem) (d : Nat) :
    (t.begun entries g).stack.entriesAt (d + 1) = t.stack.entriesAt d :=
  entriesAt_onTop t (fun f => { f with pendingArguments := none }) (fun _ => rfl) d

theorem eq_here {key : TraceKey} (h : key.isHere = true) : key = .here key.slot := by
  obtain ⟨scope, slot⟩ := key
  obtain rfl : scope = .here := by simpa [TraceKey.isHere] using h
  rfl

theorem Recorded.stack_eq {target source : TraceKey} {value : Value}
    (h : Recorded t target value source t') :
    ∃ entries, t'.stack = { t.stack with top := { t.stack.top with entries } } ∧ ∀ slot,
      (target ≠ .here slot → entries.find? slot = t.stack.top.entries.find? slot) ∧
      (target = .here slot → slot ≠ .anonymous →
        (entries.find? slot).map TraceItem.value = kept target value) := by
  cases h with
  | nothing hnothing =>
    refine ⟨t.stack.top.entries, rfl, fun slot => ⟨fun _ => rfl, ?_⟩⟩
    rintro rfl hslot
    have htraced : (TraceKey.here slot).isTraced = true := bne_iff_ne.2 hslot
    cases (hnothing htraced).1
  | erased htraced hhere hkept =>
    refine ⟨_, rfl, fun slot => ⟨fun hne => ?_, ?_⟩⟩
    · exact Table.find?_erase_ne _ fun e => hne (e ▸ eq_here hhere)
    · rintro rfl -
      exact (congrArg (Option.map _) (Table.find?_erase_self _ _)).trans hkept.symm
  | here htraced hhere hkept =>
    refine ⟨_, rfl, fun slot => ⟨fun hne => ?_, ?_⟩⟩
    · exact Table.find?_insert_ne _ _ fun e => hne (e ▸ eq_here hhere)
    · rintro rfl -
      exact (congrArg (Option.map _) (Table.find?_insert_self _ _ _)).trans hkept.symm
  | outside _ hhere =>
    refine ⟨t.stack.top.entries, rfl, fun slot => ⟨fun _ => rfl, ?_⟩⟩
    rintro rfl -
    cases hhere

theorem Agrees.recorded (h : Agrees log t) {target source : TraceKey} {value : Value}
    (hr : Recorded t target value source t') : Agrees (.assigned target value :: log) t' := by
  obtain ⟨entries, hstack, hentries⟩ := hr.stack_eq
  refine { assigned := ?_, unassigned := ?_, result := ?_, announced := ?_, below := ?_ }
  all_goals rw [hstack]
  · intro d slot v hslot hv
    cases d with
    | succ d => exact h.assigned (d + 1) slot v hslot hv
    | zero =>
      rw [Log.assignedAt] at hv
      split at hv
      · next htarget =>
        cases hv
        rw [← htarget]
        exact (hentries slot).2 htarget hslot
      · next htarget =>
        refine (congrArg (Option.map _) ((hentries slot).1 htarget)).trans ?_
        exact h.assigned 0 slot v hslot hv
  · intro d slot hslot hv
    cases d with
    | succ d => exact h.unassigned (d + 1) slot hslot hv
    | zero =>
      rw [Log.assignedAt] at hv
      split at hv
      · cases hv
      · next htarget => exact ((hentries slot).1 htarget).trans (h.unassigned 0 slot hslot hv)
  · exact h.result
  · exact h.announced
  · exact h.below

theorem Agrees.begun (h : Agrees log t) {entries : Table Slot TraceItem}
    {g : Table TraceKey TraceItem} (hb : t.Begins entries g) :
    Agrees (.entered t.nextId :: log) (t.begun entries g) where
  assigned d slot value hslot hv := by
    cases d with
    | zero => cases hv
    | succ d =>
      rw [entriesAt_begun]
      exact h.assigned d slot value hslot hv
  unassigned d slot hslot hv := by
    cases d with
    | zero =>
      refine Option.eq_none_iff_forall_ne_some.2 fun item hitem => ?_
      obtain ⟨name, hname⟩ := hb.named slot item hitem
      exact hslot name hname
    | succ d =>
      rw [entriesAt_begun]
      exact h.unassigned d slot hslot hv
  result := rfl
  announced := rfl
  below := List.forall_mem_cons.2 ⟨rfl, h.below⟩

theorem Agrees.localItem?_eq (h : Agrees log t) {slot : Slot} (hslot : slot ≠ .anonymous)
    (hname : ∀ name, slot ≠ .name name) :
    (t.localItem? slot).map TraceItem.value = (log.assignedAt slot 0).bind (kept (.here slot)) := by
  cases hv : log.assignedAt slot 0 with
  | none => exact congrArg (Option.map _) (h.unassigned 0 slot hname hv)
  | some value => exact h.assigned 0 slot value hslot hv

theorem Agrees.onTop (h : Agrees log t) (g : Frame → Frame) {u : Tracer}
    (hstack : u.stack = (t.onTop g).stack) (hentries : ∀ f, (g f).entries = f.entries)
    (hassigned : ∀ slot d, Log.assignedAt slot (e :: log) d = log.assignedAt slot d)
    (hresult : u.stack.top.calleeReturn.map TraceItem.value = Log.lastResult (e :: log))
    (hannounced : u.stack.top.pendingArguments = Log.announced (e :: log)) :
    Agrees (e :: log) u := by
  refine ⟨fun d slot value => ?_, fun d slot => ?_, hresult, hannounced, ?_⟩
  · rw [hassigned, hstack, entriesAt_onTop t g hentries]
    exact h.assigned d slot value
  · rw [hassigned, hstack, entriesAt_onTop t g hentries]
    exact h.unassigned d slot
  · rw [hstack]
    exact h.below

theorem Agrees.left (h : Agrees log t) (hl : Left t t') : Agrees (.left :: log) t' := by
  have hresult : (t.localItem? .result).map TraceItem.value = Log.lastResult (.left :: log) :=
    h.localItem?_eq (by simp) (by simp)
  -- However a call ends, it uncovers its caller, of which only the result is changed.
  have hcaller : ∀ {caller : CallStack} (u : Tracer) (g : Frame → Frame),
      t.stack.caller? = some caller → u.stack = caller → (∀ f, (g f).entries = f.entries) →
      (∀ f, (g f).pendingArguments = f.pendingArguments) →
      ((g caller.top).calleeReturn.map TraceItem.value = Log.lastResult (.left :: log)) →
      Agrees (.left :: log) (u.onTop g) := by
    rintro caller u g hcaller rfl hentries hpending hreturn
    have hbelow : ∀ f ∈ u.stack.frames, f.pendingArguments = none := by
      have hbelow := h.below
      rwa [caller_eq hcaller] at hbelow
    refine ⟨?_, ?_, hreturn, ?_, fun f hf => hbelow f (List.mem_cons_of_mem _ hf)⟩
    · intro d slot value
      rw [entriesAt_onTop u g hentries, entriesAt_caller hcaller]
      exact h.assigned (d + 1) slot value
    · intro d slot
      rw [entriesAt_onTop u g hentries, entriesAt_caller hcaller]
      exact h.unassigned (d + 1) slot
    · exact (hpending _).trans (hbelow _ List.mem_cons_self)
  cases hl with
  | silent hc hitem =>
    refine hcaller { t with stack := _ } _ hc rfl (fun _ => rfl) (fun _ => rfl) ?_
    rw [hitem] at hresult
    exact hresult
  | returned hc hitem hbehind =>
    refine hcaller _ _ hc rfl (fun _ => rfl) (fun _ => rfl) ?_
    rw [hitem] at hresult
    exact hresult

theorem Agrees.step (h : Agrees log t) (hs : Step t e t') : Agrees (e :: log) t' := by
  cases hs with
  | assigned hr => exact h.recorded hr
  | entered hb => exact h.begun hb
  | refused =>
    exact h.onTop (fun f => { f with pendingArguments := none }) rfl (fun _ => rfl) (fun _ _ => rfl)
      h.result rfl
  | left hl => exact h.left hl
  | calling arguments =>
    cases arguments with
    | none =>
      exact h.onTop (fun f => { f with calleeReturn := none }) rfl (fun _ => rfl) (fun _ _ => rfl)
        rfl h.announced
    | some arguments =>
      exact h.onTop (fun f => { f with calleeReturn := none, pendingArguments := some arguments }) rfl
        (fun _ => rfl) (fun _ _ => rfl) rfl rfl
  | called =>
    exact h.onTop (fun f => { f with pendingArguments := none }) rfl (fun _ => rfl) (fun _ _ => rfl)
      h.result rfl

theorem agrees_start : Agrees [] start where
  assigned := by simp [Log.assignedAt]
  unassigned d slot _ _ := by
    cases d <;> rfl
  result := rfl
  announced := rfl
  below := by simp [start]

theorem Course.agrees (h : Course start log t) : Agrees log t := by
  induction h with
  | refl => exact agrees_start
  | identified _ _ ih => exact ⟨ih.assigned, ih.unassigned, ih.result, ih.announced, ih.below⟩
  | step _ hs ih => exact ih.step hs

/-! ## The global table -/

/-- What an event may copy to the table: what a running call keeps, and a parameter of the call that
the event gives an identity to. -/
def MayCopy (t : Tracer) (e : Event) (key : TraceKey) (value : Value) : Prop :=
  t.stack.Holds key value ∨ e.call? = some t.nextId ∧ IsParameter t.stack t.nextId key value

theorem mayCopy_of_enters {key : TraceKey} {value : Value} (he : e.call? = some t.nextId)
    (h : Enters t.stack t.nextId key value) : t.MayCopy e key value :=
  h.imp_right fun hparameter => ⟨he, hparameter⟩

def MayPut (t : Tracer) (e : Event) (key : TraceKey) (value : Value) : Prop :=
  e.recorded? key = some value ∨ t.MayCopy e key value

theorem copyHops_mayPut {source : TraceKey} {hops : List Hop} {last : TraceKey}
    (h : t.behind source = .ok (hops, last)) (e : Event) :
    Grows (t.MayPut e) t.global (copyHops hops last t.global).2 :=
  copyHops_grows (fun hop hm => .inr (.inl (behind_holds h hop hm))) last t.global

theorem Step.grows (hs : Step t e t') : Grows (t.MayPut e) t.global t'.global := by
  cases hs with
  | assigned hr =>
    cases hr with
    | outside _ _ hsuspect hbehind =>
      exact (copyHops_mayPut hbehind _).trans (.insert _ (.inl (if_pos ⟨rfl, hsuspect⟩)))
    | _ => exact .refl _
  | entered hb => exact hb.grows.mono fun _ _ h => .inr (mayCopy_of_enters rfl h)
  | refused hg => exact hg.mono fun _ _ h => .inr (mayCopy_of_enters rfl h)
  | left hl =>
    cases hl with
    | silent => exact .refl _
    | returned _ hitem hbehind =>
      refine (copyHops_mayPut hbehind _).trans (.insert _ (.inr (.inl ?_)))
      exact ⟨t.stack.top, List.mem_cons_self, .result, _, hitem, rfl, rfl⟩
  | calling arguments => cases arguments <;> exact .refl _
  | called => exact .refl _

theorem Step.records (hs : Step t e t') {key : TraceKey} (htraced : key.isTraced = true)
    (hhere : key.isHere = false) {value : Value} (he : e.recorded? key = some value) :
    (t'.globalItem? key).map TraceItem.value = some value := by
  obtain ⟨rfl, hsuspect⟩ := Event.recorded?_eq_some_iff.1 he
  obtain ⟨hr⟩ := hs
  cases hr with
  | nothing hnothing => simp [(hnothing htraced).2] at hsuspect
  | erased _ hhere' => simp [hhere] at hhere'
  | here _ hhere' => simp [hhere] at hhere'
  | outside => exact congrArg (Option.map _) (Table.find?_insert_self _ _ _)

/-! ## Identities -/

theorem Step.running_eq (hs : Step t e t') : t'.running = e.runs t.running := by
  cases hs with
  | assigned hr =>
    obtain ⟨entries, hstack, -⟩ := hr.stack_eq
    rw [running, hstack]
    rfl
  | entered => rfl
  | refused => rfl
  | left hl =>
    have hcaller : ∀ {caller : CallStack}, t.stack.caller? = some caller →
        caller.frames.map Frame.callId = t.running.tail := by
      intro caller hc
      rw [running, caller_eq hc]
      rfl
    cases hl with
    | silent hc => exact (running_onTop _ rfl).trans (hcaller hc)
    | returned hc => exact (running_onTop _ rfl).trans (hcaller hc)
  | calling arguments => cases arguments <;> rfl
  | called => rfl

theorem Course.running_eq (h : Course t₀ log t) : t.running = log.running t₀.running := by
  induction h with
  | refl => rfl
  | identified _ _ ih => exact ih
  | step _ hs ih => exact hs.running_eq.trans (congrArg _ ih)

theorem Recorded.nextId_eq {target source : TraceKey} {value : Value}
    (h : Recorded t target value source t') : t'.nextId = t.nextId := by
  cases h <;> rfl

theorem Course.nextId_le (h : Course t₀ log t) :
    t₀.nextId ≤ t.nextId ∧ ∀ id ∈ log.calls, t₀.nextId ≤ id := by
  induction h with
  | refl => exact ⟨Nat.le_refl _, by simp [Log.calls]⟩
  | identified _ hn ih => exact ⟨Nat.le_trans ih.1 hn, ih.2⟩
  | @step log t t' e _ hs ih =>
    cases hs with
    | assigned hr => exact hr.nextId_eq ▸ ih
    | entered =>
      exact ⟨Nat.le_succ_of_le ih.1, List.forall_mem_cons.2 ⟨ih.1, ih.2⟩⟩
    | refused =>
      exact ⟨Nat.le_succ_of_le ih.1, List.forall_mem_cons.2 ⟨ih.1, ih.2⟩⟩
    | left hl => cases hl <;> exact ih
    | calling arguments => cases arguments <;> exact ih
    | called => exact ih

end Tracer

end CoercionTrace
