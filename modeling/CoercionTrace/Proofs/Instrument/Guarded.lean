import CoercionTrace.Proofs.Instrument.Execution

/-!
# What hooks are told of members

Generated code names a member to the monitor by the temporaries that hold its base and its property.
Where the member was read before, its base is not nullish. Main statement: this is so wherever a rule
has a hook called with a member, but for the target of a plain assignment (`change_guarded`).
-/

namespace CoercionTrace

open Instrumentation InstrumentM Code

namespace Code

inductive IsPlain : Code → Prop
  | name (name : String) : IsPlain (.name name)
  | identifier (node : NodeId) (name : String) : IsPlain (.identifier node name)
  | generated (use : NameUse) (name : String) : IsPlain (.variable use name)
  | quoted (text : String) : IsPlain (.quoted text)
  | null : IsPlain .null
  | void : IsPlain .void
  | index (i : Nat) : IsPlain (.index i)

attribute [simp] IsPlain.name IsPlain.identifier IsPlain.generated IsPlain.quoted IsPlain.null
  IsPlain.void IsPlain.index

variable {openAt : Nat → Prop} {known : List String}

theorem IsPlain.guarded {c : Code} (h : c.IsPlain) : Guarded openAt c known := by
  cases h <;> trivial

theorem IsPlain.sound {c : Code} (h : c.IsPlain) : c.sound known = known := by
  cases h <;> rfl

theorem IsPlain.stored {c : Code} (h : c.IsPlain) : c.stored = [] := by
  cases h <;> rfl

theorem plain_all (openAt : Nat → Prop) (known : List String) {cs : List Code}
    (h : ∀ c ∈ cs, c.IsPlain) :
    GuardedAll openAt cs known ∧ soundAll cs known = known ∧ storedAll cs = [] := by
  induction cs with
  | nil => exact ⟨trivial, rfl, rfl⟩
  | cons c rest ih =>
    obtain ⟨hc, hrest⟩ := List.forall_mem_cons.1 h
    obtain ⟨hguarded, hsound, hstored⟩ := ih hrest
    refine ⟨⟨hc.guarded, hc.sound.symm ▸ hguarded⟩, ?_, ?_⟩
    · rw [soundAll, hc.sound, hsound]
    · rw [storedAll, hc.stored, hstored]
      rfl

theorem sound_hook {object : String} {method : HookMethod} {value : Code} {rest : List Code}
    (hrest : ∀ c ∈ rest, c.IsPlain) :
    (hook object method (value :: rest)).sound known = value.sound known :=
  (plain_all (fun _ => True) _ hrest).2.1

/-- A hook that is told of members that were read, or have been by the time its first argument is
evaluated. -/
theorem guarded_hook {object : String} {method : HookMethod} {value : Code} {rest : List Code}
    (hvalue : Guarded openAt value known) (hstored : value.stored = []) (hrest : ∀ c ∈ rest, c.IsPlain)
    (hkeys : ∀ i ∈ method.keys, ∀ base, (value :: rest)[i]? = some (.variable .temporary base) →
      openAt i ∨ base ∈ value.sound known) :
    Guarded openAt (.hook object method (value :: rest)) known := by
  obtain ⟨hguarded, hsound, hempty⟩ := plain_all openAt (value.sound known) hrest
  refine ⟨⟨hvalue, hguarded⟩, fun i hi base hbase => (hkeys i hi base hbase).imp_right fun h => ⟨?_, ?_⟩⟩
  · rwa [soundAll, hsound]
  · simp [storedAll, hstored, hempty]

end Code

@[simp] theorem Origin.isPlain_scope (o : Origin) : o.scope.IsPlain := by
  cases o <;> constructor

@[simp] theorem Origin.isPlain_slot (o : Origin) : o.slot.IsPlain := by
  cases o <;> constructor

/-- A value that was read from a member was read from one whose base is among the temporaries. -/
def Origin.Among (o : Origin) (known : List String) : Prop :=
  ∀ base key, o = .member base key → base ∈ known

theorem Origin.Among.of_scope {o : Origin} {known : List String} {base : String} (h : o.Among known)
    (hscope : o.scope = .variable .temporary base) : base ∈ known := by
  cases o with
  | member base' key =>
    cases hscope
    exact h base key rfl
  | _ => cases hscope

section

variable {openAt : Nat → Prop} {known : List String} (s : Instrumentation)

@[simp] theorem isPlain_location (id : NodeId) : (s.location id).IsPlain := .quoted _

theorem guarded_traced {id : NodeId} {value : Code} {target source : Origin}
    (hvalue : Guarded openAt value known) (hstored : value.stored = [])
    (htarget : openAt 1 ∨ target.Among (value.sound known)) (hsource : source.Among (value.sound known)) :
    Guarded openAt (s.traced id value target source) known := by
  refine guarded_hook hvalue hstored (by simp) fun i hi base hbase => ?_
  obtain rfl | rfl : i = 1 ∨ i = 3 := by simpa [HookMethod.keys] using hi
  · exact htarget.imp_right fun h => h.of_scope (Option.some.inj hbase)
  · exact .inr (hsource.of_scope (Option.some.inj hbase))

@[simp] theorem sound_passed (i : Nat) (argument : NodeId) (stub : Stub) :
    (s.passed i argument stub).sound known = stub.value.sound known :=
  sound_hook (by simp)

@[simp] theorem sound_arithmeticCheck (id : NodeId) (operator left right : String)
    (leftOrigin rightOrigin : Origin) :
    (s.arithmeticCheck id operator left right leftOrigin rightOrigin).sound known = known :=
  sound_hook (by simp)

theorem guarded_arithmeticCheck {id : NodeId} {operator left right : String}
    {leftOrigin rightOrigin : Origin} (hleft : leftOrigin.Among known)
    (hright : rightOrigin.Among known) :
    Guarded openAt (s.arithmeticCheck id operator left right leftOrigin rightOrigin) known := by
  refine guarded_hook ⟨trivial, trivial⟩ rfl (by simp) fun i hi base hbase => ?_
  obtain rfl | rfl : i = 5 ∨ i = 7 := by simpa [HookMethod.keys] using hi
  · exact .inr (hleft.of_scope (Option.some.inj hbase))
  · exact .inr (hright.of_scope (Option.some.inj hbase))

theorem guarded_passed {i : Nat} {argument : NodeId} {stub : Stub}
    (hvalue : Guarded openAt stub.value known) (hstored : stub.value.stored = [])
    (hsource : stub.origin.Among (stub.value.sound known)) :
    Guarded openAt (s.passed i argument stub) known := by
  refine guarded_hook hvalue hstored (by simp) fun i hi base hbase => ?_
  obtain rfl | rfl : i = 1 ∨ i = 3 := by simpa [HookMethod.keys] using hi
  · cases hbase
  · exact .inr (hsource.of_scope (Option.some.inj hbase))

theorem guarded_operand (t : SyntaxTree) (id : NodeId) : Guarded openAt (t.operand id) known := by
  unfold SyntaxTree.operand
  dsimp only
  split
  · exact ⟨trivial, trivial⟩
  · trivial

end

/-- Running the code reads the member that a value was read from, if there is one, and leaves the base
in its temporary. -/
structure Origin.ReadIn (o : Origin) (cs : List Code) : Prop where
  stored : ∀ base key, o = .member base key → base ∈ storedAll cs
  among : ∀ known, o.Among (soundAll cs known)

namespace Origin.ReadIn

variable {o : Origin} {a b : List Code}

theorem append_left (h : o.ReadIn a) (hn : (storedAll a).Disjoint (storedAll b)) :
    o.ReadIn (a ++ b) where
  stored base key ho := by
    rw [storedAll_append]
    exact List.mem_append_left _ (h.stored base key ho)
  among known base key ho := by
    rw [soundAll_append]
    exact mem_soundAll b (h.among known base key ho) (hn (h.stored base key ho))

theorem append_right (h : o.ReadIn b) : o.ReadIn (a ++ b) where
  stored base key ho := by
    rw [storedAll_append]
    exact List.mem_append_right _ (h.stored base key ho)
  among known := by
    rw [soundAll_append]
    exact h.among _

end Origin.ReadIn

structure Stub.Reads (stub : Stub) : Prop where
  preamble : ∀ {openAt known}, GuardedAll openAt stub.preamble known
  value : ∀ {openAt known}, Guarded openAt stub.value known
  stored : stub.value.stored = []
  base : ∀ base key, stub.origin = .member base key → base ∈ storedAll stub.preamble
  among : ∀ known, stub.origin.Among (stub.value.sound known)

theorem Stub.Reads.readIn {stub : Stub} (h : stub.Reads) {use : NameUse} {x : String} {value : Code}
    (hvalue : ∀ known, value.sound known = stub.value.sound known) (hx : x ∉ storedAll stub.preamble) :
    stub.origin.ReadIn (stub.preamble ++ [.store (.variable use x) value]) where
  stored base key ho := by
    rw [storedAll_append]
    exact List.mem_append_left _ (h.base base key ho)
  among known base key ho := by
    rw [soundAll_append]
    change base ∈ settle (value.sound _) (.variable use x)
    refine mem_settle ((hvalue _).symm ▸ h.among _ base key ho) ?_
    rw [destination_variable, List.mem_singleton]
    rintro rfl
    exact hx (h.base _ key ho)

theorem Instrumentation.not_member_of_identifierOrigin {s : Instrumentation} {id : NodeId} {o : Origin}
    (h : s.identifierOrigin id = .ok o) (base key : String) : o ≠ .member base key := by
  rintro rfl
  unfold identifierOrigin at h
  dsimp only at h
  split at h
  · cases h
  · split at h
    · cases h
    · split at h
      · cases h
      · split at h <;> cases h

section

variable {openAt : Nat → Prop} {known : List String} {s : Instrumentation} {drawn : String → Prop}
  {id a : NodeId} {stub : Stub}

theorem VariableStub.reads (h : VariableStub s id stub) : stub.Reads := by
  cases h with
  | mk _ horigin =>
    have hnot := not_member_of_identifierOrigin horigin
    exact { preamble := trivial, value := trivial, stored := rfl
            base := fun base key ho => absurd ho (hnot base key)
            among := fun _ base key ho => absurd ho (hnot base key) }

theorem MemberStub.reads {t : SyntaxTree} {member : NodeId} (h : MemberStub t drawn member stub) :
    stub.Reads := by
  cases h with
  | mk _ hkey =>
    refine { preamble := ⟨trivial, ?_, trivial⟩, value := trivial, stored := rfl, base := ?_, among := ?_ }
    · cases hkey with
      | property => trivial
      | index => exact guarded_operand t _
    · rintro base key ⟨⟩
      simp [storedAll, Code.stored]
    · rintro known base key ⟨⟩
      exact List.mem_cons_self

theorem OperandStub.reads (h : OperandStub s drawn a stub) : stub.Reads := by
  cases h with
  | identifier hv => exact hv.reads
  | member _ hm => exact hm.reads
  | call => exact ⟨trivial, trivial, rfl, fun _ _ ho => by (cases ho), fun _ _ _ ho => by (cases ho)⟩
  | whole =>
    exact ⟨trivial, guarded_operand s.tree a, stored_operand s a, fun _ _ ho => by (cases ho),
      fun _ _ _ ho => by (cases ho)⟩

theorem TargetStub.reads (h : TargetStub s drawn a stub) : stub.Reads := by
  cases h with
  | identifier hv => exact hv.reads
  | member _ hm => exact hm.reads

theorem Stub.Reads.held (h : stub.Reads) {x : String}
    (hn : (storedAll (s.held a stub x).preamble).Nodup) :
    (∀ {openAt known}, GuardedAll openAt (s.held a stub x).preamble known) ∧
      (s.held a stub x).origin.ReadIn (s.held a stub x).preamble := by
  rw [stored_held, h.stored, List.nil_append] at hn
  have hx : x ∉ storedAll stub.preamble := fun hx =>
    List.disjoint_of_nodup_append hn hx List.mem_cons_self
  obtain ⟨value, hpreamble, -, hcases⟩ := held_cases s a stub x
  rw [hpreamble]
  rcases hcases with ⟨rfl, horigin⟩ | ⟨rfl, horigin⟩
  · refine ⟨guardedAll_append.2 ⟨h.preamble, h.value, trivial⟩, ?_⟩
    rw [horigin]
    exact h.readIn (fun _ => rfl) hx
  · refine ⟨guardedAll_append.2 ⟨h.preamble, ?_, trivial⟩, ?_⟩
    · have hcopy : ∀ {openAt known},
          Guarded openAt (s.traced a stub.value (.frame x) stub.origin) known :=
        guarded_traced s h.value h.stored (.inr fun _ _ ho => by cases ho) (h.among _)
      exact hcopy
    · rw [horigin]
      exact ⟨fun _ _ ho => (by cases ho), fun _ _ _ ho => (by cases ho)⟩

theorem CalleeForm.guarded {callee : NodeId} {called : Callee} (h : CalleeForm s drawn callee called) :
    (∀ {openAt known}, GuardedAll openAt called.preamble known) ∧
      (∀ {openAt known}, Guarded openAt called.function known) ∧ called.receiver.IsPlain := by
  cases h with
  | whole => exact ⟨trivial, trivial, .void⟩
  | member _ hm => exact ⟨hm.reads.preamble, hm.reads.value, Origin.isPlain_scope _⟩

theorem ArgumentsForm.guarded {heldUntil : Option Nat} {i : Nat} {arguments : List NodeId}
    {reads passed : List Code} (h : ArgumentsForm s drawn heldUntil i arguments reads passed)
    (hn : (storedAll reads ++ storedAll passed).Nodup) :
    (∀ {known}, GuardedAll openAt reads known) ∧ ∃ needed : String → Prop,
      (∀ base, needed base → base ∈ storedAll reads ∧ ∀ known, base ∈ soundAll reads known) ∧
      ∀ {known}, (∀ base, needed base → base ∈ known) → GuardedAll openAt passed known := by
  induction h with
  | nil => exact ⟨trivial, fun _ => False, fun _ h => h.elim, fun _ => trivial⟩
  | @held i argument rest stub name reads passed _ hstub _ _ ih =>
    obtain ⟨value, -, hvalue, -⟩ := held_cases s argument stub name
    rw [storedAll_append, storedAll, stored_passed, stored_heldValue, List.nil_append,
      List.append_assoc] at hn
    obtain ⟨hnHeld, hnRest, hdisjoint⟩ := List.nodup_append'.1 hn
    obtain ⟨hheld, hread⟩ := hstub.reads.held hnHeld
    obtain ⟨hreads, needed, hneeded, hpassed⟩ := ih hnRest
    have hread := hread.append_left fun x hx hx' => hdisjoint hx (List.mem_append_left _ hx')
    refine ⟨guardedAll_append.2 ⟨hheld, hreads⟩,
      fun base => (∃ key, (s.held argument stub name).origin = .member base key) ∨ needed base, ?_, ?_⟩
    · rintro base (⟨key, ho⟩ | hbase)
      · exact ⟨hread.stored base key ho, fun known => hread.among known base key ho⟩
      · rw [storedAll_append]
        refine ⟨List.mem_append_right _ (hneeded base hbase).1, fun known => ?_⟩
        rw [soundAll_append]
        exact (hneeded base hbase).2 _
    · intro known hknown
      refine ⟨?_, ?_⟩
      · refine guarded_passed s ?_ (stored_heldValue s argument stub name) ?_
        · rw [hvalue]
          trivial
        · rw [hvalue]
          exact fun base key ho => hknown base (.inl ⟨key, ho⟩)
      · rw [sound_passed, hvalue]
        exact hpassed fun base hbase => hknown base (.inr hbase)
  | @direct i argument rest stub reads passed _ hstub _ ih =>
    have hreads := hstub.reads
    rw [storedAll, Stub.sequence, stored_after, stored_passed, hreads.stored, List.append_nil] at hn
    obtain ⟨hnReads, hnPassed, hdisjoint⟩ := List.nodup_append'.1 hn
    obtain ⟨-, hnRest, -⟩ := List.nodup_append'.1 hnPassed
    obtain ⟨hreads', needed, hneeded, hpassed⟩ := ih <| List.nodup_append'.2
      ⟨hnReads, hnRest, fun x hx hx' => hdisjoint hx (List.mem_append_right _ hx')⟩
    refine ⟨hreads', needed, hneeded, fun {known} hknown => ⟨?_, ?_⟩⟩
    · exact guarded_after.2 ⟨hreads.preamble, guarded_passed s hreads.value hreads.stored (hreads.among _)⟩
    · refine hpassed fun base hbase => mem_sound _ (hknown base hbase) fun hx => ?_
      rw [Stub.sequence, stored_after, stored_passed, hreads.stored, List.append_nil] at hx
      exact hdisjoint (hneeded base hbase).1 (List.mem_append_left _ hx)

end

/-- Hooks are told of the target of a plain assignment before anything looks at the member. -/
def Rule.LeavesOpen (r : Rule) (i : Nat) : Prop := r = .assignment ∧ i = 1

variable {s s' : Instrumentation} {drawn : String → Prop} {id : NodeId} {r : Rule}

theorem guarded_compound {openAt : Nat → Prop} {left right : NodeId} {target value : Stub}
    {store combined : Code} {current operand operator : String} (htarget : TargetStub s drawn left target)
    (hvalue : OperandStub s drawn right value)
    (hcombined : combined = s.arithmeticCheck id operator current operand target.origin
        (s.held right value operand).origin ∨
      combined = .operation operator (.variable .temporary current) (.variable .temporary operand))
    (hn : (storedAll (target.preamble ++ [.store (.variable .temporary current) target.value] ++
      (s.held right value operand).preamble)).Nodup) :
    GuardedAll openAt (target.preamble ++ [.store (.variable .temporary current) target.value] ++
      (s.held right value operand).preamble ++
      [.store store (s.traced id combined target.origin (s.held right value operand).origin)]) [] := by
  have htarget := htarget.reads
  rw [storedAll_append] at hn
  obtain ⟨hnTarget, hnValue, hdisjoint⟩ := List.nodup_append'.1 hn
  have hcurrent : current ∉ storedAll target.preamble := by
    rw [storedAll_append, storedAll, Code.stored, htarget.stored] at hnTarget
    exact fun hx => List.disjoint_of_nodup_append hnTarget hx List.mem_cons_self
  obtain ⟨hheld, hreadValue⟩ := hvalue.reads.held hnValue
  have hread : target.origin.ReadIn
      (target.preamble ++ [.store (.variable .temporary current) target.value]) :=
    htarget.readIn (fun _ => rfl) hcurrent
  have hreads := (hread.append_left hdisjoint).among []
  have hreadsValue := (hreadValue.append_right
    (a := target.preamble ++ [.store (.variable .temporary current) target.value])).among []
  refine guardedAll_append.2 ⟨guardedAll_append.2 ⟨guardedAll_append.2
    ⟨htarget.preamble, htarget.value, trivial⟩, hheld⟩, ?_, trivial⟩
  rcases hcombined with rfl | rfl
  · refine guarded_traced s (guarded_arithmeticCheck s hreads hreadsValue)
      (stored_arithmeticCheck s _ _ _ _ _ _) (.inr ?_) ?_
    · rwa [sound_arithmeticCheck]
    · rwa [sound_arithmeticCheck]
  · exact guarded_traced s ⟨trivial, trivial⟩ rfl (.inr hreads) hreadsValue

theorem Rewrites.guarded {rep : Replacement} (h : Rewrites s drawn id r rep)
    (hn : (storedAll rep.codes).Nodup) : GuardedAll r.LeavesOpen rep.codes [] := by
  cases h with
  | terminator => trivial
  | unreturned => trivial
  | membership =>
    refine ⟨⟨⟨guarded_operand s.tree _, guarded_operand s.tree _, trivial⟩, ?_⟩, trivial⟩
    simp [HookMethod.keys]
  | @binary left right lhs rhs leftName rightName operator _ _ _ _ hlhs hrhs _ _ =>
    simp only [Replacement.codes, storedAll, Code.stored, storedAll_append, stored_arithmeticCheck,
      List.append_nil] at hn
    obtain ⟨hnLeft, hnRight, hdisjoint⟩ := List.nodup_append'.1 hn
    obtain ⟨hleft, hreadLeft⟩ := hlhs.reads.held hnLeft
    obtain ⟨hright, hreadRight⟩ := hrhs.reads.held hnRight
    refine ⟨guardedAll_append.2 ⟨guardedAll_append.2 ⟨hleft, hright⟩, ?_, trivial⟩, trivial⟩
    exact guarded_arithmeticCheck s ((hreadLeft.append_left hdisjoint).among _)
      (hreadRight.append_right.among _)
  | @assignment left right target value store _ _ htarget _ hvalue =>
    refine ⟨guardedAll_append.2 ⟨guardedAll_append.2 ⟨htarget.reads.preamble, hvalue.reads.preamble⟩,
      ?_, trivial⟩, trivial⟩
    exact guarded_traced s hvalue.reads.value hvalue.reads.stored (.inl ⟨rfl, rfl⟩)
      (hvalue.reads.among _)
  | compound _ _ htarget _ hvalue _ _ hcombined =>
    rw [Replacement.codes, storedAll, Code.stored, storedAll_append] at hn
    exact ⟨guarded_compound htarget hvalue hcombined
      (List.nodup_append'.1 (List.nodup_append'.1 hn).1).1, trivial⟩
  | @declarator name init target value _ _ _ htarget hvalue =>
    refine ⟨guarded_after.2 ⟨hvalue.reads.preamble, ?_⟩, trivial⟩
    exact guarded_traced s hvalue.reads.value hvalue.reads.stored
      (.inr fun base key ho => absurd ho (not_member_of_identifierOrigin htarget base key))
      (hvalue.reads.among _)
  | returned _ hvalue =>
    refine ⟨guarded_after.2 ⟨hvalue.reads.preamble, ?_⟩, trivial⟩
    exact guarded_traced s hvalue.reads.value hvalue.reads.stored (.inr fun _ _ ho => by cases ho)
      (hvalue.reads.among _)
  | @call callee arguments called reads passed _ _ _ hcallee harguments =>
    obtain ⟨hpreamble, hfunction, hreceiver⟩ := hcallee.guarded
    simp only [Replacement.codes, storedAll, stored_after, stored_hookCall, hreceiver.stored,
      List.nil_append] at hn
    obtain ⟨-, hn, -⟩ := List.nodup_append'.1 (List.nodup_append'.1 hn).1
    obtain ⟨-, hn, -⟩ := List.nodup_append'.1 hn
    obtain ⟨hreads, needed, hneeded, hpassed⟩ := harguments.guarded (List.nodup_append'.1 hn).1
    refine ⟨guarded_after.2 ⟨hpreamble, ⟨hfunction, hreceiver.guarded, guarded_after.2 ⟨hreads, ?_⟩,
      trivial, trivial, trivial⟩, ?_⟩, trivial⟩
    · exact hpassed fun base hbase => (hneeded base hbase).2 _
    · simp [HookMethod.keys]

theorem guarded_enterCall {openAt : Nat → Prop} {known : List String} (function : NodeId)
    (scope : Scope) : Guarded openAt (s.enterCall function scope) known := by
  have hlist : ∀ {α : Type} {l : List α} {f : α → Code} {known : List String},
      (∀ x, (f x).IsPlain) → Guarded openAt (.list (l.map f)) known := fun hf =>
    (plain_all openAt _ fun c hc => by
      obtain ⟨x, -, rfl⟩ := List.mem_map.1 hc
      exact hf x).1
  unfold enterCall
  dsimp only
  split
  · refine ⟨⟨hlist fun parameter => ?_, trivial⟩, by simp [HookMethod.keys]⟩
    cases parameter <;> constructor
  · refine ⟨⟨hlist fun parameter => ?_, hlist fun _ => .quoted _, trivial⟩, by simp [HookMethod.keys]⟩
    cases parameter <;> constructor

theorem InstrumentM.change_guarded {change : Change} (h : Yields (r.change? id) s (some change) s') :
    GuardedAll r.LeavesOpen change.replacement.codes [] := by
  by_cases hr : r = .body
  · subst hr
    rcases bodyChange_ok h with ⟨_, _, _, hnone, -⟩ | ⟨_, _, hb⟩
    · cases hnone
    · cases hb.form with
      | framed => exact ⟨guarded_enterCall _ _, ⟨trivial, by simp [HookMethod.keys]⟩, trivial⟩
      | host => trivial
  · have hhosts : HostsIn (fun _ => True) s id := ⟨trivial, fun _ => trivial, fun _ => trivial⟩
    exact (change_ok hr h hhosts).2.2.guarded (change_stores hr h).nodup

end CoercionTrace
