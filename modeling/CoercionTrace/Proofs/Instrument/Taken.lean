import CoercionTrace.Proofs.Instrument.Change
import CoercionTrace.Proofs.Syntax.Shown

/-!
# What replacements take over

Main statement: a replacement takes over each operand of the construct once, from left to right,
whole or in pieces; only operands that run no code may be left out, or stand behind the others
(`Rewrites.taken`).
-/

namespace CoercionTrace

namespace Code

theorem splicedAll_append (a b : List Code) : splicedAll (a ++ b) = splicedAll a ++ splicedAll b := by
  simp [splicedAll_eq_flatMap]

theorem spliced_after (preamble : List Code) (c : Code) :
    (c.after preamble).spliced = splicedAll preamble ++ c.spliced := by
  unfold after
  cases preamble with
  | nil => rfl
  | cons a rest => simp [spliced, splicedAll_append, splicedAll]

end Code

@[simp] theorem Origin.spliced_scope (o : Origin) : o.scope.spliced = [] := by
  cases o <;> rfl

@[simp] theorem Origin.spliced_slot (o : Origin) : o.slot.spliced = [] := by
  cases o <;> rfl

namespace Instrumentation

variable (s : Instrumentation)

@[simp] theorem spliced_location (id : NodeId) : (s.location id).spliced = [] := rfl

@[simp] theorem spliced_hookCall (method : HookMethod) (arguments : List Code) :
    (s.hookCall method arguments).spliced = Code.splicedAll arguments := rfl

@[simp] theorem spliced_traced (id : NodeId) (value : Code) (target source : Origin) :
    (s.traced id value target source).spliced = value.spliced := by
  simp [traced, Code.splicedAll]

@[simp] theorem spliced_passed (i : Nat) (argument : NodeId) (stub : Stub) :
    (s.passed i argument stub).spliced = stub.value.spliced := by
  simp [passed, Code.splicedAll, Code.spliced]

@[simp] theorem spliced_arithmeticCheck (id : NodeId) (operator left right : String)
    (leftOrigin rightOrigin : Origin) :
    (s.arithmeticCheck id operator left right leftOrigin rightOrigin).spliced = [] := by
  simp [arithmeticCheck, Code.splicedAll, Code.spliced]

theorem spliced_operand (id : NodeId) : (s.operand id).spliced = [id] := by
  unfold operand SyntaxTree.operand
  dsimp only
  split <;> rfl

end Instrumentation

def Stub.splices (stub : Stub) : List NodeId := Code.splicedAll stub.preamble ++ stub.value.spliced

theorem Stub.spliced_sequence (stub : Stub) (c : Code) :
    (stub.sequence c).spliced = Code.splicedAll stub.preamble ++ c.spliced :=
  Code.spliced_after _ _

theorem splices_held (s : Instrumentation) (id : NodeId) (stub : Stub) (name : String) :
    Code.splicedAll (s.held id stub name).preamble = stub.splices ∧
      (s.held id stub name).value.spliced = [] := by
  obtain ⟨value, hpreamble, hvalue, ⟨rfl, -⟩ | ⟨rfl, -⟩⟩ := held_cases s id stub name
  · rw [hpreamble, hvalue, Code.splicedAll_append]
    simp [Stub.splices, Code.splicedAll, Code.spliced]
  · rw [hpreamble, hvalue, Code.splicedAll_append]
    simp [Stub.splices, Code.splicedAll, Code.spliced]

def Rule.operands (t : SyntaxTree) (id : NodeId) : Rule → List NodeId
  | .binary | .assignment | .compound => (t.child? id "left").toList ++ (t.child? id "right").toList
  | .declarator => (t.child? id "value").toList
  | .returning => (t.significantChildren id).head?.toList
  | .call => (t.child? id "function").toList ++
      ((t.child? id "arguments").map t.significantChildren).getD []
  | .terminator | .body => []

theorem SyntaxTree.SameShape.operands {t t' : SyntaxTree} (h : t.SameShape t') (r : Rule) (id : NodeId) :
    r.operands t' id = r.operands t id := by
  cases r <;> simp only [Rule.operands, h.child?, h.significantChildren]

inductive OperandTaken (t : SyntaxTree) (o : NodeId) : List NodeId → Prop
  | inert : t.isInert o = true → OperandTaken t o []
  | pieces : OperandTaken t o (t.pieces o)
  | whole : OperandTaken t o [o]

variable {s : Instrumentation} {drawn : String → Prop} {id : NodeId} {stub : Stub}

theorem isInert_of_identifier {t : SyntaxTree} (h : t.kind (t.unwrap id) = .identifier) :
    t.isInert id = true := by
  simp [SyntaxTree.isInert, h]

theorem MemberStub.splices (hm : s.tree.isPlainMember (s.tree.unwrap id) = true)
    (h : MemberStub s.tree drawn (s.tree.unwrap id) stub) :
    Code.splicedAll stub.preamble = s.tree.pieces id ∧ stub.value.spliced = [] ∧
      ∀ store, stub.store = some store → store.spliced = [] := by
  obtain ⟨object, ho, hpieces⟩ := SyntaxTree.pieces_of_member hm
  cases h with
  | mk ho' hkey _ _ =>
    cases ho.symm.trans ho'
    refine ⟨?_, rfl, fun store hs => by cases hs; rfl⟩
    rcases hpieces with ⟨hk, e⟩ | ⟨hk, index, hi, e⟩
    · cases hkey with
      | property => rw [e]; rfl
      | index hn => exact absurd hk hn
    · cases hkey with
      | property hk' => exact absurd hk' hk
      | index _ hi' =>
        cases hi.symm.trans hi'
        have hkey : (s.tree.operand index).spliced = [index] := s.spliced_operand index
        rw [e]
        simp [Code.splicedAll, Code.spliced, hkey]

theorem OperandStub.taken (h : OperandStub s drawn id stub) : OperandTaken s.tree id stub.splices := by
  cases h with
  | identifier h =>
    cases h with
    | mk hk _ => exact .inert (isInert_of_identifier hk)
  | member hm h =>
    obtain ⟨hpreamble, hvalue, -⟩ := h.splices hm
    rw [Stub.splices, hpreamble, hvalue, List.append_nil]
    exact .pieces
  | call hc =>
    have hk := SyntaxTree.kind_of_isCheckedCall hc
    have hpieces : s.tree.pieces id = [s.tree.unwrap id] := by
      rw [SyntaxTree.pieces]
      refine if_neg fun hm => ?_
      rcases SyntaxTree.kind_of_isPlainMember hm with e | e <;>
        exact absurd (hk.symm.trans e) (by decide)
    have htaken := OperandTaken.pieces (t := s.tree) (o := id)
    rw [hpieces] at htaken
    exact htaken
  | whole =>
    simp only [Stub.splices, Code.splicedAll, List.nil_append, s.spliced_operand]
    exact .whole

theorem TargetStub.taken (h : TargetStub s drawn id stub) :
    OperandTaken s.tree id (Code.splicedAll stub.preamble) ∧ stub.value.spliced = [] ∧
      ∀ store, stub.store = some store → store.spliced = [] := by
  cases h with
  | identifier h =>
    cases h with
    | mk hk _ =>
      refine ⟨.inert (isInert_of_identifier hk), rfl, fun store hs => ?_⟩
      cases hs
      rfl
  | member hm h =>
    obtain ⟨hpreamble, hrest⟩ := h.splices hm
    exact ⟨hpreamble ▸ .pieces, hrest⟩

theorem le_of_find?_reverse {p : Nat → Bool} {n last i : Nat}
    (h : (List.range n).reverse.find? p = some last) (hi : i < n) (hp : p i = true) : i ≤ last := by
  induction n with
  | zero => exact absurd hi (Nat.not_lt_zero i)
  | succ n ih =>
    rw [List.range_succ, List.reverse_append, List.reverse_singleton, List.singleton_append,
      List.find?_cons] at h
    split at h
    · cases h
      exact Nat.le_of_lt_succ hi
    · next hn =>
      refine ih h (Nat.lt_of_le_of_ne (Nat.le_of_lt_succ hi) fun e => ?_)
      rw [e, hn] at hp
      cases hp

theorem isInert_of_not_held {arguments : List NodeId} {i : Nat} {a : NodeId}
    (ha : arguments[i]? = some a) (h : s.isHeld (s.heldUntil? arguments) i a = false) :
    s.tree.isInert a = true := by
  refine Bool.eq_true_of_not_eq_false fun hlive => ?_
  have hconstant : (s.tree.kind (s.tree.unwrap a)).isConstant = false := by
    rw [SyntaxTree.isInert, Bool.or_eq_false_iff] at hlive
    exact hlive.2
  have hi : i < arguments.length := (List.getElem?_eq_some_iff.1 ha).1
  cases hlast : s.heldUntil? arguments with
  | none =>
    have hnone := List.find?_eq_none.1 hlast i (by simpa using hi)
    simp [ha, hlive] at hnone
  | some last =>
    have hle : i ≤ last := le_of_find?_reverse hlast hi (by simp [ha, hlive])
    simp [Instrumentation.isHeld, hlast, hle, hconstant] at h

theorem ArgumentsForm.taken {heldUntil : Option Nat} {i : Nat} {arguments : List NodeId}
    {reads passed : List Code} (h : ArgumentsForm s drawn heldUntil i arguments reads passed)
    (hinert : ∀ j a, arguments[j]? = some a → s.isHeld heldUntil (i + j) a = false →
      s.tree.isInert a = true) :
    ∃ front back : List (NodeId × List NodeId),
      Code.splicedAll reads = front.flatMap Prod.snd ∧
      Code.splicedAll passed = back.flatMap Prod.snd ∧ front.map Prod.fst = arguments ∧
      (∀ x ∈ front ++ back, OperandTaken s.tree x.1 x.2) ∧ (back.map Prod.fst).Sublist arguments ∧
      ∀ x ∈ back, s.tree.isInert x.1 = true ∧ (x.1, []) ∈ front := by
  induction h with
  | nil => exact ⟨[], [], rfl, rfl, rfl, by simp, by simp, by simp⟩
  | @held i argument rest stub name reads passed _ hstub _ _ ih =>
    obtain ⟨front, back, hreads, hpassed, hfront, htaken, hsublist, hback⟩ :=
      ih fun j a ha hh => hinert (j + 1) a (by simpa using ha) (by rwa [Nat.add_right_comm] at hh)
    obtain ⟨hpreamble, hvalue⟩ := splices_held s argument stub name
    refine ⟨(argument, stub.splices) :: front, back, ?_, ?_, by simp [hfront], ?_, hsublist.cons _, ?_⟩
    · rw [Code.splicedAll_append, hpreamble, hreads]
      rfl
    · rw [Code.splicedAll, s.spliced_passed, hvalue, hpassed]
      rfl
    · exact List.forall_mem_cons.2 ⟨hstub.taken, htaken⟩
    · exact fun x hx => ⟨(hback x hx).1, List.mem_cons_of_mem _ (hback x hx).2⟩
  | @direct i argument rest stub reads passed hheld hstub _ ih =>
    obtain ⟨front, back, hreads, hpassed, hfront, htaken, hsublist, hback⟩ :=
      ih fun j a ha hh => hinert (j + 1) a (by simpa using ha) (by rwa [Nat.add_right_comm] at hh)
    have hargument := hinert 0 argument rfl hheld
    refine ⟨(argument, []) :: front, (argument, stub.splices) :: back, ?_, ?_, by simp [hfront], ?_,
      hsublist.cons_cons _, ?_⟩
    · rw [hreads]
      rfl
    · rw [Code.splicedAll, stub.spliced_sequence, s.spliced_passed, hpassed]
      rfl
    · intro x hx
      rcases List.mem_append.1 hx with hx | hx
      · rcases List.mem_cons.1 hx with rfl | hx
        · exact .inert hargument
        · exact htaken x (List.mem_append_left _ hx)
      · rcases List.mem_cons.1 hx with rfl | hx
        · exact hstub.taken
        · exact htaken x (List.mem_append_right _ hx)
    · refine List.forall_mem_cons.2 ⟨⟨hargument, List.mem_cons_self⟩, fun x hx => ?_⟩
      exact ⟨(hback x hx).1, List.mem_cons_of_mem _ (hback x hx).2⟩

/-- Operands are taken over in this order; those that run no code may also be left out, or stand
behind the others. -/
def Takes (t : SyntaxTree) (operands nodes : List NodeId) : Prop :=
  ∃ front back : List (NodeId × List NodeId),
    nodes = front.flatMap Prod.snd ++ back.flatMap Prod.snd ∧ front.map Prod.fst = operands ∧
    (∀ x ∈ front ++ back, OperandTaken t x.1 x.2) ∧ (back.map Prod.fst).Sublist operands ∧
    ∀ x ∈ back, t.isInert x.1 = true ∧ (x.1, []) ∈ front

theorem Takes.one {t : SyntaxTree} {o : NodeId} {nodes : List NodeId} (h : OperandTaken t o nodes) :
    Takes t [o] nodes :=
  ⟨[(o, nodes)], [], by simp, rfl, by simpa using h, by simp, by simp⟩

theorem Takes.two {t : SyntaxTree} {o o' : NodeId} {nodes nodes' : List NodeId}
    (h : OperandTaken t o nodes) (h' : OperandTaken t o' nodes') :
    Takes t [o, o'] (nodes ++ nodes') :=
  ⟨[(o, nodes), (o', nodes')], [], by simp, rfl, by simpa using ⟨h, h'⟩, by simp, by simp⟩

theorem Takes.source {t : SyntaxTree} {operands nodes : List NodeId} {c : NodeId}
    (h : Takes t operands nodes) (hc : c ∈ nodes) :
    ∃ o ∈ operands, ∃ taken, OperandTaken t o taken ∧ c ∈ taken := by
  obtain ⟨front, back, rfl, rfl, htaken, hsublist, -⟩ := h
  rcases List.mem_append.1 hc with hc | hc
  · obtain ⟨x, hx, hc⟩ := List.mem_flatMap.1 hc
    exact ⟨x.1, List.mem_map_of_mem hx, x.2, htaken x (List.mem_append_left _ hx), hc⟩
  · obtain ⟨x, hx, hc⟩ := List.mem_flatMap.1 hc
    exact ⟨x.1, hsublist.subset (List.mem_map_of_mem hx), x.2,
      htaken x (List.mem_append_right _ hx), hc⟩

theorem CalleeForm.taken {callee : NodeId} {called : Callee} (h : CalleeForm s drawn callee called) :
    OperandTaken s.tree callee
      (Code.splicedAll called.preamble ++ called.function.spliced ++ called.receiver.spliced) := by
  cases h with
  | whole => exact .whole
  | member hm h =>
    obtain ⟨hpreamble, hvalue, -⟩ := h.splices hm
    rw [hpreamble, hvalue, Origin.spliced_scope, List.append_nil, List.append_nil]
    exact .pieces

theorem Rewrites.taken {r : Rule} {rep : Replacement} (h : Rewrites s drawn id r rep) :
    ((r = .terminator ∨ r = .returning) ∧
      ∃ leading trailing, rep = .statement leading (s.tree.text id) trailing) ∨
      Takes s.tree (r.operands s.tree id) (rep.takenOver s.tree id) := by
  cases h with
  | terminator => exact .inl ⟨.inl rfl, _, _, rfl⟩
  | unreturned => exact .inl ⟨.inr rfl, _, _, rfl⟩
  | @membership left right _ hleft hright =>
    refine .inr ?_
    have htakes := Takes.two (OperandTaken.whole (t := s.tree) (o := left))
      (OperandTaken.whole (t := s.tree) (o := right))
    simpa [Rule.operands, hleft, hright, Code.splicedAll,
      s.spliced_operand] using htakes
  | @binary left right lhs rhs leftName rightName _ _ _ hleft hright hlhs hrhs =>
    refine .inr ?_
    have htakes := Takes.two hlhs.taken hrhs.taken
    simpa [Rule.operands, hleft, hright, Code.spliced, Code.splicedAll,
      Code.splicedAll_append, splices_held] using htakes
  | @assignment left right target value store hleft hright htarget hstore hvalue =>
    refine .inr ?_
    obtain ⟨htaken, -, hspliced⟩ := htarget.taken
    have htakes := Takes.two htaken hvalue.taken
    simpa [Rule.operands, hleft, hright, Code.spliced, Code.splicedAll,
      Code.splicedAll_append, hspliced store hstore, Stub.splices] using htakes
  | @compound left right target value store combined current operand _ hleft hright htarget hstore
      hvalue _ _ hcombined =>
    refine .inr ?_
    obtain ⟨htaken, hread, hspliced⟩ := htarget.taken
    have htakes := Takes.two htaken hvalue.taken
    have hcombined : combined.spliced = [] := by
      rcases hcombined with rfl | rfl
      · exact s.spliced_arithmeticCheck _ _ _ _ _ _
      · rfl
    simpa [Rule.operands, hleft, hright, Code.spliced, Code.splicedAll,
      Code.splicedAll_append, hspliced store hstore, hread, hcombined, splices_held] using htakes
  | @declarator name init target value hname hinit _ _ hvalue =>
    refine .inr ?_
    have htakes := Takes.one hvalue.taken
    simpa [Rule.operands, hinit, Code.spliced, Stub.spliced_sequence,
      Stub.splices] using htakes
  | @returned argument value hargument hvalue =>
    refine .inr ?_
    have htakes := Takes.one hvalue.taken
    simpa [Rule.operands, hargument, Stub.spliced_sequence,
      Stub.splices] using htakes
  | @call callee arguments called reads passed hcallee harguments _ hcalled hform =>
    -- the texts that are read ahead come first, then those passed as they are
    refine .inr ?_
    obtain ⟨front, back, hreads, hpassed, hfront, htaken, hsublist, hback⟩ :=
      hform.taken fun j a ha hh => isInert_of_not_held ha (by simpa using hh)
    refine ⟨(callee, Code.splicedAll called.preamble ++ called.function.spliced ++
      called.receiver.spliced) :: front, back, ?_, ?_, ?_, ?_, ?_⟩
    · simp [Code.spliced_after, Code.spliced, Code.splicedAll, hreads, hpassed]
    · simp [Rule.operands, hcallee, harguments, hfront]
    · exact List.forall_mem_cons.2 ⟨hcalled.taken, htaken⟩
    · simpa [Rule.operands, hcallee, harguments] using hsublist.cons callee
    · exact fun x hx => ⟨(hback x hx).1, List.mem_cons_of_mem _ (hback x hx).2⟩

end CoercionTrace
