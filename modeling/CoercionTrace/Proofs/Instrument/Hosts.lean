import CoercionTrace.Proofs.Instrument.Pass

/-!
# Functions around a construct

Main statements: the temporaries of a construct belong to the function around it, wherever in the
construct they are drawn (`hostsIn_agenda`), and the body of that function is around the construct
(`body_of_agenda`).
-/

namespace CoercionTrace

namespace SyntaxTree

def passing : List Kind :=
  [.arguments, .parenthesizedExpression, .memberExpression, .subscriptExpression]

inductive Path (t : SyntaxTree) (id : NodeId) : NodeId → Prop
  | refl : Path t id id
  | child {p c : NodeId} : Path t id p → p = id ∨ t.kind p ∈ passing → c ∈ t.children p → Path t id c

variable {t : SyntaxTree} {id o c p : NodeId}

namespace Path

theorem of_mem (h : c ∈ t.children id) : t.Path id c := .child .refl (.inl rfl) h

theorem unwrap (h : t.Path id o) : t.Path id (t.unwrap o) := by
  have key : ∀ {depth : Nat} {o : NodeId}, t.Path id o → t.Path id (t.unwrapWithin depth o) := by
    intro depth
    induction depth with
    | zero => exact fun h => h
    | succ depth ih =>
      intro o h
      rcases t.unwrapWithin_succ depth o with heq | ⟨inner, hred, heq⟩
      · rwa [heq]
      · rw [heq]
        exact ih (.child h (.inr (by simp [passing, hred.kind])) hred.mem)
  exact key h

theorem piece (hw : t.WellFormed) (h : t.Path id o) (hc : c ∈ t.pieces o) : t.Path id c := by
  cases hm : t.isPlainMember (t.unwrap o) with
  | false =>
    rw [pieces, hm] at hc
    obtain rfl := List.mem_singleton.1 hc
    exact h.unwrap
  | true =>
    refine .child h.unwrap (.inr ?_) ((pieces_children hw hm).1 c hc)
    rcases kind_of_isPlainMember hm with e | e <;> simp [passing, e]

end Path

end SyntaxTree

theorem OperandOf.path {t : SyntaxTree} {id o : NodeId} (h : OperandOf t id o) : t.Path id o := by
  cases h with
  | field _ ho => exact .of_mem (SyntaxTree.child?_mem ho)
  | argument ha hk ho =>
    refine .child (.of_mem (SyntaxTree.child?_mem ha)) (.inr ?_) (SyntaxTree.mem_of_significant ho)
    rw [hk]
    decide
  | returned ho => exact .of_mem (SyntaxTree.mem_of_significant ho)

variable {s : Instrumentation} {drawn : String → Prop} {id o c f : NodeId} {k : ScopeId}

theorem Rewrites.operandOf {r : Rule} {rep : Replacement} (h : Rewrites s drawn id r rep)
    (ho : o ∈ r.operands s.tree id) : OperandOf s.tree id o := by
  have hfields : ∀ {f g : String}, f ∈ ["left", "right", "value", "function"] →
      g ∈ ["left", "right", "value", "function"] →
      o ∈ (s.tree.child? id f).toList ++ (s.tree.child? id g).toList → OperandOf s.tree id o := by
    intro f g hf hg ho
    rcases List.mem_append.1 ho with ho | ho
    · exact .field hf (Option.mem_toList.1 ho)
    · exact .field hg (Option.mem_toList.1 ho)
  cases h with
  | terminator => cases ho
  | membership | binary | assignment | compound => exact hfields (by simp) (by simp) ho
  | declarator => exact .field (by simp) (Option.mem_toList.1 ho)
  | returned | unreturned => exact .returned (List.mem_of_head? (Option.mem_toList.1 ho))
  | call _ harguments hkind =>
    rcases List.mem_append.1 ho with ho | ho
    · exact .field (by simp) (Option.mem_toList.1 ho)
    · rw [harguments] at ho
      exact .argument harguments hkind ho

theorem Rewrites.path {r : Rule} {rep : Replacement} (hw : s.tree.WellFormed)
    (h : Rewrites s drawn id r rep) (hc : c ∈ rep.takenOver s.tree id) : s.tree.Path id c := by
  rcases h.taken with ⟨-, _, _, rfl⟩ | htakes
  · rw [Replacement.takenOver_statement] at hc
    exact .of_mem hc
  · obtain ⟨o, ho, taken, htaken, hct⟩ := htakes.source hc
    have hpath := (h.operandOf ho).path
    cases htaken with
    | inert => cases hct
    | pieces => exact hpath.piece hw hct
    | whole =>
      obtain rfl := List.mem_singleton.1 hct
      exact hpath

theorem host_of_mem (hw : s.tree.WellFormed) (hc : c ∈ s.tree.children o)
    (ho : s.scopes.scopeOf? o = none) : s.host? c = s.host? o := by
  rw [Instrumentation.host?, ScopeTable.enclosing?, SyntaxTree.ancestors_of_mem hw.linked hc,
    List.findSome?_cons, ho]
  rfl

section

variable (hw : s.tree.WellFormed) (hf : s.scopes.Fits s.tree)
include hf

theorem scopeOf_eq_none (h : (s.tree.kind id).isFunctionLike = false) :
    s.scopes.scopeOf? id = none := by
  refine Option.eq_none_iff_forall_ne_some.2 fun k hk => ?_
  rw [(hf.scope hk).1] at h
  cases h

theorem scopeOf_path {p : NodeId} (hid : (s.tree.kind id).isFunctionLike = false)
    (hp : p = id ∨ s.tree.kind p ∈ SyntaxTree.passing) : s.scopes.scopeOf? p = none := by
  refine scopeOf_eq_none hf ?_
  rcases hp with rfl | hp
  · exact hid
  · simp only [SyntaxTree.passing, List.mem_cons, List.not_mem_nil, or_false] at hp
    rcases hp with e | e | e | e <;> rw [e] <;> rfl

include hw

theorem host_of_path (hid : (s.tree.kind id).isFunctionLike = false) (h : s.tree.Path id c) :
    s.host? c = s.host? id := by
  induction h with
  | refl => rfl
  | child _ hp hc ih => rw [host_of_mem hw hc (scopeOf_path hf hid hp), ih]

theorem hostsIn_self (hid : (s.tree.kind id).isFunctionLike = false) :
    HostsIn (· = s.host? id) s id :=
  ⟨rfl, fun ho => host_of_path hw hf hid ho.path, fun ho => host_of_path hw hf hid ho.path.unwrap⟩

theorem ancestor_of_path (hid : (s.tree.kind id).isFunctionLike = false) (h : s.tree.Path id c)
    (hc : f ∈ s.tree.ancestors c) (hk : s.scopes.scopeOf? f = some k) : f ∈ s.tree.ancestors id := by
  induction h with
  | refl => exact hc
  | child _ hp hm ih =>
    rw [SyntaxTree.ancestors_of_mem hw.linked hm] at hc
    rcases List.mem_cons.1 hc with rfl | hc
    · rw [scopeOf_path hf hid hp] at hk
      cases hk
    · exact ih hc

end

theorem clear_of_agenda (hw : s.tree.WellFormed) (hid : id ∈ s.agenda) (h : s.tree.Below c id) :
    isPassthrough s.tree s.scopes c = false := by
  obtain ⟨hroot, hclear⟩ := (SyntaxTree.mem_postOrder hw.linked).1 hid
  refine hclear c ?_ h
  rcases hw.below_or_below hroot h with hbelow | hbelow
  · exact hbelow
  · obtain rfl : c = SyntaxTree.root := Nat.le_zero.1 (hw.le_of_below hbelow)
    exact .refl

theorem agenda_of_below (hw : s.tree.WellFormed) (hid : id ∈ s.agenda) (h : s.tree.Below c id) :
    c ∈ s.agenda := by
  obtain ⟨hroot, hclear⟩ := (SyntaxTree.mem_postOrder hw.linked).1 hid
  refine (SyntaxTree.mem_postOrder hw.linked).2 ⟨?_, fun a ha hac => hclear a ha (hac.trans h)⟩
  rcases hw.below_or_below hroot h with hbelow | hbelow
  · exact hbelow
  · obtain rfl : c = SyntaxTree.root := Nat.le_zero.1 (hw.le_of_below hbelow)
    exact .refl

theorem plain_of_clear (hf : s.scopes.Fits s.tree) (hk : s.scopes.scopeOf? f = some k)
    (h : isPassthrough s.tree s.scopes f = false) :
    (s.tree.kind f).IsPlainFunction ∧ (s.scopes.scope k).kind = .function := by
  obtain ⟨hlike, -, -, hkind⟩ := hf.scope hk
  unfold isPassthrough at h
  dsimp only at h
  split at h
  · cases h
  · rw [hk] at h
    have hfunction : (s.scopes.scope k).kind = .function := by
      cases hs : (s.scopes.scope k).kind with
      | function => rfl
      | passthrough => simp [hs] at h
    refine ⟨?_, hfunction⟩
    rw [hfunction, SyntaxTree.scopeKind] at hkind
    split at hkind
    · next e => exact .inl e
    · next e => exact .inr e
    · cases hkind

theorem body_of_agenda (hw : s.tree.WellFormed) (hf : s.scopes.Fits s.tree) (hid : id ∈ s.agenda)
    (hleaf : ¬ s.tree.IsLeaf id) (hk : s.scopes.scopeOf? f = some k) (hfid : f ∈ s.tree.ancestors id) :
    ∃ body, BodyOf s f k body ∧ s.tree.Below body id := by
  obtain ⟨hbelow, hlt⟩ := SyntaxTree.below_of_mem_ancestors hw.linked hfid
  obtain ⟨hplain, hfunction⟩ := plain_of_clear hf hk (clear_of_agenda hw hid hbelow)
  rcases hbelow.eq_or_child with rfl | ⟨c, hc, hcid⟩
  · exact absurd hlt (Nat.lt_irrefl _)
  · rcases hw.parts hplain hc with hbody | hparameters | hcleaf
    · exact ⟨c, ⟨hplain, hk, hfunction, hbody⟩, hcid⟩
    · have hskip := clear_of_agenda hw hid hcid
      simp [isPassthrough, hparameters] at hskip
    · rcases hcid.eq_or_child with rfl | ⟨d, hd, -⟩
      · exact absurd hcleaf hleaf
      · rw [hcleaf.1] at hd
        cases hd

end CoercionTrace
