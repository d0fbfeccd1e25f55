import CoercionTrace.Proofs.Syntax.Places
import CoercionTrace.Syntax.Worklist

/-!
# Walks by a stack

What a loop does with what is on top of a stack does not depend on what lies under it, so subtrees are
done one by one. Main statement: the loop that expands nodes lists what is left of the tree when the
skipped nodes are cut off, children before parents and sibling by sibling (`postOrder_walked`).
-/

namespace CoercionTrace

section

variable {α β σ : Type} {visit : α → σ → List α × σ} {top : α} {stack stack' pushed : List α}
  {s s' s'' : σ} {pops pops' n : Nat}

def Drains (visit : α → σ → List α × σ) (stack : List α) (s : σ) (pops : Nat) (s' : σ) : Prop :=
  ∀ more rest, drain visit (pops + more) (stack ++ rest) s = drain visit more rest s'

theorem Drains.nil : Drains visit [] s 0 s := by
  intro more rest
  rw [Nat.zero_add, List.nil_append]

theorem Drains.append (h : Drains visit stack s pops s') (h' : Drains visit stack' s' pops' s'') :
    Drains visit (stack ++ stack') s (pops + pops') s'' := by
  intro more rest
  rw [Nat.add_assoc, List.append_assoc, h, h']

theorem Drains.step (hv : visit top s = (pushed, s')) (h : Drains visit pushed.reverse s' pops s'') :
    Drains visit [top] s (pops + 1) s'' := by
  intro more rest
  rw [Nat.add_right_comm, List.singleton_append, drain, hv]
  exact h more rest

theorem drain_nil (n : Nat) : drain visit n [] s = some s := by
  cases n <;> rfl

theorem Drains.drain (h : Drains visit stack s pops s') (hn : pops ≤ n) :
    drain visit n stack s = some s' := by
  obtain ⟨more, rfl⟩ := Nat.exists_eq_add_of_le hn
  rw [← List.append_nil stack, h, drain_nil]

theorem Drains.flatMap {γ : Type} {visit : α → List β → List α × List β} {cost : Nat}
    {part : γ → List α} {listed : γ → List β} (cs : List γ)
    (h : ∀ c ∈ cs, ∀ order, Drains visit (part c) order (cost * (listed c).length)
      (order ++ listed c)) (order : List β) :
    Drains visit (cs.flatMap part) order (cost * (cs.flatMap listed).length)
      (order ++ cs.flatMap listed) := by
  induction cs generalizing order with
  | nil =>
    rw [List.flatMap_nil, List.flatMap_nil, List.append_nil]
    exact .nil
  | cons c rest ih =>
    rw [List.flatMap_cons, List.flatMap_cons, List.length_append, Nat.mul_add, ← List.append_assoc]
    exact (h c List.mem_cons_self order).append (ih (fun d hd => h d (List.mem_cons_of_mem _ hd)) _)

end

namespace SyntaxTree

variable {t : SyntaxTree} {skip : NodeId → Bool} {a b c id p : NodeId} {depth depth' : Nat}

theorem preOrderWithin_drains (hl : t.Linked) (hid : id < t.size) (hd : t.size - id ≤ depth)
    (order : List NodeId) : Drains t.preOrderVisit [id] order
      (1 * (t.preOrderWithin depth id).length) (order ++ t.preOrderWithin depth id) := by
  induction depth generalizing id order with
  | zero => exact absurd (Nat.le_zero.1 hd) (Nat.sub_ne_zero_of_lt hid)
  | succ depth ih =>
    have hbelow := Drains.flatMap (t.children id) (fun c hc => ih (hl.child hc).2.1
      (WellFormed.sub_le_of_lt (hl.child hc).1 hd)) (order ++ [id])
    rw [List.flatMap_singleton', List.append_assoc] at hbelow
    rw [preOrderWithin, List.length_cons, Nat.mul_succ]
    have hvisit : t.preOrderVisit id order = ((t.children id).reverse, order ++ [id]) := rfl
    refine .step hvisit ?_
    rw [List.reverse_reverse]
    exact hbelow

theorem reverse_unskipped (cs : List NodeId) :
    ((cs.reverse.filter fun c => !skip c).map (·, false)).reverse =
      cs.flatMap fun c => if skip c then [] else [(c, false)] := by
  rw [← List.map_reverse, List.filter_reverse, List.reverse_reverse]
  induction cs with
  | nil => rfl
  | cons c rest ih => cases h : skip c <;> simp [h, ih]

theorem postOrderWithin_drains (hl : t.Linked) (hid : id < t.size) (hd : t.size - id ≤ depth)
    (order : List NodeId) : Drains (t.postOrderVisit skip)
      (if skip id then [] else [(id, false)]) order
      (2 * (t.postOrderWithin skip depth id).length) (order ++ t.postOrderWithin skip depth id) := by
  induction depth generalizing id order with
  | zero => exact absurd (Nat.le_zero.1 hd) (Nat.sub_ne_zero_of_lt hid)
  | succ depth ih =>
    rw [postOrderWithin]
    split
    · rw [List.append_nil]
      exact .nil
    · have hbelow := Drains.flatMap (t.children id) (fun c hc => ih (hl.child hc).2.1
        (WellFormed.sub_le_of_lt (hl.child hc).1 hd)) order
      have hself : Drains (t.postOrderVisit skip) [(id, true)]
          (order ++ (t.children id).flatMap (t.postOrderWithin skip depth)) 1
          (order ++ (t.children id).flatMap (t.postOrderWithin skip depth) ++ [id]) :=
        .step rfl .nil
      rw [← reverse_unskipped] at hbelow
      rw [List.length_append, Nat.mul_add, ← List.append_assoc]
      refine .step rfl ?_
      rw [List.reverse_cons]
      exact hbelow.append hself

theorem preOrderLoop_eq (hl : t.Linked) {pops : Nat} (h : t.preOrder.length ≤ pops) :
    t.preOrderLoop pops = some t.preOrder := by
  refine (preOrderWithin_drains hl hl.root_lt (Nat.sub_le _ _) []).drain ?_
  rwa [Nat.one_mul]

theorem postOrderLoop_eq (hl : t.Linked) {pops : Nat} (h : 2 * (t.postOrder skip).length ≤ pops) :
    t.postOrderLoop skip pops = some (t.postOrder skip) := by
  have hdrains : Drains (t.postOrderVisit skip) (if skip root then [] else [(root, false)]) []
      (2 * (t.postOrder skip).length) ([] ++ t.postOrder skip) :=
    postOrderWithin_drains hl hl.root_lt (Nat.sub_le _ _) []
  unfold postOrderLoop
  split
  · next hskip =>
    rw [if_pos hskip] at hdrains
    exact (drain_nil pops).symm.trans (hdrains.drain h)
  · next hskip =>
    rw [if_neg hskip] at hdrains
    exact hdrains.drain h

theorem postOrderWithin_of_le (hl : t.Linked) (hid : id < t.size) (h : t.size - id ≤ depth)
    (h' : t.size - id ≤ depth') :
    t.postOrderWithin skip depth id = t.postOrderWithin skip depth' id := by
  induction depth generalizing id depth' with
  | zero => exact absurd (Nat.le_zero.1 h) (Nat.sub_ne_zero_of_lt hid)
  | succ depth ih =>
    cases depth' with
    | zero => exact absurd (Nat.le_zero.1 h') (Nat.sub_ne_zero_of_lt hid)
    | succ depth' =>
      rw [postOrderWithin, postOrderWithin]
      have hbelow : (t.children id).flatMap (t.postOrderWithin skip depth) =
          (t.children id).flatMap (t.postOrderWithin skip depth') := by
        refine List.flatMap_congr fun c hc => ?_
        obtain ⟨hlt, hsize, -⟩ := hl.child hc
        exact ih hsize (WellFormed.sub_le_of_lt hlt h) (WellFormed.sub_le_of_lt hlt h')
      rw [hbelow]

def postOrderFrom (t : SyntaxTree) (skip : NodeId → Bool) (id : NodeId) : List NodeId :=
  t.postOrderWithin skip t.size id

theorem postOrderFrom_eq (hl : t.Linked) (hid : id < t.size) : t.postOrderFrom skip id =
    if skip id then [] else (t.children id).flatMap (t.postOrderFrom skip) ++ [id] := by
  have hbelow : (t.children id).flatMap (t.postOrderWithin skip t.size) =
      (t.children id).flatMap (t.postOrderFrom skip) := rfl
  rw [postOrderFrom, postOrderWithin_of_le hl hid (Nat.sub_le _ _) (Nat.le_succ_of_le (Nat.sub_le _ _)),
    postOrderWithin, hbelow]

theorem mem_postOrderFrom (hl : t.Linked) (hid : id < t.size) : c ∈ t.postOrderFrom skip id ↔
    t.Below id c ∧ ∀ a, t.Below id a → t.Below a c → skip a = false :=
  mem_postOrderWithin hl hid (Nat.sub_le _ _)

theorem postOrderFrom_infix (hl : t.Linked) (hid : id < t.size) (hc : c ∈ t.postOrderFrom skip id) :
    t.postOrderFrom skip c <:+: t.postOrderFrom skip id := by
  obtain ⟨hbelow, hclear⟩ := (mem_postOrderFrom hl hid).1 hc
  clear hc
  induction hbelow with
  | refl => exact List.infix_refl _
  | @child p c hp hc ih =>
    have hskip : skip p = false := hclear p hp (.of_mem hc)
    have hlisted := ih fun a ha hap => hclear a ha (.child hap hc)
    refine List.IsInfix.trans ?_ hlisted
    rw [postOrderFrom_eq hl (hl.lt_size_of_below hp hid), hskip, if_neg Bool.false_ne_true]
    refine List.IsInfix.trans ?_ (List.prefix_append _ _).isInfix
    exact List.infix_of_mem_flatten (List.mem_map_of_mem hc)

theorem below_root (hr : t.Rooted) (hid : id < t.size) : t.Below root id := by
  induction id using Nat.strongRecOn with
  | ind id ih =>
    cases hp : t.parent id with
    | none =>
      rw [hr.eq_root hid hp]
      exact .refl
    | some p =>
      have hc := hr.mem hp
      have hlt := (hr.child hc).1
      exact .child (ih p hlt (Nat.lt_trans hlt hid)) hc

theorem mem_cons_ancestors (hl : t.Linked) : a ∈ id :: t.ancestors id ↔ t.Below a id := by
  rw [List.mem_cons, mem_ancestors_iff hl]
  constructor
  · rintro (rfl | ⟨h, -⟩)
    · exact .refl
    · exact h
  · intro h
    by_cases e : a = id
    · exact .inl e
    · exact .inr ⟨h, e⟩

/-- A list of what is left of the tree when the skipped nodes are cut off, children first. -/
structure Walked (t : SyntaxTree) (skip : NodeId → Bool) (order : List NodeId) : Prop where
  mem : ∀ id, id ∈ order ↔ id < t.size ∧ ∀ a ∈ id :: t.ancestors id, skip a = false
  nodup : order.Nodup
  after : order.Pairwise fun a b => a ∉ t.ancestors b
  recursive : order = t.postOrderFrom skip root ∧ ∀ id < t.size, t.postOrderFrom skip id =
    if skip id then [] else (t.children id).flatMap (t.postOrderFrom skip) ++ [id]
  contiguous : ∀ id ∈ order, t.postOrderFrom skip id <:+: order
  subtree : ∀ id ∈ order, ∀ c ∈ t.children id, ∀ d,
    d ∈ t.postOrderFrom skip c ↔ d ∈ order ∧ c ∈ d :: t.ancestors d
  skipped : skip root = true → order = []

end SyntaxTree

open SyntaxTree

/-- The loop lists what the recursive traversal does. -/
theorem postOrder_walked {t : SyntaxTree} (hr : t.Rooted) (skip : NodeId → Bool) :
    t.Walked skip (t.postOrder skip) ∧
    ∀ pops, 2 * (t.postOrder skip).length ≤ pops →
      t.postOrderLoop skip pops = some (t.postOrder skip) := by
  have hl := hr.toLinked
  have hmem : ∀ {id}, id ∈ t.postOrder skip ↔ id < t.size ∧ ∀ a, t.Below a id → skip a = false := by
    intro id
    rw [mem_postOrder hl]
    constructor
    · rintro ⟨hroot, hclear⟩
      have hlt := hl.lt_size_of_below hroot hl.root_lt
      refine ⟨hlt, fun a ha => hclear a (below_root hr ?_) ha⟩
      exact Nat.lt_of_le_of_lt (hl.le_of_below ha) hlt
    · rintro ⟨hlt, hclear⟩
      exact ⟨below_root hr hlt, fun a _ ha => hclear a ha⟩
  have hpairwise : (t.postOrder skip).Pairwise fun a b => ¬ t.Below a b := postOrder_pairwise hl
  refine ⟨?_, fun pops h => postOrderLoop_eq hl h⟩
  exact {
    mem := fun id => by simp only [hmem, mem_cons_ancestors hl]
    nodup := hpairwise.imp fun {a b} h (e : a = b) => h (e ▸ .refl)
    after := hpairwise.imp fun h hab => h (below_of_mem_ancestors hl hab).1
    recursive := ⟨rfl, fun id hid => postOrderFrom_eq hl hid⟩
    contiguous := fun id hid => postOrderFrom_infix hl hl.root_lt hid
    subtree := fun id hid c hc d => by
      obtain ⟨-, hclear⟩ := hmem.1 hid
      rw [mem_postOrderFrom hl (hl.child hc).2.1, hmem, mem_cons_ancestors hl]
      constructor
      · rintro ⟨hcd, hd⟩
        refine ⟨⟨hl.lt_size_of_below hcd (hl.child hc).2.1, fun a ha => ?_⟩, hcd⟩
        -- What is above `d` is at or below `c`, or above it.
        rcases hl.below_or_below ha hcd with h | h
        · rcases h.eq_or_mem with rfl | ⟨q, hq, haq⟩
          · exact hd c .refl hcd
          · obtain rfl := hl.parent_unique hc hq
            exact hclear a haq
        · exact hd a h ha
      · rintro ⟨⟨-, hd⟩, hcd⟩
        exact ⟨hcd, fun a _ ha => hd a ha⟩
    skipped := fun hskip => by
      refine (postOrderFrom_eq hl hl.root_lt).trans ?_
      rw [hskip, if_pos rfl] }

def arrowBesideSum : SyntaxTree :=
  .ofConcrete "var f = () => a + b; c + d;".toList
    (.named "program" 0 27 none [
      .named "variable_declaration" 0 20 none [
        .mark "var" 0 3 none,
        .named "variable_declarator" 4 19 none [
          .named "identifier" 4 5 (some "name") [],
          .mark "=" 6 7 none,
          .named "arrow_function" 8 19 (some "value") [
            .named "formal_parameters" 8 10 (some "parameters") [],
            .mark "=>" 11 13 none,
            .named "binary_expression" 14 19 (some "body") [
              .named "identifier" 14 15 (some "left") [],
              .mark "+" 16 17 (some "operator"),
              .named "identifier" 18 19 (some "right") []]]],
        .mark ";" 19 20 none],
      .named "expression_statement" 21 27 none [
        .named "binary_expression" 21 26 none [
          .named "identifier" 21 22 (some "left") [],
          .mark "+" 23 24 (some "operator"),
          .named "identifier" 25 26 (some "right") []],
        .mark ";" 26 27 none]])

theorem postOrder_walked_arrowBesideSum :
    let skip := fun id => arrowBesideSum.kind id == .arrowFunction
    arrowBesideSum.Rooted ∧ arrowBesideSum.postOrder skip = [3, 2, 1, 11, 12, 10, 9, 0] ∧
    arrowBesideSum.Walked skip (arrowBesideSum.postOrder skip) ∧
    arrowBesideSum.postOrderLoop skip 16 = some (arrowBesideSum.postOrder skip) := by
  intro skip
  have hr : arrowBesideSum.Rooted := rooted_ofConcrete _ _
  have horder : arrowBesideSum.postOrder skip = [3, 2, 1, 11, 12, 10, 9, 0] := by decide +kernel
  obtain ⟨hwalked, hloop⟩ := postOrder_walked hr skip
  exact ⟨hr, horder, hwalked, hloop 16 (by rw [horder]; decide)⟩

end CoercionTrace
