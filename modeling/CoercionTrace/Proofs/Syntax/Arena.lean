import CoercionTrace.Proofs.Syntax.Walks
import Mathlib.Data.List.Infix

/-!
# The arena

A subtree is numbered from its root on, in one go, since it is popped before what lies under it; its
root is hung up when it is popped, behind the siblings ahead of it. Main statement: the loop and the
recursion make the same tree of a concrete tree, and it mirrors the concrete tree
(`ofConcrete_mirrors`).
-/

namespace CoercionTrace

namespace Concrete

variable {c d tree : Concrete} {cs : List Concrete} {p q : Address} {k : Nat} {source : List Char}

section

variable {α : Type} {l more : List α} {f : α → α} {i : Nat}

theorem modify_append_of_lt (h : i < l.length) : (l ++ more).modify i f = l.modify i f ++ more := by
  induction l generalizing i with
  | nil => cases h
  | cons a rest ih =>
    cases i with
    | zero => rfl
    | succ i => exact congrArg (a :: ·) (ih (Nat.lt_of_succ_lt_succ h))

theorem modify_append_length (a : α) : (l ++ [a]).modify l.length f = l ++ [f a] := by
  induction l with
  | nil => rfl
  | cons b rest ih => exact congrArg (b :: ·) ih

end

def hangAll (ids : List NodeId) (parent : NodeId) (nodes : List Node) : List Node :=
  nodes.modify parent fun n => { n with children := n.children ++ ids }

theorem hangAll_nil (parent : NodeId) (nodes : List Node) : hangAll [] parent nodes = nodes := by
  have hid : (fun n : Node => { n with children := n.children ++ [] }) = id := by
    funext n
    rw [List.append_nil]
    rfl
  rw [hangAll, hid, List.modify_id]

theorem hangAll_hangAll (id : NodeId) (ids : List NodeId) (parent : NodeId) (nodes : List Node) :
    hangAll ids parent (hangAll [id] parent nodes) = hangAll (id :: ids) parent nodes := by
  rw [hangAll, hangAll, List.modify_modify_eq]
  refine congrArg (nodes.modify parent) (funext fun n => ?_)
  rw [Function.comp_apply, List.append_assoc]
  rfl

theorem length_hang (id : NodeId) (parent : Option NodeId) (nodes : List Node) :
    (hang id parent nodes).length = nodes.length := by
  cases parent with
  | none => rfl
  | some p => exact List.length_modify _ _ _

theorem hang_append {id : NodeId} {parent : Option NodeId} {nodes more : List Node}
    (h : ∀ p ∈ parent, p < nodes.length) : hang id parent (nodes ++ more) = hang id parent nodes ++ more := by
  cases parent with
  | none => rfl
  | some p => exact modify_append_of_lt (h p rfl)

mutual

theorem toNodes_drains {parent : Option NodeId} {nodes : List Node} :
    (c : Concrete) → (∀ p ∈ parent, p < nodes.length) →
    Drains (arenaVisit source) [(c, parent)] nodes c.slots.length
      (hang nodes.length parent nodes ++ c.toNodes source parent nodes.length)
  | .node token children => by
    intro hparent
    generalize hhung : hang nodes.length parent nodes = hung
    have hlength : nodes.length = hung.length := by rw [← hhung, length_hang]
    let entry := toNode source parent token children []
    have hlt : hung.length < (hung ++ [entry]).length := by
      rw [List.length_append]
      exact Nat.lt_succ_self _
    have hbelow := childNodes_drains (k := 0) children hlt
    have hfilled : ∀ ids, hangAll ids hung.length (hung ++ [entry]) =
        hung ++ [toNode source parent token children ids] := fun ids => modify_append_length entry
    rw [hfilled, List.append_assoc, List.length_append] at hbelow
    rw [slots, toNodes, hlength]
    have hvisit : arenaVisit source (.node token children, parent) nodes =
        ((children.filter fun c => c.token.named).reverse.map (·, some hung.length),
          hung ++ [entry]) := by
      rw [arenaVisit, hang_append hparent, hhung, hlength]
    refine .step hvisit ?_
    rw [← List.map_reverse, List.reverse_reverse]
    exact hbelow

theorem childNodes_drains {parent : NodeId} {nodes : List Node} {k : Nat} :
    (cs : List Concrete) → parent < nodes.length →
    Drains (arenaVisit source) ((cs.filter fun c => c.token.named).map (·, some parent)) nodes
      (slotsAmong k cs).length
      (hangAll (childNodes source parent nodes.length cs).1 parent nodes ++
        (childNodes source parent nodes.length cs).2)
  | [] => fun _ => by
    rw [childNodes, hangAll_nil, List.append_nil]
    exact .nil
  | c :: rest => by
    intro hlt
    rw [slotsAmong, childNodes, List.filter_cons]
    split
    · let first := c.toNodes source (some parent) nodes.length
      let hung := hang nodes.length (some parent) nodes
      have hlength : (hung ++ first).length = nodes.length + first.length := by
        rw [List.length_append, length_hang]
      have hparent : ∀ p ∈ some parent, p < nodes.length := fun p hp => Option.some.inj hp ▸ hlt
      have hlt' : parent < (hung ++ first).length := by
        rw [hlength]
        exact Nat.lt_of_lt_of_le hlt (Nat.le_add_right _ _)
      have hfirst := toNodes_drains c hparent
      have hrest := childNodes_drains (k := k + 1) rest hlt'
      have hall : ∀ ids, hangAll ids parent (hung ++ first) =
          hangAll (nodes.length :: ids) parent nodes ++ first := by
        intro ids
        rw [← hangAll_hangAll]
        refine modify_append_of_lt ?_
        rwa [length_hang]
      rw [hall, hlength, List.append_assoc] at hrest
      rw [List.length_append, List.length_map]
      exact hfirst.append hrest
    · exact childNodes_drains rest hlt

end

theorem arenaLoop_eq {pops : Nat} (h : tree.slots.length ≤ pops) :
    arenaLoop source tree pops = some (tree.toNodes source none 0) := by
  have hnone : ∀ p ∈ (none : Option NodeId), p < ([] : List Node).length := by
    intro p hp
    cases hp
  exact (toNodes_drains tree hnone).drain h

end Concrete

namespace SyntaxTree

open Concrete

variable {t : SyntaxTree} {source : List Char} {tree c : Concrete} {id : NodeId} {p : Address}

theorem ancestors_isChain (hl : t.Linked) (id : NodeId) :
    (id :: t.ancestors id).IsChain fun a b => t.parent a = some b := by
  induction id using Nat.strongRecOn with
  | ind id ih =>
    cases hp : t.parent id with
    | none =>
      rw [ancestors_of_none hp]
      exact .singleton id
    | some p =>
      have hc := hl.mem hp
      rw [ancestors_of_mem hl hc]
      exact (ih p (hl.child hc).1).cons_cons hp

theorem getLast?_ancestors (hr : t.Rooted) (hid : id < t.size) :
    (id :: t.ancestors id).getLast? = some root := by
  induction id using Nat.strongRecOn with
  | ind id ih =>
    cases hp : t.parent id with
    | none =>
      rw [ancestors_of_none hp, hr.eq_root hid hp]
      rfl
    | some p =>
      have hc := hr.mem hp
      have hlt := (hr.child hc).1
      rw [ancestors_of_mem hr.toLinked hc, List.getLast?_cons_cons]
      exact ih p hlt (Nat.lt_trans hlt hid)

theorem inits_concat (p : Address) (k : Nat) : (p ++ [k]).inits = p.inits ++ [p ++ [k]] := by
  simp [List.inits_append]

def placesAbove (p : Address) : List Address := p.inits.dropLast.reverse

theorem placesAbove_concat (p : Address) (k : Nat) :
    placesAbove (p ++ [k]) = p :: placesAbove p := by
  rcases List.eq_nil_or_concat' p with rfl | ⟨q, j, rfl⟩
  · rfl
  · simp only [placesAbove, inits_concat, List.dropLast_concat, List.reverse_append,
      List.reverse_singleton, List.singleton_append]

theorem ancestors_slots (h : tree.slots[id]? = some p) :
    ((ofConcrete source tree).ancestors id).map (tree.slots[·]?) = (placesAbove p).map some := by
  have hr := rooted_ofConcrete source tree
  induction p using List.reverseRecOn generalizing id with
  | nil =>
    obtain ⟨q, d, hstands⟩ := standsAt_ofConcrete (lt_size_of_slot source h)
    obtain rfl := Option.some.inj (hstands.place.symm.trans h)
    rw [ancestors_of_none hstands.parent.eq_none]
    rfl
  | append_singleton p k ih =>
    obtain ⟨i, -, hparent, hi⟩ := parent_ofConcrete source h
    rw [ancestors_of_mem hr.toLinked (hr.mem hparent), placesAbove_concat, List.map_cons,
      List.map_cons, hi, ih hi]

theorem flatMap_slots {visit : NodeId → List NodeId} {cs : List Concrete} {k : Nat}
    {ids : List NodeId} (hvisit : ∀ i ∈ ids, ∀ q d, tree.slots[i]? = some q → tree.at? q = some d →
      (visit i).map (tree.slots[·]?) = d.slots.map fun r => some (q ++ r))
    (hc : tree.at? p = some c) (hcs : ∀ j : Nat, c.children[k + j]? = cs[j]?)
    (hids : ids.map (tree.slots[·]?) = (namedAmong k cs).map fun j => some (p ++ [j])) :
    (ids.flatMap visit).map (tree.slots[·]?) = (slotsAmong k cs).map fun r => some (p ++ r) := by
  induction cs generalizing k ids with
  | nil =>
    obtain rfl := List.map_eq_nil_iff.1 hids
    rfl
  | cons d rest ih =>
    have hrest := getElem?_behind hcs
    rw [namedAmong_cons] at hids
    rw [slotsAmong]
    split at hids
    · next hnamed =>
      cases ids with
      | nil => cases hids
      | cons i ids =>
        obtain ⟨hi, hids⟩ := List.cons.inj hids
        have hd : tree.at? (p ++ [k]) = some d := by
          rw [at?_concat, hc]
          exact hcs 0
        have hfirst := hvisit i List.mem_cons_self _ d hi hd
        have hothers := ih (fun j hj => hvisit j (List.mem_cons_of_mem _ hj)) hrest hids
        rw [if_pos hnamed, List.flatMap_cons, List.map_append, List.map_append, List.map_map, hfirst,
          hothers]
        refine congrArg (· ++ _) (List.map_congr_left fun r _ => ?_)
        exact congrArg some (List.append_assoc p [k] r)
    · next hnamed =>
      rw [if_neg hnamed]
      exact ih hvisit hrest hids

theorem preOrderWithin_slots {depth : Nat} (h : tree.slots[id]? = some p)
    (hc : tree.at? p = some c) (hd : (ofConcrete source tree).size - id ≤ depth) :
    ((ofConcrete source tree).preOrderWithin depth id).map (tree.slots[·]?) =
      c.slots.map fun q => some (p ++ q) := by
  have hr := rooted_ofConcrete source tree
  induction depth generalizing id p c with
  | zero => exact absurd (Nat.le_zero.1 hd) (Nat.sub_ne_zero_of_lt (lt_size_of_slot source h))
  | succ depth ih =>
    obtain ⟨q, d, hstands⟩ := standsAt_ofConcrete (lt_size_of_slot source h)
    obtain rfl := Option.some.inj (hstands.place.symm.trans h)
    obtain rfl := Option.some.inj (hstands.concrete.symm.trans hc)
    have hvisit : ∀ i ∈ (ofConcrete source tree).children id, ∀ q d, tree.slots[i]? = some q →
        tree.at? q = some d → ((ofConcrete source tree).preOrderWithin depth i).map (tree.slots[·]?) =
          d.slots.map fun r => some (q ++ r) :=
      fun i hi q d hq hd' => ih hq hd' (WellFormed.sub_le_of_lt (hr.child hi).1 hd)
    have hbelow := flatMap_slots (k := 0) hvisit hc (fun j => congrArg (d.children[·]?) (Nat.zero_add j))
      hstands.children
    rw [preOrderWithin, List.map_cons, hbelow, h]
    cases d with
    | node token children =>
      rw [slots, List.map_cons, List.append_nil]
      rfl

theorem preOrder_ofConcrete (source : List Char) (tree : Concrete) :
    (ofConcrete source tree).preOrder = List.range (ofConcrete source tree).size := by
  have hplaces : (ofConcrete source tree).preOrder.map (tree.slots[·]?) = tree.slots.map some :=
    preOrderWithin_slots (c := tree) root_slot rfl (Nat.sub_le _ root)
  have hlength : (ofConcrete source tree).preOrder.length = tree.slots.length := by
    simpa using congrArg List.length hplaces
  rw [size_ofConcrete]
  refine List.ext_getElem (hlength.trans List.length_range.symm) fun i hi _ => ?_
  rw [List.getElem_range]
  have hplace := congrArg (·[i]?) hplaces
  simp only [List.getElem?_map, List.getElem?_eq_getElem hi, List.getElem?_eq_getElem (hlength ▸ hi),
    Option.map_some, Option.some.injEq] at hplace
  exact number_unique hplace (List.getElem?_eq_getElem (hlength ▸ hi))

structure MirrorsAt (t : SyntaxTree) (source : List Char) (tree : Concrete) (id : NodeId)
    (p : Address) (c : Concrete) : Prop where
  place : tree.kept[id]? = some p
  concrete : tree.at? p = some c
  node : t.node id = toNode source (t.parent id) c.token c.children (t.children id)
  orphan : t.parent id = none ↔ id = root
  parent : ∀ q, t.parent id = some q → q < id ∧ tree.kept[q]? = some p.dropLast
  children : (t.children id).map (tree.kept[·]?) = c.namedChildren.map fun k => some (p ++ [k])
  fields : (t.children id).map (fun d => (t.node d).field) =
    (c.children.filter fun d => d.token.named).map fun d => d.token.field
  async : (t.node id).isAsync = true ↔
    ∃ d ∈ c.children, d.token.named = false ∧ d.token.kind = "async"
  /-- The links to parents lead to the root, by the concrete ancestors. -/
  ancestors : (t.ancestors id).map (tree.kept[·]?) = (placesAbove p).map some ∧
    ((id :: t.ancestors id).IsChain fun a b => t.parent a = some b) ∧
    (id :: t.ancestors id).getLast? = some root

structure Mirrors (t : SyntaxTree) (source : List Char) (tree : Concrete) : Prop where
  text : t.source = source
  size : t.size = tree.kept.length
  kept : tree.kept.Pairwise (· < ·) ∧ ∀ p, p ∈ tree.kept ↔ p = [] ∨ tree.isNamed p = true
  root : tree.kept[root]? = some []
  nodes : ∀ id < t.size, ∃ p c, MirrorsAt t source tree id p c
  preOrder : t.preOrder = List.range t.size

theorem map_namedAmong {cs : List Concrete} {k : Nat}
    (hcs : ∀ j : Nat, c.children[k + j]? = cs[j]?) :
    (namedAmong k cs).map (c.children[·]?) = (cs.filter fun d => d.token.named).map some := by
  induction cs generalizing k with
  | nil => rfl
  | cons d rest ih =>
    have hrest := ih (getElem?_behind hcs)
    rw [namedAmong_cons, List.filter_cons]
    split
    · rw [List.map_cons, List.map_cons, hrest]
      exact congrArg (· :: _) (hcs 0)
    · exact hrest

theorem fields_ofConcrete (hc : tree.at? p = some c)
    (hchildren : ((ofConcrete source tree).children id).map (tree.slots[·]?) =
      c.namedChildren.map fun k => some (p ++ [k])) :
    ((ofConcrete source tree).children id).map (fun d => ((ofConcrete source tree).node d).field) =
      (c.children.filter fun d => d.token.named).map fun d => d.token.field := by
  let fieldAt (slot : Option Address) : Option String :=
    (slot.bind tree.at?).bind fun d => d.token.field
  have hfield : ∀ d ∈ (ofConcrete source tree).children id,
      ((ofConcrete source tree).node d).field = fieldAt tree.slots[d]? := by
    intro d hd
    obtain ⟨q, e, h⟩ := standsAt_ofConcrete ((rooted_ofConcrete source tree).child hd).2.1
    rw [h.node, h.place]
    change e.token.field = (tree.at? q).bind fun d => d.token.field
    rw [h.concrete]
    rfl
  have hnamed : c.namedChildren.map (c.children[·]?) =
      (c.children.filter fun d => d.token.named).map some :=
    map_namedAmong fun j => congrArg (c.children[·]?) (Nat.zero_add j)
  calc ((ofConcrete source tree).children id).map (fun d => ((ofConcrete source tree).node d).field)
      = (((ofConcrete source tree).children id).map (tree.slots[·]?)).map fieldAt := by
        rw [List.map_map]
        exact List.map_congr_left hfield
    _ = (c.namedChildren.map (c.children[·]?)).map fun d => d.bind fun d => d.token.field := by
        rw [hchildren, List.map_map, List.map_map]
        refine List.map_congr_left fun k _ => ?_
        change (tree.at? (p ++ [k])).bind _ = _
        rw [at?_concat, hc]
        rfl
    _ = (c.children.filter fun d => d.token.named).map fun d => d.token.field := by
        rw [hnamed, List.map_map]
        rfl

theorem mirrorsAt_ofConcrete (h : tree.HangsTogether) (hid : id < (ofConcrete source tree).size) :
    ∃ p c, MirrorsAt (ofConcrete source tree) source tree id p c := by
  have hr := rooted_ofConcrete source tree
  have hkept := slots_eq_kept tree h
  obtain ⟨p, c, hstands⟩ := standsAt_ofConcrete hid
  refine ⟨p, c, ?_⟩
  exact {
    place := hkept ▸ hstands.place
    concrete := hstands.concrete
    node := hstands.node
    orphan := by
      refine ⟨hr.eq_root hid, ?_⟩
      rintro rfl
      obtain rfl := Option.some.inj (hstands.place.symm.trans root_slot)
      exact hstands.parent.eq_none
    parent := fun q hq => by
      rcases List.eq_nil_or_concat' p with rfl | ⟨p, k, rfl⟩
      · cases hq.symm.trans hstands.parent.eq_none
      · obtain ⟨i, hlt, hparent, hi⟩ := parent_ofConcrete source hstands.place
        obtain rfl := Option.some.inj (hparent.symm.trans hq)
        rw [List.dropLast_concat, ← hkept]
        exact ⟨hlt, hi⟩
    children := hkept ▸ hstands.children
    fields := fields_ofConcrete hstands.concrete hstands.children
    async := by
      have hasync : ((ofConcrete source tree).node id).isAsync =
          c.children.any fun d => !d.token.named && d.token.kind == "async" := by
        rw [hstands.node]
        rfl
      simp [hasync]
    ancestors := ⟨hkept ▸ ancestors_slots hstands.place, ancestors_isChain hr.toLinked id,
      getLast?_ancestors hr hid⟩ }

end SyntaxTree

open SyntaxTree Concrete

/-- The loop fills the arena with what the recursion puts there, and that mirrors the concrete tree. -/
theorem ofConcrete_mirrors (source : List Char) {tree : Concrete} (h : tree.HangsTogether) :
    (ofConcrete source tree).Mirrors source tree ∧ ∀ pops, tree.kept.length ≤ pops →
      arenaLoop source tree pops = some (ofConcrete source tree).nodes.toList ∧
      (ofConcrete source tree).preOrderLoop pops = some (List.range tree.kept.length) := by
  have hkept := slots_eq_kept tree h
  have hsize : (ofConcrete source tree).size = tree.kept.length := by
    rw [size_ofConcrete, hkept]
  have hpreOrder := preOrder_ofConcrete source tree
  refine ⟨?_, fun pops hpops => ⟨?_, ?_⟩⟩
  · exact {
      text := rfl
      size := hsize
      kept := ⟨kept_pairwise, fun p => mem_kept⟩
      root := hkept ▸ root_slot
      nodes := fun id hid => mirrorsAt_ofConcrete h hid
      preOrder := hpreOrder }
  · rw [toList_ofConcrete]
    exact arenaLoop_eq (by rwa [hkept])
  · rw [hsize] at hpreOrder
    rw [← hpreOrder]
    refine preOrderLoop_eq (rooted_ofConcrete source tree).toLinked ?_
    rwa [hpreOrder, List.length_range]

def asyncFunction : Concrete :=
  .named "program" 0 21 none [
    .named "function_declaration" 0 21 none [
      .mark "async" 0 5 none,
      .mark "function" 6 14 none,
      .named "identifier" 15 16 (some "name") [],
      .named "formal_parameters" 16 18 (some "parameters") [.mark "(" 16 17 none, .mark ")" 17 18 none],
      .named "statement_block" 19 21 (some "body") [.mark "\x7b" 19 20 none, .mark "\x7d" 20 21 none]]]

theorem ofConcrete_mirrors_asyncFunction :
    let t := ofConcrete "async function f() \x7b\x7d".toList asyncFunction
    asyncFunction.HangsTogether ∧
    asyncFunction.kept = [[], [0], [0, 2], [0, 3], [0, 4]] ∧ (t.node 1).isAsync = true ∧
    t.Mirrors "async function f() \x7b\x7d".toList asyncFunction ∧
    arenaLoop "async function f() \x7b\x7d".toList asyncFunction 5 = some t.nodes.toList := by
  intro t
  have h : asyncFunction.HangsTogether := by decide +kernel
  obtain ⟨hmirrors, hloop⟩ := ofConcrete_mirrors "async function f() \x7b\x7d".toList h
  exact ⟨h, by decide +kernel, by decide +kernel, hmirrors, (hloop 5 (by decide +kernel)).1⟩

end CoercionTrace
