import CoercionTrace.Proofs.Syntax.Traversal
import Mathlib.Data.List.Basic
import Mathlib.Data.List.Induction
import Mathlib.Data.List.Nodup

/-!
# Places in a concrete tree

A node of a concrete tree is known by the way down to it; the ways down, in lexicographic order, are
the nodes in pre-order. Main statements: what the tree made of a concrete tree keeps under each number
(`standsAt_ofConcrete`), and its links are in order, whatever the concrete tree is
(`rooted_ofConcrete`).
-/

namespace CoercionTrace

abbrev Address := List Nat

namespace Concrete

variable {c d tree : Concrete} {cs : List Concrete} {p q : Address} {j k : Nat}

def at? : Concrete → Address → Option Concrete
  | c, [] => some c
  | c, k :: rest => c.children[k]?.bind fun d => d.at? rest

def isNamed (c : Concrete) (p : Address) : Bool := (c.at? p).any fun d => d.token.named

mutual

def places : Concrete → List Address
  | .node _ children => [] :: placesAmong 0 children

def placesAmong (k : Nat) : List Concrete → List Address
  | [] => []
  | c :: rest => c.places.map (k :: ·) ++ placesAmong (k + 1) rest

end

def kept (c : Concrete) : List Address := c.places.filter fun p => p = [] || c.isNamed p

mutual

def slots : Concrete → List Address
  | .node _ children => [] :: slotsAmong 0 children

def slotsAmong (k : Nat) : List Concrete → List Address
  | [] => []
  | c :: rest =>
    if c.token.named then c.slots.map (k :: ·) ++ slotsAmong (k + 1) rest
    else slotsAmong (k + 1) rest

end

def namedAmong (k : Nat) (children : List Concrete) : List Nat :=
  ((children.zipIdx k).filter fun ck => ck.1.token.named).map Prod.snd

def namedChildren (c : Concrete) : List Nat := namedAmong 0 c.children

/-! ## The way down -/

theorem at?_append : c.at? (p ++ q) = (c.at? p).bind fun d => d.at? q := by
  induction p generalizing c with
  | nil => rfl
  | cons k rest ih =>
    rw [List.cons_append, at?, at?]
    cases c.children[k]? with
    | none => rfl
    | some d => exact ih

theorem at?_concat : c.at? (p ++ [k]) = (c.at? p).bind fun d => d.children[k]? := by
  rw [at?_append]
  refine Option.bind_congr fun d _ => ?_
  rw [at?]
  cases d.children[k]? <;> rfl

theorem mem_namedAmong : j ∈ namedAmong k cs ↔ k ≤ j ∧ ∃ d, cs[j - k]? = some d ∧ d.token.named = true := by
  simp only [namedAmong, List.mem_map, List.mem_filter, List.mk_mem_zipIdx_iff_le_and_getElem?_sub,
    Prod.exists, exists_eq_right]
  constructor
  · rintro ⟨d, ⟨hle, hd⟩, hnamed⟩
    exact ⟨hle, d, hd, hnamed⟩
  · rintro ⟨hle, d, hd, hnamed⟩
    exact ⟨d, ⟨hle, hd⟩, hnamed⟩

theorem mem_namedChildren :
    k ∈ c.namedChildren ↔ ∃ d, c.children[k]? = some d ∧ d.token.named = true := by
  rw [namedChildren, mem_namedAmong, Nat.sub_zero]
  exact and_iff_right (Nat.zero_le k)

theorem namedAmong_cons : namedAmong k (d :: cs) =
    if d.token.named then k :: namedAmong (k + 1) cs else namedAmong (k + 1) cs := by
  cases h : d.token.named <;> simp [namedAmong, h]

theorem namedAmong_nodup : (namedAmong k cs).Nodup := by
  have hsublist : List.Sublist (namedAmong k cs) ((cs.zipIdx k).map Prod.snd) :=
    List.filter_sublist.map _
  rw [List.zipIdx_map_snd] at hsublist
  exact List.Nodup.sublist hsublist List.nodup_range'

/-! ## Places in order -/

mutual

theorem mem_places {p : Address} : (c : Concrete) → (p ∈ c.places ↔ (c.at? p).isSome)
  | .node token children => by
    rw [places, List.mem_cons, mem_placesAmong children]
    cases p with
    | nil => simp [at?]
    | cons k q => simp [at?, Concrete.children, Option.isSome_bind, Option.any_eq_true]

theorem mem_placesAmong {p : Address} {k : Nat} : (cs : List Concrete) → (p ∈ placesAmong k cs ↔
    ∃ j d q, cs[j]? = some d ∧ (d.at? q).isSome ∧ p = (k + j) :: q)
  | [] => by simp [placesAmong]
  | c :: rest => by
    have hfirst : ∀ {q}, q ∈ c.places ↔ (c.at? q).isSome := mem_places c
    rw [placesAmong, List.mem_append, List.mem_map, mem_placesAmong rest]
    constructor
    · rintro (⟨q, hq, rfl⟩ | ⟨j, d, q, hd, hq, rfl⟩)
      · exact ⟨0, c, q, rfl, hfirst.1 hq, rfl⟩
      · exact ⟨j + 1, d, q, hd, hq, by rw [Nat.add_right_comm, Nat.add_assoc]⟩
    · rintro ⟨j, d, q, hd, hq, rfl⟩
      cases j with
      | zero =>
        obtain rfl := Option.some.inj hd
        exact .inl ⟨q, hfirst.2 hq, rfl⟩
      | succ j => exact .inr ⟨j, d, q, hd, hq, by rw [Nat.add_right_comm, Nat.add_assoc]⟩

end

mutual

theorem places_pairwise : (c : Concrete) → c.places.Pairwise (· < ·)
  | .node token children => by
    rw [places]
    refine List.pairwise_cons.2 ⟨fun p hp => ?_, placesAmong_pairwise 0 children⟩
    obtain ⟨j, d, q, -, -, rfl⟩ := (mem_placesAmong children).1 hp
    exact List.nil_lt_cons _ _

theorem placesAmong_pairwise (k : Nat) : (cs : List Concrete) → (placesAmong k cs).Pairwise (· < ·)
  | [] => List.Pairwise.nil
  | c :: rest => by
    rw [placesAmong]
    refine List.pairwise_append.2 ⟨List.pairwise_map.2 ?_, placesAmong_pairwise (k + 1) rest, ?_⟩
    · exact (places_pairwise c).imp fun h => List.cons_lt_cons_iff.2 (.inr ⟨rfl, h⟩)
    · intro p hp q hq
      obtain ⟨p, -, rfl⟩ := List.mem_map.1 hp
      obtain ⟨j, d, q, -, -, rfl⟩ := (mem_placesAmong rest).1 hq
      exact List.cons_lt_cons_iff.2 (.inl (Nat.lt_of_lt_of_le (Nat.lt_succ_self k) (Nat.le_add_right _ _)))

end

theorem places_nodup : c.places.Nodup :=
  (places_pairwise c).imp fun {p q} h (e : p = q) => List.lt_irrefl q (e ▸ h)

theorem kept_pairwise : c.kept.Pairwise (· < ·) := (places_pairwise c).filter _

theorem mem_kept : p ∈ c.kept ↔ p = [] ∨ c.isNamed p = true := by
  simp only [kept, List.mem_filter, mem_places, Bool.or_eq_true, decide_eq_true_eq]
  refine ⟨And.right, fun h => ⟨?_, h⟩⟩
  rcases h with rfl | h
  · rfl
  · exact Option.isSome_of_any h

/-! ## Places with a number -/

mutual

theorem slots_sublist : (c : Concrete) → List.Sublist c.slots c.places
  | .node token children => by
    rw [slots, places]
    exact (slotsAmong_sublist 0 children).cons_cons []

theorem slotsAmong_sublist (k : Nat) :
    (cs : List Concrete) → List.Sublist (slotsAmong k cs) (placesAmong k cs)
  | [] => List.Sublist.refl _
  | c :: rest => by
    rw [slotsAmong, placesAmong]
    split
    · exact ((slots_sublist c).map _).append (slotsAmong_sublist (k + 1) rest)
    · exact (slotsAmong_sublist (k + 1) rest).trans (List.sublist_append_right _ _)

end

theorem slots_nodup : c.slots.Nodup :=
  List.Nodup.sublist (slots_sublist c) places_nodup

mutual

theorem isNamed_of_mem_slots {p : Address} :
    (c : Concrete) → p ∈ c.slots → p ≠ [] → c.isNamed p = true
  | .node token children => by
    intro h hne
    rw [slots] at h
    rcases List.mem_cons.1 h with rfl | h
    · exact absurd rfl hne
    · obtain ⟨j, d, q, hd, hq, rfl⟩ := isNamed_of_mem_slotsAmong children h
      simpa [isNamed, at?, Concrete.children, hd] using hq

theorem isNamed_of_mem_slotsAmong {p : Address} {k : Nat} : (cs : List Concrete) →
    p ∈ slotsAmong k cs → ∃ j d q, cs[j]? = some d ∧ d.isNamed q = true ∧ p = (k + j) :: q
  | [] => fun h => by cases h
  | c :: rest => by
    intro h
    rw [slotsAmong] at h
    have hrest : p ∈ slotsAmong (k + 1) rest →
        ∃ j d q, (c :: rest)[j]? = some d ∧ d.isNamed q = true ∧ p = (k + j) :: q := by
      intro h
      obtain ⟨j, d, q, hd, hq, rfl⟩ := isNamed_of_mem_slotsAmong rest h
      exact ⟨j + 1, d, q, hd, hq, by rw [Nat.add_right_comm, Nat.add_assoc]⟩
    split at h
    · next hnamed =>
      rcases List.mem_append.1 h with h | h
      · obtain ⟨q, hq, rfl⟩ := List.mem_map.1 h
        refine ⟨0, c, q, rfl, ?_, rfl⟩
        by_cases hne : q = []
        · rw [hne]
          exact hnamed
        · exact isNamed_of_mem_slots c hq hne
      · exact hrest h
    · exact hrest h

end

def HangsTogether (c : Concrete) : Prop :=
  ∀ p k, c.isNamed (p ++ [k]) = true → c.isNamed p = true

theorem isNamed_cons (hd : c.children[k]? = some d) : c.isNamed (k :: p) = d.isNamed p := by
  rw [isNamed, at?, hd]
  rfl

theorem HangsTogether.child (h : c.HangsTogether) (hd : c.children[k]? = some d) :
    d.HangsTogether := by
  intro p j hp
  rw [← isNamed_cons hd] at hp ⊢
  exact h (k :: p) j hp

theorem hangsTogether_iff : c.HangsTogether ↔
    ∀ p ∈ c.places, p ≠ [] → c.isNamed p = true → c.isNamed p.dropLast = true := by
  constructor
  · intro h p _ hne hp
    obtain ⟨q, k, rfl⟩ := (List.eq_nil_or_concat' p).resolve_left hne
    rw [List.dropLast_concat]
    exact h q k hp
  · intro h p k hp
    have hdrop := h (p ++ [k]) ((mem_places c).2 (Option.isSome_of_any hp)) (by simp) hp
    rwa [List.dropLast_concat] at hdrop

instance (c : Concrete) : Decidable c.HangsTogether := decidable_of_iff _ hangsTogether_iff.symm

theorem HangsTogether.root (h : c.HangsTogether) (hp : c.isNamed p = true) :
    c.token.named = true := by
  induction p using List.reverseRecOn with
  | nil => exact hp
  | append_singleton p k ih => exact ih (h p k hp)

mutual

theorem slots_eq_kept : (c : Concrete) → c.HangsTogether → c.slots = c.kept
  | .node token children => by
    intro h
    rw [slots, kept, places, List.filter_cons_of_pos (by simp)]
    refine congrArg ([] :: ·) (slotsAmong_eq_filter 0 children (fun j d hd => h.child hd) ?_)
    intro j d hd q
    rw [Nat.zero_add, isNamed_cons hd]
    rfl

theorem slotsAmong_eq_filter (k : Nat) {test : Address → Bool} : (cs : List Concrete) →
    (∀ (j : Nat) d, cs[j]? = some d → d.HangsTogether) →
    (∀ (j : Nat) d, cs[j]? = some d → ∀ q, test ((k + j) :: q) = d.isNamed q) →
    slotsAmong k cs = (placesAmong k cs).filter test
  | [] => fun _ _ => rfl
  | c :: rest => by
    intro h htest
    have hc : c.HangsTogether := h 0 c rfl
    have hfirst : (c.places.map (k :: ·)).filter test = (c.places.filter c.isNamed).map (k :: ·) := by
      rw [List.filter_map]
      refine congrArg (List.map _) (List.filter_congr fun q _ => ?_)
      exact htest 0 c rfl q
    have hrest : slotsAmong (k + 1) rest = (placesAmong (k + 1) rest).filter test := by
      refine slotsAmong_eq_filter (k + 1) rest (fun j d hd => h (j + 1) d hd) fun j d hd q => ?_
      rw [Nat.add_right_comm, Nat.add_assoc]
      exact htest (j + 1) d hd q
    rw [slotsAmong, placesAmong, List.filter_append, hfirst, ← hrest]
    split
    · next hnamed =>
      rw [slots_eq_kept c hc, kept]
      refine congrArg (List.map _ · ++ _) (List.filter_congr fun q _ => ?_)
      by_cases hq : q = []
      · rw [hq]
        exact hnamed.symm
      · simp [hq]
    · next hnamed =>
      rw [List.filter_eq_nil_iff.2 fun q _ hq => hnamed (hc.root hq)]
      rfl

end

/-! ## Numbers -/

inductive ParentAt (full : List Address) (i : Nat) : Option NodeId → Address → Prop
  | root : ParentAt full i none []
  | child {j k : Nat} {p : Address} : j < i → full[j]? = some p → ParentAt full i (some j) (p ++ [k])

theorem ParentAt.eq_some {full : List Address} {i k : Nat} {parent : Option NodeId} {p : Address}
    (h : ParentAt full i parent (p ++ [k])) : ∃ j < i, parent = some j ∧ full[j]? = some p := by
  generalize hq : p ++ [k] = q at h
  cases h with
  | root => simp at hq
  | child hlt hplace =>
    obtain ⟨rfl, -⟩ := List.append_inj' hq rfl
    exact ⟨_, hlt, rfl, hplace⟩

theorem ParentAt.eq_none {full : List Address} {i : Nat} {parent : Option NodeId}
    (h : ParentAt full i parent []) : parent = none := by
  generalize hq : ([] : Address) = q at h
  cases h with
  | root => rfl
  | child => simp at hq

structure StandsAt (source : List Char) (tree : Concrete) (full : List Address) (i : Nat) (n : Node)
    (p : Address) (c : Concrete) : Prop where
  place : full[i]? = some p
  concrete : tree.at? p = some c
  node : n = toNode source n.parent c.token c.children n.children
  parent : ParentAt full i n.parent p
  children : n.children.map (full[·]?) = c.namedChildren.map fun k => some (p ++ [k])

theorem getElem?_behind {α : Type} {a : α} {rest l : List α} {k : Nat}
    (h : ∀ j : Nat, l[k + j]? = (a :: rest)[j]?) (j : Nat) : l[k + 1 + j]? = rest[j]? := by
  rw [Nat.add_assoc, Nat.add_comm 1 j]
  exact h (j + 1)

theorem prefix_drop_of_append {α : Type} {l₁ l₂ l : List α} {i : Nat} (h : l₁ ++ l₂ <+: l.drop i) :
    l₁ <+: l.drop i ∧ l₂ <+: l.drop (i + l₁.length) := by
  refine ⟨(List.prefix_append _ _).trans h, ?_⟩
  rw [← List.drop_drop]
  obtain ⟨rest, hrest⟩ := h
  rw [← hrest, List.append_assoc, List.drop_left]
  exact List.prefix_append _ _

theorem prefix_drop_of_cons {α : Type} {a : α} {rest l : List α} {i : Nat}
    (h : a :: rest <+: l.drop i) : l[i]? = some a ∧ rest <+: l.drop (i + 1) := by
  have happend : [a] ++ rest <+: l.drop i := h
  refine ⟨?_, (prefix_drop_of_append happend).2⟩
  obtain ⟨more, hmore⟩ := h
  rw [← Nat.add_zero i, ← List.getElem?_drop, ← hmore]
  rfl

theorem getElem?_of_slots_prefix_drop {full : List Address} {i : Nat}
    (h : c.slots.map (p ++ ·) <+: full.drop i) : full[i]? = some p := by
  cases c with
  | node token children =>
    rw [slots, List.map_cons, List.append_nil] at h
    exact (prefix_drop_of_cons h).1

mutual

theorem length_toNodes {source : List Char} {parent : Option NodeId} {id : NodeId} :
    (c : Concrete) → (c.toNodes source parent id).length = c.slots.length
  | .node token children => by
    rw [toNodes, slots]
    exact congrArg (· + 1) (length_childNodes children)

theorem length_childNodes {source : List Char} {parent next : NodeId} {k : Nat} :
    (cs : List Concrete) → (childNodes source parent next cs).2.length = (slotsAmong k cs).length
  | [] => rfl
  | c :: rest => by
    rw [childNodes, slotsAmong]
    split
    · simp only [List.length_append, List.length_map]
      rw [length_toNodes c, length_childNodes rest]
    · exact length_childNodes rest

end

def AllStandAt (source : List Char) (tree : Concrete) (full : List Address) (base : Nat)
    (nodes : List Node) : Prop :=
  ∀ i n, nodes[i]? = some n → ∃ p c, StandsAt source tree full (base + i) n p c

section

variable {source : List Char} {full : List Address} {base : Nat}

theorem AllStandAt.cons {n : Node} {nodes : List Node} (hn : StandsAt source tree full base n p c)
    (h : AllStandAt source tree full (base + 1) nodes) :
    AllStandAt source tree full base (n :: nodes) := by
  intro i m hm
  cases i with
  | zero =>
    obtain rfl := Option.some.inj hm
    exact ⟨p, c, hn⟩
  | succ i =>
    rw [← Nat.add_assoc, Nat.add_right_comm]
    exact h i m hm

theorem AllStandAt.append {nodes more : List Node} (h : AllStandAt source tree full base nodes)
    (h' : AllStandAt source tree full (base + nodes.length) more) :
    AllStandAt source tree full base (nodes ++ more) := by
  intro i n hn
  by_cases hi : i < nodes.length
  · rw [List.getElem?_append_left hi] at hn
    exact h i n hn
  · obtain ⟨j, rfl⟩ := Nat.exists_eq_add_of_le (Nat.le_of_not_lt hi)
    rw [List.getElem?_append_right (Nat.le_add_right _ _), Nat.add_sub_cancel_left] at hn
    rw [← Nat.add_assoc]
    exact h' j n hn

mutual

theorem toNodes_standAt {parent : Option NodeId} {id : NodeId} {p : Address} :
    (c : Concrete) → tree.at? p = some c → ParentAt full id parent p →
    c.slots.map (p ++ ·) <+: full.drop id →
    AllStandAt source tree full id (c.toNodes source parent id)
  | .node token children => by
    intro hat hparent hfull
    rw [slots, List.map_cons, List.append_nil] at hfull
    obtain ⟨hplace, hbelow⟩ := prefix_drop_of_cons hfull
    obtain ⟨hids, hnodes⟩ := childNodes_standAt children hat hplace (Nat.lt_succ_self id)
      (fun j => congrArg (children[·]?) (Nat.zero_add j)) hbelow
    rw [toNodes]
    exact .cons ⟨hplace, hat, rfl, hparent, hids⟩ hnodes

theorem childNodes_standAt {parent next : NodeId} {p : Address} {c : Concrete} {k : Nat} :
    (cs : List Concrete) → tree.at? p = some c → full[parent]? = some p → parent < next →
    (∀ j : Nat, c.children[k + j]? = cs[j]?) →
    (slotsAmong k cs).map (p ++ ·) <+: full.drop next →
    ((childNodes source parent next cs).1.map (full[·]?) =
      (namedAmong k cs).map fun j => some (p ++ [j])) ∧
    AllStandAt source tree full next (childNodes source parent next cs).2
  | [] => fun _ _ _ _ _ => ⟨rfl, fun i n hn => by cases hn⟩
  | d :: rest => by
    intro hat hplace hlt hcs hfull
    have hcs' := getElem?_behind hcs
    rw [slotsAmong] at hfull
    rw [childNodes, namedAmong_cons]
    split
    · next hnamed =>
      have hmap : (d.slots.map (k :: ·)).map (p ++ ·) = d.slots.map ((p ++ [k]) ++ ·) := by
        rw [List.map_map]
        exact List.map_congr_left fun q _ => (List.append_assoc p [k] q).symm
      rw [if_pos hnamed, List.map_append, hmap] at hfull
      obtain ⟨hfirst, hrest⟩ := prefix_drop_of_append hfull
      rw [List.length_map, ← length_toNodes d] at hrest
      have hat' : tree.at? (p ++ [k]) = some d := by
        rw [at?_concat, hat]
        exact hcs 0
      obtain ⟨hids, hnodes⟩ := childNodes_standAt rest hat hplace
        (Nat.lt_of_lt_of_le hlt (Nat.le_add_right _ _)) hcs' hrest
      have hnext : full[next]? = some (p ++ [k]) := getElem?_of_slots_prefix_drop hfirst
      exact ⟨congrArg₂ List.cons hnext hids,
        .append (toNodes_standAt d hat' (.child hlt hplace) hfirst) hnodes⟩
    · next hnamed =>
      rw [if_neg hnamed] at hfull
      exact childNodes_standAt rest hat hplace hlt hcs' hfull

end

end

end Concrete

namespace SyntaxTree

open Concrete

variable {source : List Char} {tree : Concrete} {id : NodeId}

theorem toList_ofConcrete :
    (ofConcrete source tree).nodes.toList = tree.toNodes source none 0 := List.toList_toArray

theorem size_ofConcrete : (ofConcrete source tree).size = tree.slots.length := by
  rw [size, ← Array.length_toList, toList_ofConcrete, length_toNodes]

theorem standsAt_ofConcrete (h : id < (ofConcrete source tree).size) :
    ∃ p c, StandsAt source tree tree.slots id ((ofConcrete source tree).node id) p c := by
  have hfull : tree.slots.map ([] ++ ·) <+: tree.slots.drop 0 := by
    simp only [List.nil_append, List.map_id', List.drop_zero]
    exact List.prefix_refl _
  have hnode : (tree.toNodes source none 0)[id]? = some ((ofConcrete source tree).node id) := by
    rw [← toList_ofConcrete, Array.getElem?_toList, node, Array.getD_eq_getD_getElem?,
      Array.getElem?_eq_getElem h]
    rfl
  have hstands := toNodes_standAt tree rfl .root hfull id _ hnode
  rwa [Nat.zero_add] at hstands

theorem root_slot : tree.slots[root]? = some [] := by
  cases tree with
  | node token children => rfl

theorem lt_size_of_slot (source : List Char) {p : Address} (h : tree.slots[id]? = some p) :
    id < (ofConcrete source tree).size := by
  rw [size_ofConcrete]
  exact (List.getElem?_eq_some_iff.1 h).1

theorem number_unique {i j : Nat} {p : Address} (hi : tree.slots[i]? = some p)
    (hj : tree.slots[j]? = some p) : i = j := by
  obtain ⟨hlt, -⟩ := List.getElem?_eq_some_iff.1 hi
  exact (List.getElem?_inj hlt slots_nodup).1 (hi.trans hj.symm)

theorem mem_children_ofConcrete {c : NodeId} : c ∈ (ofConcrete source tree).children id ↔
    ∃ p k, tree.slots[id]? = some p ∧ tree.slots[c]? = some (p ++ [k]) := by
  constructor
  · intro hc
    have hlt : id < (ofConcrete source tree).size := by
      refine Nat.lt_of_not_le fun h => ?_
      rw [children_of_size_le h] at hc
      cases hc
    obtain ⟨p, d, h⟩ := standsAt_ofConcrete hlt
    have hmem : tree.slots[c]? ∈ ((ofConcrete source tree).node id).children.map (tree.slots[·]?) :=
      List.mem_map_of_mem hc
    rw [h.children] at hmem
    obtain ⟨k, -, hk⟩ := List.mem_map.1 hmem
    exact ⟨p, k, h.place, hk.symm⟩
  · rintro ⟨p, k, hid, hc⟩
    obtain ⟨q, d, h⟩ := standsAt_ofConcrete (lt_size_of_slot source hid)
    obtain rfl := Option.some.inj (h.place.symm.trans hid)
    have hnamed := isNamed_of_mem_slots tree (List.mem_of_getElem? hc) (by simp)
    rw [isNamed, at?_concat, h.concrete, Option.bind_some, Option.any_eq_true] at hnamed
    have hk : some (q ++ [k]) ∈ d.namedChildren.map fun k => some (q ++ [k]) :=
      List.mem_map_of_mem (mem_namedChildren.2 hnamed)
    rw [← h.children] at hk
    obtain ⟨c', hc', heq⟩ := List.mem_map.1 hk
    obtain rfl := number_unique heq hc
    exact hc'

theorem parent_ofConcrete (source : List Char) {c : NodeId} {p : Address} {k : Nat}
    (h : tree.slots[c]? = some (p ++ [k])) :
    ∃ i < c, (ofConcrete source tree).parent c = some i ∧ tree.slots[i]? = some p := by
  obtain ⟨q, d, hstands⟩ := standsAt_ofConcrete (lt_size_of_slot source h)
  obtain rfl := Option.some.inj (hstands.place.symm.trans h)
  exact hstands.parent.eq_some

theorem rooted_ofConcrete (source : List Char) (tree : Concrete) :
    (ofConcrete source tree).Rooted where
  root_lt := lt_size_of_slot source root_slot
  child {p c} hc := by
    obtain ⟨q, k, hp, hslot⟩ := mem_children_ofConcrete.1 hc
    obtain ⟨i, hlt, hparent, hi⟩ := parent_ofConcrete source hslot
    obtain rfl := number_unique hi hp
    exact ⟨hlt, lt_size_of_slot source hslot, hparent⟩
  mem {p c} hp := by
    have hlt : c < (ofConcrete source tree).size := by
      refine Nat.lt_of_not_le fun h => ?_
      rw [parent, node_of_size_le h] at hp
      cases hp
    obtain ⟨q, d, h⟩ := standsAt_ofConcrete hlt
    rcases List.eq_nil_or_concat' q with rfl | ⟨q, k, rfl⟩
    · cases hp.symm.trans h.parent.eq_none
    · obtain ⟨i, -, hparent, hi⟩ := parent_ofConcrete source h.place
      obtain rfl := Option.some.inj (hparent.symm.trans hp)
      exact mem_children_ofConcrete.2 ⟨q, k, hi, h.place⟩
  children_nodup p := by
    by_cases hp : p < (ofConcrete source tree).size
    · obtain ⟨q, d, h⟩ := standsAt_ofConcrete hp
      refine List.Nodup.of_map (tree.slots[·]?) ?_
      change (((ofConcrete source tree).node p).children.map (tree.slots[·]?)).Nodup
      rw [h.children]
      refine namedAmong_nodup.map fun j k hjk => ?_
      simpa using hjk
    · rw [children_of_size_le (Nat.le_of_not_lt hp)]
      exact List.nodup_nil
  eq_root {c} hlt hnone := by
    obtain ⟨q, d, h⟩ := standsAt_ofConcrete hlt
    rcases List.eq_nil_or_concat' q with rfl | ⟨q, k, rfl⟩
    · exact number_unique h.place root_slot
    · obtain ⟨i, -, hparent, -⟩ := parent_ofConcrete source h.place
      rw [hnone] at hparent
      cases hparent

end SyntaxTree

end CoercionTrace
