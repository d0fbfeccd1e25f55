import CoercionTrace.Proofs.Syntax.Shown
import CoercionTrace.Proofs.Syntax.Text

/-!
# Fragments

A text comes down to the nodes that one is interested in, and to what stands between them. Main
statements: the fragments of a node are its text (`print_fragments`), and the nodes among them are
those that the text shows (`nodesOf_fragments`).
-/

namespace CoercionTrace

def Part.refine (f : NodeId → List Part) : Part → List Part
  | .node c => f c
  | part => [part]

namespace SyntaxTree

def fragmentsWithin (t : SyntaxTree) (p : NodeId → Bool) : Nat → NodeId → List Part
  | 0, _ => []
  | depth + 1, id =>
    if p id then [.node id] else (t.parts id).flatMap (Part.refine (fragmentsWithin t p depth))

/-- The parts that the text of a node comes down to, when nodes that satisfy `p` are left whole. -/
def fragments (t : SyntaxTree) (p : NodeId → Bool) (id : NodeId) : List Part :=
  t.fragmentsWithin p t.size id

end SyntaxTree

theorem nodesOf_refine (f : NodeId → List Part) (parts : List Part) :
    nodesOf (parts.flatMap (Part.refine f)) = (nodesOf parts).flatMap fun c => nodesOf (f c) := by
  induction parts with
  | nil => rfl
  | cons part rest ih =>
    rw [List.flatMap_cons, nodesOf_append, ih]
    cases part with
    | node c => rw [nodesOf_node, List.flatMap_cons, Part.refine]
    | text | used | declared => rfl

theorem printParts_refine {text : NodeId → String} {f : NodeId → List Part} {parts : List Part}
    (h : ∀ c ∈ nodesOf parts, printParts text (f c) = text c) :
    printParts text (parts.flatMap (Part.refine f)) = printParts text parts := by
  induction parts with
  | nil => rfl
  | cons part rest ih =>
    rw [List.flatMap_cons, printParts_append, printParts_cons]
    cases part with
    | node c =>
      rw [nodesOf_node] at h
      rw [ih fun d hd => h d (List.mem_cons_of_mem _ hd), Part.refine, h c List.mem_cons_self,
        Part.print_node]
    | text | used | declared => simp [Part.refine, ih h]

theorem printParts_congr {f g : NodeId → String} {parts : List Part}
    (h : ∀ c ∈ nodesOf parts, f c = g c) : printParts f parts = printParts g parts := by
  induction parts with
  | nil => rfl
  | cons part rest ih =>
    rw [printParts_cons, printParts_cons]
    cases part with
    | node c =>
      rw [nodesOf_node] at h
      rw [ih fun d hd => h d (List.mem_cons_of_mem _ hd), Part.print_node, Part.print_node,
        h c List.mem_cons_self]
    | text | used => rw [ih h]; rfl
    | declared use name value => cases value <;> rw [ih h] <;> rfl

namespace SyntaxTree

variable {t : SyntaxTree} {p : NodeId → Bool} {id : NodeId}

theorem nodesOf_fragments (t : SyntaxTree) (p : NodeId → Bool) (id : NodeId) :
    nodesOf (t.fragments p id) = t.shown p id := by
  have key : ∀ (depth : Nat) (id : NodeId),
      nodesOf (t.fragmentsWithin p depth id) = t.shownWithin p depth id := by
    intro depth
    induction depth with
    | zero => exact fun _ => rfl
    | succ depth ih =>
      intro id
      rw [fragmentsWithin, shownWithin]
      split
      · rfl
      · rw [nodesOf_refine]
        exact List.flatMap_congr fun c _ => ih c
  exact key t.size id

section

variable (hw : t.WellFormed) (ht : t.TakesFromBelow)
include hw ht

theorem fragmentsWithin_of_le (hid : id < t.size) {depth : Nat} (hd : t.size - id ≤ depth) :
    t.fragmentsWithin p depth id = t.fragments p id := by
  have key : ∀ {depth depth' : Nat} {id : NodeId}, id < t.size → t.size - id ≤ depth →
      t.size - id ≤ depth' → t.fragmentsWithin p depth id = t.fragmentsWithin p depth' id := by
    intro depth
    induction depth with
    | zero => exact fun hid hd _ => absurd (Nat.le_zero.1 hd) (Nat.sub_ne_zero_of_lt hid)
    | succ depth ih =>
      intro depth' id hid hd hd'
      cases depth' with
      | zero => exact absurd (Nat.le_zero.1 hd') (Nat.sub_ne_zero_of_lt hid)
      | succ depth' =>
        rw [fragmentsWithin, fragmentsWithin]
        split
        · rfl
        · refine List.flatMap_congr fun part hpart => ?_
          cases part with
          | node c =>
            have hc : c ∈ t.takenOver id := List.mem_filterMap.2 ⟨_, hpart, rfl⟩
            obtain ⟨hlt, hbelow⟩ := ht id c hc
            exact ih (hw.lt_size_of_below hbelow hid) (WellFormed.sub_le_of_lt hlt hd)
              (WellFormed.sub_le_of_lt hlt hd')
          | text | used | declared => rfl
  exact key hid hd (Nat.sub_le _ _)

theorem fragments_eq (hid : id < t.size) : t.fragments p id =
    if p id then [.node id] else (t.parts id).flatMap (Part.refine (t.fragments p)) := by
  obtain ⟨depth, hdepth⟩ := Nat.exists_eq_succ_of_ne_zero (Nat.ne_zero_of_lt hid)
  rw [fragments, hdepth, fragmentsWithin]
  split
  · rfl
  · refine List.flatMap_congr fun part hpart => ?_
    cases part with
    | node c =>
      have hc : c ∈ t.takenOver id := List.mem_filterMap.2 ⟨_, hpart, rfl⟩
      obtain ⟨hlt, hbelow⟩ := ht id c hc
      refine fragmentsWithin_of_le hw ht (hw.lt_size_of_below hbelow hid) ?_
      exact WellFormed.sub_le_of_lt hlt (hdepth ▸ Nat.sub_le _ _)
    | text | used | declared => rfl

theorem print_fragments (hs : t.Settled) (hid : id < t.size) :
    printParts t.text (t.fragments p id) = t.text id := by
  have key : ∀ {depth : Nat} {id : NodeId}, id < t.size → t.size - id ≤ depth →
      printParts t.text (t.fragmentsWithin p depth id) = t.text id := by
    intro depth
    induction depth with
    | zero => exact fun hid hd => absurd (Nat.le_zero.1 hd) (Nat.sub_ne_zero_of_lt hid)
    | succ depth ih =>
      intro id hid hd
      rw [fragmentsWithin]
      split
      · simp
      · rw [text_parts hw hs hid]
        refine printParts_refine fun c hc => ?_
        obtain ⟨hlt, hbelow⟩ := ht id c hc
        exact ih (hw.lt_size_of_below hbelow hid) (WellFormed.sub_le_of_lt hlt hd)
  exact key hid (Nat.sub_le _ _)

end

end SyntaxTree

end CoercionTrace
