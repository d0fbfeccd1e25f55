import CoercionTrace.Proofs.Syntax.Text
import Mathlib.Data.List.Nodup

/-!
# The parts of the output

`walk` lists the parts that the text of a node comes down to, each with the function bodies around
it. Main statements: they are the text, side by side (`print_walk`); a variable that is declared above
its use is declared around it (`walk_enclosed`); and no variable is declared twice, if nodes declare
different ones and no text is shown twice (`walk_nodup`).
-/

namespace CoercionTrace

structure Placed where
  bodies : List NodeId
  part : Part

def printPlaced (parts : List Placed) : String :=
  printParts (fun _ => "") (parts.map Placed.part)

def Part.declared? : Part → Option String
  | .declared _ name _ => some name
  | _ => none

def namesOf (parts : List Part) : List String := parts.filterMap Part.declared?

@[simp] theorem namesOf_nil : namesOf [] = [] := rfl

@[simp] theorem namesOf_text (s : String) (parts : List Part) :
    namesOf (.text s :: parts) = namesOf parts := rfl

@[simp] theorem namesOf_used (use : NameUse) (name : String) (parts : List Part) :
    namesOf (.used use name :: parts) = namesOf parts := rfl

@[simp] theorem namesOf_declared (use : NameUse) (name : String) (value : Option Code)
    (parts : List Part) : namesOf (.declared use name value :: parts) = name :: namesOf parts := rfl

@[simp] theorem namesOf_node (c : NodeId) (parts : List Part) :
    namesOf (.node c :: parts) = namesOf parts := rfl

@[simp] theorem namesOf_append (parts parts' : List Part) :
    namesOf (parts ++ parts') = namesOf parts ++ namesOf parts' :=
  List.filterMap_append

@[simp] theorem namesOf_ite (p : Bool) (s : String) :
    namesOf (if p then [.text s] else []) = [] := by
  cases p <;> rfl

theorem namesOf_separate (separator : String) (partLists : List (List Part)) :
    namesOf (separate separator partLists) = partLists.flatMap namesOf := by
  induction partLists with
  | nil => rfl
  | cons parts rest ih =>
    cases rest with
    | nil => simp [separate]
    | cons parts' rest' =>
      rw [separate, namesOf_append, namesOf_text, ih]
      · rfl
      · simp

@[simp] theorem namesOf_uninitialised (names : List String) :
    namesOf (uninitialised names) = names := by
  induction names with
  | nil => rfl
  | cons name rest ih => exact congrArg (name :: ·) ih

@[simp] theorem namesOf_declaration (declarations : List Part) :
    namesOf (declaration declarations) = namesOf declarations := by
  have hdeclarations : declarations.flatMap (fun p => namesOf [p]) = namesOf declarations := by
    induction declarations with
    | nil => rfl
    | cons p rest ih => rw [List.flatMap_cons, ih, ← namesOf_append, List.singleton_append]
  simp [declaration, namesOf_separate, List.flatMap_map, hdeclarations]

mutual

theorem Code.namesOf_parts (c : Code) : namesOf c.parts = [] := by
  cases c with
  | store target value => simp [Code.parts, Code.namesOf_parts]
  | operation operator left right => simp [Code.parts, Code.namesOf_parts]
  | hook object method arguments =>
    simpa [Code.parts, namesOf_separate] using Code.namesOf_partsEach arguments
  | list elements => simpa [Code.parts, namesOf_separate] using Code.namesOf_partsEach elements
  | sequence elements => simpa [Code.parts, namesOf_separate] using Code.namesOf_partsEach elements
  | splice | name | identifier | «variable» | quoted | null | void | index | access => rfl

theorem Code.namesOf_partsEach (cs : List Code) : ∀ parts ∈ Code.partsEach cs, namesOf parts = [] := by
  cases cs with
  | nil => simp [Code.partsEach]
  | cons c rest =>
    exact List.forall_mem_cons.2 ⟨c.namesOf_parts, Code.namesOf_partsEach rest⟩

end

@[simp] theorem namesOf_spliceParts (t : SyntaxTree) (cursor stop : Nat) (nodes : List NodeId) :
    namesOf (t.spliceParts cursor stop nodes) = [] := by
  induction nodes generalizing cursor with
  | nil => rfl
  | cons c rest ih => simp [SyntaxTree.spliceParts, ih]

def Replacement.names : Replacement → List String
  | .framedBody _ header _ _ => header.traceVariable.toList ++ header.temporaries
  | .hostBody _ temporaries _ => temporaries
  | .program _ header _ _ => header.temporaries
  | _ => []

theorem Replacement.namesOf_parts (t : SyntaxTree) (id : NodeId) (r : Replacement) :
    namesOf (r.parts t id) = r.names := by
  have hbetween : ∀ start stop, namesOf (t.partsBetween id start stop) = [] :=
    fun _ _ => namesOf_spliceParts t _ _ _
  have hdirectives : namesOf (t.directiveParts id) = [] := by
    simp [SyntaxTree.directiveParts, hbetween]
  cases r with
  | text => rfl
  | expression code => exact code.namesOf_parts
  | statement => simp [parts, SyntaxTree.ownParts, names]
  | returned value => simp [parts, value.namesOf_parts, names]
  | framedBody directives header rest leave =>
    have hheader : namesOf header.parts = header.traceVariable.toList ++ header.temporaries := by
      unfold FrameHeader.parts
      cases header.traceVariable with
      | some v => simp
      | none =>
        dsimp only
        split
        · next h => simp [header.enter.namesOf_parts, List.isEmpty_iff.1 h]
        · simp [header.enter.namesOf_parts]
    simp [parts, hdirectives, hbetween, hheader, leave.namesOf_parts, names]
  | hostBody => simp [parts, hdirectives, hbetween, names]
  | program before header gap rest =>
    have hheader : header.partLists.flatMap namesOf = header.temporaries := by
      unfold ProgramHeader.partLists
      split <;> split <;> split <;> simp_all
    simp [parts, hbetween, namesOf_separate, hheader, names]

namespace SyntaxTree

def isBody (t : SyntaxTree) (id : NodeId) : Bool :=
  match (t.node id).replacement with
  | some (.framedBody _ _ _ _) | some (.hostBody _ _ _) => true
  | _ => false

def within (t : SyntaxTree) (bodies : List NodeId) (id : NodeId) : List NodeId :=
  if t.isBody id then id :: bodies else bodies

def walkWithin (t : SyntaxTree) : Nat → List NodeId → NodeId → List Placed
  | 0, _, _ => []
  | depth + 1, bodies, id => (t.parts id).flatMap fun
    | .node c => walkWithin t depth (t.within bodies id) c
    | p => [⟨t.within bodies id, p⟩]

def walk (t : SyntaxTree) (bodies : List NodeId) (id : NodeId) : List Placed :=
  t.walkWithin t.size bodies id

def Separate (t : SyntaxTree) (a b : NodeId) : Prop := ∀ c, t.Below a c → ¬ t.Below b c

variable {t : SyntaxTree} {depth : Nat} {bodies : List NodeId} {id c : NodeId} {x : Placed}

theorem mem_takenOver : c ∈ t.takenOver id ↔ .node c ∈ t.parts id := by
  rw [takenOver, nodesOf, List.mem_filterMap]
  constructor
  · rintro ⟨p, hp, hc⟩
    cases p with
    | node d =>
      cases hc
      exact hp
    | text | used | declared => cases hc
  · exact fun h => ⟨_, h, rfl⟩

theorem mem_walkWithin_succ : x ∈ t.walkWithin (depth + 1) bodies id ↔
    (x.part ∈ t.parts id ∧ x.part.node? = none ∧ x.bodies = t.within bodies id) ∨
      ∃ c ∈ t.takenOver id, x ∈ t.walkWithin depth (t.within bodies id) c := by
  rw [walkWithin, List.mem_flatMap]
  constructor
  · rintro ⟨p, hp, hx⟩
    cases p with
    | node c => exact .inr ⟨c, mem_takenOver.2 hp, hx⟩
    | text | used | declared =>
      obtain rfl := List.mem_singleton.1 hx
      exact .inl ⟨hp, rfl, rfl⟩
  · rintro (⟨hp, hn, hb⟩ | ⟨c, hc, hx⟩)
    · refine ⟨x.part, hp, ?_⟩
      obtain ⟨outer, part⟩ := x
      cases hb
      cases part with
      | node => cases hn
      | text | used | declared => exact List.mem_singleton.2 rfl
    · exact ⟨.node c, mem_takenOver.1 hc, hx⟩

theorem suffix_within (t : SyntaxTree) (bodies : List NodeId) (id : NodeId) :
    bodies <:+ t.within bodies id := by
  unfold within
  split
  · exact List.suffix_cons _ _
  · exact List.suffix_refl _

theorem suffix_of_mem_walk (h : x ∈ t.walkWithin depth bodies id) : bodies <:+ x.bodies := by
  induction depth generalizing bodies id with
  | zero => cases h
  | succ depth ih =>
    rcases mem_walkWithin_succ.1 h with ⟨-, -, hb⟩ | ⟨c, -, hx⟩
    · rw [hb]
      exact t.suffix_within bodies id
    · exact (t.suffix_within bodies id).trans (ih hx)

theorem print_walkWithin (hw : t.WellFormed) (ht : t.TakesFromBelow) (hs : t.Settled)
    (hid : id < t.size) (hd : t.size - id ≤ depth) :
    printPlaced (t.walkWithin depth bodies id) = t.text id := by
  induction depth generalizing bodies id with
  | zero => exact absurd (Nat.le_zero.1 hd) (Nat.sub_ne_zero_of_lt hid)
  | succ depth ih =>
    rw [text_parts hw hs hid, walkWithin]
    have hnode : ∀ c, .node c ∈ t.parts id →
        printPlaced (t.walkWithin depth (t.within bodies id) c) = t.text c := by
      intro c hc
      obtain ⟨hlt, hbelow⟩ := ht id c (mem_takenOver.2 hc)
      exact ih (hw.lt_size_of_below hbelow hid) (WellFormed.sub_le_of_lt hlt hd)
    generalize t.parts id = parts at hnode
    induction parts with
    | nil => rfl
    | cons p rest ihp =>
      have hrest := ihp fun c hc => hnode c (List.mem_cons_of_mem _ hc)
      rw [printPlaced] at hrest
      rw [printPlaced, List.flatMap_cons, List.map_append, printParts_append, hrest, printParts_cons]
      refine congrArg (· ++ _) ?_
      cases p with
      | node c => exact hnode c List.mem_cons_self
      | text | used => simp
      | declared use name value => cases value <;> simp

theorem print_walk (hw : t.WellFormed) (ht : t.TakesFromBelow) (hs : t.Settled) (hid : id < t.size) :
    printPlaced (t.walk bodies id) = t.text id :=
  print_walkWithin hw ht hs hid (Nat.sub_le _ _)

/-- Whatever is used in the walk of a node is used by a node at or below it; and if a node between the
two declares it, it is declared around its use. -/
theorem walk_enclosed (hw : t.WellFormed) (ht : t.TakesFromBelow)
    (hbetween : ∀ {id b c use name value}, c ∈ t.takenOver id → t.Below id b → t.Below b c → b ≠ id →
      b ≠ c → .declared use name value ∉ t.parts b) {use : NameUse} {name : String}
    (hx : x ∈ t.walkWithin depth bodies id) (hused : x.part = .used use name) :
    ∃ e, t.Below id e ∧ .used use name ∈ t.parts e ∧ ∀ b value, t.Below id b → t.Below b e → b ≠ e →
      .declared use name value ∈ t.parts b → ∃ y ∈ t.walkWithin depth bodies id,
        y.part = .declared use name value ∧ y.bodies <:+ x.bodies ∧
          ∃ outer, y.bodies = t.within outer b ∧ (b = id → outer = bodies) := by
  induction depth generalizing bodies id with
  | zero => cases hx
  | succ depth ih =>
    rcases mem_walkWithin_succ.1 hx with ⟨hp, -, -⟩ | ⟨c, hc, hxc⟩
    · refine ⟨id, .refl, hused ▸ hp, fun b value hb hbid hne => ?_⟩
      exact absurd (hw.below_antisymm hbid hb) hne
    · obtain ⟨e, hce, he, henclosed⟩ := ih hxc
      obtain ⟨hlt, hidc⟩ := ht id c hc
      refine ⟨e, hidc.trans hce, he, fun b value hb hbe hne hdeclared => ?_⟩
      by_cases hcb : t.Below c b
      · obtain ⟨y, hy, hpart, hsuffix, outer, houter, -⟩ := henclosed b value hcb hbe hne hdeclared
        refine ⟨y, mem_walkWithin_succ.2 (.inr ⟨c, hc, hy⟩), hpart, hsuffix, outer, houter, ?_⟩
        exact fun e => absurd (hw.le_of_below hcb) (Nat.not_le_of_lt (e ▸ hlt))
      · -- `b` stands above `c`, so it is the node itself.
        have hbc : t.Below b c := (hw.below_or_below hbe hce).resolve_right hcb
        by_cases hbid : b = id
        · subst hbid
          refine ⟨⟨t.within bodies b, .declared use name value⟩, ?_, rfl, suffix_of_mem_walk hxc,
            bodies, rfl, fun _ => rfl⟩
          exact mem_walkWithin_succ.2 (.inl ⟨hdeclared, rfl, rfl⟩)
        · have hne' : b ≠ c := fun h => hcb (h ▸ .refl)
          exact absurd hdeclared (hbetween hc hb hbc hbid hne')

theorem mem_namesOf {parts : List Part} {name : String} :
    name ∈ namesOf parts ↔ ∃ use value, .declared use name value ∈ parts := by
  rw [namesOf, List.mem_filterMap]
  constructor
  · rintro ⟨p, hp, hn⟩
    cases p with
    | declared use name' value =>
      cases hn
      exact ⟨use, value, hp⟩
    | text | used | node => cases hn
  · rintro ⟨use, value, h⟩
    exact ⟨_, h, rfl⟩

theorem declared_of_mem_walk (ht : t.TakesFromBelow) {name : String}
    (h : name ∈ namesOf ((t.walkWithin depth bodies id).map Placed.part)) :
    ∃ e, t.Below id e ∧ name ∈ namesOf (t.parts e) := by
  obtain ⟨use, value, hm⟩ := mem_namesOf.1 h
  obtain ⟨x, hx, hpart⟩ := List.mem_map.1 hm
  clear h hm
  induction depth generalizing bodies id with
  | zero => cases hx
  | succ depth ih =>
    rcases mem_walkWithin_succ.1 hx with ⟨hp, -, -⟩ | ⟨c, hc, hxc⟩
    · exact ⟨id, .refl, mem_namesOf.2 ⟨use, value, hpart ▸ hp⟩⟩
    · obtain ⟨e, he, hname⟩ := ih hxc
      exact ⟨e, (ht id c hc).2.trans he, hname⟩

theorem walk_nodup (hw : t.WellFormed) (ht : t.TakesFromBelow) (hid : id < t.size)
    (hsingle : ∀ d, (namesOf (t.parts d)).Nodup)
    (hdiffer : ∀ {d e}, d ≠ e → (namesOf (t.parts d)).Disjoint (namesOf (t.parts e)))
    (hseparate : ∀ d, d < t.size → (t.takenOver d).Pairwise t.Separate) :
    (namesOf ((t.walkWithin depth bodies id).map Placed.part)).Nodup := by
  induction depth generalizing bodies id with
  | zero => exact List.nodup_nil
  | succ depth ih =>
    have hlist : namesOf ((t.walkWithin (depth + 1) bodies id).map Placed.part) =
        (t.parts id).flatMap fun
          | .node c => namesOf ((t.walkWithin depth (t.within bodies id) c).map Placed.part)
          | p => p.declared?.toList := by
      rw [walkWithin]
      generalize t.parts id = parts
      induction parts with
      | nil => rfl
      | cons p rest ihp =>
        rw [List.flatMap_cons, List.flatMap_cons, ← ihp, List.map_append, namesOf, List.filterMap_append]
        refine congrArg (· ++ _) ?_
        cases p <;> rfl
    have hnode : ∀ {c}, .node c ∈ t.parts id → id < c ∧ c < t.size := by
      intro c hc
      obtain ⟨hlt, hbelow⟩ := ht id c (mem_takenOver.2 hc)
      exact ⟨hlt, hw.lt_size_of_below hbelow hid⟩
    -- Names that a node declares are not declared by what it takes over.
    have hbelow : ∀ {c name}, .node c ∈ t.parts id →
        name ∈ namesOf ((t.walkWithin depth (t.within bodies id) c).map Placed.part) →
        name ∉ namesOf (t.parts id) := by
      intro c name hc hname hown
      obtain ⟨e, he, hdeclared⟩ := declared_of_mem_walk ht hname
      have hlt := Nat.lt_of_lt_of_le (hnode hc).1 (hw.le_of_below he)
      exact hdiffer (Nat.ne_of_lt hlt) hown hdeclared
    have hapart : ∀ {c d}, t.Separate c d →
        (namesOf ((t.walkWithin depth (t.within bodies id) c).map Placed.part)).Disjoint
          (namesOf ((t.walkWithin depth (t.within bodies id) d).map Placed.part)) := by
      intro c d hcd name hc hd
      obtain ⟨e, he, hdeclared⟩ := declared_of_mem_walk ht hc
      obtain ⟨e', he', hdeclared'⟩ := declared_of_mem_walk ht hd
      by_cases hee : e = e'
      · exact hcd e he (hee ▸ he')
      · exact hdiffer hee hdeclared hdeclared'
    rw [hlist, List.nodup_flatMap]
    constructor
    · intro p hp
      cases p with
      | node c => exact ih (hnode hp).2
      | text | used => exact List.nodup_nil
      | declared => exact List.nodup_singleton _
    · have hnames : (t.parts id).Pairwise fun p q =>
          ∀ a, p.declared? = some a → ∀ b, q.declared? = some b → a ≠ b :=
        List.pairwise_filterMap.1 (hsingle id)
      have hnodes : (t.parts id).Pairwise fun p q =>
          ∀ a, p.node? = some a → ∀ b, q.node? = some b → t.Separate a b :=
        List.pairwise_filterMap.1 (hseparate id hid)
      refine (hnames.and hnodes).imp_of_mem fun {p q} hp hq ⟨hpq, hpq'⟩ => ?_
      have hdeclared : ∀ {p : Part} {name}, p ∈ t.parts id → name ∈ p.declared?.toList →
          name ∈ namesOf (t.parts id) :=
        fun hp hname => List.mem_filterMap.2 ⟨_, hp, Option.mem_toList.1 hname⟩
      cases p with
      | text | used => exact List.disjoint_nil_left _
      | node c =>
        cases q with
        | text | used => exact List.disjoint_nil_right _
        | node d => exact hapart (hpq' c rfl d rfl)
        | declared => exact fun name hc hd => hbelow hp hc (hdeclared hq hd)
      | declared use name value =>
        cases q with
        | text | used => exact List.disjoint_nil_right _
        | node d => exact fun name hc hd => hbelow hq hd (hdeclared hp hc)
        | declared use' name' value' =>
          intro name'' hc hd
          exact hpq _ (Option.mem_toList.1 hc) _ (Option.mem_toList.1 hd) rfl

end SyntaxTree

end CoercionTrace
