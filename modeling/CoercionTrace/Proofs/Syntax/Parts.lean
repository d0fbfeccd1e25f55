import CoercionTrace.Instrument.Program
import CoercionTrace.Proofs.Syntax.Update

/-!
# Parts of a text

The text of a node is made of generated characters, characters of the program, generated names and
the texts of other nodes. Main statement: a replacement that was made of the texts that nodes have
reads as its parts side by side (`Replacement.print_parts`).
-/

namespace CoercionTrace

inductive Part
  | text (text : String)
  | used (use : NameUse) (name : String)
  /-- A generated variable where it is declared, with its first value. -/
  | declared (use : NameUse) (name : String) (value : Option Code)
  | node (id : NodeId)

def Part.print (text : NodeId → String) : Part → String
  | .text s => s
  | .used _ name => name
  | .declared _ name none => name
  | .declared _ name (some value) => name ++ " = " ++ value.print
  | .node id => text id

namespace Part

variable (f : NodeId → String) (use : NameUse) (name : String)

@[simp] theorem print_text (s : String) : (Part.text s).print f = s := rfl

@[simp] theorem print_used : (Part.used use name).print f = name := rfl

@[simp] theorem print_declared : (Part.declared use name none).print f = name := rfl

@[simp] theorem print_initialised (value : Code) :
    (Part.declared use name (some value)).print f = name ++ " = " ++ value.print := rfl

@[simp] theorem print_node (id : NodeId) : (Part.node id).print f = f id := rfl

end Part

def Part.node? : Part → Option NodeId
  | .node id => some id
  | _ => none

def printParts (text : NodeId → String) (parts : List Part) : String :=
  String.join (parts.map (Part.print text))

def nodesOf (parts : List Part) : List NodeId := parts.filterMap Part.node?

def separate (separator : String) : List (List Part) → List Part
  | [] => []
  | [parts] => parts
  | parts :: rest => parts ++ .text separator :: separate separator rest

def uninitialised (names : List String) : List Part :=
  names.map fun name => .declared .temporary name none

def declaration (declarations : List Part) : List Part :=
  .text "var " :: separate ", " (declarations.map ([·])) ++ [.text ";"]

namespace Code

mutual

def parts : Code → List Part
  | .splice node _ => [.node node]
  | .name n => [.text n]
  | .identifier _ n => [.text n]
  | .variable use n => [.used use n]
  | .quoted text => [.text (Text.Quoted.script text)]
  | .null => [.text "null"]
  | .void => [.text "void 0"]
  | .index i => [.text (toString i)]
  | .access _ base key => [.used .temporary base, .text "[", .used .temporary key, .text "]"]
  | .store target value => parts target ++ .text " = " :: parts value
  | .operation operator left right => parts left ++ .text (" " ++ operator ++ " ") :: parts right
  | .hook object method arguments =>
    .text (object ++ "." ++ method.name ++ "(") :: separate ", " (partsEach arguments) ++ [.text ")"]
  | .list elements => .text "[" :: separate ", " (partsEach elements) ++ [.text "]"]
  | .sequence elements => .text "(" :: separate ", " (partsEach elements) ++ [.text ")"]

def partsEach : List Code → List (List Part)
  | [] => []
  | c :: rest => parts c :: partsEach rest

end

mutual

def Current (t : SyntaxTree) : Code → Prop
  | .splice node text => text = t.text node
  | .store target value => Current t target ∧ Current t value
  | .operation _ left right => Current t left ∧ Current t right
  | .hook _ _ arguments => CurrentAll t arguments
  | .list elements => CurrentAll t elements
  | .sequence elements => CurrentAll t elements
  | .name _ | .identifier _ _ | .variable _ _ | .quoted _ | .null | .void | .index _
  | .access _ _ _ => True

def CurrentAll (t : SyntaxTree) : List Code → Prop
  | [] => True
  | c :: rest => Current t c ∧ CurrentAll t rest

end

end Code

def FrameHeader.parts (h : FrameHeader) : List Part :=
  match h.traceVariable with
  | some v =>
    .text " " :: declaration (.declared .traceId v (some h.enter) :: uninitialised h.temporaries)
  | none =>
    if h.temporaries.isEmpty then .text " " :: h.enter.parts ++ [.text ";"]
    else .text " " :: h.enter.parts ++ .text "; " :: declaration (uninitialised h.temporaries)

def ProgramHeader.partLists (h : ProgramHeader) : List (List Part) :=
  (if h.afterDirective && h.unterminated then [[.text ";"]] else []) ++
  (if h.linkage.isEmpty then [] else [[.text h.linkage]]) ++
  (if h.temporaries.isEmpty then [] else [declaration (uninitialised h.temporaries)])

namespace SyntaxTree

def spliceParts (t : SyntaxTree) (cursor stop : Nat) : List NodeId → List Part
  | [] => [.text (slice t.source cursor stop)]
  | c :: rest =>
    .text (slice t.source cursor (t.node c).start) :: .node c :: spliceParts t (t.node c).stop stop rest

def ownParts (t : SyntaxTree) (id : NodeId) : List Part :=
  t.spliceParts (t.node id).start (t.node id).stop (t.children id)

def ownText (t : SyntaxTree) (id : NodeId) : String :=
  t.splice t.text (t.node id).start (t.node id).stop (t.children id)

def childrenBetween (t : SyntaxTree) (id : NodeId) (start stop : Nat) : List NodeId :=
  (t.children id).filter fun c => start ≤ (t.node c).start && (t.node c).stop ≤ stop

def partsBetween (t : SyntaxTree) (id : NodeId) (start stop : Nat) : List Part :=
  t.spliceParts start stop (t.childrenBetween id start stop)

def directiveParts (t : SyntaxTree) (body : NodeId) : List Part :=
  t.partsBetween body (t.bodyStart body) (t.bodyCut body) ++
    if t.lacksSemicolon body then [.text ";"] else []

end SyntaxTree

namespace Replacement

def parts (t : SyntaxTree) (id : NodeId) : Replacement → List Part
  | .text s => [.text s]
  | .expression code => code.parts
  | .statement leading _ trailing =>
    (if leading then [.text ";"] else []) ++ t.ownParts id ++ (if trailing then [.text ";"] else [])
  | .returned value => .text "return " :: value.parts ++ [.text ";"]
  | .framedBody _ header _ leave =>
    .text "\x7b" :: t.directiveParts id ++ header.parts ++
      .text " try \x7b" :: t.partsBetween id (t.bodyCut id) (t.bodyStop id) ++
      .text "\x7d finally \x7b " :: leave.parts ++ [.text "; \x7d\x7d"]
  | .hostBody _ temporaries _ =>
    .text "\x7b" :: t.directiveParts id ++ .text " " ::
      declaration (uninitialised temporaries) ++ t.partsBetween id (t.bodyCut id) (t.bodyStop id) ++ [.text "\x7d"]
  | .program _ header gap _ =>
    t.partsBetween id (t.node id).start t.insertionPoint.1 ++
      (if header.afterDirective then [.text " "] else []) ++ separate " " header.partLists ++
      (if gap then [.text " "] else []) ++
      t.partsBetween id t.insertionPoint.1 (t.node id).stop

def Current (t : SyntaxTree) (id : NodeId) : Replacement → Prop
  | .text _ => True
  | .expression code => code.Current t
  | .returned value => value.Current t
  | .statement _ own _ => own = t.ownText id
  | .framedBody directives header rest leave =>
    directives = (t.bodyParts id).1 ∧ rest = (t.bodyParts id).2 ∧ header.enter.spliced = [] ∧
      leave.spliced = []
  | .hostBody directives _ rest => directives = (t.bodyParts id).1 ∧ rest = (t.bodyParts id).2
  | .program before _ _ rest =>
    before = t.textBetween id (t.node id).start t.insertionPoint.1 ∧
      rest = t.textBetween id t.insertionPoint.1 (t.node id).stop

def takenOver (t : SyntaxTree) (id : NodeId) (r : Replacement) : List NodeId := nodesOf (r.parts t id)

end Replacement

namespace SyntaxTree

def parts (t : SyntaxTree) (id : NodeId) : List Part :=
  match (t.node id).replacement with
  | none => t.ownParts id
  | some r => r.parts t id

def takenOver (t : SyntaxTree) (id : NodeId) : List NodeId := nodesOf (t.parts id)

def TakesFromBelow (t : SyntaxTree) : Prop := ∀ id, ∀ c ∈ t.takenOver id, id < c ∧ t.Below id c

end SyntaxTree

/-! ## Parts with a property -/

def Code.All (Q : Part → Prop) (c : Code) : Prop := ∀ p ∈ c.parts, Q p

def Replacement.CallsAll (Q : Part → Prop) : Replacement → Prop
  | .framedBody _ header _ leave => header.enter.All Q ∧ leave.All Q
  | .hostBody _ _ _ | .program _ _ _ _ => True
  | _ => False

section

variable {Q : Part → Prop} (hQ : ∀ s, Q (.text s))
include hQ

theorem all_separate {separator : String} {partLists : List (List Part)}
    (h : ∀ parts ∈ partLists, ∀ p ∈ parts, Q p) : ∀ p ∈ separate separator partLists, Q p := by
  induction partLists with
  | nil => simp [separate]
  | cons parts rest ih =>
    have hrest := ih fun parts' hm => h parts' (List.mem_cons_of_mem _ hm)
    have hparts := h parts List.mem_cons_self
    cases rest with
    | nil => exact hparts
    | cons parts' rest' =>
      rw [separate]
      · exact List.forall_mem_append.2 ⟨hparts, List.forall_mem_cons.2 ⟨hQ _, hrest⟩⟩
      · simp

theorem all_declaration {declarations : List Part} (h : ∀ p ∈ declarations, Q p) :
    ∀ p ∈ declaration declarations, Q p := by
  have hlists : ∀ parts ∈ declarations.map ([·]), ∀ p ∈ parts, Q p := by
    intro parts hparts
    obtain ⟨p, hp, rfl⟩ := List.mem_map.1 hparts
    exact List.forall_mem_singleton.2 (h p hp)
  refine List.forall_mem_append.2 ⟨List.forall_mem_cons.2 ⟨hQ _, all_separate hQ hlists⟩, ?_⟩
  exact List.forall_mem_singleton.2 (hQ _)

namespace Code

omit hQ in
theorem all_partsEach {cs : List Code} (h : ∀ c ∈ cs, c.All Q) :
    ∀ parts ∈ partsEach cs, ∀ p ∈ parts, Q p := by
  induction cs with
  | nil => simp [partsEach]
  | cons c rest ih =>
    exact List.forall_mem_cons.2 ⟨h c List.mem_cons_self,
      ih fun c' hc' => h c' (List.mem_cons_of_mem _ hc')⟩

theorem all_hook {object : String} {method : HookMethod} {arguments : List Code}
    (h : ∀ c ∈ arguments, c.All Q) : (hook object method arguments).All Q := by
  refine List.forall_mem_append.2 ⟨List.forall_mem_cons.2 ⟨hQ _, ?_⟩, List.forall_mem_singleton.2 (hQ _)⟩
  exact all_separate hQ (all_partsEach h)

theorem all_list {elements : List Code} (h : ∀ c ∈ elements, c.All Q) : (list elements).All Q := by
  refine List.forall_mem_append.2 ⟨List.forall_mem_cons.2 ⟨hQ _, ?_⟩, List.forall_mem_singleton.2 (hQ _)⟩
  exact all_separate hQ (all_partsEach h)

theorem all_sequence {elements : List Code} (h : ∀ c ∈ elements, c.All Q) :
    (sequence elements).All Q := by
  refine List.forall_mem_append.2 ⟨List.forall_mem_cons.2 ⟨hQ _, ?_⟩, List.forall_mem_singleton.2 (hQ _)⟩
  exact all_separate hQ (all_partsEach h)

theorem all_store {target value : Code} (ht : target.All Q) (hv : value.All Q) :
    (store target value).All Q :=
  List.forall_mem_append.2 ⟨ht, List.forall_mem_cons.2 ⟨hQ _, hv⟩⟩

theorem all_operation {operator : String} {left right : Code} (hl : left.All Q) (hr : right.All Q) :
    (operation operator left right).All Q :=
  List.forall_mem_append.2 ⟨hl, List.forall_mem_cons.2 ⟨hQ _, hr⟩⟩

theorem all_after {preamble : List Code} {c : Code} (hp : ∀ p ∈ preamble, p.All Q) (hc : c.All Q) :
    (c.after preamble).All Q := by
  unfold after
  split
  · exact hc
  · exact all_sequence hQ (List.forall_mem_append.2 ⟨hp, List.forall_mem_singleton.2 hc⟩)

theorem all_quoted (text : String) : (quoted text).All Q := List.forall_mem_singleton.2 (hQ _)

theorem all_null : null.All Q := List.forall_mem_singleton.2 (hQ _)

theorem all_name (n : String) : (name n).All Q := List.forall_mem_singleton.2 (hQ _)

end Code

variable (hnode : ∀ c, Q (.node c)) {t : SyntaxTree} {id : NodeId}

include hnode

theorem all_spliceParts {nodes : List NodeId} {cursor stop : Nat} :
    ∀ p ∈ t.spliceParts cursor stop nodes, Q p := by
  induction nodes generalizing cursor with
  | nil => exact List.forall_mem_singleton.2 (hQ _)
  | cons c rest ih =>
    exact List.forall_mem_cons.2 ⟨hQ _, List.forall_mem_cons.2 ⟨hnode c, ih⟩⟩

theorem all_ownParts : ∀ p ∈ t.ownParts id, Q p := all_spliceParts hQ hnode

theorem all_body (hdeclared : ∀ use name value, Q (.declared use name value)) {r : Replacement}
    (h : r.CallsAll Q) : ∀ p ∈ r.parts t id, Q p := by
  have hbetween : ∀ start stop, ∀ p ∈ t.partsBetween id start stop, Q p :=
    fun _ _ => all_spliceParts hQ hnode
  have htext : ∀ (b : Bool) (s : String), ∀ p ∈ (if b then [Part.text s] else []), Q p := by
    intro b s
    cases b
    · simp
    · exact List.forall_mem_singleton.2 (hQ _)
  have hdirectives : ∀ p ∈ t.directiveParts id, Q p :=
    List.forall_mem_append.2 ⟨hbetween _ _, htext _ _⟩
  have hnames : ∀ names, ∀ p ∈ uninitialised names, Q p := by
    intro names p hp
    obtain ⟨name, -, rfl⟩ := List.mem_map.1 hp
    exact hdeclared _ _ _
  cases r with
  | text | expression | statement | returned => exact h.elim
  | framedBody directives header rest leave =>
    have hheader : ∀ p ∈ header.parts, Q p := by
      unfold FrameHeader.parts
      cases header.traceVariable with
      | some v =>
        exact List.forall_mem_cons.2 ⟨hQ _, all_declaration hQ
          (List.forall_mem_cons.2 ⟨hdeclared _ _ _, hnames _⟩)⟩
      | none =>
        dsimp only
        split
        · exact List.forall_mem_append.2 ⟨List.forall_mem_cons.2 ⟨hQ _, h.1⟩,
            List.forall_mem_singleton.2 (hQ _)⟩
        · exact List.forall_mem_append.2 ⟨List.forall_mem_cons.2 ⟨hQ _, h.1⟩,
            List.forall_mem_cons.2 ⟨hQ _, all_declaration hQ (hnames _)⟩⟩
    simp only [Replacement.parts, List.forall_mem_append, List.forall_mem_cons, and_assoc]
    exact ⟨hQ _, hdirectives, hheader, hQ _, hbetween _ _, hQ _, h.2, hQ _, by simp⟩
  | hostBody directives temporaries rest =>
    simp only [Replacement.parts, List.forall_mem_append, List.forall_mem_cons, and_assoc]
    exact ⟨hQ _, hdirectives, hQ _, all_declaration hQ (hnames _), hbetween _ _, hQ _, by simp⟩
  | program before header gap rest =>
    have hheader : ∀ parts ∈ header.partLists, ∀ p ∈ parts, Q p := by
      unfold ProgramHeader.partLists
      simp only [List.forall_mem_append]
      refine ⟨⟨?_, ?_⟩, ?_⟩
      · split <;> simp [hQ]
      · split <;> simp [hQ]
      · split
        · simp
        · exact List.forall_mem_singleton.2 (all_declaration hQ (hnames _))
    simp only [Replacement.parts, List.forall_mem_append]
    exact ⟨⟨⟨⟨hbetween _ _, htext _ _⟩, all_separate hQ hheader⟩, htext _ _⟩, hbetween _ _⟩

end

theorem mem_separate {separator : String} {p : Part} {parts : List Part} {partLists : List (List Part)}
    (h : parts ∈ partLists) (hp : p ∈ parts) : p ∈ separate separator partLists := by
  induction partLists with
  | nil => cases h
  | cons first rest ih =>
    cases rest with
    | nil =>
      obtain rfl := List.mem_singleton.1 h
      exact hp
    | cons second rest' =>
      rw [separate]
      · rcases List.mem_cons.1 h with rfl | h
        · exact List.mem_append_left _ hp
        · exact List.mem_append_right _ (List.mem_cons_of_mem _ (ih h))
      · simp

theorem mem_declaration {p : Part} {declarations : List Part} (h : p ∈ declarations) :
    p ∈ declaration declarations := by
  refine List.mem_append_left _ (List.mem_cons_of_mem _ ?_)
  exact mem_separate (List.mem_map_of_mem h) List.mem_cons_self

/-! ## Printing -/

section

variable {text : NodeId → String} {t : SyntaxTree} {id : NodeId}

@[simp] theorem printParts_nil : printParts text [] = "" := by simp [printParts]

@[simp] theorem printParts_cons (p : Part) (parts : List Part) :
    printParts text (p :: parts) = p.print text ++ printParts text parts := by simp [printParts]

@[simp] theorem printParts_append (parts parts' : List Part) :
    printParts text (parts ++ parts') = printParts text parts ++ printParts text parts' := by
  simp [printParts]

theorem printParts_separate (separator : String) (partLists : List (List Part)) :
    printParts text (separate separator partLists) =
      separator.intercalate (partLists.map (printParts text)) := by
  induction partLists with
  | nil => simp [separate]
  | cons parts rest ih =>
    cases rest with
    | nil => simp [separate]
    | cons parts' rest' =>
      rw [separate, printParts_append, printParts_cons, ih, Part.print_text]
      · simp only [List.map_cons, String.intercalate_cons_cons, String.append_assoc]
      · simp

theorem printParts_declaration (declarations : List Part) :
    printParts text (declaration declarations) = declareAll (declarations.map (Part.print text)) := by
  have hsingle : (printParts text ∘ fun p => [p]) = Part.print text := by
    funext p
    simp
  simp only [declaration, List.cons_append, printParts_cons, printParts_append, printParts_separate,
    List.map_map, hsingle, printParts_nil, Part.print_text, declareAll, String.append_assoc,
    String.append_empty]

theorem printParts_ite (p : Bool) (s : String) :
    printParts text (if p then [.text s] else []) = if p then s else "" := by
  cases p <;> simp

mutual

theorem Code.current_of_spliced (c : Code) (h : c.spliced = []) : c.Current t := by
  cases c with
  | splice => cases h
  | store target value =>
    obtain ⟨htarget, hvalue⟩ := List.append_eq_nil_iff.1 h
    exact ⟨target.current_of_spliced htarget, value.current_of_spliced hvalue⟩
  | operation operator left right =>
    obtain ⟨hleft, hright⟩ := List.append_eq_nil_iff.1 h
    exact ⟨left.current_of_spliced hleft, right.current_of_spliced hright⟩
  | hook object method arguments => exact Code.currentAll_of_spliced arguments h
  | list elements => exact Code.currentAll_of_spliced elements h
  | sequence elements => exact Code.currentAll_of_spliced elements h
  | name | identifier | «variable» | quoted | null | void | index | access => trivial

theorem Code.currentAll_of_spliced (cs : List Code) (h : Code.splicedAll cs = []) :
    Code.CurrentAll t cs := by
  cases cs with
  | nil => trivial
  | cons c rest =>
    obtain ⟨hc, hrest⟩ := List.append_eq_nil_iff.1 h
    exact ⟨c.current_of_spliced hc, Code.currentAll_of_spliced rest hrest⟩

end

mutual

theorem Code.print_parts {c : Code} (h : c.Current t) : c.print = printParts t.text c.parts := by
  cases c with
  | splice node s =>
    have hs : s = t.text node := h
    simp [Code.print, Code.parts, hs]
  | name => simp [Code.print, Code.parts]
  | identifier => simp [Code.print, Code.parts]
  | «variable» => simp [Code.print, Code.parts]
  | quoted => simp [Code.print, Code.parts]
  | null => simp [Code.print, Code.parts]
  | void => simp [Code.print, Code.parts]
  | index => simp [Code.print, Code.parts]
  | access => simp [Code.print, Code.parts, String.append_assoc]
  | store target value =>
    simp [Code.print, Code.parts, String.append_assoc, Code.print_parts h.1, Code.print_parts h.2]
  | operation operator left right =>
    simp [Code.print, Code.parts, String.append_assoc, Code.print_parts h.1, Code.print_parts h.2]
  | hook object method arguments =>
    simp [Code.print, Code.parts, String.append_assoc, printParts_separate, Code.printAll_parts h]
  | list elements =>
    simp [Code.print, Code.parts, String.append_assoc, printParts_separate, Code.printAll_parts h]
  | sequence elements =>
    simp [Code.print, Code.parts, String.append_assoc, printParts_separate, Code.printAll_parts h]

theorem Code.printAll_parts {cs : List Code} (h : Code.CurrentAll t cs) :
    Code.printAll cs = (Code.partsEach cs).map (printParts t.text) := by
  cases cs with
  | nil => rfl
  | cons c rest =>
    rw [Code.printAll, Code.partsEach, List.map_cons, Code.print_parts h.1, Code.printAll_parts h.2]

end

theorem printParts_spliceParts (t : SyntaxTree) (cursor stop : Nat) (nodes : List NodeId) :
    printParts t.text (t.spliceParts cursor stop nodes) = t.splice t.text cursor stop nodes := by
  induction nodes generalizing cursor with
  | nil => simp [SyntaxTree.spliceParts, SyntaxTree.splice]
  | cons c rest ih =>
    simp [SyntaxTree.spliceParts, SyntaxTree.splice, ih, String.append_assoc]

theorem printParts_ownParts (t : SyntaxTree) (id : NodeId) :
    printParts t.text (t.ownParts id) = t.ownText id :=
  printParts_spliceParts t _ _ _

theorem printParts_partsBetween (t : SyntaxTree) (id : NodeId) (start stop : Nat) :
    printParts t.text (t.partsBetween id start stop) = t.textBetween id start stop :=
  printParts_spliceParts t _ _ _

theorem printParts_directiveParts (t : SyntaxTree) (body : NodeId) :
    printParts t.text (t.directiveParts body) = (t.bodyParts body).1 := by
  rw [SyntaxTree.directiveParts, printParts_append, printParts_partsBetween, printParts_ite,
    SyntaxTree.bodyParts]
  split <;> simp

@[simp] theorem print_uninitialised (names : List String) :
    (uninitialised names).map (Part.print text) = names := by
  have hprint : (Part.print text ∘ fun name => Part.declared .temporary name none) = id := rfl
  rw [uninitialised, List.map_map, hprint, List.map_id]

theorem FrameHeader.print_parts {h : FrameHeader} (hc : h.enter.Current t) :
    h.print = printParts t.text h.parts := by
  unfold FrameHeader.print FrameHeader.parts
  cases h.traceVariable with
  | some v => simp [printParts_declaration]
  | none =>
    dsimp only
    split
    · simp [h.enter.print_parts hc, String.append_assoc]
    · simp [h.enter.print_parts hc, printParts_declaration, String.append_assoc]

theorem ProgramHeader.parts_partLists (h : ProgramHeader) (text : NodeId → String) :
    h.parts = h.partLists.map (printParts text) := by
  unfold ProgramHeader.parts ProgramHeader.partLists
  rw [List.map_append, List.map_append]
  refine congrArg₂ _ (congrArg₂ _ ?_ ?_) ?_
  · split <;> simp
  · split <;> simp
  · split <;> simp [printParts_declaration]

theorem Replacement.print_parts {r : Replacement} (h : r.Current t id) :
    r.print = printParts t.text (r.parts t id) := by
  cases r with
  | text s => simp [Replacement.print, Replacement.parts]
  | expression code => exact code.print_parts h
  | statement leading own trailing =>
    have hown : own = t.ownText id := h
    simp only [Replacement.print, Replacement.parts, printParts_append, printParts_ite,
      printParts_ownParts, hown]
  | returned value =>
    simp [Replacement.print, Replacement.parts, value.print_parts h, String.append_assoc]
  | framedBody directives header rest leave =>
    obtain ⟨rfl, rfl, henter, hleave⟩ := h
    replace henter := header.enter.current_of_spliced (t := t) henter
    replace hleave := leave.current_of_spliced (t := t) hleave
    have hrest := printParts_partsBetween t id (t.bodyCut id) (t.bodyStop id)
    simp [Replacement.print, Replacement.parts, printParts_directiveParts, header.print_parts henter,
      leave.print_parts hleave, hrest, SyntaxTree.bodyParts, String.append_assoc]
  | hostBody directives temporaries rest =>
    obtain ⟨rfl, rfl⟩ := h
    have hrest := printParts_partsBetween t id (t.bodyCut id) (t.bodyStop id)
    simp [Replacement.print, Replacement.parts, printParts_directiveParts, printParts_declaration,
      hrest, SyntaxTree.bodyParts, String.append_assoc]
  | program before header gap rest =>
    obtain ⟨rfl, rfl⟩ := h
    simp only [Replacement.print, Replacement.parts, printParts_append, printParts_ite,
      printParts_partsBetween, printParts_separate, header.parts_partLists t.text]

end

/-! ## Nodes -/

section

variable {t t' : SyntaxTree} {id : NodeId}

@[simp] theorem nodesOf_nil : nodesOf [] = [] := rfl

@[simp] theorem nodesOf_text (s : String) (parts : List Part) :
    nodesOf (.text s :: parts) = nodesOf parts := rfl

@[simp] theorem nodesOf_used (use : NameUse) (name : String) (parts : List Part) :
    nodesOf (.used use name :: parts) = nodesOf parts := rfl

@[simp] theorem nodesOf_declared (use : NameUse) (name : String) (value : Option Code)
    (parts : List Part) : nodesOf (.declared use name value :: parts) = nodesOf parts := rfl

@[simp] theorem nodesOf_node (c : NodeId) (parts : List Part) :
    nodesOf (.node c :: parts) = c :: nodesOf parts := rfl

@[simp] theorem nodesOf_append (parts parts' : List Part) :
    nodesOf (parts ++ parts') = nodesOf parts ++ nodesOf parts' :=
  List.filterMap_append

@[simp] theorem nodesOf_ite (p : Bool) (s : String) :
    nodesOf (if p then [.text s] else []) = [] := by
  cases p <;> rfl

theorem nodesOf_separate (separator : String) (partLists : List (List Part)) :
    nodesOf (separate separator partLists) = partLists.flatMap nodesOf := by
  induction partLists with
  | nil => rfl
  | cons parts rest ih =>
    cases rest with
    | nil => simp [separate]
    | cons parts' rest' =>
      rw [separate, nodesOf_append, nodesOf_text, ih]
      · rfl
      · simp

@[simp] theorem nodesOf_uninitialised (names : List String) : nodesOf (uninitialised names) = [] := by
  simp [nodesOf, uninitialised, Part.node?]

theorem nodesOf_declaration {declarations : List Part} (h : nodesOf declarations = []) :
    nodesOf (declaration declarations) = [] := by
  have hdeclarations : declarations.flatMap (fun p => nodesOf [p]) = nodesOf declarations := by
    induction declarations with
    | nil => rfl
    | cons p rest ih =>
      have hcons : nodesOf (p :: rest) = nodesOf [p] ++ nodesOf rest := nodesOf_append [p] rest
      rw [hcons] at h ⊢
      rw [List.flatMap_cons, ih (List.append_eq_nil_iff.1 h).2]
  simp [declaration, nodesOf_separate, List.flatMap_map, hdeclarations, h]

mutual

theorem Code.nodesOf_parts (c : Code) : nodesOf c.parts = c.spliced := by
  cases c with
  | store target value => simp [Code.parts, Code.spliced, Code.nodesOf_parts]
  | operation operator left right => simp [Code.parts, Code.spliced, Code.nodesOf_parts]
  | hook object method arguments =>
    simp [Code.parts, Code.spliced, nodesOf_separate, Code.nodesOf_partsEach]
  | list elements => simp [Code.parts, Code.spliced, nodesOf_separate, Code.nodesOf_partsEach]
  | sequence elements => simp [Code.parts, Code.spliced, nodesOf_separate, Code.nodesOf_partsEach]
  | splice | name | identifier | «variable» | quoted | null | void | index | access => rfl

theorem Code.nodesOf_partsEach (cs : List Code) :
    (Code.partsEach cs).flatMap nodesOf = Code.splicedAll cs := by
  cases cs with
  | nil => rfl
  | cons c rest =>
    rw [Code.partsEach, List.flatMap_cons, Code.nodesOf_parts, Code.nodesOf_partsEach, Code.splicedAll]

end

@[simp] theorem nodesOf_spliceParts (t : SyntaxTree) (cursor stop : Nat) (nodes : List NodeId) :
    nodesOf (t.spliceParts cursor stop nodes) = nodes := by
  induction nodes generalizing cursor with
  | nil => rfl
  | cons c rest ih => simp [SyntaxTree.spliceParts, ih]

@[simp] theorem nodesOf_ownParts (t : SyntaxTree) (id : NodeId) :
    nodesOf (t.ownParts id) = t.children id :=
  nodesOf_spliceParts t _ _ _

@[simp] theorem nodesOf_partsBetween (t : SyntaxTree) (id : NodeId) (start stop : Nat) :
    nodesOf (t.partsBetween id start stop) = t.childrenBetween id start stop :=
  nodesOf_spliceParts t _ _ _

@[simp] theorem nodesOf_directiveParts (t : SyntaxTree) (body : NodeId) :
    nodesOf (t.directiveParts body) =
      t.childrenBetween body (t.bodyStart body) (t.bodyCut body) := by
  simp [SyntaxTree.directiveParts]

namespace Replacement

@[simp] theorem takenOver_expression (code : Code) :
    (expression code).takenOver t id = code.spliced :=
  code.nodesOf_parts

@[simp] theorem takenOver_returned (value : Code) :
    (returned value).takenOver t id = value.spliced := by
  simp [takenOver, parts, value.nodesOf_parts]

@[simp] theorem takenOver_statement (leading : Bool) (own : String) (trailing : Bool) :
    (statement leading own trailing).takenOver t id = t.children id := by
  simp [takenOver, parts]

theorem takenOver_framedBody {directives rest : String} {header : FrameHeader} {leave : Code}
    (henter : header.enter.spliced = []) (hleave : leave.spliced = []) :
    (framedBody directives header rest leave).takenOver t id =
      t.childrenBetween id (t.bodyStart id) (t.bodyCut id) ++
        t.childrenBetween id (t.bodyCut id) (t.bodyStop id) := by
  have hheader : nodesOf header.parts = [] := by
    unfold FrameHeader.parts
    cases header.traceVariable with
    | some v => simp [nodesOf_declaration]
    | none =>
      dsimp only
      split <;> simp [header.enter.nodesOf_parts, nodesOf_declaration, henter]
  simp [takenOver, parts, hheader, leave.nodesOf_parts, hleave]

theorem takenOver_hostBody (directives : String) (temporaries : List String) (rest : String) :
    (hostBody directives temporaries rest).takenOver t id =
      t.childrenBetween id (t.bodyStart id) (t.bodyCut id) ++
        t.childrenBetween id (t.bodyCut id) (t.bodyStop id) := by
  simp [takenOver, parts, nodesOf_declaration]

theorem takenOver_program (before : String) (header : ProgramHeader) (gap : Bool) (rest : String) :
    (program before header gap rest).takenOver t id =
      t.childrenBetween id (t.node id).start t.insertionPoint.1 ++
        t.childrenBetween id t.insertionPoint.1 (t.node id).stop := by
  have hheader : header.partLists.flatMap nodesOf = [] := by
    rw [ProgramHeader.partLists]
    split <;> split <;> split <;> simp [nodesOf_declaration]
  simp [takenOver, parts, nodesOf_separate, hheader]

end Replacement

theorem SyntaxTree.mem_of_between {start stop start' stop' : Nat} {c : NodeId}
    (h : c ∈ t.childrenBetween id start stop ++ t.childrenBetween id start' stop') :
    c ∈ t.children id :=
  (List.mem_append.1 h).elim (fun h => (List.mem_filter.1 h).1) fun h => (List.mem_filter.1 h).1

theorem SyntaxTree.takenOver_of_none (h : (t.node id).replacement = none) :
    t.takenOver id = t.children id := by
  rw [takenOver, parts, h]
  exact nodesOf_ownParts t id

theorem SyntaxTree.takenOver_of_some {r : Replacement} (h : (t.node id).replacement = some r) :
    t.takenOver id = r.takenOver t id := by
  rw [takenOver, parts, h]
  rfl

namespace SyntaxTree.SameShape

theorem childrenBetween (h : t.SameShape t') : t'.childrenBetween = t.childrenBetween := by
  funext id start stop
  simp only [SyntaxTree.childrenBetween, h.children, h.start, h.stop]

theorem bodyStart (h : t.SameShape t') : t'.bodyStart = t.bodyStart := by
  funext body
  simp only [SyntaxTree.bodyStart, h.start]

theorem bodyStop (h : t.SameShape t') : t'.bodyStop = t.bodyStop := by
  funext body
  simp only [SyntaxTree.bodyStop, h.stop]

theorem bodyCut (h : t.SameShape t') : t'.bodyCut = t.bodyCut := by
  funext body
  simp only [SyntaxTree.bodyCut, h.directivesEnd, h.bodyStart, h.significantChildren]

theorem insertionPoint (h : t.SameShape t') : t'.insertionPoint = t.insertionPoint := by
  have hhead : ∀ statements cut afterDirective,
      t'.headEnd cut afterDirective statements = t.headEnd cut afterDirective statements := by
    intro statements
    induction statements with
    | nil => exact fun _ _ => rfl
    | cons statement rest ih =>
      intro cut afterDirective
      simp only [SyntaxTree.headEnd, h.kind, h.source, h.stop, h.isDirective, ih]
  simp only [SyntaxTree.insertionPoint, hhead, h.start, h.stop, h.significantChildren]

theorem takenOver (h : t.SameShape t') (r : Replacement) (id : NodeId) :
    r.takenOver t' id = r.takenOver t id := by
  cases r with
  | text | expression | returned => rfl
  | statement => simp [h.children]
  | framedBody =>
    simp [Replacement.takenOver, Replacement.parts, h.childrenBetween, h.bodyStart, h.bodyCut,
      h.bodyStop]
  | hostBody => simp [Replacement.takenOver_hostBody, h.childrenBetween, h.bodyStart, h.bodyCut,
      h.bodyStop]
  | program => simp [Replacement.takenOver_program, h.childrenBetween, h.insertionPoint, h.start,
      h.stop]

end SyntaxTree.SameShape

end

end CoercionTrace
