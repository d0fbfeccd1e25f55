import CoercionTrace.Proofs.Syntax.Cuts

/-!
# The edits of a tree

The text of a tree is the program with edits that do not overlap: whole nodes are replaced, and
bodies and the program take declarations. Main statements: these edits make up the text
(`render_edits`), each belongs to a replacement (`editOf_of_mem`), and a body that takes declarations
and does not end with its brace has its last byte replaced (`exists_edit_of_overwrites`).
-/

namespace CoercionTrace

def ProgramHeader.text (h : ProgramHeader) (gap : Bool) : String :=
  (if h.afterDirective then " " else "") ++ " ".intercalate h.parts ++ (if gap then " " else "")

def Replacement.isHost : Replacement → Bool
  | .hostBody _ _ _ | .program _ _ _ _ => true
  | _ => false

namespace SyntaxTree

def declarationText (t : SyntaxTree) (body : NodeId) (temporaries : List String) : String :=
  (if t.lacksSemicolon body then ";" else "") ++ " " ++ declareAll temporaries

def braceEdits (t : SyntaxTree) (body : NodeId) : List Edit :=
  if slice t.source (t.bodyStop body) (t.node body).stop = "\x7d" then []
  else [⟨t.bodyStop body, (t.node body).stop, "\x7d"⟩]

def nodeEdits (t : SyntaxTree) (f : NodeId → List Edit) (id : NodeId) :
    Option Replacement → List Edit
  | none => (t.children id).flatMap f
  | some (.hostBody _ temporaries _) =>
    (t.childrenBetween id (t.bodyStart id) (t.bodyCut id)).flatMap f ++
      ⟨t.bodyCut id, t.bodyCut id, t.declarationText id temporaries⟩ ::
      ((t.childrenBetween id (t.bodyCut id) (t.bodyStop id)).flatMap f ++ t.braceEdits id)
  | some (.program _ header gap _) =>
    (t.childrenBetween id (t.node id).start t.insertionPoint.1).flatMap f ++
      ⟨t.insertionPoint.1, t.insertionPoint.1, header.text gap⟩ ::
      (t.childrenBetween id t.insertionPoint.1 (t.node id).stop).flatMap f
  | some r => [⟨(t.node id).start, (t.node id).stop, r.print⟩]

def editsWithin (t : SyntaxTree) : Nat → NodeId → List Edit
  | 0, _ => []
  | depth + 1, id => t.nodeEdits (editsWithin t depth) id (t.node id).replacement

def edits (t : SyntaxTree) : List Edit := t.editsWithin t.size root

structure HostsFit (t : SyntaxTree) : Prop where
  body : ∀ {id directives temporaries rest},
    (t.node id).replacement = some (.hostBody directives temporaries rest) →
    t.kind id = .statementBlock
  program : ∀ {id before header gap rest},
    (t.node id).replacement = some (.program before header gap rest) → id = root

def Overwrites (t : SyntaxTree) (b : NodeId) : Prop :=
  (∃ directives temporaries rest,
    (t.node b).replacement = some (.hostBody directives temporaries rest)) ∧
  slice t.source (t.bodyStop b) (t.node b).stop ≠ "\x7d"

variable {t : SyntaxTree} {id b c d : NodeId}

structure Spelled (t : SyntaxTree) (id : NodeId) (edits : List Edit) : Prop where
  within : EditsWithin (t.node id).start (t.node id).stop edits
  text : t.text id = applyEdits t.source (t.node id).start (t.node id).stop edits

theorem splice_apply {text : NodeId → String} {f : NodeId → List Edit} {nodes : List NodeId}
    {cursor stop : Nat} (hwithin : ∀ c ∈ nodes, EditsWithin (t.node c).start (t.node c).stop (f c))
    (htext : ∀ c ∈ nodes, text c = applyEdits t.source (t.node c).start (t.node c).stop (f c))
    (hord : nodes.Pairwise t.Before) (hstart : ∀ c ∈ nodes, cursor ≤ (t.node c).start)
    (hstop : ∀ c ∈ nodes, (t.node c).stop ≤ stop) (hle : cursor ≤ stop) :
    EditsWithin cursor stop (nodes.flatMap f) ∧
      t.splice text cursor stop nodes = applyEdits t.source cursor stop (nodes.flatMap f) := by
  induction nodes generalizing cursor with
  | nil => exact ⟨hle, rfl⟩
  | cons c rest ih =>
    have hcursor := hstart c List.mem_cons_self
    have hc := hwithin c List.mem_cons_self
    obtain ⟨hbefore, hord⟩ := List.pairwise_cons.1 hord
    obtain ⟨hrest, hspliced⟩ := ih (fun d hd => hwithin d (List.mem_cons_of_mem _ hd))
      (fun d hd => htext d (List.mem_cons_of_mem _ hd)) hord hbefore
      (fun d hd => hstop d (List.mem_cons_of_mem _ hd)) (hstop c List.mem_cons_self)
    have hfirst : EditsWithin cursor (t.node c).stop (f c) := hc.of_le hcursor
    have hslice : applyEdits t.source cursor (t.node c).stop (f c) =
        slice t.source cursor (t.node c).start ++ text c := by
      rw [htext c List.mem_cons_self]
      exact hc.apply_of_le hcursor
    refine ⟨hfirst.append hrest, ?_⟩
    rw [List.flatMap_cons, hfirst.apply_append hrest, hslice, splice, hspliced]

theorem splice_edits {f : NodeId → List Edit} {nodes : List NodeId} {cursor stop : Nat}
    (hf : ∀ c ∈ nodes, t.Spelled c (f c)) (hord : nodes.Pairwise t.Before)
    (hstart : ∀ c ∈ nodes, cursor ≤ (t.node c).start) (hstop : ∀ c ∈ nodes, (t.node c).stop ≤ stop)
    (hle : cursor ≤ stop) : EditsWithin cursor stop (nodes.flatMap f) ∧
      t.splice t.text cursor stop nodes = applyEdits t.source cursor stop (nodes.flatMap f) :=
  splice_apply (fun c hc => (hf c hc).within) (fun c hc => (hf c hc).text) hord hstart hstop hle

variable {f : NodeId → List Edit}

theorem between_edits (hw : t.WellFormed) (hf : ∀ c ∈ t.children id, t.Spelled c (f c))
    {start stop : Nat} (hle : start ≤ stop) :
    EditsWithin start stop ((t.childrenBetween id start stop).flatMap f) ∧
      t.textBetween id start stop =
        applyEdits t.source start stop ((t.childrenBetween id start stop).flatMap f) :=
  splice_edits (fun c hc => hf c (mem_between.1 hc).1)
    ((hw.children_before id).sublist List.filter_sublist) (fun _ hc => (mem_between.1 hc).2.1)
    (fun _ hc => (mem_between.1 hc).2.2) hle

theorem braceEdits_ok (t : SyntaxTree) (b : NodeId) :
    EditsWithin (t.bodyStop b) (t.node b).stop (t.braceEdits b) ∧
      applyEdits t.source (t.bodyStop b) (t.node b).stop (t.braceEdits b) = "\x7d" := by
  have hle : t.bodyStop b ≤ (t.node b).stop := Nat.sub_le _ _
  rw [braceEdits]
  split
  · next h => exact ⟨hle, h⟩
  · exact ⟨⟨Nat.le_refl _, hle, Nat.le_refl _⟩, by simp [applyEdits, slice_self]⟩

theorem hostBody_spelled (hw : t.WellFormed) (hblock : t.kind b = .statementBlock)
    (hf : ∀ c ∈ t.children b, t.Spelled c (f c)) (temporaries : List String)
    (htext : t.text b =
      (Replacement.hostBody (t.bodyParts b).1 temporaries (t.bodyParts b).2).print) :
    t.Spelled b (t.nodeEdits f b (some (.hostBody (t.bodyParts b).1 temporaries (t.bodyParts b).2))) := by
  obtain ⟨hstart, hcut⟩ := hw.bodyStart_le hblock
  obtain ⟨hdirectives, hbefore⟩ := between_edits hw hf hstart
  obtain ⟨hrest, hbehind⟩ := between_edits hw hf hcut
  obtain ⟨hbrace, hclosed⟩ := t.braceEdits_ok b
  have hopen : (t.node b).start ≤ t.bodyStart b := Nat.le_succ _
  have hfirst := hdirectives.of_le hopen
  have hlast := (hrest.append hbrace).insert (t.declarationText b temporaries)
  have hslice : applyEdits t.source (t.node b).start (t.bodyCut b)
      ((t.childrenBetween b (t.bodyStart b) (t.bodyCut b)).flatMap f) =
      "\x7b" ++ t.textBetween b (t.bodyStart b) (t.bodyCut b) := by
    rw [hbefore, ← (hw.opens hblock).2]
    exact hdirectives.apply_of_le hopen
  refine ⟨hfirst.append hlast, ?_⟩
  rw [htext, nodeEdits, hfirst.apply_append hlast, hslice, applyEdits, slice_self,
    hrest.apply_append hbrace, hclosed, ← hbehind, Replacement.print]
  simp only [bodyParts, declarationText, String.append_assoc, String.empty_append]
  split <;> simp [String.append_assoc]

theorem program_spelled (hw : t.WellFormed) (hf : ∀ c ∈ t.children root, t.Spelled c (f c))
    {before rest : String} {header : ProgramHeader} {gap : Bool}
    (hcurrent : (Replacement.program before header gap rest).Current t root)
    (htext : t.text root = (Replacement.program before header gap rest).print) :
    t.Spelled root (t.nodeEdits f root (some (.program before header gap rest))) := by
  obtain ⟨hstart, hstop⟩ := hw.le_insertionPoint
  obtain ⟨hbefore, hrest⟩ := hcurrent
  obtain ⟨hfirst, hhead⟩ := between_edits hw hf hstart
  obtain ⟨hlast, hbehind⟩ := between_edits hw hf hstop
  refine ⟨hfirst.append (hlast.insert _), ?_⟩
  rw [htext, nodeEdits, hfirst.apply_append (hlast.insert _), ← hhead, applyEdits, slice_self, ← hbehind,
    Replacement.print, hbefore, hrest]
  simp only [ProgramHeader.text, String.append_assoc, String.empty_append]

theorem nodeEdits_spelled (hw : t.WellFormed) (hfit : t.HostsFit) (hs : t.Settled) (hid : id < t.size)
    (hrange : (t.node id).start ≤ (t.node id).stop) (hf : ∀ c ∈ t.children id, t.Spelled c (f c)) :
    t.Spelled id (t.nodeEdits f id (t.node id).replacement) := by
  have hwhole : ∀ r, t.text id = Replacement.print r →
      t.Spelled id [⟨(t.node id).start, (t.node id).stop, r.print⟩] := by
    refine fun r hr => ⟨⟨Nat.le_refl _, hrange, Nat.le_refl _⟩, ?_⟩
    rw [hr, applyEdits, applyEdits, slice_self, slice_self, String.empty_append, String.append_empty]
  cases hr : (t.node id).replacement with
  | none =>
    obtain ⟨hwithin, htext⟩ := splice_edits hf (hw.children_before id)
      (fun c hc => (hw.nested hc).1) (fun c hc => (hw.nested hc).2) hrange
    exact ⟨hwithin, (text_of_none hw hid hr).trans htext⟩
  | some r =>
    have hprint := text_of_some hid hr
    cases r with
    | text | expression | statement | returned | framedBody => exact hwhole _ hprint
    | hostBody directives temporaries rest =>
      obtain ⟨rfl, rfl⟩ := hs id _ hr
      exact hostBody_spelled hw (hfit.body hr) hf temporaries hprint
    | program before header gap rest =>
      obtain rfl := hfit.program hr
      exact program_spelled hw hf (hs root _ hr) hprint

theorem editsWithin_spelled (hw : t.WellFormed) (hfit : t.HostsFit) (hs : t.Settled) {depth : Nat}
    (hid : id < t.size) (hrange : (t.node id).start ≤ (t.node id).stop) (hd : t.size - id ≤ depth) :
    t.Spelled id (t.editsWithin depth id) := by
  induction depth generalizing id with
  | zero => exact absurd (Nat.le_zero.1 hd) (Nat.sub_ne_zero_of_lt hid)
  | succ depth ih =>
    refine nodeEdits_spelled hw hfit hs hid hrange fun c hc => ?_
    obtain ⟨hlt, hsize, -⟩ := hw.child hc
    exact ih hsize (Nat.le_of_lt (hw.proper hc)) (WellFormed.sub_le_of_lt hlt hd)

theorem render_apply {edits : List Edit} (hstop : (t.node root).stop ≤ byteLength t.source)
    (h : t.Spelled root edits) : EditsWithin 0 (byteLength t.source) edits ∧
      t.render = applyEdits t.source 0 (byteLength t.source) edits := by
  have hstart : EditsWithin 0 (t.node root).stop edits := h.within.of_le (Nat.zero_le _)
  have hend : EditsWithin (t.node root).stop (byteLength t.source) [] := hstop
  have hslice : applyEdits t.source 0 (t.node root).stop edits =
      slice t.source 0 (t.node root).start ++ t.text root := by
    rw [h.text]
    exact h.within.apply_of_le (Nat.zero_le _)
  have hall := hstart.append hend
  have happly := @EditsWithin.apply_append _ _ _ _ _ t.source hstart hend
  rw [List.append_nil] at hall happly
  exact ⟨hall, by rw [happly, hslice, render, applyEdits]⟩

theorem render_edits (hw : t.WellFormed) (hfit : t.HostsFit) (hs : t.Settled) :
    EditsWithin 0 (byteLength t.source) t.edits ∧
      t.render = applyEdits t.source 0 (byteLength t.source) t.edits :=
  render_apply hw.range.2 (editsWithin_spelled hw hfit hs hw.root_lt hw.range.1 (Nat.sub_le _ _))

inductive EditOf (t : SyntaxTree) : Edit → Prop
  | whole {d : NodeId} {r : Replacement} : (t.node d).replacement = some r → r.isHost = false →
      EditOf t ⟨(t.node d).start, (t.node d).stop, r.print⟩
  | declaration {b : NodeId} {directives rest : String} {temporaries : List String} :
      (t.node b).replacement = some (.hostBody directives temporaries rest) →
      EditOf t ⟨t.bodyCut b, t.bodyCut b, t.declarationText b temporaries⟩
  | brace {b : NodeId} : t.Overwrites b → EditOf t ⟨t.bodyStop b, (t.node b).stop, "\x7d"⟩
  | header {before rest : String} {header : ProgramHeader} {gap : Bool} :
      (t.node root).replacement = some (.program before header gap rest) →
      EditOf t ⟨t.insertionPoint.1, t.insertionPoint.1, header.text gap⟩

theorem editOf_of_mem (hfit : t.HostsFit) {depth : Nat} {e : Edit} (h : e ∈ t.editsWithin depth id) :
    t.EditOf e := by
  -- an edit is made by the replacement of one node
  induction depth generalizing id with
  | zero => cases h
  | succ depth ih =>
    have hbelow : ∀ {nodes : List NodeId}, e ∈ nodes.flatMap (t.editsWithin depth) → t.EditOf e := by
      intro nodes h
      obtain ⟨c, -, hc⟩ := List.mem_flatMap.1 h
      exact ih hc
    rw [editsWithin] at h
    cases hr : (t.node id).replacement with
    | none =>
      rw [hr] at h
      exact hbelow h
    | some r =>
      rw [hr] at h
      cases r with
      | text | expression | statement | returned | framedBody =>
        obtain rfl := List.mem_singleton.1 h
        exact .whole hr rfl
      | hostBody directives temporaries rest =>
        rcases List.mem_append.1 h with h | h
        · exact hbelow h
        rcases List.mem_cons.1 h with rfl | h
        · exact .declaration hr
        rcases List.mem_append.1 h with h | h
        · exact hbelow h
        · rw [braceEdits] at h
          split at h
          · cases h
          · next hne =>
            obtain rfl := List.mem_singleton.1 h
            exact .brace ⟨⟨_, _, _, hr⟩, hne⟩
      | program before header gap rest =>
        obtain rfl := hfit.program hr
        rcases List.mem_append.1 h with h | h
        · exact hbelow h
        rcases List.mem_cons.1 h with rfl | h
        · exact .header hr
        · exact hbelow h

theorem not_leaf_of_block (h : t.Below c b) (hb : t.kind b = .statementBlock) : ¬ t.IsLeaf c := by
  rintro ⟨hnil, hkind⟩
  rcases h.eq_or_child with rfl | ⟨d, hd, -⟩
  · rw [hb] at hkind
    exact absurd hkind (by decide)
  · rw [hnil] at hd
    cases hd

theorem exists_edit_of_overwrites (hw : t.WellFormed) (hfit : t.HostsFit) {depth : Nat}
    (hid : id < t.size) (hd : t.size - id ≤ depth) (hbelow : t.Below id b) (h : t.Overwrites b) :
    ∃ e ∈ t.editsWithin depth id, e.start ≤ t.bodyStop b ∧ t.bodyStop b < e.stop := by
  -- down to the body: the first replacement on the way cuts it out, or its own last byte is overwritten
  induction depth generalizing id with
  | zero => exact absurd (Nat.le_zero.1 hd) (Nat.sub_ne_zero_of_lt hid)
  | succ depth ih =>
    obtain ⟨⟨_, _, _, hhost⟩, hne⟩ := h
    have hblock := hfit.body hhost
    have hopens := (hw.opens hblock).1
    have hlast : t.bodyStop b < (t.node b).stop := by
      rw [bodyStop]
      omega
    have hinside := hw.inside_of_below hbelow
    rw [editsWithin]
    rcases hbelow.eq_or_child with rfl | ⟨c, hc, hcb⟩
    · rw [hhost, nodeEdits, braceEdits, if_neg hne]
      refine ⟨⟨t.bodyStop b, (t.node b).stop, "\x7d"⟩, ?_, Nat.le_refl _, hlast⟩
      exact List.mem_append_right _ (List.mem_cons_of_mem _ (List.mem_append_right _ List.mem_cons_self))
    obtain ⟨hlt, hsize, -⟩ := hw.child hc
    obtain ⟨e, he, hrange⟩ := ih hsize (WellFormed.sub_le_of_lt hlt hd) hcb
    have hin : ∀ {nodes : List NodeId}, c ∈ nodes → e ∈ nodes.flatMap (t.editsWithin depth) :=
      fun hm => List.mem_flatMap.2 ⟨c, hm, he⟩
    cases hr : (t.node id).replacement with
    | none => exact ⟨e, hin hc, hrange⟩
    | some r =>
      cases r with
      | text | expression | statement | returned | framedBody =>
        refine ⟨_, List.mem_cons_self, ?_, Nat.lt_of_lt_of_le hlast hinside.2⟩
        change (t.node id).start ≤ (t.node b).stop - 1
        have hstart := hinside.1
        omega
      | hostBody directives temporaries rest =>
        -- declarations are put in; what lies before and behind them stays
        refine ⟨e, ?_, hrange⟩
        obtain ⟨hstart, hstop⟩ := hw.closes (hfit.body hr) hc
        rcases hw.bodyCut_between (hfit.body hr) hc with h | h
        · exact List.mem_append_left _ (hin (mem_between.2 ⟨hc, hstart, h⟩))
        · have hstop := Nat.le_sub_one_of_lt (hstop.resolve_right (not_leaf_of_block hcb hblock))
          refine List.mem_append_right _ (List.mem_cons_of_mem _ (List.mem_append_left _ ?_))
          exact hin (mem_between.2 ⟨hc, h, hstop⟩)
      | program before header gap rest =>
        obtain rfl := hfit.program hr
        refine ⟨e, ?_, hrange⟩
        obtain ⟨hstart, hstop⟩ := hw.nested hc
        rcases hw.insertionPoint_between hc with h | h
        · exact List.mem_append_left _ (hin (mem_between.2 ⟨hc, hstart, h⟩))
        · exact List.mem_append_right _ (List.mem_cons_of_mem _ (hin (mem_between.2 ⟨hc, h, hstop⟩)))

end SyntaxTree

end CoercionTrace
