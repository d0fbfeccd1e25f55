import CoercionTrace.Document.Writing
import CoercionTrace.Proofs.Document.Literals

/-!
# Documents over several lines

What the reader makes of a document that is written with each field and element on a line of its own.
Main statement: a document without numbers is read back as it was written (`read?_pretty`).
-/

namespace CoercionTrace

namespace Document

open Text Text.Quoted

variable {depth fuel : Nat} {s t u rest : List Char} {d : Document}

inductive Textual : Document → Prop
  | null : Textual .null
  | bool (b : Bool) : Textual (.bool b)
  | string (text : String) : Textual (.string (some text))
  | array {elements : List Document} (h : ∀ d ∈ elements, Textual d) : Textual (.array elements)
  | object {fields : List (Option String × Document)} (hnames : ∀ e ∈ fields, e.1.isSome = true)
      (h : ∀ e ∈ fields, Textual e.2) : Textual (.object fields)

theorem skipSpace_of_head {c : Char} (h : isSpace c = false) : skipSpace (c :: s) = c :: s :=
  List.dropWhile_cons_of_neg (by simp [h])

theorem skipSpace_newLine (depth : Nat) (s : List Char) :
    skipSpace ((newLine depth).toList ++ s) = skipSpace s := by
  rw [newLine, String.toList_ofList]
  apply List.dropWhile_append_of_pos
  intro c hc
  rcases List.mem_cons.1 hc with rfl | hc
  · rfl
  · rw [List.eq_of_mem_replicate hc]
    rfl

theorem length_newLine (depth : Nat) : (newLine depth).toList.length = 2 * depth + 1 := by
  simp [newLine]

theorem value_of_skipSpace (h : skipSpace s = skipSpace t) : value fuel s = value fuel t := by
  cases fuel with
  | zero => rfl
  | succ fuel => rw [value, value, h]

theorem elements_of_skipSpace (h : skipSpace s = skipSpace t) : elements fuel s = elements fuel t := by
  cases fuel with
  | zero => rfl
  | succ fuel => rw [elements, elements, value_of_skipSpace h]

theorem members_of_skipSpace (h : skipSpace s = skipSpace t) : members fuel s = members fuel t := by
  cases fuel with
  | zero => rfl
  | succ fuel => rw [members, members, h]

theorem expect_append (word : String) (rest : List Char) :
    expect word (word.toList ++ rest) = some rest := by
  rw [expect, if_pos (List.isPrefixOf_iff_prefix.2 (List.prefix_append _ _)), ← String.length_toList,
    List.drop_left]

theorem elements_last (hvalue : value fuel s = some (d, t)) (hend : skipSpace t = ']' :: rest) :
    elements (fuel + 1) s = some ([d], rest) := by
  simp [elements, hvalue, hend]

theorem elements_more {ds : List Document} (hvalue : value fuel s = some (d, t))
    (hcomma : skipSpace t = ',' :: u) (hmore : elements fuel u = some (ds, rest)) :
    elements (fuel + 1) s = some (d :: ds, rest) := by
  simp [elements, hvalue, hcomma, hmore]

def MemberStands (fuel : Nat) (s : List Char) (e : Option String × Document) (t : List Char) : Prop :=
  ∃ u v w, skipSpace s = '"' :: u ∧ stringBody u = some (e.1, v) ∧ skipSpace v = ':' :: w ∧
    value fuel w = some (e.2, t)

theorem members_last {e : Option String × Document} (h : MemberStands fuel s e t)
    (hend : skipSpace t = '\x7d' :: rest) : members (fuel + 1) s = some ([e], rest) := by
  obtain ⟨u, v, w, hquote, hname, hcolon, hvalue⟩ := h
  simp [members, hquote, hname, hcolon, hvalue, hend]

theorem members_more {e : Option String × Document} {es : List (Option String × Document)}
    (h : MemberStands fuel s e t) (hcomma : skipSpace t = ',' :: u)
    (hmore : members fuel u = some (es, rest)) : members (fuel + 1) s = some (e :: es, rest) := by
  obtain ⟨u, v, w, hquote, hname, hcolon, hvalue⟩ := h
  simp [members, hquote, hname, hcolon, hvalue, hcomma, hmore]

theorem toList_quotedText (text : String) :
    (quotedText (some text)).toList = '"' :: (text.toList.flatMap jsonChar ++ ['"']) :=
  toList_literal jsonChar text

def joined (depth : Nat) (lines : List String) : List Char :=
  (("," ++ newLine depth).intercalate lines).toList

theorem joined_singleton (depth : Nat) (line : String) : joined depth [line] = line.toList := by
  rw [joined, String.intercalate_singleton]

theorem joined_cons (depth : Nat) (line next : String) (lines : List String) :
    joined depth (line :: next :: lines) =
      line.toList ++ ',' :: ((newLine depth).toList ++ joined depth (next :: lines)) := by
  simp [joined, String.intercalate_cons_cons]

theorem toList_block {opening closing : String} {lines : List String} (h : lines ≠ []) :
    (block depth opening closing lines).toList = opening.toList ++ ((newLine (depth + 1)).toList ++
      (joined (depth + 1) lines ++ ((newLine depth).toList ++ closing.toList))) := by
  have hempty : lines.isEmpty = false := by simpa using h
  simp [block, hempty, joined]

theorem toList_block_nil (depth : Nat) (opening closing : String) :
    (block depth opening closing []).toList = opening.toList ++ closing.toList := by
  simp [block]

def ReadBack (d : Document) : Prop :=
  ∀ depth fuel rest, (d.pretty depth).toList.length < fuel →
    value fuel ((d.pretty depth).toList ++ rest) = some (d, rest)

theorem readBack_of_succ (h : ∀ depth fuel rest, (d.pretty depth).toList.length ≤ fuel →
    value (fuel + 1) ((d.pretty depth).toList ++ rest) = some (d, rest)) : ReadBack d := by
  intro depth fuel rest hfuel
  cases fuel with
  | zero => cases hfuel
  | succ fuel => exact h depth fuel rest (Nat.le_of_lt_succ hfuel)

theorem elements_joined {ds : List Document} (h : ∀ e ∈ d :: ds, ReadBack e)
    (hfuel : (joined depth (prettyAll depth (d :: ds))).length + 1 < fuel) (after : Nat) :
    elements fuel (joined depth (prettyAll depth (d :: ds)) ++ ((newLine after).toList ++ ']' :: rest)) =
      some (d :: ds, rest) := by
  induction ds generalizing d fuel with
  | nil =>
    cases fuel with
    | zero => cases hfuel
    | succ fuel =>
      simp only [prettyAll, joined_singleton] at hfuel ⊢
      refine elements_last (h d List.mem_cons_self depth fuel _ (by omega)) ?_
      rw [skipSpace_newLine, skipSpace_of_head (by decide)]
  | cons next ds ih =>
    cases fuel with
    | zero => cases hfuel
    | succ fuel =>
      simp only [prettyAll, joined_cons, List.length_append, List.length_cons] at hfuel ih ⊢
      rw [List.append_assoc, List.cons_append, List.append_assoc]
      refine elements_more (h d List.mem_cons_self depth fuel _ (by omega))
        (skipSpace_of_head (by decide)) ?_
      rw [elements_of_skipSpace (skipSpace_newLine depth _)]
      exact ih (fun e he => h e (List.mem_cons_of_mem d he)) (by omega)

def memberLine (depth : Nat) (e : Option String × Document) : String :=
  quotedText e.1 ++ ": " ++ pretty depth e.2

theorem prettyFields_cons (depth : Nat) (e : Option String × Document)
    (es : List (Option String × Document)) :
    prettyFields depth (e :: es) = memberLine depth e :: prettyFields depth es := by
  obtain ⟨name, d⟩ := e
  rw [prettyFields, memberLine]

theorem toList_memberLine (depth : Nat) (name : String) (d : Document) :
    (memberLine depth (some name, d)).toList =
      '"' :: (name.toList.flatMap jsonChar ++ '"' :: ':' :: ' ' :: (d.pretty depth).toList) := by
  simp [memberLine, toList_quotedText]

theorem memberStands_line {e : Option String × Document} (hname : e.1.isSome = true) (h : ReadBack e.2)
    (hfuel : (memberLine depth e).toList.length ≤ fuel) (t : List Char) :
    MemberStands fuel ((memberLine depth e).toList ++ t) e t := by
  obtain ⟨name, d⟩ := e
  obtain ⟨name, rfl⟩ := Option.isSome_iff_exists.1 hname
  have hread : ReadBack d := h
  have hblank : value fuel (' ' :: ((d.pretty depth).toList ++ t)) =
      value fuel ((d.pretty depth).toList ++ t) := value_of_skipSpace rfl
  simp only [toList_memberLine, List.length_cons, List.length_append] at hfuel
  simp only [toList_memberLine, List.cons_append, List.append_assoc]
  refine ⟨_, _, _, skipSpace_of_head (by decide), stringBody_literal spelling_json name _,
    skipSpace_of_head (by decide), ?_⟩
  rw [hblank]
  exact hread depth fuel t (by omega)

theorem members_joined {e : Option String × Document} {es : List (Option String × Document)}
    (hnames : ∀ x ∈ e :: es, x.1.isSome = true) (h : ∀ x ∈ e :: es, ReadBack x.2)
    (hfuel : (joined depth (prettyFields depth (e :: es))).length < fuel) (after : Nat) :
    members fuel (joined depth (prettyFields depth (e :: es)) ++
      ((newLine after).toList ++ '\x7d' :: rest)) = some (e :: es, rest) := by
  have hname := hnames e List.mem_cons_self
  have hfirst := h e List.mem_cons_self
  induction es generalizing e fuel with
  | nil =>
    cases fuel with
    | zero => cases hfuel
    | succ fuel =>
      rw [prettyFields_cons, prettyFields, joined_singleton] at hfuel ⊢
      refine members_last (memberStands_line hname hfirst (by omega) _) ?_
      rw [skipSpace_newLine, skipSpace_of_head (by decide)]
  | cons next es ih =>
    cases fuel with
    | zero => cases hfuel
    | succ fuel =>
      simp only [prettyFields_cons, joined_cons, List.length_append, List.length_cons] at hfuel ih ⊢
      rw [List.append_assoc, List.cons_append, List.append_assoc]
      refine members_more (memberStands_line hname hfirst (by omega) _) (skipSpace_of_head (by decide)) ?_
      rw [members_of_skipSpace (skipSpace_newLine depth _)]
      have hnames' := fun x hx => hnames x (List.mem_cons_of_mem e hx)
      have h' := fun x hx => h x (List.mem_cons_of_mem e hx)
      exact ih hnames' h' (by omega) (hnames' next List.mem_cons_self) (h' next List.mem_cons_self)

theorem value_array {c : Char} {ds : List Document} (hopen : skipSpace s = '[' :: t)
    (hfirst : skipSpace t = c :: u) (hc : c ≠ ']') (hall : elements fuel (c :: u) = some (ds, rest)) :
    value (fuel + 1) s = some (.array ds, rest) := by
  simp [value, hopen, hfirst, hc, hall]

theorem value_object {es : List (Option String × Document)} (hopen : skipSpace s = '\x7b' :: t)
    (hfirst : skipSpace t = '"' :: u) (hall : members fuel ('"' :: u) = some (es, rest)) :
    value (fuel + 1) s = some (.object es, rest) := by
  simp [value, hopen, hfirst, hall]

theorem prettyAll_cons (depth : Nat) (d : Document) (ds : List Document) :
    prettyAll depth (d :: ds) = d.pretty depth :: prettyAll depth ds := by rw [prettyAll]

theorem joined_head {line : String} {c : Char} (h : line.toList = c :: s) (lines : List String) :
    ∃ t, joined depth (line :: lines) = c :: t := by
  cases lines with
  | nil => exact ⟨s, by rw [joined_singleton, h]⟩
  | cons next lines => exact ⟨_, by rw [joined_cons, h]; rfl⟩

theorem Textual.head (h : Textual d) (depth : Nat) :
    ∃ c s, (d.pretty depth).toList = c :: s ∧ isSpace c = false ∧ c ≠ ']' := by
  have hopen : "[".toList = ['['] ∧ "\x7b".toList = ['\x7b'] := by decide
  cases h with
  | null => exact ⟨'n', "ull".toList, by rw [pretty]; decide, by decide, by decide⟩
  | bool b =>
    cases b
    · exact ⟨'f', "alse".toList, by rw [pretty]; decide, by decide, by decide⟩
    · exact ⟨'t', "rue".toList, by rw [pretty]; decide, by decide, by decide⟩
  | string text => exact ⟨'"', _, by rw [pretty, toList_quotedText], by decide, by decide⟩
  | @array ds =>
    cases ds with
    | nil => exact ⟨'[', "]".toList, by rw [pretty, prettyAll, toList_block_nil, hopen.1]; rfl,
        by decide, by decide⟩
    | cons d ds => exact ⟨'[', _, by rw [pretty, toList_block (by simp [prettyAll]), hopen.1]; rfl,
        by decide, by decide⟩
  | @object es =>
    cases es with
    | nil => exact ⟨'\x7b', "\x7d".toList, by rw [pretty, prettyFields, toList_block_nil, hopen.2]; rfl,
        by decide, by decide⟩
    | cons e es =>
      have hlines : prettyFields (depth + 1) (e :: es) ≠ [] := by simp [prettyFields_cons]
      exact ⟨'\x7b', _, by rw [pretty, toList_block hlines, hopen.2]; rfl, by decide, by decide⟩

theorem readBack_array {ds : List Document} (hfirst : Textual d) (h : ∀ e ∈ d :: ds, ReadBack e) :
    ReadBack (.array (d :: ds)) := by
  apply readBack_of_succ
  intro depth fuel rest hfuel
  have hbrackets : "[".toList = ['['] ∧ "]".toList = [']'] := by decide
  rw [pretty, toList_block (by simp [prettyAll]), hbrackets.1, hbrackets.2] at hfuel ⊢
  simp only [List.length_append, List.length_cons, length_newLine] at hfuel
  have hall : elements fuel (joined (depth + 1) (prettyAll (depth + 1) (d :: ds)) ++
      ((newLine depth).toList ++ ']' :: rest)) = some (d :: ds, rest) :=
    elements_joined h (by omega) depth
  obtain ⟨c, s, hc, hspace, hclose⟩ := hfirst.head (depth + 1)
  obtain ⟨t, ht⟩ := joined_head hc (prettyAll (depth + 1) ds)
  rw [prettyAll_cons, ht] at hall ⊢
  simp only [List.append_assoc, List.cons_append, List.nil_append] at hall ⊢
  refine value_array (skipSpace_of_head (by decide)) ?_ hclose hall
  rw [skipSpace_newLine, skipSpace_of_head hspace]

theorem readBack_object {e : Option String × Document} {es : List (Option String × Document)}
    (hnames : ∀ x ∈ e :: es, x.1.isSome = true) (h : ∀ x ∈ e :: es, ReadBack x.2) :
    ReadBack (.object (e :: es)) := by
  apply readBack_of_succ
  intro depth fuel rest hfuel
  have hbrackets : "\x7b".toList = ['\x7b'] ∧ "\x7d".toList = ['\x7d'] := by decide
  rw [pretty, toList_block (by simp [prettyFields_cons]), hbrackets.1, hbrackets.2] at hfuel ⊢
  simp only [List.length_append, List.length_cons, length_newLine] at hfuel
  have hall : members fuel (joined (depth + 1) (prettyFields (depth + 1) (e :: es)) ++
      ((newLine depth).toList ++ '\x7d' :: rest)) = some (e :: es, rest) :=
    members_joined hnames h (by omega) depth
  obtain ⟨name, hname⟩ := Option.isSome_iff_exists.1 (hnames e List.mem_cons_self)
  obtain ⟨t, ht⟩ := joined_head (toList_memberLine (depth + 1) name e.2) (prettyFields (depth + 1) es)
  rw [← hname] at ht
  rw [prettyFields_cons, ht] at hall ⊢
  simp only [List.append_assoc, List.cons_append, List.nil_append] at hall ⊢
  refine value_object (skipSpace_of_head (by decide)) ?_ hall
  rw [skipSpace_newLine, skipSpace_of_head (by decide)]

theorem Textual.readBack (h : Textual d) : ReadBack d := by
  -- along the document as it is written; what follows it in the text is left over
  induction h with
  | null =>
    apply readBack_of_succ
    intro depth fuel rest _
    rw [pretty, show "null".toList = 'n' :: "ull".toList by decide, List.cons_append]
    simpa [value, skipSpace_of_head, isSpace] using expect_append "ull" rest
  | bool b =>
    apply readBack_of_succ
    intro depth fuel rest _
    cases b
    · rw [pretty, if_neg Bool.false_ne_true, show "false".toList = 'f' :: "alse".toList by decide,
        List.cons_append]
      simpa [value, skipSpace_of_head, isSpace] using expect_append "alse" rest
    · rw [pretty, if_pos rfl, show "true".toList = 't' :: "rue".toList by decide, List.cons_append]
      simpa [value, skipSpace_of_head, isSpace] using expect_append "rue" rest
  | string text =>
    apply readBack_of_succ
    intro depth fuel rest _
    rw [pretty, toList_quotedText, List.cons_append, List.append_assoc]
    have htext := stringBody_literal spelling_json text rest
    simp [value, skipSpace_of_head, isSpace, htext]
  | @array ds hds ih =>
    cases ds with
    | nil =>
      apply readBack_of_succ
      intro depth fuel rest _
      rw [pretty, prettyAll, toList_block_nil, show "[".toList ++ "]".toList = ['[', ']'] by decide]
      simp [value, skipSpace_of_head, isSpace]
    | cons d ds => exact readBack_array (hds d List.mem_cons_self) ih
  | @object es hnames _ ih =>
    cases es with
    | nil =>
      apply readBack_of_succ
      intro depth fuel rest _
      rw [pretty, prettyFields, toList_block_nil,
        show "\x7b".toList ++ "\x7d".toList = ['\x7b', '\x7d'] by decide]
      simp [value, skipSpace_of_head, isSpace]
    | cons e es => exact readBack_object hnames ih

theorem read?_pretty (h : Textual d) : read? (d.pretty 0) = some d := by
  have hvalue := h.readBack 0 ((d.pretty 0).toList.length + 1) [] (Nat.lt_succ_self _)
  rw [List.append_nil] at hvalue
  rw [read?, ← String.length_toList, hvalue]
  rfl

end Document

end CoercionTrace
