import CoercionTrace.Check.Report
import Mathlib.Data.List.Infix
import Mathlib.Data.Nat.Find

/-!
# What a report shows of its arguments

A template is read into literal text and numbered places. Filling the places one number after the
other is the same as filling them all at once, unless a text that was filled in holds the number of
a place that is still to be filled. Main statement: which texts a report shows as they are, and
which it does not (`make_verbatim`).
-/

namespace CoercionTrace

namespace Template

inductive Piece
  | char (c : Char)
  | place (i : Nat)
  deriving DecidableEq

def Piece.isPlace : Piece → Bool
  | .char _ => false
  | .place _ => true

def isPlain (c : Char) : Bool := !(c == '\x7b' || c == '\x7d' || c.isDigit)

def place? (text : List Char) : Option Nat :=
  let i := Nat.ofDigitChars 10 (text.tail.takeWhile Char.isDigit) 0
  if (gap i).isPrefixOf text then some i else none

def readFrom : Nat → List Char → List Piece
  | _, [] => []
  | skip + 1, _ :: rest => readFrom skip rest
  | 0, c :: rest =>
    match place? (c :: rest) with
    | some i => .place i :: readFrom ((gap i).length - 1) rest
    | none => .char c :: readFrom 0 rest

def read (template : String) : List Piece := readFrom 0 template.toList

def Piece.fill (arguments : List String) : Piece → List Char
  | .char c => [c]
  | .place i => (arguments[i]?.map String.toList).getD (gap i)

def fillAtOnce (arguments : List String) (pieces : List Piece) : List Char :=
  pieces.flatMap (Piece.fill arguments)

def filled (template : String) (arguments : List String) : String :=
  String.ofList (fillAtOnce arguments (read template))

def isSpaced : List Piece → Bool
  | [] => true
  | .char c :: rest => isPlain c && isSpaced rest
  | .place i :: rest =>
    (rest.head?.all fun p => !p.isPlace) && !rest.contains (.place i) && isSpaced rest

def Ahead (pieces : List Piece) (i j : Nat) : Prop :=
  .place i ∈ pieces ∧ .place j ∉ pieces.takeWhile (· ≠ .place i)

instance (pieces : List Piece) (i j : Nat) : Decidable (Ahead pieces i j) :=
  inferInstanceAs (Decidable (_ ∧ _))

/-- Among `n` arguments, `text` as number `i` holds no placeholder that is filled behind it. -/
def Harmless (pieces : List Piece) (n i : Nat) (text : String) : Prop :=
  ∀ j < n, i < j → Ahead pieces i j → ¬ gap j <:+: text.toList

instance (pieces : List Piece) (n i : Nat) (text : String) : Decidable (Harmless pieces n i text) :=
  inferInstanceAs (Decidable (∀ j < n, _))

variable {text rest filling : List Char} {pieces : List Piece} {i j k : Nat} {a : String}
  {arguments done : List String}

/-! ## Placeholders -/

theorem gap_eq (i : Nat) : gap i = '\x7b' :: (Nat.toDigits 10 i ++ ['\x7d']) := by
  simp [gap, toString, Nat.toList_repr]

theorem isDigit_of_mem {c : Char} (h : c ∈ Nat.toDigits 10 i) : c.isDigit = true :=
  Nat.isDigit_of_mem_toDigits (by decide) (by decide) h

theorem not_plain_of_mem {c : Char} (h : c ∈ gap i) : isPlain c = false := by
  rw [gap_eq, List.mem_cons, List.mem_append, List.mem_singleton] at h
  rcases h with rfl | h | rfl
  · rfl
  · simp [isPlain, isDigit_of_mem h]
  · rfl

theorem place?_iff : place? text = some i ↔ gap i <+: text := by
  have hread : gap i <+: text →
      Nat.ofDigitChars 10 (text.tail.takeWhile Char.isDigit) 0 = i := by
    rintro ⟨rest, rfl⟩
    have hdigits : (Nat.toDigits 10 i ++ '\x7d' :: rest).takeWhile Char.isDigit =
        Nat.toDigits 10 i := by
      rw [List.takeWhile_append_of_pos fun c => isDigit_of_mem,
        List.takeWhile_cons_of_neg (by decide), List.append_nil]
    rw [gap_eq, List.cons_append, List.append_assoc, List.tail_cons, List.singleton_append, hdigits]
    exact Nat.ofDigitChars_toDigits (by decide) (by decide)
  unfold place?
  dsimp only
  constructor
  · intro h
    split at h
    · next hbegins =>
      obtain rfl := Option.some.inj h
      exact List.isPrefixOf_iff_prefix.1 hbegins
    · cases h
  · intro h
    rw [hread h, if_pos (List.isPrefixOf_iff_prefix.2 h)]

theorem gap_infix_gap (h : gap k <:+: gap i) : k = i := by
  have hbegins : gap k <+: gap i := by
    rw [gap_eq i, List.infix_cons_iff] at h
    rcases h with h | h
    · rwa [← gap_eq] at h
    · -- The brace that opens a placeholder stands nowhere else.
      have hbrace : '\x7b' ∈ Nat.toDigits 10 i ++ ['\x7d'] := h.mem (by simp [gap_eq])
      rw [List.mem_append, List.mem_singleton] at hbrace
      rcases hbrace with hbrace | hbrace
      · cases isDigit_of_mem hbrace
      · cases hbrace
  have hk := place?_iff.2 hbegins
  rw [place?_iff.2 (List.prefix_refl (gap i))] at hk
  exact (Option.some.inj hk).symm

theorem fillAtOnce_readFrom (skip : Nat) (text : List Char) :
    fillAtOnce [] (readFrom skip text) = text.drop skip := by
  induction text generalizing skip with
  | nil => simp [readFrom, fillAtOnce]
  | cons c text ih =>
    cases skip with
    | succ skip => exact ih skip
    | zero =>
      rw [readFrom]
      split
      · next i hplace =>
        obtain ⟨rest, hrest⟩ := place?_iff.1 hplace
        have hdrop : text.drop ((gap i).length - 1) = rest := by
          rw [gap_eq, List.cons_append] at hrest
          obtain ⟨-, rfl⟩ := List.cons.inj hrest
          simp [gap_eq]
        exact (congrArg (gap i ++ ·) ((ih _).trans hdrop)).trans hrest
      · exact congrArg (c :: ·) (ih 0)

/-! ## The first occurrence -/

theorem after?_iff {start : List Char} : after? start text = some rest ↔ text = start ++ rest := by
  induction start generalizing text with
  | nil => simp [after?]
  | cons c start ih =>
    cases text with
    | nil => simp [after?]
    | cons d text =>
      rw [after?]
      split
      · next h => rw [ih, h, List.cons_append, List.cons.injEq, and_iff_right rfl]
      · next h => simp [Ne.symm h]

theorem after?_eq_none_iff {start : List Char} : after? start text = none ↔ ¬ start <+: text := by
  rw [Option.eq_none_iff_forall_not_mem, List.IsPrefix, not_exists]
  exact forall_congr' fun rest => not_congr (after?_iff.trans eq_comm)

theorem fillFirst_gap (rest : List Char) :
    fillFirst (gap i) filling (gap i ++ rest) = filling ++ rest := by
  have hafter : after? (gap i) (gap i ++ rest) = some rest := after?_iff.2 rfl
  rw [gap_eq, List.cons_append] at hafter ⊢
  rw [fillFirst, hafter]

theorem fillFirst_plain {c : Char} (h : isPlain c = true) (rest : List Char) :
    fillFirst (gap i) filling (c :: rest) = c :: fillFirst (gap i) filling rest := by
  have hbrace : '\x7b' ≠ c := by
    rintro rfl
    cases h
  rw [gap_eq, fillFirst, after?, if_neg hbrace]

theorem fillFirst_append_of_not_infix (h : ¬ gap i <:+: text)
    (hrest : ∀ c ∈ rest.head?, isPlain c = true) :
    fillFirst (gap i) filling (text ++ rest) = text ++ fillFirst (gap i) filling rest := by
  induction text with
  | nil => rfl
  | cons c text ih =>
    rw [List.infix_cons_iff, not_or] at h
    have hnone : after? (gap i) (c :: (text ++ rest)) = none := by
      rw [after?_eq_none_iff, ← List.cons_append]
      rintro ⟨more, hmore⟩
      rcases List.append_eq_append_iff.1 hmore with ⟨extra, hextra, -⟩ | ⟨extra, hextra, hrest'⟩
      · exact h.1 ⟨extra, hextra.symm⟩
      · -- The placeholder would go on in `rest`, which begins with plain text.
        cases extra with
        | nil => exact h.1 ⟨[], by rw [hextra, List.append_nil, List.append_nil]⟩
        | cons d extra =>
          have hd : d ∈ gap i := by simp [hextra]
          have hplain := hrest d (by rw [hrest', List.cons_append, List.head?_cons]; rfl)
          exact Bool.eq_false_iff.1 (not_plain_of_mem hd) hplain
    rw [List.cons_append, fillFirst, hnone]
    dsimp only
    rw [ih h.2, List.cons_append]

theorem fillFirst_append_of_infix (h : gap i <:+: text) (rest : List Char) :
    fillFirst (gap i) filling (text ++ rest) = fillFirst (gap i) filling text ++ rest := by
  induction text with
  | nil =>
    rw [List.infix_nil, gap_eq] at h
    cases h
  | cons c text ih =>
    rw [List.cons_append, fillFirst, fillFirst]
    by_cases hhere : gap i <+: c :: text
    · obtain ⟨more, hmore⟩ := hhere
      have hafter : after? (gap i) (c :: text) = some more := after?_iff.2 hmore.symm
      have hafter' : after? (gap i) (c :: (text ++ rest)) = some (more ++ rest) := by
        rw [after?_iff, ← List.cons_append, ← hmore, List.append_assoc]
      rw [hafter, hafter']
      exact (List.append_assoc _ _ _).symm
    · have htext : gap i <:+: text := (List.infix_cons_iff.1 h).resolve_left hhere
      have hhere' : ¬ gap i <+: c :: (text ++ rest) := by
        intro hbegins
        refine hhere ?_
        have hlength := htext.length_le
        refine List.prefix_of_prefix_length_le hbegins ⟨rest, rfl⟩ ?_
        rw [List.length_cons]
        omega
      rw [after?_eq_none_iff.2 hhere, after?_eq_none_iff.2 hhere']
      exact congrArg (c :: ·) (ih htext)

theorem length_fillFirst_of_infix (h : gap i <:+: text) :
    (fillFirst (gap i) filling text).length + (gap i).length = text.length + filling.length := by
  induction text with
  | nil =>
    rw [List.infix_nil, gap_eq] at h
    cases h
  | cons c text ih =>
    rw [fillFirst]
    cases hafter : after? (gap i) (c :: text) with
    | some more =>
      rw [after?_iff.1 hafter, List.length_append, List.length_append]
      omega
    | none =>
      have htext := (List.infix_cons_iff.1 h).resolve_left (after?_eq_none_iff.1 hafter)
      have := ih htext
      simp only [List.length_cons]
      omega

/-! ## Filling one number after the other -/

theorem isSpaced_char {c : Char} (h : isSpaced (.char c :: pieces) = true) :
    isPlain c = true ∧ isSpaced pieces = true := Bool.and_eq_true_iff.1 h

theorem isSpaced_place (h : isSpaced (.place i :: pieces) = true) :
    (∀ p ∈ pieces.head?, p.isPlace = false) ∧ .place i ∉ pieces ∧ isSpaced pieces = true := by
  simpa [isSpaced, and_assoc, Option.all_eq_true] using h

theorem isSpaced_of_append {before : List Piece} (h : isSpaced (before ++ pieces) = true) :
    isSpaced pieces = true := by
  induction before with
  | nil => exact h
  | cons p before ih =>
    cases p with
    | char c => exact ih (isSpaced_char h).2
    | place i => exact ih (isSpaced_place h).2.2

theorem plain_of_head (hs : isSpaced pieces = true) (h : ∀ p ∈ pieces.head?, p.isPlace = false) :
    ∀ c ∈ (fillAtOnce arguments pieces).head?, isPlain c = true := by
  cases pieces with
  | nil => exact fun c hc => nomatch hc
  | cons p pieces =>
    cases p with
    | char c =>
      intro d hd
      obtain rfl : c = d := Option.some.inj hd
      exact (isSpaced_char hs).1
    | place i => cases h (.place i) rfl

theorem Ahead.cons {p : Piece} (h : Ahead pieces i j) (hp : p ≠ .place j) :
    Ahead (p :: pieces) i j := by
  refine ⟨List.mem_cons_of_mem p h.1, ?_⟩
  rw [List.takeWhile_cons]
  split
  · exact fun hmem => (List.mem_cons.1 hmem).elim (fun he => hp he.symm) h.2
  · exact List.not_mem_nil

theorem ahead_cons_self (pieces : List Piece) (i j : Nat) : Ahead (.place i :: pieces) i j :=
  ⟨List.mem_cons_self, by simp⟩

theorem fillAtOnce_cons (arguments : List String) (p : Piece) (pieces : List Piece) :
    fillAtOnce arguments (p :: pieces) = p.fill arguments ++ fillAtOnce arguments pieces :=
  List.flatMap_cons

theorem fillAtOnce_append (arguments : List String) (before after : List Piece) :
    fillAtOnce arguments (before ++ after) =
      fillAtOnce arguments before ++ fillAtOnce arguments after :=
  List.flatMap_append

theorem fill_infix (arguments : List String) {p : Piece} (h : p ∈ pieces) :
    p.fill arguments <:+: fillAtOnce arguments pieces := by
  obtain ⟨before, after, rfl⟩ := List.append_of_mem h
  rw [fillAtOnce_append, fillAtOnce_cons]
  exact ⟨fillAtOnce arguments before, fillAtOnce arguments after, List.append_assoc _ _ _⟩

theorem fill_concat (done : List String) (a : String) {p : Piece} (h : p ≠ .place done.length) :
    p.fill (done ++ [a]) = p.fill done := by
  cases p with
  | char c => rfl
  | place i =>
    have hi : i ≠ done.length := fun he => h (congrArg Piece.place he)
    rw [Piece.fill, Piece.fill]
    rcases Nat.lt_or_gt_of_ne hi with hlt | hgt
    · rw [List.getElem?_append_left hlt]
    · rw [List.getElem?_eq_none (Nat.le_of_lt hgt), List.getElem?_eq_none]
      rw [List.length_append]
      exact hgt

theorem fillAtOnce_concat (h : .place done.length ∉ pieces) :
    fillAtOnce (done ++ [a]) pieces = fillAtOnce done pieces :=
  List.flatMap_congr fun _ hp => fill_concat done a (ne_of_mem_of_not_mem hp h)

theorem fillFirst_fillAtOnce (hs : isSpaced pieces = true)
    (h : ∀ i text, done[i]? = some text → Ahead pieces i done.length →
      ¬ gap done.length <:+: text.toList) :
    fillFirst (gap done.length) a.toList (fillAtOnce done pieces) =
      fillAtOnce (done ++ [a]) pieces := by
  induction pieces with
  | nil =>
    rw [gap_eq]
    rfl
  | cons p pieces ih =>
    cases p with
    | char c =>
      obtain ⟨hplain, hs⟩ := isSpaced_char hs
      have htail := ih hs fun i text hi hahead => h i text hi (hahead.cons (by simp))
      exact (fillFirst_plain hplain _).trans (congrArg (c :: ·) htail)
    | place i =>
      obtain ⟨hhead, hnot, hs⟩ := isSpaced_place hs
      by_cases hi : i = done.length
      · subst hi
        have hgap : Piece.fill done (.place done.length) = gap done.length := by simp [Piece.fill]
        have hfilled : Piece.fill (done ++ [a]) (.place done.length) = a.toList := by
          simp [Piece.fill]
        rw [fillAtOnce_cons, hgap, fillFirst_gap, fillAtOnce_cons, hfilled, fillAtOnce_concat hnot]
      · have hplace : Piece.place i ≠ .place done.length := by simpa using hi
        have hsame := fill_concat done a hplace
        have hclean : ¬ gap done.length <:+: Piece.fill done (.place i) := by
          rw [Piece.fill]
          cases hget : done[i]? with
          | none => exact fun hoccurs => hi (gap_infix_gap hoccurs).symm
          | some text => exact h i text hget (ahead_cons_self pieces i done.length)
        have htail := ih hs fun j text hj hahead => h j text hj (hahead.cons hplace)
        rw [fillAtOnce_cons, fillFirst_append_of_not_infix hclean (plain_of_head hs hhead), htail,
          fillAtOnce_cons, hsame]

theorem fillFrom_fillAtOnce (done : List String) (hs : isSpaced pieces = true)
    (h : ∀ i text, (done ++ arguments)[i]? = some text →
      Harmless pieces (done ++ arguments).length i text) :
    fillFrom done.length (fillAtOnce done pieces) arguments =
      fillAtOnce (done ++ arguments) pieces := by
  induction arguments generalizing done with
  | nil => rw [fillFrom, List.append_nil]
  | cons a arguments ih =>
    have hstep : fillFirst (gap done.length) a.toList (fillAtOnce done pieces) =
        fillAtOnce (done ++ [a]) pieces := by
      refine fillFirst_fillAtOnce hs fun i text hi hahead => ?_
      have hlt := (List.getElem?_eq_some_iff.1 hi).1
      refine h i text (by rw [List.getElem?_append_left hlt, hi]) done.length ?_ hlt hahead
      simp
    have hrest : fillFrom (done ++ [a]).length (fillAtOnce (done ++ [a]) pieces) arguments =
        fillAtOnce (done ++ [a] ++ arguments) pieces := ih _ (by simpa using h)
    rw [fillFrom, hstep]
    simpa using hrest

/-! ## Filling a text that holds a number -/

theorem fillFrom_append (k : Nat) (text : List Char) (before after : List String) :
    fillFrom k text (before ++ after) =
      fillFrom (k + before.length) (fillFrom k text before) after := by
  induction before generalizing k text with
  | nil => rfl
  | cons a before ih =>
    rw [List.cons_append, fillFrom, ih, fillFrom, List.length_cons, Nat.add_right_comm,
      Nat.add_assoc]

theorem Ahead.mem_before {before after : List Piece}
    (h : Ahead (before ++ .place j :: after) i j) (hij : i ≠ j) : .place i ∈ before := by
  by_contra hnot
  refine h.2 ?_
  rw [List.takeWhile_append_of_pos fun p hp => by simpa using ne_of_mem_of_not_mem hp hnot,
    List.takeWhile_cons_of_pos (by simpa using Ne.symm hij)]
  exact List.mem_append_right _ List.mem_cons_self

theorem last_plain {before after : List Piece} (hs : isSpaced (before ++ .place j :: after) = true)
    (hne : before ≠ []) : ∃ init c, before = init ++ [.char c] ∧ isPlain c = true := by
  obtain ⟨init, p, rfl⟩ := List.eq_nil_or_concat' before |>.resolve_left hne
  rw [List.append_assoc] at hs
  have hlast := isSpaced_of_append hs
  cases p with
  | char c => exact ⟨init, c, rfl, (isSpaced_char hlast).1⟩
  | place k => cases (isSpaced_place hlast).1 (.place j) rfl

theorem fillFirst_ne_fillAtOnce (hs : isSpaced pieces = true) (hi : done[i]? = some a)
    (hahead : Ahead pieces i done.length) (hoccurs : gap done.length <:+: a.toList) :
    fillFirst (gap done.length) [] (fillAtOnce done pieces) ≠ fillAtOnce (done ++ [""]) pieces := by
  have hin : ∀ {pieces}, .place i ∈ pieces → gap done.length <:+: fillAtOnce done pieces := by
    intro pieces hmem
    have hfill : Piece.fill done (.place i) = a.toList := by simp [Piece.fill, hi]
    exact hoccurs.trans (hfill ▸ fill_infix done hmem)
  by_cases hplace : .place done.length ∈ pieces
  · obtain ⟨before, after, rfl, hbefore⟩ := List.eq_append_cons_of_mem hplace
    have hne : i ≠ done.length := Nat.ne_of_lt (List.getElem?_eq_some_iff.1 hi).1
    have hmem := hahead.mem_before hne
    obtain ⟨init, c, rfl, hplain⟩ := last_plain hs (List.ne_nil_of_mem hmem)
    have hafter := (isSpaced_place (isSpaced_of_append hs)).2.1
    have hgap : Piece.fill done (.place done.length) = gap done.length := by simp [Piece.fill]
    have hempty : Piece.fill (done ++ [""]) (.place done.length) = [] := by simp [Piece.fill]
    rw [fillAtOnce_append done, fillAtOnce_cons done, hgap, fillFirst_append_of_infix (hin hmem),
      fillAtOnce_append (done ++ [""]), fillAtOnce_cons (done ++ [""]), hempty,
      fillAtOnce_concat hbefore, fillAtOnce_concat hafter, List.nil_append, ← List.append_assoc,
      ne_eq, List.append_left_inj]
    -- One side ends in a brace, the other in literal text.
    intro heq
    have hlast := congrArg List.getLast? heq
    rw [gap, ← List.append_assoc, List.getLast?_concat] at hlast
    obtain rfl : '\x7d' = c := by simpa [fillAtOnce, Piece.fill] using hlast
    cases hplain
  · -- The template has no such place, and its text is not to be touched.
    rw [fillAtOnce_concat hplace]
    intro heq
    have hlength : (fillFirst (gap done.length) [] (fillAtOnce done pieces)).length +
        (gap done.length).length = (fillAtOnce done pieces).length + 0 :=
      length_fillFirst_of_infix (hin hahead.1)
    rw [heq, gap_eq] at hlength
    simp at hlength

theorem exists_misfilled {n : Nat} (hs : isSpaced pieces = true) (h : ¬ Harmless pieces n i a) :
    ∃ arguments : List String, arguments.length ≤ n ∧ arguments[i]? = some a ∧
      (∀ j b, arguments[j]? = some b → j ≠ i → b = "") ∧
      fillFrom 0 (fillAtOnce [] pieces) arguments ≠ fillAtOnce arguments pieces := by
  have hex : ∃ j < n, i < j ∧ Ahead pieces i j ∧ gap j <:+: a.toList := by
    simpa only [Harmless, not_forall, not_not, exists_prop] using h
  classical
  -- Up to the first number that does harm, all is well.
  obtain ⟨j, ⟨hjn, hij, hahead, hoccurs⟩, hfirst⟩ := Nat.findX hex
  have hhit : ((List.replicate (j + 1) "").set i a)[i]? = some a := by
    rw [List.getElem?_set_self]
    simpa using Nat.lt_succ_of_lt hij
  have hmiss : ∀ k b, ((List.replicate (j + 1) "").set i a)[k]? = some b → k ≠ i → b = "" := by
    intro k b hk hki
    rw [List.getElem?_set_ne (Ne.symm hki)] at hk
    exact (List.mem_replicate.1 (List.mem_of_getElem? hk)).2
  have hlength : ((List.replicate (j + 1) "").set i a).length ≤ n := by
    simpa using Nat.succ_le_of_lt hjn
  refine ⟨_, hlength, hhit, hmiss, ?_⟩
  obtain ⟨done, hdone⟩ : ∃ done, done = (List.replicate j "").set i a := ⟨_, rfl⟩
  obtain rfl : done.length = j := by simp [hdone]
  have hsplit : (List.replicate (done.length + 1) "").set i a = done ++ [""] := by
    rw [List.replicate_succ', List.set_append_left _ _ (by simpa using hij), ← hdone]
  rw [hsplit] at hhit hmiss ⊢
  rw [List.getElem?_append_left hij] at hhit
  have hbefore : fillFrom 0 (fillAtOnce [] pieces) done = fillAtOnce done pieces := by
    refine fillFrom_fillAtOnce [] hs fun k b hk l hl hkl hahead' hoccurs' => ?_
    rw [List.nil_append] at hk hl
    by_cases hki : k = i
    · subst hki
      obtain rfl := Option.some.inj (hk.symm.trans hhit)
      exact hfirst l hl ⟨Nat.lt_trans hl hjn, hkl, hahead', hoccurs'⟩
    · rw [← List.getElem?_append_left (Nat.lt_trans hkl hl)] at hk
      obtain rfl := hmiss k b hk hki
      rw [String.toList_empty, List.infix_nil, gap_eq] at hoccurs'
      cases hoccurs'
  rw [fillFrom_append, hbefore, Nat.zero_add]
  exact fillFirst_ne_fillAtOnce hs hhit hahead hoccurs

end Template

/-! ## Reports -/

namespace CheckReport

open Template

def Verbatim (kind : CheckKind) (arguments : List String) : Prop :=
  ∀ severity location history,
    (make kind severity arguments location history).head = filled kind.head arguments ∧
    (make kind severity arguments location history).message =
      kind.code severity ++ ": " ++ filled kind.head arguments ++ "\n\t" ++
        filled kind.detail arguments ++ "\n\tCategory: " ++ kind.category.text ++ "\n" ++
        historyText history

/-- No report of this kind takes a part of `text`, as one of `n` arguments, for a placeholder. -/
def HarmlessIn (kind : CheckKind) (n i : Nat) (text : String) : Prop :=
  Harmless (read kind.head) n i text ∧ Harmless (read kind.detail) n i text

instance (kind : CheckKind) (n i : Nat) (text : String) : Decidable (HarmlessIn kind n i text) :=
  inferInstanceAs (Decidable (_ ∧ _))

theorem templates_spaced (kind : CheckKind) :
    isSpaced (read kind.head) = true ∧ isSpaced (read kind.detail) = true := by
  cases kind <;> decide +kernel

theorem verbatim_iff {kind : CheckKind} {arguments : List String} : Verbatim kind arguments ↔
    fill kind.head arguments = filled kind.head arguments ∧
      fill kind.detail arguments = filled kind.detail arguments := by
  constructor
  · intro h
    obtain ⟨hhead, hmessage⟩ := h .warn none []
    have hhead : fill kind.head arguments = filled kind.head arguments := hhead
    refine ⟨hhead, ?_⟩
    simpa [make, hhead, String.append_assoc] using hmessage
  · rintro ⟨hhead, hdetail⟩ severity location history
    refine ⟨hhead, ?_⟩
    simp only [make, hhead, hdetail]

theorem fill_eq_filled_iff {template : String} {arguments : List String} :
    fill template arguments = filled template arguments ↔
      fillFrom 0 (fillAtOnce [] (read template)) arguments =
        fillAtOnce arguments (read template) := by
  rw [fill, filled, String.ofList_inj, Template.read, fillAtOnce_readFrom, List.drop_zero]

/-- Texts are shown as they are if none of them holds a placeholder that is filled behind it; and a
text that holds one is not shown as it is beside texts that are empty. -/
theorem make_verbatim (kind : CheckKind) :
    (∀ arguments, (∀ i text, arguments[i]? = some text → HarmlessIn kind arguments.length i text) →
      Verbatim kind arguments) ∧
    ∀ n i text, ¬ HarmlessIn kind n i text → ∃ arguments : List String, arguments.length ≤ n ∧
      arguments[i]? = some text ∧ (∀ j other, arguments[j]? = some other → j ≠ i → other = "") ∧
      ¬ Verbatim kind arguments := by
  obtain ⟨hhead, hdetail⟩ := templates_spaced kind
  simp only [verbatim_iff, fill_eq_filled_iff]
  constructor
  · intro arguments h
    exact ⟨fillFrom_fillAtOnce [] hhead fun i text hi => (h i text hi).1,
      fillFrom_fillAtOnce [] hdetail fun i text hi => (h i text hi).2⟩
  · intro n i text h
    rcases not_and_or.1 h with h | h
    · obtain ⟨arguments, hlength, hi, hother, hne⟩ := exists_misfilled hhead h
      exact ⟨arguments, hlength, hi, hother, fun hall => hne hall.1⟩
    · obtain ⟨arguments, hlength, hi, hother, hne⟩ := exists_misfilled hdetail h
      exact ⟨arguments, hlength, hi, hother, fun hall => hne hall.2⟩

theorem make_verbatim_difference :
    Verbatim .stringCoercion ["NaN", "\x7b1\x7d", "\x7b1\x7d\x7b0\x7d", "-", "t.js:1"] ∧
    (∃ arguments : List String, arguments.length ≤ 5 ∧ arguments[1]? = some "\x7b2\x7d" ∧
      (∀ j other, arguments[j]? = some other → j ≠ 1 → other = "") ∧
      ¬ Verbatim .stringCoercion arguments) ∧
    fill CheckKind.stringCoercion.detail ["NaN", "\x7b2\x7d", "1", "-", "t.js:1"] =
      "Expression: '1 - \x7b2\x7d => NaN'" ∧
    filled CheckKind.stringCoercion.detail ["NaN", "\x7b2\x7d", "1", "-", "t.js:1"] =
      "Expression: '\x7b2\x7d - 1 => NaN'" := by
  obtain ⟨hshown, hmisread⟩ := make_verbatim .stringCoercion
  refine ⟨hshown _ ?_, hmisread 5 1 _ (by decide +kernel), by decide +kernel, by decide +kernel⟩
  have hall : ∀ i : Fin 5, HarmlessIn .stringCoercion 5 i
      ["NaN", "\x7b1\x7d", "\x7b1\x7d\x7b0\x7d", "-", "t.js:1"][i] := by decide +kernel
  intro i text hi
  obtain ⟨hlt, rfl⟩ := List.getElem?_eq_some_iff.1 hi
  exact hall ⟨i, hlt⟩

end CheckReport

end CoercionTrace
