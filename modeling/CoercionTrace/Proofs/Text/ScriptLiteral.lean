import CoercionTrace.Proofs.Document.Literals
import CoercionTrace.Proofs.Number.Numerals

/-!
# Literals in programs

The string literals of a program, by their grammar and with the code units that they stand for. Main
statement: the literal of a text stands for the text and for nothing else, in a program as well as in a
document (`script_readsBack`).
-/

namespace CoercionTrace.Text

def codeUnits (n : Nat) : List Nat :=
  if n < 0x10000 then [n] else [0xD800 + (n - 0x10000) / 0x400, 0xDC00 + (n - 0x10000) % 0x400]

def textUnits (text : String) : List Nat := text.toList.flatMap fun c => codeUnits c.toNat

def lineEnds : List Char := ['\n', '\r', '\u2028', '\u2029']

def singleEscapes : List (Char × Char) :=
  [('b', '\x08'), ('t', '\t'), ('n', '\n'), ('v', '\x0b'), ('f', '\x0c'), ('r', '\r'), ('"', '"'),
    ('\x27', '\x27'), ('\\', '\\')]

def EscapesItself (c : Char) : Prop :=
  c ∉ 'x' :: 'u' :: lineEnds ∧ c ∉ singleEscapes.map Prod.fst ∧ ¬ Number.IsDecimalDigit c

/-- What stands between double quotes, and its code units. The separators of lines and paragraphs have
to be escaped, as older editions of the language demand, and octal escapes are left out. -/
inductive LiteralBody : List Char → List Nat → Prop
  | empty : LiteralBody [] []
  | plain {c : Char} {s : List Char} {us : List Nat} (hc : c ∉ '"' :: '\\' :: lineEnds)
      (hs : LiteralBody s us) : LiteralBody (c :: s) (codeUnits c.toNat ++ us)
  | single {d c : Char} {s : List Char} {us : List Nat} (hd : (d, c) ∈ singleEscapes)
      (hs : LiteralBody s us) : LiteralBody ('\\' :: d :: s) (codeUnits c.toNat ++ us)
  | itself {c : Char} {s : List Char} {us : List Nat} (hc : EscapesItself c) (hs : LiteralBody s us) :
      LiteralBody ('\\' :: c :: s) (codeUnits c.toNat ++ us)
  | zero {s : List Char} {us : List Nat} (hdigit : ∀ c ∈ s.head?, ¬ Number.IsDecimalDigit c)
      (hs : LiteralBody s us) : LiteralBody ('\\' :: '0' :: s) (0 :: us)
  | two {a b : Char} {n : Nat} {s : List Char} {us : List Nat} (hn : Number.Denotes 16 [a, b] n)
      (hs : LiteralBody s us) : LiteralBody ('\\' :: 'x' :: a :: b :: s) (n :: us)
  | four {a b c d : Char} {n : Nat} {s : List Char} {us : List Nat}
      (hn : Number.Denotes 16 [a, b, c, d] n) (hs : LiteralBody s us) :
      LiteralBody ('\\' :: 'u' :: a :: b :: c :: d :: s) (n :: us)
  | braced {ds : List Char} {n : Nat} {s : List Char} {us : List Nat} (hn : Number.Denotes 16 ds n)
      (hbound : n ≤ 0x10FFFF) (hs : LiteralBody s us) :
      LiteralBody ('\\' :: 'u' :: '\x7b' :: (ds ++ '\x7d' :: s)) (codeUnits n ++ us)
  | continued {e s : List Char} {us : List Nat} (he : e = ['\r', '\n'] ∨ ∃ c ∈ lineEnds, e = [c])
      (hs : LiteralBody s us) : LiteralBody ('\\' :: (e ++ s)) us

def IsScriptLiteral (literal : List Char) (us : List Nat) : Prop :=
  ∃ body, literal = '"' :: body ++ ['"'] ∧ LiteralBody body us

def hasBareQuote : List Char → Bool
  | [] => false
  | '\\' :: _ :: s => hasBareQuote s
  | c :: s => c == '"' || hasBareQuote s

namespace Quoted

variable {c : Char} {l s : List Char} {us : List Nat}

/-- The spelling of a character of a data literal, where the literal is made part of a program. -/
def separatorChar (c : Char) : List Char :=
  if c = '\u2028' ∨ c = '\u2029' then '\\' :: 'u' :: hexFour c.toNat else [c]

theorem separatorChar_of_ascii {d : Char} (h : d.toNat < 0x80) : separatorChar d = [d] := by
  refine if_neg ?_
  rintro (rfl | rfl) <;> revert h <;> decide

theorem flatMap_separatorChar (hl : ∀ d ∈ l, d ≠ '\u2028' ∧ d ≠ '\u2029') :
    l.flatMap separatorChar = l := by
  induction l with
  | nil => rfl
  | cons d l ih =>
    have hd := hl d List.mem_cons_self
    rw [List.flatMap_cons, ih fun x hx => hl x (List.mem_cons_of_mem d hx)]
    simp [separatorChar, hd.1, hd.2]

theorem ne_separator {d : Char} (h : d.toNat < 0x80) : d ≠ '\u2028' ∧ d ≠ '\u2029' := by
  constructor <;> rintro rfl <;> revert h <;> decide

theorem scriptChar_eq (c : Char) : scriptChar c = (jsonChar c).flatMap separatorChar := by
  unfold scriptChar
  split
  · next h => rcases h with rfl | rfl <;> decide
  · next h =>
    rw [not_or] at h
    refine (flatMap_separatorChar fun d hd => ?_).symm
    rcases (mem_jsonChar hd).2 with rfl | hascii
    · exact h
    · exact ne_separator hascii

theorem mem_scriptChar {d : Char} (h : d ∈ scriptChar c) :
    0x20 ≤ d.toNat ∧ d ≠ '\u2028' ∧ d ≠ '\u2029' := by
  unfold scriptChar at h
  split at h
  · exact ⟨(mem_escape h).1, ne_separator (mem_escape h).2⟩
  · next hc =>
    obtain ⟨hvisible, rfl | hascii⟩ := mem_jsonChar h
    · exact ⟨hvisible, not_or.1 hc⟩
    · exact ⟨hvisible, ne_separator hascii⟩

theorem notMem_lineEnds {d : Char} (h : d ∈ scriptChar c) : d ∉ lineEnds := by
  obtain ⟨hvisible, hline, hparagraph⟩ := mem_scriptChar h
  simp only [lineEnds, List.mem_cons, List.not_mem_nil, or_false, not_or]
  refine ⟨?_, ?_, hline, hparagraph⟩ <;> rintro rfl <;> revert hvisible <;> decide

theorem denotes_hexFour {n : Nat} (hn : n < 65536) : Number.Denotes 16 (hexFour n) n := by
  have hdigit : ∀ i : Fin 16, Number.digitValue 16 (hexDigit i) = some i.val := by decide
  have hvalue : ∀ k : Nat, Number.digitValue 16 (hexDigit (k % 16)) = some (k % 16) := fun k =>
    hdigit ⟨k % 16, Nat.mod_lt k (by decide)⟩
  refine Number.denotes_iff.2 ⟨by simp [hexFour], ?_⟩
  simp only [hexFour, Number.foldDigits, hvalue, Option.bind_some, Option.some.injEq]
  omega

theorem codeUnits_of_lt {n : Nat} (hn : n < 65536) : codeUnits n = [n] := if_pos hn

theorem shortForms_single {d : Char} (h : (c, d) ∈ shortForms) : (d, c) ∈ singleEscapes ∧
    (∀ x, (d, x) ∈ singleEscapes → x = c) ∧ d ∉ '0' :: 'x' :: 'u' :: lineEnds := by
  have key : ∀ p ∈ shortForms, (p.2, p.1) ∈ singleEscapes ∧
      (∀ q ∈ singleEscapes, q.1 = p.2 → q.2 = p.1) ∧ p.2 ∉ '0' :: 'x' :: 'u' :: lineEnds := by decide
  obtain ⟨hmem, hunique, hother⟩ := key _ h
  exact ⟨hmem, fun x hx => hunique _ hx rfl, hother⟩

theorem not_continued {d : Char} {e rest : List Char} (hd : d ∉ lineEnds)
    (he : e = ['\r', '\n'] ∨ ∃ c ∈ lineEnds, e = [c]) : d :: s ≠ e ++ rest := by
  rintro h
  rcases he with rfl | ⟨c, hc, rfl⟩
  · rw [(List.cons.inj h).1] at hd
    exact hd (by decide)
  · rw [(List.cons.inj h).1] at hd
    exact hd hc

theorem literalBody_short {d : Char} (h : (c, d) ∈ shortForms) :
    LiteralBody ('\\' :: d :: s) us ↔ ∃ us', LiteralBody s us' ∧ us = codeUnits c.toNat ++ us' := by
  obtain ⟨hmem, hunique, hother⟩ := shortForms_single h
  simp only [List.mem_cons, not_or] at hother
  obtain ⟨hzero, hx, hu, hline⟩ := hother
  constructor
  · intro hbody
    generalize ht : '\\' :: d :: s = t at hbody
    cases hbody with
    | empty => cases ht
    | plain hc =>
      rw [← (List.cons.inj ht).1] at hc
      simp at hc
    | single hd hs =>
      cases ht
      rw [hunique _ hd]
      exact ⟨_, hs, rfl⟩
    | itself hc =>
      cases ht
      exact absurd (List.mem_map_of_mem hmem) hc.2.1
    | zero =>
      cases ht
      exact absurd rfl hzero
    | two =>
      cases ht
      exact absurd rfl hx
    | four =>
      cases ht
      exact absurd rfl hu
    | braced => exact absurd (List.cons.inj (List.cons.inj ht).2).1 hu
    | continued he => exact absurd (List.cons.inj ht).2 (not_continued hline he)
  · rintro ⟨us', hs, rfl⟩
    exact .single hmem hs

theorem literalBody_long {n : Nat} (hn : n < 65536) :
    LiteralBody ('\\' :: 'u' :: (hexFour n ++ s)) us ↔
      ∃ us', LiteralBody s us' ∧ us = codeUnits n ++ us' := by
  have hline : 'u' ∉ lineEnds := by decide
  constructor
  · intro hbody
    generalize ht : '\\' :: 'u' :: (hexFour n ++ s) = t at hbody
    cases hbody with
    | empty => cases ht
    | plain hc =>
      rw [← (List.cons.inj ht).1] at hc
      simp at hc
    | single hd =>
      rw [← (List.cons.inj (List.cons.inj ht).2).1] at hd
      simp [singleEscapes] at hd
    | itself hc =>
      rw [← (List.cons.inj (List.cons.inj ht).2).1] at hc
      exact absurd (by simp) hc.1
    | zero => simp at ht
    | two => simp at ht
    | @four a b c d m _ _ hm hs =>
      have hdigits : hexFour n ++ s = [a, b, c, d] ++ _ := (List.cons.inj (List.cons.inj ht).2).2
      obtain ⟨hfour, rfl⟩ := List.append_inj hdigits rfl
      rw [← hfour] at hm
      rw [hm.unique (denotes_hexFour hn), codeUnits_of_lt hn]
      exact ⟨_, hs, rfl⟩
    | braced =>
      have hbrace : hexDigit (n / 4096 % 16) = '\x7b' :=
        (List.cons.inj (List.cons.inj (List.cons.inj ht).2).2).1
      have key : ∀ i : Fin 16, hexDigit i ≠ '\x7b' := by decide
      exact absurd hbrace (key ⟨_, Nat.mod_lt _ (by decide)⟩)
    | continued he => exact absurd (List.cons.inj ht).2 (not_continued hline he)
  · rintro ⟨us', hs, rfl⟩
    rw [codeUnits_of_lt hn]
    exact .four (denotes_hexFour hn) hs

theorem literalBody_plain (hc : c ∉ '"' :: '\\' :: lineEnds) :
    LiteralBody (c :: s) us ↔ ∃ us', LiteralBody s us' ∧ us = codeUnits c.toNat ++ us' := by
  have hbackslash : c ≠ '\\' := fun h => hc (by simp [h])
  constructor
  · intro hbody
    cases hbody with
    | plain _ hs => exact ⟨_, hs, rfl⟩
    | _ => exact absurd rfl hbackslash
  · rintro ⟨us', hs, rfl⟩
    exact .plain hc hs

theorem literalBody_spelled (h : Spelled c l) (hline : ∀ d ∈ l, d ∉ lineEnds) :
    LiteralBody (l ++ s) us ↔ ∃ us', LiteralBody s us' ∧ us = codeUnits c.toNat ++ us' := by
  cases h with
  | plain hbackslash hquote =>
    apply literalBody_plain
    simp only [List.mem_cons, not_or]
    exact ⟨hquote, hbackslash, hline c List.mem_cons_self⟩
  | short hd => exact literalBody_short hd
  | long hn => exact literalBody_long hn

theorem hasBareQuote_cons (hbackslash : c ≠ '\\') (hquote : c ≠ '"') :
    hasBareQuote (c :: s) = hasBareQuote s := by
  rw [hasBareQuote, beq_false_of_ne hquote, Bool.false_or]
  exact fun _ _ h => absurd h hbackslash

theorem hasBareQuote_spelled (h : Spelled c l) : hasBareQuote (l ++ s) = hasBareQuote s := by
  cases h with
  | plain hbackslash hquote => exact hasBareQuote_cons hbackslash hquote
  | short => rfl
  | long =>
    have hdigit : ∀ (k : Nat) (s : List Char),
        hasBareQuote (hexDigit (k % 16) :: s) = hasBareQuote s := fun k s =>
      have h := hexDigit_visible (Nat.mod_lt k (show 0 < 16 by decide))
      hasBareQuote_cons h.2.2.2 h.2.2.1
    simp only [hexFour, List.cons_append, List.nil_append]
    rw [hasBareQuote, hdigit, hdigit, hdigit, hdigit]

theorem literalBody_iff (l : List Char) (us : List Nat) :
    LiteralBody (l.flatMap scriptChar) us ↔ us = l.flatMap fun c => codeUnits c.toNat := by
  induction l generalizing us with
  | nil =>
    constructor
    · intro h
      cases h
      rfl
    · rintro rfl
      exact .empty
  | cons c l ih =>
    rw [List.flatMap_cons, literalBody_spelled (spelled_scriptChar c) fun d => notMem_lineEnds]
    simp only [ih, exists_eq_left, List.flatMap_cons]

theorem hasBareQuote_flatMap (l : List Char) : hasBareQuote (l.flatMap scriptChar) = false := by
  induction l with
  | nil => rfl
  | cons c l ih => rw [List.flatMap_cons, hasBareQuote_spelled (spelled_scriptChar c), ih]

theorem read?_script (text : String) : Document.read? (script text) = some (.string (some text)) := by
  have hread := Document.stringBody_literal spelling_script text []
  simp [Document.read?, Document.value, script, toList_literal, Document.skipSpace, Document.isSpace,
    hread]

/-- The literal of a text is its data literal with the separators spelled out. It is one literal, shows no
control characters, separators or bare quotes inside, and stands for the text alone, by the rules of a
program and of a document. -/
theorem script_readsBack (text : String) :
    (script text).toList = (json text).toList.flatMap separatorChar ∧
    (∃ body, (script text).toList = '"' :: body ++ ['"'] ∧
      (∀ c ∈ body, 0x20 ≤ c.toNat ∧ c ≠ '\u2028' ∧ c ≠ '\u2029') ∧ hasBareQuote body = false) ∧
    (∀ us, IsScriptLiteral (script text).toList us ↔ us = textUnits text) ∧
    Document.read? (script text) = some (.string (some text)) ∧
    ∀ other, script other = script text → other = text := by
  refine ⟨?_, ⟨_, toList_literal _ text, fun c hc => ?_, hasBareQuote_flatMap _⟩, fun us => ?_,
    read?_script text, fun other hother => ?_⟩
  · rw [script, json, toList_literal, toList_literal]
    simp [List.flatMap_assoc, ← scriptChar_eq, separatorChar_of_ascii]
  · obtain ⟨d, -, hd⟩ := List.mem_flatMap.1 hc
    exact mem_scriptChar hd
  · rw [textUnits, ← literalBody_iff, script, toList_literal]
    constructor
    · rintro ⟨body, hbody, hus⟩
      rwa [List.append_cancel_right (List.cons.inj hbody).2]
    · exact fun h => ⟨_, rfl, h⟩
  · have hread := read?_script other
    rw [hother, read?_script] at hread
    simpa using hread.symm

/-- A backslash, a quote and a separator that are themselves spelled out in the text. -/
example : script "\\u2028\"\u2028" = "\"\\\\u2028\\\"\\u2028\"" := by decide

end Quoted

end CoercionTrace.Text
