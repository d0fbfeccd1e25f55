import CoercionTrace.Text.Quoted

/-!
# Literals and what they spell

Main statement: different texts have different literals in a program (`script_injective`). The
spelling of a character is a prefix of no other one's, so literals are taken apart character by
character.
-/

namespace CoercionTrace.Text

theorem hexDigit_injective {i j : Nat} (hi : i < 16) (hj : j < 16) (h : hexDigit i = hexDigit j) :
    i = j := by
  have key : ∀ i j : Fin 16, hexDigit i = hexDigit j → i = j := by decide
  exact congrArg Fin.val (key ⟨i, hi⟩ ⟨j, hj⟩ h)

theorem hexFour_injective {n m : Nat} (hn : n < 65536) (hm : m < 65536) (h : hexFour n = hexFour m) :
    n = m := by
  have hmod : ∀ k : Nat, k % 16 < 16 := fun k => Nat.mod_lt k (by decide)
  simp only [hexFour, List.cons.injEq, and_true] at h
  obtain ⟨h₁, h₂, h₃, h₄⟩ := h
  have h₁ := hexDigit_injective (hmod _) (hmod _) h₁
  have h₂ := hexDigit_injective (hmod _) (hmod _) h₂
  have h₃ := hexDigit_injective (hmod _) (hmod _) h₃
  have h₄ := hexDigit_injective (hmod _) (hmod _) h₄
  omega

namespace Quoted

def shortForms : List (Char × Char) :=
  [('"', '"'), ('\\', '\\'), ('\x08', 'b'), ('\x0c', 'f'), ('\n', 'n'), ('\r', 'r'), ('\t', 't')]

inductive Spelled (c : Char) : List Char → Prop
  | plain : c ≠ '\\' → c ≠ '"' → Spelled c [c]
  | short {d : Char} : (c, d) ∈ shortForms → Spelled c ['\\', d]
  | long : c.toNat < 65536 → Spelled c ('\\' :: 'u' :: hexFour c.toNat)

theorem spelled_jsonChar (c : Char) : Spelled c (jsonChar c) := by
  unfold jsonChar
  split
  · next h =>
    subst h
    exact .short (by decide)
  · next hquote =>
    split
    · next h =>
      subst h
      exact .short (by decide)
    · next hbackslash =>
      iterate 5
        split
        · next h =>
          subst h
          exact .short (by decide)
      split
      · next h => exact .long (Nat.lt_trans h (by decide))
      · exact .plain hbackslash hquote

theorem spelled_scriptChar (c : Char) : Spelled c (scriptChar c) := by
  unfold scriptChar
  split
  · next h => rcases h with rfl | rfl <;> exact .long (by decide)
  · exact spelled_jsonChar c

theorem Spelled.head_ne {c : Char} {l rest rest' : List Char} (h : Spelled c l) :
    l ++ rest ≠ '"' :: rest' := by
  cases h with
  | plain _ hquote => simpa using fun e _ => hquote e
  | short => simp
  | long => simp

theorem Spelled.append_injective {c d : Char} {l m rest rest' : List Char} (hc : Spelled c l)
    (hd : Spelled d m) (h : l ++ rest = m ++ rest') : c = d ∧ rest = rest' := by
  cases hc with
  | plain hback =>
    cases hd with
    | plain => simpa using h
    | short => exact absurd (List.cons.inj h).1 hback
    | long => exact absurd (List.cons.inj h).1 hback
  | @short x hx =>
    cases hd with
    | plain hback => exact absurd (List.cons.inj h).1.symm hback
    | @short y hy =>
      obtain ⟨rfl, hrest⟩ : x = y ∧ rest = rest' := by simpa using h
      have key : ∀ p ∈ shortForms, ∀ q ∈ shortForms, p.2 = q.2 → p.1 = q.1 := by decide
      exact ⟨key _ hx _ hy rfl, hrest⟩
    | long =>
      have hu : x = 'u' := (List.cons.inj (List.cons.inj h).2).1
      have key : ∀ p ∈ shortForms, p.2 ≠ 'u' := by decide
      exact absurd hu (key _ hx)
  | long hn =>
    cases hd with
    | plain hback => exact absurd (List.cons.inj h).1.symm hback
    | @short y hy =>
      have hu : 'u' = y := (List.cons.inj (List.cons.inj h).2).1
      have key : ∀ p ∈ shortForms, p.2 ≠ 'u' := by decide
      exact absurd hu.symm (key _ hy)
    | long hm =>
      have hdigits : hexFour c.toNat ++ rest = hexFour d.toNat ++ rest' := by simpa using h
      obtain ⟨hfour, hrest⟩ := List.append_inj hdigits rfl
      exact ⟨Char.toNat_inj.1 (hexFour_injective hn hm hfour), hrest⟩

theorem spell_injective {l m : List Char}
    (h : l.flatMap scriptChar ++ ['"'] = m.flatMap scriptChar ++ ['"']) : l = m := by
  induction l generalizing m with
  | nil =>
    cases m with
    | nil => rfl
    | cons d m =>
      rw [List.flatMap_cons, List.append_assoc] at h
      exact absurd h.symm (spelled_scriptChar d).head_ne
  | cons c l ih =>
    cases m with
    | nil =>
      rw [List.flatMap_cons, List.append_assoc] at h
      exact absurd h (spelled_scriptChar c).head_ne
    | cons d m =>
      simp only [List.flatMap_cons, List.append_assoc] at h
      obtain ⟨rfl, hrest⟩ := (spelled_scriptChar c).append_injective (spelled_scriptChar d) h
      rw [ih hrest]

theorem script_injective {a b : String} (h : script a = script b) : a = b := by
  have hlist := congrArg String.toList h
  simp only [script, literal, String.toList_ofList, List.cons_append] at hlist
  exact String.toList_inj.1 (spell_injective (List.cons.inj hlist).2)

theorem script_ne {text name : String} (h : name.toList.head? ≠ some '"') : script text ≠ name := by
  rintro rfl
  simp [script, literal] at h

end Quoted

end CoercionTrace.Text
