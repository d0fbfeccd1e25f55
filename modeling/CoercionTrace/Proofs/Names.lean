import Mathlib.Data.List.Infix
import Mathlib.Order.Bounds.Basic
import CoercionTrace.Names

/-!
# Fresh names

The search for the first part of names adds dollar signs one by one. Main statement: the search ends
with the shortest run of at least two dollar signs that the program does not contain, and the names
made then are distinct and are nowhere in the program (`freshMany_forProgram`).
-/

namespace CoercionTrace

variable {current longest n : Nat} {text : List Char}

theorem le_longestDollarRun : longest ≤ longestDollarRun current longest text := by
  induction text generalizing current longest with
  | nil => exact Nat.le_max_right _ _
  | cons c rest ih =>
    unfold longestDollarRun
    split
    · exact ih
    · exact Nat.le_trans (Nat.le_max_right _ _) ih

theorem add_le_longestDollarRun (h : List.replicate n '$' <+: text) :
    current + n ≤ longestDollarRun current longest text := by
  induction text generalizing current longest n with
  | nil =>
    obtain rfl : n = 0 := by simpa using List.prefix_nil.1 h
    exact Nat.le_max_left _ _
  | cons c rest ih =>
    unfold longestDollarRun
    cases n with
    | zero =>
      split
      · exact Nat.le_trans (Nat.le_succ current) (ih (n := 0) (List.nil_prefix))
      · exact Nat.le_trans (Nat.le_max_left _ _) le_longestDollarRun
    | succ n =>
      rw [List.replicate_succ, List.cons_prefix_cons] at h
      rw [if_pos h.1.symm, Nat.add_succ, ← Nat.succ_add]
      exact ih h.2

theorem replicate_le_longestDollarRun (h : List.replicate n '$' <:+: text) :
    n ≤ longestDollarRun current longest text := by
  induction text generalizing current longest with
  | nil =>
    obtain rfl : n = 0 := by simpa using List.infix_nil.1 h
    exact Nat.zero_le _
  | cons c rest ih =>
    rcases List.infix_cons_iff.1 h with h | h
    · exact Nat.le_trans (Nat.le_add_left n current) (add_le_longestDollarRun h)
    · unfold longestDollarRun
      split <;> exact ih h

theorem replicate_max_infix (text : List Char) :
    List.replicate (max current longest) '$' <:+: List.replicate current '$' ++ text ∨
      max current longest = longest := by
  rcases Nat.le_total longest current with h | h
  · rw [Nat.max_eq_left h]
    exact .inl (List.prefix_append _ _).isInfix
  · exact .inr (Nat.max_eq_right h)

theorem longestDollarRun_infix :
    List.replicate (longestDollarRun current longest text) '$' <:+: List.replicate current '$' ++ text ∨
      longestDollarRun current longest text = longest := by
  induction text generalizing current longest with
  | nil => exact replicate_max_infix []
  | cons c rest ih =>
    unfold longestDollarRun
    split
    · next hc =>
      subst hc
      have h := @ih (current + 1) longest
      rwa [List.replicate_succ', List.append_assoc, List.singleton_append] at h
    · rcases @ih 0 (max current longest) with h | h
      · refine .inl (h.trans (List.suffix_append_of_suffix ?_).isInfix)
        exact List.suffix_cons c rest
      · rw [h]
        exact replicate_max_infix (c :: rest)

theorem replicate_infix_iff :
    List.replicate n '$' <:+: text ↔ n ≤ longestDollarRun 0 0 text := by
  refine ⟨replicate_le_longestDollarRun, fun h => ?_⟩
  have hlongest : List.replicate (longestDollarRun 0 0 text) '$' <:+: text := by
    have hrun : List.replicate (longestDollarRun 0 0 text) '$' <:+: List.replicate 0 '$' ++ text ∨
        longestDollarRun 0 0 text = 0 := longestDollarRun_infix
    rcases hrun with h | h
    · exact h
    · rw [h]
      exact List.nil_infix
  obtain ⟨more, hmore⟩ := Nat.exists_eq_add_of_le h
  rw [hmore, List.replicate_add] at hlongest
  exact (List.prefix_append _ _).isInfix.trans hlongest

def lengthen (text : List Char) (n : Nat) : Nat :=
  if List.replicate n '$' <:+: text then lengthen text (n + 1) else n
termination_by text.length + 1 - n
decreasing_by
  rename_i h
  have hlength := h.length_le
  rw [List.length_replicate] at hlength
  omega

theorem lengthen_isLeast (text : List Char) (n : Nat) :
    IsLeast {m | n ≤ m ∧ ¬ List.replicate m '$' <:+: text} (lengthen text n) := by
  induction n using lengthen.induct text with
  | case1 n h ih =>
    rw [lengthen, if_pos h]
    refine ⟨⟨Nat.le_of_succ_le ih.1.1, ih.1.2⟩, fun m hm => ih.2 ⟨?_, hm.2⟩⟩
    refine Nat.lt_of_le_of_ne hm.1 fun heq => hm.2 ?_
    rwa [← heq]
  | case2 n h =>
    rw [lengthen, if_neg h]
    exact ⟨⟨Nat.le_refl n, h⟩, fun m hm => hm.1⟩

namespace NameSupply

theorem forProgram_isLeast (text : List Char) :
    IsLeast {n | 2 ≤ n ∧ ¬ List.replicate n '$' <:+: text} (forProgram text).dollars := by
  simp only [replicate_infix_iff, Nat.not_le]
  exact ⟨⟨Nat.le_max_left _ _, Nat.le_max_right _ _⟩, fun n hn => Nat.max_le.2 hn⟩

theorem forProgram_eq_lengthen (text : List Char) : (forProgram text).dollars = lengthen text 2 :=
  (forProgram_isLeast text).unique (lengthen_isLeast text 2)

def nameOf (n : NameSupply) (use : NameUse) (i : Nat) : String := n.stem ++ use.stem ++ toString i

theorem toString_injective {i j : Nat} (h : toString i = toString j) : i = j := by
  have hdigits := congrArg (fun s : String => Nat.ofDigitChars 10 s.toList 0) h
  simpa [toString, Nat.toList_repr] using hdigits

theorem nameOf_injective {n : NameSupply} {use use' : NameUse} {i j : Nat}
    (h : n.nameOf use i = n.nameOf use' j) : use = use' ∧ i = j := by
  have hstem : use.stem ++ toString i = use'.stem ++ toString j := by
    have hlist := congrArg String.toList h
    simp only [nameOf, String.toList_append, List.append_assoc] at hlist
    rw [← String.toList_inj, String.toList_append, String.toList_append]
    exact List.append_cancel_left hlist
  have hlist := congrArg String.toList hstem
  cases use <;> cases use'
  · refine ⟨rfl, toString_injective (String.toList_inj.1 ?_)⟩
    simpa [NameUse.stem] using hlist
  · simp [NameUse.stem] at hlist
  · simp [NameUse.stem] at hlist
  · refine ⟨rfl, toString_injective (String.toList_inj.1 ?_)⟩
    simpa [NameUse.stem] using hlist

theorem fresh_eq (n : NameSupply) (use : NameUse) :
    n.fresh use = (n.nameOf use n.next, { n with next := n.next + 1 }) := rfl

theorem nameOf_toList (n : NameSupply) (use : NameUse) (i : Nat) :
    (n.nameOf use i).toList = List.replicate n.dollars '$' ++ use.stem.toList ++ Nat.toDigits 10 i := by
  simp [nameOf, stem, toString, Nat.toList_repr]

theorem nameOf_eq {n n' : NameSupply} (h : n.dollars = n'.dollars) (use : NameUse) (i : Nat) :
    n.nameOf use i = n'.nameOf use i := by
  simp only [nameOf, stem, h]

theorem nameOf_not_infix (text : List Char) (use : NameUse) (i : Nat) :
    ¬ ((forProgram text).nameOf use i).toList <:+: text := by
  intro h
  rw [nameOf_toList, List.append_assoc] at h
  exact (forProgram_isLeast text).1.2 ((List.prefix_append _ _).isInfix.trans h)

theorem nameOf_dollars (text : List Char) (use : NameUse) (i : Nat) :
    ['$', '$'] <+: ((forProgram text).nameOf use i).toList := by
  obtain ⟨more, hmore⟩ := Nat.exists_eq_add_of_le (forProgram_isLeast text).1.1
  rw [nameOf_toList, List.append_assoc, hmore, List.replicate_add, List.append_assoc]
  exact List.prefix_append _ _

variable {supply : NameSupply} {uses : List NameUse} {name : String}

theorem length_freshMany : (supply.freshMany uses).length = uses.length := by
  induction uses generalizing supply with
  | nil => rfl
  | cons use rest ih => exact congrArg (· + 1) ih

theorem numbered_of_mem_freshMany (h : name ∈ supply.freshMany uses) :
    ∃ use i, supply.next ≤ i ∧ name = supply.nameOf use i := by
  induction uses generalizing supply with
  | nil => cases h
  | cons use rest ih =>
    rcases List.mem_cons.1 h with rfl | h
    · exact ⟨use, supply.next, Nat.le_refl _, rfl⟩
    · obtain ⟨use', i, hi, rfl⟩ := ih h
      exact ⟨use', i, Nat.le_of_succ_le hi, rfl⟩

theorem nodup_freshMany : (supply.freshMany uses).Nodup := by
  induction uses generalizing supply with
  | nil => exact List.nodup_nil
  | cons use rest ih =>
    refine List.nodup_cons.2 ⟨fun h => ?_, ih⟩
    -- Later names have greater numbers.
    obtain ⟨use', i, hi, heq⟩ := numbered_of_mem_freshMany h
    exact absurd hi (Nat.not_le_of_lt (Nat.lt_succ_of_le (nameOf_injective (n := supply) heq).2.ge))

end NameSupply

open NameSupply in
/-- The search ends with the shortest run of dollar signs that will do, and no name that is made after
it occurs in the program or is made twice. -/
theorem freshMany_forProgram (text : List Char) (uses : List NameUse) :
    (forProgram text).dollars = lengthen text 2 ∧
    IsLeast {n | 2 ≤ n ∧ ¬ List.replicate n '$' <:+: text} (lengthen text 2) ∧
    ((forProgram text).freshMany uses).length = uses.length ∧
    ((forProgram text).freshMany uses).Nodup ∧
    ∀ name ∈ (forProgram text).freshMany uses, ¬ name.toList <:+: text := by
  refine ⟨forProgram_eq_lengthen text, lengthen_isLeast text 2, length_freshMany, nodup_freshMany,
    fun name h => ?_⟩
  obtain ⟨use, i, -, rfl⟩ := numbered_of_mem_freshMany h
  exact nameOf_not_infix text use i

end CoercionTrace
