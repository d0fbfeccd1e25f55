import CoercionTrace.Text.Blank
import Mathlib.Data.List.TakeWhile

/-!
# Scanning and trimming

What a scan takes of a text that is put together, and what a text without blanks keeps when it is
trimmed. Main statement: a trimmed text with characters of one class only consists of the characters
of that class in the text (`strip_eq_filter`), whatever else counts as blank.
-/

namespace CoercionTrace

theorem takeWhile_append_of_head {α : Type} {p : α → Bool} {body rest : List α}
    (hbody : ∀ c ∈ body, p c = true) (hrest : ∀ c ∈ rest.head?, p c = false) :
    (body ++ rest).takeWhile p = body ∧ (body ++ rest).dropWhile p = rest := by
  rw [List.takeWhile_append_of_pos hbody, List.dropWhile_append_of_pos hbody]
  cases rest with
  | nil => exact ⟨List.append_nil _, rfl⟩
  | cons c rest => simp [hrest c rfl]

namespace Text

def strip (p : Char → Bool) (s : List Char) : List Char :=
  ((s.dropWhile p).reverse.dropWhile p).reverse

variable {p q : Char → Bool} {s : List Char}

theorem strip_split (p : Char → Bool) (s : List Char) : ∃ before after,
    s = before ++ strip p s ++ after ∧ (∀ c ∈ before, p c = true) ∧ ∀ c ∈ after, p c = true := by
  refine ⟨s.takeWhile p, ((s.dropWhile p).reverse.takeWhile p).reverse, ?_,
    fun c hc => List.mem_takeWhile_imp hc, fun c hc => ?_⟩
  · rw [strip, List.append_assoc, ← List.reverse_append, List.takeWhile_append_dropWhile,
      List.reverse_reverse, List.takeWhile_append_dropWhile]
  · exact List.mem_takeWhile_imp (List.mem_reverse.1 hc)

theorem strip_eq_filter (hstrip : ∀ c ∈ strip p s, q c = true) (hblank : ∀ c, p c = true → q c = false) :
    strip p s = s.filter q := by
  obtain ⟨before, after, hs, hbefore, hafter⟩ := strip_split p s
  have hnone : ∀ l : List Char, (∀ c ∈ l, p c = true) → l.filter q = [] := fun l hl =>
    List.filter_eq_nil_iff.2 fun c hc => by simp [hblank c (hl c hc)]
  generalize strip p s = kept at hs hstrip
  rw [hs, List.filter_append, List.filter_append, hnone _ hbefore, hnone _ hafter, List.nil_append,
    List.append_nil, List.filter_eq_self.2 hstrip]

end Text

end CoercionTrace
