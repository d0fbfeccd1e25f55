import CoercionTrace.Proofs.Text.Scanning
import CoercionTrace.Suppression

/-!
# What directives say

Scanning a file goes from line to line with a switch. Read as a history, a row is suppressed if the
row before it says so, or if the last directive before it that is no `ignore` is `off`. Main
statement: a scan finds just that, and complains of every directive that changes nothing
(`scan_exact`).
-/

namespace CoercionTrace

/-! ## Directive comments -/

namespace Text

theorem Ranges.mem_codes {r : Ranges} {c : Char} (h : r.contains c = true) :
    c.toNat ∈ r.flatMap fun p => List.range' p.1 (p.2 + 1 - p.1) := by
  obtain ⟨p, hp, hc⟩ := List.any_eq_true.1 h
  obtain ⟨hle, hge⟩ := Bool.and_eq_true_iff.1 hc
  have hle := of_decide_eq_true hle
  have hge := of_decide_eq_true hge
  exact List.mem_flatMap.2 ⟨p, hp, List.mem_range'_1.2 ⟨hle, by omega⟩⟩

theorem isWord_of_isBlank {c : Char} (h : isBlank c = true) : isWord c = false := by
  have hcodes : ∀ n ∈ blankRanges.flatMap fun p => List.range' p.1 (p.2 + 1 - p.1),
      isWord (Char.ofNat n) = false := by decide +kernel
  have hc := hcodes c.toNat (Ranges.mem_codes h)
  rwa [Char.ofNat_toNat] at hc

end Text

namespace Directive

open Text (isBlank isWord isWord_of_isBlank)

structure Comment (s : List Char) (verb : String) (gap gap' trail : List Char) : Prop where
  spelled : s = "//".toList ++ (gap ++ ("JSane:".toList ++ (gap' ++ (verb.toList ++ trail))))
  nonempty : verb.toList ≠ []
  word : ∀ c ∈ verb.toList, isWord c = true
  blank : ∀ c ∈ gap ++ gap' ++ trail, isBlank c = true

def Fills (s : List Char) (verb : String) : Prop := ∃ gap gap' trail, Comment s verb gap gap' trail

structure Leftmost (line : List Char) (verb : String) (before s : List Char) : Prop where
  split : line = before ++ s
  fills : Fills s verb
  first : ∀ before' s', line = before' ++ s' → before'.length < before.length →
    ∀ verb', ¬ Fills s' verb'

def Carries (line : List Char) (verb : String) : Prop := ∃ before s, Leftmost line verb before s

variable {s line : List Char} {verb : String}

theorem exists_of_isPrefixOf {p : List Char} (h : p.isPrefixOf s = true) : ∃ rest, s = p ++ rest :=
  (List.isPrefixOf_iff_prefix.1 h).imp fun _ => Eq.symm

theorem fills_of_verbAt? (h : verbAt? s = some verb) : Fills s verb := by
  unfold verbAt? at h
  split at h
  · next hslashes =>
    obtain ⟨rest, rfl⟩ := exists_of_isPrefixOf hslashes
    have hdrop : ("//".toList ++ rest).drop 2 = rest := rfl
    rw [hdrop] at h
    dsimp only at h
    split at h
    · next hlabel =>
      obtain ⟨rest', hrest'⟩ := exists_of_isPrefixOf hlabel
      have hdrop : ("JSane:".toList ++ rest').drop 6 = rest' := rfl
      rw [hrest', hdrop] at h
      split at h
      · cases h
      · next hverb =>
        rw [Bool.or_eq_true, not_or, Bool.not_eq_true', Bool.not_eq_false, List.isEmpty_iff] at hverb
        have hword : verb.toList = (rest'.dropWhile isBlank).takeWhile isWord := by
          rw [← Option.some.inj h, String.toList_ofList]
        refine ⟨rest.takeWhile isBlank, rest'.takeWhile isBlank,
          (rest'.dropWhile isBlank).dropWhile isWord, ?_, hword ▸ hverb.1, ?_, ?_⟩
        · rw [hword, List.takeWhile_append_dropWhile, List.takeWhile_append_dropWhile, ← hrest',
            List.takeWhile_append_dropWhile]
        · rw [hword]
          exact fun c => List.mem_takeWhile_imp
        · intro c hc
          rcases List.mem_append.1 hc with hc | hc
          · rcases List.mem_append.1 hc with hc | hc
            · exact List.mem_takeWhile_imp hc
            · exact List.mem_takeWhile_imp hc
          · exact List.all_eq_true.1 hverb.2 c hc
    · cases h
  · cases h

theorem Comment.verbAt? {gap gap' trail : List Char} (h : Comment s verb gap gap' trail) :
    verbAt? s = some verb := by
  obtain ⟨rfl, hne, hword, hblank⟩ := h
  simp only [List.mem_append, or_imp, forall_and] at hblank
  obtain ⟨⟨hgap, hgap'⟩, htrail⟩ := hblank
  have hbegins : ∀ p rest : List Char, p.isPrefixOf (p ++ rest) = true :=
    fun p rest => List.isPrefixOf_iff_prefix.2 (List.prefix_append p rest)
  -- Blanks end where the label begins, and where the verb begins; the verb ends where blanks begin.
  have hlabel : (gap ++ ("JSane:".toList ++ (gap' ++ (verb.toList ++ trail)))).dropWhile isBlank =
      "JSane:".toList ++ (gap' ++ (verb.toList ++ trail)) :=
    (takeWhile_append_of_head hgap (by rintro c ⟨⟩; decide)).2
  have hverb : (gap' ++ (verb.toList ++ trail)).dropWhile isBlank = verb.toList ++ trail := by
    refine (takeWhile_append_of_head hgap' fun c hc => ?_).2
    obtain ⟨d, word, he⟩ := List.exists_cons_of_ne_nil hne
    rw [he] at hc hword
    obtain rfl := Option.some.inj hc
    refine Bool.eq_false_iff.2 fun hblank => ?_
    exact Bool.eq_false_iff.1 (isWord_of_isBlank hblank) (hword d List.mem_cons_self)
  have htrail' : ∀ c ∈ trail.head?, isWord c = false :=
    fun c hc => isWord_of_isBlank (htrail c (List.mem_of_mem_head? hc))
  obtain ⟨htake, hdrop⟩ := takeWhile_append_of_head hword htrail'
  have hafter : ∀ rest : List Char, ("//".toList ++ rest).drop 2 = rest := fun _ => rfl
  have hafter' : ∀ rest : List Char, ("JSane:".toList ++ rest).drop 6 = rest := fun _ => rfl
  have hend : (verb.toList.isEmpty || !trail.all isBlank) = false := by
    simp [hne, List.all_eq_true.2 htrail]
  unfold Directive.verbAt?
  rw [if_pos (hbegins _ _), hafter]
  dsimp only
  rw [hlabel, if_pos (hbegins _ _), hafter', hverb, htake, hdrop, hend, String.ofList_toList]
  rfl

theorem verbAt?_iff : verbAt? s = some verb ↔ Fills s verb :=
  ⟨fills_of_verbAt?, fun ⟨_, _, _, h⟩ => h.verbAt?⟩

theorem verbIn?_iff : verbIn? line = some verb ↔ Carries line verb := by
  -- the comment that counts is the first that fills the rest of its line
  induction line with
  | nil =>
    refine ⟨fun h => (nomatch h), ?_⟩
    rintro ⟨before, s, hsplit, ⟨gap, gap', trail, hcomment⟩, -⟩
    obtain ⟨-, rfl⟩ := List.append_eq_nil_iff.1 hsplit.symm
    cases hcomment.spelled
  | cons c rest ih =>
    rw [verbIn?]
    cases hhere : verbAt? (c :: rest) with
    | some verb' =>
      rw [Option.some_or, Option.some.injEq]
      constructor
      · rintro rfl
        exact ⟨[], c :: rest, rfl, verbAt?_iff.1 hhere, fun _ _ _ h => absurd h (Nat.not_lt_zero _)⟩
      · rintro ⟨before, s, hsplit, hfills, hfirst⟩
        cases before with
        | nil =>
          obtain rfl : s = c :: rest := hsplit.symm
          exact Option.some.inj (hhere.symm.trans (verbAt?_iff.2 hfills))
        | cons d before =>
          exact absurd (verbAt?_iff.1 hhere) (hfirst [] (c :: rest) rfl (Nat.succ_pos _) verb')
    | none =>
      have hnot : ∀ verb', ¬ Fills (c :: rest) verb' := by
        intro verb' h
        cases hhere.symm.trans (verbAt?_iff.2 h)
      rw [Option.none_or, ih]
      constructor
      · rintro ⟨before, s, rfl, hfills, hfirst⟩
        refine ⟨c :: before, s, rfl, hfills, fun before' s' hsplit hlt => ?_⟩
        cases before' with
        | nil =>
          obtain rfl : s' = c :: (before ++ s) := hsplit.symm
          exact hnot
        | cons d before' => exact hfirst before' s' (List.cons.inj hsplit).2 (Nat.lt_of_succ_lt_succ hlt)
      · rintro ⟨before, s, hsplit, hfills, hfirst⟩
        cases before with
        | nil =>
          obtain rfl : s = c :: rest := hsplit.symm
          exact absurd hfills (hnot verb)
        | cons d before =>
          obtain ⟨rfl, rfl⟩ := List.cons.inj hsplit
          refine ⟨before, s, rfl, hfills, fun before' s' hsplit hlt => ?_⟩
          exact hfirst (c :: before') s' (congrArg (c :: ·) hsplit) (Nat.succ_lt_succ hlt)

theorem ofVerb?_verb (d : Directive) : ofVerb? d.verb = some d := by cases d <;> rfl

theorem verb_of_ofVerb? {d : Directive} (h : ofVerb? verb = some d) : verb = d.verb := by
  unfold ofVerb? at h
  split at h <;> cases h <;> rfl

end Directive

/-! ## History -/

def RowCarries (source : List Char) (k : Nat) (verb : String) : Prop :=
  ∃ line, (splitLines source)[k]? = some line ∧ Directive.Carries (dropCarriageReturn line) verb

def OffBefore (source : List Char) (k : Nat) : Prop :=
  ∃ j < k, RowCarries source j Directive.off.verb ∧ ∀ i, j < i → i < k →
    ¬ RowCarries source i Directive.on.verb ∧ ¬ RowCarries source i Directive.off.verb

def Redundant (source : List Char) (k : Nat) (d : Directive) : Prop :=
  RowCarries source k d.verb ∧ match d with
    | .on => ¬ OffBefore source k
    | .off | .ignore => OffBefore source k

def FirstUnknown (source : List Char) (k : Nat) (verb : String) : Prop :=
  RowCarries source k verb ∧ (∀ d : Directive, verb ≠ d.verb) ∧
    ∀ j < k, ∀ verb', RowCarries source j verb' → ∃ d : Directive, verb' = d.verb

theorem rowCarries_iff {source : List Char} {k : Nat} {verb : String} :
    RowCarries source k verb ↔ ∃ line, (splitLines source)[k]? = some line ∧
      Directive.verbIn? (dropCarriageReturn line) = some verb := by
  simp only [RowCarries, Directive.verbIn?_iff]

theorem RowCarries.unique {source : List Char} {k : Nat} {verb verb' : String}
    (h : RowCarries source k verb) (h' : RowCarries source k verb') : verb = verb' := by
  obtain ⟨line, hline, hverb⟩ := rowCarries_iff.1 h
  obtain ⟨line', hline', hverb'⟩ := rowCarries_iff.1 h'
  obtain rfl := Option.some.inj (hline.symm.trans hline')
  exact Option.some.inj (hverb.symm.trans hverb')

theorem FirstUnknown.unique {source : List Char} {j k : Nat} {verb verb' : String}
    (h : FirstUnknown source k verb) (h' : FirstUnknown source j verb') : k = j ∧ verb = verb' := by
  obtain ⟨hk, hnone, hbefore⟩ := h
  obtain ⟨hj, hnone', hbefore'⟩ := h'
  rcases Nat.lt_trichotomy k j with hlt | rfl | hlt
  · obtain ⟨d, hd⟩ := hbefore' k hlt verb hk
    exact absurd hd (hnone d)
  · exact ⟨rfl, hk.unique hj⟩
  · obtain ⟨d, hd⟩ := hbefore j hlt verb' hj
    exact absurd hd (hnone' d)

theorem not_offBefore_zero (source : List Char) : ¬ OffBefore source 0 :=
  fun ⟨_, hj, _⟩ => absurd hj (Nat.not_lt_zero _)

theorem offBefore_succ {source : List Char} {k : Nat} : OffBefore source (k + 1) ↔
    RowCarries source k Directive.off.verb ∨
      OffBefore source k ∧ ¬ RowCarries source k Directive.on.verb := by
  constructor
  · rintro ⟨j, hj, hoff, hlater⟩
    rcases Nat.lt_or_eq_of_le (Nat.le_of_lt_succ hj) with hlt | rfl
    · exact .inr ⟨⟨j, hlt, hoff, fun i hi hik => hlater i hi (Nat.lt_succ_of_lt hik)⟩,
        (hlater k hlt (Nat.lt_succ_self k)).1⟩
    · exact .inl hoff
  · rintro (hoff | ⟨⟨j, hj, hoff, hlater⟩, hon⟩)
    · exact ⟨k, Nat.lt_succ_self k, hoff, fun i hi hik => absurd hi (Nat.not_lt_of_le (Nat.le_of_lt_succ hik))⟩
    · by_cases hagain : RowCarries source k Directive.off.verb
      · exact ⟨k, Nat.lt_succ_self k, hagain,
          fun i hi hik => absurd hi (Nat.not_lt_of_le (Nat.le_of_lt_succ hik))⟩
      · refine ⟨j, Nat.lt_succ_of_lt hj, hoff, fun i hi hik => ?_⟩
        rcases Nat.lt_or_eq_of_le (Nat.le_of_lt_succ hik) with hlt | rfl
        · exact hlater i hi hlt
        · exact ⟨hon, hagain⟩

namespace Suppression

variable {file : String} {off : Bool} {row k : Nat} {source line : List Char}
  {lines : List (List Char)} {d : Directive} {verb : String}

/-! ## Lines -/

def directive? (line : List Char) : Option Directive :=
  (Directive.verbIn? (dropCarriageReturn line)).bind Directive.ofVerb?

def unknown? (line : List Char) : Option String :=
  (Directive.verbIn? (dropCarriageReturn line)).filter fun verb => (Directive.ofVerb? verb).isNone

def effectOf (off : Bool) (line : List Char) : LineEffect :=
  match directive? line with
  | none => { off, next := off }
  | some d => d.effect off

def offAt (off : Bool) : List (List Char) → Nat → Bool
  | line :: rest, k + 1 => offAt (effectOf off line).off rest k
  | _, _ => off

def report (file : String) (row : Nat) (effect : LineEffect) : List Diagnostic :=
  effect.complaint.toList.map fun c => { file, line := row + 1, complaint := c }

theorem effect_next : (effectOf off line).next = true ↔
    directive? line = some .ignore ∨ (effectOf off line).off = true := by
  unfold effectOf
  cases directive? line with
  | none => simp
  | some d => cases d <;> simp [Directive.effect]

theorem effect_off : (effectOf off line).off = true ↔
    directive? line = some .off ∨ off = true ∧ directive? line ≠ some .on := by
  unfold effectOf
  cases directive? line with
  | none => simp
  | some d => cases d <;> simp [Directive.effect]

theorem effect_complaint {c : Complaint} : (effectOf off line).complaint = some c ↔
    ∃ d, directive? line = some d ∧ c = .duplicateDirective d ∧ (off = true ↔ d ≠ .on) := by
  unfold effectOf
  cases directive? line with
  | none => simp
  | some d => cases d <;> cases off <;> simp [Directive.effect, eq_comm]

theorem offAt_succ (hline : lines[k]? = some line) :
    offAt off lines (k + 1) = (effectOf (offAt off lines k) line).off := by
  induction lines generalizing off k with
  | nil => cases hline
  | cons first rest ih =>
    cases k with
    | zero =>
      obtain rfl := Option.some.inj hline
      cases rest <;> rfl
    | succ k => exact ih hline

theorem offAt_succ_of_none (hline : lines[k]? = none) : offAt off lines (k + 1) = offAt off lines k := by
  induction lines generalizing off k with
  | nil => cases k <;> rfl
  | cons first rest ih =>
    cases k with
    | zero => cases hline
    | succ k => exact ih hline

/-! ## A scan -/

theorem scanLines_of_known (hline : unknown? line = none) (rest : List (List Char)) :
    scanLines file off row (line :: rest) =
      (scanLines file (effectOf off line).off (row + 1) rest).map fun p =>
        ((effectOf off line).next :: p.1, report file row (effectOf off line) ++ p.2) := by
  have hmap : ∀ effect : LineEffect, (scanLines file effect.off (row + 1) rest >>= fun p =>
      pure (effect.next :: p.1, report file row effect ++ p.2)) =
      (scanLines file effect.off (row + 1) rest).map fun p =>
        (effect.next :: p.1, report file row effect ++ p.2) := by
    intro effect
    cases scanLines file effect.off (row + 1) rest <;> rfl
  rw [scanLines]
  unfold effectOf directive?
  cases hverb : Directive.verbIn? (dropCarriageReturn line) with
  | none => exact hmap _
  | some verb =>
    cases hd : Directive.ofVerb? verb with
    | none => simp [unknown?, hverb, hd] at hline
    | some d =>
      simp only [Option.bind_some, hd]
      exact hmap (d.effect off)

theorem scanLines_of_unknown (hline : unknown? line = some verb) (rest : List (List Char)) :
    scanLines file off row (line :: rest) = .error (.unknownDirective file (row + 1) verb) := by
  obtain ⟨hverb, hnone⟩ := Option.filter_eq_some_iff.1 hline
  rw [Option.isNone_iff_eq_none] at hnone
  rw [scanLines, hverb]
  dsimp only
  rw [hnone]
  rfl

theorem scanLines_ok (h : ∀ line ∈ lines, unknown? line = none) : scanLines file off row lines =
    .ok (lines.mapIdx fun k line => (effectOf (offAt off lines k) line).next,
      (lines.mapIdx fun k line => report file (row + k) (effectOf (offAt off lines k) line)).flatten) := by
  induction lines generalizing off row with
  | nil => rfl
  | cons line rest ih =>
    obtain ⟨hline, hrest⟩ := List.forall_mem_cons.1 h
    rw [scanLines_of_known hline, ih hrest]
    simp [Except.map, List.mapIdx_cons, offAt, Nat.add_assoc, Nat.add_comm 1]

theorem scanLines_error {before rest : List (List Char)} (hbefore : ∀ l ∈ before, unknown? l = none)
    (hline : unknown? line = some verb) : scanLines file off row (before ++ line :: rest) =
      .error (.unknownDirective file (row + before.length + 1) verb) := by
  induction before generalizing off row with
  | nil => exact scanLines_of_unknown hline rest
  | cons first before ih =>
    obtain ⟨hfirst, hbefore⟩ := List.forall_mem_cons.1 hbefore
    rw [List.cons_append, scanLines_of_known hfirst, ih hbefore, List.length_cons]
    simp [Except.map, Nat.add_assoc, Nat.add_comm 1]

/-! ## Rows -/

theorem directive?_iff (hline : (splitLines source)[k]? = some line) :
    directive? line = some d ↔ RowCarries source k d.verb := by
  rw [rowCarries_iff, directive?, Option.bind_eq_some_iff]
  constructor
  · rintro ⟨verb, hverb, hd⟩
    exact ⟨line, hline, Directive.verb_of_ofVerb? hd ▸ hverb⟩
  · rintro ⟨line', hline', hverb⟩
    obtain rfl := Option.some.inj (hline.symm.trans hline')
    exact ⟨d.verb, hverb, Directive.ofVerb?_verb d⟩

theorem unknown?_iff (hline : (splitLines source)[k]? = some line) : unknown? line = some verb ↔
    RowCarries source k verb ∧ ∀ d : Directive, verb ≠ d.verb := by
  have hnone : Directive.ofVerb? verb = none ↔ ∀ d : Directive, verb ≠ d.verb := by
    rw [Option.eq_none_iff_forall_not_mem]
    constructor
    · rintro h d rfl
      exact h d (Directive.ofVerb?_verb d)
    · exact fun h d hd => h d (Directive.verb_of_ofVerb? hd)
  rw [unknown?, Option.filter_eq_some_iff, Option.isNone_iff_eq_none, hnone, rowCarries_iff]
  refine and_congr_left fun _ => ⟨fun h => ⟨line, hline, h⟩, ?_⟩
  rintro ⟨line', hline', hverb⟩
  obtain rfl := Option.some.inj (hline.symm.trans hline')
  exact hverb

theorem offBefore_iff : OffBefore source k ↔ offAt false (splitLines source) k = true := by
  induction k with
  | zero =>
    have hoff : offAt false (splitLines source) 0 = false := by
      cases splitLines source <;> rfl
    rw [hoff]
    exact iff_of_false (not_offBefore_zero source) Bool.false_ne_true
  | succ k ih =>
    rw [offBefore_succ, ih]
    cases hline : (splitLines source)[k]? with
    | none =>
      have hnone : ∀ verb, ¬ RowCarries source k verb := by
        rintro verb ⟨line, h, -⟩
        cases hline.symm.trans h
      simp [offAt_succ_of_none hline, hnone]
    | some line =>
      rw [offAt_succ hline, effect_off, directive?_iff hline, ne_eq, directive?_iff hline]

theorem known_or_first (lines : List (List Char)) : (∀ line ∈ lines, unknown? line = none) ∨
    ∃ before line rest verb, lines = before ++ line :: rest ∧ (∀ l ∈ before, unknown? l = none) ∧
      unknown? line = some verb := by
  cases hfind : lines.find? fun line => (unknown? line).isSome with
  | none => exact .inl fun line hline => by simpa using List.find?_eq_none.1 hfind line hline
  | some line =>
    obtain ⟨hline, before, rest, hsplit, hbefore⟩ := List.find?_eq_some_iff_append.1 hfind
    obtain ⟨verb, hverb⟩ := Option.isSome_iff_exists.1 hline
    exact .inr ⟨before, line, rest, verb, hsplit, fun l hl => by simpa using hbefore l hl, hverb⟩

theorem firstUnknown_of_split {before rest : List (List Char)}
    (hsplit : splitLines source = before ++ line :: rest) (hbefore : ∀ l ∈ before, unknown? l = none)
    (hline : unknown? line = some verb) : FirstUnknown source before.length verb := by
  have hat : (splitLines source)[before.length]? = some line := by
    rw [hsplit, List.getElem?_append_right (Nat.le_refl _), Nat.sub_self]
    rfl
  obtain ⟨hcarries, hunknown⟩ := (unknown?_iff hat).1 hline
  refine ⟨hcarries, hunknown, fun j hj verb' hverb' => ?_⟩
  by_contra hall
  obtain ⟨l, hl, -⟩ := id hverb'
  have hmem : l ∈ before := by
    rw [hsplit, List.getElem?_append_left hj] at hl
    exact List.mem_of_getElem? hl
  cases (hbefore l hmem).symm.trans ((unknown?_iff hl).2 ⟨hverb', fun d hd => hall ⟨d, hd⟩⟩)

def reading (file : String) (source : List Char) : Suppression × List Diagnostic :=
  let lines := splitLines source
  (⟨false :: (lines.mapIdx fun k line => (effectOf (offAt false lines k) line).next).dropLast⟩,
    (lines.mapIdx fun k line => report file k (effectOf (offAt false lines k) line)).flatten)

theorem scan_ok (h : ∀ line ∈ splitLines source, unknown? line = none) :
    scan file source = .ok (reading file source) := by
  rw [scan, scanLines_ok h]
  simp only [Nat.zero_add]
  rfl

theorem scan_error {before rest : List (List Char)} (hsplit : splitLines source = before ++ line :: rest)
    (hbefore : ∀ l ∈ before, unknown? l = none) (hline : unknown? line = some verb) :
    scan file source = .error (.unknownDirective file (before.length + 1) verb) := by
  rw [scan, hsplit, scanLines_error hbefore hline, Nat.zero_add]
  rfl

theorem suppressed_reading (file : String) : (reading file source).1.isSuppressed row = true ↔
    ∃ k, row = k + 1 ∧ row < (splitLines source).length ∧
      (RowCarries source k Directive.ignore.verb ∨ OffBefore source row) := by
  cases row with
  | zero => exact iff_of_false Bool.false_ne_true fun ⟨_, h, _⟩ => absurd h (Nat.succ_ne_zero _).symm
  | succ k =>
    have hrow : (reading file source).1.isSuppressed (k + 1) = true ↔
        ∃ line, (splitLines source)[k]? = some line ∧ k + 1 < (splitLines source).length ∧
          (effectOf (offAt false (splitLines source) k) line).next = true := by
      rw [isSuppressed, reading, List.getD_cons_succ, List.getD_eq_getElem?_getD,
        List.getElem?_dropLast, List.length_mapIdx, List.getElem?_mapIdx]
      by_cases hlt : k < (splitLines source).length - 1
      · have hlt' : k + 1 < (splitLines source).length := by omega
        rw [if_pos hlt, List.getElem?_eq_getElem (Nat.lt_of_succ_lt hlt')]
        simp [hlt']
      · have hge : ¬ k + 1 < (splitLines source).length := by omega
        simp [hlt, hge]
    rw [hrow]
    constructor
    · rintro ⟨line, hline, hlt, hnext⟩
      refine ⟨k, rfl, hlt, ?_⟩
      rw [effect_next, directive?_iff hline, ← offAt_succ hline, ← offBefore_iff] at hnext
      exact hnext
    · rintro ⟨_, hk, hlt, hnext⟩
      obtain rfl := Nat.succ.inj hk
      have hline := List.getElem?_eq_getElem (Nat.lt_of_succ_lt hlt)
      refine ⟨_, hline, hlt, ?_⟩
      rw [effect_next, directive?_iff hline, ← offAt_succ hline, ← offBefore_iff]
      exact hnext

theorem mem_report {effect : LineEffect} {x : Diagnostic} : x ∈ report file row effect ↔
    ∃ c, effect.complaint = some c ∧ x = { file, line := row + 1, complaint := c } := by
  simp [report, eq_comm]

theorem mem_reading {x : Diagnostic} : x ∈ (reading file source).2 ↔ ∃ k d, Redundant source k d ∧
    x = { file, line := k + 1, complaint := .duplicateDirective d } := by
  have hcase : ∀ k (d : Directive), (offAt false (splitLines source) k = true ↔ d ≠ .on) ↔
      match d with
      | .on => ¬ OffBefore source k
      | .off | .ignore => OffBefore source k := by
    intro k d
    cases d <;> simp [offBefore_iff]
  rw [reading, List.mem_flatten]
  constructor
  · rintro ⟨reports, hreports, hx⟩
    obtain ⟨k, hk, rfl⟩ := List.mem_mapIdx.1 hreports
    obtain ⟨c, hc, rfl⟩ := mem_report.1 hx
    obtain ⟨d, hd, rfl, hoff⟩ := effect_complaint.1 hc
    exact ⟨k, d, ⟨(directive?_iff (List.getElem?_eq_getElem hk)).1 hd, (hcase k d).1 hoff⟩, rfl⟩
  · rintro ⟨k, d, ⟨hcarries, hoff⟩, rfl⟩
    obtain ⟨line, hline, -⟩ := id hcarries
    obtain ⟨hk, rfl⟩ := List.getElem?_eq_some_iff.1 hline
    refine ⟨_, List.mem_mapIdx.2 ⟨k, hk, rfl⟩, mem_report.2 ⟨_, effect_complaint.2 ?_, rfl⟩⟩
    exact ⟨d, (directive?_iff hline).2 hcarries, rfl, (hcase k d).2 hoff⟩

theorem lines_of_reading (file : String) (source : List Char) :
    (reading file source).2.Pairwise fun a b => a.line < b.line := by
  rw [reading, List.pairwise_flatten]
  constructor
  · intro reports hreports
    obtain ⟨k, hk, rfl⟩ := List.mem_mapIdx.1 hreports
    unfold report
    cases (effectOf (offAt false (splitLines source) k) (splitLines source)[k]).complaint with
    | none => exact List.Pairwise.nil
    | some c => exact List.pairwise_singleton _ _
  · refine List.pairwise_iff_getElem.2 fun i j hi hj hij x hx y hy => ?_
    rw [List.getElem_mapIdx] at hx hy
    obtain ⟨_, -, rfl⟩ := mem_report.1 hx
    obtain ⟨_, -, rfl⟩ := mem_report.1 hy
    exact Nat.succ_lt_succ hij

/-- A scan fails at the first unknown verb. Otherwise it suppresses each row that is ignored or
behind an `off`, and complains, in the order of the rows, of the directives that change nothing. -/
theorem scan_exact (file : String) (source : List Char) :
    (∀ e, scan file source = .error e ↔
      ∃ k verb, FirstUnknown source k verb ∧ e = .unknownDirective file (k + 1) verb) ∧
    ∀ s diagnostics, scan file source = .ok (s, diagnostics) →
      (∀ row, s.isSuppressed row = true ↔ ∃ k, row = k + 1 ∧ row < (splitLines source).length ∧
        (RowCarries source k Directive.ignore.verb ∨ OffBefore source row)) ∧
      diagnostics.Pairwise (fun a b => a.line < b.line) ∧
      ∀ x, x ∈ diagnostics ↔ ∃ k d, Redundant source k d ∧
        x = { file, line := k + 1, complaint := .duplicateDirective d } := by
  rcases known_or_first (splitLines source) with hknown | ⟨before, line, rest, verb, hsplit, hbefore, hline⟩
  · rw [scan_ok hknown]
    refine ⟨fun e => ⟨fun h => (nomatch h), ?_⟩, ?_⟩
    · rintro ⟨k, verb, ⟨hcarries, hunknown, -⟩, -⟩
      obtain ⟨line, hline, -⟩ := id hcarries
      cases (hknown line (List.mem_of_getElem? hline)).symm.trans
        ((unknown?_iff hline).2 ⟨hcarries, hunknown⟩)
    · rintro s diagnostics h
      obtain ⟨rfl, rfl⟩ := Prod.mk.inj (Except.ok.inj h)
      exact ⟨fun _ => suppressed_reading file, lines_of_reading file source, fun _ => mem_reading⟩
  · have hfirst := firstUnknown_of_split hsplit hbefore hline
    rw [scan_error hsplit hbefore hline]
    refine ⟨fun e => ⟨?_, ?_⟩, fun _ _ h => (nomatch h)⟩
    · intro h
      exact ⟨before.length, verb, hfirst, (Except.error.inj h).symm⟩
    · rintro ⟨k, verb', hfirst', rfl⟩
      obtain ⟨rfl, rfl⟩ := hfirst.unique hfirst'
      rfl

def misplaced : List Char :=
  "// JSane: on\n// JSane: off\r\n// JSane: off\n// JSane: ignore\nx;\n".toList

theorem scan_exact_misplaced : ∃ s diagnostics, scan "t.js" misplaced = .ok (s, diagnostics) ∧
    s.rows = [false, false, true, true, true, true] ∧
    diagnostics.map Diagnostic.line = [1, 3, 4] ∧ Redundant misplaced 0 .on ∧
    Redundant misplaced 2 .off ∧ Redundant misplaced 3 .ignore := by
  have hscan : (scan "t.js" misplaced).toOption = some (⟨[false, false, true, true, true, true]⟩,
      [⟨"t.js", 1, .duplicateDirective .on⟩, ⟨"t.js", 3, .duplicateDirective .off⟩,
        ⟨"t.js", 4, .duplicateDirective .ignore⟩]) := by decide +kernel
  cases hrun : scan "t.js" misplaced with
  | error e =>
    rw [hrun] at hscan
    cases hscan
  | ok p =>
    obtain ⟨s, diagnostics⟩ := p
    rw [hrun] at hscan
    obtain ⟨rfl, rfl⟩ := Prod.mk.inj (Option.some.inj hscan)
    obtain ⟨-, -, hmem⟩ := (scan_exact "t.js" misplaced).2 _ _ hrun
    have hredundant : ∀ k d, ⟨"t.js", k + 1, .duplicateDirective d⟩ ∈
        [(⟨"t.js", 1, .duplicateDirective .on⟩ : Diagnostic), ⟨"t.js", 3, .duplicateDirective .off⟩,
          ⟨"t.js", 4, .duplicateDirective .ignore⟩] → Redundant misplaced k d := by
      intro k d hx
      obtain ⟨j, e, h, heq⟩ := (hmem _).1 hx
      cases heq
      exact h
    exact ⟨_, _, rfl, rfl, rfl, hredundant 0 .on (by simp), hredundant 2 .off (by simp),
      hredundant 3 .ignore (by simp)⟩

end Suppression

end CoercionTrace
