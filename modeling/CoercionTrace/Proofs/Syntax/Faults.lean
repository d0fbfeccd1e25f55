import CoercionTrace.Proofs.Syntax.Edits
import CoercionTrace.Proofs.Syntax.Places
import CoercionTrace.Proofs.Syntax.WellFormed
import CoercionTrace.Syntax.Render
import CoercionTrace.Syntax.Worklist
import Mathlib.Data.List.DropRight

/-!
# Syntax errors

A search that passes over subtrees by their flags meets the nodes that it does meet in pre-order, so
what it finds is the first of all. Main statement: if the flags are right, the error that is reported
tells of the first node in pre-order that is an error or missing (`parse_reports_first`).
-/

namespace CoercionTrace

section

variable {α β : Type} {visit : α → List α ⊕ β} {top : α} {stack stack' pushed : List α} {b : β}
  {result result' : Option β} {bound bound' pops : Nat}

/-- What a search finds in the upper part of a stack; if it finds nothing there, it goes on with what
lies under it. The pops are bounded only, since it may end early or pass over what is below an entry. -/
def Seeks (visit : α → List α ⊕ β) (stack : List α) (bound : Nat) (result : Option β) : Prop :=
  ∃ used ≤ bound, ∀ more rest, seek visit (used + more) (stack ++ rest) =
    match result with
    | some b => some (some b)
    | none => seek visit more rest

theorem Seeks.nil : Seeks visit [] 0 none := by
  refine ⟨0, Nat.le_refl 0, fun more rest => ?_⟩
  rw [Nat.zero_add, List.nil_append]

theorem Seeks.mono (h : Seeks visit stack bound result) (hle : bound ≤ bound') :
    Seeks visit stack bound' result := by
  obtain ⟨used, hused, h⟩ := h
  exact ⟨used, Nat.le_trans hused hle, h⟩

theorem Seeks.found (hv : visit top = .inr b) : Seeks visit [top] 1 (some b) := by
  refine ⟨1, Nat.le_refl 1, fun more rest => ?_⟩
  rw [Nat.add_comm, List.singleton_append, seek, hv]

theorem Seeks.step (hv : visit top = .inl pushed) (h : Seeks visit pushed.reverse bound result) :
    Seeks visit [top] (bound + 1) result := by
  obtain ⟨used, hused, h⟩ := h
  refine ⟨used + 1, Nat.succ_le_succ hused, fun more rest => ?_⟩
  rw [Nat.add_right_comm, List.singleton_append, seek, hv]
  exact h more rest

theorem Seeks.append (h : Seeks visit stack bound result) (h' : Seeks visit stack' bound' result') :
    Seeks visit (stack ++ stack') (bound + bound') (result.or result') := by
  obtain ⟨used, hused, h⟩ := h
  obtain ⟨used', hused', h'⟩ := h'
  refine ⟨used + used', Nat.add_le_add hused hused', fun more rest => ?_⟩
  rw [Nat.add_assoc, List.append_assoc, h]
  cases result with
  | some b => rfl
  | none => exact h' more rest

theorem Seeks.seek (h : Seeks visit stack bound result) (hpops : bound ≤ pops) :
    seek visit pops stack = some result := by
  obtain ⟨used, hused, h⟩ := h
  obtain ⟨more, rfl⟩ := Nat.exists_eq_add_of_le (Nat.le_trans hused hpops)
  rw [← List.append_nil stack, h]
  cases result with
  | some b => rfl
  | none => cases more <;> rfl

end

def Token.isFault (t : Token) : Bool := t.isError || t.isMissing

namespace Concrete

variable {c d tree : Concrete} {cs : List Concrete} {p q : Address} {k : Nat} {t : Token}

mutual

def entries (p : Address) : Concrete → List (Address × Token)
  | .node token children => (p, token) :: entriesAmong p 0 children

def entriesAmong (p : Address) (k : Nat) : List Concrete → List (Address × Token)
  | [] => []
  | c :: rest => c.entries (p ++ [k]) ++ entriesAmong p (k + 1) rest

end

mutual

theorem map_fst_entries {p : Address} :
    (c : Concrete) → (c.entries p).map Prod.fst = c.places.map (p ++ ·)
  | .node token children => by
    rw [entries, places, List.map_cons, List.map_cons, List.append_nil, map_fst_entriesAmong children]

theorem map_fst_entriesAmong {p : Address} {k : Nat} : (cs : List Concrete) →
    (entriesAmong p k cs).map Prod.fst = (placesAmong k cs).map (p ++ ·)
  | [] => rfl
  | c :: rest => by
    have hplaces : (c.places.map (k :: ·)).map (p ++ ·) = c.places.map ((p ++ [k]) ++ ·) := by
      rw [List.map_map]
      exact List.map_congr_left fun q _ => (List.append_assoc p [k] q).symm
    rw [entriesAmong, placesAmong, List.map_append, List.map_append, hplaces, map_fst_entries c,
      map_fst_entriesAmong rest]

end

mutual

theorem map_snd_entries {p : Address} : (c : Concrete) → (c.entries p).map Prod.snd = c.tokens
  | .node token children => by
    rw [entries, tokens, List.map_cons, map_snd_entriesAmong children]

theorem map_snd_entriesAmong {p : Address} {k : Nat} :
    (cs : List Concrete) → (entriesAmong p k cs).map Prod.snd = tokensAll cs
  | [] => rfl
  | c :: rest => by
    rw [entriesAmong, tokensAll, List.map_append, map_snd_entries c, map_snd_entriesAmong rest]

end

mutual

theorem at?_of_mem_entries {p q : Address} {t : Token} : (c : Concrete) → (q, t) ∈ c.entries p →
    ∃ r d, q = p ++ r ∧ c.at? r = some d ∧ d.token = t
  | .node token children => by
    intro h
    rw [entries] at h
    rcases List.mem_cons.1 h with heq | h
    · obtain ⟨rfl, rfl⟩ := Prod.mk.inj heq
      exact ⟨[], .node t children, (List.append_nil q).symm, rfl, rfl⟩
    · obtain ⟨j, c, r, d, hc, hd, rfl, ht⟩ := at?_of_mem_entriesAmong children h
      refine ⟨j :: r, d, by rw [Nat.zero_add], ?_, ht⟩
      rw [at?, Concrete.children, hc]
      exact hd

theorem at?_of_mem_entriesAmong {p q : Address} {t : Token} {k : Nat} : (cs : List Concrete) →
    (q, t) ∈ entriesAmong p k cs → ∃ j c r d, cs[j]? = some c ∧ c.at? r = some d ∧
      q = p ++ (k + j) :: r ∧ d.token = t
  | [] => fun h => by cases h
  | c :: rest => by
    intro h
    rw [entriesAmong] at h
    rcases List.mem_append.1 h with h | h
    · obtain ⟨r, d, rfl, hd, ht⟩ := at?_of_mem_entries c h
      exact ⟨0, c, r, d, rfl, hd, List.append_assoc p [k] r, ht⟩
    · obtain ⟨j, c, r, d, hc, hd, rfl, ht⟩ := at?_of_mem_entriesAmong rest h
      exact ⟨j + 1, c, r, d, hc, hd, by rw [Nat.add_right_comm, Nat.add_assoc], ht⟩

end

theorem entries_pairwise : ((c.entries []).map Prod.fst).Pairwise (· < ·) := by
  rw [map_fst_entries]
  simpa using places_pairwise c

theorem mem_entries_of_at? (h : c.at? q = some d) : (p ++ q, d.token) ∈ c.entries p := by
  have hplace : p ++ q ∈ (c.entries p).map Prod.fst := by
    rw [map_fst_entries]
    exact List.mem_map_of_mem ((mem_places c).2 (h ▸ rfl))
  obtain ⟨⟨place, t⟩, hmem, rfl⟩ := List.mem_map.1 hplace
  obtain ⟨r, d', hr, hd', rfl⟩ := at?_of_mem_entries c hmem
  obtain rfl := List.append_cancel_left hr
  obtain rfl := Option.some.inj (h.symm.trans hd')
  exact hmem

theorem mem_tokens : t ∈ c.tokens ↔ ∃ q d, c.at? q = some d ∧ d.token = t := by
  rw [← map_snd_entries (p := [])]
  constructor
  · intro h
    obtain ⟨⟨q, t⟩, hmem, rfl⟩ := List.mem_map.1 h
    obtain ⟨r, d, -, hd, ht⟩ := at?_of_mem_entries c hmem
    exact ⟨r, d, hd, ht⟩
  · rintro ⟨q, d, hd, rfl⟩
    exact List.mem_map.2 ⟨_, mem_entries_of_at? hd, rfl⟩

/-- The flag of each node tells whether an error or a missing node is at or below it. Those nodes
themselves need not have it: an error that is a single token does not. -/
def Flagged (tree : Concrete) : Prop :=
  ∀ p c, tree.at? p = some c → c.token.isFault = false →
    (c.token.hasError = true ↔ ∃ q d, c.at? q = some d ∧ d.token.isFault = true)

theorem any_isFault :
    c.tokens.any Token.isFault = true ↔ ∃ q d, c.at? q = some d ∧ d.token.isFault = true := by
  simp only [List.any_eq_true, mem_tokens]
  constructor
  · rintro ⟨t, ⟨q, d, hd, rfl⟩, hfault⟩
    exact ⟨q, d, hd, hfault⟩
  · rintro ⟨q, d, hd, hfault⟩
    exact ⟨d.token, ⟨q, d, hd, rfl⟩, hfault⟩

theorem flagged_iff : tree.Flagged ↔ ∀ p ∈ tree.places, (tree.at? p).all fun c =>
    c.token.isFault || c.token.hasError == c.tokens.any Token.isFault := by
  constructor
  · intro h p _
    rw [Option.all_eq_true]
    intro c hc
    cases hfault : c.token.isFault with
    | true => rfl
    | false => exact beq_iff_eq.2 (Bool.eq_iff_iff.2 ((h p c hc hfault).trans any_isFault.symm))
  · intro h p c hc hfault
    have hflag := Option.all_eq_true _ _ |>.1 (h p ((mem_places tree).2 (hc ▸ rfl))) c hc
    rw [hfault, Bool.false_or, beq_iff_eq] at hflag
    rw [hflag, any_isFault]

instance (c : Concrete) : Decidable c.Flagged := decidable_of_iff _ flagged_iff.symm

theorem Flagged.child (h : c.Flagged) (hd : d ∈ c.children) : d.Flagged := by
  obtain ⟨k, hk⟩ := List.mem_iff_getElem?.1 hd
  intro p e he
  refine h (k :: p) e ?_
  rw [at?, hk]
  exact he

theorem Flagged.clear (h : c.Flagged) (hsound : c.token.isFault = false)
    (herror : ¬ c.token.hasError = true) : ∀ t ∈ c.tokens, ¬ t.isFault = true := by
  intro t ht hfault
  obtain ⟨q, d, hd, rfl⟩ := mem_tokens.1 ht
  exact herror ((h [] c rfl hsound).2 ⟨q, d, hd, hfault⟩)

mutual

theorem firstFault?_eq : (c : Concrete) → c.Flagged → c.firstFault? = c.tokens.find? Token.isFault
  | .node token children => by
    intro h
    rw [firstFault?]
    split
    · next h =>
      have hfault : token.isFault = true := h
      rw [tokens, List.find?_cons_of_pos hfault]
    · next hnone =>
      have hsound : ¬ token.isFault = true := hnone
      split
      · rw [tokens, List.find?_cons_of_neg hsound]
        exact firstFaultAmong?_eq children fun d hd => h.child hd
      · next herror =>
        exact (List.find?_eq_none.2 (h.clear (Bool.eq_false_iff.2 hsound) herror)).symm

theorem firstFaultAmong?_eq : (cs : List Concrete) → (∀ c ∈ cs, c.Flagged) →
    firstFaultAmong? cs = (tokensAll cs).find? Token.isFault
  | [] => fun _ => rfl
  | c :: rest => by
    intro h
    rw [firstFaultAmong?, tokensAll, List.find?_append, firstFault?_eq c (h c List.mem_cons_self),
      firstFaultAmong?_eq rest fun d hd => h d (List.mem_cons_of_mem _ hd)]
    cases c.tokens.find? Token.isFault <;> rfl

end

def faulty (e : Address × Token) : Bool := e.2.isFault

def placed (p : Address) (k : Nat) (cs : List Concrete) : List (Address × Concrete) :=
  (cs.zipIdx k).map fun (c, j) => (p ++ [j], c)

def faultVisit : Address × Concrete → List (Address × Concrete) ⊕ (Address × Token)
  | (p, .node token children) =>
    if token.isError || token.isMissing then .inr (p, token)
    else if token.hasError then .inl (placed p 0 children).reverse
    else .inl []

def faultLoop (tree : Concrete) (pops : Nat) : Option (Option (Address × Token)) :=
  seek faultVisit pops [([], tree)]

mutual

theorem seeks_entries {p : Address} : (c : Concrete) → c.Flagged →
    Seeks faultVisit [(p, c)] (c.entries p).length ((c.entries p).find? faulty)
  | .node token children => by
    intro h
    have hbound : 1 ≤ (entries p (.node token children)).length := Nat.le_add_left 1 _
    by_cases hfault : token.isFault = true
    · have hvisit : faultVisit (p, .node token children) = .inr (p, token) := if_pos hfault
      have hfaulty : faulty (p, token) = true := hfault
      rw [entries, List.find?_cons_of_pos hfaulty]
      exact (Seeks.found hvisit).mono hbound
    · by_cases herror : token.hasError = true
      · have hvisit : faultVisit (p, .node token children) = .inl (placed p 0 children).reverse :=
          (if_neg hfault).trans (if_pos herror)
        have hbelow := seeks_entriesAmong (p := p) (k := 0) children fun d hd => h.child hd
        have hfaulty : ¬ faulty (p, token) = true := hfault
        rw [entries, List.find?_cons_of_neg hfaulty]
        refine .step hvisit ?_
        rwa [List.reverse_reverse]
      · have hvisit : faultVisit (p, .node token children) = .inl [] :=
          (if_neg hfault).trans (if_neg herror)
        have hnone : (entries p (.node token children)).find? faulty = none := by
          refine List.find?_eq_none.2 fun e he => h.clear (Bool.eq_false_iff.2 hfault) herror e.2 ?_
          rw [← map_snd_entries (p := p)]
          exact List.mem_map_of_mem he
        rw [hnone]
        exact (Seeks.step hvisit .nil).mono hbound

theorem seeks_entriesAmong {p : Address} {k : Nat} : (cs : List Concrete) → (∀ c ∈ cs, c.Flagged) →
    Seeks faultVisit (placed p k cs) (entriesAmong p k cs).length
      ((entriesAmong p k cs).find? faulty)
  | [] => fun _ => .nil
  | c :: rest => by
    intro h
    have hfirst := seeks_entries (p := p ++ [k]) c (h c List.mem_cons_self)
    have hrest := seeks_entriesAmong (p := p) (k := k + 1) rest fun d hd =>
      h d (List.mem_cons_of_mem _ hd)
    rw [entriesAmong, List.find?_append, List.length_append]
    exact hfirst.append hrest

end

structure FirstFault (tree : Concrete) (p : Address) (t : Token) : Prop where
  place : ∃ c, tree.at? p = some c ∧ c.token = t
  fault : t.isFault = true
  first : ∀ q < p, ∀ d, tree.at? q = some d → d.token.isFault = false

theorem mem_ahead_of_lt {ahead behind : List (Address × Token)} {e e' : Address × Token}
    (h : ((ahead ++ e :: behind).map Prod.fst).Pairwise (· < ·)) (he : e' ∈ ahead ++ e :: behind)
    (hlt : e'.1 < e.1) : e' ∈ ahead := by
  rw [List.map_append, List.map_cons] at h
  have hbehind := (List.pairwise_cons.1 (List.pairwise_append.1 h).2.1).1
  rcases List.mem_append.1 he with he | he
  · exact he
  · rcases List.mem_cons.1 he with rfl | he
    · exact absurd hlt (List.lt_irrefl _)
    · exact absurd hlt (List.lt_asymm (hbehind _ (List.mem_map_of_mem he)))

theorem firstFault_of_find? (h : (tree.entries []).find? faulty = some (p, t)) :
    tree.FirstFault p t := by
  obtain ⟨hfault, ahead, behind, hsplit, hahead⟩ := List.find?_eq_some_iff_append.1 h
  obtain ⟨r, c, rfl, hc, ht⟩ := at?_of_mem_entries tree (List.mem_of_find?_eq_some h)
  refine ⟨⟨c, hc, ht⟩, hfault, fun q hlt d hd => ?_⟩
  have hentry : (q, d.token) ∈ tree.entries [] := mem_entries_of_at? (p := []) hd
  have hordered := entries_pairwise (c := tree)
  rw [hsplit] at hentry hordered
  simpa [faulty] using hahead _ (mem_ahead_of_lt hordered hentry hlt)

theorem exists_find?_entries (h : tree.Flagged) (hroot : tree.token.hasError = true) :
    ∃ e, (tree.entries []).find? faulty = some e := by
  have hexists : ∃ q d, tree.at? q = some d ∧ d.token.isFault = true := by
    cases hfault : tree.token.isFault with
    | true => exact ⟨[], tree, rfl, hfault⟩
    | false => exact (h [] tree rfl hfault).1 hroot
  obtain ⟨q, d, hd, hfault⟩ := hexists
  exact Option.isSome_iff_exists.1 (List.find?_isSome.2 ⟨_, mem_entries_of_at? hd, hfault⟩)

end Concrete

def textAhead (source : List Char) (offset : Nat) : List Char := sliceFrom 0 offset 0 source

def lastLine (text : List Char) : List Char := text.rtakeWhile (· ≠ '\n')

namespace SyntaxTree

theorem textAhead_append (before rest : List Char) :
    textAhead (before ++ rest) (byteLength before) = before := by
  have key : ∀ at_, sliceFrom 0 (at_ + byteLength before) at_ (before ++ rest) = before := by
    induction before with
    | nil => exact fun at_ => sliceFrom_eq_nil (Nat.zero_le _) (Nat.le_refl at_) rest
    | cons c before ih =>
      intro at_
      have hlt : at_ < at_ + (c.utf8Size + byteLength before) :=
        Nat.lt_add_of_pos_right (Nat.add_pos_left c.utf8Size_pos _)
      rw [List.cons_append, byteLength, sliceFrom, if_neg (Nat.not_lt_zero at_), if_pos hlt,
        ← Nat.add_assoc, ih]
  rw [textAhead, ← Nat.zero_add (byteLength before)]
  exact key 0

theorem byteLength_append (xs ys : List Char) :
    byteLength (xs ++ ys) = byteLength xs + byteLength ys := by
  induction xs with
  | nil => exact (Nat.zero_add _).symm
  | cons x xs ih => rw [List.cons_append, byteLength, byteLength, ih, Nat.add_assoc]

theorem positionFrom_eq (offset : Nat) (rest before : List Char) (at_ : Nat) :
    positionFrom offset rest at_ (before.count '\n') (byteLength (lastLine before)) =
      ((before ++ sliceFrom 0 offset at_ rest).count '\n',
        byteLength (lastLine (before ++ sliceFrom 0 offset at_ rest))) := by
  induction rest generalizing before at_ with
  | nil => rw [positionFrom, sliceFrom, List.append_nil]
  | cons c rest ih =>
    rw [positionFrom, sliceFrom, if_neg (Nat.not_lt_zero at_)]
    by_cases hat : offset ≤ at_
    · rw [if_pos hat, if_neg (Nat.not_lt_of_le hat), List.append_nil]
    · have hih := ih (before ++ [c]) (at_ + c.utf8Size)
      rw [List.append_assoc, List.singleton_append, List.count_append, List.count_singleton] at hih
      rw [if_neg hat, if_pos (Nat.lt_of_not_le hat), ← hih]
      split
      · next hc =>
        have hline : lastLine (before ++ [c]) = [] := List.rtakeWhile_concat_neg _ _ _ (by simp [hc])
        rw [hline, if_pos (beq_iff_eq.2 hc), byteLength]
      · next hc =>
        have hline : lastLine (before ++ [c]) = lastLine before ++ [c] :=
          List.rtakeWhile_concat_pos _ _ _ (by simpa using hc)
        rw [hline, if_neg (mt beq_iff_eq.1 hc), byteLength_append, byteLength, byteLength]
        rfl

theorem position_eq (source : List Char) (offset : Nat) : position source offset =
    ((textAhead source offset).count '\n', byteLength (lastLine (textAhead source offset))) :=
  positionFrom_eq offset source [] 0

/-- What is said of a fault: the row and the byte column at which it begins, counted from one, and the
message for its kind. -/
structure Tells (source : List Char) (t : Token) (line column : Nat) (fault : SyntaxFault) : Prop where
  line : line = (textAhead source t.start).count '\n' + 1
  column : column = byteLength (lastLine (textAhead source t.start)) + 1
  /-- If the fault begins between two characters, the text is split there. -/
  ahead : ∀ before rest, source = before ++ rest → byteLength before = t.start →
    textAhead source t.start = before
  missing : t.isMissing = true → fault.message = "missing '" ++ t.kind ++ "'"
  unexpected : t.isMissing = false → fault.message = "unexpected token"
  located : fault ≠ .unlocated

theorem error_tells (file : String) (source : List Char) {tree : Concrete} {t : Token}
    (h : tree.firstFault? = some t) :
    ∃ line column fault, tree.error file source = .parse file line column fault ∧
      Tells source t line column fault := by
  refine ⟨(textAhead source t.start).count '\n' + 1,
    byteLength (lastLine (textAhead source t.start)) + 1,
    if t.isMissing then .missing t.kind else .unexpected, ?_, ?_⟩
  · have hposition : tree.error file source =
        .parse file ((position source t.start).1 + 1) ((position source t.start).2 + 1)
          (if t.isMissing then .missing t.kind else .unexpected) := by
      rw [Concrete.error, h]
    rw [hposition, position_eq]
  · exact {
      line := rfl
      column := rfl
      ahead := fun before rest hsource hstart => by rw [hsource, ← hstart, textAhead_append]
      missing := fun hmissing => by rw [if_pos hmissing]; rfl
      unexpected := fun hmissing => by rw [hmissing]; rfl
      located := by split <;> nofun }

end SyntaxTree

open Concrete SyntaxTree

/-- If the flags are right, the search ends at the first fault, and that is what is reported. -/
theorem parse_reports_first {tree : Concrete} (h : tree.Flagged) (hroot : tree.token.hasError = true)
    (file : String) (source : List Char) :
    ∃ p t, tree.FirstFault p t ∧ tree.tokens.find? Token.isFault = some t ∧
      tree.firstFault? = some t ∧
      (∀ pops, tree.tokens.length ≤ pops → tree.faultLoop pops = some (some (p, t))) ∧
      ∃ line column fault, parse file source tree = .error (.parse file line column fault) ∧
        Tells source t line column fault := by
  obtain ⟨⟨p, t⟩, hfind⟩ := exists_find?_entries h hroot
  have htokens : tree.tokens.find? Token.isFault = some t := by
    rw [← map_snd_entries (p := []), List.find?_map]
    exact congrArg (Option.map Prod.snd) hfind
  have hfirst : tree.firstFault? = some t := (firstFault?_eq tree h).trans htokens
  obtain ⟨line, column, fault, herror, htells⟩ := error_tells file source hfirst
  refine ⟨p, t, firstFault_of_find? hfind, htokens, hfirst, fun pops hpops => ?_, line, column, fault,
    ?_, htells⟩
  · rw [← map_snd_entries (p := []), List.length_map] at hpops
    rw [← hfind]
    exact (seeks_entries tree h).seek hpops
  · rw [parse, if_pos hroot, herror]

namespace Concrete

def unsound (kind : String) (start stop : Nat) (children : List Concrete) : Concrete :=
  .node { kind, start, stop, named := true, isError := kind == "ERROR", isMissing := false,
          hasError := true, field := none } children

def missing (kind : String) (place : Nat) : Concrete :=
  .node { kind, start := place, stop := place, named := false, isError := false, isMissing := true,
          hasError := true, field := none } []

end Concrete

/-- The text `case 1:` read as a label, with a number too many in it and no statement behind it. -/
def labelWithNumber : Concrete :=
  .unsound "program" 0 7 [
    .unsound "labeled_statement" 0 7 [
      .named "statement_identifier" 0 4 (some "label") [],
      .unsound "ERROR" 5 6 [.named "number" 5 6 none []],
      .mark ":" 6 7 none,
      .unsound "empty_statement" 7 7 [.missing ";" 7]]]

theorem parse_reports_first_labelWithNumber :
    labelWithNumber.Flagged ∧ labelWithNumber.token.hasError = true ∧
    (labelWithNumber.tokens.filter Token.isFault).map (·.kind) = ["ERROR", ";"] ∧
    ∃ t fault, labelWithNumber.FirstFault [0, 1] t ∧
      labelWithNumber.faultLoop 8 = some (some ([0, 1], t)) ∧
      parse "t.js" "case 1:".toList labelWithNumber = .error (.parse "t.js" 1 6 fault) ∧
      fault.message = "unexpected token" := by
  have h : labelWithNumber.Flagged := by decide +kernel
  have hroot : labelWithNumber.token.hasError = true := rfl
  obtain ⟨p, t, hfirst, htokens, -, hloop, line, column, fault, hparse, htells⟩ :=
    parse_reports_first h hroot "t.js" "case 1:".toList
  have hend := hloop 8 (by decide +kernel)
  have hplace : labelWithNumber.faultLoop 8 =
      some (some ([0, 1], (labelWithNumber.at? [0, 1]).elim default Concrete.token)) := by decide +kernel
  obtain ⟨rfl, rfl⟩ := Prod.mk.inj (Option.some.inj (Option.some.inj (hend.symm.trans hplace)))
  obtain rfl : line = 1 := htells.line.trans (by decide +kernel)
  obtain rfl : column = 6 := htells.column.trans (by decide +kernel)
  exact ⟨h, hroot, by decide +kernel, _, fault, hfirst, hend, hparse, htells.unexpected (by decide +kernel)⟩

end CoercionTrace
