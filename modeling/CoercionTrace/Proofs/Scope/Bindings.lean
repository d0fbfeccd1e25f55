import CoercionTrace.Scope.Collect
import CoercionTrace.Proofs.Syntax.Traversal
import Mathlib.Logic.Relation

/-!
# Bindings

Which names a function binds, said without the walks that look for them. A pattern binds the names
at its leaves, and the body of a function reaches as far as the next function or class in it.
Main statement: collection finds the names that a function declares, and no other
(`mem_functionNames`).
-/

namespace CoercionTrace

namespace Kind

def isCollectedName : Kind → Bool
  | identifier | shorthandPropertyIdentifierPattern => true
  | _ => false

def isUndefined (kind : Kind) : Bool := kind == .other "undefined"

/-- The leaves of patterns that bind a name. A program may bind `undefined` like any other name. -/
def isBoundName (kind : Kind) : Bool := kind.isCollectedName || kind.isUndefined

def isClosed (kind : Kind) : Bool :=
  kind.isFunctionLike || kind == .classExpression || kind == .classDeclaration

end Kind

namespace SyntaxTree

@[mk_iff]
inductive PatternPart (t : SyntaxTree) (p q : NodeId) : Prop
  | withDefault : t.kind p = .assignmentPattern ∨ t.kind p = .other "object_assignment_pattern" →
      t.child? p "left" = some q → PatternPart t p q
  | value : t.kind p = .pairPattern → t.child? p "value" = some q → PatternPart t p q
  | element : t.kind p = .restPattern ∨ t.kind p = .objectPattern ∨ t.kind p = .arrayPattern →
      q ∈ t.significantChildren p → PatternPart t p q

def Binds (leaf : Kind → Bool) (t : SyntaxTree) (p : NodeId) (name : String) : Prop :=
  ∃ l, Relation.ReflTransGen t.PatternPart p l ∧ leaf (t.kind l) = true ∧ t.rawSource l = name

def InBody (t : SyntaxTree) (body n : NodeId) : Prop :=
  t.Below body n ∧ ∀ a, t.Below body a → t.Below a n → a ≠ n → (t.kind a).isClosed = false

@[mk_iff]
inductive BindsPattern (t : SyntaxTree) (n p : NodeId) : Prop
  | declarator : t.kind n = .variableDeclarator → t.child? n "name" = some p → BindsPattern t n p
  | caught : t.kind n = .catchClause → t.child? n "parameter" = some p → BindsPattern t n p
  | loop : t.kind n = .forInStatement → (t.node n).keyword.isSome = true →
      t.child? n "left" = some p → BindsPattern t n p

inductive Introduces (t : SyntaxTree) (f p : NodeId) : Prop
  | parameter {ps : NodeId} : t.child? f "parameters" = some ps → p ∈ t.significantChildren ps →
      Introduces t f p
  | onlyParameter : t.child? f "parameter" = some p → Introduces t f p
  | body {b n : NodeId} : t.child? f "body" = some b → t.InBody b n → t.BindsPattern n p →
      Introduces t f p

inductive Declares (leaf : Kind → Bool) (t : SyntaxTree) (f : NodeId) : String → Prop
  | own {n : NodeId} : t.kind f = .functionExpression ∨ t.kind f = .generatorFunction →
      t.child? f "name" = some n → Declares leaf t f (t.rawSource n)
  | arguments : t.kind f ≠ .arrowFunction → Declares leaf t f "arguments"
  | bound {p : NodeId} {name : String} : t.Introduces f p → Binds leaf t p name →
      Declares leaf t f name
  | declaration {b d n : NodeId} : t.child? f "body" = some b → t.InBody b d →
      (t.kind d).isDeclaration = true → t.child? d "name" = some n →
      Declares leaf t f (t.rawSource n)

variable {t : SyntaxTree} {id p q b c f n : NodeId} {name : String} {depth : Nat}

theorem PatternPart.mem (h : t.PatternPart p q) : q ∈ t.children p := by
  cases h with
  | withDefault _ hq => exact child?_mem hq
  | value _ hq => exact child?_mem hq
  | element _ hq => exact mem_of_significant hq

theorem binds_iff {leaf : Kind → Bool} : Binds leaf t p name ↔
    (leaf (t.kind p) = true ∧ t.rawSource p = name) ∨ ∃ q, t.PatternPart p q ∧ Binds leaf t q name := by
  constructor
  · rintro ⟨l, hl, hleaf, hname⟩
    rcases Relation.ReflTransGen.cases_head hl with rfl | ⟨q, hq, hl⟩
    · exact .inl ⟨hleaf, hname⟩
    · exact .inr ⟨q, hq, l, hl, hleaf, hname⟩
  · rintro (⟨hleaf, hname⟩ | ⟨q, hq, l, hl, hleaf, hname⟩)
    · exact ⟨p, .refl, hleaf, hname⟩
    · exact ⟨l, .head hq hl, hleaf, hname⟩

theorem mem_optional {x : Option NodeId} {names : NodeId → List String} :
    name ∈ (x.map names).getD [] ↔ ∃ q, x = some q ∧ name ∈ names q := by
  cases x <;> simp

theorem mem_patternNamesWithin_succ : name ∈ t.patternNamesWithin (depth + 1) p ↔
    ((t.kind p).isCollectedName = true ∧ t.rawSource p = name) ∨
      ∃ q, t.PatternPart p q ∧ name ∈ t.patternNamesWithin depth q := by
  have hleaf : (t.kind p).isCollectedName = true ↔
      t.kind p = .identifier ∨ t.kind p = .shorthandPropertyIdentifierPattern := by
    cases t.kind p <;> simp [Kind.isCollectedName]
  simp only [hleaf, patternPart_iff, patternNamesWithin]
  split <;> simp_all [mem_optional, eq_comm (a := name)]

theorem mem_patternNamesWithin (hw : t.WellFormed) (hp : p < t.size) (hd : t.size - p ≤ depth) :
    name ∈ t.patternNamesWithin depth p ↔ Binds Kind.isCollectedName t p name := by
  induction depth generalizing p with
  | zero => exact absurd (Nat.le_zero.1 hd) (Nat.sub_ne_zero_of_lt hp)
  | succ depth ih =>
    rw [mem_patternNamesWithin_succ, binds_iff]
    refine or_congr_right (exists_congr fun q => and_congr_right fun hq => ?_)
    obtain ⟨hlt, hsize, -⟩ := hw.child hq.mem
    exact ih hsize (WellFormed.sub_le_of_lt hlt hd)

theorem mem_patternNames (hw : t.WellFormed) (hp : p < t.size) :
    name ∈ t.patternNames p ↔ Binds Kind.isCollectedName t p name :=
  mem_patternNamesWithin hw hp (Nat.sub_le _ _)

theorem mem_fieldNames (hw : t.WellFormed) {field : String} : name ∈ t.fieldNames n field ↔
    ∃ p, t.child? n field = some p ∧ Binds Kind.isCollectedName t p name := by
  rw [fieldNames]
  cases hp : t.child? n field with
  | none => simp
  | some p => simpa using mem_patternNames hw (hw.child (child?_mem hp)).2.1

theorem mem_boundNames (hw : t.WellFormed) : name ∈ t.boundNames n ↔
    ∃ p, t.BindsPattern n p ∧ Binds Kind.isCollectedName t p name := by
  simp only [bindsPattern_iff, boundNames]
  split
  · simp_all [mem_fieldNames hw]
  · simp_all [mem_fieldNames hw]
  · split <;> simp_all [mem_fieldNames hw]
  · simp_all

theorem inBody_iff (hw : t.WellFormed) : t.InBody b n ↔
    n = b ∨ ((t.kind b).isClosed = false ∧ ∃ c ∈ t.children b, t.InBody c n) := by
  constructor
  · rintro ⟨hbelow, hopen⟩
    rcases hbelow.eq_or_child with rfl | ⟨c, hc, hcn⟩
    · exact .inl rfl
    · have hne : b ≠ n := Nat.ne_of_lt (Nat.lt_of_lt_of_le (hw.child hc).1 (hw.le_of_below hcn))
      refine .inr ⟨hopen b .refl hbelow hne, c, hc, hcn, fun a ha => ?_⟩
      exact hopen a ((Below.of_mem hc).trans ha)
  · rintro (rfl | ⟨hopen, c, hc, hcn, hbelow⟩)
    · exact ⟨.refl, fun a ha ha' hne => absurd (hw.below_antisymm ha' ha) hne⟩
    · refine ⟨(Below.of_mem hc).trans hcn, fun a ha han hne => ?_⟩
      rcases ha.eq_or_child with rfl | ⟨d, hd, hda⟩
      · exact hopen
      · obtain rfl := hw.child_unique hd hc (hda.trans han) hcn
        exact hbelow a hda han hne

inductive Gives (t : SyntaxTree) (n : NodeId) : String → Prop
  | declaration {c : NodeId} : (t.kind n).isDeclaration = true → t.child? n "name" = some c →
      Gives t n (t.rawSource c)
  | pattern {p : NodeId} {name : String} : t.BindsPattern n p →
      Binds Kind.isCollectedName t p name → Gives t n name

theorem mem_ownName : name ∈ t.ownName n ↔ ∃ c, t.child? n "name" = some c ∧ t.rawSource c = name := by
  simp [ownName]

theorem BindsPattern.isDeclaration (h : t.BindsPattern n p) : (t.kind n).isDeclaration = false := by
  cases h with
  | declarator hk => rw [hk]; rfl
  | caught hk => rw [hk]; rfl
  | loop hk => rw [hk]; rfl

theorem BindsPattern.isClosed (h : t.BindsPattern n p) : (t.kind n).isClosed = false := by
  cases h with
  | declarator hk => rw [hk]; rfl
  | caught hk => rw [hk]; rfl
  | loop hk => rw [hk]; rfl

theorem isClosed_of_isDeclaration {kind : Kind} (h : kind.isDeclaration = true) :
    kind.isClosed = true := by
  cases kind <;> first | rfl | cases h

theorem isClosed_of_not_isDeclaration {kind : Kind} (h : kind.isDeclaration = false) :
    kind.isClosed = (kind.isFunctionLike || kind == .classExpression) := by
  cases kind <;> first | rfl | cases h

theorem gives_iff : t.Gives n name ↔
    ((t.kind n).isDeclaration = true ∧ ∃ c, t.child? n "name" = some c ∧ t.rawSource c = name) ∨
      ∃ p, t.BindsPattern n p ∧ Binds Kind.isCollectedName t p name := by
  constructor
  · rintro (⟨hk, hc⟩ | ⟨hp, hname⟩)
    · exact .inl ⟨hk, _, hc, rfl⟩
    · exact .inr ⟨_, hp, hname⟩
  · rintro (⟨hk, c, hc, rfl⟩ | ⟨p, hp, hname⟩)
    · exact .declaration hk hc
    · exact .pattern hp hname

theorem exists_gives_iff (hw : t.WellFormed) : (∃ n, t.InBody b n ∧ t.Gives n name) ↔
    t.Gives b name ∨
      ((t.kind b).isClosed = false ∧ ∃ c ∈ t.children b, ∃ n, t.InBody c n ∧ t.Gives n name) := by
  constructor
  · rintro ⟨n, hn, hgives⟩
    rcases (inBody_iff hw).1 hn with rfl | ⟨hopen, c, hc, hn⟩
    · exact .inl hgives
    · exact .inr ⟨hopen, c, hc, n, hn, hgives⟩
  · rintro (hgives | ⟨hopen, c, hc, n, hn, hgives⟩)
    · exact ⟨b, (inBody_iff hw).2 (.inl rfl), hgives⟩
    · exact ⟨n, (inBody_iff hw).2 (.inr ⟨hopen, c, hc, hn⟩), hgives⟩

theorem mem_declaredNamesWithin (hw : t.WellFormed) (hb : b < t.size) (hd : t.size - b ≤ depth) :
    name ∈ t.declaredNamesWithin depth b ↔ ∃ n, t.InBody b n ∧ t.Gives n name := by
  induction depth generalizing b with
  | zero => exact absurd (Nat.le_zero.1 hd) (Nat.sub_ne_zero_of_lt hb)
  | succ depth ih =>
    have hchildren : (∃ c ∈ t.children b, ∃ n, t.InBody c n ∧ t.Gives n name) ↔
        ∃ c ∈ t.children b, name ∈ t.declaredNamesWithin depth c := by
      refine exists_congr fun c => and_congr_right fun hc => ?_
      obtain ⟨hlt, hsize, -⟩ := hw.child hc
      exact (ih hsize (WellFormed.sub_le_of_lt hlt hd)).symm
    have hnone : ((t.kind b).isDeclaration = true ∨ (t.kind b).isClosed = true) →
        ¬ name ∈ t.boundNames b := by
      intro hk h
      obtain ⟨p, hp, -⟩ := (mem_boundNames hw).1 h
      simp [hp.isDeclaration, hp.isClosed] at hk
    rw [exists_gives_iff hw, hchildren, gives_iff, ← mem_boundNames hw, declaredNamesWithin]
    split
    · next hk => simp [hk, isClosed_of_isDeclaration hk, hnone (.inl hk), mem_ownName]
    · next hk =>
      have hclosed := isClosed_of_not_isDeclaration (Bool.eq_false_iff.2 hk)
      split
      · next hstop =>
        rw [← hclosed] at hstop
        simp [hk, hstop, hnone (.inr hstop)]
      · next hopen =>
        rw [← hclosed, Bool.not_eq_true] at hopen
        simp [hk, hopen]

theorem mem_declaredNames (hw : t.WellFormed) (hb : b < t.size) :
    name ∈ t.declaredNames b ↔ ∃ n, t.InBody b n ∧ t.Gives n name :=
  mem_declaredNamesWithin hw hb (Nat.sub_le _ _)

theorem mem_functionNames_iff (hw : t.WellFormed) : name ∈ t.functionNames f ↔
    (((((t.kind f = .functionExpression ∨ t.kind f = .generatorFunction) ∧
      ∃ n, t.child? f "name" = some n ∧ t.rawSource n = name) ∨
      (t.kind f ≠ .arrowFunction ∧ name = "arguments")) ∨
      (∃ ps, t.child? f "parameters" = some ps ∧ ∃ p ∈ t.significantChildren ps,
        Binds Kind.isCollectedName t p name)) ∨
      (∃ p, t.child? f "parameter" = some p ∧ Binds Kind.isCollectedName t p name)) ∨
      ∃ b, t.child? f "body" = some b ∧ ∃ n, t.InBody b n ∧ t.Gives n name := by
  unfold functionNames
  simp only [List.mem_append]
  refine or_congr (or_congr (or_congr (or_congr ?own ?arguments) ?parameters) (mem_fieldNames hw)) ?body
  case own => split <;> simp_all [mem_ownName]
  case arguments => split <;> simp_all
  case parameters =>
    cases t.child? f "parameters" with
    | none => simp
    | some ps =>
      have hp : ∀ p ∈ t.significantChildren ps,
          (name ∈ t.patternNames p ↔ Binds Kind.isCollectedName t p name) := fun p hp =>
        mem_patternNames hw (hw.child (mem_of_significant hp)).2.1
      simpa using exists_congr fun p => and_congr_right (hp p)
  case body =>
    rw [mem_optional]
    refine exists_congr fun b => and_congr_right fun hb => ?_
    exact mem_declaredNames hw (hw.child (child?_mem hb)).2.1

theorem mem_functionNames (hw : t.WellFormed) :
    name ∈ t.functionNames f ↔ Declares Kind.isCollectedName t f name := by
  rw [mem_functionNames_iff hw]
  constructor
  · rintro ((((⟨hk, n, hn, rfl⟩ | ⟨hk, rfl⟩) | ⟨ps, hps, p, hp, hname⟩) | ⟨p, hp, hname⟩) |
      ⟨b, hb, n, hn, hgives⟩)
    · exact .own hk hn
    · exact .arguments hk
    · exact .bound (.parameter hps hp) hname
    · exact .bound (.onlyParameter hp) hname
    · cases hgives with
      | declaration hk hc => exact .declaration hb hn hk hc
      | pattern hp hname => exact .bound (.body hb hn hp) hname
  · rintro (⟨hk, hn⟩ | hk | ⟨hp, hname⟩ | ⟨hb, hd, hk, hn⟩)
    · exact .inl (.inl (.inl (.inl ⟨hk, _, hn, rfl⟩)))
    · exact .inl (.inl (.inl (.inr ⟨hk, rfl⟩)))
    · cases hp with
      | parameter hps hp => exact .inl (.inl (.inr ⟨_, hps, _, hp, hname⟩))
      | onlyParameter hp => exact .inl (.inr ⟨_, hp, hname⟩)
      | body hb hn hp => exact .inr ⟨_, hb, _, hn, .pattern hp hname⟩
    · exact .inr ⟨_, hb, _, hd, .declaration hk hn⟩

theorem binds_isBoundName : Binds Kind.isBoundName t p name ↔
    Binds Kind.isCollectedName t p name ∨ Binds Kind.isUndefined t p name := by
  simp only [Binds, Kind.isBoundName, Bool.or_eq_true, or_and_right, and_or_left, exists_or]

theorem declares_isBoundName : Declares Kind.isBoundName t f name ↔
    Declares Kind.isCollectedName t f name ∨ ∃ p, t.Introduces f p ∧ Binds Kind.isUndefined t p name := by
  constructor
  · rintro (⟨hk, hn⟩ | hk | ⟨hp, hname⟩ | ⟨hb, hd, hk, hn⟩)
    · exact .inl (.own hk hn)
    · exact .inl (.arguments hk)
    · exact (binds_isBoundName.1 hname).imp (.bound hp) fun h => ⟨_, hp, h⟩
    · exact .inl (.declaration hb hd hk hn)
  · rintro ((⟨hk, hn⟩ | hk | ⟨hp, hname⟩ | ⟨hb, hd, hk, hn⟩) | ⟨p, hp, hname⟩)
    · exact .own hk hn
    · exact .arguments hk
    · exact .bound hp (binds_isBoundName.2 (.inl hname))
    · exact .declaration hb hd hk hn
    · exact .bound hp (binds_isBoundName.2 (.inr hname))

end SyntaxTree

end CoercionTrace
