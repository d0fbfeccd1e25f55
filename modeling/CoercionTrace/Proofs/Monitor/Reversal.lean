import Mathlib.Data.List.Induction
import Mathlib.Logic.Basic
import CoercionTrace.Proofs.Monitor.Masks

/-!
# Masks that are taken off in any order

Monitors come and go on a realm. Each puts a mask on it, and restores the reflection that it found
when it is torn down or when nobody holds it any more. Main statement: marks are hidden just as long
as some monitor is in use, and no longer, if and only if each monitor leaves the realm as it found
it: in use by others or not (`masks_reversible_iff`).
-/

namespace CoercionTrace

variable {σ : Type} {m m' : MonitorId} {r : RealmId}

namespace World

variable {w w' u : World σ}

structure LiveOn (r : RealmId) (m : MonitorId) (w : World σ) : Prop where
  present : m < w.monitors.size
  realm : (w.monitor m).mask.realm = r
  working : (w.monitor m).tornDown = false
  held : (w.monitor m).holders ≠ 0

def Watched (r : RealmId) (w : World σ) : Prop := ∃ m, w.LiveOn r m

structure SparesMasks (w w' : World σ) : Prop extends KeepsMasks w w' where
  held : ∀ m, (w'.monitor m).holders = 0 ↔ (w.monitor m).holders = 0

structure Ends (m : MonitorId) (w w' : World σ) : Prop extends TakesOff m w w' where
  ended : ∀ r, ¬ w'.LiveOn r m

theorem SparesMasks.liveOn_iff (h : SparesMasks w w') : w'.LiveOn r m ↔ w.LiveOn r m := by
  constructor
  · rintro ⟨hpresent, hrealm, hworking, hheld⟩
    exact ⟨h.size ▸ hpresent, h.mask m ▸ hrealm, h.tornDown m ▸ hworking, (h.held m).not.1 hheld⟩
  · rintro ⟨hpresent, hrealm, hworking, hheld⟩
    exact ⟨h.size.symm ▸ hpresent, (h.mask m).symm ▸ hrealm, (h.tornDown m).symm ▸ hworking,
      (h.held m).not.2 hheld⟩

theorem Ends.liveOn_iff (h : Ends m w w') : w'.LiveOn r m' ↔ w.LiveOn r m' ∧ m' ≠ m := by
  by_cases hm : m' = m
  · subst hm
    exact ⟨fun h' => absurd h' (h.ended r), fun h' => absurd rfl h'.2⟩
  · have hmonitor := h.others m' hm
    constructor
    · rintro ⟨hpresent, hrealm, hworking, hheld⟩
      exact ⟨⟨h.size ▸ hpresent, hmonitor ▸ hrealm, hmonitor ▸ hworking, hmonitor ▸ hheld⟩, hm⟩
    · rintro ⟨⟨hpresent, hrealm, hworking, hheld⟩, -⟩
      exact ⟨h.size.symm ▸ hpresent, hmonitor.symm ▸ hrealm, hmonitor.symm ▸ hworking,
        hmonitor.symm ▸ hheld⟩

theorem liveOn_newMonitor_iff {r' : RealmId} {checks : CheckConfig} :
    (w.newMonitor r' checks).2.LiveOn r m ↔ w.LiveOn r m ∨ m = w.monitors.size ∧ r' = r := by
  by_cases hm : m = w.monitors.size
  · have hself := monitor_newMonitor w r' checks m
    rw [if_pos hm] at hself
    constructor
    · rintro ⟨-, hrealm, -, -⟩
      rw [hself] at hrealm
      exact .inr ⟨hm, hrealm⟩
    · rintro (⟨hpresent, -, -, -⟩ | ⟨-, rfl⟩)
      · exact absurd hm (Nat.ne_of_lt hpresent)
      · refine ⟨?_, ?_, ?_, ?_⟩
        · rw [size_newMonitor, hm]
          exact Nat.lt_succ_self _
        all_goals rw [hself]
        exact Nat.one_ne_zero
  · have hother := monitor_newMonitor w r' checks m
    rw [if_neg hm] at hother
    constructor
    · rintro ⟨hpresent, hrealm, hworking, hheld⟩
      rw [size_newMonitor] at hpresent
      exact .inl ⟨Nat.lt_of_le_of_ne (Nat.le_of_lt_succ hpresent) hm, hother ▸ hrealm,
        hother ▸ hworking, hother ▸ hheld⟩
    · rintro (⟨hpresent, hrealm, hworking, hheld⟩ | ⟨hsize, -⟩)
      · refine ⟨?_, hother.symm ▸ hrealm, hother.symm ▸ hworking, hother.symm ▸ hheld⟩
        rw [size_newMonitor]
        exact Nat.lt_succ_of_lt hpresent
      · exact absurd hsize hm

end World

inductive Turn (σ : Type)
  | make (r : RealmId) (checks : CheckConfig)
  | tearDown (m : MonitorId)
  | hold (m : MonitorId)
  | release (m : MonitorId)
  | other (f : World σ → World σ) (spares : ∀ w, World.SparesMasks w (f w))

namespace World

variable {w w' u : World σ} {turn : Turn σ} {turns : List (Turn σ)}

def perform (w : World σ) : Turn σ → World σ
  | .make r checks => (w.newMonitor r checks).2
  | .tearDown m => w.teardown m
  | .hold m => if (w.monitor m).holders = 0 then w else w.hold m
  | .release m => w.release m
  | .other f _ => f w

def after (w : World σ) (turns : List (Turn σ)) : World σ := turns.foldl perform w

theorem after_append (w : World σ) (turns turns' : List (Turn σ)) :
    w.after (turns ++ turns') = (w.after turns).after turns' := List.foldl_append

theorem after_concat (w : World σ) (turns : List (Turn σ)) (turn : Turn σ) :
    w.after (turns ++ [turn]) = (w.after turns).perform turn := after_append ..

theorem sparesMasks_hold (h : (w.monitor m).holders ≠ 0) : SparesMasks w (w.hold m) where
  toKeepsMasks := keepsMasks_hold w m
  held m' := by
    by_cases hm : m' = m
    · subst hm
      rw [hold, monitor_onMonitor]
      split <;> simp [h]
    · rw [hold, monitor_onMonitor_ne hm]

theorem ends_teardown (h : (w.monitor m).tornDown = false) : Ends m w (w.teardown m) where
  toTakesOff := takesOff_teardown h
  ended r hlive := by
    have hm : m < w.monitors.size := (takesOff_teardown h).size ▸ hlive.present
    have hworking := hlive.working
    rw [monitor_teardown h hm] at hworking
    cases hworking

theorem perform_cases (w : World σ) (turn : Turn σ) :
    (∃ r checks, turn = .make r checks) ∨ (∃ m, Ends m w (w.perform turn)) ∨
      SparesMasks w (w.perform turn) := by
  have hrefl : SparesMasks w w := ⟨refl_of KeepsMasks w, fun _ => Iff.rfl⟩
  cases turn with
  | make r checks => exact .inl ⟨r, checks, rfl⟩
  | tearDown m =>
    cases h : (w.monitor m).tornDown with
    | true =>
      rw [perform, teardown_of_tornDown h]
      exact .inr (.inr hrefl)
    | false => exact .inr (.inl ⟨m, ends_teardown h⟩)
  | hold m =>
    rw [perform]
    split
    · exact .inr (.inr hrefl)
    · next h => exact .inr (.inr (sparesMasks_hold h))
  | release m =>
    rcases release_cases w m with ⟨hheld, hrelease⟩ | ⟨hself, hoff⟩
    · refine .inr (.inr ?_)
      rw [perform, hrelease]
      refine ⟨keepsMasks_onMonitor rfl rfl, fun m' => ?_⟩
      by_cases hm : m' = m
      · subst hm
        refine iff_of_false hheld fun hnone => hheld ?_
        rw [monitor_onMonitor]
        split
        · exact Nat.sub_eq_zero_of_le (hnone ▸ Nat.zero_le _)
        · exact hnone
      · rw [monitor_onMonitor_ne hm]
    · refine .inr (.inl ⟨m, hoff, fun r hlive => hlive.held ?_⟩)
      rw [perform, hself]
  | other f spares => exact .inr (.inr (spares w))

theorem LiveOn.of_perform (h : (w.perform turn).LiveOn r m) (hm : m < w.monitors.size) :
    w.LiveOn r m ∧ ((w.perform turn).monitor m).mask = (w.monitor m).mask := by
  rcases perform_cases w turn with ⟨r', checks, rfl⟩ | ⟨m', hends⟩ | hspares
  · refine ⟨(liveOn_newMonitor_iff.1 h).resolve_right fun hnew => ?_, ?_⟩
    · exact Nat.ne_of_lt hm hnew.1
    · rw [perform, monitor_newMonitor, if_neg (Nat.ne_of_lt hm)]
  · obtain ⟨hlive, hne⟩ := hends.liveOn_iff.1 h
    exact ⟨hlive, by rw [hends.others m hne]⟩
  · exact ⟨hspares.liveOn_iff.1 h, hspares.mask m⟩

theorem LiveOn.made (h : (w.perform turn).LiveOn r m) (hm : ¬ m < w.monitors.size) :
    m = w.monitors.size ∧ ∃ checks, turn = .make r checks := by
  rcases perform_cases w turn with ⟨r', checks, rfl⟩ | ⟨m', hends⟩ | hspares
  · obtain hlive | ⟨hsize, rfl⟩ := liveOn_newMonitor_iff.1 h
    · exact absurd hlive.present hm
    · exact ⟨hsize, checks, rfl⟩
  · exact absurd (hends.liveOn_iff.1 h).1.present hm
  · exact absurd (hspares.liveOn_iff.1 h).present hm

theorem not_liveOn (hw : w.monitors = #[]) : ¬ w.LiveOn r m := by
  rintro ⟨hpresent, -, -, -⟩
  rw [hw] at hpresent
  exact Nat.not_lt_zero m hpresent

theorem LiveOn.exists_made (hw : w.monitors = #[]) (h : (w.after turns).LiveOn r m) :
    ∃ before checks between, turns = before ++ .make r checks :: between ∧
      m = (w.after before).monitors.size := by
  induction turns using List.reverseRecOn with
  | nil => exact (not_liveOn hw h).elim
  | append_singleton turns turn ih =>
    rw [after_concat] at h
    by_cases hm : m < (w.after turns).monitors.size
    · obtain ⟨before, checks, between, rfl, hsize⟩ := ih (h.of_perform hm).1
      exact ⟨before, checks, between ++ [turn], by simp, hsize⟩
    · obtain ⟨hsize, checks, rfl⟩ := h.made hm
      exact ⟨turns, checks, [], rfl, hsize⟩

theorem size_le_perform (w : World σ) (turn : Turn σ) :
    w.monitors.size ≤ (w.perform turn).monitors.size := by
  rcases perform_cases w turn with ⟨r', checks, rfl⟩ | ⟨m', hends⟩ | hspares
  · rw [perform, size_newMonitor]
    exact Nat.le_succ _
  · exact Nat.le_of_eq hends.size.symm
  · exact Nat.le_of_eq hspares.size.symm

theorem size_le_after (w : World σ) (turns : List (Turn σ)) :
    w.monitors.size ≤ (w.after turns).monitors.size := by
  induction turns using List.reverseRecOn with
  | nil => exact Nat.le_refl _
  | append_singleton turns turn ih =>
    rw [after_concat]
    exact Nat.le_trans ih (size_le_perform _ turn)

theorem LiveOn.saved {checks : CheckConfig}
    (h : ((w.newMonitor r checks).2.after turns).LiveOn r w.monitors.size) :
    (((w.newMonitor r checks).2.after turns).monitor w.monitors.size).mask =
      ⟨r, some (w.reflection r)⟩ := by
  induction turns using List.reverseRecOn with
  | nil => rw [after, List.foldl_nil, monitor_newMonitor, if_pos rfl]
  | append_singleton turns turn ih =>
    have hsize : w.monitors.size < ((w.newMonitor r checks).2.after turns).monitors.size :=
      Nat.lt_of_lt_of_le (by rw [size_newMonitor]; exact Nat.lt_succ_self _) (size_le_after _ turns)
    rw [after_concat] at h ⊢
    obtain ⟨hlive, hmask⟩ := h.of_perform hsize
    rw [hmask, ih hlive]

theorem size_realms_after (w : World σ) (turns : List (Turn σ)) :
    (w.after turns).realms.size = w.realms.size := by
  induction turns using List.reverseRecOn with
  | nil => rfl
  | append_singleton turns turn ih =>
    rw [after_concat, ← ih]
    rcases perform_cases (w.after turns) turn with ⟨r', checks, rfl⟩ | ⟨m', hends⟩ | hspares
    · exact size_realms_newMonitor _ r' checks
    · exact hends.realms
    · exact hspares.realms

theorem liveOn_of_saved (hw : w.monitors = #[])
    (h : ((w.after turns).monitor m).mask.saved ≠ none) :
    (w.after turns).LiveOn ((w.after turns).monitor m).mask.realm m := by
  induction turns using List.reverseRecOn with
  | nil =>
    have hdefault : w.monitor m = default := monitor_of_absent (by simp [hw])
    rw [after, List.foldl_nil, hdefault] at h
    exact absurd rfl h
  | append_singleton turns turn ih =>
    rw [after_concat] at h ⊢
    rcases perform_cases (w.after turns) turn with ⟨r', checks, rfl⟩ | ⟨m', hends⟩ | hspares
    · rw [perform] at h ⊢
      rw [monitor_newMonitor] at h ⊢
      rw [liveOn_newMonitor_iff]
      split at h
      · next hm =>
        rw [if_pos hm]
        exact .inr ⟨hm, rfl⟩
      · next hm =>
        rw [if_neg hm]
        exact .inl (ih h)
    · by_cases hm : m = m'
      · subst hm
        rw [hends.mask] at h
        exact absurd rfl h
      · rw [hends.others m hm] at h ⊢
        exact hends.liveOn_iff.2 ⟨ih h, hm⟩
    · rw [hspares.mask] at h ⊢
      exact hspares.liveOn_iff.2 (ih h)

theorem LiveOn.restored {R : Reflection} (h : w.LiveOn r m) (hr : r < w.realms.size)
    (hmask : (w.monitor m).mask = ⟨r, some R⟩) (hended : ¬ (w.perform turn).LiveOn r m) :
    (w.perform turn).reflection r = R := by
  rcases perform_cases w turn with ⟨r', checks, rfl⟩ | ⟨m', hends⟩ | hspares
  · exact absurd (liveOn_newMonitor_iff.2 (.inl h)) hended
  · by_cases hm : m = m'
    · subst hm
      rw [hends.of_saved (congrArg Mask.saved hmask), hmask, if_pos ⟨rfl, hr⟩]
    · exact absurd (hends.liveOn_iff.2 ⟨h, hm⟩) hended
  · exact absurd (hspares.liveOn_iff.2 h) hended

theorem reflection_cases (hw : w.monitors = #[]) (hr : r < w.realms.size) (turns : List (Turn σ))
    (turn : Turn σ) :
    let u := w.after turns
    let u' := u.perform turn
    (u'.Watched r ∧ u'.reflection r = .masked (u.reflection r)) ∨
      (∃ before checks between, turns = before ++ .make r checks :: between ∧
        u.LiveOn r (w.after before).monitors.size ∧
        ¬ u'.LiveOn r (w.after before).monitors.size ∧
        u'.reflection r = (w.after before).reflection r) ∨
      (u'.Watched r ↔ u.Watched r) ∧ u'.reflection r = u.reflection r := by
  intro u u'
  have hr' : r < u.realms.size := (size_realms_after w turns).symm ▸ hr
  rcases perform_cases u turn with ⟨r', checks, rfl⟩ | ⟨m, hends⟩ | hspares
  · have hreflection : u'.reflection r = _ := reflection_newMonitor u r' checks r
    by_cases hrealm : r = r'
    · subst hrealm
      rw [if_pos ⟨rfl, hr'⟩] at hreflection
      exact .inl ⟨⟨u.monitors.size, liveOn_newMonitor_iff.2 (.inr ⟨rfl, rfl⟩)⟩, hreflection⟩
    · rw [if_neg fun h => hrealm h.1] at hreflection
      refine .inr (.inr ⟨exists_congr fun m => ?_, hreflection⟩)
      exact liveOn_newMonitor_iff.trans (or_iff_left fun h => hrealm h.2.symm)
  · -- a turn that ends a monitor gives back what that monitor found, unless it was ended before
    by_cases hlive : u.LiveOn r m
    · obtain ⟨before, checks, between, rfl, rfl⟩ := hlive.exists_made hw
      have hu : u = ((w.after before).newMonitor r checks).2.after between := after_append ..
      have hmask := (hu ▸ hlive).saved
      rw [← hu] at hmask
      exact .inr (.inl ⟨before, checks, between, rfl, hlive, hends.ended r,
        hlive.restored hr' hmask (hends.ended r)⟩)
    · refine .inr (.inr ⟨exists_congr fun m' => ?_, ?_⟩)
      · refine hends.liveOn_iff.trans (and_iff_left_of_imp fun h hm => hlive (hm ▸ h))
      · cases hsaved : (u.monitor m).mask.saved with
        | none => exact hends.of_saved_none hsaved r
        | some R =>
          rw [hends.of_saved hsaved, if_neg]
          rintro ⟨rfl, -⟩
          exact hlive (liveOn_of_saved hw (by rw [hsaved]; simp))
  · exact .inr (.inr ⟨exists_congr fun _ => hspares.liveOn_iff, hspares.reflection r⟩)

/-- Marks are hidden while some monitor is in use on the realm, and otherwise the realm answers as it
did in the beginning. -/
def Reverses (r : RealmId) (w u : World σ) : Prop :=
  (u.Watched r → (u.reflection r).Hides) ∧
    (¬ u.Watched r → (u.reflection r).Agrees (w.reflection r))

/-- When a monitor of the realm is in use no more, others are just if others were when it was made. -/
def InOrder (r : RealmId) (w : World σ) (turns : List (Turn σ)) : Prop :=
  ∀ before checks between turn rest, turns = before ++ .make r checks :: (between ++ turn :: rest) →
    let made := w.after before
    let u := w.after (before ++ .make r checks :: between)
    u.LiveOn r made.monitors.size → ¬ (u.perform turn).LiveOn r made.monitors.size →
      ((u.perform turn).Watched r ↔ made.Watched r)

theorem reverses_iff (h : ¬ (w.reflection r).Hides) :
    Reverses r w u ↔ (u.Watched r ↔ (u.reflection r).Hides) := by
  rw [Reverses, Reflection.agrees_iff, iff_false_right h]
  constructor
  · rintro ⟨hhides, hreveals⟩
    exact ⟨hhides, fun h => Classical.byContradiction fun hnone => hreveals hnone h⟩
  · intro h
    exact ⟨h.1, mt h.2⟩

theorem prefix_induction {motive : List (Turn σ) → Prop} (nil : motive [])
    (concat : ∀ turns turn, (∀ before, before <+: turns → motive before) →
      motive (turns ++ [turn])) (turns : List (Turn σ)) : motive turns := by
  suffices h : ∀ before, before <+: turns → motive before from h turns List.prefix_rfl
  induction turns using List.reverseRecOn with
  | nil =>
    intro before h
    rw [List.prefix_nil.1 h]
    exact nil
  | append_singleton turns turn ih =>
    intro before h
    rcases List.prefix_concat_iff.1 h with rfl | h
    · exact concat turns turn ih
    · exact ih before h

theorem hides_after (hw : w.monitors = #[]) (hr : r < w.realms.size) (h : (w.reflection r).Hides)
    (turns : List (Turn σ)) : ((w.after turns).reflection r).Hides := by
  induction turns using prefix_induction with
  | nil => exact h
  | concat turns turn ih =>
    rw [after_concat]
    rcases reflection_cases hw hr turns turn with
      ⟨-, hmasked⟩ | ⟨before, checks, between, rfl, -, -, hrestored⟩ | ⟨-, hsame⟩
    · rw [hmasked, Reflection.hides_iff]
      simp
    · rw [hrestored]
      exact ih before (List.prefix_append ..)
    · rw [hsame]
      exact ih turns List.prefix_rfl

theorem inOrder_of_reverses (hr : r < w.realms.size)
    (hnative : ¬ (w.reflection r).Hides)
    (h : ∀ before, before <+: turns → Reverses r w (w.after before)) : InOrder r w turns := by
  rintro before checks between turn rest rfl made u hlive hended
  have hmade := (reverses_iff hnative).1 (h before (List.prefix_append ..))
  have hu : u = (made.newMonitor r checks).2.after between := after_append ..
  have hturn : w.after (before ++ .make r checks :: between ++ [turn]) = u.perform turn :=
    after_concat ..
  have hprefix : before ++ .make r checks :: between ++ [turn] <+:
      before ++ .make r checks :: (between ++ turn :: rest) := ⟨rest, by simp⟩
  have hended' := (reverses_iff hnative).1 (h _ hprefix)
  have hr' : r < u.realms.size := (size_realms_after w _).symm ▸ hr
  have hmask := (hu ▸ hlive).saved
  rw [← hu] at hmask
  rw [hturn, hlive.restored hr' hmask hended] at hended'
  exact hended'.trans hmade.symm

theorem reverses_of_inOrder (hw : w.monitors = #[]) (hr : r < w.realms.size)
    (hnative : ¬ (w.reflection r).Hides) (h : InOrder r w turns) :
    Reverses r w (w.after turns) := by
  induction turns using prefix_induction with
  | nil =>
    rw [reverses_iff hnative]
    exact iff_of_false (fun ⟨m, hlive⟩ => not_liveOn hw hlive) hnative
  | concat turns turn ih =>
    have hearlier : ∀ before, before <+: turns →
        ((w.after before).Watched r ↔ ((w.after before).reflection r).Hides) := by
      rintro before ⟨later, rfl⟩
      refine (reverses_iff hnative).1 (ih before (List.prefix_append ..) ?_)
      rintro before' checks between turn' rest rfl
      exact h before' checks between turn' (rest ++ (later ++ [turn])) (by simp)
    rw [reverses_iff hnative, after_concat]
    rcases reflection_cases hw hr turns turn with
      ⟨hwatched, hmasked⟩ | ⟨before, checks, between, rfl, hlive, hended, hrestored⟩ |
      ⟨hwatched, hsame⟩
    · refine iff_of_true hwatched ?_
      rw [hmasked, Reflection.hides_iff]
      simp
    · rw [hrestored, ← hearlier before (List.prefix_append ..)]
      exact h before checks between turn [] (by simp) hlive hended
    · rw [hwatched, hsame]
      exact hearlier turns List.prefix_rfl

def choose (current : Option MonitorId) : Turn σ :=
  .other (fun w => { w with current }) fun w => ⟨keepsMasks_choose w current, fun _ => Iff.rfl⟩

theorem teardownCurrent_turns (w : World σ) : ∃ turns, w.teardownCurrent = w.after turns := by
  unfold teardownCurrent
  split
  · exact ⟨[], rfl⟩
  · next m _ => exact ⟨[.tearDown m, .release m, choose none], rfl⟩

theorem perform_hold (h : (w.monitor m).holders ≠ 0) : w.perform (.hold m) = w.hold m := if_neg h

theorem perform_hold_newMonitor (w : World σ) (r : RealmId) (checks : CheckConfig) :
    (w.newMonitor r checks).2.perform (.hold w.monitors.size) =
      (w.newMonitor r checks).2.hold w.monitors.size := by
  apply perform_hold
  rw [monitor_newMonitor, if_pos rfl]
  exact Nat.one_ne_zero

theorem init_turns (w : World σ) (r : RealmId) (checks : CheckConfig) :
    ∃ turns, (w.init r checks).2 = w.after turns := by
  obtain ⟨turns, hturns⟩ := teardownCurrent_turns w
  refine ⟨turns ++ [.make r checks] ++ [.hold (w.after turns).monitors.size] ++
    [choose (some (w.after turns).monitors.size)], ?_⟩
  rw [init_eq, hturns, after_concat, after_concat, after_concat, perform.eq_1, perform_hold_newMonitor]
  rfl

theorem invoke_turns (call : Call σ) (m : MonitorId) (arguments : List Value) (w : World σ) :
    ∃ turns, ((Monitor.invoke call m .teardown arguments).run w).2 = w.after turns := by
  rw [run_invoke_teardown]
  split
  · exact ⟨[], rfl⟩
  · next h =>
    refine ⟨[.hold m] ++ [.tearDown m] ++ [.release m], ?_⟩
    rw [after_concat, after_concat, after, List.foldl_cons, List.foldl_nil, perform_hold h]
    rfl

/-- Masks are put on a realm and taken off, in any order. What was done is undone, at every point, if
and only if each monitor in its turn leaves the realm as it found it, or the realm hid marks to begin
with. What programs do with the current monitor and through hook objects consists of such turns. -/
theorem masks_reversible_iff (hw : w.monitors = #[]) (hr : r < w.realms.size) :
    (∀ turns : List (Turn σ), (∀ before, before <+: turns → Reverses r w (w.after before)) ↔
      (w.reflection r).Hides ∨ InOrder r w turns) ∧
    ∀ u : World σ, (∃ turns, u.teardownCurrent = u.after turns) ∧
      (∀ r checks, ∃ turns, (u.init r checks).2 = u.after turns) ∧
      ∀ (call : Call σ) m arguments, ∃ turns,
        ((Monitor.invoke call m .teardown arguments).run u).2 = u.after turns := by
  constructor
  · intro turns
    by_cases hhides : (w.reflection r).Hides
    · refine iff_of_true (fun before _ => ?_) (.inl hhides)
      have h := hides_after hw hr hhides before
      exact ⟨fun _ => h, fun _ => Reflection.agrees_iff.2 (iff_of_true h hhides)⟩
    · rw [or_iff_right hhides]
      constructor
      · exact inOrder_of_reverses hr hhides
      · rintro h before ⟨later, rfl⟩
        refine reverses_of_inOrder hw hr hhides ?_
        rintro before' checks between turn rest rfl
        exact h before' checks between turn (rest ++ later) (by simp)
  · exact fun u => ⟨teardownCurrent_turns u, init_turns u,
      fun call m arguments => invoke_turns call m arguments u⟩

def bare : World Unit := { heap := ⟨#[{}]⟩, realms := #[{ global := 0 }], program := () }

/-- Two monitors are made, and torn down in the same order. The second is in use when the first
reveals the marks, and in the end nobody is and they are hidden. -/
def overlapping : List (Turn Unit) := [.make 0 {}, .make 0 {}, .tearDown 0, .tearDown 1]

theorem masks_reversible_iff_overlapping :
    bare.monitors = #[] ∧ 0 < bare.realms.size ∧
      (bare.after (overlapping.take 3)).LiveOn 0 1 ∧
      ¬ ((bare.after (overlapping.take 3)).reflection 0).Hides ∧
      (∀ m, (bare.after overlapping).LiveOn 0 m → False) ∧
      ¬ ((bare.after overlapping).reflection 0).Agrees (bare.reflection 0) ∧
      ¬ InOrder 0 bare overlapping := by
  have hlive : (bare.after (overlapping.take 3)).LiveOn 0 1 :=
    ⟨by decide +kernel, by decide +kernel, by decide +kernel, by decide +kernel⟩
  have hreveals : ¬ ((bare.after (overlapping.take 3)).reflection 0).Hides := by
    rw [Reflection.hides_iff]
    decide +kernel
  refine ⟨rfl, by decide, hlive, hreveals, ?_, ?_, fun horder => ?_⟩
  · rintro m ⟨hpresent, -, hworking, -⟩
    have hsize : (bare.after overlapping).monitors.size = 2 := by decide +kernel
    have htornDown : ∀ m < 2, ((bare.after overlapping).monitor m).tornDown = true := by
      decide +kernel
    rw [htornDown m (hsize ▸ hpresent)] at hworking
    cases hworking
  · rw [Reflection.agrees_iff, Reflection.hides_iff, Reflection.hides_iff]
    decide +kernel
  · exact hreveals (((masks_reversible_iff rfl (by decide)).1 overlapping).2 (.inr horder) _
      (List.take_prefix 3 _) |>.1 ⟨1, hlive⟩)

end World

end CoercionTrace
