import CoercionTrace.Files.Tree

/-!
# Trees that are written to

Where paths lead before and after a text is written. Main statement: a text is read back by the path
that it was written under, and no other file has changed (`written_of_write`).
-/

namespace CoercionTrace

def Place.name? : Place → Option String
  | .file name => some name
  | .directory => none
  | .absent name => some name

namespace FileTree

variable {t t' : FileTree} {name text path : String} {above : Nat} {here parts : List String}
  {p : Place}

def put (t : FileTree) (name text : String) : FileTree := ⟨t.files.insert name text⟩

theorem contains_put (other : String) :
    (t.put name text).files.contains other = (decide (name = other) || t.files.contains other) := by
  rw [put, Table.contains, Table.find?_insert]
  split <;> simp [*, Table.contains]

theorem hasDirectory_put {d : String} (h : t.hasDirectory d = true) :
    (t.put name text).hasDirectory d = true := by
  rw [hasDirectory, List.any_eq_true] at h ⊢
  obtain ⟨k, hk, hbelow⟩ := h
  refine ⟨k, ?_, hbelow⟩
  rw [put, Table.keys_insert]
  split
  · exact hk
  · exact List.mem_append_left _ hk

theorem walk_name (h : t.walk above here parts = .ok p) (hp : p.name? = some name) :
    t.files.contains name = true ∨ t.hasDirectory name = false := by
  fun_induction walk t above here parts with
  | case1 =>
    cases h
    cases hp
  | case2 _ _ _ ih | case3 _ _ _ _ _ ih | case4 _ _ _ _ _ ih => exact ih h
  | case5 | case6 | case8 | case11 => cases h
  | case7 above here part rest _ _ _ _ _ hfile =>
    cases h
    obtain rfl := Option.some.inj hp
    exact .inl hfile
  | case9 _ _ _ _ _ _ _ _ _ _ _ ih => exact ih h
  | case10 above here part rest _ _ _ _ _ _ hdirectory =>
    cases h
    obtain rfl := Option.some.inj hp
    exact .inr (by simpa using hdirectory)

theorem walk_put (h : t.walk above here parts = .ok p) (hp : p.name? = some name) :
    (t.put name text).walk above here parts = .ok (.file name) := by
  fun_induction walk t above here parts with
  | case1 =>
    cases h
    cases hp
  | case2 above here rest ih => simpa [walk] using ih h
  | case3 above here rest hhere _ ih => simpa [walk, hhere] using ih h
  | case4 above here rest hhere _ ih => simpa [walk, hhere] using ih h
  | case5 | case6 | case8 | case11 => cases h
  | case7 above here part rest hdot hdots hlong habove reached _ hend =>
    cases h
    obtain rfl := Option.some.inj hp
    simp [walk, hdot, hdots, hlong, habove, contains_put, hend, reached]
  | case9 above here part rest hdot hdots hlong habove passed hfile hdirectory ih =>
    -- What is passed has files below it, so it is not where the file is put.
    have hpassed : name ≠ passed := by
      rintro rfl
      rcases walk_name h hp with hname | hname
      · exact hfile hname
      · rw [hdirectory] at hname
        cases hname
    simpa [walk, hdot, hdots, hlong, habove, contains_put, hpassed, hfile, hasDirectory_put hdirectory,
      passed] using ih h
  | case10 above here part rest hdot hdots hlong habove reached _ _ hend =>
    cases h
    obtain rfl := Option.some.inj hp
    simp [walk, hdot, hdots, hlong, habove, contains_put, hend, reached]

theorem locate_put (h : t.locate false path = .ok p) (hp : p.name? = some name)
    (hslash : path.toList.getLast? ≠ some '/') : (t.put name text).locate true path = .ok (.file name) := by
  simp only [locate] at h ⊢
  split at h
  · cases h
  next hempty =>
  split at h
  · cases h
  next hnul =>
  split at h
  · cases h
  next hlong =>
  rw [if_neg hempty, if_neg hnul, if_neg hlong]
  split at h
  · split at h
    · cases h
      cases hp
    · cases h
  next hroot =>
  rw [if_neg hroot, if_neg (by simpa using hslash)]
  exact walk_put (by simpa using h) hp

def Written (t t' : FileTree) (path text : String) : Prop :=
  t'.read path = .ok text ∧
    ∃ name, t'.locate true path = .ok (.file name) ∧
      ∀ other, other ≠ name → t'.files.find? other = t.files.find? other

theorem read_put (h : (t.put name text).locate true path = .ok (.file name)) :
    (t.put name text).read path = .ok text := by
  rw [read, h]
  simp [put]

theorem written_of_write (h : t.write path text = .ok t') : t.Written t' path text := by
  have hwritten : ∀ {name p}, t.locate false path = .ok p → p.name? = some name →
      path.toList.getLast? ≠ some '/' → t.Written (t.put name text) path text := by
    intro name p hlocate hp hslash
    have hput : (t.put name text).locate true path = .ok (.file name) := locate_put hlocate hp hslash
    refine ⟨read_put hput, name, hput, fun other hother => ?_⟩
    exact t.files.find?_insert_ne text hother.symm
  rw [write] at h
  split at h
  · cases h
  · next name hlocate =>
    split at h
    · cases h
    · next hslash =>
      cases h
      exact hwritten hlocate rfl hslash
  · next name hlocate =>
    split at h
    · cases h
    · next hslash =>
      cases h
      exact hwritten hlocate rfl hslash
  · cases h

end FileTree

end CoercionTrace
