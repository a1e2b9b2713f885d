import DockDoe.Correctness.HeaderTexts
import DockDoe.Model.Stacks

/-! The dependencies that a `depends_on` label records are read back from it, whatever else the
label has in and between its entries.
-/

namespace DockDoe

/-- A dependency as it is written into a label. -/
structure LabelledDep where
  service : Text
  condition : Text
  restart : Text
  named : service ≠ []
  starts : ∀ c ∈ service.head?, isWhitespace c = false
  ends : ∀ c ∈ service.getLast?, isWhitespace c = false
  serviceFree : ',' ∉ service ∧ ':' ∉ service
  conditionFree : ',' ∉ condition ∧ ':' ∉ condition
  restartFree : ',' ∉ restart

namespace LabelledDep

/-- `service:condition:restart`. -/
def text (entry : LabelledDep) : Text :=
  entry.service ++ ':' :: (entry.condition ++ ':' :: entry.restart)

/-- The dependency that an entry stands for. -/
structure StandsFor (entry : LabelledDep) (dep : Dep) : Prop where
  service : dep.service = entry.service
  healthy : dep.condition = .healthy ↔ entry.condition = "service_healthy".toList
  completed
    : dep.condition = .completedSuccessfully
      ↔ entry.condition = "service_completed_successfully".toList
  started
    : dep.condition = .started
      ↔ entry.condition ≠ "service_healthy".toList
        ∧ entry.condition ≠ "service_completed_successfully".toList

end LabelledDep

/-- What stands between two commas of a label: white space, with or without an entry in it. -/
inductive LabelPart
  | blank (space : Text) (isSpace : ∀ c ∈ space, isWhitespace c = true)
  | dep (before : Text) (entry : LabelledDep) (after : Text)
    (beforeSpace : ∀ c ∈ before, isWhitespace c = true)
    (afterSpace : ∀ c ∈ after, isWhitespace c = true)

namespace LabelPart

def text : LabelPart → Text
  | .blank space _ => space
  | .dep before entry after _ _ => before ++ entry.text ++ after

def entry? : LabelPart → Option LabelledDep
  | .blank _ _ => none
  | .dep _ entry _ _ _ => some entry

end LabelPart

/-- The label that joins its parts with commas. -/
def dependsOnLabel (parts : List LabelPart) : Text :=
  [','].intercalate (parts.map LabelPart.text)

section Entries

theorem comma_not_mem_space {space : Text} (isSpace : ∀ c ∈ space, isWhitespace c = true)
    : ',' ∉ space := by
  intro member
  cases isSpace ',' member

theorem trim_blank {space : Text} (isSpace : ∀ c ∈ space, isWhitespace c = true)
    : trim space = [] := by
  have starts : trimStart space = [] := List.dropWhile_eq_nil_iff.mpr isSpace
  rw [trim, starts, trimEnd, List.rdropWhile_nil]

/-- Trimming stops in front of the service and behind the second colon, as a service begins
without white space and a colon is none.
-/
theorem trim_entry {before : Text} (entry : LabelledDep)
    (beforeSpace : ∀ c ∈ before, isWhitespace c = true) (after : Text)
    : trim (before ++ entry.text ++ after)
      = entry.service
        ++ ':' :: (entry.condition ++ ':' :: trimEnd (entry.restart ++ after)) := by
  have colon : isWhitespace ':' = false := by decide
  have whole
      : before ++ entry.text ++ after
        = before ++ ((entry.service ++ ':' :: entry.condition)
          ++ ':' :: (entry.restart ++ after)) := by
    simp [LabelledDep.text]
  obtain ⟨first, rest, service⟩ := List.exists_cons_of_ne_nil entry.named
  have starts
      : trimStart ((entry.service ++ ':' :: entry.condition) ++ ':' :: (entry.restart ++ after))
        = (entry.service ++ ':' :: entry.condition) ++ ':' :: (entry.restart ++ after) := by
    rw [service]
    exact List.dropWhile_cons_of_neg (by simp [entry.starts first (by rw [service]; rfl)])
  rw [trim, whole, trimStart, List.dropWhile_append_of_pos beforeSpace]
  change trimEnd (trimStart _) = _
  rw [starts, trimEnd, Cuts.rdropWhile_append_of_last colon, List.append_assoc]
  rfl

/-- A blank part stands for no dependency. -/
theorem parseDep_blank {space : Text} (isSpace : ∀ c ∈ space, isWhitespace c = true)
    : parseDep space = none := by
  rw [parseDep, trim_blank isSpace]
  rfl

/-- An entry is read as what it stands for, whatever its restart flag. Witness: its first two
fields end with colons, so trimming and splitting leave them whole.
-/
theorem parseDep_entry {before : Text} (entry : LabelledDep)
    (beforeSpace : ∀ c ∈ before, isWhitespace c = true) (after : Text)
    : ∃ dep, parseDep (before ++ entry.text ++ after) = some dep ∧ entry.StandsFor dep := by
  have fields
      : (trim (before ++ entry.text ++ after)).splitOn ':'
        = entry.service :: entry.condition
          :: (trimEnd (entry.restart ++ after)).splitOn ':' := by
    rw [trim_entry entry beforeSpace after,
      List.splitOn_append_cons_self_of_not_mem entry.serviceFree.2,
      List.splitOn_append_cons_self_of_not_mem entry.conditionFree.2]
  have named : entry.service.isEmpty = false := by simpa using entry.named
  have service : trim entry.service = entry.service := trim_of_ends entry.starts entry.ends
  rw [parseDep, fields]
  simp only [service, named, List.head?_cons]
  refine ⟨_, rfl, ?_⟩
  by_cases healthy : entry.condition = "service_healthy".toList
  · have other : entry.condition ≠ "service_completed_successfully".toList := by
      rw [healthy]
      decide
    simp only [if_pos healthy]
    exact ⟨rfl, iff_of_true rfl healthy, iff_of_false nofun other,
      iff_of_false nofun (fun neither => neither.1 healthy)⟩
  · simp only [if_neg healthy]
    by_cases completed : entry.condition = "service_completed_successfully".toList
    · simp only [if_pos completed]
      exact ⟨rfl, iff_of_false nofun healthy, iff_of_true rfl completed,
        iff_of_false nofun (fun neither => neither.2 completed)⟩
    · simp only [if_neg completed]
      exact ⟨rfl, iff_of_false nofun healthy, iff_of_false nofun completed,
        iff_of_true rfl ⟨healthy, completed⟩⟩

/-- No comma stands inside a part, by the cases of a blank one and an entry. -/
theorem comma_not_mem_part (part : LabelPart) : ',' ∉ part.text := by
  cases part with
  | blank space isSpace => exact comma_not_mem_space isSpace
  | dep before entry after beforeSpace afterSpace =>
      simp [LabelPart.text, LabelledDep.text, comma_not_mem_space beforeSpace,
        comma_not_mem_space afterSpace, entry.serviceFree.1, entry.conditionFree.1,
        entry.restartFree]

/-- The parts of a label are found again, each between two commas, as no part has one inside. -/
theorem parseDependsOn_parts (parts : List LabelPart)
    : parseDependsOn (dependsOnLabel parts) = (parts.map LabelPart.text).filterMap parseDep := by
  rcases eq_or_ne parts [] with rfl | nonempty
  · rfl
  · have split : (dependsOnLabel parts).splitOn ',' = parts.map LabelPart.text := by
      refine List.splitOn_intercalate ',' ?_ (by simpa using nonempty)
      intro text member
      obtain ⟨part, _, rfl⟩ := List.mem_map.mp member
      exact comma_not_mem_part part
    rw [parseDependsOn, split]

end Entries

/-- A label is read as one dependency for each of its entries, in their order, by induction on
the parts between its commas.
-/
theorem parseDependsOn_label (parts : List LabelPart)
    : List.Forall₂ LabelledDep.StandsFor (parts.filterMap LabelPart.entry?)
        (parseDependsOn (dependsOnLabel parts)) := by
  rw [parseDependsOn_parts]
  induction parts with
  | nil => exact .nil
  | cons part rest ih =>
      cases part with
      | blank space isSpace =>
          rw [List.map_cons, LabelPart.text, List.filterMap_cons_none (parseDep_blank isSpace)]
          exact ih
      | dep before entry after beforeSpace afterSpace =>
          obtain ⟨dep, parsed, stands⟩ := parseDep_entry entry beforeSpace after
          rw [List.map_cons, LabelPart.text, List.filterMap_cons_some parsed]
          exact .cons stands ih

end DockDoe
