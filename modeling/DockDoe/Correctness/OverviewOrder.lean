import DockDoe.Model.Overview

/-! The sectors of the overview discs stand in the order of the rows of the container table. -/

namespace DockDoe

open KeyedFolds StableSorts

/-- The rows of the table are those of the stacks, one behind the other, by the cases of an empty
table and none.
-/
theorem containerSection_rows (host : String) (containers : List ContainerMetrics)
    : (containerSection host containers).rows
      = sortedGroups stackKey ContainerMetrics.name containers := by
  unfold containerSection
  cases containers with
  | nil => rfl
  | cons first rest =>
      rw [List.isEmpty_cons, if_neg Bool.false_ne_true, ContainerSection.rows, List.flatMap_map]
      rfl

/-- The rows of each stack are sorted by name, as its group is. -/
theorem stackSection_sorted {host : String} {containers : List ContainerMetrics}
    {sections : List StackSection} (shown : containerSection host containers = .stacks sections)
    : ∀ stack ∈ sections, stack.rows.Pairwise (fun a b => a.name ≤ b.name) := by
  unfold containerSection at shown
  split at shown
  · cases shown
  · cases shown
    intro stack member
    obtain ⟨group, _, rfl⟩ := List.mem_map.mp member
    exact mergeSort_byName group.2

/-- The sectors are the rows of the table in their order, and both are the containers of the
snapshot. Witness: grouping by stack and sorting groups and members is one sort by stack and
name.
-/
theorem overview_eq_rows (host : String) (dash : Dashboard)
    : overviewContainers dash = (containerSection host dash.containers).rows
      ∧ overviewEntries dash
        = (containerSection host dash.containers).rows.map overviewEntry
      ∧ (overviewContainers dash).Perm dash.containers
      ∧ (containerSection host dash.containers).rows.Perm dash.containers
      ∧ ∀ sections, containerSection host dash.containers = .stacks sections
        → ∀ stack ∈ sections, stack.rows.Pairwise (fun a b => a.name ≤ b.name) := by
  have same : overviewContainers dash = (containerSection host dash.containers).rows := by
    rw [containerSection_rows]
    exact mergeSort_byKeyThenName dash.containers
  refine ⟨same, ?_, ?_, ?_, ?_⟩
  · rw [overviewEntries, same]
  · exact List.mergeSort_perm _ _
  · rw [containerSection_rows]
    exact sortedGroups_perm dash.containers
  · intro sections shown
    exact stackSection_sorted shown

end DockDoe
