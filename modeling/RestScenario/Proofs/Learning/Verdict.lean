import RestScenario.Learning.Derivation
import RestScenario.Learning.Refinement
import RestScenario.Proofs.Learning.Relation
import RestScenario.Proofs.Ordered.Map

/-!
# Verdicts after names

Names derive tables and give no verdict on them (`Knowledge.confirmed_tablesOf_init`). Verdicts come
from executions, one resource at a time; relations between resources leave them alone.
-/

namespace RestScenario

namespace TableKnowledge

variable {t : TableKnowledge} {touched : String}

theorem confirmed_confirm : (t.confirm touched).confirmed = t.confirmed.insert touched true := by
  unfold confirm
  dsimp only
  split <;> rfl

end TableKnowledge

namespace Knowledge

variable {k : Knowledge} {key resource table : String}

theorem tablesOf_mapTables_self {f : TableKnowledge → TableKnowledge} :
    (k.mapTables key f).tablesOf key = f (k.tablesOf key) := by
  unfold tablesOf mapTables
  dsimp only
  rw [SortedMap.get?_upsert_self]
  rfl

theorem tablesOf_mapTables_of_ne {f : TableKnowledge → TableKnowledge} (h : key ≠ resource) :
    (k.mapTables resource f).tablesOf key = k.tablesOf key := by
  unfold tablesOf mapTables
  dsimp only
  rw [SortedMap.get?_upsert_of_ne _ h]

theorem tables_updateShared {members : SortedSet String} {probability : Float} {confirmed : Bool}
    {tag : String} : (k.updateShared members table probability confirmed tag).tables = k.tables :=
  List.foldlRecOn (motive := fun k' : Knowledge => k'.tables = k.tables) _ _ rfl fun _ h _ _ => h

theorem tables_relateWriters : (k.relateWriters table).tables = k.tables := by
  unfold relateWriters
  dsimp only
  split
  · exact tables_updateShared
  · rfl

theorem tables_updateDependency {source : String} {targets : SortedSet String} {tag : String}
    {probability : Float} : (k.updateDependency source targets tag probability).tables = k.tables := by
  unfold updateDependency
  split <;> rfl

theorem tables_relateByType {r other : Resource} {refType : String} :
    (k.relateByType r refType other).tables = k.tables := by
  unfold relateByType
  split
  · split
    · rfl
    · dsimp only
      split
      · exact tables_updateDependency
      · rfl
  · rfl

theorem tables_init {m : ResourceModel} {schema : Schema} {snapshot : Snapshot} :
    (k.init m schema snapshot).tables = m.resources.map fun _ r =>
      TableKnowledge.ofResource schema k.threshold k.tokenParser r := by
  unfold init relateByTypes relateByTable
  dsimp only
  refine List.foldlRecOn (motive := fun k' : Knowledge => k'.tables = _) _ _ ?_ fun k' h r _ => ?_
  · refine List.foldlRecOn (motive := fun k' : Knowledge => k'.tables = _) _ _ rfl
      fun k' h e _ => ?_
    exact tables_updateShared.trans h
  · refine List.foldlRecOn (motive := fun k' : Knowledge => k'.tables = _) _ _ h
      fun k' h refType _ => ?_
    refine List.foldlRecOn (motive := fun k' : Knowledge => k'.tables = _) _ _ h
      fun k' h other _ => ?_
    exact tables_relateByType.trans h

/-- Names give no verdict. -/
theorem confirmed_ofResource {schema : Schema} {threshold : Float} {tokenParser : Bool}
    {r : Resource} :
    (TableKnowledge.ofResource schema threshold tokenParser r).confirmed = ∅ := by
  have deriveBest : ∀ {names input level} {t : TableKnowledge}, t.confirmed = ∅ →
      (t.deriveBest names threshold input level).confirmed = ∅ := by
    intro names input level t h
    exact List.foldlRecOn (motive := fun t : TableKnowledge => t.confirmed = ∅) _ _ h
      fun _ h _ _ => h
  unfold TableKnowledge.ofResource TableKnowledge.ofNames
  dsimp only
  refine List.foldlRecOn (motive := fun t : TableKnowledge => t.confirmed = ∅) _ _ ?_
    fun t h refType _ => deriveBest h
  refine List.foldlRecOn (motive := fun t : TableKnowledge => t.confirmed = ∅) _ _ rfl
    fun t h element _ => ?_
  unfold TableKnowledge.deriveSegment
  split
  · exact deriveBest h
  · split
    · exact List.foldlRecOn (motive := fun t : TableKnowledge => t.confirmed = ∅) _ _ h
        fun t h word _ => deriveBest h
    · exact h

theorem confirmed_tablesOf_init {m : ResourceModel} {schema : Schema} {snapshot : Snapshot} :
    ((k.init m schema snapshot).tablesOf key).confirmed = ∅ := by
  unfold tablesOf
  rw [tables_init, SortedMap.get?_map]
  cases m.resources.get? key with
  | none => rfl
  | some r => exact confirmed_ofResource

end Knowledge

end RestScenario
