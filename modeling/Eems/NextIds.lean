/-
The ids a scan takes up are those the scan before it would have drawn next.
-/
import Eems.ScanCoverage

namespace Eems

open Numbering Library

theorem getNextId_cases (type : KeyUnion) (db : Db) :
    getNextId type db = 0 ∨ ∃ id record, db.lookup (type.key id) = some record ∧
      getNextId type db = id + 1 := by
  rcases getNextId_spec type db with ⟨hzero, -⟩ | ⟨id, record, hid, hnext, -⟩
  · exact Or.inl hzero
  · exact Or.inr ⟨id, record, hid, hnext⟩

/-- The ids stored under the keys of a type. -/
def storedIds (type : KeyUnion) (db : Db) : Set Int :=
  {id | ∃ record, db.lookup (type.key id) = some record}

/-- `next` follows the greatest stored id of the type, and is 0 where there is
none: a key that is not stored, past all stored keys of its type. -/
structure FollowsGreatest (type : KeyUnion) (db : Db) (next : Int) : Prop where
  value : (storedIds type db = ∅ ∧ next = 0) ∨
    ∃ id, IsGreatest (storedIds type db) id ∧ next = 1 + id
  not_stored : db.lookup (type.key next) = none
  greater : ∀ id record, db.lookup (type.key id) = some record → type.key id < type.key next

/-- The next id of a type is one past the maximum, whatever else is stored. -/
theorem getNextId_followsGreatest {db : Db} (hrange : InRange db) (type : KeyUnion) :
    FollowsGreatest type db (getNextId type db) := by
  have hbelow : ∀ id record, db.lookup (type.key id) = some record → id < int64Max := by
    intro id record hstored
    simpa using hrange _ record hstored
  have hless : ∀ id record, db.lookup (type.key id) = some record → id < getNextId type db :=
    fun id record hstored => id_lt_getNextId type (hbelow id record hstored) hstored
  refine ⟨?_, ?_, fun id record hstored => KeyUnion.key_lt_key_iff.mpr (hless id record hstored)⟩
  · rcases getNextId_spec type db with ⟨hzero, hnone⟩ | ⟨last, record, hlast, hnext, hgreatest⟩
    · refine Or.inl ⟨Set.eq_empty_iff_forall_notMem.mpr ?_, hzero⟩
      rintro id ⟨record, hstored⟩
      exact absurd (hbelow id record hstored) (not_lt.mpr (hnone id record hstored))
    · refine Or.inr ⟨last, ⟨⟨record, hlast⟩, ?_⟩, by rw [hnext, add_comm]⟩
      rintro id ⟨other, hstored⟩
      exact hgreatest id other hstored (hbelow id other hstored)
  · cases hstored : db.lookup (type.key (getNextId type db)) with
    | none => rfl
    | some record => exact absurd (hless _ record hstored) (lt_irrefl _)

theorem getNextId_followsGreatest_films :
    getNextId .resourceKey filmSystem.db = 6 ∧
      FollowsGreatest .resourceKey filmSystem.db (getNextId .resourceKey filmSystem.db) :=
  ⟨by decide +kernel, getNextId_followsGreatest
    (@Reachable.recorded insertionSorter _ _ reachable_films []).2 .resourceKey⟩

/-- `next` is one past the greatest stored id of the type, or 0. -/
structure NextId (type : KeyUnion) (db : Db) (next : Int) : Prop where
  below : ∀ id record, db.lookup (type.key id) = some record → id < next
  reached : next = 0 ∨ ∃ record, db.lookup (type.key (next - 1)) = some record

theorem nextId_getNextId {db : Db} (hrange : InRange db) (type : KeyUnion) :
    NextId type db (getNextId type db) := by
  refine ⟨fun id record hid => id_lt_getNextId type ?_ hid, ?_⟩
  · simpa using hrange _ record hid
  · rcases getNextId_cases type db with hzero | ⟨id, record, hid, heq⟩
    · exact Or.inl hzero
    · exact Or.inr ⟨record, by rw [heq, add_sub_cancel_right, hid]⟩

/-- Within the range of ids the database determines the next one. -/
theorem NextId.getNextId_eq {type : KeyUnion} {db : Db} {next : Int} (h : NextId type db next)
    (hnonneg : ∀ key record, db.lookup key = some record → 0 ≤ key.id)
    (hmax : next ≤ int64Max) : getNextId type db = next := by
  have hupper : getNextId type db ≤ max next 0 := by
    rcases getNextId_cases type db with hzero | ⟨id, record, hid, heq⟩
    · rw [hzero]
      exact le_max_right _ _
    · have := h.below id record hid
      rw [heq]
      exact le_trans (by omega) (le_max_left _ _)
  rcases h.reached with hzero | ⟨record, hlast⟩
  · have hlower : 0 ≤ getNextId type db := getNextId_nonneg hnonneg
    rw [hzero, max_self] at hupper
    omega
  · have hlower := id_lt_getNextId type (by omega) hlast
    have hpos := hnonneg _ record hlast
    rw [KeyUnion.id_key] at hpos
    rw [max_eq_left (by omega)] at hupper
    omega

section Represents

variable {A : Type} [DecidableEq A] {plan : Plan A} {origin : Origin} {log : List A} {db : Db}
  {next : Int}

/-- What the origin's database holds is still there. -/
theorem Plan.Represents.lookup_kept (h : plan.Represents origin log db)
    (hbelow : IdsBelow origin.db origin.objectId origin.resourceId) {key : LibraryKey}
    {record : Record} (hkey : origin.db.lookup key = some record) :
    ∃ record', db.lookup key = some record' := by
  by_cases hmovies : key = .objectKey origin.moviesFolder
  · obtain ⟨movies, -, -, hstored⟩ := h.movies
    exact ⟨_, hmovies ▸ objectAt_eq_some_iff.mp hstored⟩
  · refine ⟨record, (h.frame key hmovies ?_).trans hkey⟩
    rw [Plan.mem_newKeys, not_or]
    constructor
    · rintro ⟨a, ha, rfl⟩
      rw [hbelow.objectKey_absent (Plan.key_range _ ha).1] at hkey
      simp at hkey
    · rintro ⟨p, hp, rfl⟩
      obtain ⟨q, hq, rfl⟩ := List.mem_map.mp hp
      rw [hbelow.resourceKey_absent (fst_mem_numberFrom hq).1] at hkey
      simp at hkey

theorem Plan.Represents.nextObjectId (h : plan.Represents origin log db) (hnodup : log.Nodup)
    (hbelow : IdsBelow origin.db origin.objectId origin.resourceId)
    (hafter : IdsBelow db (origin.objectId + log.length) next)
    (horigin : NextId .objectKey origin.db origin.objectId) :
    NextId .objectKey db (origin.objectId + log.length) := by
  refine ⟨fun id record hid => hafter.1 ⟨id⟩ record hid, ?_⟩
  cases hlog : log.length with
  | zero =>
      rw [Nat.cast_zero, add_zero]
      exact horigin.reached.imp id fun ⟨record, hlast⟩ => h.lookup_kept hbelow hlast
  | succ count =>
      obtain ⟨a, ha, hnumber⟩ : ∃ a ∈ log,
          number origin.objectId log a = origin.objectId + count :=
        exists_of_number_range hnodup (by omega) (by rw [hlog]; push_cast; omega)
      refine Or.inr ⟨.mediaObject (plan.object origin log a), ?_⟩
      have hobject := objectAt_eq_some_iff.mp (h.object a ha)
      rw [Plan.key, hnumber] at hobject
      push_cast
      rw [← add_assoc, add_sub_cancel_right]
      exact hobject

theorem Plan.Represents.nextResourceId (h : plan.Represents origin log db)
    (hbelow : IdsBelow origin.db origin.objectId origin.resourceId)
    (hafter : IdsBelow db next (origin.resourceId + (log.flatMap plan.files).length))
    (horigin : NextId .resourceKey origin.db origin.resourceId) :
    NextId .resourceKey db (origin.resourceId + (log.flatMap plan.files).length) := by
  refine ⟨fun id record hid => hafter.2 ⟨id⟩ record hid, ?_⟩
  cases hfiles : (log.flatMap plan.files).length with
  | zero =>
      rw [Nat.cast_zero, add_zero]
      exact horigin.reached.imp id fun ⟨record, hlast⟩ => h.lookup_kept hbelow hlast
  | succ count =>
      have hinfo := List.getElem?_eq_getElem (l := log.flatMap plan.files) (i := count) (by omega)
      have hlast := getElem?_numberFrom origin.resourceId (log.flatMap plan.files) count
      rw [hinfo, Option.map_some] at hlast
      have hmem := List.mem_map_of_mem (f := fun p : Int × FileInfo =>
        (ResourceKey.mk p.1, resourceOf p.2)) (List.mem_of_getElem? hlast)
      refine Or.inr ⟨.resource (resourceOf (log.flatMap plan.files)[count]), ?_⟩
      push_cast
      rw [← add_assoc, add_sub_cancel_right]
      exact h.resource _ hmem

end Represents

/-- The origin of a scan has the next ids of its database. -/
theorem OriginOf.nextIds {db : Db} {origin : Origin} {files : FileInfo → Prop}
    (h : OriginOf db origin) (hrange : InRange db) (hvalid : origin.Valid files) :
    NextId .objectKey origin.db origin.objectId ∧
      NextId .resourceKey origin.db origin.resourceId := by
  have hobject := nextId_getNextId hrange .objectKey
  have hresource := nextId_getNextId hrange .resourceKey
  obtain ⟨movies, hmovies, -⟩ := hvalid.movies
  have hbelow := hvalid.below
  cases h with
  | found stored listed => exact ⟨hobject, hresource⟩
  | created stored empty =>
      refine ⟨⟨fun id record hid => hbelow.1 ⟨id⟩ record hid, Or.inr ⟨.mediaObject movies, ?_⟩⟩,
        ⟨fun id record hid => hbelow.2 ⟨id⟩ record hid, ?_⟩⟩
      · rw [add_sub_cancel_right]
        exact objectAt_eq_some_iff.mp hmovies
      · refine hresource.reached.imp id fun ⟨record, hlast⟩ => ⟨record, ?_⟩
        rw [OrderedMap.lookup_write_of_notMem _ (by simp [putBatch, KeyUnion.key])]
        exact hlast

end Eems
